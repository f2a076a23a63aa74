import SqlCompiler.Config.Basic
import SqlCompiler.Proofs.Quoting
import SqlCompiler.Schema.Change

/-!
# Creating and dropping a table

A catalog knows the tables of a database and what is attached to each of them by name.  The
statements that create a table and those that drop it come from two functions that have to agree on
names, on their order and on what stands inside the table.  Here the statements are read as a
database reads them, by their words and quoted names, and are carried out on a catalog, which
refuses whatever does not fit.

A foreign key is attached by name to the table that has it.  The table that it refers to is left
out: unless that is the same table, which is there for as long as the foreign key is, none of the
statements creates or drops it, so whether it is there does not depend on them.  Its presence is a
condition on where the foreign key can be attached, and none on how that is undone.

* `Effect.read?` — what a statement does, as far as a catalog records it; `Effect.read?_text` for
  the statements of all dialects.
* `Catalog`, `Effect.apply`, `Effect.run` — statements carried out on a catalog.
* `run_attach`, `run_detach` — one name after the other is attached or detached.
* `Table.drop_undoes_create` — dropping a table undoes creating it.
-/

set_option autoImplicit false
namespace SqlCompiler
namespace Schema

open Text

/-! ## Reading statements -/

/-- A part of a statement. -/
inductive Part where
  | words (text : String)
  | name
  /-- The end of the statement. -/
  | done

/-- The names in a statement that begins with the given parts. -/
def Part.names? (q : Quote) : List Part → String → Option (List String)
  | [], _ => some []
  | .words text :: parts, t => (after? text t).bind (names? q parts)
  | .name :: parts, t => (q.read? t).bind fun (n, rest) => (names? q parts rest).map (n :: ·)
  | .done :: _, t => if t.isEmpty then some [] else none

/-- Something that is attached to a table by its name. -/
inductive Attachment where
  | foreignKey (name : String)
  | index (name : String)
  | trigger (name : String)
deriving DecidableEq

/-- What goes away with a table. -/
def Attachment.isIndex : Attachment → Bool
  | index _ => true
  | _ => false

/-- What a statement does to a catalog. -/
inductive Effect where
  | createTable (table : String)
  | attach (table : String) (x : Attachment)
  | detach (table : String) (x : Attachment)
  | dropTable (table : String)
deriving DecidableEq

namespace Effect

/-- The words that remove a foreign key: most databases call it a constraint. -/
def keyWords : Database → String
  | .mysql => " drop foreign key "
  | _ => " drop constraint "

/-- A sort of statement: its parts, and what it does to the names in it. -/
structure Form where
  parts : List Part
  effect : List String → Option Effect

/-- The statements about tables. -/
def forms (b : Database) : List Form :=
  [⟨[.words "create table ", .name, .words " ("],
      fun | [t] => some (.createTable t) | _ => none⟩,
    ⟨[.words "alter table ", .name, .words " add ", .words "constraint ", .name,
        .words " foreign key("],
      fun | [t, n] => some (.attach t (.foreignKey n)) | _ => none⟩,
    ⟨[.words "create index ", .name, .words " on ", .name, .words " ("],
      fun | [n, t] => some (.attach t (.index n)) | _ => none⟩,
    ⟨[.words "create unique index ", .name, .words " on ", .name, .words " ("],
      fun | [n, t] => some (.attach t (.index n)) | _ => none⟩,
    ⟨[.words "create trigger ", .name, .words " before update or delete on ", .name,
        .words " for each row execute procedure lo_manage(", .name, .words ")", .done],
      fun | [n, t, _] => some (.attach t (.trigger n)) | _ => none⟩,
    ⟨[.words "drop trigger ", .name, .words " on ", .name, .done],
      fun | [n, t] => some (.detach t (.trigger n)) | _ => none⟩,
    ⟨[.words "alter table ", .name, .words (keyWords b), .name, .done],
      fun | [t, n] => some (.detach t (.foreignKey n)) | _ => none⟩,
    ⟨[.words "drop table ", .name, .done],
      fun | [t] => some (.dropTable t) | _ => none⟩]

/-- What a statement does: the first form that it has says so. -/
def read? (b : Database) (t : String) : Option Effect :=
  (forms b).findSome? fun f => (Part.names? b.nameMarks f.parts t).bind f.effect

/-- The statements of some changes are read as these effects, one for each. -/
def Reads (config : Config) (changes : List Change) (es : List Effect) : Prop :=
  changes.map (fun x => read? config.database (x.text config.dialect)) = es.map some

end Effect

/-! ## Statements of the built-in dialects -/

/-- Two texts that differ before either of them ends. -/
def Clash (text text' : String) : Prop :=
  ¬ text.toList <+: text'.toList ∧ ¬ text'.toList <+: text.toList

instance (text text' : String) : Decidable (Clash text text') :=
  inferInstanceAs (Decidable (_ ∧ _))

/-- What stands behind a name begins with a blank or a parenthesis. -/
def Follows (text : String) : Prop :=
  text.toList.head? = some ' ' ∨ text.toList.head? = some ')'

instance (text : String) : Decidable (Follows text) :=
  inferInstanceAs (Decidable (_ ∨ _))

namespace Part

variable {b : Database} {parts : List Part} {ps : List Piece}

@[simp] theorem names?_nil (q : Quote) (t : String) : names? q [] t = some [] :=
  rfl

@[simp] theorem names?_words (text : String) :
    names? b.nameMarks (.words text :: parts) (Piece.joined b.nameMarks (.words text :: ps))
      = names? b.nameMarks parts (Piece.joined b.nameMarks ps) := by
  rw [names?, Piece.joined_cons, Piece.text, after?_append, Option.bind_some]

@[simp] theorem names?_words_of_clash {text text' : String} (h : Clash text text') :
    names? b.nameMarks (.words text :: parts) (Piece.joined b.nameMarks (.words text' :: ps))
      = none := by
  have hafter : after? text (text' ++ Piece.joined b.nameMarks ps) = none := by
    rw [after?, if_neg]
    rw [List.isPrefixOf_iff_prefix, String.toList_append]
    intro hprefix
    rcases List.prefix_or_prefix_of_prefix hprefix (List.prefix_append _ _) with hp | hp
    · exact h.1 hp
    · exact h.2 hp
  rw [names?, Piece.joined_cons, Piece.text, hafter, Option.bind_none]

theorem names?_name (name : String)
    (h : (Piece.joined b.nameMarks ps).toList.head? ≠ some b.nameMarks.closing) :
    names? b.nameMarks (.name :: parts) (Piece.joined b.nameMarks (.name name :: ps))
      = (names? b.nameMarks parts (Piece.joined b.nameMarks ps)).map (name :: ·) := by
  have hread : b.nameMarks.read? (b.nameMarks.write name ++ Piece.joined b.nameMarks ps)
      = some (name, Piece.joined b.nameMarks ps) :=
    Quote.read?_eq_some_iff.mpr ⟨rfl, h⟩
  rw [names?, Piece.joined_cons, Piece.text, hread, Option.bind_some]

@[simp] theorem names?_name_words (name : String) {text : String} (h : Follows text) :
    names? b.nameMarks (.name :: parts)
        (Piece.joined b.nameMarks (.name name :: .words text :: ps))
      = (names? b.nameMarks parts (Piece.joined b.nameMarks (.words text :: ps))).map
          (name :: ·) := by
  refine names?_name name ?_
  have hmarks : b.nameMarks.closing ≠ ' ' ∧ b.nameMarks.closing ≠ ')' := by
    cases b <;> decide
  rw [Piece.joined_cons, Piece.text, String.toList_append, List.head?_append]
  rcases h with h | h
  all_goals
    rw [h]
    intro heq
  · exact hmarks.1 (Option.some.inj heq).symm
  · exact hmarks.2 (Option.some.inj heq).symm

@[simp] theorem names?_name_done (name : String) :
    names? b.nameMarks [.name, .done] (Piece.joined b.nameMarks [.name name]) = some [name] :=
  names?_name name nofun

@[simp] theorem names?_done : names? b.nameMarks [.done] (Piece.joined b.nameMarks []) = some [] :=
  rfl

end Part

/-- What a change does to a catalog. -/
def Change.effect? : Change → Option Effect
  | createTable table _ _ _ => some (.createTable table)
  | addForeignKey table key => some (.attach table (.foreignKey key.name))
  | createIndex table index => some (.attach table (.index index.name))
  | createTrigger trigger table _ => some (.attach table (.trigger trigger))
  | dropTrigger trigger table => some (.detach table (.trigger trigger))
  | dropForeignKey table key => some (.detach table (.foreignKey key))
  | dropTable table => some (.dropTable table)
  | createSequence _ _ | dropSequence _ => none

theorem quote_of_config (config : Config) : config.dialect.quote = config.database.nameMarks := by
  obtain ⟨database, _, _⟩ := config
  cases database <;> rfl

theorem dropForeignKey_of_config (config : Config) :
    " " ++ config.dialect.tables.dropForeignKey ++ " " = Effect.keyWords config.database := by
  obtain ⟨database, _, _⟩ := config
  cases database <;> rfl

/-- **A statement is read as what it is meant to do.** -/
theorem Effect.read?_text (config : Config) {c : Change} {e : Effect} (h : c.effect? = some e) :
    read? config.database (c.text config.dialect) = some e := by
  have hkey : Follows (keyWords config.database) ∧ Clash " add " (keyWords config.database) := by
    cases config.database <;> decide
  obtain ⟨hfollows, hadd⟩ := hkey
  -- the forms before the right one differ from it in their words
  rw [Change.text, quote_of_config, read?, forms]
  cases c with
  | createTable _ _ _ _ | createTrigger _ _ _ | dropTrigger _ _ | dropTable _ =>
    cases h
    simp (disch := decide +kernel) [Change.pieces, List.findSome?_cons]
  | addForeignKey _ _ =>
    cases h
    simp (disch := decide +kernel) [Change.pieces, ForeignKey.pieces, List.findSome?_cons]
  | createIndex _ index =>
    cases h
    cases hunique : index.unique
    all_goals
      simp (disch := decide +kernel) [Change.pieces, hunique, List.findSome?_cons]
  | dropForeignKey _ _ =>
    cases h
    rw [Change.pieces, dropForeignKey_of_config]
    simp (disch := first | assumption | decide +kernel) [List.findSome?_cons]
  | createSequence _ _ | dropSequence _ => cases h

theorem Effect.reads_of_effect? {config : Config} {changes : List Change} {es : List Effect}
    (h : changes.map Change.effect? = es.map some) : Reads config changes es := by
  rw [Reads, ← h]
  refine List.map_congr_left fun c hc => ?_
  have hmem : c.effect? ∈ es.map some := h ▸ List.mem_map_of_mem hc
  obtain ⟨e, -, he⟩ := List.mem_map.mp hmem
  rw [← he, read?_text config he.symm]

/-! ## Catalogs -/

/-- What is attached to each table, if there is such a table.  What a foreign key refers to is not
recorded. -/
def Catalog := String → Option (List Attachment)

namespace Catalog

/-- A catalog with another entry for a table. -/
def set (c : Catalog) (table : String) (entry : Option (List Attachment)) : Catalog :=
  fun t => if t = table then entry else c t

variable (c : Catalog) (table : String)

@[simp] theorem set_self (entry : Option (List Attachment)) : c.set table entry table = entry :=
  if_pos rfl

@[simp] theorem set_set (entry entry' : Option (List Attachment)) :
    (c.set table entry).set table entry' = c.set table entry' := by
  funext t
  simp only [set]
  split <;> rfl

/-- Setting an entry to what it is changes nothing. -/
theorem set_eq_self : c.set table (c table) = c := by
  funext t
  rw [set]
  split
  · next h => rw [h]
  · rfl

end Catalog

namespace Effect

/-- Carries out a statement.  A table has to be new when it is created, and what is attached to it
has to have a new name; nothing can be detached that is not there, and a table is dropped only if
it is there and has nothing left but indexes. -/
def apply (c : Catalog) : Effect → Option Catalog
  | createTable table =>
    match c table with
    | none => some (c.set table (some []))
    | some _ => none
  | attach table x =>
    match c table with
    | some xs => if x ∈ xs then none else some (c.set table (some (xs ++ [x])))
    | none => none
  | detach table x =>
    match c table with
    | some xs => if x ∈ xs then some (c.set table (some (xs.filter (· ≠ x)))) else none
    | none => none
  | dropTable table =>
    match c table with
    | some xs => if xs.all Attachment.isIndex then some (c.set table none) else none
    | none => none

/-- Carries out one statement after the other. -/
def run (c : Catalog) (es : List Effect) : Option Catalog :=
  es.foldlM apply c

@[simp] theorem run_nil (c : Catalog) : run c [] = some c :=
  rfl

theorem run_cons (c : Catalog) (e : Effect) (es : List Effect) :
    run c (e :: es) = (apply c e).bind fun c => run c es := by
  rw [run, List.foldlM_cons]
  rfl

theorem run_append (c : Catalog) (es es' : List Effect) :
    run c (es ++ es') = (run c es).bind fun c => run c es' := by
  rw [run, List.foldlM_append]
  rfl

variable {c : Catalog} {table : String}

/-- New names are attached one after the other. -/
theorem run_attach {new : List Attachment} : ∀ {c : Catalog} {xs : List Attachment},
    c table = some xs → (xs ++ new).Nodup →
      run c (new.map (attach table)) = some (c.set table (some (xs ++ new))) := by
  induction new with
  | nil =>
    intro c xs hc _
    rw [List.append_nil, ← hc, Catalog.set_eq_self]
    rfl
  | cons x new ih =>
    intro c xs hc hnew
    have hx : x ∉ xs := fun hx =>
      (List.nodup_append.mp hnew).2.2 x hx x List.mem_cons_self rfl
    have happly : apply c (attach table x) = some (c.set table (some (xs ++ [x]))) := by
      simp only [apply, hc, if_neg hx]
    have hrest := ih (c.set_self table (some (xs ++ [x]))) (by simpa using hnew)
    rw [List.map_cons, run_cons, happly, Option.bind_some, hrest, Catalog.set_set,
      List.append_assoc]
    rfl

/-- Names that are there are detached one after the other. -/
theorem run_detach {old : List Attachment} : ∀ {c : Catalog} {xs : List Attachment},
    c table = some xs → old.Nodup → old ⊆ xs →
      run c (old.map (detach table)) = some (c.set table (some (xs.filter (· ∉ old)))) := by
  induction old with
  | nil =>
    intro c xs hc _ _
    have hfilter : xs.filter (· ∉ []) = xs := List.filter_eq_self.mpr fun x _ => rfl
    rw [hfilter, ← hc, Catalog.set_eq_self]
    rfl
  | cons x old ih =>
    intro c xs hc hnodup hsub
    obtain ⟨hx, hnodup⟩ := List.nodup_cons.mp hnodup
    obtain ⟨hmem, hsub⟩ := List.cons_subset.mp hsub
    have happly : apply c (detach table x)
        = some (c.set table (some (xs.filter (· ≠ x)))) := by
      simp only [apply, hc, if_pos hmem]
    have hsub' : old ⊆ xs.filter (· ≠ x) := by
      intro y hy
      refine List.mem_filter.mpr ⟨hsub hy, ?_⟩
      simpa using fun hyx : y = x => hx (hyx ▸ hy)
    have hfilter : (xs.filter (· ≠ x)).filter (· ∉ old) = xs.filter (· ∉ x :: old) := by
      rw [List.filter_filter]
      refine List.filter_congr fun y _ => ?_
      simp [Bool.and_comm]
    rw [List.map_cons, run_cons, happly, Option.bind_some,
      ih (c.set_self table _) hnodup hsub', hfilter, Catalog.set_set]

/-- **A table is dropped after it was created** if what was attached to it besides indexes is
detached in between, and everything is as it was. -/
theorem run_create_drop {new old : List Attachment} (hc : c table = none) (hnew : new.Nodup)
    (hold : old.Nodup) (hsub : old ⊆ new) (hrest : ∀ x ∈ new, x ∉ old → x.isIndex = true) :
    run c (createTable table :: new.map (attach table)
      ++ (old.map (detach table) ++ [dropTable table])) = some c := by
  have hcreate : apply c (createTable table) = some (c.set table (some [])) := by
    simp only [apply, hc]
  have hdrop : (new.filter (· ∉ old)).all Attachment.isIndex = true := by
    rw [List.all_eq_true]
    intro x hx
    rw [List.mem_filter, decide_eq_true_eq] at hx
    exact hrest x hx.1 hx.2
  rw [run_append, run_cons, hcreate, Option.bind_some,
    run_attach (c.set_self table (some [])) (by simpa using hnew), Option.bind_some,
    List.nil_append, Catalog.set_set, run_append, run_detach (c.set_self table _) hold hsub,
    Option.bind_some, Catalog.set_set, run_cons]
  simp only [apply, Catalog.set_self, hdrop, if_true, Option.bind_some, Catalog.set_set, run_nil]
  rw [← hc, Catalog.set_eq_self]

end Effect

/-! ## Tables -/

namespace Table

variable (d : Dialect) (t : Table)

/-- The foreign keys that are added to a table. -/
def addedKeys : List Attachment :=
  (if d.tables.inlineForeignKeys then [] else t.foreignKeys).map fun k => .foreignKey k.name

/-- The triggers of a table. -/
def triggers : List Attachment :=
  (triggerColumns d t).map fun c => .trigger (triggerName t c)

/-- Everything that is attached to a table when it is created. -/
def attached : List Attachment :=
  t.addedKeys d ++ t.indexes.map (fun i => .index i.name) ++ t.triggers d

/-- What is detached from a table before it is dropped. -/
def detached : List Attachment :=
  t.triggers d ++ t.addedKeys d

variable {d t}

theorem map_effect?_create {changes : List Change} (h : t.create d = .ok changes) :
    changes.map Change.effect?
      = (Effect.createTable t.name :: (t.attached d).map (.attach t.name)).map some := by
  rw [create] at h
  obtain ⟨columns, -, h⟩ := bind_eq_ok_iff.mp h
  cases h
  simp only [attached, addedKeys, triggers, List.map_append, List.map_cons, List.map_map,
    List.cons_append]
  rfl

theorem map_effect?_drop (d : Dialect) (t : Table) :
    (t.drop d).map Change.effect?
      = ((t.detached d).map (Effect.detach t.name) ++ [Effect.dropTable t.name]).map some := by
  simp only [drop, detached, addedKeys, triggers, List.map_append, List.map_map]
  rfl

/-- Names that are told apart by others that are different are different. -/
theorem nodup_map_of_nodup {α β γ : Type} {f : α → β} {g : α → γ} {l : List α}
    (h : (l.map g).Nodup) (hfg : ∀ a b, f a = f b → g a = g b) : (l.map f).Nodup :=
  List.pairwise_map.mpr ((List.pairwise_map.mp h).imp fun hne heq => hne (hfg _ _ heq))

theorem triggerColumns_sublist (d : Dialect) (t : Table) :
    (triggerColumns d t).Sublist t.columns := by
  rw [triggerColumns]
  split
  · exact List.filter_sublist
  · exact List.nil_sublist _

/-- The names of a table that are given once each. -/
structure HasDistinctNames (t : Table) : Prop where
  columns : (t.columns.map Column.name).Nodup
  foreignKeys : (t.foreignKeys.map ForeignKey.name).Nodup
  indexes : (t.indexes.map Index.name).Nodup

namespace HasDistinctNames

variable (h : HasDistinctNames t)
include h

theorem nodup_addedKeys : (t.addedKeys d).Nodup := by
  rw [addedKeys]
  split
  · exact List.nodup_nil
  · exact nodup_map_of_nodup h.foreignKeys fun _ _ heq => Attachment.foreignKey.inj heq

theorem nodup_triggers : (t.triggers d).Nodup := by
  have hcolumns : ((triggerColumns d t).map Column.name).Nodup :=
    h.columns.sublist ((triggerColumns_sublist d t).map _)
  refine nodup_map_of_nodup hcolumns fun c c' heq => ?_
  have hname : triggerName t c = triggerName t c' := Attachment.trigger.inj heq
  simpa [triggerName] using hname

theorem nodup_detached : (t.detached d).Nodup := by
  refine List.nodup_append.mpr ⟨h.nodup_triggers, h.nodup_addedKeys, ?_⟩
  intro x hx y hy
  obtain ⟨_, -, rfl⟩ := List.mem_map.mp hx
  obtain ⟨_, -, rfl⟩ := List.mem_map.mp hy
  exact nofun

theorem nodup_attached : (t.attached d).Nodup := by
  have hindexes : (t.indexes.map fun i => Attachment.index i.name).Nodup :=
    nodup_map_of_nodup h.indexes fun _ _ heq => Attachment.index.inj heq
  refine List.nodup_append.mpr ⟨List.nodup_append.mpr ⟨h.nodup_addedKeys, hindexes, ?_⟩,
    h.nodup_triggers, ?_⟩
  · intro x hx y hy
    obtain ⟨_, -, rfl⟩ := List.mem_map.mp hx
    obtain ⟨_, -, rfl⟩ := List.mem_map.mp hy
    exact nofun
  · intro x hx y hy
    obtain ⟨_, -, rfl⟩ := List.mem_map.mp hy
    rcases List.mem_append.mp hx with hx | hx
    all_goals
      obtain ⟨_, -, rfl⟩ := List.mem_map.mp hx
      exact nofun

end HasDistinctNames

theorem mem_detached_iff {x : Attachment} :
    x ∈ t.detached d ↔ x ∈ t.attached d ∧ x.isIndex = false := by
  have hkey : x ∈ t.addedKeys d → x.isIndex = false := by
    intro hx
    obtain ⟨_, -, rfl⟩ := List.mem_map.mp hx
    rfl
  have htrigger : x ∈ t.triggers d → x.isIndex = false := by
    intro hx
    obtain ⟨_, -, rfl⟩ := List.mem_map.mp hx
    rfl
  have hindex : x ∈ t.indexes.map (fun i => Attachment.index i.name) → x.isIndex = true := by
    intro hx
    obtain ⟨_, -, rfl⟩ := List.mem_map.mp hx
    rfl
  rw [detached, attached, List.mem_append, List.mem_append, List.mem_append]
  grind

/-- **Dropping a table undoes creating it.**  If a table with distinct names is created, the
statements that create it and then those that drop it can be carried out one after the other on
every catalog without that table, and leave it as it was.  The statements that drop it detach every
foreign key and every trigger that was attached to it once each and nothing else, and then drop
the table. -/
theorem drop_undoes_create {config : Config} {changes : List Change}
    (hcreate : t.create config.dialect = .ok changes) (hnames : t.HasDistinctNames) {c : Catalog}
    (hc : c t.name = none) :
    ∃ created removed : List Effect,
      Effect.Reads config changes created
      ∧ Effect.Reads config (t.drop config.dialect) (removed ++ [.dropTable t.name])
      ∧ Effect.run c (created ++ (removed ++ [.dropTable t.name])) = some c
      ∧ (∀ x, .attach t.name x ∈ created → x.isIndex = false →
          removed.count (.detach t.name x) = 1)
      ∧ ∀ e ∈ removed, ∃ x, e = .detach t.name x ∧ .attach t.name x ∈ created
          ∧ x.isIndex = false := by
  have hattach : ∀ x, Effect.attach t.name x ∈ Effect.createTable t.name ::
      (t.attached config.dialect).map (.attach t.name) ↔ x ∈ t.attached config.dialect := by
    simp
  refine ⟨_, _, Effect.reads_of_effect? (map_effect?_create hcreate),
    Effect.reads_of_effect? (map_effect?_drop _ t), ?_, fun x hx hindex => ?_, fun e he => ?_⟩
  · refine Effect.run_create_drop hc hnames.nodup_attached hnames.nodup_detached
      (fun x hx => (mem_detached_iff.mp hx).1) fun x hx hnot => ?_
    rw [mem_detached_iff, not_and, Bool.not_eq_false] at hnot
    exact hnot hx
  · have hmem : x ∈ t.detached config.dialect :=
      mem_detached_iff.mpr ⟨(hattach x).mp hx, hindex⟩
    have hnodup : ((t.detached config.dialect).map (Effect.detach t.name)).Nodup :=
      List.pairwise_map.mpr (hnames.nodup_detached.imp fun hne heq => hne (by cases heq; rfl))
    rw [hnodup.count, if_pos (List.mem_map_of_mem hmem)]
  · obtain ⟨x, hx, rfl⟩ := List.mem_map.mp he
    obtain ⟨hattached, hindex⟩ := mem_detached_iff.mp hx
    exact ⟨x, rfl, (hattach x).mpr hattached, hindex⟩

/-- A table with quotation marks in its names: its trigger and its foreign key are removed. -/
theorem drop_undoes_create_postgres :
    let t : Table := {
      name := "my \"docs\""
      columns := [{ name := "id", kind := .long, autoIncrement := true, primaryKey := true },
        { name := "data", kind := .blob }]
      foreignKeys := [⟨"owner", ["id"], "users", ["id"], .cascade, .noAction⟩]
      indexes := [⟨"by_id", ["id"], true⟩] }
    let config : Config := {}
    let c : Catalog := fun table => if table = "users" then some [] else none
    ∃ changes created removed, t.create config.dialect = .ok changes
      ∧ (t.drop config.dialect).map (Change.text config.dialect)
        = ["drop trigger \"my \"\"docs\"\"__data_lob\" on \"my \"\"docs\"\"\"",
          "alter table \"my \"\"docs\"\"\" drop constraint \"owner\"",
          "drop table \"my \"\"docs\"\"\""]
      ∧ Effect.Reads config changes created
      ∧ Effect.Reads config (t.drop config.dialect) (removed ++ [.dropTable t.name])
      ∧ Effect.run c (created ++ (removed ++ [.dropTable t.name])) = some c := by
  intro t config c
  have hcreate : ∃ changes, t.create config.dialect = .ok changes := ⟨_, rfl⟩
  obtain ⟨changes, hchanges⟩ := hcreate
  have hnames : t.HasDistinctNames := ⟨by decide, by decide, by decide⟩
  obtain ⟨created, removed, hcreated, hremoved, hrun, -⟩ :=
    drop_undoes_create hchanges hnames (show c t.name = none from rfl)
  exact ⟨changes, created, removed, hchanges, by decide +kernel, hcreated, hremoved, hrun⟩

end Table

end Schema
end SqlCompiler
