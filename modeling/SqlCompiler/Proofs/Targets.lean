import SqlCompiler.Proofs.Refreshing
import SqlCompiler.Proofs.Resolution

/-!
# The rows that a statement is about

A statement that changes the rows of a table has no alias for them: they go by the quoted name of
the table, also in the subqueries of its filters.  The generators of these subqueries get the
aliases x1, x2, and so on.  A qualifier is looked up among the names and the aliases alike, from the
inside to the outside.  A table whose name is one of these aliases is therefore hidden by it, and a
condition on its rows becomes one on the rows of a generator.

* `Naming`, `Naming.denotes` — what names stand for, and what a qualifier denotes.
* `Mention`, `Script.surveys` — the places where a script writes a qualifier, with the aliases of
  the generators around them, and `Script.mentions_of_output_ok`: they are those in its output.
* `Survey.Gives` and `Query.gives_tree` — the aliases that are given are the next numbers, each of
  them once.
* `Query.target_clear_iff` — a table is hidden by no alias exactly if its name is none of the first
  ones, as many as there are generators.
-/

set_option autoImplicit false
namespace SqlCompiler

/-! ## Names -/

/-- What names stand for.  Databases fold the letters of names that are not quoted, or of all. -/
structure Naming where
  plain : String → String
  quoted : String → String

namespace Naming

variable (naming : Naming)

/-- What a qualifier stands for. -/
def identifier : Qualifier → String
  | .numbered n => naming.plain ("x" ++ toString n)
  | .table name => naming.quoted name
  | .verbatim text => naming.plain text

/-- What a qualifier denotes: the first generator in sight that goes by it, and else the target. -/
def denotes (sight : List Qualifier) (target q : Qualifier) : Option Qualifier :=
  (sight ++ [target]).find? fun a => naming.identifier a = naming.identifier q

theorem denotes_of_ne {sight : List Qualifier} {target : Qualifier}
    (h : ∀ a ∈ sight, naming.identifier a ≠ naming.identifier target) :
    naming.denotes sight target target = some target := by
  rw [denotes, List.find?_append, List.find?_eq_none.mpr (by simpa using h)]
  simp

end Naming

/-! ## Mentions -/

/-- A place where a qualifier is written, if there is one for it. -/
inductive Mention where
  /-- Behind the source of a generator, which is given the qualifier for an alias. -/
  | given (q : Option Qualifier)
  /-- Before a column or for a whole row, in sight of some of the generators around it, those of the
  innermost query first. -/
  | reference (around : List Qualifier) (q : Option Qualifier)
deriving DecidableEq

namespace Mention

/-- What is written at a place. -/
def qualifier : Mention → Option Qualifier
  | given q | reference _ q => q

/-- The alias that is given at a place. -/
def given? : Mention → Option (Option Qualifier)
  | given q => some q
  | reference _ _ => none

end Mention

/-- No alias that is given stands for the same as the quoted name of a table. -/
def Naming.Clear (naming : Naming) (table : String) (mentions : List Mention) : Prop :=
  ∀ a, .given (some a) ∈ mentions → naming.identifier a ≠ naming.quoted table

/-- The next aliases. -/
def Aliases.next (n count : Nat) : List Qualifier :=
  (List.range' (n + 1) count).map .numbered

theorem Aliases.mem_next {n count : Nat} {a : Qualifier} :
    a ∈ next n count ↔ ∃ m, n < m ∧ m ≤ n + count ∧ a = .numbered m := by
  simp only [next, List.mem_map, List.mem_range'_1]
  constructor
  · rintro ⟨m, hm, rfl⟩
    exact ⟨m, by omega, by omega, rfl⟩
  · rintro ⟨m, hlt, hle, rfl⟩
    exact ⟨m, by omega, rfl⟩

/-- The mentions in a part of a statement and the number of aliases after it, by the aliases in
scope, those of the generators around it and the number of aliases before it. -/
abbrev Survey := Aliases → List Qualifier → Nat → List Mention × Nat

namespace Survey

/-- One survey after the other. -/
def each : List Survey → Survey
  | [] => fun _ _ n => ([], n)
  | x :: xs => fun aliases around n =>
    let (mentions, n) := x aliases around n
    let (mentions', n) := each xs aliases around n
    (mentions ++ mentions', n)

theorem each_append (xs ys : List Survey) (aliases : Aliases) (around : List Qualifier) (n : Nat) :
    each (xs ++ ys) aliases around n
      = ((each xs aliases around n).1 ++ (each ys aliases around (each xs aliases around n).2).1,
        (each ys aliases around (each xs aliases around n).2).2) := by
  induction xs generalizing n with
  | nil => rfl
  | cons x xs ih => simp only [List.cons_append, each, ih, List.append_assoc]

theorem each_singleton (x : Survey) : each [x] = x := by
  funext aliases around n
  simp only [each, List.append_nil]

end Survey

namespace Script

/-- The mentions in a script. -/
def surveys : Script → List Survey
  | piece p => p.qualifier?.toList.map fun q _ around n => ([.reference around (some q)], n)
  | reference s => [fun aliases around n => ([.reference around (aliases s)], n)]
  | sourceAlias s => [fun aliases _ n => ([.given (aliases s)], n)]
  | append first second => first.surveys ++ second.surveys
  | scope symbols body => [fun aliases around n =>
      Survey.each body.surveys (aliases.bind n symbols)
        (Aliases.next n symbols.length ++ around) (n + symbols.length)]
  | deeper body => body.surveys
  | done | check _ | checkNested _ | skipRows _ => []

theorem collects_surveys : Collects surveys where
  done := rfl
  words _ := rfl
  name _ := rfl
  nameText _ := rfl
  skipRows _ := rfl
  append _ _ := rfl

/-- The trace of a script forgets what its mentions are and what is around them. -/
theorem trace_eq_mentions {σ : Script} : ∀ (aliases : Aliases) (around : List Qualifier) (n : Nat),
    σ.trace aliases n = ((Survey.each σ.surveys aliases around n).1.map Mention.qualifier,
      (Survey.each σ.surveys aliases around n).2) := by
  induction σ with
  | piece p => intro aliases around n; cases p <;> rfl
  | done | skipRows _ | check _ | checkNested _ | reference _ | sourceAlias _ =>
    exact fun _ _ _ => rfl
  | append first second ih₁ ih₂ =>
    intro aliases around n
    change (first ++ second).trace aliases n = _
    rw [trace_append, surveys, Survey.each_append, List.map_append]
    change ((first.trace aliases n).1 ++ (second.trace aliases (first.trace aliases n).2).1,
      (second.trace aliases (first.trace aliases n).2).2) = _
    rw [ih₁ aliases around n, ih₂ aliases around]
  | scope symbols body ih =>
    intro aliases around n
    rw [trace_scope, surveys, Survey.each_singleton]
    exact ih _ _ _
  | deeper body ih => exact ih

/-- **The mentions in a script are those in its output**, whatever generators are around it. -/
theorem mentions_of_output_ok {σ : Script} {aliases : Aliases} {nested : Bool} {count : Nat}
    {o : Output} (h : σ.output aliases nested count = .ok o) (around : List Qualifier) :
    (Survey.each σ.surveys aliases around count).1.map Mention.qualifier
      = (Piece.qualifiers o.pieces).map some :=
  congrArg Prod.fst ((trace_eq_mentions aliases around count).symm.trans (trace_of_output_ok h))

/-- The generators around a mention are those around the script, or get their aliases in it. -/
theorem mem_around {σ : Script} : ∀ (aliases : Aliases) (around : List Qualifier) (n : Nat),
    n ≤ (Survey.each σ.surveys aliases around n).2
      ∧ ∀ around' q, .reference around' q ∈ (Survey.each σ.surveys aliases around n).1 →
          ∀ a ∈ around', a ∈ around ∨ ∃ m, n < m ∧ m ≤ (Survey.each σ.surveys aliases around n).2
            ∧ a = .numbered m := by
  induction σ with
  | done | skipRows _ | check _ | checkNested _ => exact fun _ _ n => ⟨Nat.le_refl n, nofun⟩
  | piece p =>
    intro aliases around n
    cases p with
    | qualifier q =>
      refine ⟨Nat.le_refl n, fun around' q' h a ha => ?_⟩
      cases List.mem_singleton.mp h
      exact .inl ha
    | _ => exact ⟨Nat.le_refl n, nofun⟩
  | reference s =>
    intro aliases around n
    refine ⟨Nat.le_refl n, fun around' q h a ha => ?_⟩
    cases List.mem_singleton.mp h
    exact .inl ha
  | sourceAlias s =>
    intro aliases around n
    refine ⟨Nat.le_refl n, fun around' q h => ?_⟩
    cases List.mem_singleton.mp h
  | append first second ih₁ ih₂ =>
    intro aliases around n
    obtain ⟨hle, hfirst⟩ := ih₁ aliases around n
    obtain ⟨hle', hsecond⟩ := ih₂ aliases around (Survey.each first.surveys aliases around n).2
    rw [surveys, Survey.each_append]
    refine ⟨Nat.le_trans hle hle', fun around' q h a ha => ?_⟩
    rcases List.mem_append.mp h with h | h
    · rcases hfirst around' q h a ha with ha | ⟨m, hlt, hm, rfl⟩
      · exact .inl ha
      · exact .inr ⟨m, hlt, Nat.le_trans hm hle', rfl⟩
    · rcases hsecond around' q h a ha with ha | ⟨m, hlt, hm, rfl⟩
      · exact .inl ha
      · exact .inr ⟨m, Nat.lt_of_le_of_lt hle hlt, hm, rfl⟩
  | scope symbols body ih =>
    intro aliases around n
    obtain ⟨hle, hbody⟩ := ih (aliases.bind n symbols)
      (Aliases.next n symbols.length ++ around) (n + symbols.length)
    rw [surveys, Survey.each_singleton]
    refine ⟨Nat.le_trans (Nat.le_add_right n _) hle, fun around' q h a ha => ?_⟩
    rcases hbody around' q h a ha with ha | ⟨m, hlt, hm, rfl⟩
    · rcases List.mem_append.mp ha with ha | ha
      · obtain ⟨m, hlt, hm, rfl⟩ := Aliases.mem_next.mp ha
        exact .inr ⟨m, hlt, by omega, rfl⟩
      · exact .inl ha
    · exact .inr ⟨m, by omega, hm, rfl⟩
  | deeper body ih => exact ih

end Script

/-! ## The aliases that are given -/

theorem Aliases.next_append (n count count' : Nat) :
    next n count ++ next (n + count) count' = next n (count + count') := by
  rw [next, next, next, ← List.map_append, Nat.add_right_comm, List.range'_append_1]

/-- Different symbols get the next aliases in their order. -/
theorem Aliases.map_bind {symbols : List Symbol} (h : symbols.Nodup) :
    ∀ (aliases : Aliases) (n : Nat),
      symbols.map (aliases.bind n symbols) = (next n symbols.length).map some := by
  induction symbols with
  | nil => intro aliases n; rfl
  | cons s symbols ih =>
    intro aliases n
    obtain ⟨hs, hsymbols⟩ := List.nodup_cons.mp h
    rw [List.map_cons, bind, bind_of_not_mem hs, if_pos rfl, ih hsymbols, List.length_cons,
      Nat.add_comm symbols.length, ← next_append, List.map_append]
    rfl

namespace Survey

/-- Some generators are given their aliases, and all others the next ones, each of them once. -/
def Gives (l : List Survey) (symbols : List Symbol) : Prop :=
  ∀ (aliases : Aliases) (around : List Qualifier) (n : Nat),
    ∃ count, (each l aliases around n).2 = n + count
      ∧ ((each l aliases around n).1.filterMap Mention.given?).Perm
          (symbols.map aliases ++ (Aliases.next n count).map some)

theorem gives_nil : Gives [] [] :=
  fun _ _ _ => ⟨0, rfl, .nil⟩

theorem gives_reference (written : Aliases → List Qualifier → Option Qualifier) :
    Gives [fun aliases around n => ([.reference around (written aliases around)], n)] [] :=
  fun _ _ _ => ⟨0, rfl, .nil⟩

theorem gives_given (s : Symbol) : Gives [fun aliases _ n => ([.given (aliases s)], n)] [s] :=
  fun _ _ _ => ⟨0, rfl, .refl _⟩

theorem Gives.append {xs ys : List Survey} {symbols symbols' : List Symbol}
    (h : Gives xs symbols) (h' : Gives ys symbols') : Gives (xs ++ ys) (symbols ++ symbols') := by
  intro aliases around n
  obtain ⟨count, hcount, hgiven⟩ := h aliases around n
  obtain ⟨count', hcount', hgiven'⟩ := h' aliases around (n + count)
  refine ⟨count + count', ?_, ?_⟩
  · rw [each_append, hcount, hcount', Nat.add_assoc]
  · rw [each_append, hcount, List.filterMap_append, List.map_append, ← Aliases.next_append,
      List.map_append]
    -- the aliases of the second list's own generators move before the next ones of the first
    refine (hgiven.append hgiven').trans ?_
    simp only [List.append_assoc]
    refine .append_left _ ?_
    simp only [← List.append_assoc]
    exact List.perm_append_comm.append_right _

theorem gives_flatMap {ι : Type} {l : List ι} {f : ι → List Survey} {g : ι → List Symbol}
    (h : ∀ i ∈ l, Gives (f i) (g i)) : Gives (l.flatMap f) (l.flatMap g) := by
  induction l with
  | nil => exact gives_nil
  | cons i l ih =>
    rw [List.flatMap_cons, List.flatMap_cons]
    exact (h i List.mem_cons_self).append (ih fun j hj => h j (List.mem_cons_of_mem _ hj))

/-- A list of surveys that give nothing but the next aliases. -/
theorem gives_flatMap_nil {ι : Type} {l : List ι} {f : ι → List Survey}
    (h : ∀ i ∈ l, Gives (f i) []) : Gives (l.flatMap f) [] := by
  have hnil : l.flatMap (fun _ => ([] : List Symbol)) = [] :=
    List.flatMap_eq_nil_iff.mpr fun _ _ => rfl
  rw [← hnil]
  exact gives_flatMap h

/-- A query gives its own generators the next aliases, if they have different symbols. -/
theorem gives_scope {symbols : List Symbol} {body : Script} (hsymbols : symbols.Nodup)
    (h : Gives body.surveys symbols) : Gives (Script.scope symbols body).surveys [] := by
  intro aliases around n
  obtain ⟨count, hcount, hgiven⟩ := h (aliases.bind n symbols)
    (Aliases.next n symbols.length ++ around) (n + symbols.length)
  rw [Script.surveys, each_singleton]
  refine ⟨symbols.length + count, by rw [hcount, Nat.add_assoc], ?_⟩
  rw [Aliases.map_bind hsymbols, ← List.map_append, Aliases.next_append] at hgiven
  exact hgiven

/-- Nothing is given but the next aliases. -/
theorem Gives.given_mem_iff {l : List Survey} (h : Gives l []) (aliases : Aliases)
    (around : List Qualifier) (n : Nat) (a : Qualifier) :
    .given (some a) ∈ (each l aliases around n).1
      ↔ ∃ m, n < m ∧ m ≤ (each l aliases around n).2 ∧ a = .numbered m := by
  obtain ⟨count, hcount, hgiven⟩ := h aliases around n
  have hiff : .given (some a) ∈ (each l aliases around n).1
      ↔ some a ∈ (each l aliases around n).1.filterMap Mention.given? := by
    rw [List.mem_filterMap]
    refine ⟨fun ha => ⟨_, ha, rfl⟩, ?_⟩
    rintro ⟨_ | _, ha, heq⟩ <;> cases heq
    exact ha
  rw [hiff, hgiven.mem_iff, List.map_nil, List.nil_append,
    List.mem_map_of_injective (Option.some_injective _), Aliases.mem_next, hcount]

end Survey

namespace Node

open Survey

variable {d : Dialect}

/-- No query in a tree binds a symbol twice. -/
def HasDistinctBinders (n : Node) : Prop :=
  ∀ binders ∈ n.binderLists, binders.Nodup

theorem hasDistinctBinders_mk {s : Shape Node} :
    (mk s).HasDistinctBinders ↔ s.bound.Nodup ∧ ∀ n ∈ s.children, n.HasDistinctBinders := by
  rw [HasDistinctBinders, binderLists_mk, List.forall_mem_cons]
  simp only [HasDistinctBinders, List.mem_flatMap, forall_exists_index, and_imp]
  exact and_congr_right fun _ =>
    ⟨fun h n hn binders hb => h binders n hn hb, fun h binders n hn hb => h n hn binders hb⟩

/-- A node gives no aliases by itself. -/
theorem gives_own (s : Shape Node) : Gives ((Script.own d s).flatMap Script.surveys) [] := by
  have hchecked : ∀ {α : Type} (r : Except Error α) (body : α → Script),
      (∀ a, (body a).surveys = []) → (Script.checked r body).surveys = [] := by
    intro α r body hbody
    cases r with
    | error e => rfl
    | ok a => exact hbody a
  cases s with
  | column source name => exact gives_reference fun aliases _ => aliases source
  | literal c =>
    have hliteral : (Script.literal d c).surveys = [] := by
      rw [Script.literal]
      split
      · exact hchecked _ _ fun _ => rfl
      · split
        · rfl
        · exact hchecked _ _ fun _ => rfl
    rw [Script.own, List.flatMap_singleton, hliteral]
    exact gives_nil
  | apply f arguments =>
    rw [Script.own]
    cases f.capability? arguments.length <;> exact gives_nil
  | _ => exact gives_nil

theorem gives_expression {s : Shape Node} (hquery : ∀ q, s ≠ .query q)
    (h : ∀ n ∈ s.children, Gives (n.script d).surveys []) : Gives ((mk s).script d).surveys [] := by
  by_cases hs : s.Writable d
  · rw [Script.collects_surveys.expression d hs hquery]
    exact (gives_own s).append (gives_flatMap_nil fun n hn => h n (Shape.mem_written.mp hn))
  · rcases script_of_not_writable hs with hfail | ⟨construct, hfail⟩
    all_goals
      rw [hfail]
      exact gives_nil

theorem gives_item {n : Node} (h : Gives (n.script d).surveys []) :
    Gives (n.item d).surveys [] := by
  rcases n.item_cases d with ⟨s, rfl, hitem⟩ | hitem
  · rw [hitem]
    exact gives_reference fun aliases _ => aliases s
  · rwa [hitem]

theorem gives_source {n : Node} (h : Gives (n.script d).surveys []) :
    Gives (Script.source d (n.rendering d)).surveys [] := by
  obtain ⟨s⟩ := n
  rw [Script.source, shape_rendering]
  cases s with
  | query q => exact h
  | _ => exact gives_nil

end Node

namespace Query

open Survey RowNumbering

variable {d : Dialect} {q : Query}

/-- The clauses of a query give their aliases to its own generators, and the next ones to all
others. -/
theorem gives_body (h : ∀ n ∈ q.children, WithChildren (fun n => Gives (n.script d).surveys []) n) :
    Gives (Script.body d (rendering d q)).surveys q.binders := by
  have collects := Script.collects_surveys
  have hselect : Gives (Script.select (rendering d q)).surveys [] := by
    cases hp : q.projection with
    | none =>
      rw [collects.select_none d q hp]
      split <;> exact gives_nil
    | some p =>
      rw [collects.select d q hp]
      exact gives_flatMap_nil fun n hn =>
        Node.gives_item ((h p (Clauses.projection_mem_children hp)).column hn)
  have hfrom : Gives (Script.from_ d (rendering d q)).surveys q.binders := by
    have hbinders : q.binders = q.generators.flatMap fun g => [] ++ [g.binder] := by
      exact List.map_eq_flatMap
    rw [collects.from_ d q, hbinders]
    exact gives_flatMap fun g hg =>
      (Node.gives_source (h g.source (Clauses.source_mem_children hg)).1).append
        (gives_given g.binder)
  have hfilters : Gives (Script.filters (rendering d q)).surveys [] := by
    rw [collects.filters d q]
    exact gives_flatMap_nil fun n hn => (h n (Clauses.filter_mem_children hn)).1
  have hgroup : Gives (Script.groupBy (rendering d q)).surveys [] := by
    rw [collects.groupBy d q]
    cases hkey : q.groupBy with
    | none => exact gives_nil
    | some key =>
      exact gives_flatMap_nil fun n hn => (h key (Clauses.groupBy_mem_children hkey)).groupKey hn
  have horder : Gives (Script.orderBy d (rendering d q)).surveys [] := by
    rw [collects.orderBy d q]
    refine gives_flatMap_nil fun n hn => ?_
    obtain ⟨k, hk, rfl⟩ := List.mem_map.mp (SortKey.mem_written.mp hn)
    exact (h k.key (Clauses.key_mem_children hk)).1
  have hbody := ((((hselect.append hfrom).append hfilters).append hgroup).append horder)
  rw [collects.body d q, collects.modifiers_of_fail d q fun _ => rfl, List.nil_append]
  simpa using hbody

/-- The query in the place of one that numbers its rows binds no symbol twice either. -/
theorem hasDistinctBinders_numberRows {p : Query} {dialect : String}
    (hp : numberRows dialect q = .ok p) (h : (Node.query q).HasDistinctBinders) :
    (Node.query p).HasDistinctBinders := by
  obtain ⟨hbinders, hchildren⟩ := Node.hasDistinctBinders_mk.mp h
  obtain ⟨projection, fields, listed, after, until_, hprojection, hlisted, -, rfl⟩ :=
    numberRows_eq_ok hp
  have expression : ∀ s : Shape Node, (∀ q, s ≠ .query q) →
      (∀ n ∈ s.children, n.HasDistinctBinders) → (Node.mk s).HasDistinctBinders := by
    intro s hs hn
    refine Node.hasDistinctBinders_mk.mpr ⟨?_, hn⟩
    cases s with
    | query q => exact absurd rfl (hs q)
    | _ => exact List.nodup_nil
  have hwith : ∀ n ∈ q.children, WithChildren Node.HasDistinctBinders n := by
    rintro ⟨s⟩ hn
    exact ⟨hchildren _ hn, (Node.hasDistinctBinders_mk.mp (hchildren _ hn)).2⟩
  obtain ⟨hfields, hlist⟩ := withChildren_listed expression hlisted
    (hwith projection (Clauses.projection_mem_children hprojection))
  refine Node.hasDistinctBinders_mk.mpr ⟨List.nodup_singleton _, fun n hn => ?_⟩
  rcases mem_children_assembled hn with rfl | ⟨f, limit, -, rfl⟩ | rfl | rfl
  · exact Node.hasDistinctBinders_mk.mpr
      ⟨hbinders, fun n hn => (withChildren_inner expression hwith hfields n hn).1⟩
  · exact (withChildren_compare expression f _ _ limit).1
  · exact (withChildren_column expression _ _).1
  · exact hlist.1

/-- **Every generator in a tree is given an alias of its own**, and these are the next ones. -/
theorem gives_tree (d : Dialect) :
    (∀ n : Node, n.HasDistinctBinders → Gives (n.script d).surveys [])
      ∧ ∀ q : Query, (Node.query q).HasDistinctBinders → Gives (script d q).surveys [] := by
  refine writing_induct d ?_ ?_ ?_ ?_ ?_
  · intro s hquery ih h
    obtain ⟨-, hchildren⟩ := Node.hasDistinctBinders_mk.mp h
    exact Node.gives_expression hquery fun n hn => ih n hn (hchildren n hn)
  · intro q ih h
    rw [Script.collects_surveys.subquery d q]
    exact ih h
  · intro q hnumbers ih h
    obtain ⟨hbinders, hchildren⟩ := Node.hasDistinctBinders_mk.mp h
    rw [script_eq_clauses hnumbers, Script.collects_surveys.clauses d q (fun _ => rfl) fun _ => rfl,
      show (rendering d q).binders = q.binders from Clauses.binders_map _ q]
    refine gives_scope hbinders (gives_body fun n hn => ?_)
    obtain ⟨s⟩ := n
    obtain ⟨-, hdistinct⟩ := Node.hasDistinctBinders_mk.mp (hchildren _ hn)
    exact ⟨(ih _ hn).1 (hchildren _ hn), fun m hm => (ih _ hn).2 m hm (hdistinct m hm)⟩
  · intro q p hnumbers hp ih h
    rw [script_of_numbers hnumbers, hp]
    exact ih (hasDistinctBinders_numberRows hp h)
  · intro q e hnumbers he _
    rw [script_of_numbers hnumbers, he]
    exact gives_nil

end Query

/-! ## Statements about a target -/

/-- The mentions in the filters of a statement about a target. -/
def Target.mentions (d : Dialect) (t : Target) (q : Query) : List Mention :=
  (Survey.each (Script.filters (Query.rendering d q)).surveys t.aliases [] 0).1

theorem Piece.qualifiers_updateBeginning (t : Target) (columns : List String) :
    qualifiers (Query.updateBeginning t columns) = [] := by
  have hassignments : qualifiers (separated (.words ", ")
      (columns.map fun c => [.name c, .words " = ", .input])) = [] := by
    induction columns with
    | nil => rfl
    | cons c columns ih =>
      cases columns with
      | nil => rfl
      | cons c' columns => exact ih
  rw [Query.updateBeginning, qualifiers_append, hassignments]
  rfl

namespace Query

open Survey

variable {d : Dialect} {q : Query} {ps : List Piece}

/-- The pieces of a statement that changes or removes rows of a query's table. -/
inductive Changes (d : Dialect) (q : Query) : List Piece → Prop
  | delete {s : Statement} : q.compileDelete d = .ok s → Changes d q s.pieces
  | update {u : Update} : q.compileUpdate d = .ok u → Changes d q u.pieces

/-- Nothing but the filters of such a statement has qualifiers. -/
theorem Changes.exists_target (h : Changes d q ps) :
    ∃ (t : Target) (o : Output), checkScope q = .ok ()
      ∧ q.generators = [⟨t.binder, .table t.table⟩]
      ∧ (Script.filters (rendering d q)).output t.aliases false 0 = .ok o
      ∧ Piece.qualifiers ps = Piece.qualifiers o.pieces := by
  cases h with
  | delete hs =>
    rw [compileDelete_eq] at hs
    obtain ⟨_, hscope, hs⟩ := bind_eq_ok_iff.mp hs
    obtain ⟨t, ht, hs⟩ := bind_eq_ok_iff.mp hs
    obtain ⟨o, ho, hs⟩ := bind_eq_ok_iff.mp hs
    cases hs
    exact ⟨t, o, hscope, Target.ofQuery_eq_ok ht, ho, rfl⟩
  | update hu =>
    rw [compileUpdate_eq] at hu
    obtain ⟨_, hscope, hu⟩ := bind_eq_ok_iff.mp hu
    obtain ⟨t, ht, hu⟩ := bind_eq_ok_iff.mp hu
    obtain ⟨_, -, hu⟩ := bind_eq_ok_iff.mp hu
    obtain ⟨columns, -, hu⟩ := bind_eq_ok_iff.mp hu
    obtain ⟨o, ho, hu⟩ := bind_eq_ok_iff.mp hu
    cases hu
    refine ⟨t, o, hscope, Target.ofQuery_eq_ok ht, ho, ?_⟩
    rw [Piece.qualifiers_append, Piece.qualifiers_updateBeginning, List.nil_append]

/-- The filters of a query in scope give the next aliases, each of them once. -/
theorem gives_filters (d : Dialect) (h : checkScope q = .ok ()) :
    Gives (Script.filters (rendering d q)).surveys [] := by
  have hcheck : (Node.query q).checkScope [] = .ok () := (Node.checkScope_mk (.query q) []).trans h
  have hdistinct : (Node.query q).HasDistinctBinders :=
    ((Node.query q).checkScope_eq_ok_iff_free.mp hcheck).2
  obtain ⟨-, hchildren⟩ := Node.hasDistinctBinders_mk.mp hdistinct
  rw [Script.collects_surveys.filters d q]
  exact gives_flatMap_nil fun n hn =>
    (gives_tree d).1 n (hchildren n (Clauses.filter_mem_children hn))

/-- **A target is hidden by no alias exactly if its name is none of the first ones.**  A statement
that changes rows gives the aliases x1, x2, and so on to the generators in its filters, each of them
once.  None that it gives stands for the same as the quoted name of the table if and only if none of
the first ones does, as many as there are generators.  Every reference to the table, however deep,
then denotes the target, whichever of the generators around it are in its sight. -/
theorem target_clear_iff (naming : Naming) (h : Changes d q ps) :
    ∃ t : Target, q.generators = [⟨t.binder, .table t.table⟩]
      ∧ (t.mentions d q).map Mention.qualifier = (Piece.qualifiers ps).map some
      ∧ ∃ count : Nat,
        ((t.mentions d q).filterMap Mention.given?).Perm ((Aliases.next 0 count).map some)
        ∧ (naming.Clear t.table (t.mentions d q)
          ↔ ∀ n, 1 ≤ n → n ≤ count → naming.plain ("x" ++ toString n) ≠ naming.quoted t.table)
        ∧ (naming.Clear t.table (t.mentions d q) →
          ∀ around, .reference around (some (.table t.table)) ∈ t.mentions d q →
            ∀ sight ⊆ around,
              naming.denotes sight (.table t.table) (.table t.table) = some (.table t.table)) := by
  obtain ⟨t, o, hscope, hgenerators, ho, hpieces⟩ := h.exists_target
  have hgives := gives_filters d hscope
  obtain ⟨count, hcount, hgiven⟩ := hgives t.aliases [] 0
  have hclear : naming.Clear t.table (t.mentions d q)
      ↔ ∀ n, 1 ≤ n → n ≤ count → naming.plain ("x" ++ toString n) ≠ naming.quoted t.table := by
    constructor
    · intro hclear n hn hle
      exact hclear (.numbered n) ((hgives.given_mem_iff _ _ _ _).mpr ⟨n, hn, by omega, rfl⟩)
    · intro hne a ha
      obtain ⟨n, hn, hle, rfl⟩ := (hgives.given_mem_iff _ _ _ _).mp ha
      exact hne n hn (by omega)
  refine ⟨t, hgenerators, ?_, count, hgiven, hclear, fun h around hmem sight hsight => ?_⟩
  · rw [hpieces]
    exact Script.mentions_of_output_ok ho []
  · refine naming.denotes_of_ne fun a ha => ?_
    obtain ⟨-, haround⟩ := (Script.filters (rendering d q)).mem_around t.aliases [] 0
    rcases haround around _ hmem a (hsight ha) with ha | ⟨n, hn, hle, rfl⟩
    · cases ha
    · exact hclear.mp h n hn (by omega)

/-- The users without an order that is not paid are removed: the innermost reference to them is in
sight of two generators, and neither goes by the name of the table. -/
theorem target_clear_iff_users :
    let x : Symbol := ⟨0, 0⟩
    let order : Symbol := ⟨1, 0⟩
    let payment : Symbol := ⟨2, 0⟩
    let paid : Query := {
      generators := [⟨payment, .table "payments"⟩]
      filters := [
        .binary .eq (.column payment "order") (.column order "id"),
        .binary .eq (.column payment "user") (.column x "id")] }
    let unpaid : Query := {
      generators := [⟨order, .table "orders"⟩]
      filters := [
        .binary .eq (.column order "user") (.column x "id"),
        .not (.apply .hasRows [.query paid])] }
    let q : Query := {
      generators := [⟨x, .table "users"⟩]
      filters := [.not (.apply .hasRows [.query unpaid])] }
    let users : Qualifier := .table "users"
    let around : List Qualifier := [.numbered 2, .numbered 1]
    let naming : Naming := ⟨String.toLower, id⟩
    (∃ s, q.compileDelete .postgres = .ok s)
      ∧ .reference around (some users) ∈ Target.mentions .postgres ⟨x, "users"⟩ q
      ∧ naming.denotes around users users = some users := by
  intro x order payment paid unpaid q users around naming
  have hs : ∃ s, q.compileDelete .postgres = .ok s := ⟨_, rfl⟩
  have hmem : .reference around (some users) ∈ Target.mentions .postgres ⟨x, "users"⟩ q := by
    decide +kernel
  refine ⟨hs, hmem, ?_⟩
  obtain ⟨s, hs⟩ := hs
  obtain ⟨⟨binder, table⟩, hgenerators, -, count, hgiven, hclear, hdenotes⟩ :=
    target_clear_iff naming (.delete hs)
  change [(⟨⟨0, 0⟩, .table "users"⟩ : Generator Node)] = _ at hgenerators
  cases hgenerators
  have hlength :
      ((Target.mentions .postgres ⟨x, "users"⟩ q).filterMap Mention.given?).length = 2 := by
    decide +kernel
  have hcount : 2 = count := by
    rw [← hlength, hgiven.length_eq, List.length_map, Aliases.next, List.length_map,
      List.length_range']
  refine hdenotes (hclear.mpr fun n hn hle => ?_) around hmem around (List.Subset.refl around)
  obtain rfl | rfl : n = 1 ∨ n = 2 := by omega
  all_goals decide +kernel

/-- **An alias hides a target**: the users are kept in a table that is called x1, as is the
generator of the subquery.  The condition compares two columns of orders, and if one of them meets
it, all users are removed. -/
theorem target_hidden_by_alias :
    let x : Symbol := ⟨0, 0⟩
    let order : Symbol := ⟨1, 0⟩
    let orders : Query := {
      generators := [⟨order, .table "orders"⟩]
      filters := [.binary .eq (.column order "user_id") (.column x "id")] }
    let q : Query := {
      generators := [⟨x, .table "x1"⟩]
      filters := [.apply .hasRows [.query orders]] }
    let target : Qualifier := .table "x1"
    let mentions := Target.mentions .postgres ⟨x, "x1"⟩ q
    let naming : Naming := ⟨String.toLower, id⟩
    (q.compileDelete .postgres).toOption.map Statement.sql
        = some ("delete from \"x1\" where exists(select * from \"orders\" x1"
          ++ " where (x1.\"user_id\" = \"x1\".\"id\"))")
      ∧ .given (some (.numbered 1)) ∈ mentions
      ∧ naming.identifier (.numbered 1) = naming.quoted "x1"
      ∧ .reference [.numbered 1] (some target) ∈ mentions
      ∧ naming.denotes [.numbered 1] target target = some (.numbered 1) := by
  intro x order orders q target mentions naming
  exact ⟨by decide +kernel, by decide +kernel, by decide +kernel, by decide +kernel,
    by decide +kernel⟩

end Query
end SqlCompiler
