import SqlCompiler.Layout.Basic
import SqlCompiler.Proofs.Rendering

/-!
# Collecting from scripts

The checks a script makes, the symbols it needs and the placeholders it writes are lists collected
by going through its instructions in their order.  For every such list this file says how the one
of a node comes from those of its children, clause by clause and shape by shape.

* `Script.Collects` — going through the instructions, where words and names yield nothing.
* `Collects.separated`, `Collects.spelled`, … — lists of scripts with texts between them.
* `Collects.apply`, `Collects.conditional`, … — the shapes of nodes.
* `Collects.select`, `Collects.from_`, … — the clauses of a query, and `Collects.body`,
  `Collects.clauses`.
-/

set_option autoImplicit false
namespace SqlCompiler

namespace Node

/-- The nodes that are written for a projection. -/
abbrev columns (n : Node) : List Node :=
  Layout.columnsOf n

/-- The nodes that are written for a group key. -/
def groupKeys (n : Node) : List Node :=
  match n.shape with
  | .product items => items
  | _ => [n]

theorem mem_columns {n m : Node} (h : m ∈ n.columns) : m = n ∨ m ∈ n.children := by
  obtain ⟨s⟩ := n
  cases s with
  | product items => exact .inr h
  | record fields => exact .inr h
  | _ => exact .inl (List.mem_singleton.mp h)

theorem mem_groupKeys {n m : Node} (h : m ∈ n.groupKeys) : m = n ∨ m ∈ n.children := by
  obtain ⟨s⟩ := n
  cases s with
  | product items => exact .inr h
  | _ => exact .inl (List.mem_singleton.mp h)

/-- The script that writes a node as a column of a projection. -/
def item (d : Dialect) (n : Node) : Script :=
  Script.item (n.rendering d)

/-- A column is written as an expression unless it is a whole row. -/
theorem item_cases (d : Dialect) (n : Node) :
    (∃ s, n = row s ∧ n.item d = .reference s ++ Script.words ".*") ∨ n.item d = n.script d := by
  obtain ⟨s⟩ := n
  rw [item, Script.item, shape_rendering]
  cases s with
  | row s => exact .inl ⟨s, rfl, rfl⟩
  | _ => exact .inr rfl

end Node

namespace Query.WithChildren

variable {P : Node → Prop} {n m : Node}

theorem column (h : WithChildren P n) (hm : m ∈ n.columns) : P m := by
  rcases Node.mem_columns hm with rfl | hm
  · exact h.1
  · exact h.2 m hm

theorem groupKey (h : WithChildren P n) (hm : m ∈ n.groupKeys) : P m := by
  rcases Node.mem_groupKeys hm with rfl | hm
  · exact h.1
  · exact h.2 m hm

end Query.WithChildren

section
variable {ν μ : Type}

/-- The keys of an order in the order of their text: a key stands twice if nulls are moved by
hand. -/
def SortKey.written (d : Dialect) (keys : List (SortKey ν)) : List ν :=
  keys.flatMap fun k =>
    if (d.nullKeys.extraKey? k.order.nulls).isSome then [k.key, k.key] else [k.key]

theorem SortKey.mem_written {d : Dialect} {keys : List (SortKey ν)} {n : ν} :
    n ∈ written d keys ↔ n ∈ keys.map SortKey.key := by
  rw [written, List.mem_flatMap, List.mem_map]
  refine exists_congr fun k => and_congr_right fun _ => ?_
  split
  · rw [List.mem_cons, List.mem_singleton, or_self, eq_comm]
  · rw [List.mem_singleton, eq_comm]

/-- The children of a query in the order of their text.  Where rows are numbered, the order of the
rows is written with the projection. -/
def Clauses.written (d : Dialect) (q : Clauses ν) : List ν :=
  let others := q.sources ++ q.filters ++ q.groupBy.toList
  let keys := SortKey.written d q.orderBy
  q.projection.toList ++ if d.Numbers q then keys ++ others else others ++ keys

theorem Clauses.mem_written {d : Dialect} {q : Clauses ν} {n : ν} :
    n ∈ q.written d ↔ n ∈ q.children := by
  rw [written, children, expressions]
  split <;> simp only [List.mem_append, SortKey.mem_written] <;> grind

/-- The children of a node in the order of their text. -/
def Shape.written (d : Dialect) : Shape ν → List ν
  | .query q => q.written d
  | .rowNumber keys => SortKey.written d keys
  | s => s.children

theorem Shape.mem_written {d : Dialect} {s : Shape ν} {n : ν} :
    n ∈ s.written d ↔ n ∈ s.children := by
  cases s with
  | query q => exact Clauses.mem_written
  | rowNumber keys => exact SortKey.mem_written
  | _ => exact Iff.rfl

theorem SortKey.written_map (f : ν → μ) (d : Dialect) (keys : List (SortKey ν)) :
    written d (keys.map fun k => ⟨f k.key, k.order⟩) = (written d keys).map f := by
  rw [written, written, List.flatMap_map, List.map_flatMap]
  refine congrArg (List.flatMap · keys) (funext fun k => ?_)
  dsimp only
  split <;> rfl

theorem Clauses.written_map (f : ν → μ) (d : Dialect) (q : Clauses ν) :
    (q.map f).written d = (q.written d).map f := by
  have hsources : (q.map f).sources = q.sources.map f := by
    simp only [sources, map, List.map_map, Function.comp_def]
  have hkeys : SortKey.written d (q.map f).orderBy = (SortKey.written d q.orderBy).map f :=
    SortKey.written_map f d q.orderBy
  have hfilters : (q.map f).filters = q.filters.map f := rfl
  have hgroup : (q.map f).groupBy.toList = q.groupBy.toList.map f := Option.toList_map
  have hprojection : (q.map f).projection.toList = q.projection.toList.map f := Option.toList_map
  rw [written, written, hsources, hkeys, hfilters, hgroup, hprojection]
  by_cases h : d.Numbers q
  · rw [if_pos h, if_pos (show d.Numbers (q.map f) from h)]
    simp only [List.map_append]
  · rw [if_neg h, if_neg (show ¬ d.Numbers (q.map f) from h)]
    simp only [List.map_append]

theorem Shape.written_map (f : ν → μ) (d : Dialect) (s : Shape ν) :
    (s.map f).written d = (s.written d).map f := by
  cases s with
  | query q => exact Clauses.written_map f d q
  | rowNumber keys => exact SortKey.written_map f d keys
  | cases branches otherwise => exact Shape.children_map f (.cases branches otherwise)
  | record fields => exact Shape.children_map f (.record fields)
  | _ => rfl

end

/-- Nodes that a dialect can write as an expression, as far as the node itself says. -/
def Shape.Writable (d : Dialect) : Shape Node → Prop
  | .table _ | .row _ | .product _ | .record _ => False
  | .cases branches _ => branches ≠ []
  | .rowNumber _ => d.numbersRows = true
  | _ => True

/-- Any other node is refused. -/
theorem Node.script_of_not_writable {d : Dialect} {s : Shape Node} (h : ¬ s.Writable d) :
    (Node.mk s).script d = .fail (.malformed .emptyCase)
      ∨ ∃ construct, (Node.mk s).script d = .fail (Render.unsupported d construct) := by
  cases s with
  | table _ | row _ | product _ | record _ => exact .inr ⟨_, script_refused d (by simp)⟩
  | cases branches otherwise =>
    cases branches with
    | nil => exact .inl (script_cases d [] otherwise)
    | cons b bs => exact absurd nofun h
  | rowNumber keys =>
    refine .inr ⟨.rowNumber, ?_⟩
    rw [script_rowNumber]
    exact if_neg h
  | _ => exact absurd trivial h

namespace Script

variable {α : Type}

/-- The instructions of a node besides names, words and what its children are written by. -/
def own (d : Dialect) : Shape Node → List Script
  | .column source _ => [reference source]
  | .literal c => [literal d c]
  | .parameter index kind => [placeholder (d.types.column kind) (.argument index.toNat)]
  | .apply f arguments =>
    [check (f.checkArity arguments.length)]
      ++ (f.capability? arguments.length).toList.map (fun c => check (d.require c))
      ++ [check (checkSubquery f (arguments.map fun n => (n.rendering d).shape))]
  | .nextValue _ => [check (d.require .sequence)]
  | .currentValue _ => [check (d.require .sequence), check (d.require .sequenceCurr)]
  | _ => []

/-- Whether an argument is refused does not depend on how it is written. -/
theorem checkSubquery_map {ν : Type} (f : Function) (g g' : ν → Rendering)
    (arguments : List (Shape ν)) :
    checkSubquery f (arguments.map (Shape.map g))
      = checkSubquery f (arguments.map (Shape.map g')) := by
  cases f with
  | hasRows =>
    match arguments with
    | [] => rfl
    | [s] | s :: _ :: _ => cases s <;> rfl
  | _ => rfl

/-- A list collected by going through a script. -/
structure Collects (f : Script → List α) : Prop where
  done : f done = []
  words : ∀ text, f (words text) = []
  name : ∀ n, f (name n) = []
  nameText : ∀ n, f (piece (.nameText n)) = []
  skipRows : ∀ n, f (skipRows n) = []
  append : ∀ first second, f (first ++ second) = f first ++ f second

namespace Collects

variable {f : Script → List α} (h : Collects f)
include h

/-! ## Lists of scripts -/

theorem wordsIfAny (text : String) : f (wordsIfAny text) = [] := by
  rw [Script.wordsIfAny]
  split
  · exact h.done
  · exact h.words text

theorem each (items : List Script) : f (each items) = items.flatMap f := by
  induction items with
  | nil => exact h.done
  | cons item rest ih => rw [Script.each, h.append, ih, List.flatMap_cons]

theorem eachAfter (separator : String) (items : List Script) :
    f (eachAfter separator items) = items.flatMap f := by
  rw [Script.eachAfter, h.each, List.flatMap_map]
  refine congrArg (List.flatMap · items) (funext fun item => ?_)
  rw [h.append, h.words, List.nil_append]

theorem separated (separator : String) (items : List Script) :
    f (separated separator items) = items.flatMap f := by
  cases items with
  | nil => exact h.done
  | cons item rest => rw [Script.separated, h.append, h.eachAfter, List.flatMap_cons]

theorem argumentList (s : Spelling) (items : List Script) :
    f (argumentList s items) = items.flatMap f := by
  match items with
  | [] => exact h.done
  | [a] => rw [Script.argumentList, List.flatMap_cons, List.flatMap_nil, List.append_nil]
  | a :: b :: rest =>
    rw [Script.argumentList, h.append, h.append, h.append, h.words, h.eachAfter, List.append_nil,
      List.flatMap_cons, List.flatMap_cons, List.append_assoc]

theorem spelled (s : Spelling) (items : List Script) :
    f (spelled s items) = items.flatMap f := by
  rw [Script.spelled, h.append, h.append, h.words, h.argumentList, h.wordsIfAny, List.append_nil,
    List.nil_append]

/-! ## Shapes -/

variable (d : Dialect)

theorem sortKey (k : SortKey Node) :
    f (sortKey d ⟨k.key.rendering d, k.order⟩)
      = (if (d.nullKeys.extraKey? k.order.nulls).isSome then [k.key, k.key]
          else [k.key]).flatMap fun n => f (n.script d) := by
  rw [Script.sortKey, h.append, h.append, h.append, h.wordsIfAny, List.append_nil]
  have hdesc : f (if k.order.isDescending then Script.words " desc" else Script.done) = [] := by
    split
    · exact h.words _
    · exact h.done
  rw [hdesc, List.append_nil]
  cases d.nullKeys.extraKey? k.order.nulls with
  | none =>
    rw [h.done]
    exact (List.append_nil _).symm
  | some texts =>
    obtain ⟨before, behind⟩ := texts
    rw [h.append, h.append, h.words, h.words, List.append_nil, List.nil_append]
    exact congrArg _ (List.append_nil _).symm

theorem sortKeys (keys : List (SortKey Node)) :
    f (sortKeys d (keys.map fun k => ⟨k.key.rendering d, k.order⟩))
      = (SortKey.written d keys).flatMap fun n => f (n.script d) := by
  rw [Script.sortKeys, h.separated, List.flatMap_map, List.flatMap_map, SortKey.written,
    List.flatMap_assoc]
  exact congrArg (List.flatMap · keys) (funext fun k => h.sortKey d k)

theorem rowNumber {keys : List (SortKey Node)} (hd : d.numbersRows = true) :
    f ((Node.mk (.rowNumber keys)).script d)
      = (SortKey.written d keys).flatMap fun n => f (n.script d) := by
  rw [Node.script_rowNumber, Script.rowNumber, if_pos hd, h.append, h.append, h.words, h.words,
    List.append_nil, List.nil_append, ← h.sortKeys d]
  cases keys with
  | nil => exact (h.words _).trans h.done.symm
  | cons k keys => rfl

omit h in
theorem scripts (ns : List Node) :
    ((ns.map (Node.rendering d)).map Rendering.script).flatMap f
      = ns.flatMap fun n => f (n.script d) := by
  rw [List.flatMap_map, List.flatMap_map]
  rfl

theorem apply (g : Function) (arguments : List Node) :
    f ((Node.apply g arguments).script d)
      = (own d (.apply g arguments)).flatMap f
        ++ arguments.flatMap fun n => f (n.script d) := by
  rw [Node.script_apply, Script.apply, h.append, h.append, h.append, h.spelled, scripts,
    List.length_map, List.map_map]
  refine congrArg (· ++ _) ?_
  rw [own]
  cases g.capability? arguments.length with
  | none => rw [h.done]; simp [Function.comp_def]
  | some c => simp [Function.comp_def]

theorem conditional {branches : List (Branch Node)} (hb : branches ≠ [])
    (otherwise : Option Node) :
    f ((Node.mk (.cases branches otherwise)).script d)
      = (Shape.cases branches otherwise).children.flatMap fun n => f (n.script d) := by
  have hempty : ¬ (branches.map fun b =>
      (⟨b.condition.rendering d, b.value.rendering d⟩ : Branch Rendering)).isEmpty = true := by
    simpa using hb
  have hbranch : ∀ b : Branch Rendering,
      f (Script.branch d b) = f b.condition.script ++ f b.value.script := by
    intro b
    rw [Script.branch, h.append, h.append, h.words, List.append_nil]
  rw [Node.script_cases, Script.conditional.eq_def, if_neg hempty, h.append, h.append, h.append,
    h.append, h.words, h.words, h.wordsIfAny, h.separated, List.flatMap_map, List.flatMap_map,
    List.append_nil, List.nil_append, Shape.children, List.flatMap_append, List.flatMap_assoc]
  simp only [hbranch, List.flatMap_cons, List.flatMap_nil, List.append_nil]
  cases otherwise with
  | none => exact congrArg _ h.done
  | some n =>
    refine congrArg _ ((h.append _ _).trans ?_)
    rw [h.words]
    exact (List.append_nil _).symm

theorem sequenceCall (opening sequence : String) : f (sequenceCall d opening sequence) = [] := by
  have hname : f (piece (if d.sequences.asText then .nameText sequence else .name sequence))
      = [] := by
    split
    · exact h.nameText sequence
    · exact h.name sequence
  rw [Script.sequenceCall, h.append, h.append, h.words, h.words, hname]
  rfl

/-- **What is collected from a node**: something from its own instructions, and then what is
collected from its children. -/
theorem expression {s : Shape Node} (hs : s.Writable d) (hquery : ∀ q, s ≠ .query q) :
    f ((Node.mk s).script d)
      = (own d s).flatMap f ++ (s.written d).flatMap fun n => f (n.script d) := by
  cases s with
  | query q => exact absurd rfl (hquery q)
  | table _ | row _ | product _ | record _ => exact hs.elim
  | column source name =>
    rw [Node.script_column, h.append, h.append, h.words, h.name]
    simp [own, Shape.written, Shape.children]
  | literal c => simp [Node.script_literal, own, Shape.written, Shape.children]
  | parameter index kind => simp [Node.script_parameter, own, Shape.written, Shape.children]
  | apply g arguments => exact h.apply d g arguments
  | cases branches otherwise => exact h.conditional d hs otherwise
  | rowNumber keys => exact h.rowNumber d hs
  | nextValue sequence =>
    rw [Node.script_nextValue, h.append, Script.nextValue, h.sequenceCall]
    simp [own, Shape.written, Shape.children]
  | currentValue sequence =>
    rw [Node.script_currentValue, h.append, h.append, Script.currentValue, h.sequenceCall]
    simp [own, Shape.written, Shape.children]

theorem subquery (q : Query) :
    f ((Node.query q).script d) = f (.deeper (Query.script d q)) := by
  rw [Node.script_query, Script.subquery, h.append, h.append, h.words, h.words, List.append_nil,
    List.nil_append]

/-! ## Clauses -/

variable (q : Query)

theorem field (c : Field Node) :
    f (field ⟨c.name, c.value.rendering d⟩) = f (c.value.item d) := by
  rw [Script.field, h.append]
  split
  · rw [h.done, List.append_nil]; rfl
  · rw [h.append, h.words, h.name, List.append_nil, List.append_nil]; rfl

theorem select {p : Node} (hp : q.projection = some p) :
    f (select (Query.rendering d q)) = p.columns.flatMap fun n => f (n.item d) := by
  rw [Script.select, show (Query.rendering d q).projection = some (p.rendering d) by
    rw [Query.rendering, Clauses.map, hp]; rfl]
  obtain ⟨s⟩ := p
  dsimp only
  rw [Node.shape_rendering]
  cases s with
  | record fields =>
    refine (h.separated _ _).trans ?_
    rw [List.flatMap_map, List.flatMap_map]
    refine (congrArg (List.flatMap · fields) (funext fun c => h.field d c)).trans ?_
    exact (List.flatMap_map Field.value (fun n => f (n.item d)) fields).symm
  | product items =>
    refine (h.separated _ _).trans ?_
    rw [List.flatMap_map, List.flatMap_map]
    rfl
  | _ => exact (List.append_nil _).symm

theorem select_none (hp : q.projection = none) :
    f (Script.select (Query.rendering d q))
      = if q.generators.length = 1 then []
        else f (.fail (.malformed (.noProjection q.generators.length))) := by
  rw [Script.select, show (Query.rendering d q).projection = none by
    rw [Query.rendering, Clauses.map, hp]; rfl,
    show (Query.rendering d q).generators.length = q.generators.length from List.length_map _]
  dsimp only
  split
  · exact h.words _
  · rfl

theorem from_ :
    f (from_ d (Query.rendering d q))
      = q.generators.flatMap fun g =>
          f (source d (g.source.rendering d)) ++ f (.sourceAlias g.binder) := by
  rw [Script.from_, Query.rendering, Clauses.map]
  cases q.generators with
  | nil => exact h.wordsIfAny _
  | cons g gs =>
    refine (h.append _ _).trans ?_
    rw [h.words, h.separated, List.nil_append, List.flatMap_map, List.flatMap_cons,
      List.flatMap_map, List.flatMap_cons]
    simp only [Script.generator, h.append]

theorem filters :
    f (filters (Query.rendering d q)) = q.filters.flatMap fun n => f (n.script d) := by
  rw [Script.filters, Query.rendering, Clauses.map]
  cases q.filters with
  | nil => exact h.done
  | cons n ns =>
    refine (h.append _ _).trans ?_
    rw [h.words, h.separated, List.nil_append]
    exact scripts d (n :: ns)

theorem groupBy :
    f (groupBy (Query.rendering d q))
      = (q.groupBy.elim [] Node.groupKeys).flatMap fun n => f (n.script d) := by
  rw [Script.groupBy, Query.rendering, Clauses.map]
  cases q.groupBy with
  | none => exact h.done
  | some key =>
    obtain ⟨s⟩ := key
    refine (h.append _ _).trans ?_
    rw [h.words, List.nil_append, Node.shape_rendering]
    cases s with
    | product items => exact (h.separated _ _).trans (scripts d items)
    | _ => exact (List.append_nil _).symm

theorem orderBy :
    f (orderBy d (Query.rendering d q))
      = (SortKey.written d q.orderBy).flatMap fun n => f (n.script d) := by
  rw [Script.orderBy, Query.rendering, Clauses.map]
  cases hk : q.orderBy with
  | nil => exact h.done
  | cons k ks =>
    refine (h.append _ _).trans ?_
    rw [h.words, List.nil_append]
    exact h.sortKeys d (k :: ks)

/-- The part before the projection fails or yields nothing. -/
theorem modifiers :
    f (modifiers d (Query.rendering d q)) = []
      ∨ ∃ fetch offset, f (modifiers d (Query.rendering d q))
          = f (.fail (.malformed (.pageOverflow fetch offset))) := by
  rw [Script.modifiers]
  split
  · dsimp only
    rw [Script.topRows]
    split
    · left
      refine (h.append _ _).trans ?_
      rw [h.words, List.nil_append]
      split
      · exact h.skipRows _
      · exact h.done
    · exact .inr ⟨_, _, rfl⟩
  · left
    split
    · exact h.words _
    · exact h.done
  · exact .inl h.done

theorem modifiers_of_fail (hfail : ∀ e, f (.fail e) = []) :
    f (Script.modifiers d (Query.rendering d q)) = [] := by
  rcases h.modifiers d q with hnone | ⟨_, _, heq⟩
  · exact hnone
  · exact heq.trans (hfail _)

/-- The clauses of a query one after the other. -/
theorem body :
    f (body d (Query.rendering d q))
      = f (Script.modifiers d (Query.rendering d q)) ++ f (Script.select (Query.rendering d q))
        ++ f (Script.from_ d (Query.rendering d q)) ++ f (Script.filters (Query.rendering d q))
        ++ f (Script.groupBy (Query.rendering d q))
        ++ f (Script.orderBy d (Query.rendering d q)) := by
  rw [Script.body, h.append, h.append, h.append, h.append, h.append, h.append, h.append, h.words,
    Script.paging, h.wordsIfAny, List.append_nil, List.nil_append]

/-- A query has nothing but what is in its scope, if nothing is collected from checks. -/
theorem clauses (hcheck : ∀ e, f (check e) = []) (hnested : ∀ e, f (checkNested e) = []) :
    f (clauses d (Query.rendering d q))
      = f (scope (Query.rendering d q).binders (Script.body d (Query.rendering d q))) := by
  have hpaging : f (checkPaging d (Query.rendering d q)) = [] := by
    rw [checkPaging]
    split
    · refine (h.append _ _).trans ?_
      rw [hnested, List.nil_append]
      split
      · exact hcheck _
      · exact h.done
    · exact h.done
  rw [Script.clauses, h.append, hpaging, List.nil_append]

end Collects
end Script
end SqlCompiler
