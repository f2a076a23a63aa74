import SqlCompiler.Proofs.Collecting
import SqlCompiler.Proofs.Sections

/-!
# The recursion behind the writing

`Node.rendering` goes through a tree once, from its leaves, so there is nothing to say about its
end.  That is not how a query that numbers its rows is understood: it is replaced by a larger query
that contains all of it, and then everything starts over with the new one.  This file spells that
recursion out, call by call, and shows that it ends and that it writes the same.

A call is a query, the clauses of a query as they are, or a node as an expression.  What a call
writes is put together from what the calls it makes write, whatever that is; so the recursion is a
system of equations, with one unknown for each call.

* `Call`, `Call.next` — the calls, and those that a call makes by itself.
* `Call.body` — what a call writes, given what every other call writes.  It only asks for the calls
  that are made (`Call.body_congr`).
* `Call.Enters` — one call is made by another.  This is well-founded (`Call.wellFounded_enters`):
  the query in the place of another one is written as it is, and so is the one inside it.
* `Call.eq_script_iff` — so the equations have one solution, which is what is written.
-/

set_option autoImplicit false
namespace SqlCompiler

/-! ## Calls -/

/-- Whether a node is a query. -/
def Node.isQuery : Node → Bool
  | .mk (.query _) => true
  | _ => false

/-- The nodes that the clauses of a query are written from, in the order of their text: a whole row
is written from its alias, and a table from its name. -/
def Query.operands (d : Dialect) (q : Query) : List Node :=
  (q.projection.elim [] Node.columns).filter (fun n => !n.isRow)
    ++ q.sources.filter Node.isQuery
    ++ q.filters
    ++ q.groupBy.elim [] Node.groupKeys
    ++ SortKey.written d q.orderBy

/-- The nodes that an expression is written from, in the order of their text; what cannot be an
expression is refused without a look at its children. -/
def Shape.operands (d : Dialect) : Shape Node → List Node
  | .query _ | .table _ | .row _ | .product _ | .record _ => []
  | .cases [] _ => []
  | .rowNumber keys => if d.numbersRows then SortKey.written d keys else []
  | s => s.children

/-- A call in the recursion that writes a tree. -/
inductive Call where
  /-- A query, which may have to number its rows. -/
  | query (q : Query)
  /-- A query as it is, clause by clause. -/
  | clauses (q : Query)
  /-- A node as an expression. -/
  | expression (n : Node)

namespace Call

/-- The calls that a call makes, in the order of their text, as long as nothing is refused. -/
def next (d : Dialect) : Call → List Call
  | query q =>
    match q.standIn d with
    | .ok p => [clauses p]
    | .error _ => []
  | clauses q => (q.operands d).map expression
  | expression (.mk (.query q)) => [query q]
  | expression (.mk s) => (s.operands d).map expression

/-- One call is made by another. -/
def Enters (d : Dialect) (inner outer : Call) : Prop :=
  inner ∈ outer.next d

section
variable {d : Dialect}

theorem next_query_of_not_numbers {q : Query} (h : ¬ d.Numbers q) :
    (query q).next d = [clauses q] := by
  rw [next, Query.standIn_of_not_numbers h]

theorem next_query_of_numberRows {q p : Query} (h : d.Numbers q)
    (hp : Query.numberRows d.name q = .ok p) : (query q).next d = [clauses p] := by
  rw [next, Query.standIn, if_pos h, hp]

theorem next_query_of_refused {q : Query} {e : Error} (h : d.Numbers q)
    (he : Query.numberRows d.name q = .error e) : (query q).next d = [] := by
  rw [next, Query.standIn, if_pos h, he]

theorem next_expression {s : Shape Node} (hquery : ∀ q, s ≠ .query q) :
    (expression (.mk s)).next d = (s.operands d).map expression := by
  cases s with
  | query q => exact absurd rfl (hquery q)
  | _ => rfl

end

/-- The calls by what they make: a query as an expression asks for the query. -/
theorem elim {P : Call → Prop} (query : ∀ q, P (.query q)) (clauses : ∀ q, P (.clauses q))
    (nested : ∀ q, P (.expression (.mk (.query q))))
    (expression : ∀ s : Shape Node, (∀ q, s ≠ .query q) → P (.expression (.mk s))) (c : Call) :
    P c := by
  cases c with
  | query q => exact query q
  | clauses q => exact clauses q
  | expression n =>
    obtain ⟨s⟩ := n
    by_cases hquery : ∃ q, s = .query q
    · obtain ⟨q, rfl⟩ := hquery
      exact nested q
    · exact expression s fun q hs => hquery ⟨q, hs⟩

end Call

/-! ## The recursion ends -/

section
variable {d : Dialect}

theorem Shape.operands_of_writable {s : Shape Node} (hquery : ∀ q, s ≠ .query q)
    (h : s.Writable d) : s.operands d = s.written d := by
  cases s with
  | query q => exact absurd rfl (hquery q)
  | table _ | row _ | product _ | record _ => exact h.elim
  | cases branches otherwise =>
    cases branches with
    | nil => exact absurd rfl h
    | cons b bs => rfl
  | rowNumber keys => exact if_pos h
  | _ => rfl

theorem Shape.operands_of_not_writable {s : Shape Node} (h : ¬ s.Writable d) :
    s.operands d = [] := by
  cases s with
  | table _ | row _ | product _ | record _ => rfl
  | cases branches otherwise =>
    cases branches with
    | nil => rfl
    | cons b bs => exact absurd (List.cons_ne_nil b bs) h
  | rowNumber keys => exact if_neg h
  | _ => exact absurd trivial h

theorem Shape.mem_children_of_operands {s : Shape Node} (hquery : ∀ q, s ≠ .query q) {n : Node}
    (h : n ∈ s.operands d) : n ∈ s.children := by
  by_cases hs : s.Writable d
  · rw [operands_of_writable hquery hs] at h
    exact Shape.mem_written.mp h
  · rw [operands_of_not_writable hs] at h
    cases h

/-- What the clauses of a query are written from, clause by clause. -/
theorem Query.forall_mem_operands_iff {P : Node → Prop} {q : Query} :
    (∀ n ∈ q.operands d, P n)
      ↔ (∀ p, q.projection = some p → ∀ n ∈ p.columns, n.isRow = false → P n)
        ∧ (∀ g ∈ q.generators, g.source.isQuery = true → P g.source)
        ∧ (∀ n ∈ q.filters, P n)
        ∧ (∀ key, q.groupBy = some key → ∀ n ∈ key.groupKeys, P n)
        ∧ ∀ k ∈ q.orderBy, P k.key := by
  have hcolumns : (∀ n ∈ (q.projection.elim [] Node.columns).filter (fun n => !n.isRow), P n)
      ↔ ∀ p, q.projection = some p → ∀ n ∈ p.columns, n.isRow = false → P n := by
    cases q.projection <;> simp
  have hsources : (∀ n ∈ q.sources.filter Node.isQuery, P n)
      ↔ ∀ g ∈ q.generators, g.source.isQuery = true → P g.source := by
    simp [Clauses.sources]
  have hgroup : (∀ n ∈ q.groupBy.elim [] Node.groupKeys, P n)
      ↔ ∀ key, q.groupBy = some key → ∀ n ∈ key.groupKeys, P n := by
    cases q.groupBy <;> simp
  have hkeys : (∀ n ∈ SortKey.written d q.orderBy, P n) ↔ ∀ k ∈ q.orderBy, P k.key := by
    simp [SortKey.mem_written]
  simp only [operands, List.forall_mem_append, hcolumns, hsources, hgroup, hkeys, and_assoc]

/-- What holds of the children of a query and of theirs holds of what its clauses are written
from. -/
theorem Query.WithChildren.operand {P : Node → Prop} {q : Query}
    (h : ∀ n ∈ q.children, WithChildren P n) : ∀ n ∈ q.operands d, P n :=
  forall_mem_operands_iff.mpr
    ⟨fun p hp _ hn _ => (h p (Clauses.projection_mem_children hp)).column hn,
      fun g hg _ => (h g.source (Clauses.source_mem_children hg)).1,
      fun n hn => (h n (Clauses.filter_mem_children hn)).1,
      fun key hkey _ hn => (h key (Clauses.groupBy_mem_children hkey)).groupKey hn,
      fun k hk => (h k.key (Clauses.key_mem_children hk)).1⟩

namespace Call

/-- A call ends if all the calls that it makes end. -/
theorem acc_of_next {c : Call} (h : ∀ c' ∈ c.next d, Acc (Enters d) c') : Acc (Enters d) c :=
  .intro c h

theorem acc_of_next_eq {c c' : Call} (hnext : c.next d = [c']) (h : Acc (Enters d) c') :
    Acc (Enters d) c := by
  refine acc_of_next fun x hx => ?_
  rw [hnext, List.mem_singleton] at hx
  exact hx ▸ h

theorem acc_clauses {q : Query} (h : ∀ n ∈ q.operands d, Acc (Enters d) (expression n)) :
    Acc (Enters d) (clauses q) := by
  refine acc_of_next fun c hc => ?_
  obtain ⟨n, hn, rfl⟩ := List.mem_map.mp hc
  exact h n hn

/-- **The recursion ends.**  The query in the place of another one is larger, but neither it nor the
query inside it skips rows, and below them there is only what was there before. -/
theorem wellFounded_enters (d : Dialect) : WellFounded (Enters d) := by
  have haccessible : (∀ n, Acc (Enters d) (expression n)) ∧ ∀ q, Acc (Enters d) (query q) := by
    refine Query.writing_induct d ?_ ?_ ?_ ?_ ?_
    · intro s hquery ih
      refine acc_of_next fun c hc => ?_
      rw [next_expression hquery] at hc
      obtain ⟨n, hn, rfl⟩ := List.mem_map.mp hc
      exact ih n (Shape.mem_children_of_operands hquery hn)
    · intro q ih
      exact acc_of_next_eq rfl ih
    · intro q hnumbers ih
      exact acc_of_next_eq (next_query_of_not_numbers hnumbers)
        (acc_clauses (Query.WithChildren.operand ih))
    · intro q p hnumbers hp ih
      -- the new query has no rows to skip, so that asking for it is asking for its clauses
      have hclauses : Enters d (clauses p) (query p) := by
        rw [Enters, next_query_of_not_numbers (Query.not_numbers_of_numberRows hp)]
        exact List.mem_cons_self
      exact acc_of_next_eq (next_query_of_numberRows hnumbers hp) (ih.inv hclauses)
    · intro q e hnumbers he
      refine acc_of_next fun c hc => ?_
      rw [next_query_of_refused hnumbers he] at hc
      cases hc
  refine ⟨fun c => ?_⟩
  cases c with
  | query q => exact haccessible.2 q
  | clauses q => exact acc_clauses fun n _ => haccessible.1 n
  | expression n => exact haccessible.1 n

end Call
end

/-! ## What a call writes -/

/-- A tree whose nodes are written in the given way. -/
def Node.renderedBy (write : Node → Script) : Node → Rendering :=
  Node.fold fun s => .mk (write (.mk (s.map Prod.fst))) (s.map Prod.snd)

namespace Node

variable (write : Node → Script)

theorem renderedBy_mk (s : Shape Node) :
    (mk s).renderedBy write = .mk (write (mk s)) (s.map (renderedBy write)) := by
  rw [renderedBy, fold_mk, Shape.map_map, Shape.map_map]
  exact congrArg (fun plain => Rendering.mk (write (mk plain)) _) (Shape.map_id s)

theorem script_renderedBy (n : Node) : (n.renderedBy write).script = write n := by
  obtain ⟨s⟩ := n
  rw [renderedBy_mk]
  rfl

theorem shape_renderedBy (n : Node) :
    (n.renderedBy write).shape = n.shape.map (renderedBy write) := by
  obtain ⟨s⟩ := n
  rw [renderedBy_mk]
  rfl

/-- What a dialect writes for a tree is what it writes for each of its nodes. -/
theorem rendering_eq_renderedBy (d : Dialect) :
    ∀ n : Node, n.rendering d = n.renderedBy (script d) := by
  refine Node.induct fun s ih => ?_
  rw [renderedBy_mk, ← Shape.map_congr ih, script, rendering_mk]
  rfl

end Node

/-- What a call writes, given what every other call writes. -/
def Call.body (d : Dialect) (write : Call → Script) : Call → Script
  | query q => .checked (q.standIn d) fun p => write (clauses p)
  | clauses q => .clauses d (q.map (Node.renderedBy fun n => write (expression n)))
  | expression (.mk (.query q)) => .subquery (write (query q))
  | expression (.mk s) =>
    .shape d (Script.clauses d) (s.map (Node.renderedBy fun n => write (expression n)))

/-- What a dialect writes for a call. -/
def Call.script (d : Dialect) : Call → Script
  | query q => Query.script d q
  | clauses q => Script.clauses d (Query.rendering d q)
  | expression n => n.script d

/-! ## Only the calls that are made are asked for -/

namespace Script

variable {write write' : Node → Script}

theorem item_congr {n : Node} (h : n.isRow = false → write n = write' n) :
    item (n.renderedBy write) = item (n.renderedBy write') := by
  obtain ⟨s⟩ := n
  rw [item, item, Node.shape_renderedBy, Node.shape_renderedBy, Node.script_renderedBy,
    Node.script_renderedBy]
  cases s with
  | row source => rfl
  | _ => exact h rfl

theorem field_congr {c : Field Node} (h : c.value.isRow = false → write c.value = write' c.value) :
    field ⟨c.name, c.value.renderedBy write⟩ = field ⟨c.name, c.value.renderedBy write'⟩ := by
  rw [field, field, item_congr h]
  simp [Node.shape_renderedBy]

theorem source_congr (d : Dialect) {n : Node} (h : n.isQuery = true → write n = write' n) :
    source d (n.renderedBy write) = source d (n.renderedBy write') := by
  obtain ⟨s⟩ := n
  rw [source, source, Node.shape_renderedBy, Node.shape_renderedBy, Node.script_renderedBy,
    Node.script_renderedBy]
  cases s with
  | query q => exact h rfl
  | _ => rfl

theorem scripts_congr {ns : List Node} (h : ∀ n ∈ ns, write n = write' n) :
    (ns.map (Node.renderedBy write)).map Rendering.script
      = (ns.map (Node.renderedBy write')).map Rendering.script := by
  simpa [Node.script_renderedBy] using h

theorem sortKeys_congr (d : Dialect) {keys : List (SortKey Node)}
    (h : ∀ k ∈ keys, write k.key = write' k.key) :
    sortKeys d (keys.map fun k => ⟨k.key.renderedBy write, k.order⟩)
      = sortKeys d (keys.map fun k => ⟨k.key.renderedBy write', k.order⟩) := by
  rw [sortKeys, sortKeys, List.map_map, List.map_map]
  refine congrArg (separated ", ") (List.map_congr_left fun k hk => ?_)
  simp only [Function.comp_apply, sortKey, Node.script_renderedBy, h k hk]

section
variable {q : Query}

theorem select_congr
    (h : ∀ p, q.projection = some p → ∀ n ∈ p.columns, n.isRow = false → write n = write' n) :
    select (q.map (Node.renderedBy write)) = select (q.map (Node.renderedBy write')) := by
  rw [select, select, Clauses.map, Clauses.map]
  cases hp : q.projection with
  | none => simp
  | some p =>
    have hcolumns := h p hp
    obtain ⟨s⟩ := p
    dsimp only [Option.map_some]
    rw [Node.shape_renderedBy, Node.shape_renderedBy]
    cases s with
    | record fields =>
      refine congrArg (separated ", ") ?_
      rw [List.map_map, List.map_map]
      exact List.map_congr_left fun c hc => field_congr (hcolumns c.value (List.mem_map_of_mem hc))
    | product items =>
      refine congrArg (separated ", ") ?_
      rw [List.map_map, List.map_map]
      exact List.map_congr_left fun n hn => item_congr (hcolumns n hn)
    | _ => exact item_congr (hcolumns _ List.mem_cons_self)

theorem from_congr (d : Dialect)
    (h : ∀ g ∈ q.generators, g.source.isQuery = true → write g.source = write' g.source) :
    from_ d (q.map (Node.renderedBy write)) = from_ d (q.map (Node.renderedBy write')) := by
  rw [from_, from_, Clauses.map, Clauses.map]
  cases hg : q.generators with
  | nil => rfl
  | cons g gs =>
    rw [hg] at h
    refine congrArg (fun items => words " from " ++ separated ", " items) ?_
    dsimp only
    rw [List.map_map, List.map_map]
    refine List.map_congr_left fun g' hg' => ?_
    simp only [Function.comp_apply, generator, source_congr d (h g' hg')]

theorem filters_congr (h : ∀ n ∈ q.filters, write n = write' n) :
    filters (q.map (Node.renderedBy write)) = filters (q.map (Node.renderedBy write')) := by
  rw [filters, filters, Clauses.map, Clauses.map]
  cases hf : q.filters with
  | nil => rfl
  | cons n ns =>
    rw [hf] at h
    exact congrArg (fun items => words " where " ++ separated " and " items) (scripts_congr h)

theorem groupBy_congr
    (h : ∀ key, q.groupBy = some key → ∀ n ∈ key.groupKeys, write n = write' n) :
    groupBy (q.map (Node.renderedBy write)) = groupBy (q.map (Node.renderedBy write')) := by
  rw [groupBy, groupBy, Clauses.map, Clauses.map]
  cases hk : q.groupBy with
  | none => rfl
  | some key =>
    have hkeys := h key hk
    obtain ⟨s⟩ := key
    dsimp only [Option.map_some]
    rw [Node.shape_renderedBy, Node.shape_renderedBy, Node.script_renderedBy,
      Node.script_renderedBy]
    refine congrArg (words " group by " ++ ·) ?_
    cases s with
    | product items => exact congrArg (separated ", ") (scripts_congr hkeys)
    | _ => exact hkeys _ List.mem_cons_self

theorem orderBy_congr (d : Dialect) (h : ∀ k ∈ q.orderBy, write k.key = write' k.key) :
    orderBy d (q.map (Node.renderedBy write)) = orderBy d (q.map (Node.renderedBy write')) := by
  rw [orderBy, orderBy, Clauses.map, Clauses.map]
  cases hk : q.orderBy with
  | nil => rfl
  | cons k ks =>
    rw [hk] at h
    exact congrArg (words " order by " ++ ·) (sortKeys_congr d h)

/-- The clauses of a query ask for what they are written from. -/
theorem clauses_congr (d : Dialect) (h : ∀ n ∈ q.operands d, write n = write' n) :
    clauses d (q.map (Node.renderedBy write)) = clauses d (q.map (Node.renderedBy write')) := by
  obtain ⟨hcolumns, hsources, hfilters, hgroup, hkeys⟩ := Query.forall_mem_operands_iff.mp h
  rw [clauses, clauses, body, body, select_congr hcolumns, from_congr d hsources,
    filters_congr hfilters, groupBy_congr hgroup, orderBy_congr d hkeys, Clauses.binders_map,
    Clauses.binders_map]
  rfl

end

/-! ### Expressions -/

theorem apply_congr (d : Dialect) (f : Function) {arguments : List Node}
    (h : ∀ n ∈ arguments, write n = write' n) :
    apply d f (arguments.map (Node.renderedBy write))
      = apply d f (arguments.map (Node.renderedBy write')) := by
  have hshapes : ∀ write : Node → Script,
      (arguments.map (Node.renderedBy write)).map Rendering.shape
        = (arguments.map Node.shape).map (Shape.map (Node.renderedBy write)) := by
    intro write
    simp [Node.shape_renderedBy]
  rw [apply, apply, List.length_map, List.length_map, hshapes, hshapes, scripts_congr h,
    checkSubquery_map f (Node.renderedBy write) (Node.renderedBy write')]

theorem conditional_congr (d : Dialect) {branches : List (Branch Node)} {otherwise : Option Node}
    (h : ∀ n ∈ (Shape.cases branches otherwise).operands d, write n = write' n) :
    conditional d (branches.map fun b => ⟨b.condition.renderedBy write, b.value.renderedBy write⟩)
        (otherwise.map (Node.renderedBy write))
      = conditional d
          (branches.map fun b => ⟨b.condition.renderedBy write', b.value.renderedBy write'⟩)
          (otherwise.map (Node.renderedBy write')) := by
  cases branches with
  | nil => rfl
  | cons b bs =>
    obtain ⟨hbranches, hotherwise⟩ := List.forall_mem_append.mp h
    have hbranch : ∀ b' ∈ b :: bs,
        branch d ⟨b'.condition.renderedBy write, b'.value.renderedBy write⟩
          = branch d ⟨b'.condition.renderedBy write', b'.value.renderedBy write'⟩ := by
      intro b' hb'
      have hpair : ∀ n ∈ [b'.condition, b'.value], write n = write' n := fun n hn =>
        hbranches n (List.mem_flatMap.mpr ⟨b', hb', hn⟩)
      simp only [branch, Node.script_renderedBy, hpair b'.condition (by simp),
        hpair b'.value (by simp)]
    have hitems := List.map_congr_left hbranch
    rw [conditional.eq_def, conditional.eq_def, if_neg (by simp), if_neg (by simp), List.map_map,
      List.map_map]
    dsimp only [Function.comp_def]
    rw [hitems]
    cases otherwise with
    | none => rfl
    | some n => simp only [Option.map_some, Node.script_renderedBy, hotherwise n (by simp)]

/-- An expression asks for what it is written from. -/
theorem shape_congr (d : Dialect) {s : Shape Node} (hquery : ∀ q, s ≠ .query q)
    (h : ∀ n ∈ s.operands d, write n = write' n) :
    shape d (clauses d) (s.map (Node.renderedBy write))
      = shape d (clauses d) (s.map (Node.renderedBy write')) := by
  cases s with
  | query q => exact absurd rfl (hquery q)
  | apply f arguments => exact apply_congr d f h
  | cases branches otherwise => exact conditional_congr d h
  | rowNumber keys =>
    change rowNumber d _ = rowNumber d _
    rw [rowNumber, rowNumber]
    by_cases hd : d.numbersRows = true
    · rw [Shape.operands_of_writable hquery hd] at h
      have hkeys : ∀ k ∈ keys, write k.key = write' k.key := fun k hk =>
        h k.key (SortKey.mem_written.mpr (List.mem_map_of_mem hk))
      rw [if_pos hd, if_pos hd, sortKeys_congr d hkeys]
      simp
    · rw [if_neg hd, if_neg hd]
  | _ => rfl

end Script

namespace Call

variable {d : Dialect}

theorem body_expression {s : Shape Node} (hquery : ∀ q, s ≠ .query q) (write : Call → Script) :
    (expression (.mk s)).body d write
      = .shape d (Script.clauses d) (s.map (Node.renderedBy fun n => write (expression n))) := by
  cases s with
  | query q => exact absurd rfl (hquery q)
  | _ => rfl

/-- **A call asks for nothing but the calls that it makes.** -/
theorem body_congr {c : Call} {write write' : Call → Script}
    (h : ∀ c' ∈ c.next d, write c' = write' c') : c.body d write = c.body d write' := by
  cases c using Call.elim with
  | query q =>
    rw [body, body]
    rw [next] at h
    cases hp : q.standIn d with
    | error e => rfl
    | ok p =>
      rw [hp] at h
      exact h _ List.mem_cons_self
  | clauses q =>
    exact Script.clauses_congr d fun n hn => h _ (List.mem_map_of_mem hn)
  | nested q =>
    exact congrArg Script.subquery (h _ List.mem_cons_self)
  | expression s hquery =>
    rw [next_expression hquery] at h
    rw [body_expression hquery, body_expression hquery]
    exact Script.shape_congr d hquery fun n hn => h _ (List.mem_map_of_mem hn)

/-- What is written solves the equations. -/
theorem script_eq_body (c : Call) : c.script d = c.body d (script d) := by
  have hrendering : Node.rendering d = Node.renderedBy fun n => script d (expression n) :=
    funext (Node.rendering_eq_renderedBy d)
  cases c using Call.elim with
  | query q => exact Query.script_eq_standIn d q
  | clauses q => rw [script, body, Query.rendering, hrendering]
  | nested q => exact Node.script_query d q
  | expression s hquery =>
    rw [body_expression hquery, ← hrendering]
    exact Node.script_mk hquery

/-- **The equations have one solution**: what is written. -/
theorem eq_script_iff {write : Call → Script} :
    (∀ c, write c = c.body d write) ↔ write = script d := by
  constructor
  · intro h
    funext c
    induction c using (wellFounded_enters d).induction with
    | _ c ih => rw [h c, script_eq_body, body_congr ih]
  · rintro rfl c
    exact script_eq_body c

end Call
end SqlCompiler
