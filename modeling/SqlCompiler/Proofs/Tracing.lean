import Mathlib.Data.List.Basic
import Mathlib.Data.List.Flatten
import SqlCompiler.Dialect.Builtin
import SqlCompiler.Proofs.Calls
import SqlCompiler.Proofs.Gathering
import SqlCompiler.Proofs.Passing

/-!
# Every query numbers its rows once

As the recursion that writes a query ends, all its calls can be listed in the order of their text.
The list is no second account of the writing: a script opens a scope for each call that writes the
clauses of a query, and for nothing else, so the scopes of the script are those of the list.

A query is replaced once for each time that it is written, which may be more than once where it
stands in an ordering key.  Neither level of the query in its place is replaced again.  So the
queries that are replaced can be read off the tree, which knows nothing of the queries that are put
in their places.

* `Call.trace` — all calls that are made for a call.
* `Script.scopes`, and `Call.scopes_script` — the scopes of a script are those of the calls.
* `Query.skipping` — the queries of a tree that skip rows, once for each time they are written.
* `Call.numbered`, and `Query.replaces_tree` — the queries that are replaced are all of those, or
  fewer if something is refused.
* `Query.numbers_rows_once` — all of it for SQL Server.
-/

set_option autoImplicit false
namespace SqlCompiler

/-! ## The calls of a call -/

namespace Call

variable (d : Dialect)

/-- All calls that are made for a call, itself first, in the order of their text.  What is refused
ends the writing, so that only the first of them are made then. -/
def trace (c : Call) : List Call :=
  c :: (c.next d).attach.flatMap fun c' => trace c'.1
termination_by (wellFounded_enters d).wrap c
decreasing_by exact c'.2

theorem trace_eq (c : Call) : c.trace d = c :: (c.next d).flatMap (trace d) := by
  rw [trace]
  simp

/-- What is collected from the calls of a call. -/
theorem flatMap_trace {α : Type} (own : Call → List α) (c : Call) :
    (c.trace d).flatMap own
      = own c ++ (c.next d).flatMap fun c' => (c'.trace d).flatMap own := by
  rw [trace_eq, List.flatMap_cons, List.flatMap_assoc]

/-- The symbols that are given aliases while a call is made. -/
def opens : Call → List (List Symbol)
  | clauses q => [q.binders]
  | _ => []

/-- The query that is replaced by one that numbers its rows. -/
def numbers : Call → List Query
  | query q => if d.Numbers q then [q] else []
  | _ => []

/-- The queries that are replaced while a call is made. -/
def numbered (c : Call) : List Query :=
  (c.trace d).flatMap (numbers d)

end Call

/-! ## The scopes of a script -/

theorem flatMap_filter {α β : Type} (p : α → Bool) (f : α → List β) (l : List α) :
    (l.filter p).flatMap f = l.flatMap fun a => if p a then f a else [] := by
  induction l with
  | nil => rfl
  | cons a l ih => cases h : p a <;> simp [h, ih]

namespace Script

/-- The symbols that each scope of a script gives aliases to, in the order in which they begin. -/
def scopes : Script → List (List Symbol)
  | append first second => first.scopes ++ second.scopes
  | scope symbols body => symbols :: body.scopes
  | deeper body => body.scopes
  | done | piece _ | reference _ | sourceAlias _ | check _ | checkNested _ | skipRows _ => []

theorem collects_scopes : Collects scopes where
  done := rfl
  words _ := rfl
  name _ := rfl
  nameText _ := rfl
  skipRows _ := rfl
  append _ _ := rfl

variable {d : Dialect}

theorem scopes_literal (c : Literal) : (literal d c).scopes = [] := by
  rw [literal]
  split
  · cases (d.types.column c.kind).toCell c.value <;> rfl
  · split
    · rfl
    · cases (d.types.column c.kind).inline c.value <;> rfl

theorem scopes_own (s : Shape Node) : (own d s).flatMap scopes = [] := by
  cases s with
  | literal c => exact (List.append_nil _).trans (scopes_literal c)
  | apply f arguments => cases h : f.capability? arguments.length <;> simp [own, h, scopes]
  | _ => rfl

theorem scopes_of_not_writable {s : Shape Node} (h : ¬ s.Writable d) :
    ((Node.mk s).script d).scopes = [] := by
  rcases Node.script_of_not_writable h with hfail | ⟨_, hfail⟩ <;>
  · rw [hfail]
    rfl

theorem scopes_item (n : Node) :
    (n.item d).scopes = if !n.isRow then (n.script d).scopes else [] := by
  obtain ⟨s⟩ := n
  rw [Node.item, item, Node.shape_rendering]
  cases s <;> rfl

theorem scopes_source (n : Node) :
    (source d (n.rendering d)).scopes = if n.isQuery then (n.script d).scopes else [] := by
  obtain ⟨s⟩ := n
  rw [source, Node.shape_rendering]
  cases s <;> rfl

/-- The clauses of a query open the scopes of what they are written from. -/
theorem scopes_body (q : Query) :
    (body d (Query.rendering d q)).scopes
      = (q.operands d).flatMap fun n => (n.script d).scopes := by
  have collects := collects_scopes
  have hselect : (select (Query.rendering d q)).scopes
      = ((q.projection.elim [] Node.columns).filter fun n => !n.isRow).flatMap
          fun n => (n.script d).scopes := by
    cases hp : q.projection with
    | none =>
      rw [collects.select_none d q hp]
      split <;> rfl
    | some p =>
      rw [collects.select d q hp, flatMap_filter]
      simp only [scopes_item, Option.elim_some]
  have hfrom : (from_ d (Query.rendering d q)).scopes
      = (q.sources.filter Node.isQuery).flatMap fun n => (n.script d).scopes := by
    rw [collects.from_, flatMap_filter, Clauses.sources, List.flatMap_map]
    refine congrArg (List.flatMap · q.generators) (funext fun g => ?_)
    rw [scopes_source]
    exact List.append_nil _
  rw [collects.body, collects.modifiers_of_fail d q fun _ => rfl, hselect, hfrom,
    collects.filters, collects.groupBy, collects.orderBy]
  simp only [Query.operands, List.nil_append, List.flatMap_append]

end Script

namespace Call

variable (d : Dialect)

/-- **The scopes of a script are those of its calls.** -/
theorem scopes_script (c : Call) : (c.script d).scopes = (c.trace d).flatMap opens := by
  have collects := Script.collects_scopes
  induction c using (wellFounded_enters d).induction with
  | _ c ih =>
  have hnext : ((c.next d).flatMap fun c' => (c'.trace d).flatMap opens)
      = (c.next d).flatMap fun c' => (c'.script d).scopes :=
    (List.flatMap_congr fun c' hc' => ih c' hc').symm
  rw [flatMap_trace, hnext]
  cases c using Call.elim with
  | query q =>
    rw [script, Query.script_eq_standIn, next]
    cases q.standIn d with
    | error e => rfl
    | ok p => exact (List.append_nil _).symm
  | clauses q =>
    rw [script, collects.clauses d q (fun _ => rfl) fun _ => rfl, Script.scopes,
      Script.scopes_body, next, List.flatMap_map]
    rw [Query.rendering, Clauses.binders_map]
    rfl
  | nested q =>
    exact (collects.subquery d q).trans (List.append_nil _).symm
  | expression s hquery =>
    rw [next_expression hquery, List.flatMap_map]
    by_cases hs : s.Writable d
    · rw [Shape.operands_of_writable hquery hs, script, collects.expression d hs hquery,
        Script.scopes_own]
      rfl
    · rw [Shape.operands_of_not_writable hs]
      exact Script.scopes_of_not_writable hs

end Call

/-! ## The queries of a tree that skip rows -/

/-- A query whose rows are numbered. -/
def Shape.skipping (d : Dialect) : Shape Node → List Query
  | .query q => if d.Numbers q then [q] else []
  | _ => []

/-- The queries of a tree whose rows are numbered, in the order of their text and once for each time
they are written. -/
def Node.skipping (d : Dialect) : Node → List Query :=
  Node.fold fun s => (s.map Prod.fst).skipping d ++ (s.written d).flatMap Prod.snd

/-- The same of a query, itself first. -/
def Query.skipping (d : Dialect) (q : Query) : List Query :=
  Shape.skipping d (.query q) ++ (q.written d).flatMap (Node.skipping d)

namespace Node

variable (d : Dialect)

theorem enumerates_skipping : Enumerates d (Shape.skipping d) (skipping d) where
  layer s := by
    rw [skipping, fold_mk, Shape.map_map, Shape.written_map, List.flatMap_map]
    exact congrArg (fun plain => Shape.skipping d plain ++ _) (Shape.map_id s)

theorem ignores_skipping : Ignores (Shape.skipping d) where
  query q h := by
    refine if_neg fun hd => ?_
    rw [Clauses.isPaged, hd.2, Bool.or_true] at h
    cases h
  column _ _ := rfl
  rowConstant _ := rfl
  compare _ _ _ _ := rfl
  product _ := rfl
  record _ := rfl
  rowNumber _ := rfl

theorem skipping_query (q : Query) : (query q).skipping d = Query.skipping d q :=
  (enumerates_skipping d).layer (.query q)

end Node

namespace Query

variable {d : Dialect} {q p : Query}

theorem skipping_of_not_numbers (h : ¬ d.Numbers q) :
    q.skipping d = (q.written d).flatMap (Node.skipping d) := by
  rw [skipping, Shape.skipping, if_neg h]
  rfl

/-- The query in the place of another one stands for the rest of what is to be replaced. -/
theorem skipping_of_numberRows (h : d.Numbers q) (hp : numberRows d.name q = .ok p) :
    q.skipping d = q :: p.skipping d := by
  rw [skipping_of_not_numbers (not_numbers_of_numberRows hp),
    (Node.enumerates_skipping d).flatMap_numberRows (Node.ignores_skipping d) h hp, skipping,
    Shape.skipping, if_pos h]
  rfl

end Query

/-! ## What is replaced -/

/-- A list with a part of another one, in its order, and with all of it under a condition. -/
structure Abridges {α : Type} (whole : Prop) (xs ys : List α) : Prop where
  sublist : xs.Sublist ys
  eq : whole → xs = ys

namespace Abridges

variable {α ι : Type} {whole whole' : Prop} {xs ys xs' ys' : List α}

theorem refl (xs : List α) : Abridges whole xs xs :=
  ⟨.refl xs, fun _ => rfl⟩

theorem mono (h : Abridges whole xs ys) (himp : whole' → whole) : Abridges whole' xs ys :=
  ⟨h.sublist, fun hw => h.eq (himp hw)⟩

theorem nil (h : ¬ whole) (ys : List α) : Abridges whole [] ys :=
  ⟨List.nil_sublist ys, fun hw => absurd hw h⟩

theorem append (h : Abridges whole xs ys) (h' : Abridges whole xs' ys') :
    Abridges whole (xs ++ xs') (ys ++ ys') :=
  ⟨h.sublist.append h'.sublist, fun hw => by rw [h.eq hw, h'.eq hw]⟩

theorem flatMap {l : List ι} {f g : ι → List α} (h : ∀ i ∈ l, Abridges whole (f i) (g i)) :
    Abridges whole (l.flatMap f) (l.flatMap g) :=
  ⟨.flatMap_right l fun i hi => (h i hi).sublist,
    fun hw => List.flatMap_congr fun i hi => (h i hi).eq hw⟩

end Abridges

namespace Call

variable {d : Dialect}

theorem numbered_eq (c : Call) :
    c.numbered d = c.numbers d ++ (c.next d).flatMap (numbered d) :=
  flatMap_trace d (numbers d) c

theorem numbered_clauses (q : Query) :
    (clauses q).numbered d = (q.operands d).flatMap fun n => (expression n).numbered d := by
  rw [numbered_eq, next, List.flatMap_map]
  rfl

theorem numbered_query_of_not_numbers {q : Query} (h : ¬ d.Numbers q) :
    (query q).numbered d = (clauses q).numbered d := by
  rw [numbered_eq, next_query_of_not_numbers h, numbers, if_neg h]
  exact List.append_nil _

theorem numbered_query_of_numberRows {q p : Query} (h : d.Numbers q)
    (hp : Query.numberRows d.name q = .ok p) :
    (query q).numbered d = q :: (clauses p).numbered d := by
  rw [numbered_eq, next_query_of_numberRows h hp, numbers, if_pos h]
  exact congrArg (List.cons q) (List.append_nil _)

theorem numbered_query_of_refused {q : Query} {e : Error} (h : d.Numbers q)
    (he : Query.numberRows d.name q = .error e) : (query q).numbered d = [q] := by
  rw [numbered_eq, next_query_of_refused h he, numbers, if_pos h]
  rfl

theorem numbered_expression {s : Shape Node} (hquery : ∀ q, s ≠ .query q) :
    (expression (.mk s)).numbered d
      = (s.operands d).flatMap fun n => (expression n).numbered d := by
  rw [numbered_eq, next_expression hquery, List.flatMap_map]
  rfl

end Call

namespace Node

variable {d : Dialect} {n : Node}

/-- The queries that are replaced for a node are those that skip rows in it, or fewer if something
is refused. -/
def Replaces (d : Dialect) (n : Node) : Prop :=
  ∀ nested, Abridges ((n.script d).Passes nested) ((Call.expression n).numbered d) (n.skipping d)

theorem replaces_expression {s : Shape Node} (hquery : ∀ q, s ≠ .query q)
    (h : ∀ n ∈ s.children, n.Replaces d) : (mk s).Replaces d := by
  intro nested
  have hown : s.skipping d = [] := by
    cases s with
    | query q => exact absurd rfl (hquery q)
    | _ => rfl
  rw [Call.numbered_expression hquery, (enumerates_skipping d).layer, hown, List.nil_append]
  by_cases hs : s.Writable d
  · rw [Shape.operands_of_writable hquery hs]
    refine .flatMap fun n hn => ?_
    have hn := Shape.mem_written.mp hn
    exact (h n hn nested).mono fun hpasses => passes_child hquery hpasses hn
  · rw [Shape.operands_of_not_writable hs]
    exact .nil (fun hpasses => hs (writable_of_passes hpasses)) _

/-- A column of a projection is replaced for like an expression, if it is no whole row. -/
theorem replaces_item (h : n.Replaces d) (nested : Bool) :
    Abridges ((n.item d).Passes nested)
      (if !n.isRow then (Call.expression n).numbered d else []) (n.skipping d) := by
  obtain ⟨s⟩ := n
  rw [item, Script.item, shape_rendering]
  cases s with
  | row source =>
    rw [show (row source).skipping d = [] from (enumerates_skipping d).layer (.row source)]
    exact .refl []
  | _ => exact h nested

/-- So is a source, if it is a query. -/
theorem replaces_source (h : n.Replaces d) (nested : Bool) :
    Abridges ((Script.source d (n.rendering d)).Passes nested)
      (if n.isQuery then (Call.expression n).numbered d else []) (n.skipping d) := by
  obtain ⟨s⟩ := n
  rw [Script.source, shape_rendering]
  cases s with
  | query q => exact h nested
  | table name =>
    rw [show (table name).skipping d = [] from (enumerates_skipping d).layer (.table name)]
    exact .refl []
  | _ => exact .nil (Script.Passes.not_fail _) _

end Node

namespace Query

variable {d : Dialect}

theorem replaces_clauses {q : Query} (hnumbers : ¬ d.Numbers q)
    (h : ∀ n ∈ q.children, WithChildren (Node.Replaces d) n) (nested : Bool) :
    Abridges ((Script.clauses d (rendering d q)).Passes nested) ((Call.clauses q).numbered d)
      (q.skipping d) := by
  have hselect : Abridges (BodyPasses d nested q)
      (((q.projection.elim [] Node.columns).filter fun n => !n.isRow).flatMap
        fun n => (Call.expression n).numbered d)
      (q.projection.toList.flatMap (Node.skipping d)) := by
    cases hp : q.projection with
    | none => exact .refl []
    | some p =>
      rw [flatMap_filter, Option.toList_some, List.flatMap_singleton,
        ← (Node.enumerates_skipping d).columns (Node.ignores_skipping d)]
      refine .flatMap fun n hn => ?_
      have hn' := (h p (Clauses.projection_mem_children hp)).column hn
      exact (Node.replaces_item hn' nested).mono fun hpasses => hpasses.column p hp n hn
  have hfrom : Abridges (BodyPasses d nested q)
      ((q.sources.filter Node.isQuery).flatMap fun n => (Call.expression n).numbered d)
      (q.sources.flatMap (Node.skipping d)) := by
    rw [flatMap_filter]
    refine .flatMap fun n hn => ?_
    obtain ⟨g, hg, rfl⟩ := List.mem_map.mp hn
    have hn' := (h g.source (Clauses.source_mem_children hg)).1
    exact (Node.replaces_source hn' nested).mono fun hpasses => hpasses.source g hg
  have hfilters : Abridges (BodyPasses d nested q)
      (q.filters.flatMap fun n => (Call.expression n).numbered d)
      (q.filters.flatMap (Node.skipping d)) :=
    .flatMap fun n hn => ((h n (Clauses.filter_mem_children hn)).1 nested).mono
      fun hpasses => hpasses.filter n hn
  have hgroup : Abridges (BodyPasses d nested q)
      ((q.groupBy.elim [] Node.groupKeys).flatMap fun n => (Call.expression n).numbered d)
      (q.groupBy.toList.flatMap (Node.skipping d)) := by
    cases hkey : q.groupBy with
    | none => exact .refl []
    | some key =>
      rw [Option.toList_some, List.flatMap_singleton,
        ← (Node.enumerates_skipping d).groupKeys (Node.ignores_skipping d)]
      exact .flatMap fun n hn => ((h key (Clauses.groupBy_mem_children hkey)).groupKey hn
        nested).mono fun hpasses => hpasses.groupKey key hkey n hn
  have horder : Abridges (BodyPasses d nested q)
      ((SortKey.written d q.orderBy).flatMap fun n => (Call.expression n).numbered d)
      ((SortKey.written d q.orderBy).flatMap (Node.skipping d)) := by
    refine .flatMap fun n hn => ?_
    obtain ⟨k, hk, rfl⟩ := List.mem_map.mp (SortKey.mem_written.mp hn)
    exact ((h k.key (Clauses.key_mem_children hk)).1 nested).mono
      fun hpasses => hpasses.key k hk
  have hall := (((hselect.append hfrom).append hfilters).append hgroup).append horder
  rw [Call.numbered_clauses, operands, skipping_of_not_numbers hnumbers, Clauses.written,
    if_neg hnumbers]
  simp only [List.flatMap_append, List.append_assoc] at hall ⊢
  exact hall.mono fun hpasses =>
    bodyPasses (hpasses.of_subset (List.subset_append_right _ _))

/-- **The queries that are replaced are those of the tree that skip rows**, or fewer if something is
refused. -/
theorem replaces_tree (d : Dialect) :
    (∀ n : Node, n.Replaces d)
      ∧ ∀ (q : Query) (nested : Bool), Abridges ((script d q).Passes nested)
          ((Call.query q).numbered d) (q.skipping d) := by
  refine writing_induct d ?_ ?_ ?_ ?_ ?_
  · intro s hquery ih
    exact Node.replaces_expression hquery ih
  · intro q ih nested
    have hnumbered : (Call.expression (.query q)).numbered d = (Call.query q).numbered d :=
      (Call.numbered_eq _).trans (List.append_nil _)
    rw [hnumbered, Node.skipping_query]
    refine (ih true).mono fun hpasses e he => hpasses e ?_
    rwa [(Script.collects_checks nested).subquery d q]
  · intro q hnumbers ih nested
    rw [script_eq_clauses hnumbers, Call.numbered_query_of_not_numbers hnumbers]
    exact replaces_clauses hnumbers ih nested
  · intro q p hnumbers hp ih nested
    have hplain := not_numbers_of_numberRows (d := d) hp
    rw [script_of_numbers hnumbers, hp, Call.numbered_query_of_numberRows hnumbers hp,
      skipping_of_numberRows hnumbers hp, ← Call.numbered_query_of_not_numbers hplain]
    exact (Abridges.refl [q]).append (ih nested)
  · intro q e hnumbers he nested
    rw [script_of_numbers hnumbers, he, Call.numbered_query_of_refused hnumbers he, skipping,
      Shape.skipping, if_pos hnumbers]
    exact (Abridges.refl [q]).append (.nil (Script.Passes.not_fail e) _)

/-! ## SQL Server -/

/-- A query is replaced by another one, and that is all there is to replace but for what was inside
it. -/
structure ReplacedOnce (d : Dialect) (q p : Query) : Prop where
  /-- The clauses of the new query are written in its place. -/
  once : (Call.query q).trace d = .query q :: (Call.clauses p).trace d
  /-- Neither of its two levels skips rows, and the inner one is written as it is. -/
  levels : ∃ (outer : Symbol) (inner : Query), p.generators = [⟨outer, .query inner⟩]
    ∧ p.offset = none ∧ inner.offset = none
    ∧ (Call.query inner).trace d = .query inner :: (Call.clauses inner).trace d
  /-- Whatever is replaced later stands among the children of the old query. -/
  below : ((Call.clauses p).numbered d).Sublist ((q.written d).flatMap (Node.skipping d))

theorem replacedOnce {q p : Query} (h : d.Numbers q) (hp : numberRows d.name q = .ok p) :
    ReplacedOnce d q p := by
  have htrace : ∀ {c c' : Call}, c.next d = [c'] → c.trace d = c :: c'.trace d := by
    intro c c' hnext
    rw [Call.trace_eq, hnext, List.flatMap_singleton]
  have hbelow := ((replaces_tree d).2 q false).sublist
  rw [Call.numbered_query_of_numberRows h hp, skipping, Shape.skipping, if_pos h] at hbelow
  refine ⟨htrace (Call.next_query_of_numberRows h hp), ?_, List.cons_sublist_cons.mp hbelow⟩
  obtain ⟨_, fields, _, _, _, -, -, -, rfl⟩ := numberRows_eq_ok hp
  have hinner : ¬ d.Numbers (RowNumbering.inner .plain fields q) :=
    fun hn => Bool.false_ne_true hn.2
  exact ⟨_, _, rfl, rfl, rfl, htrace (Call.next_query_of_not_numbers hinner)⟩

/-- **SQL Server numbers the rows of a query once for each time it is written.**  The recursion that
writes a query is well-founded: a call asks for nothing but the calls that it makes, and what is
written is the one solution of its equations, with a scope for each call that writes clauses.  A
query that skips rows is replaced once, and neither level of the query in its place is replaced
again.  So nothing is replaced but the queries of the tree that skip rows, none of them more often
than it is written, and all of them if the query can be written. -/
theorem numbers_rows_once :
    WellFounded (Call.Enters .sqlserver)
      ∧ (∀ (c : Call) (write write' : Call → Script),
          (∀ c', Call.Enters .sqlserver c' c → write c' = write' c') →
            c.body .sqlserver write = c.body .sqlserver write')
      ∧ (∀ write : Call → Script,
          (∀ c, write c = c.body .sqlserver write) ↔ write = Call.script .sqlserver)
      ∧ (∀ c : Call, (c.script .sqlserver).scopes = (c.trace .sqlserver).flatMap Call.opens)
      ∧ (∀ q p : Query, q.offset.isSome = true → numberRows "sqlserver" q = .ok p →
          ReplacedOnce .sqlserver q p)
      ∧ ∀ q : Query, ((Call.query q).numbered .sqlserver).Sublist (q.skipping .sqlserver)
          ∧ ∀ c c' : Context, (Query.write .sqlserver q).run c = .ok () c' →
              (Call.query q).numbered .sqlserver = q.skipping .sqlserver := by
  refine ⟨Call.wellFounded_enters _, fun c _ _ h => Call.body_congr h,
    fun _ => Call.eq_script_iff, Call.scopes_script _,
    fun q p hoffset hp => replacedOnce ⟨rfl, hoffset⟩ hp, fun q => ?_⟩
  refine ⟨((replaces_tree _).2 q false).sublist, fun c c' hrun => ?_⟩
  obtain ⟨o, ho, -⟩ := Script.run_eq_ok_iff.mp hrun
  exact ((replaces_tree _).2 q _).eq (Script.check_eq_ok_of_output_ok ho)

/-- A page of orders is ordered by a page of their payments, with nulls first, so that the inner
page is written twice; and it is taken from a page of the orders. -/
theorem numbers_rows_once_ordered :
    let order : Symbol := ⟨0, 0⟩
    let payment : Symbol := ⟨1, 0⟩
    let source : Symbol := ⟨2, 0⟩
    let orders : Query := {
      generators := [⟨source, .table "orders"⟩]
      projection := some (.mk (.record [⟨"id", .column source "id"⟩]))
      offset := some 7 }
    let paid : Query := {
      generators := [⟨payment, .table "payments"⟩]
      filters := [.binary .eq (.column payment "order") (.column order "id")]
      projection := some (.column payment "date")
      fetch := some 1
      offset := some 1 }
    let q : Query := {
      generators := [⟨order, .query orders⟩]
      orderBy := [⟨.query paid, { nulls := .first }⟩]
      projection := some (.column order "id")
      fetch := some 10
      offset := some 5 }
    (∃ c', (Query.write .sqlserver q).run {} = .ok () c')
      ∧ (Call.query q).numbered .sqlserver = [q, paid, paid, orders] := by
  intro order payment source orders paid q
  have hok : ((q.script .sqlserver).output (fun _ => none) false 0).toOption.isSome = true := by
    decide +kernel
  cases ho : (q.script .sqlserver).output (fun _ => none) false 0 with
  | error e => rw [ho] at hok; cases hok
  | ok o =>
    have hrun : (Query.write .sqlserver q).run {} = .ok () (Context.after {} o) :=
      Script.run_eq_ok_iff.mpr ⟨o, ho, rfl⟩
    obtain ⟨-, -, -, -, -, honce⟩ := numbers_rows_once
    exact ⟨⟨_, hrun⟩, (honce q).2 _ _ hrun⟩

end Query
end SqlCompiler
