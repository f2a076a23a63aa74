import SqlCompiler.Proofs.Gathering
import SqlCompiler.Proofs.Passing

/-!
# The checks of a tree

Writing a tree checks the arities of its applications, the values of its constants, the places of
its subqueries, and whether the dialect has the capabilities that the tree demands.  This file
says that there are no other checks: whatever a script checks is a capability demanded somewhere
in the tree, or something that can only fail with an error of another sort.

* `Node.required`, `Query.required` — the capabilities demanded anywhere in a tree.
* `Query.needs` — the same for a query that is or is not a subquery.
* `Dialect.Gate` — a check of one of some capabilities, or of something else.
* `Query.gates` — every check of a tree is a gate of what the tree demands.
-/

set_option autoImplicit false
namespace SqlCompiler

/-! ## Demanded capabilities -/

/-- The capabilities that a query demands by itself wherever it stands: an offset without a number
of rows to fetch. -/
def Clauses.demands {ν : Type} (q : Clauses ν) : List Capability :=
  if q.offset.isSome ∧ q.fetch.isNone then [.pagingDrop] else []

/-- The capabilities that a node demands by itself. -/
def Shape.demands {ν : Type} : Shape ν → List Capability
  | .query q => (if q.isPaged then [.pagingNested] else []) ++ q.demands
  | .nextValue _ => [.sequence]
  | .currentValue _ => [.sequence, .sequenceCurr]
  | .apply .database _ => [.functionDatabase]
  | .apply .user _ => [.functionUser]
  | .apply .like [_, _, _] => [.likeEscape]
  | _ => []

/-- The capabilities that are demanded anywhere in a tree. -/
def Node.required : Node → List Capability :=
  Node.fold fun s => s.demands ++ s.children.flatMap Prod.snd

/-- The capabilities that a query demands as a statement of its own. -/
def Query.required (q : Query) : List Capability :=
  q.demands ++ q.children.flatMap Node.required

/-- The capabilities that a query demands as a subquery, or as a statement of its own. -/
def Query.needs (nested : Bool) (q : Query) : List Capability :=
  (if nested ∧ q.isPaged then [.pagingNested] else []) ++ required q

theorem Shape.demands_map {ν μ : Type} (f : ν → μ) (s : Shape ν) :
    (s.map f).demands = s.demands := by
  cases s with
  | apply g arguments =>
    cases g with
    | like =>
      match arguments with
      | [] | [_] | [_, _] | [_, _, _] | _ :: _ :: _ :: _ :: _ => rfl
    | _ => rfl
  | _ => rfl

theorem Clauses.demands_of_not_isPaged {ν : Type} {q : Clauses ν} (h : q.isPaged = false) :
    q.demands = [] := by
  rw [isPaged, Bool.or_eq_false_iff] at h
  rw [demands, if_neg]
  rw [h.2]
  exact fun h => Bool.false_ne_true h.1

namespace Node

theorem gathers_required : Gathers Shape.demands required where
  layer s := by
    rw [required, fold_mk, Shape.demands_map, Shape.children_map, List.flatMap_map]
    rfl

theorem ignores_demands : Ignores Shape.demands where
  query q h := by
    rw [Shape.demands, h, Clauses.demands_of_not_isPaged h]
    rfl
  column _ _ := rfl
  rowConstant _ := rfl
  compare f a b hf := by rcases hf with rfl | rfl <;> rfl
  product _ := rfl
  record _ := rfl
  rowNumber _ := rfl

theorem required_query (q : Query) : (query q).required = Query.needs true q := by
  rw [gathers_required.layer, Query.needs, Query.required, Shape.demands, Shape.children,
    List.append_assoc]
  simp only [true_and]

end Node

/-- What an application demands is what its function demands. -/
theorem Function.capability?_eq_some_iff {f : Function} {arguments : List Node}
    {c : Capability} :
    f.capability? arguments.length = some c ↔ c ∈ (Shape.apply f arguments).demands := by
  cases f with
  | like =>
    match arguments with
    | [] | [_] | [_, _] | _ :: _ :: _ :: _ :: _ => simp [capability?, Shape.demands]
    | [_, _, _] => simp [capability?, Shape.demands, eq_comm]
  | _ => simp [capability?, Shape.demands, eq_comm]

/-! ## Gates -/

/-- Errors that are never raised but for a capability or for a symbol without an alias. -/
def Error.isReserved : Error → Bool
  | .lacking _ _ => true
  | .malformed (.unbound _) => true
  | _ => false

/-- A check of something else than a capability or an alias. -/
def Unreserved {α : Type} (check : Except Error α) : Prop :=
  ∀ e, check = .error e → e.isReserved = false

theorem unreserved_ok {α : Type} (a : α) : Unreserved (.ok a : Except Error α) :=
  nofun

theorem unreserved_error {α : Type} {e : Error} (h : e.isReserved = false) :
    Unreserved (.error e : Except Error α) := by
  intro e' he'
  cases he'
  exact h

theorem Unreserved.bind {α β : Type} {x : Except Error α} {f : α → Except Error β}
    (hx : Unreserved x) (hf : ∀ a, Unreserved (f a)) : Unreserved (x >>= f) := by
  intro e he
  rcases bind_eq_error_iff.mp he with he | ⟨a, -, he⟩
  · exact hx e he
  · exact hf a e he

/-- A check of one of some capabilities, or of something that fails with other errors. -/
def Dialect.Gate (d : Dialect) (capabilities : List Capability) (check : Except Error Unit) :
    Prop :=
  (∃ c ∈ capabilities, check = d.require c) ∨ Unreserved check

theorem Dialect.Gate.mono {d : Dialect} {cs cs' : List Capability} {check : Except Error Unit}
    (hcs : cs ⊆ cs') (h : d.Gate cs check) : d.Gate cs' check := by
  rcases h with ⟨c, hc, he⟩ | h
  · exact .inl ⟨c, hcs hc, he⟩
  · exact .inr h

/-! ## Checks of values -/

theorem unreserved_coerce (kind : Kind) (v : Value) : Unreserved (v.coerce kind) := by
  rw [Value.coerce.eq_def]
  split
  · exact unreserved_ok _
  · split
    · exact unreserved_ok _
    · exact unreserved_error rfl

theorem unreserved_toCell (c : ColumnType) (v : Value) : Unreserved (c.toCell v) := by
  rw [ColumnType.toCell.eq_def]
  split
  · split
    · exact unreserved_ok _
    · exact unreserved_ok _
    · exact unreserved_error rfl
  · refine (unreserved_coerce .uuid v).bind fun w => ?_
    split
    · exact unreserved_ok _
    · exact unreserved_ok _
  · exact unreserved_coerce _ v

theorem unreserved_value_inline (kind : Kind) (v : Value) : Unreserved (v.inline kind) := by
  cases v with
  | bytes bs =>
    rw [Value.inline]
    split
    · exact unreserved_error rfl
    · exact unreserved_ok _
  | _ => exact unreserved_ok _

theorem unreserved_inline (c : ColumnType) (v : Value) : Unreserved (c.inline v) := by
  have hvalue := unreserved_value_inline
  cases c with
  | standard kind code name => exact (unreserved_coerce kind v).bind fun w => hvalue kind w
  | numericBoolean code name =>
    refine (unreserved_toCell _ v).bind fun w => ?_
    split
    · exact unreserved_ok _
    · exact unreserved_ok _
  | textUuid => exact (unreserved_coerce _ v).bind fun w => hvalue .uuid w
  | bytea =>
    refine (unreserved_coerce _ v).bind fun w => ?_
    split
    · exact unreserved_ok _
    · exact hvalue .bytes _
  | varbinary kind =>
    refine (unreserved_coerce _ v).bind fun w => ?_
    split
    · exact unreserved_ok _
    · exact hvalue kind _
  | datetime kind =>
    refine (unreserved_coerce _ v).bind fun w => ?_
    split <;> exact unreserved_ok _

theorem unreserved_checkArity (f : Function) (count : Nat) : Unreserved (f.checkArity count) := by
  rw [Function.checkArity]
  split
  · exact unreserved_ok _
  · exact unreserved_error rfl

theorem unreserved_checkSubquery (f : Function) (arguments : List (Shape Rendering)) :
    Unreserved (Script.checkSubquery f arguments) := by
  rw [Script.checkSubquery.eq_def]
  split
  · exact unreserved_ok _
  · exact unreserved_error rfl
  · exact unreserved_ok _

/-- A query cannot number its rows for reasons of its own. -/
theorem unreserved_numberRows (dialect : String) (q : Query) :
    Unreserved (Query.numberRows dialect q) := by
  have hbound : ∀ n, Unreserved (RowNumbering.bound .plain n) := by
    intro n
    rw [RowNumbering.bound]
    split
    · exact unreserved_ok _
    · exact unreserved_error rfl
  rw [Query.numberRows, RowNumbering.page_eq]
  refine Unreserved.bind ?_ fun r => (hbound _).bind fun after => Unreserved.bind ?_ fun u =>
    unreserved_ok _
  · cases RowNumbering.columns .plain (Query.freshSymbol q) q.projection with
    | error c => exact unreserved_error rfl
    | ok r => exact unreserved_ok r
  · cases q.fetch with
    | none => exact unreserved_ok _
    | some fetch =>
      rw [Option.mapM_some]
      refine Unreserved.bind (Unreserved.bind ?_ fun last => hbound last) fun m => unreserved_ok _
      rw [RowNumbering.lastRow]
      split
      · exact unreserved_ok _
      · exact unreserved_error rfl

/-! ## Checks of scripts -/

namespace Node

variable {d : Dialect}

theorem gate_literal (c : Literal) (nested : Bool) (cs : List Capability) :
    ∀ e ∈ ((literal c).script d).checks nested, d.Gate cs e := by
  have hchecked : ∀ {α : Type} (r : Except Error α) (body : α → Script), Unreserved r →
      (∀ a, (body a).checks nested = []) →
      ∀ e ∈ (Script.checked r body).checks nested, Unreserved e := by
    intro α r body hr hbody e he
    cases r with
    | error e' =>
      rw [List.mem_singleton.mp he]
      exact unreserved_error (hr e' rfl)
    | ok a => rw [Script.checked, hbody] at he; cases he
  intro e he
  rw [script_literal, Script.literal] at he
  refine .inr ?_
  split at he
  · exact hchecked _ _ (unreserved_toCell _ _) (fun _ => rfl) e he
  · split at he
    · rw [List.mem_singleton.mp he]
      exact unreserved_error rfl
    · exact hchecked _ _ (unreserved_inline _ _) (fun _ => rfl) e he

/-- A node's own checks are gates of what it demands by itself. -/
theorem gate_own {s : Shape Node} (hquery : ∀ q, s ≠ .query q) (nested : Bool) :
    ∀ e ∈ (Script.own d s).flatMap (Script.checks nested), d.Gate s.demands e := by
  intro e he
  obtain ⟨σ, hσ, he⟩ := List.mem_flatMap.mp he
  cases s with
  | query q => exact absurd rfl (hquery q)
  | column source name => cases List.mem_singleton.mp hσ; cases he
  | literal c =>
    cases List.mem_singleton.mp hσ
    exact gate_literal c nested _ e he
  | parameter index kind => cases List.mem_singleton.mp hσ; cases he
  | apply f arguments =>
    simp only [Script.own, List.mem_append, List.mem_map, List.mem_singleton,
      Option.mem_toList] at hσ
    rcases hσ with (rfl | ⟨c, hc, rfl⟩) | rfl <;> rw [List.mem_singleton.mp he]
    · exact .inr (unreserved_checkArity _ _)
    · exact .inl ⟨c, Function.capability?_eq_some_iff.mp hc, rfl⟩
    · exact .inr (unreserved_checkSubquery _ _)
  | nextValue sequence =>
    cases List.mem_singleton.mp hσ
    exact .inl ⟨.sequence, List.mem_cons_self, List.mem_singleton.mp he⟩
  | currentValue sequence =>
    rcases List.mem_cons.mp hσ with rfl | hσ
    · exact .inl ⟨.sequence, List.mem_cons_self, List.mem_singleton.mp he⟩
    · cases List.mem_singleton.mp hσ
      exact .inl ⟨.sequenceCurr, List.mem_cons_of_mem _ List.mem_cons_self,
        List.mem_singleton.mp he⟩
  | table _ | row _ | cases _ _ | product _ | record _ | rowNumber _ => cases hσ

/-- The checks of a node that is no query, from those of its children. -/
theorem gate_expression {s : Shape Node} (hquery : ∀ q, s ≠ .query q)
    (ih : ∀ n ∈ s.children, ∀ nested, ∀ e ∈ (n.script d).checks nested, d.Gate n.required e) :
    ∀ nested, ∀ e ∈ ((mk s).script d).checks nested, d.Gate (mk s).required e := by
  intro nested e he
  by_cases hs : s.Writable d
  · rw [(Script.collects_checks nested).expression d hs hquery] at he
    rcases List.mem_append.mp he with he | he
    · refine (gate_own hquery nested e he).mono ?_
      rw [gathers_required.layer]
      exact List.subset_append_left _ _
    · obtain ⟨n, hn, he⟩ := List.mem_flatMap.mp he
      have hn := Shape.mem_written.mp hn
      exact (ih n hn nested e he).mono (gathers_required.subset (n := mk s) hn)
  · have hfail : Unreserved e := by
      rcases script_of_not_writable hs with h | ⟨construct, h⟩
      all_goals
        rw [h] at he
        rw [List.mem_singleton.mp he]
        exact unreserved_error rfl
    exact .inr hfail

end Node

namespace Query

variable {d : Dialect}

theorem required_subset_needs {nested : Bool} {q : Query} {n : Node} (h : n ∈ q.children) :
    n.required ⊆ needs nested q := by
  intro c hc
  exact List.mem_append_right _ (List.mem_append_right _ (List.mem_flatMap.mpr ⟨n, h, hc⟩))

/-- The checks of the paging are gates of what it demands. -/
theorem gate_checkPaging (q : Query) (nested : Bool) :
    ∀ e ∈ (Script.checkPaging d (rendering d q)).checks nested, d.Gate (needs nested q) e := by
  intro e he
  rw [Script.checkPaging, rendering, Clauses.isPaged_map] at he
  split at he
  case isFalse => cases he
  next hpaged =>
  rcases List.mem_append.mp he with he | he
  · cases nested with
    | false => cases he
    | true =>
      refine .inl ⟨.pagingNested, ?_, List.mem_singleton.mp he⟩
      rw [needs, if_pos ⟨rfl, hpaged⟩]
      exact List.mem_cons_self
  · split at he
    case isFalse => cases he
    next hfetch =>
    refine .inl ⟨.pagingDrop, ?_, List.mem_singleton.mp he⟩
    have hfetch : q.fetch = none := by simpa [Clauses.map] using hfetch
    have hoffset : q.offset.isSome = true := by simpa [Clauses.isPaged, hfetch] using hpaged
    have hdrop : Clauses.demands q = [.pagingDrop] := by
      rw [Clauses.demands, if_pos ⟨hoffset, by rw [hfetch]; rfl⟩]
    rw [needs, required, hdrop]
    exact List.mem_append_right _ List.mem_cons_self

/-- A column of a projection checks nothing that it would not check as an expression. -/
theorem mem_checks_item {nested : Bool} {n : Node} {e : Except Error Unit}
    (h : e ∈ (n.item d).checks nested) : e ∈ (n.script d).checks nested := by
  rcases n.item_cases d with ⟨s, -, hn⟩ | hn
  · rw [hn] at h; cases h
  · exact hn ▸ h

/-- Neither does the source of a generator, except that it may be no source at all. -/
theorem mem_checks_source {nested : Bool} {n : Node} {e : Except Error Unit}
    (h : e ∈ (Script.source d (n.rendering d)).checks nested) :
    e ∈ (n.script d).checks nested ∨ Unreserved e := by
  obtain ⟨s⟩ := n
  rw [Script.source, Node.shape_rendering] at h
  cases s with
  | table name => cases h
  | query q => exact .inl h
  | _ =>
    rw [List.mem_singleton.mp h]
    exact .inr (unreserved_error rfl)

/-- The checks of the clauses of a query. -/
theorem gate_body {q : Query}
    (ih : ∀ n ∈ q.children, WithChildren
      (fun n => ∀ nested, ∀ e ∈ (n.script d).checks nested, d.Gate n.required e) n) :
    ∀ nested, ∀ e ∈ (Script.body d (rendering d q)).checks nested, d.Gate (needs nested q) e := by
  intro nested e he
  have collects := Script.collects_checks nested
  have child : ∀ n ∈ q.children, e ∈ (n.script d).checks nested → d.Gate (needs nested q) e :=
    fun n hn he => ((ih n hn).1 nested e he).mono (required_subset_needs hn)
  have grandchild : ∀ n ∈ q.children, ∀ m, m = n ∨ m ∈ n.children →
      e ∈ (m.script d).checks nested → d.Gate (needs nested q) e := by
    rintro n hn m (rfl | hm) he
    · exact child m hn he
    · exact (((ih n hn).2 m hm nested e he).mono (Node.gathers_required.subset hm)).mono
        (required_subset_needs hn)
  rw [collects.body] at he
  simp only [List.mem_append] at he
  rcases he with ((((he | he) | he) | he) | he) | he
  · rcases collects.modifiers d q with h | ⟨fetch, offset, h⟩
    · rw [h] at he; cases he
    · rw [h] at he
      rw [List.mem_singleton.mp he]
      exact .inr (unreserved_error rfl)
  · cases hp : q.projection with
    | none =>
      rw [collects.select_none d q hp] at he
      split at he
      · cases he
      · rw [List.mem_singleton.mp he]
        exact .inr (unreserved_error rfl)
    | some p =>
      rw [collects.select d q hp] at he
      obtain ⟨n, hn, he⟩ := List.mem_flatMap.mp he
      exact grandchild p (Clauses.projection_mem_children hp) n (Node.mem_columns hn)
        (mem_checks_item he)
  · rw [collects.from_] at he
    obtain ⟨g, hg, he⟩ := List.mem_flatMap.mp he
    rcases List.mem_append.mp he with he | he
    · rcases mem_checks_source he with he | he
      · exact child _ (Clauses.source_mem_children hg) he
      · exact .inr he
    · cases he
  · rw [collects.filters] at he
    obtain ⟨n, hn, he⟩ := List.mem_flatMap.mp he
    exact child n (Clauses.filter_mem_children hn) he
  · rw [collects.groupBy] at he
    obtain ⟨n, hn, he⟩ := List.mem_flatMap.mp he
    cases hk : q.groupBy with
    | none => rw [hk] at hn; cases hn
    | some key =>
      rw [hk] at hn
      exact grandchild key (Clauses.groupBy_mem_children hk) n (Node.mem_groupKeys hn) he
  · rw [collects.orderBy] at he
    obtain ⟨n, hn, he⟩ := List.mem_flatMap.mp he
    obtain ⟨k, hk, rfl⟩ := List.mem_map.mp (SortKey.mem_written.mp hn)
    exact child k.key (Clauses.key_mem_children hk) he

/-- The checks of a query that is written clause by clause. -/
theorem gate_clauses {q : Query} (hq : ¬ d.Numbers q)
    (ih : ∀ n ∈ q.children, WithChildren
      (fun n => ∀ nested, ∀ e ∈ (n.script d).checks nested, d.Gate n.required e) n) :
    ∀ nested, ∀ e ∈ (script d q).checks nested, d.Gate (needs nested q) e := by
  intro nested e he
  rw [script_eq_clauses hq] at he
  rcases List.mem_append.mp he with he | he
  · exact gate_checkPaging q nested e he
  · exact gate_body ih nested e he

theorem mem_needs_iff {q : Query} {nested : Bool} {c : Capability} :
    c ∈ needs nested q ↔ ((nested = true ∧ q.isPaged = true) ∧ c = .pagingNested)
      ∨ c ∈ q.demands ∨ ∃ n ∈ q.children, c ∈ n.required := by
  rw [needs, required, List.mem_append, List.mem_append, List.mem_flatMap]
  refine or_congr_left ?_
  split
  · next h => simp [h]
  · next h => simp [h]

/-- The query in the place of another one needs what the other one's children demand. -/
theorem mem_needs_numberRows {dialect : String} {q p : Query}
    (h : numberRows dialect q = .ok p) {nested : Bool} {c : Capability} :
    c ∈ needs nested p ↔ ∃ n ∈ q.children, c ∈ n.required := by
  have hpaged : p.isPaged = false := by
    obtain ⟨_, _, _, _, _, -, -, -, rfl⟩ := numberRows_eq_ok h
    rfl
  rw [mem_needs_iff, hpaged, Clauses.demands_of_not_isPaged hpaged,
    Node.gathers_required.mem_numberRows Node.ignores_demands h]
  simp

/-- **Every check of a tree is a gate of what the tree demands**, and every check of a query one
of what the query needs where it stands. -/
theorem gates (d : Dialect) :
    (∀ (n : Node) nested, ∀ e ∈ (n.script d).checks nested, d.Gate n.required e)
      ∧ ∀ (q : Query) nested, ∀ e ∈ (script d q).checks nested, d.Gate (needs nested q) e := by
  refine writing_induct d ?_ ?_ ?_ ?_ ?_
  · intro s hs ih
    exact Node.gate_expression hs ih
  · intro q hq nested e he
    rw [(Script.collects_checks nested).subquery] at he
    rw [Node.required_query]
    exact hq true e he
  · intro q hd ih
    exact gate_clauses hd ih
  · intro q p hd hn hp nested e he
    rw [script_of_numbers hd, hn] at he
    refine (hp nested e he).mono fun c hc => ?_
    obtain ⟨n, hmem, hc⟩ := (mem_needs_numberRows hn).mp hc
    exact required_subset_needs hmem hc
  · intro q e' hd hn nested e he
    rw [script_of_numbers hd, hn] at he
    rw [List.mem_singleton.mp he]
    exact .inr (unreserved_error (unreserved_numberRows _ q e' hn))

end Query
end SqlCompiler
