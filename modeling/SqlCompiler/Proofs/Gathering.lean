import SqlCompiler.Proofs.Collecting

/-!
# Gathering from trees

The capabilities that a tree demands and the functions that it names are gathered from its nodes:
each node has something of its own, and the rest comes from its children.  A query that numbers
its rows is written as another one, with nodes that the tree does not contain; this file says that
nothing new can be gathered from those, and nothing is lost.

* `Node.Groups` — a list to which a node that only groups others adds nothing; the inner query has
  the same of it (`Node.Groups.mem_inner`).
* `Node.Gathers` — a list gathered from the nodes of a tree, with something from each.
* `Node.Ignores` — nothing is gathered from the nodes that the numbering of rows adds.
* `Node.Gathers.mem_numberRows` — so the same is gathered from both queries.
* `Node.Enumerates` — the same in the order of the text, which is not that of the children: the
  projection is written before the sources, an ordering key is written twice where nulls are moved
  by hand, and where rows are numbered the ordering keys are written with the projection
  (`Node.Enumerates.flatMap_numberRows`).
* `Node.all` — whether all nodes of a tree pass a test.
-/

set_option autoImplicit false
namespace SqlCompiler

namespace Node

open RowNumbering

variable {α : Type}

/-! ## Nodes that only group others -/

/-- A list gathered from trees, to which a node that only groups others adds nothing. -/
structure Groups (gather : Node → List α) : Prop where
  product : ∀ items, gather (.mk (.product items)) = items.flatMap gather
  record : ∀ fields : List (Field Node),
    gather (.mk (.record fields)) = fields.flatMap fun f => gather f.value
  rowNumber : ∀ keys : List (SortKey Node),
    gather (.mk (.rowNumber keys)) = keys.flatMap fun k => gather k.key

namespace Groups

variable {gather : Node → List α} (h : Groups gather)
include h

theorem mem_fields {outer : Symbol} {p listed : Node} {fields : List (Field Node)}
    (hlisted : Listed outer p fields listed) (a : α) :
    a ∈ gather p ↔ ∃ f ∈ fields, a ∈ gather f.value := by
  cases hlisted with
  | record fields _ => rw [h.record, List.mem_flatMap]
  | product items _ =>
    rw [h.product, List.mem_flatMap]
    constructor
    · rintro ⟨n, hn, ha⟩
      obtain ⟨i, hi, rfl⟩ := List.mem_iff_getElem.mp hn
      exact ⟨_, List.mem_mapIdx.mpr ⟨i, hi, rfl⟩, ha⟩
    · rintro ⟨f, hf, ha⟩
      obtain ⟨i, hi, rfl⟩ := List.mem_mapIdx.mp hf
      exact ⟨_, List.getElem_mem hi, ha⟩
  | single p _ _ _ => simp

/-- The inner query keeps the expressions of the query it stands for, in other clauses. -/
theorem mem_inner {outer : Symbol} {q : Query} {projection listed : Node}
    {fields : List (Field Node)} (hq : q.projection = some projection)
    (hlisted : Listed outer projection fields listed) {a : α} :
    (∃ n ∈ (inner .plain fields q).expressions, a ∈ gather n)
      ↔ ∃ n ∈ q.expressions, a ∈ gather n := by
  have hrecord : a ∈ gather (.mk (.record (fields ++ [⟨numberColumn, .mk (.rowNumber q.orderBy)⟩])))
      ↔ a ∈ gather projection ∨ ∃ k ∈ q.orderBy, a ∈ gather k.key := by
    rw [h.record, List.flatMap_append, List.mem_append, List.flatMap_singleton, h.rowNumber,
      List.mem_flatMap, List.mem_flatMap, h.mem_fields hlisted]
  constructor
  · rintro ⟨n, hn, ha⟩
    rcases Clauses.mem_expressions_iff.mp hn with hn | hn | ⟨_, hk, _⟩ | hn
    · exact ⟨n, Clauses.mem_expressions_iff.mpr (.inl hn), ha⟩
    · exact ⟨n, Clauses.mem_expressions_iff.mpr (.inr (.inl hn)), ha⟩
    · cases hk
    · cases hn
      rcases hrecord.mp ha with ha | ⟨k, hk, ha⟩
      · exact ⟨projection, Clauses.mem_expressions_iff.mpr (.inr (.inr (.inr hq))), ha⟩
      · exact ⟨k.key, Clauses.mem_expressions_iff.mpr (.inr (.inr (.inl ⟨k, hk, rfl⟩))), ha⟩
  · rintro ⟨n, hn, ha⟩
    have hlast : ∀ {m : Node}, (inner .plain fields q).projection = some m →
        m ∈ (inner .plain fields q).expressions :=
      fun hm => Clauses.mem_expressions_iff.mpr (.inr (.inr (.inr hm)))
    rcases Clauses.mem_expressions_iff.mp hn with hn | hn | ⟨k, hk, rfl⟩ | hn
    · exact ⟨n, Clauses.mem_expressions_iff.mpr (.inl hn), ha⟩
    · exact ⟨n, Clauses.mem_expressions_iff.mpr (.inr (.inl hn)), ha⟩
    · exact ⟨_, hlast rfl, hrecord.mpr (.inr ⟨k, hk, ha⟩)⟩
    · cases hq.symm.trans hn
      exact ⟨_, hlast rfl, hrecord.mpr (.inl ha)⟩

/-- So it keeps the children, as its sources are the same. -/
theorem mem_children_inner {outer : Symbol} {q : Query} {projection listed : Node}
    {fields : List (Field Node)} (hq : q.projection = some projection)
    (hlisted : Listed outer projection fields listed) {a : α} :
    (∃ n ∈ (inner .plain fields q).children, a ∈ gather n)
      ↔ ∃ n ∈ q.children, a ∈ gather n := by
  have hinner := h.mem_inner hq hlisted (a := a)
  have hsources : (inner .plain fields q).sources = q.sources := rfl
  simp only [Clauses.children, List.mem_append, or_and_right, exists_or, hsources, hinner]

end Groups

/-! ## Lists with something from every node -/

/-- A list gathered from the nodes of a tree, each with something of its own. -/
structure Gathers (own : Shape Node → List α) (gather : Node → List α) : Prop where
  layer : ∀ s, gather (.mk s) = own s ++ s.children.flatMap gather

/-- The numbering of rows adds only nodes that have nothing of their own. -/
structure Ignores (own : Shape Node → List α) : Prop where
  query : ∀ q : Query, q.isPaged = false → own (.query q) = []
  column : ∀ s name, own (.column s name) = []
  rowConstant : ∀ n, own (rowConstant n).shape = []
  compare : ∀ f a b, f = .gt ∨ f = .le → own (.apply f [a, b]) = []
  product : ∀ items, own (.product items) = []
  record : ∀ fields, own (.record fields) = []
  rowNumber : ∀ keys, own (.rowNumber keys) = []

namespace Gathers

variable {own : Shape Node → List α} {gather : Node → List α} (h : Gathers own gather)
include h

theorem subset {n m : Node} (hm : m ∈ n.children) : gather m ⊆ gather n := by
  obtain ⟨s⟩ := n
  intro a ha
  rw [h.layer]
  exact List.mem_append_right _ (List.mem_flatMap.mpr ⟨m, hm, ha⟩)

theorem mem_iff {s : Shape Node} (hs : own s = []) {a : α} :
    a ∈ gather (.mk s) ↔ ∃ n ∈ s.children, a ∈ gather n := by
  rw [h.layer, hs, List.nil_append, List.mem_flatMap]

variable (ignores : Ignores own)
include ignores

theorem groups : Groups gather where
  product items := by rw [h.layer, ignores.product, List.nil_append, Shape.children]
  record fields := by
    rw [h.layer, ignores.record, List.nil_append, Shape.children, List.flatMap_map]
  rowNumber keys := by
    rw [h.layer, ignores.rowNumber, List.nil_append, Shape.children, List.flatMap_map]

theorem not_mem_column (s : Symbol) (name : String) (a : α) : a ∉ gather (.column s name) := by
  rw [h.mem_iff (ignores.column s name)]
  rintro ⟨n, hn, -⟩
  cases hn

theorem not_mem_compare {f : Function} (hf : f = .gt ∨ f = .le) (s : Symbol) (name : String)
    (n : Nat) (a : α) : a ∉ gather (.apply f [.column s name, rowConstant n]) := by
  rw [h.mem_iff (ignores.compare f _ _ hf)]
  rintro ⟨m, hm, ha⟩
  rcases List.mem_cons.mp hm with rfl | hm
  · exact h.not_mem_column ignores s name a ha
  · rw [List.mem_singleton.mp hm] at ha
    obtain ⟨_, hm, -⟩ := (h.mem_iff (ignores.rowConstant n)).mp ha
    cases hm

/-- Nothing is gathered from the list of the outer query. -/
theorem not_mem_listed {outer : Symbol} {p listed : Node} {fields : List (Field Node)}
    (hlisted : Listed outer p fields listed) (a : α) : a ∉ gather listed := by
  have hcolumn := h.not_mem_column ignores outer
  have hgroups := h.groups ignores
  cases hlisted with
  | record fields _ =>
    rw [hgroups.record, List.mem_flatMap]
    rintro ⟨f, hf, ha⟩
    obtain ⟨c, -, rfl⟩ := List.mem_map.mp hf
    exact hcolumn c.name a ha
  | product items _ =>
    rw [hgroups.product, List.mem_flatMap]
    rintro ⟨n, hn, ha⟩
    obtain ⟨i, -, rfl⟩ := List.mem_mapIdx.mp hn
    exact hcolumn _ a ha
  | single p _ _ _ => exact hcolumn _ a

/-- **The query in the place of another one has the same gathered from its children.** -/
theorem mem_numberRows {dialect : String} {q p : Query}
    (hp : Query.numberRows dialect q = .ok p) {a : α} :
    (∃ n ∈ p.children, a ∈ gather n) ↔ ∃ n ∈ q.children, a ∈ gather n := by
  obtain ⟨projection, fields, listed, after, until_, hprojection, hlisted, -, rfl⟩ :=
    Query.numberRows_eq_ok hp
  have hsource : a ∈ gather (.query (inner .plain fields q))
      ↔ ∃ n ∈ q.children, a ∈ gather n := by
    rw [h.mem_iff (ignores.query _ rfl)]
    exact (h.groups ignores).mem_children_inner hprojection hlisted
  rw [← hsource]
  constructor
  · rintro ⟨n, hn, ha⟩
    rcases Query.mem_children_assembled hn with rfl | ⟨f, limit, hf, rfl⟩ | rfl | rfl
    · exact ha
    · exact absurd ha (h.not_mem_compare ignores hf _ _ _ a)
    · exact absurd ha (h.not_mem_column ignores _ _ a)
    · exact absurd ha (h.not_mem_listed ignores hlisted a)
  · intro ha
    exact ⟨_, Clauses.source_mem_children List.mem_cons_self, ha⟩

end Gathers

/-! ## Lists in the order of the text -/

/-- A list that goes through the nodes of a tree in the order of their text, with something from
each. -/
structure Enumerates (d : Dialect) (own : Shape Node → List α) (gather : Node → List α) :
    Prop where
  layer : ∀ s, gather (.mk s) = own s ++ (s.written d).flatMap gather

namespace Enumerates

variable {d : Dialect} {own : Shape Node → List α} {gather : Node → List α}
variable (h : Enumerates d own gather) (ignores : Ignores own)
include h ignores

theorem column (s : Symbol) (name : String) : gather (.column s name) = [] := by
  rw [h.layer, ignores.column]
  rfl

theorem product (items : List Node) : gather (.mk (.product items)) = items.flatMap gather := by
  rw [h.layer, ignores.product]
  rfl

theorem record (fields : List (Field Node)) :
    gather (.mk (.record fields)) = fields.flatMap fun c => gather c.value := by
  rw [h.layer, ignores.record, List.nil_append]
  exact List.flatMap_map ..

theorem compare {f : Function} (hf : f = .gt ∨ f = .le) (s : Symbol) (name : String) (n : Nat) :
    gather (.apply f [.column s name, rowConstant n]) = [] := by
  have hconstant : gather (RowNumbering.rowConstant n) = [] := by
    refine (h.layer (RowNumbering.rowConstant n).shape).trans ?_
    rw [ignores.rowConstant]
    rfl
  rw [h.layer, ignores.compare f _ _ hf]
  simp [Shape.written, Shape.children, h.column ignores, hconstant]

/-- The columns of a projection have what the projection has. -/
theorem columns (n : Node) : n.columns.flatMap gather = gather n := by
  obtain ⟨s⟩ := n
  cases s with
  | product items => exact (h.product ignores items).symm
  | record fields => exact (List.flatMap_map ..).trans (h.record ignores fields).symm
  | _ => exact List.append_nil _

theorem groupKeys (n : Node) : n.groupKeys.flatMap gather = gather n := by
  obtain ⟨s⟩ := n
  cases s with
  | product items => exact (h.product ignores items).symm
  | _ => exact List.append_nil _

/-- The columns of the inner query have what the projection has, and the outer list nothing. -/
theorem listed {outer : Symbol} {p listed : Node} {fields : List (Field Node)}
    (hlisted : Listed outer p fields listed) :
    gather listed = [] ∧ fields.flatMap (fun c => gather c.value) = gather p := by
  have hcolumn := h.column ignores outer
  cases hlisted with
  | record fields _ =>
    rw [h.record ignores, h.record ignores, List.flatMap_map]
    exact ⟨List.flatMap_eq_nil_iff.mpr fun c _ => hcolumn c.name, rfl⟩
  | product items _ =>
    rw [h.product ignores, h.product ignores]
    constructor
    · refine List.flatMap_eq_nil_iff.mpr fun n hn => ?_
      obtain ⟨i, _, rfl⟩ := List.mem_mapIdx.mp hn
      exact hcolumn _
    · have hvalues : (items.mapIdx fun i n => (⟨positionName i, n⟩ : Field Node)).map Field.value
          = items := by
        simp [List.mapIdx_eq_zipIdx_map, Function.comp_def]
      rw [← List.flatMap_map Field.value gather, hvalues]
  | single p _ _ _ => exact ⟨hcolumn _, List.append_nil _⟩

/-- The inner query has the ordering keys in its projection, and everything else where it was. -/
theorem inner (fields : List (Field Node)) (q : Query) :
    ((inner .plain fields q).written d).flatMap gather
      = fields.flatMap (fun c => gather c.value)
        ++ ((SortKey.written d q.orderBy).flatMap gather
          ++ (q.sources ++ q.filters ++ q.groupBy.toList).flatMap gather) := by
  have hrowNumber : gather (.mk (.rowNumber q.orderBy))
      = (SortKey.written d q.orderBy).flatMap gather := by
    rw [h.layer, ignores.rowNumber]
    rfl
  have hprojection : gather (.mk (.record
      (fields ++ [⟨numberColumn, .mk (.rowNumber q.orderBy)⟩])))
      = fields.flatMap (fun c => gather c.value)
        ++ (SortKey.written d q.orderBy).flatMap gather := by
    rw [h.record ignores, List.flatMap_append, List.flatMap_singleton, hrowNumber]
  have hwritten : (RowNumbering.inner .plain fields q).written d
      = .mk (.record (fields ++ [⟨numberColumn, .mk (.rowNumber q.orderBy)⟩]))
        :: (q.sources ++ q.filters ++ q.groupBy.toList) := by
    rw [Clauses.written, if_neg fun hn => Bool.false_ne_true hn.2]
    exact congrArg (List.cons _) (List.append_nil _)
  rw [hwritten, List.flatMap_cons, hprojection, List.append_assoc]

/-- **The query in the place of one that numbers its rows has the same**, in the same order. -/
theorem flatMap_numberRows {q p : Query} (hq : d.Numbers q)
    (hp : Query.numberRows d.name q = .ok p) :
    (p.written d).flatMap gather = (q.written d).flatMap gather := by
  have hnumbers : ¬ d.Numbers p := Query.not_numbers_of_numberRows hp
  obtain ⟨projection, fields, listed, after, until_, hprojection, hlisted, -, rfl⟩ :=
    Query.numberRows_eq_ok hp
  obtain ⟨houter, hfields⟩ := h.listed ignores hlisted
  have hinner : gather (.query (RowNumbering.inner .plain fields q))
      = ((RowNumbering.inner .plain fields q).written d).flatMap gather := by
    rw [h.layer, ignores.query _ rfl]
    rfl
  have hkey : (SortKey.written d [⟨.column (Query.freshSymbol q) numberColumn, .ascending⟩]).flatMap
      gather = [] := by
    refine List.flatMap_eq_nil_iff.mpr fun n hn => ?_
    rw [List.mem_singleton.mp (SortKey.mem_written.mp hn)]
    exact h.column ignores _ _
  have hgt := h.compare ignores (.inl rfl) (Query.freshSymbol q) numberColumn
  have hle := h.compare ignores (.inr rfl) (Query.freshSymbol q) numberColumn
  -- only the source of the outer query has anything
  have hsource : ((assembled .plain (Query.freshSymbol q) q fields listed (rowConstant after)
      (until_.map rowConstant)).written d).flatMap gather
        = gather (.query (RowNumbering.inner .plain fields q)) := by
    rw [Clauses.written, if_neg hnumbers]
    cases until_ <;>
      simp [assembled, Clauses.sources, Tree.plain, houter, hkey, hgt, hle]
  rw [hsource, hinner, h.inner ignores, hfields, Clauses.written, if_pos hq, hprojection]
  simp

end Enumerates

/-! ## Tests at every node -/

/-- Whether all nodes of a tree pass a test. -/
def all (test : Shape Node → Bool) : Node → Bool :=
  fold fun s => test (s.map Prod.fst) && s.children.all Prod.snd

theorem all_mk {test : Shape Node → Bool} {s : Shape Node} :
    (mk s).all test = true ↔ test s = true ∧ ∀ n ∈ s.children, n.all test = true := by
  have plain : (s.map (withFold fun s => test (s.map Prod.fst) && s.children.all Prod.snd)).map
      Prod.fst = s := by
    rw [Shape.map_map]
    exact Shape.map_id s
  rw [all, fold_mk, plain, Shape.children_map, List.all_map, Bool.and_eq_true, List.all_eq_true]
  rfl

end Node
end SqlCompiler
