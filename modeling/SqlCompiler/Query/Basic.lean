import SqlCompiler.Function
import SqlCompiler.Scalar.Value
import SqlCompiler.SortOrder
import SqlCompiler.Symbol

/-!
# Query trees

A query tree is made of nodes.  One node is a `Shape` whose places are filled with further nodes,
and the thirteen shapes are all there are: a query, its tables and columns, constants and
parameters, applications and conditionals, the two ways of putting several columns side by side,
row numbers and sequence values.

`Shape ν` and `Clauses ν` are written for any type `ν` of children.  An operation that works on one
node at a time is defined on shapes, once, and `Node.fold` carries it to whole trees: it is the
only recursion on trees in this library.

## What is here

* `Clauses`, `Shape`, `Node`, and `Query` — the clauses of one query.
* `Node.children` — the direct children of a node, in their fixed order.
* `Node.fold` — folding a tree from its leaves, with its equation `Node.fold_mk`.
* `Node.induct` — what holds of a node if it holds of its children holds of every node.
* Constructors for the common nodes, and the steps by which a query is built up.
-/

set_option autoImplicit false
namespace SqlCompiler

/-- A constant.  It is written into the statement, or passed as a parameter if `bind` is set. -/
structure Literal where
  kind : Kind
  value : Value
  bind : Bool := false
deriving DecidableEq

/-- A source of rows together with the symbol bound to each of them. -/
structure Generator (ν : Type) where
  binder : Symbol
  source : ν

/-- An ordering key. -/
structure SortKey (ν : Type) where
  key : ν
  order : SortOrder

/-- A column of a record. -/
structure Field (ν : Type) where
  name : String
  value : ν

/-- One branch of a conditional. -/
structure Branch (ν : Type) where
  condition : ν
  value : ν

/-- The clauses of a query.  A generator may refer to the generators before it, and every other
clause to all of them; the filters are conjoined.  Without a projection the query yields the rows
of its only generator. -/
structure Clauses (ν : Type) where
  generators : List (Generator ν) := []
  filters : List ν := []
  groupBy : Option ν := none
  orderBy : List (SortKey ν) := []
  projection : Option ν := none
  fetch : Option UInt64 := none
  offset : Option UInt64 := none

/-- One node of a query tree, with children of type `ν`. -/
inductive Shape (ν : Type) where
  | query (clauses : Clauses ν)
  /-- A base table, the source of a generator. -/
  | table (name : String)
  /-- The whole row of a generator. -/
  | row (source : Symbol)
  | column (source : Symbol) (name : String)
  | literal (constant : Literal)
  /-- The argument at a position, supplied when the statement is run. -/
  | parameter (index : UInt64) (kind : Kind)
  | apply (function : Function) (arguments : List ν)
  /-- The value of the first branch whose condition holds. -/
  | cases (branches : List (Branch ν)) (otherwise : Option ν)
  /-- Columns side by side, known by their positions. -/
  | product (items : List ν)
  /-- Columns side by side, known by their names. -/
  | record (fields : List (Field ν))
  /-- The position of a row in an order. -/
  | rowNumber (keys : List (SortKey ν))
  /-- The next value of a sequence. -/
  | nextValue (sequence : String)
  /-- The current value of a sequence. -/
  | currentValue (sequence : String)

/-- A query tree. -/
inductive Node where
  | mk (shape : Shape Node)

/-- A query: the clauses of one select statement. -/
abbrev Query := Clauses Node

namespace Clauses

variable {ν μ : Type}

/-- The clauses with every child replaced by its image. -/
def map (f : ν → μ) (q : Clauses ν) : Clauses μ where
  generators := q.generators.map fun g => ⟨g.binder, f g.source⟩
  filters := q.filters.map f
  groupBy := q.groupBy.map f
  orderBy := q.orderBy.map fun k => ⟨f k.key, k.order⟩
  projection := q.projection.map f
  fetch := q.fetch
  offset := q.offset

/-- The sources of the generators. -/
def sources (q : Clauses ν) : List ν :=
  q.generators.map Generator.source

/-- The children outside the generators: filters, group key, ordering keys, projection. -/
def expressions (q : Clauses ν) : List ν :=
  q.filters ++ q.groupBy.toList ++ q.orderBy.map SortKey.key ++ q.projection.toList

/-- The children: the sources of the generators, then the other clauses. -/
def children (q : Clauses ν) : List ν :=
  q.sources ++ q.expressions

/-- The symbols that the generators bind, in their order. -/
def binders (q : Clauses ν) : List Symbol :=
  q.generators.map Generator.binder

/-- Whether only a part of the rows is asked for. -/
def isPaged (q : Clauses ν) : Bool :=
  q.fetch.isSome || q.offset.isSome

/-- One more generator after the others. -/
def addGenerator (q : Clauses ν) (binder : Symbol) (source : ν) : Clauses ν :=
  { q with generators := q.generators ++ [⟨binder, source⟩] }

/-- One more filter after the others. -/
def addFilter (q : Clauses ν) (filter : ν) : Clauses ν :=
  { q with filters := q.filters ++ [filter] }

/-- One more ordering key after the others. -/
def addKey (q : Clauses ν) (key : ν) (order : SortOrder) : Clauses ν :=
  { q with orderBy := q.orderBy ++ [⟨key, order⟩] }

end Clauses

namespace Shape

variable {ν μ : Type}

/-- The shape with every child replaced by its image. -/
def map (f : ν → μ) : Shape ν → Shape μ
  | query q => query (q.map f)
  | table name => table name
  | row source => row source
  | column source name => column source name
  | literal constant => literal constant
  | parameter index kind => parameter index kind
  | apply function arguments => apply function (arguments.map f)
  | cases branches otherwise =>
    cases (branches.map fun b => ⟨f b.condition, f b.value⟩) (otherwise.map f)
  | product items => product (items.map f)
  | record fields => record (fields.map fun c => ⟨c.name, f c.value⟩)
  | rowNumber keys => rowNumber (keys.map fun k => ⟨f k.key, k.order⟩)
  | nextValue sequence => nextValue sequence
  | currentValue sequence => currentValue sequence

/-- The children, in their fixed order. -/
def children : Shape ν → List ν
  | query q => q.children
  | apply _ arguments => arguments
  | cases branches otherwise =>
    (branches.flatMap fun b => [b.condition, b.value]) ++ otherwise.toList
  | product items => items
  | record fields => fields.map Field.value
  | rowNumber keys => keys.map SortKey.key
  | table _ | row _ | column .. | literal _ | parameter .. | nextValue _ | currentValue _ => []

/-- The name of a shape, as messages and outlines show it. -/
def name : Shape ν → String
  | query _ => "Comprehension"
  | table _ => "Table"
  | row _ => "Ref"
  | column .. => "Column"
  | literal _ => "Literal"
  | parameter .. => "QueryParameter"
  | apply .. => "Apply"
  | cases .. => "Case"
  | product _ => "Product"
  | record _ => "Struct"
  | rowNumber _ => "RowNumber"
  | nextValue _ => "NextValue"
  | currentValue _ => "CurrentValue"

/-- Whether the shape is the whole row of a generator. -/
def isRow : Shape ν → Bool
  | row _ => true
  | _ => false

end Shape

namespace Node

/-- The shape of a node. -/
def shape : Node → Shape Node
  | mk s => s

/-- The direct children of a node. -/
def children (n : Node) : List Node :=
  n.shape.children

/-- Whether the node is the whole row of a generator. -/
def isRow (n : Node) : Bool :=
  n.shape.isRow

/-! ## Folding -/

section
variable {α : Type}

mutual
/-- Folds a tree from its leaves: `layer` answers for a node, given the answers for its children
beside the children themselves. -/
def fold (layer : Shape (Node × α) → α) : Node → α
  | mk s => layer (foldShape layer s)

/-- Folds the children of a shape. -/
def foldShape (layer : Shape (Node × α) → α) : Shape Node → Shape (Node × α)
  | .query q => .query (foldClauses layer q)
  | .table name => .table name
  | .row source => .row source
  | .column source name => .column source name
  | .literal constant => .literal constant
  | .parameter index kind => .parameter index kind
  | .apply function arguments => .apply function (foldList layer arguments)
  | .cases branches otherwise => .cases (foldBranches layer branches) (foldOption layer otherwise)
  | .product items => .product (foldList layer items)
  | .record fields => .record (foldFields layer fields)
  | .rowNumber keys => .rowNumber (foldKeys layer keys)
  | .nextValue sequence => .nextValue sequence
  | .currentValue sequence => .currentValue sequence

/-- Folds the children of a query's clauses. -/
def foldClauses (layer : Shape (Node × α) → α) : Clauses Node → Clauses (Node × α)
  | ⟨generators, filters, groupBy, orderBy, projection, fetch, offset⟩ =>
    ⟨foldGenerators layer generators, foldList layer filters, foldOption layer groupBy,
      foldKeys layer orderBy, foldOption layer projection, fetch, offset⟩

/-- Folds the nodes of a list. -/
def foldList (layer : Shape (Node × α) → α) : List Node → List (Node × α)
  | [] => []
  | n :: ns => (n, n.fold layer) :: foldList layer ns

/-- Folds a node that may be absent. -/
def foldOption (layer : Shape (Node × α) → α) : Option Node → Option (Node × α)
  | none => none
  | some n => some (n, n.fold layer)

/-- Folds the sources of generators. -/
def foldGenerators (layer : Shape (Node × α) → α) :
    List (Generator Node) → List (Generator (Node × α))
  | [] => []
  | ⟨binder, n⟩ :: gs => ⟨binder, (n, n.fold layer)⟩ :: foldGenerators layer gs

/-- Folds ordering keys. -/
def foldKeys (layer : Shape (Node × α) → α) : List (SortKey Node) → List (SortKey (Node × α))
  | [] => []
  | ⟨n, order⟩ :: ks => ⟨(n, n.fold layer), order⟩ :: foldKeys layer ks

/-- Folds the branches of a conditional. -/
def foldBranches (layer : Shape (Node × α) → α) : List (Branch Node) → List (Branch (Node × α))
  | [] => []
  | ⟨c, v⟩ :: bs => ⟨(c, c.fold layer), (v, v.fold layer)⟩ :: foldBranches layer bs

/-- Folds the columns of a record. -/
def foldFields (layer : Shape (Node × α) → α) : List (Field Node) → List (Field (Node × α))
  | [] => []
  | ⟨name, n⟩ :: fs => ⟨name, (n, n.fold layer)⟩ :: foldFields layer fs
end

/-- A node beside the answer for it. -/
def withFold (layer : Shape (Node × α) → α) (n : Node) : Node × α :=
  (n, n.fold layer)

variable (layer : Shape (Node × α) → α)

theorem foldList_eq (ns : List Node) : foldList layer ns = ns.map (withFold layer) := by
  induction ns with
  | nil => rfl
  | cons n ns ih => simp [foldList, ih, withFold]

theorem foldOption_eq (n : Option Node) : foldOption layer n = n.map (withFold layer) := by
  cases n <;> rfl

theorem foldGenerators_eq (gs : List (Generator Node)) :
    foldGenerators layer gs = gs.map fun g => ⟨g.binder, withFold layer g.source⟩ := by
  induction gs with
  | nil => rfl
  | cons g gs ih => simp [foldGenerators, ih, withFold]

theorem foldKeys_eq (ks : List (SortKey Node)) :
    foldKeys layer ks = ks.map fun k => ⟨withFold layer k.key, k.order⟩ := by
  induction ks with
  | nil => rfl
  | cons k ks ih => simp [foldKeys, ih, withFold]

theorem foldBranches_eq (bs : List (Branch Node)) :
    foldBranches layer bs
      = bs.map fun b => ⟨withFold layer b.condition, withFold layer b.value⟩ := by
  induction bs with
  | nil => rfl
  | cons b bs ih => simp [foldBranches, ih, withFold]

theorem foldFields_eq (fs : List (Field Node)) :
    foldFields layer fs = fs.map fun f => ⟨f.name, withFold layer f.value⟩ := by
  induction fs with
  | nil => rfl
  | cons f fs ih => simp [foldFields, ih, withFold]

theorem foldClauses_eq (q : Query) : foldClauses layer q = q.map (withFold layer) := by
  cases q
  simp only [foldClauses, Clauses.map, foldList_eq, foldOption_eq, foldGenerators_eq, foldKeys_eq]

theorem foldShape_eq (s : Shape Node) : foldShape layer s = s.map (withFold layer) := by
  cases s <;> simp only [foldShape, Shape.map, foldClauses_eq, foldList_eq, foldOption_eq,
    foldKeys_eq, foldBranches_eq, foldFields_eq]

/-- The equation of a fold: the answer for a node is the layer's, on the answers for its
children. -/
theorem fold_mk (s : Shape Node) : (mk s).fold layer = layer (s.map (withFold layer)) := by
  rw [fold, foldShape_eq]

end

/-! ## Induction -/

private theorem sizeOf_toList_lt {n : Node} {o : Option Node} (h : n ∈ o.toList) :
    sizeOf n < sizeOf o := by
  cases o with
  | none => simp at h
  | some m =>
    simp only [Option.toList_some, List.mem_singleton] at h
    subst h
    simp

private theorem sizeOf_source_lt {n : Node} {gs : List (Generator Node)}
    (h : n ∈ gs.map Generator.source) : sizeOf n < sizeOf gs := by
  obtain ⟨g, mem, rfl⟩ := List.mem_map.1 h
  have := List.sizeOf_lt_of_mem mem
  have : sizeOf g.source < sizeOf g := by cases g; simp +arith
  omega

private theorem sizeOf_key_lt {n : Node} {ks : List (SortKey Node)}
    (h : n ∈ ks.map SortKey.key) : sizeOf n < sizeOf ks := by
  obtain ⟨k, mem, rfl⟩ := List.mem_map.1 h
  have := List.sizeOf_lt_of_mem mem
  have : sizeOf k.key < sizeOf k := by cases k; simp +arith
  omega

private theorem sizeOf_field_lt {n : Node} {fs : List (Field Node)}
    (h : n ∈ fs.map Field.value) : sizeOf n < sizeOf fs := by
  obtain ⟨f, mem, rfl⟩ := List.mem_map.1 h
  have := List.sizeOf_lt_of_mem mem
  have : sizeOf f.value < sizeOf f := by cases f; simp +arith
  omega

private theorem sizeOf_branch_lt {n : Node} {bs : List (Branch Node)}
    (h : n ∈ bs.flatMap fun b => [b.condition, b.value]) : sizeOf n < sizeOf bs := by
  obtain ⟨b, mem, hn⟩ := List.mem_flatMap.1 h
  have := List.sizeOf_lt_of_mem mem
  have : sizeOf n < sizeOf b := by
    cases b
    simp only [List.mem_cons, List.not_mem_nil, or_false] at hn
    rcases hn with rfl | rfl <;> simp +arith
  omega

private theorem sizeOf_child_lt {n : Node} {s : Shape Node} (h : n ∈ s.children) :
    sizeOf n < sizeOf s := by
  cases s with
  | query q =>
    obtain ⟨generators, filters, groupBy, orderBy, projection, fetch, offset⟩ := q
    simp only [Shape.children, Clauses.children, Clauses.sources, Clauses.expressions,
      List.mem_append] at h
    simp only [Shape.query.sizeOf_spec, Clauses.mk.sizeOf_spec]
    rcases h with h | ((h | h) | h) | h
    · have := sizeOf_source_lt h; omega
    · have := List.sizeOf_lt_of_mem h; omega
    · have := sizeOf_toList_lt h; omega
    · have := sizeOf_key_lt h; omega
    · have := sizeOf_toList_lt h; omega
  | apply function arguments =>
    have : sizeOf n < sizeOf arguments := List.sizeOf_lt_of_mem h
    simp only [Shape.apply.sizeOf_spec]; omega
  | cases branches otherwise =>
    simp only [Shape.children, List.mem_append] at h
    simp only [Shape.cases.sizeOf_spec]
    rcases h with h | h
    · have := sizeOf_branch_lt h; omega
    · have := sizeOf_toList_lt h; omega
  | product items =>
    have : sizeOf n < sizeOf items := List.sizeOf_lt_of_mem h
    simp only [Shape.product.sizeOf_spec]; omega
  | record fields =>
    have := sizeOf_field_lt h
    simp only [Shape.record.sizeOf_spec]; omega
  | rowNumber keys =>
    have := sizeOf_key_lt h
    simp only [Shape.rowNumber.sizeOf_spec]; omega
  | table _ | row _ | column _ _ | literal _ | parameter _ _ | nextValue _ | currentValue _ =>
    simp [Shape.children] at h

/-- Induction on trees: what passes from the children of a node to the node holds of every
node. -/
theorem induct {P : Node → Prop}
    (step : ∀ s : Shape Node, (∀ n ∈ s.children, P n) → P (mk s)) : ∀ n, P n
  | mk s => step s fun n h =>
      have : sizeOf n < sizeOf (mk s) := by
        have := sizeOf_child_lt h
        simp only [mk.sizeOf_spec]; omega
      induct step n
termination_by n => sizeOf n
decreasing_by exact this

/-! ## Common nodes -/

/-- A subquery. -/
@[match_pattern] abbrev query (q : Query) : Node := mk (.query q)

/-- A base table. -/
@[match_pattern] abbrev table (name : String) : Node := mk (.table name)

/-- The whole row of a generator. -/
@[match_pattern] abbrev row (source : Symbol) : Node := mk (.row source)

/-- A column of a generator's rows. -/
@[match_pattern] abbrev column (source : Symbol) (name : String) : Node := mk (.column source name)

/-- A constant. -/
@[match_pattern] abbrev literal (constant : Literal) : Node := mk (.literal constant)

/-- The argument at a position. -/
@[match_pattern] abbrev parameter (index : UInt64) (kind : Kind) : Node :=
  mk (.parameter index kind)

/-- An application. -/
@[match_pattern] abbrev apply (function : Function) (arguments : List Node) : Node :=
  mk (.apply function arguments)

/-- A constant written into the statement, of a given kind. -/
def typed (kind : Kind) (value : Value) : Node :=
  literal { kind, value }

/-- A constant passed as a parameter. -/
def bound (kind : Kind) (value : Value) : Node :=
  literal { kind, value, bind := true }

/-- A constant written into the statement, of the kind that belongs to its value; null counts as a
string. -/
def ofValue (value : Value) : Node :=
  typed (value.kind?.getD .string) value

/-- The application of an operator to two operands. -/
def binary (operator : Function) (left right : Node) : Node :=
  apply operator [left, right]

/-- The negation of a condition. -/
def not (n : Node) : Node :=
  apply .not [n]

/-- The test for null. -/
def isNull (n : Node) : Node :=
  apply .isNull [n]

end Node

/-- The answers of a fold for the children of a query. -/
def Clauses.withFold {α : Type} (layer : Shape (Node × α) → α) (q : Query) :
    Clauses (Node × α) :=
  q.map (Node.withFold layer)

end SqlCompiler
