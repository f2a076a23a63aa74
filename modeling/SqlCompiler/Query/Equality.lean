import SqlCompiler.Query.Basic

/-!
# Equality of trees

Two trees are the same if they have the same shape all the way down.  Symbols are the same by
their identity and constants by `Value.same`, so a decimal with more places than another can be
the same constant.
-/

set_option autoImplicit false
namespace SqlCompiler

/-- Two lists are of one length and related member by member. -/
def sameList {α β : Type} (same : α → β → Bool) : List α → List β → Bool
  | [], [] => true
  | a :: as, b :: bs => same a b && sameList same as bs
  | _, _ => false

/-- Both values are absent, or both are there and related. -/
def sameOption {α β : Type} (same : α → β → Bool) : Option α → Option β → Bool
  | none, none => true
  | some a, some b => same a b
  | _, _ => false

/-- Two constants are the same. -/
def Literal.same (a b : Literal) : Bool :=
  a.kind == b.kind && a.value.same b.value && a.bind == b.bind

section
variable {ν μ : Type} (same : ν → μ → Bool)

/-- Two ordering keys are the same, given when two nodes are. -/
def SortKey.sameBy (a : SortKey ν) (b : SortKey μ) : Bool :=
  same a.key b.key && a.order == b.order

/-- Two queries are the same, given when two nodes are. -/
def Clauses.sameBy (a : Clauses ν) (b : Clauses μ) : Bool :=
  sameList (fun g h => g.binder == h.binder && same g.source h.source) a.generators b.generators
    && sameList same a.filters b.filters
    && sameOption same a.groupBy b.groupBy
    && sameList (SortKey.sameBy same) a.orderBy b.orderBy
    && sameOption same a.projection b.projection
    && a.fetch == b.fetch
    && a.offset == b.offset

/-- Two shapes are the same, given when two nodes are. -/
def Shape.sameBy : Shape ν → Shape μ → Bool
  | .query p, .query q => p.sameBy same q
  | .table a, .table b => a == b
  | .row a, .row b => a == b
  | .column a x, .column b y => a == b && x == y
  | .literal a, .literal b => a.same b
  | .parameter i j, .parameter k l => i == k && j == l
  | .apply f as, .apply g bs => f == g && sameList same as bs
  | .cases bs o, .cases cs p =>
    sameList (fun b c => same b.condition c.condition && same b.value c.value) bs cs
      && sameOption same o p
  | .product as, .product bs => sameList same as bs
  | .record as, .record bs => sameList (fun a b => a.name == b.name && same a.value b.value) as bs
  | .rowNumber as, .rowNumber bs => sameList (SortKey.sameBy same) as bs
  | .nextValue a, .nextValue b => a == b
  | .currentValue a, .currentValue b => a == b
  | _, _ => false

end

/-- Two trees are the same. -/
def Node.same : Node → Node → Bool :=
  Node.fold fun s other => s.sameBy (fun n m => n.2 m) other.shape

/-- Two queries are the same. -/
def Query.same (p q : Query) : Bool :=
  p.sameBy Node.same q

end SqlCompiler
