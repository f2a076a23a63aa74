import SqlCompiler.Error
import SqlCompiler.Query.Basic

/-!
# Children and their names

The direct children of a node stand in a fixed order.  Each has a name there, and they can be
replaced one for one without touching anything else: binders, orders, field names and paging stay.

## What is here

* `Shape.childNames`, `Clauses.childNames` — the names, one for each child.
* `Shape.refill`, `Clauses.refill` — new children in the old places.
* `Node.replaceChildren`, `Clauses.replaceChildren` — the same, refused if the number differs.
* `Node.mapChildren`, `Clauses.mapM` — every child replaced by what a function makes of it.
-/

set_option autoImplicit false
namespace SqlCompiler

namespace Clauses

variable {ν μ : Type}

/-- The names of the children. -/
def childNames (q : Clauses ν) : List String :=
  q.generators.map (fun g => "from " ++ g.binder.text)
    ++ (List.range q.filters.length).map (fun i => "where " ++ toString i)
    ++ q.groupBy.toList.map (fun _ => "groupBy")
    ++ q.orderBy.map (fun k => "orderBy " ++ k.order.text)
    ++ q.projection.toList.map (fun _ => "select")

/-- The clauses with the given children in place of their own, as far as both go. -/
def refill (q : Clauses ν) (cs : List μ) : Clauses μ :=
  let afterSources := cs.drop q.generators.length
  let afterFilters := afterSources.drop q.filters.length
  let afterGroup := afterFilters.drop q.groupBy.toList.length
  let afterKeys := afterGroup.drop q.orderBy.length
  { generators := q.generators.zipWith (fun g c => ⟨g.binder, c⟩) cs
    filters := afterSources.take q.filters.length
    groupBy := q.groupBy.bind fun _ => afterFilters.head?
    orderBy := q.orderBy.zipWith (fun k c => ⟨c, k.order⟩) afterGroup
    projection := q.projection.bind fun _ => afterKeys.head?
    fetch := q.fetch
    offset := q.offset }

/-- A query with other children, as many as it has. -/
def replaceChildren (q : Query) (cs : List Node) : Except Error Query :=
  if cs.length = q.children.length then .ok (q.refill cs)
  else .error (.childCount (Shape.query q).name q.children.length cs.length)

/-- The clauses with each source replaced through one function and each other child through
another; whichever fails first stops it. -/
def mapM {m : Type → Type} [Monad m] (onSource onExpression : ν → m μ) (q : Clauses ν) :
    m (Clauses μ) := do
  let generators ← q.generators.mapM fun g => return ⟨g.binder, ← onSource g.source⟩
  let filters ← q.filters.mapM onExpression
  let groupBy ← q.groupBy.mapM onExpression
  let orderBy ← q.orderBy.mapM fun k => return ⟨← onExpression k.key, k.order⟩
  let projection ← q.projection.mapM onExpression
  return { generators, filters, groupBy, orderBy, projection, fetch := q.fetch, offset := q.offset }

end Clauses

namespace Shape

variable {ν μ : Type}

/-- The names of the children. -/
def childNames : Shape ν → List String
  | query q => q.childNames
  | apply _ arguments => (List.range arguments.length).map fun i => "arg " ++ toString i
  | cases branches otherwise =>
    ((List.range branches.length).flatMap fun i => ["when " ++ toString i, "then " ++ toString i])
      ++ otherwise.toList.map fun _ => "else"
  | product items => (List.range items.length).map fun i => "_" ++ toString (i + 1)
  | record fields => fields.map Field.name
  | rowNumber keys => keys.map fun k => "by " ++ k.order.text
  | table _ | row _ | column .. | literal _ | parameter .. | nextValue _ | currentValue _ => []

/-- As many branches as before, from two children each. -/
def refillBranches : List (Branch ν) → List μ → List (Branch μ)
  | _ :: branches, condition :: value :: cs => ⟨condition, value⟩ :: refillBranches branches cs
  | _, _ => []

/-- The shape with the given children in place of its own, as far as both go. -/
def refill (s : Shape ν) (cs : List μ) : Shape μ :=
  match s with
  | query q => query (q.refill cs)
  | table name => table name
  | row source => row source
  | column source name => column source name
  | literal constant => literal constant
  | parameter index kind => parameter index kind
  | apply function arguments => apply function (cs.take arguments.length)
  | cases branches otherwise =>
    cases (refillBranches branches cs)
      (otherwise.bind fun _ => (cs.drop (2 * branches.length)).head?)
  | product items => product (cs.take items.length)
  | record fields => record (fields.zipWith (fun f c => ⟨f.name, c⟩) cs)
  | rowNumber keys => rowNumber (keys.zipWith (fun k c => ⟨c, k.order⟩) cs)
  | nextValue sequence => nextValue sequence
  | currentValue sequence => currentValue sequence

end Shape

namespace Node

/-- The names of the children of a node. -/
def childNames (n : Node) : List String :=
  n.shape.childNames

/-- A node with other children, as many as it has. -/
def replaceChildren (n : Node) (cs : List Node) : Except Error Node :=
  if cs.length = n.children.length then .ok (mk (n.shape.refill cs))
  else .error (.childCount n.shape.name n.children.length cs.length)

/-- A node with each child replaced by what a function makes of it; the first failure stops it. -/
def mapChildren {m : Type → Type} [Monad m] (f : Node → m Node) (n : Node) : m Node := do
  return mk (n.shape.refill (← n.children.mapM f))

end Node
end SqlCompiler
