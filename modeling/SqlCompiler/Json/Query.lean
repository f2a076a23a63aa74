import SqlCompiler.Json.Scalar

/-!
# Queries in JSON

The stored form of query trees.  Both directions are given for one node at a time, for any way of
storing its children, and carried to whole trees: writing by a fold, reading by going down as deep
as the document goes.
-/

set_option autoImplicit false
namespace SqlCompiler

section
variable {ν : Type}

/-- Two documents as an array. -/
def twoItems (a b : Json) : Json :=
  .array [a, b]

/-- The stored form of an ordering key. -/
def SortKey.toJson (write : ν → Json) (k : SortKey ν) : Json :=
  twoItems (write k.key) k.order.toJson

/-- Reads an ordering key. -/
def SortKey.ofJson? (read : Json → Option ν) (j : Json) : Option (SortKey ν) :=
  (j.pair? read SortOrder.ofJson?).map fun (key, order) => ⟨key, order⟩

/-- The stored form of a query. -/
def Clauses.toJson (write : ν → Json) (q : Clauses ν) : Json :=
  .object [
    ("from", .ofList (fun g => twoItems g.binder.toJson (write g.source)) q.generators),
    ("where", .ofList write q.filters),
    ("group_by", .ofOption write q.groupBy),
    ("order_by", .ofList (SortKey.toJson write) q.orderBy),
    ("select", .ofOption write q.projection),
    ("fetch", .ofOption (fun n => .int n.toNat) q.fetch),
    ("offset", .ofOption (fun n => .int n.toNat) q.offset)]

/-- Reads a query; a clause left out is empty. -/
def Clauses.ofJson? (read : Json → Option ν) (j : Json) : Option (Clauses ν) := do
  let fields ← j.fields? ["from", "where", "group_by", "order_by", "select", "fetch", "offset"]
  let generator (j : Json) : Option (Generator ν) :=
    (j.pair? Symbol.ofJson? read).map fun (binder, source) => ⟨binder, source⟩
  let generators ← fields.default? (Json.list? generator) "from" []
  let filters ← fields.default? (Json.list? read) "where" []
  let groupBy ← fields.optional? read "group_by"
  let orderBy ← fields.default? (Json.list? (SortKey.ofJson? read)) "order_by" []
  let projection ← fields.optional? read "select"
  let fetch ← fields.optional? Json.uint64? "fetch"
  let offset ← fields.optional? Json.uint64? "offset"
  some { generators, filters, groupBy, orderBy, projection, fetch, offset }

namespace Shape

/-- What belongs to a node of this shape. -/
def contentJson (write : ν → Json) : Shape ν → Json
  | query q => q.toJson write
  | table name => .object [("name", .string name)]
  | row source => source.toJson
  | column source name => .object [("source", source.toJson), ("name", .string name)]
  | literal constant => constant.toJson
  | parameter index kind => .object [("index", .int index.toNat), ("kind", kind.toJson)]
  | apply function arguments =>
    .object [("function", function.toJson), ("args", .ofList write arguments)]
  | cases branches otherwise =>
    .object [("clauses", .ofList (fun b => twoItems (write b.condition) (write b.value)) branches),
      ("otherwise", .ofOption write otherwise)]
  | product items => .ofList write items
  | record fields => .ofList (fun f => twoItems (.string f.name) (write f.value)) fields
  | rowNumber keys => .ofList (SortKey.toJson write) keys
  | nextValue sequence => .string sequence
  | currentValue sequence => .string sequence

/-- The stored form of a node. -/
def toJson (write : ν → Json) (s : Shape ν) : Json :=
  .tagged s.name (s.contentJson write)

/-- Reads what belongs to a node of the named shape. -/
def content? (read : Json → Option ν) : String → Json → Option (Shape ν)
  | "Comprehension", j => (Clauses.ofJson? read j).map query
  | "Table", j => do
    let fields ← j.fields? ["name"]
    some (table (← fields.required? Json.string? "name"))
  | "Ref", j => (Symbol.ofJson? j).map row
  | "Column", j => do
    let fields ← j.fields? ["source", "name"]
    let source ← fields.required? Symbol.ofJson? "source"
    let name ← fields.required? Json.string? "name"
    some (column source name)
  | "Literal", j => (Literal.ofJson? j).map literal
  | "QueryParameter", j => do
    let fields ← j.fields? ["index", "kind"]
    let index ← fields.required? Json.uint64? "index"
    let kind ← fields.required? Kind.ofJson? "kind"
    some (parameter index kind)
  | "Apply", j => do
    let fields ← j.fields? ["function", "args"]
    let function ← fields.required? Function.ofJson? "function"
    let arguments ← fields.required? (Json.list? read) "args"
    some (apply function arguments)
  | "Case", j => do
    let fields ← j.fields? ["clauses", "otherwise"]
    let branch (j : Json) : Option (Branch ν) :=
      (j.pair? read read).map fun (condition, value) => ⟨condition, value⟩
    let branches ← fields.required? (Json.list? branch) "clauses"
    let otherwise ← fields.named? read "otherwise"
    some (cases branches otherwise)
  | "Product", j => (j.list? read).map product
  | "Struct", j =>
    (j.list? fun j => (j.pair? Json.string? read).map fun (name, value) => ⟨name, value⟩).map record
  | "RowNumber", j => (j.list? (SortKey.ofJson? read)).map rowNumber
  | "NextValue", j => j.string?.map nextValue
  | "CurrentValue", j => j.string?.map currentValue
  | _, _ => none

/-- Reads a node. -/
def ofJson? (read : Json → Option ν) (j : Json) : Option (Shape ν) := do
  match ← j.variant? with
  | (name, some j) => content? read name j
  | _ => none

end Shape
end

namespace Node

/-- The stored form of a tree. -/
def toJson : Node → Json :=
  fold (Shape.toJson Prod.snd)

/-- Reads a tree that is stored no deeper than a number of levels. -/
def ofJsonWithin? : Nat → Json → Option Node
  | 0, _ => none
  | levels + 1, j => (Shape.ofJson? (ofJsonWithin? levels) j).map mk

/-- Reads a tree.  Each node is stored at least one level below its parent, so that the depth of
the document bounds that of the tree. -/
def ofJson? (j : Json) : Option Node :=
  ofJsonWithin? j.depth j

end Node

namespace Query

/-- The stored form of a query. -/
def toJson (q : Query) : Json :=
  Clauses.toJson Node.toJson q

/-- Reads a query. -/
def ofJson? (j : Json) : Option Query :=
  Clauses.ofJson? Node.ofJson? j

end Query
end SqlCompiler
