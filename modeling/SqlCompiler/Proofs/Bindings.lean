import SqlCompiler.Proofs.Collecting
import SqlCompiler.Proofs.Gathering

/-!
# What a tree binds

The constants to be bound and the parameters of a tree, in the order of its text.

* `Binding` — a kind, and a constant or the position of an argument.
* `Node.bindings`, `Query.bindings` — what is bound in a tree, in the order of its text.
* `Query.bindings_numberRows` — the query in the place of one that numbers its rows binds the same.
* `Node.calls` — the names of the user's functions in a tree.
-/

set_option autoImplicit false
namespace SqlCompiler

/-- What is bound to a placeholder: its kind, and where its value comes from. -/
structure Binding where
  kind : Kind
  source : Source
deriving DecidableEq

/-- What a setter binds. -/
def Setter.binding (s : Setter) : Binding :=
  ⟨s.kind, s.source⟩

/-- What a node binds by itself: a parameter its argument, and a constant its value unless it is
written into the statement. -/
def Shape.binding {ν : Type} : Shape ν → List Binding
  | .literal c => if c.bind then [⟨c.kind, .constant c.value⟩] else []
  | .parameter index kind => [⟨kind, .argument index.toNat⟩]
  | _ => []

/-- What is bound in a tree, in the order of its text. -/
def Node.bindings (d : Dialect) : Node → List Binding :=
  Node.fold fun s => s.binding ++ (s.written d).flatMap Prod.snd

/-- What is bound in a query, in the order of its text. -/
def Query.bindings (d : Dialect) (q : Query) : List Binding :=
  (q.written d).flatMap (Node.bindings d)

/-! ## Layer by layer -/

namespace Node

variable (d : Dialect)

theorem bindings_mk (s : Shape Node) :
    (mk s).bindings d = s.binding ++ (s.written d).flatMap (bindings d) := by
  have hbinding : (s.map (withFold fun s => s.binding ++ (s.written d).flatMap Prod.snd)).binding
      = s.binding := by
    cases s <;> rfl
  rw [bindings, fold_mk, hbinding, Shape.written_map, List.flatMap_map]
  rfl

theorem enumerates_bindings : Enumerates d Shape.binding (bindings d) where
  layer := bindings_mk d

theorem ignores_binding : Ignores Shape.binding where
  query _ _ := rfl
  column _ _ := rfl
  rowConstant _ := rfl
  compare _ _ _ _ := rfl
  product _ := rfl
  record _ := rfl
  rowNumber _ := rfl

theorem bindings_column (s : Symbol) (name : String) : (column s name).bindings d = [] :=
  bindings_mk d _

theorem bindings_literal (c : Literal) :
    (literal c).bindings d = if c.bind then [⟨c.kind, .constant c.value⟩] else [] :=
  (bindings_mk d _).trans (List.append_nil _)

theorem bindings_query (q : Query) : (query q).bindings d = Query.bindings d q :=
  bindings_mk d _

theorem bindings_record (fields : List (Field Node)) :
    (mk (.record fields)).bindings d = fields.flatMap fun c => c.value.bindings d :=
  (bindings_mk d _).trans (List.flatMap_map ..)

theorem bindings_product (items : List Node) :
    (mk (.product items)).bindings d = items.flatMap (bindings d) :=
  bindings_mk d _

theorem bindings_rowNumber (keys : List (SortKey Node)) :
    (mk (.rowNumber keys)).bindings d = (SortKey.written d keys).flatMap (bindings d) :=
  bindings_mk d _

end Node

/-! ## Numbered rows -/

namespace Query

open RowNumbering

variable (d : Dialect)

theorem bindings_of_not_numbers {q : Query} (h : ¬ d.Numbers q) :
    bindings d q
      = q.projection.toList.flatMap (Node.bindings d)
        ++ (q.generators.flatMap (fun g => g.source.bindings d)
          ++ (q.filters.flatMap (Node.bindings d)
            ++ (q.groupBy.toList.flatMap (Node.bindings d)
              ++ (SortKey.written d q.orderBy).flatMap (Node.bindings d)))) := by
  rw [bindings, Clauses.written, if_neg h, Clauses.sources]
  simp only [List.flatMap_append, List.flatMap_map, List.append_assoc]

/-- **The query in the place of one that numbers its rows binds the same**, in the same order. -/
theorem bindings_numberRows {q p : Query} (hq : d.Numbers q)
    (hp : numberRows d.name q = .ok p) : bindings d p = bindings d q :=
  (Node.enumerates_bindings d).flatMap_numberRows Node.ignores_binding hq hp

end Query

/-! ## The user's functions -/

/-- The name of the user's function that a node applies. -/
def Shape.call {ν : Type} : Shape ν → List String
  | .apply (.named name) _ => [name]
  | _ => []

/-- The names of the user's functions in a tree. -/
def Node.calls : Node → List String :=
  Node.fold fun s => s.call ++ s.children.flatMap Prod.snd

/-- The names of the user's functions in a query. -/
def Query.calls (q : Query) : List String :=
  q.children.flatMap Node.calls

namespace Node

theorem gathers_calls : Gathers Shape.call calls where
  layer s := by
    have hcall : (s.map (withFold fun s => s.call ++ s.children.flatMap Prod.snd)).call
        = s.call := by
      cases s with
      | apply f arguments => cases f <;> rfl
      | _ => rfl
    rw [calls, fold_mk, hcall, Shape.children_map, List.flatMap_map]
    rfl

theorem ignores_call : Ignores Shape.call where
  query _ _ := rfl
  column _ _ := rfl
  rowConstant _ := rfl
  compare f a b hf := by rcases hf with rfl | rfl <;> rfl
  product _ := rfl
  record _ := rfl
  rowNumber _ := rfl

end Node

theorem Query.mem_calls_numberRows {dialect : String} {q p : Query}
    (hp : numberRows dialect q = .ok p) {name : String} : name ∈ calls p ↔ name ∈ calls q := by
  rw [calls, calls, List.mem_flatMap, List.mem_flatMap]
  exact Node.gathers_calls.mem_numberRows Node.ignores_call hp

end SqlCompiler
