import SqlCompiler.Query.Children

/-!
# Outlines

An outline shows a tree with one node to a line: indented by its depth, under its name among the
children of its parent, with everything the node holds besides its children.
-/

set_option autoImplicit false
namespace SqlCompiler

/-- A name in an outline: between quotation marks, as it is. -/
private def outlineName (s : String) : String :=
  "\"" ++ s ++ "\""

/-- One line about a node: its shape, and what it holds besides its children. -/
def Shape.label {ν : Type} (s : Shape ν) : String :=
  match s with
  | .table name => s.name ++ " " ++ outlineName name
  | .row source => s.name ++ " " ++ source.text
  | .column source name => s.name ++ " " ++ source.text ++ "." ++ outlineName name
  | .literal constant =>
    s.name ++ " " ++ constant.value.text ++ ": " ++ constant.kind.name
      ++ (if constant.bind then " bind" else "")
  | .parameter index kind => s.name ++ " #" ++ toString index.toNat ++ ": " ++ kind.name
  | .apply function _ => s.name ++ " " ++ function.text
  | .nextValue sequence => s.name ++ " " ++ outlineName sequence
  | .currentValue sequence => s.name ++ " " ++ outlineName sequence
  | .query _ | .cases .. | .product _ | .record _ | .rowNumber _ => s.name

/-- A line of an outline. -/
structure OutlineLine where
  depth : Nat
  content : String

namespace OutlineLine

/-- The line with two blanks for each level, and its end. -/
def text (l : OutlineLine) : String :=
  String.ofList (List.replicate (2 * l.depth) ' ') ++ l.content ++ "\n"

/-- The line as that of a child: one level deeper. -/
def nested (l : OutlineLine) : OutlineLine :=
  { l with depth := l.depth + 1 }

/-- The line under a name. -/
def named (name : String) (l : OutlineLine) : OutlineLine :=
  { l with content := name ++ ": " ++ l.content }

end OutlineLine

/-- The lines about the paging of a query, inside it. -/
def Clauses.pagingLines {ν : Type} (q : Clauses ν) : List OutlineLine :=
  q.fetch.toList.map (fun n => ⟨1, "fetch " ++ toString n.toNat⟩)
    ++ q.offset.toList.map (fun n => ⟨1, "offset " ++ toString n.toNat⟩)

/-- The lines of a node, given those of its children.  The first line is the node's own. -/
def Shape.outline {ν : Type} (lines : ν → OutlineLine × List OutlineLine) (s : Shape ν) :
    OutlineLine × List OutlineLine :=
  let paging := match s with
    | .query q => q.pagingLines
    | _ => []
  let children := List.zipWith (fun n name =>
      let (first, rest) := lines n
      (first.named name :: rest).map OutlineLine.nested) s.children s.childNames
  (⟨0, s.label⟩, paging ++ children.flatten)

namespace Node

/-- One line about a node. -/
def label (n : Node) : String :=
  n.shape.label

/-- The outline of a tree. -/
def outline (n : Node) : String :=
  let (first, rest) := n.fold (Shape.outline Prod.snd)
  String.join ((first :: rest).map OutlineLine.text)

end Node
end SqlCompiler
