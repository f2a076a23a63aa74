import SqlCompiler.Number.Binary

/-!
# JSON documents

The tree of a JSON document.  Whole numbers are kept apart from floating-point numbers, and the
members of an object stay in their order, with every name that occurs twice.  What is well formed
but has no value is kept as `Json.unread`: it may stand where nothing is read from.
-/

set_option autoImplicit false
namespace SqlCompiler

/-- A JSON document. -/
inductive Json where
  | null
  | bool (b : Bool)
  | int (n : Int)
  | float (x : Number.Double)
  | string (s : String)
  | array (items : List Json)
  | object (members : List (String × Json))
  /-- A number that is too large, half of a pair of escapes, or what is nested too deeply. -/
  | unread
deriving Inhabited

namespace Json

mutual
/-- How deeply arrays and objects are nested, a plain value being of depth one. -/
def depth : Json → Nat
  | array items => depthItems items + 1
  | object members => depthMembers members + 1
  | _ => 1

/-- The greatest depth of the items of an array. -/
def depthItems : List Json → Nat
  | [] => 0
  | j :: js => max j.depth (depthItems js)

/-- The greatest depth of the members of an object. -/
def depthMembers : List (String × Json) → Nat
  | [] => 0
  | (_, j) :: js => max j.depth (depthMembers js)
end

mutual
/-- Whether every part of a document has a value. -/
def isWhole : Json → Bool
  | array items => wholeItems items
  | object members => wholeMembers members
  | unread => false
  | _ => true

/-- Whether every part of the items of an array has a value. -/
def wholeItems : List Json → Bool
  | [] => true
  | j :: js => j.isWhole && wholeItems js

/-- Whether every part of the members of an object has a value. -/
def wholeMembers : List (String × Json) → Bool
  | [] => true
  | (_, j) :: js => j.isWhole && wholeMembers js
end

end Json
end SqlCompiler
