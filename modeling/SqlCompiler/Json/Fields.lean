import SqlCompiler.Json.Basic

/-!
# Fields and variants

How structures and choices are kept in JSON.  A structure is an object: names it does not know are
passed over, a name it knows must not occur twice, and a field that may be missing may be null as
well.  It can also be an array of its fields in their order, from which fields may be missing only
at the end.  A choice is an object with one member, named for the choice, or just the name if there
is nothing more to say.
-/

set_option autoImplicit false
namespace SqlCompiler
namespace Json

/-- The members of an object. -/
def members? : Json → Option (List (String × Json))
  | object members => some members
  | _ => none

/-- The items of an array. -/
def items? : Json → Option (List Json)
  | array items => some items
  | _ => none

/-- The content of a string. -/
def string? : Json → Option String
  | string s => some s
  | _ => none

/-- The truth value that a document is. -/
def bool? : Json → Option Bool
  | bool b => some b
  | _ => none

/-- A whole number within bounds, both included. -/
def intWithin? (low high : Int) : Json → Option Int
  | int n => if low ≤ n ∧ n ≤ high then some n else none
  | _ => none

/-- A whole number without a sign below a bound. -/
def natBelow? (size : Nat) : Json → Option Nat
  | int n => if 0 ≤ n ∧ n < size then some n.toNat else none
  | _ => none

/-- A whole number of 64 bits without a sign. -/
def uint64? (j : Json) : Option UInt64 :=
  (j.natBelow? UInt64.size).map UInt64.ofNat

/-- A whole number of 32 bits without a sign. -/
def uint32? (j : Json) : Option UInt32 :=
  (j.natBelow? UInt32.size).map UInt32.ofNat

/-- A byte. -/
def uint8? (j : Json) : Option UInt8 :=
  (j.natBelow? UInt8.size).map UInt8.ofNat

/-- A whole number of 64 bits. -/
def int64? (j : Json) : Option Int64 :=
  (j.intWithin? Int64.minValue.toInt Int64.maxValue.toInt).map Int64.ofInt

/-- A whole number of 32 bits. -/
def int32? (j : Json) : Option Int32 :=
  (j.intWithin? Int32.minValue.toInt Int32.maxValue.toInt).map Int32.ofInt

/-- A whole number of 16 bits. -/
def int16? (j : Json) : Option Int16 :=
  (j.intWithin? Int16.minValue.toInt Int16.maxValue.toInt).map Int16.ofInt

/-- The items of an array, each read in the same way. -/
def list? {α : Type} (item : Json → Option α) (j : Json) : Option (List α) :=
  j.items?.bind fun items => items.mapM item

/-- An array of two, each read in its own way. -/
def pair? {α β : Type} (first : Json → Option α) (second : Json → Option β) :
    Json → Option (α × β)
  | array [a, b] => do some (← first a, ← second b)
  | _ => none

/-! ## Fields -/

/-- The fields of a structure that are given, and whether they are given in their order. -/
structure Fields where
  members : List (String × Json)
  inOrder : Bool

/-- The fields of a structure with the given names. -/
def fields? (names : List String) : Json → Option Fields
  | object members => some ⟨members, false⟩
  | array items => if items.length ≤ names.length then some ⟨names.zip items, true⟩ else none
  | _ => none

namespace Fields

/-- The field with a name, which must not occur twice. -/
def find? (fs : Fields) (name : String) : Option (Option Json) :=
  match fs.members.filter (·.1 == name) with
  | [] => some none
  | [(_, j)] => some (some j)
  | _ => none

variable {α : Type} (read : Json → Option α)

/-- A field that must be there. -/
def required? (fs : Fields) (name : String) : Option α := do
  read (← (← fs.find? name))

/-- A field that may be missing, and then has a value of its own. -/
def default? (fs : Fields) (name : String) (default : α) : Option α := do
  match ← fs.find? name with
  | none => some default
  | some j => read j

/-- A value or null. -/
def nullable? : Json → Option (Option α)
  | null => some none
  | j => (read j).map some

/-- A field that may be missing or null. -/
def optional? (fs : Fields) (name : String) : Option (Option α) :=
  fs.default? (nullable? read) name none

/-- A field that may be null, and may be missing if the fields have names. -/
def named? (fs : Fields) (name : String) : Option (Option α) :=
  if fs.inOrder then fs.required? (nullable? read) name else fs.optional? read name

end Fields

/-- A value that may be absent, null standing for that. -/
def ofOption {α : Type} (write : α → Json) : Option α → Json
  | none => null
  | some a => write a

/-- A list, each item written in the same way. -/
def ofList {α : Type} (write : α → Json) (items : List α) : Json :=
  array (items.map write)

/-! ## Choices -/

/-- The name of a choice, and what belongs to it. -/
def variant? : Json → Option (String × Option Json)
  | string name => some (name, none)
  | object [(name, j)] => some (name, some j)
  | _ => none

/-- A choice to which nothing belongs. -/
def choice? {α : Type} (ofName? : String → Option α) (j : Json) : Option α := do
  match ← j.variant? with
  | (name, none) => ofName? name
  | (name, some null) => ofName? name
  | _ => none

/-- A choice with what belongs to it. -/
def tagged (name : String) (j : Json) : Json :=
  object [(name, j)]

end Json
end SqlCompiler
