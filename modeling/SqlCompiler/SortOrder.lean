/-!
# Sort orders

The direction of an ordering key, and where its nulls go.
-/

set_option autoImplicit false
namespace SqlCompiler

/-- The direction of an ordering key. -/
inductive Direction where
  | ascending
  | descending
deriving DecidableEq, Repr

/-- Where nulls stand among the keys; `unspecified` leaves it to the database. -/
inductive NullPlacement where
  | unspecified
  | first
  | last
deriving DecidableEq, Repr

/-- A direction and a placement of nulls; ascending and unspecified unless said otherwise. -/
structure SortOrder where
  direction : Direction := .ascending
  nulls : NullPlacement := .unspecified
deriving DecidableEq, Repr

namespace SortOrder

/-- Ascending order. -/
def ascending : SortOrder := {}

/-- Descending order. -/
def descending : SortOrder := { direction := .descending }

/-- The same direction, nulls first. -/
def nullsFirst (o : SortOrder) : SortOrder :=
  { o with nulls := .first }

/-- The same direction, nulls last. -/
def nullsLast (o : SortOrder) : SortOrder :=
  { o with nulls := .last }

/-- Whether larger keys come first. -/
def isDescending (o : SortOrder) : Bool :=
  o.direction == .descending

/-- The other direction; nulls stay where they are. -/
def reverse (o : SortOrder) : SortOrder :=
  match o.direction with
  | .ascending => { o with direction := .descending }
  | .descending => { o with direction := .ascending }

/-- A sort order in a description. -/
def text (o : SortOrder) : String :=
  (match o.direction with
    | .ascending => "asc"
    | .descending => "desc")
  ++ match o.nulls with
    | .unspecified => ""
    | .first => " nulls first"
    | .last => " nulls last"

end SortOrder
end SqlCompiler
