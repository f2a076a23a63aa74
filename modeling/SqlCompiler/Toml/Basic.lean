/-!
# TOML documents

The tree of a TOML document, and how tables in it are added to.  A table is made in one of several
ways, which it remembers because they decide what may be added to it later: a table with a header of
its own is not made again, one that only the header of an inner table implies can still get its own
header, one that was made by names with dots grows by such names only, and one that is a value is
complete where it stands.

## What is here

* `Toml` and `Toml.Origin`.
* `Toml.within?` — changes the table at the end of a path, making the tables on the way.
* `Toml.assign?`, `Toml.addTable?`, `Toml.addElement?` — what a line of a document does.
-/

set_option autoImplicit false
namespace SqlCompiler

/-- How a table came to be. -/
inductive Toml.Origin where
  /-- As a value. -/
  | value
  /-- By a header of its own. -/
  | header
  /-- By the header of a table inside it. -/
  | implied
  /-- By names with dots between them. -/
  | dotted
deriving DecidableEq

/-- A value of a TOML document. -/
inductive Toml where
  | string (s : String)
  | bool (b : Bool)
  | integer (n : Int)
  /-- A floating-point number, as it is written. -/
  | float (text : String)
  /-- A date, a time of day or both, as they are written. -/
  | moment (text : String)
  | array (items : List Toml)
  | table (origin : Toml.Origin) (members : List (String × Toml))
  /-- An array of tables, each with a header of its own. -/
  | tables (elements : List (List (String × Toml)))
deriving Inhabited

namespace Toml

/-- The members of a table, in the order in which they were made. -/
abbrev Members := List (String × Toml)

/-- Gives the member with a name a new value, or adds one. -/
def put (key : String) (v : Toml) (members : Members) : Members :=
  if members.any (·.1 == key) then members.map fun m => if m.1 == key then (key, v) else m
  else members ++ [(key, v)]

/-- Whether a path may lead through a table that is there: one that is a value is complete, and
names with dots only lead through tables without a header. -/
def Origin.isOpen (dotted : Bool) : Origin → Bool
  | value => false
  | header => !dotted
  | implied => true
  | Origin.dotted => true

/-- Changes the table at the end of a path.  Tables on the way that are not there yet are made, by
names with dots or by a header; of an array of tables the path takes the last element. -/
def within? (dotted : Bool) (change : Origin → Members → Option Members) :
    List String → Origin → Members → Option Members
  | [], origin, members => change origin members
  | key :: path, _, members =>
    match members.lookup key with
    | none =>
      let made := if dotted then .dotted else .implied
      (within? dotted change path made []).map fun inner => put key (.table made inner) members
    | some (.table origin inner) =>
      if origin.isOpen dotted then
        (within? dotted change path origin inner).map fun inner =>
          put key (.table origin inner) members
      else none
    | some (.tables elements) =>
      match elements.getLast? with
      | some inner => (within? dotted change path .header inner).map fun inner =>
          put key (.tables (elements.dropLast ++ [inner])) members
      | none => none
    | some _ => none

/-- Adds a member that is not there yet.  Where the path to the table had names in it, the table
must have been made by such names. -/
def insert? (path : List String) (key : String) (v : Toml) (origin : Origin) (members : Members) :
    Option Members :=
  if decide (origin = .dotted) = path.isEmpty then none
  else if (members.lookup key).isSome then none
  else some (members ++ [(key, v)])

/-- Gives a value to a name with dots. -/
def assign? (names : List String) (v : Toml) (origin : Origin) (members : Members) :
    Option Members := do
  let path := names.dropLast
  within? true (insert? path (← names.getLast?) v) path origin members

/-- Gives a table its header. -/
def addTable? (names : List String) (members : Members) : Option Members := do
  let key ← names.getLast?
  within? false (fun _ members =>
    match members.lookup key with
    | none => some (members ++ [(key, .table .header [])])
    | some (.table .implied inner) => some (put key (.table .header inner) members)
    | some _ => none) names.dropLast .header members

/-- Adds an element to an array of tables. -/
def addElement? (names : List String) (members : Members) : Option Members := do
  let key ← names.getLast?
  within? false (fun _ members =>
    match members.lookup key with
    | none => some (members ++ [(key, .tables [[]])])
    | some (.tables elements) => some (put key (.tables (elements ++ [[]])) members)
    | some _ => none) names.dropLast .header members

end Toml
end SqlCompiler
