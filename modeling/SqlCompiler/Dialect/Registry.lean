import SqlCompiler.Dialect.Builtin

/-!
# Registered dialects

Dialects under their names: the built-in ones, and any that are added.  A dialect that is added
under a name already taken replaces the other one.
-/

set_option autoImplicit false
namespace SqlCompiler

/-- Dialects, ordered by their names, no name twice. -/
structure Registry where
  dialects : List Dialect

namespace Registry

/-- Puts a dialect in its place, where one of its name stood if there was one. -/
def insertInto (d : Dialect) : List Dialect → List Dialect
  | [] => [d]
  | e :: es =>
    if d.name < e.name then d :: e :: es
    else if d.name = e.name then d :: es
    else e :: insertInto d es

/-- The dialect with a name. -/
def get? (r : Registry) (name : String) : Option Dialect :=
  r.dialects.find? (·.name == name)

/-- The dialect with a name, or the error that there is none. -/
def get (r : Registry) (name : String) : Except Error Dialect :=
  match r.get? name with
  | some d => .ok d
  | none => .error (.config (.unknownDialect name))

/-- Adds a dialect, and answers the one that it replaces. -/
def register (r : Registry) (d : Dialect) : Option Dialect × Registry :=
  (r.get? d.name, ⟨insertInto d r.dialects⟩)

/-- The names of the dialects. -/
def names (r : Registry) : List String :=
  r.dialects.map Dialect.name

/-- The built-in dialects. -/
def builtin : Registry where
  dialects := (Database.all.map Database.dialect).foldl (fun ds d => insertInto d ds) []

end Registry
end SqlCompiler
