import SqlCompiler.Capability
import SqlCompiler.Text.Escape

/-!
# Functions and operators

What an application can call: the operators and functions that every dialect spells in its own
way, and functions of the user's own that are written by their name.

## What is here

* `Function`, with `Function.arity` — how many arguments each takes, and `Arity.accepts`.
* `Function.capability?` — the capability that an application of it needs.
* `Function.text` — its name in a description.
-/

set_option autoImplicit false
namespace SqlCompiler

/-- A function or an operator. -/
inductive Function where
  | eq
  | ne
  | lt
  | le
  | gt
  | ge
  | and
  | or
  | not
  | isNull
  | isIn
  | like
  | plus
  | minus
  | times
  | divide
  | modulo
  | concat
  | lower
  | upper
  | length
  | abs
  | coalesce
  | count
  | countAll
  | countDistinct
  | sum
  | avg
  | min
  | max
  | hasRows
  | currentDate
  | database
  | user
  /-- A function of the user's, written as it is named. -/
  | named (name : String)
deriving DecidableEq, Repr

/-- How many arguments a function takes: at least `least`, and at most `most` if that is given. -/
structure Arity where
  least : Nat
  most : Option Nat
deriving DecidableEq, Repr

namespace Arity

/-- Whether a number of arguments is accepted. -/
def accepts (a : Arity) (count : Nat) : Bool :=
  a.least ≤ count && a.most.all (count ≤ ·)

/-- The accepted numbers in a description. -/
def text (a : Arity) : String :=
  match a.most with
  | some most =>
    if most = a.least then toString a.least else toString a.least ++ " to " ++ toString most
  | none => "at least " ++ toString a.least

end Arity

namespace Function

/-- The functions without a name of their own, each with its name in a description. -/
def builtin : List (Function × String) :=
  [(eq, "Eq"), (ne, "Ne"), (lt, "Lt"), (le, "Le"), (gt, "Gt"), (ge, "Ge"), (and, "And"),
    (or, "Or"), (not, "Not"), (isNull, "IsNull"), (isIn, "In"), (like, "Like"), (plus, "Plus"),
    (minus, "Minus"), (times, "Times"), (divide, "Divide"), (modulo, "Modulo"),
    (concat, "Concat"), (lower, "Lower"), (upper, "Upper"), (length, "Length"), (abs, "Abs"),
    (coalesce, "Coalesce"), (count, "Count"), (countAll, "CountAll"),
    (countDistinct, "CountDistinct"), (sum, "Sum"), (avg, "Avg"), (min, "Min"), (max, "Max"),
    (hasRows, "Exists"), (currentDate, "CurrentDate"), (database, "Database"), (user, "User")]

/-- The name of a function in the stored form of a query; a user's function has none. -/
def name? (f : Function) : Option String :=
  (builtin.find? (·.1 == f)).map (·.2)

/-- The function with a given name in the stored form of a query. -/
def ofName? (s : String) : Option Function :=
  (builtin.find? (·.2 == s)).map (·.1)

/-- How many arguments a function takes. -/
def arity : Function → Arity
  | eq | ne | lt | le | gt | ge | plus | minus | times | divide | modulo => ⟨2, some 2⟩
  | and | or | concat | isIn => ⟨2, none⟩
  | like => ⟨2, some 3⟩
  | not | isNull | lower | upper | length | abs | hasRows => ⟨1, some 1⟩
  | count | countDistinct | sum | avg | min | max => ⟨1, some 1⟩
  | coalesce => ⟨1, none⟩
  | countAll | currentDate | database | user => ⟨0, some 0⟩
  | named _ => ⟨0, none⟩

/-- The capability that a dialect must have before it may write an application to so many
arguments. -/
def capability? : Function → Nat → Option Capability
  | database, _ => some .functionDatabase
  | user, _ => some .functionUser
  | like, 3 => some .likeEscape
  | _, _ => none

/-- A function in a description. -/
def text (f : Function) : String :=
  match f with
  | named name => "Named(" ++ Text.escape name ++ ")"
  | f => f.name?.getD ""

end Function
end SqlCompiler
