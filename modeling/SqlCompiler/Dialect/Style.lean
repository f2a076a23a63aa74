import SqlCompiler.Function
import SqlCompiler.Scalar.Kind
import SqlCompiler.SortOrder

/-!
# Styles of writing

The ways in which databases write one and the same thing.  Each style is plain data; the statements
themselves are put together in one place, which asks the style for the words.

## What is here

* `Spelling` — the words around the arguments of a function, with `Spelling.standard`.
* `Conditional` — the words around the branches of a conditional.
* `NullKeys` — how nulls are moved to one end of an order.
* `Paging` — how a part of the rows is asked for.
* `SequenceCall` — how the values of a sequence are asked for.
* `TableStyle` — the choices in the definition of a table.
-/

set_option autoImplicit false
namespace SqlCompiler

/-- The words around the arguments of a function: `opening` before the first, `first` between the
first and the second, `next` between all further ones, and `closing` after the last. -/
structure Spelling where
  opening : String
  first : String := ""
  next : String := ""
  closing : String := ""
deriving DecidableEq, Repr

namespace Spelling

/-- An operator between its operands, in parentheses. -/
def operator (symbol : String) : Spelling where
  opening := "("
  first := " " ++ symbol ++ " "
  next := " " ++ symbol ++ " "
  closing := ")"

/-- A name with its arguments in parentheses. -/
def call (name : String) : Spelling where
  opening := name ++ "("
  first := ", "
  next := ", "
  closing := ")"

/-- A text without arguments. -/
def constant (text : String) : Spelling where
  opening := text

/-- The spelling that most databases understand. -/
def standard : Function → Spelling
  | .eq => operator "="
  | .ne => operator "<>"
  | .lt => operator "<"
  | .le => operator "<="
  | .gt => operator ">"
  | .ge => operator ">="
  | .and => operator "and"
  | .or => operator "or"
  | .plus => operator "+"
  | .minus => operator "-"
  | .times => operator "*"
  | .divide => operator "/"
  | .modulo => operator "%"
  | .concat => operator "||"
  | .not => { opening := "(not ", closing := ")" }
  | .isNull => { opening := "(", closing := " is null)" }
  | .isIn => { opening := "(", first := " in (", next := ", ", closing := "))" }
  | .like => { opening := "(", first := " like ", next := " escape ", closing := ")" }
  | .lower => call "lower"
  | .upper => call "upper"
  | .length => call "length"
  | .abs => call "abs"
  | .coalesce => call "coalesce"
  | .count => call "count"
  | .sum => call "sum"
  | .avg => call "avg"
  | .min => call "min"
  | .max => call "max"
  | .countAll => constant "count(*)"
  | .countDistinct => { opening := "count(distinct ", closing := ")" }
  | .hasRows => { opening := "exists" }
  | .currentDate => constant "current_date"
  | .database => constant "database()"
  | .user => constant "user()"
  | .named name => call name

end Spelling

/-- The words around the branches of a conditional: `first` before the condition of the first
branch, `next` before those of the others, `value` before each value. -/
structure Conditional where
  opening : String
  first : String
  next : String
  value : String
  otherwise : String
  closing : String
deriving DecidableEq, Repr

namespace Conditional

/-- A case expression. -/
def cases : Conditional where
  opening := "(case"
  first := " when "
  next := " when "
  value := " then "
  otherwise := " else "
  closing := " end)"

/-- A call whose arguments are conditions and values in turn. -/
def switch : Conditional where
  opening := "switch("
  first := ""
  next := ", "
  value := ", "
  otherwise := ", true, "
  closing := ")"

end Conditional

/-- How nulls are moved to one end of an order. -/
inductive NullKeys where
  /-- The database has words for it, after the key. -/
  | native
  /-- A case expression is an additional key before the key. -/
  | cases
  /-- A test for null is an additional key before the key. -/
  | isnull
  /-- A conditional call on such a test is an additional key before the key. -/
  | iif
deriving DecidableEq, Repr

namespace NullKeys

/-- The texts before and after the expression in the additional key, if there is one. -/
def extraKey? : NullKeys → NullPlacement → Option (String × String)
  | _, .unspecified => none
  | native, _ => none
  | cases, .first => some ("case when (", ") is null then 0 else 1 end, ")
  | cases, .last => some ("case when (", ") is null then 1 else 0 end, ")
  | isnull, .first => some ("isnull(", ") desc, ")
  | isnull, .last => some ("isnull(", "), ")
  | iif, .first => some ("iif(isnull(", "), 0, 1), ")
  | iif, .last => some ("iif(isnull(", "), 1, 0), ")

/-- The text after a key and its direction. -/
def suffix : NullKeys → NullPlacement → String
  | native, .first => " nulls first"
  | native, .last => " nulls last"
  | _, _ => ""

end NullKeys

/-- How a part of the rows is asked for. -/
inductive Paging where
  /-- A limit and an offset.  An offset alone needs the given text for a limit that does not
  limit, if the database insists on one. -/
  | limit (unbounded : Option String)
  /-- An offset in rows and a number of rows to fetch next. -/
  | rows
  /-- The topmost rows only; the rows before the offset are left to the caller to drop. -/
  | top
  /-- The topmost rows, or a query that numbers its rows if some are skipped. -/
  | numbered
deriving DecidableEq, Repr

/-- How the values of a sequence are asked for: a text before its name and one after it. -/
structure SequenceCall where
  next : String := "(next value for "
  current : String := "(current value for "
  closing : String := ")"
  /-- The quoted name is given as a text constant. -/
  asText : Bool := false
deriving DecidableEq, Repr

/-- How a column that numbers its rows is defined. -/
inductive AutoIncrement where
  /-- By a clause after its type. -/
  | clause (text : String)
  /-- By a type of its own, for the kinds that have one. -/
  | typeName (name : Kind → Option String)
  /-- By a text that replaces the whole definition. -/
  | definition (text : String)

/-- The choices in the definition of a table. -/
structure TableStyle where
  autoIncrement : AutoIncrement := .clause " GENERATED BY DEFAULT AS IDENTITY"
  /-- Foreign keys are part of the table's own definition. -/
  inlineForeignKeys : Bool := false
  /-- The words that remove a foreign key. -/
  dropForeignKey : String := "drop constraint"
  /-- Triggers look after the large objects of a row. -/
  largeObjectTriggers : Bool := false
  /-- The clause with the type of a sequence. -/
  sequenceType : Kind → String := fun _ => ""

end SqlCompiler
