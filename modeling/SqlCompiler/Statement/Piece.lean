import SqlCompiler.Dialect.Basic

/-!
# Pieces of a statement

A statement is a list of pieces: words of the language, names still to be quoted, constants, and
placeholders together with what is bound to them.  The text of a statement is what its pieces
write, one after the other.

## What is here

* `Setter` — what is bound to a placeholder, with `Setter.bind`.
* `Qualifier` — what stands before the dot of a column.
* `Piece`, with `Piece.text`, and `Piece.setters` — the setters of a list of pieces.
-/

set_option autoImplicit false
namespace SqlCompiler

/-- Where the value of a placeholder comes from. -/
inductive Source where
  /-- A constant, known when the statement is built. -/
  | constant (v : Value)
  /-- The argument at a position, known when the statement is run. -/
  | argument (index : Nat)
deriving DecidableEq

/-- What is bound to a placeholder: a value for a column type. -/
structure Setter where
  column : ColumnType
  source : Source
deriving DecidableEq

namespace Setter

/-- The kind of the placeholder. -/
def kind (s : Setter) : Kind :=
  s.column.kind

/-- Binds the value of the placeholder, given the arguments of the statement. -/
def bind (s : Setter) (arguments : List Value) : Bind Unit :=
  match s.source with
  | .constant v => s.column.setOption (some v)
  | .argument index =>
    match arguments[index]? with
    | some v => s.column.setOption (some v)
    | none => throw (.malformed (.missingArgument index arguments.length))

end Setter

/-- What stands before the dot of a column. -/
inductive Qualifier where
  /-- The numbered alias of a generator. -/
  | numbered (number : Nat)
  /-- The quoted name of a table. -/
  | table (name : String)
  /-- A text as it is. -/
  | verbatim (text : String)
deriving DecidableEq, Repr

/-- The text of a qualifier. -/
def Qualifier.text (quote : Text.Quote) : Qualifier → String
  | numbered number => "x" ++ toString number
  | table name => quote.write name
  | verbatim text => text

/-- A piece of a statement. -/
inductive Piece where
  /-- Words and marks of the language. -/
  | words (text : String)
  /-- A name, to be quoted. -/
  | name (name : String)
  /-- A name, quoted inside a text constant. -/
  | nameText (name : String)
  | qualifier (q : Qualifier)
  /-- A constant in the text of the statement. -/
  | constant (text : String)
  /-- A placeholder with what is bound to it. -/
  | placeholder (setter : Setter)
  /-- A placeholder for a column of the row to be written. -/
  | input
deriving DecidableEq

namespace Piece

/-- The text of a piece, given the quotation marks for names. -/
def text (quote : Text.Quote) : Piece → String
  | words text => text
  | name n => quote.write n
  | nameText n => Value.quoteText (quote.write n)
  | qualifier q => q.text quote
  | constant text => text
  | placeholder _ => "?"
  | input => "?"

/-- The setter of a piece, if it is a placeholder that has one. -/
def setter? : Piece → Option Setter
  | placeholder setter => some setter
  | _ => none

/-- The text of a list of pieces. -/
def joined (quote : Text.Quote) (pieces : List Piece) : String :=
  String.join (pieces.map (text quote))

/-- The setters of a list of pieces, in the order of their placeholders. -/
def setters (pieces : List Piece) : List Setter :=
  pieces.filterMap setter?

/-- Lists of pieces with a piece between any two of them. -/
def separated (separator : Piece) : List (List Piece) → List Piece
  | [] => []
  | [pieces] => pieces
  | pieces :: rest => pieces ++ separator :: separated separator rest

end Piece
end SqlCompiler
