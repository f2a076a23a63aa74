import SqlCompiler.Function
import SqlCompiler.Scalar.Kind
import SqlCompiler.Symbol

/-!
# Errors

Why a query cannot be compiled or a value not be read or written.  An error is its cause; the
wording is given once, by `Error.message`.

## What is here

* `Fault` — what is wrong with a tree, a layout or the arguments of a statement.
* `Construct` — what a dialect cannot write.
* `ConfigFault`, `FileFault` — what is wrong with a configuration or a file.
* `Error` and `Error.message`.
-/

set_option autoImplicit false
namespace SqlCompiler

/-- What is wrong with a query, a layout or the arguments of a statement. -/
inductive Fault where
  /-- A query binds a symbol twice. -/
  | boundTwice (symbol : Symbol)
  /-- A symbol is referenced where nothing binds it. -/
  | outOfScope (symbol : Symbol)
  /-- A symbol has no alias at the moment it is written. -/
  | unbound (symbol : Symbol)
  /-- A function is applied to a number of arguments that it does not take. -/
  | argumentCount (function : Function) (count : Nat)
  /-- Without a projection there has to be exactly one generator. -/
  | noProjection (generators : Nat)
  /-- A case expression without a branch. -/
  | emptyCase
  /-- The argument of an existence test is a node of another shape. -/
  | notASubquery (shape : String)
  /-- A large object as inline text. -/
  | inlineLargeObject
  /-- A statement's argument was not supplied. -/
  | missingArgument (index supplied : Nat)
  /-- The number of rows to fetch and to skip do not fit together. -/
  | pageOverflow (fetch offset : Nat)
  /-- A row number beyond the largest integer column. -/
  | rowBound (row : Nat)
  /-- A statement that needs exactly one table. -/
  | notOneTable (statement : String)
  /-- A statement that takes nothing but filters. -/
  | onlyFilters (statement : String)
  /-- A statement that writes something other than a column of its table. -/
  | notAColumn (statement shape : String)
  /-- An update without columns to set. -/
  | nothingToSet
  /-- An insert without columns. -/
  | nothingToInsert
  /-- A record layout without fields. -/
  | emptyRecord
  /-- A value of the wrong shape for its layout. -/
  | wrongShape (expected got : String)
  /-- A layout's column differs from the projected one. -/
  | columnMismatch (position : Nat)
  /-- A caller's own transformation refused a node. -/
  | refused (reason : String)
deriving DecidableEq, Repr

/-- What a dialect cannot write. -/
inductive Construct where
  | rowNumber
  | inlineBlob
  | generatorSource (shape : String)
  | expression (shape : String)
  | pagingWithoutProjection
  | pagingWholeRow
  /-- Anything else, in the caller's words. -/
  | described (what : String)
deriving DecidableEq, Repr

/-- What is wrong with a configuration. -/
inductive ConfigFault where
  | unknownDialect (name : String)
  /-- The text of the configuration cannot be read. -/
  | unreadable
deriving DecidableEq, Repr

/-- Why a file cannot be read. -/
inductive FileFault where
  | notFound
  | notADirectory
  | isADirectory
  /-- Any other failure, with the operating system's words. -/
  | other (description : String)
deriving DecidableEq, Repr

/-- Why an operation failed. -/
inductive Error where
  /-- A node was given the wrong number of children. -/
  | childCount (shape : String) (expected got : Nat)
  | malformed (fault : Fault)
  | unsupported (construct : Construct) (dialect : String)
  | lacking (capability : Capability) (dialect : String)
  /-- A number of columns differs from the one expected. -/
  | columnCount (expected got : Nat)
  /-- A record layout is wider than records may be. -/
  | recordTooWide (arity limit : Nat)
  | typeMismatch (expected : Kind) (found : String)
  /-- A null where a value is required. -/
  | unexpectedNull (position : Nat)
  | config (fault : ConfigFault)
  | file (fault : FileFault)
deriving DecidableEq, Repr

/-- The wording of a fault. -/
def Fault.message : Fault → String
  | boundTwice s => "symbol " ++ s.text ++ " is bound twice in one comprehension"
  | outOfScope s => "symbol " ++ s.text ++ " is referenced outside the scope that binds it"
  | unbound s => "symbol " ++ s.text ++ " has no binding in scope"
  | argumentCount f count =>
    f.text ++ " expects " ++ f.arity.text ++ " arguments, got " ++ toString count
  | noProjection generators =>
    "a comprehension without a projection needs exactly one generator, found "
      ++ toString generators
  | emptyCase => "case expression without a when clause"
  | notASubquery shape => "exists expects a subquery, got " ++ shape
  | inlineLargeObject => "large object values cannot be inlined; bind them as parameters"
  | missingArgument index supplied =>
    "query parameter #" ++ toString index ++ " missing: " ++ toString supplied
      ++ " arguments supplied"
  | pageOverflow fetch offset =>
    "fetch " ++ toString fetch ++ " plus offset " ++ toString offset ++ " overflows"
  | rowBound row => "row bound " ++ toString row ++ " exceeds BIGINT"
  | notOneTable statement => statement ++ " needs a comprehension over exactly one table"
  | onlyFilters statement => statement ++ " supports only filters on its table"
  | notAColumn statement shape =>
    statement ++ " can only write plain columns of its table, got " ++ shape
  | nothingToSet => "update needs a projection of the columns to set"
  | nothingToInsert => "insert without columns"
  | emptyRecord => "a record needs at least one field"
  | wrongShape expected got => "expected a " ++ expected ++ " value, got a " ++ got
  | columnMismatch position =>
    "linearized column " ++ toString position ++ " does not match the projected column"
  | refused reason => reason

/-- The wording of a construct. -/
def Construct.text : Construct → String
  | rowNumber => "row_number"
  | inlineBlob => "inline Blob literal"
  | generatorSource shape => shape ++ " as a generator source"
  | expression shape => shape ++ " in expression position"
  | pagingWithoutProjection => "offset paging without an explicit projection"
  | pagingWholeRow => "offset paging over a whole-row projection item"
  | described what => what

/-- The wording of a configuration's fault. -/
def ConfigFault.message : ConfigFault → String
  | unknownDialect name => "Configuration error: unknown dialect '" ++ name ++ "'"
  | unreadable => "Configuration error"

/-- The operating system's wording for a file that cannot be read. -/
def FileFault.message : FileFault → String
  | notFound => "No such file or directory (os error 2)"
  | notADirectory => "Not a directory (os error 20)"
  | isADirectory => "Is a directory (os error 21)"
  | other description => description

/-- The wording of an error. -/
def Error.message : Error → String
  | childCount shape expected got =>
    "Malformed rewrite of " ++ shape ++ ": expected " ++ toString expected ++ " children, got "
      ++ toString got
  | malformed fault => "Malformed query: " ++ fault.message
  | unsupported construct dialect =>
    "Unsupported construct for dialect " ++ dialect ++ ": " ++ construct.text
  | lacking capability dialect =>
    "Dialect " ++ dialect ++ " does not support capability '" ++ capability.name ++ "'"
  | columnCount expected got =>
    "Linearization arity mismatch: expected " ++ toString expected ++ " columns, got "
      ++ toString got
  | recordTooWide arity limit =>
    "Record arity " ++ toString arity ++ " exceeds the supported maximum of " ++ toString limit
  | typeMismatch expected found =>
    "Type mismatch: expected " ++ expected.name ++ ", found " ++ found
  | unexpectedNull position => "Unexpected NULL at column position " ++ toString position
  | config fault => fault.message
  | file fault => "IO error: " ++ fault.message

end SqlCompiler
