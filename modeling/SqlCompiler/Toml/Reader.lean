import SqlCompiler.Toml.Scalar

/-!
# Reading TOML

A document is read line by line.  A line gives a value to a name, which may be several names with
dots between them, or is the header of the table that the following lines belong to.  Values are
plain ones, arrays, which may go over several lines, and tables on one line.

## What is here

* `Toml.names?` — a name with dots.
* `Toml.value?` — a value.
* `Toml.read?` — a whole document.
-/

set_option autoImplicit false
namespace SqlCompiler
namespace Toml

/-- How many arrays and tables can stand around a value, and how many parts a name can have. -/
def maxDepth : Nat := 79

/-! ## Names -/

/-- Whether a character can belong to a name without marks. -/
def isNameChar (c : Char) : Bool :=
  c.isAlphanum || c == '_' || c == '-'

/-- Reads one name, bare or as a text. -/
def name? (cs : List Char) : Option (String × List Char) :=
  let bare := cs.takeWhile isNameChar
  if bare.isEmpty then shortText? cs else some (String.ofList bare, cs.dropWhile isNameChar)

/-- Reads a name of at most so many parts, with dots and any blanks between them. -/
def namesWithin? : Nat → List Char → Option (List String × List Char)
  | 0, _ => none
  | parts + 1, cs => do
    let (name, cs) ← name? (skipBlanks cs)
    match skipBlanks cs with
    | '.' :: cs =>
      let (names, rest) ← namesWithin? parts cs
      some (name :: names, rest)
    | cs => some ([name], cs)

/-- Reads a name, with blanks around it. -/
def names? (cs : List Char) : Option (List String × List Char) :=
  namesWithin? maxDepth cs

/-! ## Values -/

section
variable (item : List Char → Option (Toml × List Char))

/-- Reads the items of an array and its end, `fuel` being more than the number of characters. -/
def items? : Nat → List Char → Option (List Toml × List Char)
  | 0, _ => none
  | fuel + 1, cs =>
    match skipGaps false cs with
    | ']' :: rest => some ([], rest)
    | cs => do
      let (v, cs) ← item cs
      match skipGaps false cs with
      | ',' :: cs =>
        let (items, rest) ← items? fuel cs
        some (v :: items, rest)
      | ']' :: rest => some ([v], rest)
      | _ => none

/-- Reads a name, an equals sign and a value. -/
def pair? (cs : List Char) : Option ((List String × Toml) × List Char) := do
  let (names, cs) ← names? cs
  let (v, rest) ← item (skipBlanks (← mark? '=' cs))
  some ((names, v), rest)

/-- Reads the members of a table on one line and its end, `fuel` being more than the number of
characters; there has to be one. -/
def pairs? : Nat → List Char → Option (List (List String × Toml) × List Char)
  | 0, _ => none
  | fuel + 1, cs => do
    let (pair, cs) ← pair? item cs
    match skipBlanks cs with
    | ',' :: cs =>
      let (pairs, rest) ← pairs? fuel cs
      some (pair :: pairs, rest)
    | '\x7d' :: rest => some ([pair], rest)
    | _ => none

/-- Reads a table on one line after its opening brace. -/
def inlineTable? (cs : List Char) : Option (Toml × List Char) := do
  let (pairs, rest) ← match skipBlanks cs with
    | '\x7d' :: rest => some ([], rest)
    | _ => pairs? item (cs.length + 1) cs
  let members ← pairs.foldlM (fun members (names, v) => assign? names v .value members) []
  some (.table .value members, rest)

end

/-- Reads a value with at most so many arrays and tables inside one another. -/
def valueWithin? : Nat → List Char → Option (Toml × List Char)
  | 0, cs => plain? cs
  | levels + 1, cs =>
    match cs with
    | '[' :: cs => (items? (valueWithin? levels) (cs.length + 1) cs).map fun (items, rest) =>
        (.array items, rest)
    | '\x7b' :: cs => inlineTable? (valueWithin? levels) cs
    | cs => plain? cs

/-- Reads a value. -/
def value? (cs : List Char) : Option (Toml × List Char) :=
  valueWithin? maxDepth cs

/-! ## Documents -/

/-- A document in the making, and the name of the table that lines belong to. -/
structure Document where
  members : Members := []
  current : List String := []

namespace Document

/-- Reads a header after its opening bracket. -/
def header? (d : Document) (cs : List Char) : Option (Document × List Char) :=
  match cs with
  | '[' :: cs => do
    let (names, cs) ← names? cs
    let rest ← lineEnd? (← mark? ']' (← mark? ']' cs))
    some (⟨← addElement? names d.members, names⟩, rest)
  | cs => do
    let (names, cs) ← names? cs
    let rest ← lineEnd? (← mark? ']' cs)
    some (⟨← addTable? names d.members, names⟩, rest)

/-- Reads a line that gives a value to a name. -/
def assignment? (d : Document) (cs : List Char) : Option (Document × List Char) := do
  let ((names, v), cs) ← Toml.pair? value? cs
  let rest ← lineEnd? cs
  let members ← within? false (assign? names v) d.current .header d.members
  some ({ d with members }, rest)

/-- Reads one line. -/
def line? (d : Document) (cs : List Char) : Option (Document × List Char) :=
  match skipBlanks cs with
  | '[' :: cs => d.header? cs
  | cs =>
    if cs.isEmpty || cs.head?.any (fun c => c == '#' || c == '\n' || c == '\r') then
      (lineEnd? cs).map fun rest => (d, rest)
    else d.assignment? cs

/-- Reads all lines, `fuel` being more than the number of characters. -/
def lines? : Nat → Document → List Char → Option Document
  | _, d, [] => some d
  | 0, _, _ => none
  | fuel + 1, d, cs => do
    let (d, rest) ← d.line? cs
    lines? fuel d rest

end Document

/-- Reads a document; a byte order mark may stand before it. -/
def read? (s : String) : Option Members :=
  let cs := match s.toList with
    | '\ufeff' :: cs => cs
    | cs => cs
  (Document.lines? (cs.length + 1) {} cs).map Document.members

end Toml
end SqlCompiler
