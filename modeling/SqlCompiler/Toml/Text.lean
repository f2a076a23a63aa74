import SqlCompiler.Text.Hex

/-!
# Texts in TOML

Blanks, comments and texts.  A text stands between quotation marks, with escapes, or between
apostrophes, without them; between three of either it may go over several lines.  The readers take
a list of characters and answer what they have read together with the rest.
-/

set_option autoImplicit false
namespace SqlCompiler
namespace Toml

/-- The mark around texts with escapes. -/
def quotationMark : Char := Char.ofNat 34

/-- The mark around texts without escapes. -/
def apostrophe : Char := Char.ofNat 39

/-- A blank within a line. -/
def isBlank (c : Char) : Bool :=
  c == ' ' || c == '\t'

/-- Whether a character may stand in a text or a comment: no control character but a tab. -/
def isPlain (c : Char) : Bool :=
  c == '\t' || (0x20 ≤ c.toNat && c.toNat != 0x7F)

/-- Leaves out blanks. -/
def skipBlanks (cs : List Char) : List Char :=
  cs.dropWhile isBlank

/-- Reads the end of a line. -/
def newline? : List Char → Option (List Char)
  | '\n' :: cs => some cs
  | '\r' :: '\n' :: cs => some cs
  | _ => none

/-- Leaves out blanks and ends of lines. -/
def skipLines : List Char → List Char
  | [] => []
  | c :: cs =>
    if isBlank c || c == '\n' || (c == '\r' && cs.head? == some '\n') then skipLines cs else c :: cs

/-- Leaves out blanks, ends of lines and comments that end with a line, possibly from within a
comment. -/
def skipGaps : Bool → List Char → List Char
  | _, [] => []
  | inComment, c :: cs =>
    if c == '\n' || (c == '\r' && cs.head? == some '\n') then skipGaps false cs
    else if inComment then if isPlain c then skipGaps true cs else c :: cs
    else if isBlank c then skipGaps false cs
    else if c == '#' then skipGaps true cs
    else c :: cs

/-- Reads blanks and a comment to the end of the line or of the document. -/
def lineEnd? (cs : List Char) : Option (List Char) :=
  let rest := match skipBlanks cs with
    | '#' :: cs => cs.dropWhile isPlain
    | cs => cs
  if rest.isEmpty then some [] else newline? rest

/-! ## Escapes -/

/-- The character that an escape by a letter stands for. -/
def escaped? : Char → Option Char
  | 'b' => some (Char.ofNat 8)
  | 't' => some '\t'
  | 'n' => some '\n'
  | 'f' => some (Char.ofNat 12)
  | 'r' => some '\r'
  | '\\' => some '\\'
  | c => if c = quotationMark then some c else none

/-- Reads a code point of so many hexadecimal digits. -/
def codePoint? (width : Nat) (cs : List Char) : Option (Char × List Char) := do
  let digits := cs.take width
  if digits.length < width then none
  else
    let n ← Text.readHex? digits
    if Nat.isValidChar n then some (Char.ofNat n, cs.drop width) else none

/-- Reads an escape after its backslash. -/
def escape? : List Char → Option (Char × List Char)
  | 'u' :: cs => codePoint? 4 cs
  | 'U' :: cs => codePoint? 8 cs
  | c :: cs => (escaped? c).map fun e => (e, cs)
  | [] => none

/-! ## Texts -/

/-- Reads a text with escapes to its end, `fuel` being more than the number of characters. -/
def basicBody? : Nat → List Char → Option (List Char × List Char)
  | 0, _ => none
  | _, [] => none
  | fuel + 1, c :: cs =>
    if c = quotationMark then some ([], cs)
    else if c = '\\' then do
      let (e, cs) ← escape? cs
      let (text, rest) ← basicBody? fuel cs
      some (e :: text, rest)
    else if isPlain c then do
      let (text, rest) ← basicBody? fuel cs
      some (c :: text, rest)
    else none

/-- Reads a text without escapes to its end. -/
def literalBody? (cs : List Char) : Option (List Char × List Char) :=
  let isContent (c : Char) := isPlain c && c != apostrophe
  match cs.dropWhile isContent with
  | c :: rest => if c = apostrophe then some (cs.takeWhile isContent, rest) else none
  | [] => none

/-- Whether three marks stand here. -/
def isTriple (mark : Char) (cs : List Char) : Bool :=
  cs.take 3 == List.replicate 3 mark

/-- Reads the three marks at the end of a text over several lines, and up to two more before them
that belong to the text. -/
def closing? (mark : Char) (cs : List Char) : Option (List Char × List Char) :=
  if isTriple mark cs then
    let count := ((cs.take 5).takeWhile (· == mark)).length
    some (List.replicate (count - 3) mark, cs.drop count)
  else none

/-- Reads a text over several lines to its end, `fuel` being more than the number of characters.  An
end of a line is one character, and a backslash before it takes it away together with all blanks
and ends of lines that follow. -/
def longBody? (mark : Char) (escapes : Bool) : Nat → List Char → Option (List Char × List Char)
  | 0, _ => none
  | fuel + 1, cs =>
    match closing? mark cs, newline? cs, cs with
    | some closed, _, _ => some closed
    | none, some cs, _ => do
      let (text, rest) ← longBody? mark escapes fuel cs
      some ('\n' :: text, rest)
    | none, none, c :: cs =>
      if escapes && c == '\\' then
        match newline? (skipBlanks cs) with
        | some cs => longBody? mark escapes fuel (skipLines cs)
        | none => do
          let (e, cs) ← escape? cs
          let (text, rest) ← longBody? mark escapes fuel cs
          some (e :: text, rest)
      else if isPlain c then do
        let (text, rest) ← longBody? mark escapes fuel cs
        some (c :: text, rest)
      else none
    | none, none, [] => none

/-- Reads a text over several lines after its opening marks; an end of a line directly after them
does not belong to it. -/
def longText? (mark : Char) (escapes : Bool) (cs : List Char) : Option (List Char × List Char) :=
  longBody? mark escapes (cs.length + 1) ((newline? cs).getD cs)

/-- Reads a text on one line. -/
def shortText? : List Char → Option (String × List Char)
  | c :: cs =>
    let body :=
      if c = quotationMark then basicBody? (cs.length + 1) cs
      else if c = apostrophe then literalBody? cs
      else none
    body.map fun (text, rest) => (String.ofList text, rest)
  | [] => none

/-- Reads a text. -/
def text? (cs : List Char) : Option (String × List Char) :=
  let ofChars : List Char × List Char → String × List Char := fun (text, rest) =>
    (String.ofList text, rest)
  if isTriple quotationMark cs then (longText? quotationMark true (cs.drop 3)).map ofChars
  else if isTriple apostrophe cs then (longText? apostrophe false (cs.drop 3)).map ofChars
  else shortText? cs

end Toml
end SqlCompiler
