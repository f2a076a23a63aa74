import SqlCompiler.Json.Number
import SqlCompiler.Text.Hex

/-!
# Reading JSON

A text is cut into tokens one character at a time, and the tokens are put together to a tree with
a stack of the arrays and objects that are still open.  Both steps are folds over a list.  A text
that is not well formed is refused; a part that is well formed but has no value is kept as such.

## What is here

* `Json.Token` and `Json.Lexer` — tokens, and the machine that finds them.
* `Json.Builder` — the machine that puts tokens together.
* `Json.read?` — a whole document.
-/

set_option autoImplicit false
namespace SqlCompiler
namespace Json

/-- A token. -/
inductive Token where
  | openObject
  | closeObject
  | openArray
  | closeArray
  | colon
  | comma
  /-- A number or word that is a value by itself. -/
  | value (j : Json)
  /-- A string, if it is a text. -/
  | text (s : Option String)

/-- What the lexer is in the middle of, with the characters read so far, the last one first. -/
inductive Lexer where
  | between
  | word (read : List Char)
  | number (read : List Char)
  /-- A string; `high` is the first half of a pair of escapes, if one is open, and `sound` tells
  whether all pairs so far were whole. -/
  | string (read : List Char) (high : Option Nat) (sound : Bool)
  /-- A string, after a backslash. -/
  | escape (read : List Char) (high : Option Nat) (sound : Bool)
  /-- A string, within an escape by a code point of four digits. -/
  | code (read : List Char) (high : Option Nat) (sound : Bool) (digits : List Char)

namespace Lexer

/-- The word or number that ends here, if one does. -/
def finish? : Lexer → Option (List Token)
  | between => some []
  | word read =>
    match String.ofList read.reverse with
    | "true" => some [.value (.bool true)]
    | "false" => some [.value (.bool false)]
    | "null" => some [.value .null]
    | _ => none
  | number read =>
    (NumberText.read? read.reverse).map fun t => [.value ((ofNumberText? t).getD .unread)]
  | _ => none

/-- Whether a character can belong to a number. -/
def isNumberChar (c : Char) : Bool :=
  c.isDigit || c == '-' || c == '+' || c == '.' || c == 'e' || c == 'E'

/-- A token that is one mark. -/
def mark? : Char → Option Token
  | '\x7b' => some .openObject
  | '\x7d' => some .closeObject
  | '[' => some .openArray
  | ']' => some .closeArray
  | ':' => some .colon
  | ',' => some .comma
  | _ => none

/-- Reads a character between tokens. -/
def start? (c : Char) : Option (List Token × Lexer) :=
  if c = ' ' ∨ c = '\t' ∨ c = '\n' ∨ c = '\r' then some ([], between)
  else if c = Char.ofNat 34 then some ([], string [] none true)
  else if c.isAlpha then some ([], word [c])
  else if c.isDigit || c == '-' then some ([], number [c])
  else (mark? c).map fun t => ([t], between)

/-- The character that an escape by a letter stands for. -/
def escaped? : Char → Option Char
  | '\\' => some '\\'
  | '/' => some '/'
  | 'b' => some (Char.ofNat 8)
  | 'f' => some (Char.ofNat 12)
  | 'n' => some '\n'
  | 'r' => some '\r'
  | 't' => some '\t'
  | c => if c = Char.ofNat 34 then some c else none

/-- Ends an escape by a code point: a character, or half of a pair. -/
def endCode (read : List Char) (high : Option Nat) (sound : Bool) (n : Nat) : Lexer :=
  let isLow := 0xDC00 ≤ n ∧ n ≤ 0xDFFF
  match high with
  | some h =>
    if isLow then
      string (Char.ofNat (0x10000 + (h - 0xD800) * 0x400 + (n - 0xDC00)) :: read) none sound
    else string read none false
  | none =>
    if 0xD800 ≤ n ∧ n ≤ 0xDBFF then string read (some n) sound
    else if isLow then string read none false
    else string (Char.ofNat n :: read) none sound

/-- Reads one character; answers the tokens that end with it. -/
def step? (l : Lexer) (c : Char) : Option (List Token × Lexer) :=
  match l with
  | between => start? c
  | word read =>
    if c.isAlpha then some ([], word (c :: read))
    else do
      let done ← finish? l
      let (tokens, next) ← start? c
      some (done ++ tokens, next)
  | number read =>
    if isNumberChar c then some ([], number (c :: read))
    else do
      let done ← finish? l
      let (tokens, next) ← start? c
      some (done ++ tokens, next)
  | string read high sound =>
    if c = '\\' then some ([], escape read high sound)
    else
      let sound := sound && high.isNone
      if c = Char.ofNat 34 then
        some ([.text (if sound then some (String.ofList read.reverse) else none)], between)
      else if c.toNat < 0x20 then none
      else some ([], string (c :: read) none sound)
  | escape read high sound =>
    if c = 'u' then some ([], code read high sound [])
    else (escaped? c).map fun e => ([], string (e :: read) none (sound && high.isNone))
  | code read high sound digits =>
    if (Text.hexValue? c).isNone then none
    else if digits.length < 3 then some ([], code read high sound (c :: digits))
    else (Text.readHex? (c :: digits).reverse).map fun n => ([], endCode read high sound n)

/-- The tokens of a text, the last one first, and the state after it. -/
def run? (cs : List Char) : Option (List Token × Lexer) :=
  cs.foldlM (fun (tokens, l) c => do
    let (new, l) ← step? l c
    some (new.reverse ++ tokens, l)) ([], between)

end Lexer

/-- The tokens of a text. -/
def tokens? (s : String) : Option (List Token) := do
  let (tokens, l) ← Lexer.run? s.toList
  let last ← l.finish?
  some (tokens.reverse ++ last)

/-- An array or object that is still open, with its contents so far, the last one first; an object
is sound if all its names are texts. -/
inductive Frame where
  | array (items : List Json)
  | object (members : List (String × Json)) (key : String) (sound : Bool)

/-- What may come next. -/
inductive Expected where
  | value
  | valueOrEnd
  | keyOrEnd
  | key
  | colon
  | commaOrEnd
  | nothing
deriving DecidableEq

/-- A document in the making. -/
structure Builder where
  frames : List Frame := []
  expected : Expected := .value
  result : Json := .null

namespace Builder

/-- How deeply arrays and objects may be nested to have a value. -/
def maxDepth : Nat := 127

/-- Puts a finished value in its place. -/
def add (b : Builder) (j : Json) : Builder :=
  match b.frames with
  | [] => ⟨[], .nothing, j⟩
  | .array items :: rest => ⟨.array (j :: items) :: rest, .commaOrEnd, b.result⟩
  | .object members key sound :: rest =>
    ⟨.object ((key, j) :: members) "" sound :: rest, .commaOrEnd, b.result⟩

/-- Opens an array or an object. -/
def nest (b : Builder) (frame : Frame) (expected : Expected) : Builder :=
  ⟨frame :: b.frames, expected, b.result⟩

/-- Puts a finished array or object in its place, where it has a value if it is sound and there are
fewer than `maxDepth` others around it. -/
def close (b : Builder) (rest : List Frame) (sound : Bool) (j : Json) : Builder :=
  let isNear := (rest.drop (maxDepth - 1)).isEmpty
  { b with frames := rest }.add (if sound && isNear then j else .unread)

/-- Closes an array. -/
def closeArray? (b : Builder) : Option Builder :=
  match b.frames with
  | .array items :: rest => some (b.close rest true (.array items.reverse))
  | _ => none

/-- Closes an object. -/
def closeObject? (b : Builder) : Option Builder :=
  match b.frames with
  | .object members _ sound :: rest => some (b.close rest sound (.object members.reverse))
  | _ => none

/-- Goes on after a comma. -/
def comma? (b : Builder) : Option Builder :=
  match b.frames with
  | .array _ :: _ => some { b with expected := .value }
  | .object .. :: _ => some { b with expected := .key }
  | [] => none

/-- Takes the name of the next member. -/
def key? (b : Builder) (name : Option String) : Option Builder :=
  match b.frames with
  | .object members _ sound :: rest =>
    some ⟨.object members (name.getD "") (sound && name.isSome) :: rest, .colon, b.result⟩
  | _ => none

/-- Takes one token. -/
def step? (b : Builder) (t : Token) : Option Builder :=
  match b.expected, t with
  | .value, .value j | .valueOrEnd, .value j => some (b.add j)
  | .value, .text s | .valueOrEnd, .text s => some (b.add ((s.map .string).getD .unread))
  | .value, .openArray | .valueOrEnd, .openArray => some (b.nest (.array []) .valueOrEnd)
  | .value, .openObject | .valueOrEnd, .openObject => some (b.nest (.object [] "" true) .keyOrEnd)
  | .valueOrEnd, .closeArray => b.closeArray?
  | .keyOrEnd, .text s | .key, .text s => b.key? s
  | .keyOrEnd, .closeObject => b.closeObject?
  | .colon, .colon => some { b with expected := .value }
  | .commaOrEnd, .comma => b.comma?
  | .commaOrEnd, .closeArray => b.closeArray?
  | .commaOrEnd, .closeObject => b.closeObject?
  | _, _ => none

end Builder

/-- Puts tokens together to a document. -/
def ofTokens? (tokens : List Token) : Option Json := do
  let b ← tokens.foldlM Builder.step? {}
  if b.expected = .nothing then some b.result else none

/-- Reads a document. -/
def read? (s : String) : Option Json :=
  (tokens? s).bind ofTokens?

end Json
end SqlCompiler
