import SqlCompiler.Text.Hex

/-!
# Universally unique identifiers

Sixteen bytes, kept as one 128-bit number.  The written form is lower-case and hyphenated.  Four
forms are read, in either case: thirty-two plain digits, the hyphenated form, and the hyphenated
form in braces or after `urn:uuid:`.
-/

set_option autoImplicit false
namespace SqlCompiler

/-- A universally unique identifier. -/
structure Uuid where
  value : BitVec 128
deriving DecidableEq

namespace Uuid

/-- The lengths of the five groups of the hyphenated form. -/
def groups : List Nat := [8, 4, 4, 4, 12]

/-- Puts a hyphen between groups of the given lengths. -/
def hyphenate : List Nat → List Char → List Char
  | [], cs => cs
  | [_], cs => cs
  | n :: ns, cs => cs.take n ++ '-' :: hyphenate ns (cs.drop n)

/-- Removes the hyphens between groups of the given lengths, if they stand where they should. -/
def unhyphenate? : List Nat → List Char → Option (List Char)
  | [], cs => if cs.isEmpty then some [] else none
  | [n], cs => if cs.length = n then some cs else none
  | n :: ns, cs =>
    match cs.drop n with
    | '-' :: rest => (unhyphenate? ns rest).map (cs.take n ++ ·)
    | _ => none

/-- The lower-case hyphenated form. -/
def text (u : Uuid) : String :=
  String.ofList (hyphenate groups (Text.hexDigits 32 u.value.toNat))

/-- Reads thirty-two hexadecimal digits. -/
def readPlain? (cs : List Char) : Option Uuid :=
  if cs.length = 32 then (Text.readHex? cs).map fun n => ⟨BitVec.ofNat 128 n⟩ else none

/-- Reads the hyphenated form. -/
def readHyphenated? (cs : List Char) : Option Uuid :=
  (unhyphenate? groups cs).bind readPlain?

/-- What stands before an identifier that is a uniform resource name. -/
def urn : List Char := "urn:uuid:".toList

/-- Reads any of the four forms. -/
def read? (s : String) : Option Uuid :=
  let cs := s.toList
  match cs with
  | '\x7b' :: rest =>
    if rest.getLast? = some '\x7d' then readHyphenated? rest.dropLast else none
  | _ =>
    if (cs.take 9).map Char.toLower = urn then readHyphenated? (cs.drop 9)
    else if cs.length = 32 then readPlain? cs
    else readHyphenated? cs

end Uuid
end SqlCompiler
