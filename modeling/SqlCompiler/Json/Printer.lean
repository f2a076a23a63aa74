import SqlCompiler.Json.Basic
import SqlCompiler.Number.Shortest
import SqlCompiler.Text.Hex

/-!
# Writing JSON

The text of a document without blanks.  A floating-point number is written with a point or an
exponent, so that it is not taken for a whole number; one that is not finite has no text of its
own and is written as null, and so is a part without a value.
-/

set_option autoImplicit false
namespace SqlCompiler
namespace Json

/-- A character inside a string. -/
def charText (c : Char) : String :=
  if c = Char.ofNat 34 then "\\\""
  else if c = '\\' then "\\\\"
  else if c = '\n' then "\\n"
  else if c = '\r' then "\\r"
  else if c = '\t' then "\\t"
  else if c = Char.ofNat 8 then "\\b"
  else if c = Char.ofNat 12 then "\\f"
  else if c.toNat < 0x20 then "\\u" ++ Text.hexPadded 4 c.toNat
  else String.singleton c

/-- A string between quotation marks. -/
def stringText (s : String) : String :=
  "\"" ++ String.join (s.toList.map charText) ++ "\""

/-- A decimal written out in full if it has at most sixteen digits before its point and at most
four zeros right after it, and with one digit before the point and an exponent otherwise. -/
def decimalText (s : Number.Scientific) : String :=
  let digits := (toString s.digits).toList
  let point := digits.length + s.exponent
  if -5 < point ∧ point ≤ 16 then
    s.positional ++ (if 0 ≤ s.exponent then ".0" else "")
  else
    String.ofList (digits.take 1) ++ (if digits.length = 1 then "" else ".")
      ++ String.ofList (digits.drop 1) ++ "e" ++ toString (point - 1)

/-- A floating-point number. -/
def floatText (x : Number.Double) : String :=
  match x.classify with
  | .finite negative significand exponent =>
    let magnitude :=
      if significand = 0 then "0.0" else decimalText (Number.shortest .double significand exponent)
    (if negative then "-" else "") ++ magnitude
  | _ => "null"

mutual
/-- The text of a document. -/
def text : Json → String
  | null | unread => "null"
  | bool b => if b then "true" else "false"
  | int n => toString n
  | float x => floatText x
  | string s => stringText s
  | array items => "[" ++ ",".intercalate (itemTexts items) ++ "]"
  | object members => "\x7b" ++ ",".intercalate (memberTexts members) ++ "\x7d"

/-- The texts of the items of an array. -/
def itemTexts : List Json → List String
  | [] => []
  | j :: js => j.text :: itemTexts js

/-- The texts of the members of an object. -/
def memberTexts : List (String × Json) → List String
  | [] => []
  | (name, j) :: js => (stringText name ++ ":" ++ j.text) :: memberTexts js
end

end Json
end SqlCompiler
