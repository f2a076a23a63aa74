import SqlCompiler.Json.Basic

/-!
# Numbers in JSON

A number without a fraction and an exponent is a whole number if it fits 64 bits; anything else is
a floating-point number.  The digits of a floating-point number make a significand of 64 bits, in
which digits that no longer fit are left out, and a power of ten.  Both are rounded to a double,
and so is the product or quotient of the two: the result can differ from the nearest double in the
last place.  A number that is too large is refused.
-/

set_option autoImplicit false
namespace SqlCompiler
namespace Json

/-- The parts of a number as it is written. -/
structure NumberText where
  negative : Bool
  whole : List Char
  /-- The digits after the point, if there is one. -/
  fraction : Option (List Char)
  /-- The exponent, if there is one. -/
  exponent : Option Int

namespace NumberText

/-- The natural that digits denote. -/
def digitsValue (cs : List Char) : Nat :=
  cs.foldl (fun n c => 10 * n + (c.toNat - '0'.toNat)) 0

/-- Reads the digits of an exponent, all there are. -/
def exponentDigits? (cs : List Char) : Option Nat :=
  if !cs.isEmpty && cs.all Char.isDigit then some (digitsValue cs) else none

/-- Reads an exponent after its mark. -/
def exponent? : List Char → Option Int
  | '-' :: cs => (exponentDigits? cs).map fun n => -(n : Int)
  | '+' :: cs => (exponentDigits? cs).map fun n => (n : Int)
  | cs => (exponentDigits? cs).map fun n => (n : Int)

/-- Whether digits may stand before the point: a zero only alone. -/
def isWhole (cs : List Char) : Bool :=
  match cs with
  | [] => false
  | ['0'] => true
  | c :: _ => c != '0'

/-- Reads what follows the digits before the point. -/
def rest? (negative : Bool) (whole : List Char) : List Char → Option NumberText
  | [] => some ⟨negative, whole, none, none⟩
  | '.' :: cs =>
    let fraction := cs.takeWhile Char.isDigit
    if fraction.isEmpty then none
    else
      match cs.dropWhile Char.isDigit with
      | [] => some ⟨negative, whole, some fraction, none⟩
      | c :: cs =>
        if c = 'e' ∨ c = 'E' then
          (exponent? cs).map fun e => ⟨negative, whole, some fraction, some e⟩
        else none
  | c :: cs =>
    if c = 'e' ∨ c = 'E' then (exponent? cs).map fun e => ⟨negative, whole, none, some e⟩
    else none

/-- Reads the parts of a number. -/
def read? (cs : List Char) : Option NumberText :=
  let (negative, cs) := match cs with
    | '-' :: cs => (true, cs)
    | cs => (false, cs)
  let whole := cs.takeWhile Char.isDigit
  if isWhole whole then rest? negative whole (cs.dropWhile Char.isDigit) else none

end NumberText

/-- A significand and a power of ten. -/
structure Scaled where
  significand : Nat
  exponent : Int

namespace Scaled

/-- Takes in digits while the significand has room for them; answers those left over. -/
def takeDigits : Nat → List Char → Nat × List Char
  | n, [] => (n, [])
  | n, c :: cs =>
    let next := 10 * n + (c.toNat - '0'.toNat)
    if next < UInt64.size then takeDigits next cs else (n, c :: cs)

/-- The significand and the power of ten that the parts of a number make. -/
def ofText (t : NumberText) : Scaled :=
  let (whole, left) := takeDigits 0 t.whole
  let fraction := t.fraction.getD []
  let (significand, lost) := takeDigits whole fraction
  let places := fraction.length - lost.length
  ⟨significand, (left.length : Int) - places + t.exponent.getD 0⟩

/-- A finite unsigned pattern as a fraction. -/
def fractionOf (bits : Nat) : Nat × Nat :=
  match Number.Format.double.classify bits with
  | .finite _ significand exponent =>
    (significand <<< exponent.toNat, 1 <<< (-exponent).toNat)
  | _ => (0, 1)

/-- The pattern of the product of two values, rounded. -/
def product (a b : Nat) : Nat :=
  let (x, y) := (fractionOf a, fractionOf b)
  Number.Format.double.nearest (x.1 * y.1) (x.2 * y.2)

/-- The pattern of the quotient of two values, rounded. -/
def quotient (a b : Nat) : Nat :=
  let (x, y) := (fractionOf a, fractionOf b)
  Number.Format.double.nearest (x.1 * y.2) (x.2 * y.1)

/-- The pattern of a power of ten, rounded. -/
def powerOfTen (n : Nat) : Nat :=
  Number.Format.double.nearest (Nat.pow 10 n) 1

/-- Multiplies a value by a power of ten, and fails if the result is too large.  A power beyond
`10 ^ 308` is divided by in steps; three of them leave nothing of a significand. -/
def scale (bits : Nat) (exponent : Int) : Nat → Option Nat
  | 0 => some 0
  | fuel + 1 =>
    if exponent.natAbs ≤ 308 then
      if 0 ≤ exponent then
        let result := product bits (powerOfTen exponent.toNat)
        if result = Number.Format.double.infinity then none else some result
      else some (quotient bits (powerOfTen exponent.natAbs))
    else if bits = 0 then some 0
    else if 0 ≤ exponent then none
    else scale (quotient bits (powerOfTen 308)) (exponent + 308) fuel

/-- The unsigned pattern of the value. -/
def bits? (s : Scaled) : Option Nat :=
  scale (Number.Format.double.nearest s.significand 1) s.exponent 4

end Scaled

/-- The double with a sign and an unsigned pattern. -/
def signed (negative : Bool) (bits : Nat) : Number.Double :=
  ⟨UInt64.ofNat (Number.Format.double.withSign negative bits)⟩

/-- A number from its parts. -/
def ofNumberText? (t : NumberText) : Option Json :=
  let whole : Nat := NumberText.digitsValue t.whole
  let isWhole := t.fraction.isNone && t.exponent.isNone
  let negated : Int := -whole
  if isWhole && !t.negative && whole < UInt64.size then some (int whole)
  else if isWhole && t.negative && 0 < whole && Int64.minValue.toInt ≤ negated then
    some (int negated)
  else (Scaled.ofText t).bits?.map fun bits => float (signed t.negative bits)

end Json
end SqlCompiler
