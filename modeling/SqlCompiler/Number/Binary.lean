/-!
# Binary floating-point formats

Floating-point values are kept as bit patterns.  Two of them are equal when their bits are, so a
NaN equals itself, and the two zeros differ; that is what makes equality of values an equivalence.
All arithmetic here is exact arithmetic on naturals: a finite pattern stands for
`significand * 2 ^ exponent`, and a positive rational is rounded to the nearest pattern, a tie
going to the even one.

## What is here

* `Format` — the widths of a binary interchange format, with `Format.single` and `Format.double`;
  `Format.classify` says what a pattern stands for.
* `Format.nearest num den` — the pattern nearest to `num / den`, saturating at infinity.
* `Single`, `Double` — 32-bit and 64-bit values, with `Single.toDouble`, `Double.toSingle` and the
  conversions from integers.
-/

set_option autoImplicit false
namespace SqlCompiler
namespace Number

/-- A binary interchange format, given by the widths of its stored fraction and exponent. -/
structure Format where
  fractionBits : Nat
  exponentBits : Nat
deriving DecidableEq, Repr

/-- What a bit pattern stands for; a finite one is `± significand * 2 ^ exponent`. -/
inductive Class where
  | nan
  | infinite (negative : Bool)
  | finite (negative : Bool) (significand : Nat) (exponent : Int)
deriving DecidableEq, Repr

/-- The quotient of two naturals, rounded to the nearest integer; a tie goes to the even one. -/
def roundQuotient (num den : Nat) : Nat :=
  let quotient := num / den
  let remainder := num % den
  if den < 2 * remainder ∨ (2 * remainder = den ∧ quotient % 2 = 1) then quotient + 1 else quotient

/-- The greatest `k` with `2 ^ k ≤ num / den`, for positive `num` and `den`. -/
def floorLog2 (num den : Nat) : Int :=
  let guess : Int := (Nat.log2 num : Int) - (Nat.log2 den : Int)
  if den <<< guess.toNat ≤ num <<< (-guess).toNat then guess else guess - 1

namespace Format

/-- Thirty-two bits: 23 of fraction and 8 of exponent. -/
def single : Format := ⟨23, 8⟩

/-- Sixty-four bits: 52 of fraction and 11 of exponent. -/
def double : Format := ⟨52, 11⟩

/-- The weight of the bit before the fraction, which normal values have and no pattern stores. -/
def hiddenBit (f : Format) : Nat :=
  1 <<< f.fractionBits

/-- The least positive value of the format is `2 ^ minExponent`. -/
def minExponent (f : Format) : Int :=
  2 - ((1 <<< (f.exponentBits - 1) : Nat) : Int) - f.fractionBits

/-- The pattern of positive infinity. -/
def infinity (f : Format) : Nat :=
  (1 <<< f.exponentBits - 1) * f.hiddenBit

/-- The weight of the sign bit. -/
def signBit (f : Format) : Nat :=
  1 <<< (f.exponentBits + f.fractionBits)

/-- What a pattern stands for. -/
def classify (f : Format) (bits : Nat) : Class :=
  let negative := bits / f.signBit % 2 == 1
  let magnitude := bits % f.signBit
  if f.infinity < magnitude then .nan
  else if magnitude = f.infinity then .infinite negative
  else
    let biased := magnitude >>> f.fractionBits
    let fraction := magnitude % f.hiddenBit
    if biased = 0 then .finite negative fraction f.minExponent
    else .finite negative (fraction + f.hiddenBit) (f.minExponent + biased - 1)

/-- The unsigned pattern nearest to `num / den`.  Consecutive patterns are consecutive naturals,
so a significand that rounds up to the next power of two carries into the exponent by itself. -/
def nearest (f : Format) (num den : Nat) : Nat :=
  if num = 0 then 0
  else
    let exponent := max f.minExponent (floorLog2 num den - f.fractionBits)
    let significand := roundQuotient (num <<< (-exponent).toNat) (den <<< exponent.toNat)
    min f.infinity ((exponent - f.minExponent).toNat * f.hiddenBit + significand)

/-- A signed pattern from a sign and an unsigned one. -/
def withSign (f : Format) (negative : Bool) (magnitude : Nat) : Nat :=
  if negative then f.signBit + magnitude else magnitude

/-- The pattern of a quiet NaN that keeps the payload bits `payload`. -/
def quietNaN (f : Format) (negative : Bool) (payload : Nat) : Nat :=
  f.withSign negative (f.infinity + (f.hiddenBit / 2 ||| payload % f.hiddenBit))

/-- The same value in another format, rounded to nearest where that format is narrower.  A NaN
keeps the leading bits of its payload. -/
def convert (source target : Format) (bits : Nat) : Nat :=
  let negative := bits / source.signBit % 2 == 1
  match source.classify bits with
  | .nan =>
    let payload := bits % source.hiddenBit
    target.quietNaN negative (payload * target.hiddenBit / source.hiddenBit)
  | .infinite negative => target.withSign negative target.infinity
  | .finite negative significand exponent =>
    target.withSign negative
      (target.nearest (significand <<< exponent.toNat) (1 <<< (-exponent).toNat))

/-- The pattern nearest to an integer. -/
def ofInt (f : Format) (n : Int) : Nat :=
  f.withSign (decide (n < 0)) (f.nearest n.natAbs 1)

end Format

/-- A 32-bit floating-point value, kept as its bit pattern. -/
structure Single where
  bits : UInt32
deriving DecidableEq, Repr

/-- A 64-bit floating-point value, kept as its bit pattern. -/
structure Double where
  bits : UInt64
deriving DecidableEq, Repr

namespace Single

/-- The value nearest to an integer. -/
def ofInt (n : Int) : Single :=
  ⟨UInt32.ofNat (Format.single.ofInt n)⟩

/-- What the value is. -/
def classify (x : Single) : Class :=
  Format.single.classify x.bits.toNat

/-- The same value with 64 bits; every 32-bit value has one. -/
def toDouble (x : Single) : Double :=
  ⟨UInt64.ofNat (Format.convert .single .double x.bits.toNat)⟩

end Single

namespace Double

/-- The value nearest to an integer. -/
def ofInt (n : Int) : Double :=
  ⟨UInt64.ofNat (Format.double.ofInt n)⟩

/-- What the value is. -/
def classify (x : Double) : Class :=
  Format.double.classify x.bits.toNat

/-- The nearest value with 32 bits. -/
def toSingle (x : Double) : Single :=
  ⟨UInt32.ofNat (Format.convert .double .single x.bits.toNat)⟩

/-- Whether the value is neither infinite nor a NaN. -/
def isFinite (x : Double) : Bool :=
  match x.classify with
  | .finite .. => true
  | _ => false

end Double

end Number
end SqlCompiler
