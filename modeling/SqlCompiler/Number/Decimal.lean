import SqlCompiler.Number.Shortest

/-!
# Fixed-point decimals

A decimal is a sign and a magnitude of at most 96 bits together with a scale of at most 28 decimal
places.  The scale is part of the value as it is written, so `1.10` keeps its zero, but not part of
the number: `Decimal.same` compares `1.0` and `1.00` as equal.  Neither is the sign of a zero, which
is written as well; no reader makes a zero with a minus sign, but the negation of a zero is one.
-/

set_option autoImplicit false
namespace SqlCompiler
namespace Number

/-- The greatest magnitude, ninety-six bits all set. -/
def maxMagnitude : Nat := 79228162514264337593543950335

/-- The greatest number of decimal places. -/
def maxScale : Nat := 28

/-- The number `magnitude / 10 ^ scale`, or its negation, written with `scale` decimal places. -/
structure Decimal where
  negative : Bool
  magnitude : Nat
  scale : Nat
  magnitude_le : magnitude ≤ maxMagnitude
  scale_le : scale ≤ maxScale
deriving DecidableEq

namespace Decimal

/-- The magnitude with its sign; zero has none. -/
def mantissa (d : Decimal) : Int :=
  if d.negative then -d.magnitude else d.magnitude

/-- The decimal with the given mantissa and scale, if both are within their limits. -/
def ofParts? (mantissa : Int) (scale : Nat) : Option Decimal :=
  if h : mantissa.natAbs ≤ maxMagnitude ∧ scale ≤ maxScale then
    some ⟨decide (mantissa < 0), mantissa.natAbs, scale, h.1, h.2⟩
  else none

/-- A 64-bit integer as a decimal without places. -/
def ofInt64 (n : Int64) : Decimal where
  negative := n.toInt < 0
  magnitude := n.toInt.natAbs
  scale := 0
  magnitude_le := by
    have lower := n.le_toInt
    have upper := n.toInt_lt
    unfold maxMagnitude
    omega
  scale_le := by decide

/-- Two decimals are the same number, whatever their scales. -/
def same (a b : Decimal) : Bool :=
  a.mantissa * Nat.pow 10 b.scale == b.mantissa * Nat.pow 10 a.scale

/-- The text of a decimal, with exactly `scale` places. -/
def text (d : Decimal) : String :=
  let digits := toString d.magnitude
  let padded := Scientific.zeros (d.scale + 1 - digits.length) ++ digits
  let whole := padded.length - d.scale
  let unsigned :=
    if d.scale = 0 then padded
    else String.ofList (padded.toList.take whole) ++ "."
      ++ String.ofList (padded.toList.drop whole)
  if d.negative then "-" ++ unsigned else unsigned

/-! ## Reading -/

/-- The digits of a mantissa go on as a word while there is certainly room for another one. -/
def wordLimit : Nat := 1844674407370954906

/-- What has been read of an unsigned decimal: the digits so far as one natural, the number of
places once a point has been seen, and whether there was a digit at all.  Once the digits are
rounded the decimal is closed, and nothing that follows counts. -/
structure Progress where
  digits : Nat := 0
  places : Option Nat := none
  started : Bool := false
  closed : Bool := false

namespace Progress

/-- Whether there are as many places as a decimal can have. -/
def isFull (p : Progress) : Bool :=
  p.places.any (maxScale ≤ ·)

/-- Takes in one more digit. -/
def push (p : Progress) (digit : Nat) : Progress :=
  { p with
    digits := 10 * p.digits + digit
    places := p.places.map (· + 1)
    started := true }

/-- Rounds the digits by the one after them, a half going up.  If they are too many then, the last
place is given up, and without places the number is too large. -/
def round? (p : Progress) (digit : Nat) : Option Progress :=
  if digit < 5 then some { p with closed := true }
  else if p.digits < maxMagnitude then some { p with digits := p.digits + 1, closed := true }
  else
    match p.places with
    | some (n + 1) =>
      some { p with digits := (p.digits + 5) / 10, places := some n, closed := true }
    | _ => none

/-- Reads one more digit: a digit for which there is no room is for rounding, and only places can
be rounded away. -/
def digit? (p : Progress) (digit : Nat) : Option Progress :=
  let next := p.push digit
  if !p.isFull && next.digits ≤ maxMagnitude then some next
  else if p.places.isSome then p.round? digit
  else none

/-- Reads an underscore, which may stand after a digit.  After the last place it is passed over only
if the digits before it no longer go into a word; otherwise it ends the number. -/
def underscore? (p : Progress) : Option Progress :=
  if !p.started then none
  else if p.isFull && p.digits / 10 < wordLimit then some { p with closed := true }
  else some p

/-- Reads a point, which may stand once; after the last place a second one ends the number. -/
def point? (p : Progress) : Option Progress :=
  if p.places.isNone then some { p with places := some 0 }
  else if p.isFull then some { p with closed := true }
  else none

/-- Reads one more character. -/
def step? (p : Progress) (c : Char) : Option Progress :=
  if p.closed then some p
  else if c.isDigit then p.digit? (c.toNat - '0'.toNat)
  else if c = '.' then p.point?
  else if c = '_' then p.underscore?
  else none

end Progress

/-- Reads the digits and the point of a decimal without its sign. -/
def readUnsigned? (cs : List Char) : Option (Nat × Nat) :=
  match cs.foldlM Progress.step? {} with
  | some p => if p.started then some (p.digits, p.places.getD 0) else none
  | none => none

/-- Reads a decimal without an exponent: an optional sign, then digits with an optional point. -/
def readPlain? (cs : List Char) : Option Decimal :=
  match cs with
  | '-' :: cs => do
    let (digits, places) ← readUnsigned? cs
    ofParts? (-(digits : Int)) places
  | '+' :: cs => do
    let (digits, places) ← readUnsigned? cs
    ofParts? digits places
  | cs => do
    let (digits, places) ← readUnsigned? cs
    ofParts? digits places

/-- Whether a character stands before an exponent. -/
def isExponentMark (c : Char) : Bool :=
  c == 'e' || c == 'E'

/-- Reads the size of an exponent: digits that make a number of 32 bits, after an optional plus. -/
def exponentSize? (cs : List Char) : Option Nat :=
  let digits := match cs with
    | '+' :: cs => cs
    | cs => cs
  let size := digits.foldl (fun n c => 10 * n + (c.toNat - '0'.toNat)) 0
  if !digits.isEmpty && digits.all Char.isDigit && size < UInt32.size then some size else none

/-- A decimal with the point further to the left. -/
def shiftLeft? (d : Decimal) (n : Nat) : Option Decimal :=
  ofParts? d.mantissa (d.scale + n)

/-- A decimal with the point further to the right.  Zeros are put in once there are no places left;
a shift that needs them goes no further than the greatest scale, even for zero. -/
def shiftRight? (d : Decimal) (n : Nat) : Option Decimal :=
  if n ≤ d.scale then ofParts? d.mantissa (d.scale - n)
  else if n ≤ maxScale then ofParts? (d.mantissa * Nat.pow 10 (n - d.scale)) 0
  else none

/-- Reads a decimal with an exponent. -/
def readScientific? (cs : List Char) : Option Decimal := do
  let base ← readPlain? (cs.takeWhile (!isExponentMark ·))
  match cs.dropWhile (!isExponentMark ·) with
  | _ :: '-' :: size => base.shiftLeft? (← exponentSize? size)
  | _ :: size => base.shiftRight? (← exponentSize? size)
  | [] => none

/-- Reads a decimal, with or without an exponent.  More places than a decimal can have are rounded
away, those of an exponent apart. -/
def read? (s : String) : Option Decimal :=
  readPlain? s.toList <|> readScientific? s.toList

end Decimal
end Number
end SqlCompiler
