import SqlCompiler.Number.Binary

/-!
# The shortest decimal text of a binary value

Among the decimals that read back as a given binary value, the printer picks one with the fewest
digits, and among those the nearest to the value.  The search is the definition: for one digit,
two digits, and so on, it looks at the two neighbours of the value on the grid of decimals with
that many digits, and stops at the first grid where a neighbour lies in the interval of reals
that round to the value.  The ends of that interval belong to it exactly when the significand is
even.  Of two neighbours in the interval the nearer wins, and an exact tie goes up.

The text is always positional: no exponent, no trailing `.0`.
-/

set_option autoImplicit false
namespace SqlCompiler
namespace Number

/-- A positive decimal `digits * 10 ^ exponent`. -/
structure Scientific where
  digits : Nat
  exponent : Int
deriving DecidableEq, Repr

/-- The reals that round to a finite binary value: a value `middle` between `low` and `high`, all
three counted in units of `num / den`. -/
structure Interval where
  low : Nat
  middle : Nat
  high : Nat
  num : Nat
  den : Nat
  closed : Bool

namespace Interval

/-- The interval around `significand * 2 ^ exponent`.  Below a power of two the neighbours are
half as far apart, so the lower end is nearer there. -/
def around (f : Format) (significand : Nat) (exponent : Int) : Interval where
  low := 4 * significand -
    (if significand = f.hiddenBit ∧ f.minExponent < exponent then 1 else 2)
  middle := 4 * significand
  high := 4 * significand + 2
  num := 1 <<< (exponent - 2).toNat
  den := 1 <<< (2 - exponent).toNat
  closed := significand % 2 == 0

/-- The least `p` with `middle < 10 ^ p`, looked for next to the one its binary logarithm gives. -/
def point (i : Interval) : Int :=
  let guess := floorLog2 (i.middle * i.num) i.den * 30103 / 100000
  let below (p : Int) : Bool :=
    decide (i.middle * i.num * Nat.pow 10 (-p).toNat < Nat.pow 10 p.toNat * i.den)
  (([guess - 1, guess, guess + 1].find? below).getD (guess + 2))

/-- The neighbour of the middle with `count` digits that lies in the interval, if there is one. -/
def candidate? (i : Interval) (point : Int) (count : Nat) : Option Scientific :=
  let exponent := point - count
  -- One grid step is `step` and the middle is `value`, in a common unit.
  let step := Nat.pow 10 exponent.toNat * i.den
  let scale := Nat.pow 10 (-exponent).toNat * i.num
  let value := i.middle * scale
  let floor := value / step
  let lowIn := if i.closed then i.low * scale ≤ floor * step else i.low * scale < floor * step
  let highIn :=
    if i.closed then (floor + 1) * step ≤ i.high * scale else (floor + 1) * step < i.high * scale
  let up : Scientific :=
    if floor + 1 = Nat.pow 10 count then ⟨1, point⟩ else ⟨floor + 1, exponent⟩
  if lowIn ∧ highIn then
    if step ≤ 2 * (value % step) then some up else some ⟨floor, exponent⟩
  else if lowIn then some ⟨floor, exponent⟩
  else if highIn then some up
  else none

/-- Tries `count` digits, then one more, for at most `fuel` further digits. -/
def search (i : Interval) (point : Int) (count : Nat) : Nat → Scientific
  | 0 => ⟨i.middle * i.num / i.den, 0⟩
  | fuel + 1 =>
    match i.candidate? point count with
    | some s => s
    | none => i.search point (count + 1) fuel

end Interval

/-- Seventeen digits tell any two 64-bit values apart, and nine any two 32-bit ones. -/
def maxDigits : Nat := 17

/-- The shortest decimal that reads back as the positive value `significand * 2 ^ exponent`. -/
def shortest (f : Format) (significand : Nat) (exponent : Int) : Scientific :=
  let interval := Interval.around f significand exponent
  interval.search interval.point 1 maxDigits

namespace Scientific

/-- A run of `n` zeros. -/
def zeros (n : Nat) : String :=
  String.ofList (List.replicate n '0')

/-- The decimal written out without an exponent. -/
def positional (s : Scientific) : String :=
  let digits := toString s.digits
  if 0 ≤ s.exponent then digits ++ zeros s.exponent.toNat
  else
    let places := (-s.exponent).toNat
    if places < digits.length then
      String.ofList (digits.toList.take (digits.length - places)) ++ "."
        ++ String.ofList (digits.toList.drop (digits.length - places))
    else "0." ++ zeros (places - digits.length) ++ digits

end Scientific

/-- The text of a classified value of a format. -/
def Class.text (f : Format) : Class → String
  | .nan => "NaN"
  | .infinite negative => if negative then "-inf" else "inf"
  | .finite negative significand exponent =>
    let magnitude :=
      if significand = 0 then "0" else (shortest f significand exponent).positional
    if negative then "-" ++ magnitude else magnitude

/-- The shortest text that reads back as the value with 32 bits. -/
def Single.text (x : Single) : String :=
  x.classify.text .single

/-- The shortest text that reads back as the value with 64 bits. -/
def Double.text (x : Double) : String :=
  x.classify.text .double

end Number
end SqlCompiler
