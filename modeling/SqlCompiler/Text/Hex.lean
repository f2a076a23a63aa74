/-!
# Hexadecimal digits

Bytes and bit patterns written with two digits to a byte, and the digits read back.
-/

set_option autoImplicit false
namespace SqlCompiler
namespace Text

/-- The lower-case digit of a number below sixteen. -/
def hexDigit (n : Nat) : Char :=
  if n < 10 then Char.ofNat ('0'.toNat + n) else Char.ofNat ('a'.toNat + (n - 10))

/-- The value of a hexadecimal digit of either case. -/
def hexValue? (c : Char) : Option Nat :=
  if '0' ≤ c ∧ c ≤ '9' then some (c.toNat - '0'.toNat)
  else if 'a' ≤ c ∧ c ≤ 'f' then some (c.toNat - 'a'.toNat + 10)
  else if 'A' ≤ c ∧ c ≤ 'F' then some (c.toNat - 'A'.toNat + 10)
  else none

/-- The two lower-case digits of a byte. -/
def byteDigits (b : UInt8) : List Char :=
  [hexDigit (b.toNat / 16), hexDigit (b.toNat % 16)]

/-- The lower-case digits of a list of bytes. -/
def hexLower (bytes : List UInt8) : String :=
  String.ofList (bytes.flatMap byteDigits)

/-- The upper-case digits of a list of bytes. -/
def hexUpper (bytes : List UInt8) : String :=
  String.ofList ((bytes.flatMap byteDigits).map Char.toUpper)

/-- The number that a list of digits denotes. -/
def readHex? (cs : List Char) : Option Nat :=
  cs.foldlM (fun n c => (hexValue? c).map (16 * n + ·)) 0

/-- The lowest `width` digits of a number, the most significant first, leading zeros included. -/
def hexDigits : Nat → Nat → List Char
  | 0, _ => []
  | width + 1, n => hexDigits width (n / 16) ++ [hexDigit (n % 16)]

/-- The text of the lowest `width` digits of a number. -/
def hexPadded (width n : Nat) : String :=
  String.ofList (hexDigits width n)

/-- The shortest hexadecimal text of a number. -/
def hexNat (n : Nat) : String :=
  String.ofList (Nat.toDigits 16 n)

end Text
end SqlCompiler
