import SqlCompiler.Calendar.Basic
import SqlCompiler.Number.Binary
import SqlCompiler.Text.Hex
import SqlCompiler.Toml.Basic
import SqlCompiler.Toml.Text

/-!
# Plain values in TOML

Truth values, numbers, dates and times.  Digits may have single underscores between them.  A whole
number has 64 bits with its sign, and can be hexadecimal, octal or binary if it has none; a
floating-point number must not be too large; a date must exist.
-/

set_option autoImplicit false
namespace SqlCompiler
namespace Toml

/-! ## Digits -/

/-- Reads digits with single underscores between them, after a first digit. -/
def moreDigits (isDigit : Char → Bool) : List Char → List Char × List Char
  | [] => ([], [])
  | [c] => if isDigit c then ([c], []) else ([], [c])
  | c :: d :: cs =>
    if isDigit c then
      let (digits, rest) := moreDigits isDigit (d :: cs)
      (c :: digits, rest)
    else if c = '_' ∧ isDigit d then
      let (digits, rest) := moreDigits isDigit cs
      (d :: digits, rest)
    else ([], c :: d :: cs)

/-- Reads one digit or more. -/
def digits? (isDigit : Char → Bool) : List Char → Option (List Char × List Char)
  | c :: cs =>
    if isDigit c then
      let (digits, rest) := moreDigits isDigit cs
      some (c :: digits, rest)
    else none
  | [] => none

/-- Reads the digits of a whole number, of which a zero stands alone. -/
def wholeDigits? : List Char → Option (List Char × List Char)
  | '0' :: cs => some (['0'], cs)
  | cs => digits? Char.isDigit cs

/-- The natural that digits denote to a base. -/
def valueOf (base : Nat) (digits : List Char) : Nat :=
  digits.foldl (fun n c => base * n + (Text.hexValue? c).getD 0) 0

/-- Reads a sign, if there is one. -/
def sign (cs : List Char) : Bool × List Char :=
  match cs with
  | '-' :: cs => (true, cs)
  | '+' :: cs => (false, cs)
  | cs => (false, cs)

/-! ## Numbers -/

/-- Reads a whole number to a base after its mark. -/
def basedInteger? (base : Nat) (isDigit : Char → Bool) (cs : List Char) :
    Option (Toml × List Char) := do
  let (digits, rest) ← digits? isDigit cs
  let n : Nat := valueOf base digits
  if n ≤ Int64.maxValue.toInt.toNat then some (.integer n, rest) else none

/-- Reads a whole number. -/
def integer? (cs : List Char) : Option (Toml × List Char) :=
  match cs with
  | '0' :: 'x' :: cs => basedInteger? 16 (fun c => (Text.hexValue? c).isSome) cs
  | '0' :: 'o' :: cs => basedInteger? 8 (fun c => '0' ≤ c && c ≤ '7') cs
  | '0' :: 'b' :: cs => basedInteger? 2 (fun c => c == '0' || c == '1') cs
  | cs => do
    let (negative, cs) := sign cs
    let (digits, rest) ← wholeDigits? cs
    let n : Int := valueOf 10 digits
    let n := if negative then -n else n
    if Int64.minValue.toInt ≤ n ∧ n ≤ Int64.maxValue.toInt then some (.integer n, rest) else none

/-- Reads an exponent, if there is one. -/
def exponent (cs : List Char) : Option (Int × List Char) :=
  match cs with
  | c :: cs =>
    if c = 'e' ∨ c = 'E' then do
      let (negative, cs) := sign cs
      let (digits, rest) ← digits? Char.isDigit cs
      let n : Int := valueOf 10 digits
      some (if negative then -n else n, rest)
    else none
  | [] => none

/-- Whether the number that digits make together with a power of ten is larger than every double.
Far beyond the largest one the power is not computed. -/
def isTooLarge (digits : List Char) (exponent : Int) : Bool :=
  let n := valueOf 10 digits
  let isInfinite (num den : Nat) : Bool :=
    Number.Format.double.nearest num den == Number.Format.double.infinity
  if n = 0 then false
  else if 400 < exponent then true
  else if exponent < -(digits.length : Int) then false
  else isInfinite (n * Nat.pow 10 exponent.toNat) (Nat.pow 10 (-exponent).toNat)

/-- What was read, given the characters before and after it. -/
def taken (before after : List Char) : String :=
  String.ofList (before.take (before.length - after.length))

/-- Reads a floating-point number with a fraction, an exponent or both. -/
def decimalFloat? (cs : List Char) : Option (Toml × List Char) := do
  let (negative, start) := sign cs
  let (whole, afterWhole) ← wholeDigits? start
  let (fraction, power, rest) ← match afterWhole with
    | '.' :: afterPoint => do
      let (fraction, rest) ← digits? Char.isDigit afterPoint
      let (power, rest) := (exponent rest).getD (0, rest)
      some (fraction, power, rest)
    | afterWhole => do
      let (power, rest) ← exponent afterWhole
      some ([], power, rest)
  if !negative && isTooLarge (whole ++ fraction) (power - fraction.length) then none
  else some (.float (taken cs rest), rest)

/-- Reads an infinity or what is not a number. -/
def specialFloat? (cs : List Char) : Option (Toml × List Char) :=
  match (sign cs).2 with
  | 'i' :: 'n' :: 'f' :: rest => some (.float (taken cs rest), rest)
  | 'n' :: 'a' :: 'n' :: rest => some (.float (taken cs rest), rest)
  | _ => none

/-! ## Dates and times -/

/-- Reads a number of exactly so many digits. -/
def fixed? (width : Nat) (cs : List Char) : Option (Nat × List Char) :=
  let digits := cs.take width
  if digits.length = width && digits.all Char.isDigit then some (valueOf 10 digits, cs.drop width)
  else none

/-- Reads one mark. -/
def mark? (mark : Char) : List Char → Option (List Char)
  | c :: cs => if c = mark then some cs else none
  | [] => none

/-- Reads a date that exists. -/
def date? (cs : List Char) : Option (List Char) := do
  let (year, cs) ← fixed? 4 cs
  let (month, cs) ← fixed? 2 (← mark? '-' cs)
  let (day, cs) ← fixed? 2 (← mark? '-' cs)
  if Calendar.IsDate year month day then some cs else none

/-- Reads hours and minutes. -/
def clock? (cs : List Char) : Option (List Char) := do
  let (hour, cs) ← fixed? 2 cs
  let (minute, cs) ← fixed? 2 (← mark? ':' cs)
  if hour < 24 ∧ minute < 60 then some cs else none

/-- Reads a time of day. -/
def time? (cs : List Char) : Option (List Char) := do
  let cs ← clock? cs
  let (second, cs) ← fixed? 2 (← mark? ':' cs)
  if 60 < second then none
  else
    match cs with
    | '.' :: digit :: rest =>
      if digit.isDigit then some (rest.dropWhile Char.isDigit) else some cs
    | cs => some cs

/-- Reads a distance from universal time, if there is one. -/
def zone (cs : List Char) : List Char :=
  match cs with
  | 'Z' :: rest | 'z' :: rest => rest
  | '+' :: rest | '-' :: rest => (clock? rest).getD cs
  | cs => cs

/-- Reads a date, a time of day or both. -/
def moment? (cs : List Char) : Option (Toml × List Char) :=
  let withTime (rest : List Char) : List Char :=
    match rest with
    | c :: cs => if c = 'T' ∨ c = 't' ∨ c = ' ' then ((time? cs).map zone).getD rest else rest
    | [] => rest
  ((date? cs).map withTime <|> time? cs).map fun rest => (.moment (taken cs rest), rest)

/-! ## Plain values -/

/-- Reads a truth value. -/
def bool? : List Char → Option (Toml × List Char)
  | 't' :: 'r' :: 'u' :: 'e' :: rest => some (.bool true, rest)
  | 'f' :: 'a' :: 'l' :: 's' :: 'e' :: rest => some (.bool false, rest)
  | _ => none

/-- Reads a value that holds no other values.  What may follow a value decides between its kinds: a
shorter reading leaves something that nothing can follow. -/
def plain? (cs : List Char) : Option (Toml × List Char) :=
  (text? cs).map (fun (s, rest) => (.string s, rest))
    <|> bool? cs <|> moment? cs <|> decimalFloat? cs <|> specialFloat? cs <|> integer? cs

end Toml
end SqlCompiler
