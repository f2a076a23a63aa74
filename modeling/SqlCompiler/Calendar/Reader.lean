import SqlCompiler.Calendar.Basic
import SqlCompiler.Text.Blank

/-!
# Reading dates and times

The readers take numbers with or without leading zeros, allow blanks before and after each part,
and refuse a date or a time that does not exist.  A year has at most four digits unless it carries
a sign.  The seconds of a time of day may be left out, those of a timestamp may not, and a
fraction is cut after nine digits.
-/

set_option autoImplicit false
namespace SqlCompiler
namespace Calendar

/-- Reads a natural of one to `width` digits after any blanks. -/
def number? (width : Nat) (cs : List Char) : Option (Nat × List Char) :=
  let start := Text.trimLeft cs
  let digits := (start.take width).takeWhile Char.isDigit
  if digits.isEmpty then none
  else some (digits.foldl (fun n c => 10 * n + (c.toNat - '0'.toNat)) 0, start.drop digits.length)

/-- Reads a year: up to four digits, or a sign and any number of digits. -/
def year? (cs : List Char) : Option (Int × List Char) :=
  match Text.trimLeft cs with
  | '-' :: rest => if rest.head?.any Char.isDigit then
      (number? rest.length rest).map fun (n, rest) => (-(n : Int), rest) else none
  | '+' :: rest => if rest.head?.any Char.isDigit then
      (number? rest.length rest).map fun (n, rest) => ((n : Int), rest) else none
  | start => (number? 4 start).map fun (n, rest) => ((n : Int), rest)

/-- Reads one separator after any blanks. -/
def separator? (mark : Char) (cs : List Char) : Option (List Char) :=
  match Text.trimLeft cs with
  | c :: rest => if c = mark then some rest else none
  | [] => none

/-- Reads the parts of a date. -/
def datePart? (cs : List Char) : Option (Date × List Char) := do
  let (year, cs) ← year? cs
  let cs ← separator? '-' cs
  let (month, cs) ← number? 2 cs
  let cs ← separator? '-' cs
  let (day, cs) ← number? 2 cs
  let date ← Date.ofParts? year month day
  some (date, Text.trimLeft cs)

/-- Reads a fraction of a second, if there is a point, as nanoseconds. -/
def fraction? (cs : List Char) : Option (Nat × List Char) :=
  match cs with
  | '.' :: rest =>
    let digits := rest.takeWhile Char.isDigit
    if digits.isEmpty then none
    else
      let kept := (digits ++ List.replicate 9 '0').take 9
      some (kept.foldl (fun n c => 10 * n + (c.toNat - '0'.toNat)) 0, rest.drop digits.length)
  | _ => some (0, cs)

/-- Reads a colon, the seconds and their fraction. -/
def seconds? (cs : List Char) : Option (Nat × Nat × List Char) := do
  let cs ← separator? ':' cs
  let (second, cs) ← number? 2 cs
  let (nanosecond, cs) ← fraction? cs
  some (second, nanosecond, Text.trimLeft cs)

/-- Reads hours and minutes. -/
def hourMinute? (cs : List Char) : Option (Nat × Nat × List Char) := do
  let (hour, cs) ← number? 2 cs
  let cs ← separator? ':' cs
  let (minute, cs) ← number? 2 cs
  some (hour, minute, cs)

/-- Reads a date. -/
def Date.read? (s : String) : Option Date := do
  let (date, rest) ← datePart? s.toList
  if rest.isEmpty then some date else none

/-- Reads a time of day; without seconds it is on the minute. -/
def Time.read? (s : String) : Option Time := do
  let (hour, minute, cs) ← hourMinute? s.toList
  let (second, nanosecond, rest) := (seconds? cs).getD (0, 0, Text.trimLeft cs)
  if rest.isEmpty then Time.ofParts? hour minute second nanosecond else none

/-- Reads a timestamp, with a `T` between the date and the time. -/
def Timestamp.read? (s : String) : Option Timestamp := do
  let (date, cs) ← datePart? s.toList
  let cs ← separator? 'T' cs
  let (hour, minute, cs) ← hourMinute? cs
  let (second, nanosecond, rest) ← seconds? cs
  let time ← Time.ofParts? hour minute second nanosecond
  if rest.isEmpty then some ⟨date, time⟩ else none

end Calendar
end SqlCompiler
