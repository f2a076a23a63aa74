/-!
# Dates and times of day

Dates of the proleptic Gregorian calendar, times of day down to the nanosecond, and timestamps
without a time zone.  A date exists, and a second has less than `2 * 10 ^ 9` nanoseconds.

A leap second is kept as the second before it together with a further `10 ^ 9` nanoseconds.  Where
it ends a minute it is written with `60` in the place of the seconds, and only such leap seconds are
read; but any second can be followed by one, and then it is written like the next second.
-/

set_option autoImplicit false
namespace SqlCompiler
namespace Calendar

/-- Whether a year has a leap day. -/
def isLeapYear (year : Int) : Bool :=
  (year % 4 == 0 && year % 100 != 0) || year % 400 == 0

/-- The number of days of a month. -/
def daysInMonth (year : Int) (month : Nat) : Nat :=
  if month = 2 then if isLeapYear year then 29 else 28
  else if month = 4 ∨ month = 6 ∨ month = 9 ∨ month = 11 then 30
  else 31

/-- A year, a month and a day name a date that exists, in the range of years that is kept. -/
def IsDate (year : Int) (month day : Nat) : Prop :=
  (-262143 ≤ year ∧ year ≤ 262142) ∧ (1 ≤ month ∧ month ≤ 12)
    ∧ (1 ≤ day ∧ day ≤ daysInMonth year month)

instance (year : Int) (month day : Nat) : Decidable (IsDate year month day) :=
  inferInstanceAs (Decidable (_ ∧ _ ∧ _))

/-- A calendar date. -/
structure Date where
  year : Int
  month : Nat
  day : Nat
  isDate : IsDate year month day
deriving DecidableEq

/-- An hour, a minute, a second and nanoseconds name a moment of a day. -/
def IsTime (hour minute second nanosecond : Nat) : Prop :=
  hour < 24 ∧ minute < 60 ∧ second < 60 ∧ nanosecond < 2000000000

instance (hour minute second nanosecond : Nat) : Decidable (IsTime hour minute second nanosecond) :=
  inferInstanceAs (Decidable (_ ∧ _ ∧ _ ∧ _))

/-- A time of day. -/
structure Time where
  hour : Nat
  minute : Nat
  second : Nat
  nanosecond : Nat
  isTime : IsTime hour minute second nanosecond
deriving DecidableEq

/-- A date with a time of day. -/
structure Timestamp where
  date : Date
  time : Time
deriving DecidableEq

/-- The date named by a year, a month and a day, if there is one. -/
def Date.ofParts? (year : Int) (month day : Nat) : Option Date :=
  if h : IsDate year month day then some ⟨year, month, day, h⟩ else none

/-- The time named by its parts, if there is one; a sixtieth second is a leap second. -/
def Time.ofParts? (hour minute second nanosecond : Nat) : Option Time :=
  let leap := second = 60
  let second' := if leap then 59 else second
  let nanosecond' := if leap then nanosecond + 1000000000 else nanosecond
  if h : IsTime hour minute second' nanosecond' then
    some ⟨hour, minute, second', nanosecond', h⟩
  else none

/-! ## Text -/

/-- A natural with at least `width` digits. -/
def padded (width n : Nat) : String :=
  let digits := toString n
  String.ofList (List.replicate (width - digits.length) '0') ++ digits

/-- A year: four digits, with a sign outside `0 … 9999`. -/
def yearText (year : Int) : String :=
  if year < 0 then "-" ++ padded 4 year.natAbs
  else if 9999 < year then "+" ++ padded 4 year.natAbs
  else padded 4 year.natAbs

/-- A date as `YYYY-MM-DD`. -/
def Date.text (d : Date) : String :=
  yearText d.year ++ "-" ++ padded 2 d.month ++ "-" ++ padded 2 d.day

/-- A time as `HH:MM:SS`, without its fraction. -/
def Time.clock (t : Time) : String :=
  padded 2 t.hour ++ ":" ++ padded 2 t.minute ++ ":"
    ++ padded 2 (t.second + t.nanosecond / 1000000000)

/-- The fraction of a second: none, or a point and three, six or nine digits, the fewest that are
exact. -/
def Time.fraction (t : Time) : String :=
  let nanos := t.nanosecond % 1000000000
  if nanos = 0 then ""
  else if nanos % 1000000 = 0 then "." ++ padded 3 (nanos / 1000000)
  else if nanos % 1000 = 0 then "." ++ padded 6 (nanos / 1000)
  else "." ++ padded 9 nanos

/-- A time as `HH:MM:SS` with its fraction. -/
def Time.text (t : Time) : String :=
  t.clock ++ t.fraction

/-- A timestamp with the given text between the date and the time. -/
def Timestamp.textWith (separator : String) (ts : Timestamp) : String :=
  ts.date.text ++ separator ++ ts.time.text

/-- A timestamp as it is shown, with a space in the middle. -/
def Timestamp.text (ts : Timestamp) : String :=
  ts.textWith " "

/-- A timestamp as it is stored, with a `T` in the middle. -/
def Timestamp.stored (ts : Timestamp) : String :=
  ts.textWith "T"

end Calendar
end SqlCompiler
