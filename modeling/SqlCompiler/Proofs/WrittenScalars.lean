import Mathlib.Algebra.Group.Nat.Defs
import Mathlib.Data.List.TakeWhile
import SqlCompiler.Calendar.Reader
import SqlCompiler.Scalar.Value

/-!
# Decimals, dates and times read back from their texts

A decimal, a date, a time of day and a timestamp each have a text, and each has a reader that takes
more than these texts: numbers with fewer digits, blanks between the parts, more places than can be
kept.  The readers give back what was written, but for two kinds of values whose texts denote other
ones: a zero is read without its sign, and a leap second that does not end a minute is read as the
next second.

Everything is written with `Text.Numeral`s, digits with zeros before them up to a width.

* `Numeral`, `numeral_padded` — the digits that a natural is written with.
* `Calendar.number?_numeral` — how far a reader goes through them.
* `Calendar.Date.read?_text`, `Calendar.Time.read?_text`, `Calendar.Timestamp.read?_stored`.
* `Number.Decimal.read?_text` — a decimal, with its scale.
* `Calendar.Time.denoted`, `Number.Decimal.denoted`, `Value.denoted` — what a text denotes.
-/

set_option autoImplicit false
namespace SqlCompiler

/-! ## Numerals -/

namespace Text

/-- Digits that denote a number. -/
structure Numeral (cs : List Char) (n : Nat) : Prop where
  isDigit : ∀ c ∈ cs, c.isDigit = true
  ne_nil : cs ≠ []
  value : Nat.ofDigitChars 10 cs 0 = n

theorem numeral_toString (n : Nat) : Numeral (toString n).toList n where
  isDigit c hc := by
    have hc : c ∈ Nat.toDigits 10 n := by simpa [toString, Nat.toList_repr] using hc
    exact Nat.isDigit_of_mem_toDigits (by decide) (by decide) hc
  ne_nil := by
    rw [show (toString n).toList = Nat.toDigits 10 n from Nat.toList_repr]
    exact Nat.toDigits_ne_nil
  value := by
    rw [show (toString n).toList = Nat.toDigits 10 n from Nat.toList_repr]
    exact Nat.ofDigitChars_toDigits (by decide) (by decide)

/-- Zeros before a numeral change nothing. -/
theorem Numeral.zeros {cs : List Char} {n : Nat} (h : Numeral cs n) (k : Nat) :
    Numeral (List.replicate k '0' ++ cs) n where
  isDigit c hc := by
    rcases List.mem_append.mp hc with hc | hc
    · rw [List.eq_of_mem_replicate hc]
      rfl
    · exact h.isDigit c hc
  ne_nil hnil := h.ne_nil (List.append_eq_nil_iff.mp hnil).2
  value := by
    rw [Nat.ofDigitChars_append, Nat.ofDigitChars_replicate_zero, Nat.mul_zero, h.value]

theorem length_toString_le {n width : Nat} (hwidth : 0 < width) (h : n < 10 ^ width) :
    (toString n).toList.length ≤ width := by
  rw [String.length_toList]
  exact (Nat.length_repr_le_iff hwidth).mpr h

theorem not_isBlank_of_isDigit {c : Char} (h : c.isDigit = true) : isBlank c = false := by
  simp only [Char.isDigit, Bool.and_eq_true, decide_eq_true_eq, ge_iff_le,
    UInt32.le_iff_toNat_le] at h
  have hlow : 48 ≤ c.toNat := h.1
  have hhigh : c.toNat ≤ 57 := h.2
  simp only [isBlank, Bool.or_eq_false_iff, Bool.and_eq_false_iff, decide_eq_false_iff_not,
    beq_eq_false_iff_ne]
  omega

end Text

namespace Calendar

open Text

theorem toList_padded (width n : Nat) :
    (padded width n).toList
      = List.replicate (width - (toString n).length) '0' ++ (toString n).toList := by
  rw [padded, String.toList_append, String.toList_ofList]

theorem numeral_padded (width n : Nat) : Numeral (padded width n).toList n := by
  rw [toList_padded]
  exact (numeral_toString n).zeros _

theorem length_padded {width n : Nat} (hwidth : 0 < width) (h : n < 10 ^ width) :
    (padded width n).toList.length = width := by
  have hlength := length_toString_le hwidth h
  rw [String.length_toList] at hlength
  rw [toList_padded, List.length_append, List.length_replicate, String.length_toList]
  omega

/-! ## Reading numbers -/

theorem trimLeft_cons {c : Char} (h : isBlank c = false) (cs : List Char) :
    trimLeft (c :: cs) = c :: cs := by
  rw [trimLeft, List.dropWhile_cons_of_neg (by simp [h])]

theorem trimLeft_numeral {cs : List Char} {n : Nat} (h : Numeral cs n) (rest : List Char) :
    trimLeft (cs ++ rest) = cs ++ rest := by
  cases cs with
  | nil => exact absurd rfl h.ne_nil
  | cons c cs => exact trimLeft_cons (not_isBlank_of_isDigit (h.isDigit c List.mem_cons_self)) _

/-- A number is read up to the given width, or up to a character that is no digit. -/
theorem number?_numeral {cs rest : List Char} {n width : Nat} (h : Numeral cs n)
    (hend : cs.length = width ∨ cs.length ≤ width ∧ ∀ c, rest.head? = some c → c.isDigit = false) :
    number? width (cs ++ rest) = some (n, rest) := by
  have hdigits : ((cs ++ rest).take width).takeWhile Char.isDigit = cs := by
    rcases hend with hlength | ⟨hlength, hhead⟩
    · rw [← hlength, List.take_left, List.takeWhile_eq_self_iff]
      exact h.isDigit
    · have hrest : (rest.take (width - cs.length)).takeWhile Char.isDigit = [] := by
        cases hr : rest.take (width - cs.length) with
        | nil => rfl
        | cons c _ =>
          have hc : rest.head? = some c := by
            have hmem : (rest.take (width - cs.length)).head? = some c := by rw [hr]; rfl
            cases rest with
            | nil => simp at hmem
            | cons a _ =>
              cases hw : width - cs.length with
              | zero => rw [hw] at hmem; cases hmem
              | succ _ => rw [hw] at hmem; exact hmem
          rw [List.takeWhile_cons_of_neg (by simp [hhead c hc])]
      rw [List.take_append, List.take_of_length_le hlength,
        List.takeWhile_append_of_pos h.isDigit, hrest, List.append_nil]
  have hempty : ¬ cs.isEmpty = true := by simpa using h.ne_nil
  simp only [number?, trimLeft_numeral h, hdigits, if_neg hempty, List.drop_left]
  exact congrArg (fun n => some (n, rest)) h.value

theorem number?_padded {width n : Nat} (hwidth : 0 < width) (h : n < 10 ^ width)
    (rest : List Char) : number? width ((padded width n).toList ++ rest) = some (n, rest) :=
  number?_numeral (numeral_padded width n) (.inl (length_padded hwidth h))

theorem separator?_cons {mark : Char} (h : isBlank mark = false) (rest : List Char) :
    separator? mark (mark :: rest) = some rest := by
  rw [separator?, trimLeft_cons h]
  exact if_pos rfl

/-! ## Dates -/

/-- The digits of a signed year go up to the mark behind them. -/
theorem number?_signed (n : Nat) (rest : List Char) :
    number? ((padded 4 n).toList ++ '-' :: rest).length ((padded 4 n).toList ++ '-' :: rest)
      = some (n, '-' :: rest) := by
  refine number?_numeral (numeral_padded 4 n) (.inr ⟨?_, ?_⟩)
  · rw [List.length_append]
    exact Nat.le_add_right _ _
  · rintro c ⟨⟩
    decide

theorem year?_yearText (year : Int) (rest : List Char) :
    year? ((yearText year).toList ++ '-' :: rest) = some (year, '-' :: rest) := by
  have hdigit : ((padded 4 year.natAbs).toList ++ '-' :: rest).head?.any Char.isDigit = true := by
    have h := numeral_padded 4 year.natAbs
    cases hcs : (padded 4 year.natAbs).toList with
    | nil => exact absurd hcs h.ne_nil
    | cons c cs => exact h.isDigit c (by rw [hcs]; exact List.mem_cons_self)
  by_cases hneg : year < 0
  · have htext : trimLeft ((yearText year).toList ++ '-' :: rest)
        = '-' :: ((padded 4 year.natAbs).toList ++ '-' :: rest) := by
      rw [yearText, if_pos hneg, String.toList_append]
      exact trimLeft_cons (by decide) _
    rw [year?, htext]
    simp only [hdigit, if_true, number?_signed, Option.map_some]
    rw [Int.ofNat_natAbs_of_nonpos (Int.le_of_lt hneg), Int.neg_neg]
  · have habs : (year.natAbs : Int) = year := Int.natAbs_of_nonneg (Int.not_lt.mp hneg)
    by_cases hlarge : 9999 < year
    · have htext : trimLeft ((yearText year).toList ++ '-' :: rest)
          = '+' :: ((padded 4 year.natAbs).toList ++ '-' :: rest) := by
        rw [yearText, if_neg hneg, if_pos hlarge, String.toList_append]
        exact trimLeft_cons (by decide) _
      rw [year?, htext]
      simp only [hdigit, if_true, number?_signed, Option.map_some, habs]
    · have htext : trimLeft ((yearText year).toList ++ '-' :: rest)
          = (padded 4 year.natAbs).toList ++ '-' :: rest := by
        rw [yearText, if_neg hneg, if_neg hlarge]
        exact trimLeft_numeral (numeral_padded 4 year.natAbs) _
      rw [year?, htext]
      split
      · next heq => rw [heq] at hdigit; exact absurd hdigit Bool.false_ne_true
      · next heq => rw [heq] at hdigit; exact absurd hdigit Bool.false_ne_true
      · simp only [number?_padded (by decide : 0 < 4) (by omega : year.natAbs < 10 ^ 4),
          Option.map_some, habs]

theorem daysInMonth_le (year : Int) (month : Nat) : daysInMonth year month ≤ 31 := by
  unfold daysInMonth
  repeat' split
  all_goals decide

theorem datePart?_text (d : Date) (rest : List Char) :
    datePart? (d.text.toList ++ rest) = some (d, trimLeft rest) := by
  obtain ⟨-, ⟨-, hmonth⟩, -, hday⟩ := d.isDate
  have hdays := daysInMonth_le d.year d.month
  have htext : d.text.toList ++ rest = (yearText d.year).toList
      ++ '-' :: ((padded 2 d.month).toList ++ '-' :: ((padded 2 d.day).toList ++ rest)) := by
    simp [Date.text]
  have hdash : isBlank '-' = false := by decide
  have hdate : Date.ofParts? d.year d.month d.day = some d := dif_pos d.isDate
  rw [datePart?, htext, year?_yearText]
  simp only [Option.bind_eq_bind, Option.bind_some, separator?_cons hdash,
    number?_padded (by decide : 0 < 2) (by omega : d.month < 10 ^ 2),
    number?_padded (by decide : 0 < 2) (by omega : d.day < 10 ^ 2), hdate]

/-- **A date is read back from its text.** -/
theorem Date.read?_text (d : Date) : Date.read? d.text = some d := by
  have h := datePart?_text d []
  rw [List.append_nil] at h
  rw [Date.read?, h]
  rfl

/-! ## Times -/

theorem hourMinute?_text (t : Time) (rest : List Char) :
    hourMinute? ((padded 2 t.hour).toList ++ ':' :: ((padded 2 t.minute).toList ++ rest))
      = some (t.hour, t.minute, rest) := by
  obtain ⟨hhour, hminute, -⟩ := t.isTime
  have hcolon : isBlank ':' = false := by decide
  simp only [hourMinute?, Option.bind_eq_bind, Option.bind_some, separator?_cons hcolon,
    number?_padded (by decide : 0 < 2) (by omega : t.hour < 10 ^ 2),
    number?_padded (by decide : 0 < 2) (by omega : t.minute < 10 ^ 2)]

/-- A fraction of a second is read with zeros behind it, up to nanoseconds. -/
theorem fraction?_numeral {cs : List Char} {n : Nat} (h : Numeral cs n) (hlength : cs.length ≤ 9) :
    fraction? ('.' :: cs) = some (n * 10 ^ (9 - cs.length), []) := by
  have hdigits : cs.takeWhile Char.isDigit = cs := List.takeWhile_eq_self_iff.mpr h.isDigit
  have hkept : (cs ++ List.replicate 9 '0').take 9 = cs ++ List.replicate (9 - cs.length) '0' := by
    rw [List.take_append, List.take_of_length_le hlength, List.take_replicate,
      Nat.min_eq_left (Nat.sub_le 9 cs.length)]
  have hvalue : Nat.ofDigitChars 10 (cs ++ List.replicate (9 - cs.length) '0') 0
      = n * 10 ^ (9 - cs.length) := by
    rw [Nat.ofDigitChars_append, h.value, Nat.ofDigitChars_replicate_zero, Nat.mul_comm]
  have hempty : ¬ cs.isEmpty = true := by simpa using h.ne_nil
  rw [fraction?]
  dsimp only
  rw [hdigits, if_neg hempty, hkept, List.drop_length]
  exact congrArg (fun n => some (n, [])) hvalue

theorem fraction?_padded {width n : Nat} (hwidth : 0 < width) (hnine : width ≤ 9)
    (h : n < 10 ^ width) :
    fraction? ("." ++ padded width n).toList = some (n * 10 ^ (9 - width), []) := by
  have hlength := length_padded hwidth h
  have hread := fraction?_numeral (numeral_padded width n) (hlength.trans_le hnine)
  rw [hlength] at hread
  rw [String.toList_append]
  exact hread

theorem fraction?_fraction (t : Time) :
    fraction? t.fraction.toList = some (t.nanosecond % 1000000000, []) := by
  have hlt : t.nanosecond % 1000000000 < 1000000000 := Nat.mod_lt _ (by decide)
  rw [Time.fraction.eq_def]
  generalize t.nanosecond % 1000000000 = nanos at hlt ⊢
  simp only
  split
  · next hzero => rw [hzero]; rfl
  · split
    · next hmilli =>
      rw [fraction?_padded (by decide) (by decide) (by omega),
        show nanos / 1000000 * 10 ^ (9 - 3) = nanos by omega]
    · split
      · next hmicro =>
        rw [fraction?_padded (by decide) (by decide) (by omega),
          show nanos / 1000 * 10 ^ (9 - 6) = nanos by omega]
      · rw [fraction?_padded (by decide) (by decide) (by omega),
          show nanos * 10 ^ (9 - 9) = nanos by omega]

theorem seconds?_text (t : Time) :
    seconds? (':' :: ((padded 2 (t.second + t.nanosecond / 1000000000)).toList
        ++ t.fraction.toList))
      = some (t.second + t.nanosecond / 1000000000, t.nanosecond % 1000000000, []) := by
  obtain ⟨-, -, hsecond, hnano⟩ := t.isTime
  have hlt : t.second + t.nanosecond / 1000000000 < 10 ^ 2 := by omega
  have hcolon : isBlank ':' = false := by decide
  simp only [seconds?, Option.bind_eq_bind, Option.bind_some, separator?_cons hcolon,
    number?_padded (by decide : 0 < 2) hlt, fraction?_fraction]
  rfl

/-- The text of a time denotes it, unless it is in a leap second that does not end a minute. -/
def Time.IsDenoted (t : Time) : Prop :=
  t.second = 59 ∨ t.nanosecond < 1000000000

instance (t : Time) : Decidable t.IsDenoted :=
  inferInstanceAs (Decidable (_ ∨ _))

theorem Time.isTime_next {t : Time} (h : ¬ t.IsDenoted) :
    IsTime t.hour t.minute (t.second + 1) (t.nanosecond - 1000000000) := by
  obtain ⟨hhour, hminute, hsecond, hnano⟩ := t.isTime
  obtain ⟨hlast, hleap⟩ := not_or.mp h
  exact ⟨hhour, hminute, by omega, by omega⟩

/-- The time that the text of a time denotes, which may be in the next second. -/
def Time.denoted (t : Time) : Time :=
  if h : t.IsDenoted then t
  else ⟨t.hour, t.minute, t.second + 1, t.nanosecond - 1000000000, isTime_next h⟩

theorem Time.ofParts?_parts (t : Time) :
    Time.ofParts? t.hour t.minute (t.second + t.nanosecond / 1000000000)
      (t.nanosecond % 1000000000) = some t.denoted := by
  obtain ⟨-, -, hsecond, hnano⟩ := t.isTime
  rw [Time.ofParts?.eq_def]
  dsimp only
  by_cases h : t.IsDenoted
  · rw [denoted, dif_pos h]
    by_cases hleap : t.second + t.nanosecond / 1000000000 = 60
    · have hlast : 59 = t.second := by omega
      have hnano' : t.nanosecond % 1000000000 + 1000000000 = t.nanosecond := by omega
      simp only [if_pos hleap, hnano', hlast, dif_pos t.isTime]
    · have hwhole : t.nanosecond < 1000000000 := by
        rw [IsDenoted] at h
        omega
      rw [Nat.div_eq_of_lt hwhole, Nat.add_zero] at hleap ⊢
      simp only [if_neg hleap, Nat.mod_eq_of_lt hwhole, dif_pos t.isTime]
  · obtain ⟨hlast, hlong⟩ := not_or.mp h
    have hdiv : t.nanosecond / 1000000000 = 1 := by omega
    have hmod : t.nanosecond % 1000000000 = t.nanosecond - 1000000000 := by omega
    have hleap : ¬ t.second + 1 = 60 := by omega
    rw [denoted, dif_neg h]
    simp only [hdiv, hmod, if_neg hleap]
    exact dif_pos (isTime_next h)

theorem Time.toList_text (t : Time) :
    t.text.toList = (padded 2 t.hour).toList ++ ':' :: ((padded 2 t.minute).toList
      ++ ':' :: ((padded 2 (t.second + t.nanosecond / 1000000000)).toList
        ++ t.fraction.toList)) := by
  simp [Time.text, Time.clock]

/-- **A time of day is read from its text as what that denotes.** -/
theorem Time.read?_text (t : Time) : Time.read? t.text = some t.denoted := by
  rw [Time.read?, Time.toList_text, hourMinute?_text]
  simp only [Option.bind_eq_bind, Option.bind_some, seconds?_text, Option.getD_some,
    List.isEmpty_nil, if_true]
  exact Time.ofParts?_parts t

/-- The timestamp that the text of a timestamp denotes. -/
def Timestamp.denoted (ts : Timestamp) : Timestamp :=
  { ts with time := ts.time.denoted }

/-- **A timestamp is read from its stored text as what that denotes.** -/
theorem Timestamp.read?_stored (ts : Timestamp) : Timestamp.read? ts.stored = some ts.denoted := by
  have htext : ts.stored.toList = ts.date.text.toList ++ 'T' :: ts.time.text.toList := by
    simp [Timestamp.stored, Timestamp.textWith]
  have hmark : isBlank 'T' = false := by decide
  rw [Timestamp.read?, htext, datePart?_text, trimLeft_cons hmark, Time.toList_text]
  simp only [Option.bind_eq_bind, Option.bind_some, separator?_cons hmark, hourMinute?_text,
    seconds?_text, Time.ofParts?_parts, List.isEmpty_nil, if_true]
  rfl

end Calendar

/-! ## Decimals -/

namespace Number.Decimal

open Text

theorem le_ofDigitChars (cs : List Char) : ∀ init, init ≤ Nat.ofDigitChars 10 cs init := by
  induction cs with
  | nil => exact Nat.le_refl
  | cons c cs ih =>
    intro init
    rw [Nat.ofDigitChars_cons]
    have := ih (10 * init + (c.toNat - '0'.toNat))
    omega

/-- Digits are taken in one by one, as long as there is room for all of them. -/
theorem foldlM_step? {cs : List Char} (hdigits : ∀ c ∈ cs, c.isDigit = true) :
    ∀ p : Progress, p.closed = false → (∀ k, p.places = some k → k + cs.length ≤ maxScale) →
      Nat.ofDigitChars 10 cs p.digits ≤ maxMagnitude →
      cs.foldlM Progress.step? p = some {
        digits := Nat.ofDigitChars 10 cs p.digits
        places := p.places.map (· + cs.length)
        started := p.started || !cs.isEmpty
        closed := false } := by
  induction cs with
  | nil =>
    rintro ⟨digits, places, started, closed⟩ hclosed - -
    cases hclosed
    simp [Nat.ofDigitChars]
  | cons c cs ih =>
    intro p hclosed hplaces hvalue
    rw [Nat.ofDigitChars_cons] at hvalue
    have hroom : (p.push (c.toNat - '0'.toNat)).digits ≤ maxMagnitude :=
      (le_ofDigitChars cs _).trans hvalue
    have hfull : p.isFull = false := by
      rw [Progress.isFull]
      cases hp : p.places with
      | none => rfl
      | some k =>
        have := hplaces k hp
        rw [List.length_cons] at this
        simp only [Option.any_some, decide_eq_false_iff_not]
        omega
    have hstep : p.step? c = some (p.push (c.toNat - '0'.toNat)) := by
      rw [Progress.step?, if_neg (by simp [hclosed]), if_pos (hdigits c List.mem_cons_self)]
      simp only [Progress.digit?, hfull, Bool.not_false, Bool.true_and, decide_eq_true_eq,
        if_pos hroom]
    have hnext : ∀ k, (p.push (c.toNat - '0'.toNat)).places = some k →
        k + cs.length ≤ maxScale := by
      intro k hk
      obtain ⟨j, hj, rfl⟩ := Option.map_eq_some_iff.mp hk
      have := hplaces j hj
      rw [List.length_cons] at this
      omega
    rw [List.foldlM_cons, hstep]
    refine (ih (fun c' hc' => hdigits c' (List.mem_cons_of_mem _ hc'))
      (p.push (c.toNat - '0'.toNat)) hclosed hnext hvalue).trans ?_
    simp only [Progress.push, Option.map_map, Function.comp_def, List.length_cons, Bool.true_or,
      List.isEmpty_cons, Bool.not_false, Bool.or_true, Nat.ofDigitChars_cons, Nat.add_assoc,
      Nat.add_comm 1]

theorem readUnsigned?_numeral {cs : List Char} {n : Nat} (h : Numeral cs n)
    (hn : n ≤ maxMagnitude) : readUnsigned? cs = some (n, 0) := by
  have hfold := foldlM_step? h.isDigit {} rfl (fun _ hk => by cases hk) (h.value ▸ hn)
  have hempty : cs.isEmpty = false := by simpa using h.ne_nil
  rw [readUnsigned?, hfold]
  simp only [hempty, Bool.not_false, Bool.or_true, if_true, Option.map_none, Option.getD_none]
  exact congrArg (fun n => some (n, 0)) h.value

/-- The point stands before the places. -/
theorem readUnsigned?_point {whole places : List Char} {n : Nat} (h : Numeral (whole ++ places) n)
    (hwhole : whole ≠ []) (hplaces : places.length ≤ maxScale) (hn : n ≤ maxMagnitude) :
    readUnsigned? (whole ++ '.' :: places) = some (n, places.length) := by
  have hvalue : Nat.ofDigitChars 10 places (Nat.ofDigitChars 10 whole 0) = n := by
    rw [← Nat.ofDigitChars_append]
    exact h.value
  have hfirst := foldlM_step? (fun c hc => h.isDigit c (List.mem_append_left _ hc)) {} rfl
    (fun _ hk => by cases hk) ((le_ofDigitChars places _).trans (hvalue ▸ hn))
  have hempty : whole.isEmpty = false := by simpa using hwhole
  have hsecond := foldlM_step? (fun c hc => h.isDigit c (List.mem_append_right _ hc))
    { digits := Nat.ofDigitChars 10 whole 0, places := some 0, started := true } rfl
    (fun k hk => by cases hk; rwa [Nat.zero_add]) (hvalue.trans_le hn)
  have hfold : (whole ++ '.' :: places).foldlM Progress.step? {}
      = some ⟨n, some places.length, true, false⟩ := by
    rw [List.foldlM_append, hfirst]
    simp only [hempty, Bool.not_false, Bool.or_true, Option.bind_eq_bind, Option.bind_some]
    refine hsecond.trans ?_
    simp only [hvalue, Option.map_some, Nat.zero_add, Bool.true_or]
  rw [readUnsigned?, hfold]
  rfl

/-- The digits of a decimal, with zeros before them so that one stands before the point. -/
theorem numeral_digits (d : Decimal) :
    ∃ cs, Numeral cs d.magnitude ∧ d.scale < cs.length
      ∧ d.text.toList = (if d.negative then ['-'] else [])
        ++ (if d.scale = 0 then cs
          else cs.take (cs.length - d.scale) ++ '.' :: cs.drop (cs.length - d.scale)) := by
  have hpadded : (Scientific.zeros (d.scale + 1 - (toString d.magnitude).length)
        ++ toString d.magnitude).toList
      = List.replicate (d.scale + 1 - (toString d.magnitude).length) '0'
        ++ (toString d.magnitude).toList := by
    rw [String.toList_append, Scientific.zeros, String.toList_ofList]
  have hnumeral := (numeral_toString d.magnitude).zeros
    (d.scale + 1 - (toString d.magnitude).length)
  rw [← hpadded] at hnumeral
  refine ⟨_, hnumeral, ?_, ?_⟩
  · rw [hpadded, List.length_append, List.length_replicate, String.length_toList]
    omega
  · rw [text.eq_def]
    dsimp only
    generalize Scientific.zeros (d.scale + 1 - (toString d.magnitude).length)
      ++ toString d.magnitude = padded
    rw [String.length_toList]
    split <;> split <;> simp

theorem readUnsigned?_text {d : Decimal} {cs : List Char} (h : Numeral cs d.magnitude)
    (hlength : d.scale < cs.length) :
    readUnsigned? (if d.scale = 0 then cs
        else cs.take (cs.length - d.scale) ++ '.' :: cs.drop (cs.length - d.scale))
      = some (d.magnitude, d.scale) := by
  split
  · next hscale =>
    rw [hscale]
    exact readUnsigned?_numeral h d.magnitude_le
  · have hdrop : (cs.drop (cs.length - d.scale)).length = d.scale := by
      rw [List.length_drop]
      omega
    have hnumeral : Numeral (cs.take (cs.length - d.scale) ++ cs.drop (cs.length - d.scale))
        d.magnitude := by rwa [List.take_append_drop]
    have hwhole : cs.take (cs.length - d.scale) ≠ [] := by
      rw [ne_eq, List.take_eq_nil_iff, not_or]
      exact ⟨by omega, h.ne_nil⟩
    have hread := readUnsigned?_point hnumeral hwhole (hdrop.trans_le d.scale_le) d.magnitude_le
    rwa [hdrop] at hread

/-- The decimal that the text of a decimal denotes: zero is read without a sign. -/
def denoted (d : Decimal) : Decimal :=
  { d with negative := d.negative && d.magnitude != 0 }

theorem ofParts?_mantissa (d : Decimal) : ofParts? d.mantissa d.scale = some d.denoted := by
  have habs : d.mantissa.natAbs = d.magnitude := by
    rw [mantissa]
    split <;> omega
  have hsign : decide (d.mantissa < 0) = (d.negative && d.magnitude != 0) := by
    rw [mantissa, Bool.eq_iff_iff]
    cases d.negative <;> simp [Nat.pos_iff_ne_zero]
  rw [ofParts?, dif_pos ⟨habs ▸ d.magnitude_le, d.scale_le⟩]
  simp only [habs, hsign, denoted]

theorem readPlain?_text (d : Decimal) : readPlain? d.text.toList = some d.denoted := by
  obtain ⟨cs, h, hlength, htext⟩ := d.numeral_digits
  have hread := readUnsigned?_text h hlength
  rw [htext, ← ofParts?_mantissa, mantissa]
  cases d.negative with
  | true =>
    rw [if_pos rfl, if_pos rfl, List.singleton_append]
    simp only [readPlain?, hread, Option.bind_eq_bind, Option.bind_some]
  | false =>
    have hdigit : (if d.scale = 0 then cs
        else cs.take (cs.length - d.scale) ++ '.' :: cs.drop (cs.length - d.scale)).head?.any
          Char.isDigit = true := by
      obtain ⟨c, rest, rfl⟩ := List.exists_cons_of_ne_nil h.ne_nil
      have hc : c.isDigit = true := h.isDigit c List.mem_cons_self
      split
      · exact hc
      · obtain ⟨k, hk⟩ : ∃ k, (c :: rest).length - d.scale = k + 1 :=
          ⟨(c :: rest).length - d.scale - 1, by omega⟩
        rw [hk, List.take_succ_cons]
        exact hc
    rw [if_neg Bool.false_ne_true, if_neg Bool.false_ne_true, List.nil_append, readPlain?.eq_def]
    split
    · next heq => rw [heq] at hdigit; exact absurd hdigit Bool.false_ne_true
    · next heq => rw [heq] at hdigit; exact absurd hdigit Bool.false_ne_true
    · simp only [hread, Option.bind_eq_bind, Option.bind_some]

/-- **A decimal is read from its text as what that denotes**, with its scale. -/
theorem read?_text (d : Decimal) : read? d.text = some d.denoted := by
  rw [read?, readPlain?_text]
  rfl

end Number.Decimal

/-! ## Values -/

/-- The value that the text of a value denotes. -/
def Value.denoted : Value → Value
  | decimal d => decimal d.denoted
  | time t => time t.denoted
  | timestamp ts => timestamp ts.denoted
  | v => v

end SqlCompiler
