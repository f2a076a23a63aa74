import SqlCompiler.Dialect.Builtin
import SqlCompiler.Proofs.WrittenScalars

/-!
# Dates and times written inline

A date or a time can be sent to a database in two ways: bound to a placeholder, as the cell that its
column type makes of it, or written into the statement.  The two mean the same only if the constant
still shows everything that is in the cell.  A date does, and so does a timestamp on most databases:
they can be read back from their texts.  The constant of a time of day ends with its seconds, on
every database, and so does that of a timestamp where dates stand between number signs.  There the
fraction of a second is lost, and nothing else: a leap second that ends a minute is still told from
the second before.  Every other leap second has the text of the next second, so what a constant
carries is said of what the texts denote.

* `Calendar.Time.text_eq_iff`, `Calendar.Timestamp.text_eq_iff` — texts are equal if they denote the
  same.
* `Calendar.Time.whole` — a time without the fraction of its second; its text is what
  `Calendar.Time.clock` shows of the time.
* `Value.Moment` — the values that the column types of dates and times accept.
* `Database.carried` — what the constant of such a value carries: all that its text denotes, or all
  but the fraction where `Database.dropsFraction`.
* `Database.inline_moment` — the constant shows all of what it carries.
* `Database.inline_eq_iff` — two constants are the same exactly if they carry the same.
* `Database.inline_loses_fraction` — two times, and two timestamps, that are written alike.
-/

set_option autoImplicit false
namespace SqlCompiler
namespace Calendar

open Text

/-! ## Texts that can be read back -/

theorem Date.text_inj {d e : Date} : d.text = e.text ↔ d = e := by
  refine ⟨fun h => ?_, congrArg Date.text⟩
  have hread := congrArg Date.read? h
  rw [Date.read?_text, Date.read?_text] at hread
  exact Option.some.inj hread

/-- A time is written like the time that its text denotes. -/
theorem Time.text_denoted (t : Time) : t.denoted.text = t.text := by
  rw [denoted]
  split
  · rfl
  · next h =>
    obtain ⟨-, hlong⟩ := not_or.mp h
    have hnano := t.isTime.2.2.2
    have hdiv : t.nanosecond / 1000000000 = 1 := by omega
    have hdiv' : (t.nanosecond - 1000000000) / 1000000000 = 0 := by omega
    have hmod : (t.nanosecond - 1000000000) % 1000000000 = t.nanosecond % 1000000000 := by omega
    simp only [text, clock, fraction, hdiv, hdiv', hmod, Nat.add_zero]

theorem Time.text_eq_iff {t u : Time} : t.text = u.text ↔ t.denoted = u.denoted := by
  constructor
  · intro h
    have hread := congrArg Time.read? h
    rw [Time.read?_text, Time.read?_text] at hread
    exact Option.some.inj hread
  · intro h
    rw [← t.text_denoted, ← u.text_denoted, h]

/-- The date of a timestamp ends at the blank before its time. -/
theorem Timestamp.datePart?_text (ts : Timestamp) :
    datePart? ts.text.toList = some (ts.date, ts.time.text.toList) := by
  have hblank : trimLeft (' ' :: ts.time.text.toList) = trimLeft ts.time.text.toList :=
    List.dropWhile_cons_of_pos (by decide)
  have htime : trimLeft ts.time.text.toList = ts.time.text.toList := by
    rw [Time.toList_text, trimLeft_numeral (numeral_padded 2 ts.time.hour)]
  have htext : ts.text.toList = ts.date.text.toList ++ ' ' :: ts.time.text.toList := by
    simp [Timestamp.text, Timestamp.textWith]
  rw [htext, Calendar.datePart?_text, hblank, htime]

theorem Timestamp.text_denoted (ts : Timestamp) : ts.denoted.text = ts.text := by
  rw [text, text, textWith, textWith, denoted, Time.text_denoted]

theorem Timestamp.text_eq_iff {ts us : Timestamp} :
    ts.text = us.text ↔ ts.denoted = us.denoted := by
  constructor
  · intro h
    have hread := congrArg (fun t : String => datePart? t.toList) h
    simp only [Timestamp.datePart?_text, Option.some.injEq, Prod.mk.injEq] at hread
    have htime := Time.text_eq_iff.mp (String.toList_inj.mp hread.2)
    rw [denoted, denoted, hread.1, htime]
  · intro h
    rw [← ts.text_denoted, ← us.text_denoted, h]

/-! ## Whole seconds -/

/-- A time without the fraction of its second; a leap second stays one. -/
def Time.whole (t : Time) : Time where
  hour := t.hour
  minute := t.minute
  second := t.second
  nanosecond := t.nanosecond / 1000000000 * 1000000000
  isTime := by
    obtain ⟨hhour, hminute, hsecond, hnano⟩ := t.isTime
    exact ⟨hhour, hminute, hsecond, by omega⟩

/-- A timestamp without the fraction of its second. -/
def Timestamp.whole (ts : Timestamp) : Timestamp :=
  { ts with time := ts.time.whole }

/-- The clock shows all of a time but the fraction of its second. -/
theorem Time.text_whole (t : Time) : t.whole.text = t.clock := by
  have hfraction : t.whole.fraction = "" := by
    rw [Time.fraction, whole]
    simp
  have hclock : t.whole.clock = t.clock := by
    rw [clock, clock, whole]
    simp
  rw [Time.text, hfraction, hclock, String.append_empty]

theorem Timestamp.text_whole (ts : Timestamp) :
    ts.whole.text = ts.date.text ++ " " ++ ts.time.clock := by
  rw [Timestamp.text, Timestamp.textWith, whole, Time.text_whole]

end Calendar

/-! ## Values and their constants -/

/-- A value of one of the kinds of dates and times, or null in their place. -/
inductive Value.Moment : Kind → Value → Prop
  | null (k : Kind) : Moment k .null
  | date (d : Calendar.Date) : Moment .date (.date d)
  | time (t : Calendar.Time) : Moment .time (.time t)
  | timestamp (ts : Calendar.Timestamp) : Moment .timestamp (.timestamp ts)

namespace Value

/-- A value without the fraction of a second. -/
def whole : Value → Value
  | time t => time t.whole
  | timestamp ts => timestamp ts.whole
  | v => v

/-- The text that shows all of a date or a time. -/
def shown : Value → String
  | date d => d.text
  | time t => t.text
  | timestamp ts => ts.text
  | _ => "null"

theorem Moment.whole {k : Kind} {v : Value} (h : Moment k v) : Moment k v.whole := by
  cases h with
  | null => exact .null k
  | date d => exact .date d
  | time t => exact .time t.whole
  | timestamp ts => exact .timestamp ts.whole

theorem Moment.shown_eq_iff {k : Kind} {v w : Value} (hv : Moment k v) (hw : Moment k w)
    (hnull : v ≠ .null) (hnull' : w ≠ .null) : v.shown = w.shown ↔ v.denoted = w.denoted := by
  cases hv with
  | null => exact absurd rfl hnull
  | date d =>
    cases hw with
    | null => exact absurd rfl hnull'
    | date e => exact Calendar.Date.text_inj.trans (date.injEq d e).to_iff.symm
  | time t =>
    cases hw with
    | null => exact absurd rfl hnull'
    | time u => exact Calendar.Time.text_eq_iff.trans (time.injEq _ _).to_iff.symm
  | timestamp ts =>
    cases hw with
    | null => exact absurd rfl hnull'
    | timestamp us =>
      exact Calendar.Timestamp.text_eq_iff.trans (timestamp.injEq _ _).to_iff.symm

theorem denoted_eq_null_iff {v : Value} : v.denoted = .null ↔ v = .null := by
  cases v <;> simp [denoted]

/-- Only a date or a time becomes one, and it stays as it is. -/
theorem coerce_moment_iff {k : Kind} (hk : k = .date ∨ k = .time ∨ k = .timestamp) {v x : Value} :
    v.coerce k = .ok x ↔ x = v ∧ Moment k v := by
  constructor
  · intro h
    rcases hk with rfl | rfl | rfl <;> cases v <;> cases h <;> exact ⟨rfl, by constructor⟩
  · rintro ⟨rfl, h⟩
    cases h <;> rfl

end Value

/-- The keyword of the escape clause of a date or a time. -/
def Kind.keyword : Kind → String
  | .date => "d"
  | .time => "t"
  | _ => "ts"

namespace Database

/-- The constant leaves out the fraction of a second. -/
def dropsFraction (b : Database) (k : Kind) : Bool :=
  k = .time || k = .timestamp && b = .access

/-- What the constant of a date or a time shows of it. -/
def kept (b : Database) (k : Kind) (v : Value) : Value :=
  if b.dropsFraction k then v.whole else v

/-- What the constant of a date or a time carries. -/
def carried (b : Database) (k : Kind) (v : Value) : Value :=
  (b.kept k v).denoted

/-- A text between the marks of a date or a time. -/
def marked (b : Database) (k : Kind) (s : String) : String :=
  if b = .access then ColumnType.hashed s else Value.escapeClause k.keyword s

/-- The constant that shows all of a date or a time. -/
def constant (b : Database) (k : Kind) (v : Value) : String :=
  if v = .null then "null" else b.marked k v.shown

theorem column_moment (b : Database) {k : Kind} (hk : k = .date ∨ k = .time ∨ k = .timestamp) :
    (b = .access ∧ b.dialect.types.column k = .datetime k) ∨
    (b ≠ .access ∧ ∃ code name, b.dialect.types.column k = .standard k code name) := by
  cases b with
  | access => exact .inl ⟨rfl, by rcases hk with rfl | rfl | rfl <;> rfl⟩
  | postgres | mysql | sqlite | h2 | derby | sqlserver =>
    refine .inr ⟨by decide, ?_⟩
    rcases hk with rfl | rfl | rfl <;> exact ⟨_, _, rfl⟩

/-- A date or a time is its own cell, and a column type of its kind accepts nothing else. -/
theorem toCell_moment_iff (b : Database) {k : Kind} (hk : k = .date ∨ k = .time ∨ k = .timestamp)
    {v x : Value} :
    (b.dialect.types.column k).toCell v = .ok x ↔ x = v ∧ v.Moment k := by
  rw [← Value.coerce_moment_iff hk]
  obtain ⟨-, hcolumn⟩ | ⟨-, code, name, hcolumn⟩ := b.column_moment hk
  · rw [hcolumn]; rfl
  · rw [hcolumn]; rfl

theorem marked_inj {b : Database} {k : Kind} {s t : String} :
    b.marked k s = b.marked k t ↔ s = t := by
  rw [marked, marked]
  split
  · rw [ColumnType.hashed, ColumnType.hashed, String.append_left_inj, String.append_right_inj]
  · rw [Value.escapeClause, Value.escapeClause, String.append_left_inj, String.append_right_inj]

theorem marked_ne_null (b : Database) (k : Kind) (s : String) : b.marked k s ≠ "null" := by
  intro h
  have hhead := congrArg (fun t : String => t.toList.head?) h
  rw [marked] at hhead
  split at hhead
  · simp [ColumnType.hashed] at hhead
  · simp [Value.escapeClause] at hhead

theorem constant_null (b : Database) (k : Kind) : b.constant k .null = "null" :=
  if_pos rfl

theorem constant_of_ne_null (b : Database) (k : Kind) {v : Value} (h : v ≠ .null) :
    b.constant k v = b.marked k v.shown :=
  if_neg h

/-- **The constants that show all of two dates or times are the same if their texts denote the
same.** -/
theorem constant_eq_iff (b : Database) {k : Kind} {v w : Value} (hv : v.Moment k)
    (hw : w.Moment k) : b.constant k v = b.constant k w ↔ v.denoted = w.denoted := by
  by_cases hnull : v = .null
  · by_cases hnull' : w = .null
    · simp [hnull, hnull']
    · rw [hnull, constant_null, constant_of_ne_null b k hnull']
      refine iff_of_false (b.marked_ne_null k _).symm fun h => hnull' ?_
      exact Value.denoted_eq_null_iff.mp h.symm
  · by_cases hnull' : w = .null
    · rw [hnull', constant_null, constant_of_ne_null b k hnull]
      exact iff_of_false (b.marked_ne_null k _) fun h => hnull (Value.denoted_eq_null_iff.mp h)
    · rw [constant_of_ne_null b k hnull, constant_of_ne_null b k hnull', marked_inj]
      exact hv.shown_eq_iff hw hnull hnull'

theorem marked_of_ne_access {b : Database} (hb : b ≠ .access) (k : Kind) (s : String) :
    b.marked k s = Value.escapeClause k.keyword s :=
  if_neg hb

theorem constant_time_whole (b : Database) (t : Calendar.Time) :
    b.constant .time (.time t.whole) = b.marked .time t.clock := by
  rw [constant_of_ne_null b _ (by simp), Value.shown, Calendar.Time.text_whole]

theorem constant_timestamp_whole (b : Database) (ts : Calendar.Timestamp) :
    b.constant .timestamp (.timestamp ts.whole)
      = b.marked .timestamp (ts.date.text ++ " " ++ ts.time.clock) := by
  rw [constant_of_ne_null b _ (by simp), Value.shown, Calendar.Timestamp.text_whole]

theorem kept_of_drops {b : Database} {k : Kind} (h : b.dropsFraction k = true) (v : Value) :
    b.kept k v = v.whole :=
  if_pos h

theorem kept_of_not_drops {b : Database} {k : Kind} (h : b.dropsFraction k = false)
    (v : Value) : b.kept k v = v :=
  if_neg (by simp [h])

theorem kind_of_drops {b : Database} {k : Kind} (h : b.dropsFraction k = true) :
    k = .time ∨ k = .timestamp := by
  simp only [dropsFraction, Bool.or_eq_true, Bool.and_eq_true, decide_eq_true_eq] at h
  exact h.imp_right And.left

theorem moment_kept (b : Database) {k : Kind} {v : Value} (h : v.Moment k) :
    (b.kept k v).Moment k := by
  rw [kept]
  split
  · exact h.whole
  · exact h

/-- **The constant of a date or a time shows all of what is kept of it.** -/
theorem inline_moment (b : Database) {k : Kind} (hk : k = .date ∨ k = .time ∨ k = .timestamp)
    {v : Value} (h : v.Moment k) :
    (b.dialect.types.column k).inline v = .ok (b.constant k (b.kept k v)) := by
  have hnull : b.kept k .null = .null := by rw [kept]; split <;> rfl
  have htime : b.dropsFraction .time = true := by simp [dropsFraction]
  -- a clock is all that is shown of a value without its fraction, so only the marks are left to do
  obtain ⟨rfl, hcolumn⟩ | ⟨hb, code, name, hcolumn⟩ := b.column_moment hk
  · rw [hcolumn]
    cases h with
    | null => rw [hnull, constant_null]; rfl
    | date d => rfl
    | time t =>
      rw [kept_of_drops htime, Value.whole, constant_time_whole]
      rfl
    | timestamp ts =>
      rw [kept_of_drops rfl, Value.whole, constant_timestamp_whole]
      rfl
  · rw [hcolumn]
    cases h with
    | null => rw [hnull, constant_null]; rfl
    | date d =>
      have hdate : b.dropsFraction .date = false := by simp [dropsFraction]
      rw [kept_of_not_drops hdate, constant_of_ne_null b _ (by simp), marked_of_ne_access hb]
      rfl
    | time t =>
      rw [kept_of_drops htime, Value.whole, constant_time_whole, marked_of_ne_access hb]
      rfl
    | timestamp ts =>
      have hstamp : b.dropsFraction .timestamp = false := by simp [dropsFraction, hb]
      rw [kept_of_not_drops hstamp, constant_of_ne_null b _ (by simp), marked_of_ne_access hb]
      rfl

theorem constant_kept_eq_iff (b : Database) {k : Kind} {v w : Value} (hv : v.Moment k)
    (hw : w.Moment k) :
    b.constant k (b.kept k v) = b.constant k (b.kept k w) ↔ b.carried k v = b.carried k w :=
  b.constant_eq_iff (b.moment_kept hv) (b.moment_kept hw)

end Database

/-! ## What a constant tells apart -/

/-- Values that are written alike are bound alike, provided that their texts denote them. -/
def ColumnType.LosesNothing (c : ColumnType) : Prop :=
  ∀ v w x y, v.denoted = v → w.denoted = w → c.toCell v = .ok x → c.toCell w = .ok y →
    c.inline v = c.inline w → x = y

/-- Two values that differ in the fraction of a second only. -/
theorem Value.exists_whole_eq {k : Kind} (hk : k = .time ∨ k = .timestamp) :
    ∃ v w : Value, v.Moment k ∧ w.Moment k ∧ v.denoted = v ∧ w.denoted = w ∧ v.whole = w.whole
      ∧ v ≠ w := by
  let ten : Calendar.Time := ⟨10, 0, 0, 0, by decide⟩
  let later : Calendar.Time := ⟨10, 0, 0, 500000000, by decide⟩
  let newYear : Calendar.Date := ⟨2024, 1, 1, by decide⟩
  rcases hk with rfl | rfl
  · exact ⟨.time ten, .time later, .time ten, .time later, by decide, by decide, by decide,
      by decide⟩
  · exact ⟨.timestamp ⟨newYear, ten⟩, .timestamp ⟨newYear, later⟩, .timestamp _, .timestamp _,
      by decide, by decide, by decide, by decide⟩

namespace Database

theorem losesNothing_moment_iff (b : Database) {k : Kind}
    (hk : k = .date ∨ k = .time ∨ k = .timestamp) :
    (b.dialect.types.column k).LosesNothing ↔ b.dropsFraction k = false := by
  refine ⟨fun hall => ?_, fun hkeeps => ?_⟩
  · rw [← Bool.not_eq_true]
    intro hdrops
    obtain ⟨v, w, hv, hw, hshown, hshown', hwhole, hne⟩ :=
      Value.exists_whole_eq (kind_of_drops hdrops)
    refine hne (hall v w v w hshown hshown' ((b.toCell_moment_iff hk).mpr ⟨rfl, hv⟩)
      ((b.toCell_moment_iff hk).mpr ⟨rfl, hw⟩) ?_)
    rw [b.inline_moment hk hv, b.inline_moment hk hw, kept_of_drops hdrops,
      kept_of_drops hdrops, hwhole]
  · intro v w x y hshown hshown' hv hw heq
    obtain ⟨rfl, hv⟩ := (b.toCell_moment_iff hk).mp hv
    obtain ⟨rfl, hw⟩ := (b.toCell_moment_iff hk).mp hw
    rw [b.inline_moment hk hv, b.inline_moment hk hw, Except.ok.injEq,
      b.constant_kept_eq_iff hv hw] at heq
    rwa [carried, carried, kept_of_not_drops hkeeps, kept_of_not_drops hkeeps, hshown,
      hshown'] at heq

/-- **Two constants of a kind of dates or times are the same exactly if they carry the same, so
that constants lose nothing that their texts can show exactly where they keep the fraction of a
second.** -/
theorem inline_eq_iff (b : Database) {k : Kind} (hk : k = .date ∨ k = .time ∨ k = .timestamp) :
    (∀ v w x y, (b.dialect.types.column k).toCell v = .ok x →
      (b.dialect.types.column k).toCell w = .ok y →
      ∃ t u, (b.dialect.types.column k).inline v = .ok t ∧
        (b.dialect.types.column k).inline w = .ok u ∧
        (t = u ↔ b.carried k x = b.carried k y)) ∧
    ((b.dialect.types.column k).LosesNothing ↔ b.dropsFraction k = false) := by
  refine ⟨fun v w x y hv hw => ?_, b.losesNothing_moment_iff hk⟩
  obtain ⟨rfl, hv⟩ := (b.toCell_moment_iff hk).mp hv
  obtain ⟨rfl, hw⟩ := (b.toCell_moment_iff hk).mp hw
  exact ⟨_, _, b.inline_moment hk hv, b.inline_moment hk hw, b.constant_kept_eq_iff hv hw⟩

/-- On MySQL a leap second is told from the second before it, and timestamps lose nothing. -/
theorem inline_eq_iff_leap_second :
    (∃ t u, (mysql.dialect.types.column .time).inline
          (.time ⟨23, 59, 59, 250000000, by decide⟩) = .ok t ∧
      (mysql.dialect.types.column .time).inline
          (.time ⟨23, 59, 59, 1250000000, by decide⟩) = .ok u ∧ t ≠ u) ∧
    (mysql.dialect.types.column .timestamp).LosesNothing := by
  obtain ⟨t, u, ht, hu, heq⟩ := (mysql.inline_eq_iff (.inr (.inl rfl))).1
    (.time ⟨23, 59, 59, 250000000, by decide⟩) (.time ⟨23, 59, 59, 1250000000, by decide⟩)
    _ _ rfl rfl
  refine ⟨⟨t, u, ht, hu, fun h => ?_⟩, (mysql.inline_eq_iff (.inr (.inr rfl))).2.mpr rfl⟩
  exact absurd (heq.mp h) (by decide)

/-- Half a second is lost from a time on every database, as here on PostgreSQL, and from a
timestamp on Access. -/
theorem inline_loses_fraction :
    let ten : Calendar.Time := ⟨10, 0, 0, 0, by decide⟩
    let later : Calendar.Time := ⟨10, 0, 0, 500000000, by decide⟩
    let newYear : Calendar.Date := ⟨2024, 1, 1, by decide⟩
    let time := postgres.dialect.types.column .time
    let timestamp := access.dialect.types.column .timestamp
    (time.toCell (.time ten) = .ok (.time ten) ∧ time.toCell (.time later) = .ok (.time later)
      ∧ time.inline (.time ten) = .ok "\x7bt '10:00:00'\x7d"
      ∧ time.inline (.time later) = .ok "\x7bt '10:00:00'\x7d"
      ∧ ¬ time.LosesNothing)
    ∧ timestamp.toCell (.timestamp ⟨newYear, ten⟩) = .ok (.timestamp ⟨newYear, ten⟩)
      ∧ timestamp.toCell (.timestamp ⟨newYear, later⟩) = .ok (.timestamp ⟨newYear, later⟩)
      ∧ timestamp.inline (.timestamp ⟨newYear, ten⟩) = .ok "#2024-01-01 10:00:00#"
      ∧ timestamp.inline (.timestamp ⟨newYear, later⟩) = .ok "#2024-01-01 10:00:00#"
      ∧ ¬ timestamp.LosesNothing := by
  intro ten later newYear time timestamp
  have htime : ¬ time.LosesNothing := by
    rw [postgres.losesNothing_moment_iff (.inr (.inl rfl))]
    decide
  have htimestamp : ¬ timestamp.LosesNothing := by
    rw [access.losesNothing_moment_iff (.inr (.inr rfl))]
    decide
  exact ⟨⟨rfl, rfl, by decide +kernel, by decide +kernel, htime⟩, rfl, rfl, by decide +kernel,
    by decide +kernel, htimestamp⟩

end Database
end SqlCompiler
