import SqlCompiler.Dialect.Builtin
import SqlCompiler.Proofs.Emission
import SqlCompiler.Proofs.Lexing

/-!
# The texts of a statement

Whatever is written into a statement besides quoted names and texts is free of quotation marks and
of placeholders: the words of every dialect, the digits of numbers and dates, hexadecimal digits.
Constants are free of parentheses, commas and conjunctions as well, as far as they are not quoted.
So the scanner of `SqlCompiler.Proofs.Lexing` gets over every constant, and is not misled by any
word.

* `Text.isMark`, `Text.Neutral` — the marks that any dialect could mistake, and texts without them.
* `Text.isSign`, `Text.Bare` — marks, parentheses and commas, and texts without them.
* `Text.Solid` — texts without blanks as well, such as numbers and dates.
* `Text.isCalm` — characters without a comma, and without a blank that could begin a conjunction.
* `Text.Inert` — texts of which the scanner sees bare and calm characters; `Value.inert_inline` and
  `ColumnType.inert_inline` for constants.
* `Dialect.Legible` — a dialect whose words are free of marks, and `Database.legible`.
-/

set_option autoImplicit false
namespace SqlCompiler
namespace Text

/-- A placeholder, an apostrophe, or one of the quotation marks around names. -/
def isMark (c : Char) : Bool :=
  [63, 39, 34, 96, 91, 93].contains c.toNat

/-- A text without marks. -/
def Neutral (s : String) : Prop :=
  ∀ c ∈ s.toList, isMark c = false

instance (s : String) : Decidable (Neutral s) :=
  List.decidableBAll (fun c => isMark c = false) s.toList

/-- The quotation marks of some dialect. -/
def Quote.Known (names : Quote) : Prop :=
  names = .doubleQuotes ∨ names = .backquotes ∨ names = .brackets

theorem Quote.Known.proper {names : Quote} (h : names.Known) : names.Proper := by
  rcases h with rfl | rfl | rfl
  all_goals exact ⟨by decide, by rintro (h | h | h) <;> exact absurd h (by decide)⟩

theorem Quote.Known.isMark {names : Quote} (h : names.Known) {c : Char}
    (hc : names.Delimits c ∨ c = '?') : isMark c = true := by
  rcases h with rfl | rfl | rfl <;> rcases hc with (rfl | rfl | rfl) | rfl <;> decide

theorem Neutral.plain {names : Quote} (hn : names.Known) {s : String} (h : Neutral s) :
    Plain names s.toList := by
  intro c hc
  have hmark := h c hc
  refine ⟨fun hd => ?_, fun hd => ?_⟩
  · rw [hn.isMark (.inl hd)] at hmark; cases hmark
  · rw [hn.isMark (.inr hd)] at hmark; cases hmark

theorem Neutral.unquoted {names : Quote} (hn : names.Known) {s : String} (h : Neutral s) :
    ∀ c ∈ s.toList, ¬ names.Delimits c :=
  fun c hc => (h.plain hn c hc).1

theorem forall_mem_append {p : Char → Prop} {a b : String} (ha : ∀ c ∈ a.toList, p c)
    (hb : ∀ c ∈ b.toList, p c) : ∀ c ∈ (a ++ b).toList, p c := by
  intro c hc
  rw [String.toList_append] at hc
  rcases List.mem_append.mp hc with hc | hc
  · exact ha c hc
  · exact hb c hc

theorem neutral_append {a b : String} (ha : Neutral a) (hb : Neutral b) : Neutral (a ++ b) :=
  forall_mem_append ha hb

/-- A mark, a parenthesis or a comma. -/
def isSign (c : Char) : Bool :=
  isMark c || [40, 41, 44].contains c.toNat

/-- A text without marks, parentheses and commas. -/
def Bare (s : String) : Prop :=
  ∀ c ∈ s.toList, isSign c = false

instance (s : String) : Decidable (Bare s) :=
  List.decidableBAll (fun c => isSign c = false) s.toList

theorem Bare.neutral {s : String} (h : Bare s) : Neutral s :=
  fun c hc => (Bool.or_eq_false_iff.mp (h c hc)).1

theorem bare_append {a b : String} (ha : Bare a) (hb : Bare b) : Bare (a ++ b) :=
  forall_mem_append ha hb

/-- A bare text without blanks. -/
def Solid (s : String) : Prop :=
  ∀ c ∈ s.toList, isSign c = false ∧ c ≠ ' '

instance (s : String) : Decidable (Solid s) :=
  List.decidableBAll (fun c => isSign c = false ∧ c ≠ ' ') s.toList

theorem Solid.bare {s : String} (h : Solid s) : Bare s :=
  fun c hc => (h c hc).1

theorem solid_append {a b : String} (ha : Solid a) (hb : Solid b) : Solid (a ++ b) :=
  forall_mem_append ha hb

theorem solid_ofList {cs : List Char} (h : ∀ c ∈ cs, isSign c = false ∧ c ≠ ' ') :
    Solid (String.ofList cs) := by
  intro c hc
  rw [String.toList_ofList] at hc
  exact h c hc

theorem solid_of_isDigit {c : Char} (h : c.isDigit = true) : isSign c = false ∧ c ≠ ' ' := by
  have hrange : 48 ≤ c.toNat ∧ c.toNat ≤ 57 := by
    simp only [Char.isDigit, Bool.and_eq_true, decide_eq_true_eq] at h
    exact h
  constructor
  · simp only [isSign, isMark, List.contains_cons, List.contains_nil, Bool.or_false,
      Bool.or_eq_false_iff, beq_eq_false_iff_ne, ne_eq]
    omega
  · rintro rfl
    exact absurd hrange.1 (by decide)

theorem isDigit_toString (n : Nat) : ∀ c ∈ (toString n).toList, c.isDigit = true := by
  intro c hc
  have hc : c ∈ Nat.toDigits 10 n := by simpa [toString, Nat.toList_repr] using hc
  exact Nat.isDigit_of_mem_toDigits (by decide) (by decide) hc

theorem isDigit_zeros (n : Nat) :
    ∀ c ∈ (String.ofList (List.replicate n '0')).toList, c.isDigit = true := by
  intro c hc
  rw [String.toList_ofList] at hc
  rw [List.eq_of_mem_replicate hc]
  decide

theorem solid_toString (n : Nat) : Solid (toString n) :=
  fun c hc => solid_of_isDigit (isDigit_toString n c hc)

theorem solid_zeros (n : Nat) : Solid (String.ofList (List.replicate n '0')) :=
  fun c hc => solid_of_isDigit (isDigit_zeros n c hc)

theorem solid_toString_int (n : Int) : Solid (toString n) := by
  cases n with
  | ofNat n => exact solid_toString n
  | negSucc n => exact solid_append (a := "-") (by decide) (solid_toString (n + 1))

theorem solid_hexDigit {n : Nat} (h : n < 16) :
    isSign (hexDigit n).toUpper = false ∧ (hexDigit n).toUpper ≠ ' ' := by
  have hall : ∀ n < 16, isSign (hexDigit n).toUpper = false ∧ (hexDigit n).toUpper ≠ ' ' := by
    decide
  exact hall n h

theorem solid_hexUpper (bs : List UInt8) : Solid (hexUpper bs) := by
  refine solid_ofList fun c hc => ?_
  obtain ⟨c', hc', rfl⟩ := List.mem_map.mp hc
  obtain ⟨b, -, hb⟩ := List.mem_flatMap.mp hc'
  have hlt : b.toNat < 256 := b.toNat_lt
  rcases List.mem_cons.mp hb with rfl | hb
  · exact solid_hexDigit (by omega)
  · rw [List.mem_singleton.mp hb]
    exact solid_hexDigit (by omega)

/-- A part of a solid text is solid. -/
theorem solid_part {s : String} (h : Solid s) {cs : List Char} (hcs : cs ⊆ s.toList) :
    Solid (String.ofList cs) :=
  solid_ofList fun c hc => h c (hcs hc)

/-- A text with a point in it. -/
theorem solid_point {s : String} (h : Solid s) (n : Nat) :
    Solid (String.ofList (s.toList.take n) ++ "." ++ String.ofList (s.toList.drop n)) :=
  solid_append (solid_append (solid_part h (List.take_subset n _)) (by decide))
    (solid_part h (List.drop_subset n _))

theorem solid_sign (negative : Prop) [Decidable negative] {s : String} (h : Solid s) :
    Solid (if negative then "-" ++ s else s) := by
  split
  · exact solid_append (by decide) h
  · exact h

/-! ## Numbers and dates -/

theorem solid_positional (x : Number.Scientific) : Solid x.positional := by
  have hdigits := solid_toString x.digits
  rw [Number.Scientific.positional]
  split
  · exact solid_append hdigits (solid_zeros _)
  · dsimp only
    split
    · exact solid_point hdigits _
    · exact solid_append (solid_append (by decide) (solid_zeros _)) hdigits

theorem solid_class (f : Number.Format) (x : Number.Class) : Solid (x.text f) := by
  cases x with
  | nan =>
    rw [Number.Class.text]
    decide
  | infinite negative =>
    rw [Number.Class.text]
    cases negative <;> decide
  | finite negative significand exponent =>
    refine solid_sign _ ?_
    split
    · decide
    · exact solid_positional _

theorem solid_decimal (d : Number.Decimal) : Solid d.text := by
  have hpadded : Solid (Number.Scientific.zeros
      (d.scale + 1 - (toString d.magnitude).length) ++ toString d.magnitude) :=
    solid_append (solid_zeros _) (solid_toString _)
  rw [Number.Decimal.text]
  refine solid_sign _ ?_
  split
  · exact hpadded
  · exact solid_point hpadded _

theorem isDigit_padded (width n : Nat) :
    ∀ c ∈ (Calendar.padded width n).toList, c.isDigit = true :=
  forall_mem_append (isDigit_zeros _) (isDigit_toString n)

theorem solid_padded (width n : Nat) : Solid (Calendar.padded width n) :=
  fun c hc => solid_of_isDigit (isDigit_padded width n c hc)

theorem solid_date (d : Calendar.Date) : Solid d.text := by
  have hyear : Solid (Calendar.yearText d.year) := by
    rw [Calendar.yearText]
    split
    · exact solid_append (by decide) (solid_padded _ _)
    · split
      · exact solid_append (by decide) (solid_padded _ _)
      · exact solid_padded _ _
  exact solid_append (solid_append (solid_append (solid_append hyear (by decide))
    (solid_padded _ _)) (by decide)) (solid_padded _ _)

theorem solid_clock (t : Calendar.Time) : Solid t.clock :=
  solid_append (solid_append (solid_append (solid_append (solid_padded _ _) (by decide))
    (solid_padded _ _)) (by decide)) (solid_padded _ _)

theorem neutral_timestamp (ts : Calendar.Timestamp) : Neutral ts.text := by
  have hfraction : Solid ts.time.fraction := by
    rw [Calendar.Time.fraction]
    split
    · decide
    · split
      · exact solid_append (by decide) (solid_padded _ _)
      · split <;> exact solid_append (by decide) (solid_padded _ _)
  exact neutral_append (neutral_append (solid_date _).bare.neutral (by decide))
    (neutral_append (solid_clock _).bare.neutral hfraction.bare.neutral)

/-! ## Conjunctions -/

/-- Whether the characters behind a blank make a conjunction of it, or could do so together with
what is written behind them. -/
def conjoins : List Char → Bool
  | [] => true
  | c :: cs => c == 'a' || (c == 'o' && cs.head?.all (· == 'r'))

/-- Characters without a comma, and without a blank that begins a conjunction. -/
def isCalm : List Char → Bool
  | [] => true
  | c :: cs => c != ',' && !(c == ' ' && conjoins cs) && isCalm cs

theorem conjoins_append {a : List Char} (h : conjoins a = false) (b : List Char) :
    conjoins (a ++ b) = false := by
  match a with
  | [] => cases h
  | [c] => simp_all [conjoins]
  | c :: c' :: cs => simpa [conjoins] using h

theorem isCalm_append {a b : List Char} (ha : isCalm a = true) (hb : isCalm b = true) :
    isCalm (a ++ b) = true := by
  induction a with
  | nil => exact hb
  | cons c cs ih =>
    simp only [isCalm, Bool.and_eq_true, Bool.not_eq_true', Bool.and_eq_false_iff] at ha
    obtain ⟨⟨hcomma, hblank⟩, hcalm⟩ := ha
    simp only [List.cons_append, isCalm, hcomma, ih hcalm, Bool.true_and, Bool.and_true,
      Bool.not_eq_true', Bool.and_eq_false_iff]
    exact hblank.imp id fun h => conjoins_append h b

theorem isCalm_of_forall {cs : List Char} (h : ∀ c ∈ cs, c ≠ ',' ∧ c ≠ ' ') :
    isCalm cs = true := by
  induction cs with
  | nil => rfl
  | cons c cs ih =>
    obtain ⟨hcomma, hblank⟩ := h c List.mem_cons_self
    simp [isCalm, hcomma, hblank, ih fun c' hc' => h c' (List.mem_cons_of_mem _ hc')]

theorem comma_notMem_of_isCalm {cs : List Char} (h : isCalm cs = true) : ',' ∉ cs := by
  induction cs with
  | nil => exact List.not_mem_nil
  | cons c cs ih =>
    simp only [isCalm, Bool.and_eq_true, bne_iff_ne] at h
    rw [List.mem_cons, not_or]
    exact ⟨fun hc => h.1.1 hc.symm, ih h.2⟩

theorem Solid.isCalm {s : String} (h : Solid s) : isCalm s.toList = true := by
  refine isCalm_of_forall fun c hc => ⟨?_, (h c hc).2⟩
  rintro rfl
  exact absurd (h _ hc).1 (by decide)

/-! ## Constants -/

variable {names : Quote}

/-- A text that the scanner gets over, and of which it sees bare and calm characters only. -/
def Inert (names : Quote) (cs : List Char) : Prop :=
  ∃ ms : List (Char × Bool), (∀ c ∈ shown ms, isSign c = false) ∧ isCalm (shown ms) = true
    ∧ ∀ rest, Separated names rest → marked names none (cs ++ rest) = ms ++ marked names none rest

theorem Inert.skippable {cs : List Char} (h : Inert names cs) : Skippable names cs := by
  obtain ⟨ms, hbare, -, hmarked⟩ := h
  have hcount : (shown ms).count '?' = 0 :=
    List.count_eq_zero.mpr fun hc => absurd (hbare _ hc) (by decide)
  intro rest hrest
  rw [outside_eq_shown, outside_eq_shown, hmarked rest hrest, shown_append, List.count_append,
    hcount, Nat.zero_add]

theorem inert_bare (hn : names.Known) {s : String} (h : Bare s) (hcalm : isCalm s.toList = true) :
    Inert names s.toList := by
  refine ⟨s.toList.map (·, true), ?_, ?_, fun rest _ => ?_⟩
  · rwa [shown_map, if_pos rfl]
  · rwa [shown_map, if_pos rfl]
  · exact marked_append (h.neutral.unquoted hn) rest

theorem inert_solid (hn : names.Known) {s : String} (h : Solid s) : Inert names s.toList :=
  inert_bare hn h.bare h.isCalm

/-- A quoted text or name between two texts of the language. -/
theorem inert_around {q : Quote} (hq : q = .apostrophes ∨ q = names) (hn : names.Known)
    (before s behind : String) (h : Bare (before ++ behind))
    (hcalm : isCalm (before ++ behind).toList = true) :
    Inert names (before ++ q.write s ++ behind).toList := by
  have hplain := h.neutral.unquoted hn
  simp only [String.toList_append, List.mem_append] at hplain
  have hshown : shown (before.toList.map (·, true) ++ (q.write s).toList.map (·, false)
      ++ behind.toList.map (·, true)) = (before ++ behind).toList := by
    simp [shown_append, shown_map]
  refine ⟨_, by rwa [hshown], by rwa [hshown], fun rest hrest => ?_⟩
  have hbehind : Separated names (behind.toList ++ rest) := by
    by_cases hempty : behind.toList = []
    · rwa [hempty]
    · exact separated_append (fun c hc => hplain c (.inr hc)) hempty rest
  simp only [String.toList_append, List.append_assoc]
  rw [marked_append fun c hc => hplain c (.inl hc), marked_write hq hn.proper s hbehind,
    marked_append fun c hc => hplain c (.inr hc)]

theorem inert_write {q : Quote} (hq : q = .apostrophes ∨ q = names) (hn : names.Known)
    (s : String) : Inert names (q.write s).toList := by
  simpa using inert_around hq hn "" s "" (by decide) (by decide)

/-- Nothing is doubled in a text without marks. -/
theorem double_of_neutral {s : String} (h : Neutral s) :
    double Quote.apostrophes.closing s.toList = s.toList := by
  rw [double]
  have hne : ∀ c ∈ s.toList, c ≠ Quote.apostrophes.closing := by
    rintro c hc rfl
    exact absurd (h _ hc) (by decide)
  generalize s.toList = cs at hne
  induction cs with
  | nil => rfl
  | cons c cs ih =>
    rw [List.flatMap_cons, if_neg (hne c List.mem_cons_self),
      ih fun c' hc' => hne c' (List.mem_cons_of_mem _ hc')]
    rfl

theorem inert_escapeClause (hn : names.Known) {keyword content : String}
    (hk : Bare ("\x7b" ++ keyword ++ " \x7d"))
    (hcalm : isCalm ("\x7b" ++ keyword ++ " \x7d").toList = true) (hc : Neutral content) :
    Inert names (Value.escapeClause keyword content).toList := by
  have hquoted : Value.escapeClause keyword content
      = "\x7b" ++ keyword ++ " " ++ Quote.apostrophes.write content ++ "\x7d" := by
    have hapostrophe : " '".toList = " ".toList ++ [Quote.apostrophes.opening] := rfl
    have hclose : "'\x7d".toList = Quote.apostrophes.closing :: "\x7d".toList := rfl
    refine String.ext ?_
    rw [Quote.write, double_of_neutral hc]
    simp [Value.escapeClause, hapostrophe, hclose]
  have hbraces : "\x7b" ++ keyword ++ " " ++ "\x7d" = "\x7b" ++ keyword ++ " \x7d" :=
    String.append_assoc
  rw [hquoted]
  refine inert_around (.inl rfl) hn _ _ _ ?_ ?_ <;> rwa [hbraces]

end Text

open Text

/-- What the scanner sees of a constant in the usual form is bare and calm. -/
theorem Value.inert_inline {names : Quote} (hn : names.Known) {kind : Kind} {v : Value}
    {text : String} (h : v.inline kind = .ok text) : Inert names text.toList := by
  have solid : ∀ {s : String}, Solid s → Except.ok s = v.inline kind →
      Inert names text.toList := by
    intro s hs hv
    cases hv.trans h
    exact inert_solid hn hs
  have quoted : ∀ {s : String}, Except.ok (quoteText s) = v.inline kind →
      Inert names text.toList := by
    intro s hv
    cases hv.trans h
    exact inert_write (.inl rfl) hn s
  have escaped : ∀ {keyword content : String}, Bare ("\x7b" ++ keyword ++ " \x7d") →
      isCalm ("\x7b" ++ keyword ++ " \x7d").toList = true → Neutral content →
      Except.ok (escapeClause keyword content) = v.inline kind → Inert names text.toList := by
    intro keyword content hk hcalm hc hv
    cases hv.trans h
    exact inert_escapeClause hn hk hcalm hc
  cases v with
  | null => exact solid (by decide) rfl
  | bool b => cases b <;> exact solid (by decide) rfl
  | short n => exact solid (solid_toString_int _) rfl
  | int n => exact solid (solid_toString_int _) rfl
  | long n => exact solid (solid_toString_int _) rfl
  | float x => exact solid (solid_class _ _) rfl
  | double x => exact solid (solid_class _ _) rfl
  | decimal d => exact solid (solid_decimal d) rfl
  | string s => exact quoted rfl
  | date d => exact escaped (by decide) (by decide) (solid_date d).bare.neutral rfl
  | time t => exact escaped (by decide) (by decide) (solid_clock t).bare.neutral rfl
  | timestamp ts => exact escaped (by decide) (by decide) (neutral_timestamp ts) rfl
  | uuid u => exact quoted rfl
  | bytes bs =>
    rw [inline] at h
    split at h
    · cases h
    · cases h
      simpa [quoteText] using
        inert_around (.inl rfl) hn "X" (hexUpper bs) "" (by decide) (by decide)

theorem solid_hashed {s : String} (h : Solid s) : Solid (ColumnType.hashed s) :=
  solid_append (solid_append (by decide) h) (by decide)

/-- There is a digit behind the blank between a date and a time. -/
theorem conjoins_clock (t : Calendar.Time) (rest : List Char) :
    conjoins (t.clock.toList ++ rest) = false := by
  rw [Calendar.Time.clock]
  simp only [String.toList_append, List.append_assoc]
  cases hcs : (Calendar.padded 2 t.hour).toList with
  | nil => simp [Calendar.padded] at hcs
  | cons c cs =>
    have hdigit := isDigit_padded 2 t.hour c (by simp [hcs])
    have hletters : c ≠ 'a' ∧ c ≠ 'o' := by
      constructor <;>
        · rintro rfl
          exact absurd hdigit (by decide)
    simp [conjoins, hletters]

theorem inert_hashed {names : Quote} (hn : names.Known) (d : Calendar.Date) (t : Calendar.Time) :
    Inert names (ColumnType.hashed (d.text ++ " " ++ t.clock)).toList := by
  have hfront : Solid ("#" ++ d.text) := solid_append (by decide) (solid_date d)
  have hback : Solid (t.clock ++ "#") := solid_append (solid_clock t) (by decide)
  have htext : ColumnType.hashed (d.text ++ " " ++ t.clock)
      = ("#" ++ d.text) ++ " " ++ (t.clock ++ "#") := by
    simp only [ColumnType.hashed, String.append_assoc]
  rw [htext]
  refine inert_bare hn (bare_append (bare_append hfront.bare (by decide)) hback.bare) ?_
  rw [String.toList_append, String.toList_append, List.append_assoc]
  refine isCalm_append hfront.isCalm ?_
  change isCalm (' ' :: (t.clock ++ "#").toList) = true
  have hdigit : conjoins (t.clock ++ "#").toList = false := by
    rw [String.toList_append]
    exact conjoins_clock t _
  rw [isCalm, hdigit, hback.isCalm]
  rfl

/-- **What the scanner sees of a constant is bare and calm.** -/
theorem ColumnType.inert_inline {names : Quote} (hn : names.Known) {c : ColumnType}
    {v : Value} {text : String} (h : c.inline v = .ok text) : Inert names text.toList := by
  have inert : ∀ {s : String}, Inert names s.toList → (pure s : Except Error String) = .ok text →
      Inert names text.toList := by
    intro s hs hv
    cases hv
    exact hs
  have solid : ∀ {s : String}, Solid s → (pure s : Except Error String) = .ok text →
      Inert names text.toList :=
    fun hs => inert (inert_solid hn hs)
  cases c with
  | standard kind code name =>
    obtain ⟨w, -, h⟩ := bind_eq_ok_iff.mp h
    exact Value.inert_inline hn h
  | numericBoolean code name =>
    obtain ⟨w, -, h⟩ := bind_eq_ok_iff.mp h
    split at h
    · exact solid (solid_toString_int _) h
    · exact solid (by decide) h
  | textUuid =>
    obtain ⟨w, -, h⟩ := bind_eq_ok_iff.mp h
    exact Value.inert_inline hn h
  | bytea =>
    obtain ⟨w, -, h⟩ := bind_eq_ok_iff.mp h
    split at h
    · refine inert ?_ h
      simpa [Value.quoteText] using
        inert_around (.inl rfl) hn "" _ "::bytea" (by decide) (by decide)
    · exact Value.inert_inline hn h
  | varbinary kind =>
    obtain ⟨w, -, h⟩ := bind_eq_ok_iff.mp h
    split at h
    · exact solid (solid_append (by decide) (solid_hexUpper _)) h
    · exact Value.inert_inline hn h
  | datetime kind =>
    obtain ⟨w, -, h⟩ := bind_eq_ok_iff.mp h
    split at h
    · exact solid (solid_hashed (solid_date _)) h
    · exact solid (solid_hashed (solid_clock _)) h
    · exact inert (inert_hashed hn _ _) h
    · exact solid (by decide) h

/-! ## The text of a context -/

/-- Only what is added to a context is added to its text. -/
theorem Context.text_after (names : Quote) (c : Context) (o : Output) :
    (c.after o).text names = c.text names ++ Piece.joined names o.pieces := by
  simp [Context.text, Context.after, Piece.joined_append]

/-! ## The words of a dialect -/

/-- A text that is not empty and has no marks. -/
def Text.IsWord (s : String) : Prop :=
  s.toList ≠ [] ∧ Neutral s

instance (s : String) : Decidable (IsWord s) :=
  inferInstanceAs (Decidable (_ ∧ _))

theorem Text.IsWord.append {a b : String} (ha : IsWord a) (hb : Neutral b) : IsWord (a ++ b) := by
  refine ⟨?_, neutral_append ha.2 hb⟩
  rw [String.toList_append]
  exact List.append_ne_nil_of_left_ne_nil ha.1 _

theorem Text.IsWord.prepend {a b : String} (ha : Neutral a) (hb : IsWord b) : IsWord (a ++ b) := by
  refine ⟨?_, neutral_append ha hb.2⟩
  rw [String.toList_append]
  exact List.append_ne_nil_of_right_ne_nil _ hb.1

namespace Spelling

/-- The words of a spelling have no marks, and there are some wherever two arguments would stand
side by side otherwise. -/
structure Legible (s : Spelling) (a : Arity) : Prop where
  opening : IsWord s.opening
  first : a.most.any (· < 2) = true ∨ IsWord s.first
  next : a.most.any (· < 3) = true ∨ IsWord s.next
  closing : Neutral s.closing

theorem legible_operator {symbol : String} (h : Neutral symbol) (a : Arity) :
    (operator symbol).Legible a := by
  have hword : IsWord (" " ++ symbol ++ " ") :=
    (IsWord.append (by decide) h).append (by decide)
  exact ⟨show IsWord "(" by decide, .inr hword, .inr hword, show Neutral ")" by decide⟩

theorem legible_call {name : String} (h : Neutral name) (a : Arity) : (call name).Legible a := by
  have hcomma : IsWord ", " := by decide
  exact ⟨IsWord.prepend h (by decide), .inr hcomma, .inr hcomma, show Neutral ")" by decide⟩

theorem legible_constant {text : String} (h : IsWord text) {a : Arity} (ha : a.most = some 0) :
    (constant text).Legible a := by
  refine ⟨h, .inl ?_, .inl ?_, show Neutral "" by decide⟩ <;> rw [ha] <;> rfl

theorem legible_standard {f : Function} (hf : ∀ name, f ≠ .named name) :
    (standard f).Legible f.arity := by
  cases f with
  | named name => exact absurd rfl (hf name)
  | eq | ne | lt | le | gt | ge | and | or | plus | minus | times | divide | modulo | concat =>
    exact legible_operator (by decide) _
  | lower | upper | length | abs | coalesce | count | sum | avg | min | max =>
    exact legible_call (by decide) _
  | countAll | currentDate | database | user => exact legible_constant (by decide) rfl
  | not | isNull | countDistinct | hasRows => exact ⟨by decide, .inl rfl, .inl rfl, by decide⟩
  | isIn | like => exact ⟨by decide, .inr (by decide), .inr (by decide), by decide⟩

end Spelling

/-- The words of a conditional have no marks, and there are some between any two branches. -/
structure Conditional.Legible (c : Conditional) : Prop where
  opening : IsWord c.opening
  first : Neutral c.first
  next : IsWord c.next
  value : IsWord c.value
  otherwise : IsWord c.otherwise
  closing : IsWord c.closing

/-- A dialect with known quotation marks and with words that have no marks. -/
structure Dialect.Legible (d : Dialect) : Prop where
  quote : d.quote.Known
  spelling : ∀ f : Function, (∀ name, f ≠ .named name) → (d.spelling f).Legible f.arity
  named : ∀ name, d.spelling (.named name) = .call name
  conditional : d.conditional.Legible
  emptyFrom : Neutral d.emptyFrom
  unbounded : ∀ text, d.paging = .limit (some text) → Neutral text
  next : IsWord d.sequences.next
  current : IsWord d.sequences.current
  closing : IsWord d.sequences.closing

theorem Conditional.legible_cases : Conditional.cases.Legible := by
  constructor <;> decide

theorem Conditional.legible_switch : Conditional.switch.Legible := by
  constructor <;> decide

theorem Database.legible_spelling (b : Database) {f : Function} (hf : ∀ name, f ≠ .named name) :
    (b.dialect.spelling f).Legible f.arity := by
  have standard := Spelling.legible_standard hf
  cases b with
  | h2 | sqlite => exact standard
  | postgres =>
    cases f with
    | database | user => exact Spelling.legible_constant (by decide) rfl
    | _ => exact standard
  | mysql =>
    cases f with
    | concat => exact Spelling.legible_call (by decide) _
    | _ => exact standard
  | derby =>
    cases f with
    | modulo => exact Spelling.legible_call (by decide) _
    | user => exact Spelling.legible_constant (by decide) rfl
    | _ => exact standard
  | access =>
    cases f with
    | concat | modulo => exact Spelling.legible_operator (by decide) _
    | length | lower | upper => exact Spelling.legible_call (by decide) _
    | currentDate => exact Spelling.legible_constant (by decide) rfl
    | _ => exact standard
  | sqlserver =>
    cases f with
    | concat => exact Spelling.legible_operator (by decide) _
    | length => exact Spelling.legible_call (by decide) _
    | database | user | currentDate => exact Spelling.legible_constant (by decide) rfl
    | _ => exact standard

/-- **The built-in dialects are legible.** -/
theorem Database.legible (b : Database) : b.dialect.Legible where
  quote := by
    cases b with
    | mysql => exact .inr (.inl rfl)
    | access | sqlserver => exact .inr (.inr rfl)
    | _ => exact .inl rfl
  spelling _ hf := b.legible_spelling hf
  named _ := by cases b <;> rfl
  conditional := by
    cases b with
    | access => exact Conditional.legible_switch
    | _ => exact Conditional.legible_cases
  emptyFrom := by cases b <;> decide
  unbounded text h := by
    cases b with
    | mysql | sqlite => cases h; decide
    | _ => cases h
  next := by cases b <;> decide
  current := by cases b <;> decide
  closing := by cases b <;> decide

end SqlCompiler
