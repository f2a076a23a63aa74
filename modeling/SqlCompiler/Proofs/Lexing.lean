import SqlCompiler.Statement.Piece

/-!
# Quoted regions of a statement

A database looks for placeholders outside texts and names.  `Text.outside` is the scanner that
decides what is outside: it goes through a statement from left to right, skips a text between
apostrophes and a name between the quotation marks of the dialect, and inside either of them takes
a closing mark written twice for a part of what is quoted.

Two quoted regions side by side are read as one, so the pieces of a statement can be told apart
only if there are words or placeholders between them.  That is what `Piece.Spaced` says of a list
of pieces, and for such a list the scanner finds exactly the placeholders.

* `Text.scan`, `Text.outside`, `Text.placeholderCount` — the scanner.
* `Text.marked` — a text with a mark at every character that the scanner finds outside.
* `Text.Plain` — characters that mean nothing to the scanner.
* `Text.Skippable` — texts that the scanner gets over without finding a placeholder.
* `Piece.Spaced` and `Piece.count_outside_joined` — the placeholders of a list of pieces.
-/

set_option autoImplicit false
namespace SqlCompiler
namespace Text

/-! ## The scanner -/

/-- The characters outside quoted regions; `region` is the one that the scanner is in. -/
def scan (names : Quote) (region : Option Quote) : List Char → List Char
  | [] => []
  | c :: cs =>
    match region with
    | none =>
      if c = Quote.apostrophes.opening then scan names (some .apostrophes) cs
      else if c = names.opening then scan names (some names) cs
      else c :: scan names none cs
    | some q =>
      if c = q.closing then
        match cs with
        | [] => []
        | c' :: rest =>
          if c' = q.closing then scan names (some q) rest else scan names none (c' :: rest)
      else scan names (some q) cs

/-- The characters of a text that are outside quoted regions. -/
def outside (names : Quote) (cs : List Char) : List Char :=
  scan names none cs

/-- The characters of a text, each with whether it is outside quoted regions. -/
def marked (names : Quote) (region : Option Quote) : List Char → List (Char × Bool)
  | [] => []
  | c :: cs =>
    match region with
    | none =>
      if c = Quote.apostrophes.opening then (c, false) :: marked names (some .apostrophes) cs
      else if c = names.opening then (c, false) :: marked names (some names) cs
      else (c, true) :: marked names none cs
    | some q =>
      if c = q.closing then
        match cs with
        | [] => [(c, false)]
        | c' :: rest =>
          if c' = q.closing then (c, false) :: (c', false) :: marked names (some q) rest
          else (c, false) :: marked names none (c' :: rest)
      else (c, false) :: marked names (some q) cs

/-- The characters with a mark. -/
def shown (ms : List (Char × Bool)) : List Char :=
  (ms.filter Prod.snd).map Prod.fst

/-- The number of placeholders in a text. -/
def placeholderCount (names : Quote) (s : String) : Nat :=
  (outside names s.toList).count '?'

/-- A character that begins or ends a quoted region. -/
def Quote.Delimits (names : Quote) (c : Char) : Prop :=
  c = Quote.apostrophes.opening ∨ c = names.opening ∨ c = names.closing

/-- Quotation marks that are neither apostrophes nor placeholders. -/
structure Quote.Proper (names : Quote) : Prop where
  opening_ne : names.opening ≠ Quote.apostrophes.opening
  placeholder : ¬ names.Delimits '?'

/-- Characters that mean nothing to the scanner. -/
def Plain (names : Quote) (cs : List Char) : Prop :=
  ∀ c ∈ cs, ¬ names.Delimits c ∧ c ≠ '?'

/-- What can stand behind a quoted region: nothing, or a character that quotes nothing. -/
def Separated (names : Quote) (cs : List Char) : Prop :=
  ∀ c ∈ cs.head?, ¬ names.Delimits c

/-- A text that the scanner gets over without finding a placeholder. -/
def Skippable (names : Quote) (cs : List Char) : Prop :=
  ∀ rest, Separated names rest →
    (outside names (cs ++ rest)).count '?' = (outside names rest).count '?'

variable {names : Quote}

theorem shown_append (ms ns : List (Char × Bool)) : shown (ms ++ ns) = shown ms ++ shown ns := by
  simp [shown]

theorem shown_cons_true (c : Char) (ms : List (Char × Bool)) :
    shown ((c, true) :: ms) = c :: shown ms :=
  rfl

theorem shown_map (cs : List Char) (b : Bool) :
    shown (cs.map (·, b)) = if b then cs else [] := by
  cases b <;> simp [shown, List.filter_map, Function.comp_def]

theorem shown_marked (region : Option Quote) (cs : List Char) :
    shown (marked names region cs) = scan names region cs := by
  fun_induction marked names region cs <;> (rw [scan.eq_def]; simp_all [shown])

theorem outside_eq_shown (cs : List Char) : outside names cs = shown (marked names none cs) :=
  (shown_marked none cs).symm

/-- Nothing is lost or added by the marks. -/
theorem map_fst_marked (region : Option Quote) (cs : List Char) :
    (marked names region cs).map Prod.fst = cs := by
  fun_induction marked names region cs <;> simp_all

theorem marked_cons {c : Char} (h : ¬ names.Delimits c) (rest : List Char) :
    marked names none (c :: rest) = (c, true) :: marked names none rest := by
  rw [Quote.Delimits, not_or, not_or] at h
  rw [marked, if_neg h.1, if_neg h.2.1]

/-- Characters that quote nothing are outside. -/
theorem marked_append {cs : List Char} (h : ∀ c ∈ cs, ¬ names.Delimits c) (rest : List Char) :
    marked names none (cs ++ rest) = cs.map (·, true) ++ marked names none rest := by
  induction cs with
  | nil => rfl
  | cons c cs ih =>
    rw [List.cons_append, marked_cons (h c List.mem_cons_self),
      ih fun c' hc' => h c' (List.mem_cons_of_mem _ hc')]
    rfl

theorem outside_append {cs : List Char} (h : ∀ c ∈ cs, ¬ names.Delimits c) (rest : List Char) :
    outside names (cs ++ rest) = cs ++ outside names rest := by
  rw [outside_eq_shown, outside_eq_shown, marked_append h, shown_append, shown_map, if_pos rfl]

theorem outside_cons {c : Char} (h : ¬ names.Delimits c) (rest : List Char) :
    outside names (c :: rest) = c :: outside names rest := by
  have hplain : ∀ c' ∈ [c], ¬ names.Delimits c' := by
    intro c' hc'
    rwa [List.mem_singleton.mp hc']
  exact outside_append hplain rest

theorem outside_plain {cs : List Char} (h : Plain names cs) (rest : List Char) :
    outside names (cs ++ rest) = cs ++ outside names rest :=
  outside_append (fun c hc => (h c hc).1) rest

theorem count_outside_plain {cs : List Char} (h : Plain names cs) (rest : List Char) :
    (outside names (cs ++ rest)).count '?' = (outside names rest).count '?' := by
  have hcount : cs.count '?' = 0 := List.count_eq_zero.mpr fun hc => (h _ hc).2 rfl
  rw [outside_plain h, List.count_append, hcount, Nat.zero_add]

theorem marked_inside {q : Quote} {c : Char} (h : c ≠ q.closing) (cs : List Char) :
    marked names (some q) (c :: cs) = (c, false) :: marked names (some q) cs := by
  rw [marked.eq_def]
  exact if_neg h

theorem marked_doubled (q : Quote) (cs : List Char) :
    marked names (some q) (q.closing :: q.closing :: cs)
      = (q.closing, false) :: (q.closing, false) :: marked names (some q) cs := by
  rw [marked.eq_def]
  exact (if_pos rfl).trans (if_pos rfl)

theorem marked_closing {q : Quote} {rest : List Char} (h : ∀ c ∈ rest.head?, c ≠ q.closing) :
    marked names (some q) (q.closing :: rest) = (q.closing, false) :: marked names none rest := by
  rw [marked.eq_def]
  refine (if_pos rfl).trans ?_
  cases rest with
  | nil => rfl
  | cons c rest => exact if_neg (h c rfl)

/-- Inside a quoted region the scanner goes on to the closing mark. -/
theorem marked_double (q : Quote) (cs : List Char) {rest : List Char}
    (h : ∀ c ∈ rest.head?, c ≠ q.closing) :
    marked names (some q) (double q.closing cs ++ q.closing :: rest)
      = (double q.closing cs ++ [q.closing]).map (·, false) ++ marked names none rest := by
  induction cs with
  | nil => exact marked_closing h
  | cons c cs ih =>
    rw [double, List.flatMap_cons, List.append_assoc, List.append_assoc, List.map_append,
      List.append_assoc]
    by_cases hc : c = q.closing
    · rw [if_pos hc]
      exact (marked_doubled q _).trans (congrArg ([_, _] ++ ·) ih)
    · rw [if_neg hc]
      exact (marked_inside hc _).trans (congrArg ([_] ++ ·) ih)

/-- All of a quoted text is inside a quoted region. -/
theorem marked_write {q : Quote} (h : q = .apostrophes ∨ q = names) (hn : names.Proper)
    (s : String) {rest : List Char} (hrest : Separated names rest) :
    marked names none ((q.write s).toList ++ rest)
      = (q.write s).toList.map (·, false) ++ marked names none rest := by
  have hregion : marked names none ((q.write s).toList ++ rest)
      = (q.opening, false)
        :: marked names (some q) (double q.closing s.toList ++ q.closing :: rest) := by
    rw [Quote.write, String.toList_ofList, List.cons_append, List.append_assoc, marked]
    rcases h with rfl | rfl
    · exact if_pos rfl
    · exact (if_neg hn.opening_ne).trans (if_pos rfl)
  have hclosing : ∀ c ∈ rest.head?, c ≠ q.closing := by
    intro c hc heq
    refine hrest c hc ?_
    rcases h with rfl | rfl
    · exact .inl heq
    · exact .inr (.inr heq)
  rw [hregion, marked_double q s.toList hclosing, Quote.write, String.toList_ofList]
  rfl

/-- The scanner sees nothing of a quoted text. -/
theorem outside_write {q : Quote} (h : q = .apostrophes ∨ q = names) (hn : names.Proper)
    (s : String) {rest : List Char} (hrest : Separated names rest) :
    outside names ((q.write s).toList ++ rest) = outside names rest := by
  rw [outside_eq_shown, outside_eq_shown, marked_write h hn s hrest, shown_append, shown_map,
    if_neg Bool.false_ne_true, List.nil_append]

/-- So it gets over a quoted text. -/
theorem skippable_write {q : Quote} (h : q = .apostrophes ∨ q = names) (hn : names.Proper)
    (s : String) : Skippable names (q.write s).toList := by
  intro rest hrest
  rw [outside_write h hn s hrest]

theorem skippable_plain {cs : List Char} (h : Plain names cs) : Skippable names cs :=
  fun rest _ => count_outside_plain h rest

theorem separated_nil (names : Quote) : Separated names [] := by
  intro c hc
  cases hc

theorem separated_append {cs : List Char} (h : ∀ c ∈ cs, ¬ names.Delimits c) (hne : cs ≠ [])
    (rest : List Char) : Separated names (cs ++ rest) := by
  cases cs with
  | nil => exact absurd rfl hne
  | cons c cs =>
    intro c' hc'
    cases hc'
    exact h c List.mem_cons_self

theorem separated_plain {cs : List Char} (h : Plain names cs) (hne : cs ≠ []) (rest : List Char) :
    Separated names (cs ++ rest) :=
  separated_append (fun c hc => (h c hc).1) hne rest

end Text

/-! ## Pieces -/

namespace Piece

open Text

variable {names : Quote}

/-- A piece that is or may be a quoted region. -/
def isQuoted : Piece → Bool
  | words _ | placeholder _ | input => false
  | name _ | nameText _ | qualifier _ | constant _ => true

/-- Whether a piece is a placeholder. -/
def isPlaceholder : Piece → Bool
  | placeholder _ | input => true
  | _ => false

/-- Words that mean nothing to the scanner, and constants that it gets over. -/
def Fine (names : Quote) : Piece → Prop
  | words text => text.toList ≠ [] ∧ Plain names text.toList
  | constant text => Skippable names text.toList
  | qualifier (.verbatim text) => Skippable names text.toList
  | _ => True

/-- No two quoted pieces stand side by side.  A list that begins with a quoted piece is allowed
only where `before` says that there is none right before it. -/
def Spaced (names : Quote) (before : Bool) : List Piece → Prop
  | [] => True
  | p :: ps => (p.isQuoted = true → before = true) ∧ p.Fine names ∧ Spaced names (!p.isQuoted) ps

theorem Spaced.weaken {ps : List Piece} (h : Spaced names false ps) {before : Bool} :
    Spaced names before ps := by
  cases ps with
  | nil => trivial
  | cons p ps => exact ⟨fun hp => absurd (h.1 hp) Bool.false_ne_true, h.2⟩

theorem Spaced.front {ps qs : List Piece} : ∀ {before : Bool}, Spaced names before (ps ++ qs) →
    Spaced names before ps := by
  induction ps with
  | nil => intro before _; trivial
  | cons p ps ih => intro before h; exact ⟨h.1, h.2.1, ih h.2.2⟩

/-- The scanner gets over a quoted piece. -/
theorem skippable_text (hn : names.Proper) {p : Piece} (hq : p.isQuoted = true)
    (hp : p.Fine names) (hnumber : ∀ n : Nat, Plain names ("x" ++ toString n).toList) :
    Skippable names (p.text names).toList := by
  cases p with
  | words _ | placeholder _ | input => cases hq
  | name n => exact skippable_write (.inr rfl) hn n
  | nameText n => exact skippable_write (.inl rfl) hn _
  | constant text => exact hp
  | qualifier q =>
    cases q with
    | numbered n => exact skippable_plain (hnumber n)
    | table n => exact skippable_write (.inr rfl) hn n
    | verbatim text => exact hp

theorem joined_append (names : Quote) (ps qs : List Piece) :
    joined names (ps ++ qs) = joined names ps ++ joined names qs := by
  simp [joined]

theorem joined_cons (names : Quote) (p : Piece) (ps : List Piece) :
    joined names (p :: ps) = p.text names ++ joined names ps := by
  simp [joined]

theorem joined_singleton (names : Quote) (p : Piece) : joined names [p] = p.text names := by
  simp [joined]

theorem toList_joined_cons (p : Piece) (ps : List Piece) :
    (joined names (p :: ps)).toList = (p.text names).toList ++ (joined names ps).toList := by
  simp [joined]

/-- **The scanner finds the placeholders of a statement**, and after words or placeholders there is
nothing that could belong to a quoted region before them. -/
theorem count_outside_joined (hn : names.Proper)
    (hnumber : ∀ n : Nat, Plain names ("x" ++ toString n).toList) {ps : List Piece} :
    ∀ {before : Bool}, Spaced names before ps →
      (before = false → Separated names (joined names ps).toList)
        ∧ (outside names (joined names ps).toList).count '?' = ps.countP isPlaceholder := by
  induction ps with
  | nil =>
    intro before _
    refine ⟨fun _ c hc => ?_, rfl⟩
    cases hc
  | cons p ps ih =>
    intro before h
    obtain ⟨hquoted, hfine, hrest⟩ := h
    obtain ⟨hseparated, hcount⟩ := ih hrest
    rw [toList_joined_cons, List.countP_cons]
    have quoted : p.isQuoted = true → p.isPlaceholder = false →
        (before = false → Separated names ((p.text names).toList ++ (joined names ps).toList))
          ∧ (outside names ((p.text names).toList ++ (joined names ps).toList)).count '?'
            = ps.countP isPlaceholder + if p.isPlaceholder = true then 1 else 0 := by
      intro hp hplaceholder
      rw [hquoted hp, hplaceholder, ← hcount]
      rw [hp] at hseparated
      exact ⟨nofun, skippable_text hn hp hfine hnumber _ (hseparated rfl)⟩
    have placeholder : (before = false → Separated names ("?".toList ++ (joined names ps).toList))
        ∧ (outside names ("?".toList ++ (joined names ps).toList)).count '?'
          = ps.countP isPlaceholder + 1 := by
      rw [show "?".toList = ['?'] from rfl, List.singleton_append, outside_cons hn.placeholder,
        List.count_cons_self, hcount]
      refine ⟨fun _ c hc => ?_, rfl⟩
      cases hc
      exact hn.placeholder
    cases p with
    | words text =>
      refine ⟨fun _ => separated_plain hfine.2 hfine.1 _, ?_⟩
      exact (count_outside_plain hfine.2 _).trans hcount
    | placeholder setter => exact placeholder
    | input => exact placeholder
    | name n | nameText n | qualifier q | constant text => exact quoted rfl rfl

end Piece
end SqlCompiler
