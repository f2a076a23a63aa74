import SqlCompiler.Proofs.Texts

/-!
# Levels of parentheses

The items of a list are separated by the commas outside all parentheses, and conditions by the
conjunctions there.  `Text.exposed` is what stands outside, given how many parentheses are open
where a text begins, and `Text.rise` says how many are open where it ends, provided that the text
closes none that it did not open.  With more parentheses around it, nothing of such a text is
exposed.

* `Text.exposed`, `Text.commas` — what is outside parentheses, and the commas there.
* `Text.rise`, with `rise_append` and `exposed_append`.
* `Text.climb` — the same for texts that expose neither commas nor conjunctions.
* `Spelling.isBalanced`, `Conditional.isBalanced` — the words of a dialect, taken together.
* `Dialect.Balanced` — a dialect whose words open and close parentheses in pairs, and
  `Database.balanced`.
-/

set_option autoImplicit false
namespace SqlCompiler
namespace Text

/-! ## What is outside parentheses -/

/-- The characters outside parentheses, of which `level` are open where the text begins. -/
def exposed (level : Nat) : List Char → List Char
  | [] => []
  | c :: cs =>
    if c = '(' then exposed (level + 1) cs
    else if c = ')' then exposed (level - 1) cs
    else if level = 0 then c :: exposed level cs
    else exposed level cs

/-- The number of commas outside parentheses, of which `level` are open where the text begins. -/
def commas (level : Nat) : List Char → Nat
  | [] => 0
  | c :: cs =>
    if c = '(' then commas (level + 1) cs
    else if c = ')' then commas (level - 1) cs
    else if c = ',' ∧ level = 0 then commas level cs + 1
    else commas level cs

/-- The number of parentheses open at the end of a text, of which `level` are open where it begins.
There is none if the text closes one more. -/
def rise (level : Nat) : List Char → Option Nat
  | [] => some level
  | c :: cs =>
    if c = '(' then rise (level + 1) cs
    else if c = ')' then if level = 0 then none else rise (level - 1) cs
    else rise level cs

theorem commas_eq_count (level : Nat) (cs : List Char) :
    commas level cs = (exposed level cs).count ',' := by
  fun_induction exposed level cs with
  | case1 => rfl
  | case2 level cs ih => rw [commas, if_pos rfl, ih]
  | case3 level cs _ ih => rw [commas, if_neg (by decide), if_pos rfl, ih]
  | case4 c cs hopening hclosing ih =>
    rw [commas, if_neg hopening, if_neg hclosing, List.count_cons, ih]
    by_cases hcomma : c = ',' <;> simp [hcomma]
  | case5 level c cs hopening hclosing hlevel ih =>
    rw [commas, if_neg hopening, if_neg hclosing, if_neg fun h => hlevel h.2, ih]

theorem rise_append {a b : List Char} {level between final : Nat}
    (ha : rise level a = some between) (hb : rise between b = some final) :
    rise level (a ++ b) = some final := by
  fun_induction rise level a with
  | case1 level =>
    cases ha
    exact hb
  | case2 level cs ih => rw [List.cons_append, rise, if_pos rfl, ih ha]
  | case3 => cases ha
  | case4 level cs hlevel _ ih =>
    rw [List.cons_append, rise, if_neg (by decide), if_pos rfl, if_neg hlevel, ih ha]
  | case5 level c cs hopening hclosing ih =>
    rw [List.cons_append, rise, if_neg hopening, if_neg hclosing, ih ha]

theorem exposed_append {a : List Char} {level between : Nat} (h : rise level a = some between)
    (b : List Char) : exposed level (a ++ b) = exposed level a ++ exposed between b := by
  fun_induction rise level a with
  | case1 level =>
    cases h
    rfl
  | case2 level cs ih =>
    rw [List.cons_append, exposed, if_pos rfl, ih h, exposed, if_pos rfl]
  | case3 => cases h
  | case4 level cs hlevel _ ih =>
    rw [List.cons_append, exposed, if_neg (by decide), if_pos rfl, ih h, exposed,
      if_neg (by decide), if_pos rfl]
  | case5 level c cs hopening hclosing ih =>
    rw [List.cons_append, exposed, if_neg hopening, if_neg hclosing, ih h, exposed,
      if_neg hopening, if_neg hclosing]
    split <;> rfl

/-- More parentheses around a text change nothing but what is exposed of it. -/
theorem rise_add {cs : List Char} {level final : Nat} (h : rise level cs = some final) (n : Nat) :
    rise (n + level) cs = some (n + final) := by
  fun_induction rise level cs with
  | case1 level =>
    cases h
    rfl
  | case2 level cs ih => rw [rise, if_pos rfl, Nat.add_assoc, ih h]
  | case3 => cases h
  | case4 level cs hlevel _ ih =>
    rw [rise, if_neg (by decide), if_pos rfl, if_neg (by omega),
      show n + level - 1 = n + (level - 1) by omega, ih h]
  | case5 level c cs hopening hclosing ih => rw [rise, if_neg hopening, if_neg hclosing, ih h]

theorem exposed_add {cs : List Char} {level final : Nat} (h : rise level cs = some final) {n : Nat}
    (hn : 0 < n) : exposed (n + level) cs = [] := by
  fun_induction rise level cs with
  | case1 => rfl
  | case2 level cs ih => rw [exposed, if_pos rfl, Nat.add_assoc, ih h]
  | case3 => cases h
  | case4 level cs hlevel _ ih =>
    rw [exposed, if_neg (by decide), if_pos rfl, show n + level - 1 = n + (level - 1) by omega,
      ih h]
  | case5 level c cs hopening hclosing ih =>
    rw [exposed, if_neg hopening, if_neg hclosing, if_neg (by omega), ih h]

/-- Without parentheses the level stays. -/
theorem rise_flat {cs : List Char} (h : ∀ c ∈ cs, c ≠ '(' ∧ c ≠ ')') (level : Nat) :
    rise level cs = some level := by
  induction cs with
  | nil => rfl
  | cons c cs ih =>
    obtain ⟨hopening, hclosing⟩ := h c List.mem_cons_self
    rw [rise, if_neg hopening, if_neg hclosing, ih fun c' hc' => h c' (List.mem_cons_of_mem _ hc')]

theorem exposed_flat {cs : List Char} (h : ∀ c ∈ cs, c ≠ '(' ∧ c ≠ ')') (level : Nat) :
    exposed level cs = if level = 0 then cs else [] := by
  induction cs with
  | nil => rw [exposed, ite_self]
  | cons c cs ih =>
    obtain ⟨hopening, hclosing⟩ := h c List.mem_cons_self
    rw [exposed, if_neg hopening, if_neg hclosing,
      ih fun c' hc' => h c' (List.mem_cons_of_mem _ hc')]
    split <;> rfl

theorem flat_of_bare {cs : List Char} (h : ∀ c ∈ cs, isSign c = false) :
    ∀ c ∈ cs, c ≠ '(' ∧ c ≠ ')' := by
  refine fun c hc => ⟨?_, ?_⟩ <;>
    · rintro rfl
      exact absurd (h _ hc) (by decide)

/-! ## Texts that expose neither commas nor conjunctions -/

/-- The number of parentheses open at the end of a text, of which `level` are open where it begins.
There is none if the text closes one more, or has a comma or a conjunction outside all of them. -/
def climb (level : Nat) (cs : List Char) : Option Nat :=
  if isCalm (exposed level cs) then rise level cs else none

theorem climb_eq_some_iff {cs : List Char} {level final : Nat} :
    climb level cs = some final
      ↔ isCalm (exposed level cs) = true ∧ rise level cs = some final := by
  rw [climb]
  split <;> simp_all

/-- More parentheses around a text change nothing. -/
theorem climb_add {cs : List Char} {level final : Nat} (h : climb level cs = some final) (n : Nat) :
    climb (n + level) cs = some (n + final) := by
  obtain ⟨hcalm, hrise⟩ := climb_eq_some_iff.mp h
  refine climb_eq_some_iff.mpr ⟨?_, rise_add hrise n⟩
  by_cases hn : n = 0
  · rwa [hn, Nat.zero_add]
  · rw [exposed_add hrise (Nat.pos_of_ne_zero hn)]
    rfl

/-- A bare text inside parentheses. -/
theorem climb_bare {s : String} (h : Bare s) (level : Nat) :
    climb (level + 1) s.toList = some (level + 1) := by
  have hflat := flat_of_bare h
  refine climb_eq_some_iff.mpr ⟨?_, rise_flat hflat _⟩
  rw [exposed_flat hflat, if_neg (Nat.succ_ne_zero level)]
  rfl

end Text

/-! ## The words of a dialect -/

open Text

/-- The parentheses of a spelling are closed in the end, for every number of arguments that a
function of the given arity takes. -/
def Spelling.isBalanced (s : Spelling) (a : Arity) : Bool :=
  (climb 0 s.opening.toList).any fun inside =>
    (2 ≤ a.least || climb inside s.closing.toList == some 0)
      && (a.most.any (· < 2) || (climb inside s.first.toList).any fun after =>
        (a.most.any (· < 3) || climb after s.next.toList == some after)
          && climb after s.closing.toList == some 0)

/-- A conditional is written inside one pair of parentheses. -/
def Conditional.isBalanced (c : Conditional) : Bool :=
  climb 0 c.opening.toList == some 1 && climb 1 c.first.toList == some 1
    && climb 1 c.next.toList == some 1 && climb 1 c.value.toList == some 1
    && climb 1 c.otherwise.toList == some 1 && climb 1 c.closing.toList == some 0

/-- A dialect whose words open and close parentheses in pairs. -/
structure Dialect.Balanced (d : Dialect) : Prop where
  legible : d.Legible
  spelling : ∀ f : Function, (∀ name, f ≠ .named name) → (d.spelling f).isBalanced f.arity = true
  conditional : d.conditional.isBalanced = true
  emptyFrom : climb 1 d.emptyFrom.toList = some 1
  unbounded : ∀ text, d.paging = .limit (some text) → Bare text
  next : climb 0 d.sequences.next.toList = some 1
  current : climb 0 d.sequences.current.toList = some 1
  closing : climb 1 d.sequences.closing.toList = some 0

theorem Spelling.isBalanced_standard {f : Function} (hf : ∀ name, f ≠ .named name) :
    (standard f).isBalanced f.arity = true := by
  cases f with
  | named name => exact absurd rfl (hf name)
  | _ => decide

theorem Database.isBalanced_spelling (b : Database) {f : Function} (hf : ∀ name, f ≠ .named name) :
    (b.dialect.spelling f).isBalanced f.arity = true := by
  have standard := Spelling.isBalanced_standard hf
  cases b with
  | h2 | sqlite => exact standard
  | postgres =>
    cases f with
    | database | user => decide
    | _ => exact standard
  | mysql =>
    cases f with
    | concat => decide
    | _ => exact standard
  | derby =>
    cases f with
    | modulo | user => decide
    | _ => exact standard
  | access =>
    cases f with
    | concat | modulo | length | lower | upper | currentDate => decide
    | _ => exact standard
  | sqlserver =>
    cases f with
    | concat | length | database | user | currentDate => decide
    | _ => exact standard

/-- **The built-in dialects are balanced.** -/
theorem Database.balanced (b : Database) : b.dialect.Balanced where
  legible := b.legible
  spelling _ hf := b.isBalanced_spelling hf
  conditional := by cases b <;> decide
  emptyFrom := by cases b <;> decide
  unbounded text h := by
    cases b with
    | mysql | sqlite => cases h; decide
    | _ => cases h
  next := by cases b <;> decide
  current := by cases b <;> decide
  closing := by cases b <;> decide

end SqlCompiler
