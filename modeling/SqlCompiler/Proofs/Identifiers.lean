import Mathlib.Algebra.Ring.Nat
import SqlCompiler.Text.Blank
import SqlCompiler.Uuid

/-!
# Identifiers read back

The hyphenated text of an identifier is one of the forms in which identifiers are read, and reading
it gives the identifier back, also after blanks around it are trimmed: the digits are those of the
number, the hyphens stand where they are looked for, and no digit can be taken for the brace or the
name that introduces another form.

* `Text.readHex?_hexDigits` — digits read back, as the remainder that they write.
* `Uuid.unhyphenate?_hyphenate` — hyphens put in and taken out.
* `Uuid.read?_text`, `Uuid.trim_text` — the text of an identifier.
-/

set_option autoImplicit false
namespace SqlCompiler
namespace Text

/-! ## Digits -/

theorem hexValue?_hexDigit {n : Nat} (h : n < 16) : hexValue? (hexDigit n) = some n := by
  have hall : ∀ n < 16, hexValue? (hexDigit n) = some n := by decide
  exact hall n h

theorem length_hexDigits (width n : Nat) : (hexDigits width n).length = width := by
  induction width generalizing n with
  | zero => rfl
  | succ width ih => simp [hexDigits, ih]

theorem mem_hexDigits {width n : Nat} {c : Char} (h : c ∈ hexDigits width n) :
    ∃ m < 16, c = hexDigit m := by
  induction width generalizing n with
  | zero => simp [hexDigits] at h
  | succ width ih =>
    rcases List.mem_append.mp h with h | h
    · exact ih h
    · exact ⟨n % 16, Nat.mod_lt n (by decide), List.mem_singleton.mp h⟩

theorem readHex?_append_singleton (cs : List Char) (c : Char) :
    readHex? (cs ++ [c]) = (readHex? cs).bind fun n => (hexValue? c).map (16 * n + ·) := by
  simp [readHex?, List.foldlM_append]

/-- The lowest digits of a number denote what is left of it. -/
theorem readHex?_hexDigits (width n : Nat) :
    readHex? (hexDigits width n) = some (n % 16 ^ width) := by
  induction width generalizing n with
  | zero => simp [hexDigits, readHex?, Nat.mod_one]
  | succ width ih =>
    rw [hexDigits, readHex?_append_singleton, ih, Option.bind_some,
      hexValue?_hexDigit (Nat.mod_lt n (by decide)), Option.map_some, Nat.pow_succ,
      Nat.mul_comm (16 ^ width), Nat.mod_mul, Nat.add_comm]

/-! ## Blanks -/

theorem trimLeft_eq_self {cs : List Char} (h : ∀ c ∈ cs, isBlank c = false) : trimLeft cs = cs := by
  cases cs with
  | nil => rfl
  | cons c cs => rw [trimLeft, List.dropWhile_cons_of_neg (by simp [h c])]

/-- Trimming keeps a text without blanks. -/
theorem trim_eq_self {s : String} (h : ∀ c ∈ s.toList, isBlank c = false) : trim s = s := by
  have hreverse : trimLeft s.toList.reverse = s.toList.reverse :=
    trimLeft_eq_self fun c hc => h c (List.mem_reverse.mp hc)
  rw [trim, trimLeft_eq_self h, hreverse, List.reverse_reverse, String.ofList_toList]

end Text

namespace Uuid
open Text

/-! ## Hyphens -/

theorem mem_hyphenate {ns : List Nat} {cs : List Char} {c : Char} (h : c ∈ hyphenate ns cs) :
    c = '-' ∨ c ∈ cs := by
  fun_induction hyphenate ns cs with
  | case1 => exact .inr h
  | case2 => exact .inr h
  | case3 cs n ns _ ih =>
    rcases List.mem_append.mp h with h | h
    · exact .inr (List.mem_of_mem_take h)
    rcases List.mem_cons.mp h with h | h
    · exact .inl h
    · exact (ih h).imp id List.mem_of_mem_drop

theorem length_hyphenate {n : Nat} {ns : List Nat} {cs : List Char}
    (h : cs.length = (n :: ns).sum) : (hyphenate (n :: ns) cs).length = cs.length + ns.length := by
  induction ns generalizing n cs with
  | nil => rfl
  | cons m ns ih =>
    rw [List.sum_cons] at h
    have hdrop : (cs.drop n).length = (m :: ns).sum := by rw [List.length_drop]; omega
    rw [hyphenate, List.length_append, List.length_cons, ih hdrop, List.length_take,
      List.length_drop, List.length_cons]
    · omega
    · simp

/-- Hyphens are found where they were put. -/
theorem unhyphenate?_hyphenate {n : Nat} {ns : List Nat} {cs : List Char}
    (h : cs.length = (n :: ns).sum) :
    unhyphenate? (n :: ns) (hyphenate (n :: ns) cs) = some cs := by
  induction ns generalizing n cs with
  | nil =>
    simp only [List.sum_cons, List.sum_nil, Nat.add_zero] at h
    rw [hyphenate, unhyphenate?, if_pos h]
  | cons m ns ih =>
    rw [List.sum_cons] at h
    have hdrop : (cs.drop n).length = (m :: ns).sum := by rw [List.length_drop]; omega
    have htake : (cs.take n).length = n := by rw [List.length_take]; omega
    rw [hyphenate, unhyphenate?, List.drop_left' htake, List.take_left' htake]
    · simp only
      rw [ih hdrop, Option.map_some, List.take_append_drop]
    · simp
    · simp

/-! ## The text of an identifier -/

theorem length_digits (u : Uuid) : (hexDigits 32 u.value.toNat).length = groups.sum :=
  length_hexDigits 32 u.value.toNat

/-- The characters of the text of an identifier. -/
def characters : List Char :=
  '-' :: (List.range 16).map hexDigit

theorem mem_text {u : Uuid} {c : Char} (h : c ∈ u.text.toList) : c ∈ characters := by
  rw [text, String.toList_ofList] at h
  rcases mem_hyphenate h with rfl | hdigit
  · exact List.mem_cons_self
  · obtain ⟨m, hm, rfl⟩ := mem_hexDigits hdigit
    exact List.mem_cons_of_mem _ (List.mem_map_of_mem (List.mem_range.mpr hm))

/-- There are no blanks around the text of an identifier. -/
theorem trim_text (u : Uuid) : trim u.text = u.text := by
  have hblank : characters.all (fun c => isBlank c = false) = true := by decide
  exact trim_eq_self fun c hc => of_decide_eq_true (List.all_eq_true.mp hblank c (mem_text hc))

theorem readHyphenated?_text (u : Uuid) : readHyphenated? u.text.toList = some u := by
  have hvalue : u.value.toNat % 16 ^ 32 = u.value.toNat := Nat.mod_eq_of_lt u.value.isLt
  rw [readHyphenated?, text, String.toList_ofList, groups, unhyphenate?_hyphenate (length_digits u),
    Option.bind_some, readPlain?, if_pos (length_hexDigits 32 _), readHex?_hexDigits, hvalue,
    Option.map_some, BitVec.ofNat_toNat, BitVec.setWidth_eq]

/-- **An identifier is read back from its text.** -/
theorem read?_text (u : Uuid) : read? u.text = some u := by
  -- no character of the text begins one of the other forms
  have hother : characters.all (fun c => c ≠ '\x7b' ∧ c.toLower ≠ 'u') = true := by decide
  have hlength : u.text.toList.length = 36 := by
    rw [text, String.toList_ofList, groups, length_hyphenate (length_digits u), length_hexDigits]
    rfl
  have hread := readHyphenated?_text u
  have hmem : ∀ c ∈ u.text.toList, c ∈ characters := fun _ => mem_text
  rw [read?]
  generalize u.text.toList = cs at hlength hread hmem
  cases cs with
  | nil => cases hlength
  | cons c cs =>
    obtain ⟨hbrace, hu⟩ :=
      of_decide_eq_true (List.all_eq_true.mp hother c (hmem c List.mem_cons_self))
    have hurn : ((c :: cs).take 9).map Char.toLower ≠ urn := fun h => hu (List.cons.inj h).1
    have hplain : (c :: cs).length ≠ 32 := by rw [hlength]; decide
    split
    · next h => exact absurd (List.cons.inj h).1 hbrace
    · rw [if_neg hurn, if_neg hplain, hread]

end Uuid
end SqlCompiler
