import Mathlib.Data.List.Forall2
import SqlCompiler.Json.Printer
import SqlCompiler.Json.Reader
import SqlCompiler.Proofs.Identifiers
import SqlCompiler.Proofs.WrittenScalars

/-!
# Reading what was printed

The reader goes through a text in two passes, and so do the proofs here.  The lexer finds in the
text of a document the tokens of that document: each of its states is followed through the text of
a string or a number, and a number or a word stays open until a mark comes after it.  The builder
then puts the tokens together, and leaves out what is nested too deeply.

* `Json.clip` — a document without what is nested more than so deeply.
* `Json.tokens` — the tokens of a document.
* `Lexer.Reads`, `Lexer.Ends` — what the lexer makes of a part of a text.
* `Builder.foldlM_tokens` — what the builder makes of the tokens of a document.
* `Json.read?_text` — a printed document is read back, down to the greatest depth.
-/

set_option autoImplicit false
namespace SqlCompiler
namespace Json

/-! ## Documents -/

mutual
/-- Whether a document has no number but whole ones of 64 bits, and no part without a value. -/
def isPlain : Json → Bool
  | null | bool _ | string _ => true
  | int n => decide (Int64.minValue.toInt ≤ n ∧ n < UInt64.size)
  | float _ | unread => false
  | array items => plainItems items
  | object members => plainMembers members

/-- Whether the items of an array are plain. -/
def plainItems : List Json → Bool
  | [] => true
  | j :: js => j.isPlain && plainItems js

/-- Whether the members of an object are plain. -/
def plainMembers : List (String × Json) → Bool
  | [] => true
  | (_, j) :: js => j.isPlain && plainMembers js
end

mutual
/-- How deeply arrays and objects are nested in each other. -/
def nesting : Json → Nat
  | array items => nestingItems items + 1
  | object members => nestingMembers members + 1
  | _ => 0

/-- The deepest nesting among the items of an array. -/
def nestingItems : List Json → Nat
  | [] => 0
  | j :: js => max j.nesting (nestingItems js)

/-- The deepest nesting among the members of an object. -/
def nestingMembers : List (String × Json) → Nat
  | [] => 0
  | (_, j) :: js => max j.nesting (nestingMembers js)
end

mutual
/-- A document, with no value for the arrays and objects that are nested more than so deeply. -/
def clip : Nat → Json → Json
  | 0, array _ => unread
  | 0, object _ => unread
  | levels + 1, array items => array (clipItems levels items)
  | levels + 1, object members => object (clipMembers levels members)
  | _, j => j

/-- The items of an array, each clipped. -/
def clipItems : Nat → List Json → List Json
  | _, [] => []
  | levels, j :: js => j.clip levels :: clipItems levels js

/-- The members of an object, each clipped. -/
def clipMembers : Nat → List (String × Json) → List (String × Json)
  | _, [] => []
  | levels, (name, j) :: js => (name, j.clip levels) :: clipMembers levels js
end

mutual
/-- What is not nested too deeply is left as it is. -/
theorem clip_eq_self : ∀ {j : Json} {levels : Nat}, j.nesting ≤ levels → j.clip levels = j
  | null, levels, _ | bool _, levels, _ | int _, levels, _ | float _, levels, _
  | string _, levels, _ | unread, levels, _ => by cases levels <;> rfl
  | array items, 0, h | object members, 0, h => by simp [nesting] at h
  | array items, levels + 1, h => by
    rw [nesting] at h
    rw [clip, clipItems_eq_self (by omega)]
  | object members, levels + 1, h => by
    rw [nesting] at h
    rw [clip, clipMembers_eq_self (by omega)]

theorem clipItems_eq_self : ∀ {js : List Json} {levels : Nat}, nestingItems js ≤ levels →
    clipItems levels js = js
  | [], _, _ => rfl
  | j :: js, levels, h => by
    rw [nestingItems] at h
    rw [clipItems, clip_eq_self (by omega), clipItems_eq_self (by omega)]

theorem clipMembers_eq_self : ∀ {js : List (String × Json)} {levels : Nat},
    nestingMembers js ≤ levels → clipMembers levels js = js
  | [], _, _ => rfl
  | (name, j) :: js, levels, h => by
    rw [nestingMembers] at h
    rw [clipMembers, clip_eq_self (by omega), clipMembers_eq_self (by omega)]
end

mutual
/-- The tokens of a document. -/
def tokens : Json → List Token
  | string s => [.text (some s)]
  | array items => .openArray :: [.comma].intercalate (itemTokens items) ++ [.closeArray]
  | object members => .openObject :: [.comma].intercalate (memberTokens members) ++ [.closeObject]
  | j => [.value j]

/-- The tokens of each item of an array. -/
def itemTokens : List Json → List (List Token)
  | [] => []
  | j :: js => j.tokens :: itemTokens js

/-- The tokens of each member of an object. -/
def memberTokens : List (String × Json) → List (List Token)
  | [] => []
  | (name, j) :: js => (.text (some name) :: .colon :: j.tokens) :: memberTokens js
end

/-! ## The lexer -/

namespace Lexer

/-- One step of a run: the tokens that are done, the last one first, and the state. -/
def advance (before : List Token × Lexer) (c : Char) : Option (List Token × Lexer) := do
  let (new, l) ← step? before.2 c
  some (new.reverse ++ before.1, l)

/-- The lexer gets from one state to another through a part of a text, with these tokens. -/
def Reads (l : Lexer) (cs : List Char) (ts : List Token) (l' : Lexer) : Prop :=
  ∀ before, cs.foldlM advance (before, l) = some (ts.reverse ++ before, l')

variable {l l' l'' : Lexer} {c : Char} {cs cs' : List Char} {t : Token} {ts ts' : List Token}

theorem Reads.nil : Reads l [] [] l :=
  fun _ => rfl

theorem Reads.append (h : Reads l cs ts l') (h' : Reads l' cs' ts' l'') :
    Reads l (cs ++ cs') (ts ++ ts') l'' := by
  intro before
  rw [List.foldlM_append, h before, Option.bind_eq_bind, Option.bind_some, h',
    List.reverse_append, List.append_assoc]

theorem Reads.step (h : step? l c = some (ts, l')) : Reads l [c] ts l' := by
  intro before
  rw [List.foldlM_cons, advance, h]
  rfl

/-- A character with which no token ends. -/
theorem Reads.cons (h : step? l c = some ([], l')) (h' : Reads l' cs ts l'') :
    Reads l (c :: cs) ts l'' :=
  (Reads.step h).append h'

theorem run?_eq (h : Reads between cs ts l) : run? cs = some (ts.reverse, l) := by
  have hrun : run? cs = cs.foldlM advance ([], between) := rfl
  rw [hrun, h, List.append_nil]

/-! ### Strings -/

/-- An escape by a letter. -/
theorem reads_escaped (read : List Char) {e : Char} (hu : e ≠ 'u') (h : escaped? e = some c) :
    Reads (string read none true) ['\\', e] [] (string (c :: read) none true) := by
  refine .cons rfl (.step ?_)
  rw [step?, if_neg hu, h]
  rfl

/-- One of the first three digits of an escape by a code point. -/
theorem reads_digit (read digits : List Char) (h : digits.length < 3) (n : Nat) :
    step? (code read none true digits) (Text.hexDigit (n % 16))
      = some ([], code read none true (Text.hexDigit (n % 16) :: digits)) := by
  rw [step?, Text.hexValue?_hexDigit (Nat.mod_lt _ (by decide)), if_pos h]
  rfl

/-- An escape by a code point. -/
theorem reads_code (read : List Char) (h : c.toNat < 0x20) :
    Reads (string read none true) ("\\u" ++ Text.hexPadded 4 c.toNat).toList []
      (string (c :: read) none true) := by
  have hlast : step? (code read none true [Text.hexDigit (c.toNat / 16 % 16),
      Text.hexDigit (c.toNat / 16 / 16 % 16), Text.hexDigit (c.toNat / 16 / 16 / 16 % 16)])
      (Text.hexDigit (c.toNat % 16)) = some ([], string (c :: read) none true) := by
    have hvalue := Text.readHex?_hexDigits 4 c.toNat
    rw [Nat.mod_eq_of_lt (by omega)] at hvalue
    have hcode : endCode read none true c.toNat = string (c :: read) none true := by
      rw [endCode, if_neg (by omega), if_neg (by omega), Char.ofNat_toNat]
    rw [step?, Text.hexValue?_hexDigit (Nat.mod_lt _ (by decide)), if_neg (by simp),
      if_neg (by simp), ← hcode]
    exact congrArg (Option.map fun n => ([], endCode read none true n)) hvalue
  rw [String.toList_append,
    show (Text.hexPadded 4 c.toNat).toList = Text.hexDigits 4 c.toNat from String.toList_ofList]
  refine .cons rfl (.cons rfl ?_)
  refine .cons (reads_digit read [] (by simp) (c.toNat / 16 / 16 / 16)) ?_
  refine .cons (reads_digit read _ (by simp) (c.toNat / 16 / 16)) ?_
  exact .cons (reads_digit read _ (by simp) (c.toNat / 16)) (.step hlast)

/-- A character is read back, however it is written. -/
theorem reads_char (read : List Char) (c : Char) :
    Reads (string read none true) (charText c).toList [] (string (c :: read) none true) := by
  unfold charText
  split
  · next h => exact h ▸ reads_escaped read (by decide) rfl
  split
  · next h => exact h ▸ reads_escaped read (by decide) rfl
  split
  · next h => exact h ▸ reads_escaped read (by decide) rfl
  split
  · next h => exact h ▸ reads_escaped read (by decide) rfl
  split
  · next h => exact h ▸ reads_escaped read (by decide) rfl
  split
  · next h => exact h ▸ reads_escaped read (by decide) rfl
  split
  · next h => exact h ▸ reads_escaped read (by decide) rfl
  split
  · next h => exact reads_code read h
  · next hquote hslash _ _ _ _ _ hcontrol =>
    rw [String.toList_singleton]
    refine .step ?_
    rw [step?, if_neg hslash, if_neg hquote, if_neg hcontrol]
    rfl

theorem reads_chars (cs read : List Char) :
    Reads (string read none true) (String.join (cs.map charText)).toList []
      (string (cs.reverse ++ read) none true) := by
  induction cs generalizing read with
  | nil => exact .nil
  | cons c cs ih =>
    rw [List.map_cons, String.join_cons, String.toList_append, List.reverse_cons,
      List.append_assoc]
    exact (reads_char read c).append (ih (c :: read))

/-- A string is read back. -/
theorem reads_stringText (s : String) :
    Reads between (stringText s).toList [.text (some s)] between := by
  have hopen : Reads between [Char.ofNat 34] [] (string [] none true) := .step rfl
  have hclose : Reads (string (s.toList.reverse ++ []) none true) [Char.ofNat 34]
      [.text (some s)] between := by
    refine .step ?_
    rw [step?, if_neg (by decide), if_pos rfl, List.append_nil, List.reverse_reverse,
      String.ofList_toList]
    rfl
  rw [stringText, String.toList_append, String.toList_append, List.append_assoc]
  exact hopen.append ((reads_chars s.toList []).append hclose)

/-! ### Numbers -/

/-- No zero stands before other digits. -/
theorem head?_toDigits_ne {n : Nat} (h : 0 < n) : (Nat.toDigits 10 n).head? ≠ some '0' := by
  induction n using Nat.strongRecOn with
  | ind n ih =>
    rw [Nat.toDigits_eq_if (by decide)]
    split
    · next hlt =>
      have hdigit : ∀ n < 10, 0 < n → n.digitChar ≠ '0' := by decide
      simpa using hdigit n hlt h
    · next hge =>
      rw [List.head?_append, Option.or_of_isSome (by simp [Nat.toDigits_ne_nil])]
      exact ih (n / 10) (by omega) (by omega)

theorem isWhole_toString (n : Nat) : NumberText.isWhole (toString n).toList = true := by
  rw [show (toString n).toList = Nat.toDigits 10 n from Nat.toList_repr]
  rcases Nat.eq_zero_or_pos n with rfl | hpos
  · rfl
  · have hhead := head?_toDigits_ne hpos
    unfold NumberText.isWhole
    split
    · next h => exact absurd h Nat.toDigits_ne_nil
    · rfl
    · next c cs _ h =>
      rw [h] at hhead
      simpa using hhead

theorem takeWhile_toString (n : Nat) :
    (toString n).toList.takeWhile Char.isDigit = (toString n).toList :=
  List.takeWhile_eq_self_iff.mpr (Text.numeral_toString n).isDigit

theorem dropWhile_toString (n : Nat) : (toString n).toList.dropWhile Char.isDigit = [] :=
  List.dropWhile_eq_nil_iff.mpr (Text.numeral_toString n).isDigit

/-- A whole number in its parts. -/
theorem read?_toString (n : Int) :
    NumberText.read? (toString n).toList
      = some ⟨decide (n < 0), (toString n.natAbs).toList, none, none⟩ := by
  have hdigits : ∀ (negative : Bool) (k : Nat),
      (if NumberText.isWhole ((toString k).toList.takeWhile Char.isDigit) then
        NumberText.rest? negative ((toString k).toList.takeWhile Char.isDigit)
          ((toString k).toList.dropWhile Char.isDigit) else none)
        = some ⟨negative, (toString k).toList, none, none⟩ := by
    intro negative k
    rw [takeWhile_toString, dropWhile_toString, if_pos (isWhole_toString k)]
    rfl
  by_cases hneg : n < 0
  · obtain ⟨k, rfl⟩ := Int.eq_negSucc_of_lt_zero hneg
    have htext : (toString (Int.negSucc k)).toList = '-' :: (toString (k + 1)).toList :=
      String.toList_append
    rw [htext, decide_eq_true hneg]
    exact hdigits true (k + 1)
  · obtain ⟨k, rfl⟩ := Int.eq_ofNat_of_zero_le (Int.not_lt.mp hneg)
    rw [decide_eq_false hneg]
    unfold NumberText.read?
    split
    next h =>
    split at h
    · next hminus =>
      have hdigit := (Text.numeral_toString k).isDigit '-'
        ((show (toString k).toList = _ from hminus) ▸ List.mem_cons_self)
      exact absurd hdigit (by decide)
    · cases h
      exact hdigits false k

/-- A whole number of 64 bits from its parts. -/
theorem ofNumberText?_toString {n : Int} (h : (int n).isPlain = true) :
    ofNumberText? ⟨decide (n < 0), (toString n.natAbs).toList, none, none⟩ = some (int n) := by
  have hvalue : NumberText.digitsValue (toString n.natAbs).toList = n.natAbs :=
    (Text.numeral_toString n.natAbs).value
  rw [isPlain, decide_eq_true_eq] at h
  simp only [ofNumberText?, hvalue]
  by_cases hneg : n < 0
  · have hle : Int64.minValue.toInt ≤ -(n.natAbs : Int) := by omega
    have hpos : 0 < n.natAbs := by omega
    rw [decide_eq_true hneg, decide_eq_true hpos, decide_eq_true hle,
      show -(n.natAbs : Int) = n by omega]
    rfl
  · have hlt : n.natAbs < UInt64.size := by omega
    rw [decide_eq_false hneg, decide_eq_true hlt, show (n.natAbs : Int) = n by omega]
    rfl

theorem start?_of_isDigit (h : c.isDigit = true) : start? c = some ([], number [c]) := by
  have hdigit := h
  simp only [Char.isDigit, Bool.and_eq_true, decide_eq_true_eq, ge_iff_le,
    UInt32.le_iff_toNat_le] at h
  have hlow : 48 ≤ c.toNat := h.1
  have hhigh : c.toNat ≤ 57 := h.2
  have hupper : c.isUpper = false := decide_eq_false fun hle =>
    absurd (UInt32.le_iff_toNat_le.mp hle.1) (show ¬ 65 ≤ c.toNat by omega)
  have hlower : ¬ 'a'.val ≤ c.val := fun hle =>
    absurd (UInt32.le_iff_toNat_le.mp hle) (show ¬ 97 ≤ c.toNat by omega)
  have halpha : c.isAlpha = false := by
    change (c.isUpper || decide ('a'.val ≤ c.val) && _) = false
    rw [hupper, decide_eq_false hlower]
    rfl
  rw [start?, if_neg, if_neg, halpha, if_neg Bool.false_ne_true, hdigit]
  · rfl
  · rintro rfl
    exact absurd hdigit (by decide)
  · rintro (rfl | rfl | rfl | rfl) <;> exact absurd hdigit (by decide)

theorem reads_digits (h : ∀ c ∈ cs, c.isDigit = true) (read : List Char) :
    Reads (number read) cs [] (number (cs.reverse ++ read)) := by
  induction cs generalizing read with
  | nil => exact .nil
  | cons c cs ih =>
    rw [List.reverse_cons, List.append_assoc]
    refine .cons ?_ (ih (fun c' hc' => h c' (List.mem_cons_of_mem _ hc')) (c :: read))
    rw [step?, isNumberChar, h c List.mem_cons_self]
    rfl

/-- A whole number is read to its end. -/
theorem reads_toString (n : Int) :
    Reads between (toString n).toList [] (number (toString n).toList.reverse) := by
  have hnatural : ∀ k : Nat,
      Reads between (toString k).toList [] (number (toString k).toList.reverse) := by
    intro k
    have hdigits := (Text.numeral_toString k).isDigit
    cases hcs : (toString k).toList with
    | nil => exact absurd hcs (Text.numeral_toString k).ne_nil
    | cons c cs =>
      rw [hcs] at hdigits
      rw [List.reverse_cons]
      exact .cons (start?_of_isDigit (hdigits c List.mem_cons_self))
        (reads_digits (fun c' hc' => hdigits c' (List.mem_cons_of_mem _ hc')) [c])
  cases n with
  | ofNat k => exact hnatural k
  | negSucc k =>
    have htext : (toString (Int.negSucc k)).toList = '-' :: (toString (k + 1)).toList :=
      String.toList_append
    rw [htext, List.reverse_cons]
    exact .cons rfl (reads_digits (Text.numeral_toString (k + 1)).isDigit ['-'])

/-! ### Marks -/

/-- A state in which these tokens are still open and end with the next mark. -/
structure Rests (l : Lexer) (ts : List Token) : Prop where
  finish : l.finish? = some ts
  mark : ∀ c t, mark? c = some t → step? l c = some (ts ++ [t], between)

theorem start?_of_mark (h : mark? c = some t) : start? c = some ([t], between) := by
  unfold mark? at h
  split at h <;> cases h <;> rfl

theorem rests_between : Rests between [] :=
  ⟨rfl, fun _ _ h => start?_of_mark h⟩

theorem rests_number {read : List Char} (h : finish? (number read) = some ts) :
    Rests (number read) ts where
  finish := h
  mark c t hc := by
    have hchar : isNumberChar c = false := by
      unfold mark? at hc
      split at hc <;> cases hc <;> rfl
    rw [step?, hchar, h, start?_of_mark hc]
    rfl

theorem rests_word {read : List Char} (h : finish? (word read) = some ts) :
    Rests (word read) ts where
  finish := h
  mark c t hc := by
    have halpha : c.isAlpha = false := by
      unfold mark? at hc
      split at hc <;> cases hc <;> rfl
    rw [step?, halpha, h, start?_of_mark hc]
    rfl

/-- A part of a text with these tokens, of which the last one may still be open. -/
def Ends (cs : List Char) (ts : List Token) : Prop :=
  ∃ done l opened, Reads between cs done l ∧ Rests l opened ∧ ts = done ++ opened

theorem Reads.ends (h : Reads between cs ts between) : Ends cs ts :=
  ⟨ts, between, [], h, rests_between, (List.append_nil ts).symm⟩

theorem Reads.followed (h : Reads between cs ts between) (h' : Ends cs' ts') :
    Ends (cs ++ cs') (ts ++ ts') := by
  obtain ⟨done, l, opened, hreads, hrests, rfl⟩ := h'
  exact ⟨ts ++ done, l, opened, h.append hreads, hrests, (List.append_assoc ..).symm⟩

theorem Ends.mark (h : Ends cs ts) (hc : mark? c = some t) :
    Reads between (cs ++ [c]) (ts ++ [t]) between := by
  obtain ⟨done, l, opened, hreads, hrests, rfl⟩ := h
  rw [List.append_assoc]
  exact hreads.append (.step (hrests.mark c t hc))

/-- Parts of a text with commas between them and a mark at their end. -/
theorem reads_intercalate {texts : List String} {parts : List (List Token)}
    (h : List.Forall₂ (fun s ts => Ends s.toList ts) texts parts) (hc : mark? c = some t) :
    Reads between ((",".intercalate texts).toList ++ [c]) ([.comma].intercalate parts ++ [t])
      between := by
  induction h with
  | nil => exact .step (start?_of_mark hc)
  | cons head tail ih =>
    cases tail with
    | nil =>
      rw [String.intercalate_singleton, List.intercalate_singleton]
      exact head.mark hc
    | cons _ _ =>
      rw [String.intercalate_cons_cons, List.intercalate_cons_cons, String.toList_append,
        String.toList_append, List.append_assoc _ _ [c], List.append_assoc _ _ [t]]
      exact (head.mark rfl).append ih

/-! ### Documents -/

theorem ends_word {read : List Char} {j : Json} (h : Reads between cs [] (word read))
    (hfinish : finish? (word read) = some [.value j]) : Ends cs [.value j] :=
  ⟨[], word read, [.value j], h, rests_word hfinish, rfl⟩

theorem ends_int {n : Int} (h : (int n).isPlain = true) :
    Ends (toString n).toList [.value (int n)] := by
  refine ⟨[], _, [.value (int n)], reads_toString n, rests_number ?_, rfl⟩
  rw [finish?, List.reverse_reverse, read?_toString, Option.map_some, ofNumberText?_toString h]
  rfl

mutual
/-- The lexer finds the tokens of a document in its text. -/
theorem ends_text : ∀ {j : Json}, j.isPlain = true → Ends j.text.toList j.tokens
  | .null, _ | .bool true, _ | .bool false, _ => ends_word (fun _ => rfl) rfl
  | .int n, h => ends_int h
  | .string s, _ => (reads_stringText s).ends
  | .array items, h => by
    have hopen : Reads between ['['] [.openArray] between := .step rfl
    have hitems : Reads between _ _ between := reads_intercalate (ends_itemTexts h) (c := ']') rfl
    rw [text, String.toList_append, String.toList_append, List.append_assoc]
    exact (hopen.append hitems).ends
  | .object members, h => by
    have hopen : Reads between ['\x7b'] [.openObject] between := .step rfl
    have hmembers : Reads between _ _ between :=
      reads_intercalate (ends_memberTexts h) (c := '\x7d') rfl
    rw [text, String.toList_append, String.toList_append, List.append_assoc]
    exact (hopen.append hmembers).ends

theorem ends_itemTexts : ∀ {js : List Json}, plainItems js = true →
    List.Forall₂ (fun s ts => Ends s.toList ts) (itemTexts js) (itemTokens js)
  | [], _ => .nil
  | j :: js, h => by
    rw [plainItems, Bool.and_eq_true] at h
    exact .cons (ends_text h.1) (ends_itemTexts h.2)

theorem ends_memberTexts : ∀ {js : List (String × Json)}, plainMembers js = true →
    List.Forall₂ (fun s ts => Ends s.toList ts) (memberTexts js) (memberTokens js)
  | [], _ => .nil
  | (name, j) :: js, h => by
    rw [plainMembers, Bool.and_eq_true] at h
    have hname : Reads between ((stringText name).toList ++ [':']) [.text (some name), .colon]
        between := (reads_stringText name).append (.step rfl)
    refine .cons ?_ (ends_memberTexts h.2)
    rw [String.toList_append, String.toList_append]
    exact hname.followed (ends_text h.1)
end

end Lexer

/-- So a printed document is cut into its tokens. -/
theorem tokens?_text {j : Json} (h : j.isPlain = true) : tokens? j.text = some j.tokens := by
  obtain ⟨done, l, opened, hreads, hrests, heq⟩ := Lexer.ends_text h
  rw [tokens?, Lexer.run?_eq hreads, Option.bind_eq_bind, Option.bind_some]
  dsimp only
  rw [hrests.finish, heq, List.reverse_reverse]
  rfl

/-! ## The builder -/

theorem clip_array (levels : Nat) (items : List Json) :
    (array items).clip levels
      = if 0 < levels then array (clipItems (levels - 1) items) else unread := by
  cases levels <;> rfl

theorem clip_object (levels : Nat) (members : List (String × Json)) :
    (object members).clip levels
      = if 0 < levels then object (clipMembers (levels - 1) members) else unread := by
  cases levels <;> rfl

namespace Builder

/-- The builder gets from one state to another through these tokens. -/
def Builds (b : Builder) (ts : List Token) (b' : Builder) : Prop :=
  ts.foldlM step? b = some b'

variable {b b' b'' : Builder} {t : Token} {ts ts' : List Token}

theorem Builds.append (h : Builds b ts b') (h' : Builds b' ts' b'') : Builds b (ts ++ ts') b'' := by
  rw [Builds, List.foldlM_append, h, Option.bind_eq_bind, Option.bind_some, h']

theorem Builds.cons (h : step? b t = some b') (h' : Builds b' ts b'') : Builds b (t :: ts) b'' := by
  rw [Builds, List.foldlM_cons, h, Option.bind_eq_bind, Option.bind_some, h']

theorem Builds.step (h : step? b t = some b') : Builds b [t] b' :=
  .cons h rfl

/-- A value may come next. -/
def AwaitsValue (b : Builder) : Prop :=
  b.expected = .value ∨ b.expected = .valueOrEnd

/-- A name may come next, and it may be that of the first member. -/
def AwaitsName (b : Builder) : Prop :=
  b.expected = .key ∨ b.expected = .keyOrEnd

theorem builds_value (h : b.AwaitsValue) (j : Json) : Builds b [.value j] (b.add j) := by
  obtain ⟨frames, e, result⟩ := b
  rcases h with rfl | rfl <;> rfl

theorem builds_text (h : b.AwaitsValue) (s : String) :
    Builds b [.text (some s)] (b.add (.string s)) := by
  obtain ⟨frames, e, result⟩ := b
  rcases h with rfl | rfl <;> rfl

theorem step?_openArray (h : b.AwaitsValue) :
    step? b .openArray = some (b.nest (.array []) .valueOrEnd) := by
  obtain ⟨frames, e, result⟩ := b
  rcases h with rfl | rfl <;> rfl

theorem step?_openObject (h : b.AwaitsValue) :
    step? b .openObject = some (b.nest (.object [] "" true) .keyOrEnd) := by
  obtain ⟨frames, e, result⟩ := b
  rcases h with rfl | rfl <;> rfl

/-- What is finished goes to its place, and has a value there if it is not nested too deeply. -/
theorem close_eq (b : Builder) (frame : Frame) (e : Expected) (j : Json) :
    close ⟨frame :: b.frames, e, b.result⟩ b.frames true j
      = b.add (if 0 < maxDepth - b.frames.length then j else .unread) := by
  have hnear : (b.frames.drop (maxDepth - 1)).isEmpty
      = decide (0 < maxDepth - b.frames.length) := by
    rw [Bool.eq_iff_iff, List.isEmpty_iff, List.drop_eq_nil_iff, decide_eq_true_eq]
    have : 0 < maxDepth := by decide
    omega
  simp only [close, hnear, Bool.true_and, decide_eq_true_eq]
  rfl

theorem closeArray?_eq (b : Builder) (e : Expected) (items : List Json) :
    closeArray? ⟨.array (clipItems (maxDepth - (b.frames.length + 1)) items).reverse :: b.frames, e,
        b.result⟩
      = some (b.add ((array items).clip (maxDepth - b.frames.length))) := by
  refine congrArg some ((close_eq b _ e _).trans ?_)
  rw [List.reverse_reverse, clip_array, Nat.sub_sub]

theorem closeObject?_eq (b : Builder) (e : Expected) (members : List (String × Json))
    (key : String) :
    closeObject? ⟨.object (clipMembers (maxDepth - (b.frames.length + 1)) members).reverse key true
        :: b.frames, e, b.result⟩
      = some (b.add ((object members).clip (maxDepth - b.frames.length))) := by
  refine congrArg some ((close_eq b _ e _).trans ?_)
  rw [List.reverse_reverse, clip_object, Nat.sub_sub]

/-- The name of a member, and what the builder does with its value. -/
theorem Builds.member {members : List (String × Json)} {key : String} {frames : List Frame}
    {e : Expected} {result : Json}
    (h : AwaitsName ⟨.object members key true :: frames, e, result⟩) {name : String}
    (hvalue : Builds ⟨.object members name true :: frames, .value, result⟩ ts b') :
    Builds ⟨.object members key true :: frames, e, result⟩ (.text (some name) :: .colon :: ts)
      b' := by
  have hname : step? ⟨.object members key true :: frames, e, result⟩ (.text (some name))
      = some ⟨.object members name true :: frames, .colon, result⟩ := by
    rcases h with rfl | rfl <;> rfl
  exact .cons hname (.cons rfl hvalue)

mutual
/-- The builder puts a document in its place, down to the greatest depth. -/
theorem builds_tokens : ∀ (j : Json) {b : Builder}, b.AwaitsValue →
    Builds b j.tokens (b.add (j.clip (maxDepth - b.frames.length)))
  | .null, b, h | .bool _, b, h | .int _, b, h | .float _, b, h | .unread, b, h => by
    rw [clip_eq_self (Nat.zero_le _)]
    exact builds_value h _
  | .string s, b, h => by
    rw [clip_eq_self (Nat.zero_le _)]
    exact builds_text h s
  | .array [], b, h => .cons (step?_openArray h) (.step (closeArray?_eq b _ []))
  | .array (j :: js), b, h => by
    have hitems := builds_items (j :: js) [] b.frames b.result (List.cons_ne_nil _ _) (.inr rfl)
    rw [List.append_nil] at hitems
    exact .cons (step?_openArray h) (hitems.append (.step (closeArray?_eq b _ (j :: js))))
  | .object [], b, h => .cons (step?_openObject h) (.step (closeObject?_eq b _ [] ""))
  | .object (member :: js), b, h => by
    have hmembers :=
      builds_members (member :: js) [] "" b.frames b.result (List.cons_ne_nil _ _) (.inr rfl)
    rw [List.append_nil] at hmembers
    exact .cons (step?_openObject h)
      (hmembers.append (.step (closeObject?_eq b _ (member :: js) "")))

theorem builds_items : ∀ (js acc : List Json) (frames : List Frame) (result : Json) {e : Expected},
    js ≠ [] → AwaitsValue ⟨.array acc :: frames, e, result⟩ →
      Builds ⟨.array acc :: frames, e, result⟩ ([.comma].intercalate (itemTokens js))
        ⟨.array ((clipItems (maxDepth - (frames.length + 1)) js).reverse ++ acc) :: frames,
          .commaOrEnd, result⟩
  | [], _, _, _, _, hne, _ => absurd rfl hne
  | [j], acc, frames, result, e, _, h => by
    rw [itemTokens, itemTokens, List.intercalate_singleton]
    exact builds_tokens j h
  | j :: j' :: js, acc, frames, result, e, _, h => by
    have hcomma : Builds ⟨.array (j.clip (maxDepth - (frames.length + 1)) :: acc) :: frames,
        .commaOrEnd, result⟩ [.comma] _ := .step rfl
    have hrest := builds_items (j' :: js) (j.clip (maxDepth - (frames.length + 1)) :: acc) frames
      result (List.cons_ne_nil _ _) (.inl rfl)
    rw [itemTokens, itemTokens, List.intercalate_cons_cons, ← itemTokens, clipItems,
      List.reverse_cons, List.append_assoc (clipItems _ _).reverse]
    exact ((builds_tokens j h).append hcomma).append hrest

theorem builds_members : ∀ (js acc : List (String × Json)) (key : String) (frames : List Frame)
    (result : Json) {e : Expected}, js ≠ [] →
      AwaitsName ⟨.object acc key true :: frames, e, result⟩ →
        Builds ⟨.object acc key true :: frames, e, result⟩
          ([.comma].intercalate (memberTokens js))
          ⟨.object ((clipMembers (maxDepth - (frames.length + 1)) js).reverse ++ acc) "" true
            :: frames, .commaOrEnd, result⟩
  | [], _, _, _, _, _, hne, _ => absurd rfl hne
  | [(name, j)], acc, key, frames, result, e, _, h => by
    rw [memberTokens, memberTokens, List.intercalate_singleton]
    exact .member h (builds_tokens j (.inl rfl))
  | (name, j) :: member :: js, acc, key, frames, result, e, _, h => by
    have hcomma : Builds
        ⟨.object ((name, j.clip (maxDepth - (frames.length + 1))) :: acc) "" true :: frames,
          .commaOrEnd, result⟩ [.comma] _ := .step rfl
    have hrest := builds_members (member :: js)
      ((name, j.clip (maxDepth - (frames.length + 1))) :: acc) "" frames result
      (List.cons_ne_nil _ _) (.inl rfl)
    rw [memberTokens, memberTokens, List.intercalate_cons_cons, ← memberTokens, clipMembers,
      List.reverse_cons, List.append_assoc (clipMembers _ _).reverse]
    exact ((Builds.member h (builds_tokens j (.inl rfl))).append hcomma).append hrest
end

end Builder

/-- **A printed document is read back**, down to the greatest depth at which arrays and objects
have a value. -/
theorem read?_text {j : Json} (h : j.isPlain = true) :
    read? j.text = some (j.clip Builder.maxDepth) := by
  have hbuild : j.tokens.foldlM Builder.step? {} = _ := Builder.builds_tokens j (.inl rfl)
  rw [read?, tokens?_text h, Option.bind_some, ofTokens?, hbuild]
  rfl

end Json
end SqlCompiler
