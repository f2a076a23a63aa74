import SqlCompiler.Proofs.Identifiers
import SqlCompiler.Proofs.Rendering
import SqlCompiler.Proofs.Texts

/-!
# Quoted texts read back

Names and texts are quoted by writing the closing mark twice wherever it occurs in them.  A database
that reads a statement undoes this: inside a quoted region two closing marks stand for one, and a
single one ends the region.  This file reads quoted regions that way, and finds in them what was
quoted, no matter how many marks there are in it and what stands behind it.

One database reads texts by another rule.  There a backslash escapes the character behind it, also
a closing mark, so that doubling is not enough: what is read is the text that was meant exactly if
every backslash in it happens to be one that the rule leaves alone.

* `Text.Quote.read?` — a quoted region and what is behind it, and `Text.Quote.read?_eq_some_iff`:
  it reads what `Text.Quote.write` writes and nothing else.
* `Text.bytes?` — hexadecimal digits in pairs, and `Database.readBytes?` for constants of bytes.
* `Node.WrittenAs` — nodes that are written the same way wherever they stand.
* `Database.reads_quoted` — names, texts, sequences and bytes read back.
* `Text.Escapes`, `Text.Escapes.read?` — texts with backslashes, and `Node.reads_escaped_iff` for
  the texts that are read back from them.
-/

set_option autoImplicit false
namespace SqlCompiler
namespace Text

/-! ## Quoted regions -/

theorem double_cons_self (mark : Char) (cs : List Char) :
    double mark (mark :: cs) = mark :: mark :: double mark cs := by
  rw [double, List.flatMap_cons, if_pos rfl]
  rfl

theorem double_cons_of_ne {mark c : Char} (h : c ≠ mark) (cs : List Char) :
    double mark (c :: cs) = c :: double mark cs := by
  rw [double, List.flatMap_cons, if_neg h]
  rfl

namespace Quote

/-- The inside of a quoted region, up to its closing mark, and what is behind it. -/
def readInside? (q : Quote) : List Char → Option (List Char × List Char)
  | [] => none
  | c :: cs =>
    if c = q.closing then
      match cs with
      | [] => some ([], [])
      | c' :: rest =>
        if c' = q.closing then (q.readInside? rest).map fun (s, rest) => (c :: s, rest)
        else some ([], c' :: rest)
    else (q.readInside? cs).map fun (s, rest) => (c :: s, rest)

/-- What is quoted at the beginning of a text, and what is behind it. -/
def read? (q : Quote) (t : String) : Option (String × String) :=
  match t.toList with
  | [] => none
  | c :: cs =>
    if c = q.opening then
      (q.readInside? cs).map fun (s, rest) => (String.ofList s, String.ofList rest)
    else none

variable {q : Quote}

theorem readInside?_double (s : List Char) {rest : List Char} (h : rest.head? ≠ some q.closing) :
    q.readInside? (double q.closing s ++ q.closing :: rest) = some (s, rest) := by
  induction s with
  | nil =>
    rw [double, List.flatMap_nil, List.nil_append, readInside?.eq_def]
    cases rest with
    | nil => exact if_pos rfl
    | cons c rest => exact (if_pos rfl).trans (if_neg fun hc => h (congrArg some hc))
  | cons c s ih =>
    by_cases hc : c = q.closing
    · rw [hc, double_cons_self, readInside?.eq_def]
      exact (if_pos rfl).trans ((if_pos rfl).trans (congrArg (Option.map _) ih))
    · rw [double_cons_of_ne hc, readInside?.eq_def]
      exact (if_neg hc).trans (congrArg (Option.map _) ih)

/-- What is read inside a quoted region was written by doubling. -/
theorem eq_double_of_readInside? {t s rest : List Char} (h : q.readInside? t = some (s, rest)) :
    t = double q.closing s ++ q.closing :: rest ∧ rest.head? ≠ some q.closing := by
  fun_induction readInside? q t generalizing s with
  | case1 => cases h
  | case2 =>
    cases h
    exact ⟨rfl, nofun⟩
  | case3 t ih =>
    obtain ⟨⟨s, _⟩, hread, heq⟩ := Option.map_eq_some_iff.mp h
    cases heq
    obtain ⟨ht, hrest⟩ := ih hread
    rw [double_cons_self, ht]
    exact ⟨rfl, hrest⟩
  | case4 c' t hc' =>
    cases h
    exact ⟨rfl, fun heq => hc' (Option.some.inj heq)⟩
  | case5 c t hc ih =>
    obtain ⟨⟨s, _⟩, hread, heq⟩ := Option.map_eq_some_iff.mp h
    cases heq
    obtain ⟨ht, hrest⟩ := ih hread
    rw [double_cons_of_ne hc, ht]
    exact ⟨rfl, hrest⟩

/-- **Reading undoes quoting**, and reads nothing else. -/
theorem read?_eq_some_iff {t s rest : String} :
    q.read? t = some (s, rest) ↔ t = q.write s ++ rest ∧ rest.toList.head? ≠ some q.closing := by
  constructor
  · intro h
    rw [read?] at h
    cases ht : t.toList with
    | nil => rw [ht] at h; cases h
    | cons c cs =>
      simp only [ht] at h
      split at h
      · next hc =>
        obtain ⟨⟨s', rest'⟩, hread, heq⟩ := Option.map_eq_some_iff.mp h
        cases heq
        obtain ⟨hcs, hrest⟩ := eq_double_of_readInside? hread
        rw [String.toList_ofList]
        refine ⟨?_, hrest⟩
        rw [← String.toList_inj, ht, hc, hcs]
        simp [write]
      · cases h
  · rintro ⟨rfl, hrest⟩
    have ht : (q.write s ++ rest).toList
        = q.opening :: (double q.closing s.toList ++ q.closing :: rest.toList) := by
      simp [write]
    rw [read?, ht]
    simp only [if_true, readInside?_double s.toList hrest, Option.map_some, String.ofList_toList]

end Quote

/-! ## Bytes -/

/-- The bytes that hexadecimal digits stand for, two to a byte. -/
def bytes? : List Char → Option (List UInt8)
  | [] => some []
  | [_] => none
  | high :: low :: rest => do
    let byte := UInt8.ofNat (16 * (← hexValue? high) + (← hexValue? low))
    return byte :: (← bytes? rest)

/-- A hexadecimal digit. -/
def isHexDigit (c : Char) : Bool :=
  (hexValue? c).isSome

/-- What is left of a text that begins with the given one. -/
def after? (beginning t : String) : Option String :=
  if beginning.toList.isPrefixOf t.toList then
    some (String.ofList (t.toList.drop beginning.toList.length))
  else none

theorem after?_append (beginning rest : String) :
    after? beginning (beginning ++ rest) = some rest := by
  have hbegins : beginning.toList.isPrefixOf (beginning.toList ++ rest.toList) = true :=
    List.isPrefixOf_iff_prefix.mpr (List.prefix_append _ _)
  rw [after?, String.toList_append, if_pos hbegins, List.drop_left, String.ofList_toList]

theorem hexValue?_toUpper {n : Nat} (h : n < 16) : hexValue? (hexDigit n).toUpper = some n := by
  have hall : ∀ n < 16, hexValue? (hexDigit n).toUpper = some n := by decide
  exact hall n h

/-- The digits of bytes stand for them, in either case. -/
theorem bytes?_digits {f : Char → Char} (hf : ∀ n < 16, hexValue? (f (hexDigit n)) = some n)
    (bs : List UInt8) : bytes? ((bs.flatMap byteDigits).map f) = some bs := by
  induction bs with
  | nil => rfl
  | cons b bs ih =>
    have hb := b.toNat_lt
    have hhigh := hf (b.toNat / 16) (by omega)
    have hlow := hf (b.toNat % 16) (by omega)
    have hbyte : UInt8.ofNat (16 * (b.toNat / 16) + b.toNat % 16) = b := by
      rw [Nat.div_add_mod, UInt8.ofNat_toNat]
    change bytes? (f (hexDigit (b.toNat / 16)) :: f (hexDigit (b.toNat % 16))
      :: (bs.flatMap byteDigits).map f) = _
    rw [bytes?, hhigh, hlow, ih, Option.bind_eq_bind, Option.bind_some, Option.bind_eq_bind,
      Option.bind_some, hbyte]
    rfl

theorem bytes?_hexUpper (bs : List UInt8) : bytes? (hexUpper bs).toList = some bs := by
  rw [hexUpper, String.toList_ofList]
  exact bytes?_digits (fun _ => hexValue?_toUpper) bs

theorem bytes?_hexLower (bs : List UInt8) : bytes? (hexLower bs).toList = some bs := by
  rw [hexLower, String.toList_ofList, ← List.map_id (bs.flatMap byteDigits)]
  exact bytes?_digits (fun _ => hexValue?_hexDigit) bs

theorem isHexDigit_hexUpper (bs : List UInt8) :
    ∀ c ∈ (hexUpper bs).toList, isHexDigit c = true := by
  intro c hc
  rw [hexUpper, String.toList_ofList] at hc
  obtain ⟨c', hc', rfl⟩ := List.mem_map.mp hc
  obtain ⟨b, -, hb⟩ := List.mem_flatMap.mp hc'
  have hlt := b.toNat_lt
  rw [byteDigits, List.mem_cons, List.mem_singleton] at hb
  rcases hb with rfl | rfl <;> rw [isHexDigit, hexValue?_toUpper (by omega), Option.isSome_some]

/-- Bytes as quoted digits with a letter before them, and what is behind them. -/
def readQuotedBytes? (t : String) : Option (List UInt8 × String) := do
  let (digits, rest) ← Quote.apostrophes.read? (← after? "X" t)
  return (← bytes? digits.toList, rest)

/-- Bytes as a text of digits after a backslash, with its type behind it, and what follows. -/
def readTypedBytes? (t : String) : Option (List UInt8 × String) := do
  let (content, rest) ← Quote.apostrophes.read? t
  let digits ← after? "\\x" content
  return (← bytes? digits.toList, ← after? "::bytea" rest)

/-- Bytes as digits without quotes, as many as there are, and what is behind them. -/
def readPlainBytes? (t : String) : Option (List UInt8 × String) := do
  let t ← after? "0x" t
  return (← bytes? (t.toList.takeWhile isHexDigit), String.ofList (t.toList.dropWhile isHexDigit))

/-- What can stand behind a constant of bytes: nothing that could belong to it. -/
def EndsBytes (rest : String) : Prop :=
  ∀ c, rest.toList.head? = some c → c ≠ Quote.apostrophes.closing ∧ isHexDigit c = false

section
variable (bs : List UInt8) {rest : String} (h : EndsBytes rest)
include h

theorem readQuotedBytes?_append :
    readQuotedBytes? ("X" ++ Value.quoteText (hexUpper bs) ++ rest) = some (bs, rest) := by
  have hread : Quote.apostrophes.read? (Value.quoteText (hexUpper bs) ++ rest)
      = some (hexUpper bs, rest) :=
    Quote.read?_eq_some_iff.mpr ⟨rfl, fun hc => (h _ hc).1 rfl⟩
  rw [readQuotedBytes?, String.append_assoc, after?_append]
  simp only [Option.bind_eq_bind, Option.bind_some, hread, bytes?_hexUpper]
  rfl

omit h in
theorem readTypedBytes?_append (rest : String) :
    readTypedBytes? (Value.quoteText ("\\x" ++ hexLower bs) ++ "::bytea" ++ rest)
      = some (bs, rest) := by
  have hread : Quote.apostrophes.read?
        (Value.quoteText ("\\x" ++ hexLower bs) ++ ("::bytea" ++ rest))
      = some ("\\x" ++ hexLower bs, "::bytea" ++ rest) := by
    refine Quote.read?_eq_some_iff.mpr ⟨rfl, ?_⟩
    rw [String.toList_append]
    exact show some ':' ≠ some Quote.apostrophes.closing by decide
  rw [readTypedBytes?, String.append_assoc, hread]
  simp only [Option.bind_eq_bind, Option.bind_some, after?_append, bytes?_hexLower]
  rfl

theorem readPlainBytes?_append :
    readPlainBytes? ("0x" ++ hexUpper bs ++ rest) = some (bs, rest) := by
  have hdigits := isHexDigit_hexUpper bs
  have hrest : rest.toList.takeWhile isHexDigit = []
      ∧ rest.toList.dropWhile isHexDigit = rest.toList := by
    cases hcs : rest.toList with
    | nil => exact ⟨rfl, rfl⟩
    | cons c cs =>
      have hc := (h c (by rw [hcs]; rfl)).2
      exact ⟨List.takeWhile_cons_of_neg (by simp [hc]), List.dropWhile_cons_of_neg (by simp [hc])⟩
  rw [readPlainBytes?, String.append_assoc, after?_append]
  simp only [Option.bind_eq_bind, Option.bind_some, String.toList_append]
  rw [List.takeWhile_append_of_pos hdigits, List.dropWhile_append_of_pos hdigits, hrest.1, hrest.2,
    List.append_nil, bytes?_hexUpper, String.ofList_toList]
  rfl

end
end Text

open Text

/-- The bytes at the beginning of a text, as a database reads them, and what is behind them. -/
def Database.readBytes? : Database → String → Option (List UInt8 × String)
  | postgres => readTypedBytes?
  | sqlserver => readPlainBytes?
  | _ => readQuotedBytes?

/-- A constant of bytes is read back. -/
theorem Database.exists_inline_bytes (b : Database) (bs : List UInt8) :
    ∃ t, (b.dialect.types.column .bytes).inline (.bytes bs) = .ok t
      ∧ ∀ rest, EndsBytes rest → b.readBytes? (t ++ rest) = some (bs, rest) := by
  cases b with
  | postgres => exact ⟨_, rfl, fun rest _ => readTypedBytes?_append bs rest⟩
  | sqlserver => exact ⟨_, rfl, fun rest h => readPlainBytes?_append bs h⟩
  | _ => exact ⟨_, rfl, fun rest h => readQuotedBytes?_append bs h⟩

/-! ## Nodes with a text of their own -/

namespace Node

/-- A node that is written the same way wherever it stands. -/
def WrittenAs (d : Dialect) (n : Node) (t : String) : Prop :=
  ∀ c : Context, ∃ c', (n.rendering d).write.run c = .ok () c'
    ∧ c'.text d.quote = c.text d.quote ++ t

variable {d : Dialect}

theorem writtenAs_of_output {n : Node} {ps : List Piece}
    (h : ∀ aliases nested count, (n.script d).output aliases nested count
      = .ok { pieces := ps, aliasCount := count }) :
    n.WrittenAs d (Piece.joined d.quote ps) := by
  intro c
  exact ⟨_, Script.run_eq_ok_iff.mpr ⟨_, h _ _ _, rfl⟩, c.text_after d.quote _⟩

/-- A constant is written inline as its column type says. -/
theorem writtenAs_literal {kind : Kind} {v : Value} {t : String} (hkind : kind ≠ .blob)
    (h : (d.types.column kind).inline v = .ok t) : (literal ⟨kind, v, false⟩).WrittenAs d t := by
  have hscript : (literal ⟨kind, v, false⟩).script d = .piece (.constant t) := by
    rw [script_literal]
    simp only [Script.literal, Bool.false_eq_true, if_false, hkind, false_and, h]
    rfl
  have hwritten : (literal ⟨kind, v, false⟩).WrittenAs d (Piece.joined d.quote [.constant t]) := by
    refine writtenAs_of_output fun aliases nested count => ?_
    rw [hscript]
    rfl
  rwa [Piece.joined_singleton] at hwritten

/-- The name of a sequence is written as the text of a quoted name. -/
theorem writtenAs_sequence (triggers : Bool) (sequence : String) :
    let argument := Value.quoteText (Quote.doubleQuotes.write sequence)
    (mk (.nextValue sequence)).WrittenAs (.postgresWith triggers) ("nextval(" ++ argument ++ ")")
      ∧ (mk (.currentValue sequence)).WrittenAs (.postgresWith triggers)
        ("currval(" ++ argument ++ ")") := by
  intro argument
  have hcall (opening : String) : Piece.joined Quote.doubleQuotes
      [.words opening, .nameText sequence, .words ")"] = opening ++ argument ++ ")" := by
    simp [Piece.joined, Piece.text, argument, String.append_assoc]
  refine ⟨hcall "nextval(" ▸ writtenAs_of_output ?_, hcall "currval(" ▸ writtenAs_of_output ?_⟩
  · intro aliases nested count
    rw [script_nextValue]
    rfl
  · intro aliases nested count
    rw [script_currentValue]
    rfl

end Node

/-- The quotation marks of names, as each database knows them. -/
def Database.nameMarks : Database → Quote
  | mysql => .backquotes
  | access | sqlserver => .brackets
  | _ => .doubleQuotes

theorem Database.quote_dialect (b : Database) : b.dialect.quote = b.nameMarks := by
  cases b <;> rfl

/-- **Quoting can be undone exactly.**  For every database, reading a quoted name gives back the
name and what is behind it, and only quoted names are read; likewise for texts.  The argument of the
calls for the values of a sequence is a text, which is the quoted name of the sequence.  A constant
of bytes stands for these bytes. -/
theorem Database.reads_quoted :
    (∀ (b : Database) (t name rest : String), b.nameMarks.read? t = some (name, rest)
        ↔ t = b.dialect.quoteName name ++ rest ∧ rest.toList.head? ≠ some b.nameMarks.closing)
      ∧ (∀ t s rest : String, Quote.apostrophes.read? t = some (s, rest)
        ↔ t = Value.quoteText s ++ rest ∧ rest.toList.head? ≠ some Quote.apostrophes.closing)
      ∧ (∀ (triggers : Bool) (sequence : String), ∃ argument name,
        (Node.mk (.nextValue sequence)).WrittenAs (.postgresWith triggers)
            ("nextval(" ++ argument ++ ")")
          ∧ (Node.mk (.currentValue sequence)).WrittenAs (.postgresWith triggers)
            ("currval(" ++ argument ++ ")")
          ∧ Quote.apostrophes.read? (argument ++ ")") = some (name, ")")
          ∧ Quote.doubleQuotes.read? name = some (sequence, ""))
      ∧ ∀ (b : Database) (bs : List UInt8), ∃ t,
        (Node.literal ⟨.bytes, .bytes bs, false⟩).WrittenAs b.dialect t
          ∧ ∀ rest, EndsBytes rest → b.readBytes? (t ++ rest) = some (bs, rest) := by
  refine ⟨fun b t name rest => ?_, fun t s rest => Quote.read?_eq_some_iff,
    fun triggers sequence => ?_, fun b bs => ?_⟩
  · rw [Dialect.quoteName, b.quote_dialect]
    exact Quote.read?_eq_some_iff
  · obtain ⟨hnext, hcurrent⟩ := Node.writtenAs_sequence triggers sequence
    refine ⟨_, Quote.doubleQuotes.write sequence, hnext, hcurrent,
      Quote.read?_eq_some_iff.mpr ⟨rfl, by decide⟩,
      Quote.read?_eq_some_iff.mpr ⟨String.append_empty.symm, by decide⟩⟩
  · obtain ⟨t, ht, hread⟩ := b.exists_inline_bytes bs
    exact ⟨t, Node.writtenAs_literal (by decide) ht, hread⟩

/-- A name that ends with two closing brackets, and bytes without quotes before a parenthesis. -/
theorem Database.reads_quoted_brackets :
    Database.sqlserver.nameMarks.read? "[a]]]]] x1" = some ("a]]", " x1")
      ∧ EndsBytes ")" ∧ ∃ t,
        (Node.literal ⟨.bytes, .bytes [10, 255], false⟩).WrittenAs Database.sqlserver.dialect t
          ∧ Database.sqlserver.readBytes? (t ++ ")") = some ([10, 255], ")") := by
  have hends : EndsBytes ")" := by
    intro c hc
    cases hc
    decide
  obtain ⟨t, ht, hread⟩ := Database.reads_quoted.2.2.2 .sqlserver [10, 255]
  exact ⟨(Database.reads_quoted.1 .sqlserver _ _ _).mpr ⟨by decide, by decide⟩, hends, t, ht,
    hread ")" hends⟩

/-! ## Texts with backslashes -/

namespace Text

/-- What a backslash stands for together with the character behind it: one character at most, or
the two as they are.  It escapes itself and the closing mark. -/
structure Escapes where
  meaning : Char → List Char
  backslash : meaning '\\' = ['\\']
  closing : meaning Quote.apostrophes.closing = [Quote.apostrophes.closing]
  short : ∀ c, meaning c = ['\\', c] ∨ (meaning c).length ≤ 1

namespace Escapes

/-- Every character stands for itself behind a backslash. -/
def plain : Escapes where
  meaning c := [c]
  backslash := rfl
  closing := rfl
  short _ := .inr (Nat.le_refl 1)

/-- The character that a letter stands for behind a backslash. -/
def control : Char → Char
  | '0' => Char.ofNat 0
  | 'b' => Char.ofNat 8
  | 't' => Char.ofNat 9
  | 'n' => Char.ofNat 10
  | 'r' => Char.ofNat 13
  | 'Z' => Char.ofNat 26
  | c => c

/-- The usual escapes: letters for control characters, and the wildcards of a pattern keep their
backslash. -/
def usual : Escapes where
  meaning c := if c = '%' ∨ c = '_' then ['\\', c] else [control c]
  backslash := by decide
  closing := by decide
  short c := by
    by_cases h : c = '%' ∨ c = '_'
    · exact .inl (if_pos h)
    · rw [if_neg h]
      exact .inr (Nat.le_refl 1)

variable (e : Escapes)

/-- The inside of a text, up to its closing mark, and what is behind it. -/
def readInside? : List Char → Option (List Char × List Char)
  | [] => none
  | c :: cs =>
    if c = Quote.apostrophes.closing then
      match cs with
      | [] => some ([], [])
      | c' :: rest =>
        if c' = Quote.apostrophes.closing then
          (readInside? rest).map fun (s, rest) => (c :: s, rest)
        else some ([], c' :: rest)
    else if c = '\\' then
      match cs with
      | [] => none
      | c' :: rest => (readInside? rest).map fun (s, rest) => (e.meaning c' ++ s, rest)
    else (readInside? cs).map fun (s, rest) => (c :: s, rest)

/-- The text at the beginning of a text, and what is behind it. -/
def read? (t : String) : Option (String × String) :=
  match t.toList with
  | [] => none
  | c :: cs =>
    if c = Quote.apostrophes.opening then
      (e.readInside? cs).map fun (s, rest) => (String.ofList s, String.ofList rest)
    else none

/-- Every backslash stands before a character that leaves it as it is. -/
def Spares : List Char → Prop
  | [] => True
  | c :: cs => (c = '\\' → ∃ c' ∈ cs.head?, e.meaning c' = ['\\', c']) ∧ Spares cs

/-- Twice the number of characters that a text has room for, when its marks have to be doubled. -/
def room : List Char → Nat
  | [] => 0
  | c :: cs => (if c = Quote.apostrophes.closing then 1 else 2) + room cs

variable {e}

theorem room_closing (cs : List Char) : room (Quote.apostrophes.closing :: cs) = 1 + room cs := by
  rw [room, if_pos rfl]

theorem room_of_ne {c : Char} (h : c ≠ Quote.apostrophes.closing) (cs : List Char) :
    room (c :: cs) = 2 + room cs := by
  rw [room, if_neg h]

theorem room_append (a b : List Char) : room (a ++ b) = room a + room b := by
  induction a with
  | nil => simp [room]
  | cons c a ih => rw [List.cons_append, room, room, ih, Nat.add_assoc]

/-- A text has room for what was doubled in it. -/
theorem room_double (s : List Char) : room (double Quote.apostrophes.closing s) = 2 * s.length := by
  induction s with
  | nil => rfl
  | cons c s ih =>
    by_cases hc : c = Quote.apostrophes.closing
    · rw [hc, double_cons_self, room_closing, room_closing, ih, List.length_cons]
      omega
    · rw [double_cons_of_ne hc, room_of_ne hc, ih, List.length_cons]
      omega

/-- No more is read than there is room for. -/
theorem room_of_readInside? {t s rest : List Char} (h : e.readInside? t = some (s, rest)) :
    2 * s.length + room rest < room t := by
  fun_induction readInside? e t generalizing s with
  | case1 => cases h
  | case2 => cases h; decide
  | case3 t ih =>
    obtain ⟨⟨s, _⟩, hread, heq⟩ := Option.map_eq_some_iff.mp h
    cases heq
    have hroom := ih hread
    rw [room_closing, room_closing, List.length_cons]
    omega
  | case4 c' t hc' =>
    cases h
    rw [room_closing, List.length_nil]
    omega
  | case5 => cases h
  | case6 c' t hclosing ih =>
    obtain ⟨⟨s, _⟩, hread, heq⟩ := Option.map_eq_some_iff.mp h
    cases heq
    have hroom := ih hread
    rw [room_of_ne hclosing, List.length_append]
    -- a closing mark stands for itself, anything else for two characters at most
    by_cases hc' : c' = Quote.apostrophes.closing
    · rw [hc', room_closing, e.closing, List.length_singleton]
      omega
    · rw [room_of_ne hc']
      rcases e.short c' with hkept | hshort
      · rw [hkept, List.length_cons, List.length_singleton]
        omega
      · omega
  | case7 c t hclosing hbackslash ih =>
    obtain ⟨⟨s, _⟩, hread, heq⟩ := Option.map_eq_some_iff.mp h
    cases heq
    have hroom := ih hread
    rw [room_of_ne hclosing, List.length_cons]
    omega

/-- What stands behind a text shows that no more was read than was quoted. -/
theorem length_le_of_readInside? {s v rest : List Char}
    (h : e.readInside? (double Quote.apostrophes.closing s ++ Quote.apostrophes.closing :: rest)
      = some (v, rest)) : v.length ≤ s.length := by
  have hroom := room_of_readInside? h
  rw [room_append, room_double, room_closing] at hroom
  omega

theorem readInside?_backslash (c : Char) (cs : List Char) :
    e.readInside? ('\\' :: c :: cs)
      = (e.readInside? cs).map fun (s, rest) => (e.meaning c ++ s, rest) := by
  rw [readInside?.eq_def]
  exact (if_neg (by decide)).trans (if_pos rfl)

theorem readInside?_other {c : Char} (hclosing : c ≠ Quote.apostrophes.closing)
    (hbackslash : c ≠ '\\') (cs : List Char) :
    e.readInside? (c :: cs) = (e.readInside? cs).map fun (s, rest) => (c :: s, rest) := by
  rw [readInside?.eq_def]
  exact (if_neg hclosing).trans (if_neg hbackslash)

theorem readInside?_doubled (cs : List Char) :
    e.readInside? (Quote.apostrophes.closing :: Quote.apostrophes.closing :: cs)
      = (e.readInside? cs).map fun (s, rest) => (Quote.apostrophes.closing :: s, rest) := by
  rw [readInside?.eq_def]
  exact (if_pos rfl).trans (if_pos rfl)

theorem readInside?_closing {rest : List Char}
    (h : rest.head? ≠ some Quote.apostrophes.closing) :
    e.readInside? (Quote.apostrophes.closing :: rest) = some ([], rest) := by
  rw [readInside?.eq_def]
  cases rest with
  | nil => exact if_pos rfl
  | cons c rest => exact (if_pos rfl).trans (if_neg fun hc => h (congrArg some hc))

/-- What is read behind some characters is not changed by them. -/
theorem map_append_eq_some_iff {r : Option (List Char × List Char)} (front : List Char)
    {s rest : List Char} :
    r.map (fun (s, rest) => (front ++ s, rest)) = some (front ++ s, rest) ↔ r = some (s, rest) := by
  constructor
  · intro h
    obtain ⟨⟨s', rest'⟩, rfl, heq⟩ := Option.map_eq_some_iff.mp h
    obtain ⟨hs, rfl⟩ := Prod.mk.inj heq
    rw [List.append_cancel_left hs]
  · rintro rfl
    rfl

/-- A backslash at the end takes the closing mark away. -/
theorem readInside?_last_ne (rest : List Char) :
    e.readInside? ('\\' :: Quote.apostrophes.closing :: rest) ≠ some (['\\'], rest) := by
  rw [readInside?_backslash]
  intro h
  obtain ⟨⟨v, rest'⟩, hread, heq⟩ := Option.map_eq_some_iff.mp h
  obtain ⟨-, rfl⟩ := Prod.mk.inj heq
  have hroom := room_of_readInside? hread
  omega

/-- A backslash before a mark leaves the mark without it. -/
theorem readInside?_mark_ne (t s rest : List Char) :
    e.readInside? ('\\' :: Quote.apostrophes.closing :: t) ≠ some ('\\' :: s, rest) := by
  rw [readInside?_backslash, e.closing]
  intro h
  obtain ⟨⟨v, rest'⟩, -, heq⟩ := Option.map_eq_some_iff.mp h
  cases (List.cons.inj (Prod.mk.inj heq).1).1

/-- A backslash that does not stand for itself is missing from what is read. -/
theorem readInside?_short_ne {c : Char} (h : (e.meaning c).length ≤ 1) (s rest : List Char) :
    e.readInside? ('\\' :: c :: (double Quote.apostrophes.closing s
      ++ Quote.apostrophes.closing :: rest)) ≠ some ('\\' :: c :: s, rest) := by
  rw [readInside?_backslash]
  intro hread
  obtain ⟨⟨v, rest'⟩, hv, heq⟩ := Option.map_eq_some_iff.mp hread
  obtain ⟨hs, rfl⟩ := Prod.mk.inj heq
  have hlength := congrArg List.length hs
  have hle := length_le_of_readInside? hv
  rw [List.length_append, List.length_cons, List.length_cons] at hlength
  omega

/-- **A text is read back exactly if its backslashes are spared.** -/
theorem readInside?_double_iff {rest : List Char}
    (hrest : rest.head? ≠ some Quote.apostrophes.closing) : ∀ s : List Char,
    e.readInside? (double Quote.apostrophes.closing s ++ Quote.apostrophes.closing :: rest)
      = some (s, rest) ↔ e.Spares s
  | [] => iff_of_true (readInside?_closing hrest) trivial
  | c :: s => by
    by_cases hclosing : c = Quote.apostrophes.closing
    · rw [hclosing, double_cons_self, List.cons_append, List.cons_append, readInside?_doubled]
      rw [Spares, and_iff_right fun h => absurd h (by decide), ← readInside?_double_iff hrest s]
      exact map_append_eq_some_iff [_]
    by_cases hbackslash : c = '\\'
    · rw [hbackslash, double_cons_of_ne (by decide), List.cons_append]
      -- what the backslash does depends on the character behind it
      cases s with
      | nil =>
        refine iff_of_false (readInside?_last_ne rest) fun h => ?_
        obtain ⟨c', hc', -⟩ := h.1 rfl
        cases hc'
      | cons c' s =>
        have hspares : e.Spares ('\\' :: c' :: s)
            ↔ e.meaning c' = ['\\', c'] ∧ e.Spares (c' :: s) := by
          simp [Spares]
        rw [hspares]
        by_cases hc' : c' = Quote.apostrophes.closing
        · rw [hc', double_cons_self, e.closing]
          refine iff_of_false (readInside?_mark_ne _ _ rest) fun h => ?_
          cases h.1
        · rw [double_cons_of_ne hc', List.cons_append]
          rcases e.short c' with hkept | hshort
          · have hne : c' ≠ '\\' := by
              rintro rfl
              cases e.backslash.symm.trans hkept
            rw [readInside?_backslash, and_iff_right hkept, Spares,
              and_iff_right fun h => absurd h hne, ← readInside?_double_iff hrest s, hkept]
            exact map_append_eq_some_iff [_, _]
          · refine iff_of_false (readInside?_short_ne hshort s rest) fun h => ?_
            rw [h.1] at hshort
            exact Nat.not_succ_le_self 1 hshort
    · rw [double_cons_of_ne hclosing, List.cons_append, readInside?_other hclosing hbackslash,
        Spares, and_iff_right fun h => absurd h hbackslash, ← readInside?_double_iff hrest s]
      exact map_append_eq_some_iff [_]

/-- A quoted text is read back exactly if its backslashes are spared. -/
theorem read?_quoteText_iff (s : String) {rest : String}
    (hrest : rest.toList.head? ≠ some Quote.apostrophes.closing) :
    e.read? (Value.quoteText s ++ rest) = some (s, rest) ↔ e.Spares s.toList := by
  have ht : (Value.quoteText s ++ rest).toList = Quote.apostrophes.opening
      :: (double Quote.apostrophes.closing s.toList
        ++ Quote.apostrophes.closing :: rest.toList) := by
    simp [Value.quoteText, Quote.write, Quote.apostrophes]
  rw [read?, ht, ← readInside?_double_iff hrest]
  simp only [if_true]
  constructor
  · intro h
    obtain ⟨⟨s', rest'⟩, hread, heq⟩ := Option.map_eq_some_iff.mp h
    cases heq
    rw [String.toList_ofList, String.toList_ofList] at hread ⊢
    exact hread
  · intro h
    rw [h, Option.map_some, String.ofList_toList, String.ofList_toList]

end Escapes
end Text

/-- **When texts are safe where a backslash escapes.**  Whatever the escapes are, a text is read
back from the constant that is written for it, with what is behind it left unread, exactly if every
backslash in it stands before a character that leaves it as it is. -/
theorem Node.reads_escaped_iff (e : Escapes) (s : String) :
    ∃ t, (literal ⟨.string, .string s, false⟩).WrittenAs Database.mysql.dialect t
      ∧ ∀ rest : String, rest.toList.head? ≠ some Quote.apostrophes.closing →
        (e.read? (t ++ rest) = some (s, rest) ↔ e.Spares s.toList) :=
  ⟨Value.quoteText s, writtenAs_literal (by decide) rfl,
    fun _ hrest => Escapes.read?_quoteText_iff s hrest⟩

/-- Wildcards behind a backslash are read back, together with doubled marks. -/
theorem Node.reads_escaped_iff_wildcards :
    ∃ t, (literal ⟨.string, .string "'50\\%'", false⟩).WrittenAs Database.mysql.dialect t
      ∧ ")".toList.head? ≠ some Quote.apostrophes.closing
      ∧ Escapes.usual.read? (t ++ ")") = some ("'50\\%'", ")") := by
  have hrest : ")".toList.head? ≠ some Quote.apostrophes.closing := by decide
  obtain ⟨t, ht, hread⟩ := reads_escaped_iff .usual "'50\\%'"
  refine ⟨t, ht, hrest, (hread ")" hrest).mpr ?_⟩
  exact ⟨by decide, by decide, by decide, fun _ => ⟨'%', rfl, rfl⟩, by decide, by decide, trivial⟩

/-- **A backslash lets a text leak**: the first of two texts in a filter is a single backslash.  It
takes the closing mark away, and what is read as the text ends at the opening mark of the second
one, so that the content of that becomes a part of the statement. -/
theorem Query.escaped_text_leaks :
    let q : Query := {
      generators := [⟨⟨0, 0⟩, .table "users"⟩]
      filters := [
        .apply .eq [.column ⟨0, 0⟩ "name", .typed .string (.string "\\")],
        .apply .eq [.column ⟨0, 0⟩ "password", .typed .string (.string " or true -- ")]]
      projection := some (.column ⟨0, 0⟩ "id") }
    let before := "select x1.`id` from `users` x1 where (x1.`name` = "
    let behind := ") and (x1.`password` = ' or true -- ')"
    (q.compile .mysql).toOption.map Statement.sql = some (before ++ "'\\'" ++ behind)
      ∧ (Node.literal ⟨.string, .string "\\", false⟩).WrittenAs .mysql "'\\'"
      ∧ behind.toList.head? ≠ some Quote.apostrophes.closing
      ∧ Text.Escapes.usual.read? ("'\\'" ++ behind)
        = some ("') and (x1.`password` = ", " or true -- ')")
      ∧ Text.Escapes.usual.read? ("'\\'" ++ behind) ≠ some ("\\", behind) := by
  intro q before behind
  exact ⟨by decide +kernel, Node.writtenAs_literal (by decide) rfl, by decide, by decide +kernel,
    by decide +kernel⟩

end SqlCompiler
