import SqlCompiler.Statement.Rendering

/-!
# Pages and how they are read

A page is a part of a list of rows: those after an offset, up to a number to fetch.  The databases
ask for it in different words.  This file reads these words back, the way a database would: the
readers take the words of a clause and answer a `Cut`, a number of rows to skip and one to keep, or
a test of the number of a row.  Whichever way the words for a page are put, they mean that page.

* `Text.wordsOf`, `Text.number?` — the words of a text, and numbers among them.
* `Cut`, `Clauses.cut` — a part of a list of rows, and the part that a query asks for.
* `Cut.ofPaging?`, `Cut.ofTop?` — reading the clauses, with `ofPaging?_limit`, `ofPaging?_rows` and
  `ofTop?_toString` for what is written.
* `RowNumbering.tests?` — reading filters on row numbers, and `RowNumbering.keepRows_eq` for the
  rows that they keep.
-/

set_option autoImplicit false
namespace SqlCompiler

/-! ## Words and numbers -/

namespace Text

/-- A blank or a parenthesis. -/
def isGap (c : Char) : Bool :=
  c == ' ' || c == '(' || c == ')'

/-- The words of a text, between blanks and parentheses. -/
def wordsOf (s : String) : List String :=
  ((s.toList.splitOnP isGap).filter (!·.isEmpty)).map String.ofList

/-- The number that a text of digits stands for. -/
def number? (s : String) : Option Nat :=
  if !s.isEmpty && s.toList.all Char.isDigit then some (Nat.ofDigitChars 10 s.toList 0) else none

/-- A gap at the end of a text separates it from the next one. -/
theorem wordsOf_append_of_end {a : String} (ha : a.toList.getLast?.any isGap = true) (b : String) :
    wordsOf (a ++ b) = wordsOf a ++ wordsOf b := by
  obtain ⟨c, hlast, hc⟩ := (Option.any_eq_true _ _).mp ha
  obtain ⟨front, hfront⟩ := List.getLast?_eq_some_iff.mp hlast
  have hend : (front ++ [c]).splitOnP isGap = front.splitOnP isGap ++ [[]] :=
    List.splitOnP_append_cons front [] hc
  rw [wordsOf, wordsOf, wordsOf, String.toList_append, hfront, List.append_assoc,
    List.singleton_append, List.splitOnP_append_cons front _ hc, hend]
  simp

/-- A gap at the beginning of a text separates it from the one before. -/
theorem wordsOf_append_of_start {b : String} (hb : b.toList.head?.any isGap = true) (a : String) :
    wordsOf (a ++ b) = wordsOf a ++ wordsOf b := by
  obtain ⟨c, hhead, hc⟩ := (Option.any_eq_true _ _).mp hb
  obtain ⟨rest, hrest⟩ := List.head?_eq_some_iff.mp hhead
  have hstart : (c :: rest).splitOnP isGap = [] :: rest.splitOnP isGap :=
    List.splitOnP_append_cons [] rest hc
  rw [wordsOf, wordsOf, wordsOf, String.toList_append, hrest,
    List.splitOnP_append_cons _ rest hc, hstart]
  simp

theorem wordsOf_between {b : String} (hstart : b.toList.head?.any isGap = true)
    (hend : b.toList.getLast?.any isGap = true) (a c : String) :
    wordsOf (a ++ b ++ c) = wordsOf a ++ wordsOf b ++ wordsOf c := by
  have hend : (a ++ b).toList.getLast?.any isGap = true := by
    obtain ⟨last, hlast, hgap⟩ := (Option.any_eq_true _ _).mp hend
    rw [String.toList_append, List.getLast?_append, hlast]
    exact hgap
  rw [wordsOf_append_of_end hend, wordsOf_append_of_start hstart]

theorem isDigit_of_mem_toString {n : Nat} {c : Char} (hc : c ∈ (toString n).toList) :
    c.isDigit = true := by
  have hc : c ∈ Nat.toDigits 10 n := by simpa [toString, Nat.toList_repr] using hc
  exact Nat.isDigit_of_mem_toDigits (by decide) (by decide) hc

/-- The digits of a number are one word. -/
theorem wordsOf_toString (n : Nat) : wordsOf (toString n) = [toString n] := by
  have hdigit : ∀ c ∈ (toString n).toList, isGap c = false := by
    intro c hc
    have hdigit := isDigit_of_mem_toString hc
    rw [Bool.eq_false_iff]
    intro hgap
    simp only [isGap, Bool.or_eq_true, beq_iff_eq] at hgap
    rcases hgap with (rfl | rfl) | rfl <;> cases hdigit
  have hne : (toString n).toList.isEmpty = false := by
    rw [Bool.eq_false_iff]
    exact fun h => Nat.repr_ne_empty (String.toList_eq_nil_iff.mp (List.isEmpty_iff.mp h))
  rw [wordsOf, List.splitOnP_eq_singleton hdigit, List.filter_cons, hne, if_pos (by decide)]
  exact congrArg (fun s => [s]) String.ofList_toList

/-- The digits of a number read back as the number. -/
theorem number?_toString (n : Nat) : number? (toString n) = some n := by
  have hne : (toString n).isEmpty = false := by
    rw [Bool.eq_false_iff]
    exact fun h => Nat.repr_ne_empty (String.isEmpty_iff.mp h)
  have hall : (toString n).toList.all Char.isDigit = true :=
    List.all_eq_true.mpr fun c hc => isDigit_of_mem_toString hc
  rw [number?, hne, hall]
  simp [toString, Nat.toList_repr, Nat.ofDigitChars_toDigits]

end Text

open Text

/-! ## Parts of a list of rows -/

/-- A part of a list of rows: those after the first ones, up to a number to keep if there is one. -/
structure Cut where
  skip : Nat := 0
  keep : Option Nat := none

namespace Cut

variable {α : Type}

/-- The rows that are left. -/
def apply (c : Cut) (rows : List α) : List α :=
  match c.keep with
  | none => rows.drop c.skip
  | some n => (rows.drop c.skip).take n

theorem apply_of_keep {c : Cut} {n : Nat} (h : c.keep = some n) (rows : List α) :
    c.apply rows = (rows.drop c.skip).take n := by
  rw [apply, h]

/-- Keeping the first rows and dropping some of them again. -/
theorem drop_apply_top (skip n : Nat) (rows : List α) :
    ((Cut.mk 0 (some (n + skip))).apply rows).drop skip = (rows.drop skip).take n := by
  rw [apply_of_keep rfl, List.drop_zero, List.drop_take, Nat.add_sub_cancel]

/-- A limit as it is written; a negative one does not limit. -/
def limit? (s : String) : Option (Option Nat) :=
  match number? s, s.toList with
  | some n, _ => some (some n)
  | none, '-' :: digits => (number? (String.ofList digits)).map fun _ => none
  | none, _ => none

/-- The part that the last clause of a query asks for, by its words. -/
def ofPaging? : List String → Option Cut
  | [] => some {}
  | ["limit", t] => do return { keep := ← limit? t }
  | ["limit", t, "offset", d] => do return { skip := ← number? d, keep := ← limit? t }
  | ["offset", d] => do return { skip := ← number? d }
  | ["offset", d, "rows"] => do return { skip := ← number? d }
  | ["fetch", "next", t, "rows", "only"] => do return { keep := some (← number? t) }
  | ["offset", d, "rows", "fetch", "next", t, "rows", "only"] => do
    return { skip := ← number? d, keep := some (← number? t) }
  | _ => none

/-- The part that stands before the columns of a query, by its words. -/
def ofTop? : List String → Option Cut
  | [] => some {}
  | ["top", n] => do return { keep := some (← number? n) }
  | _ => none

end Cut

/-- The part of its rows that a query asks for. -/
def Clauses.cut {ν : Type} (q : Clauses ν) : Cut where
  skip := (q.offset.getD 0).toNat
  keep := q.fetch.map UInt64.toNat

namespace RowNumbering

/-- How the filters of a statement refer to the number of a row. -/
def numberText (quote : Quote) : String :=
  (Qualifier.numbered 1).text quote ++ "." ++ quote.write numberColumn

/-- A test of the number of a row, by its words. -/
def test? (number : String) : List String → Option (Nat → Bool)
  | [row, ">", limit] => if row = number then (number? limit).map fun n i => n < i else none
  | [row, "<=", limit] => if row = number then (number? limit).map fun n i => i ≤ n else none
  | _ => none

/-- The filters of a query that keeps the rows of a page, by their words. -/
def tests? (number : String) : List String → Option (Nat → Bool)
  | ["where", row, relation, limit] => test? number [row, relation, limit]
  | ["where", row, relation, limit, "and", row', relation', limit'] => do
    let first ← test? number [row, relation, limit]
    let second ← test? number [row', relation', limit']
    return fun i => first i && second i
  | _ => none

/-- The rows whose numbers, counted from one, pass a test. -/
def keepRows {α : Type} (test : Nat → Bool) (rows : List α) : List α :=
  ((rows.zipIdx 1).filter fun row => test row.2).map Prod.fst

end RowNumbering

/-! ## Reading the clauses -/

namespace Cut

open Script (pagingText)

theorem limit?_toString (n : Nat) : limit? (toString n) = some (some n) := by
  rw [limit?, number?_toString]

/-- A number that limits no list with fewer rows than can be counted. -/
def Boundless (keep : Option Nat) : Prop :=
  ∀ n, keep = some n → UInt64.size - 1 ≤ n

/-- A list with fewer rows than can be counted is not cut by such a number. -/
theorem apply_boundless {keep : Option Nat} (h : Boundless keep) (skip : Nat) {α : Type}
    {rows : List α} (hrows : rows.length < UInt64.size - 1) :
    (Cut.mk skip keep).apply rows = rows.drop skip := by
  cases keep with
  | none => rfl
  | some n =>
    have hn := h n rfl
    refine List.take_of_length_le ?_
    rw [List.length_drop]
    omega

theorem wordsOf_limit : wordsOf " limit " = ["limit"] := by decide

theorem wordsOf_offset : wordsOf " offset " = ["offset"] := by decide

theorem wordsOf_rows : wordsOf " rows" = ["rows"] := by decide

theorem wordsOf_next : wordsOf " rows fetch next " = ["rows", "fetch", "next"] := by decide

theorem wordsOf_only : wordsOf " rows only" = ["rows", "only"] := by decide

theorem wordsOf_fetch : wordsOf " fetch next " = ["fetch", "next"] := by decide

/-- The last clause of a query where rows are limited. -/
theorem ofPaging?_limit {unbounded : Option String}
    (hunbounded : ∀ text, unbounded = some text → wordsOf text = [text]
      ∧ ∃ keep, limit? text = some keep ∧ Boundless keep) (fetch offset : Option Nat) :
    ∃ cut, ofPaging? (wordsOf (pagingText (.limit unbounded) fetch offset)) = some cut
      ∧ ∀ {α : Type} (rows : List α), rows.length < UInt64.size - 1 →
          cut.apply rows = (Cut.mk (offset.getD 0) fetch).apply rows := by
  cases fetch with
  | some t =>
    cases offset with
    | none =>
      refine ⟨{ keep := some t }, ?_, fun _ _ => rfl⟩
      change ofPaging? (wordsOf (" limit " ++ toString t)) = _
      rw [wordsOf_append_of_end (by decide), wordsOf_limit, wordsOf_toString]
      change (do return { keep := ← limit? (toString t) } : Option Cut) = _
      rw [limit?_toString]
      rfl
    | some d =>
      refine ⟨{ skip := d, keep := some t }, ?_, fun _ _ => rfl⟩
      change ofPaging? (wordsOf (" limit " ++ toString t ++ " offset " ++ toString d)) = _
      rw [wordsOf_between (by decide) (by decide), wordsOf_append_of_end (by decide),
        wordsOf_limit, wordsOf_offset, wordsOf_toString, wordsOf_toString]
      change (do return { skip := ← number? (toString d), keep := ← limit? (toString t) }
        : Option Cut) = _
      rw [limit?_toString, number?_toString]
      rfl
  | none =>
    cases offset with
    | none => exact ⟨{}, by cases unbounded <;> rfl, fun _ _ => rfl⟩
    | some d =>
      cases unbounded with
      | none =>
        refine ⟨{ skip := d }, ?_, fun _ _ => rfl⟩
        change ofPaging? (wordsOf (" offset " ++ toString d)) = _
        rw [wordsOf_append_of_end (by decide), wordsOf_offset, wordsOf_toString]
        change (do return { skip := ← number? (toString d) } : Option Cut) = _
        rw [number?_toString]
        rfl
      | some text =>
        obtain ⟨hword, keep, hkeep, hboundless⟩ := hunbounded text rfl
        refine ⟨{ skip := d, keep }, ?_, fun rows hrows => apply_boundless hboundless d hrows⟩
        change ofPaging? (wordsOf (" limit " ++ text ++ " offset " ++ toString d)) = _
        rw [wordsOf_between (by decide) (by decide), wordsOf_append_of_end (by decide),
          wordsOf_limit, wordsOf_offset, hword, wordsOf_toString]
        change (do return { skip := ← number? (toString d), keep := ← limit? text }
          : Option Cut) = _
        rw [hkeep, number?_toString]
        rfl

/-- The last clause of a query where rows are fetched next. -/
theorem ofPaging?_rows (fetch offset : Option Nat) :
    ofPaging? (wordsOf (pagingText .rows fetch offset)) = some ⟨offset.getD 0, fetch⟩ := by
  cases fetch with
  | some t =>
    cases offset with
    | none =>
      change ofPaging? (wordsOf (" fetch next " ++ toString t ++ " rows only")) = _
      rw [wordsOf_append_of_start (by decide), wordsOf_append_of_end (by decide),
        wordsOf_fetch, wordsOf_only, wordsOf_toString]
      change (do return { keep := some (← number? (toString t)) } : Option Cut) = _
      rw [number?_toString]
      rfl
    | some d =>
      change ofPaging? (wordsOf (" offset " ++ toString d ++ " rows fetch next " ++ toString t
        ++ " rows only")) = _
      rw [wordsOf_append_of_start (by decide), wordsOf_between (by decide) (by decide),
        wordsOf_append_of_end (by decide), wordsOf_offset, wordsOf_next, wordsOf_only,
        wordsOf_toString, wordsOf_toString]
      change (do
        return { skip := ← number? (toString d), keep := some (← number? (toString t)) }
        : Option Cut) = _
      rw [number?_toString, number?_toString]
      rfl
  | none =>
    cases offset with
    | none => rfl
    | some d =>
      change ofPaging? (wordsOf (" offset " ++ toString d ++ " rows")) = _
      rw [wordsOf_append_of_start (by decide), wordsOf_append_of_end (by decide),
        wordsOf_offset, wordsOf_rows, wordsOf_toString]
      change (do return { skip := ← number? (toString d) } : Option Cut) = _
      rw [number?_toString]
      rfl

/-- The number of topmost rows. -/
theorem ofTop?_toString (n : Nat) :
    ofTop? (wordsOf ("top " ++ toString n ++ " ")) = some { keep := some n } := by
  rw [wordsOf_append_of_start (by decide), wordsOf_append_of_end (by decide), wordsOf_toString,
    show wordsOf "top " = ["top"] by decide, show wordsOf " " = [] by decide]
  change (do return { keep := some (← number? (toString n)) } : Option Cut) = _
  rw [number?_toString]
  rfl

end Cut

/-! ## Keeping rows by their numbers -/

namespace RowNumbering

variable {α : Type}

/-- The rows up to a number. -/
theorem filter_zipIdx_le (rows : List α) (start limit : Nat) :
    (rows.zipIdx (start + 1)).filter (fun row => decide (row.2 ≤ start + limit))
      = (rows.take limit).zipIdx (start + 1) := by
  induction rows generalizing start limit with
  | nil => simp
  | cons row rows ih =>
    cases limit with
    | zero =>
      refine List.filter_eq_nil_iff.mpr fun x hx => ?_
      have hle := List.le_snd_of_mem_zipIdx hx
      rw [decide_eq_true_eq]
      omega
    | succ limit =>
      have hrest := ih (start + 1) limit
      rw [show start + 1 + limit = start + (limit + 1) by omega] at hrest
      rw [List.zipIdx_cons, List.filter_cons_of_pos (by simp), hrest, List.take_succ_cons,
        List.zipIdx_cons]

/-- The rows after a number. -/
theorem map_filter_zipIdx_gt (rows : List α) (start skip : Nat) :
    ((rows.zipIdx (start + 1)).filter fun row => decide (start + skip < row.2)).map Prod.fst
      = rows.drop skip := by
  induction rows generalizing start skip with
  | nil => simp
  | cons row rows ih =>
    cases skip with
    | zero =>
      have hall : ∀ x ∈ (row :: rows).zipIdx (start + 1), decide (start + 0 < x.2) = true := by
        intro x hx
        have hle := List.le_snd_of_mem_zipIdx hx
        rw [decide_eq_true_eq]
        omega
      rw [List.filter_eq_self.mpr hall, List.zipIdx_map_fst]
      rfl
    | succ skip =>
      have hrest := ih (start + 1) skip
      rw [show start + 1 + skip = start + (skip + 1) by omega] at hrest
      rw [List.zipIdx_cons, List.filter_cons_of_neg (by simp), hrest, List.drop_succ_cons]

/-- **Keeping rows by their numbers** leaves the rows after the first ones, up to the last. -/
theorem keepRows_eq {test : Nat → Bool} {c : Cut}
    (h : ∀ i, test i = (decide (c.skip < i) && c.keep.all fun n => i ≤ c.skip + n))
    (rows : List α) : keepRows test rows = c.apply rows := by
  simp only [keepRows, h]
  cases hkeep : c.keep with
  | none =>
    rw [Cut.apply, hkeep]
    have hdrop := map_filter_zipIdx_gt rows 0 c.skip
    simpa using hdrop
  | some n =>
    have htake := filter_zipIdx_le rows 0 (c.skip + n)
    have hdrop := map_filter_zipIdx_gt (rows.take (c.skip + n)) 0 c.skip
    simp only [Nat.zero_add] at htake hdrop
    simp only [Option.all_some]
    rw [← List.filter_filter, htake, hdrop, List.drop_take, Nat.add_sub_cancel_left, Cut.apply,
      hkeep]

end RowNumbering

end SqlCompiler
