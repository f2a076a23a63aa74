import SqlCompiler.Proofs.Cuts
import SqlCompiler.Proofs.Skipping

/-!
# The rows of a page

Five ways of asking for a part of the rows, one page.  `Sections.page?` reads back what was written
for the outermost query and says which rows of the whole result it yields.  Whatever the database,
these are the rows that were asked for, once the caller has dropped the rows that are left to it;
and a page whose rows have to be counted and cannot be is refused.

* `Sections.page?` — the rows that a statement yields.
* `Script.tests?_filters` — the filters on row numbers, read back.
* `Query.Written.page_of_paging`, `page_of_top`, `page_of_numbered` — the ways of asking.
* `Query.page_eq_cut` — every database pages the same rows.
* `Query.compile_top_beyond_row_numbers` — where rows are numbered only to skip some, topmost rows
  are not counted.
-/

set_option autoImplicit false
namespace SqlCompiler

open Text

/-- The rows that a statement yields out of all rows of its outermost query, by its text: first the
filters on their numbers, if they are numbered, then the last clause, then the first. -/
def Sections.page? {α : Type} (quote : Quote) (isNumbered : Bool) (t : Sections) (rows : List α) :
    Option (List α) := do
  let text (o : Output) := wordsOf (Piece.joined quote o.pieces)
  let rows ← if isNumbered then
      (RowNumbering.tests? (RowNumbering.numberText quote) (text t.filters)).map
        fun test => RowNumbering.keepRows test rows
    else some rows
  let paging ← Cut.ofPaging? (text t.paging)
  let top ← Cut.ofTop? (text t.modifiers)
  return top.apply (paging.apply rows)

namespace Script

/-- What is written for a text, if there is any, is the text. -/
theorem joined_wordsIfAny {quote : Quote} {text : String} {aliases : Aliases} {nested : Bool}
    {count : Nat} {o : Output} (ho : (wordsIfAny text).output aliases nested count = .ok o) :
    Piece.joined quote o.pieces = text := by
  rw [wordsIfAny] at ho
  split at ho
  · next hempty =>
    cases ho
    exact (String.isEmpty_iff.mp hempty).symm
  · cases ho
    simp [Piece.joined, Piece.text]

end Script

/-! ## Reading the filters on row numbers -/

namespace RowNumbering

/-- A row number compared with a constant. -/
def rowCompare (outer : Symbol) (f : Function) (n : Nat) : Node :=
  .apply f [.column outer numberColumn, rowConstant n]

/-- The comparisons of row numbers, and how they are written. -/
def Relation (f : Function) (symbol : String) : Prop :=
  f = .gt ∧ symbol = " > " ∨ f = .le ∧ symbol = " <= "

/-- The greatest row number. -/
def maxRow : Nat := Int64.maxValue.toInt.toNat

theorem le_of_bound {n : Nat} {m : Node} (h : bound .plain n = .ok m) : n ≤ maxRow := by
  rw [bound] at h
  split at h
  · next hn =>
    have hmax : Int64.maxValue.toInt = maxRow := rfl
    omega
  · cases h

theorem lastRow_eq_ok {fetch offset : UInt64} {last : Nat} (h : lastRow fetch offset = .ok last) :
    last = offset.toNat + fetch.toNat := by
  rw [lastRow] at h
  split at h
  · cases h; rfl
  · cases h

/-- The query that keeps the rows of a page has filters for the rows after the offset, up to the
last one if there is a number to fetch; and both can be counted. -/
theorem filters_numberRows {dialect : String} {q p : Query}
    (h : Query.numberRows dialect q = .ok p) :
    p.binders = [Query.freshSymbol q] ∧ p.fetch = none
      ∧ p.filters = rowCompare (Query.freshSymbol q) .gt q.cut.skip
          :: (q.cut.keep.map fun n =>
            rowCompare (Query.freshSymbol q) .le (q.cut.skip + n)).toList
      ∧ q.cut.skip ≤ maxRow ∧ ∀ n, q.cut.keep = some n → q.cut.skip + n ≤ maxRow := by
  rw [Query.numberRows, page_eq] at h
  obtain ⟨r, -, h⟩ := bind_eq_ok_iff.mp h
  obtain ⟨after, hafter, h⟩ := bind_eq_ok_iff.mp h
  obtain ⟨until_, huntil, h⟩ := bind_eq_ok_iff.mp h
  cases h
  have hskip : (q.offset.getD 0).toNat ≤ maxRow := le_of_bound hafter
  cases bound_eq_ok hafter
  refine ⟨rfl, rfl, ?_⟩
  cases hfetch : q.fetch with
  | none =>
    rw [hfetch] at huntil
    cases huntil
    have hkeep : q.cut.keep = none := by rw [Clauses.cut, hfetch]; rfl
    rw [hkeep]
    refine ⟨rfl, hskip, fun n hn => ?_⟩
    cases hn
  | some fetch =>
    rw [hfetch, Option.mapM_some] at huntil
    obtain ⟨limit, hlimit, huntil⟩ := bind_eq_ok_iff.mp huntil
    obtain ⟨last, hlast, hbound⟩ := bind_eq_ok_iff.mp hlimit
    cases huntil
    have hlast' := lastRow_eq_ok hlast
    have hle := le_of_bound hbound
    cases bound_eq_ok hbound
    have hkeep : q.cut.keep = some fetch.toNat := by rw [Clauses.cut, hfetch]; rfl
    rw [hkeep]
    refine ⟨?_, hskip, fun n hn => ?_⟩
    · rw [hlast']
      rfl
    · cases hn
      exact hlast' ▸ hle

end RowNumbering

namespace Script

/-- A script that writes exactly these pieces. -/
def Emits (aliases : Aliases) (σ : Script) (ps : List Piece) : Prop :=
  ∀ nested count, σ.output aliases nested count = .ok { pieces := ps, aliasCount := count }

variable {aliases : Aliases}

theorem Emits.append {σ τ : Script} {ps qs : List Piece} (hσ : Emits aliases σ ps)
    (hτ : Emits aliases τ qs) : Emits aliases (σ ++ τ) (ps ++ qs) := fun nested count =>
  bind_eq_ok_iff.mpr ⟨_, hσ nested count, bind_eq_ok_iff.mpr ⟨_, hτ nested count, rfl⟩⟩

theorem emits_piece (p : Piece) : Emits aliases (piece p) [p] :=
  fun _ _ => rfl

theorem emits_done : Emits aliases done [] :=
  fun _ _ => rfl

theorem emits_column {outer : Symbol} {a : Qualifier} (h : aliases outer = some a) (d : Dialect)
    (name : String) :
    Emits aliases ((Node.column outer name).script d) [.qualifier a, .words ".", .name name] := by
  have hreference : Emits aliases (reference outer) [.qualifier a] := by
    intro nested count
    rw [output, Aliases.lookup, h]
    rfl
  rw [Node.script_column]
  exact (hreference.append (emits_piece _)).append (emits_piece _)

open RowNumbering in
/-- A row number compared with a constant, as it is written where rows are numbered. -/
theorem emits_rowCompare {outer : Symbol} (h : aliases outer = some (.numbered 1)) {f : Function}
    {symbol : String} (hf : Relation f symbol) {n : Nat} (hn : n ≤ maxRow) :
    ∃ ps, Emits aliases ((rowCompare outer f n).script .sqlserver) ps
      ∧ Piece.joined .brackets ps = "(x1.[rownum]" ++ symbol ++ toString n ++ ")" := by
  have hcolumn := emits_column h .sqlserver numberColumn
  have hconstant : Emits aliases ((rowConstant n).script .sqlserver) [.constant (toString n)] := by
    intro nested count
    have htext : toString (Int64.ofNat n).toInt = toString n := by
      rw [Int64.toInt_ofNat_of_lt (Nat.lt_succ_of_le hn)]
      rfl
    rw [← htext]
    rfl
  have hspelled : Emits aliases ((rowCompare outer f n).script .sqlserver)
      [.words "(", .qualifier (.numbered 1), .words ".", .name numberColumn, .words symbol,
        .constant (toString n), .words ")"] := by
    rw [rowCompare, Node.script_apply]
    rcases hf with ⟨rfl, rfl⟩ | ⟨rfl, rfl⟩
    all_goals
      exact ((emits_done.append emits_done).append emits_done).append
        (((emits_piece _).append ((((hcolumn).append (emits_piece _)).append hconstant).append
          emits_done)).append (emits_piece _))
  have hnumber : "(" ++ ("x" ++ toString 1) ++ "." ++ Quote.brackets.write numberColumn
      = "(x1.[rownum]" := by decide
  refine ⟨_, hspelled, ?_⟩
  rw [← hnumber]
  simp [Piece.joined, Piece.text, Qualifier.text, String.append_assoc]

/-- The words of such a comparison. -/
theorem wordsOf_rowCompare {f : Function} {symbol : String} (hf : RowNumbering.Relation f symbol)
    (n : Nat) :
    wordsOf ("(x1.[rownum]" ++ symbol ++ toString n ++ ")")
      = "x1.[rownum]" :: wordsOf symbol ++ [toString n] := by
  have hgaps : symbol.toList.head?.any isGap = true ∧ symbol.toList.getLast?.any isGap = true := by
    rcases hf with ⟨-, rfl⟩ | ⟨-, rfl⟩ <;> decide
  rw [wordsOf_append_of_start (by decide), wordsOf_between hgaps.1 hgaps.2, wordsOf_toString,
    show wordsOf "(x1.[rownum]" = ["x1.[rownum]"] by decide, show wordsOf ")" = [] by decide,
    List.append_nil]
  rfl

open RowNumbering in
/-- **The filters on row numbers, read back.** -/
theorem tests?_filters {q p : Query} (h : Query.numberRows Dialect.sqlserver.name q = .ok p)
    {nested : Bool} {count : Nat} {o : Output}
    (ho : (filters (Query.rendering .sqlserver p)).output p.outermost nested count = .ok o) :
    ∃ test, tests? (numberText .brackets) (wordsOf (Piece.joined .brackets o.pieces)) = some test
      ∧ ∀ i, test i = (decide (q.cut.skip < i) && q.cut.keep.all fun n => i ≤ q.cut.skip + n) := by
  obtain ⟨hbinders, -, hfilters, hskip, hkeep⟩ := filters_numberRows h
  have houter : p.outermost (Query.freshSymbol q) = some (.numbered 1) := by
    rw [Query.outermost, hbinders]
    exact if_pos rfl
  have hgt : Relation .gt " > " := .inl ⟨rfl, rfl⟩
  have hle : Relation .le " <= " := .inr ⟨rfl, rfl⟩
  have hwhere : Emits p.outermost (words " where ") [.words " where "] := emits_piece _
  obtain ⟨first, hfirst, htext⟩ := emits_rowCompare houter hgt hskip
  rw [filters, show (Query.rendering .sqlserver p).filters
    = p.filters.map (Node.rendering .sqlserver) from rfl, hfilters] at ho
  rw [show numberText .brackets = "x1.[rownum]" by decide]
  cases hlast : q.cut.keep with
  | none =>
    rw [hlast] at ho
    cases ((hwhere.append (hfirst.append emits_done)) nested count).symm.trans ho
    refine ⟨fun i => q.cut.skip < i, ?_, fun i => (Bool.and_true _).symm⟩
    rw [Piece.joined_append, Piece.joined_append, htext, Piece.joined_singleton,
      show Piece.joined .brackets [] = "" from rfl, String.append_empty, Piece.text,
      wordsOf_append_of_end (by decide), wordsOf_rowCompare hgt,
      show wordsOf " where " = ["where"] by decide, show wordsOf " > " = [">"] by decide]
    change (number? (toString q.cut.skip)).map _ = _
    rw [number?_toString]
    rfl
  | some n =>
    rw [hlast] at ho
    have hand : Emits p.outermost (words " and ") [.words " and "] := emits_piece _
    obtain ⟨second, hsecond, htext'⟩ := emits_rowCompare houter hle (hkeep n hlast)
    cases ((hwhere.append (hfirst.append ((hand.append hsecond).append emits_done)))
      nested count).symm.trans ho
    refine ⟨fun i => decide (q.cut.skip < i) && decide (i ≤ q.cut.skip + n), ?_, fun _ => rfl⟩
    simp only [Piece.joined_append, htext, htext', Piece.joined_singleton, Piece.text,
      show Piece.joined .brackets [] = "" from rfl, String.append_empty]
    rw [wordsOf_append_of_end (by decide), ← String.append_assoc,
      wordsOf_between (by decide) (by decide), wordsOf_rowCompare hgt, wordsOf_rowCompare hle,
      show wordsOf " where " = ["where"] by decide, show wordsOf " and " = ["and"] by decide,
      show wordsOf " > " = [">"] by decide, show wordsOf " <= " = ["<="] by decide]
    change (do
      let first ← (number? (toString q.cut.skip)).map fun n i => decide (n < i)
      let second ← (number? (toString (q.cut.skip + n))).map fun n i => decide (i ≤ n)
      return fun i => first i && second i : Option (Nat → Bool)) = _
    rw [number?_toString, number?_toString]
    rfl

end Script

/-! ## The beginning of a query -/

namespace Script

variable {d : Dialect} {r : Clauses Rendering} {aliases : Aliases} {nested : Bool} {count : Nat}
  {o : Output}

/-- Most dialects write nothing before the columns. -/
theorem modifiers_eq_done (h : r.fetch = none ∨ d.paging ≠ .top ∧ d.paging ≠ .numbered) :
    modifiers d r = done := by
  rw [modifiers]
  split
  · next hpaging hfetch =>
    rcases h with h | h
    · cases h.symm.trans hfetch
    · exact absurd hpaging h.1
  · next hpaging hfetch =>
    rcases h with h | h
    · cases h.symm.trans hfetch
    · exact absurd hpaging h.2
  · rfl

/-- Where rows are numbered only to skip some, the topmost rows are asked for directly. -/
theorem modifiers_numbered {fetch : UInt64} (hpaging : d.paging = .numbered)
    (hfetch : r.fetch = some fetch) (hoffset : r.offset = none) :
    modifiers d r = words ("top " ++ toString fetch.toNat ++ " ") := by
  rw [modifiers, hpaging, hfetch, hoffset]
  rfl

/-- Where the topmost rows are all that can be asked for, those before the offset are left to the
caller. -/
theorem output_modifiers_top {fetch : UInt64} (hpaging : d.paging = .top)
    (hfetch : r.fetch = some fetch) (ho : (modifiers d r).output aliases nested count = .ok o) :
    fetch.toNat + (r.offset.getD 0).toNat < UInt64.size
      ∧ o.pieces = [.words ("top " ++ toString (fetch.toNat + (r.offset.getD 0).toNat) ++ " ")]
      ∧ o.skipRows.getD 0 = r.offset.getD 0 := by
  rw [modifiers, hpaging, hfetch] at ho
  dsimp only at ho
  rw [topRows] at ho
  split at ho
  · next hsum =>
    obtain ⟨x, y, hx, hy, rfl⟩ := output_append_eq_ok ho
    cases hx
    refine ⟨hsum, ?_⟩
    split at hy
    · cases hy
      exact ⟨rfl, rfl⟩
    · next hzero =>
      cases hy
      have hzero : r.offset.getD 0 = 0 := by
        rw [← UInt64.toNat_inj]
        exact Nat.eq_zero_of_not_pos fun hpos => hzero (UInt64.lt_iff_toNat_lt.mpr hpos)
      exact ⟨rfl, hzero.symm⟩
  · cases ho

end Script

namespace Query

variable {α : Type} {b : Database} {q p : Query} {s : Statement} {t : Sections}

theorem Written.eq (h : Written b.dialect q s p t) (hq : ¬ b.dialect.Numbers q) : p = q := by
  have hp := h.standIn
  rw [standIn_of_not_numbers hq] at hp
  cases hp
  rfl

/-- The words of the last clause. -/
theorem Written.joined_paging (h : Written b.dialect q s p t) :
    Piece.joined s.quote t.paging.pieces = Script.pagingText b.dialect.paging
      (p.fetch.map UInt64.toNat) (p.offset.map UInt64.toNat) :=
  Script.joined_wordsIfAny h.of.paging

/-- Nothing is written before the columns. -/
theorem Written.modifiers_nothing (h : Written b.dialect q s p t)
    (hp : p.fetch = none ∨ b.dialect.paging ≠ .top ∧ b.dialect.paging ≠ .numbered) :
    Cut.ofTop? (wordsOf (Piece.joined s.quote t.modifiers.pieces)) = some {} ∧ s.skipRows = 0 := by
  have hmodifiers := h.of.modifiers
  rw [Script.modifiers_eq_done hp] at hmodifiers
  have hnothing : t.modifiers = { aliasCount := p.binders.length } :=
    (Except.ok.inj hmodifiers).symm
  rw [skipRows_of_written h, hnothing]
  exact ⟨rfl, rfl⟩

theorem skip_cut (q : Query) : (q.offset.map UInt64.toNat).getD 0 = q.cut.skip := by
  rw [Clauses.cut]
  cases q.offset <;> rfl

/-- The page of a statement whose rows are not numbered. -/
theorem page?_of_not_numbers (hq : ¬ b.dialect.Numbers q) {paging top : Cut}
    (hpaging : Cut.ofPaging? (wordsOf (Piece.joined s.quote t.paging.pieces)) = some paging)
    (htop : Cut.ofTop? (wordsOf (Piece.joined s.quote t.modifiers.pieces)) = some top)
    (rows : List α) :
    t.page? s.quote (decide (b.dialect.Numbers q)) rows = some (top.apply (paging.apply rows)) := by
  rw [Sections.page?, decide_eq_false hq, hpaging, htop]
  rfl

/-- Where the last clause asks for the rows, it asks for the right ones. -/
theorem Written.page_of_paging (h : Written b.dialect q s p t)
    (hb : b.dialect.paging ≠ .top ∧ b.dialect.paging ≠ .numbered)
    (hread : ∀ fetch offset, ∃ cut,
      Cut.ofPaging? (wordsOf (Script.pagingText b.dialect.paging fetch offset)) = some cut
        ∧ ∀ {α : Type} (rows : List α), rows.length < UInt64.size - 1 →
            cut.apply rows = (Cut.mk (offset.getD 0) fetch).apply rows)
    (rows : List α) (hrows : rows.length < UInt64.size - 1) :
    (t.page? s.quote (decide (b.dialect.Numbers q)) rows).map (List.drop s.skipRows.toNat)
      = some (q.cut.apply rows) := by
  have hq : ¬ b.dialect.Numbers q := fun hq => hb.2 hq.1
  cases h.eq hq
  obtain ⟨htop, hskip⟩ := h.modifiers_nothing (.inr hb)
  obtain ⟨cut, hcut, happly⟩ := hread (q.fetch.map UInt64.toNat) (q.offset.map UInt64.toNat)
  rw [← h.joined_paging] at hcut
  rw [page?_of_not_numbers hq hcut htop, hskip, happly rows hrows, skip_cut]
  rfl

/-- Where the topmost rows are all that can be asked for, dropping the first ones leaves the right
rows. -/
theorem Written.page_of_top (h : Written Database.access.dialect q s p t) (rows : List α) :
    (t.page? s.quote (decide (Database.access.dialect.Numbers q)) rows).map
        (List.drop s.skipRows.toNat)
      = some (q.cut.apply rows) := by
  have hq : ¬ Database.access.dialect.Numbers q := fun hq => nomatch hq.1
  cases h.eq hq
  have hpaging : Cut.ofPaging? (wordsOf (Piece.joined s.quote t.paging.pieces)) = some {} := by
    rw [h.joined_paging]
    rfl
  cases hfetch : q.fetch with
  | none =>
    -- an offset alone would have been refused
    have hoffset : q.offset = none := by
      cases hoffset : q.offset with
      | none => rfl
      | some offset =>
        have hdemand : Capability.pagingDrop ∈ q.demands := by
          rw [Clauses.demands, hoffset, hfetch]
          exact List.mem_cons_self
        cases (supports_paging h.checked).2 _ hdemand
    obtain ⟨htop, hskip⟩ := h.modifiers_nothing (.inl hfetch)
    rw [page?_of_not_numbers hq hpaging htop, hskip, Clauses.cut, hfetch, hoffset]
    rfl
  | some fetch =>
    obtain ⟨-, hpieces, hskip⟩ := Script.output_modifiers_top rfl hfetch h.of.modifiers
    have htop : Cut.ofTop? (wordsOf (Piece.joined s.quote t.modifiers.pieces))
        = some { keep := some (fetch.toNat + q.cut.skip) } := by
      rw [hpieces, Piece.joined_singleton]
      exact Cut.ofTop?_toString _
    have hskip : s.skipRows.toNat = q.cut.skip := by
      rw [skipRows_of_written h, hskip]
      rfl
    have hkeep : q.cut.keep = some fetch.toNat := by
      rw [Clauses.cut, hfetch]
      rfl
    rw [page?_of_not_numbers hq hpaging htop, hskip, Option.map_some, Cut.drop_apply_top,
      Cut.apply_of_keep hkeep]
    rfl

/-- Where rows are numbered, the filters on their numbers leave the right rows; the topmost rows
are asked for if none are skipped. -/
theorem Written.page_of_numbered (h : Written Database.sqlserver.dialect q s p t) (rows : List α) :
    (t.page? s.quote (decide (Database.sqlserver.dialect.Numbers q)) rows).map
        (List.drop s.skipRows.toNat)
      = some (q.cut.apply rows) := by
  have hpaging : Cut.ofPaging? (wordsOf (Piece.joined s.quote t.paging.pieces)) = some {} := by
    rw [h.joined_paging]
    rfl
  by_cases hq : Database.sqlserver.dialect.Numbers q
  · have hp := h.standIn
    rw [Query.standIn, if_pos hq] at hp
    obtain ⟨test, htest, hrows⟩ := Script.tests?_filters hp h.of.filters
    obtain ⟨htop, hskip⟩ := h.modifiers_nothing (.inl (RowNumbering.filters_numberRows hp).2.1)
    rw [← show s.quote = .brackets from h.quote] at htest
    rw [Sections.page?, decide_eq_true hq, if_pos rfl, htest, hpaging, htop, hskip]
    exact congrArg some (RowNumbering.keepRows_eq hrows rows)
  · have hoffset : q.offset = none := by
      cases hoffset : q.offset with
      | none => rfl
      | some offset => exact absurd ⟨rfl, by rw [hoffset]; rfl⟩ hq
    cases h.eq hq
    cases hfetch : q.fetch with
    | none =>
      obtain ⟨htop, hskip⟩ := h.modifiers_nothing (.inl hfetch)
      rw [page?_of_not_numbers hq hpaging htop, hskip, Clauses.cut, hfetch, hoffset]
      rfl
    | some fetch =>
      have hmodifiers := h.of.modifiers
      rw [Script.modifiers_numbered rfl hfetch hoffset] at hmodifiers
      have htop : Cut.ofTop? (wordsOf (Piece.joined s.quote t.modifiers.pieces))
          = some { keep := some fetch.toNat } := by
        rw [← Except.ok.inj hmodifiers, Piece.joined_singleton]
        exact Cut.ofTop?_toString _
      have hskip : s.skipRows = 0 := by
        rw [skipRows_of_written h, ← Except.ok.inj hmodifiers]
        rfl
      rw [page?_of_not_numbers hq hpaging htop, hskip, Clauses.cut, hfetch, hoffset]
      rfl

/-- The last clauses of the built-in dialects ask for the right rows. -/
theorem ofPaging?_dialect (b : Database)
    (hb : b.dialect.paging ≠ .top ∧ b.dialect.paging ≠ .numbered) (fetch offset : Option Nat) :
    ∃ cut, Cut.ofPaging? (wordsOf (Script.pagingText b.dialect.paging fetch offset)) = some cut
      ∧ ∀ {α : Type} (rows : List α), rows.length < UInt64.size - 1 →
          cut.apply rows = (Cut.mk (offset.getD 0) fetch).apply rows := by
  cases b with
  | postgres | h2 =>
    refine Cut.ofPaging?_limit (fun text htext => ?_) fetch offset
    cases htext
  | mysql =>
    refine Cut.ofPaging?_limit (fun text htext => ?_) fetch offset
    cases htext
    refine ⟨by decide, some 18446744073709551615, by decide, fun n hn => ?_⟩
    cases hn
    exact Nat.le_refl _
  | sqlite =>
    refine Cut.ofPaging?_limit (fun text htext => ?_) fetch offset
    cases htext
    exact ⟨by decide, none, by decide, fun n hn => nomatch hn⟩
  | derby => exact ⟨_, Cut.ofPaging?_rows fetch offset, fun _ _ => rfl⟩
  | access => exact absurd rfl hb.1
  | sqlserver => exact absurd rfl hb.2

/-- Every built-in dialect asks for the right rows. -/
theorem Written.page (h : Written b.dialect q s p t) (rows : List α)
    (hrows : rows.length < UInt64.size - 1) :
    (t.page? s.quote (decide (b.dialect.Numbers q)) rows).map (List.drop s.skipRows.toNat)
      = some (q.cut.apply rows) := by
  cases b with
  | access => exact h.page_of_top rows
  | sqlserver => exact h.page_of_numbered rows
  | _ => exact h.page_of_paging ⟨nofun, nofun⟩ (ofPaging?_dialect _ ⟨nofun, nofun⟩) rows hrows

/-- Only one dialect leaves rows to the caller, and these are the rows before the offset. -/
theorem Written.skipRows_eq (h : Written b.dialect q s p t) (hskip : s.skipRows ≠ 0) :
    b = .access ∧ q.offset = some s.skipRows := by
  by_cases htop : b.dialect.paging = .top
  · cases b with
    | access =>
      cases h.eq fun hq => nomatch hq.1
      refine ⟨rfl, ?_⟩
      cases hfetch : q.fetch with
      | none => exact absurd (h.modifiers_nothing (.inl hfetch)).2 hskip
      | some fetch =>
        have hrows : s.skipRows = q.offset.getD 0 := by
          rw [skipRows_of_written h]
          exact (Script.output_modifiers_top rfl hfetch h.of.modifiers).2.2
        cases hoffset : q.offset with
        | none =>
          rw [hoffset] at hrows
          exact absurd hrows hskip
        | some offset => rw [hrows, hoffset, Option.getD_some]
    | _ => cases htop
  · have hquiet := Script.quiet_modifiers (fun hpaging => absurd hpaging htop) h.of.modifiers
    rw [skipRows_of_written h, hquiet] at hskip
    exact absurd rfl hskip

/-- A query of which no statement can be written is refused. -/
theorem exists_error_of_not_written {d : Dialect} (h : ∀ s p t, ¬ Written d q s p t) :
    ∃ e, q.compile d = .error e := by
  cases hs : q.compile d with
  | error e => exact ⟨e, rfl⟩
  | ok s =>
    obtain ⟨p, t, hwritten⟩ := written_of_compile hs
    exact absurd hwritten (h s p t)

/-- **Every database pages the same rows.**  Read back what a statement asks for, and drop the rows
that it leaves to the caller: of fewer rows than can be counted, what is left are those after the
offset, up to the number to fetch.  Only one dialect leaves rows to the caller, all those before the
offset.  Where a sum of rows is too large, or a row number where rows are numbered, there is no
statement. -/
theorem page_eq_cut (b : Database) (q : Query) :
    (∀ s, q.compile b.dialect = .ok s →
      ∃ t, sections b.dialect q = .ok t ∧ t.pieces = s.pieces
        ∧ (∀ (α : Type) (rows : List α), rows.length < UInt64.size - 1 →
            (t.page? s.quote (decide (b.dialect.Numbers q)) rows).map (List.drop s.skipRows.toNat)
              = some (q.cut.apply rows))
        ∧ (s.skipRows ≠ 0 → b = .access ∧ q.offset = some s.skipRows))
      ∧ (∀ fetch, b = .access → q.fetch = some fetch →
          UInt64.size ≤ fetch.toNat + (q.offset.getD 0).toNat → ∃ e, q.compile b.dialect = .error e)
      ∧ (b = .sqlserver → q.offset.isSome = true →
          (Int64.maxValue.toInt < (q.offset.getD 0).toNat
            ∨ ∃ fetch, q.fetch = some fetch
              ∧ Int64.maxValue.toInt < (q.offset.getD 0).toNat + fetch.toNat) →
          ∃ e, q.compile b.dialect = .error e) := by
  refine ⟨fun s hs => ?_, fun fetch hb hfetch hsum => ?_, fun hb hoffset hlarge => ?_⟩
  · obtain ⟨p, t, h⟩ := written_of_compile hs
    exact ⟨t, h.sections, h.pieces, fun α rows hrows => h.page rows hrows, h.skipRows_eq⟩
  · subst hb
    refine exists_error_of_not_written fun s p t h => ?_
    cases h.eq fun hq => nomatch hq.1
    have hlt := (Script.output_modifiers_top rfl hfetch h.of.modifiers).1
    exact absurd hlt (Nat.not_lt.mpr hsum)
  · subst hb
    refine exists_error_of_not_written fun s p t h => ?_
    have hp := h.standIn
    rw [standIn, if_pos ⟨rfl, hoffset⟩] at hp
    obtain ⟨-, -, -, hskip, hkeep⟩ := RowNumbering.filters_numberRows hp
    have hmax : Int64.maxValue.toInt = RowNumbering.maxRow := rfl
    have hcut : q.cut.skip = (q.offset.getD 0).toNat := rfl
    rw [hcut] at hskip hkeep
    rcases hlarge with hlarge | ⟨fetch, hfetch, hlarge⟩
    · omega
    · have hlast := hkeep fetch.toNat (by rw [Clauses.cut, hfetch]; rfl)
      omega

/-- The rows from the sixth to the fifteenth, on a dialect that leaves the first ones to the caller
and on one that numbers its rows; and two pages that neither can count. -/
theorem page_eq_cut_twenty :
    let x : Symbol := ⟨0, 0⟩
    let q (fetch offset : UInt64) : Query := {
      generators := [⟨x, .table "users"⟩]
      projection := some (.column x "id")
      fetch := some fetch
      offset := some offset }
    (∃ s t, (q 10 5).compile .access = .ok s ∧ sections .access (q 10 5) = .ok t
      ∧ s.skipRows = 5 ∧ (q 10 5).offset = some s.skipRows
      ∧ (t.page? s.quote false (List.range 20)).map (List.drop 5) = some (List.range' 5 10))
    ∧ (∃ s t, (q 10 5).compile .sqlserver = .ok s ∧ sections .sqlserver (q 10 5) = .ok t
      ∧ s.skipRows = 0 ∧ t.page? s.quote true (List.range 20) = some (List.range' 5 10))
    ∧ (∃ e, (q 18446744073709551615 1).compile .access = .error e)
    ∧ ∃ e, (q 1 9223372036854775807).compile .sqlserver = .error e := by
  intro x q
  have hrows : (List.range 20).length < UInt64.size - 1 := by decide
  have hcut : (q 10 5).cut.apply (List.range 20) = List.range' 5 10 := by decide
  refine ⟨?_, ?_, ?_, ?_⟩
  · have hok : ((q 10 5).compile Dialect.access).toOption.map Statement.skipRows = some 5 := by
      decide +kernel
    cases hs : (q 10 5).compile Dialect.access with
    | error e => rw [hs] at hok; cases hok
    | ok s =>
      rw [hs] at hok
      have hfive : s.skipRows = 5 := Option.some.inj hok
      obtain ⟨t, ht, -, hpage, hskip⟩ := (page_eq_cut .access (q 10 5)).1 s hs
      have hpage := hpage Nat (List.range 20) hrows
      rw [hfive, hcut] at hpage
      exact ⟨s, t, rfl, ht, hfive, (hskip (by rw [hfive]; decide)).2, hpage⟩
  · have hok : ((q 10 5).compile Dialect.sqlserver).toOption.map Statement.skipRows = some 0 := by
      decide +kernel
    cases hs : (q 10 5).compile Dialect.sqlserver with
    | error e => rw [hs] at hok; cases hok
    | ok s =>
      rw [hs] at hok
      have hzero : s.skipRows = 0 := Option.some.inj hok
      obtain ⟨t, ht, -, hpage, -⟩ := (page_eq_cut .sqlserver (q 10 5)).1 s hs
      have hpage := hpage Nat (List.range 20) hrows
      rw [hzero, hcut] at hpage
      refine ⟨s, t, rfl, ht, hzero, ?_⟩
      rw [← hpage]
      exact Option.map_id'.symm
  · exact (page_eq_cut .access (q 18446744073709551615 1)).2.1 _ rfl rfl (by decide)
  · exact (page_eq_cut .sqlserver (q 1 9223372036854775807)).2.2 rfl rfl
      (.inr ⟨1, rfl, by decide⟩)

/-- **The topmost rows are not numbered**: without an offset, more of them may be asked for than
there are row numbers. -/
theorem compile_top_beyond_row_numbers :
    let x : Symbol := ⟨0, 0⟩
    let q : Query := {
      generators := [⟨x, .table "users"⟩]
      projection := some (.column x "id")
      fetch := some 9223372036854775808 }
    (∃ fetch, q.fetch = some fetch
        ∧ Int64.maxValue.toInt < (q.offset.getD 0).toNat + fetch.toNat)
      ∧ (q.compile .sqlserver).toOption.map Statement.sql
        = some "select top 9223372036854775808 x1.[id] from [users] x1" := by
  intro x q
  exact ⟨⟨9223372036854775808, rfl, by decide⟩, by decide +kernel⟩

end Query
end SqlCompiler
