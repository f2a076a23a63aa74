import SqlCompiler.Proofs.Exposure

/-!
# Columns of a statement

A caller that reads rows by position relies on the number of columns that comes with a statement.
It is computed from the query; what counts is the list of columns in the text.  The items of that
list are separated by the commas outside quoted regions and parentheses, so it has to be shown that
nothing written for a single column has such a comma: whatever is written is balanced, and every
comma stands in parentheses or between two columns.

* `Text.itemCount` — the number of items of a list, by its text.
* `Script.Counts` — scripts with a known number of commas that separate items.
* `Script.counts_tree` — whatever is written for a tree has none.
* `Query.itemCount_select` — the columns of a statement are as many as it says.
-/

set_option autoImplicit false
namespace SqlCompiler

open Text

/-! ## Items of a list -/

/-- The number of items of a list: they are separated by the commas outside quoted regions and
parentheses, and an empty list has none. -/
def Text.itemCount (names : Quote) (text : String) : Nat :=
  if text.isEmpty then 0 else commas 0 (outside names text.toList) + 1

/-- Aliases that are numbers. -/
def Aliases.Numbered (aliases : Aliases) : Prop :=
  ∀ s q, aliases s = some q → ∃ n, q = .numbered n

theorem Aliases.Numbered.bind {symbols : List Symbol} :
    ∀ {aliases : Aliases} (_ : aliases.Numbered) (count : Nat),
      (aliases.bind count symbols).Numbered := by
  intro aliases h count s q hq
  by_cases hs : s ∈ symbols
  · obtain ⟨n, -, hn⟩ := Aliases.bind_of_mem hs aliases count
    cases hn.symm.trans hq
    exact ⟨n, rfl⟩
  · rw [Aliases.bind_of_not_mem hs] at hq
    exact h s q hq

theorem Aliases.Numbered.inert {names : Quote} (hn : names.Known) {aliases : Aliases}
    (h : aliases.Numbered) : aliases.Inert names := by
  intro s q hq
  obtain ⟨n, rfl⟩ := h s q hq
  exact inert_numbered hn n

namespace Script

/-- A script that writes `n` commas outside quoted regions and parentheses, and goes from the place
`a` to the place `b`. -/
def Counts (d : Dialect) (n : Nat) (a b : Place) (σ : Script) : Prop :=
  Shows d (fun cs => cs.count ',' = n) a b σ

variable {d : Dialect} {a b c : Place} {m n : Nat}

theorem Counts.append {σ τ : Script} (hσ : Counts d m a b σ) (hτ : Counts d n b c τ) :
    Counts d (m + n) a c (σ ++ τ) := by
  refine Shows.append (fun x y hx hy => ?_) hσ hτ
  rw [List.count_append, hx, hy]

theorem count_comma_of_isCalm (cs : List Char) (h : isCalm cs = true) : cs.count ',' = 0 :=
  List.count_eq_zero.mpr (comma_notMem_of_isCalm h)

theorem count_comma_append (x y : List Char) (hx : x.count ',' = 0) (hy : y.count ',' = 0) :
    (x ++ y).count ',' = 0 := by
  rw [List.count_append, hx, hy]

theorem count_comma_of_callable (name : String) (h : Callable d.quote name) :
    Callable d.quote name ∧ name.toList.count ',' = 0 :=
  ⟨h, List.count_eq_zero.mpr fun hc => (h _ hc).2.2.2 rfl⟩

/-- **Counting commas follows the writing.** -/
theorem discipline_counts (hd : d.quote.Known) :
    Discipline d id (Callable d.quote) fun a b σ _ => Counts d 0 a b σ :=
  discipline_shows count_comma_of_isCalm hd count_comma_append count_comma_of_callable

/-- **Whatever is written for a tree separates no items.** -/
theorem counts_tree (hd : d.Balanced) (n : Node) (h : ∀ name ∈ n.calls, Callable d.quote name)
    (k : Nat) : Counts d 0 ⟨true, k⟩ ⟨false, k⟩ (n.script d) :=
  (shows_tree hd count_comma_of_isCalm count_comma_append count_comma_of_callable).1 n h k

/-! ## Lists of columns -/

/-- A comma between two items. -/
theorem counts_comma (hd : d.quote.Known) : Counts d 1 ⟨false, 0⟩ ⟨true, 0⟩ (words ", ") :=
  shows_unquoted (by decide) (Neutral.unquoted hd (by decide)) rfl rfl

/-- The name of a column stands behind a word without a comma. -/
theorem counts_as (hd : d.quote.Known) : Counts d 0 ⟨false, 0⟩ ⟨true, 0⟩ (words " as ") :=
  shows_unquoted (by decide) (Neutral.unquoted hd (by decide)) rfl rfl

section
variable {ι : Type} {l : List ι} {σ : ι → Script}

theorem counts_eachAfter (hd : d.quote.Known)
    (hl : ∀ i ∈ l, Counts d 0 ⟨true, 0⟩ ⟨false, 0⟩ (σ i)) :
    Counts d l.length ⟨false, 0⟩ ⟨false, 0⟩ (eachAfter ", " (l.map σ)) := by
  induction l with
  | nil => exact (discipline_counts hd).done _
  | cons i l ih =>
    have hfirst := (counts_comma hd).append (hl i List.mem_cons_self)
    rw [List.length_cons, Nat.add_comm]
    exact hfirst.append (ih fun j hj => hl j (List.mem_cons_of_mem _ hj))

/-- Something is written if the script succeeds. -/
def Visible (d : Dialect) (σ : Script) : Prop :=
  ∀ ⦃aliases : Aliases⦄ ⦃nested : Bool⦄ ⦃count : Nat⦄ ⦃o : Output⦄,
    σ.output aliases nested count = .ok o → Piece.joined d.quote o.pieces ≠ ""

theorem Visible.followed {σ τ : Script} (h : Visible d σ) : Visible d (σ ++ τ) := by
  intro aliases nested count o ho
  obtain ⟨x, y, hx, -, rfl⟩ := output_append_eq_ok ho
  rw [Output.append, Piece.joined_append]
  exact fun hempty => h hx (String.append_eq_empty_iff.mp hempty).1

theorem Visible.preceded {σ τ : Script} (h : Visible d τ) : Visible d (σ ++ τ) := by
  intro aliases nested count o ho
  obtain ⟨x, y, -, hy, rfl⟩ := output_append_eq_ok ho
  rw [Output.append, Piece.joined_append]
  exact fun hempty => h hy (String.append_eq_empty_iff.mp hempty).2

theorem visible_piece {p : Piece} (h : p.text d.quote ≠ "") : Visible d (piece p) := by
  intro aliases nested count o ho
  cases ho
  rwa [Piece.joined_singleton]

theorem visible_words {text : String} (h : text ≠ "") : Visible d (words text) :=
  visible_piece h

theorem visible_fail (e : Error) : Visible d (fail e) := by
  intro aliases nested count o ho
  cases ho

/-- The text of a list by the commas that separate its items. -/
theorem itemCount_of_counts {σ : Script} (h : Counts d n ⟨true, 0⟩ ⟨false, 0⟩ σ) (hv : Visible d σ)
    {aliases : Aliases} {nested : Bool} {count : Nat} {o : Output} (ha : aliases.Inert d.quote)
    (ho : σ.output aliases nested count = .ok o) :
    itemCount d.quote (Piece.joined d.quote o.pieces) = n + 1 := by
  rw [itemCount, if_neg fun hempty => hv ho (String.isEmpty_iff.mp hempty), commas_eq_count,
    (h ha ho).shows]

theorem itemCount_separated (hd : d.quote.Known)
    (hl : ∀ i ∈ l, Counts d 0 ⟨true, 0⟩ ⟨false, 0⟩ (σ i)) (hv : ∀ i ∈ l, Visible d (σ i))
    {aliases : Aliases} {nested : Bool} {count : Nat} {o : Output} (ha : aliases.Inert d.quote)
    (ho : (separated ", " (l.map σ)).output aliases nested count = .ok o) :
    itemCount d.quote (Piece.joined d.quote o.pieces) = l.length := by
  cases l with
  | nil => cases ho; rfl
  | cons i l =>
    have hcounts := (hl i List.mem_cons_self).append
      (counts_eachAfter hd fun j hj => hl j (List.mem_cons_of_mem _ hj))
    rw [itemCount_of_counts hcounts (hv i List.mem_cons_self).followed ha ho, Nat.zero_add,
      List.length_cons]

end

end Script

/-! ## Columns are not empty -/

theorem Text.write_ne_empty (q : Quote) (s : String) : q.write s ≠ "" := by
  simp [Quote.write]

theorem Text.toString_ne_empty (n : Int) : toString n ≠ "" := by
  cases n with
  | ofNat n => exact Nat.repr_ne_empty
  | negSucc n => exact fun h => absurd (String.append_eq_empty_iff.mp h).1 (by decide)

theorem Number.Scientific.positional_ne_empty (x : Number.Scientific) : x.positional ≠ "" := by
  rw [positional]
  split
  · simp
  · dsimp only
    split <;> simp

theorem Number.Class.text_ne_empty (f : Number.Format) (x : Number.Class) : x.text f ≠ "" := by
  cases x with
  | nan => simp [text]
  | infinite negative => cases negative <;> simp [text]
  | finite negative significand exponent =>
    rw [text]
    split
    · simp
    · split
      · simp
      · exact Number.Scientific.positional_ne_empty _

theorem Number.Decimal.text_ne_empty (x : Number.Decimal) : x.text ≠ "" := by
  rw [text]
  split
  · simp
  · split <;> simp

theorem Value.inline_ne_empty {kind : Kind} {v : Value} {text : String}
    (h : v.inline kind = .ok text) : text ≠ "" := by
  have written : ∀ {s : String}, s ≠ "" → Except.ok s = v.inline kind → text ≠ "" := by
    intro s hs hv
    cases hv.trans h
    exact hs
  have escaped : ∀ {keyword content : String},
      Except.ok (escapeClause keyword content) = v.inline kind → text ≠ "" :=
    written (by simp [escapeClause])
  cases v with
  | null => exact written (by decide) rfl
  | bool b => cases b <;> exact written (by decide) rfl
  | short n | int n | long n => exact written (toString_ne_empty _) rfl
  | float x | double x => exact written (Number.Class.text_ne_empty _ _) rfl
  | decimal d => exact written d.text_ne_empty rfl
  | string s => exact written (write_ne_empty _ s) rfl
  | uuid u => exact written (write_ne_empty _ u.text) rfl
  | date d | time t | timestamp ts => exact escaped rfl
  | bytes bs =>
    rw [inline] at h
    split at h
    · cases h
    · cases h
      simp

theorem ColumnType.inline_ne_empty {c : ColumnType} {v : Value} {text : String}
    (h : c.inline v = .ok text) : text ≠ "" := by
  have written : ∀ {s : String}, s ≠ "" → (pure s : Except Error String) = .ok text →
      text ≠ "" := by
    intro s hs hv
    cases hv
    exact hs
  cases c with
  | standard kind code name | textUuid =>
    obtain ⟨w, -, h⟩ := bind_eq_ok_iff.mp h
    exact Value.inline_ne_empty h
  | numericBoolean code name =>
    obtain ⟨w, -, h⟩ := bind_eq_ok_iff.mp h
    split at h
    · exact written (toString_ne_empty _) h
    · exact written (by decide) h
  | bytea | varbinary kind =>
    obtain ⟨w, -, h⟩ := bind_eq_ok_iff.mp h
    split at h
    · exact written (by simp) h
    · exact Value.inline_ne_empty h
  | datetime kind =>
    obtain ⟨w, -, h⟩ := bind_eq_ok_iff.mp h
    split at h
    · exact written (by simp [hashed]) h
    · exact written (by simp [hashed]) h
    · exact written (by simp [hashed]) h
    · exact written (by decide) h

namespace Script

variable {d : Dialect}

theorem visible_literal (d : Dialect) (c : Literal) : Visible d (literal d c) := by
  rw [literal]
  split
  · cases (d.types.column c.kind).toCell c.value with
    | error e => exact visible_fail e
    | ok cell => exact visible_piece (by simp [Piece.text])
  · split
    · exact visible_fail _
    · cases htext : (d.types.column c.kind).inline c.value with
      | error e => exact visible_fail e
      | ok text => exact visible_piece (ColumnType.inline_ne_empty htext)

theorem visible_word {text : String} (h : IsWord text) : Visible d (words text) :=
  visible_words fun hempty => h.1 (String.toList_eq_nil_iff.mpr hempty)

/-- Every function is written with some words before its arguments. -/
theorem visible_apply (hd : d.Legible) (f : Function) (arguments : List Rendering) :
    Visible d (apply d f arguments) := by
  refine Visible.preceded (Visible.followed (Visible.followed ?_))
  by_cases hf : ∃ name, f = .named name
  · obtain ⟨name, rfl⟩ := hf
    rw [hd.named]
    exact visible_words (by simp [Spelling.call])
  · exact visible_word (hd.spelling f fun name hname => hf ⟨name, hname⟩).opening

theorem visible_sequenceCall {opening : String} (h : IsWord opening) (sequence : String) :
    Visible d (sequenceCall d opening sequence) :=
  (visible_word h).followed.followed

/-- **Something is written for every node.** -/
theorem visible_script (hd : d.Legible) (n : Node) : Visible d (n.script d) := by
  obtain ⟨s⟩ := n
  cases s with
  | query q =>
    rw [show Node.mk (.query q) = Node.query q from rfl, Node.script_query]
    exact (visible_words (by decide)).followed.followed
  | table _ | row _ | product _ | record _ =>
    rw [Node.script_refused d (by simp)]
    exact visible_fail _
  | column source name =>
    rw [Node.script_column]
    exact (visible_words (by decide)).preceded.followed
  | literal c => exact visible_literal d c
  | parameter index kind => exact visible_piece (by simp [Piece.text])
  | apply f arguments =>
    rw [Node.script_apply]
    exact visible_apply hd f _
  | cases branches otherwise =>
    rw [Node.script_cases, conditional.eq_def]
    split
    · exact visible_fail _
    · exact (visible_word hd.conditional.opening).followed.followed.followed.followed
  | rowNumber keys =>
    rw [Node.script_rowNumber, rowNumber]
    split
    · exact (visible_words (by decide)).followed.followed
    · exact visible_fail _
  | nextValue sequence =>
    rw [Node.script_nextValue]
    exact (visible_sequenceCall hd.next sequence).preceded
  | currentValue sequence =>
    rw [Node.script_currentValue]
    exact (visible_sequenceCall hd.current sequence).preceded

theorem visible_item (hd : d.Legible) (n : Node) : Visible d (n.item d) := by
  rcases n.item_cases d with ⟨s, -, hitem⟩ | hitem
  · rw [hitem]
    exact (visible_words (by decide)).preceded
  · rw [hitem]
    exact visible_script hd n

end Script

/-- The columns of the outer query are as many as those of the one it stands for, and there are
whole rows among neither. -/
theorem RowNumbering.Listed.columns {outer : Symbol} {p listed : Node} {fields : List (Field Node)}
    (h : Listed outer p fields listed) :
    listed.columns.length = p.columns.length ∧ p.columns.any Node.isRow = false
      ∧ listed.columns.any Node.isRow = false := by
  cases h with
  | record fields hrow =>
    simp only [Node.columns, Layout.columnsOf, Node.shape, List.length_map, List.any_eq_false,
      List.mem_map, Bool.not_eq_true, true_and]
    refine ⟨?_, ?_⟩
    · rintro _ ⟨c, hc, rfl⟩
      exact hrow c hc
    · rintro _ ⟨_, ⟨c, -, rfl⟩, rfl⟩
      rfl
  | product items hrow =>
    simp only [Node.columns, Layout.columnsOf, Node.shape, List.length_mapIdx, List.any_eq_false,
      List.mem_mapIdx, Bool.not_eq_true, true_and]
    refine ⟨hrow, ?_⟩
    rintro _ ⟨i, _, rfl⟩
    rfl
  | single p hrow hrecord hproduct =>
    obtain ⟨s⟩ := p
    cases s with
    | record fields => exact absurd rfl (hrecord fields)
    | product items => exact absurd rfl (hproduct items)
    | row source => cases hrow
    | _ => exact ⟨rfl, rfl, rfl⟩

namespace Query

variable {d : Dialect} {q p : Query}

/-- The query in the place of one that numbers its rows has as many columns. -/
theorem columnCount_numberRows {dialect : String} (h : numberRows dialect q = .ok p) :
    columnCount p = columnCount q := by
  obtain ⟨projection, fields, listed, after, until_, hprojection, hlisted, -, rfl⟩ :=
    numberRows_eq_ok h
  obtain ⟨hlength, hrow, hrow'⟩ := hlisted.columns
  have houter : columnCount (RowNumbering.assembled .plain (freshSymbol q) q fields listed
      (RowNumbering.rowConstant after) (until_.map RowNumbering.rowConstant))
        = some listed.columns.length :=
    if_neg fun hany => Bool.false_ne_true (hrow'.symm.trans hany)
  have hinner : columnCount q = some projection.columns.length := by
    rw [columnCount, hprojection]
    exact if_neg fun hany => Bool.false_ne_true (hrow.symm.trans hany)
  rw [houter, hinner, hlength]

/-- The query that stands in for another one has as many columns. -/
theorem columnCount_standIn (h : standIn d q = .ok p) : columnCount p = columnCount q := by
  rw [standIn] at h
  split at h
  · exact columnCount_numberRows h
  · cases h
    rfl

/-- The list of columns of a query has as many items as the query has columns. -/
theorem itemCount_of_columnCount (hd : d.Balanced)
    (hcalls : ∀ name ∈ calls p, Callable d.quote name) {n : Nat} (hn : columnCount p = some n)
    {aliases : Aliases} {nested : Bool} {count : Nat} {o : Output} (ha : aliases.Numbered)
    (ho : (Script.select (rendering d p)).output aliases nested count = .ok o) :
    itemCount d.quote (Piece.joined d.quote o.pieces) = n := by
  have hquote := hd.legible.quote
  have discipline := Script.discipline_counts hquote
  have ha := ha.inert hquote
  rw [columnCount] at hn
  rw [Script.select, show (rendering d p).projection = p.projection.map (Node.rendering d) from rfl]
    at ho
  cases hp : p.projection with
  | none => rw [hp] at hn; cases hn
  | some m =>
    rw [hp] at hn ho
    dsimp only [Option.map_some] at hn ho
    split at hn
    · cases hn
    next hrows =>
    cases hn
    have hmcalls : ∀ name ∈ m.calls, Callable d.quote name := fun name hname =>
      hcalls name (List.mem_flatMap.mpr ⟨m, Clauses.projection_mem_children hp, hname⟩)
    have hcolumn : ∀ c ∈ m.columns,
        Discipline.Holds d id (fun a b σ _ => Script.Counts d 0 a b σ) c := by
      intro c hc
      refine Script.counts_tree hd c fun name hname => hmcalls name ?_
      rcases Node.mem_columns hc with rfl | hc
      · exact hname
      · exact Node.gathers_calls.subset hc hname
    have hvisible := Script.visible_item hd.legible
    obtain ⟨s⟩ := m
    rw [Node.shape_rendering] at ho
    cases s with
    | record fields =>
      dsimp only [Node.shape, Shape.map] at ho
      rw [List.map_map] at ho
      rw [show Layout.columnsOf (.mk (.record fields)) = fields.map Field.value from rfl,
        List.length_map]
      exact Script.itemCount_separated hquote
        (fun c hc => discipline.field .refl (hcolumn c.value (List.mem_map_of_mem hc))
          (Script.counts_as hquote))
        (fun c _ => (hvisible c.value).followed) ha ho
    | product items =>
      dsimp only [Node.shape, Shape.map] at ho
      rw [List.map_map] at ho
      exact Script.itemCount_separated hquote (fun c hc => discipline.item .refl (hcolumn c hc) 0)
        (fun c _ => hvisible c) ha ho
    | _ =>
      have hcounts := discipline.item .refl (hcolumn _ List.mem_cons_self) 0
      exact Script.itemCount_of_counts hcounts (hvisible _) ha ho

/-- **The columns of a statement are as many as it says.**  If the user's functions have names
without quotation marks, parentheses and commas, the list of columns in the text of a statement has
as many items as the statement has columns, wherever their number is known. -/
theorem itemCount_select (b : Database) (q : Query)
    (hcalls : ∀ name ∈ calls q, Callable b.dialect.quote name) (s : Statement)
    (hs : q.compile b.dialect = .ok s) (n : Nat) (hn : s.columnCount = some n) :
    ∃ t, sections b.dialect q = .ok t ∧ t.pieces = s.pieces
      ∧ itemCount s.quote (Piece.joined s.quote t.select.pieces) = n := by
  obtain ⟨p, t, hwritten⟩ := written_of_compile hs
  have hp := hwritten.standIn
  refine ⟨t, hwritten.sections, hwritten.pieces, ?_⟩
  have hpcalls : ∀ name ∈ calls p, Callable b.dialect.quote name := by
    intro name hname
    rw [standIn] at hp
    split at hp
    · exact hcalls name ((mem_calls_numberRows hp).mp hname)
    · cases hp
      exact hcalls name hname
  have houtermost : p.outermost.Numbered := by
    refine Aliases.Numbered.bind ?_ 0
    intro x a ha
    cases ha
  rw [hwritten.quote]
  exact itemCount_of_columnCount b.balanced hpcalls
    ((columnCount_standIn hp).trans (hwritten.columnCount.symm.trans hn)) houtermost
    hwritten.of.select

/-- A page of rows on a dialect that numbers them, with commas and parentheses in names, in a text
and between the arguments of a function. -/
theorem itemCount_select_sqlserver :
    let x : Symbol := ⟨0, 0⟩
    let q : Query := {
      generators := [⟨x, .table "users"⟩]
      projection := some (.mk (.record [⟨"a, (b", .column x "id"⟩,
        ⟨"c", .apply (.named "iif") [.column x "ok", .literal ⟨.string, .string "d', e", false⟩]⟩]))
      fetch := some 10
      offset := some 5 }
    ∃ s t, q.compile .sqlserver = .ok s ∧ s.columnCount = some 2
      ∧ sections .sqlserver q = .ok t ∧ t.pieces = s.pieces
      ∧ itemCount s.quote (Piece.joined s.quote t.select.pieces) = 2 := by
  intro x q
  have hcalls : ∀ name ∈ calls q, Callable Dialect.sqlserver.quote name := by
    intro name hname
    rw [List.mem_singleton.mp (show name ∈ ["iif"] from hname)]
    decide
  have hok : (q.compile Dialect.sqlserver).isOk = true := by decide +kernel
  cases hs : q.compile Dialect.sqlserver with
  | error e => rw [hs] at hok; cases hok
  | ok s =>
    have hcount : s.columnCount = some 2 := by
      obtain ⟨_, _, hwritten⟩ := written_of_compile hs
      exact hwritten.columnCount
    obtain ⟨t, ht, hpieces, hitems⟩ := itemCount_select .sqlserver q hcalls s hs 2 hcount
    exact ⟨s, t, rfl, hcount, ht, hpieces, hitems⟩

end Query
end SqlCompiler
