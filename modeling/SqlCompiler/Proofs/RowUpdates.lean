import SqlCompiler.Proofs.Strides

/-!
# Updates write what bindings bind

A value goes into a row by one recursion over its layout and to the parameters of a statement by
another.  Both have to encode it in the same way, or a row would hold something else after an update
than after an insertion.

The proof runs them side by side.  At any time the row is the old one with the parameters bound so
far written over its first cells, and both have got equally far; so they go on alike, and where one
of them fails the other does too, with the same error and at the same position.  This also tells
what a failed update leaves behind: the cells are written one after the other, and those that come
before the failure have their new values already.

* `carry` and `Mirrors` — a run that does to the view of a state what another does to the state.
* `Parameters.written` — the row with the parameters bound so far over its first cells.
* `Layout.mirrors_update` — under this view, updates mirror bindings.
* `Layout.updateRow_encodes_parameters` — a row is updated to the parameters of the value, and fails
  to be for the same reason as these.
* `Layout.updateRow_stops` — what a failed update leaves, with
  `Layout.updateRow_null_after_id`, where this is not the old row.
-/

set_option autoImplicit false
namespace SqlCompiler

/-! ## Runs side by side -/

section
variable {σ τ α β : Type}

/-- The same result, with a view of the state that is left. -/
def carry (f : σ → τ) : EStateM.Result Error σ α → EStateM.Result Error τ α
  | .ok a s => .ok a (f s)
  | .error e s => .error e (f s)

/-- From a state on, the second step does to the view of the state what the first does to the
state. -/
def Mirrors (f : σ → τ) (x : EStateM Error σ α) (y : EStateM Error τ α) (s : σ) : Prop :=
  y.run (f s) = carry f (x.run s)

variable {f : σ → τ}

theorem Mirrors.bind {x : EStateM Error σ α} {y : EStateM Error τ α} {g : α → EStateM Error σ β}
    {k : α → EStateM Error τ β} {s : σ} (h : Mirrors f x y s)
    (hrest : ∀ a t, x.run s = .ok a t → Mirrors f (g a) (k a) t) :
    Mirrors f (x >>= g) (y >>= k) s := by
  change EStateM.bind y k (f s) = carry f (EStateM.bind x g s)
  have hy : y (f s) = carry f (x s) := h
  rw [EStateM.bind, EStateM.bind, hy]
  cases hx : x s with
  | ok a t => exact hrest a t hx
  | error e t => rfl

theorem mirrors_ofExcept (c : Except Error α) (s : σ) :
    Mirrors f (MonadExcept.ofExcept c) (MonadExcept.ofExcept c) s := by
  cases c <;> rfl

end

namespace Parameters

/-- The row of the given cells, with the parameters bound so far over the first of them. -/
def written (cells : List Value) (ps : Parameters) : Row :=
  ⟨ps.map Parameter.toValue ++ cells.drop ps.length, ps.length⟩

theorem width_written {cells : List Value} {ps : Parameters} (h : ps.length ≤ cells.length) :
    (written cells ps).width = cells.length := by
  rw [written, Row.width, List.length_append, List.length_map, List.length_drop]
  omega

/-- To write over the next cell is to bind one more parameter. -/
theorem run_update_written {cells : List Value} {ps : Parameters} (h : ps.length < cells.length)
    (p : Parameter) :
    (Row.update p.toValue).run (written cells ps) = .ok () (written cells (ps ++ [p])) := by
  have hroom : (written cells ps).position < (written cells ps).width := by
    rw [width_written (Nat.le_of_lt h)]
    exact h
  have hcells : (ps.map Parameter.toValue ++ cells.drop ps.length).set ps.length p.toValue
      = (ps ++ [p]).map Parameter.toValue ++ cells.drop (ps ++ [p]).length := by
    rw [List.set_append_right _ _ (by simp), List.drop_eq_getElem_cons h]
    simp only [List.length_map, Nat.sub_self, List.set_cons_zero, List.map_append, List.map_cons,
      List.map_nil, List.append_assoc, List.singleton_append, List.length_append,
      List.length_singleton]
  rw [Row.run_update, if_pos hroom]
  simp only [written, hcells, List.length_append, List.length_singleton]

end Parameters

namespace Layout

variable {d : Dialect}

/-! ## Updates and bindings -/

theorem mirrors_column (node : Node) (kind : Kind) (nullable : Bool) (v : Datum)
    {cells : List Value} {ps : Parameters} (h : ps.length < cells.length) :
    Mirrors (Parameters.written cells) ((column node kind nullable).bind d (some v))
      ((column node kind nullable).update d v) ps := by
  have hposition : (Parameters.written cells ps).position = ps.length := rfl
  rw [Mirrors, run_update_column, run_bind_column, hposition]
  cases parameterOf d kind nullable ps.length v with
  | ok p => exact Parameters.run_update_written h p
  | error e => rfl

/-- Fields one after the other: what the first binds moves the row of the next along. -/
theorem mirrors_fields {cells : List Value} {pairs : List (Layout × Datum)}
    (h : ∀ p ∈ pairs, ∀ ps : Parameters, ps.length + p.1.width ≤ cells.length →
      Mirrors (Parameters.written cells) (p.1.bind d (some p.2)) (p.1.update d p.2) ps)
    {ps : Parameters} (hroom : ps.length + (pairs.map fun p => p.1.width).sum ≤ cells.length) :
    Mirrors (Parameters.written cells) (pairs.forM fun p => p.1.bind d (some p.2))
      (pairs.forM fun p => p.1.update d p.2) ps := by
  induction pairs generalizing ps with
  | nil => rfl
  | cons p pairs ih =>
    rw [List.map_cons, List.sum_cons] at hroom
    refine (h p List.mem_cons_self ps (by omega)).bind fun _ qs hrun => ?_
    -- The first field has bound as many parameters as it is wide, so the others still have room.
    obtain ⟨new, hnew, rfl⟩ := (takes_bind d p.1 p.2).ok hrun
    refine ih (fun q hq => h q (List.mem_cons_of_mem _ hq)) ?_
    rw [List.length_append, hnew]
    omega

/-- Where a row has room for it, a value is written just as it is bound. -/
theorem mirrors_update (l : Layout) (v : Datum) {cells : List Value} {ps : Parameters}
    (h : ps.length + l.width ≤ cells.length) :
    Mirrors (Parameters.written cells) (l.bind d (some v)) (l.update d v) ps := by
  induction l using induct generalizing v ps with
  | column node kind nullable => exact mirrors_column node kind nullable v h
  | record fields ih =>
    rw [bind_record, update_record]
    refine (mirrors_ofExcept _ ps).bind fun items _ hrun => ?_
    obtain ⟨hitems, rfl⟩ := run_ofExcept_eq_ok.mp hrun
    rw [width_record_zip (itemsOf_eq_ok hitems).2] at h
    exact mirrors_fields (fun p hp _ => ih p.1 (List.of_mem_zip hp).1 p.2) h

/-! ## Whole rows -/

/-- A row is refused as it stands if rows cannot be written or this one is not as wide as the
layout. -/
theorem run_updateRow_of_refused {l : Layout} {r : Row} (v : Datum)
    (h : d.supports .mutableCursor = false ∨ r.width ≠ l.width) :
    ∃ e, (l.updateRow d v).run r = .error e r := by
  cases hd : d.supports .mutableCursor with
  | false =>
    have hrequire : d.require .mutableCursor = .error (.lacking .mutableCursor d.name) := by
      rw [Dialect.require, hd]
      rfl
    exact ⟨_, run_bind_eq_error.mpr (.inl (run_ofExcept_eq_error.mpr ⟨hrequire, rfl⟩))⟩
  | true =>
    have hrequire : d.require .mutableCursor = .ok () := if_pos hd
    have hwidth : l.width ≠ r.width := fun hw => h.elim (by simp [hd]) (· hw.symm)
    have hcheck : l.checkWidth r.width = .error (.columnCount l.width r.width) := if_neg hwidth
    exact ⟨_, run_bind_eq_error.mpr (.inr ⟨(), r, run_ofExcept_eq_ok.mpr ⟨hrequire, rfl⟩,
      run_bind_eq_error.mpr (.inr ⟨r, r, rfl,
        run_bind_eq_error.mpr (.inl (run_ofExcept_eq_error.mpr ⟨hcheck, rfl⟩))⟩)⟩)⟩

/-- Any other row is written from its first cell on. -/
theorem run_updateRow_of_accepted {l : Layout} {r : Row} (v : Datum)
    (hd : d.supports .mutableCursor = true) (hr : r.width = l.width) :
    (l.updateRow d v).run r = (l.update d v).run r.rewind := by
  have hrequire : d.require .mutableCursor = .ok () := if_pos hd
  have hcheck : l.checkWidth r.width = .ok () := if_pos hr.symm
  change ((MonadExcept.ofExcept (d.require .mutableCursor) : RowStep Unit) >>= fun _ =>
    get >>= fun r => MonadExcept.ofExcept (l.checkWidth r.width) >>= fun _ => _).run r = _
  rw [hrequire]
  change ((MonadExcept.ofExcept (l.checkWidth r.width) : RowStep Unit) >>= fun _ => _).run r = _
  rw [hcheck]
  rfl

/-- It then holds whatever had been bound at the end, in place of its first cells. -/
theorem run_updateRow {l : Layout} {r : Row} (v : Datum) (hd : d.supports .mutableCursor = true)
    (hr : r.width = l.width) : (l.updateRow d v).run r
      = carry (Parameters.written r.cells) ((l.bind d (some v)).run []) := by
  have hroom : ([] : Parameters).length + l.width ≤ r.cells.length := by
    rw [List.length_nil, Nat.zero_add]
    exact Nat.le_of_eq hr.symm
  rw [run_updateRow_of_accepted v hd hr]
  exact l.mirrors_update v hroom

/-- **A row is updated to just what its value is bound to.**  Wherever the row had got to, its
update fails exactly if the value cannot be bound, with the same error; and otherwise it holds the
bound values. -/
theorem updateRow_encodes_parameters (d : Dialect) (l : Layout) (r : Row) (v : Datum)
    (hd : d.supports .mutableCursor = true) (hr : r.width = l.width) :
    outcome ((l.updateRow d v).run r) = (l.parameters d (some v)).map (fun _ => ())
      ∧ ∀ ps, l.parameters d (some v) = .ok ps →
          after ((l.updateRow d v).run r) = { ps.toRow with position := l.width } := by
  rw [run_updateRow v hd hr]
  refine ⟨?_, fun ps hps => ?_⟩
  · rw [parameters]
    cases (l.bind d (some v)).run [] <;> rfl
  · have hlength := length_parameters hps
    rw [run_bind_of_parameters hps]
    change Parameters.written r.cells ps = _
    rw [Parameters.written, hlength, ← hr, Row.width, List.drop_length, List.append_nil]
    rfl

/-- A row that had been read to its middle, in a dialect that keeps booleans as integers: updated
to one value, and to another that has a null where there must be none. -/
theorem updateRow_encodes_parameters_derby :
    let x : Symbol := ⟨0, 0⟩
    let l : Layout := .record [.column (.column x "id") .long false,
      .record [.column (.column x "active") .boolean true,
        .column (.column x "note") .string false]]
    let v (note : Value) : Datum :=
      .record [.scalar (.int 7), .record [.scalar (.bool true), .scalar note]]
    let r : Row := ⟨[.long 1, .int 0, .string "a"], 2⟩
    Dialect.derby.supports .mutableCursor = true ∧ r.width = l.width
      ∧ outcome ((l.updateRow .derby (v (.string "b"))).run r) = .ok ()
      ∧ after ((l.updateRow .derby (v (.string "b"))).run r)
          = ⟨[.long 7, .int 1, .string "b"], 3⟩
      ∧ outcome ((l.updateRow .derby (v .null)).run r) = .error (.unexpectedNull 2) := by
  intro x l v r
  have hd : Dialect.derby.supports .mutableCursor = true := rfl
  have hr : r.width = l.width := rfl
  have hps : l.parameters .derby (some (v (.string "b")))
      = .ok [.value (.long 7), .value (.int 1), .value (.string "b")] := rfl
  have hnull : l.parameters .derby (some (v .null)) = .error (.unexpectedNull 2) := rfl
  obtain ⟨hok, hafter⟩ := updateRow_encodes_parameters .derby l r (v (.string "b")) hd hr
  obtain ⟨herror, -⟩ := updateRow_encodes_parameters .derby l r (v .null) hd hr
  rw [hps] at hok
  rw [hnull] at herror
  exact ⟨hd, hr, hok, hafter _ hps, herror⟩

/-! ## Failed updates -/

/-- On the outside, a value has the form of a layout: a scalar for a column, and for a record one
with as many items as there are fields. -/
def hasShape : Layout → Datum → Bool
  | column _ _ _, .scalar _ => true
  | record fields, .record items => items.length == fields.length
  | _, _ => false

/-- A value of another form is refused before anything is written. -/
theorem run_update_of_not_hasShape {l : Layout} {v : Datum} (h : l.hasShape v = false) (r : Row) :
    ∃ e, (l.update d v).run r = .error e r := by
  cases l with
  | column node kind nullable =>
    cases v with
    | scalar x => cases h
    | record _ | collection _ => exact ⟨_, rfl⟩
  | record fields =>
    have hitems : ∃ e, itemsOf fields.length v = .error e := by
      cases v with
      | record items =>
        have hlength : items.length ≠ fields.length := by simpa [hasShape] using h
        exact ⟨_, if_neg hlength⟩
      | scalar _ | collection _ => exact ⟨_, rfl⟩
    obtain ⟨e, he⟩ := hitems
    rw [update_record]
    exact ⟨e, run_bind_eq_error.mpr (.inl (run_ofExcept_eq_error.mpr ⟨he, rfl⟩))⟩

/-- **A failed update keeps every cell from where it stopped.**  Nothing is written at all to a row
that cannot be written or is not as wide as the layout, nor for a value of another form.  Otherwise
the binding of the value fails with the same error after as many parameters, and the cells up to
there hold these. -/
theorem updateRow_stops (d : Dialect) (l : Layout) (r r' : Row) (v : Datum) (e : Error)
    (h : (l.updateRow d v).run r = .error e r') :
    r'.width = r.width
      ∧ (∀ i, r'.position ≤ i → r'.cells[i]? = r.cells[i]?)
      ∧ (d.supports .mutableCursor = false ∨ r.width ≠ l.width → r' = r)
      ∧ (l.hasShape v = false → r'.cells = r.cells)
      ∧ (d.supports .mutableCursor = true → r.width = l.width →
          ∃ ps, (l.bind d (some v)).run [] = .error e ps ∧ r'.position = ps.length
            ∧ r'.cells.take r'.position = ps.toRow.cells) := by
  by_cases hrefused : d.supports .mutableCursor = false ∨ r.width ≠ l.width
  · obtain ⟨e', hrun⟩ := run_updateRow_of_refused v hrefused
    cases hrun.symm.trans h
    refine ⟨rfl, fun _ _ => rfl, fun _ => rfl, fun _ => rfl, fun hd hr => ?_⟩
    rcases hrefused with hd' | hr'
    · cases hd.symm.trans hd'
    · exact absurd hr hr'
  · obtain ⟨hd, hr⟩ : d.supports .mutableCursor = true ∧ r.width = l.width := by
      simpa using hrefused
    have hupdate : (l.update d v).run r.rewind = .error e r' := by
      rw [← run_updateRow_of_accepted v hd hr]
      exact h
    obtain ⟨_, -, -, hwidth, hcells⟩ := (takes_update d l v).error hupdate
    refine ⟨hwidth, fun i hi => hcells i (.inr hi), fun hr => absurd hr hrefused, ?_, ?_⟩
    · intro hshape
      obtain ⟨e', hrun⟩ := run_update_of_not_hasShape hshape r.rewind
      cases hrun.symm.trans hupdate
      rfl
    · intro _ _
      rw [run_updateRow v hd hr] at h
      cases hbind : (l.bind d (some v)).run [] with
      | ok a ps =>
        rw [hbind] at h
        cases h
      | error e' ps =>
        rw [hbind] at h
        cases h
        refine ⟨ps, rfl, rfl, ?_⟩
        change (ps.map Parameter.toValue ++ r.cells.drop ps.length).take ps.length = _
        rw [List.take_left' (List.length_map _)]
        rfl

/-- The second of three columns must not be null: the first has its new value already, and the
others keep theirs. -/
theorem updateRow_stops_at_null :
    let x : Symbol := ⟨0, 0⟩
    let l : Layout := .record [.column (.column x "id") .long false,
      .record [.column (.column x "name") .string false, .column (.column x "age") .int true]]
    let v : Datum := .record [.scalar (.long 2), .record [.scalar .null, .scalar (.int 9)]]
    let r : Row := ⟨[.long 1, .string "ada", .int 36], 3⟩
    let r' : Row := ⟨[.long 2, .string "ada", .int 36], 1⟩
    (l.updateRow .postgres v).run r = .error (.unexpectedNull 1) r'
      ∧ r'.cells[1]? = r.cells[1]? ∧ r'.cells[2]? = r.cells[2]?
      ∧ ∃ ps, (l.bind .postgres (some v)).run [] = .error (.unexpectedNull 1) ps
          ∧ ps.length = 1 ∧ r'.cells.take 1 = ps.toRow.cells := by
  intro x l v r r'
  have hrun : (l.updateRow .postgres v).run r = .error (.unexpectedNull 1) r' := rfl
  obtain ⟨-, hkept, -, -, hbound⟩ := updateRow_stops .postgres l r r' v _ hrun
  obtain ⟨ps, hps, hlength, hcells⟩ := hbound rfl rfl
  exact ⟨hrun, hkept 1 (by decide), hkept 2 (by decide), ps, hps, hlength.symm, hcells⟩

/-- A failed update can have changed the row: a null for the second column is found only when the
first one has been written. -/
theorem updateRow_null_after_id :
    let x : Symbol := ⟨0, 0⟩
    let l : Layout := .record [.column (.column x "id") .long false,
      .column (.column x "name") .string false]
    let v : Datum := .record [.scalar (.long 2), .scalar .null]
    let r : Row := ⟨[.long 1, .string "ada"], 0⟩
    ∃ e r', (l.updateRow .postgres v).run r = .error e r' ∧ r'.cells ≠ r.cells := by
  intro x l v r
  refine ⟨.unexpectedNull 1, ⟨[.long 2, .string "ada"], 1⟩, rfl, ?_⟩
  decide

end Layout
end SqlCompiler
