import SqlCompiler.Proofs.RoundTrip
import SqlCompiler.Statement.Insert

/-!
# As many columns as a layout is wide

Reading a value from a row, writing it back and binding it to parameters are three recursions over
the layout, and its width is a fourth.  One column too many or too few in any of them would shift
every later column of a row, so they have to agree: whatever the value, a success of any of the
three ends exactly so many columns further on as the layout is wide.

The three differ in what they do on the way.  A row that is read keeps its cells, a row that is
written keeps the cells outside, and parameters are added behind those bound before.  A `Stride` is
what they have in common, a distance between states that adds up; so the argument about records is
made once.

* `Layout.parameterOf` — what a column makes of a value.  `run_bind_column` and `run_update_column`
  say that a column binds it, or writes it into the row, and do nothing else.
* `Stride.Takes` — a step so long that every success leads so far and every failure stops on the
  way, with a rule for each way to combine steps.
* `Layout.takes_read`, `Layout.takes_update` and `Layout.takes_bind`.
* `Insert.BuiltFrom` — the statements that can be made from a layout.  Their parameters are those of
  the layout (`Insert.BuiltFrom.parameters_eq`): their number never needs to be refused.
* `Layout.moves_by_width` — all of this together.
* `Layout.parameters_none` — a missing value is a null of its own type in every column.
-/

set_option autoImplicit false
namespace SqlCompiler

/-! ## Failing steps -/

theorem run_bind_eq_error {σ α β : Type} {x : EStateM Error σ α} {f : α → EStateM Error σ β}
    {s t : σ} {e : Error} : (x >>= f).run s = .error e t ↔
      x.run s = .error e t ∨ ∃ a r, x.run s = .ok a r ∧ (f a).run r = .error e t := by
  change EStateM.bind x f s = .error e t ↔
    x s = .error e t ∨ ∃ a r, x s = .ok a r ∧ f a r = .error e t
  rw [EStateM.bind]
  cases x s with
  | error e' r => simp
  | ok a r =>
    refine ⟨fun h => .inr ⟨a, r, rfl, h⟩, ?_⟩
    rintro (h | ⟨_, _, h, hf⟩)
    · cases h
    · cases h
      exact hf

theorem run_ofExcept_eq_error {σ α : Type} {x : Except Error α} {s t : σ} {e : Error} :
    (MonadExcept.ofExcept x : EStateM Error σ α).run s = .error e t ↔ x = .error e ∧ s = t := by
  cases x with
  | ok a =>
    change EStateM.Result.ok a s = .error e t ↔ _
    simp
  | error e' =>
    change EStateM.Result.error e' s = .error e t ↔ _
    simp

/-- Where a list of steps fails, one of them does. -/
theorem exists_of_run_forM_eq_error {σ ι : Type} {f : ι → EStateM Error σ Unit} {l : List ι}
    {s t : σ} {e : Error} (h : (l.forM f).run s = .error e t) :
    ∃ i ∈ l, ∃ r, (f i).run r = .error e t := by
  induction l generalizing s with
  | nil => cases h
  | cons i l ih =>
    rcases run_bind_eq_error.mp h with h | ⟨_, r, _, h⟩
    · exact ⟨i, List.mem_cons_self, s, h⟩
    · obtain ⟨j, hj, hr⟩ := ih h
      exact ⟨j, List.mem_cons_of_mem _ hj, hr⟩

/-! ## One column -/

theorem Row.run_update (v : Value) (r : Row) :
    (Row.update v).run r =
      if r.position < r.width then .ok () ⟨r.cells.set r.position v, r.position + 1⟩
      else .error r.overrun r := by
  change (if r.position < r.width then _ else _ : RowStep Unit).run r = _
  split <;> rfl

theorem Value.isNull_iff {v : Value} : v.isNull = true ↔ v = .null := by
  cases v <;> simp [isNull]

namespace ColumnType

theorem run_set (c : ColumnType) {v : Value} (hv : v.isNull = false) (ps : Parameters) :
    (c.set v).run ps =
      match c.toCell v with
      | .ok cell => .ok () (ps ++ [.value cell])
      | .error e => .error e ps := by
  rw [set, hv]
  change (MonadExcept.ofExcept (c.toCell v) >>= _ : Bind Unit).run ps = _
  cases c.toCell v <;> rfl

theorem run_update (c : ColumnType) {v : Value} (hv : v.isNull = false) (r : Row) :
    (c.update v).run r =
      match c.toCell v with
      | .ok cell => (Row.update cell).run r
      | .error e => .error e r := by
  rw [update, hv]
  change (MonadExcept.ofExcept (c.toCell v) >>= _ : RowStep Unit).run r = _
  cases c.toCell v <;> rfl

/-- What a column type cannot keep is reported with the kind of the type. -/
theorem toCell_eq_error {c : ColumnType} {v : Value} {e : Error} (h : c.toCell v = .error e) :
    e = v.mismatch c.kind := by
  have hcoerce : ∀ {kind : Kind}, v.coerce kind = .error e → e = v.mismatch kind := by
    intro kind h
    rw [Value.coerce.eq_def] at h
    split at h
    · cases h
    · split at h
      · cases h
      · exact (Except.error.inj h).symm
  cases c with
  | standard _ _ _ | bytea | varbinary _ | datetime _ => exact hcoerce h
  | numericBoolean _ _ =>
    cases v with
    | null | bool _ => cases h
    | _ => exact (Except.error.inj h).symm
  | textUuid =>
    rcases bind_eq_error_iff.mp h with h | ⟨w, _, h⟩
    · exact hcoerce h
    · split at h <;> cases h

end ColumnType

namespace Layout

variable {d : Dialect}

/-- The parameter that a column makes of a value at a position: a null only where it may be null,
and otherwise the cell of its type. -/
def parameterOf (d : Dialect) (kind : Kind) (nullable : Bool) (position : Nat) (v : Datum) :
    Except Error Parameter := do
  let x ← scalarOf v
  if x.isNull then
    if nullable then .ok (.null (d.types.column kind).code)
    else .error (.unexpectedNull position)
  else ((d.types.column kind).toCell x).map .value

theorem parameterOf_of_not_null {kind : Kind} {nullable : Bool} {position : Nat} {x : Value}
    (hx : x.isNull = false) : parameterOf d kind nullable position (.scalar x)
      = ((d.types.column kind).toCell x).map .value := by
  change (if x.isNull then _ else _) = _
  rw [hx]
  rfl

/-- A column binds the parameter that it makes of a value. -/
theorem run_bind_column (node : Node) (kind : Kind) (nullable : Bool) (v : Datum)
    (ps : Parameters) : ((column node kind nullable).bind d (some v)).run ps =
      match parameterOf d kind nullable ps.length v with
      | .ok p => .ok () (ps ++ [p])
      | .error e => .error e ps := by
  cases v with
  | record _ | collection _ => rfl
  | scalar x =>
    cases hx : x.isNull with
    | true =>
      obtain rfl := Value.isNull_iff.mp hx
      cases nullable <;> rfl
    | false =>
      have hset : ((column node kind nullable).bind d (some (.scalar x))).run ps
          = ((d.types.column kind).set x).run ps := by
        cases nullable with
        | false => rfl
        | true =>
          change ((d.types.column kind).setOption (some x)).run ps = _
          rw [ColumnType.setOption, hx]
          rfl
      rw [hset, ColumnType.run_set _ hx, parameterOf_of_not_null hx]
      cases (d.types.column kind).toCell x <;> rfl

/-- A column writes into the row the value of that same parameter. -/
theorem run_update_column (node : Node) (kind : Kind) (nullable : Bool) (v : Datum) (r : Row) :
    ((column node kind nullable).update d v).run r =
      match parameterOf d kind nullable r.position v with
      | .ok p => (Row.update p.toValue).run r
      | .error e => .error e r := by
  cases v with
  | record _ | collection _ => rfl
  | scalar x =>
    cases hx : x.isNull with
    | true =>
      obtain rfl := Value.isNull_iff.mp hx
      cases nullable <;> rfl
    | false =>
      have hupdate : ((column node kind nullable).update d (.scalar x)).run r
          = ((d.types.column kind).update x).run r := by
        cases nullable with
        | false => rfl
        | true =>
          change ((d.types.column kind).updateOption (some x)).run r = _
          rw [ColumnType.updateOption, hx]
          rfl
      rw [hupdate, ColumnType.run_update _ hx, parameterOf_of_not_null hx]
      cases (d.types.column kind).toCell x <;> rfl

/-- With one item for each field, no field is lost when they are paired. -/
theorem width_record_zip {fields : List Layout} {items : List Datum}
    (h : items.length = fields.length) :
    (record fields).width = ((fields.zip items).map fun p => p.1.width).sum :=
  calc (record fields).width
    _ = (((fields.zip items).map Prod.fst).map width).sum := by
      rw [width_record, List.map_fst_zip (Nat.le_of_eq h.symm)]
    _ = ((fields.zip items).map fun p => p.1.width).sum := by
      rw [List.map_map]
      rfl

theorem update_record (d : Dialect) (fields : List Layout) (v : Datum) :
    (record fields).update d v = (do
      let items ← MonadExcept.ofExcept (itemsOf fields.length v)
      (fields.zip items).forM fun (field, item) => field.update d item) := by
  rw [update, fold, foldFields_eq, List.length_map]
  simp only [List.zip_map_left, List.forM_eq_forM, List.forM_map]
  rfl

end Layout

/-! ## Strides -/

/-- What it means for a state to lie so many columns behind another. -/
structure Stride (σ : Type) where
  spans : Nat → σ → σ → Prop
  stay : ∀ s, spans 0 s s
  add : ∀ {m n : Nat} {r s t : σ}, spans m r s → spans n s t → spans (m + n) r t

namespace Stride

variable {σ α β ι : Type} {S : Stride σ}

/-- A step is so many columns long: every success leads so far, and every failure stops on the
way. -/
structure Takes (S : Stride σ) (n : Nat) (x : EStateM Error σ α) : Prop where
  ok : ∀ {s t : σ} {a : α}, x.run s = .ok a t → S.spans n s t
  error : ∀ {s t : σ} {e : Error}, x.run s = .error e t → ∃ m ≤ n, S.spans m s t

/-- An instruction leads so far at once, or fails where it stands. -/
theorem takes_of_run {n : Nat} {x : EStateM Error σ α}
    (h : ∀ s, (∃ a t, x.run s = .ok a t ∧ S.spans n s t) ∨ ∃ e, x.run s = .error e s) :
    S.Takes n x where
  ok {s _ _} hrun := by
    rcases h s with ⟨a, t, h, hspan⟩ | ⟨e, h⟩
    · cases h.symm.trans hrun
      exact hspan
    · cases h.symm.trans hrun
  error {s _ _} hrun := by
    rcases h s with ⟨a, t, h, -⟩ | ⟨e, h⟩
    · cases h.symm.trans hrun
    · cases h.symm.trans hrun
      exact ⟨0, Nat.zero_le n, S.stay s⟩

theorem takes_pure (a : α) : S.Takes 0 (pure a) :=
  takes_of_run fun s => .inl ⟨a, s, rfl, S.stay s⟩

theorem takes_throw (n : Nat) (e : Error) : S.Takes n (throw e : EStateM Error σ α) :=
  takes_of_run fun _ => .inr ⟨e, rfl⟩

theorem Takes.bind {m n : Nat} {x : EStateM Error σ α} {f : α → EStateM Error σ β}
    (hx : S.Takes m x) (hf : ∀ a, S.Takes n (f a)) : S.Takes (m + n) (x >>= f) where
  ok h := by
    obtain ⟨a, r, hrun, h⟩ := run_bind_eq_ok.mp h
    exact S.add (hx.ok hrun) ((hf a).ok h)
  error h := by
    rcases run_bind_eq_error.mp h with h | ⟨a, r, hrun, h⟩
    · obtain ⟨k, hk, hspan⟩ := hx.error h
      exact ⟨k, Nat.le_add_right_of_le hk, hspan⟩
    · obtain ⟨k, hk, hspan⟩ := (hf a).error h
      exact ⟨m + k, Nat.add_le_add_left hk m, S.add (hx.ok hrun) hspan⟩

/-- What only finishes a step takes nothing. -/
theorem Takes.finish {n : Nat} {x : EStateM Error σ α} {f : α → EStateM Error σ β}
    (hx : S.Takes n x) (hf : ∀ a, S.Takes 0 (f a)) : S.Takes n (x >>= f) :=
  hx.bind hf

/-- To look at the state takes nothing. -/
theorem takes_get_bind {n : Nat} {f : σ → EStateM Error σ α} (hf : ∀ s, S.Takes n (f s)) :
    S.Takes n (get >>= f) where
  ok {s _ _} h := (hf s).ok h
  error {s _ _} h := (hf s).error h

/-- Neither does a check, whose outcome may be used. -/
theorem takes_ofExcept_bind {n : Nat} {x : Except Error α} {f : α → EStateM Error σ β}
    (hf : ∀ a, x = .ok a → S.Takes n (f a)) : S.Takes n (MonadExcept.ofExcept x >>= f) := by
  cases x with
  | ok a => exact hf a rfl
  | error e => exact takes_throw n e

theorem takes_ofExcept (x : Except Error α) : S.Takes 0 (MonadExcept.ofExcept x) := by
  cases x with
  | ok a => exact takes_pure a
  | error e => exact takes_throw 0 e

theorem takes_mapM {l : List ι} {w : ι → Nat} {f : ι → EStateM Error σ α}
    (h : ∀ i ∈ l, S.Takes (w i) (f i)) : S.Takes (l.map w).sum (l.mapM f) := by
  induction l with
  | nil => exact takes_pure []
  | cons i l ih =>
    rw [List.mapM_cons, List.map_cons, List.sum_cons]
    have hrest := ih fun j hj => h j (List.mem_cons_of_mem _ hj)
    exact (h i List.mem_cons_self).bind fun a => hrest.finish fun as => takes_pure (a :: as)

theorem takes_forM {l : List ι} {w : ι → Nat} {f : ι → EStateM Error σ Unit}
    (h : ∀ i ∈ l, S.Takes (w i) (f i)) : S.Takes (l.map w).sum (l.forM f) := by
  induction l with
  | nil => exact takes_pure ()
  | cons i l ih =>
    rw [List.map_cons, List.sum_cons]
    have hrest := ih fun j hj => h j (List.mem_cons_of_mem _ hj)
    exact (h i List.mem_cons_self).bind fun _ => hrest

/-- Records, whatever is done with their fields. -/
theorem takes_fields {fields : List Layout} {f : Layout → Datum → EStateM Error σ Unit}
    (h : ∀ field ∈ fields, ∀ item, S.Takes field.width (f field item)) (v : Datum) :
    S.Takes (Layout.record fields).width (do
      let items ← MonadExcept.ofExcept (Layout.itemsOf fields.length v)
      (fields.zip items).forM fun (field, item) => f field item) := by
  refine takes_ofExcept_bind fun items hitems => ?_
  rw [Layout.width_record_zip (Layout.itemsOf_eq_ok hitems).2]
  exact takes_forM fun p hp => h p.1 (List.of_mem_zip hp).1 p.2

end Stride

/-- Columns passed over: the cells stay as they are. -/
def Row.passing : Stride Row where
  spans n r s := s = { r with position := r.position + n }
  stay _ := rfl
  add := by
    rintro m n r _ _ rfl rfl
    rw [← Nat.add_assoc]

/-- Columns written: the cells before and after them stay as they are, and so does their number. -/
def Row.writing : Stride Row where
  spans n r s := s.position = r.position + n ∧ s.width = r.width
    ∧ ∀ i, i < r.position ∨ s.position ≤ i → s.cells[i]? = r.cells[i]?
  stay _ := ⟨rfl, rfl, fun _ _ => rfl⟩
  add := by
    rintro m n r s t ⟨hs, hsw, hsc⟩ ⟨ht, htw, htc⟩
    refine ⟨by omega, htw.trans hsw, fun i hi => ?_⟩
    rw [htc i (by omega), hsc i (by omega)]

/-- Parameters added behind those bound before. -/
def Parameters.binding : Stride Parameters where
  spans n ps qs := ∃ new, new.length = n ∧ qs = ps ++ new
  stay ps := ⟨[], rfl, by simp⟩
  add := by
    rintro m n ps _ _ ⟨new, rfl, rfl⟩ ⟨more, rfl, rfl⟩
    exact ⟨new ++ more, by simp, by simp⟩

/-! ## Reading, writing and binding -/

theorem Row.takes_next : Row.passing.Takes 1 Row.next := by
  refine Stride.takes_of_run fun r => ?_
  cases hcell : r.cells[r.position]? with
  | none =>
    refine .inr ⟨r.overrun, run_bind_eq_error.mpr (.inr ⟨r, r, rfl, ?_⟩)⟩
    simp only [hcell]
    rfl
  | some cell =>
    refine .inl ⟨cell, _, run_bind_eq_ok.mpr ⟨r, r, rfl, ?_⟩, rfl⟩
    simp only [hcell]
    rfl

/-- One cell is written, or there is none left and nothing changes. -/
theorem Row.writing_of_update (v : Value) (r : Row) :
    (∃ a s, (Row.update v).run r = .ok a s ∧ Row.writing.spans 1 r s)
      ∨ ∃ e, (Row.update v).run r = .error e r := by
  rw [Row.run_update]
  split
  · refine .inl ⟨_, _, rfl, rfl, List.length_set, fun i hi => List.getElem?_set_ne ?_⟩
    change i < r.position ∨ r.position + 1 ≤ i at hi
    omega
  · exact .inr ⟨_, rfl⟩

namespace ColumnType

theorem takes_next (c : ColumnType) : Row.passing.Takes 1 c.next := by
  refine Stride.takes_get_bind fun r => Row.takes_next.finish fun cell => ?_
  split
  · exact Stride.takes_throw 0 _
  · exact Stride.takes_ofExcept _

theorem takes_nextOption (c : ColumnType) : Row.passing.Takes 1 c.nextOption := by
  refine Row.takes_next.finish fun cell => ?_
  split
  · exact Stride.takes_pure none
  · exact (Stride.takes_ofExcept _).finish fun v => Stride.takes_pure (some v)

end ColumnType

namespace Layout

variable (d : Dialect)

/-- A layout reads as many columns as it is wide, and changes none. -/
theorem takes_read (l : Layout) : Row.passing.Takes l.width (l.read d) := by
  induction l using induct with
  | column node kind nullable =>
    cases nullable with
    | false => exact (ColumnType.takes_next _).finish fun v => Stride.takes_pure _
    | true => exact (ColumnType.takes_nextOption _).finish fun v => Stride.takes_pure _
  | record fields ih =>
    rw [read_record, width_record]
    exact (Stride.takes_mapM ih).finish fun vs => Stride.takes_pure _

/-- A layout writes as many columns as it is wide, and touches no other. -/
theorem takes_update (l : Layout) (v : Datum) : Row.writing.Takes l.width (l.update d v) := by
  induction l using induct generalizing v with
  | column node kind nullable =>
    refine Stride.takes_of_run fun r => ?_
    rw [run_update_column]
    split
    · exact Row.writing_of_update _ r
    · exact .inr ⟨_, rfl⟩
  | record fields ih =>
    rw [update_record]
    exact Stride.takes_fields ih v

/-- A layout binds as many parameters as it is wide. -/
theorem takes_bind (l : Layout) (v : Datum) :
    Parameters.binding.Takes l.width (l.bind d (some v)) := by
  induction l using induct generalizing v with
  | column node kind nullable =>
    refine Stride.takes_of_run fun ps => ?_
    rw [run_bind_column]
    split
    · next p _ => exact .inl ⟨(), _, rfl, [p], rfl, rfl⟩
    · exact .inr ⟨_, rfl⟩
  | record fields ih =>
    rw [bind_record]
    exact Stride.takes_fields ih v

theorem length_parameters {d : Dialect} {l : Layout} {v : Datum} {ps : Parameters}
    (h : l.parameters d (some v) = .ok ps) : ps.length = l.width := by
  obtain ⟨new, hnew, hps⟩ := (takes_bind d l v).ok (run_bind_of_parameters h)
  rw [hps, List.nil_append, hnew]

/-- There is a column for each node. -/
theorem width_eq_length_nodes (l : Layout) : l.width = l.nodes.length := by
  induction l using induct with
  | column node kind nullable => rfl
  | record fields ih =>
    rw [width_record, nodes, fold, foldFields_eq, List.length_flatten, List.map_map]
    exact congrArg List.sum (List.map_congr_left ih)

/-! ## Failures to bind -/

/-- Wherever a record of the layout meets a record, that has one item for each field. -/
def hasLengths : Layout → Datum → Bool :=
  fold
    (fun _ _ _ _ => true)
    (fun fields v =>
      match v with
      | .record items =>
        items.length == fields.length && (fields.zip items).all fun (field, item) => field item
      | _ => true)

theorem hasLengths_record {fields : List Layout} {items : List Datum} :
    (record fields).hasLengths (.record items) = true ↔ items.length = fields.length
      ∧ ∀ p ∈ fields.zip items, p.1.hasLengths p.2 = true := by
  rw [hasLengths, fold, foldFields_eq]
  simp only [List.length_map, List.zip_map_left, List.all_map, Bool.and_eq_true, beq_iff_eq,
    List.all_eq_true]
  rfl

/-- A column has no numbers of columns to complain about. -/
theorem parameterOf_ne_columnCount {d : Dialect} {kind : Kind} {nullable : Bool} {position : Nat}
    {v : Datum} {e : Error} (h : parameterOf d kind nullable position v = .error e)
    (expected got : Nat) : e ≠ .columnCount expected got := by
  rcases bind_eq_error_iff.mp h with h | ⟨x, _, h⟩
  · cases v with
    | scalar x => cases h
    | _ => cases h; simp
  · split at h
    · split at h <;> cases h
      simp
    · cases hcell : (d.types.column kind).toCell x with
      | ok cell => rw [hcell] at h; cases h
      | error e' =>
        rw [hcell] at h
        cases h
        simp [ColumnType.toCell_eq_error hcell, Value.mismatch]

/-- The number of columns is refused only where a record has the wrong length. -/
theorem run_bind_ne_columnCount {d : Dialect} {l : Layout} {v : Datum}
    (hv : l.hasLengths v = true) {ps qs : Parameters} {e : Error}
    (h : (l.bind d (some v)).run ps = .error e qs) (expected got : Nat) :
    e ≠ .columnCount expected got := by
  induction l using induct generalizing v ps with
  | column node kind nullable =>
    rw [run_bind_column] at h
    split at h
    · cases h
    · next he =>
      cases h
      exact parameterOf_ne_columnCount he expected got
  | record fields ih =>
    rw [bind_record] at h
    rcases run_bind_eq_error.mp h with hrun | ⟨items, r, hrun, hfields⟩
    -- The record itself fails only for its shape: its length is right.
    · obtain ⟨hitems, -⟩ := run_ofExcept_eq_error.mp hrun
      cases v with
      | record items =>
        rw [itemsOf, if_pos (hasLengths_record.mp hv).1] at hitems
        cases hitems
      | _ => cases hitems; simp
    · obtain ⟨hitems, -⟩ := run_ofExcept_eq_ok.mp hrun
      obtain ⟨rfl, -⟩ := itemsOf_eq_ok hitems
      obtain ⟨p, hp, s, hfield⟩ := exists_of_run_forM_eq_error hfields
      exact ih p.1 (List.of_mem_zip hp).1 ((hasLengths_record.mp hv).2 p hp) hfield

theorem run_bind_of_parameters_error {d : Dialect} {l : Layout} {v : Option Datum} {e : Error}
    (h : l.parameters d v = .error e) : ∃ qs, (l.bind d v).run [] = .error e qs := by
  rw [parameters] at h
  split at h
  · cases h
  · next hrun =>
    cases h
    exact ⟨_, hrun⟩

end Layout

/-! ## Insert statements -/

namespace Insert

/-- The statements that insert the columns of a layout, with columns to hand back or without. -/
inductive BuiltFrom (l : Layout) : Insert → Prop
  | ofLayout {d : Dialect} {table : String} {i : Insert} (h : ofLayout d table l = .ok i) :
      BuiltFrom l i
  | returning {d : Dialect} {r : Returned} {i j : Insert} (hi : BuiltFrom l i)
      (h : i.returning d r = .ok j) : BuiltFrom l j

theorem length_of_columnNames {statement : String} {source : Option Symbol} {nodes : List Node}
    {names : List String} (h : Target.columnNames statement source nodes = .ok names) :
    names.length = nodes.length := by
  induction nodes generalizing names with
  | nil => cases h; rfl
  | cons node nodes ih =>
    rw [Target.columnNames, List.mapM_cons] at h
    obtain ⟨name, _, h⟩ := bind_eq_ok_iff.mp h
    obtain ⟨rest, hrest, h⟩ := bind_eq_ok_iff.mp h
    cases h
    rw [List.length_cons, List.length_cons, ih hrest]

theorem BuiltFrom.length_columns {l : Layout} {i : Insert} (h : BuiltFrom l i) :
    i.columns.length = l.width := by
  induction h with
  | ofLayout h =>
    obtain ⟨columns, hcolumns, h⟩ := bind_eq_ok_iff.mp h
    rw [Layout.width_eq_length_nodes, ← length_of_columnNames hcolumns]
    split at h
    · cases h
    · cases h
      rfl
  | @returning d r i j _ h ih =>
    cases r with
    | key _ | column _ =>
      obtain ⟨_, _, h⟩ := bind_eq_ok_iff.mp h
      cases h
      exact ih

/-- A statement binds through its own layout whatever that binds. -/
theorem BuiltFrom.parameters_eq {l : Layout} {i : Insert} (h : BuiltFrom l i) (d : Dialect)
    (v : Datum) : i.parameters d l v = l.parameters d (some v) := by
  rw [parameters]
  cases hps : l.parameters d (some v) with
  | error e => rfl
  | ok ps =>
    have hlength : ps.length = i.columns.length :=
      (Layout.length_parameters hps).trans h.length_columns.symm
    change (if ps.length = i.columns.length then _ else _) = _
    rw [if_pos hlength]
    rfl

end Insert

namespace Layout

/-- **Layouts move by exactly their width.**  There are as many columns as nodes.  A successful read
passes over so many columns and changes no cell; a successful update writes so many and keeps all
others; a successful binding adds so many parameters behind those that are there.  So a statement
made from a layout never refuses the number of columns that the layout binds, unless a record of the
value has the wrong length. -/
theorem moves_by_width (d : Dialect) (l : Layout) :
    l.width = l.nodes.length
      ∧ (∀ r r' v, (l.read d).run r = .ok v r' →
          r'.position = r.position + l.width ∧ r'.cells = r.cells)
      ∧ (∀ v r r', (l.update d v).run r = .ok () r' →
          r'.position = r.position + l.width ∧ r'.width = r.width
            ∧ ∀ i, i < r.position ∨ r'.position ≤ i → r'.cells[i]? = r.cells[i]?)
      ∧ (∀ v ps qs, (l.bind d (some v)).run ps = .ok () qs →
          ∃ new, new.length = l.width ∧ qs = ps ++ new)
      ∧ ∀ i v, Insert.BuiltFrom l i → l.hasLengths v = true →
          ∀ expected got, i.parameters d l v ≠ .error (.columnCount expected got) := by
  refine ⟨l.width_eq_length_nodes, ?_, ?_, ?_, ?_⟩
  · intro r r' v h
    obtain rfl := (takes_read d l).ok h
    exact ⟨rfl, rfl⟩
  · intro v r r' h
    exact (takes_update d l v).ok h
  · intro v ps qs h
    exact (takes_bind d l v).ok h
  · intro i v hi hv expected got h
    rw [hi.parameters_eq] at h
    obtain ⟨qs, hrun⟩ := run_bind_of_parameters_error h
    exact run_bind_ne_columnCount hv hrun expected got rfl

/-- Three columns in the middle of a row of five, where booleans are kept as integers. -/
theorem moves_by_width_nested :
    let x : Symbol := ⟨0, 0⟩
    let l : Layout := .record [.column (.column x "id") .long false,
      .record [.column (.column x "active") .boolean true, .column (.column x "note") .string true]]
    let v : Datum := .record [.scalar (.int 7), .record [.scalar (.bool true), .scalar .null]]
    let r : Row := ⟨[.int 0, .long 1, .int 0, .string "a", .int 9], 1⟩
    let i : Insert := ⟨.doubleQuotes, "users", ["id", "active", "note"], []⟩
    (∃ w r', (l.read .derby).run r = .ok w r' ∧ r'.position = 4 ∧ r'.cells = r.cells)
      ∧ (∃ r', (l.update .derby v).run r = .ok () r' ∧ r'.position = 4
          ∧ r'.cells = [.int 0, .long 7, .int 1, .null, .int 9]
          ∧ r'.cells[0]? = r.cells[0]? ∧ r'.cells[4]? = r.cells[4]?)
      ∧ (∃ qs, (l.bind .derby (some v)).run [.value (.int 0)] = .ok () qs
          ∧ ∃ new, new.length = 3 ∧ qs = [.value (.int 0)] ++ new)
      ∧ Insert.ofLayout .derby "users" l = .ok i ∧ l.hasLengths v = true
      ∧ ∀ expected got, i.parameters .derby l v ≠ .error (.columnCount expected got) := by
  intro x l v r i
  obtain ⟨-, hread, hupdate, hbind, hinsert⟩ := moves_by_width .derby l
  refine ⟨⟨_, _, rfl, hread r _ _ rfl⟩, ?_, ⟨_, rfl, hbind v [.value (.int 0)] _ rfl⟩, rfl, rfl, ?_⟩
  · obtain ⟨hposition, -, hcells⟩ := hupdate v r _ rfl
    exact ⟨_, rfl, hposition, rfl, hcells 0 (.inl (by decide)), hcells 4 (.inr (by decide))⟩
  · have hbuilt : Insert.ofLayout .derby "users" l = .ok i := rfl
    exact hinsert i v (.ofLayout hbuilt) rfl

/-! ## Missing values -/

/-- The columns of a layout, each with its kind. -/
def columns : Layout → List (Node × Kind) :=
  fold (fun node kind _ => [(node, kind)]) List.flatten

theorem columns_record (fields : List Layout) :
    (record fields).columns = fields.flatMap columns := by
  rw [columns, fold, foldFields_eq]
  rfl

theorem map_fst_columns (l : Layout) : l.columns.map Prod.fst = l.nodes := by
  induction l using induct with
  | column node kind nullable => rfl
  | record fields ih =>
    rw [columns_record, List.map_flatMap, nodes, fold, foldFields_eq]
    exact congrArg List.flatten (List.map_congr_left ih)

/-- A null of its type for each column. -/
def nulls (d : Dialect) (l : Layout) : Parameters :=
  l.columns.map fun c => .null (d.types.column c.2).code

theorem nulls_record (d : Dialect) (fields : List Layout) :
    (record fields).nulls d = fields.flatMap (nulls d) := by
  rw [nulls, columns_record, List.map_flatMap]
  rfl

theorem bind_record_none (d : Dialect) (fields : List Layout) :
    (record fields).bind d none = fields.forM fun field => field.bind d none := by
  rw [bind, fold, foldFields_eq]
  simp only [List.forM_eq_forM, List.forM_map]

/-- Without a value every column binds its null, wherever it stands and whether it may be null or
not. -/
theorem run_bind_none (d : Dialect) (l : Layout) (ps : Parameters) :
    (l.bind d none).run ps = .ok () (ps ++ l.nulls d) := by
  induction l using induct generalizing ps with
  | column node kind nullable => rfl
  | record fields ih =>
    rw [bind_record_none, nulls_record]
    induction fields generalizing ps with
    | nil => simp
    | cons field fields ihf =>
      have hfirst := ih field List.mem_cons_self ps
      have hrest := ihf (fun f hf => ih f (List.mem_cons_of_mem _ hf)) (ps ++ field.nulls d)
      rw [List.flatMap_cons, ← List.append_assoc]
      exact run_bind_eq_ok.mpr ⟨(), _, hfirst, hrest⟩

/-- **A missing value is bound as a null in every column**: binding it always succeeds, and its
parameters are the nulls of the columns' types, in the order of the nodes and as many as the layout
is wide. -/
theorem parameters_none (d : Dialect) (l : Layout) :
    l.parameters d none = .ok (l.columns.map fun c => .null (d.types.column c.2).code)
      ∧ l.columns.map Prod.fst = l.nodes ∧ l.columns.length = l.width := by
  refine ⟨?_, l.map_fst_columns, ?_⟩
  · rw [parameters, run_bind_none]
    rfl
  · rw [width_eq_length_nodes, ← map_fst_columns, List.length_map]

end Layout
end SqlCompiler
