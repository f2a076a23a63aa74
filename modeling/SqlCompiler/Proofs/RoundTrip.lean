import Mathlib.Algebra.Ring.Nat
import SqlCompiler.Dialect.Builtin
import SqlCompiler.Layout.Basic
import SqlCompiler.Proofs.Emission
import SqlCompiler.Proofs.Identifiers

/-!
# Values bound and read back

The parameters that a value is bound to, taken as a row, read as that value again.  A column type
may keep a value in another form — booleans as integers, identifiers as texts, nulls apart — but
each type undoes its own form, so what comes back is the value that the column's kind makes of it.
Binding and reading are two recursions over the layout; they meet because each of them uses as many
positions as the layout is wide, wherever in a row it begins.

* `Value.isOf` — values that a kind leaves as they are, with `Value.coerce_eq_self` and
  `Value.isOf_of_coerce`.
* `ColumnType.fromCell_toCell` — one cell.
* `Layout.coerce` — a value with each leaf made one of its column's kind; `Layout.leaves`.
* `Layout.ReadsBack`, with a step lemma for columns and one for records.
* `Layout.readRow_parameters` — the main statement.
-/

set_option autoImplicit false
namespace SqlCompiler

/-! ## Kinds and values -/

/-- The kind of the values that stand for a kind: large objects are bytes. -/
def Kind.stored : Kind → Kind
  | .blob => .bytes
  | kind => kind

namespace Value

/-- Whether a value is null or of the type that belongs to a kind. -/
def isOf (kind : Kind) (v : Value) : Bool :=
  v.kind?.all (· == kind.stored)

theorem shortOf?_toInt64 (n : Int16) : shortOf? n.toInt64 = some n := by
  rw [shortOf?, if_pos]
  · simp
  · rw [Int16.toInt_toInt64]
    exact ⟨Int16.minValue_le_toInt n, Int16.toInt_le n⟩

theorem intOf?_toInt64 (n : Int32) : intOf? n.toInt64 = some n := by
  rw [intOf?, if_pos]
  · simp
  · rw [Int32.toInt_toInt64]
    exact ⟨Int32.minValue_le_toInt n, Int32.toInt_le n⟩

theorem kind?_of_convert? {kind : Kind} {v w : Value} (h : convert? kind v = some w) :
    w.kind? = some kind.stored := by
  fun_cases convert? kind v <;>
    simp only [convert?, Option.map_eq_some_iff, Option.some.injEq, reduceCtorEq] at h <;>
    grind [kind?, Kind.stored]

theorem convert?_eq_self {kind : Kind} {v : Value} (h : v.kind? = some kind.stored) :
    convert? kind v = some v := by
  cases kind <;> cases v <;> cases h <;>
    simp [convert?, integer?, shortOf?_toInt64, intOf?_toInt64]

theorem coerce_of_not_null {kind : Kind} {v w : Value} (hv : v.isNull = false) :
    v.coerce kind = .ok w ↔ convert? kind v = some w := by
  have hne : v ≠ null := by rintro rfl; cases hv
  rw [coerce]
  · cases convert? kind v <;> simp
  · exact hne

theorem kind?_eq_none {v : Value} : v.kind? = none ↔ v = .null := by
  cases v <;> simp [kind?]

/-- A value of a kind's own type is kept. -/
theorem coerce_eq_self {kind : Kind} {v : Value} (h : v.isOf kind = true) :
    v.coerce kind = .ok v := by
  cases hv : v.isNull with
  | true => cases v <;> first | rfl | cases hv
  | false =>
    rw [coerce_of_not_null hv]
    cases hk : v.kind? with
    | none => rw [kind?_eq_none.mp hk] at hv; cases hv
    | some k =>
      rw [isOf, hk, Option.all_some, beq_iff_eq] at h
      exact convert?_eq_self (hk.trans (congrArg some h))

/-- What a value other than null becomes is neither null nor of another type. -/
theorem isOf_of_coerce {kind : Kind} {v w : Value} (hv : v.isNull = false)
    (h : v.coerce kind = .ok w) : w.isNull = false ∧ w.isOf kind = true := by
  have hw := kind?_of_convert? ((coerce_of_not_null hv).mp h)
  refine ⟨?_, by simp [isOf, hw]⟩
  cases w <;> first | rfl | cases hw

end Value

/-! ## One cell -/

namespace ColumnType

/-- **A cell reads as the value it keeps, made one of the column's kind.** -/
theorem fromCell_toCell {c : ColumnType} {v cell : Value} (hv : v.isNull = false)
    (h : c.toCell v = .ok cell) :
    cell.isNull = false ∧ ∃ w, v.coerce c.kind = .ok w ∧ c.fromCell cell = .ok w := by
  have hplain : v.coerce c.kind = .ok cell →
      cell.isNull = false ∧ ∃ w, v.coerce c.kind = .ok w ∧ cell.coerce c.kind = .ok w := by
    intro h
    obtain ⟨hnull, hof⟩ := Value.isOf_of_coerce hv h
    exact ⟨hnull, cell, h, Value.coerce_eq_self hof⟩
  cases c with
  | standard _ _ _ | bytea | varbinary _ | datetime _ => exact hplain h
  | numericBoolean code name =>
    cases v with
    | bool b =>
      obtain rfl := Except.ok.inj h
      exact ⟨rfl, .bool b, rfl, by cases b <;> rfl⟩
    | null => cases hv
    | _ => cases h
  | textUuid =>
    obtain ⟨w, hw, h⟩ := bind_eq_ok_iff.mp h
    obtain ⟨hnull, hof⟩ := Value.isOf_of_coerce hv hw
    cases w with
    | uuid u =>
      obtain rfl := Except.ok.inj h
      refine ⟨rfl, .uuid u, hw, ?_⟩
      rw [fromCell, Uuid.trim_text, Uuid.read?_text]
    | null => cases hnull
    | _ => cases hof

end ColumnType

/-! ## Steps on rows and parameters -/

theorem run_ofExcept_eq_ok {σ α : Type} {x : Except Error α} {s t : σ} {a : α} :
    (MonadExcept.ofExcept x : EStateM Error σ α).run s = .ok a t ↔ x = .ok a ∧ s = t := by
  cases x with
  | ok b =>
    change EStateM.Result.ok b s = .ok a t ↔ _
    simp
  | error e =>
    change EStateM.Result.error e s = .ok a t ↔ _
    simp

namespace ColumnType

theorem run_set_eq_ok {c : ColumnType} {v : Value} {ps qs : Parameters} {u : Unit}
    (h : (c.set v).run ps = .ok u qs) :
    v.isNull = false ∧ ∃ cell, c.toCell v = .ok cell ∧ qs = ps ++ [.value cell] := by
  cases hv : v.isNull with
  | true =>
    rw [set, hv] at h
    cases h
  | false =>
    rw [set, hv] at h
    obtain ⟨cell, _, hrun, h⟩ := run_bind_eq_ok.mp h
    obtain ⟨hcell, rfl⟩ := run_ofExcept_eq_ok.mp hrun
    cases h
    exact ⟨rfl, cell, hcell, rfl⟩

theorem run_next_eq_ok {c : ColumnType} {cell w : Value} {r r' : Row}
    (hnext : Row.next.run r = .ok cell r') (hcell : cell.isNull = false)
    (h : c.fromCell cell = .ok w) : c.next.run r = .ok w r' := by
  refine run_bind_eq_ok.mpr ⟨r, r, rfl, run_bind_eq_ok.mpr ⟨cell, r', hnext, ?_⟩⟩
  cases cell with
  | null => cases hcell
  | _ => exact run_ofExcept_eq_ok.mpr ⟨h, rfl⟩

theorem run_nextOption_eq_ok {c : ColumnType} {cell w : Value} {r r' : Row}
    (hnext : Row.next.run r = .ok cell r') (hcell : cell.isNull = false)
    (h : c.fromCell cell = .ok w) : c.nextOption.run r = .ok (some w) r' := by
  refine run_bind_eq_ok.mpr ⟨cell, r', hnext, ?_⟩
  cases cell with
  | null => cases hcell
  | _ => exact run_bind_eq_ok.mpr ⟨w, r', run_ofExcept_eq_ok.mpr ⟨h, rfl⟩, rfl⟩

theorem run_nextOption_null {c : ColumnType} {r r' : Row}
    (hnext : Row.next.run r = .ok .null r') : c.nextOption.run r = .ok none r' :=
  run_bind_eq_ok.mpr ⟨.null, r', hnext, rfl⟩

end ColumnType

theorem Row.run_next (before after : List Value) (cell : Value) :
    Row.next.run ⟨before ++ cell :: after, before.length⟩
      = .ok cell ⟨before ++ cell :: after, before.length + 1⟩ := by
  have hcell : (before ++ cell :: after)[before.length]? = some cell := by simp
  refine run_bind_eq_ok.mpr ⟨_, _, rfl, ?_⟩
  simp only [hcell]
  rfl

namespace Layout

theorem induct {P : Layout → Prop}
    (column : ∀ node kind nullable, P (.column node kind nullable))
    (record : ∀ fields, (∀ field ∈ fields, P field) → P (.record fields)) (l : Layout) : P l := by
  match l with
  | .column node kind nullable => exact column node kind nullable
  | .record fields => exact record fields fun field _ => induct column record field

/-! ## Values made of their columns' kinds -/

/-- A value with each leaf made one of its column's kind. -/
def coerce : Layout → Datum → Except Error Datum :=
  fold
    (fun _ kind _ v => do return .scalar (← (← scalarOf v).coerce kind))
    (fun fields v => do
      let items ← itemsOf fields.length v
      return .record (← (fields.zip items).mapM fun (field, item) => field item))

/-- The leaves of a value, each with the kind of its column. -/
def leaves : Layout → Datum → List (Kind × Value) :=
  fold
    (fun _ kind _ v =>
      match v with
      | .scalar v => [(kind, v)]
      | _ => [])
    (fun fields v =>
      match v with
      | .record items => (fields.zip items).flatMap fun (field, item) => field item
      | _ => [])

variable (d : Dialect)

theorem width_record (fields : List Layout) :
    (record fields).width = (fields.map width).sum := by
  rw [width, fold, foldFields_eq]
  rfl

theorem coerce_record (fields : List Layout) (v : Datum) :
    (record fields).coerce v = do
      let items ← itemsOf fields.length v
      return .record (← (fields.zip items).mapM fun (field, item) => field.coerce item) := by
  rw [coerce, fold, foldFields_eq, List.length_map]
  simp only [List.zip_map_left, List.mapM_map]
  rfl

theorem leaves_record (fields : List Layout) (items : List Datum) :
    (record fields).leaves (.record items) =
      (fields.zip items).flatMap fun (field, item) => field.leaves item := by
  rw [leaves, fold, foldFields_eq]
  simp only [List.zip_map_left, List.flatMap_map]
  rfl

theorem read_record (fields : List Layout) :
    (record fields).read d = do return .record (← fields.mapM (read d)) := by
  rw [read, fold, foldFields_eq, List.mapM_map]
  rfl

theorem bind_record (fields : List Layout) (v : Datum) :
    (record fields).bind d (some v) = (do
      let items ← MonadExcept.ofExcept (itemsOf fields.length v)
      (fields.zip items).forM fun (field, item) => field.bind d (some item)) := by
  rw [bind, fold, foldFields_eq, List.length_map]
  simp only [List.zip_map_left, List.forM_eq_forM, List.forM_map]
  rfl

/-! ## Reading back -/

/-- A layout reads a value back, wherever in a row the cells stand that the value was bound to. -/
def ReadsBack (l : Layout) : Prop :=
  ∀ (v : Datum) (ps qs : Parameters), (l.bind d (some v)).run ps = .ok () qs →
    ∃ w cells, qs.map Parameter.toValue = ps.map Parameter.toValue ++ cells
      ∧ cells.length = l.width ∧ l.coerce v = .ok w
      ∧ ∀ before after, (l.read d).run ⟨before ++ (cells ++ after), before.length⟩
          = .ok w ⟨before ++ (cells ++ after), before.length + cells.length⟩

variable {d}

/-- What a column keeps of a scalar: a null where it may be null, or the cell of its type. -/
def Keeps (d : Dialect) (kind : Kind) (nullable : Bool) (x cell : Value) : Prop :=
  (x = .null ∧ nullable = true ∧ cell = .null)
    ∨ (x.isNull = false ∧ (d.types.column kind).toCell x = .ok cell)

theorem run_bind_column_eq_ok {node : Node} {kind : Kind} {nullable : Bool} {v : Datum}
    {ps qs : Parameters} {u : Unit}
    (h : ((column node kind nullable).bind d (some v)).run ps = .ok u qs) :
    ∃ x p, v = .scalar x ∧ qs = ps ++ [p] ∧ Keeps d kind nullable x p.toValue := by
  obtain ⟨x, _, hrun, hbind⟩ := run_bind_eq_ok.mp h
  obtain ⟨hx, rfl⟩ := run_ofExcept_eq_ok.mp hrun
  have hset : ((d.types.column kind).set x).run ps = .ok u qs →
      ∃ p, qs = ps ++ [p] ∧ Keeps d kind nullable x p.toValue := by
    intro h
    obtain ⟨hnull, cell, hcell, rfl⟩ := ColumnType.run_set_eq_ok h
    exact ⟨.value cell, rfl, .inr ⟨hnull, hcell⟩⟩
  have hkeeps : ∃ p, qs = ps ++ [p] ∧ Keeps d kind nullable x p.toValue := by
    cases nullable with
    | false => exact hset hbind
    | true =>
      cases x with
      | null =>
        cases hbind
        exact ⟨_, rfl, .inl ⟨rfl, rfl, rfl⟩⟩
      | _ => exact hset hbind
  obtain ⟨p, hp⟩ := hkeeps
  cases v with
  | scalar y => exact ⟨x, p, congrArg Datum.scalar (Except.ok.inj hx), hp⟩
  | _ => cases hx

theorem readsBack_column (node : Node) (kind : Kind) (nullable : Bool) :
    ReadsBack d (column node kind nullable) := by
  intro v ps qs h
  obtain ⟨x, p, rfl, rfl, hkeeps⟩ := run_bind_column_eq_ok h
  rcases hkeeps with ⟨rfl, rfl, hp⟩ | ⟨hx, hcell⟩
  · refine ⟨.scalar .null, [.null], by simp [hp], rfl, rfl, fun before after => ?_⟩
    exact run_bind_eq_ok.mpr
      ⟨none, _, ColumnType.run_nextOption_null (Row.run_next before after .null), rfl⟩
  · obtain ⟨hnull, w, hw, hfrom⟩ := ColumnType.fromCell_toCell hx hcell
    rw [d.types.kind_column] at hw
    refine ⟨.scalar w, [p.toValue], by simp, rfl, ?_, fun before after => ?_⟩
    · exact bind_eq_ok_iff.mpr ⟨x, rfl, bind_eq_ok_iff.mpr ⟨w, hw, rfl⟩⟩
    have hnext := Row.run_next before after p.toValue
    cases nullable with
    | false => exact run_bind_eq_ok.mpr ⟨w, _, ColumnType.run_next_eq_ok hnext hnull hfrom, rfl⟩
    | true =>
      exact run_bind_eq_ok.mpr ⟨some w, _, ColumnType.run_nextOption_eq_ok hnext hnull hfrom, rfl⟩

/-- Fields one after the other: each begins where the one before it ended, in the parameters as in
the row. -/
theorem readsBack_fields {fields : List Layout} (ih : ∀ field ∈ fields, ReadsBack d field)
    {items : List Datum} (hlength : items.length = fields.length) {ps qs : Parameters}
    (h : ((fields.zip items).forM fun (field, item) => field.bind d (some item)).run ps
      = .ok () qs) :
    ∃ ws cells, qs.map Parameter.toValue = ps.map Parameter.toValue ++ cells
      ∧ cells.length = (fields.map width).sum
      ∧ (fields.zip items).mapM (fun (field, item) => field.coerce item) = .ok ws
      ∧ ∀ before after, (fields.mapM (read d)).run ⟨before ++ (cells ++ after), before.length⟩
          = .ok ws ⟨before ++ (cells ++ after), before.length + cells.length⟩ := by
  induction fields generalizing items ps with
  | nil =>
    cases h
    exact ⟨[], [], by simp, rfl, rfl, fun before after => rfl⟩
  | cons field fields ihf =>
    cases items with
    | nil => cases hlength
    | cons item items =>
      obtain ⟨_, rs, h₁, h₂⟩ := run_bind_eq_ok.mp h
      obtain ⟨w, cells, hrs, hwidth, hw, hread⟩ := ih field List.mem_cons_self item ps rs h₁
      obtain ⟨ws, more, hqs, hwidths, hws, hreads⟩ :=
        ihf (fun f hf => ih f (List.mem_cons_of_mem _ hf)) (Nat.succ.inj hlength) h₂
      refine ⟨w :: ws, cells ++ more, ?_, ?_, ?_, fun before after => ?_⟩
      · rw [hqs, hrs, List.append_assoc]
      · rw [List.length_append, hwidth, hwidths, List.map_cons, List.sum_cons]
      · simp only [List.zip_cons_cons, List.mapM_cons, hw, hws]
        rfl
      · rw [List.mapM_cons]
        have hfirst := hread before (more ++ after)
        have hrest := hreads (before ++ cells) after
        simp only [List.append_assoc, List.length_append] at hfirst hrest ⊢
        rw [← Nat.add_assoc]
        exact run_bind_eq_ok.mpr ⟨w, _, hfirst, run_bind_eq_ok.mpr ⟨ws, _, hrest, rfl⟩⟩

theorem itemsOf_eq_ok {count : Nat} {v : Datum} {items : List Datum}
    (h : itemsOf count v = .ok items) : v = .record items ∧ items.length = count := by
  cases v with
  | record is =>
    rw [itemsOf] at h
    split at h
    · next hcount => cases h; exact ⟨rfl, hcount⟩
    · cases h
  | _ => cases h

theorem readsBack_record {fields : List Layout} (ih : ∀ field ∈ fields, ReadsBack d field) :
    ReadsBack d (record fields) := by
  intro v ps qs h
  rw [bind_record] at h
  obtain ⟨items, _, hrun, h⟩ := run_bind_eq_ok.mp h
  obtain ⟨hitems, rfl⟩ := run_ofExcept_eq_ok.mp hrun
  obtain ⟨ws, cells, hqs, hwidth, hws, hread⟩ := readsBack_fields ih (itemsOf_eq_ok hitems).2 h
  refine ⟨.record ws, cells, hqs, ?_, ?_, fun before after => ?_⟩
  · rw [hwidth, width_record]
  · rw [coerce_record]
    exact bind_eq_ok_iff.mpr ⟨items, hitems, bind_eq_ok_iff.mpr ⟨ws, hws, rfl⟩⟩
  · rw [read_record]
    exact run_bind_eq_ok.mpr ⟨ws, _, hread before after, rfl⟩

theorem readsBack (d : Dialect) (l : Layout) : ReadsBack d l :=
  induct readsBack_column (fun _ => readsBack_record) l

/-! ## Values that are kept -/

/-- Every leaf is null or of its kind's type. -/
def Fits (l : Layout) (v : Datum) : Prop :=
  ∀ p ∈ l.leaves v, p.2.isOf p.1 = true

theorem coerce_fields_eq_self {fields : List Layout}
    (ih : ∀ field ∈ fields, ∀ v w, field.coerce v = .ok w → field.Fits v → w = v)
    {items ws : List Datum} (hlength : items.length = fields.length)
    (h : (fields.zip items).mapM (fun (field, item) => field.coerce item) = .ok ws)
    (hfits : (record fields).Fits (.record items)) : ws = items := by
  induction fields generalizing items ws with
  | nil =>
    rw [List.length_eq_zero_iff.mp hlength]
    exact (Except.ok.inj h).symm
  | cons field fields ihf =>
    cases items with
    | nil => cases hlength
    | cons item items =>
      rw [Fits, leaves_record, List.zip_cons_cons, List.flatMap_cons] at hfits
      rw [List.zip_cons_cons, List.mapM_cons] at h
      obtain ⟨w, hw, hrest⟩ := bind_eq_ok_iff.mp h
      obtain ⟨vs, hvs, hok⟩ := bind_eq_ok_iff.mp hrest
      obtain rfl : w :: vs = ws := Except.ok.inj hok
      have hfirst : w = item := ih field List.mem_cons_self item w hw
        fun p hp => hfits p (List.mem_append_left _ hp)
      have hothers : vs = items := ihf (fun f hf => ih f (List.mem_cons_of_mem _ hf))
        (Nat.succ.inj hlength) hvs
        (by rw [Fits, leaves_record]; exact fun p hp => hfits p (List.mem_append_right _ hp))
      rw [hfirst, hothers]

/-- A value whose leaves are all of their kinds' types is kept. -/
theorem coerce_eq_self {l : Layout} {v w : Datum} (h : l.coerce v = .ok w) (hfits : l.Fits v) :
    w = v := by
  induction l using induct generalizing v w with
  | column node kind nullable =>
    obtain ⟨x, hx, hcoerce⟩ := bind_eq_ok_iff.mp h
    obtain ⟨y, hy, hok⟩ := bind_eq_ok_iff.mp hcoerce
    cases v with
    | scalar z =>
      cases hx
      rw [Value.coerce_eq_self (hfits (kind, x) List.mem_cons_self)] at hy
      cases hy
      exact (Except.ok.inj hok).symm
    | _ => cases hx
  | record fields ih =>
    rw [coerce_record] at h
    obtain ⟨items, hitems, hrest⟩ := bind_eq_ok_iff.mp h
    obtain ⟨ws, hws, hok⟩ := bind_eq_ok_iff.mp hrest
    obtain ⟨rfl, hlength⟩ := itemsOf_eq_ok hitems
    obtain rfl : Datum.record ws = w := Except.ok.inj hok
    rw [coerce_fields_eq_self (fun f hf _ _ => ih f hf) hlength hws hfits]

/-! ## Whole rows -/

theorem run_bind_of_parameters {l : Layout} {v : Option Datum} {ps : Parameters}
    (h : l.parameters d v = .ok ps) : (l.bind d v).run [] = .ok () ps := by
  rw [parameters] at h
  split at h
  · next hrun => rw [hrun, Except.ok.inj h]
  · cases h

/-- **The parameters of a value, as a row, read as the value with each leaf made one of its column's
kind**, in every dialect; so they read as the value itself if each leaf that is not null is of its
kind's type already. -/
theorem readRow_parameters (d : Dialect) (l : Layout) (v : Datum) (ps : Parameters)
    (h : l.parameters d (some v) = .ok ps) :
    ∃ w, l.coerce v = .ok w ∧ outcome ((l.readRow d).run ps.toRow) = .ok w
      ∧ (l.Fits v → w = v) := by
  obtain ⟨w, cells, hcells, hwidth, hw, hread⟩ := readsBack d l v [] ps (run_bind_of_parameters h)
  rw [List.map_nil, List.nil_append] at hcells
  have hrow : ps.toRow = ⟨cells, 0⟩ := by rw [Parameters.toRow, hcells]
  have hcheck : l.checkWidth cells.length = .ok () := if_pos hwidth.symm
  have hrun : (l.readRow d).run ⟨cells, 0⟩ = .ok w ⟨cells, cells.length⟩ := by
    have hall := hread [] []
    simp only [List.nil_append, List.append_nil, List.length_nil, Nat.zero_add] at hall
    exact run_bind_eq_ok.mpr ⟨_, _, rfl,
      run_bind_eq_ok.mpr ⟨(), _, run_ofExcept_eq_ok.mpr ⟨hcheck, rfl⟩, hall⟩⟩
  refine ⟨w, hw, ?_, coerce_eq_self hw⟩
  rw [hrow, hrun]
  rfl

/-- An integer is widened, a boolean is kept as an integer and an identifier as a text, and a null
has a parameter of its own. -/
theorem readRow_parameters_access :
    let x : Symbol := ⟨0, 0⟩
    let l : Layout := .record [.column (.column x "id") .long false,
      .record [.column (.column x "active") .boolean true, .column (.column x "key") .uuid false],
      .column (.column x "note") .string true]
    let pair : Datum := .record [.scalar (.bool true), .scalar (.uuid ⟨5⟩)]
    let ps : Parameters := [.value (.long 7), .value (.int 1), .value (.string (Uuid.text ⟨5⟩)),
      .null TypeCode.varchar]
    l.parameters .access (some (.record [.scalar (.int 7), pair, .scalar .null])) = .ok ps
      ∧ outcome ((l.readRow .access).run ps.toRow)
          = .ok (.record [.scalar (.long 7), pair, .scalar .null]) := by
  intro x l pair ps
  have hps : l.parameters .access (some (.record [.scalar (.int 7), pair, .scalar .null]))
      = .ok ps := rfl
  obtain ⟨w, hw, hread, -⟩ := readRow_parameters .access l _ ps hps
  refine ⟨hps, hread.trans (hw.symm.trans rfl)⟩

end Layout
end SqlCompiler
