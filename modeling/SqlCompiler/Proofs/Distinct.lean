import Mathlib.Data.List.Forall2
import SqlCompiler.Proofs.Emission
import SqlCompiler.Layout.Basic

/-!
# Collecting distinct values

Rows are read into a list, or into a list without repetitions.  Both stop at the first row that
cannot be read.  What counts as a repetition is an equality of its own: a decimal has the same value
with more places, and a NaN equals itself if its bits are the same.

* `Value.Equal`, `Datum.Equal` — equality of values, by what the values mean; `Datum.same_iff_equal`
  says that it is the equality that is computed, and `Datum.equivalence_equal` that it is an
  equivalence.
* `Datum.IsFirst`, `Datum.Deduplicates` — a list of the first occurrences in another one.
* `Datum.deduplicates_distinct` — what is collected without repetitions.
* `Layout.FirstFailure`, `Layout.collect_distinct` — a collection without repetitions beside the
  collection of all values.
-/

set_option autoImplicit false
namespace SqlCompiler

/-! ## Equality -/

/-- The number that a decimal stands for. -/
def Number.Decimal.value (d : Number.Decimal) : Rat :=
  mkRat d.mantissa (Nat.pow 10 d.scale)

theorem Number.Decimal.same_iff_value {a b : Number.Decimal} :
    a.same b = true ↔ a.value = b.value := by
  have hscale : ∀ d : Number.Decimal, Nat.pow 10 d.scale ≠ 0 := fun d =>
    Nat.ne_of_gt (Nat.pow_pos (by decide))
  rw [same, beq_iff_eq, value, value, Rat.mkRat_eq_iff (hscale a) (hscale b)]

/-- Two scalars are equal: they are of one type, floating-point values with the same bits, decimals
with the same number, and all others the same. -/
inductive Value.Equal : Value → Value → Prop where
  | refl (v : Value) : Equal v v
  | float {x y : Number.Single} : x.bits = y.bits → Equal (.float x) (.float y)
  | double {x y : Number.Double} : x.bits = y.bits → Equal (.double x) (.double y)
  | decimal {a b : Number.Decimal} : a.value = b.value → Equal (.decimal a) (.decimal b)

namespace Value

variable {a b c : Value}

theorem same_iff_equal : a.same b = true ↔ a.Equal b := by
  have structural : decide (a = b) = true → a.Equal b := by
    intro h
    rw [of_decide_eq_true h]
    exact .refl b
  constructor
  · intro h
    cases a with
    | decimal x =>
      cases b with
      | decimal y => exact .decimal (Number.Decimal.same_iff_value.mp h)
      | _ => exact structural h
    | _ => exact structural (by cases b <;> exact h)
  · rintro (_ | h | h | h)
    · exact a.same_self
    · exact decide_eq_true (congrArg Value.float (congrArg Number.Single.mk h))
    · exact decide_eq_true (congrArg Value.double (congrArg Number.Double.mk h))
    · exact Number.Decimal.same_iff_value.mpr h

theorem Equal.symm (h : a.Equal b) : b.Equal a := by
  cases h with
  | refl => exact .refl a
  | float h => exact .float h.symm
  | double h => exact .double h.symm
  | decimal h => exact .decimal h.symm

theorem Equal.trans (h : a.Equal b) (h' : b.Equal c) : a.Equal c := by
  cases h with
  | refl => exact h'
  | float h =>
    cases h' with
    | refl => exact .float h
    | float h' => exact .float (h.trans h')
  | double h =>
    cases h' with
    | refl => exact .double h
    | double h' => exact .double (h.trans h')
  | decimal h =>
    cases h' with
    | refl => exact .decimal h
    | decimal h' => exact .decimal (h.trans h')

end Value

/-- Two structured values are equal: scalars that are, or records or collections with as many items,
equal one by one. -/
inductive Datum.Equal : Datum → Datum → Prop where
  | scalar {a b : Value} : a.Equal b → Equal (.scalar a) (.scalar b)
  | record {as bs : List Datum} : List.Forall₂ Equal as bs → Equal (.record as) (.record bs)
  | collection {as bs : List Datum} :
    List.Forall₂ Equal as bs → Equal (.collection as) (.collection bs)

section
variable {α : Type} {R : α → α → Prop} {as bs cs : List α}

theorem forall₂_symm (h : List.Forall₂ R as bs) (hsymm : ∀ a ∈ as, ∀ b, R a b → R b a) :
    List.Forall₂ R bs as := by
  induction h with
  | nil => exact .nil
  | cons hab _ ih =>
    obtain ⟨ha, has⟩ := List.forall_mem_cons.mp hsymm
    exact .cons (ha _ hab) (ih has)

theorem forall₂_trans (h : List.Forall₂ R as bs) (h' : List.Forall₂ R bs cs)
    (htrans : ∀ a ∈ as, ∀ b c, R a b → R b c → R a c) : List.Forall₂ R as cs := by
  induction h generalizing cs with
  | nil => exact h'
  | cons hab _ ih =>
    obtain ⟨ha, has⟩ := List.forall_mem_cons.mp htrans
    cases h' with
    | cons hbc h' => exact .cons (ha _ _ hab hbc) (ih h' has)

end

namespace Datum

/-- Induction on structured values: what passes from the items of a value to the value holds of
every value. -/
theorem induct {P : Datum → Prop} (scalar : ∀ v, P (.scalar v))
    (record : ∀ items, (∀ v ∈ items, P v) → P (.record items))
    (collection : ∀ items, (∀ v ∈ items, P v) → P (.collection items)) : ∀ v, P v
  | .scalar v => scalar v
  | .record items => record items fun v hv =>
      have : sizeOf v < sizeOf (Datum.record items) := by
        have := List.sizeOf_lt_of_mem hv
        simp only [Datum.record.sizeOf_spec]; omega
      induct scalar record collection v
  | .collection items => collection items fun v hv =>
      have : sizeOf v < sizeOf (Datum.collection items) := by
        have := List.sizeOf_lt_of_mem hv
        simp only [Datum.collection.sizeOf_spec]; omega
      induct scalar record collection v
termination_by v => sizeOf v
decreasing_by all_goals exact this

theorem sameItems_iff_equal {as bs : List Datum} (h : ∀ a ∈ as, ∀ b, a.same b = true ↔ a.Equal b) :
    sameItems as bs = true ↔ List.Forall₂ Equal as bs := by
  induction as generalizing bs with
  | nil => cases bs <;> simp [sameItems]
  | cons a as ih =>
    obtain ⟨ha, has⟩ := List.forall_mem_cons.mp h
    cases bs with
    | nil => simp [sameItems]
    | cons b bs => simp [sameItems, ha, ih has]

/-- **The equality that is computed is the equality of values.** -/
theorem same_iff_equal : ∀ a b : Datum, a.same b = true ↔ a.Equal b := by
  refine Datum.induct (fun v b => ?_) (fun items ih b => ?_) fun items ih b => ?_
  · cases b with
    | scalar w =>
      rw [same, Value.same_iff_equal]
      exact ⟨.scalar, fun h => by cases h with | scalar h => exact h⟩
    | _ => exact ⟨fun h => by simp [same] at h, fun h => by cases h⟩
  · cases b with
    | record items' =>
      rw [same, sameItems_iff_equal ih]
      exact ⟨.record, fun h => by cases h with | record h => exact h⟩
    | _ => exact ⟨fun h => by simp [same] at h, fun h => by cases h⟩
  · cases b with
    | collection items' =>
      rw [same, sameItems_iff_equal ih]
      exact ⟨.collection, fun h => by cases h with | collection h => exact h⟩
    | _ => exact ⟨fun h => by simp [same] at h, fun h => by cases h⟩

theorem equal_refl : ∀ a : Datum, a.Equal a :=
  Datum.induct (fun v => .scalar (.refl v)) (fun _ ih => .record (List.forall₂_same.mpr ih))
    fun _ ih => .collection (List.forall₂_same.mpr ih)

theorem equal_symm : ∀ a b : Datum, a.Equal b → b.Equal a := by
  refine Datum.induct ?_ ?_ ?_
  · rintro v _ ⟨h⟩
    exact .scalar h.symm
  · rintro items ih _ (_ | h | _)
    exact .record (forall₂_symm h ih)
  · rintro items ih _ (_ | _ | h)
    exact .collection (forall₂_symm h ih)

theorem equal_trans : ∀ a b c : Datum, a.Equal b → b.Equal c → a.Equal c := by
  refine Datum.induct ?_ ?_ ?_
  · rintro v _ _ ⟨h⟩ ⟨h'⟩
    exact .scalar (h.trans h')
  · rintro items ih _ _ (_ | h | _) (_ | h' | _)
    exact .record (forall₂_trans h h' ih)
  · rintro items ih _ _ (_ | _ | h) (_ | _ | h')
    exact .collection (forall₂_trans h h' ih)

/-- **Equality of values is an equivalence.** -/
theorem equivalence_equal : Equivalence Equal :=
  ⟨equal_refl, equal_symm _ _, equal_trans _ _ _⟩

/-! ## First occurrences -/

/-- A position in a list where a value comes up that equals none before it. -/
def IsFirst (items : List Datum) (i : Nat) : Prop :=
  ∃ v, items[i]? = some v ∧ ∀ w ∈ items.take i, ¬ w.Equal v

/-- A list of the first occurrences in another one. -/
structure Deduplicates (kept items : List Datum) : Prop where
  /-- No two of its values are equal. -/
  distinct : kept.Pairwise fun v w => ¬ v.Equal w
  /-- Its values are values of the other list. -/
  subset : kept ⊆ items
  /-- Every value of the other list equals one of them. -/
  complete : ∀ v ∈ items, ∃ w ∈ kept, w.Equal v
  /-- They are the values at the positions where a value comes up first, in the order of these
  positions. -/
  ordered : ∃ positions : List Nat, positions.Pairwise (· < ·)
    ∧ (∀ i, i ∈ positions ↔ IsFirst items i) ∧ kept.map some = positions.map fun i => items[i]?

section
variable {kept seen : List Datum}

theorem IsFirst.lt_length {i : Nat} (h : IsFirst seen i) : i < seen.length := by
  obtain ⟨v, hv, -⟩ := h
  exact (List.getElem?_eq_some_iff.mp hv).1

/-- One more value comes up first if it equals none before it. -/
theorem isFirst_concat {v : Datum} {i : Nat} :
    IsFirst (seen ++ [v]) i ↔ IsFirst seen i ∨ i = seen.length ∧ ∀ w ∈ seen, ¬ w.Equal v := by
  rcases Nat.lt_trichotomy i seen.length with hi | rfl | hi
  · simp [IsFirst, List.getElem?_append_left hi, List.take_append_of_le_length (Nat.le_of_lt hi),
      Nat.ne_of_lt hi]
  · simp [IsFirst]
  · have hnone (items : List Datum) (hle : items.length ≤ i) : ¬ IsFirst items i := fun h =>
      Nat.not_lt_of_le hle h.lt_length
    have hlength : (seen ++ [v]).length ≤ i := by
      rw [List.length_append, List.length_singleton]
      exact hi
    simp [hnone seen (Nat.le_of_lt hi), hnone _ hlength, Nat.ne_of_gt hi]

theorem any_same_iff {v : Datum} : kept.any (same · v) = true ↔ ∃ w ∈ kept, w.Equal v := by
  simp only [List.any_eq_true, same_iff_equal]

/-- What is kept of one more value. -/
theorem Deduplicates.concat (h : Deduplicates kept seen) (v : Datum) :
    Deduplicates (if kept.any (same · v) then kept else kept ++ [v]) (seen ++ [v]) := by
  obtain ⟨positions, hincreasing, hfirst, hvalues⟩ := h.ordered
  -- a value equals one before it exactly if it equals one that is kept
  have hnew : (∀ w ∈ seen, ¬ w.Equal v) ↔ ¬ ∃ w ∈ kept, w.Equal v := by
    constructor
    · rintro hseen ⟨w, hw, hequal⟩
      exact hseen w (h.subset hw) hequal
    · intro hkept w hw hequal
      obtain ⟨w', hw', hequal'⟩ := h.complete w hw
      exact hkept ⟨w', hw', equal_trans _ _ _ hequal' hequal⟩
  have hold : ∀ i ∈ positions, (seen ++ [v])[i]? = seen[i]? := fun i hi =>
    List.getElem?_append_left ((hfirst i).mp hi).lt_length
  by_cases hv : ∃ w ∈ kept, w.Equal v
  · rw [if_pos (any_same_iff.mpr hv)]
    refine ⟨h.distinct, List.subset_append_of_subset_left _ h.subset, fun u hu => ?_, positions,
      hincreasing, fun i => ?_, ?_⟩
    · rcases List.mem_append.mp hu with hu | hu
      · exact h.complete u hu
      · rw [List.mem_singleton.mp hu]
        exact hv
    · rw [hfirst, isFirst_concat, hnew]
      simp [hv]
    · rw [hvalues]
      exact (List.map_congr_left hold).symm
  · rw [if_neg fun hany => hv (any_same_iff.mp hany)]
    refine ⟨?_, ?_, fun u hu => ?_, positions ++ [seen.length], ?_, fun i => ?_, ?_⟩
    · refine List.pairwise_append.mpr ⟨h.distinct, List.pairwise_singleton _ _, fun w hw u hu => ?_⟩
      rw [List.mem_singleton.mp hu]
      exact fun hequal => hv ⟨w, hw, hequal⟩
    · exact List.append_subset.mpr ⟨List.subset_append_of_subset_left _ h.subset,
        List.subset_append_right _ _⟩
    · rcases List.mem_append.mp hu with hu | hu
      · obtain ⟨w, hw, hequal⟩ := h.complete u hu
        exact ⟨w, List.mem_append_left _ hw, hequal⟩
      · rw [List.mem_singleton.mp hu]
        exact ⟨v, List.mem_append_right _ List.mem_cons_self, equal_refl v⟩
    · refine List.pairwise_append.mpr
        ⟨hincreasing, List.pairwise_singleton _ _, fun i hi j hj => ?_⟩
      rw [List.mem_singleton.mp hj]
      exact ((hfirst i).mp hi).lt_length
    · rw [List.mem_append, hfirst, List.mem_singleton, isFirst_concat, hnew]
      simp [hv]
    · rw [List.map_append, List.map_append, hvalues, List.map_congr_left hold]
      simp

end

/-- **What is collected without repetitions is the first occurrences.** -/
theorem deduplicates_distinct (items : List Datum) : Deduplicates (distinct items) items := by
  have run : ∀ {kept seen : List Datum}, Deduplicates kept seen → Deduplicates
      (items.foldl (fun kept v => if kept.any (same · v) then kept else kept ++ [v]) kept)
      (seen ++ items) := by
    induction items with
    | nil => intro kept seen h; rwa [List.append_nil]
    | cons v items ih =>
      intro kept seen h
      have hnext := ih (h.concat v)
      rwa [List.append_assoc] at hnext
  have hnil : Deduplicates [] [] :=
    ⟨.nil, List.Subset.refl _, fun v hv => absurd hv List.not_mem_nil, [], .nil,
      fun i => ⟨fun hi => absurd hi List.not_mem_nil,
        fun hi => absurd hi.lt_length (Nat.not_lt_zero i)⟩, rfl⟩
  exact run hnil

/-- Of `1.0` and `1.00` the first is kept, and a record counts as its items do. -/
example :
    let one : Datum := .scalar (.decimal ⟨false, 10, 1, by decide, by decide⟩)
    let precise : Datum := .scalar (.decimal ⟨false, 100, 2, by decide, by decide⟩)
    distinct [.record [one], one, .record [precise], precise] = [.record [one], one] := by
  rfl

end Datum

/-! ## Rows -/

namespace Layout

variable {d : Dialect} {l : Layout} {rows : List Row}

/-- Reading rows up to the first one that fails. -/
theorem fst_readRows (d : Dialect) (l : Layout) (rows : List Row) :
    (l.readRows d rows).1 = rows.mapM fun row => outcome ((l.readRow d).run row) := by
  induction rows with
  | nil => rfl
  | cons row rows ih =>
    rw [List.mapM_cons, readRows]
    cases (l.readRow d).run row with
    | error e row' => rfl
    | ok v row' =>
      change (l.readRows d rows).1.map (v :: ·) = _
      rw [ih]
      cases rows.mapM fun row => outcome ((l.readRow d).run row) <;> rfl

/-- The first row that cannot be read fails with an error. -/
def FirstFailure (d : Dialect) (l : Layout) (rows : List Row) (e : Error) : Prop :=
  ∃ before row after, rows = before ++ row :: after
    ∧ (∀ r ∈ before, ∃ v, outcome ((l.readRow d).run r) = .ok v)
    ∧ outcome ((l.readRow d).run row) = .error e

/-- **A collection without repetitions keeps the first occurrences of the collection of all
values.**  The two fail on the same rows, as the first row that cannot be read does.  Otherwise
both succeed, and of the values of all rows the one keeps the first of equal ones, in their order;
equality is an equivalence, so it does not matter which of equal values is looked at. -/
theorem collect_distinct (d : Dialect) (l : Layout) (rows : List Row) :
    Equivalence Datum.Equal
      ∧ ((∃ e, FirstFailure d l rows e ∧ (l.collect d .all rows).1 = .error e
            ∧ (l.collect d .distinct rows).1 = .error e)
        ∨ ∃ items kept, rows.mapM (fun row => outcome ((l.readRow d).run row)) = .ok items
            ∧ (l.collect d .all rows).1 = .ok (.collection items)
            ∧ (l.collect d .distinct rows).1 = .ok (.collection kept)
            ∧ Datum.Deduplicates kept items) := by
  refine ⟨Datum.equivalence_equal, ?_⟩
  have hread := fst_readRows d l rows
  cases hrows : rows.mapM fun row => outcome ((l.readRow d).run row) with
  | error e =>
    rw [hrows] at hread
    refine .inl ⟨e, mapM_eq_error_iff.mp hrows, ?_, ?_⟩
    · exact congrArg (Except.map _) hread
    · exact congrArg (Except.map _) hread
  | ok items =>
    rw [hrows] at hread
    refine .inr ⟨items, Datum.distinct items, rfl, ?_, ?_, Datum.deduplicates_distinct items⟩
    · exact congrArg (Except.map _) hread
    · exact congrArg (Except.map _) hread

end Layout
end SqlCompiler
