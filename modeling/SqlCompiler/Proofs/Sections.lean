import SqlCompiler.Proofs.Rendering

/-!
# The sections of a statement

A statement is written clause by clause.  `Query.sections` keeps apart what each clause of the
outermost query writes, so that something can be said about one of them; put one behind the other
they are the statement (`Query.written_of_compile`).  On a dialect that numbers rows, these are
the clauses of the query that stands in for the one that was asked for.

* `Query.standIn` — the query whose clauses are written.
* `Sections`, with `Sections.pieces` and `Sections.skipRows`.
* `Script.sections`, `Query.sections` — the sections of a query.
* `Sections.Of` — which clause each section is the output of.
* `Query.Written` — how a statement was written.
-/

set_option autoImplicit false
namespace SqlCompiler

/-- What the clauses of a query write. -/
structure Sections where
  modifiers : Output
  select : Output
  sources : Output
  filters : Output
  groupBy : Output
  orderBy : Output
  paging : Output

namespace Sections

/-- The sections one behind the other, after the keyword. -/
def pieces (t : Sections) : List Piece :=
  .words "select " :: (t.modifiers.pieces ++ t.select.pieces ++ t.sources.pieces
    ++ t.filters.pieces ++ t.groupBy.pieces ++ t.orderBy.pieces ++ t.paging.pieces)

/-- The rows left to the caller to skip, by the last section that says so. -/
def skipRows (t : Sections) : Option UInt64 :=
  t.paging.skipRows.or (t.orderBy.skipRows.or (t.groupBy.skipRows.or (t.filters.skipRows.or
    (t.sources.skipRows.or (t.select.skipRows.or t.modifiers.skipRows)))))

/-- The clauses of a query write these sections, one after the other. -/
structure Of (d : Dialect) (r : Clauses Rendering) (aliases : Aliases) (nested : Bool)
    (count : Nat) (t : Sections) : Prop where
  modifiers : (Script.modifiers d r).output aliases nested count = .ok t.modifiers
  select : (Script.select r).output aliases nested t.modifiers.aliasCount = .ok t.select
  sources : (Script.from_ d r).output aliases nested t.select.aliasCount = .ok t.sources
  filters : (Script.filters r).output aliases nested t.sources.aliasCount = .ok t.filters
  groupBy : (Script.groupBy r).output aliases nested t.filters.aliasCount = .ok t.groupBy
  orderBy : (Script.orderBy d r).output aliases nested t.groupBy.aliasCount = .ok t.orderBy
  paging : (Script.paging d r).output aliases nested t.orderBy.aliasCount = .ok t.paging

end Sections

namespace Script

/-- The sections that the clauses of a query write. -/
def sections (d : Dialect) (r : Clauses Rendering) (aliases : Aliases) (nested : Bool)
    (count : Nat) : Except Error Sections := do
  let modifiers ← (Script.modifiers d r).output aliases nested count
  let select ← (Script.select r).output aliases nested modifiers.aliasCount
  let sources ← (Script.from_ d r).output aliases nested select.aliasCount
  let filters ← (Script.filters r).output aliases nested sources.aliasCount
  let groupBy ← (Script.groupBy r).output aliases nested filters.aliasCount
  let orderBy ← (Script.orderBy d r).output aliases nested groupBy.aliasCount
  let paging ← (Script.paging d r).output aliases nested orderBy.aliasCount
  return { modifiers, select, sources, filters, groupBy, orderBy, paging }

variable {d : Dialect} {r : Clauses Rendering} {aliases : Aliases} {nested : Bool} {count : Nat}

theorem sections_eq_ok_iff {t : Sections} :
    sections d r aliases nested count = .ok t ↔ t.Of d r aliases nested count := by
  constructor
  · intro h
    obtain ⟨modifiers, hmodifiers, h⟩ := bind_eq_ok_iff.mp h
    obtain ⟨select, hselect, h⟩ := bind_eq_ok_iff.mp h
    obtain ⟨sources, hsources, h⟩ := bind_eq_ok_iff.mp h
    obtain ⟨filters, hfilters, h⟩ := bind_eq_ok_iff.mp h
    obtain ⟨groupBy, hgroupBy, h⟩ := bind_eq_ok_iff.mp h
    obtain ⟨orderBy, horderBy, h⟩ := bind_eq_ok_iff.mp h
    obtain ⟨paging, hpaging, h⟩ := bind_eq_ok_iff.mp h
    cases h
    exact ⟨hmodifiers, hselect, hsources, hfilters, hgroupBy, horderBy, hpaging⟩
  · rintro ⟨hmodifiers, hselect, hsources, hfilters, hgroupBy, horderBy, hpaging⟩
    exact bind_eq_ok_iff.mpr ⟨_, hmodifiers, bind_eq_ok_iff.mpr ⟨_, hselect,
      bind_eq_ok_iff.mpr ⟨_, hsources, bind_eq_ok_iff.mpr ⟨_, hfilters,
      bind_eq_ok_iff.mpr ⟨_, hgroupBy, bind_eq_ok_iff.mpr ⟨_, horderBy,
      bind_eq_ok_iff.mpr ⟨_, hpaging, rfl⟩⟩⟩⟩⟩⟩⟩

/-- A check writes nothing. -/
theorem output_check_eq_ok {e : Except Error Unit} {o : Output}
    (h : (check e).output aliases nested count = .ok o) : o = { aliasCount := count } := by
  cases e with
  | error e => cases h
  | ok u => cases h; rfl

theorem output_checkNested_eq_ok {e : Except Error Unit} {o : Output}
    (h : (checkNested e).output aliases nested count = .ok o) : o = { aliasCount := count } := by
  cases nested with
  | false => cases h; rfl
  | true => exact output_check_eq_ok (show (check e).output aliases true count = .ok o from h)

theorem output_checkPaging_eq_ok {o : Output}
    (h : (checkPaging d r).output aliases nested count = .ok o) : o = { aliasCount := count } := by
  rw [checkPaging] at h
  split at h
  · obtain ⟨x, y, hx, hy, rfl⟩ := output_append_eq_ok h
    cases output_checkNested_eq_ok hx
    split at hy
    · cases output_check_eq_ok hy
      rfl
    · cases hy
      rfl
  · cases h
    rfl

/-- What is written for a query are its sections. -/
theorem output_body_eq_ok {o : Output} (h : (body d r).output aliases nested count = .ok o) :
    ∃ t : Sections, t.Of d r aliases nested count ∧ o.pieces = t.pieces
      ∧ o.skipRows = t.skipRows := by
  obtain ⟨x₆, paging, h₆, hpaging, rfl⟩ := output_append_eq_ok h
  obtain ⟨x₅, orderBy, h₅, horderBy, rfl⟩ := output_append_eq_ok h₆
  obtain ⟨x₄, groupBy, h₄, hgroupBy, rfl⟩ := output_append_eq_ok h₅
  obtain ⟨x₃, filters, h₃, hfilters, rfl⟩ := output_append_eq_ok h₄
  obtain ⟨x₂, sources, h₂, hsources, rfl⟩ := output_append_eq_ok h₃
  obtain ⟨x₁, select, h₁, hselect, rfl⟩ := output_append_eq_ok h₂
  obtain ⟨x₀, modifiers, h₀, hmodifiers, rfl⟩ := output_append_eq_ok h₁
  cases h₀
  refine ⟨{ modifiers, select, sources, filters, groupBy, orderBy, paging },
    ⟨hmodifiers, hselect, hsources, hfilters, hgroupBy, horderBy, hpaging⟩, rfl, ?_⟩
  simp only [Output.append, Sections.skipRows, Option.or_none]

end Script

namespace Query

variable {d : Dialect} {q p : Query}

/-- The query whose clauses are written for a query: the query itself, or the one that numbers its
rows. -/
def standIn (d : Dialect) (q : Query) : Except Error Query :=
  if d.Numbers q then numberRows d.name q else .ok q

/-- The aliases in scope of the clauses of a whole statement. -/
def outermost (p : Query) : Aliases :=
  Aliases.bind (fun _ => none) 0 p.binders

/-- The sections of the statement of a query. -/
def sections (d : Dialect) (q : Query) : Except Error Sections := do
  let p ← standIn d q
  Script.sections d (rendering d p) p.outermost false p.binders.length

theorem standIn_of_not_numbers (h : ¬ d.Numbers q) : standIn d q = .ok q :=
  if_neg h

theorem script_eq_standIn (d : Dialect) (q : Query) :
    script d q = Script.checked (standIn d q) fun p => Script.clauses d (rendering d p) := by
  by_cases hq : d.Numbers q
  · rw [script_of_numbers hq, standIn, if_pos hq]
    cases hp : numberRows d.name q with
    | error e => rfl
    | ok p => exact script_eq_clauses (not_numbers_of_numberRows hp)
  · rw [script_eq_clauses hq, standIn_of_not_numbers hq]
    rfl

/-- How a statement of a query was written: clause by clause for `p`, with the sections `t`. -/
structure Written (d : Dialect) (q : Query) (s : Statement) (p : Query) (t : Sections) : Prop where
  standIn : standIn d q = .ok p
  checked : ∀ e ∈ (Script.checkPaging d (rendering d p)).checks false, e = .ok ()
  of : t.Of d (rendering d p) p.outermost false p.binders.length
  pieces : t.pieces = s.pieces
  quote : s.quote = d.quote
  columnCount : s.columnCount = columnCount q
  skipRows : s.skipRows = t.skipRows.getD 0

theorem Written.sections {s : Statement} {t : Sections} (h : Written d q s p t) :
    sections d q = .ok t :=
  bind_eq_ok_iff.mpr ⟨p, h.standIn, Script.sections_eq_ok_iff.mpr h.of⟩

/-- **A statement is made of its sections.** -/
theorem written_of_compile {s : Statement} (h : q.compile d = .ok s) :
    ∃ p t, Written d q s p t := by
  rw [compile_eq] at h
  obtain ⟨_, -, h⟩ := bind_eq_ok_iff.mp h
  obtain ⟨o, ho, h⟩ := bind_eq_ok_iff.mp h
  cases h
  rw [script_eq_standIn] at ho
  cases hp : standIn d q with
  | error e =>
    rw [hp] at ho
    cases ho
  | ok p =>
    rw [hp] at ho
    obtain ⟨x, y, hx, hy, rfl⟩ := Script.output_append_eq_ok ho
    have hchecked := Script.check_eq_ok_of_output_ok hx
    cases Script.output_checkPaging_eq_ok hx
    rw [Script.output, Nat.zero_add, rendering, Clauses.binders_map] at hy
    obtain ⟨t, ht, hpieces, hskip⟩ := Script.output_body_eq_ok hy
    refine ⟨p, t, hp, hchecked, ht, hpieces.symm, rfl, rfl, ?_⟩
    simp only [Output.append, Option.or_none, hskip]

end Query
end SqlCompiler
