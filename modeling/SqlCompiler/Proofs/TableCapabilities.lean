import SqlCompiler.Config.Basic
import SqlCompiler.Proofs.Emission
import SqlCompiler.Schema.Change

/-!
# The capabilities that a table needs

A column for large objects, one for decimals and one with a default value need a capability each,
which is asked for where the column's type and its default are written.  A column that numbers its
rows may be defined in other words, by a type of its own or as a whole, and then nobody asks.

* `Column.demands` — what the definition of a column needs.
* `Column.SkipsType`, `Column.SkipsDefault` — definitions in other words; `supports_typeDemands` and
  `supports_defaultDemands`: all others are asked for what they need.
* `Table.supports_demands_iff` — in the built-in dialects, the columns that get by without a
  capability they need are those that number their rows on SQLite, and on Access if they are given
  no type.
-/

set_option autoImplicit false
namespace SqlCompiler

theorem Dialect.require_eq_ok_iff {d : Dialect} {c : Capability} :
    d.require c = .ok () ↔ d.supports c = true := by
  rw [require]
  split
  · next h => exact ⟨fun _ => h, fun _ => rfl⟩
  · next h => exact ⟨nofun, fun h' => absurd h' h⟩

namespace Schema

namespace Column

/-- What the kind of a column needs. -/
def typeDemands (c : Column) : List Capability :=
  match c.kind with
  | .blob => [.typeBlob]
  | .decimal => [.typeBigDecimal]
  | _ => []

/-- What the default value of a column needs. -/
def defaultDemands (c : Column) : List Capability :=
  if c.default.isSome then [.columnDefaults] else []

/-- What the definition of a column needs. -/
def demands (c : Column) : List Capability :=
  c.typeDemands ++ c.defaultDemands

/-- The column is defined as a whole, without its default value. -/
def SkipsDefault (d : Dialect) (c : Column) : Prop :=
  c.autoIncrement = true ∧ ∃ text, d.tables.autoIncrement = .definition text

/-- The column is defined without the type of its kind. -/
def SkipsType (d : Dialect) (c : Column) : Prop :=
  c.SkipsDefault d ∨ ∃ name, incrementType? d c = some name

end Column

/-! ## Definitions that ask -/

section
variable {d : Dialect} {c : Column}

theorem supports_of_standardType {type : String} (h : standardType d c = .ok type) :
    ∀ capability ∈ c.typeDemands, d.supports capability = true := by
  intro capability hc
  rw [standardType] at h
  rw [Column.typeDemands] at hc
  cases hkind : c.kind
  all_goals rw [hkind] at h hc
  case blob | decimal =>
    obtain ⟨_, hrequire, -⟩ := bind_eq_ok_iff.mp h
    rw [List.mem_singleton.mp hc]
    exact Dialect.require_eq_ok_iff.mp hrequire
  all_goals cases hc

/-- A definition clause by clause has the column's type, and asks for its default value. -/
theorem supports_of_standardDefinition {ps : List Piece} (h : standardDefinition d c = .ok ps) :
    (∃ type, columnType d c = .ok type)
      ∧ ∀ capability ∈ c.defaultDemands, d.supports capability = true := by
  rw [standardDefinition] at h
  obtain ⟨type, htype, h⟩ := bind_eq_ok_iff.mp h
  obtain ⟨default, hdefault, -⟩ := bind_eq_ok_iff.mp h
  refine ⟨⟨type, htype⟩, fun capability hc => ?_⟩
  rw [Column.defaultDemands] at hc
  cases hv : c.default with
  | none => rw [hv] at hc; cases hc
  | some v =>
    rw [hv] at hc hdefault
    rw [List.mem_singleton.mp hc]
    obtain ⟨_, hvalue, -⟩ := bind_eq_ok_iff.mp hdefault
    obtain ⟨_, hrequire, -⟩ := bind_eq_ok_iff.mp hvalue
    exact Dialect.require_eq_ok_iff.mp hrequire

theorem columnDefinition_of_not_skips (h : ¬ c.SkipsDefault d) :
    columnDefinition d c = standardDefinition d c := by
  rw [columnDefinition]
  split
  · next text htext =>
    rw [if_neg fun hc => h ⟨hc, text, htext⟩]
  · rfl

/-- **A definition with a default value asks for it.** -/
theorem supports_defaultDemands {ps : List Piece} (h : columnDefinition d c = .ok ps)
    (hskips : ¬ c.SkipsDefault d) :
    ∀ capability ∈ c.defaultDemands, d.supports capability = true := by
  rw [columnDefinition_of_not_skips hskips] at h
  exact (supports_of_standardDefinition h).2

/-- **A definition with the type of the column's kind asks for it.** -/
theorem supports_typeDemands {ps : List Piece} (h : columnDefinition d c = .ok ps)
    (hskips : ¬ c.SkipsType d) : ∀ capability ∈ c.typeDemands, d.supports capability = true := by
  rw [Column.SkipsType, not_or] at hskips
  rw [columnDefinition_of_not_skips hskips.1] at h
  obtain ⟨type, htype⟩ := (supports_of_standardDefinition h).1
  cases hname : incrementType? d c with
  | some name => exact absurd ⟨name, hname⟩ hskips.2
  | none =>
    rw [columnType, hname] at htype
    exact supports_of_standardType htype

/-- The columns of a table that is created have definitions. -/
theorem Table.columnDefinition_of_create {t : Table} {changes : List Change}
    (h : t.create d = .ok changes) (hc : c ∈ t.columns) : ∃ ps, columnDefinition d c = .ok ps := by
  rw [create] at h
  obtain ⟨columns, hcolumns, -⟩ := bind_eq_ok_iff.mp h
  exact exists_mapM_eq_ok_iff.mp ⟨columns, hcolumns⟩ c hc

end

/-! ## The built-in dialects -/

/-- The columns that nobody asks about their kind: they number their rows, by a definition as a
whole or by a type for every kind. -/
def Column.Unasked (b : Database) (c : Column) : Prop :=
  c.autoIncrement = true ∧ (c.kind = .blob ∨ c.kind = .decimal)
    ∧ (b = .sqlite ∨ b = .access ∧ c.typeName = none)

variable {config : Config} {c : Column}

/-- Only SQLite defines columns as a whole, and it has default values. -/
theorem supports_of_skipsDefault (h : c.SkipsDefault config.dialect) :
    config.dialect.supports .columnDefaults = true := by
  obtain ⟨-, text, htext⟩ := h
  obtain ⟨database, logSql, triggers⟩ := config
  cases database with
  | sqlite => rfl
  | _ => cases htext

theorem Column.typeDemands_ne_nil_iff :
    c.typeDemands ≠ [] ↔ c.kind = .blob ∨ c.kind = .decimal := by
  rw [typeDemands]
  cases c.kind <;> simp

/-- The dialects in which nobody asks about the kind of a column have no such kinds. -/
theorem Column.Unasked.not_supports (h : c.Unasked config.database) :
    ∃ capability ∈ c.typeDemands, config.dialect.supports capability = false := by
  obtain ⟨-, hkind, hdatabase⟩ := h
  obtain ⟨capability, hc⟩ := List.exists_mem_of_ne_nil _ (typeDemands_ne_nil_iff.mpr hkind)
  have hcapability : capability = .typeBlob ∨ capability = .typeBigDecimal := by
    rw [typeDemands] at hc
    rcases hkind with hkind | hkind
    all_goals
      rw [hkind] at hc
      simp [List.mem_singleton.mp hc]
  refine ⟨capability, hc, ?_⟩
  obtain ⟨database, logSql, triggers⟩ := config
  rcases hdatabase with rfl | ⟨rfl, -⟩ <;> rcases hcapability with rfl | rfl <;> rfl

/-- A column of such a kind that is defined in other words is one that nobody asks. -/
theorem Column.unasked_of_skipsType (h : c.SkipsType config.dialect) (hne : c.typeDemands ≠ []) :
    c.Unasked config.database := by
  have hkind := typeDemands_ne_nil_iff.mp hne
  rcases h with ⟨hincrement, text, htext⟩ | ⟨name, hname⟩
  · refine ⟨hincrement, hkind, .inl ?_⟩
    obtain ⟨database, logSql, triggers⟩ := config
    cases database with
    | sqlite => rfl
    | _ => cases htext
  · obtain ⟨database, logSql, triggers⟩ := config
    rw [incrementType?] at hname
    cases database with
    | access =>
      change (if c.autoIncrement && c.typeName.isNone then some "COUNTER" else none) = some name
        at hname
      split at hname
      · next hc =>
        rw [Bool.and_eq_true, Option.isNone_iff_eq_none] at hc
        exact ⟨hc.1, hkind, .inr ⟨rfl, hc.2⟩⟩
      · cases hname
    | postgres =>
      -- the types that number rows are those of integers
      rcases hkind with hkind | hkind
      all_goals
        rw [hkind] at hname
        exact absurd hname (by simp [Config.dialect, Dialect.postgresWith])
    | _ => cases hname

/-- **Which tables are created without a capability they need.**  If a table is created, the dialect
has what each column with a default value needs; and it has all that a column needs unless that
column is of a kind for which the dialect lacks the capability, numbers its rows, and the dialect
is SQLite, or Access and the column is given no type. -/
theorem Table.supports_demands_iff {t : Table} {changes : List Change}
    (h : t.create config.dialect = .ok changes) :
    ∀ c ∈ t.columns,
      (∀ capability ∈ c.defaultDemands, config.dialect.supports capability = true)
      ∧ ((∀ capability ∈ c.demands, config.dialect.supports capability = true)
          ↔ ¬ c.Unasked config.database) := by
  intro c hc
  obtain ⟨ps, hps⟩ := columnDefinition_of_create h hc
  have hdefault : ∀ capability ∈ c.defaultDemands, config.dialect.supports capability = true := by
    by_cases hskips : c.SkipsDefault config.dialect
    · intro capability hcapability
      rw [Column.defaultDemands] at hcapability
      split at hcapability
      · rw [List.mem_singleton.mp hcapability]
        exact supports_of_skipsDefault hskips
      · cases hcapability
    · exact supports_defaultDemands hps hskips
  refine ⟨hdefault, fun hdemands hunasked => ?_, fun hasked capability hcapability => ?_⟩
  · obtain ⟨capability, hcapability, hnot⟩ := hunasked.not_supports
    rw [hdemands capability (List.mem_append_left _ hcapability)] at hnot
    cases hnot
  · rcases List.mem_append.mp hcapability with htype | hdefault'
    · refine supports_typeDemands hps (fun hskips => hasked ?_) capability htype
      exact Column.unasked_of_skipsType hskips (List.ne_nil_of_mem htype)
    · exact hdefault capability hdefault'

/-- A column with a default value, which is asked for, and one for large objects that numbers its
rows. -/
theorem Table.supports_demands_iff_sqlite :
    let data : Column := { name := "data", kind := .blob, autoIncrement := true }
    let total : Column := { name := "total", kind := .int, default := some (.int 0) }
    let t : Table := { name := "t", columns := [total, data] }
    let config : Config := { database := .sqlite }
    (∃ changes, t.create config.dialect = .ok changes)
      ∧ (∀ capability ∈ total.demands, config.dialect.supports capability = true)
      ∧ ¬ ∀ capability ∈ data.demands, config.dialect.supports capability = true := by
  intro data total t config
  have h : ∃ changes, t.create config.dialect = .ok changes := ⟨_, rfl⟩
  obtain ⟨changes, hchanges⟩ := h
  have hcolumns := supports_demands_iff hchanges
  have htotal : ¬ total.Unasked .sqlite := fun h => Bool.false_ne_true h.1
  have hdata : data.Unasked .sqlite := ⟨rfl, .inl rfl, .inl rfl⟩
  refine ⟨⟨changes, hchanges⟩, ?_, ?_⟩
  · exact (hcolumns total List.mem_cons_self).2.mpr htotal
  · intro hdemands
    exact (hcolumns data (List.mem_cons_of_mem _ List.mem_cons_self)).2.mp hdemands hdata

/-- **SQLite creates a column for large objects, which it does not have**, if it numbers the rows;
and Access one for decimals. -/
theorem Table.create_skips_capabilities :
    let object : Column := { name := "data", kind := .blob, autoIncrement := true }
    let decimal : Column := { name := "n", kind := .decimal, autoIncrement := true }
    let objects : Table := ⟨"t", [object], none, [], []⟩
    let decimals : Table := ⟨"t", [decimal], none, [], []⟩
    (∃ changes, objects.create .sqlite = .ok changes
      ∧ changes.map (Change.text .sqlite)
        = ["create table \"t\" (\"data\" INTEGER PRIMARY KEY AUTOINCREMENT)"]
      ∧ Dialect.sqlite.supports .typeBlob = false)
    ∧ ∃ changes, decimals.create .access = .ok changes
      ∧ changes.map (Change.text .access) = ["create table [t] ([n] COUNTER NOT NULL)"]
      ∧ Dialect.access.supports .typeBigDecimal = false := by
  intro object decimal objects decimals
  exact ⟨⟨_, rfl, by decide +kernel, rfl⟩, ⟨_, rfl, by decide +kernel, rfl⟩⟩

end Schema
end SqlCompiler
