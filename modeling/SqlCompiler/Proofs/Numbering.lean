import SqlCompiler.Proofs.ColumnCounts
import SqlCompiler.Proofs.Paging
import SqlCompiler.Proofs.Targets

/-!
# The query that numbers rows

Where rows can be skipped in no other way, a query becomes the source of another one that numbers
its rows.  This moves the ordering keys into the projection and everything else below a new binder,
whatever the query may refer to in the scopes around it.

* `Query.Numberable` — what a query must have: columns that can be listed, and a page whose rows
  have numbers.  Its rows are numbered exactly then (`Query.exists_numberRows_iff`).
* `Query.Wraps` — what the query in its place has in common with it: the symbols it refers to, the
  scopes it is accepted in, the number of its columns.
* `Query.numberRows_exact` — both together.
-/

set_option autoImplicit false
namespace SqlCompiler

namespace RowNumbering

theorem mapError_eq_ok_iff {ε α : Type} {x : Except ε α} {f : ε → Error} {a : α} :
    x.mapError f = .ok a ↔ x = .ok a := by
  cases x <;> simp [Except.mapError]

/-- The columns of a projection can be listed if there is no whole row among them. -/
theorem exists_columns_iff {outer : Symbol} {projection : Option Node} :
    (∃ r, columns .plain outer projection = .ok r)
      ↔ ∃ p, projection = some p ∧ ∀ n ∈ p.columns, n.isRow = false := by
  constructor
  · rintro ⟨r, hr⟩
    obtain ⟨p, hp, hlisted⟩ := columns_eq_ok hr
    obtain ⟨-, hrows, -⟩ := hlisted.columns
    exact ⟨p, hp, by simpa using hrows⟩
  · rintro ⟨⟨s⟩, rfl, hrows⟩
    cases s with
    | row source => cases hrows _ List.mem_cons_self
    | record fields =>
      have hfields : ∀ c ∈ fields, c.value.isRow = false := fun c hc =>
        hrows c.value (List.mem_map_of_mem hc)
      exact ⟨_, if_neg (by simpa [Tree.plain, Node.isRow] using hfields)⟩
    | product items =>
      have hitems : ∀ n ∈ items, n.isRow = false := hrows
      exact ⟨_, if_neg (by simpa [Tree.plain, Node.isRow] using hitems)⟩
    | _ => exact ⟨_, rfl⟩

/-- A row number can be written if it is not beyond the greatest one. -/
theorem exists_bound_iff {n : Nat} : (∃ m, bound .plain n = .ok m) ↔ n ≤ maxRow := by
  refine ⟨fun ⟨_, h⟩ => le_of_bound h, fun h => ⟨_, if_pos ?_⟩⟩
  have hmax : Int64.maxValue.toInt = maxRow := rfl
  omega

/-- The number of the last row of a page can be written if it is not beyond the greatest one, for
then the sum does not overflow either. -/
theorem exists_lastRow_iff {fetch offset : UInt64} :
    (∃ m, (do bound .plain (← lastRow fetch offset)) = .ok m)
      ↔ offset.toNat + fetch.toNat ≤ maxRow := by
  constructor
  · rintro ⟨m, h⟩
    obtain ⟨last, hlast, hbound⟩ := bind_eq_ok_iff.mp h
    exact lastRow_eq_ok hlast ▸ le_of_bound hbound
  · intro h
    have hlast : lastRow fetch offset = .ok (offset.toNat + fetch.toNat) :=
      if_pos (Nat.lt_of_le_of_lt h (by decide))
    obtain ⟨m, hm⟩ := exists_bound_iff.mpr h
    exact ⟨m, bind_eq_ok_iff.mpr ⟨_, hlast, hm⟩⟩

end RowNumbering

namespace Query

open RowNumbering

/-- The rows of a query can be numbered. -/
structure Numberable (q : Query) : Prop where
  /-- There is a projection, and it is no whole row and has none among its columns. -/
  listed : ∃ p, q.projection = some p ∧ ∀ n ∈ p.columns, n.isRow = false
  /-- The rows to skip have numbers. -/
  skipped : (q.offset.getD 0).toNat ≤ maxRow
  /-- So do the rows to fetch behind them. -/
  fetched : ∀ fetch, q.fetch = some fetch → (q.offset.getD 0).toNat + fetch.toNat ≤ maxRow

/-- **Rows are numbered exactly if they can be.** -/
theorem exists_numberRows_iff {dialect : String} {q : Query} :
    (∃ p, numberRows dialect q = .ok p) ↔ q.Numberable := by
  have huntil : (∃ m, (q.fetch.mapM fun fetch => do
        bound .plain (← lastRow fetch (q.offset.getD 0))) = .ok m)
      ↔ ∀ fetch, q.fetch = some fetch → (q.offset.getD 0).toNat + fetch.toNat ≤ maxRow := by
    cases q.fetch with
    | none => exact ⟨fun _ _ h => (nomatch h), fun _ => ⟨none, rfl⟩⟩
    | some fetch =>
      simp only [Option.mapM_some, Option.some.injEq, forall_eq']
      rw [← exists_lastRow_iff]
      constructor
      · rintro ⟨m, h⟩
        obtain ⟨limit, hlimit, -⟩ := bind_eq_ok_iff.mp h
        exact ⟨limit, hlimit⟩
      · rintro ⟨limit, hlimit⟩
        exact ⟨some limit, bind_eq_ok_iff.mpr ⟨limit, hlimit, rfl⟩⟩
  rw [numberRows, page_eq]
  constructor
  · rintro ⟨p, h⟩
    obtain ⟨r, hr, h⟩ := bind_eq_ok_iff.mp h
    obtain ⟨after, hafter, h⟩ := bind_eq_ok_iff.mp h
    obtain ⟨limit, hlimit, -⟩ := bind_eq_ok_iff.mp h
    exact ⟨exists_columns_iff.mp ⟨r, mapError_eq_ok_iff.mp hr⟩, exists_bound_iff.mp ⟨after, hafter⟩,
      huntil.mp ⟨limit, hlimit⟩⟩
  · rintro ⟨hlisted, hskipped, hfetched⟩
    obtain ⟨r, hr⟩ := exists_columns_iff.mpr hlisted
    obtain ⟨after, hafter⟩ := exists_bound_iff.mpr hskipped
    obtain ⟨limit, hlimit⟩ := huntil.mpr hfetched
    exact ⟨_, bind_eq_ok_iff.mpr ⟨r, mapError_eq_ok_iff.mpr hr, bind_eq_ok_iff.mpr ⟨after, hafter,
      bind_eq_ok_iff.mpr ⟨limit, hlimit, rfl⟩⟩⟩⟩

/-- A query whose rows come from another one, which is below a binder of its own. -/
structure Wraps (p q : Query) : Prop where
  /-- Its only generator binds a symbol that is new to the other query, and neither of its two
  levels asks for a part of its rows. -/
  generators : ∃ (outer : Symbol) (inner : Query), p.generators = [⟨outer, .query inner⟩]
    ∧ outer ∉ symbols q ∧ inner.fetch = none ∧ inner.offset = none
  fetch : p.fetch = none
  offset : p.offset = none
  /-- It is accepted wherever the other query is. -/
  accepted : ∀ scope, (Node.query q).checkScope scope = .ok () →
    (Node.query p).checkScope scope = .ok ()
  /-- It refers to the same symbols outside. -/
  free : ∀ s, s ∈ freeSymbols p ↔ s ∈ freeSymbols q
  columnCount : columnCount p = columnCount q

/-- The query in the place of one that numbers its rows is accepted wherever that one is. -/
theorem checkScope_numberRows {dialect : String} {q p : Query} {scope : List Symbol}
    (hp : numberRows dialect q = .ok p) (h : (Node.query q).checkScope scope = .ok ()) :
    (Node.query p).checkScope scope = .ok () := by
  rw [Node.checkScope_eq_ok_iff_free, Node.freeSymbols_query] at h ⊢
  obtain ⟨hfree, hdistinct⟩ := h
  exact ⟨fun s hs => hfree s ((mem_freeSymbols_numberRows hp).mp hs),
    hasDistinctBinders_numberRows hp hdistinct⟩

/-- **Rows are numbered exactly if they can be, and nothing is captured or lost.**  If there is a
slot above those of a query, a query in its place exists exactly if the columns can be listed and
the rows have numbers, and it stands above the old one with a binder that the old one does not
mention: it refers to the same symbols, is accepted in the same scopes and has as many columns. -/
theorem numberRows_exact (dialect : String) (q : Query) (hroom : ∀ s ∈ symbols q, s.HasRoom) :
    ((∃ p, numberRows dialect q = .ok p) ↔ q.Numberable)
      ∧ ∀ p, numberRows dialect q = .ok p → p.Wraps q := by
  refine ⟨exists_numberRows_iff, fun p hp => ?_⟩
  have haccepted : ∀ scope, (Node.query q).checkScope scope = .ok () →
      (Node.query p).checkScope scope = .ok () := fun scope => checkScope_numberRows hp
  have hfree : ∀ s, s ∈ freeSymbols p ↔ s ∈ freeSymbols q := fun s => mem_freeSymbols_numberRows hp
  have hcount := columnCount_numberRows hp
  obtain ⟨_, _, _, _, _, -, -, -, rfl⟩ := numberRows_eq_ok hp
  exact ⟨⟨_, _, rfl, freshSymbol_not_mem hroom, rfl, rfl⟩, rfl, rfl, haccepted, hfree, hcount⟩

/-- A page of the orders of a user, who is bound outside: the numbered rows get a binder above the
slots of both, and the page is accepted where the user is in scope. -/
theorem numberRows_exact_correlated :
    let user : Symbol := ⟨3, 1⟩
    let order : Symbol := ⟨0, 0⟩
    let q : Query := {
      generators := [⟨order, .table "orders"⟩]
      filters := [.binary .eq (.column order "user") (.column user "id")]
      orderBy := [⟨.column order "placed", .ascending⟩]
      projection := some (.mk (.product [.column order "id", .column order "price"]))
      fetch := some 10
      offset := some 5 }
    (∀ s ∈ symbols q, s.HasRoom)
      ∧ ∃ p, numberRows "sqlserver" q = .ok p ∧ p.Wraps q
        ∧ (Node.query p).checkScope [user] = .ok () := by
  intro user order q
  have hroom : ∀ s ∈ symbols q, s.HasRoom := by decide +kernel
  obtain ⟨hexists, hwraps⟩ := numberRows_exact "sqlserver" q hroom
  have hnumberable : q.Numberable := {
    listed := ⟨_, rfl, by decide⟩
    skipped := by decide
    fetched := by
      rintro _ ⟨⟩
      decide }
  obtain ⟨p, hp⟩ := hexists.mpr hnumberable
  have hscope : (Node.query q).checkScope [user] = .ok () := by decide +kernel
  exact ⟨hroom, p, hp, hwraps p hp, (hwraps p hp).accepted [user] hscope⟩

end Query
end SqlCompiler
