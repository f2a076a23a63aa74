import SqlCompiler.Proofs.Orders
import SqlCompiler.Proofs.Rendering
import SqlCompiler.Proofs.Texts

/-!
# Where nulls are placed

The keys of an order can say that nulls come first or last.  Some databases have words for that,
the others need a further key before the key: a case expression, a test for null or a conditional
call, each with its own numbers and direction.  Whichever way it is put, it means the same.

The expression of a key may be written twice, and not in the same way: a subquery in it has other
aliases the second time.  So what is written for an order is described by a text with places for
the keys, into which whatever is written for the keys is filled.

* `NullKeys.text`, `NullKeys.termsFrom` — the text for the keys of an order, and the terms that it
  is read as (`NullKeys.read?_text`), which compare rows as intended
  (`NullKeys.compareAll_termsFrom`).
* `Script.Fills`, `Script.fills_sortKeys` — scripts that write such a text.
* `Script.Succeeds`, `Script.succeeds_orderBy` — an order can be written if its keys can.
* `Database.places_nulls` — on every database, orders place nulls as intended.
-/

set_option autoImplicit false
namespace SqlCompiler

universe u

/-! ## Keys as they are written and read -/

namespace NullKeys

/-- A key as it is written. -/
def keyText (n : NullKeys) (o : SortOrder) (i : Nat) : List Glyph :=
  (match n.extraKey? o.nulls with
    | some (before, behind) => Glyph.ofString before ++ .key i :: Glyph.ofString behind
    | none => [])
  ++ .key i :: (Glyph.ofString (if o.isDescending then " desc" else "")
    ++ Glyph.ofString (n.suffix o.nulls))

/-- The term that takes the nulls of a key to one end, if they are not moved by words: a number for
null, one for every other value, and a direction. -/
def test? : NullKeys → NullPlacement → Option (Nat × Nat × Direction)
  | _, .unspecified => none
  | native, _ => none
  | isnull, .first => some (1, 0, .descending)
  | isnull, .last => some (1, 0, .ascending)
  | _, .first => some (0, 1, .ascending)
  | _, .last => some (1, 0, .ascending)

/-- The terms that a key is read as. -/
def terms (n : NullKeys) (o : SortOrder) (i : Nat) : List OrderTerm :=
  match n.test? o.nulls with
  | some (ifNull, otherwise, direction) =>
    [⟨.test i ifNull otherwise, direction, .unspecified⟩, ⟨.key i, o.direction, .unspecified⟩]
  | none => [⟨.key i, o.direction, if n = native then o.nulls else .unspecified⟩]

/-- The text of a key is read as its terms. -/
theorem read?_keyText (n : NullKeys) (o : SortOrder) (i : Nat) :
    OrderTerm.read? (n.keyText o i) = some (n.terms o i) := by
  obtain ⟨direction, nulls⟩ := o
  -- only the position of the key varies in each of these texts, and reading keeps it as it is
  cases n <;> cases direction <;> cases nulls <;> rfl

/-- The number for null goes to the side where nulls belong. -/
theorem orient_test {n : NullKeys} {p : NullPlacement} {ifNull otherwise : Nat} {d : Direction}
    (h : n.test? p = some (ifNull, otherwise, d)) :
    d.orient (compare ifNull otherwise) = p.compareNull .eq := by
  cases n <;> cases p <;> cases h <;> rfl

/-- Nulls that no test moves are moved by words. -/
theorem eq_native_of_test {n : NullKeys} {p : NullPlacement} (hp : p ≠ .unspecified)
    (h : n.test? p = none) : n = native := by
  cases n with
  | native => rfl
  | cases | isnull | iif =>
    cases p with
    | unspecified => exact absurd rfl hp
    | first | last => cases h

/-- **The terms of a key compare rows as intended.** -/
theorem compareAll_terms (n : NullKeys) {o : SortOrder} (h : o.nulls ≠ .unspecified) (i : Nat)
    {α : Nat → Type u} [∀ i, LinearOrder (α i)] (likes : ∀ i, Direction → α i → Ordering)
    (r s : ∀ i, Option (α i)) :
    OrderTerm.compareAll likes r s (n.terms o i) = o.compare (r i) (s i) := by
  rw [terms]
  cases htest : n.test? o.nulls with
  | none =>
    rw [if_pos (eq_native_of_test h htest)]
    simp only [OrderTerm.compareAll, OrderTerm.compare, Ordering.then_eq]
    exact OrderValue.compare_said h _ _ _
  | some t =>
    simp only [OrderTerm.compareAll, OrderTerm.compare, Ordering.then_eq]
    exact OrderValue.compare_tested h (orient_test htest) _ _ _

/-- Keys as they are written behind others. -/
def textAfter (n : NullKeys) : Nat → List SortOrder → List Glyph
  | _, [] => []
  | i, o :: orders => Glyph.ofString ", " ++ n.keyText o i ++ n.textAfter (i + 1) orders

/-- Keys as they are written. -/
def text (n : NullKeys) : List SortOrder → List Glyph
  | [] => []
  | o :: orders => n.keyText o 0 ++ n.textAfter 1 orders

/-- The terms that keys are read as. -/
def termsFrom (n : NullKeys) : Nat → List SortOrder → List OrderTerm
  | _, [] => []
  | i, o :: orders => n.terms o i ++ n.termsFrom (i + 1) orders

theorem keyText_ne_nil (n : NullKeys) (o : SortOrder) (i : Nat) : n.keyText o i ≠ [] := by
  simp [keyText]

/-- The parentheses in the text of a key are closed. -/
theorem level_keyText (n : NullKeys) (o : SortOrder) (i : Nat) :
    (OrderToken.tokens [] (n.keyText o i)).foldl OrderToken.step 0 = 0 := by
  obtain ⟨direction, nulls⟩ := o
  cases n <;> cases direction <;> cases nulls <;> rfl

theorem read?_keyText_append (n : NullKeys) (orders : List SortOrder) : ∀ (o : SortOrder) (i : Nat),
    OrderTerm.read? (n.keyText o i ++ n.textAfter (i + 1) orders)
      = some (n.termsFrom i (o :: orders)) := by
  induction orders with
  | nil =>
    intro o i
    rw [textAfter, List.append_nil, termsFrom, termsFrom, List.append_nil, read?_keyText]
  | cons o' orders ih =>
    intro o i
    rw [textAfter, List.append_assoc, ← List.append_assoc, termsFrom]
    exact OrderTerm.read?_append (n.keyText_ne_nil o i) (by simp [keyText_ne_nil])
      (n.level_keyText o i) (n.read?_keyText o i) (ih o' (i + 1))

/-- **The text of keys is read as their terms, one key after the other.** -/
theorem read?_text (n : NullKeys) (orders : List SortOrder) :
    OrderTerm.read? (n.text orders) = some (n.termsFrom 0 orders) := by
  cases orders with
  | nil => rfl
  | cons o orders => exact n.read?_keyText_append orders o 0

/-- **The terms of keys compare rows as intended.** -/
theorem compareAll_termsFrom (n : NullKeys) {α : Nat → Type u} [∀ i, LinearOrder (α i)]
    (likes : ∀ i, Direction → α i → Ordering) (r s : ∀ i, Option (α i)) {orders : List SortOrder}
    (h : ∀ o ∈ orders, o.nulls ≠ .unspecified) : ∀ i,
    OrderTerm.compareAll likes r s (n.termsFrom i orders)
      = SortOrder.compareFrom r s i orders := by
  induction orders with
  | nil => intro i; rfl
  | cons o orders ih =>
    intro i
    have hrest := ih fun o' ho' => h o' (List.mem_cons_of_mem o ho')
    rw [termsFrom, OrderTerm.compareAll_append, SortOrder.compareFrom,
      n.compareAll_terms (h o List.mem_cons_self), hrest]

end NullKeys

/-! ## What is written for an order -/

namespace Script

section
variable {names : Text.Quote} {writes : Nat → String → Prop} {aliases : Aliases} {nested : Bool}

/-- What a script writes is a text whose keys are filled in. -/
def Fills (names : Text.Quote) (writes : Nat → String → Prop) (aliases : Aliases) (nested : Bool)
    (gs : List Glyph) (σ : Script) : Prop :=
  ∀ count o, σ.output aliases nested count = .ok o →
    Glyph.Filled writes gs (Piece.joined names o.pieces)

theorem fills_done : Fills names writes aliases nested [] done := by
  rintro count o ⟨⟩
  exact .nil

theorem fills_words (s : String) :
    Fills names writes aliases nested (Glyph.ofString s) (words s) := by
  rintro count o ⟨⟩
  rw [Piece.joined_singleton]
  exact .ofString s

theorem fills_wordsIfAny (s : String) :
    Fills names writes aliases nested (Glyph.ofString s) (wordsIfAny s) := by
  rw [wordsIfAny]
  split
  · next h =>
    rw [String.isEmpty_iff.mp h]
    exact fills_done
  · exact fills_words s

theorem fills_append {gs hs : List Glyph} {σ τ : Script}
    (hσ : Fills names writes aliases nested gs σ) (hτ : Fills names writes aliases nested hs τ) :
    Fills names writes aliases nested (gs ++ hs) (σ ++ τ) := by
  intro count o h
  obtain ⟨x, y, hx, hy, rfl⟩ := output_append_eq_ok h
  rw [Output.append, Piece.joined_append]
  exact (hσ _ _ hx).append (hτ _ _ hy)

theorem fills_sortKey {d : Dialect} {k : SortKey Rendering} {i : Nat}
    (hkey : Fills names writes aliases nested [.key i] k.key.script) :
    Fills names writes aliases nested (d.nullKeys.keyText k.order i) (sortKey d k) := by
  -- the expression stands in the additional key, if there is one, and once more for itself
  have hextra : Fills names writes aliases nested
      (match d.nullKeys.extraKey? k.order.nulls with
        | some (before, behind) => Glyph.ofString before ++ .key i :: Glyph.ofString behind
        | none => [])
      (match d.nullKeys.extraKey? k.order.nulls with
        | some (before, behind) => words before ++ k.key.script ++ words behind
        | none => done) := by
    split
    · next before behind _ =>
      have h := fills_append (fills_append (fills_words before) hkey) (fills_words behind)
      rwa [List.append_assoc, List.singleton_append] at h
    · exact fills_done
  have hdirection : Fills names writes aliases nested
      (Glyph.ofString (if k.order.isDescending then " desc" else ""))
      (if k.order.isDescending then words " desc" else done) := by
    split
    · exact fills_words " desc"
    · exact fills_done
  have h := fills_append (fills_append (fills_append hextra hkey) hdirection)
    (fills_wordsIfAny (d.nullKeys.suffix k.order.nulls))
  simp only [List.append_assoc, List.singleton_append] at h
  exact h

theorem fills_eachAfter {d : Dialect} {keys : List (SortKey Rendering)} : ∀ {i : Nat},
    (∀ j k, keys[j]? = some k → Fills names writes aliases nested [.key (i + j)] k.key.script) →
    Fills names writes aliases nested (d.nullKeys.textAfter i (keys.map SortKey.order))
      (eachAfter ", " (keys.map (sortKey d))) := by
  induction keys with
  | nil => intro i _; exact fills_done
  | cons k keys ih =>
    intro i h
    refine fills_append (fills_append (fills_words ", ") (fills_sortKey (h 0 k rfl))) (ih ?_)
    intro j k' hk'
    have hkey := h (j + 1) k' hk'
    rwa [← Nat.add_assoc, Nat.add_right_comm] at hkey

/-- **What is written for keys is their text**, with something that is written for each of them
in its place. -/
theorem fills_sortKeys {d : Dialect} {keys : List (SortKey Rendering)}
    (h : ∀ i k, keys[i]? = some k → Fills names writes aliases nested [.key i] k.key.script) :
    Fills names writes aliases nested (d.nullKeys.text (keys.map SortKey.order))
      (sortKeys d keys) := by
  cases keys with
  | nil => exact fills_done
  | cons k keys =>
    refine fills_append (fills_sortKey (h 0 k rfl)) (fills_eachAfter fun j k' hk' => ?_)
    rw [Nat.add_comm]
    exact h (j + 1) k' hk'

end

/-! ## Orders that can be written -/

/-- A script succeeds, whatever the number of the next alias is. -/
def Succeeds (aliases : Aliases) (nested : Bool) (σ : Script) : Prop :=
  ∀ count, ∃ o, σ.output aliases nested count = .ok o

section
variable {aliases : Aliases} {nested : Bool}

theorem succeeds_of_output {σ : Script} {count : Nat} {o : Output}
    (h : σ.output aliases nested count = .ok o) : Succeeds aliases nested σ :=
  exists_output_of_output h

@[simp]
theorem succeeds_done : Succeeds aliases nested done :=
  fun _ => ⟨_, rfl⟩

@[simp]
theorem succeeds_words (s : String) : Succeeds aliases nested (words s) :=
  fun _ => ⟨_, rfl⟩

@[simp]
theorem succeeds_append {σ τ : Script} :
    Succeeds aliases nested (σ ++ τ) ↔ Succeeds aliases nested σ ∧ Succeeds aliases nested τ := by
  constructor
  · intro h
    obtain ⟨o, ho⟩ := h 0
    obtain ⟨x, y, hx, hy, -⟩ := output_append_eq_ok ho
    exact ⟨succeeds_of_output hx, succeeds_of_output hy⟩
  · rintro ⟨hσ, hτ⟩ count
    obtain ⟨x, hx⟩ := hσ count
    obtain ⟨y, hy⟩ := hτ x.aliasCount
    exact ⟨x.append y, bind_eq_ok_iff.mpr ⟨x, hx, bind_eq_ok_iff.mpr ⟨y, hy, rfl⟩⟩⟩

@[simp]
theorem succeeds_wordsIfAny (s : String) : Succeeds aliases nested (wordsIfAny s) := by
  rw [wordsIfAny]
  split <;> simp

theorem succeeds_sortKey {d : Dialect} {k : SortKey Rendering} :
    Succeeds aliases nested (sortKey d k) ↔ Succeeds aliases nested k.key.script := by
  rw [sortKey]
  cases d.nullKeys.extraKey? k.order.nulls <;> cases k.order.isDescending <;> simp

theorem succeeds_eachAfter {separator : String} {items : List Script} :
    Succeeds aliases nested (eachAfter separator items)
      ↔ ∀ σ ∈ items, Succeeds aliases nested σ := by
  induction items with
  | nil => simp [eachAfter, each]
  | cons σ items ih =>
    rw [List.forall_mem_cons, ← ih, eachAfter, List.map_cons, each, succeeds_append,
      succeeds_append, and_iff_right (succeeds_words separator)]
    rfl

theorem succeeds_separated {separator : String} {items : List Script} :
    Succeeds aliases nested (separated separator items)
      ↔ ∀ σ ∈ items, Succeeds aliases nested σ := by
  cases items with
  | nil => simp [separated]
  | cons σ items =>
    rw [separated, succeeds_append, succeeds_eachAfter, List.forall_mem_cons]

/-- An order can be written exactly if each of its keys can. -/
theorem succeeds_orderBy {d : Dialect} {q : Clauses Rendering} :
    Succeeds aliases nested (orderBy d q)
      ↔ ∀ k ∈ q.orderBy, Succeeds aliases nested k.key.script := by
  have hkeys : Succeeds aliases nested (sortKeys d q.orderBy)
      ↔ ∀ k ∈ q.orderBy, Succeeds aliases nested k.key.script := by
    rw [sortKeys, succeeds_separated, List.forall_mem_map]
    exact forall₂_congr fun k _ => succeeds_sortKey
  rw [← hkeys, orderBy]
  split
  · next hnil => simp [hnil, sortKeys, separated]
  · rw [succeeds_append, and_iff_right (succeeds_words _)]

end
end Script

/-! ## Orders -/

/-- What is written for a node where a context stands, with whatever number for the next alias. -/
def Node.WritesAt (d : Dialect) (c : Context) (n : Node) (e : String) : Prop :=
  ∃ count c', (n.rendering d).write.run { c with aliasCount := count } = .ok () c'
    ∧ c'.text d.quote = c.text d.quote ++ e

theorem Node.writesAt_of_output {d : Dialect} {c : Context} {n : Node} {count : Nat} {o : Output}
    (h : (n.script d).output c.aliases (decide (0 < c.depth)) count = .ok o) :
    n.WritesAt d c (Piece.joined d.quote o.pieces) :=
  ⟨count, _, Script.run_eq_ok_iff.mpr ⟨o, h, rfl⟩, Context.text_after d.quote _ o⟩

theorem Node.exists_writesAt_iff {d : Dialect} {c : Context} {n : Node} :
    (∃ e, n.WritesAt d c e)
      ↔ (n.script d).Succeeds c.aliases (decide (0 < c.depth)) := by
  constructor
  · rintro ⟨e, count, c', hrun, -⟩
    obtain ⟨o, ho, -⟩ := Script.run_eq_ok_iff.mp hrun
    exact Script.succeeds_of_output ho
  · intro h
    obtain ⟨o, ho⟩ := h 0
    exact ⟨_, writesAt_of_output ho⟩

namespace Query

variable {d : Dialect} {q : Query} {c c' : Context}

/-- What is written for the key at a position, where a context stands. -/
def WritesKey (d : Dialect) (c : Context) (q : Query) (i : Nat) (e : String) : Prop :=
  ∃ k, q.orderBy[i]? = some k ∧ k.key.WritesAt d c e

theorem orderBy_rendering (d : Dialect) (q : Query) :
    (rendering d q).orderBy = q.orderBy.map fun k => ⟨k.key.rendering d, k.order⟩ :=
  rfl

theorem map_order_rendering (d : Dialect) (q : Query) :
    (rendering d q).orderBy.map SortKey.order = q.orderBy.map SortKey.order := by
  rw [orderBy_rendering, List.map_map]
  rfl

/-- What is written for the keys of a query is their text. -/
theorem fills_sortKeys (d : Dialect) (c : Context) (q : Query) :
    Script.Fills d.quote (q.WritesKey d c) c.aliases (decide (0 < c.depth))
      (d.nullKeys.text (q.orderBy.map SortKey.order))
      (Script.sortKeys d (rendering d q).orderBy) := by
  rw [← map_order_rendering d]
  refine Script.fills_sortKeys fun i k hk count o ho => ?_
  rw [orderBy_rendering, List.getElem?_map, Option.map_eq_some_iff] at hk
  obtain ⟨k, hk, rfl⟩ := hk
  rw [← String.append_empty (s := Piece.joined d.quote o.pieces)]
  exact .key ⟨k, hk, Node.writesAt_of_output ho⟩ .nil

theorem exists_run_orderBy_iff :
    (∃ c', (Render.orderBy d (rendering d q)).run c = .ok () c')
      ↔ ∀ k ∈ q.orderBy, ∃ e, k.key.WritesAt d c e := by
  have hsucceeds : (Script.orderBy d (rendering d q)).Succeeds c.aliases (decide (0 < c.depth))
      ↔ ∀ k ∈ q.orderBy, ∃ e, k.key.WritesAt d c e := by
    rw [Script.succeeds_orderBy, orderBy_rendering, List.forall_mem_map]
    exact forall₂_congr fun k _ => Node.exists_writesAt_iff.symm
  rw [← hsucceeds]
  constructor
  · rintro ⟨c', hrun⟩
    obtain ⟨o, ho, -⟩ := Script.run_eq_ok_iff.mp hrun
    exact Script.succeeds_of_output ho
  · intro h
    obtain ⟨o, ho⟩ := h c.aliasCount
    exact ⟨_, Script.run_eq_ok_iff.mpr ⟨o, ho, rfl⟩⟩

/-- An order is its keys behind two words, or nothing if there are no keys. -/
theorem filled_orderBy (h : (Render.orderBy d (rendering d q)).run c = .ok () c') :
    ∃ t, Glyph.Filled (q.WritesKey d c) (d.nullKeys.text (q.orderBy.map SortKey.order)) t
      ∧ c'.text d.quote
        = c.text d.quote ++ if q.orderBy = [] then "" else " order by " ++ t := by
  obtain ⟨o, ho, rfl⟩ := Script.run_eq_ok_iff.mp h
  have hkeys := q.fills_sortKeys d c
  rw [c.text_after]
  by_cases hnil : q.orderBy = []
  · have hnothing : Script.orderBy d (rendering d q) = .done := by
      rw [Script.orderBy, orderBy_rendering, hnil]
      rfl
    rw [hnothing] at ho
    cases ho
    rw [hnil]
    exact ⟨"", .nil, rfl⟩
  · have hwords : Script.orderBy d (rendering d q)
        = .words " order by " ++ Script.sortKeys d (rendering d q).orderBy := by
      rw [Script.orderBy]
      split
      · next hempty => exact absurd (List.map_eq_nil_iff.mp hempty) hnil
      · rfl
    rw [hwords] at ho
    obtain ⟨x, y, hx, hy, rfl⟩ := Script.output_append_eq_ok ho
    cases hx
    refine ⟨_, hkeys _ _ hy, ?_⟩
    rw [if_neg hnil, Output.append, Piece.joined_append, Piece.joined_singleton]
    rfl

/-- The order of row numbers is the same text between other words. -/
theorem filled_rowNumber (hkeys : q.orderBy ≠ [])
    (h : (Render.rowNumber d (rendering d q).orderBy).run c = .ok () c') :
    ∃ t, Glyph.Filled (q.WritesKey d c) (d.nullKeys.text (q.orderBy.map SortKey.order)) t
      ∧ c'.text d.quote = c.text d.quote ++ ("row_number() over(order by " ++ t ++ ")") := by
  obtain ⟨o, ho, rfl⟩ := Script.run_eq_ok_iff.mp h
  rw [c.text_after]
  rw [Script.rowNumber] at ho
  split at ho
  · rw [if_neg (by simpa [orderBy_rendering] using hkeys)] at ho
    obtain ⟨x, y, hx, hy, rfl⟩ := Script.output_append_eq_ok ho
    obtain ⟨u, v, hu, hv, rfl⟩ := Script.output_append_eq_ok hx
    cases hu
    cases hy
    refine ⟨_, q.fills_sortKeys d c _ _ hv, ?_⟩
    simp only [Output.append, Piece.joined_append, Piece.joined_singleton]
    rfl
  · cases ho

end Query

/-- **Nulls are placed as intended, on every database.**  Whatever the keys of an order are, if
each of them says where its nulls go, then there is one text with places for the keys that is
written for the order.  Read as an order, it compares rows as intended, no matter where the
database likes to put nulls.  The order can be written if its keys can, and the numbers of rows are
in the same order. -/
theorem Database.places_nulls (b : Database) (orders : List SortOrder)
    (hnulls : ∀ o ∈ orders, o.nulls ≠ .unspecified) :
    ∃ text terms, OrderTerm.read? text = some terms
      ∧ (∀ (α : Nat → Type u) [∀ i, LinearOrder (α i)] (likes : ∀ i, Direction → α i → Ordering)
          (r s : ∀ i, Option (α i)),
          OrderTerm.compareAll likes r s terms = SortOrder.compareFrom r s 0 orders)
      ∧ ∀ (q : Query) (c : Context), q.orderBy.map SortKey.order = orders →
          ((∃ c', (Render.orderBy b.dialect (q.rendering b.dialect)).run c = .ok () c')
            ↔ ∀ k ∈ q.orderBy, ∃ e, k.key.WritesAt b.dialect c e)
          ∧ (∀ c', (Render.orderBy b.dialect (q.rendering b.dialect)).run c = .ok () c' →
            ∃ t, Glyph.Filled (q.WritesKey b.dialect c) text t
              ∧ c'.text b.dialect.quote = c.text b.dialect.quote
                ++ if q.orderBy = [] then "" else " order by " ++ t)
          ∧ ∀ c', q.orderBy ≠ [] →
            (Render.rowNumber b.dialect (q.rendering b.dialect).orderBy).run c = .ok () c' →
            ∃ t, Glyph.Filled (q.WritesKey b.dialect c) text t
              ∧ c'.text b.dialect.quote = c.text b.dialect.quote
                ++ ("row_number() over(order by " ++ t ++ ")") := by
  let n := b.dialect.nullKeys
  refine ⟨n.text orders, n.termsFrom 0 orders, n.read?_text orders,
    fun α _ likes r s => n.compareAll_termsFrom likes r s hnulls 0, ?_⟩
  rintro q c rfl
  exact ⟨Query.exists_run_orderBy_iff, fun c' => Query.filled_orderBy,
    fun c' => Query.filled_rowNumber⟩

/-- On MySQL a test for null stands before each of these keys, ascending before the one and
descending before the other. -/
theorem Database.places_nulls_mysql :
    let x : Symbol := ⟨0, 0⟩
    let age : SortOrder := ⟨.descending, .last⟩
    let name : SortOrder := ⟨.ascending, .first⟩
    let q : Query := { orderBy := [⟨.column x "age", age⟩, ⟨.column x "name", name⟩] }
    let c : Context := { aliases := fun _ => some (.numbered 1) }
    let keys := "isnull(x1.`age`), x1.`age` desc, isnull(x1.`name`) desc, x1.`name`"
    (∀ o ∈ [age, name], o.nulls ≠ .unspecified) ∧ q.orderBy.map SortKey.order = [age, name]
      ∧ ∃ text terms c', OrderTerm.read? text = some terms
        ∧ (∀ (α : Nat → Type) [∀ i, LinearOrder (α i)] (likes : ∀ i, Direction → α i → Ordering)
            (r s : ∀ i, Option (α i)),
            OrderTerm.compareAll likes r s terms = SortOrder.compareFrom r s 0 [age, name])
        ∧ (Render.orderBy .mysql (q.rendering .mysql)).run c = .ok () c'
        ∧ Glyph.Filled (q.WritesKey .mysql c) text keys
        ∧ c'.text .backquotes = " order by " ++ keys := by
  intro x age name q c keys
  have hnulls : ∀ o ∈ [age, name], o.nulls ≠ .unspecified := by decide
  obtain ⟨text, terms, hread, hcompare, hwritten⟩ := mysql.places_nulls [age, name] hnulls
  obtain ⟨-, hfilled, -⟩ := hwritten q c rfl
  let σ := Script.orderBy .mysql (q.rendering .mysql)
  have hpieces : (σ.output c.aliases false 0).toOption.map (Piece.joined .backquotes ·.pieces)
      = some (" order by " ++ keys) := by
    decide +kernel
  cases ho : σ.output c.aliases false 0 with
  | error e => rw [ho] at hpieces; cases hpieces
  | ok o =>
    rw [ho] at hpieces
    have hrun : (Render.orderBy .mysql (q.rendering .mysql)).run c = .ok () (c.after o) :=
      Script.run_eq_ok_iff.mpr ⟨o, ho, rfl⟩
    have htext : (c.after o).text .backquotes = " order by " ++ keys := by
      rw [c.text_after, ← Option.some.inj hpieces]
      exact String.empty_append
    obtain ⟨t, ht, htext'⟩ := hfilled _ hrun
    rw [if_neg (List.cons_ne_nil _ _)] at htext'
    have hkeys : t = keys := by
      have h : "" ++ (" order by " ++ t) = " order by " ++ keys := htext'.symm.trans htext
      rwa [String.empty_append, String.append_right_inj] at h
    exact ⟨hnulls, rfl, text, terms, c.after o, hread, hcompare, hrun, hkeys ▸ ht, htext⟩

end SqlCompiler
