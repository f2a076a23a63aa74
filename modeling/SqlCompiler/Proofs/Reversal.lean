import SqlCompiler.Proofs.Refreshing

/-!
# Renaming back

The generators of a query are renamed, and then renamed back.  The two renamings do not go the same
way through the query: the first one stops at a nested query that binds a renamed symbol again, and
the second one is stopped nowhere, because nothing binds the new symbols but the query itself.

What makes up for the difference is that the new symbols are new.  Where the first renaming stopped,
there are none of them, and the second one finds nothing to do.

* `Renaming.inverse` — the new symbols renamed to the old ones.
* `Renaming.Undoes` — one renaming takes back another on some symbols, those that it leaves alone
  included; this passes into a query that hides some of the symbols (`Undoes.without`).
* `Node.rename_rename` — then it takes it back on every tree with these symbols.
* `Query.renameBinders_inverse` — the inverse of an injective renaming to new symbols takes it back.
-/

set_option autoImplicit false
namespace SqlCompiler

namespace Renaming

variable {r back : Renaming} {s t : Symbol}

/-- The symbols that have a new name. -/
def domain (r : Renaming) : List Symbol :=
  r.map Prod.fst

/-- The renaming of the new symbols to the old ones. -/
def inverse (r : Renaming) : Renaming :=
  r.domain.map fun s => (r.apply s, s)

/-- A symbol has a name if all pairs for it agree on the name. -/
theorem apply_of_forall (hs : s ∈ r.domain) (h : ∀ pair ∈ r, pair.1 = s → pair.2 = t) :
    r.apply s = t := by
  have hstart : ∀ start, s ∈ r.domain ∨ start = t →
      r.foldl (fun result pair => if pair.1 = s then pair.2 else result) start = t := by
    clear hs
    induction r with
    | nil => rintro start (hs | rfl) <;> [cases hs; rfl]
    | cons pair r ih =>
      intro start hs
      obtain ⟨hpair, hr⟩ := List.forall_mem_cons.mp h
      rw [List.foldl_cons]
      refine ih hr _ ?_
      by_cases heq : pair.1 = s
      · exact .inr ((if_pos heq).trans (hpair heq))
      · rw [if_neg heq]
        exact hs.imp_left fun hs => (List.mem_cons.mp hs).resolve_left (Ne.symm heq)
  exact hstart s (.inl hs)

/-- A name of an injective renaming is renamed back. -/
theorem apply_inverse (hinjective : ∀ s ∈ r.domain, ∀ t ∈ r.domain, r.apply s = r.apply t → s = t)
    (hs : s ∈ r.domain) : r.inverse.apply (r.apply s) = s := by
  refine apply_of_forall ?_ fun pair hpair heq => ?_
  · exact List.mem_map.mpr ⟨_, List.mem_map_of_mem hs, rfl⟩
  · obtain ⟨t, ht, rfl⟩ := List.mem_map.mp hpair
    exact hinjective t ht s hs heq

theorem apply_inverse_of_not_name (h : ∀ t ∈ r.domain, r.apply t ≠ s) : r.inverse.apply s = s := by
  refine apply_of_not_mem fun hs => ?_
  obtain ⟨pair, hpair, rfl⟩ := List.mem_map.mp hs
  obtain ⟨t, ht, rfl⟩ := List.mem_map.mp hpair
  exact h t ht rfl

/-- A renaming takes back another one on some symbols: it leaves all of them alone, and the other
one leaves a symbol alone too or gives it a name that is none of them, which is renamed back. -/
def Undoes (back r : Renaming) (symbols : List Symbol) : Prop :=
  ∀ s ∈ symbols, back.apply s = s
    ∧ (r.apply s = s ∨ r.apply s ∉ symbols ∧ back.apply (r.apply s) = s)

namespace Undoes

variable {symbols symbols' : List Symbol}

theorem apply_apply (h : back.Undoes r symbols) (hs : s ∈ symbols) :
    back.apply (r.apply s) = s := by
  obtain ⟨hback, heq | ⟨-, h⟩⟩ := h s hs
  · rw [heq, hback]
  · exact h

theorem mono (h : back.Undoes r symbols) (hsubset : symbols' ⊆ symbols) :
    back.Undoes r symbols' := by
  intro s hs
  obtain ⟨hback, h⟩ := h s (hsubset hs)
  exact ⟨hback, h.imp_right (And.imp_left fun hnot hname => hnot (hsubset hname))⟩

/-- **Where some of the symbols are bound again, the rest is still taken back.** -/
theorem without (h : back.Undoes r symbols) {hidden : List Symbol} (hhidden : hidden ⊆ symbols) :
    (back.without hidden).Undoes (r.without hidden) symbols := by
  intro s hs
  obtain ⟨hback, h⟩ := h s hs
  simp only [apply_without]
  by_cases hmem : s ∈ hidden
  · simp only [if_pos hmem, true_or, and_self]
  · -- a new name is none of the symbols, so it is not bound again
    simp only [if_neg hmem]
    refine ⟨hback, h.imp_right fun ⟨hnew, h⟩ => ⟨hnew, ?_⟩⟩
    rw [if_neg fun hname => hnew (hhidden hname)]
    exact h

end Undoes

/-- The inverse of an injective renaming to new symbols takes it back. -/
theorem undoes_inverse {symbols : List Symbol}
    (hinjective : ∀ s ∈ r.domain, ∀ t ∈ r.domain, r.apply s = r.apply t → s = t)
    (hnew : ∀ s ∈ r.domain, r.apply s ∉ symbols) : r.inverse.Undoes r symbols := by
  intro s hs
  refine ⟨apply_inverse_of_not_name fun t ht heq => hnew t ht (heq ▸ hs), ?_⟩
  by_cases hmem : s ∈ r.domain
  · exact .inr ⟨hnew s hmem, apply_inverse hinjective hmem⟩
  · exact .inl (apply_of_not_mem hmem)

end Renaming

/-- **A renaming is taken back on a tree if it is taken back on the symbols of the tree.** -/
theorem Node.rename_rename : ∀ (n : Node) {r back : Renaming}, back.Undoes r n.symbols →
    (n.rename r).rename back = n := by
  refine Node.induct fun t ih r back h => ?_
  have composed : t.referent? = none → ((mk t).rename r).rename back = mk t := by
    intro ht
    rw [rename_of_sights ht, rename_of_sights (by rwa [Shape.referent?_map]), Shape.map_map,
      Shape.bound_map]
    -- both renamings pass over the symbols that the node binds
    have hchildren : ∀ n ∈ t.children,
        (n.rename (r.without t.bound)).rename (back.without t.bound) = id n := by
      intro n hn
      refine ih n hn ((h.without fun s hs => mem_symbols_of_bound hs).mono fun s hs => ?_)
      exact mem_symbols_iff.mpr (.inr ⟨n, hn, hs⟩)
    exact congrArg mk ((Shape.map_congr hchildren).trans (Shape.map_id t))
  cases t with
  | row s =>
    rw [rename_row, rename_row, h.apply_apply (mem_symbols_iff.mpr (.inl List.mem_cons_self))]
  | column s name =>
    rw [rename_column, rename_column,
      h.apply_apply (mem_symbols_iff.mpr (.inl List.mem_cons_self))]
  | _ => exact composed rfl

namespace Query

/-- **Renaming the generators of a query to new symbols can be taken back**, whatever queries inside
bind the old ones again. -/
theorem renameBinders_inverse (q : Query) (r : Renaming)
    (hinjective : ∀ s ∈ r.domain, ∀ t ∈ r.domain, r.apply s = r.apply t → s = t)
    (hnew : ∀ s ∈ r.domain, r.apply s ∉ symbols q) :
    renameBinders r.inverse (renameBinders r q) = q := by
  have hundoes := Renaming.undoes_inverse hinjective hnew
  have hchildren : ∀ n ∈ q.children, (n.rename r).rename r.inverse = id n := fun n hn =>
    n.rename_rename (hundoes.mono (symbols_subset hn))
  have hbinders : ∀ s ∈ q.binders, r.inverse.apply (r.apply s) = id s := fun s hs =>
    hundoes.apply_apply (mem_symbols_iff.mpr (.inl hs))
  calc renameBinders r.inverse (renameBinders r q)
      = (q.map fun n => (n.rename r).rename r.inverse).relabelLayer
          fun s => r.inverse.apply (r.apply s) := by
        simp [renameBinders, Clauses.map, Clauses.relabelLayer, Function.comp_def]
    _ = (q.map id).relabelLayer id := by
        rw [Clauses.map_congr hchildren, Clauses.map_id, Clauses.relabelLayer_congr hbinders]
    _ = q := by
        rw [Clauses.map_id]
        simp [Clauses.relabelLayer]

/-- A query inside binds the first symbol again, behind a source that refers to it.  The renaming
stops there for this symbol and goes on for the other one, and all of it is taken back. -/
theorem renameBinders_inverse_shadowed :
    let user : Symbol := ⟨0, 0⟩
    let group : Symbol := ⟨1, 0⟩
    let q : Query := {
      generators := [⟨user, .table "users"⟩, ⟨group, .table "groups"⟩]
      filters := [.binary .eq (.column user "group") (.column group "id"), .apply .hasRows [.query {
        generators := [⟨user, .query {
          generators := [⟨⟨2, 0⟩, .table "members"⟩]
          filters := [.binary .eq (.column ⟨2, 0⟩ "user") (.column user "id")] }⟩]
        filters := [.binary .eq (.column user "group") (.column group "id")] }]]
      projection := some (.column user "name") }
    let r : Renaming := [(user, ⟨5, 0⟩), (group, ⟨6, 0⟩)]
    (∀ s ∈ r.domain, ∀ t ∈ r.domain, r.apply s = r.apply t → s = t)
      ∧ (∀ s ∈ r.domain, r.apply s ∉ symbols q)
      ∧ symbols (renameBinders r q)
        = [⟨5, 0⟩, ⟨6, 0⟩, ⟨5, 0⟩, ⟨6, 0⟩, ⟨2, 0⟩, ⟨2, 0⟩, user, user, user, ⟨6, 0⟩, ⟨5, 0⟩]
      ∧ renameBinders r.inverse (renameBinders r q) = q := by
  intro user group q r
  have hinjective : ∀ s ∈ r.domain, ∀ t ∈ r.domain, r.apply s = r.apply t → s = t := by decide
  have hnew : ∀ s ∈ r.domain, r.apply s ∉ symbols q := by decide +kernel
  exact ⟨hinjective, hnew, by decide +kernel, renameBinders_inverse q r hinjective hnew⟩

end Query
end SqlCompiler
