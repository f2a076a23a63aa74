import SqlCompiler.Proofs.Collecting

/-!
# Scripts that pass

A script that succeeds passes all its checks.  So a node that is written can be written as what it
is, and all its children pass as well; the same holds of the clauses of a query.

* `Script.Passes` — no check of a script fails.
* `Node.writable_of_passes`, `Node.passes_child` — nodes.
* `Query.BodyPasses` and `Query.bodyPasses` — the clauses of a query.
-/

set_option autoImplicit false
namespace SqlCompiler

theorem Script.collects_checks (nested : Bool) : Script.Collects (Script.checks nested) where
  done := rfl
  words _ := rfl
  name _ := rfl
  nameText _ := rfl
  skipRows _ := rfl
  append _ _ := rfl

/-- A script that makes no check that fails. -/
def Script.Passes (nested : Bool) (σ : Script) : Prop :=
  ∀ e ∈ σ.checks nested, e = .ok ()

namespace Script.Passes

variable {nested : Bool}

theorem of_subset {σ τ : Script} (h : σ.Passes nested)
    (hsub : τ.checks nested ⊆ σ.checks nested) : τ.Passes nested :=
  fun e he => h e (hsub he)

theorem not_fail (e : Error) : ¬ (Script.fail e).Passes nested := by
  intro h
  cases h (.error e) List.mem_cons_self

end Script.Passes

namespace Node

variable {d : Dialect} {nested : Bool}

/-- A node that passes can be written as an expression. -/
theorem writable_of_passes {s : Shape Node} (h : ((mk s).script d).Passes nested) :
    s.Writable d := by
  by_cases hs : s.Writable d
  · exact hs
  · rcases script_of_not_writable hs with hfail | ⟨construct, hfail⟩
    all_goals
      rw [hfail] at h
      exact absurd h (Script.Passes.not_fail _)

/-- The children of a node that passes pass. -/
theorem passes_child {s : Shape Node} (hquery : ∀ q, s ≠ .query q)
    (h : ((mk s).script d).Passes nested) {n : Node} (hn : n ∈ s.children) :
    (n.script d).Passes nested := by
  refine h.of_subset fun e he => ?_
  rw [(Script.collects_checks nested).expression d (writable_of_passes h) hquery]
  exact List.mem_append_right _ (List.mem_flatMap.mpr ⟨n, Shape.mem_written.mpr hn, he⟩)

/-- A source that passes is a table or a query. -/
theorem source_of_passes {n : Node} (h : (Script.source d (n.rendering d)).Passes nested) :
    (∃ name, n = table name) ∨ ∃ q, n = query q ∧ (n.script d).Passes nested := by
  obtain ⟨s⟩ := n
  rw [Script.source, shape_rendering] at h
  cases s with
  | table name => exact .inl ⟨name, rfl⟩
  | query q => exact .inr ⟨q, rfl, h⟩
  | _ => exact absurd h (Script.Passes.not_fail _)

end Node

namespace Query

variable {d : Dialect} {nested : Bool}

/-- Everything that is written for the clauses of a query passes. -/
structure BodyPasses (d : Dialect) (nested : Bool) (q : Query) : Prop where
  column : ∀ p, q.projection = some p → ∀ n ∈ p.columns, (n.item d).Passes nested
  source : ∀ g ∈ q.generators, (Script.source d (g.source.rendering d)).Passes nested
  filter : ∀ n ∈ q.filters, (n.script d).Passes nested
  groupKey : ∀ key, q.groupBy = some key → ∀ n ∈ key.groupKeys, (n.script d).Passes nested
  key : ∀ k ∈ q.orderBy, (k.key.script d).Passes nested

theorem bodyPasses {q : Query} (h : (Script.body d (rendering d q)).Passes nested) :
    BodyPasses d nested q := by
  have collects := Script.collects_checks nested
  have hbody := collects.body d q
  constructor
  · intro p hp n hn
    refine h.of_subset fun e he => ?_
    rw [hbody, collects.select d q hp]
    simp only [List.mem_append, List.mem_flatMap]
    exact .inl (.inl (.inl (.inl (.inr ⟨n, hn, he⟩))))
  · intro g hg
    refine h.of_subset fun e he => ?_
    rw [hbody, collects.from_]
    simp only [List.mem_append, List.mem_flatMap]
    exact .inl (.inl (.inl (.inr ⟨g, hg, .inl he⟩)))
  · intro n hn
    refine h.of_subset fun e he => ?_
    rw [hbody, collects.filters]
    simp only [List.mem_append, List.mem_flatMap]
    exact .inl (.inl (.inr ⟨n, hn, he⟩))
  · intro key hkey n hn
    refine h.of_subset fun e he => ?_
    rw [hbody, collects.groupBy, hkey]
    simp only [List.mem_append, List.mem_flatMap]
    exact .inl (.inr ⟨n, hn, he⟩)
  · intro k hk
    refine h.of_subset fun e he => ?_
    rw [hbody, collects.orderBy]
    simp only [List.mem_append, List.mem_flatMap]
    exact .inr ⟨k.key, SortKey.mem_written.mpr (List.mem_map_of_mem hk), he⟩

end Query
end SqlCompiler
