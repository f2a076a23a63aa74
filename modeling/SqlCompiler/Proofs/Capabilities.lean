import SqlCompiler.Dialect.Builtin
import SqlCompiler.Proofs.Scoping

/-!
# Capabilities

A statement is refused for a lacking capability exactly where its tree demands one.  In one
direction this was shown with the checks: whatever is refused is demanded.  The other direction is
shown here: a query that demands a capability the dialect lacks is not compiled, however deep the
demand stands, because everything in a tree is written at least once.

The only query that is written without a check of its paging is one that numbers its rows.  So a
dialect that numbers rows has to support all paging, which `Dialect.PagesSoundly` says.

* `Dialect.PagesSoundly` — holds of all built-in dialects, and of any other that does not number
  rows.
* `Query.supports_of_passes` — if all checks of a query succeed, the dialect has what it needs.
* `Query.capability_gating` — both directions together.
-/

set_option autoImplicit false
namespace SqlCompiler

/-- A dialect that pages by numbering rows has every sort of paging. -/
def Dialect.PagesSoundly (d : Dialect) : Prop :=
  d.paging = .numbered → d.supports .pagingNested = true ∧ d.supports .pagingDrop = true

theorem Database.pagesSoundly (b : Database) : b.dialect.PagesSoundly := by
  cases b with
  | sqlserver => intro _; decide
  | _ => exact nofun

theorem Script.Passes.supports {nested : Bool} {d : Dialect} {c : Capability}
    (h : (Script.check (d.require c)).Passes nested) : d.supports c = true := by
  have hc : d.require c = .ok () := h _ List.mem_cons_self
  rw [Dialect.require] at hc
  by_cases hs : d.supports c = true
  · exact hs
  · rw [if_neg hs] at hc
    cases hc

namespace Node

variable {d : Dialect} {nested : Bool}

/-- A node's own checks include those of what it demands by itself. -/
theorem check_mem_own {s : Shape Node} (hquery : ∀ q, s ≠ .query q) {c : Capability}
    (hc : c ∈ s.demands) : Script.check (d.require c) ∈ Script.own d s := by
  cases s with
  | query q => exact absurd rfl (hquery q)
  | apply f arguments =>
    have := Function.capability?_eq_some_iff.mpr hc
    simp [Script.own, this]
  | nextValue sequence =>
    cases List.mem_singleton.mp hc
    exact List.mem_cons_self
  | currentValue sequence =>
    rcases List.mem_cons.mp hc with rfl | hc
    · exact List.mem_cons_self
    · cases List.mem_singleton.mp hc
      exact List.mem_cons_of_mem _ List.mem_cons_self
  | _ => cases hc

/-- If all checks of a node succeed, the dialect has what it demands. -/
theorem supports_expression {s : Shape Node} (hquery : ∀ q, s ≠ .query q)
    (ih : ∀ n ∈ s.children, ∀ nested, (n.script d).Passes nested →
      ∀ c ∈ n.required, d.supports c = true) :
    ∀ nested, ((mk s).script d).Passes nested → ∀ c ∈ (mk s).required, d.supports c = true := by
  intro nested hpass c hc
  rw [gathers_required.layer] at hc
  rcases List.mem_append.mp hc with hc | hc
  · refine Script.Passes.supports (hpass.of_subset fun e he => ?_)
    rw [(Script.collects_checks nested).expression d (writable_of_passes hpass) hquery]
    exact List.mem_append_left _ (List.mem_flatMap.mpr ⟨_, check_mem_own hquery hc, he⟩)
  · obtain ⟨n, hn, hc⟩ := List.mem_flatMap.mp hc
    exact ih n hn nested (passes_child hquery hpass hn) c hc

theorem mem_required_columns {n : Node} {c : Capability} (hc : c ∈ n.required) :
    ∃ m ∈ n.columns, c ∈ m.required := by
  obtain ⟨s⟩ := n
  cases s with
  | product items => exact (gathers_required.mem_iff rfl).mp hc
  | record fields => exact (gathers_required.mem_iff rfl).mp hc
  | _ => exact ⟨_, List.mem_cons_self, hc⟩

theorem mem_required_groupKeys {n : Node} {c : Capability} (hc : c ∈ n.required) :
    ∃ m ∈ n.groupKeys, c ∈ m.required := by
  obtain ⟨s⟩ := n
  cases s with
  | product items => exact (gathers_required.mem_iff rfl).mp hc
  | _ => exact ⟨_, List.mem_cons_self, hc⟩

/-- A column that demands something is no whole row, so it is written as an expression. -/
theorem item_of_mem_required {n : Node} {c : Capability} (hc : c ∈ n.required) :
    n.item d = n.script d := by
  rcases n.item_cases d with ⟨s, rfl, -⟩ | h
  · obtain ⟨m, hm, -⟩ := (gathers_required.mem_iff rfl).mp hc
    cases hm
  · exact h

/-- The source of a generator that demands something is a query. -/
theorem passes_source_of_mem_required {n : Node} {c : Capability} (hc : c ∈ n.required)
    (hpass : (Script.source d (n.rendering d)).Passes nested) : (n.script d).Passes nested := by
  rcases source_of_passes hpass with ⟨name, rfl⟩ | ⟨q, -, hpass⟩
  · obtain ⟨m, hm, -⟩ := (gathers_required.mem_iff rfl).mp hc
    cases hm
  · exact hpass

end Node

namespace Query

variable {d : Dialect} {nested : Bool}

/-- The paging of a query is checked. -/
theorem supports_paging {q : Query} (hpass : (Script.checkPaging d (rendering d q)).Passes nested) :
    (nested = true ∧ q.isPaged = true → d.supports .pagingNested = true)
      ∧ ∀ c ∈ q.demands, d.supports c = true := by
  rw [Script.checkPaging, rendering, Clauses.isPaged_map] at hpass
  constructor
  · rintro ⟨rfl, hpaged⟩
    rw [if_pos hpaged] at hpass
    exact Script.Passes.supports (hpass.of_subset (List.subset_append_left _ _))
  · intro c hc
    rw [Clauses.demands] at hc
    split at hc
    · next hdrop =>
      cases List.mem_singleton.mp hc
      have hpaged : q.isPaged = true := by rw [Clauses.isPaged, hdrop.1, Bool.or_true]
      have hfetch : (q.map (Node.rendering d)).fetch.isNone = true := hdrop.2
      rw [if_pos hpaged, if_pos hfetch] at hpass
      exact Script.Passes.supports (hpass.of_subset (List.subset_append_right _ _))
    · cases hc

/-- If the clauses of a query pass, so does every child that demands something. -/
theorem supports_child {q : Query} {n : Node} {c : Capability} (hn : n ∈ q.children)
    (hc : c ∈ n.required)
    (ih : WithChildren (fun n => ∀ nested, (n.script d).Passes nested →
      ∀ c ∈ n.required, d.supports c = true) n)
    (hpass : (Script.body d (rendering d q)).Passes nested) : d.supports c = true := by
  have hbody := bodyPasses hpass
  rcases Clauses.mem_children_iff.mp hn with ⟨g, hg, rfl⟩ | hn | hn | ⟨k, hk, rfl⟩ | hn
  · exact ih.1 nested (Node.passes_source_of_mem_required hc (hbody.source g hg)) c hc
  · exact ih.1 nested (hbody.filter n hn) c hc
  · obtain ⟨m, hm, hc⟩ := Node.mem_required_groupKeys hc
    exact ih.groupKey hm nested (hbody.groupKey n hn m hm) c hc
  · exact ih.1 nested (hbody.key k hk) c hc
  · obtain ⟨m, hm, hc⟩ := Node.mem_required_columns hc
    refine ih.column hm nested ?_ c hc
    rw [← Node.item_of_mem_required hc]
    exact hbody.column n hn m hm

/-- **If all checks of a tree succeed, the dialect has what the tree demands.** -/
theorem supports_of_passes (hd : d.PagesSoundly) :
    (∀ (n : Node) nested, (n.script d).Passes nested → ∀ c ∈ n.required, d.supports c = true)
      ∧ ∀ (q : Query) nested, (script d q).Passes nested →
          ∀ c ∈ needs nested q, d.supports c = true := by
  refine writing_induct d ?_ ?_ ?_ ?_ ?_
  · intro s hquery ih
    exact Node.supports_expression hquery ih
  · intro q hq nested hpass
    rw [Node.required_query]
    refine hq true fun e he => hpass e ?_
    rw [(Script.collects_checks nested).subquery]
    exact he
  · intro q hnumbers ih nested hpass c hc
    rw [script_eq_clauses hnumbers] at hpass
    obtain ⟨hnested, hdemands⟩ :=
      supports_paging (hpass.of_subset (List.subset_append_left _ _))
    have hbody : (Script.body d (rendering d q)).Passes nested :=
      fun e he => hpass e (List.mem_append_right _ he)
    rcases mem_needs_iff.mp hc with ⟨hpaged, rfl⟩ | hc | ⟨n, hn, hc⟩
    · exact hnested hpaged
    · exact hdemands c hc
    · exact supports_child hn hc (ih n hn) hbody
  · intro q p hnumbers hn hp nested hpass c hc
    rw [script_of_numbers hnumbers, hn] at hpass
    obtain ⟨hnested, hdrop⟩ := hd hnumbers.1
    rcases mem_needs_iff.mp hc with ⟨-, rfl⟩ | hc | hc
    · exact hnested
    · rw [Clauses.demands] at hc
      split at hc
      · cases List.mem_singleton.mp hc
        exact hdrop
      · cases hc
    · exact hp nested hpass c ((mem_needs_numberRows hn).mpr hc)
  · intro q e hnumbers hn nested hpass
    rw [script_of_numbers hnumbers, hn] at hpass
    exact absurd hpass (Script.Passes.not_fail _)

/-- **Capability gating is exact.**  On a built-in dialect, or on any other one that does not
number rows and whatever it lacks: a query that is compiled demands only capabilities that the
dialect has, and a query that is refused for a capability demands it, and the dialect lacks it. -/
theorem capability_gating (d : Dialect)
    (hd : (∃ b : Database, d = b.dialect) ∨ d.paging ≠ .numbered) (q : Query) :
    (∀ s, q.compile d = .ok s → ∀ c ∈ required q, d.supports c = true)
      ∧ ∀ c name, q.compile d = .error (.lacking c name) →
          c ∈ required q ∧ d.supports c = false := by
  have hsound : d.PagesSoundly := by
    rcases hd with ⟨b, rfl⟩ | hd
    · exact b.pagesSoundly
    · exact fun h => absurd h hd
  constructor
  · intro s hs c hc
    rw [compile_eq] at hs
    obtain ⟨_, -, hs⟩ := bind_eq_ok_iff.mp hs
    obtain ⟨o, ho, -⟩ := bind_eq_ok_iff.mp hs
    have hpass : (script d q).Passes false := Script.check_eq_ok_of_output_ok ho
    exact (supports_of_passes hsound).2 q false hpass c (List.mem_append_right _ hc)
  · intro c name h
    rw [compile_eq] at h
    rcases bind_eq_error_iff.mp h with h | ⟨_, -, h⟩
    · exact Bool.noConfusion (unreserved_checkScope q _ h)
    rcases bind_eq_error_iff.mp h with h | ⟨_, -, h⟩
    · rcases Script.output_eq_error h with h | ⟨t, -, -, h⟩
      · rcases (gates d).2 q false _ h with ⟨c', hc', hrequire⟩ | h
        · rw [Dialect.require] at hrequire
          split at hrequire
          · cases hrequire
          · next hlacks =>
            cases hrequire
            rcases mem_needs_iff.mp hc' with ⟨⟨hfalse, -⟩, -⟩ | hc'
            · cases hfalse
            · refine ⟨?_, by simpa using hlacks⟩
              rw [required, List.mem_append, List.mem_flatMap]
              exact hc'
        · exact Bool.noConfusion (h _ rfl)
      · cases h
    · cases h

/-- The next value of a sequence, on a dialect without sequences. -/
theorem capability_gating_mysql :
    let q : Query := { projection := some (.mk (.nextValue "ids")) }
    q.compile .mysql = .error (.lacking .sequence "mysql")
      ∧ Capability.sequence ∈ required q ∧ Dialect.mysql.supports .sequence = false :=
  ⟨by rfl, (capability_gating .mysql (.inl ⟨.mysql, rfl⟩) _).2 _ "mysql" (by rfl)⟩

end Query
end SqlCompiler
