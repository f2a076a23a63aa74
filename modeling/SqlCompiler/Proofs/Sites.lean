import Mathlib.Data.List.Nodup
import Mathlib.Data.Set.Basic
import Mathlib.Logic.Relation
import SqlCompiler.Proofs.Sights

/-!
# Well-scoped queries

A query tree has a site for every node in it, and what may be referred to there depends on the way
from the root to that site.  Going down into the source of a generator brings the generators before
it into scope, going down into another clause of a query brings all of its generators into scope,
and going down into any other part of a node brings nothing.  A query is well scoped if at every
site that can be reached from its root a reference is to a symbol in scope, and no query found
there binds a symbol twice.

The rule mentions neither the order in which a tree is gone through nor what is remembered on the
way.  The scope check does both, and still accepts exactly the well-scoped queries.

* `Site.Below` — one step down in a tree, to a child with what comes into its sight
  (`Site.below_iff`); `Site.Reaches` — any number of them.
* `Query.WellScoped` — the rule for whole queries, and `Site.Defect` — what breaks it at a site.
* `Site.Accepted.below`, `Site.defect_of_checkScope` — what the check accepts stays accepted on the
  way down, and what it rejects has a defect.
* `Query.checkScope_exact` — the check accepts exactly the well-scoped queries.
-/

set_option autoImplicit false
namespace SqlCompiler

/-! ## Sites -/

/-- A node together with the symbols in scope where it stands. -/
structure Site where
  node : Node
  scope : Set Symbol

namespace Site

/-- The symbols that some generators bind. -/
def binding (gs : List (Generator Node)) : Set Symbol :=
  {s | ∃ g ∈ gs, g.binder = s}

/-- One step down in a tree.  The source of a generator sees the generators before it, every other
clause sees all of them, and both see what is in scope where the query stands. -/
inductive Below : Site → Site → Prop where
  | part {t : Shape Node} {n : Node} {scope : Set Symbol} :
    t.Part n → Below ⟨.mk t, scope⟩ ⟨n, scope⟩
  | source {q : Query} {before after : List (Generator Node)} {g : Generator Node}
      {scope : Set Symbol} : q.generators = before ++ g :: after →
    Below ⟨.query q, scope⟩ ⟨g.source, binding before ∪ scope⟩
  | clause {q : Query} {n : Node} {scope : Set Symbol} :
    q.Clause n → Below ⟨.query q, scope⟩ ⟨n, binding q.generators ∪ scope⟩

/-- Any number of steps down. -/
def Reaches : Site → Site → Prop :=
  Relation.ReflTransGen Below

/-- What is wrong with the scopes at a site: a reference to a symbol that is not in scope, or a
query that binds a symbol twice. -/
inductive Defect : Site → Fault → Prop where
  | row {s : Symbol} {scope : Set Symbol} : s ∉ scope → Defect ⟨.row s, scope⟩ (.outOfScope s)
  | column {s : Symbol} {name : String} {scope : Set Symbol} :
    s ∉ scope → Defect ⟨.column s name, scope⟩ (.outOfScope s)
  | binder {q : Query} {s : Symbol} {scope : Set Symbol} :
    2 ≤ q.binders.count s → Defect ⟨.query q, scope⟩ (.boundTwice s)

end Site

/-- A query is well scoped: wherever something stands in it, a reference is to a symbol in scope
and a query binds no symbol twice. -/
structure Query.WellScoped (q : Query) : Prop where
  row {s : Symbol} {scope : Set Symbol} :
    Site.Reaches ⟨.query q, ∅⟩ ⟨.row s, scope⟩ → s ∈ scope
  column {s : Symbol} {name : String} {scope : Set Symbol} :
    Site.Reaches ⟨.query q, ∅⟩ ⟨.column s name, scope⟩ → s ∈ scope
  binders {q' : Query} {scope : Set Symbol} :
    Site.Reaches ⟨.query q, ∅⟩ ⟨.query q', scope⟩ → q'.binders.Nodup

/-- A query is well scoped if there is nothing wrong at any of its sites. -/
theorem Query.wellScoped_iff {q : Query} :
    WellScoped q ↔ ∀ p fault, Site.Reaches ⟨.query q, ∅⟩ p → ¬ p.Defect fault := by
  constructor
  · rintro h p fault hp (hs | hs | htwice)
    · exact hs (h.row hp)
    · exact hs (h.column hp)
    · exact absurd (htwice.trans (List.nodup_iff_count_le_one.mp (h.binders hp) _)) (by decide)
  · intro h
    refine ⟨fun {s scope} hp => ?_, fun {s name scope} hp => ?_, fun {q' scope} hp => ?_⟩
    · by_contra hs
      exact h _ _ hp (.row hs)
    · by_contra hs
      exact h _ _ hp (.column hs)
    · refine List.nodup_iff_count_le_one.mpr fun s => ?_
      by_contra htwice
      exact h _ _ hp (.binder (Nat.lt_of_not_le htwice))

/-! ## The check goes down with the sites -/

namespace Site

/-- The symbols that generators bind, as a set. -/
theorem mem_binding_iff {s : Symbol} {gs : List (Generator Node)} :
    s ∈ binding gs ↔ s ∈ gs.map Generator.binder := by
  simp [binding]

/-- **A step down leads to a child, with what comes into sight there.** -/
theorem below_iff {t : Shape Node} {scope : Set Symbol} {p : Site} :
    Below ⟨.mk t, scope⟩ p
      ↔ ∃ seen, (seen, p.node) ∈ t.sights ∧ ∀ s, s ∈ p.scope ↔ s ∈ seen ∨ s ∈ scope := by
  constructor
  · rintro (hn | hgs | hn)
    · refine ⟨[], ?_, by simp⟩
      rw [Shape.sights_of_not_query hn.ne_query]
      exact List.mem_map_of_mem ((Shape.part_iff hn.ne_query).mp hn)
    · refine ⟨_, Clauses.mem_sights_iff.mpr (.inl ⟨_, _, _, hgs, rfl, rfl⟩), fun s => ?_⟩
      rw [Set.mem_union, mem_binding_iff]
    · refine ⟨_, Clauses.mem_sights_iff.mpr (.inr ⟨hn, rfl⟩), fun s => ?_⟩
      rw [Set.mem_union, mem_binding_iff, Clauses.binders]
  · obtain ⟨n, S⟩ := p
    rintro ⟨seen, hmem, hscope⟩
    by_cases hquery : ∃ q, t = .query q
    · obtain ⟨q, rfl⟩ := hquery
      rcases Clauses.mem_sights_iff.mp hmem with ⟨before, g, after, hgs, rfl, hn⟩ | ⟨hn, rfl⟩
      · have hS : S = binding before ∪ scope := by
          ext s
          rw [hscope, Set.mem_union, mem_binding_iff]
        subst hn hS
        exact .source hgs
      · have hS : S = binding q.generators ∪ scope := by
          ext s
          rw [hscope, Set.mem_union, mem_binding_iff, Clauses.binders]
        subst hS
        exact .clause hn
    · have hne : ∀ q, t ≠ .query q := fun q hq => hquery ⟨q, hq⟩
      rw [Shape.sights_of_not_query hne] at hmem
      obtain ⟨m, hm, heq⟩ := List.mem_map.mp hmem
      cases heq
      have hS : S = scope := by
        ext s
        simpa using hscope s
      subst hS
      exact .part ((Shape.part_iff hne).mpr hm)

/-- The check accepts what stands at a site, whatever list its scope is kept in. -/
def Accepted (p : Site) : Prop :=
  ∃ scope : List Symbol, (∀ s, s ∈ scope ↔ s ∈ p.scope) ∧ p.node.checkScope scope = .ok ()

/-- **One step down keeps a site accepted.** -/
theorem Accepted.below {p p' : Site} (h : p.Accepted) (hstep : Below p p') : p'.Accepted := by
  obtain ⟨⟨t⟩, S⟩ := p
  obtain ⟨scope, hscope, hcheck⟩ := h
  obtain ⟨seen, hmem, hscope'⟩ := below_iff.mp hstep
  have ht := Shape.referent?_of_sights hmem
  refine ⟨seen.reverse ++ scope, fun s => ?_, ((Node.checkScope_eq_ok_iff ht).mp hcheck).2 _ _ hmem⟩
  simp [hscope, hscope']

theorem Accepted.reaches {p p' : Site} (h : p.Accepted) (hp : Reaches p p') : p'.Accepted := by
  induction hp with
  | refl => exact h
  | tail _ hstep ih => exact ih.below hstep

/-- There is nothing wrong at an accepted site. -/
theorem Accepted.not_defect {p : Site} (h : p.Accepted) (fault : Fault) : ¬ p.Defect fault := by
  obtain ⟨scope, hscope, hcheck⟩ := h
  rintro (hs | hs | htwice)
  · exact hs ((hscope _).mp (Node.mem_of_checkScope (.inl rfl) hcheck))
  · exact hs ((hscope _).mp (Node.mem_of_checkScope (.inr ⟨_, rfl⟩) hcheck))
  · have hnodup := ((Node.checkScope_eq_ok_iff rfl).mp hcheck).1
    exact absurd (htwice.trans (List.nodup_iff_count_le_one.mp hnodup _)) (by decide)

/-- **Whatever the check rejects has a defect**, and the failure names it. -/
theorem defect_of_checkScope {e : Error} : ∀ (n : Node) {scope : List Symbol} {S : Set Symbol},
    (∀ s, s ∈ scope ↔ s ∈ S) → n.checkScope scope = .error e →
      ∃ p fault, Reaches ⟨n, S⟩ p ∧ p.Defect fault ∧ e = .malformed fault := by
  refine Node.induct fun t ih scope S hscope h => ?_
  have outOfScope : ∀ s, t.referent? = some s → (s ∉ S → Defect ⟨.mk t, S⟩ (.outOfScope s)) →
      ∃ p fault, Reaches ⟨.mk t, S⟩ p ∧ p.Defect fault ∧ e = .malformed fault := by
    intro s ht hdefect
    rw [Node.checkScope_of_referent ht] at h
    by_cases hs : s ∈ scope
    · rw [if_pos hs] at h
      cases h
    · rw [if_neg hs] at h
      cases h
      exact ⟨_, _, .refl, hdefect (mt (hscope s).mpr hs), rfl⟩
  have rejected : t.referent? = none → (∀ s, 2 ≤ t.bound.count s →
      Defect ⟨.mk t, S⟩ (.boundTwice s)) →
      ∃ p fault, Reaches ⟨.mk t, S⟩ p ∧ p.Defect fault ∧ e = .malformed fault := by
    intro ht hdefect
    rcases Node.checkScope_eq_error ht h with ⟨seen, n, hmem, h⟩ | ⟨s, hcount, rfl⟩
    · have hstep : Below ⟨.mk t, S⟩ ⟨n, {s | s ∈ seen ∨ s ∈ S}⟩ :=
        below_iff.mpr ⟨seen, hmem, fun s => Iff.rfl⟩
      have hseen : ∀ s, s ∈ seen.reverse ++ scope ↔ s ∈ {s | s ∈ seen ∨ s ∈ S} := by
        simp [hscope]
      obtain ⟨p, fault, hp, hfault⟩ := ih n (Shape.mem_children_of_sights hmem) hseen h
      exact ⟨p, fault, .head hstep hp, hfault⟩
    · exact ⟨_, _, .refl, hdefect s hcount, rfl⟩
  cases t with
  | query q => exact rejected rfl fun s hcount => .binder hcount
  | row source => exact outOfScope source rfl .row
  | column source name => exact outOfScope source rfl .column
  | _ => exact rejected rfl fun s hcount => absurd hcount (by simp [Shape.bound])

end Site

/-! ## The check is exact -/

/-- **The scope check accepts exactly the well-scoped queries**, and where it fails it names a
defect of the query. -/
theorem Query.checkScope_exact (q : Query) :
    (checkScope q = .ok () ↔ WellScoped q)
      ∧ (¬ WellScoped q → ∃ p fault, Site.Reaches ⟨.query q, ∅⟩ p ∧ p.Defect fault
          ∧ checkScope q = .error (.malformed fault)) := by
  have hnode : (Node.query q).checkScope [] = checkScope q := Node.checkScope_mk _ _
  have haccepted : checkScope q = .ok () → WellScoped q := by
    intro h
    have hroot : Site.Accepted ⟨.query q, ∅⟩ := ⟨[], by simp, hnode.trans h⟩
    exact wellScoped_iff.mpr fun p fault hp => (hroot.reaches hp).not_defect fault
  have hrejected : ∀ e, checkScope q = .error e →
      ∃ p fault, Site.Reaches ⟨.query q, ∅⟩ p ∧ p.Defect fault ∧ e = .malformed fault :=
    fun e h => Site.defect_of_checkScope _ (by simp) (hnode.trans h)
  refine ⟨⟨haccepted, fun h => ?_⟩, fun h => ?_⟩
  · cases hcheck : checkScope q with
    | ok _ => rfl
    | error e =>
      obtain ⟨p, fault, hp, hdefect, -⟩ := hrejected e hcheck
      exact absurd hdefect (wellScoped_iff.mp h p fault hp)
  · cases hcheck : checkScope q with
    | ok _ => exact absurd (haccepted hcheck) h
    | error e =>
      obtain ⟨p, fault, hp, hdefect, rfl⟩ := hrejected e hcheck
      exact ⟨p, fault, hp, hdefect, rfl⟩

/-- A source that refers to a generator after it is not well scoped, although every other clause may
refer to both. -/
theorem Query.checkScope_exact_later_generator :
    let q : Query := {
      generators := [⟨⟨0, 0⟩, .query {
          generators := [⟨⟨2, 0⟩, .table "orders"⟩]
          filters := [.binary .eq (.column ⟨2, 0⟩ "user_id") (.column ⟨1, 0⟩ "id")] }⟩,
        ⟨⟨1, 0⟩, .table "users"⟩]
      projection := some (.column ⟨1, 0⟩ "name") }
    ¬ WellScoped q ∧ checkScope q = .error (.malformed (.outOfScope ⟨1, 0⟩)) := by
  intro q
  have hcheck : checkScope q = .error (.malformed (.outOfScope ⟨1, 0⟩)) := rfl
  refine ⟨fun h => ?_, hcheck⟩
  have hok := (checkScope_exact q).1.mpr h
  rw [hcheck] at hok
  cases hok

end SqlCompiler
