import SqlCompiler.Proofs.Relabeling

/-!
# What a node brings into sight

A node is more than the list of its children: a child is the source of a generator, a filter, a
branch of a conditional.  Which of these it is decides what may be referred to there.  The source of
a generator sees the generators before it, every other clause of a query sees all of them, and the
parts of any other node see nothing new.

Here the children are named one by one, and then listed with the symbols that come into their
sight.  The symbols that a tree mentions, those that it refers to without binding them, and the
scope check can all be read off such a list.

* `Shape.Part`, `Clauses.Clause` — the parts of a node and the clauses of a query, each by its own
  name.
* `Node.Mentions` — a symbol is bound or referred to somewhere in a tree; these are the symbols that
  are listed for it (`Node.mentions_iff`).
* `Shape.sights` — the children of a node in their order, each with the symbols that come into its
  sight; what these are is `Clauses.mem_sights_iff`.
* `Node.mem_freeSymbols_iff_sights` — the symbols that a tree refers to and does not bind.
* `Node.checkScope_eq_ok_iff`, `Node.checkScope_eq_error` — the check, sight by sight.
-/

set_option autoImplicit false
namespace SqlCompiler

/-! ## Parts and clauses -/

/-- A part of a node that is no query. -/
inductive Shape.Part {ν : Type} : Shape ν → ν → Prop where
  | argument {f : Function} {arguments : List ν} {n : ν} :
    n ∈ arguments → Part (.apply f arguments) n
  | condition {branches : List (Branch ν)} {otherwise : Option ν} {b : Branch ν} :
    b ∈ branches → Part (.cases branches otherwise) b.condition
  | value {branches : List (Branch ν)} {otherwise : Option ν} {b : Branch ν} :
    b ∈ branches → Part (.cases branches otherwise) b.value
  | otherwise {branches : List (Branch ν)} {n : ν} : Part (.cases branches (some n)) n
  | item {items : List ν} {n : ν} : n ∈ items → Part (.product items) n
  | field {fields : List (Field ν)} {c : Field ν} : c ∈ fields → Part (.record fields) c.value
  | key {keys : List (SortKey ν)} {k : SortKey ν} : k ∈ keys → Part (.rowNumber keys) k.key

/-- A clause of a query, its generators apart. -/
inductive Clauses.Clause {ν : Type} (q : Clauses ν) : ν → Prop where
  | filter {n : ν} : n ∈ q.filters → Clause q n
  | group {n : ν} : q.groupBy = some n → Clause q n
  | key {k : SortKey ν} : k ∈ q.orderBy → Clause q k.key
  | projection {n : ν} : q.projection = some n → Clause q n

theorem Clauses.clause_iff {ν : Type} {q : Clauses ν} {n : ν} :
    q.Clause n ↔ n ∈ q.expressions := by
  rw [mem_expressions_iff]
  constructor
  · rintro (h | h | h | h)
    · exact .inl h
    · exact .inr (.inl h)
    · exact .inr (.inr (.inl ⟨_, h, rfl⟩))
    · exact .inr (.inr (.inr h))
  · rintro (h | h | ⟨k, hk, rfl⟩ | h)
    · exact .filter h
    · exact .group h
    · exact .key hk
    · exact .projection h

/-- The parts of a node are its children. -/
theorem Shape.part_iff {ν : Type} {s : Shape ν} (hs : ∀ q, s ≠ .query q) {n : ν} :
    s.Part n ↔ n ∈ s.children := by
  constructor
  · rintro (h | h | h | _ | h | h | h)
    · exact h
    · exact List.mem_append_left _ (List.mem_flatMap.mpr ⟨_, h, List.mem_cons_self⟩)
    · refine List.mem_append_left _ (List.mem_flatMap.mpr ⟨_, h, ?_⟩)
      exact List.mem_cons_of_mem _ List.mem_cons_self
    · exact List.mem_append_right _ (List.mem_singleton.mpr rfl)
    · exact h
    · exact List.mem_map_of_mem h
    · exact List.mem_map_of_mem h
  · intro h
    cases s with
    | query q => exact absurd rfl (hs q)
    | apply f arguments => exact .argument h
    | cases branches otherwise =>
      rcases List.mem_append.mp h with h | h
      · obtain ⟨b, hb, h⟩ := List.mem_flatMap.mp h
        rcases List.mem_pair.mp h with rfl | rfl
        · exact .condition hb
        · exact .value hb
      · rw [Option.mem_toList.mp h]
        exact .otherwise
    | product items => exact .item h
    | record fields =>
      obtain ⟨c, hc, rfl⟩ := List.mem_map.mp h
      exact .field hc
    | rowNumber keys =>
      obtain ⟨k, hk, rfl⟩ := List.mem_map.mp h
      exact .key hk
    | table _ | row _ | column _ _ | literal _ | parameter _ _ | nextValue _ | currentValue _ =>
      exact absurd h List.not_mem_nil

theorem Shape.Part.ne_query {ν : Type} {s : Shape ν} {n : ν} (h : s.Part n) (q : Clauses ν) :
    s ≠ .query q := by
  rintro rfl
  cases h

/-! ## The symbols of a tree -/

/-- A symbol is bound or referred to somewhere in a tree. -/
inductive Node.Mentions (s : Symbol) : Node → Prop where
  | row : Mentions s (.row s)
  | column {name : String} : Mentions s (.column s name)
  | binder {q : Query} {g : Generator Node} :
    g ∈ q.generators → g.binder = s → Mentions s (.query q)
  | source {q : Query} {g : Generator Node} :
    g ∈ q.generators → Mentions s g.source → Mentions s (.query q)
  | clause {q : Query} {n : Node} : q.Clause n → Mentions s n → Mentions s (.query q)
  | part {t : Shape Node} {n : Node} : t.Part n → Mentions s n → Mentions s (.mk t)

/-- **The symbols listed for a tree are those that it mentions**, at any depth and in any clause. -/
theorem Node.mentions_iff {s : Symbol} : ∀ n : Node, n.Mentions s ↔ s ∈ n.symbols := by
  refine Node.induct fun t ih => ?_
  rw [mem_symbols_iff]
  constructor
  · rintro (_ | _ | ⟨hg, hbinder⟩ | ⟨hg, h⟩ | ⟨hn, h⟩ | ⟨hn, h⟩)
    · exact .inl List.mem_cons_self
    · exact .inl List.mem_cons_self
    · exact .inl (List.mem_map.mpr ⟨_, hg, hbinder⟩)
    · have hmem := Clauses.source_mem_children hg
      exact .inr ⟨_, hmem, (ih _ hmem).mp h⟩
    · have hmem : _ ∈ Clauses.children _ := List.mem_append_right _ (Clauses.clause_iff.mp hn)
      exact .inr ⟨_, hmem, (ih _ hmem).mp h⟩
    · have hmem := (Shape.part_iff hn.ne_query).mp hn
      exact .inr ⟨_, hmem, (ih _ hmem).mp h⟩
  · rintro (hown | ⟨n, hn, h⟩)
    · cases t with
      | query q =>
        obtain ⟨g, hg, hbinder⟩ := List.mem_map.mp hown
        exact .binder hg hbinder
      | row source => rw [List.mem_singleton.mp hown]; exact .row
      | column source name => rw [List.mem_singleton.mp hown]; exact .column
      | _ => exact absurd hown List.not_mem_nil
    · have h := (ih n hn).mpr h
      by_cases hquery : ∃ q, t = .query q
      · obtain ⟨q, rfl⟩ := hquery
        rcases List.mem_append.mp hn with hn | hn
        · obtain ⟨g, hg, rfl⟩ := List.mem_map.mp hn
          exact .source hg h
        · exact .clause (Clauses.clause_iff.mpr hn) h
      · exact .part ((Shape.part_iff fun q hq => hquery ⟨q, hq⟩).mpr hn) h

/-! ## What comes into sight -/

namespace Clauses

variable {ν μ : Type}

/-- The sources of generators, each with the symbols bound before it. -/
def sightsFrom : List Symbol → List (Generator ν) → List (List Symbol × ν)
  | _, [] => []
  | earlier, g :: gs => (earlier, g.source) :: sightsFrom (earlier ++ [g.binder]) gs

/-- The children of a query, each with the symbols that the query brings into its sight. -/
def sights (q : Clauses ν) : List (List Symbol × ν) :=
  sightsFrom [] q.generators ++ q.expressions.map fun n => (q.binders, n)

theorem sightsFrom_map (r : Symbol → Symbol) (f : ν → μ) (gs : List (Generator ν)) : ∀ earlier,
    sightsFrom (earlier.map r) (gs.map fun g => ⟨r g.binder, f g.source⟩)
      = (sightsFrom earlier gs).map (Prod.map (List.map r) f) := by
  induction gs with
  | nil => intro earlier; rfl
  | cons g gs ih =>
    intro earlier
    have hnext := ih (earlier ++ [g.binder])
    rw [List.map_append, List.map_singleton] at hnext
    simp [sightsFrom, hnext]

theorem sights_map (f : ν → μ) (q : Clauses ν) :
    (q.map f).sights = q.sights.map (Prod.map id f) := by
  have hgenerators := sightsFrom_map id f q.generators []
  rw [List.map_id_fun] at hgenerators
  rw [sights, sights, expressions_map, binders_map, List.map_append, List.map_map, List.map_map,
    ← hgenerators]
  rfl

theorem mem_sightsFrom_iff {seen : List Symbol} {n : ν} {gs : List (Generator ν)} : ∀ {earlier},
    (seen, n) ∈ sightsFrom earlier gs ↔ ∃ before g after, gs = before ++ g :: after
      ∧ seen = earlier ++ before.map Generator.binder ∧ n = g.source := by
  induction gs with
  | nil => intro earlier; simp [sightsFrom]
  | cons first gs ih =>
    intro earlier
    rw [sightsFrom, List.mem_cons, ih]
    constructor
    · rintro (h | ⟨before, g, after, rfl, rfl, rfl⟩)
      · cases h
        exact ⟨[], first, gs, rfl, by simp, rfl⟩
      · exact ⟨first :: before, g, after, rfl, by simp, rfl⟩
    · rintro ⟨before, g, after, hgs, rfl, rfl⟩
      rcases List.cons_eq_append_iff.mp hgs with ⟨rfl, h⟩ | ⟨before, rfl, rfl⟩
      · cases h
        exact .inl (by simp)
      · exact .inr ⟨before, g, after, rfl, by simp, rfl⟩

/-- A source sees the generators before it, another clause sees all of them. -/
theorem mem_sights_iff {q : Clauses ν} {seen : List Symbol} {n : ν} :
    (seen, n) ∈ q.sights
      ↔ (∃ before g after, q.generators = before ++ g :: after
          ∧ seen = before.map Generator.binder ∧ n = g.source)
        ∨ q.Clause n ∧ seen = q.binders := by
  rw [sights, List.mem_append, mem_sightsFrom_iff, clause_iff]
  simp [and_comm, eq_comm]

end Clauses

namespace Shape

variable {ν μ : Type}

/-- The symbol that a node itself refers to. -/
def referent? : Shape ν → Option Symbol
  | .row source | .column source _ => some source
  | _ => none

/-- The symbols that a node itself binds. -/
def bound : Shape ν → List Symbol
  | .query q => q.binders
  | _ => []

/-- The children of a node, each with the symbols that the node brings into its sight. -/
def sights : Shape ν → List (List Symbol × ν)
  | .query q => q.sights
  | s => s.children.map fun n => ([], n)

@[simp] theorem referent?_map (f : ν → μ) (s : Shape ν) : (s.map f).referent? = s.referent? := by
  cases s <;> rfl

@[simp] theorem bound_map (f : ν → μ) (s : Shape ν) : (s.map f).bound = s.bound := by
  cases s <;> simp [map, bound]

theorem sights_of_not_query {s : Shape ν} (hs : ∀ q, s ≠ .query q) :
    s.sights = s.children.map fun n => ([], n) := by
  cases s with
  | query q => exact absurd rfl (hs q)
  | _ => rfl

theorem sights_map (f : ν → μ) (s : Shape ν) :
    (s.map f).sights = s.sights.map (Prod.map id f) := by
  have hchildren : ((s.map f).children.map fun n => (([] : List Symbol), n))
      = (s.children.map fun n => ([], n)).map (Prod.map id f) := by
    simp [children_map, Function.comp_def]
  cases s with
  | query q => exact Clauses.sights_map f q
  | _ => exact hchildren

theorem referent?_of_sights {s : Shape ν} {child : List Symbol × ν} (h : child ∈ s.sights) :
    s.referent? = none := by
  cases s with
  | row _ | column _ _ => exact absurd h List.not_mem_nil
  | _ => rfl

theorem map_snd_sights (s : Shape ν) : s.sights.map Prod.snd = s.children := by
  have hfrom : ∀ (gs : List (Generator ν)) earlier,
      (Clauses.sightsFrom earlier gs).map Prod.snd = gs.map Generator.source := by
    intro gs
    induction gs with
    | nil => intro earlier; rfl
    | cons g gs ih => intro earlier; simp [Clauses.sightsFrom, ih]
  cases s with
  | query q =>
    simp [sights, Clauses.sights, hfrom, children, Clauses.children, Clauses.sources,
      Function.comp_def]
  | _ => simp [sights, Function.comp_def]

theorem mem_children_of_sights {s : Shape ν} {seen : List Symbol} {n : ν}
    (h : (seen, n) ∈ s.sights) : n ∈ s.children := by
  rw [← map_snd_sights]
  exact List.mem_map_of_mem h

/-- What comes into sight is bound by the node itself. -/
theorem subset_bound_of_sights {s : Shape ν} {seen : List Symbol} {n : ν}
    (h : (seen, n) ∈ s.sights) : seen ⊆ s.bound := by
  by_cases hs : ∃ q, s = .query q
  · obtain ⟨q, rfl⟩ := hs
    rcases Clauses.mem_sights_iff.mp h with ⟨before, g, after, hgs, rfl, -⟩ | ⟨-, rfl⟩
    · simp [bound, Clauses.binders, hgs]
    · exact List.Subset.refl _
  · rw [sights_of_not_query fun q hq => hs ⟨q, hq⟩] at h
    obtain ⟨m, -, hm⟩ := List.mem_map.mp h
    cases hm
    exact List.nil_subset _

end Shape

/-! ## Symbols that are referred to and not bound -/

namespace Clauses

variable {ν : Type} {free : ν → List Symbol} {a : Symbol}

theorem mem_freeSources_iff {gs : List (Generator ν)} : ∀ {earlier : List Symbol},
    a ∈ freeSources free earlier gs
      ↔ ∃ seen n, (seen, n) ∈ sightsFrom earlier gs ∧ a ∈ free n ∧ a ∉ seen := by
  induction gs with
  | nil => intro earlier; simp [freeSources, sightsFrom]
  | cons g gs ih =>
    intro earlier
    simp [freeSources, sightsFrom, ih, or_and_right, exists_or, and_assoc]

end Clauses

theorem Node.freeSymbols_of_referent {t : Shape Node} {s : Symbol} (ht : t.referent? = some s) :
    (mk t).freeSymbols = [s] := by
  cases t with
  | row source => cases ht; exact freeSymbols_row s
  | column source name => cases ht; exact freeSymbols_column s name
  | _ => cases ht

/-- A node that is no reference refers to what a child refers to and does not see bound. -/
theorem Node.mem_freeSymbols_iff_sights {t : Shape Node} (ht : t.referent? = none) {a : Symbol} :
    a ∈ (mk t).freeSymbols ↔ ∃ seen n, (seen, n) ∈ t.sights ∧ a ∈ n.freeSymbols ∧ a ∉ seen := by
  have composed : t.IsComposed → (a ∈ (mk t).freeSymbols
      ↔ ∃ seen n, (seen, n) ∈ t.children.map (fun n => (([] : List Symbol), n))
        ∧ a ∈ n.freeSymbols ∧ a ∉ seen) := by
    intro ht
    simp [freeSymbols_mk ht, and_comm]
  cases t with
  | query q =>
    rw [freeSymbols_query, Query.mem_freeSymbols_iff, Clauses.mem_freeSources_iff]
    simp only [Shape.sights, Clauses.sights, List.mem_append, or_and_right, exists_or]
    refine or_congr Iff.rfl ?_
    simp [and_comm, and_left_comm]
  | row _ | column _ _ => cases ht
  | _ => exact composed trivial

/-! ## The check, sight by sight -/

theorem exists_of_forM_eq_error {α : Type} {f : α → Except Error Unit} {e : Error} {l : List α}
    (h : l.forM f = .error e) : ∃ a ∈ l, f a = .error e := by
  induction l with
  | nil => cases h
  | cons a l ih =>
    have step : (a :: l).forM f = (f a >>= fun _ => l.forM f) := rfl
    rw [step, bind_eq_error_iff] at h
    rcases h with h | ⟨_, -, h⟩
    · exact ⟨a, List.mem_cons_self, h⟩
    · obtain ⟨b, hb, h⟩ := ih h
      exact ⟨b, List.mem_cons_of_mem _ hb, h⟩

namespace Clauses

variable {ν : Type} {check : ν → ScopeCheck} {scope : List Symbol}

/-- Generators pass the check if they bind different symbols and their sources pass it. -/
theorem checkGenerators_eq_ok_iff {gs : List (Generator ν)} {result : List Symbol} :
    ∀ earlier : List Symbol, earlier.Nodup →
    (checkGenerators check scope earlier.reverse gs = .ok result
      ↔ (earlier ++ gs.map Generator.binder).Nodup
        ∧ (∀ seen n, (seen, n) ∈ sightsFrom earlier gs → check n (seen.reverse ++ scope) = .ok ())
        ∧ (earlier ++ gs.map Generator.binder).reverse = result) := by
  induction gs with
  | nil =>
    intro earlier hnodup
    simp [checkGenerators, sightsFrom, hnodup]
  | cons g gs ih =>
    intro earlier hnodup
    have hnext : g.binder :: earlier.reverse = (earlier ++ [g.binder]).reverse := by simp
    have hsplit : earlier ++ (g :: gs).map Generator.binder
        = earlier ++ [g.binder] ++ gs.map Generator.binder := by simp
    rw [checkGenerators, hsplit, bind_eq_ok_iff]
    by_cases hmem : g.binder ∈ earlier
    · have hdouble : ¬ (earlier ++ [g.binder] ++ gs.map Generator.binder).Nodup := by
        rw [List.append_assoc]
        exact fun h => (List.nodup_append.mp h).2.2 _ hmem _ (by simp) rfl
      simp only [List.mem_reverse, if_pos hmem, hdouble, false_and, iff_false]
      rintro ⟨_, -, h⟩
      cases h
    · have hnodup : (earlier ++ [g.binder]).Nodup := by
        simpa [List.nodup_append, hnodup] using fun a ha (h : a = g.binder) => hmem (h ▸ ha)
      simp only [List.mem_reverse, if_neg hmem, hnext, ih _ hnodup, sightsFrom, List.mem_cons,
        Prod.mk.injEq]
      constructor
      · rintro ⟨_, hsource, hbinders, hsources, hresult⟩
        refine ⟨hbinders, ?_, hresult⟩
        rintro seen n (⟨rfl, rfl⟩ | h)
        · exact hsource
        · exact hsources seen n h
      · rintro ⟨hbinders, hsources, hresult⟩
        exact ⟨(), hsources _ _ (.inl ⟨rfl, rfl⟩), hbinders, fun seen n h => hsources _ _ (.inr h),
          hresult⟩

/-- Generators fail the check because of a source, or of a symbol that is bound twice. -/
theorem checkGenerators_eq_error {gs : List (Generator ν)} {e : Error} :
    ∀ earlier : List Symbol, checkGenerators check scope earlier.reverse gs = .error e →
      (∃ seen n, (seen, n) ∈ sightsFrom earlier gs ∧ check n (seen.reverse ++ scope) = .error e)
      ∨ ∃ s, 2 ≤ (earlier ++ gs.map Generator.binder).count s
        ∧ e = .malformed (.boundTwice s) := by
  induction gs with
  | nil => intro earlier h; cases h
  | cons g gs ih =>
    intro earlier h
    rw [checkGenerators, bind_eq_error_iff] at h
    rcases h with h | ⟨_, -, h⟩
    · exact .inl ⟨_, _, List.mem_cons_self, h⟩
    by_cases hmem : g.binder ∈ earlier.reverse
    · rw [if_pos hmem] at h
      cases h
      have hearlier := List.one_le_count_iff.mpr (List.mem_reverse.mp hmem)
      refine .inr ⟨g.binder, ?_, rfl⟩
      rw [List.map_cons, List.count_append, List.count_cons_self]
      omega
    · have hnext : g.binder :: earlier.reverse = (earlier ++ [g.binder]).reverse := by simp
      rw [if_neg hmem, hnext] at h
      rcases ih _ h with ⟨seen, n, hn, h⟩ | ⟨s, hcount, he⟩
      · exact .inl ⟨seen, n, List.mem_cons_of_mem _ hn, h⟩
      · exact .inr ⟨s, by simpa using hcount, he⟩

/-- A query passes the check if it binds different symbols and its children pass it, each in sight
of what the query brings into its sight. -/
theorem checkScopeLayer_eq_ok_iff {q : Clauses ν} :
    q.checkScopeLayer check scope = .ok () ↔ q.binders.Nodup
      ∧ ∀ seen n, (seen, n) ∈ q.sights → check n (seen.reverse ++ scope) = .ok () := by
  have hgenerators : ∀ result, checkGenerators check scope [] q.generators = .ok result
      ↔ q.binders.Nodup
        ∧ (∀ seen n, (seen, n) ∈ sightsFrom [] q.generators
            → check n (seen.reverse ++ scope) = .ok ())
        ∧ q.binders.reverse = result :=
    fun result => checkGenerators_eq_ok_iff [] List.nodup_nil
  simp only [checkScopeLayer, bind_eq_ok_iff, hgenerators, forM_eq_ok_iff, sights, List.mem_append,
    List.mem_map, Prod.mk.injEq]
  constructor
  · rintro ⟨_, ⟨hnodup, hsources, rfl⟩, hexpressions⟩
    refine ⟨hnodup, ?_⟩
    rintro seen n (h | ⟨n, hn, rfl, rfl⟩)
    · exact hsources seen n h
    · exact hexpressions n hn
  · rintro ⟨hnodup, h⟩
    exact ⟨_, ⟨hnodup, fun seen n hn => h seen n (.inl hn), rfl⟩,
      fun n hn => h _ n (.inr ⟨n, hn, rfl, rfl⟩)⟩

/-- A query fails the check because of a child, or of a symbol that it binds twice. -/
theorem checkScopeLayer_eq_error {q : Clauses ν} {e : Error}
    (h : q.checkScopeLayer check scope = .error e) :
    (∃ seen n, (seen, n) ∈ q.sights ∧ check n (seen.reverse ++ scope) = .error e)
      ∨ ∃ s, 2 ≤ q.binders.count s ∧ e = .malformed (.boundTwice s) := by
  rcases bind_eq_error_iff.mp h with h | ⟨result, hgenerators, h⟩
  · rcases checkGenerators_eq_error [] h with ⟨seen, n, hn, h⟩ | h
    · exact .inl ⟨seen, n, List.mem_append_left _ hn, h⟩
    · exact .inr h
  · obtain ⟨-, -, rfl⟩ := (checkGenerators_eq_ok_iff [] List.nodup_nil).mp hgenerators
    obtain ⟨n, hn, h⟩ := exists_of_forM_eq_error h
    exact .inl ⟨_, n, List.mem_append_right _ (List.mem_map_of_mem hn), h⟩

end Clauses

namespace Node

variable {t : Shape Node} {scope : List Symbol}

/-- A node that is no reference passes the check if it binds different symbols and its children
pass it where they stand. -/
theorem checkScope_eq_ok_iff (ht : t.referent? = none) :
    (mk t).checkScope scope = .ok () ↔ t.bound.Nodup
      ∧ ∀ seen n, (seen, n) ∈ t.sights → n.checkScope (seen.reverse ++ scope) = .ok () := by
  have hchildren : (t.children.forM fun n => n.checkScope scope) = .ok ()
      ↔ ([] : List Symbol).Nodup
        ∧ ∀ seen n, (seen, n) ∈ t.children.map (fun n => (([] : List Symbol), n))
          → n.checkScope (seen.reverse ++ scope) = .ok () := by
    rw [forM_eq_ok_iff]
    refine ⟨fun h => ⟨List.nodup_nil, fun seen n hmem => ?_⟩, fun h n hn => ?_⟩
    · obtain ⟨m, hm, heq⟩ := List.mem_map.mp hmem
      cases heq
      exact h _ hm
    · exact h.2 [] n (List.mem_map_of_mem hn)
  rw [checkScope_mk]
  cases t with
  | query q => exact Clauses.checkScopeLayer_eq_ok_iff
  | row _ | column _ _ => cases ht
  | _ => exact hchildren

/-- It fails the check because of a child, or of a symbol that it binds twice. -/
theorem checkScope_eq_error (ht : t.referent? = none) {e : Error}
    (h : (mk t).checkScope scope = .error e) :
    (∃ seen n, (seen, n) ∈ t.sights ∧ n.checkScope (seen.reverse ++ scope) = .error e)
      ∨ ∃ s, 2 ≤ t.bound.count s ∧ e = .malformed (.boundTwice s) := by
  have hchildren : (t.children.forM fun n => n.checkScope scope) = .error e →
      ∃ seen n, (seen, n) ∈ t.children.map (fun n => (([] : List Symbol), n))
        ∧ n.checkScope (seen.reverse ++ scope) = .error e := by
    intro h
    obtain ⟨n, hn, h⟩ := exists_of_forM_eq_error h
    exact ⟨[], n, List.mem_map_of_mem hn, h⟩
  rw [checkScope_mk] at h
  cases t with
  | query q => exact Clauses.checkScopeLayer_eq_error h
  | row _ | column _ _ => cases ht
  | _ => exact .inl (hchildren h)

/-- A reference passes the check if its symbol is in scope. -/
theorem checkScope_of_referent {s : Symbol} (ht : t.referent? = some s) :
    (mk t).checkScope scope
      = if s ∈ scope then .ok () else .error (.malformed (.outOfScope s)) := by
  rw [checkScope_mk]
  cases t with
  | row _ | column _ _ => cases ht; rfl
  | _ => cases ht

end Node

end SqlCompiler
