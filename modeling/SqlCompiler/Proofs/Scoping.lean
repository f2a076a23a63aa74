import SqlCompiler.Proofs.Checks
import SqlCompiler.Proofs.Lexical

/-!
# Scopes and aliases

The scope check and the writing of a statement keep their books differently: the check goes
through the generators of a query from left to right and lets each source see the ones before it,
while the writing gives all of them an alias before it writes anything.  Whatever the check lets a
node refer to therefore has an alias when the node is written.

* `Node.checkScope_mk`, `Clauses.checkScopeLayer_eq_ok` — the check, layer by layer.
* `Query.free_subset_freeSymbols` — the symbols that a script needs are those that its tree refers
  to and does not bind.
* `Node.freeSymbols_subset_scope` — these are in scope if the tree passes the check, so the symbols
  that its script needs are (`Query.free_subset_scope`).
* `Query.unbound_never_raised` — no statement fails for a missing alias.
-/

set_option autoImplicit false
namespace SqlCompiler

/-! ## The check, layer by layer -/

theorem forM_eq_ok_iff {α : Type} {f : α → Except Error Unit} {l : List α} :
    l.forM f = .ok () ↔ ∀ a ∈ l, f a = .ok () := by
  induction l with
  | nil =>
    refine ⟨fun _ a ha => ?_, fun _ => rfl⟩
    cases ha
  | cons a l ih =>
    have step : (a :: l).forM f = (f a >>= fun _ => l.forM f) := rfl
    rw [step, bind_eq_ok_iff, List.forall_mem_cons]
    constructor
    · rintro ⟨_, ha, hl⟩
      exact ⟨ha, ih.mp hl⟩
    · rintro ⟨ha, hl⟩
      exact ⟨(), ha, ih.mpr hl⟩

theorem unreserved_forM {α : Type} {f : α → Except Error Unit} {l : List α}
    (h : ∀ a ∈ l, Unreserved (f a)) : Unreserved (l.forM f) := by
  induction l with
  | nil => exact unreserved_ok _
  | cons a l ih =>
    have hrest := ih fun b hb => h b (List.mem_cons_of_mem _ hb)
    exact (h a List.mem_cons_self).bind fun _ => hrest

namespace Clauses

variable {ν μ : Type} {check : μ → ScopeCheck} {f : ν → μ}

theorem checkGenerators_map (scope : List Symbol) (gs : List (Generator ν)) :
    ∀ bound, checkGenerators check scope bound (gs.map fun g => ⟨g.binder, f g.source⟩)
      = checkGenerators (fun n => check (f n)) scope bound gs := by
  induction gs with
  | nil => intro bound; rfl
  | cons g gs ih =>
    intro bound
    rw [List.map_cons, checkGenerators, checkGenerators]
    simp only [ih]

theorem checkScopeLayer_map (q : Clauses ν) :
    (q.map f).checkScopeLayer check = q.checkScopeLayer fun n => check (f n) := by
  funext scope
  have hexpressions : (q.map f).expressions = q.expressions.map f := by
    simp [expressions, map, Function.comp_def, Option.toList_map]
  rw [checkScopeLayer, checkScopeLayer, hexpressions, map, checkGenerators_map]
  simp only [List.forM_eq_forM, List.forM_map]

/-- The symbols in sight after the generators passed the check: all that they bind. -/
theorem mem_of_checkGenerators {check : ν → ScopeCheck} {scope : List Symbol}
    {gs : List (Generator ν)} : ∀ {bound result : List Symbol},
    checkGenerators check scope bound gs = .ok result →
      ∀ s, s ∈ result ↔ s ∈ bound ∨ ∃ g ∈ gs, g.binder = s := by
  induction gs with
  | nil =>
    intro bound result h
    cases h
    simp
  | cons g gs ih =>
    intro bound result h s
    rw [checkGenerators] at h
    obtain ⟨_, -, h⟩ := bind_eq_ok_iff.mp h
    by_cases hbound : g.binder ∈ bound
    · rw [if_pos hbound] at h
      cases h
    rw [if_neg hbound] at h
    rw [ih h]
    simp only [List.mem_cons, or_assoc, or_and_right, exists_or, exists_eq_left,
      or_left_comm, eq_comm (a := s)]

theorem unreserved_checkGenerators {check : ν → ScopeCheck} {scope : List Symbol}
    {gs : List (Generator ν)} (h : ∀ g ∈ gs, ∀ scope, Unreserved (check g.source scope)) :
    ∀ bound, Unreserved (checkGenerators check scope bound gs) := by
  induction gs with
  | nil => intro bound; exact unreserved_ok _
  | cons g gs ih =>
    intro bound
    rw [checkGenerators]
    refine (h g List.mem_cons_self _).bind fun _ => ?_
    by_cases hbound : g.binder ∈ bound
    · rw [if_pos hbound]
      exact unreserved_error rfl
    · rw [if_neg hbound]
      exact ih (fun g' hg' => h g' (List.mem_cons_of_mem _ hg')) _

theorem unreserved_checkScopeLayer {check : ν → ScopeCheck} {q : Clauses ν}
    (h : ∀ n ∈ q.children, ∀ scope, Unreserved (check n scope)) (scope : List Symbol) :
    Unreserved (q.checkScopeLayer check scope) := by
  refine (unreserved_checkGenerators (fun g hg => ?_) []).bind fun bound => ?_
  · exact h _ (source_mem_children hg)
  · exact unreserved_forM fun n hn => h n (List.mem_append_right _ hn) _

/-- A query that passes the check: its generators do, and its other clauses in sight of all of
them. -/
theorem checkScopeLayer_eq_ok {check : ν → ScopeCheck} {q : Clauses ν} {scope : List Symbol}
    (h : q.checkScopeLayer check scope = .ok ()) :
    ∃ bound, (∀ s, s ∈ bound ↔ s ∈ q.binders)
      ∧ checkGenerators check scope [] q.generators = .ok bound
      ∧ ∀ n ∈ q.expressions, check n (bound ++ scope) = .ok () := by
  obtain ⟨bound, hgenerators, hexpressions⟩ := bind_eq_ok_iff.mp h
  refine ⟨bound, fun s => ?_, hgenerators, forM_eq_ok_iff.mp hexpressions⟩
  rw [mem_of_checkGenerators hgenerators]
  simp [binders]

end Clauses

namespace Node

theorem checkScope_mk (s : Shape Node) (scope : List Symbol) :
    (mk s).checkScope scope = match s with
      | .query q => q.checkScopeLayer Node.checkScope scope
      | .row source | .column source _ =>
        if source ∈ scope then .ok () else .error (.malformed (.outOfScope source))
      | s => s.children.forM fun n => n.checkScope scope := by
  have hfold : ∀ (layer : Shape (Node × ScopeCheck) → ScopeCheck) (t : Shape Node),
      ((t.map (withFold layer)).children.forM fun n => n.2 scope)
        = t.children.forM fun n => n.fold layer scope := by
    intro layer t
    rw [Shape.children_map, List.forM_eq_forM, List.forM_map]
    rfl
  rw [checkScope, fold_mk]
  cases s with
  | query q => exact congrFun (Clauses.checkScopeLayer_map q) scope
  | apply f arguments => exact hfold _ (.apply f arguments)
  | cases branches otherwise => exact hfold _ (.cases branches otherwise)
  | product items => exact hfold _ (.product items)
  | record fields => exact hfold _ (.record fields)
  | rowNumber keys => exact hfold _ (.rowNumber keys)
  | _ => rfl

/-- A reference that passes the check is to a symbol in scope. -/
theorem mem_of_checkScope {s : Symbol} {scope : List Symbol} {n : Node}
    (hn : n = row s ∨ ∃ name, n = column s name) (h : n.checkScope scope = .ok ()) :
    s ∈ scope := by
  have hcheck : n.checkScope scope
      = if s ∈ scope then .ok () else .error (.malformed (.outOfScope s)) := by
    rcases hn with rfl | ⟨name, rfl⟩ <;> exact checkScope_mk _ scope
  rw [hcheck] at h
  by_cases hs : s ∈ scope
  · exact hs
  · rw [if_neg hs] at h
    cases h

/-- The children of a node that passes the check pass it, unless they stand in another scope. -/
theorem checkScope_of_mem_children {s : Shape Node} {m : Node} {scope : List Symbol}
    (h : (mk s).checkScope scope = .ok ()) (hquery : ∀ q, s ≠ .query q) (hm : m ∈ s.children) :
    m.checkScope scope = .ok () := by
  rw [checkScope_mk] at h
  cases s with
  | query q => exact absurd rfl (hquery q)
  | row _ | column _ _ => cases hm
  | _ => exact forM_eq_ok_iff.mp h m hm

/-- The scope check fails with errors of its own. -/
theorem unreserved_checkScope : ∀ (n : Node) scope, Unreserved (n.checkScope scope) := by
  refine Node.induct fun s ih scope => ?_
  rw [checkScope_mk]
  cases s with
  | query q => exact Clauses.unreserved_checkScopeLayer ih scope
  | row source | column source name =>
    dsimp only
    split
    · exact unreserved_ok _
    · exact unreserved_error rfl
  | _ => exact unreserved_forM fun n hn => ih n hn scope

end Node

/-! ## The symbols a script needs -/

theorem Script.collects_free : Script.Collects Script.free where
  done := rfl
  words _ := rfl
  name _ := rfl
  nameText _ := rfl
  skipRows _ := rfl
  append _ _ := rfl

namespace Node

variable {d : Dialect}

/-- A node refers by itself to nothing but the source of a column. -/
theorem mem_free_own {t : Shape Node} {s : Symbol}
    (h : s ∈ (Script.own d t).flatMap Script.free) : ∃ name, t = .column s name := by
  obtain ⟨σ, hσ, hs⟩ := List.mem_flatMap.mp h
  have hchecked : ∀ {α : Type} (r : Except Error α) (body : α → Script),
      (∀ a, (body a).free = []) → (Script.checked r body).free = [] := by
    intro α r body hbody
    cases r with
    | error e => rfl
    | ok a => exact hbody a
  cases t with
  | column source name =>
    cases List.mem_singleton.mp hσ
    cases List.mem_singleton.mp hs
    exact ⟨name, rfl⟩
  | literal c =>
    cases List.mem_singleton.mp hσ
    have hfree : (Script.literal d c).free = [] := by
      rw [Script.literal]
      split
      · exact hchecked _ _ fun _ => rfl
      · split
        · rfl
        · exact hchecked _ _ fun _ => rfl
    rw [hfree] at hs
    cases hs
  | parameter index kind => cases List.mem_singleton.mp hσ; cases hs
  | apply f arguments =>
    simp only [Script.own, List.mem_append, List.mem_map, List.mem_singleton] at hσ
    rcases hσ with (rfl | ⟨c, -, rfl⟩) | rfl <;> cases hs
  | nextValue sequence => cases List.mem_singleton.mp hσ; cases hs
  | currentValue sequence =>
    rcases List.mem_cons.mp hσ with rfl | hσ
    · cases hs
    · cases List.mem_singleton.mp hσ; cases hs
  | query _ | table _ | row _ | cases _ _ | product _ | record _ | rowNumber _ => cases hσ

end Node

namespace Query

variable {d : Dialect}

theorem free_checkPaging (q : Query) : (Script.checkPaging d (rendering d q)).free = [] := by
  rw [Script.checkPaging]
  split
  · split <;> rfl
  · rfl

theorem free_modifiers (q : Query) : (Script.modifiers d (rendering d q)).free = [] := by
  rcases Script.collects_free.modifiers d q with h | ⟨_, _, h⟩ <;> exact h

theorem mem_free_item {n : Node} {s : Symbol} (h : s ∈ (n.script d).free) :
    s ∈ (n.item d).free := by
  rcases n.item_cases d with ⟨source, rfl, -⟩ | hn
  · rw [Node.script_refused d (.inr (.inl ⟨source, rfl⟩))] at h
    cases h
  · rwa [hn]

theorem mem_free_source {n : Node} {s : Symbol}
    (h : s ∈ (Script.source d (n.rendering d)).free) : s ∈ (n.script d).free := by
  obtain ⟨t⟩ := n
  rw [Script.source, Node.shape_rendering] at h
  cases t with
  | query q => exact h
  | _ => cases h

/-- What may be written for an expression: its node, or the columns or keys that the node groups. -/
def parts (n : Node) : List Node :=
  n :: (n.columns ++ n.groupKeys)

theorem WithChildren.part {P : Node → Prop} {n m : Node} (h : WithChildren P n)
    (hm : m ∈ parts n) : P m := by
  rcases List.mem_cons.mp hm with rfl | hm
  · exact h.1
  · exact (List.mem_append.mp hm).elim h.column h.groupKey

/-- Where the symbols come from that the clauses of a query need: from its generators, from their
sources, or from a part of an expression. -/
theorem mem_free_body {q : Query} {s : Symbol}
    (hs : s ∈ (Script.body d (rendering d q)).free) :
    s ∈ q.binders ∨ (∃ g ∈ q.generators, s ∈ (g.source.script d).free)
      ∨ ∃ n ∈ q.expressions, ∃ m ∈ parts n, s ∈ (m.item d).free := by
  have collects := Script.collects_free
  have whole : ∀ n ∈ q.expressions, s ∈ (n.script d).free →
      ∃ n ∈ q.expressions, ∃ m ∈ parts n, s ∈ (m.item d).free :=
    fun n hn hs => ⟨n, hn, n, List.mem_cons_self, mem_free_item hs⟩
  rw [collects.body, free_modifiers, List.nil_append] at hs
  simp only [List.mem_append] at hs
  rcases hs with (((hs | hs) | hs) | hs) | hs
  · cases hp : q.projection with
    | none =>
      rw [collects.select_none d q hp] at hs
      split at hs <;> cases hs
    | some p =>
      rw [collects.select d q hp] at hs
      obtain ⟨m, hm, hs⟩ := List.mem_flatMap.mp hs
      have hp : p ∈ q.expressions := Clauses.mem_expressions_iff.mpr (.inr (.inr (.inr hp)))
      exact .inr (.inr ⟨p, hp, m, List.mem_cons_of_mem _ (List.mem_append_left _ hm), hs⟩)
  · rw [collects.from_] at hs
    obtain ⟨g, hg, hs⟩ := List.mem_flatMap.mp hs
    rcases List.mem_append.mp hs with hs | hs
    · exact .inr (.inl ⟨g, hg, mem_free_source hs⟩)
    · rw [List.mem_singleton.mp hs]
      exact .inl (List.mem_map_of_mem hg)
  · rw [collects.filters] at hs
    obtain ⟨n, hn, hs⟩ := List.mem_flatMap.mp hs
    exact .inr (.inr (whole n (Clauses.mem_expressions_iff.mpr (.inl hn)) hs))
  · rw [collects.groupBy] at hs
    obtain ⟨m, hm, hs⟩ := List.mem_flatMap.mp hs
    cases hk : q.groupBy with
    | none => rw [hk] at hm; cases hm
    | some key =>
      rw [hk] at hm
      have hkey : key ∈ q.expressions := Clauses.mem_expressions_iff.mpr (.inr (.inl hk))
      exact .inr (.inr ⟨key, hkey, m, List.mem_cons_of_mem _ (List.mem_append_right _ hm),
        mem_free_item hs⟩)
  · rw [collects.orderBy] at hs
    obtain ⟨n, hn, hs⟩ := List.mem_flatMap.mp hs
    obtain ⟨k, hk, rfl⟩ := List.mem_map.mp (SortKey.mem_written.mp hn)
    have hkey : k.key ∈ q.expressions :=
      Clauses.mem_expressions_iff.mpr (.inr (.inr (.inl ⟨k, hk, rfl⟩)))
    exact .inr (.inr (whole k.key hkey hs))

end Query

theorem Clauses.mem_freeSources {ν : Type} {free : ν → List Symbol} {s : Symbol}
    {gs : List (Generator ν)} {g : Generator ν} (hg : g ∈ gs) (hs : s ∈ free g.source)
    (hbinders : s ∉ gs.map Generator.binder) : ∀ {earlier : List Symbol}, s ∉ earlier →
    s ∈ freeSources free earlier gs := by
  induction gs with
  | nil => cases hg
  | cons g' gs ih =>
    intro earlier hearlier
    rw [List.map_cons, List.mem_cons, not_or] at hbinders
    rw [freeSources, List.mem_append]
    rcases List.mem_cons.mp hg with rfl | hg
    · exact .inl (List.mem_filter.mpr ⟨hs, decide_eq_true hearlier⟩)
    · refine .inr (ih hg hbinders.2 ?_)
      simp [hearlier, hbinders.1]

namespace Node

theorem freeSymbols_of_mem_children {t : Shape Node} (hquery : ∀ q, t ≠ .query q) {n : Node}
    (hn : n ∈ t.children) : n.freeSymbols ⊆ (mk t).freeSymbols := by
  have composed : t.IsComposed → n.freeSymbols ⊆ (mk t).freeSymbols := by
    intro ht s hs
    rw [freeSymbols_mk ht]
    exact List.mem_flatMap.mpr ⟨n, hn, hs⟩
  cases t with
  | query q => exact absurd rfl (hquery q)
  | row _ | column _ _ => cases hn
  | _ => exact composed trivial

theorem freeSymbols_part {n m : Node} (hm : m ∈ Query.parts n) : m.freeSymbols ⊆ n.freeSymbols := by
  rcases List.mem_cons.mp hm with rfl | hm
  · exact List.Subset.refl _
  have hm := List.mem_append.mp hm
  obtain ⟨t⟩ := n
  cases t with
  | product items =>
    exact freeSymbols_of_mem_children (Shape.ne_query id) (hm.elim id id)
  | record fields =>
    rcases hm with hm | hm
    · exact freeSymbols_of_mem_children (Shape.ne_query id) hm
    · rw [List.mem_singleton.mp hm]
      exact List.Subset.refl _
  | _ =>
    rw [List.mem_singleton.mp (hm.elim id id)]
    exact List.Subset.refl _

variable {d : Dialect}

theorem free_item_subset {n : Node} (h : (n.script d).free ⊆ n.freeSymbols) :
    (n.item d).free ⊆ n.freeSymbols := by
  rcases n.item_cases d with ⟨s, rfl, hn⟩ | hn
  · rw [hn, freeSymbols_row]
    exact List.Subset.refl _
  · rwa [hn]

theorem free_expression_subset {t : Shape Node} (hquery : ∀ q, t ≠ .query q)
    (ih : ∀ n ∈ t.children, (n.script d).free ⊆ n.freeSymbols) :
    ((mk t).script d).free ⊆ (mk t).freeSymbols := by
  intro s hs
  by_cases ht : t.Writable d
  · rw [Script.collects_free.expression d ht hquery] at hs
    rcases List.mem_append.mp hs with hs | hs
    · obtain ⟨name, rfl⟩ := mem_free_own hs
      rw [freeSymbols_column]
      exact List.mem_cons_self
    · obtain ⟨n, hn, hs⟩ := List.mem_flatMap.mp hs
      have hn := Shape.mem_written.mp hn
      exact freeSymbols_of_mem_children hquery hn (ih n hn hs)
  · rcases script_of_not_writable ht with h | ⟨construct, h⟩ <;> rw [h] at hs <;> cases hs

end Node

/-- **The symbols that a script needs are those that its tree refers to and does not bind.** -/
theorem Query.free_subset_freeSymbols (d : Dialect) :
    (∀ n : Node, (n.script d).free ⊆ n.freeSymbols)
      ∧ ∀ q : Query, (script d q).free ⊆ freeSymbols q := by
  refine writing_induct d ?_ ?_ ?_ ?_ ?_
  · intro t hquery ih
    exact Node.free_expression_subset hquery ih
  · intro q hq
    rw [Script.collects_free.subquery, Node.freeSymbols_query]
    exact hq
  · intro q hd ih s hs
    rw [script_eq_clauses hd, Script.clauses, Script.collects_free.append, free_checkPaging,
      List.nil_append] at hs
    obtain ⟨hs, hbinders⟩ := List.mem_filter.mp hs
    have hbinders : s ∉ q.binders := by simpa [rendering] using hbinders
    refine mem_freeSymbols_iff.mpr ?_
    rcases mem_free_body hs with hs | ⟨g, hg, hs⟩ | ⟨n, hn, m, hm, hs⟩
    · exact absurd hs hbinders
    · have hs := (ih _ (Clauses.source_mem_children hg)).1 hs
      exact .inl (Clauses.mem_freeSources hg hs hbinders List.not_mem_nil)
    · have hm' := (ih n (List.mem_append_right _ hn)).part hm
      exact .inr ⟨hbinders, n, hn, Node.freeSymbols_part hm (Node.free_item_subset hm' hs)⟩
  · intro q p hd hn hp s hs
    rw [script_of_numbers hd, hn] at hs
    exact (mem_freeSymbols_numberRows hn).mp (hp hs)
  · intro q e hd hn s hs
    rw [script_of_numbers hd, hn] at hs
    cases hs

/-! ## Symbols in scope -/

/-- What the checked sources refer to is in scope, if no generator before them binds it. -/
theorem Clauses.freeSources_subset {ν : Type} {check : ν → ScopeCheck} {free : ν → List Symbol}
    {scope : List Symbol} {gs : List (Generator ν)}
    (h : ∀ g ∈ gs, ∀ scope, check g.source scope = .ok () → free g.source ⊆ scope) :
    ∀ {bound earlier result : List Symbol}, bound ⊆ earlier →
      checkGenerators check scope bound gs = .ok result → freeSources free earlier gs ⊆ scope := by
  induction gs with
  | nil => intro bound earlier result _ _ s hs; cases hs
  | cons g gs ih =>
    intro bound earlier result hbound hcheck s hs
    rw [checkGenerators] at hcheck
    obtain ⟨_, hsource, hcheck⟩ := bind_eq_ok_iff.mp hcheck
    rcases List.mem_append.mp hs with hs | hs
    · obtain ⟨hs, hearlier⟩ := List.mem_filter.mp hs
      rcases List.mem_append.mp (h g List.mem_cons_self _ hsource hs) with hs | hs
      · exact absurd (hbound hs) (of_decide_eq_true hearlier)
      · exact hs
    · by_cases hbinder : g.binder ∈ bound
      · rw [if_pos hbinder] at hcheck
        cases hcheck
      · rw [if_neg hbinder] at hcheck
        refine ih (fun g' hg' => h g' (List.mem_cons_of_mem _ hg')) ?_ hcheck hs
        intro t ht
        rcases List.mem_cons.mp ht with rfl | ht
        · exact List.mem_append_right _ List.mem_cons_self
        · exact List.mem_append_left _ (hbound ht)

/-- What a checked query refers to is in scope, if that is so for its children. -/
theorem Query.freeSymbols_subset_of_checked {q : Query} {scope : List Symbol}
    (h : ∀ n ∈ q.children, ∀ scope, n.checkScope scope = .ok () → n.freeSymbols ⊆ scope)
    (hscope : q.checkScopeLayer Node.checkScope scope = .ok ()) : freeSymbols q ⊆ scope := by
  obtain ⟨bound, hbound, hgenerators, hexpressions⟩ := Clauses.checkScopeLayer_eq_ok hscope
  intro s hs
  rcases mem_freeSymbols_iff.mp hs with hs | ⟨hbinders, n, hn, hs⟩
  · exact Clauses.freeSources_subset (fun g hg => h _ (Clauses.source_mem_children hg))
      (List.Subset.refl _) hgenerators hs
  · have hs := h n (List.mem_append_right _ hn) _ (hexpressions n hn) hs
    rcases List.mem_append.mp hs with hs | hs
    · exact absurd ((hbound s).mp hs) hbinders
    · exact hs

/-- **What a checked tree refers to is in scope.** -/
theorem Node.freeSymbols_subset_scope : ∀ (n : Node) scope, n.checkScope scope = .ok () →
    n.freeSymbols ⊆ scope := by
  refine Node.induct fun t ih scope hscope s hs => ?_
  have composed : t.IsComposed → s ∈ scope := by
    intro ht
    rw [freeSymbols_mk ht] at hs
    obtain ⟨n, hn, hs⟩ := List.mem_flatMap.mp hs
    refine ih n hn scope (checkScope_of_mem_children hscope ?_ hn) hs
    rintro q rfl
    exact ht
  cases t with
  | query q =>
    rw [freeSymbols_query] at hs
    rw [checkScope_mk] at hscope
    exact Query.freeSymbols_subset_of_checked ih hscope hs
  | row source =>
    rw [freeSymbols_row] at hs
    rw [List.mem_singleton.mp hs]
    exact mem_of_checkScope (.inl rfl) hscope
  | column source name =>
    rw [freeSymbols_column] at hs
    rw [List.mem_singleton.mp hs]
    exact mem_of_checkScope (.inr ⟨name, rfl⟩) hscope
  | _ => exact composed trivial

namespace Query

variable {d : Dialect}

/-- **The symbols that a script needs are in the scope of its tree.** -/
theorem free_subset_scope (d : Dialect) :
    (∀ (n : Node) scope, n.checkScope scope = .ok () → (n.script d).free ⊆ scope)
      ∧ ∀ (q : Query) scope, q.checkScopeLayer Node.checkScope scope = .ok () →
          (script d q).free ⊆ scope := by
  constructor
  · intro n scope hscope
    exact List.Subset.trans ((free_subset_freeSymbols d).1 n)
      (n.freeSymbols_subset_scope scope hscope)
  · intro q scope hscope
    exact List.Subset.trans ((free_subset_freeSymbols d).2 q)
      (freeSymbols_subset_of_checked (fun n _ => n.freeSymbols_subset_scope) hscope)

/-! ## No alias is missing -/

/-- A script whose checks are gates and whose symbols have aliases does not fail for an alias. -/
theorem output_ne_unbound {σ : Script} {aliases : Aliases} {nested : Bool} {count : Nat}
    {cs : List Capability} (hgates : ∀ e ∈ σ.checks nested, d.Gate cs e)
    (hfree : ∀ s ∈ σ.free, aliases s ≠ none) (s : Symbol) :
    σ.output aliases nested count ≠ .error (.malformed (.unbound s)) := by
  intro h
  rcases Script.output_eq_error h with h | ⟨t, ht, hnone, -⟩
  · rcases hgates _ h with ⟨c, -, hc⟩ | h
    · rw [Dialect.require] at hc
      split at hc <;> cases hc
    · exact Bool.noConfusion (h _ rfl)
  · exact hfree t ht hnone

theorem unreserved_checkScope (q : Query) : Unreserved (checkScope q) :=
  Clauses.unreserved_checkScopeLayer (fun n _ => Node.unreserved_checkScope n) []

end Query

namespace Target

theorem ofQuery_eq_ok {statement : String} {q : Query} {t : Target}
    (h : ofQuery statement q = .ok t) : q.generators = [⟨t.binder, .table t.table⟩] := by
  rw [ofQuery.eq_def] at h
  split at h
  · next binder table hq =>
    split at h
    · cases h
    · cases h
      exact hq
  · cases h

theorem unreserved_ofQuery (statement : String) (q : Query) :
    Unreserved (ofQuery statement q) := by
  rw [ofQuery.eq_def]
  split
  · split
    · exact unreserved_error rfl
    · exact unreserved_ok _
  · exact unreserved_error rfl

theorem unreserved_columnNames (statement : String) (source : Option Symbol) (ns : List Node) :
    Unreserved (columnNames statement source ns) := by
  rw [columnNames]
  induction ns with
  | nil => exact unreserved_ok _
  | cons n ns ih =>
    rw [List.mapM_cons]
    refine Unreserved.bind ?_ fun _ => ih.bind fun _ => unreserved_ok _
    split
    · split
      · exact unreserved_ok _
      · exact unreserved_error rfl
    · exact unreserved_error rfl

end Target

theorem Update.unreserved_targets (q : Query) : Unreserved (targets q) := by
  rw [targets.eq_def]
  split
  · exact unreserved_ok _
  · exact unreserved_ok _
  · exact unreserved_ok _
  · exact unreserved_error rfl

namespace Query

/-- The filters of a statement about a target need an alias for nothing but the target. -/
theorem output_filters_ne_unbound {d : Dialect} {q : Query} {statement : String} {t : Target}
    (hscope : checkScope q = .ok ()) (ht : Target.ofQuery statement q = .ok t) (s : Symbol) :
    (Script.filters (rendering d q)).output t.aliases false 0
      ≠ .error (.malformed (.unbound s)) := by
  have hgates : ∀ e ∈ (Script.filters (rendering d q)).checks false, d.Gate (needs false q) e := by
    intro e he
    rw [(Script.collects_checks false).filters] at he
    obtain ⟨n, hn, he⟩ := List.mem_flatMap.mp he
    exact ((gates d).1 n false e he).mono (required_subset_needs (Clauses.filter_mem_children hn))
  have hfree : ∀ u ∈ (Script.filters (rendering d q)).free, t.aliases u ≠ none := by
    intro u hu
    rw [Script.collects_free.filters] at hu
    obtain ⟨n, hn, hu⟩ := List.mem_flatMap.mp hu
    obtain ⟨bound, hbound, -, hexpressions⟩ := Clauses.checkScopeLayer_eq_ok hscope
    have hnscope := hexpressions n (Clauses.mem_expressions_iff.mpr (.inl hn))
    have hmem : u ∈ q.binders := by
      have := (free_subset_scope d).1 n _ hnscope hu
      rw [List.append_nil] at this
      exact (hbound u).mp this
    rw [Clauses.binders, Target.ofQuery_eq_ok ht] at hmem
    rw [Target.aliases, if_pos (List.mem_singleton.mp hmem)]
    exact Option.some_ne_none _
  exact output_ne_unbound hgates hfree s

/-- **No statement fails for a missing alias**: a select statement, an update or a delete of a
query that passes the scope check finds an alias for every symbol it refers to, however deep, on
every dialect. -/
theorem unbound_never_raised (d : Dialect) (q : Query) (s : Symbol) :
    q.compile d ≠ .error (.malformed (.unbound s))
      ∧ q.compileUpdate d ≠ .error (.malformed (.unbound s))
      ∧ q.compileDelete d ≠ .error (.malformed (.unbound s)) := by
  have reserved : ∀ {α : Type} {x : Except Error α}, Unreserved x →
      x ≠ .error (.malformed (.unbound s)) := fun hx h => Bool.noConfusion (hx _ h)
  refine ⟨fun h => ?_, fun h => ?_, fun h => ?_⟩
  · rw [compile_eq] at h
    rcases bind_eq_error_iff.mp h with h | ⟨_, hscope, h⟩
    · exact reserved (unreserved_checkScope q) h
    rcases bind_eq_error_iff.mp h with h | ⟨_, -, h⟩
    · refine output_ne_unbound ((gates d).2 q false) (fun t ht => ?_) s h
      cases (free_subset_scope d).2 q [] hscope ht
    · cases h
  · rw [compileUpdate_eq] at h
    rcases bind_eq_error_iff.mp h with h | ⟨_, hscope, h⟩
    · exact reserved (unreserved_checkScope q) h
    rcases bind_eq_error_iff.mp h with h | ⟨t, ht, h⟩
    · exact reserved (Target.unreserved_ofQuery _ q) h
    rcases bind_eq_error_iff.mp h with h | ⟨ns, -, h⟩
    · exact reserved (Update.unreserved_targets q) h
    rcases bind_eq_error_iff.mp h with h | ⟨columns, -, h⟩
    · exact reserved (Target.unreserved_columnNames _ _ ns) h
    rcases bind_eq_error_iff.mp h with h | ⟨_, -, h⟩
    · exact output_filters_ne_unbound hscope ht s h
    · cases h
  · rw [compileDelete_eq] at h
    rcases bind_eq_error_iff.mp h with h | ⟨_, hscope, h⟩
    · exact reserved (unreserved_checkScope q) h
    rcases bind_eq_error_iff.mp h with h | ⟨t, ht, h⟩
    · exact reserved (Target.unreserved_ofQuery _ q) h
    rcases bind_eq_error_iff.mp h with h | ⟨_, -, h⟩
    · exact output_filters_ne_unbound hscope ht s h
    · cases h

end Query
end SqlCompiler
