import SqlCompiler.Proofs.Refreshing
import SqlCompiler.Proofs.Replacement

/-!
# Functions on the children of a query

`Clauses.mapM` takes a query apart clause by clause: one function is for the sources of the
generators, another for everything else, and either may fail.  `Clauses.refill` knows the children
of a query only as one list.  The two agree: the results of both functions, in the order of the
children, are put back into the places of the children.

The binders stay, so what a child may refer to is the same before and after.  A query whose children
are replaced by nodes that are well scoped where the children stand is well scoped itself.

* `Clauses.refill_append` — what is put where, clause by clause.
* `Clauses.mapM_eq_refill` — the agreement, for functions with any effects.
* `Clauses.mapM_eq_ok` — what is known of a query that results.
* `Query.checkScope_mapped` — a query with other children that are well scoped in their places.
* `Query.mapM_exact` — all of this for functions that may fail.
-/

set_option autoImplicit false
namespace SqlCompiler

/-! ## Effects in order -/

section
variable {m : Type → Type} [Monad m] [LawfulMonad m] {α β γ δ : Type}

/-- What follows a list of effects has to do with as many results only. -/
theorem bind_mapM_congr {f : α → m β} {l : List α} : ∀ {k k' : List β → m γ},
    (∀ bs, bs.length = l.length → k bs = k' bs) → l.mapM f >>= k = l.mapM f >>= k' := by
  induction l with
  | nil =>
    intro k k' h
    simp only [List.mapM_nil, pure_bind]
    exact h [] rfl
  | cons a l ih =>
    intro k k' h
    simp only [List.mapM_cons, bind_assoc, pure_bind]
    exact bind_congr fun b => ih fun bs hbs => h (b :: bs) (congrArg (· + 1) hbs)

/-- Results that are put in place at once may be put in place at the end. -/
theorem mapM_eq_zipWith (place : α → β → γ) (child : α → δ) (f : δ → m β) (l : List α) :
    (l.mapM fun a => do return place a (← f (child a)))
      = do return List.zipWith place l (← (l.map child).mapM f) := by
  induction l with
  | nil => simp
  | cons a l ih =>
    simp only [List.mapM_cons, List.map_cons, ih, bind_assoc, pure_bind, List.zipWith_cons_cons]

theorem mapM_eq_head? (f : α → m β) (o : Option α) :
    o.mapM f = do
      let bs ← o.toList.mapM f
      return o.bind fun _ => bs.head? := by
  cases o <;> simp [List.mapM_cons]

end

/-- A result stands where what it is the result of stands. -/
theorem exists_of_mapM {α β : Type} {f : α → Except Error β} {l : List α} {out : List β}
    (h : l.mapM f = .ok out) (i : Nat) (b : β) (hb : out[i]? = some b) :
    ∃ a, l[i]? = some a ∧ f a = .ok b := by
  obtain ⟨hlength, hresults⟩ := getElem?_of_mapM h
  obtain ⟨hi, -⟩ := List.getElem?_eq_some_iff.mp hb
  have ha : l[i]? = some l[i] := List.getElem?_eq_getElem (hlength ▸ hi)
  obtain ⟨b', hb', hf⟩ := hresults i _ ha
  cases hb.symm.trans hb'
  exact ⟨_, ha, hf⟩

theorem zipWith_append_right {α β γ : Type} (f : α → β → γ) {l : List α} {bs : List β}
    (h : bs.length = l.length) (rest : List β) :
    List.zipWith f l (bs ++ rest) = List.zipWith f l bs := by
  have happend : List.zipWith f (l ++ []) (bs ++ rest)
      = List.zipWith f l bs ++ List.zipWith f [] rest := List.zipWith_append h.symm
  rwa [List.append_nil, List.zipWith_nil_left, List.append_nil] at happend

namespace Clauses

variable {ν μ : Type}

/-- What is put where: a list of children that is made up of one list for each clause. -/
theorem refill_append {q : Clauses ν} {sources filters group keys projection : List μ}
    (hsources : sources.length = q.generators.length) (hfilters : filters.length = q.filters.length)
    (hgroup : group.length = q.groupBy.toList.length) (hkeys : keys.length = q.orderBy.length) :
    q.refill (sources ++ (filters ++ group ++ keys ++ projection))
      = { generators := q.generators.zipWith (fun g c => ⟨g.binder, c⟩) sources
          filters
          groupBy := q.groupBy.bind fun _ => group.head?
          orderBy := q.orderBy.zipWith (fun k c => ⟨c, k.order⟩) keys
          projection := q.projection.bind fun _ => projection.head?
          fetch := q.fetch
          offset := q.offset } := by
  -- a group key takes the first of the children left, which is its own
  have hhead : (q.groupBy.bind fun _ => (group ++ (keys ++ projection)).head?)
      = q.groupBy.bind fun _ => group.head? := by
    cases hg : q.groupBy with
    | none => rfl
    | some key =>
      rw [hg] at hgroup
      obtain ⟨c, rfl⟩ := List.length_eq_one_iff.mp hgroup
      rfl
  simp only [refill, List.append_assoc, List.drop_left' hsources, List.take_left' hfilters,
    List.drop_left' hfilters, List.drop_left' hgroup, List.drop_left' hkeys,
    zipWith_append_right _ hsources, zipWith_append_right _ hkeys, hhead]

/-- **Two functions are carried out on the children in their order, and their results are put into
the places of the children.** -/
theorem mapM_eq_refill {m : Type → Type} [Monad m] [LawfulMonad m] (f g : ν → m μ)
    (q : Clauses ν) :
    q.mapM f g = do
      let sources ← q.sources.mapM f
      let expressions ← q.expressions.mapM g
      return q.refill (sources ++ expressions) := by
  simp only [mapM, mapM_eq_zipWith _ Generator.source, mapM_eq_zipWith _ SortKey.key,
    mapM_eq_head?, sources, expressions, List.mapM_append, bind_assoc, pure_bind]
  refine bind_mapM_congr fun ss hss => bind_mapM_congr fun fs hfs => bind_mapM_congr fun gs hgs =>
    bind_mapM_congr fun ks hks => bind_congr fun ps => ?_
  rw [List.length_map] at hss hks
  rw [refill_append hss hfs hgs hks]

theorem take_children (q : Clauses ν) : q.children.take q.generators.length = q.sources :=
  List.take_left' (List.length_map _)

theorem drop_children (q : Clauses ν) : q.children.drop q.generators.length = q.expressions :=
  List.drop_left' (List.length_map _)

theorem frame_refill {q : Clauses ν} {cs : List μ} (h : cs.length = q.children.length) :
    (q.refill cs).frame = q.frame :=
  Shape.query.inj (Shape.frame_refill (s := .query q) h)

section
variable {p : Clauses μ} {q : Clauses ν} (h : p.frame = q.frame)
include h

theorem binders_eq_of_frame : p.binders = q.binders := by
  simpa [frame] using congrArg binders h

theorem orders_eq_of_frame : p.orderBy.map SortKey.order = q.orderBy.map SortKey.order := by
  simpa [frame, map, Function.comp_def] using congrArg (fun c => c.orderBy.map SortKey.order) h

theorem page_eq_of_frame : p.fetch = q.fetch ∧ p.offset = q.offset := by
  exact ⟨congrArg Clauses.fetch h, congrArg Clauses.offset h⟩

theorem length_sources_eq_of_frame : p.sources.length = q.sources.length := by
  simpa [binders, sources] using congrArg List.length (binders_eq_of_frame h)

end

section
variable {f g : ν → Except Error μ} {q : Clauses ν}

/-- There are as many results as children. -/
theorem length_results {ss es : List μ} (hss : q.sources.mapM f = .ok ss)
    (hes : q.expressions.mapM g = .ok es) : (ss ++ es).length = q.children.length := by
  rw [children, List.length_append, List.length_append, (getElem?_of_mapM hss).1,
    (getElem?_of_mapM hes).1]

/-- A query that results has the results for children, and is the same besides. -/
theorem mapM_eq_ok {p : Clauses μ} (h : q.mapM f g = .ok p) :
    q.sources.mapM f = .ok p.sources ∧ q.expressions.mapM g = .ok p.expressions
      ∧ p.frame = q.frame := by
  rw [mapM_eq_refill] at h
  obtain ⟨ss, hss, h⟩ := bind_eq_ok_iff.mp h
  obtain ⟨es, hes, h⟩ := bind_eq_ok_iff.mp h
  cases h
  have hlength := length_results hss hes
  have hframe := frame_refill hlength
  have hchildren : (q.refill (ss ++ es)).sources ++ (q.refill (ss ++ es)).expressions = ss ++ es :=
    Shape.children_refill (s := .query q) hlength
  obtain ⟨hsources, hexpressions⟩ := List.append_inj hchildren
    ((length_sources_eq_of_frame hframe).trans (getElem?_of_mapM hss).1.symm)
  exact ⟨by rw [hsources, hss], by rw [hexpressions, hes], hframe⟩

/-- There is a query that results if there is a result for every child. -/
theorem exists_mapM_eq_ok (hf : ∀ n ∈ q.sources, ∃ n', f n = .ok n')
    (hg : ∀ n ∈ q.expressions, ∃ n', g n = .ok n') : ∃ p, q.mapM f g = .ok p := by
  obtain ⟨ss, hss⟩ := exists_mapM_eq_ok_iff.mpr hf
  obtain ⟨es, hes⟩ := exists_mapM_eq_ok_iff.mpr hg
  rw [mapM_eq_refill, hss, hes]
  exact ⟨_, rfl⟩

end

end Clauses

/-! ## Children that are well scoped in their places -/

/-- The order of a scope does not matter to the check. -/
theorem Node.checkScope_congr {n : Node} {scope scope' : List Symbol}
    (h : ∀ s, s ∈ scope ↔ s ∈ scope') :
    n.checkScope scope = .ok () ↔ n.checkScope scope' = .ok () := by
  simp only [checkScope_eq_ok_iff_free, h]

namespace Query

/-- A query passes the check if it binds different symbols, each source passes it in sight of the
generators before it, and every other clause in sight of all of them. -/
theorem checkScope_of_positions {q : Query} {scope : List Symbol} (hbinders : q.binders.Nodup)
    (hsources : ∀ (i : Nat) n, q.sources[i]? = some n →
      n.checkScope (q.binders.take i ++ scope) = .ok ())
    (hexpressions : ∀ n ∈ q.expressions, n.checkScope (q.binders ++ scope) = .ok ()) :
    q.checkScopeLayer Node.checkScope scope = .ok () := by
  have hreverse : ∀ (n : Node) (seen : List Symbol), n.checkScope (seen ++ scope) = .ok () →
      n.checkScope (seen.reverse ++ scope) = .ok () :=
    fun n seen => (Node.checkScope_congr (by simp)).mp
  refine Clauses.checkScopeLayer_eq_ok_iff.mpr ⟨hbinders, fun seen n hmem => hreverse n seen ?_⟩
  rcases Clauses.mem_sights_iff.mp hmem with ⟨before, g, after, hgs, rfl, rfl⟩ | ⟨hn, rfl⟩
  · have hi : q.sources[before.length]? = some g.source := by simp [Clauses.sources, hgs]
    have hseen : q.binders.take before.length = before.map Generator.binder := by
      simp [Clauses.binders, hgs]
    rw [← hseen]
    exact hsources _ _ hi
  · exact hexpressions n (Clauses.clause_iff.mp hn)

section
variable {q : Query} {f g : Node → Except Error Node}

/-- The results replace the children. -/
theorem mapM_eq_replaceChildren (q : Query) (f g : Node → Except Error Node) :
    q.mapM f g = (do
      let sources ← q.sources.mapM f
      let expressions ← q.expressions.mapM g
      q.replaceChildren (sources ++ expressions)) := by
  rw [Clauses.mapM_eq_refill]
  cases hss : q.sources.mapM f with
  | error e => rfl
  | ok ss =>
    cases hes : q.expressions.mapM g with
    | error e => rfl
    | ok es => exact (if_pos (Clauses.length_results hss hes)).symm

/-- **Nodes that are well scoped in the places of the children make a well-scoped query.** -/
theorem checkScope_mapped {p : Query} {scope : List Symbol} (hp : q.mapM f g = .ok p)
    (hq : q.checkScopeLayer Node.checkScope scope = .ok ())
    (hf : ∀ (i : Nat) n n', q.sources[i]? = some n → f n = .ok n' →
      n'.checkScope (q.binders.take i ++ scope) = .ok ())
    (hg : ∀ n ∈ q.expressions, ∀ n', g n = .ok n' →
      n'.checkScope (q.binders ++ scope) = .ok ()) :
    p.checkScopeLayer Node.checkScope scope = .ok () := by
  obtain ⟨hsources, hexpressions, hframe⟩ := Clauses.mapM_eq_ok hp
  have hbinders := Clauses.binders_eq_of_frame hframe
  refine checkScope_of_positions ?_ (fun i n' hn' => ?_) fun n' hn' => ?_
  · rw [hbinders]
    exact (Clauses.checkScopeLayer_eq_ok_iff.mp hq).1
  · obtain ⟨n, hn, hf'⟩ := exists_of_mapM hsources i n' hn'
    rw [hbinders]
    exact hf i n n' hn hf'
  · obtain ⟨i, hi⟩ := List.mem_iff_getElem?.mp hn'
    obtain ⟨n, hn, hg'⟩ := exists_of_mapM hexpressions i n' hi
    rw [hbinders]
    exact hg n (List.mem_of_getElem? hn) n' hg'

end

/-- **Two functions on the children of a query.**  One is for the sources, the other for every other
child.  They are carried out in the order of the children up to the first failure, and the results
are the children of the new query; nothing but children changes.  If the functions return nodes that
are well scoped where the children stand, the new query is accepted wherever the old one is. -/
theorem mapM_exact (q : Query) (f g : Node → Except Error Node) :
    (q.mapM f g = do
        let sources ← (q.children.take q.generators.length).mapM f
        let expressions ← (q.children.drop q.generators.length).mapM g
        q.replaceChildren (sources ++ expressions))
      ∧ (∀ p, q.mapM f g = .ok p →
          p.binders = q.binders ∧ p.orderBy.map SortKey.order = q.orderBy.map SortKey.order
            ∧ p.fetch = q.fetch ∧ p.offset = q.offset)
      ∧ ∀ scope, q.checkScopeLayer Node.checkScope scope = .ok () →
          (∀ (i : Nat) n, q.sources[i]? = some n →
            ∃ n', f n = .ok n' ∧ n'.checkScope (q.binders.take i ++ scope) = .ok ()) →
          (∀ n ∈ q.expressions,
            ∃ n', g n = .ok n' ∧ n'.checkScope (q.binders ++ scope) = .ok ()) →
          ∃ p, q.mapM f g = .ok p ∧ p.checkScopeLayer Node.checkScope scope = .ok () := by
  refine ⟨?_, fun p hp => ?_, fun scope hq hf hg => ?_⟩
  · rw [Clauses.take_children, Clauses.drop_children]
    exact mapM_eq_replaceChildren q f g
  · obtain ⟨-, -, hframe⟩ := Clauses.mapM_eq_ok hp
    exact ⟨Clauses.binders_eq_of_frame hframe, Clauses.orders_eq_of_frame hframe,
      Clauses.page_eq_of_frame hframe⟩
  · have hsource : ∀ n ∈ q.sources, ∃ n', f n = .ok n' := by
      intro n hn
      obtain ⟨i, hi⟩ := List.mem_iff_getElem?.mp hn
      obtain ⟨n', hn', -⟩ := hf i n hi
      exact ⟨n', hn'⟩
    have hexpression : ∀ n ∈ q.expressions, ∃ n', g n = .ok n' := by
      intro n hn
      obtain ⟨n', hn', -⟩ := hg n hn
      exact ⟨n', hn'⟩
    obtain ⟨p, hp⟩ := Clauses.exists_mapM_eq_ok hsource hexpression
    refine ⟨p, hp, checkScope_mapped hp hq (fun i n n' hn hn' => ?_) fun n hn n' hn' => ?_⟩
    · obtain ⟨_, hresult, hcheck⟩ := hf i n hn
      cases hn'.symm.trans hresult
      exact hcheck
    · obtain ⟨_, hresult, hcheck⟩ := hg n hn
      cases hn'.symm.trans hresult
      exact hcheck

/-- The second source refers to the first generator, and the filter to a symbol of an enclosing
query.  Each source becomes that of another query, and each other child is negated. -/
theorem mapM_exact_correlated :
    let user : Symbol := ⟨3, 1⟩
    let order : Symbol := ⟨0, 0⟩
    let line : Symbol := ⟨1, 0⟩
    let q : Query := {
      generators := [⟨order, .table "orders"⟩, ⟨line, .query {
        generators := [⟨line, .table "lines"⟩]
        filters := [.binary .eq (.column line "order") (.column order "id")] }⟩]
      filters := [.binary .eq (.column order "user") (.column user "id")]
      orderBy := [⟨.column line "price", .ascending⟩]
      fetch := some 5 }
    let f (n : Node) : Except Error Node := .ok (.query { generators := [⟨⟨7, 0⟩, n⟩] })
    let g (n : Node) : Except Error Node := .ok n.not
    q.checkScopeLayer Node.checkScope [user] = .ok ()
      ∧ ∃ p, q.mapM f g = .ok p ∧ p.binders = [order, line] ∧ p.fetch = some 5
        ∧ p.checkScopeLayer Node.checkScope [user] = .ok () := by
  intro user order line q f g
  have hscope : q.checkScopeLayer Node.checkScope [user] = .ok () := by decide +kernel
  obtain ⟨-, hkept, haccepted⟩ := mapM_exact q f g
  obtain ⟨p, hp, hcheck⟩ := haccepted [user] hscope
    (fun i n hn => by
      rcases i with _ | _ | i
      · cases hn; exact ⟨_, rfl, by decide +kernel⟩
      · cases hn; exact ⟨_, rfl, by decide +kernel⟩
      · cases hn)
    (fun n hn => by
      refine ⟨_, rfl, ?_⟩
      revert n
      decide +kernel)
  obtain ⟨hbinders, -, hfetch, -⟩ := hkept p hp
  exact ⟨hscope, p, hp, hbinders, hfetch, hcheck⟩

end Query
end SqlCompiler
