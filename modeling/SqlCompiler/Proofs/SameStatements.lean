import Mathlib.Data.List.Forall2
import SqlCompiler.Proofs.Rescaling

/-!
# Queries that compare equal give equal statements

Queries that compare equal differ only in how decimals are written (`Query.rescaled_of_same`), in
their places or in the sign of a zero, and that is seen in one place of a statement only: where the
decimal is written into it.  So the two statements consist of the same pieces but for such decimals,
each of which stands as it is written, and for the decimals behind placeholders.  Everything else is
the same: the error, if there is no statement, the kinds of the placeholders, the number of columns
and the rows to skip.

* `Piece.Rescaled`, `Script.Rescaled` — pieces and scripts that differ only in this way.
* `Script.output_rescaled` — what such scripts write differs only in this way.
* `Script.Congruence` — relations that pass to lists of scripts and applications of functions.
* `Query.script_rescaled` — the scripts of trees that differ only in how decimals are written do.
* `Query.compile_of_same` — so do the statements of queries that compare equal.
* `Query.sql_ne_of_same` — a statement does show the places and the sign of such a decimal.
-/

set_option autoImplicit false
namespace SqlCompiler

open Number (Decimal)

/-! ## Pieces and scripts -/

/-- Pieces that differ only in how a decimal is written, which is among `ds` if it is written into
the statement. -/
inductive Piece.Rescaled (ds : List Decimal) : Piece → Piece → Prop where
  | refl (p : Piece) : Rescaled ds p p
  | constant {x y : Decimal} (mem : x ∈ ds) (same : x.same y = true) :
    Rescaled ds (.constant x.text) (.constant y.text)
  | placeholder (column : ColumnType) {x y : Decimal} (same : x.same y = true) :
    Rescaled ds (.placeholder ⟨column, .constant (.decimal x)⟩)
      (.placeholder ⟨column, .constant (.decimal y)⟩)

/-- Outputs whose pieces differ only in how decimals are written. -/
structure Output.Rescaled (ds : List Decimal) (x y : Output) : Prop where
  pieces : List.Forall₂ (Piece.Rescaled ds) x.pieces y.pieces
  aliasCount : x.aliasCount = y.aliasCount
  skipRows : x.skipRows = y.skipRows

/-- Scripts whose pieces differ only in how decimals are written. -/
inductive Script.Rescaled (ds : List Decimal) : Script → Script → Prop where
  | refl (σ : Script) : Rescaled ds σ σ
  | piece {p q : Piece} (h : p.Rescaled ds q) : Rescaled ds (.piece p) (.piece q)
  | append {σ σ' τ τ' : Script} (first : Rescaled ds σ σ') (second : Rescaled ds τ τ') :
    Rescaled ds (σ ++ τ) (σ' ++ τ')
  | scope (symbols : List Symbol) {σ τ : Script} (h : Rescaled ds σ τ) :
    Rescaled ds (.scope symbols σ) (.scope symbols τ)
  | deeper {σ τ : Script} (h : Rescaled ds σ τ) : Rescaled ds (.deeper σ) (.deeper τ)

variable {ds : List Decimal}

theorem Output.Rescaled.refl (o : Output) : o.Rescaled ds o :=
  ⟨List.forall₂_same.mpr fun p _ => .refl p, rfl, rfl⟩

theorem Output.Rescaled.append {x x' y y' : Output} (h : x.Rescaled ds x')
    (h' : y.Rescaled ds y') : (x.append y).Rescaled ds (x'.append y') where
  pieces := List.rel_append h.pieces h'.pieces
  aliasCount := h'.aliasCount
  skipRows := by rw [Output.append, Output.append, h.skipRows, h'.skipRows]

namespace Script

/-- **What such scripts write differs only in how decimals are written.** -/
theorem output_rescaled {σ τ : Script} (h : σ.Rescaled ds τ) :
    ∀ (aliases : Aliases) (nested : Bool) (count : Nat),
      Agree (Output.Rescaled ds) (σ.output aliases nested count)
        (τ.output aliases nested count) := by
  induction h with
  | refl σ =>
    intro aliases nested count
    cases σ.output aliases nested count with
    | error e => exact .error e
    | ok o => exact .ok (.refl o)
  | piece h =>
    intro aliases nested count
    exact .ok ⟨.cons h .nil, rfl, rfl⟩
  | append first second ih₁ ih₂ =>
    intro aliases nested count
    refine Agree.bind (ih₁ aliases nested count) fun x x' hx => ?_
    rw [hx.aliasCount]
    refine Agree.bind (ih₂ aliases nested x'.aliasCount) fun y y' hy => ?_
    exact .ok (hx.append hy)
  | scope symbols h ih => intro aliases nested count; exact ih _ nested _
  | deeper h ih => intro aliases nested count; exact ih aliases true count

/-- A relation between scripts that holds of words and passes to scripts put together. -/
structure Congruence (R : Script → Script → Prop) : Prop where
  done : R done done
  words : ∀ text, R (words text) (words text)
  append : ∀ {σ σ' τ τ'}, R σ σ' → R τ τ' → R (σ ++ τ) (σ' ++ τ')

namespace Congruence

variable {R : Script → Script → Prop} (hR : Congruence R)
include hR

theorem wordsIfAny (text : String) : R (wordsIfAny text) (wordsIfAny text) := by
  rw [Script.wordsIfAny]
  split
  · exact hR.done
  · exact hR.words text

variable {ι : Type} {l : List ι} {σ τ : ι → Script} (h : ∀ i ∈ l, R (σ i) (τ i))
include h

theorem eachAfter (separator : String) :
    R (eachAfter separator (l.map σ)) (eachAfter separator (l.map τ)) := by
  induction l with
  | nil => exact hR.done
  | cons i l ih =>
    exact hR.append (hR.append (hR.words separator) (h i List.mem_cons_self))
      (ih fun j hj => h j (List.mem_cons_of_mem _ hj))

theorem separated (separator : String) :
    R (separated separator (l.map σ)) (separated separator (l.map τ)) := by
  cases l with
  | nil => exact hR.done
  | cons i l =>
    exact hR.append (h i List.mem_cons_self)
      (hR.eachAfter (fun j hj => h j (List.mem_cons_of_mem _ hj)) separator)

theorem spelled (s : Spelling) : R (spelled s (l.map σ)) (spelled s (l.map τ)) := by
  refine hR.append (hR.append (hR.words s.opening) ?_) (hR.wordsIfAny s.closing)
  match l, h with
  | [], _ => exact hR.done
  | [i], h => exact h i List.mem_cons_self
  | i :: j :: rest, h =>
    refine hR.append (hR.append (hR.append (h i List.mem_cons_self) (hR.words s.first))
      (h j (List.mem_cons_of_mem _ List.mem_cons_self))) (hR.eachAfter (fun m hm => ?_) s.next)
    exact h m (List.mem_cons_of_mem _ (List.mem_cons_of_mem _ hm))

end Congruence

namespace Rescaled

theorem checked {α β : Type} {R : α → β → Prop} {x : Except Error α} {y : Except Error β}
    {f : α → Script} {g : β → Script} (h : Agree R x y)
    (hfg : ∀ a b, R a b → Rescaled ds (f a) (g b)) :
    Rescaled ds (.checked x f) (.checked y g) := by
  cases h with
  | error e => exact .refl _
  | ok h => exact hfg _ _ h

theorem congruence : Congruence (Rescaled ds) where
  done := .refl _
  words _ := .refl _
  append := .append

/-! ## Constants -/

theorem coerce {x y : Decimal} (kind : Kind) :
    Agree (fun v w => v = .decimal x ∧ w = .decimal y) ((Value.decimal x).coerce kind)
      ((Value.decimal y).coerce kind) := by
  cases kind with
  | decimal => exact .ok ⟨rfl, rfl⟩
  | _ => exact .error _

theorem toCell (x y : Decimal) (c : ColumnType) :
    Agree (fun _ _ => True) (c.toCell (.decimal x)) (c.toCell (.decimal y)) := by
  have hcoerce : ∀ kind, Agree (fun _ _ => True) ((Value.decimal x).coerce kind)
      ((Value.decimal y).coerce kind) := fun kind => (coerce kind).imp fun _ _ _ => trivial
  cases c with
  | numericBoolean _ _ | textUuid => exact .error _
  | bytea => exact hcoerce .bytes
  | standard kind _ _ | varbinary kind | datetime kind => exact hcoerce kind

/-- Both decimals are refused, or written alike, or each as it is. -/
theorem inline (x y : Decimal) (c : ColumnType) :
    Agree (fun s t => s = t ∨ s = x.text ∧ t = y.text) (c.inline (.decimal x))
      (c.inline (.decimal y)) := by
  cases c with
  | numericBoolean _ _ | textUuid | bytea => exact .error _
  | standard kind _ _ | varbinary kind =>
    refine Agree.bind (coerce kind) ?_
    rintro _ _ ⟨rfl, rfl⟩
    exact .ok (.inr ⟨rfl, rfl⟩)
  | datetime kind =>
    refine Agree.bind (coerce kind) ?_
    rintro _ _ ⟨rfl, rfl⟩
    exact .ok (.inl rfl)

theorem literal (d : Dialect) (kind : Kind) (bind : Bool) {x y : Decimal} (same : x.same y = true)
    (mem : bind = false → x ∈ ds) :
    Rescaled ds (.literal d ⟨kind, .decimal x, bind⟩) (.literal d ⟨kind, .decimal y, bind⟩) := by
  cases bind with
  | true => exact checked (toCell x y _) fun _ _ _ => .piece (.placeholder _ same)
  | false =>
    rw [Script.literal, Script.literal, if_neg Bool.false_ne_true, if_neg Bool.false_ne_true]
    change Rescaled ds (if kind = .blob ∧ true = true then _ else _)
      (if kind = .blob ∧ true = true then _ else _)
    split
    · exact .refl _
    · refine checked (inline x y _) ?_
      rintro s t (rfl | ⟨rfl, rfl⟩)
      · exact .refl _
      · exact .piece (.constant (mem rfl) same)

/-! ## Nodes -/

end Rescaled

/-- A tree whose script differs from that of another one only in how decimals are written, wherever
the trees do. -/
def WritesRescaled (d : Dialect) (ds : List Decimal) (n : Node) : Prop :=
  ∀ m, n.Rescaled ds m → Rescaled ds (n.script d) (m.script d)

namespace Rescaled

variable {d : Dialect}

theorem sortKeys {keys : List (SortKey (Node × Node))}
    (h : ∀ k ∈ keys, Rescaled ds (k.key.1.script d) (k.key.2.script d)) :
    Rescaled ds (.sortKeys d (keys.map fun k => ⟨k.key.1.rendering d, k.order⟩))
      (.sortKeys d (keys.map fun k => ⟨k.key.2.rendering d, k.order⟩)) := by
  rw [Script.sortKeys, Script.sortKeys, List.map_map, List.map_map]
  refine congruence.separated (fun k hk => ?_) _
  refine ((append ?_ (h k hk)).append (.refl _)).append (.refl _)
  dsimp only
  split
  · exact ((Rescaled.refl _).append (h k hk)).append (.refl _)
  · exact .refl _

/-- The same arguments are refused. -/
theorem checkSubquery (f : Function) {arguments : List (Node × Node)}
    (h : ∀ x ∈ arguments, x.1.Rescaled ds x.2) :
    Script.checkSubquery f (arguments.map fun x => (x.1.rendering d).shape)
      = Script.checkSubquery f (arguments.map fun x => (x.2.rendering d).shape) := by
  cases f with
  | hasRows =>
    match arguments, h with
    | [], _ => rfl
    | [x], h | x :: _ :: _, h =>
      obtain ⟨n, m⟩ := x
      have hx := h (n, m) List.mem_cons_self
      simp only [List.map_cons, Node.shape_rendering]
      cases hx with
      | decimal => rfl
      | places pairs _ => cases pairs <;> rfl
  | _ => rfl

theorem apply (f : Function) {arguments : List (Node × Node)}
    (h : ∀ x ∈ arguments, x.1.Rescaled ds x.2 ∧ Rescaled ds (x.1.script d) (x.2.script d)) :
    Rescaled ds (.apply d f (arguments.map fun x => x.1.rendering d))
      (.apply d f (arguments.map fun x => x.2.rendering d)) := by
  rw [Script.apply, Script.apply, List.length_map, List.length_map, List.map_map, List.map_map,
    List.map_map, List.map_map]
  refine (append (.refl _) ?_).append (congruence.spelled (fun x hx => (h x hx).2) _)
  rw [show (Rendering.shape ∘ fun x : Node × Node => x.1.rendering d)
    = fun x => (x.1.rendering d).shape from rfl, checkSubquery f fun x hx => (h x hx).1]
  exact .refl _

theorem conditional {branches : List (Branch (Node × Node))} {otherwise : Option (Node × Node)}
    (h : ∀ x ∈ (Shape.cases branches otherwise).children,
      Rescaled ds (x.1.script d) (x.2.script d)) :
    Rescaled ds
      (.conditional d (branches.map fun b => ⟨b.condition.1.rendering d, b.value.1.rendering d⟩)
        (otherwise.map fun x => x.1.rendering d))
      (.conditional d (branches.map fun b => ⟨b.condition.2.rendering d, b.value.2.rendering d⟩)
        (otherwise.map fun x => x.2.rendering d)) := by
  rw [Script.conditional.eq_def, Script.conditional.eq_def, List.isEmpty_map, List.isEmpty_map]
  split
  · exact .refl _
  · rw [List.map_map, List.map_map]
    refine ((append (.refl _) (congruence.separated (fun b hb => ?_) _)).append ?_).append (.refl _)
    · have hmem : ∀ x ∈ [b.condition, b.value], x ∈ (Shape.cases branches otherwise).children :=
        fun x hx => List.mem_append_left _ (List.mem_flatMap.mpr ⟨b, hb, hx⟩)
      exact ((h _ (hmem _ List.mem_cons_self)).append (.refl _)).append
        (h _ (hmem _ (List.mem_cons_of_mem _ List.mem_cons_self)))
    · cases otherwise with
      | none => exact .refl _
      | some x =>
        exact (Rescaled.refl _).append (h x (List.mem_append_right _ (List.mem_singleton_self x)))

theorem rowNumber {keys : List (SortKey (Node × Node))}
    (h : ∀ k ∈ keys, Rescaled ds (k.key.1.script d) (k.key.2.script d)) :
    Rescaled ds (.rowNumber d (keys.map fun k => ⟨k.key.1.rendering d, k.order⟩))
      (.rowNumber d (keys.map fun k => ⟨k.key.2.rendering d, k.order⟩)) := by
  rw [Script.rowNumber, Script.rowNumber, List.isEmpty_map, List.isEmpty_map]
  split
  · refine ((Rescaled.refl _).append ?_).append (.refl _)
    split
    · exact .refl _
    · exact sortKeys h
  · exact .refl _

/-- **A node that is no query**, from its children. -/
theorem expression {s : Shape Node} (hquery : ∀ q, s ≠ .query q)
    (ih : ∀ n ∈ s.children, WritesRescaled d ds n) : WritesRescaled d ds (.mk s) := by
  intro m hm
  cases hm with
  | decimal kind bind same mem =>
    rw [Node.script_literal, Node.script_literal]
    exact literal d kind bind same mem
  | places pairs hpairs =>
    have hscripts : ∀ x ∈ pairs.children, Rescaled ds (x.1.script d) (x.2.script d) := by
      intro x hx
      refine ih x.1 ?_ x.2 (hpairs x hx)
      rw [Shape.children_map]
      exact List.mem_map_of_mem hx
    cases pairs with
    | query q => exact absurd rfl (hquery _)
    | table _ | row _ | column _ _ | literal _ | parameter _ _ | nextValue _ | currentValue _ =>
      exact .refl _
    | product _ | record _ =>
      rw [Node.script_refused d (by simp [Shape.map]), Node.script_refused d (by simp [Shape.map])]
      exact .refl _
    | apply f arguments =>
      rw [Shape.map, Shape.map, Node.script_apply, Node.script_apply, List.map_map, List.map_map]
      exact apply f fun x hx => ⟨hpairs x hx, hscripts x hx⟩
    | cases branches otherwise =>
      rw [Shape.map, Shape.map, Node.script_cases, Node.script_cases, List.map_map, List.map_map,
        Option.map_map, Option.map_map]
      exact conditional hscripts
    | rowNumber keys =>
      rw [Shape.map, Shape.map, Node.script_rowNumber, Node.script_rowNumber, List.map_map,
        List.map_map]
      exact rowNumber fun k hk => hscripts k.key (List.mem_map_of_mem hk)

/-! ## Clauses -/

theorem item {n m : Node} (h : n.Rescaled ds m) (hscript : Rescaled ds (n.script d) (m.script d)) :
    Rescaled ds (.item (n.rendering d)) (.item (m.rendering d)) := by
  rw [Script.item, Script.item, Node.shape_rendering, Node.shape_rendering]
  cases h with
  | decimal => exact hscript
  | places pairs _ =>
    cases pairs with
    | row _ => exact .refl _
    | _ => exact hscript

theorem field {f : Field (Node × Node)} (h : f.value.1.Rescaled ds f.value.2)
    (hscript : Rescaled ds (f.value.1.script d) (f.value.2.script d)) :
    Rescaled ds (.field ⟨f.name, f.value.1.rendering d⟩)
      (.field ⟨f.name, f.value.2.rendering d⟩) := by
  have hrow : (f.value.1.rendering d).shape.isRow = (f.value.2.rendering d).shape.isRow := by
    rw [Node.shape_rendering, Node.shape_rendering, Shape.isRow_map, Shape.isRow_map]
    exact h.isRow
  rw [Script.field, Script.field, hrow]
  exact (item h hscript).append (.refl _)

theorem source {n m : Node} (h : n.Rescaled ds m)
    (hscript : Rescaled ds (n.script d) (m.script d)) :
    Rescaled ds (.source d (n.rendering d)) (.source d (m.rendering d)) := by
  rw [Script.source, Script.source, Node.shape_rendering, Node.shape_rendering]
  cases h with
  | decimal => exact .refl _
  | places pairs _ =>
    cases pairs with
    | query _ => exact hscript
    | _ => exact .refl _

section
variable {pairs : Clauses (Node × Node)} (h : ∀ x ∈ pairs.children, x.1.Rescaled ds x.2)
  (hwrites : ∀ x ∈ pairs.children, Query.WithChildren (WritesRescaled d ds) x.1)
include h hwrites

theorem child {x : Node × Node} (hx : x ∈ pairs.children) :
    Rescaled ds (x.1.script d) (x.2.script d) :=
  (hwrites x hx).1 x.2 (h x hx)

theorem select :
    Rescaled ds (.select (Query.rendering d (pairs.map Prod.fst)))
      (.select (Query.rendering d (pairs.map Prod.snd))) := by
  have hlength : (Query.rendering d (pairs.map Prod.fst)).generators.length
      = (Query.rendering d (pairs.map Prod.snd)).generators.length := by
    simp [Query.rendering, Clauses.map]
  have hprojection : ∀ f : Node × Node → Node, (Query.rendering d (pairs.map f)).projection
      = pairs.projection.map fun x => (f x).rendering d := by
    intro f
    simp [Query.rendering, Clauses.map, Function.comp_def]
  rw [Script.select, Script.select, hprojection, hprojection, hlength]
  cases hp : pairs.projection with
  | none => exact .refl _
  | some x =>
    have hx := Clauses.projection_mem_children hp
    have hself := child h hwrites hx
    have hrescaled := h x hx
    have hbelow := (hwrites x hx).2
    obtain ⟨n, m⟩ := x
    dsimp only [Option.map_some] at hself hrescaled hbelow ⊢
    have hitem := item hrescaled hself
    rw [Node.shape_rendering, Node.shape_rendering]
    cases hrescaled with
    | decimal => exact hitem
    | places columns hcolumns =>
      have hscripts : ∀ y ∈ columns.children, Rescaled ds (y.1.script d) (y.2.script d) := by
        intro y hy
        refine hbelow y.1 ?_ y.2 (hcolumns y hy)
        change y.1 ∈ (columns.map Prod.fst).children
        rw [Shape.children_map]
        exact List.mem_map_of_mem hy
      cases columns with
      | record fields =>
        dsimp only [Node.shape, Shape.map]
        rw [List.map_map, List.map_map, List.map_map, List.map_map]
        refine congruence.separated (fun f hf => ?_) _
        have hf : f.value ∈ (Shape.record fields).children := List.mem_map_of_mem hf
        exact field (hcolumns _ hf) (hscripts _ hf)
      | product items =>
        dsimp only [Node.shape, Shape.map]
        rw [List.map_map, List.map_map, List.map_map, List.map_map]
        exact congruence.separated (fun y hy => item (hcolumns y hy) (hscripts y hy)) _
      | _ => exact hitem

theorem from_ :
    Rescaled ds (.from_ d (Query.rendering d (pairs.map Prod.fst)))
      (.from_ d (Query.rendering d (pairs.map Prod.snd))) := by
  have hgenerators : ∀ f : Node × Node → Node, (Query.rendering d (pairs.map f)).generators
      = pairs.generators.map fun g => ⟨g.binder, (f g.source).rendering d⟩ := by
    intro f
    simp [Query.rendering, Clauses.map]
  rw [Script.from_, Script.from_, hgenerators, hgenerators]
  have hsources : ∀ g ∈ pairs.generators, Rescaled ds
      (.generator d ⟨g.binder, g.source.1.rendering d⟩)
      (.generator d ⟨g.binder, g.source.2.rendering d⟩) := by
    intro g hg
    have hg := Clauses.source_mem_children hg
    exact (source (h _ hg) (child h hwrites hg)).append (.refl _)
  cases hgs : pairs.generators with
  | nil => exact .refl _
  | cons g gs =>
    rw [hgs] at hsources
    refine (Rescaled.refl _).append ?_
    rw [List.map_map, List.map_map]
    exact congruence.separated hsources _

theorem filters :
    Rescaled ds (.filters (Query.rendering d (pairs.map Prod.fst)))
      (.filters (Query.rendering d (pairs.map Prod.snd))) := by
  have hfilters : ∀ f : Node × Node → Node, (Query.rendering d (pairs.map f)).filters
      = pairs.filters.map fun x => (f x).rendering d := by
    intro f
    simp [Query.rendering, Clauses.map]
  rw [Script.filters, Script.filters, hfilters, hfilters]
  have hchild : ∀ x ∈ pairs.filters, Rescaled ds (x.1.script d) (x.2.script d) :=
    fun x hx => child h hwrites (Clauses.filter_mem_children hx)
  cases hfs : pairs.filters with
  | nil => exact .refl _
  | cons x xs =>
    rw [hfs] at hchild
    refine (Rescaled.refl _).append ?_
    rw [List.map_map, List.map_map]
    exact congruence.separated hchild _

theorem groupBy :
    Rescaled ds (.groupBy (Query.rendering d (pairs.map Prod.fst)))
      (.groupBy (Query.rendering d (pairs.map Prod.snd))) := by
  have hgroup : ∀ f : Node × Node → Node, (Query.rendering d (pairs.map f)).groupBy
      = pairs.groupBy.map fun x => (f x).rendering d := by
    intro f
    simp [Query.rendering, Clauses.map, Function.comp_def]
  rw [Script.groupBy, Script.groupBy, hgroup, hgroup]
  cases hg : pairs.groupBy with
  | none => exact .refl _
  | some x =>
    have hx := Clauses.groupBy_mem_children hg
    have hself := child h hwrites hx
    have hrescaled := h x hx
    have hbelow := (hwrites x hx).2
    obtain ⟨n, m⟩ := x
    refine (Rescaled.refl _).append ?_
    dsimp only at hself hrescaled hbelow ⊢
    rw [Node.shape_rendering, Node.shape_rendering]
    cases hrescaled with
    | decimal => exact hself
    | places keys hkeys =>
      cases keys with
      | product items =>
        dsimp only [Node.shape, Shape.map]
        rw [List.map_map, List.map_map, List.map_map, List.map_map]
        refine congruence.separated (fun y hy => ?_) _
        exact hbelow y.1 (List.mem_map_of_mem hy) y.2 (hkeys y hy)
      | _ => exact hself

theorem orderBy :
    Rescaled ds (.orderBy d (Query.rendering d (pairs.map Prod.fst)))
      (.orderBy d (Query.rendering d (pairs.map Prod.snd))) := by
  have horder : ∀ f : Node × Node → Node, (Query.rendering d (pairs.map f)).orderBy
      = pairs.orderBy.map fun k => ⟨(f k.key).rendering d, k.order⟩ := by
    intro f
    simp [Query.rendering, Clauses.map]
  rw [Script.orderBy, Script.orderBy, horder, horder]
  have hkeys : ∀ k ∈ pairs.orderBy, Rescaled ds (k.key.1.script d) (k.key.2.script d) :=
    fun k hk => child h hwrites (Clauses.key_mem_children hk)
  cases hks : pairs.orderBy with
  | nil => exact .refl _
  | cons k ks =>
    rw [hks] at hkeys
    exact (Rescaled.refl _).append (sortKeys hkeys)

/-- **The clauses of a query**, from its children and, where these only group columns, theirs. -/
theorem clauses :
    Rescaled ds (.clauses d (Query.rendering d (pairs.map Prod.fst)))
      (.clauses d (Query.rendering d (pairs.map Prod.snd))) := by
  have hbinders : (Query.rendering d (pairs.map Prod.fst)).binders
      = (Query.rendering d (pairs.map Prod.snd)).binders := by
    simp [Query.rendering]
  rw [Script.clauses, Script.clauses, hbinders]
  refine (Rescaled.refl _).append (.scope _ ?_)
  exact ((((((append (.refl _) (select h hwrites)).append (from_ h hwrites)).append
    (filters h hwrites)).append (groupBy h hwrites)).append (orderBy h hwrites)).append (.refl _))

end
end Rescaled
end Script

/-! ## Trees -/

/-- **The scripts of trees that differ only in how decimals are written do as well.** -/
theorem Query.script_rescaled (d : Dialect) (ds : List Decimal) :
    (∀ n : Node, Script.WritesRescaled d ds n)
      ∧ ∀ p q : Query, Query.Rescaled ds p q → (script d p).Rescaled ds (script d q) := by
  refine writing_induct d ?_ ?_ ?_ ?_ ?_
  · intro s hquery ih
    exact Script.Rescaled.expression hquery ih
  · intro p ih m hm
    obtain ⟨q, rfl, hq⟩ := hm.exists_query
    rw [Node.script_query, Node.script_query]
    exact ((Script.Rescaled.refl _).append (.deeper (ih q hq))).append (.refl _)
  · intro p hnumbers ih q h
    rw [script_eq_clauses hnumbers, script_eq_clauses (mt (numbers_rescaled h).mpr hnumbers)]
    obtain ⟨pairs, h⟩ := h
    refine Script.Rescaled.clauses h fun x hx => ih x.1 ?_
    rw [Clauses.children_map]
    exact List.mem_map_of_mem hx
  · intro p p' hnumbers hp' ih q h
    have hagree := numberRows_rescaled h d.name
    rw [script_of_numbers hnumbers, script_of_numbers ((numbers_rescaled h).mp hnumbers)]
    rw [hp'] at hagree ⊢
    generalize numberRows d.name q = r at hagree ⊢
    cases hagree with
    | ok hq => exact ih _ hq
  · intro p e hnumbers he q h
    have hagree := numberRows_rescaled h d.name
    rw [script_of_numbers hnumbers, script_of_numbers ((numbers_rescaled h).mp hnumbers)]
    rw [he] at hagree ⊢
    generalize numberRows d.name q = r at hagree ⊢
    cases hagree with
    | error => exact .refl _

/-! ## Statements -/

/-- Statements that differ only in how decimals are written; those of the first statement that are
written into it are among `ds`. -/
structure Statement.Rescaled (ds : List Decimal) (s t : Statement) : Prop where
  quote : s.quote = t.quote
  pieces : List.Forall₂ (Piece.Rescaled ds) s.pieces t.pieces
  columnCount : s.columnCount = t.columnCount
  skipRows : s.skipRows = t.skipRows

theorem Piece.map_kind_setters {ps qs : List Piece}
    (h : List.Forall₂ (Piece.Rescaled ds) ps qs) :
    (setters ps).map Setter.kind = (setters qs).map Setter.kind := by
  induction h with
  | nil => rfl
  | @cons p q ps qs hpiece _ ih =>
    cases hpiece with
    | refl =>
      rw [setters, setters, List.filterMap_cons, List.filterMap_cons]
      cases p.setter? with
      | none => exact ih
      | some setter => exact congrArg (setter.kind :: ·) ih
    | constant => exact ih
    | placeholder column => exact congrArg (column.kind :: ·) ih

/-- Without decimals that are written into the statement, the texts are the same. -/
theorem Piece.joined_eq_of_rescaled {ps qs : List Piece}
    (h : List.Forall₂ (Piece.Rescaled []) ps qs) (quote : Text.Quote) :
    joined quote ps = joined quote qs := by
  have htexts : ps.map (text quote) = qs.map (text quote) := by
    induction h with
    | nil => rfl
    | cons hpiece _ ih =>
      cases hpiece with
      | refl p => exact congrArg (_ :: ·) ih
      | constant mem _ => cases mem
      | placeholder => exact congrArg (_ :: ·) ih
  rw [joined, joined, htexts]

namespace Query

theorem compile_rescaled {p q : Query} (h : Query.Rescaled ds p q) (d : Dialect) :
    Agree (Statement.Rescaled ds) (p.compile d) (q.compile d) := by
  rw [compile_eq, compile_eq, checkScope_rescaled h, columnCount_rescaled h]
  refine Agree.bind (Agree.self _) fun _ _ _ => ?_
  have hscript := (script_rescaled d ds).2 p q h
  refine Agree.bind (Script.output_rescaled hscript _ _ _) fun o o' ho => ?_
  refine .ok ⟨rfl, ho.pieces, rfl, ?_⟩
  rw [ho.skipRows]

/-- **Queries that compare equal give statements that are equal but for how decimals are written.**
Either both fail with the same error, or the statements have the same pieces, except that a decimal
that is written into the statement has the places and the sign that it has in its query, and
likewise the decimals behind placeholders.  The kinds of the placeholders, the number of columns and
the rows to skip are the same.  If no decimal is written into the statement, its text is the
same. -/
theorem compile_of_same {p q : Query} (h : Query.same p q = true) (d : Dialect) :
    Agree (fun s t => s.Rescaled (inlineDecimals p) t
        ∧ s.setters.map Setter.kind = t.setters.map Setter.kind
        ∧ (inlineDecimals p = [] → s.sql = t.sql))
      (p.compile d) (q.compile d) := by
  refine (compile_rescaled (rescaled_of_same h) d).imp fun s t hst => ?_
  refine ⟨hst, Piece.map_kind_setters hst.pieces, fun hnone => ?_⟩
  rw [hnone] at hst
  rw [Statement.sql, Statement.sql, hst.quote]
  exact Piece.joined_eq_of_rescaled hst.pieces t.quote

/-- A page with a decimal behind a placeholder, on a dialect that numbers rows: the decimals have
different places, and the texts are the same. -/
theorem compile_of_same_sqlserver :
    let query (price : Decimal) : Query := {
      generators := [⟨⟨0, 0⟩, .table "orders"⟩]
      filters := [.apply .gt [.column ⟨0, 0⟩ "price", .bound .decimal (.decimal price)]]
      projection := some (.column ⟨0, 0⟩ "id")
      fetch := some 10
      offset := some 5 }
    let one : Decimal := ⟨false, 10, 1, by decide, by decide⟩
    let precise : Decimal := ⟨false, 100, 2, by decide, by decide⟩
    Query.same (query one) (query precise) = true ∧ one ≠ precise
      ∧ ∃ s t, (query one).compile .sqlserver = .ok s ∧ (query precise).compile .sqlserver = .ok t
        ∧ s.setters.map Setter.kind = [.decimal] ∧ t.setters.map Setter.kind = [.decimal]
        ∧ s.sql = t.sql := by
  intro query one precise
  have hsame : Query.same (query one) (query precise) = true := by decide +kernel
  have hkinds : ((query one).compile .sqlserver).toOption.map (·.setters.map Setter.kind)
      = some [.decimal] := by decide +kernel
  have hagree := compile_of_same hsame .sqlserver
  refine ⟨hsame, by decide, ?_⟩
  generalize (query one).compile .sqlserver = x at hkinds hagree
  generalize (query precise).compile .sqlserver = y at hagree
  cases hagree with
  | error e => cases hkinds
  | @ok s t h =>
    have hs : s.setters.map Setter.kind = [.decimal] := Option.some.inj hkinds
    exact ⟨s, t, rfl, rfl, hs, h.2.1 ▸ hs, h.2.2 (by decide +kernel)⟩

/-- **A statement shows how a decimal is written**: two queries compare equal, and one has `1.0`
where the other one has `1.00`, or `0.0` where the other one has `-0.0`. -/
theorem sql_ne_of_same :
    let query (price : Decimal) : Query := {
      generators := [⟨⟨0, 0⟩, .table "orders"⟩]
      filters := [.apply .gt [.column ⟨0, 0⟩ "price", .typed .decimal (.decimal price)]]
      projection := some (.column ⟨0, 0⟩ "id") }
    let one : Query := query ⟨false, 10, 1, by decide, by decide⟩
    let precise : Query := query ⟨false, 100, 2, by decide, by decide⟩
    let zero : Query := query ⟨false, 0, 1, by decide, by decide⟩
    let signed : Query := query ⟨true, 0, 1, by decide, by decide⟩
    let sql (q : Query) : Option String := (q.compile .postgres).toOption.map Statement.sql
    (Query.same one precise = true
      ∧ sql one = some "select x1.\"id\" from \"orders\" x1 where (x1.\"price\" > 1.0)"
      ∧ sql precise = some "select x1.\"id\" from \"orders\" x1 where (x1.\"price\" > 1.00)")
    ∧ Query.same zero signed = true
      ∧ sql zero = some "select x1.\"id\" from \"orders\" x1 where (x1.\"price\" > 0.0)"
      ∧ sql signed = some "select x1.\"id\" from \"orders\" x1 where (x1.\"price\" > -0.0)" := by
  decide +kernel

end Query
end SqlCompiler
