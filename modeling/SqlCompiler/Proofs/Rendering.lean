import SqlCompiler.Proofs.Emission

/-!
# How trees become scripts

The scripts of `SqlCompiler.Statement.Rendering` are written for renderings.  This file turns them
into equations about nodes, and packages the recursion behind them as one induction principle.

The only step that is not structural is the replacement of a query that numbers its rows: the
query written in its place is larger, and has nodes that the tree does not contain.  Three facts
deal with it once:

* `RowNumbering.page_map` — the replacement can be made before or after rendering: it commutes with
  every map that respects how nodes are taken apart and put together.
* `Query.script_of_numbers` — so the script of a query that numbers its rows is that of the query
  `Query.numberRows` puts in its place.
* `Query.writing_induct` — what holds of the clauses written for a query, given that it holds of
  its children and of theirs, holds of every tree: the nodes that the replacement adds are built
  from the query's own children, one layer after the other.
-/

set_option autoImplicit false
namespace SqlCompiler

/-! ## Maps over the children -/

section
variable {ν μ κ : Type}

theorem Clauses.map_map (f : ν → μ) (g : μ → κ) (q : Clauses ν) :
    (q.map f).map g = q.map (g ∘ f) := by
  simp [Clauses.map, Function.comp_def]

theorem Shape.map_map (f : ν → μ) (g : μ → κ) (s : Shape ν) :
    (s.map f).map g = s.map (g ∘ f) := by
  cases s <;> simp [Shape.map, Clauses.map_map, Function.comp_def]

theorem Clauses.map_id (q : Clauses ν) : q.map id = q := by
  simp [Clauses.map]

theorem Shape.map_id (s : Shape ν) : s.map id = s := by
  cases s <;> simp [Shape.map, Clauses.map_id]

@[simp] theorem Shape.isRow_map (f : ν → μ) (s : Shape ν) : (s.map f).isRow = s.isRow := by
  cases s <;> rfl

@[simp] theorem Clauses.binders_map (f : ν → μ) (q : Clauses ν) :
    (q.map f).binders = q.binders := by
  simp [Clauses.binders, Clauses.map]

@[simp] theorem Clauses.isPaged_map (f : ν → μ) (q : Clauses ν) :
    (q.map f).isPaged = q.isPaged := rfl

theorem Clauses.children_map (f : ν → μ) (q : Clauses ν) :
    (q.map f).children = q.children.map f := by
  simp only [children, sources, expressions, map, List.map_append, List.map_map,
    Option.toList_map, Function.comp_def]

theorem Shape.children_map (f : ν → μ) (s : Shape ν) : (s.map f).children = s.children.map f := by
  cases s with
  | query q => exact Clauses.children_map f q
  | cases branches otherwise =>
    simp only [map, children, List.map_append, List.flatMap_map, List.map_flatMap, List.map_cons,
      List.map_nil, Option.toList_map]
  | record fields | rowNumber keys =>
    simp only [map, children, List.map_map, Function.comp_def]
  | _ => rfl

/-- A node that is a query. -/
def Shape.IsQuery : Shape ν → Prop
  | .query _ => True
  | _ => False

theorem Shape.ne_query {s : Shape ν} (h : ¬ s.IsQuery) : ∀ q, s ≠ .query q := by
  rintro q rfl
  exact h trivial

end

/-! ## Children by their clauses -/

namespace Clauses

variable {ν : Type} {q : Clauses ν} {n : ν}

theorem mem_expressions_iff :
    n ∈ q.expressions ↔ n ∈ q.filters ∨ q.groupBy = some n ∨ (∃ k ∈ q.orderBy, n = k.key)
      ∨ q.projection = some n := by
  simp only [expressions, List.mem_append, List.mem_map, Option.mem_toList, or_assoc,
    eq_comm (a := n)]

theorem mem_children_iff :
    n ∈ q.children ↔ (∃ g ∈ q.generators, n = g.source) ∨ n ∈ q.filters ∨ q.groupBy = some n
      ∨ (∃ k ∈ q.orderBy, n = k.key) ∨ q.projection = some n := by
  simp only [children, sources, List.mem_append, mem_expressions_iff, List.mem_map,
    eq_comm (a := n)]

theorem source_mem_children {g : Generator ν} (h : g ∈ q.generators) : g.source ∈ q.children :=
  mem_children_iff.mpr (.inl ⟨g, h, rfl⟩)

theorem filter_mem_children (h : n ∈ q.filters) : n ∈ q.children :=
  mem_children_iff.mpr (.inr (.inl h))

theorem groupBy_mem_children (h : q.groupBy = some n) : n ∈ q.children :=
  mem_children_iff.mpr (.inr (.inr (.inl h)))

theorem key_mem_children {k : SortKey ν} (h : k ∈ q.orderBy) : k.key ∈ q.children :=
  mem_children_iff.mpr (.inr (.inr (.inr (.inl ⟨k, h, rfl⟩))))

theorem projection_mem_children (h : q.projection = some n) : n ∈ q.children :=
  mem_children_iff.mpr (.inr (.inr (.inr (.inr h))))

end Clauses

section
variable {ν μ : Type} {f g : ν → μ}

theorem Clauses.map_congr {q : Clauses ν} (h : ∀ n ∈ q.children, f n = g n) :
    q.map f = q.map g := by
  have hgenerators : q.generators.map (fun g' => (⟨g'.binder, f g'.source⟩ : Generator μ))
      = q.generators.map fun g' => ⟨g'.binder, g g'.source⟩ :=
    List.map_congr_left fun g' hg' => by rw [h _ (source_mem_children hg')]
  have hkeys : q.orderBy.map (fun k => (⟨f k.key, k.order⟩ : SortKey μ))
      = q.orderBy.map fun k => ⟨g k.key, k.order⟩ :=
    List.map_congr_left fun k hk => by rw [h _ (key_mem_children hk)]
  have hfilters : q.filters.map f = q.filters.map g :=
    List.map_congr_left fun n hn => h n (filter_mem_children hn)
  have hgroup : q.groupBy.map f = q.groupBy.map g :=
    Option.map_congr fun n hn => h n (groupBy_mem_children hn)
  have hprojection : q.projection.map f = q.projection.map g :=
    Option.map_congr fun n hn => h n (projection_mem_children hn)
  rw [map, map, hgenerators, hkeys, hfilters, hgroup, hprojection]

theorem Shape.map_congr {s : Shape ν} (h : ∀ n ∈ s.children, f n = g n) :
    s.map f = s.map g := by
  cases s with
  | query q => exact congrArg Shape.query (Clauses.map_congr h)
  | apply function arguments => exact congrArg (Shape.apply function) (List.map_congr_left h)
  | cases branches otherwise =>
    have hbranches : branches.map (fun b => (⟨f b.condition, f b.value⟩ : Branch μ))
        = branches.map fun b => ⟨g b.condition, g b.value⟩ := by
      refine List.map_congr_left fun b hb => ?_
      have hmem : ∀ n ∈ [b.condition, b.value], f n = g n := fun n hn =>
        h n (List.mem_append_left _ (List.mem_flatMap.mpr ⟨b, hb, hn⟩))
      rw [hmem _ List.mem_cons_self, hmem _ (List.mem_cons_of_mem _ List.mem_cons_self)]
    have hotherwise : otherwise.map f = otherwise.map g :=
      Option.map_congr fun n hn => h n (List.mem_append_right _ (Option.mem_toList.mpr hn))
    rw [map, map, hbranches, hotherwise]
  | product items => exact congrArg Shape.product (List.map_congr_left h)
  | record fields =>
    refine congrArg Shape.record (List.map_congr_left fun c hc => ?_)
    rw [h _ (List.mem_map_of_mem hc)]
  | rowNumber keys =>
    refine congrArg Shape.rowNumber (List.map_congr_left fun k hk => ?_)
    rw [h _ (List.mem_map_of_mem hk)]
  | _ => rfl

end

/-! ## Scripts of nodes -/

/-- A dialect numbers the rows of a query: the query skips rows, and there is no other way. -/
def Dialect.Numbers {ν : Type} (d : Dialect) (q : Clauses ν) : Prop :=
  d.paging = .numbered ∧ q.offset.isSome = true

instance {ν : Type} (d : Dialect) (q : Clauses ν) : Decidable (d.Numbers q) :=
  inferInstanceAs (Decidable (_ ∧ _))

namespace Node

theorem rendering_mk (d : Dialect) (s : Shape Node) :
    (mk s).rendering d = .mk
      (Script.shape d (fun r => match s with
        | .query q => Script.query d q r
        | _ => Script.clauses d r) (s.map (Node.rendering d)))
      (s.map (Node.rendering d)) := by
  have plain : (s.map (withFold (Script.layer d))).map Prod.fst = s := by
    rw [Shape.map_map]; exact Shape.map_id s
  have rendered : (s.map (withFold (Script.layer d))).map Prod.snd = s.map (Node.rendering d) := by
    rw [Shape.map_map]; rfl
  rw [Node.rendering, fold_mk, Script.layer]
  simp only [plain, rendered]
  rfl

theorem shape_rendering (d : Dialect) (n : Node) :
    (n.rendering d).shape = n.shape.map (Node.rendering d) := by
  obtain ⟨s⟩ := n
  rw [rendering_mk]
  rfl

theorem script_query (d : Dialect) (q : Query) :
    (query q).script d = Script.subquery (Query.script d q) := by
  rw [Node.script, rendering_mk]
  rfl

theorem script_mk {d : Dialect} {s : Shape Node} (h : ∀ q, s ≠ .query q) :
    (mk s).script d = Script.shape d (Script.clauses d) (s.map (Node.rendering d)) := by
  rw [Node.script, rendering_mk]
  cases s with
  | query q => exact absurd rfl (h q)
  | _ => rfl

section
variable (d : Dialect)

theorem script_column (s : Symbol) (name : String) :
    (column s name).script d = .reference s ++ Script.words "." ++ Script.name name :=
  script_mk (Shape.ne_query id)

theorem script_literal (c : Literal) : (literal c).script d = Script.literal d c :=
  script_mk (Shape.ne_query id)

theorem script_parameter (index : UInt64) (kind : Kind) :
    (parameter index kind).script d
      = Script.placeholder (d.types.column kind) (.argument index.toNat) :=
  script_mk (Shape.ne_query id)

theorem script_apply (f : Function) (arguments : List Node) :
    (apply f arguments).script d = Script.apply d f (arguments.map (Node.rendering d)) :=
  script_mk (Shape.ne_query id)

theorem script_cases (branches : List (Branch Node)) (otherwise : Option Node) :
    (mk (.cases branches otherwise)).script d
      = Script.conditional d
          (branches.map fun b => ⟨b.condition.rendering d, b.value.rendering d⟩)
          (otherwise.map (Node.rendering d)) :=
  script_mk (Shape.ne_query id)

theorem script_rowNumber (keys : List (SortKey Node)) :
    (mk (.rowNumber keys)).script d
      = Script.rowNumber d (keys.map fun k => ⟨k.key.rendering d, k.order⟩) :=
  script_mk (Shape.ne_query id)

theorem script_nextValue (sequence : String) :
    (mk (.nextValue sequence)).script d
      = .check (d.require .sequence) ++ Script.nextValue d sequence :=
  script_mk (Shape.ne_query id)

theorem script_currentValue (sequence : String) :
    (mk (.currentValue sequence)).script d
      = .check (d.require .sequence) ++ .check (d.require .sequenceCurr)
          ++ Script.currentValue d sequence :=
  script_mk (Shape.ne_query id)

/-- Tables, whole rows and groups of columns cannot be written as expressions. -/
theorem script_refused {s : Shape Node} (h : (∃ name, s = .table name) ∨ (∃ source, s = .row source)
    ∨ (∃ items, s = .product items) ∨ ∃ fields, s = .record fields) :
    (mk s).script d = Script.fail (Render.unsupported d (.expression s.name)) := by
  rcases h with ⟨_, rfl⟩ | ⟨_, rfl⟩ | ⟨_, rfl⟩ | ⟨_, rfl⟩ <;>
    exact script_mk (Shape.ne_query id)

end

end Node

/-! ## Replacing a query that numbers its rows -/

namespace RowNumbering

variable {ν μ : Type} {t : Tree ν} {u : Tree μ} {f : ν → μ}

/-- Whether a shape is a query that skips rows. -/
def skips {κ : Type} : Shape κ → Bool
  | .query q => q.offset.isSome
  | _ => false

/-- A map that respects how nodes are taken apart and, but for queries that skip rows, how they
are put together. -/
structure Respects (t : Tree ν) (u : Tree μ) (f : ν → μ) : Prop where
  shape : ∀ n, u.shape (f n) = (t.shape n).map f
  make : ∀ s, skips s = false → f (t.make s) = u.make (s.map f)

namespace Respects

variable (h : Respects t u f)
include h

theorem isRow (n : ν) : (u.shape (f n)).isRow = (t.shape n).isRow := by
  rw [h.shape, Shape.isRow_map]

theorem column (s : Symbol) (name : String) :
    f (t.make (.column s name)) = u.make (.column s name) :=
  h.make _ rfl

end Respects

/-- A column with its value replaced by the image. -/
def mapField (f : ν → μ) (c : Field ν) : Field μ :=
  ⟨c.name, f c.value⟩

theorem positions_map (f : ν → μ) (items : List ν) :
    (items.map f).mapIdx (fun i n => (⟨positionName i, n⟩ : Field μ))
      = (items.mapIdx fun i n => ⟨positionName i, n⟩).map (mapField f) := by
  refine List.ext_getElem? fun i => ?_
  cases h : items[i]? <;> simp [h, mapField]

theorem columns_map (h : Respects t u f) (outer : Symbol) (projection : Option ν) :
    columns u outer (projection.map f)
      = (columns t outer projection).map fun r => (r.1.map (mapField f), f r.2) := by
  cases projection with
  | none => rfl
  | some p =>
    rw [Option.map_some, columns, columns, h.shape]
    cases hp : t.shape p with
    | row s => rfl
    | record fields =>
      rw [Shape.map]
      simp only [List.any_map, Function.comp_def, h.isRow]
      by_cases hrow : (fields.any fun c => (t.shape c.value).isRow) = true
      · rw [if_pos hrow, if_pos hrow]; rfl
      · rw [if_neg hrow, if_neg hrow, Except.map, h.make _ rfl, Shape.map]
        simp only [List.map_map, Function.comp_def, h.column]
        rfl
    | product items =>
      rw [Shape.map]
      simp only [List.any_map, Function.comp_def, h.isRow]
      by_cases hrow : (items.any fun n => (t.shape n).isRow) = true
      · rw [if_pos hrow, if_pos hrow]; rfl
      · rw [if_neg hrow, if_neg hrow, Except.map, h.make _ rfl, Shape.map]
        simp only [positions_map, List.map_map, Function.comp_def, h.column]
        rfl
    | _ => simp only [Shape.map, Except.map, h.column, List.map_cons, List.map_nil, mapField]

theorem bound_map (h : Respects t u f) (n : Nat) : bound u n = (bound t n).map f := by
  rw [bound, bound]
  split
  · rw [Except.map, h.make _ rfl, Shape.map]
  · rfl

theorem inner_map (h : Respects t u f) (fields : List (Field ν)) (q : Clauses ν) :
    inner u (fields.map (mapField f)) (q.map f) = (inner t fields q).map f := by
  simp only [inner, Clauses.map, Option.map_some, List.map_nil]
  rw [h.make _ rfl, Shape.map, List.map_append, List.map_cons, List.map_nil, h.make _ rfl,
    Shape.map]
  rfl

/-- The query that keeps the rows of the page, from its parts. -/
def assembled (t : Tree ν) (outer : Symbol) (q : Clauses ν) (fields : List (Field ν))
    (projection after : ν) (until_ : Option ν) : Clauses ν :=
  let number := t.make (.column outer numberColumn)
  { generators := [⟨outer, t.make (.query (inner t fields q))⟩]
    filters := t.make (.apply .gt [number, after])
      :: until_.toList.map fun limit => t.make (.apply .le [number, limit])
    orderBy := [⟨number, .ascending⟩]
    projection := some projection }

theorem page_eq (t : Tree ν) (outer : Symbol) (dialect : String) (q : Clauses ν) :
    page t outer dialect q = do
      let r ← (columns t outer q.projection).mapError (.unsupported · dialect)
      let after ← bound t (q.offset.getD 0).toNat
      let until_ ← q.fetch.mapM fun fetch => do bound t (← lastRow fetch (q.offset.getD 0))
      return assembled t outer q r.1 r.2 after until_ := rfl

theorem assembled_map (h : Respects t u f) (outer : Symbol) (q : Clauses ν)
    (fields : List (Field ν)) (projection after : ν) (until_ : Option ν) :
    assembled u outer (q.map f) (fields.map (mapField f)) (f projection) (f after) (until_.map f)
      = (assembled t outer q fields projection after until_).map f := by
  have compare : ∀ (g : Function) (limit : ν),
      f (t.make (.apply g [t.make (.column outer numberColumn), limit]))
        = u.make (.apply g [u.make (.column outer numberColumn), f limit]) := by
    intro g limit
    rw [h.make _ rfl, Shape.map, List.map_cons, h.column]
    rfl
  have source : f (t.make (.query (inner t fields q)))
      = u.make (.query ((inner t fields q).map f)) := h.make _ rfl
  rw [assembled, assembled, inner_map h]
  simp only [Clauses.map, List.map_cons, List.map_nil, h.column, compare, source]
  cases until_ with
  | none => rfl
  | some limit => simp [compare]

/-- **The replacement commutes with rendering.** -/
theorem page_map (h : Respects t u f) (outer : Symbol) (dialect : String) (q : Clauses ν) :
    page u outer dialect (q.map f) = (page t outer dialect q).map (Clauses.map f) := by
  rw [page_eq, page_eq, show (q.map f).projection = q.projection.map f from rfl, columns_map h,
    show (q.map f).offset = q.offset from rfl, show (q.map f).fetch = q.fetch from rfl]
  simp only [bound_map h]
  cases columns t outer q.projection with
  | error e => rfl
  | ok r =>
    cases bound t (q.offset.getD 0).toNat with
    | error e => rfl
    | ok after =>
      cases q.fetch with
      | none => exact congrArg Except.ok (assembled_map h outer q r.1 r.2 after none)
      | some fetch =>
        rw [Option.mapM_some, Option.mapM_some]
        cases lastRow fetch (q.offset.getD 0) with
        | error e => rfl
        | ok last =>
          change ((some <$> (bound t last).map f) >>= fun limit => Except.ok
              (assembled u outer (q.map f) (r.1.map (mapField f)) (f r.2) (f after) limit))
            = Except.map (Clauses.map f) ((some <$> bound t last) >>= fun limit =>
                Except.ok (assembled t outer q r.1 r.2 after limit))
          cases bound t last with
          | error e => rfl
          | ok limit =>
            exact congrArg Except.ok (assembled_map h outer q r.1 r.2 after (some limit))

/-- The columns of the inner query and the projection of the outer one, by the projection of the
query they stand for. -/
inductive Listed (outer : Symbol) : Node → List (Field Node) → Node → Prop where
  | record (fields : List (Field Node)) (h : ∀ c ∈ fields, c.value.isRow = false) :
    Listed outer (.mk (.record fields)) fields
      (.mk (.record (fields.map fun c => ⟨c.name, .column outer c.name⟩)))
  | product (items : List Node) (h : ∀ n ∈ items, n.isRow = false) :
    Listed outer (.mk (.product items)) (items.mapIdx fun i n => ⟨positionName i, n⟩)
      (.mk (.product (items.mapIdx fun i _ => .column outer (positionName i))))
  | single (p : Node) (hrow : p.isRow = false) (hrecord : ∀ fields, p.shape ≠ .record fields)
    (hproduct : ∀ items, p.shape ≠ .product items) :
    Listed outer p [⟨positionName 0, p⟩] (.column outer (positionName 0))

theorem columns_eq_ok {outer : Symbol} {projection : Option Node}
    {r : List (Field Node) × Node} (h : columns .plain outer projection = .ok r) :
    ∃ p, projection = some p ∧ Listed outer p r.1 r.2 := by
  cases projection with
  | none => cases h
  | some p =>
    refine ⟨p, rfl, ?_⟩
    obtain ⟨s⟩ := p
    rw [columns, show Tree.plain.shape (.mk s) = s from rfl] at h
    cases s with
    | row s => cases h
    | record fields =>
      dsimp only at h
      split at h
      · cases h
      · next hrow =>
        cases h
        exact .record fields (by simpa [Tree.plain, Node.isRow] using hrow)
    | product items =>
      dsimp only at h
      split at h
      · cases h
      · next hrow =>
        cases h
        have hitems : ∀ n ∈ items, n.isRow = false := by
          simpa [Tree.plain, Node.isRow] using hrow
        refine cast (congrArg (Listed outer _ _) ?_) (Listed.product items hitems)
        simp [Tree.plain, List.mapIdx_eq_zipIdx_map]
    | _ => cases h; exact .single _ rfl (fun _ h => nomatch h) (fun _ h => nomatch h)

/-- A row number as a node. -/
def rowConstant (n : Nat) : Node :=
  .typed .long (.long (Int64.ofNat n))

theorem bound_eq_ok {n : Nat} {m : Node} (h : bound .plain n = .ok m) : m = rowConstant n := by
  rw [bound] at h
  split at h
  · cases h; rfl
  · cases h

end RowNumbering

namespace Query

open RowNumbering

/-- What `Query.numberRows` puts in the place of a query. -/
theorem numberRows_eq_ok {dialect : String} {q p : Query} (h : numberRows dialect q = .ok p) :
    ∃ projection fields listed after, ∃ until_ : Option Nat,
      q.projection = some projection
        ∧ Listed (freshSymbol q) projection fields listed
        ∧ until_.isSome = q.fetch.isSome
        ∧ p = assembled .plain (freshSymbol q) q fields listed (rowConstant after)
            (until_.map rowConstant) := by
  rw [numberRows, page_eq] at h
  obtain ⟨r, hr, h⟩ := bind_eq_ok_iff.mp h
  obtain ⟨after, hafter, h⟩ := bind_eq_ok_iff.mp h
  obtain ⟨until_, huntil, h⟩ := bind_eq_ok_iff.mp h
  cases h
  have hcolumns : columns .plain (freshSymbol q) q.projection = .ok r := by
    cases hc : columns .plain (freshSymbol q) q.projection with
    | error e => rw [hc] at hr; cases hr
    | ok r' => rw [hc] at hr; cases hr; rfl
  obtain ⟨projection, hprojection, hlisted⟩ := columns_eq_ok hcolumns
  cases bound_eq_ok hafter
  cases hf : q.fetch with
  | none =>
    rw [hf] at huntil
    cases huntil
    exact ⟨projection, r.1, r.2, _, none, hprojection, hlisted, rfl, rfl⟩
  | some fetch =>
    rw [hf, Option.mapM_some] at huntil
    obtain ⟨limit, hlimit, huntil⟩ := bind_eq_ok_iff.mp huntil
    obtain ⟨last, -, hlast⟩ := bind_eq_ok_iff.mp hlimit
    cases huntil
    cases bound_eq_ok hlast
    exact ⟨projection, r.1, r.2, _, some last, hprojection, hlisted, rfl, rfl⟩

/-! ## Scripts of queries -/

theorem respects_rendering (d : Dialect) :
    Respects .plain (Script.plainTree d) (Node.rendering d) where
  shape := Node.shape_rendering d
  make s hs := by
    change Node.rendering d (.mk s) = .mk _ _
    rw [Node.rendering_mk]
    refine congrArg (Rendering.mk · _) ?_
    cases s with
    | query q =>
      have hq : ∀ r : Clauses Rendering, r.offset = q.offset →
          Script.query d q r = Script.clauses d r := by
        intro r hr
        rw [Script.query, if_neg]
        rintro ⟨-, h⟩
        rw [hr] at h
        exact Bool.false_ne_true (hs.symm.trans h)
      exact congrArg Script.subquery (hq _ rfl)
    | _ => rfl

theorem script_eq_clauses {d : Dialect} {q : Query} (h : ¬ d.Numbers q) :
    script d q = Script.clauses d (rendering d q) :=
  if_neg h

theorem not_numbers_of_numberRows {d : Dialect} {dialect : String} {q p : Query}
    (h : numberRows dialect q = .ok p) : ¬ d.Numbers p := by
  obtain ⟨_, _, _, _, _, -, -, -, rfl⟩ := numberRows_eq_ok h
  exact fun hp => Bool.false_ne_true hp.2

/-- **A query that numbers its rows is written as the query in its place.** -/
theorem script_of_numbers {d : Dialect} {q : Query} (h : d.Numbers q) :
    script d q = Script.checked (numberRows d.name q) (script d) := by
  have hpage : page (Script.plainTree d) (freshSymbol q) d.name (rendering d q)
      = (numberRows d.name q).map (rendering d) :=
    page_map (respects_rendering d) _ _ q
  have hscript : script d q
      = Script.checked ((numberRows d.name q).map (rendering d)) (Script.clauses d) := by
    rw [← hpage]
    exact if_pos h
  rw [hscript]
  cases hn : numberRows d.name q with
  | error e => rfl
  | ok p => exact (script_eq_clauses (not_numbers_of_numberRows hn)).symm

/-! ## Induction -/

section
variable {P : Node → Prop}

/-- A property of a node and of its children. -/
def WithChildren (P : Node → Prop) (n : Node) : Prop :=
  P n ∧ ∀ m ∈ n.children, P m

variable (expression : ∀ s : Shape Node, (∀ q, s ≠ .query q) → (∀ n ∈ s.children, P n) → P (.mk s))
include expression

theorem withChildren_mk {s : Shape Node} (hs : ∀ q, s ≠ .query q) (h : ∀ n ∈ s.children, P n) :
    WithChildren P (.mk s) :=
  ⟨expression s hs h, h⟩

theorem withChildren_column (s : Symbol) (name : String) : WithChildren P (.column s name) :=
  withChildren_mk expression (Shape.ne_query id) fun _ h => absurd h List.not_mem_nil

theorem withChildren_compare (f : Function) (s : Symbol) (name : String) (n : Nat) :
    WithChildren P (.apply f [.column s name, rowConstant n]) := by
  refine withChildren_mk expression (Shape.ne_query id) fun m hm => ?_
  rcases List.mem_cons.mp hm with rfl | hm
  · exact (withChildren_column expression s name).1
  · rw [List.mem_singleton.mp hm]
    exact expression _ (Shape.ne_query id) fun _ h => absurd h List.not_mem_nil

theorem withChildren_listed {outer : Symbol} {p listed : Node} {fields : List (Field Node)}
    (h : Listed outer p fields listed) (hp : WithChildren P p) :
    (∀ c ∈ fields, P c.value) ∧ WithChildren P listed := by
  cases h with
  | record fields _ =>
    refine ⟨fun c hc => hp.2 _ (List.mem_map_of_mem hc), ?_⟩
    refine withChildren_mk expression (Shape.ne_query id) fun n hn => ?_
    rw [Shape.children, List.map_map] at hn
    obtain ⟨c, -, rfl⟩ := List.mem_map.mp hn
    exact (withChildren_column expression _ _).1
  | product items _ =>
    constructor
    · intro c hc
      obtain ⟨i, hi, rfl⟩ := List.mem_mapIdx.mp hc
      exact hp.2 _ (List.getElem_mem hi)
    · refine withChildren_mk expression (Shape.ne_query id) fun n hn => ?_
      obtain ⟨i, hi, rfl⟩ := List.mem_mapIdx.mp hn
      exact (withChildren_column expression _ _).1
  | single p _ _ _ =>
    refine ⟨fun c hc => ?_, withChildren_column expression _ _⟩
    rw [List.mem_singleton.mp hc]
    exact hp.1

theorem withChildren_inner {fields : List (Field Node)} {q : Query}
    (hq : ∀ n ∈ q.children, WithChildren P n) (hfields : ∀ c ∈ fields, P c.value) :
    ∀ n ∈ (inner .plain fields q).children, WithChildren P n := by
  have hkeys : P (.mk (.rowNumber q.orderBy)) := by
    refine expression _ (Shape.ne_query id) fun n hn => ?_
    obtain ⟨k, hk, rfl⟩ := List.mem_map.mp hn
    exact (hq k.key (Clauses.key_mem_children hk)).1
  intro n hn
  rcases Clauses.mem_children_iff.mp hn with ⟨g, hg, rfl⟩ | hn | hn | ⟨_, hk, _⟩ | hn
  · exact hq _ (Clauses.source_mem_children hg)
  · exact hq n (Clauses.filter_mem_children hn)
  · exact hq n (Clauses.groupBy_mem_children hn)
  · exact absurd hk List.not_mem_nil
  · cases hn
    refine withChildren_mk expression (Shape.ne_query id) fun n hn => ?_
    rw [Shape.children, List.map_append] at hn
    rcases List.mem_append.mp hn with hn | hn
    · obtain ⟨c, hc, rfl⟩ := List.mem_map.mp hn
      exact hfields c hc
    · rw [List.mem_singleton.mp hn]
      exact hkeys

end

theorem mem_expressions_assembled {outer : Symbol} {q : Query} {fields : List (Field Node)}
    {listed : Node} {after : Nat} {until_ : Option Nat} {n : Node}
    (h : n ∈ (assembled .plain outer q fields listed (rowConstant after)
      (until_.map rowConstant)).expressions) :
    (∃ f limit, (f = .gt ∨ f = .le)
        ∧ n = .apply f [.column outer numberColumn, rowConstant limit])
      ∨ n = .column outer numberColumn ∨ n = listed := by
  rcases Clauses.mem_expressions_iff.mp h with h | h | ⟨k, hk, rfl⟩ | h
  · rcases List.mem_cons.mp h with h | h
    · exact .inl ⟨.gt, after, .inl rfl, h⟩
    · obtain ⟨limit, hlimit, rfl⟩ := List.mem_map.mp h
      cases until_ with
      | none => cases hlimit
      | some last =>
        rw [List.mem_singleton.mp hlimit]
        exact .inl ⟨.le, last, .inr rfl, rfl⟩
  · cases h
  · rw [List.mem_singleton.mp hk]
    exact .inr (.inl rfl)
  · cases h
    exact .inr (.inr rfl)

theorem mem_children_assembled {outer : Symbol} {q : Query} {fields : List (Field Node)}
    {listed : Node} {after : Nat} {until_ : Option Nat} {n : Node}
    (h : n ∈ (assembled .plain outer q fields listed (rowConstant after)
      (until_.map rowConstant)).children) :
    n = .query (inner .plain fields q)
      ∨ (∃ f limit, (f = .gt ∨ f = .le)
          ∧ n = .apply f [.column outer numberColumn, rowConstant limit])
      ∨ n = .column outer numberColumn ∨ n = listed := by
  rcases List.mem_append.mp h with h | h
  · exact .inl (List.mem_singleton.mp h)
  · exact .inr (mem_expressions_assembled h)

/-- **Induction along the writing of a tree.**  Written is a node that is no query, a subquery, or
a query: clause by clause, from its children and, where they only group columns, from theirs; or,
where it has to number its rows, as the query in its place. -/
theorem writing_induct {P : Node → Prop} {Q : Query → Prop} (d : Dialect)
    (expression : ∀ s : Shape Node, (∀ q, s ≠ .query q) → (∀ n ∈ s.children, P n) → P (.mk s))
    (subquery : ∀ q, Q q → P (.query q))
    (clauses : ∀ q : Query, ¬ d.Numbers q → (∀ n ∈ q.children, WithChildren P n) → Q q)
    (numbered : ∀ q p : Query, d.Numbers q → numberRows d.name q = .ok p → Q p → Q q)
    (refused : ∀ (q : Query) (e : Error), d.Numbers q → numberRows d.name q = .error e → Q q) :
    (∀ n, P n) ∧ ∀ q, Q q := by
  have layer : ∀ q : Query, (∀ n ∈ q.children, WithChildren P n) → Q q := by
    intro q hq
    by_cases hd : d.Numbers q
    · cases hn : numberRows d.name q with
      | error e => exact refused q e hd hn
      | ok p =>
        refine numbered q p hd hn (clauses p (not_numbers_of_numberRows hn) ?_)
        obtain ⟨projection, fields, listed, after, until_, hprojection, hlisted, -, rfl⟩ :=
          numberRows_eq_ok hn
        obtain ⟨hfields, hlist⟩ := withChildren_listed expression hlisted
          (hq projection (Clauses.projection_mem_children hprojection))
        have hinner := withChildren_inner expression hq hfields
        have hsource : WithChildren P (.query (inner .plain fields q)) :=
          ⟨subquery _ (clauses _ (fun h => Bool.false_ne_true h.2) hinner),
            fun n hn => (hinner n hn).1⟩
        intro n hn
        rcases mem_children_assembled hn with rfl | ⟨f, limit, -, rfl⟩ | rfl | rfl
        · exact hsource
        · exact withChildren_compare expression f _ _ limit
        · exact withChildren_column expression _ _
        · exact hlist
    · exact clauses q hd hq
  have nodes : ∀ n, WithChildren P n := by
    refine Node.induct fun s ih => ⟨?_, fun n hn => (ih n hn).1⟩
    cases s with
    | query q => exact subquery q (layer q ih)
    | _ => exact expression _ (Shape.ne_query id) fun n hn => (ih n hn).1
  exact ⟨fun n => (nodes n).1, fun q => layer q fun n _ => nodes n⟩

end Query
end SqlCompiler
