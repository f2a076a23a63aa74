import Mathlib.Data.List.Basic
import Mathlib.Logic.Equiv.Basic
import SqlCompiler.Proofs.Discipline
import SqlCompiler.Proofs.Lexical
import SqlCompiler.Proofs.Scoping

/-!
# Trees with other symbols

`Node.relabel` replaces the symbols of a tree, where they are bound and where they are referred to.
Nothing that is done to a tree before it is written looks at a symbol but to compare it with
another one of the same tree, so it does not matter whether the symbols are replaced before or
after, as long as different ones stay different.

* `Node.mem_symbols_iff` — the symbols of a tree, layer by layer.
* `Node.relabel`, `Query.relabel` — trees with other symbols; they depend on the replacement only
  where the tree has a symbol (`Query.relabel_congr`).
* `Query.freshSymbol_not_mem` — the symbol for the numbered rows is new to the query, as long as
  there is a slot above those of the query.
* `Query.numberRows_relabel` — so the rows may be numbered before or after.
* `Query.checkScope_relabel` — and the scopes be checked.
-/

set_option autoImplicit false
namespace SqlCompiler

/-! ## The symbols of a tree, layer by layer -/

/-- The symbols that a node binds or refers to itself. -/
def Shape.ownSymbols {ν : Type} : Shape ν → List Symbol
  | .query q => q.binders
  | .row source | .column source _ => [source]
  | _ => []

theorem Clauses.mem_symbolsLayer_iff {ν : Type} {symbols : ν → List Symbol} {q : Clauses ν}
    {s : Symbol} :
    s ∈ q.symbolsLayer symbols ↔ s ∈ q.binders ∨ ∃ n ∈ q.children, s ∈ symbols n := by
  simp only [symbolsLayer, binders, children, sources, List.mem_append, List.mem_flatMap,
    List.mem_map, List.mem_singleton, or_and_right, and_or_left, exists_or,
    exists_exists_and_eq_and, eq_comm (a := s)]
  rw [or_assoc, or_left_comm]

theorem Node.mem_symbols_iff {t : Shape Node} {s : Symbol} :
    s ∈ (mk t).symbols ↔ s ∈ t.ownSymbols ∨ ∃ n ∈ t.children, s ∈ n.symbols := by
  rw [symbols, fold_mk]
  have hflat : ∀ f : Node → Node × List Symbol, s ∈ (t.map f).children.flatMap Prod.snd
      ↔ s ∈ [] ∨ ∃ n ∈ t.children, s ∈ (f n).2 := by
    intro f
    simp [Shape.children_map]
  cases t with
  | query q =>
    refine Clauses.mem_symbolsLayer_iff.trans ?_
    rw [Clauses.binders_map, Clauses.children_map]
    simp only [List.mem_map, exists_exists_and_eq_and]
    rfl
  | row _ | column _ _ => simp [Shape.map, Shape.ownSymbols, Shape.children]
  | _ => exact hflat _

theorem Query.mem_symbols_iff {q : Query} {s : Symbol} :
    s ∈ symbols q ↔ s ∈ q.binders ∨ ∃ n ∈ q.children, s ∈ n.symbols :=
  Clauses.mem_symbolsLayer_iff

theorem Node.mem_symbols_query {q : Query} {s : Symbol} :
    s ∈ (query q).symbols ↔ s ∈ Query.symbols q :=
  mem_symbols_iff.trans Query.mem_symbols_iff.symm

theorem Query.symbols_subset {q : Query} {n : Node} (h : n ∈ q.children) :
    n.symbols ⊆ symbols q :=
  fun _ hs => mem_symbols_iff.mpr (.inr ⟨n, h, hs⟩)

theorem Clauses.exists_of_mem_freeSources {ν : Type} {free : ν → List Symbol} {s : Symbol}
    {gs : List (Generator ν)} : ∀ {earlier : List Symbol},
    s ∈ freeSources free earlier gs → ∃ g ∈ gs, s ∈ free g.source := by
  induction gs with
  | nil => intro earlier h; cases h
  | cons g gs ih =>
    intro earlier h
    rcases List.mem_append.mp h with h | h
    · exact ⟨g, List.mem_cons_self, (List.mem_filter.mp h).1⟩
    · obtain ⟨g', hg', h⟩ := ih h
      exact ⟨g', List.mem_cons_of_mem _ hg', h⟩

/-- What a query refers to without binding it is among its symbols, if that is so for its
children. -/
theorem Query.freeSymbols_subset_of_children {q : Query}
    (h : ∀ n ∈ q.children, n.freeSymbols ⊆ n.symbols) : freeSymbols q ⊆ symbols q := by
  intro s hs
  rcases mem_freeSymbols_iff.mp hs with hs | ⟨-, n, hn, hs⟩
  · obtain ⟨g, hg, hs⟩ := Clauses.exists_of_mem_freeSources hs
    have hg := Clauses.source_mem_children hg
    exact symbols_subset hg (h _ hg hs)
  · have hn : n ∈ q.children := List.mem_append_right _ hn
    exact symbols_subset hn (h n hn hs)

theorem Node.freeSymbols_subset_symbols : ∀ n : Node, n.freeSymbols ⊆ n.symbols := by
  refine Node.induct fun t ih s hs => ?_
  have composed : t.IsComposed → s ∈ (mk t).symbols := by
    intro ht
    rw [freeSymbols_mk ht] at hs
    obtain ⟨n, hn, hs⟩ := List.mem_flatMap.mp hs
    exact mem_symbols_iff.mpr (.inr ⟨n, hn, ih n hn hs⟩)
  cases t with
  | query q =>
    rw [freeSymbols_query] at hs
    exact mem_symbols_query.mpr (Query.freeSymbols_subset_of_children ih hs)
  | row source =>
    rw [freeSymbols_row] at hs
    exact mem_symbols_iff.mpr (.inl hs)
  | column source name =>
    rw [freeSymbols_column] at hs
    exact mem_symbols_iff.mpr (.inl hs)
  | _ => exact composed trivial

theorem Query.freeSymbols_subset_symbols (q : Query) : freeSymbols q ⊆ symbols q :=
  freeSymbols_subset_of_children fun n _ => n.freeSymbols_subset_symbols

/-! ## Replacing symbols -/

section
variable {ν μ : Type} {r r' : Symbol → Symbol}

theorem Clauses.relabelLayer_congr {q : Clauses ν} (h : ∀ s ∈ q.binders, r s = r' s) :
    q.relabelLayer r = q.relabelLayer r' := by
  have hgenerators : q.generators.map (fun g => (⟨r g.binder, g.source⟩ : Generator ν))
      = q.generators.map fun g => ⟨r' g.binder, g.source⟩ :=
    List.map_congr_left fun g hg => by rw [h _ (List.mem_map_of_mem hg)]
  rw [relabelLayer, relabelLayer, hgenerators]

theorem Shape.relabelLayer_congr {s : Shape ν} (h : ∀ a ∈ s.ownSymbols, r a = r' a) :
    s.relabelLayer r = s.relabelLayer r' := by
  cases s with
  | query q => exact congrArg Shape.query (Clauses.relabelLayer_congr h)
  | row source => exact congrArg Shape.row (h source List.mem_cons_self)
  | column source name => exact congrArg (Shape.column · name) (h source List.mem_cons_self)
  | _ => rfl

@[simp] theorem Clauses.binders_relabelLayer (q : Clauses ν) :
    (q.relabelLayer r).binders = q.binders.map r := by
  simp [relabelLayer, binders]

@[simp] theorem Clauses.children_relabelLayer (q : Clauses ν) :
    (q.relabelLayer r).children = q.children := by
  simp [relabelLayer, children, sources, expressions]

theorem Shape.ownSymbols_map (f : ν → μ) (s : Shape ν) : (s.map f).ownSymbols = s.ownSymbols := by
  cases s <;> simp [map, ownSymbols]

theorem Shape.ownSymbols_relabelLayer (s : Shape ν) :
    (s.relabelLayer r).ownSymbols = s.ownSymbols.map r := by
  cases s <;> simp [relabelLayer, ownSymbols]

theorem Shape.children_relabelLayer (s : Shape ν) : (s.relabelLayer r).children = s.children := by
  cases s <;> simp [relabelLayer, children]

end

/-- A tree with other symbols, where they are bound and where they are referred to. -/
def Node.relabel (r : Symbol → Symbol) : Node → Node :=
  fold fun s => mk ((s.map Prod.snd).relabelLayer r)

/-- A query with other symbols, where they are bound and where they are referred to. -/
def Query.relabel (r : Symbol → Symbol) (q : Query) : Query :=
  q.twin r (Node.relabel r)

section
variable {r r' : Symbol → Symbol}

theorem Node.relabel_mk (s : Shape Node) :
    (mk s).relabel r = mk ((s.map (relabel r)).relabelLayer r) := by
  rw [relabel, fold_mk, Shape.map_map]
  rfl

theorem Node.twin_relabel : Twin r (Node.relabel r) :=
  Node.relabel_mk

theorem Node.relabel_congr : ∀ n : Node, (∀ s ∈ n.symbols, r s = r' s) →
    n.relabel r = n.relabel r' := by
  refine Node.induct fun t ih h => ?_
  have hchildren : t.map (relabel r) = t.map (relabel r') :=
    Shape.map_congr fun n hn => ih n hn fun s hs => h s (mem_symbols_iff.mpr (.inr ⟨n, hn, hs⟩))
  rw [relabel_mk, relabel_mk, hchildren, Shape.relabelLayer_congr]
  intro s hs
  rw [Shape.ownSymbols_map] at hs
  exact h s (mem_symbols_iff.mpr (.inl hs))

/-- Only the replacement of the symbols of a query matters. -/
theorem Query.relabel_congr {q : Query} (h : ∀ s ∈ symbols q, r s = r' s) :
    relabel r q = relabel r' q := by
  have hchildren : q.map (Node.relabel r) = q.map (Node.relabel r') :=
    Clauses.map_congr fun n hn => n.relabel_congr fun s hs => h s (symbols_subset hn hs)
  rw [relabel, relabel, twin, twin, hchildren, Clauses.relabelLayer_congr]
  intro s hs
  rw [Clauses.binders_map] at hs
  exact h s (mem_symbols_iff.mpr (.inl hs))

theorem Node.mem_symbols_relabel {a : Symbol} :
    ∀ n : Node, a ∈ (n.relabel r).symbols ↔ ∃ s ∈ n.symbols, r s = a := by
  refine Node.induct fun t ih => ?_
  rw [relabel_mk, mem_symbols_iff, Shape.ownSymbols_relabelLayer, Shape.ownSymbols_map,
    Shape.children_relabelLayer, Shape.children_map, List.mem_map]
  constructor
  · rintro (⟨s, hs, rfl⟩ | ⟨_, hmem, ha⟩)
    · exact ⟨s, mem_symbols_iff.mpr (.inl hs), rfl⟩
    · obtain ⟨n, hn, rfl⟩ := List.mem_map.mp hmem
      obtain ⟨s, hs, rfl⟩ := (ih n hn).mp ha
      exact ⟨s, mem_symbols_iff.mpr (.inr ⟨n, hn, hs⟩), rfl⟩
  · rintro ⟨s, hs, rfl⟩
    rcases mem_symbols_iff.mp hs with hs | ⟨n, hn, hs⟩
    · exact .inl ⟨s, hs, rfl⟩
    · exact .inr ⟨_, List.mem_map_of_mem hn, (ih n hn).mpr ⟨s, hs, rfl⟩⟩

theorem Query.mem_symbols_relabel {q : Query} {a : Symbol} :
    a ∈ symbols (relabel r q) ↔ ∃ s ∈ symbols q, r s = a := by
  simp only [← Node.mem_symbols_query, ← Node.mem_symbols_relabel, Node.twin_relabel.query]
  rfl

end

/-! ## The symbol for the numbered rows -/

/-- The symbols that a table is made for lie below the slots that it hands out, and these begin
right above them. -/
theorem SymbolTable.lt_reserved_above {symbols : List Symbol} {limit : Nat}
    (h : ∀ s ∈ symbols, s.slot.toNat < limit) :
    (∀ s ∈ symbols, s.slot.toNat < (above symbols).reserved)
      ∧ (above symbols).reserved ≤ limit := by
  have hfold : ∀ (l : List Symbol) (start : Nat), (∀ s ∈ l, s.slot.toNat < limit) →
      start ≤ limit →
      start ≤ l.foldl (fun bound s => max bound (s.slot.toNat + 1)) start
        ∧ (∀ s ∈ l, s.slot.toNat < l.foldl (fun bound s => max bound (s.slot.toNat + 1)) start)
        ∧ l.foldl (fun bound s => max bound (s.slot.toNat + 1)) start ≤ limit := by
    intro l
    induction l with
    | nil => intro start _ hstart; exact ⟨Nat.le_refl _, nofun, hstart⟩
    | cons a l ih =>
      intro start hl hstart
      have ha : a.slot.toNat < limit := hl a List.mem_cons_self
      obtain ⟨hle, hlt, hlimit⟩ := ih (max start (a.slot.toNat + 1))
        (fun s hs => hl s (List.mem_cons_of_mem _ hs)) (by omega)
      rw [List.foldl_cons]
      refine ⟨by omega, fun s hs => ?_, hlimit⟩
      rcases List.mem_cons.mp hs with rfl | hs
      · omega
      · exact hlt s hs
  exact (hfold symbols 0 h (Nat.zero_le _)).2

/-- A symbol with a slot below the last one, so that there is another one above it. -/
def Symbol.HasRoom (s : Symbol) : Prop :=
  s.slot.toNat < UInt32.size - 1

instance (s : Symbol) : Decidable s.HasRoom :=
  inferInstanceAs (Decidable (_ < _))

/-- There is room above the symbols, and above those in their place. -/
def HaveRoom (r : Symbol → Symbol) (symbols : List Symbol) : Prop :=
  ∀ s ∈ symbols, s.HasRoom ∧ (r s).HasRoom

/-- **The symbol for the numbered rows is new to the query.** -/
theorem Query.freshSymbol_not_mem {q : Query} (h : ∀ s ∈ symbols q, s.HasRoom) :
    freshSymbol q ∉ symbols q := by
  obtain ⟨hlt, hle⟩ := SymbolTable.lt_reserved_above h
  intro hmem
  have hfresh := hlt _ hmem
  have hslot : (freshSymbol q).slot.toNat = (SymbolTable.above (symbols q)).reserved := by
    change (UInt32.ofNat ((SymbolTable.above (symbols q)).reserved + 0)).toNat = _
    exact UInt32.toNat_ofNat_of_lt (Nat.lt_of_le_of_lt hle (by decide))
  omega

/-! ## Numbering rows -/

theorem Shape.relabelLayer_symm {ν : Type} (e : Equiv.Perm Symbol) (s : Shape ν) :
    (s.relabelLayer e).relabelLayer e.symm = s := by
  cases s <;> simp [relabelLayer, Clauses.relabelLayer, Function.comp_def]

/-- Trees that are taken apart and put together with other symbols. -/
def Tree.relabeled (e : Equiv.Perm Symbol) : Tree Node where
  shape n := n.shape.relabelLayer e.symm
  make s := .mk (s.relabelLayer e)

namespace RowNumbering

variable (e : Equiv.Perm Symbol)

theorem respects_relabel : Respects .plain (.relabeled e) (Node.relabel e) where
  shape n := by
    change ((n.relabel e).shape).relabelLayer e.symm = _
    rw [Node.twin_relabel.shape, Shape.relabelLayer_symm]
    rfl
  make s _ := Node.relabel_mk s

theorem columns_relabeled (outer : Symbol) (projection : Option Node) :
    columns .plain (e outer) projection = columns (.relabeled e) outer projection := by
  have hrow : ∀ n : Node, ((Tree.relabeled e).shape n).isRow = (Tree.plain.shape n).isRow := by
    rintro ⟨s⟩
    cases s <;> rfl
  cases projection with
  | none => rfl
  | some p =>
    simp only [columns, hrow]
    obtain ⟨s⟩ := p
    cases s <;> rfl

/-- The page of a query with other symbols, and other symbols in the page of a query. -/
theorem page_relabeled (outer : Symbol) (dialect : String) (q : Query) :
    page .plain (e outer) dialect (q.relabelLayer e)
      = (page (.relabeled e) outer dialect q).map (Clauses.relabelLayer e) := by
  rw [page_eq, page_eq, show (q.relabelLayer e).projection = q.projection from rfl,
    columns_relabeled, show (q.relabelLayer e).offset = q.offset from rfl,
    show (q.relabelLayer e).fetch = q.fetch from rfl]
  change _ = Clauses.relabelLayer e <$> _
  simp only [map_bind, map_pure]
  rfl

end RowNumbering

/-- **The rows of a query may be numbered before or after its symbols are replaced**, if the symbol
for the numbered rows is replaced as well. -/
theorem Query.numberRows_relabel {q : Query} {e : Equiv.Perm Symbol}
    (h : e (freshSymbol q) = freshSymbol (relabel e q)) (dialect : String) :
    numberRows dialect (relabel e q) = (numberRows dialect q).map (relabel e) := by
  have hmap := RowNumbering.page_map (RowNumbering.respects_relabel e) (freshSymbol q) dialect q
  rw [numberRows, ← h, relabel, twin, RowNumbering.page_relabeled, hmap, numberRows]
  cases RowNumbering.page .plain (freshSymbol q) dialect q <;> rfl

/-- Any replacement of the symbols of a query can be made one for the numbered rows as well. -/
theorem Query.exists_numberRows_relabel {q : Query} {e : Equiv.Perm Symbol}
    (h : HaveRoom e (symbols q)) (dialect : String) :
    ∃ e' : Equiv.Perm Symbol, (∀ s ∈ symbols q, e' s = e s)
      ∧ numberRows dialect (relabel e q) = (numberRows dialect q).map (relabel e') := by
  have hnew : freshSymbol q ∉ symbols q := freshSymbol_not_mem fun s hs => (h s hs).1
  have hnew' : freshSymbol (relabel e q) ∉ symbols (relabel e q) := by
    refine freshSymbol_not_mem fun a ha => ?_
    obtain ⟨s, hs, rfl⟩ := mem_symbols_relabel.mp ha
    exact (h s hs).2
  -- a swap that moves no symbol of the query takes one new symbol to the other
  let e' := e.trans (Equiv.swap (e (freshSymbol q)) (freshSymbol (relabel e q)))
  have hsame : ∀ s ∈ symbols q, e' s = e s := by
    intro s hs
    refine Equiv.swap_apply_of_ne_of_ne (fun heq => ?_) (fun heq => ?_)
    · exact hnew (e.injective heq ▸ hs)
    · exact hnew' (heq ▸ mem_symbols_relabel.mpr ⟨s, hs, rfl⟩)
  have hfresh : e' (freshSymbol q) = freshSymbol (relabel e' q) := by
    rw [relabel_congr hsame]
    exact Equiv.swap_apply_left _ _
  refine ⟨e', hsame, ?_⟩
  rw [← relabel_congr hsame]
  exact numberRows_relabel hfresh dialect

/-! ## Checking scopes -/

/-- A fault with another symbol in it, if it names one. -/
def Fault.relabel (r : Symbol → Symbol) : Fault → Fault
  | .boundTwice s => .boundTwice (r s)
  | .outOfScope s => .outOfScope (r s)
  | .unbound s => .unbound (r s)
  | fault => fault

/-- An error with another symbol in it, if it names one. -/
def Error.relabel (r : Symbol → Symbol) : Error → Error
  | .malformed fault => .malformed (fault.relabel r)
  | e => e

theorem forM_map_eq_mapError {α β : Type} {f : α → Except Error Unit} {g : β → Except Error Unit}
    {t : α → β} {onError : Error → Error} {l : List α}
    (h : ∀ a ∈ l, g (t a) = (f a).mapError onError) :
    (l.map t).forM g = (l.forM f).mapError onError := by
  induction l with
  | nil => rfl
  | cons a l ih =>
    change (g (t a) >>= fun _ => (l.map t).forM g)
      = Except.mapError onError (f a >>= fun _ => l.forM f)
    rw [h a List.mem_cons_self, ih fun b hb => h b (List.mem_cons_of_mem _ hb)]
    cases f a <;> rfl

/-- A tree passes or fails the check alike with other symbols, in a scope of other symbols. -/
def Node.ChecksAlike (r : Symbol → Symbol) (n : Node) : Prop :=
  ∀ scope, (n.relabel r).checkScope (scope.map r)
    = (n.checkScope scope).mapError (Error.relabel r)

section
variable {r : Symbol → Symbol} (hr : Function.Injective r)
include hr

namespace Clauses

theorem checkGenerators_relabel {gs : List (Generator Node)}
    (h : ∀ g ∈ gs, g.source.ChecksAlike r) (scope : List Symbol) : ∀ bound : List Symbol,
    checkGenerators Node.checkScope (scope.map r) (bound.map r)
        (gs.map fun g => ⟨r g.binder, g.source.relabel r⟩)
      = ((checkGenerators Node.checkScope scope bound gs).map (List.map r)).mapError
          (Error.relabel r) := by
  induction gs with
  | nil => intro bound; rfl
  | cons g gs ih =>
    intro bound
    have hrest := ih (fun g' hg' => h g' (List.mem_cons_of_mem _ hg')) (g.binder :: bound)
    rw [List.map_cons, checkGenerators, checkGenerators, ← List.map_append,
      h g List.mem_cons_self]
    cases g.source.checkScope (bound ++ scope) with
    | error e => rfl
    | ok _ =>
      by_cases hbound : g.binder ∈ bound
      · rw [if_pos hbound, if_pos (List.mem_map_of_mem hbound)]
        rfl
      · rw [if_neg hbound, if_neg (mt (List.mem_map_of_injective hr).mp hbound)]
        exact hrest

theorem checkScopeLayer_relabel {q : Query} (h : ∀ n ∈ q.children, n.ChecksAlike r)
    (scope : List Symbol) :
    (Query.relabel r q).checkScopeLayer Node.checkScope (scope.map r)
      = (q.checkScopeLayer Node.checkScope scope).mapError (Error.relabel r) := by
  have hgenerators := checkGenerators_relabel hr
    (fun g hg => h g.source (source_mem_children hg)) scope []
  have hlist : (Query.relabel r q).generators
      = q.generators.map fun g => ⟨r g.binder, g.source.relabel r⟩ := by
    simp [Query.relabel, Query.twin, relabelLayer, map]
  have hexpressions : (Query.relabel r q).expressions = q.expressions.map (Node.relabel r) :=
    expressions_map _ q
  rw [List.map_nil] at hgenerators
  rw [checkScopeLayer, checkScopeLayer, hlist, hexpressions, hgenerators]
  cases checkGenerators Node.checkScope scope [] q.generators with
  | error e => rfl
  | ok bound =>
    refine forM_map_eq_mapError fun n hn => ?_
    rw [← List.map_append]
    exact h n (List.mem_append_right _ hn) _

end Clauses

theorem Node.checksAlike : ∀ n : Node, n.ChecksAlike r := by
  refine Node.induct fun t ih scope => ?_
  have children : ((t.map (relabel r)).children.forM fun n => n.checkScope (scope.map r))
      = (t.children.forM fun n => n.checkScope scope).mapError (Error.relabel r) := by
    rw [Shape.children_map]
    exact forM_map_eq_mapError fun n hn => ih n hn scope
  have reference : ∀ source : Symbol,
      (if r source ∈ scope.map r then .ok () else .error (.malformed (.outOfScope (r source))))
        = (if source ∈ scope then .ok () else .error (.malformed (.outOfScope source)) :
            Except Error Unit).mapError (Error.relabel r) := by
    intro source
    by_cases hs : source ∈ scope
    · rw [if_pos hs, if_pos (List.mem_map_of_mem hs)]
      rfl
    · rw [if_neg hs, if_neg (mt (List.mem_map_of_injective hr).mp hs)]
      rfl
  rw [relabel_mk, checkScope_mk, checkScope_mk]
  cases t with
  | query q => exact Clauses.checkScopeLayer_relabel hr ih scope
  | row source | column source _ => exact reference source
  | _ => exact children

/-- **The scopes of a query may be checked before or after its symbols are replaced**, if different
symbols stay different. -/
theorem Query.checkScope_relabel (q : Query) :
    checkScope (relabel r q) = (checkScope q).mapError (Error.relabel r) :=
  Clauses.checkScopeLayer_relabel hr (fun n _ => Node.checksAlike hr n) []

end

end SqlCompiler
