import Mathlib.Data.Finite.Prod
import Mathlib.Data.Fintype.Sum
import SqlCompiler.Proofs.Relabeling

/-!
# Statements do not depend on the choice of symbols

A statement has aliases where its query has symbols, and aliases are numbered in the order of the
generators.  So a query with other symbols gives the same statement.  The two are written with
different tables of aliases, and with a dialect that numbers rows even the symbols that are added
need not correspond: the one for the numbered rows is the first above those of the query, and in
one of the two trees it may be a symbol of an enclosing query while in the other it is not.  That
makes no difference as the numbered query refers to no such symbol.

* `Script.Alike` — scripts that write the same, wherever corresponding symbols have the same alias.
* `Node.numberedSymbols` — the symbols of the queries that number their rows.
* `Query.alike` — the scripts of a tree and of the tree with other symbols are alike.
* `Query.compile_relabel` — so the statements are the same.
-/

set_option autoImplicit false
namespace SqlCompiler

/-! ## Scripts that write the same -/

/-- Tables that have the same alias for a symbol and for the one in its place. -/
def Aliases.Correspond (r : Symbol → Symbol) (a b : Aliases) (s : Symbol) : Prop :=
  ∃ q, a s = some q ∧ b (r s) = some q

/-- Symbols correspond after more generators were given the next numbers, if these were or if they
corresponded before. -/
theorem Aliases.Correspond.bind {r : Symbol → Symbol} (hr : Function.Injective r) {s : Symbol}
    {symbols : List Symbol} : ∀ {a b : Aliases} {count : Nat},
    (s ∉ symbols → Correspond r a b s) →
      Correspond r (a.bind count symbols) (b.bind count (symbols.map r)) s := by
  induction symbols with
  | nil => intro a b count h; exact h List.not_mem_nil
  | cons t rest ih =>
    intro a b count h
    refine ih fun hrest => ?_
    by_cases hst : s = t
    · exact ⟨.numbered (count + 1), if_pos hst, if_pos (congrArg r hst)⟩
    · obtain ⟨q, ha, hb⟩ := h fun hmem => (List.mem_cons.mp hmem).elim hst hrest
      exact ⟨q, (if_neg hst).trans ha, (if_neg fun heq => hst (hr heq)).trans hb⟩

namespace Script

/-- A script that writes the same as another one, wherever the symbols that are needed
correspond. -/
def Alike (r : Symbol → Symbol) (σ τ : Script) : Prop :=
  ∀ (a b : Aliases) (nested : Bool) (count : Nat), (∀ s ∈ σ.free, a.Correspond r b s) →
    τ.output b nested count = σ.output a nested count

variable {r r' : Symbol → Symbol} {σ σ' τ τ' : Script}

theorem Alike.append (h : Alike r σ σ') (h' : Alike r τ τ') : Alike r (σ ++ τ) (σ' ++ τ') := by
  intro a b nested count hfree
  have hfirst := h a b nested count fun s hs => hfree s (List.mem_append_left _ hs)
  change (σ'.output b nested count >>= fun x => τ'.output b nested x.aliasCount >>= _)
    = (σ.output a nested count >>= fun x => τ.output a nested x.aliasCount >>= _)
  rw [hfirst]
  refine congrArg _ (funext fun x => ?_)
  rw [h' a b nested x.aliasCount fun s hs => hfree s (List.mem_append_right _ hs)]

/-- Only the symbols that are needed have to correspond. -/
theorem Alike.congr (h : Alike r σ τ) (hr : ∀ s ∈ σ.free, r s = r' s) : Alike r' σ τ := by
  intro a b nested count hfree
  refine h a b nested count fun s hs => ?_
  obtain ⟨q, ha, hb⟩ := hfree s hs
  exact ⟨q, ha, (congrArg b (hr s hs)).trans hb⟩

theorem Alike.scope (hr : Function.Injective r) (h : Alike r σ τ) (symbols : List Symbol) :
    Alike r (.scope symbols σ) (.scope (symbols.map r) τ) := by
  intro a b nested count hfree
  rw [output, output, List.length_map]
  refine h _ _ nested _ fun s hs => Aliases.Correspond.bind hr fun hmem => hfree s ?_
  exact List.mem_filter.mpr ⟨hs, decide_eq_true hmem⟩

theorem Alike.subquery (h : Alike r σ τ) : Alike r (subquery σ) (subquery τ) := by
  have hword : ∀ text, Alike r (.words text) (.words text) := fun _ _ _ _ _ _ => rfl
  have hdeeper : Alike r (.deeper σ) (.deeper τ) := fun a b _ count hfree =>
    h a b true count hfree
  exact ((hword "(").append hdeeper).append (hword ")")

theorem alike_literal (d : Dialect) (c : Literal) : Alike r (literal d c) (literal d c) := by
  have hchecked : ∀ {α : Type} (x : Except Error α) (p : α → Piece),
      Alike r (checked x fun v => piece (p v)) (checked x fun v => piece (p v)) := by
    intro α x p a b nested count _
    cases x <;> rfl
  rw [literal]
  split
  · exact hchecked _ _
  · split
    · exact fun _ _ _ _ _ => rfl
    · exact hchecked _ _

theorem alike_checkPaging (d : Dialect) (q : Clauses Rendering) :
    Alike r (checkPaging d q) (checkPaging d q) := by
  intro a b nested count _
  rw [checkPaging]
  split
  · split <;> rfl
  · rfl

/-- Being alike follows the writing. -/
theorem discipline_alike (d : Dialect) (r : Symbol → Symbol) :
    Discipline d r (fun _ => True) fun _ _ => Alike r where
  done _ _ _ _ _ _ := rfl
  append := Alike.append
  relax := id
  check _ _ _ _ _ _ _ := rfl
  fails hσ hτ a b nested count _ := (hτ b nested count).trans (hσ a nested count).symm
  words _ _ _ _ _ _ _ := rfl
  call _ _ _ _ _ _ := rfl
  name _ _ _ _ _ _ _ := rfl
  nameText _ _ _ _ _ _ _ := rfl
  literal c _ := alike_literal d c
  placeholder _ _ _ _ _ _ _ _ := rfl
  reference s _ a b nested count h := by
    obtain ⟨q, ha, hb⟩ := h s List.mem_cons_self
    rw [output, output, Aliases.lookup, Aliases.lookup, ha, hb]
  sourceAlias s _ a b nested count h := by
    obtain ⟨q, ha, hb⟩ := h s List.mem_cons_self
    rw [output, output, Aliases.lookup, Aliases.lookup, ha, hb]

end Script

/-! ## Queries that number their rows -/

/-- The symbols of a query, if it numbers its rows. -/
def Shape.numberedSymbols (d : Dialect) : Shape Node → List Symbol
  | .query q => if d.Numbers q then Query.symbols q else []
  | _ => []

/-- The symbols of the queries in a tree that number their rows. -/
def Node.numberedSymbols (d : Dialect) : Node → List Symbol :=
  fold fun s => (s.map Prod.fst).numberedSymbols d ++ s.children.flatMap Prod.snd

namespace Node

variable {d : Dialect}

theorem gathers_numberedSymbols : Gathers (Shape.numberedSymbols d) (numberedSymbols d) where
  layer s := by
    rw [numberedSymbols, fold_mk, Shape.map_map, Shape.children_map, List.flatMap_map]
    exact congrArg (· ++ _) (congrArg _ (Shape.map_id s))

theorem ignores_numberedSymbols : Ignores (Shape.numberedSymbols d) where
  query q h := by
    refine if_neg fun hnumbers => ?_
    rw [Clauses.isPaged, hnumbers.2, Bool.or_true] at h
    cases h
  column _ _ := rfl
  rowConstant _ := rfl
  compare f _ _ _ := by cases f <;> rfl
  product _ := rfl
  record _ := rfl
  rowNumber _ := rfl

theorem numberedSymbols_subset_symbols : ∀ n : Node, n.numberedSymbols d ⊆ n.symbols := by
  refine Node.induct fun t ih s hs => ?_
  rw [gathers_numberedSymbols.layer] at hs
  rcases List.mem_append.mp hs with hs | hs
  · cases t with
    | query q =>
      by_cases hq : d.Numbers q
      · rw [Shape.numberedSymbols, if_pos hq] at hs
        exact mem_symbols_query.mpr hs
      · rw [Shape.numberedSymbols, if_neg hq] at hs
        cases hs
    | _ => cases hs
  · obtain ⟨n, hn, hs⟩ := List.mem_flatMap.mp hs
    exact mem_symbols_iff.mpr (.inr ⟨n, hn, ih n hn hs⟩)

end Node

namespace Query

variable {d : Dialect} {q p : Query} {e : Equiv.Perm Symbol}

/-- The clauses of a query with other symbols are alike if its children are. -/
theorem alike_clauses (hd : d.Balanced) (hq : ¬ d.Numbers q)
    (ih : ∀ n ∈ q.children, WithChildren
      (fun n => Script.Alike e (n.script d) ((n.relabel e).script d)) n) :
    Script.Alike e (script d q) (script d (relabel e q)) := by
  have hchildren : ∀ n ∈ q.children,
      WithChildren (Discipline.Holds d (Node.relabel e) fun _ _ => Script.Alike e) n :=
    fun n hn => ⟨fun _ => (ih n hn).1, fun m hm _ => (ih n hn).2 m hm⟩
  have hbody := (Script.discipline_alike d e).body Node.twin_relabel hd
    (fun _ _ _ _ _ _ _ => rfl) hchildren 0
  have hbinders : (rendering d (relabel e q)).binders = (rendering d q).binders.map e := by
    simp [rendering, relabel, twin]
  rw [script_eq_clauses hq, script_eq_clauses (show ¬ d.Numbers (relabel e q) from hq),
    Script.clauses, Script.clauses, hbinders]
  exact (Script.alike_checkPaging d _).append (hbody.scope e.injective _)

/-- A query that numbers its rows is alike with other symbols if the query in its place is. -/
theorem alike_numbered (hq : d.Numbers q) (hroom : HaveRoom e ((Node.query q).numberedSymbols d))
    (hp : ∀ p, numberRows d.name q = .ok p → ∀ e' : Equiv.Perm Symbol,
      HaveRoom e' ((Node.query p).numberedSymbols d) →
      Script.Alike e' (script d p) (script d (relabel e' p))) :
    Script.Alike e (script d q) (script d (relabel e q)) := by
  have hown : symbols q ⊆ (Node.query q).numberedSymbols d := by
    rw [Node.gathers_numberedSymbols.layer, Shape.numberedSymbols, if_pos hq]
    exact List.subset_append_left _ _
  obtain ⟨e', hsame, hpage⟩ :=
    exists_numberRows_relabel (fun s hs => hroom s (hown hs)) d.name
  rw [script_of_numbers hq, script_of_numbers (show d.Numbers (relabel e q) from hq), hpage]
  cases hn : numberRows d.name q with
  | error c => exact fun _ _ _ _ _ => rfl
  | ok p =>
    have hnumbered : HaveRoom e' ((Node.query p).numberedSymbols d) := by
      intro s hs
      have hplain : (Shape.query p).numberedSymbols d = [] := if_neg (not_numbers_of_numberRows hn)
      have hs := (Node.gathers_numberedSymbols.mem_iff hplain).mp hs
      obtain ⟨n, hmem, hs⟩ :=
        (Node.gathers_numberedSymbols.mem_numberRows Node.ignores_numberedSymbols hn).mp hs
      rw [hsame s (symbols_subset hmem (n.numberedSymbols_subset_symbols hs))]
      exact hroom s (Node.gathers_numberedSymbols.subset (n := .query q) hmem hs)
    -- nothing but symbols of `q` is needed, and there the two replacements agree
    refine (hp p hn e' hnumbered).congr fun s hs => hsame s ?_
    have hfree := (free_subset_freeSymbols d).2 p hs
    exact freeSymbols_subset_symbols q ((mem_freeSymbols_numberRows hn).mp hfree)

/-- **The scripts of a tree and of the tree with other symbols are alike.** -/
theorem alike (hd : d.Balanced) :
    (∀ (n : Node) (e : Equiv.Perm Symbol), HaveRoom e (n.numberedSymbols d) →
        Script.Alike e (n.script d) ((n.relabel e).script d))
      ∧ ∀ (q : Query) (e : Equiv.Perm Symbol), HaveRoom e ((Node.query q).numberedSymbols d) →
        Script.Alike e (script d q) (script d (relabel e q)) := by
  refine writing_induct d ?_ ?_ ?_ ?_ ?_
  · intro t hquery ih e hroom
    refine (Script.discipline_alike d e).expression Node.twin_relabel hd hquery
      (fun _ _ => trivial) (fun n hn _ => ih n hn e fun s hs => hroom s ?_) 0
    exact Node.gathers_numberedSymbols.subset (n := .mk t) hn hs
  · intro q hq e hroom
    rw [Node.script_query, Node.twin_relabel.query, Node.script_query]
    exact (hq e hroom).subquery
  · intro q hq ih e hroom
    have hchild : ∀ n ∈ q.children, HaveRoom e (n.numberedSymbols d) := fun n hn s hs =>
      hroom s (Node.gathers_numberedSymbols.subset (n := .query q) hn hs)
    refine alike_clauses hd hq fun n hn => ⟨(ih n hn).1 e (hchild n hn), fun m hm => ?_⟩
    refine (ih n hn).2 m hm e fun s hs => hchild n hn s ?_
    exact Node.gathers_numberedSymbols.subset hm hs
  · intro q p hq hn hp e hroom
    refine alike_numbered hq hroom fun p' hn' => ?_
    cases hn.symm.trans hn'
    exact hp
  · intro q c hq hn e hroom
    refine alike_numbered hq hroom fun p hn' => ?_
    cases hn.symm.trans hn'

end Query

/-! ## Statements -/

/-- An error without the symbol that it may name. -/
def Error.anonymous (e : Error) : Error :=
  e.relabel fun _ => ⟨0, 0⟩

theorem Error.anonymous_relabel (r : Symbol → Symbol) (e : Error) :
    (e.relabel r).anonymous = e.anonymous := by
  cases e with
  | malformed fault => cases fault <;> rfl
  | _ => rfl

instance : Finite Symbol :=
  Finite.of_injective (fun s : Symbol => (s.slot.toFin, s.generation.toFin)) (by
    rintro ⟨slot, generation⟩ ⟨slot', generation'⟩ h
    simpa [UInt32.toFin_inj] using h)

/-- A replacement under which the symbols of a list stay different is a permutation on them. -/
theorem Symbol.exists_perm {r : Symbol → Symbol} {symbols : List Symbol}
    (hr : Set.InjOn r {s | s ∈ symbols}) :
    ∃ e : Equiv.Perm Symbol, ∀ s ∈ symbols, r s = e s := by
  classical
  have : Fintype Symbol := Fintype.ofFinite Symbol
  obtain ⟨g, hg⟩ := Finset.exists_equiv_extend_of_card_eq (t := Finset.univ)
    (s := symbols.toFinset) (f := r) Finset.card_univ.symm (Finset.subset_univ _)
    (hr.mono fun s hs => List.mem_toFinset.mp hs)
  refine ⟨g.trans (Equiv.subtypeUnivEquiv Finset.mem_univ), fun s hs => ?_⟩
  exact (hg s (List.mem_toFinset.mpr hs)).symm

namespace Query

theorem columnCount_relabel (r : Symbol → Symbol) (q : Query) :
    columnCount (relabel r q) = columnCount q := by
  have hrow : ∀ n : Node, (n.relabel r).isRow = n.isRow := by
    intro n
    rw [Node.isRow, Node.isRow, Node.twin_relabel.shape]
    cases n.shape <;> rfl
  have hcolumns : ∀ n : Node,
      Layout.columnsOf (n.relabel r) = (Layout.columnsOf n).map (Node.relabel r) := by
    rintro ⟨s⟩
    rw [Node.relabel_mk]
    cases s with
    | record fields =>
      change List.map _ (List.map _ fields) = List.map _ (List.map _ fields)
      rw [List.map_map, List.map_map]
      rfl
    | product items => rfl
    | _ => exact congrArg (fun n => [n]) (Node.relabel_mk _).symm
  have hprojection : (relabel r q).projection = q.projection.map (Node.relabel r) := rfl
  rw [columnCount, columnCount, hprojection]
  cases q.projection with
  | none => rfl
  | some p =>
    dsimp only [Option.map_some]
    rw [hcolumns, List.any_map, List.length_map]
    simp only [Function.comp_def, hrow]

/-- **A statement does not depend on the choice of symbols.**  If the symbols of a query are
replaced everywhere and different ones stay different, the select statement is the same: its text,
its setters, the number of its columns and the rows to skip.  Or there is none for either query, and
the errors are the same but for the symbol that they may name.  The symbols have to leave room for
one more, before and after. -/
theorem compile_relabel (b : Database) (q : Query) (r : Symbol → Symbol)
    (hr : Set.InjOn r {s | s ∈ symbols q}) (hroom : HaveRoom r (symbols q)) :
    ((relabel r q).compile b.dialect).mapError Error.anonymous
      = (q.compile b.dialect).mapError Error.anonymous := by
  obtain ⟨e, he⟩ := Symbol.exists_perm hr
  rw [relabel_congr he, compile_eq, compile_eq, checkScope_relabel e.injective]
  cases hscope : checkScope q with
  | error c => exact congrArg Except.error (Error.anonymous_relabel e c)
  | ok _ =>
    have hnumbered : HaveRoom e ((Node.query q).numberedSymbols b.dialect) := by
      intro s hs
      have hs := Node.mem_symbols_query.mp ((Node.query q).numberedSymbols_subset_symbols hs)
      rw [← he s hs]
      exact hroom s hs
    -- a checked query needs no symbols, so there is nothing that would have to correspond
    have houtput := (alike b.balanced).2 q e hnumbered (fun _ => none) (fun _ => none) false 0
      fun s hs => nomatch (free_subset_scope b.dialect).2 q [] hscope hs
    rw [houtput, columnCount_relabel]
    rfl

/-- A page inside another query on a dialect that numbers rows.  The symbol for the numbered rows
is that of the outer query before the replacement, but not after it. -/
theorem compile_relabel_sqlserver :
    let page : Query := {
      generators := [⟨⟨0, 0⟩, .table "orders"⟩]
      projection := some (.column ⟨0, 0⟩ "total")
      fetch := some 10
      offset := some 5 }
    let q : Query := {
      generators := [⟨⟨1, 0⟩, .table "users"⟩]
      filters := [.apply .hasRows [.query page]]
      projection := some (.column ⟨1, 0⟩ "id") }
    let r : Symbol → Symbol := Equiv.swap ⟨1, 0⟩ ⟨5, 0⟩
    freshSymbol page = ⟨1, 0⟩ ∧ freshSymbol (relabel r page) ≠ r ⟨1, 0⟩
      ∧ ∃ s, q.compile .sqlserver = .ok s ∧ (relabel r q).compile .sqlserver = .ok s := by
  intro page q r
  have hr : Set.InjOn r {s | s ∈ symbols q} := (Equiv.injective _).injOn
  have hroom : HaveRoom r (symbols q) := by
    unfold HaveRoom
    decide
  have hsame : ((relabel r q).compile .sqlserver).mapError Error.anonymous
      = (q.compile .sqlserver).mapError Error.anonymous := compile_relabel .sqlserver q r hr hroom
  have hok : (q.compile .sqlserver).isOk = true := by decide +kernel
  refine ⟨by decide, by decide, ?_⟩
  cases hs : q.compile .sqlserver with
  | error e => rw [hs] at hok; cases hok
  | ok s =>
    rw [hs] at hsame
    cases hs' : (relabel r q).compile .sqlserver with
    | error e => rw [hs'] at hsame; cases hsame
    | ok s' => rw [hs'] at hsame; cases hsame; exact ⟨s, rfl, rfl⟩

end Query
end SqlCompiler
