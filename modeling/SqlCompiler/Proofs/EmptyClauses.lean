import SqlCompiler.Proofs.Items
import SqlCompiler.Statement.Insert

/-!
# Clauses without items

The columns of a query, the keys it groups by and the columns that an update sets may be the
components of a group in the tree, and a group may be empty; then the keyword of the clause stands
there with nothing after it.  This file says when that happens, in the outermost query or at any
depth.

The clauses of a query follow each other, and the reading goes on from one to the next: it fails at
the clause behind one without items, or at the end of the query.

* `Query.isFilled_numberRows` — the numbering of rows neither adds nor removes empty groups.
* `Script.Lists`, `Script.Continues`, `Script.Completes` — how lists, clauses and queries are read.
* `Query.reads_tree` — a tree is written with an empty list if it has an empty group.
* `Query.hasItems_iff` — the same for the statements that are made from a query.
-/

set_option autoImplicit false
namespace SqlCompiler

/-! ## Numbering rows -/

/-- The children of a query, clause by clause. -/
theorem Clauses.forall_mem_children_iff {ν : Type} {q : Clauses ν} {P : ν → Prop} :
    (∀ n ∈ q.children, P n)
      ↔ (∀ g ∈ q.generators, P g.source) ∧ (∀ n ∈ q.filters, P n)
        ∧ (∀ n, q.groupBy = some n → P n) ∧ (∀ k ∈ q.orderBy, P k.key)
        ∧ ∀ n, q.projection = some n → P n := by
  simp only [mem_children_iff, or_imp, forall_and, forall_exists_index, and_imp]
  grind

namespace RowNumbering

/-- The list of the outer query is empty if the one of the query it stands for is. -/
theorem Listed.isFilled_iff {outer : Symbol} {p listed : Node} {fields : List (Field Node)}
    (h : Listed outer p fields listed) :
    p.isFilled = true ↔ (∀ c ∈ fields, c.value.isFilled = true) ∧ listed.isFilled = true := by
  cases h with
  | record fields _ =>
    rw [Node.isFilled_record, Node.isFilled_record, List.forall_mem_map]
    simp [and_comm]
  | product items _ =>
    rw [Node.isFilled_product, Node.isFilled_product]
    constructor
    · rintro ⟨hsome, hitems⟩
      refine ⟨fun c hc => ?_, by simpa using hsome, fun n hn => ?_⟩
      · obtain ⟨i, hi, rfl⟩ := List.mem_mapIdx.mp hc
        exact hitems _ (List.getElem_mem hi)
      · obtain ⟨i, -, rfl⟩ := List.mem_mapIdx.mp hn
        exact Node.isFilled_column _ _
    · rintro ⟨hfields, hsome, -⟩
      refine ⟨by simpa using hsome, fun n hn => ?_⟩
      obtain ⟨i, hi, rfl⟩ := List.mem_iff_getElem.mp hn
      exact hfields _ (List.mem_mapIdx.mpr ⟨i, hi, rfl⟩)
  | single p _ _ _ => simp

end RowNumbering

namespace Query

open RowNumbering

/-- The inner query has the groups of the query it stands for, but for the list of its columns. -/
theorem isFilled_inner (fields : List (Field Node)) (q : Query) :
    (Node.query (inner .plain fields q)).isFilled = true
      ↔ (∀ g ∈ q.generators, g.source.isFilled = true) ∧ (∀ n ∈ q.filters, n.isFilled = true)
        ∧ (∀ n, q.groupBy = some n → n.isFilled = true)
        ∧ (∀ k ∈ q.orderBy, k.key.isFilled = true) ∧ ∀ c ∈ fields, c.value.isFilled = true := by
  -- the keys of the order are columns of the inner query, in a record that is never empty
  have hnumber : (Node.mk (.rowNumber q.orderBy)).isFilled = true
      ↔ ∀ k ∈ q.orderBy, k.key.isFilled = true := by
    rw [Node.isFilled_of_isFilled_shape rfl, Shape.children, List.forall_mem_map]
  have hrecord : (Node.mk (.record (fields
        ++ [⟨numberColumn, .mk (.rowNumber q.orderBy)⟩]))).isFilled = true
      ↔ (∀ k ∈ q.orderBy, k.key.isFilled = true) ∧ ∀ c ∈ fields, c.value.isFilled = true := by
    rw [Node.isFilled_record, List.forall_mem_append, List.forall_mem_singleton, hnumber,
      and_comm (a := ∀ c ∈ fields, _)]
    exact and_iff_right (by simp)
  rw [Node.isFilled_query, Clauses.forall_mem_children_iff, ← hrecord]
  refine and_congr_right' (and_congr_right' (and_congr_right' ?_))
  simp [RowNumbering.inner, Tree.plain]

/-- The query in the place of one that numbers its rows has an empty group if that one has. -/
theorem isFilled_numberRows {dialect : String} {q p : Query} (h : numberRows dialect q = .ok p) :
    (Node.query p).isFilled = true ↔ (Node.query q).isFilled = true := by
  obtain ⟨projection, fields, listed, after, until_, hprojection, hlisted, -, rfl⟩ :=
    numberRows_eq_ok h
  have hcompare : ∀ f limit, (Node.apply f [.column (freshSymbol q) numberColumn,
      rowConstant limit]).isFilled = true := by
    intro f limit
    refine (Node.isFilled_of_isFilled_shape rfl).mpr fun n hn => ?_
    rcases List.mem_cons.mp hn with rfl | hn
    · exact Node.isFilled_column _ _
    · rw [List.mem_singleton.mp hn]
      exact (Node.isFilled_of_isFilled_shape rfl).mpr fun m hm => nomatch hm
  have houter : (Node.query (assembled .plain (freshSymbol q) q fields listed (rowConstant after)
        (until_.map rowConstant))).isFilled = true
      ↔ (Node.query (inner .plain fields q)).isFilled = true ∧ listed.isFilled = true := by
    rw [Node.isFilled_query]
    constructor
    · intro hall
      exact ⟨hall _ (List.mem_append_left _ List.mem_cons_self),
        hall _ (Clauses.projection_mem_children rfl)⟩
    · rintro ⟨hinner, hlist⟩ n hn
      rcases mem_children_assembled hn with rfl | ⟨f, limit, -, rfl⟩ | rfl | rfl
      · exact hinner
      · exact hcompare f limit
      · exact Node.isFilled_column _ _
      · exact hlist
  rw [houter, isFilled_inner, Node.isFilled_query q, Clauses.forall_mem_children_iff]
  simp only [hprojection, Option.some.injEq, forall_eq', hlisted.isFilled_iff, and_assoc]

end Query

/-! ## Lists and clauses -/

namespace Script

variable {d : Dialect}

theorem reads_item {n : Node} (h : ReadsItem d n) (due : Bool) :
    Reads (item (n.rendering d)) due (n.isFilled = true) := by
  rcases n.item_cases d with ⟨s, rfl, hitem⟩ | hitem
  · rw [← Node.item, hitem]
    refine Reads.congr ?_ (iff_of_true trivial ?_)
    · exact (reads_reference s due).followed (reads_words (by decide))
    · exact (Node.isFilled_of_isFilled_shape rfl).mpr fun _ hn => absurd hn List.not_mem_nil
  · rw [← Node.item, hitem]
    exact h due

theorem reads_field {c : Field Node} (h : ReadsItem d c.value) (due : Bool) :
    Reads (field ⟨c.name, c.value.rendering d⟩) due (c.value.isFilled = true) := by
  refine Reads.followed (reads_item h due) ?_
  dsimp only
  split
  · exact reads_done
  · exact (reads_words (by decide)).followed (reads_piece rfl)

theorem reads_generator {g : Generator Node} (h : ReadsItem d g.source) (due : Bool) :
    Reads (generator d ⟨g.binder, g.source.rendering d⟩) due (g.source.isFilled = true) := by
  refine Reads.followed ?_ (reads_sourceAlias g.binder)
  rw [source, Node.shape_rendering]
  obtain ⟨binder, n⟩ := g
  obtain ⟨s⟩ := n
  cases s with
  | table name =>
    refine (reads_piece rfl).congr (iff_of_true trivial ?_)
    exact (Node.isFilled_of_isFilled_shape rfl).mpr fun _ hn => absurd hn List.not_mem_nil
  | query q => exact h due
  | _ => exact reads_fail _ _ _

/-- What a script writes where a list is due is the list if `P` holds. -/
def Lists (σ : Script) (P : Prop) : Prop :=
  ∀ ⦃aliases : Aliases⦄ ⦃nested : Bool⦄ ⦃count : Nat⦄ ⦃o : Output⦄,
    σ.output aliases nested count = .ok o → (Piece.readAll true o.pieces = some false ↔ P)

/-- What a script writes ends clauses: after a clause with items it is read to its end with no list
due if `P` holds, and after a clause without items never. -/
def Continues (σ : Script) (P : Prop) : Prop :=
  ∀ ⦃aliases : Aliases⦄ ⦃nested : Bool⦄ ⦃count : Nat⦄ ⦃o : Output⦄,
    σ.output aliases nested count = .ok o →
      (Piece.readAll false o.pieces = some false ↔ P) ∧ Piece.readAll true o.pieces ≠ some false

/-- What a script writes is a query, or its beginning, and all its clauses have items if `P`
holds. -/
def Completes (σ : Script) (P : Prop) : Prop :=
  ∀ ⦃aliases : Aliases⦄ ⦃nested : Bool⦄ ⦃count : Nat⦄ ⦃o : Output⦄,
    σ.output aliases nested count = .ok o → (Piece.readAll false o.pieces = some false ↔ P)

theorem Reads.lists {σ : Script} {P : Prop} (h : Reads σ true P) : Lists σ P := by
  intro aliases nested count o ho
  by_cases hP : P
  · exact iff_of_true ((h ho).1 hP) hP
  · refine iff_of_false ?_ hP
    rw [(h ho).2 hP]
    exact nofun

/-- A list has an item if there is something to be listed. -/
theorem lists_separated {ι : Type} {l : List ι} {σ : ι → Script} {P : ι → Prop}
    (hl : ∀ i ∈ l, ∀ due, Reads (σ i) due (P i)) :
    Lists (separated ", " (l.map σ)) (l ≠ [] ∧ ∀ i ∈ l, P i) := by
  by_cases hnone : l = []
  · subst hnone
    intro aliases nested count o ho
    cases ho
    exact iff_of_false (show Piece.readAll true [] ≠ some false by decide) fun h => h.1 rfl
  · have hcomma : Piece.isKeyword ", " = false := by decide
    have hlists := (reads_separated hcomma hnone hl true).lists
    intro aliases nested count o ho
    rw [hlists ho]
    exact (and_iff_right hnone).symm

theorem continues_done : Continues done True := by
  intro aliases nested count o ho
  cases ho
  exact ⟨iff_of_true rfl trivial, show Piece.readAll true [] ≠ some false by decide⟩

/-- The keyword of a clause, and the list that is due after it. -/
theorem Lists.keyed {σ : Script} {P : Prop} {text : String} (h : Lists σ P)
    (hopens : Piece.read false (.words text) = some true)
    (hcloses : Piece.read true (.words text) = none) : Continues (words text ++ σ) P := by
  intro aliases nested count o ho
  obtain ⟨x, y, hx, hy, rfl⟩ := output_append_eq_ok ho
  cases hx
  rw [Output.append, Piece.readAll_append, Piece.readAll_append, Piece.readAll_cons,
    Piece.readAll_cons, hopens, hcloses]
  exact ⟨h hy, fun heq => by cases heq⟩

theorem continues_wordsIfAny {text : String} (h : Piece.closes text = true) :
    Continues (wordsIfAny text) True := by
  rw [wordsIfAny]
  split
  · exact continues_done
  · intro aliases nested count o ho
    cases ho
    obtain ⟨hopens, hcloses⟩ := Piece.read_of_closes h
    rw [Piece.readAll_cons, Piece.readAll_cons, hopens, hcloses]
    exact ⟨iff_of_true rfl trivial, fun heq => by cases heq⟩

/-- A query with another clause. -/
theorem Completes.append {σ τ : Script} {P Q : Prop} (hσ : Completes σ P) (hτ : Continues τ Q) :
    Completes (σ ++ τ) (P ∧ Q) := by
  intro aliases nested count o ho
  obtain ⟨x, y, hx, hy, rfl⟩ := output_append_eq_ok ho
  rw [Output.append, Piece.readAll_append, ← hσ hx]
  cases hread : Piece.readAll false x.pieces with
  | none => simp
  | some due =>
    cases due with
    | false => simpa using (hτ hy).1
    -- the last clause of the query has no items, and no other clause makes up for it
    | true => simpa using (hτ hy).2

theorem Continues.congr {σ : Script} {P Q : Prop} (hσ : Continues σ P) (h : P ↔ Q) :
    Continues σ Q :=
  propext h ▸ hσ

section
variable {q : Query}

theorem continues_from (hd : d.WritesItems) (h : ∀ g ∈ q.generators, ReadsItem d g.source) :
    Continues (from_ d (q.rendering d)) (∀ g ∈ q.generators, g.source.isFilled = true) := by
  rw [from_, show (q.rendering d).generators
    = q.generators.map fun g => ⟨g.binder, g.source.rendering d⟩ from rfl]
  cases hgs : q.generators with
  | nil => exact (continues_wordsIfAny hd.emptyFrom).congr (by simp)
  | cons g gs =>
    rw [hgs] at h
    refine Lists.keyed ?_ (by decide) (by decide)
    rw [List.map_map]
    exact (reads_separated (by decide) (List.cons_ne_nil g gs)
      (fun g' hg' => reads_generator (h g' hg')) true).lists

theorem continues_filters (h : ∀ n ∈ q.filters, ReadsItem d n) :
    Continues (filters (q.rendering d)) (∀ n ∈ q.filters, n.isFilled = true) := by
  rw [filters, show (q.rendering d).filters = q.filters.map (Node.rendering d) from rfl]
  cases hfs : q.filters with
  | nil => exact continues_done.congr (by simp)
  | cons n ns =>
    rw [hfs] at h
    refine Lists.keyed ?_ (by decide) (by decide)
    rw [List.map_map]
    exact (reads_separated (by decide) (List.cons_ne_nil n ns) h true).lists

theorem continues_orderBy (h : ∀ k ∈ q.orderBy, ReadsItem d k.key) :
    Continues (orderBy d (q.rendering d)) (∀ k ∈ q.orderBy, k.key.isFilled = true) := by
  rw [orderBy, show (q.rendering d).orderBy
    = q.orderBy.map fun k => ⟨k.key.rendering d, k.order⟩ from rfl]
  cases hks : q.orderBy with
  | nil => exact continues_done.congr (by simp)
  | cons k ks =>
    rw [hks] at h
    exact (reads_sortKeys (List.cons_ne_nil k ks) h true).lists.keyed (by decide) (by decide)

/-- The group key.  A group of keys may be empty. -/
theorem continues_groupBy
    (h : ∀ n, q.groupBy = some n → Query.WithChildren (ReadsItem d) n) :
    Continues (groupBy (q.rendering d)) (∀ n, q.groupBy = some n → n.isFilled = true) := by
  rw [groupBy, show (q.rendering d).groupBy = q.groupBy.map (Node.rendering d) from rfl]
  cases hg : q.groupBy with
  | none => exact continues_done.congr (by simp)
  | some key =>
    obtain ⟨hself, hbelow⟩ := h key hg
    simp only [Option.some.injEq, forall_eq']
    refine Lists.keyed ?_ (by decide) (by decide)
    obtain ⟨s⟩ := key
    rw [Node.shape_rendering]
    cases s with
    | product items =>
      dsimp only [Node.shape, Shape.map]
      rw [List.map_map, Node.isFilled_product]
      exact lists_separated hbelow
    | _ => exact (hself true).lists

/-- The columns.  A group of columns may be empty. -/
theorem lists_select
    (h : ∀ n, q.projection = some n → Query.WithChildren (ReadsItem d) n) :
    Lists (select (q.rendering d)) (∀ n, q.projection = some n → n.isFilled = true) := by
  rw [select, show (q.rendering d).projection = q.projection.map (Node.rendering d) from rfl]
  cases hp : q.projection with
  | none =>
    have hnone : True ↔ ∀ n, (none : Option Node) = some n → n.isFilled = true := by simp
    dsimp only [Option.map_none]
    split
    · exact ((reads_leading (by decide) true).congr hnone).lists
    · exact (reads_fail _ true _).lists
  | some p =>
    obtain ⟨hself, hbelow⟩ := h p hp
    have hitem := reads_item hself true
    simp only [Option.some.injEq, forall_eq']
    obtain ⟨s⟩ := p
    dsimp only [Option.map_some]
    rw [Node.shape_rendering]
    cases s with
    | record fields =>
      dsimp only [Node.shape, Shape.map]
      rw [List.map_map, Node.isFilled_record]
      exact lists_separated fun c hc => reads_field (hbelow _ (List.mem_map_of_mem hc))
    | product items =>
      dsimp only [Node.shape, Shape.map]
      rw [List.map_map, Node.isFilled_product]
      exact lists_separated fun n hn => reads_item (hbelow n hn)
    | _ => exact hitem.lists

/-- After the words before the columns, the list of columns is still due. -/
theorem readAll_modifiers {r : Clauses Rendering} {aliases : Aliases} {nested : Bool} {count : Nat}
    {o : Output} (ho : (modifiers d r).output aliases nested count = .ok o) :
    Piece.readAll true o.pieces = some true := by
  have htop : ∀ n : Nat, Piece.readAll true [.words ("top " ++ toString n ++ " ")] = some true := by
    intro n
    rw [Piece.readAll_cons, Piece.read, Piece.isTop_top]
    rfl
  rw [modifiers] at ho
  split at ho
  · next fetch _ _ =>
    dsimp only at ho
    cases hrows : topRows fetch (r.offset.getD 0) with
    | error e =>
      rw [hrows] at ho
      cases ho
    | ok rows =>
      rw [hrows] at ho
      obtain ⟨x, y, hx, hy, rfl⟩ := output_append_eq_ok ho
      cases hx
      have hnothing : y.pieces = [] := by
        split at hy <;> cases hy <;> rfl
      rw [Output.append, hnothing]
      exact htop rows
  · split at ho
    · cases ho
      exact htop _
    · cases ho
      rfl
  · cases ho
    rfl

/-- The beginning of a query, up to its columns. -/
theorem completes_select
    (h : ∀ n, q.projection = some n → Query.WithChildren (ReadsItem d) n) :
    Completes (words "select " ++ modifiers d (q.rendering d) ++ select (q.rendering d))
      (∀ n, q.projection = some n → n.isFilled = true) := by
  have hkeyword : Piece.readAll false [.words "select "] = some true := by decide
  intro aliases nested count o ho
  obtain ⟨x, y, hx, hy, rfl⟩ := output_append_eq_ok ho
  obtain ⟨keyword, top, hselect, htop, rfl⟩ := output_append_eq_ok hx
  cases hselect
  rw [← lists_select h hy, Output.append, Output.append, Piece.readAll_append,
    Piece.readAll_append, hkeyword, Option.bind_some, readAll_modifiers htop, Option.bind_some]

theorem silent_checkPaging (d : Dialect) (r : Clauses Rendering) : Silent (checkPaging d r) := by
  intro aliases nested count o ho
  rw [output_checkPaging_eq_ok ho]

/-- **The clauses of a query**, from its children and, where these only group columns, theirs. -/
theorem completes_clauses (hd : d.WritesItems)
    (h : ∀ n ∈ q.children, Query.WithChildren (ReadsItem d) n) :
    Completes (clauses d (q.rendering d)) (∀ n ∈ q.children, n.isFilled = true) := by
  have hselect := completes_select fun n hn => h n (Clauses.projection_mem_children hn)
  have hfrom := continues_from hd fun g hg => (h _ (Clauses.source_mem_children hg)).1
  have hfilters := continues_filters fun n hn => (h n (Clauses.filter_mem_children hn)).1
  have hgroup := continues_groupBy fun n hn => h n (Clauses.groupBy_mem_children hn)
  have horder := continues_orderBy fun k hk => (h _ (Clauses.key_mem_children hk)).1
  have hpaging : Continues (paging d (q.rendering d)) True :=
    continues_wordsIfAny (Piece.closes_pagingText _ _ _)
  have hbody : Completes (body d (q.rendering d)) _ :=
    ((((hselect.append hfrom).append hfilters).append hgroup).append horder).append hpaging
  intro aliases nested count o ho
  obtain ⟨x, y, hx, hy, rfl⟩ := output_append_eq_ok ho
  have hpieces : (x.append y).pieces = y.pieces := by
    rw [Output.append, silent_checkPaging d _ hx]
    rfl
  rw [hpieces, hbody hy, Clauses.forall_mem_children_iff]
  constructor
  · rintro ⟨⟨⟨⟨⟨hcolumns, hsources⟩, hconditions⟩, hkeys⟩, hordered⟩, -⟩
    exact ⟨hsources, hconditions, hkeys, hordered, hcolumns⟩
  · rintro ⟨hsources, hconditions, hkeys, hordered, hcolumns⟩
    exact ⟨⟨⟨⟨⟨hcolumns, hsources⟩, hconditions⟩, hkeys⟩, hordered⟩, trivial⟩

/-- A query in parentheses. -/
theorem Completes.subquery {σ : Script} {P : Prop} (h : Completes σ P) (due : Bool) :
    Reads (subquery σ) due P := by
  intro aliases nested count o ho
  obtain ⟨x, y, hx, hy, rfl⟩ := output_append_eq_ok ho
  obtain ⟨opening, body, hopening, hbody, rfl⟩ := output_append_eq_ok hx
  cases hopening
  cases hy
  have hopen : Piece.readAll due [.words "("] = some false := by cases due <;> decide
  have hclosed : Piece.readAll false [.words ")"] = some false
      ∧ Piece.readAll true [.words ")"] = none := by decide
  rw [Output.append, Output.append, Piece.readAll_append, Piece.readAll_append, hopen,
    Option.bind_some]
  by_cases hP : P
  · rw [(h hbody).mpr hP]
    exact ⟨fun _ => hclosed.1, fun hnot => absurd hP hnot⟩
  · refine ⟨fun hyes => absurd hyes hP, fun _ => ?_⟩
    cases hread : Piece.readAll false body.pieces with
    | none => rfl
    | some due =>
      cases due with
      | false => exact absurd ((h hbody).mp hread) hP
      -- a list that is due at the end of the query is missed at the closing parenthesis
      | true => exact hclosed.2

end

end Script

namespace Query

/-- **What is written for a tree has a clause without items if the tree has an empty group.** -/
theorem reads_tree {d : Dialect} (hd : d.WritesItems) :
    (∀ n : Node, Script.ReadsItem d n)
      ∧ ∀ q : Query, (script d q).Completes ((Node.query q).isFilled = true) := by
  refine writing_induct d ?_ ?_ ?_ ?_ ?_
  · intro s hquery ih
    exact Script.readsItem_expression hd hquery ih
  · intro q ih due
    rw [Node.script_query]
    exact ih.subquery due
  · intro q hplain ih
    rw [script_eq_clauses hplain, Node.isFilled_query]
    exact Script.completes_clauses hd ih
  · intro q p hnumbers hp ih
    rw [script_of_numbers hnumbers, hp, ← isFilled_numberRows hp]
    exact ih
  · intro q e hnumbers he aliases nested count o ho
    rw [script_of_numbers hnumbers, he] at ho
    cases ho

end Query

/-! ## Statements -/

/-- Only columns have names, so there is a name for each of the nodes and no group among them. -/
theorem Target.isFilled_of_columnNames {statement : String} {source : Option Symbol}
    {nodes : List Node} {names : List String}
    (h : columnNames statement source nodes = .ok names) :
    names.length = nodes.length ∧ ∀ n ∈ nodes, n.isFilled = true := by
  refine ⟨(getElem?_of_mapM h).1, fun n hn => ?_⟩
  obtain ⟨name, hname⟩ := exists_mapM_eq_ok_iff.mp ⟨names, h⟩ n hn
  obtain ⟨s⟩ := n
  cases s with
  | column source name => exact Node.isFilled_column source name
  | _ => cases hname

/-- An update has a column to set if its projection is no empty group. -/
theorem Update.names_ne_nil_iff {q : Query} {nodes : List Node} {source : Option Symbol}
    {names : List String} (hnodes : targets q = .ok nodes)
    (hnames : Target.columnNames "update" source nodes = .ok names) :
    names ≠ [] ↔ ∀ n, q.projection = some n → n.isFilled = true := by
  obtain ⟨hlength, hfilled⟩ := Target.isFilled_of_columnNames hnames
  have hsome : names ≠ [] ↔ nodes ≠ [] := by
    rw [← List.length_pos_iff, ← List.length_pos_iff, hlength]
  rw [hsome]
  rw [targets.eq_def] at hnodes
  split at hnodes
  · next items hp =>
    cases hnodes
    simp only [hp, Option.some.injEq, forall_eq', Node.isFilled_product]
    exact (and_iff_left hfilled).symm
  · next fields hp =>
    cases hnodes
    rw [List.forall_mem_map] at hfilled
    simp only [hp, Option.some.injEq, forall_eq', Node.isFilled_record]
    simpa using (and_iff_left hfilled).symm
  · next source name hp =>
    cases hnodes
    simp [hp]
  · cases hnodes

namespace Query

/-- After the assignments of an update, the list is still due if there are none. -/
theorem readAll_updateBeginning (t : Target) (columns : List String) :
    Piece.readAll false (updateBeginning t columns) = some columns.isEmpty := by
  have hequals : Piece.read false (.words " = ") = some false := by decide
  have hcomma : Piece.read false (.words ", ") = some false := by decide
  have hupdate : Piece.read false (.words "update ") = some false
      ∧ Piece.read false (.words " set ") = some true := by decide
  have hassignment : ∀ (c : String) (due : Bool),
      Piece.readAll due [.name c, .words " = ", .input] = some false := by
    intro c due
    change (Piece.read false (.words " = ")).bind _ = _
    rw [hequals]
    rfl
  have hassignments : ∀ (cs : List String) (c : String) (due : Bool),
      Piece.readAll due (Piece.separated (.words ", ")
        ((c :: cs).map fun c => [.name c, .words " = ", .input])) = some false := by
    intro cs
    induction cs with
    | nil => exact hassignment
    | cons next cs ih =>
      intro c due
      rw [List.map_cons, List.map_cons, Piece.separated, Piece.readAll_append, hassignment,
        Option.bind_some, Piece.readAll_cons, hcomma]
      · exact ih next false
      · exact nofun
  have hbeginning : Piece.readAll false [.words "update ", .name t.table, .words " set "]
      = some true := by
    rw [Piece.readAll_cons, hupdate.1]
    change (Piece.read false (.words " set ")).bind _ = _
    rw [hupdate.2]
    rfl
  rw [updateBeginning, Piece.readAll_append, hbeginning]
  cases columns with
  | nil => rfl
  | cons c cs => exact hassignments cs c true

section
variable {d : Dialect} (hd : d.WritesItems) {q : Query}
include hd

theorem hasItems_compile {s : Statement} (h : q.compile d = .ok s) :
    Piece.hasItems s.pieces = true ↔ (Node.query q).isFilled = true := by
  rw [compile_eq] at h
  obtain ⟨_, -, h⟩ := bind_eq_ok_iff.mp h
  obtain ⟨o, ho, h⟩ := bind_eq_ok_iff.mp h
  cases h
  rw [Piece.hasItems, beq_iff_eq]
  exact (reads_tree hd).2 q ho

theorem continues_filters :
    (Script.filters (q.rendering d)).Continues (∀ n ∈ q.filters, n.isFilled = true) :=
  Script.continues_filters fun n _ => (reads_tree hd).1 n

theorem hasItems_compileDelete {s : Statement} (h : q.compileDelete d = .ok s) :
    Piece.hasItems s.pieces = true ↔ ∀ n ∈ q.filters, n.isFilled = true := by
  rw [compileDelete_eq] at h
  obtain ⟨_, -, h⟩ := bind_eq_ok_iff.mp h
  obtain ⟨t, -, h⟩ := bind_eq_ok_iff.mp h
  obtain ⟨o, ho, h⟩ := bind_eq_ok_iff.mp h
  cases h
  rw [Piece.hasItems, beq_iff_eq]
  exact (continues_filters hd ho).1

theorem hasItems_compileUpdate {u : Update} (h : q.compileUpdate d = .ok u) :
    Piece.hasItems u.pieces = true
      ↔ (∀ n, q.projection = some n → n.isFilled = true) ∧ ∀ n ∈ q.filters, n.isFilled = true := by
  rw [compileUpdate_eq] at h
  obtain ⟨_, -, h⟩ := bind_eq_ok_iff.mp h
  obtain ⟨t, -, h⟩ := bind_eq_ok_iff.mp h
  obtain ⟨nodes, hnodes, h⟩ := bind_eq_ok_iff.mp h
  obtain ⟨columns, hcolumns, h⟩ := bind_eq_ok_iff.mp h
  obtain ⟨o, ho, h⟩ := bind_eq_ok_iff.mp h
  cases h
  rw [Piece.hasItems, beq_iff_eq, Piece.readAll_append, readAll_updateBeginning,
    ← Update.names_ne_nil_iff hnodes hcolumns]
  cases columns with
  | nil => simpa using (continues_filters hd ho).2
  | cons c cs => simpa using (continues_filters hd ho).1

end

/-- **When every clause of a statement has an item.**  A select statement of a built-in dialect has
a clause without items, in the outermost query or at any depth, if there is an empty group of
columns somewhere in the tree, and only then.  For a statement that removes rows the groups in the
filters count, for one that changes rows also the projection; and a statement that inserts a row
always has a column. -/
theorem hasItems_iff (b : Database) (q : Query) :
    (∀ s, q.compile b.dialect = .ok s →
        (Piece.hasItems s.pieces = true ↔ (Node.query q).isFilled = true))
      ∧ (∀ s, q.compileDelete b.dialect = .ok s →
        (Piece.hasItems s.pieces = true ↔ ∀ n ∈ q.filters, n.isFilled = true))
      ∧ (∀ u, q.compileUpdate b.dialect = .ok u →
        (Piece.hasItems u.pieces = true
          ↔ (∀ n, q.projection = some n → n.isFilled = true)
            ∧ ∀ n ∈ q.filters, n.isFilled = true))
      ∧ ∀ table l i, Insert.ofLayout b.dialect table l = .ok i → i.columns ≠ [] := by
  have hd := b.writesItems
  refine ⟨fun s hs => hasItems_compile hd hs, fun s hs => hasItems_compileDelete hd hs,
    fun u hu => hasItems_compileUpdate hd hu, ?_⟩
  intro table l i hi
  obtain ⟨columns, -, hi⟩ := bind_eq_ok_iff.mp hi
  split at hi
  · cases hi
  · next hsome =>
    cases hi
    exact fun hnone => hsome (List.isEmpty_iff.mpr hnone)

/-- A table with a filter whose subquery has groups of columns and of keys and skips rows, on a
dialect that numbers them: everything is written, and every clause has an item. -/
theorem hasItems_iff_users :
    let x : Symbol := ⟨0, 0⟩
    let y : Symbol := ⟨1, 0⟩
    let busy : Query := {
      generators := [⟨y, .table "orders"⟩]
      filters := [.apply .eq [.column y "user_id", .column x "id"]]
      groupBy := some (.mk (.product [.column y "day"]))
      projection := some (.mk (.record [⟨"day", .column y "day"⟩]))
      offset := some 2 }
    let q : Query := {
      generators := [⟨x, .table "users"⟩]
      filters := [.apply .hasRows [.query busy]]
      projection := some (.mk (.product [.column x "name"])) }
    let names : Layout := .column (.column x "name") .string false
    (∃ s, q.compile .sqlserver = .ok s ∧ Piece.hasItems s.pieces = true)
      ∧ (∃ s, q.compileDelete .sqlserver = .ok s ∧ Piece.hasItems s.pieces = true)
      ∧ (∃ u, q.compileUpdate .sqlserver = .ok u ∧ Piece.hasItems u.pieces = true)
      ∧ ∃ i, Insert.ofLayout .sqlserver "users" names = .ok i ∧ i.columns ≠ [] := by
  intro x y busy q names
  obtain ⟨hselect, hdelete, hupdate, hinsert⟩ := hasItems_iff .sqlserver q
  have hquery : (Node.query q).isFilled = true := by decide +kernel
  have hfilled := (Node.isFilled_query q).mp hquery
  have hfilters : ∀ n ∈ q.filters, n.isFilled = true :=
    fun n hn => hfilled n (Clauses.filter_mem_children hn)
  have hprojection : ∀ n, q.projection = some n → n.isFilled = true :=
    fun n hn => hfilled n (Clauses.projection_mem_children hn)
  have hwritten : ∀ {α : Type} {x : Except Error α}, x.isOk = true → ∃ a, x = .ok a := by
    rintro α (e | a) h
    · cases h
    · exact ⟨a, rfl⟩
  obtain ⟨s, hs⟩ := hwritten (show (q.compile .sqlserver).isOk = true by decide +kernel)
  obtain ⟨t, ht⟩ := hwritten (show (q.compileDelete .sqlserver).isOk = true by decide +kernel)
  obtain ⟨u, hu⟩ := hwritten (show (q.compileUpdate .sqlserver).isOk = true by decide +kernel)
  exact ⟨⟨s, hs, (hselect s hs).mpr hquery⟩, ⟨t, ht, (hdelete t ht).mpr hfilters⟩,
    ⟨u, hu, (hupdate u hu).mpr ⟨hprojection, hfilters⟩⟩, _, rfl, hinsert "users" names _ rfl⟩

/-- **An empty group of columns leaves a clause without items**, in the projection, in the key of a
group, at any depth, and in an update. -/
theorem empty_groups_written :
    let x : Symbol := ⟨0, 0⟩
    let nothing : Node := .mk (.product [])
    let orders : Query := { generators := [⟨x, .table "orders"⟩] }
    let columns : Query := { orders with projection := some nothing }
    let keys : Query :=
      { orders with groupBy := some nothing, projection := some (.apply .countAll []) }
    let nested : Query := {
      generators := [⟨⟨1, 0⟩, .query columns⟩]
      projection := some (.apply .countAll []) }
    let written (q : Query) : Option (String × Bool) :=
      (q.compile .postgres).toOption.map fun s => (s.sql, Piece.hasItems s.pieces)
    written columns = some ("select  from \"orders\" x1", false)
      ∧ written keys = some ("select count(*) from \"orders\" x1 group by ", false)
      ∧ written nested
        = some ("select count(*) from (select  from \"orders\" x2) x1", false)
      ∧ (columns.compileUpdate .postgres).toOption.map (fun u => (u.sql, Piece.hasItems u.pieces))
        = some ("update \"orders\" set ", false) := by
  decide +kernel

end Query
end SqlCompiler