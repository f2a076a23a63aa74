import SqlCompiler.Proofs.Collecting
import SqlCompiler.Proofs.Gathering

/-!
# Lexical scoping

Which generator a symbol refers to is decided by the place where it stands: in the source of a
generator by the generators before it, in every other clause by all generators of the query, and
where neither binds the symbol by what encloses the query.  `Query.lexical` reads a tree by that
rule.  It hands out aliases in the order in which a statement does, and lists for every place where
a qualifier is written the alias that belongs there.

A rule that binds all generators of a query before it reads their sources differs from it where a
source refers to a symbol of an enclosing query that its own query binds again, there or further
on.  These are the symbols in `Query.captured`.

* `Trace` — qualifiers in the order of the text, while aliases are handed out.
* `Node.lexical`, `Query.lexical` — the qualifiers of a tree by the lexical rule.
* `Node.freeSymbols`, `Query.freeSymbols` — the symbols that a tree refers to and does not bind.
* `Node.captured`, `Query.captured` — the symbols that are bound again after a source used them.
* `Query.lexical_numberRows`, … — the same for the query in the place of one that numbers its rows.
-/

set_option autoImplicit false
namespace SqlCompiler

/-! ## Traces -/

/-- The qualifiers of a text, and the number of aliases after it, by the number of aliases before
it.  A symbol without an alias has none. -/
def Trace := Nat → List (Option Qualifier) × Nat

namespace Trace

def nothing : Trace := fun n => ([], n)

/-- One qualifier. -/
def one (q : Option Qualifier) : Trace := fun n => ([q], n)

/-- One trace after the other. -/
def append (x y : Trace) : Trace := fun n =>
  ((x n).1 ++ (y (x n).2).1, (y (x n).2).2)

instance : Append Trace := ⟨append⟩

/-- The traces of a list, one after the other. -/
def each {ι : Type} (x : ι → Trace) : List ι → Trace
  | [] => nothing
  | i :: l => x i ++ each x l

@[simp] theorem nothing_append (x : Trace) : nothing ++ x = x := rfl

@[simp] theorem append_nothing (x : Trace) : x ++ nothing = x := by
  funext n
  exact Prod.ext (List.append_nil _) rfl

theorem append_assoc (x y z : Trace) : x ++ y ++ z = x ++ (y ++ z) := by
  funext n
  exact Prod.ext (List.append_assoc ..) rfl

theorem each_append {ι : Type} (x : ι → Trace) (l l' : List ι) :
    each x (l ++ l') = each x l ++ each x l' := by
  induction l with
  | nil => rfl
  | cons i l ih => rw [List.cons_append, each, each, ih, append_assoc]

theorem each_map {ι κ : Type} (f : ι → κ) (x : κ → Trace) (l : List ι) :
    each x (l.map f) = each (fun i => x (f i)) l := by
  induction l with
  | nil => rfl
  | cons i l ih => rw [List.map_cons, each, each, ih]

theorem each_flatMap {ι κ : Type} (f : ι → List κ) (x : κ → Trace) (l : List ι) :
    each x (l.flatMap f) = each (fun i => each x (f i)) l := by
  induction l with
  | nil => rfl
  | cons i l ih => rw [List.flatMap_cons, each_append, each, ih]

end Trace

/-! ## The lexical rule -/

namespace Clauses

variable {ν : Type}

/-- The sources of the generators, each in sight of those before it, and behind each its alias. -/
def lexicalSources (lexical : ν → Aliases → Trace) (outer inner : Aliases) (start : Nat) :
    List Symbol → List (Generator ν) → Trace
  | _, [] => .nothing
  | earlier, g :: gs =>
    lexical g.source (outer.bind start earlier) ++ .one (inner g.binder)
      ++ lexicalSources lexical outer inner start (earlier ++ [g.binder]) gs

/-- A query with some clauses before its generators and some after them. -/
def lexicalBody (lexical : ν → Aliases → Trace) (front : List ν) (generators : List (Generator ν))
    (back : List ν) (outer : Aliases) : Trace := fun start =>
  let binders := generators.map Generator.binder
  let inner := outer.bind start binders
  (Trace.each (lexical · inner) front
    ++ lexicalSources lexical outer inner start [] generators
    ++ Trace.each (lexical · inner) back) (start + binders.length)

/-- The query around one that numbers its rows: the columns of the numbered rows, their source and
alias, the bounds for their number, and the order. -/
def lexicalPage (columns : Nat) (isBounded : Bool) (numbered : Trace) : Trace := fun start =>
  let row := Trace.one (some (.numbered (start + 1)))
  (Trace.each (fun _ => row) (List.range columns) ++ numbered ++ row
    ++ row ++ (if isBounded then row else .nothing) ++ row) (start + 1)

/-- A query, given how wide a projection is and how the children are read. -/
def lexicalLayer (d : Dialect) (width : ν → Nat) (lexical : ν → Aliases → Trace) (q : Clauses ν)
    (outer : Aliases) : Trace :=
  let others := q.filters ++ q.groupBy.toList
  let keys := SortKey.written d q.orderBy
  if d.Numbers q then
    lexicalPage (q.projection.elim 0 width) q.fetch.isSome
      (lexicalBody lexical (q.projection.toList ++ keys) q.generators others outer)
  else lexicalBody lexical q.projection.toList q.generators (others ++ keys) outer

/-- The symbols that sources refer to and no generator before them binds. -/
def freeSources (free : ν → List Symbol) : List Symbol → List (Generator ν) → List Symbol
  | _, [] => []
  | earlier, g :: gs =>
    (free g.source).filter (· ∉ earlier) ++ freeSources free (earlier ++ [g.binder]) gs

/-- The symbols that a query refers to and does not bind for them. -/
def freeLayer (free : ν → List Symbol) (q : Clauses ν) : List Symbol :=
  freeSources free [] q.generators ++ (q.expressions.flatMap free).filter (· ∉ q.binders)

/-- The symbols that a source refers to and its own generator or one after it binds again. -/
def capturedSources (free : ν → List Symbol) : List (Generator ν) → List Symbol
  | [] => []
  | g :: gs =>
    (free g.source).filter (· ∈ g.binder :: gs.map Generator.binder) ++ capturedSources free gs

end Clauses

namespace Node

/-- The qualifiers of a tree by the lexical rule. -/
def lexical (d : Dialect) : Node → Aliases → Trace :=
  fold fun s => match s with
    | .query q => q.lexicalLayer d (fun n => n.1.columns.length) Prod.snd
    | .row source | .column source _ => fun aliases => .one (aliases source)
    | s => fun aliases => Trace.each (fun n => n.2 aliases) (s.written d)

/-- The symbols that a tree refers to and does not bind. -/
def freeSymbols : Node → List Symbol :=
  fold fun s => match s with
    | .query q => q.freeLayer Prod.snd
    | .row source | .column source _ => [source]
    | s => s.children.flatMap Prod.snd

end Node

namespace Query

/-- The qualifiers of a query by the lexical rule. -/
def lexical (d : Dialect) (q : Query) : Aliases → Trace :=
  q.lexicalLayer d (fun n => n.columns.length) (Node.lexical d)

/-- The symbols that a query refers to and does not bind. -/
def freeSymbols (q : Query) : List Symbol :=
  q.freeLayer Node.freeSymbols

/-- The symbols that a query itself captures.  A query that numbers its rows stands in another one,
which binds a symbol of its own. -/
def captures (d : Dialect) (q : Query) : List Symbol :=
  Clauses.capturedSources Node.freeSymbols q.generators
    ++ if d.Numbers q then (freeSymbols q).filter (· = freshSymbol q) else []

end Query

/-- The symbols that are captured anywhere in a tree. -/
def Node.captured (d : Dialect) : Node → List Symbol :=
  fold fun s =>
    (match s.map Prod.fst with
      | .query q => Query.captures d q
      | _ => [])
    ++ s.children.flatMap Prod.snd

/-- The symbols that are captured anywhere in a query. -/
def Query.captured (d : Dialect) (q : Query) : List Symbol :=
  captures d q ++ q.children.flatMap (Node.captured d)

/-! ## Layer by layer -/

section
variable {ν μ : Type} (f : ν → μ)

theorem Clauses.lexicalSources_map (lexical : μ → Aliases → Trace) (outer inner : Aliases)
    (start : Nat) (generators : List (Generator ν)) : ∀ earlier : List Symbol,
    lexicalSources lexical outer inner start earlier
        (generators.map fun g => ⟨g.binder, f g.source⟩)
      = lexicalSources (fun n => lexical (f n)) outer inner start earlier generators := by
  induction generators with
  | nil => intro earlier; rfl
  | cons g gs ih =>
    intro earlier
    rw [List.map_cons, lexicalSources, lexicalSources, ih]

theorem Clauses.lexicalBody_map (lexical : μ → Aliases → Trace) (front back : List ν)
    (generators : List (Generator ν)) :
    lexicalBody lexical (front.map f) (generators.map fun g => ⟨g.binder, f g.source⟩) (back.map f)
      = lexicalBody (fun n => lexical (f n)) front generators back := by
  funext outer start
  have hbinders : (generators.map fun g => (⟨g.binder, f g.source⟩ : Generator μ)).map
      Generator.binder = generators.map Generator.binder := by
    rw [List.map_map]
    rfl
  rw [lexicalBody, lexicalBody, hbinders]
  simp only [Trace.each_map, lexicalSources_map]

theorem Clauses.lexicalLayer_map (d : Dialect) (width : μ → Nat) (lexical : μ → Aliases → Trace)
    (q : Clauses ν) :
    (q.map f).lexicalLayer d width lexical
      = q.lexicalLayer d (fun n => width (f n)) fun n => lexical (f n) := by
  funext outer
  have hkeys : SortKey.written d (q.map f).orderBy = (SortKey.written d q.orderBy).map f :=
    SortKey.written_map f d q.orderBy
  have hothers : (q.map f).filters ++ (q.map f).groupBy.toList
      = (q.filters ++ q.groupBy.toList).map f := by
    rw [List.map_append, ← Option.toList_map]
    rfl
  have hprojection : (q.map f).projection.toList = q.projection.toList.map f := Option.toList_map
  have hwidth : (q.map f).projection.elim 0 width = q.projection.elim 0 fun n => width (f n) := by
    rw [show (q.map f).projection = q.projection.map f from rfl]
    cases q.projection <;> rfl
  rw [lexicalLayer, lexicalLayer, hkeys, hothers, hprojection, hwidth]
  by_cases h : d.Numbers q
  · rw [if_pos h, if_pos (show d.Numbers (q.map f) from h), ← List.map_append]
    exact congrArg (lexicalPage _ _) (congrFun (lexicalBody_map f lexical _ _ _) outer)
  · rw [if_neg h, if_neg (show ¬ d.Numbers (q.map f) from h), ← List.map_append]
    exact congrFun (lexicalBody_map f lexical _ _ _) outer

theorem Clauses.freeSources_map (free : μ → List Symbol) (generators : List (Generator ν)) :
    ∀ earlier : List Symbol,
    freeSources free earlier (generators.map fun g => ⟨g.binder, f g.source⟩)
      = freeSources (fun n => free (f n)) earlier generators := by
  induction generators with
  | nil => intro earlier; rfl
  | cons g gs ih =>
    intro earlier
    rw [List.map_cons, freeSources, freeSources, ih]

theorem Clauses.expressions_map (q : Clauses ν) :
    (q.map f).expressions = q.expressions.map f := by
  simp only [expressions, map, List.map_append, List.map_map, Option.toList_map,
    Function.comp_def]

theorem Clauses.freeLayer_map (free : μ → List Symbol) (q : Clauses ν) :
    (q.map f).freeLayer free = q.freeLayer fun n => free (f n) := by
  rw [freeLayer, freeLayer, expressions_map, List.flatMap_map, binders_map]
  exact congrArg (· ++ _) (freeSources_map f free q.generators [])

end

/-- A node that neither binds nor refers to a symbol itself. -/
def Shape.IsComposed {ν : Type} : Shape ν → Prop
  | .query _ | .row _ | .column _ _ => False
  | _ => True

namespace Node

variable (d : Dialect)

theorem lexical_query (q : Query) : (query q).lexical d = Query.lexical d q := by
  rw [lexical, fold_mk, Shape.map]
  exact Clauses.lexicalLayer_map (withFold _) d _ _ q

theorem lexical_column (s : Symbol) (name : String) (aliases : Aliases) :
    (column s name).lexical d aliases = .one (aliases s) := by
  rw [lexical, fold_mk]
  rfl

theorem lexical_row (s : Symbol) (aliases : Aliases) :
    (row s).lexical d aliases = .one (aliases s) := by
  rw [lexical, fold_mk]
  rfl

/-- Other nodes are read child by child. -/
theorem lexical_mk {s : Shape Node} (hs : s.IsComposed) (aliases : Aliases) :
    (mk s).lexical d aliases = Trace.each (fun n => n.lexical d aliases) (s.written d) := by
  rw [lexical, fold_mk]
  have heach : ∀ (f : Node → Node × (Aliases → Trace)) (g : Node × (Aliases → Trace) → Trace),
      Trace.each g ((s.map f).written d) = Trace.each (fun n => g (f n)) (s.written d) := by
    intro f g
    rw [Shape.written_map, Trace.each_map]
  cases s with
  | query _ | row _ | column _ _ => exact hs.elim
  | _ => exact heach _ _

section
variable (aliases : Aliases)

theorem lexical_product (items : List Node) :
    (mk (.product items)).lexical d aliases = Trace.each (fun n => n.lexical d aliases) items :=
  lexical_mk d (s := .product items) trivial aliases

theorem lexical_record (fields : List (Field Node)) :
    (mk (.record fields)).lexical d aliases
      = Trace.each (fun c => c.value.lexical d aliases) fields :=
  (lexical_mk d (s := .record fields) trivial aliases).trans (Trace.each_map ..)

theorem lexical_rowNumber (keys : List (SortKey Node)) :
    (mk (.rowNumber keys)).lexical d aliases
      = Trace.each (fun n => n.lexical d aliases) (SortKey.written d keys) :=
  lexical_mk d (s := .rowNumber keys) trivial aliases

/-- A projection is read column by column. -/
theorem lexical_columns (n : Node) :
    n.lexical d aliases = Trace.each (fun m => m.lexical d aliases) n.columns := by
  obtain ⟨s⟩ := n
  cases s with
  | product items => exact lexical_product d aliases items
  | record fields => exact lexical_mk d (s := .record fields) trivial aliases
  | _ => exact (Trace.append_nothing _).symm

/-- A group key is read part by part. -/
theorem lexical_groupKeys (n : Node) :
    n.lexical d aliases = Trace.each (fun m => m.lexical d aliases) n.groupKeys := by
  obtain ⟨s⟩ := n
  cases s with
  | product items => exact lexical_product d aliases items
  | _ => exact (Trace.append_nothing _).symm

end

theorem freeSymbols_query (q : Query) : (query q).freeSymbols = Query.freeSymbols q := by
  rw [freeSymbols, fold_mk, Shape.map]
  exact Clauses.freeLayer_map (withFold _) _ q

theorem freeSymbols_column (s : Symbol) (name : String) : (column s name).freeSymbols = [s] := by
  rw [freeSymbols, fold_mk]
  rfl

theorem freeSymbols_row (s : Symbol) : (row s).freeSymbols = [s] := by
  rw [freeSymbols, fold_mk]
  rfl

theorem freeSymbols_mk {s : Shape Node} (hs : s.IsComposed) :
    (mk s).freeSymbols = s.children.flatMap freeSymbols := by
  rw [freeSymbols, fold_mk]
  have hflat : ∀ (f : Node → Node × List Symbol) (g : Node × List Symbol → List Symbol),
      (s.map f).children.flatMap g = s.children.flatMap fun n => g (f n) := by
    intro f g
    rw [Shape.children_map, List.flatMap_map]
  cases s with
  | query _ | row _ | column _ _ => exact hs.elim
  | _ => exact hflat _ _

theorem groups_freeSymbols : Groups freeSymbols where
  product _ := freeSymbols_mk trivial
  record fields := (freeSymbols_mk (s := .record fields) trivial).trans (List.flatMap_map ..)
  rowNumber keys := (freeSymbols_mk (s := .rowNumber keys) trivial).trans (List.flatMap_map ..)

/-- What a node captures by itself. -/
def captures : Shape Node → List Symbol
  | .query q => Query.captures d q
  | _ => []

theorem gathers_captured : Gathers (captures d) (captured d) where
  layer s := by
    have hplain : (s.map (withFold fun s => (match s.map Prod.fst with
        | .query q => Query.captures d q
        | _ => []) ++ s.children.flatMap Prod.snd)).map Prod.fst = s := by
      rw [Shape.map_map]
      exact Shape.map_id s
    rw [captured, fold_mk, hplain, Shape.children_map, List.flatMap_map]
    rfl

theorem captured_query (q : Query) : (query q).captured d = Query.captured d q :=
  (gathers_captured d).layer (.query q)

theorem captured_mk {s : Shape Node} (hquery : ∀ q, s ≠ .query q) :
    (mk s).captured d = s.children.flatMap (captured d) := by
  rw [(gathers_captured d).layer]
  cases s with
  | query q => exact absurd rfl (hquery q)
  | _ => rfl

theorem groups_captured : Groups (captured d) where
  product _ := captured_mk d (Shape.ne_query id)
  record fields :=
    (captured_mk d (s := .record fields) (Shape.ne_query id)).trans (List.flatMap_map ..)
  rowNumber keys :=
    (captured_mk d (s := .rowNumber keys) (Shape.ne_query id)).trans (List.flatMap_map ..)

end Node

/-! ## Numbered rows -/

namespace Query

open RowNumbering

variable (d : Dialect)

theorem lexical_of_not_numbers {q : Query} (h : ¬ d.Numbers q) :
    lexical d q = Clauses.lexicalBody (Node.lexical d) q.projection.toList q.generators
      (q.filters ++ q.groupBy.toList ++ SortKey.written d q.orderBy) := by
  funext outer
  exact if_neg h

/-- The outer list has as many columns as the projection, all of the numbered rows. -/
theorem lexical_listed {outer : Symbol} {p listed : Node} {fields : List (Field Node)}
    (h : Listed outer p fields listed) (aliases : Aliases) :
    listed.lexical d aliases
        = Trace.each (fun _ => .one (aliases outer)) (List.range p.columns.length)
      ∧ Trace.each (fun c => c.value.lexical d aliases) fields = p.lexical d aliases := by
  have hcolumns : ∀ {ι : Type} (name : ι → String) (l : List ι),
      Trace.each (fun i => (Node.column outer (name i)).lexical d aliases) l
        = Trace.each (fun _ => .one (aliases outer)) (List.range l.length) := by
    intro ι name l
    induction l with
    | nil => rfl
    | cons i l ih =>
      rw [Trace.each, ih, List.length_cons, List.range_succ_eq_map, Trace.each, Trace.each_map,
        Node.lexical_column]
  cases h with
  | record fields _ =>
    rw [Node.lexical_record, Node.lexical_record, Trace.each_map, hcolumns Field.name fields]
    refine ⟨?_, rfl⟩
    exact congrArg (fun n => Trace.each _ (List.range n)) (List.length_map Field.value).symm
  | product items _ =>
    rw [Node.lexical_product, Node.lexical_product, List.mapIdx_eq_zipIdx_map,
      List.mapIdx_eq_zipIdx_map, Trace.each_map, Trace.each_map]
    constructor
    · refine (hcolumns (fun i : Node × Nat => positionName i.2) items.zipIdx).trans ?_
      rw [List.length_zipIdx]
      rfl
    · refine (Trace.each_map Prod.fst (fun n => n.lexical d aliases) items.zipIdx).symm.trans ?_
      rw [List.zipIdx_map_fst]
  | single p hrow hrecord hproduct =>
    have hsingle : p.columns = [p] := by
      obtain ⟨s⟩ := p
      cases s with
      | record fields => exact absurd rfl (hrecord fields)
      | product items => exact absurd rfl (hproduct items)
      | _ => rfl
    rw [hsingle]
    exact ⟨Node.lexical_column d _ _ _, Trace.append_nothing _⟩

theorem lexical_compare (f : Function) (s : Symbol) (name : String) (n : Nat) (aliases : Aliases) :
    (Node.apply f [.column s name, rowConstant n]).lexical d aliases = .one (aliases s) := by
  have hconstant : (rowConstant n).lexical d aliases = .nothing :=
    Node.lexical_mk d (s := .literal _) trivial aliases
  rw [Node.lexical_mk d (s := .apply f _) trivial]
  change Trace.each _ [Node.column s name, rowConstant n] = _
  rw [Trace.each, Trace.each, Trace.each, hconstant, Node.lexical_column]
  rfl

/-- The bounds for the number of a row refer to the numbered rows. -/
theorem lexical_bounds (outer : Symbol) (q : Query) (fields : List (Field Node)) (listed : Node)
    (after : Nat) (until_ : Option Nat) (aliases : Aliases) :
    Trace.each (fun n => n.lexical d aliases)
        (assembled .plain outer q fields listed (rowConstant after)
          (until_.map rowConstant)).filters
      = .one (aliases outer) ++ if until_.isSome then .one (aliases outer) else .nothing := by
  rw [assembled, Trace.each, show Tree.plain.make = Node.mk from rfl, lexical_compare]
  cases until_ with
  | none => rfl
  | some last =>
    refine congrArg _ ?_
    change Trace.each _ [Node.apply .le [.column outer numberColumn, rowConstant last]] = _
    rw [Trace.each, Trace.each, lexical_compare]
    rfl

/-- The inner query reads the projection and the ordering keys, and then the other clauses. -/
theorem lexical_inner {outer : Symbol} {q : Query} {projection listed : Node}
    {fields : List (Field Node)} (hq : q.projection = some projection)
    (hlisted : Listed outer projection fields listed) :
    lexical d (inner .plain fields q)
      = Clauses.lexicalBody (Node.lexical d) (q.projection.toList ++ SortKey.written d q.orderBy)
          q.generators (q.filters ++ q.groupBy.toList) := by
  have hnumbers : ¬ d.Numbers (inner .plain fields q) := fun h => Bool.false_ne_true h.2
  have hfront : ∀ aliases, Trace.each (fun n => n.lexical d aliases)
      (inner .plain fields q).projection.toList
        = Trace.each (fun n => n.lexical d aliases)
            (q.projection.toList ++ SortKey.written d q.orderBy) := by
    intro aliases
    change Trace.each _ [Node.mk (.record
      (fields ++ [⟨numberColumn, .mk (.rowNumber q.orderBy)⟩]))] = _
    rw [Trace.each, Trace.each, Trace.append_nothing, Node.lexical_record, Trace.each_append,
      (lexical_listed d hlisted aliases).2, Trace.each, Trace.each, Trace.append_nothing,
      Node.lexical_rowNumber, hq, Option.toList_some, Trace.each_append, Trace.each, Trace.each,
      Trace.append_nothing]
  rw [lexical_of_not_numbers d hnumbers]
  change Clauses.lexicalBody _ _ q.generators (q.filters ++ q.groupBy.toList ++ []) = _
  rw [List.append_nil]
  funext aliases start
  rw [Clauses.lexicalBody, Clauses.lexicalBody, hfront]

/-- **The query in the place of one that numbers its rows is read alike.** -/
theorem lexical_numberRows {q p : Query} (hq : d.Numbers q) (hp : numberRows d.name q = .ok p) :
    lexical d p = lexical d q := by
  have hnumbers : ¬ d.Numbers p := not_numbers_of_numberRows hp
  obtain ⟨projection, fields, listed, after, until_, hprojection, hlisted, hbounded, rfl⟩ :=
    numberRows_eq_ok hp
  have hpage : ∀ outer, lexical d q outer
      = Clauses.lexicalPage projection.columns.length q.fetch.isSome
          (lexical d (inner .plain fields q) outer) := by
    intro outer
    rw [lexical_inner d hprojection hlisted, lexical, Clauses.lexicalLayer, if_pos hq, hprojection]
    rfl
  have hkey : SortKey.written d [⟨.column (freshSymbol q) numberColumn, .ascending⟩]
      = [Node.column (freshSymbol q) numberColumn] := by
    have hnulls : d.nullKeys.extraKey? SortOrder.ascending.nulls = none := by
      cases d.nullKeys <;> rfl
    rw [SortKey.written, List.flatMap_singleton, hnulls]
    rfl
  funext outer start
  -- the alias of the numbered rows is the next one
  have hrow : outer.bind start [freshSymbol q] (freshSymbol q) = some (.numbered (start + 1)) :=
    if_pos rfl
  have hlist := (lexical_listed d hlisted (outer.bind start [freshSymbol q])).1
  have hback := lexical_bounds d (freshSymbol q) q fields listed after until_
    (outer.bind start [freshSymbol q])
  rw [hpage, lexical_of_not_numbers d hnumbers, Clauses.lexicalPage, Clauses.lexicalBody,
    ← hbounded]
  change (Trace.each (fun n => n.lexical d (outer.bind start [freshSymbol q])) [listed]
    ++ ((Node.query (inner .plain fields q)).lexical d outer
      ++ .one (outer.bind start [freshSymbol q] (freshSymbol q)) ++ .nothing)
    ++ Trace.each (fun n : Node => n.lexical d (outer.bind start [freshSymbol q]))
      (_ ++ [] ++ SortKey.written d [⟨Node.column (freshSymbol q) numberColumn, .ascending⟩]))
    (start + 1) = _
  rw [hkey, List.append_nil, Trace.each_append, hback, Trace.each, Trace.each, hlist,
    Node.lexical_query, Trace.each, Trace.each, Node.lexical_column, hrow]
  simp only [Trace.append_assoc, Trace.append_nothing]

theorem mem_freeSymbols_iff {q : Query} {s : Symbol} :
    s ∈ freeSymbols q ↔ s ∈ Clauses.freeSources Node.freeSymbols [] q.generators
      ∨ s ∉ q.binders ∧ ∃ n ∈ q.expressions, s ∈ n.freeSymbols := by
  rw [freeSymbols, Clauses.freeLayer, List.mem_append, List.mem_filter, List.mem_flatMap,
    decide_eq_true_iff, and_comm (a := ∃ n ∈ q.expressions, s ∈ n.freeSymbols)]

theorem mem_captured_iff {q : Query} {s : Symbol} :
    s ∈ captured d q ↔ s ∈ captures d q ∨ ∃ n ∈ q.children, s ∈ n.captured d := by
  rw [captured, List.mem_append, List.mem_flatMap]

section
variable {d : Dialect} {dialect : String} {q p : Query}

theorem mem_freeSymbols_inner {outer : Symbol} {projection listed : Node}
    {fields : List (Field Node)} (hq : q.projection = some projection)
    (hlisted : Listed outer projection fields listed) {s : Symbol} :
    s ∈ freeSymbols (inner .plain fields q) ↔ s ∈ freeSymbols q := by
  rw [mem_freeSymbols_iff, mem_freeSymbols_iff, Node.groups_freeSymbols.mem_inner hq hlisted]
  rfl

/-- The expressions of the outer query refer to nothing but the numbered rows. -/
theorem freeSymbols_assembled {outer : Symbol} {projection listed : Node}
    {fields : List (Field Node)} (hlisted : Listed outer projection fields listed) {after : Nat}
    {until_ : Option Nat} {n : Node}
    (hn : n ∈ (assembled .plain outer q fields listed (rowConstant after)
      (until_.map rowConstant)).expressions) {s : Symbol} (hs : s ∈ n.freeSymbols) :
    s = outer := by
  have hcolumn : ∀ {name : String}, s ∈ (Node.column outer name).freeSymbols → s = outer := by
    intro name h
    rw [Node.freeSymbols_column] at h
    exact List.mem_singleton.mp h
  rcases mem_expressions_assembled hn with ⟨f, limit, -, rfl⟩ | rfl | rfl
  · rw [Node.freeSymbols_mk (s := .apply f _) trivial] at hs
    obtain ⟨m, hm, hs⟩ := List.mem_flatMap.mp hs
    rcases List.mem_cons.mp hm with rfl | hm
    · exact hcolumn hs
    · rw [List.mem_singleton.mp hm, rowConstant, Node.typed,
        Node.freeSymbols_mk (s := .literal _) trivial] at hs
      cases hs
  · exact hcolumn hs
  · cases hlisted with
    | record fields _ =>
      rw [Node.groups_freeSymbols.record] at hs
      obtain ⟨c, hc, hs⟩ := List.mem_flatMap.mp hs
      obtain ⟨c', -, rfl⟩ := List.mem_map.mp hc
      exact hcolumn hs
    | product items _ =>
      rw [Node.groups_freeSymbols.product] at hs
      obtain ⟨m, hm, hs⟩ := List.mem_flatMap.mp hs
      obtain ⟨i, -, rfl⟩ := List.mem_mapIdx.mp hm
      exact hcolumn hs
    | single p _ _ _ => exact hcolumn hs

/-- The query in the place of one that numbers its rows refers to the same symbols. -/
theorem mem_freeSymbols_numberRows (hp : numberRows dialect q = .ok p) {s : Symbol} :
    s ∈ freeSymbols p ↔ s ∈ freeSymbols q := by
  obtain ⟨projection, fields, listed, after, until_, hprojection, hlisted, -, rfl⟩ :=
    numberRows_eq_ok hp
  rw [← mem_freeSymbols_inner hprojection hlisted,
    ← Node.freeSymbols_query (inner .plain fields q), mem_freeSymbols_iff]
  change s ∈ (Node.query (inner .plain fields q)).freeSymbols.filter (· ∉ []) ++ [] ∨ _ ↔ _
  rw [List.append_nil, List.mem_filter]
  constructor
  · rintro (⟨hs, -⟩ | ⟨hbinder, n, hn, hs⟩)
    · exact hs
    · exact absurd (List.mem_singleton.mpr (freeSymbols_assembled hlisted hn hs)) hbinder
  · intro hs
    exact .inl ⟨hs, rfl⟩

theorem captured_of_not_query {s : Shape Node} (hs : ∀ q, s ≠ .query q)
    (hchildren : ∀ n ∈ s.children, n.captured d = []) : (Node.mk s).captured d = [] := by
  rw [Node.captured_mk d hs]
  exact List.flatMap_eq_nil_iff.mpr hchildren

/-- Nothing is captured in the expressions of the outer query. -/
theorem captured_assembled {outer : Symbol} {projection listed : Node}
    {fields : List (Field Node)} (hlisted : Listed outer projection fields listed) {after : Nat}
    {until_ : Option Nat} {n : Node}
    (hn : n ∈ (assembled .plain outer q fields listed (rowConstant after)
      (until_.map rowConstant)).expressions) : n.captured d = [] := by
  have hcolumn : ∀ name, (Node.column outer name).captured d = [] :=
    fun name => captured_of_not_query (Shape.ne_query id) fun _ h => absurd h List.not_mem_nil
  rcases mem_expressions_assembled hn with ⟨f, limit, -, rfl⟩ | rfl | rfl
  · refine captured_of_not_query (Shape.ne_query id) fun m hm => ?_
    rcases List.mem_cons.mp hm with rfl | hm
    · exact hcolumn _
    · rw [List.mem_singleton.mp hm]
      exact captured_of_not_query (Shape.ne_query id) fun _ h => absurd h List.not_mem_nil
  · exact hcolumn _
  · cases hlisted with
    | record fields _ =>
      refine captured_of_not_query (Shape.ne_query id) fun m hm => ?_
      rw [Shape.children, List.map_map] at hm
      obtain ⟨c, -, rfl⟩ := List.mem_map.mp hm
      exact hcolumn _
    | product items _ =>
      refine captured_of_not_query (Shape.ne_query id) fun m hm => ?_
      obtain ⟨i, -, rfl⟩ := List.mem_mapIdx.mp hm
      exact hcolumn _
    | single p _ _ _ => exact hcolumn _

/-- The query in the place of one that numbers its rows captures the same symbols. -/
theorem mem_captured_numberRows (hq : d.Numbers q) (hp : numberRows d.name q = .ok p)
    {s : Symbol} : s ∈ captured d p ↔ s ∈ captured d q := by
  have hnumbers : ¬ d.Numbers p := not_numbers_of_numberRows hp
  obtain ⟨projection, fields, listed, after, until_, hprojection, hlisted, -, rfl⟩ :=
    numberRows_eq_ok hp
  have hinner : s ∈ (Node.query (inner .plain fields q)).captured d
      ↔ s ∈ Clauses.capturedSources Node.freeSymbols q.generators
        ∨ ∃ n ∈ q.children, s ∈ n.captured d := by
    have hplain : ¬ d.Numbers (inner .plain fields q) := fun h => Bool.false_ne_true h.2
    rw [Node.captured_query, mem_captured_iff, captures, if_neg hplain, List.append_nil,
      (Node.groups_captured d).mem_children_inner hprojection hlisted]
    rfl
  have hchildren : (∃ n ∈ (assembled .plain (freshSymbol q) q fields listed (rowConstant after)
      (until_.map rowConstant)).children, s ∈ n.captured d)
        ↔ s ∈ (Node.query (inner .plain fields q)).captured d := by
    constructor
    · rintro ⟨n, hn, hs⟩
      rcases List.mem_append.mp hn with hn | hn
      · rwa [List.mem_singleton.mp hn] at hs
      · rw [captured_assembled hlisted hn] at hs
        cases hs
    · intro hs
      exact ⟨_, Clauses.source_mem_children List.mem_cons_self, hs⟩
  rw [mem_captured_iff, mem_captured_iff, hchildren, hinner, captures, captures, if_neg hnumbers,
    if_pos hq, List.append_nil, List.mem_append]
  change s ∈ (Node.query (inner .plain fields q)).freeSymbols.filter (· ∈ [freshSymbol q]) ++ [] ∨ _
    ↔ _
  rw [List.append_nil, List.mem_filter, List.mem_filter, Node.freeSymbols_query,
    mem_freeSymbols_inner hprojection hlisted]
  simp only [List.mem_singleton]
  grind

end
end Query
end SqlCompiler
