import SqlCompiler.Proofs.SameStatements

/-!
# What all dialects write alike

Dialects differ in the words for some functions, in conditionals, paging, row numbers, sequences,
the placement of nulls and the constants of some kinds.  A query without any of these is written by
every built-in dialect in the same words, and only the marks around its names differ: there is one
template for all, with a hole for each name.

The template is what a dialect without peculiarities writes, `Dialect.draft`.  What another dialect
writes is compared with it instruction by instruction, so that the subqueries at any depth are seen
to be written by the same dialect as the query around them.

* `Chunk`, `Template.fill` — templates, and their text for given quotation marks.
* `Node.isCommon` — the trees in which nothing is written in a dialect's own way.
* `Script.Fits` — a script that fits a draft, and `Script.output_fits`: so does what it writes.
* `Query.script_fits` — every built-in dialect fits the draft on common trees.
* `Query.compile_common` — so the statements of a common query have one template.
-/

set_option autoImplicit false
namespace SqlCompiler

/-! ## Templates -/

/-- A part of a template. -/
inductive Chunk where
  | text (t : String)
  /-- A place for a name between quotation marks. -/
  | hole (name : String)
deriving DecidableEq, Repr

/-- The text of a part, given how a name is quoted. -/
def Chunk.fill (quote : String → String) : Chunk → String
  | text t => t
  | hole name => quote name

/-- A text with holes for names. -/
abbrev Template := List Chunk

/-- The text of a template, given how a name is quoted. -/
def Template.fill (quote : String → String) (template : Template) : String :=
  String.join (template.map (Chunk.fill quote))

/-- The part of a template that a piece of a draft stands for.  A name inside a text constant is in
no draft. -/
def Piece.chunk : Piece → Chunk
  | words text | constant text | qualifier (.verbatim text) => .text text
  | name n | nameText n | qualifier (.table n) => .hole n
  | qualifier (.numbered number) => .text ("x" ++ toString number)
  | placeholder _ | input => .text "?"

/-- A piece that fits a piece of a draft: the same piece, but that a placeholder may have a column
type of its own for its kind. -/
inductive Piece.Fits : Piece → Piece → Prop where
  | words (text : String) : Fits (.words text) (.words text)
  | name (n : String) : Fits (.name n) (.name n)
  | constant (text : String) : Fits (.constant text) (.constant text)
  | qualifier (q : Qualifier) : Fits (.qualifier q) (.qualifier q)
  | placeholder {c c' : ColumnType} (kind : c.kind = c'.kind) (source : Source) :
    Fits (.placeholder ⟨c, source⟩) (.placeholder ⟨c', source⟩)

/-- An error without the name of the dialect that it may mention. -/
def Error.general : Error → Error
  | unsupported construct _ => unsupported construct ""
  | lacking capability _ => lacking capability ""
  | e => e

namespace Piece

variable {ps qs : List Piece} (h : List.Forall₂ Fits ps qs)
include h

/-- Pieces that fit a draft are its template with the holes filled. -/
theorem joined_eq_fill (quote : Text.Quote) :
    joined quote ps = Template.fill quote.write (qs.map chunk) := by
  have htexts : ps.map (text quote) = (qs.map chunk).map (Chunk.fill quote.write) := by
    induction h with
    | nil => rfl
    | cons hpiece _ ih =>
      rw [List.map_cons, List.map_cons, List.map_cons, ih]
      refine congrArg (· :: _) ?_
      cases hpiece with
      | qualifier q => cases q <;> rfl
      | _ => rfl
  rw [joined, htexts, Template.fill]

/-- Pieces that fit a draft have placeholders of its kinds. -/
theorem map_kind_setters_of_fits : (setters ps).map Setter.kind = (setters qs).map Setter.kind := by
  induction h with
  | nil => rfl
  | cons hpiece _ ih =>
    cases hpiece with
    | placeholder kind source =>
      change _ :: (setters _).map Setter.kind = _ :: (setters _).map Setter.kind
      rw [ih]
      exact congrArg (· :: _) kind
    | _ => exact ih

end Piece

/-! ## The common fragment -/

/-- The kinds whose constants are written alike. -/
def Kind.common : List Kind :=
  [.short, .int, .long, .decimal, .string]

/-- Whether a function is spelled alike, and demands nothing, with so many arguments. -/
def Function.isCommon : Function → Nat → Bool
  | concat, _ | modulo, _ | length, _ | lower, _ | upper, _ => false
  | currentDate, _ | database, _ | user, _ => false
  | like, arguments => arguments != 3
  | _, _ => true

/-- Whether a node by itself is written alike. -/
def Shape.isCommon : Shape Node → Bool
  | .query q =>
    !q.generators.isEmpty && !q.isPaged && q.orderBy.all fun k => k.order.nulls == .unspecified
  | .literal c => c.bind || Kind.common.contains c.kind
  | .apply f arguments => f.isCommon arguments.length
  | .cases .. | .rowNumber _ | .nextValue _ | .currentValue _ => false
  | .table _ | .row _ | .column .. | .parameter .. | .product _ | .record _ => true

/-- Whether all nodes of a tree are written alike. -/
def Node.isCommon (n : Node) : Bool :=
  n.all Shape.isCommon

/-- A dialect that has the usual words and types for everything. -/
def Dialect.draft : Dialect where
  name := ""

/-- A dialect that goes its own way only where a tree is not common. -/
structure Dialect.Conforms (d : Dialect) : Prop where
  spelling : ∀ f count, f.isCommon count = true → d.spelling f = .standard f
  column : ∀ kind ∈ Kind.common, d.types.column kind = .ofKind kind

/-- **The built-in dialects conform.** -/
theorem Database.conforms (b : Database) : b.dialect.Conforms where
  spelling f count h := by
    cases f with
    | concat | modulo | length | lower | upper | currentDate | database | user => cases h
    | _ => cases b <;> rfl
  column kind h := by
    simp only [Kind.common, List.mem_cons, List.not_mem_nil, or_false] at h
    rcases h with rfl | rfl | rfl | rfl | rfl <;> cases b <;> rfl

theorem Function.capability?_of_isCommon {f : Function} {count : Nat}
    (h : f.isCommon count = true) : f.capability? count = none := by
  cases f with
  | like =>
    have hcount : count ≠ 3 := by simpa [isCommon] using h
    simp [capability?, hcount]
  | database | user => cases h
  | _ => rfl

/-- A column type takes the values that can be made ones of its kind. -/
theorem ColumnType.toCell_eq_coerce (c : ColumnType) (v : Value) :
    (c.toCell v).map (fun _ => ()) = (v.coerce c.kind).map fun _ => () := by
  cases c with
  | numericBoolean code name => cases v <;> rfl
  | textUuid =>
    rw [toCell, kind]
    cases v.coerce .uuid with
    | error e => rfl
    | ok w => cases w <;> rfl
  | _ => rfl

/-! ## Scripts that fit a draft -/

/-- A script that fits a draft: the same instructions with pieces that fit, where checks may fail
with the names of different dialects. -/
inductive Script.Fits : Script → Script → Prop where
  | done : Fits .done .done
  | piece {p q : Piece} (h : p.Fits q) : Fits (.piece p) (.piece q)
  | reference (s : Symbol) : Fits (.reference s) (.reference s)
  | sourceAlias (s : Symbol) : Fits (.sourceAlias s) (.sourceAlias s)
  | check {e e' : Except Error Unit} (h : e.mapError Error.general = e'.mapError Error.general) :
    Fits (.check e) (.check e')
  | append {σ σ' τ τ' : Script} (first : Fits σ σ') (second : Fits τ τ') :
    Fits (σ ++ τ) (σ' ++ τ')
  | scope (symbols : List Symbol) {σ τ : Script} (h : Fits σ τ) :
    Fits (.scope symbols σ) (.scope symbols τ)
  | deeper {σ τ : Script} (h : Fits σ τ) : Fits (.deeper σ) (.deeper τ)

/-- An output that fits that of a draft, and leaves no rows to skip. -/
structure Output.Fits (x y : Output) : Prop where
  pieces : List.Forall₂ Piece.Fits x.pieces y.pieces
  aliasCount : x.aliasCount = y.aliasCount
  skipRows : x.skipRows = none

/-- A dialect's statement for a query that fits that of a draft, and leaves no rows to skip. -/
structure Statement.Fits (d : Dialect) (q : Query) (s t : Statement) : Prop where
  quote : s.quote = d.quote
  pieces : List.Forall₂ Piece.Fits s.pieces t.pieces
  columnCount : s.columnCount = q.columnCount
  skipRows : s.skipRows = 0

theorem mapError_bind {α β : Type} (x : Except Error α) (f : α → Except Error β)
    (g : Error → Error) :
    (x >>= f).mapError g = x.mapError g >>= fun a => (f a).mapError g := by
  cases x <;> rfl

theorem Agree.mapError_ok {α β : Type} {R : α → β → Prop} {x : Except Error α} {b : β}
    {g : Error → Error} (h : Agree R (x.mapError g) (.ok b)) : ∃ a, x = .ok a ∧ R a b := by
  cases x with
  | error e => cases h
  | ok a =>
    cases h with
    | ok h => exact ⟨a, rfl, h⟩

theorem Agree.mapError_error {α β : Type} {R : α → β → Prop} {x : Except Error α} {e : Error}
    {g : Error → Error} (h : Agree R (x.mapError g) (.error e : Except Error β)) :
    ∃ e', x = .error e' ∧ g e' = e := by
  cases x with
  | error e' =>
    cases h
    exact ⟨e', rfl, rfl⟩
  | ok a => cases h

namespace Script

/-- **What a script writes that fits a draft fits what the draft writes**; or both fail, with the
same error but for the name of the dialect. -/
theorem output_fits {σ τ : Script} (h : σ.Fits τ) :
    ∀ (aliases : Aliases) (nested : Bool) (count : Nat),
      Agree Output.Fits ((σ.output aliases nested count).mapError Error.general)
        ((τ.output aliases nested count).mapError Error.general) := by
  have qualified : ∀ (aliases : Aliases) (s : Symbol) (count : Nat) (before : List Piece),
      List.Forall₂ Piece.Fits before before →
      Agree Output.Fits
        (((aliases.lookup s).map fun q =>
          ({ pieces := before ++ [.qualifier q], aliasCount := count } : Output)).mapError
            Error.general)
        (((aliases.lookup s).map fun q =>
          ({ pieces := before ++ [.qualifier q], aliasCount := count } : Output)).mapError
            Error.general) := by
    intro aliases s count before hbefore
    cases aliases.lookup s with
    | error e => exact .error _
    | ok q => exact .ok ⟨List.rel_append hbefore (.cons (.qualifier q) .nil), rfl, rfl⟩
  induction h with
  | done => exact fun _ _ _ => .ok ⟨.nil, rfl, rfl⟩
  | piece h => exact fun _ _ _ => .ok ⟨.cons h .nil, rfl, rfl⟩
  | reference s => exact fun aliases _ count => qualified aliases s count [] .nil
  | sourceAlias s =>
    exact fun aliases _ count => qualified aliases s count [.words " "] (.cons (.words " ") .nil)
  | @check e e' h =>
    intro aliases nested count
    cases e with
    | error e =>
      cases e' with
      | error e' =>
        have hsame : e.general = e'.general := Except.error.inj h
        change Agree Output.Fits (.error e.general) (.error e'.general)
        rw [hsame]
        exact .error _
      | ok u => cases h
    | ok u =>
      cases e' with
      | error e' => cases h
      | ok u => exact .ok ⟨.nil, rfl, rfl⟩
  | append first second ih₁ ih₂ =>
    intro aliases nested count
    change Agree Output.Fits ((_ >>= _ : Except Error Output).mapError Error.general)
      ((_ >>= _ : Except Error Output).mapError Error.general)
    rw [mapError_bind, mapError_bind]
    refine Agree.bind (ih₁ aliases nested count) fun x x' hx => ?_
    rw [hx.aliasCount, mapError_bind, mapError_bind]
    refine Agree.bind (ih₂ aliases nested x'.aliasCount) fun y y' hy => ?_
    exact .ok ⟨List.rel_append hx.pieces hy.pieces, hy.aliasCount, by
      rw [Output.append, hx.skipRows, hy.skipRows]; rfl⟩
  | scope symbols h ih => exact fun _ nested _ => ih _ nested _
  | deeper h ih => exact fun aliases _ count => ih aliases true count

namespace Fits

theorem words (text : String) : Fits (.words text) (.words text) :=
  .piece (.words text)

theorem congruence : Congruence Fits where
  done := .done
  words := words
  append := .append

theorem same (e : Except Error Unit) : Fits (.check e) (.check e) :=
  .check rfl

theorem fail (e : Error) : Fits (.fail e) (.fail e) :=
  same _

/-- Two dialects refuse the same construct, each in its own name. -/
theorem refuse (d d' : Dialect) (construct : Construct) :
    Fits (.fail (Render.unsupported d construct)) (.fail (Render.unsupported d' construct)) :=
  .check rfl

/-! ## Nodes -/

variable {d : Dialect}

/-- A dialect that writes a node as an expression that fits the draft. -/
def Writes (d : Dialect) (n : Node) : Prop :=
  Fits (n.script d) (n.script .draft)

/-- A value that both dialects take for a kind, or both refuse. -/
theorem checked {α β : Type} {x : Except Error α} {y : Except Error β} {σ τ : Script}
    (h : x.map (fun _ => ()) = y.map fun _ => ()) (hbody : Fits σ τ) :
    Fits (.checked x fun _ => σ) (.checked y fun _ => τ) := by
  cases x with
  | error e =>
    cases y with
    | error e' =>
      cases h
      exact fail e
    | ok b => cases h
  | ok a =>
    cases y with
    | error e' => cases h
    | ok b => exact hbody

theorem literal (hd : d.Conforms) {c : Literal}
    (h : (Shape.literal c).isCommon = true) :
    Fits (.literal d c) (.literal .draft c) := by
  rw [Script.literal, Script.literal]
  cases hbind : c.bind with
  | true =>
    -- the column types may differ, but they refuse the same values
    have hkinds : (d.types.column c.kind).kind = (Dialect.draft.types.column c.kind).kind := by
      rw [d.types.kind_column, Dialect.draft.types.kind_column]
    refine checked ?_ (.piece (.placeholder hkinds _))
    rw [ColumnType.toCell_eq_coerce, ColumnType.toCell_eq_coerce, hkinds]
  | false =>
    have hkind : c.kind ∈ Kind.common := by simpa [Shape.isCommon, hbind] using h
    have hblob : ¬ (c.kind = .blob ∧ (!c.value.isNull) = true) := by
      rintro ⟨hblob, -⟩
      rw [hblob] at hkind
      exact absurd hkind (by decide)
    have hdraft : Dialect.draft.types.column c.kind = .ofKind c.kind := rfl
    simp only [Bool.false_eq_true, if_false, if_neg hblob]
    rw [hd.column c.kind hkind, hdraft]
    cases (ColumnType.ofKind c.kind).inline c.value with
    | error e => exact fail e
    | ok text => exact .piece (.constant text)

theorem apply (hd : d.Conforms) {f : Function} {arguments : List Node}
    (hf : f.isCommon arguments.length = true) (h : ∀ n ∈ arguments, Writes d n) :
    Fits ((Node.apply f arguments).script d) ((Node.apply f arguments).script .draft) := by
  rw [Node.script_apply, Node.script_apply, Script.apply, Script.apply, List.length_map,
    List.length_map, Function.capability?_of_isCommon hf, hd.spelling f _ hf, List.map_map,
    List.map_map, List.map_map, List.map_map]
  refine (((same _).append .done).append (.check (congrArg _ ?_))).append (congruence.spelled h _)
  have hshapes : ∀ d' : Dialect, arguments.map (Rendering.shape ∘ Node.rendering d')
      = (arguments.map Node.shape).map (Shape.map (Node.rendering d')) := by
    intro d'
    simp [Node.shape_rendering]
  rw [hshapes, hshapes]
  exact Script.checkSubquery_map f _ _ _

/-- **A node that is no query.** -/
theorem expression (hd : d.Conforms) {s : Shape Node} (hquery : ∀ q, s ≠ .query q)
    (hs : s.isCommon = true) (h : ∀ n ∈ s.children, Writes d n) : Writes d (.mk s) := by
  rw [Writes]
  cases s with
  | query q => exact absurd rfl (hquery q)
  | cases _ _ | rowNumber _ | nextValue _ | currentValue _ => cases hs
  | table _ | row _ | product _ | record _ =>
    rw [Node.script_refused d (by simp), Node.script_refused .draft (by simp)]
    exact refuse _ _ _
  | column source name =>
    rw [Node.script_column, Node.script_column]
    exact ((Fits.reference source).append (words ".")).append (.piece (.name name))
  | literal c =>
    rw [Node.script_literal, Node.script_literal]
    exact literal hd hs
  | parameter index kind =>
    rw [Node.script_parameter, Node.script_parameter]
    refine .piece (.placeholder ?_ _)
    rw [d.types.kind_column, Dialect.draft.types.kind_column]
  | apply f arguments => exact apply hd hs h

/-! ## Clauses -/

theorem item {n : Node} (h : Writes d n) :
    Fits (.item (n.rendering d)) (.item (n.rendering .draft)) := by
  rw [Script.item, Script.item, Node.shape_rendering, Node.shape_rendering]
  cases n.shape with
  | row source => exact (Fits.reference source).append (words ".*")
  | _ => exact h

theorem field {c : Field Node} (h : Writes d c.value) :
    Fits (.field ⟨c.name, c.value.rendering d⟩) (.field ⟨c.name, c.value.rendering .draft⟩) := by
  have hrow : ∀ d', (c.value.rendering d').shape.isRow = c.value.shape.isRow := by
    intro d'
    rw [Node.shape_rendering, Shape.isRow_map]
  rw [Script.field, Script.field, hrow, hrow]
  refine (item h).append ?_
  split
  · exact .done
  · exact (words _).append (.piece (.name c.name))

theorem source {n : Node} (h : Writes d n) :
    Fits (.source d (n.rendering d)) (.source .draft (n.rendering .draft)) := by
  rw [Script.source, Script.source, Node.shape_rendering, Node.shape_rendering]
  cases n.shape with
  | table name => exact .piece (.name name)
  | query _ => exact h
  | _ => exact refuse _ _ _

theorem sortKey {k : SortKey Node} (hnulls : k.order.nulls = .unspecified) (h : Writes d k.key) :
    Fits (.sortKey d ⟨k.key.rendering d, k.order⟩)
      (.sortKey .draft ⟨k.key.rendering .draft, k.order⟩) := by
  have hextra : ∀ keys : NullKeys, keys.extraKey? .unspecified = none := by
    intro keys
    cases keys <;> rfl
  have hsuffix : ∀ keys : NullKeys, keys.suffix .unspecified = "" := by
    intro keys
    cases keys <;> rfl
  rw [Script.sortKey, Script.sortKey]
  dsimp only
  rw [hnulls, hextra, hextra, hsuffix, hsuffix]
  refine ((Fits.done.append h).append ?_).append (congruence.wordsIfAny _)
  split
  · exact words _
  · exact .done

section
variable {q : Query} (h : ∀ n ∈ q.children, Query.WithChildren (Writes d) n)
include h

theorem select : Fits (.select (q.rendering d)) (.select (q.rendering .draft)) := by
  have hlength : ∀ d', (q.rendering d').generators.length = q.generators.length :=
    fun d' => List.length_map _
  have hprojection : ∀ d', (q.rendering d').projection = q.projection.map (Node.rendering d') :=
    fun _ => rfl
  rw [Script.select, Script.select, hlength, hlength, hprojection, hprojection]
  cases hp : q.projection with
  | none =>
    change Fits (if _ then _ else _) (if _ then _ else _)
    split
    · exact words _
    · exact fail _
  | some p =>
    obtain ⟨hself, hbelow⟩ := h p (Clauses.projection_mem_children hp)
    have hitem := item hself
    obtain ⟨s⟩ := p
    dsimp only [Option.map_some]
    rw [Node.shape_rendering, Node.shape_rendering]
    cases s with
    | record fields =>
      dsimp only [Node.shape, Shape.map]
      rw [List.map_map, List.map_map]
      exact congruence.separated (fun c hc => field (hbelow _ (List.mem_map_of_mem hc))) _
    | product items =>
      dsimp only [Node.shape, Shape.map]
      rw [List.map_map, List.map_map]
      exact congruence.separated (fun n hn => item (hbelow n hn)) _
    | _ => exact hitem

theorem from_ (hsome : q.generators ≠ []) :
    Fits (.from_ d (q.rendering d)) (.from_ .draft (q.rendering .draft)) := by
  have hall : ∀ g ∈ q.generators, Fits (.generator d ⟨g.binder, g.source.rendering d⟩)
      (.generator .draft ⟨g.binder, g.source.rendering .draft⟩) := by
    intro g hg
    exact (source (h _ (Clauses.source_mem_children hg)).1).append (.sourceAlias g.binder)
  have hgenerators : ∀ d', (q.rendering d').generators
      = q.generators.map fun g => ⟨g.binder, g.source.rendering d'⟩ := fun _ => rfl
  rw [Script.from_, Script.from_, hgenerators, hgenerators]
  cases hgs : q.generators with
  | nil => exact absurd hgs hsome
  | cons g gs =>
    rw [hgs] at hall
    refine (words _).append ?_
    rw [List.map_map, List.map_map]
    exact congruence.separated hall _

theorem filters : Fits (.filters (q.rendering d)) (.filters (q.rendering .draft)) := by
  have hall : ∀ n ∈ q.filters, Writes d n := fun n hn => (h n (Clauses.filter_mem_children hn)).1
  have hfilters : ∀ d', (q.rendering d').filters = q.filters.map (Node.rendering d') :=
    fun _ => rfl
  rw [Script.filters, Script.filters, hfilters, hfilters]
  cases hfs : q.filters with
  | nil => exact .done
  | cons n ns =>
    rw [hfs] at hall
    refine (words _).append ?_
    rw [List.map_map, List.map_map]
    exact congruence.separated hall _

theorem groupBy : Fits (.groupBy (q.rendering d)) (.groupBy (q.rendering .draft)) := by
  have hgroupBy : ∀ d', (q.rendering d').groupBy = q.groupBy.map (Node.rendering d') :=
    fun _ => rfl
  rw [Script.groupBy, Script.groupBy, hgroupBy, hgroupBy]
  cases hg : q.groupBy with
  | none => exact .done
  | some key =>
    obtain ⟨hself, hbelow⟩ := h key (Clauses.groupBy_mem_children hg)
    refine (words _).append ?_
    obtain ⟨s⟩ := key
    rw [Node.shape_rendering, Node.shape_rendering]
    cases s with
    | product items =>
      dsimp only [Node.shape, Shape.map]
      rw [List.map_map, List.map_map]
      exact congruence.separated hbelow _
    | _ => exact hself

theorem orderBy (hnulls : ∀ k ∈ q.orderBy, k.order.nulls = .unspecified) :
    Fits (.orderBy d (q.rendering d)) (.orderBy .draft (q.rendering .draft)) := by
  have hall : ∀ k ∈ q.orderBy, Fits (.sortKey d ⟨k.key.rendering d, k.order⟩)
      (.sortKey .draft ⟨k.key.rendering .draft, k.order⟩) :=
    fun k hk => sortKey (hnulls k hk) (h _ (Clauses.key_mem_children hk)).1
  have horderBy : ∀ d', (q.rendering d').orderBy
      = q.orderBy.map fun k => ⟨k.key.rendering d', k.order⟩ := fun _ => rfl
  rw [Script.orderBy, Script.orderBy, horderBy, horderBy]
  cases hks : q.orderBy with
  | nil => exact .done
  | cons k ks =>
    rw [hks] at hall
    refine (words _).append ?_
    rw [Script.sortKeys, Script.sortKeys, List.map_map, List.map_map]
    exact congruence.separated hall _

/-- **The clauses of a query**, from its children and, where these only group columns, theirs. -/
theorem clauses (hq : (Shape.query q).isCommon = true) :
    Fits (.clauses d (q.rendering d)) (.clauses .draft (q.rendering .draft)) := by
  have hcommon : q.generators ≠ [] ∧ q.isPaged = false
      ∧ ∀ k ∈ q.orderBy, k.order.nulls = .unspecified := by
    simpa [Shape.isCommon, and_assoc] using hq
  obtain ⟨hgenerators, hpaged, hnulls⟩ := hcommon
  have hpage : q.fetch = none ∧ q.offset = none := by
    simpa [Clauses.isPaged] using hpaged
  have hfetch : ∀ d' : Dialect, (q.rendering d').fetch = none := fun _ => hpage.1
  have hoffset : ∀ d' : Dialect, (q.rendering d').offset = none := fun _ => hpage.2
  have hmodifiers : ∀ d' : Dialect, Script.modifiers d' (q.rendering d') = .done := by
    intro d'
    rw [Script.modifiers, hfetch]
    cases d'.paging <;> rfl
  have hpaging : ∀ d' : Dialect, Script.paging d' (q.rendering d') = .done := by
    intro d'
    have htext : ∀ paging : Paging, pagingText paging none none = "" := by
      intro paging
      cases paging with
      | limit unbounded => cases unbounded <;> rfl
      | _ => rfl
    rw [Script.paging, hfetch, hoffset]
    exact congrArg Script.wordsIfAny (htext _)
  have hcheck : ∀ d' : Dialect, Script.checkPaging d' (q.rendering d') = .done := by
    intro d'
    rw [Script.checkPaging, Query.rendering, Clauses.isPaged_map, hpaged]
    rfl
  have hbinders : ∀ d' : Dialect, (q.rendering d').binders = q.binders :=
    fun d' => Clauses.binders_map _ q
  rw [Script.clauses, Script.clauses, Script.body, Script.body, hcheck, hcheck, hmodifiers,
    hmodifiers, hpaging, hpaging, hbinders, hbinders]
  refine Fits.done.append (.scope _ ?_)
  exact (((((((words _).append .done).append (select h)).append (from_ h hgenerators)).append
    (filters h)).append (groupBy h)).append (orderBy h hnulls)).append .done

end
end Fits
end Script

/-! ## Trees -/

namespace Query

/-- **A built-in dialect fits the draft on common trees.** -/
theorem script_fits {d : Dialect} (hd : d.Conforms) :
    (∀ n : Node, n.isCommon = true → Script.Fits.Writes d n)
      ∧ ∀ q : Query, (Node.query q).isCommon = true → (script d q).Fits (script .draft q) := by
  -- a common query is not paged, so no dialect numbers its rows
  have hnumbers : ∀ (d' : Dialect) (q : Query), (Node.query q).isCommon = true →
      ¬ d'.Numbers q := by
    rintro d' q hq ⟨-, hoffset⟩
    have hpaged : q.isPaged = false := by
      have hshape := (Node.all_mk.mp hq).1
      simp only [Shape.isCommon, Bool.and_eq_true, Bool.not_eq_true'] at hshape
      exact hshape.1.2
    simp [Clauses.isPaged, hoffset] at hpaged
  refine writing_induct d ?_ ?_ ?_ ?_ ?_
  · intro s hquery ih hs
    obtain ⟨hs, hchildren⟩ := Node.all_mk.mp hs
    exact .expression hd hquery hs fun n hn => ih n hn (hchildren n hn)
  · intro q ih hq
    rw [Script.Fits.Writes, Node.script_query, Node.script_query]
    exact ((Script.Fits.words _).append (.deeper (ih hq))).append (.words _)
  · intro q hplain ih hq
    obtain ⟨hs, hchildren⟩ := Node.all_mk.mp hq
    rw [script_eq_clauses hplain, script_eq_clauses (hnumbers .draft q hq)]
    refine .clauses (fun n hn => ?_) hs
    have hn' := hchildren n hn
    obtain ⟨s⟩ := n
    refine ⟨(ih _ hn).1 hn', fun m hm => ?_⟩
    exact (ih _ hn).2 m hm ((Node.all_mk.mp hn').2 m hm)
  · intro q p hd' _ _ hq
    exact absurd hd' (hnumbers d q hq)
  · intro q e hd' _ hq
    exact absurd hd' (hnumbers d q hq)

/-- What a built-in dialect makes of a common query fits the statement of the draft. -/
theorem compile_fits {d : Dialect} (hd : d.Conforms) {q : Query}
    (h : (Node.query q).isCommon = true) :
    Agree (Statement.Fits d q) ((q.compile d).mapError Error.general)
      ((q.compile .draft).mapError Error.general) := by
  rw [compile_eq, compile_eq]
  simp only [mapError_bind]
  refine Agree.bind (Agree.self _) fun _ _ _ => ?_
  refine Agree.bind (Script.output_fits ((script_fits hd).2 q h) _ _ _) fun o o' ho => ?_
  exact .ok ⟨rfl, ho.pieces, rfl, congrArg (Option.getD · 0) ho.skipRows⟩

/-- **The statements of a common query have one template.**  Either every built-in dialect writes
a statement, and all of them are one template with each name quoted in the dialect's own way, have
placeholders of the same kinds and the same number of columns, and leave no rows to skip; or every
one fails, with the same error but for the name of the dialect. -/
theorem compile_common {q : Query} (h : (Node.query q).isCommon = true) :
    (∃ (template : Template) (kinds : List Kind), ∀ b : Database, ∃ s,
        q.compile b.dialect = .ok s
          ∧ s.sql = template.fill b.dialect.quoteName
          ∧ s.setters.map Setter.kind = kinds
          ∧ s.columnCount = columnCount q
          ∧ s.skipRows = 0)
      ∨ ∃ e : Error, ∀ b : Database, ∃ e',
        q.compile b.dialect = .error e' ∧ e'.general = e := by
  have hfits : ∀ b : Database, Agree (Statement.Fits b.dialect q)
      ((q.compile b.dialect).mapError Error.general)
      ((q.compile .draft).mapError Error.general) := fun b => compile_fits b.conforms h
  cases hdraft : q.compile .draft with
  | error e =>
    refine .inr ⟨e.general, fun b => ?_⟩
    exact Agree.mapError_error (hdraft ▸ hfits b)
  | ok t =>
    refine .inl ⟨t.pieces.map Piece.chunk, t.setters.map Setter.kind, fun b => ?_⟩
    obtain ⟨s, hs, hst⟩ := Agree.mapError_ok (hdraft ▸ hfits b)
    refine ⟨s, hs, ?_, Piece.map_kind_setters_of_fits hst.pieces, hst.columnCount, hst.skipRows⟩
    rw [Statement.sql, hst.quote]
    exact Piece.joined_eq_fill hst.pieces _

/-- A query with subqueries among its generators and in its filters, and with a date behind a
placeholder: every dialect writes it. -/
theorem compile_common_recent :
    let orders : Query := {
      generators := [⟨⟨1, 0⟩, .table "orders"⟩]
      filters := [.apply .gt [.column ⟨1, 0⟩ "day", .parameter 0 .date]]
      projection := some (.mk (.record [⟨"owner", .column ⟨1, 0⟩ "user_id"⟩])) }
    let paid : Query := {
      generators := [⟨⟨3, 0⟩, .table "payments"⟩]
      filters := [.apply .eq [.column ⟨3, 0⟩ "user_id", .column ⟨0, 0⟩ "id"]] }
    let q : Query := {
      generators := [⟨⟨0, 0⟩, .table "users"⟩, ⟨⟨2, 0⟩, .query orders⟩]
      filters := [.apply .eq [.column ⟨0, 0⟩ "id", .column ⟨2, 0⟩ "owner"],
        .apply .hasRows [.query paid]]
      orderBy := [⟨.column ⟨0, 0⟩ "name", .ascending⟩]
      projection := some (.column ⟨0, 0⟩ "name") }
    ∃ (template : Template) (kinds : List Kind), ∀ b : Database, ∃ s,
      q.compile b.dialect = .ok s ∧ s.sql = template.fill b.dialect.quoteName
        ∧ s.setters.map Setter.kind = kinds ∧ s.columnCount = some 1 ∧ s.skipRows = 0 := by
  intro orders paid q
  have hpostgres : (q.compile .postgres).toOption.isSome = true := by decide +kernel
  rcases compile_common (q := q) (by decide +kernel) with h | ⟨e, he⟩
  · exact h
  · obtain ⟨e', he', -⟩ := he .postgres
    rw [show q.compile .postgres = .error e' from he'] at hpostgres
    cases hpostgres

end Query
end SqlCompiler
