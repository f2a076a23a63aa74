import SqlCompiler.Dialect.Builtin
import SqlCompiler.Proofs.Lexical
import SqlCompiler.Proofs.Passing

/-!
# References and their binders

A query binds the aliases of all its generators before it writes their sources.  This file compares
that with the lexical rule of `SqlCompiler.Proofs.Lexical`, in which a source sees the generators
before it only.  The two agree on a statement exactly if no symbol is captured: no source refers to
a symbol of an enclosing query that its own query binds again at that generator or after it.

* `Script.trace` — the qualifiers of a script, and `Script.trace_of_output_ok`: they are the ones
  in its output.
* `Trace.Agree` — two traces that are equal exactly under a condition.
* `Aliases.bind_append_eq_bind_iff` — when binding more generators makes no difference to a symbol.
* `Query.agrees` — the trace of a tree and its lexical reading.
* `Query.lexical_iff_not_captured` — so a statement follows the lexical rule if and only if nothing
  is captured.
-/

set_option autoImplicit false
namespace SqlCompiler

/-! ## Aliases -/

namespace Aliases

/-- Aliases with numbers up to a limit. -/
def Below (aliases : Aliases) (limit : Nat) : Prop :=
  ∀ s n, aliases s = some (.numbered n) → n ≤ limit

variable {aliases outer : Aliases} {symbols : List Symbol} {s : Symbol}

theorem Below.bind : ∀ {aliases : Aliases} {start : Nat}, aliases.Below start →
    (aliases.bind start symbols).Below (start + symbols.length) := by
  induction symbols with
  | nil => intro aliases start h; exact h
  | cons t rest ih =>
    intro aliases start h
    rw [Aliases.bind, List.length_cons, Nat.add_comm rest.length 1, ← Nat.add_assoc]
    refine ih fun s n hn => ?_
    split at hn
    · cases hn
      exact Nat.le_refl _
    · exact Nat.le_succ_of_le (h s n hn)

theorem Below.mono {limit limit' : Nat} (h : aliases.Below limit) (hle : limit ≤ limit') :
    aliases.Below limit' :=
  fun s n hn => Nat.le_trans (h s n hn) hle

theorem bind_append (earlier later : List Symbol) : ∀ (aliases : Aliases) (start : Nat),
    aliases.bind start (earlier ++ later)
      = (aliases.bind start earlier).bind (start + earlier.length) later := by
  induction earlier with
  | nil => intro aliases start; rfl
  | cons t rest ih =>
    intro aliases start
    rw [List.cons_append, bind, bind, ih, List.length_cons, Nat.add_comm rest.length 1,
      Nat.add_assoc]

/-- Which alias a symbol is given does not depend on the aliases before. -/
theorem bind_congr (h : s ∈ symbols) : ∀ (aliases aliases' : Aliases) (start : Nat),
    aliases.bind start symbols s = aliases'.bind start symbols s := by
  induction symbols with
  | nil => exact absurd h List.not_mem_nil
  | cons t rest ih =>
    intro aliases aliases' start
    rw [bind, bind]
    by_cases hr : s ∈ rest
    · exact ih hr _ _ _
    · have hst : s = t := (List.mem_cons.mp h).resolve_right hr
      rw [bind_of_not_mem hr, bind_of_not_mem hr, if_pos hst, if_pos hst]

theorem bind_eq_bind_iff {start : Nat} :
    aliases.bind start symbols s = outer.bind start symbols s
      ↔ (s ∉ symbols → aliases s = outer s) := by
  by_cases h : s ∈ symbols
  · exact ⟨fun _ hs => absurd h hs, fun _ => bind_congr h _ _ _⟩
  · rw [bind_of_not_mem h, bind_of_not_mem h]
    exact ⟨fun heq _ => heq, fun heq => heq h⟩

/-- **Binding more generators makes no difference to a symbol** if and only if they do not bind
it. -/
theorem bind_append_eq_bind_iff {earlier later : List Symbol} {start : Nat}
    (houter : outer.Below start) :
    aliases.bind start (earlier ++ later) s = outer.bind start earlier s
      ↔ s ∉ later ∧ (s ∉ earlier → aliases s = outer s) := by
  rw [bind_append]
  by_cases h : s ∈ later
  · obtain ⟨n, hn, hs⟩ := bind_of_mem h (aliases.bind start earlier) (start + earlier.length)
    refine ⟨fun heq => ?_, fun hnot => absurd h hnot.1⟩
    -- the later alias has a number that no earlier one has
    have hle : n ≤ start + earlier.length := houter.bind s n (heq ▸ hs)
    omega
  · rw [bind_of_not_mem h, bind_eq_bind_iff]
    exact ⟨fun heq => ⟨h, heq⟩, fun heq => heq.2⟩

end Aliases

/-! ## Traces that agree -/

namespace Trace

/-- Two traces that hand out the same number of aliases and write as many qualifiers, and the same
ones exactly under a condition. -/
structure AgreeAt (n : Nat) (x y : Trace) (c : Prop) : Prop where
  count : (x n).2 = (y n).2
  le : n ≤ (x n).2
  length : (x n).1.length = (y n).1.length
  iff : (x n).1 = (y n).1 ↔ c

/-- Traces that agree from some number of aliases on. -/
def Agree (start : Nat) (x y : Trace) (c : Prop) : Prop :=
  ∀ n, start ≤ n → AgreeAt n x y c

variable {start : Nat} {x y x' y' : Trace} {c c' : Prop}

theorem Agree.congr (h : Agree start x y c) (hc : c ↔ c') : Agree start x y c' := by
  intro n hn
  obtain ⟨hcount, hle, hlength, hiff⟩ := h n hn
  exact ⟨hcount, hle, hlength, hiff.trans hc⟩

theorem agree_nothing : Agree start nothing nothing True :=
  fun _ _ => ⟨rfl, Nat.le_refl _, rfl, by simp [nothing]⟩

theorem agree_one {p q : Option Qualifier} : Agree start (one p) (one q) (p = q) :=
  fun _ _ => ⟨rfl, Nat.le_refl _, rfl, by simp [one]⟩

theorem Agree.append (h : Agree start x y c) (h' : Agree start x' y' c') :
    Agree start (x ++ x') (y ++ y') (c ∧ c') := by
  intro n hn
  obtain ⟨hcount, hle, hlength, hiff⟩ := h n hn
  obtain ⟨hcount', hle', hlength', hiff'⟩ := h' (x n).2 (Nat.le_trans hn hle)
  refine ⟨?_, Nat.le_trans hle hle', ?_, ?_⟩
  · change (x' (x n).2).2 = (y' (y n).2).2
    rw [← hcount, hcount']
  · change ((x n).1 ++ (x' (x n).2).1).length = ((y n).1 ++ (y' (y n).2).1).length
    rw [List.length_append, List.length_append, ← hcount, hlength, hlength']
  · change (x n).1 ++ (x' (x n).2).1 = (y n).1 ++ (y' (y n).2).1 ↔ _
    rw [← hcount, ← hiff, ← hiff']
    constructor
    · intro heq
      exact List.append_inj heq hlength
    · rintro ⟨h₁, h₂⟩
      rw [h₁, h₂]

theorem Agree.each {ι : Type} {l : List ι} {x y : ι → Trace} {c : ι → Prop}
    (h : ∀ i ∈ l, Agree start (x i) (y i) (c i)) :
    Agree start (each x l) (each y l) (∀ i ∈ l, c i) := by
  induction l with
  | nil => exact agree_nothing.congr (by simp)
  | cons i l ih =>
    have hrest := ih fun j hj => h j (List.mem_cons_of_mem _ hj)
    refine ((h i List.mem_cons_self).append hrest).congr ?_
    rw [List.forall_mem_cons]

end Trace

/-! ## Traces of scripts -/

/-- The qualifier that a piece is, if it is one. -/
def Piece.qualifier? : Piece → Option Qualifier
  | qualifier q => some q
  | _ => none

/-- The qualifiers in a list of pieces, in their order. -/
def Piece.qualifiers (ps : List Piece) : List Qualifier :=
  ps.filterMap qualifier?

theorem Piece.qualifiers_append (ps ps' : List Piece) :
    qualifiers (ps ++ ps') = qualifiers ps ++ qualifiers ps' :=
  List.filterMap_append

namespace Script

/-- The places of a script where qualifiers are written, each with its trace. -/
def readings : Script → List (Aliases → Trace)
  | piece p => p.qualifier?.toList.map fun q _ => .one (some q)
  | reference s | sourceAlias s => [fun aliases => .one (aliases s)]
  | append first second => first.readings ++ second.readings
  | scope symbols body => [fun aliases start =>
      Trace.each (fun r => r (aliases.bind start symbols)) body.readings
        (start + symbols.length)]
  | deeper body => body.readings
  | done | check _ | checkNested _ | skipRows _ => []

/-- The qualifiers that a script writes. -/
def trace (σ : Script) (aliases : Aliases) : Trace :=
  Trace.each (fun r => r aliases) σ.readings

theorem collects_readings : Collects readings where
  done := rfl
  words _ := rfl
  name _ := rfl
  nameText _ := rfl
  skipRows _ := rfl
  append _ _ := rfl

theorem trace_append (first second : Script) (aliases : Aliases) :
    (first ++ second).trace aliases = first.trace aliases ++ second.trace aliases :=
  Trace.each_append ..

theorem trace_scope (symbols : List Symbol) (body : Script) (aliases : Aliases) (start : Nat) :
    (scope symbols body).trace aliases start
      = body.trace (aliases.bind start symbols) (start + symbols.length) :=
  congrFun (Trace.append_nothing _) start

theorem trace_of_readings {σ : Script} {ι : Type} {l : List ι} {τ : ι → Script}
    (h : σ.readings = l.flatMap fun i => (τ i).readings) (aliases : Aliases) :
    σ.trace aliases = Trace.each (fun i => (τ i).trace aliases) l := by
  rw [trace, h, Trace.each_flatMap]
  rfl

/-- **The trace of a script is the list of qualifiers in its output.** -/
theorem trace_of_output_ok {σ : Script} : ∀ {aliases : Aliases} {nested : Bool} {count : Nat}
    {o : Output}, σ.output aliases nested count = .ok o →
      σ.trace aliases count = ((Piece.qualifiers o.pieces).map some, o.aliasCount) := by
  induction σ with
  | done | skipRows _ => intro _ _ _ _ h; cases h; rfl
  | piece p =>
    intro _ _ _ _ h
    cases h
    cases p <;> rfl
  | reference s | sourceAlias s =>
    intro aliases nested count o h
    obtain ⟨q, hs, rfl⟩ := Aliases.map_lookup_eq_ok h
    change ([aliases s], count) = _
    rw [hs]
    rfl
  | check e =>
    intro aliases nested count o h
    cases e with
    | error e => cases h
    | ok u => cases h; rfl
  | checkNested e =>
    intro aliases nested count o h
    cases nested with
    | false => cases h; rfl
    | true =>
      cases e with
      | error e => cases h
      | ok u => cases h; rfl
  | append first second ih₁ ih₂ =>
    intro aliases nested count o h
    obtain ⟨a, b, ha, hb, rfl⟩ := output_append_eq_ok h
    change (first ++ second).trace aliases count = _
    rw [trace_append]
    change ((first.trace aliases count).1 ++ (second.trace aliases (first.trace aliases count).2).1,
      (second.trace aliases (first.trace aliases count).2).2) = _
    rw [ih₁ ha, ih₂ hb, Output.append, Piece.qualifiers_append, List.map_append]
  | scope symbols body ih =>
    intro aliases nested count o h
    rw [trace_scope]
    exact ih h
  | deeper body ih => intro aliases nested count o h; exact ih h

end Script

/-! ## Nodes -/

namespace Node

variable {d : Dialect}

/-- The condition under which a tree is read alike with two sorts of aliases: those of the symbols
that it refers to are the same, and it captures none. -/
def ReadAlike (d : Dialect) (aliases outer : Aliases) (n : Node) : Prop :=
  (∀ s ∈ n.freeSymbols, aliases s = outer s) ∧ n.captured d = []

/-- A script that passes agrees with the lexical reading of a node. -/
def Agrees (d : Dialect) (n : Node) (σ : Script) : Prop :=
  ∀ (nested : Bool) (aliases outer : Aliases) (start : Nat), σ.Passes nested →
    outer.Below start →
      Trace.Agree start (σ.trace aliases) (n.lexical d outer) (n.ReadAlike d aliases outer)

theorem readAlike_column {aliases outer : Aliases} (s : Symbol) (name : String) :
    (column s name).ReadAlike d aliases outer ↔ aliases s = outer s := by
  have hcaptured : (column s name).captured d = [] :=
    captured_mk d (s := .column s name) (Shape.ne_query id)
  rw [ReadAlike, freeSymbols_column, hcaptured]
  simp

theorem readAlike_row {aliases outer : Aliases} (s : Symbol) :
    (row s).ReadAlike d aliases outer ↔ aliases s = outer s := by
  have hcaptured : (row s).captured d = [] :=
    captured_mk d (s := .row s) (Shape.ne_query id)
  rw [ReadAlike, freeSymbols_row, hcaptured]
  simp

theorem readAlike_mk {aliases outer : Aliases} {s : Shape Node} (hs : s.IsComposed) :
    (mk s).ReadAlike d aliases outer ↔ ∀ n ∈ s.children, n.ReadAlike d aliases outer := by
  have hquery : ∀ q, s ≠ .query q := by
    rintro q rfl
    exact hs
  rw [ReadAlike, freeSymbols_mk hs, captured_mk d hquery, List.flatMap_eq_nil_iff]
  simp only [List.mem_flatMap, forall_exists_index, and_imp]
  constructor
  · rintro ⟨hfree, hcaptured⟩ n hn
    exact ⟨fun t ht => hfree t n hn ht, hcaptured n hn⟩
  · intro h
    exact ⟨fun t n hn ht => (h n hn).1 t ht, fun n hn => (h n hn).2⟩

/-- A projection is read alike if its columns are. -/
theorem readAlike_columns {aliases outer : Aliases} (n : Node) :
    n.ReadAlike d aliases outer ↔ ∀ m ∈ n.columns, m.ReadAlike d aliases outer := by
  obtain ⟨s⟩ := n
  cases s with
  | product items => exact readAlike_mk (s := .product items) trivial
  | record fields => exact readAlike_mk (s := .record fields) trivial
  | _ => simp [columns, Layout.columnsOf, shape]

/-- A group key is read alike if its parts are. -/
theorem readAlike_groupKeys {aliases outer : Aliases} (n : Node) :
    n.ReadAlike d aliases outer ↔ ∀ m ∈ n.groupKeys, m.ReadAlike d aliases outer := by
  obtain ⟨s⟩ := n
  cases s with
  | product items => exact readAlike_mk (s := .product items) trivial
  | _ => simp [groupKeys, shape]

/-- Only columns have references among their own instructions. -/
theorem readings_own {s : Shape Node} (hs : s.IsComposed) :
    (Script.own d s).flatMap Script.readings = [] := by
  have hchecked : ∀ {α : Type} (r : Except Error α) (body : α → Script),
      (∀ a, (body a).readings = []) → (Script.checked r body).readings = [] := by
    intro α r body hbody
    cases r with
    | error e => rfl
    | ok a => exact hbody a
  cases s with
  | query _ | row _ | column _ _ => exact hs.elim
  | literal c =>
    rw [Script.own, List.flatMap_singleton, Script.literal]
    split
    · exact hchecked _ _ fun _ => rfl
    · split
      · rfl
      · exact hchecked _ _ fun _ => rfl
  | apply f arguments =>
    rw [Script.own]
    cases f.capability? arguments.length <;> rfl
  | _ => rfl

/-- **Nodes that are no queries agree if their children do.** -/
theorem agrees_expression {s : Shape Node} (hquery : ∀ q, s ≠ .query q)
    (ih : ∀ n ∈ s.children, n.Agrees d (n.script d)) : (mk s).Agrees d ((mk s).script d) := by
  intro nested aliases outer start hpass houter
  have hwritable := writable_of_passes hpass
  by_cases hs : s.IsComposed
  · have hreadings := Script.collects_readings.expression d hwritable hquery
    rw [readings_own hs, List.nil_append] at hreadings
    have hwritten : (∀ n ∈ s.written d, n.ReadAlike d aliases outer)
        ↔ (mk s).ReadAlike d aliases outer := by
      rw [readAlike_mk hs]
      exact forall_congr' fun n => imp_congr_left Shape.mem_written
    rw [Script.trace_of_readings hreadings, lexical_mk d hs]
    refine Trace.Agree.congr (Trace.Agree.each fun n hn => ?_) hwritten
    have hn := Shape.mem_written.mp hn
    exact ih n hn nested aliases outer start (passes_child hquery hpass hn) houter
  · cases s with
    | column t name =>
      rw [script_column, lexical_column]
      exact Trace.agree_one.congr (readAlike_column t name).symm
    | query q => exact absurd rfl (hquery q)
    | row t => exact hwritable.elim
    | _ => exact absurd trivial hs

/-- The columns of a projection agree if they do as expressions. -/
theorem agrees_item {n : Node} (h : n.Agrees d (n.script d)) : n.Agrees d (n.item d) := by
  rcases n.item_cases d with ⟨t, rfl, hitem⟩ | hitem
  · rw [hitem]
    intro nested aliases outer start hpass houter
    rw [lexical_row]
    exact Trace.agree_one.congr (readAlike_row t).symm
  · rw [hitem]
    exact h

/-- Sources agree if they do as expressions. -/
theorem agrees_source {n : Node} (h : n.Agrees d (n.script d)) :
    n.Agrees d (Script.source d (n.rendering d)) := by
  intro nested aliases outer start hpass houter
  rcases source_of_passes hpass with ⟨name, rfl⟩ | ⟨q, rfl, hpass'⟩
  · rw [lexical_mk d (s := .table name) trivial]
    refine Trace.agree_nothing.congr ?_
    rw [readAlike_mk (s := .table name) trivial]
    simp [Shape.children]
  · exact h nested aliases outer start hpass' houter

end Node

/-! ## Queries -/

namespace Query

variable {d : Dialect}

/-- The condition for a query, as for a node. -/
def ReadAlike (d : Dialect) (aliases outer : Aliases) (q : Query) : Prop :=
  (∀ s ∈ freeSymbols q, aliases s = outer s) ∧ captured d q = []

/-- The condition for a list of generators after some others. -/
def SourcesReadAlike (d : Dialect) (aliases outer : Aliases) (earlier : List Symbol)
    (generators : List (Generator Node)) : Prop :=
  (∀ s ∈ Clauses.freeSources Node.freeSymbols earlier generators, aliases s = outer s)
    ∧ Clauses.capturedSources Node.freeSymbols generators = []
    ∧ ∀ g ∈ generators, g.source.captured d = []

theorem sourcesReadAlike_cons {aliases outer : Aliases} {earlier : List Symbol} {start : Nat}
    (houter : outer.Below start) (g : Generator Node) (gs : List (Generator Node)) :
    SourcesReadAlike d aliases outer earlier (g :: gs)
      ↔ g.source.ReadAlike d
          (aliases.bind start (earlier ++ g.binder :: gs.map Generator.binder))
          (outer.bind start earlier)
        ∧ SourcesReadAlike d aliases outer (earlier ++ [g.binder]) gs := by
  rw [SourcesReadAlike, SourcesReadAlike, Node.ReadAlike, Clauses.freeSources,
    Clauses.capturedSources, List.append_eq_nil_iff, List.filter_eq_nil_iff, List.forall_mem_cons]
  simp only [Aliases.bind_append_eq_bind_iff houter, List.mem_append, List.mem_filter,
    decide_eq_true_eq]
  constructor
  · rintro ⟨hfree, ⟨hlater, hcaptures⟩, hcaptured, hrest⟩
    exact ⟨⟨fun s hs => ⟨hlater s hs, fun hearlier => hfree s (.inl ⟨hs, hearlier⟩)⟩, hcaptured⟩,
      fun s hs => hfree s (.inr hs), hcaptures, hrest⟩
  · rintro ⟨⟨hfree, hcaptured⟩, hsources, hcaptures, hrest⟩
    refine ⟨?_, ⟨fun s hs => (hfree s hs).1, hcaptures⟩, hcaptured, hrest⟩
    rintro s (⟨hs, hearlier⟩ | hs)
    · exact (hfree s hs).2 hearlier
    · exact hsources s hs

/-- **Sources agree with the lexical reading** in which each of them sees the generators before
it. -/
theorem agrees_sources {nested : Bool} (aliases : Aliases) {outer : Aliases} {start : Nat}
    (houter : outer.Below start) {generators : List (Generator Node)} :
    ∀ (earlier : List Symbol) (limit : Nat),
      start + earlier.length + generators.length ≤ limit →
      (∀ g ∈ generators, g.source.Agrees d (Script.source d (g.source.rendering d))) →
      (∀ g ∈ generators, (Script.source d (g.source.rendering d)).Passes nested) →
      Trace.Agree limit
        (Trace.each (fun g => (Script.source d (g.source.rendering d)).trace
            (aliases.bind start (earlier ++ generators.map Generator.binder))
          ++ .one (aliases.bind start (earlier ++ generators.map Generator.binder) g.binder))
          generators)
        (Clauses.lexicalSources (Node.lexical d) outer
          (outer.bind start (earlier ++ generators.map Generator.binder)) start earlier generators)
        (SourcesReadAlike d aliases outer earlier generators) := by
  induction generators with
  | nil =>
    intro earlier limit _ _ _
    exact Trace.agree_nothing.congr (by simp [SourcesReadAlike, Clauses.freeSources,
      Clauses.capturedSources])
  | cons g gs ih =>
    intro earlier limit hlimit hagrees hpass
    rw [List.length_cons] at hlimit
    have hbound : (outer.bind start earlier).Below limit :=
      houter.bind.mono (by omega)
    have hsource := hagrees g List.mem_cons_self nested
      (aliases.bind start (earlier ++ g.binder :: gs.map Generator.binder)) _ limit
      (hpass g List.mem_cons_self) hbound
    have halias : aliases.bind start (earlier ++ g.binder :: gs.map Generator.binder) g.binder
        = outer.bind start (earlier ++ g.binder :: gs.map Generator.binder) g.binder :=
      Aliases.bind_congr (List.mem_append_right _ List.mem_cons_self) _ _ _
    have hrest := ih (earlier ++ [g.binder]) limit
      (by rw [List.length_append, List.length_singleton]; omega)
      (fun g' hg' => hagrees g' (List.mem_cons_of_mem _ hg'))
      (fun g' hg' => hpass g' (List.mem_cons_of_mem _ hg'))
    rw [List.append_assoc, List.singleton_append] at hrest
    rw [Trace.each, Clauses.lexicalSources]
    refine ((hsource.append (Trace.agree_one.congr (iff_true_intro halias))).append hrest).congr ?_
    rw [and_true, sourcesReadAlike_cons houter]

/-- A query that does not number its rows is read alike if its sources are, and its expressions in
sight of all its generators. -/
theorem readAlike_iff {q : Query} (hq : ¬ d.Numbers q) {aliases outer : Aliases} (start : Nat) :
    ReadAlike d aliases outer q
      ↔ SourcesReadAlike d aliases outer [] q.generators
        ∧ ∀ n ∈ q.expressions, n.ReadAlike d (aliases.bind start q.binders)
            (outer.bind start q.binders) := by
  have hcaptured : captured d q = []
      ↔ Clauses.capturedSources Node.freeSymbols q.generators = []
        ∧ (∀ g ∈ q.generators, g.source.captured d = [])
        ∧ ∀ n ∈ q.expressions, n.captured d = [] := by
    rw [captured, captures, if_neg hq, List.append_nil, List.append_eq_nil_iff,
      List.flatMap_eq_nil_iff, Clauses.children, List.forall_mem_append, Clauses.sources,
      List.forall_mem_map]
  rw [ReadAlike, hcaptured, SourcesReadAlike]
  simp only [mem_freeSymbols_iff, Node.ReadAlike, Aliases.bind_eq_bind_iff]
  constructor
  · rintro ⟨hfree, hcaptures, hsources, hexpressions⟩
    refine ⟨⟨fun s hs => hfree s (.inl hs), hcaptures, hsources⟩,
      fun n hn => ⟨?_, hexpressions n hn⟩⟩
    intro s hs hbinder
    exact hfree s (.inr ⟨hbinder, n, hn, hs⟩)
  · rintro ⟨⟨hfree, hcaptures, hsources⟩, hexpressions⟩
    refine ⟨?_, hcaptures, hsources, fun n hn => (hexpressions n hn).2⟩
    rintro s (hs | ⟨hbinder, n, hn, hs⟩)
    · exact hfree s hs
    · exact (hexpressions n hn).1 s hs hbinder

theorem forall_mem_expressions (d : Dialect) {q : Query} {P : Node → Prop} :
    (∀ n ∈ q.expressions, P n)
      ↔ (((∀ n ∈ q.filters, P n) ∧ ∀ n ∈ q.groupBy.toList, P n)
          ∧ ∀ n ∈ SortKey.written d q.orderBy, P n)
        ∧ ∀ n ∈ q.projection.toList, P n := by
  simp only [Clauses.expressions, List.forall_mem_append, SortKey.mem_written]

section
variable (q : Query) (aliases : Aliases)

theorem trace_select :
    (Script.select (rendering d q)).trace aliases
      = Trace.each (fun n => (n.item d).trace aliases) (q.projection.elim [] Node.columns) := by
  cases hp : q.projection with
  | some p => exact Script.trace_of_readings (Script.collects_readings.select d q hp) aliases
  | none =>
    have hreadings := Script.collects_readings.select_none d q hp
    rw [Script.trace, hreadings]
    split <;> rfl

theorem trace_from :
    (Script.from_ d (rendering d q)).trace aliases
      = Trace.each (fun g => (Script.source d (g.source.rendering d)).trace aliases
          ++ .one (aliases g.binder)) q.generators := by
  rw [Script.trace, Script.collects_readings.from_, Trace.each_flatMap]
  refine congrArg (Trace.each · q.generators) (funext fun g => ?_)
  rw [Trace.each_append]
  exact congrArg _ (Trace.append_nothing _)

theorem trace_filters :
    (Script.filters (rendering d q)).trace aliases
      = Trace.each (fun n => (n.script d).trace aliases) q.filters :=
  Script.trace_of_readings (Script.collects_readings.filters d q) aliases

theorem trace_groupBy :
    (Script.groupBy (rendering d q)).trace aliases
      = Trace.each (fun n => (n.script d).trace aliases) (q.groupBy.elim [] Node.groupKeys) :=
  Script.trace_of_readings (Script.collects_readings.groupBy d q) aliases

theorem trace_orderBy :
    (Script.orderBy d (rendering d q)).trace aliases
      = Trace.each (fun n => (n.script d).trace aliases) (SortKey.written d q.orderBy) :=
  Script.trace_of_readings (Script.collects_readings.orderBy d q) aliases

theorem trace_body :
    (Script.body d (rendering d q)).trace aliases
      = (Script.select (rendering d q)).trace aliases
        ++ (Script.from_ d (rendering d q)).trace aliases
        ++ ((Script.filters (rendering d q)).trace aliases
          ++ (Script.groupBy (rendering d q)).trace aliases
          ++ (Script.orderBy d (rendering d q)).trace aliases) := by
  have hmodifiers : (Script.modifiers d (rendering d q)).readings = [] := by
    rcases Script.collects_readings.modifiers d q with h | ⟨_, _, h⟩
    · exact h
    · rw [h]
      rfl
  rw [Script.trace, Script.collects_readings.body, hmodifiers, List.nil_append, Trace.each_append,
    Trace.each_append, Trace.each_append, Trace.each_append]
  simp only [Trace.append_assoc]
  rfl

theorem trace_clauses (start : Nat) :
    (Script.clauses d (rendering d q)).trace aliases start
      = (Script.body d (rendering d q)).trace (aliases.bind start q.binders)
          (start + q.binders.length) := by
  have hpaging : (Script.checkPaging d (rendering d q)).trace aliases = .nothing := by
    rw [Script.checkPaging]
    split
    · split <;> rfl
    · rfl
  have hbinders : (rendering d q).binders = q.binders := Clauses.binders_map _ q
  rw [Script.clauses, Script.trace_append, hpaging, Trace.nothing_append, Script.trace_scope,
    hbinders]

end

section
variable {q : Query} {nested : Bool} (aliases : Aliases) {outer : Aliases} {start : Nat}

theorem agrees_select (hpass : BodyPasses d nested q) (houter : outer.Below start)
    (h : ∀ p, q.projection = some p → ∀ n ∈ p.columns, n.Agrees d (n.script d)) :
    Trace.Agree start ((Script.select (rendering d q)).trace aliases)
      (Trace.each (fun n => n.lexical d outer) q.projection.toList)
      (∀ n ∈ q.projection.toList, n.ReadAlike d aliases outer) := by
  rw [trace_select]
  cases hp : q.projection with
  | none => exact Trace.agree_nothing.congr (by simp)
  | some p =>
    have hcolumns : Trace.Agree start
        (Trace.each (fun n => (n.item d).trace aliases) p.columns)
        (Trace.each (fun n => n.lexical d outer) p.columns)
        (∀ n ∈ p.columns, n.ReadAlike d aliases outer) :=
      .each fun n hn => Node.agrees_item (h p hp n hn) nested _ _ _ (hpass.column p hp n hn) houter
    rw [Option.toList_some, Trace.each, Trace.each, Trace.append_nothing, Node.lexical_columns,
      List.forall_mem_singleton, Node.readAlike_columns]
    exact hcolumns

theorem agrees_filters (hpass : BodyPasses d nested q) (houter : outer.Below start)
    (h : ∀ n ∈ q.filters, n.Agrees d (n.script d)) :
    Trace.Agree start ((Script.filters (rendering d q)).trace aliases)
      (Trace.each (fun n => n.lexical d outer) q.filters)
      (∀ n ∈ q.filters, n.ReadAlike d aliases outer) := by
  rw [trace_filters]
  exact .each fun n hn => h n hn nested _ _ _ (hpass.filter n hn) houter

theorem agrees_groupBy (hpass : BodyPasses d nested q) (houter : outer.Below start)
    (h : ∀ key, q.groupBy = some key → ∀ n ∈ key.groupKeys, n.Agrees d (n.script d)) :
    Trace.Agree start ((Script.groupBy (rendering d q)).trace aliases)
      (Trace.each (fun n => n.lexical d outer) q.groupBy.toList)
      (∀ n ∈ q.groupBy.toList, n.ReadAlike d aliases outer) := by
  rw [trace_groupBy]
  cases hkey : q.groupBy with
  | none => exact Trace.agree_nothing.congr (by simp)
  | some key =>
    have hkeys : Trace.Agree start
        (Trace.each (fun n => (n.script d).trace aliases) key.groupKeys)
        (Trace.each (fun n => n.lexical d outer) key.groupKeys)
        (∀ n ∈ key.groupKeys, n.ReadAlike d aliases outer) :=
      .each fun n hn => h key hkey n hn nested _ _ _ (hpass.groupKey key hkey n hn) houter
    rw [Option.toList_some, Trace.each, Trace.each, Trace.append_nothing, Node.lexical_groupKeys,
      List.forall_mem_singleton, Node.readAlike_groupKeys]
    exact hkeys

theorem agrees_orderBy (hpass : BodyPasses d nested q) (houter : outer.Below start)
    (h : ∀ k ∈ q.orderBy, k.key.Agrees d (k.key.script d)) :
    Trace.Agree start ((Script.orderBy d (rendering d q)).trace aliases)
      (Trace.each (fun n => n.lexical d outer) (SortKey.written d q.orderBy))
      (∀ n ∈ SortKey.written d q.orderBy, n.ReadAlike d aliases outer) := by
  rw [trace_orderBy]
  refine .each fun n hn => ?_
  obtain ⟨k, hk, rfl⟩ := List.mem_map.mp (SortKey.mem_written.mp hn)
  exact h k hk nested _ _ _ (hpass.key k hk) houter

/-- **A query that is written clause by clause agrees if its children do.** -/
theorem agrees_clauses (hq : ¬ d.Numbers q)
    (ih : ∀ n ∈ q.children, WithChildren (fun n => n.Agrees d (n.script d)) n)
    (hpass : (Script.body d (rendering d q)).Passes nested) (houter : outer.Below start) :
    Trace.Agree start ((Script.clauses d (rendering d q)).trace aliases) (lexical d q outer)
      (ReadAlike d aliases outer q) := by
  intro n hn
  have hpasses := bodyPasses hpass
  have hbelow : outer.Below n := houter.mono hn
  have hinner : (outer.bind n q.binders).Below (n + q.binders.length) := hbelow.bind
  have hchild : ∀ m ∈ q.children, m.Agrees d (m.script d) := fun m hm => (ih m hm).1
  have hselect := agrees_select (aliases.bind n q.binders) hpasses hinner
    fun p hp m hm => (ih p (Clauses.projection_mem_children hp)).column hm
  have hfrom := agrees_sources aliases hbelow [] (n + q.binders.length)
    (Nat.le_of_eq (by rw [List.length_nil, Nat.add_zero, Clauses.binders, List.length_map]))
    (fun g hg => Node.agrees_source (hchild g.source (Clauses.source_mem_children hg)))
    hpasses.source
  have hfilters := agrees_filters (aliases.bind n q.binders) hpasses hinner
    fun m hm => hchild m (Clauses.filter_mem_children hm)
  have hgroupBy := agrees_groupBy (aliases.bind n q.binders) hpasses hinner
    fun key hkey m hm => (ih key (Clauses.groupBy_mem_children hkey)).groupKey hm
  have horderBy := agrees_orderBy (aliases.bind n q.binders) hpasses hinner
    fun k hk => hchild k.key (Clauses.key_mem_children hk)
  obtain ⟨hcount, hle, hlength, hiff⟩ :=
    ((hselect.append hfrom).append ((hfilters.append hgroupBy).append horderBy)) _ (Nat.le_refl _)
  have htrace := (trace_clauses q aliases n).trans (congrFun (trace_body (d := d) q _) _)
  rw [trace_from] at htrace
  have hlexical : lexical d q outer n = _ := congrFun (congrFun (lexical_of_not_numbers d hq) _) _
  rw [Clauses.lexicalBody, Trace.each_append, Trace.each_append] at hlexical
  constructor
  · rw [htrace, hlexical]
    exact hcount
  · rw [htrace]
    exact Nat.le_trans (Nat.le_add_right _ _) hle
  · rw [htrace, hlexical]
    exact hlength
  · rw [htrace, hlexical, readAlike_iff hq n, forall_mem_expressions d]
    refine hiff.trans ⟨?_, ?_⟩
    · rintro ⟨⟨hprojection, hsources⟩, hothers⟩
      exact ⟨hsources, hothers, hprojection⟩
    · rintro ⟨hsources, hothers, hprojection⟩
      exact ⟨⟨hprojection, hsources⟩, hothers⟩

end

/-- **The qualifiers of a tree and its lexical reading.**  They agree wherever the aliases of the
symbols that the tree refers to do, if and only if nothing in it is captured. -/
theorem agrees (d : Dialect) :
    (∀ n : Node, n.Agrees d (n.script d))
      ∧ ∀ (q : Query) (nested : Bool) (aliases outer : Aliases) (start : Nat),
          (script d q).Passes nested → outer.Below start →
            Trace.Agree start ((script d q).trace aliases) (lexical d q outer)
              (ReadAlike d aliases outer q) := by
  refine writing_induct d ?_ ?_ ?_ ?_ ?_
  · intro s hquery ih
    exact Node.agrees_expression hquery ih
  · intro q hq nested aliases outer start hpass houter
    have hreadings : ((Node.query q).script d).readings = (script d q).readings :=
      Script.collects_readings.subquery d q
    have hpass : (script d q).Passes true := fun e he => hpass e (by
      rw [(Script.collects_checks nested).subquery]
      exact he)
    rw [Script.trace, hreadings, Node.lexical_query, Node.ReadAlike, Node.freeSymbols_query,
      Node.captured_query]
    exact hq true aliases outer start hpass houter
  · intro q hnumbers ih nested aliases outer start hpass houter
    rw [script_eq_clauses hnumbers] at hpass ⊢
    exact agrees_clauses aliases hnumbers ih
      (fun e he => hpass e (List.mem_append_right _ he)) houter
  · intro q p hnumbers hn hp nested aliases outer start hpass houter
    rw [script_of_numbers hnumbers, hn] at hpass ⊢
    rw [← lexical_numberRows d hnumbers hn]
    refine (hp nested aliases outer start hpass houter).congr ?_
    rw [ReadAlike, ReadAlike, List.eq_nil_iff_forall_not_mem, List.eq_nil_iff_forall_not_mem]
    simp only [mem_freeSymbols_numberRows hn, mem_captured_numberRows hnumbers hn]
  · intro q e hnumbers hn nested aliases outer start hpass _
    rw [script_of_numbers hnumbers, hn] at hpass
    exact absurd hpass (Script.Passes.not_fail _)

/-- **References resolve to their lexical binders if and only if nothing is captured.**  Every
qualifier of the select statement of a query is the alias of the generator that binds its symbol by
the lexical rule exactly if no source refers to a symbol of an enclosing query that its own query
binds again, at that generator or after it. -/
theorem lexical_iff_not_captured (d : Dialect) (q : Query) (s : Statement)
    (hs : q.compile d = .ok s) :
    (Piece.qualifiers s.pieces).map some = (lexical d q (fun _ => none) 0).1
      ↔ captured d q = [] := by
  rw [compile_eq] at hs
  obtain ⟨_, -, hs⟩ := bind_eq_ok_iff.mp hs
  obtain ⟨o, ho, hs⟩ := bind_eq_ok_iff.mp hs
  cases hs
  have hpass : (script d q).Passes false := Script.check_eq_ok_of_output_ok ho
  have hnone : Aliases.Below (fun _ => none) 0 := fun _ _ h => nomatch h
  have hagree := ((agrees d).2 q false (fun _ => none) (fun _ => none) 0 hpass hnone 0
    (Nat.le_refl 0)).iff
  rw [Script.trace_of_output_ok ho] at hagree
  refine hagree.trans ⟨And.right, fun h => ⟨fun _ _ => rfl, h⟩⟩

/-- An inner query that binds a symbol of the outer one again, on numbered rows. -/
theorem lexical_iff_not_captured_sqlserver :
    let q : Query := {
      generators := [⟨⟨0, 0⟩, .table "users"⟩]
      filters := [.apply .hasRows [.query {
        generators := [⟨⟨0, 0⟩, .table "orders"⟩]
        projection := some (.column ⟨0, 0⟩ "total") }]]
      projection := some (.column ⟨0, 0⟩ "id")
      orderBy := [⟨.column ⟨0, 0⟩ "name", .ascending⟩]
      offset := some 3 }
    ∃ s, q.compile .sqlserver = .ok s ∧ captured .sqlserver q = []
      ∧ (Piece.qualifiers s.pieces).map some = (lexical .sqlserver q (fun _ => none) 0).1 := by
  intro q
  cases hs : q.compile .sqlserver with
  | error e => cases hs
  | ok s => exact ⟨s, rfl, rfl, (lexical_iff_not_captured .sqlserver q s hs).mpr rfl⟩

/-- The orders of a user as a source, whose generator binds the symbol of the user again.  Their
filter refers to the user and is written with the alias of the generator. -/
theorem captured_resolves_inside :
    let q : Query := {
      generators := [⟨⟨0, 0⟩, .table "users"⟩]
      filters := [.apply .hasRows [.query {
        generators := [⟨⟨0, 0⟩, .query {
          generators := [⟨⟨1, 0⟩, .table "orders"⟩]
          filters := [.binary .eq (.column ⟨1, 0⟩ "user_id") (.column ⟨0, 0⟩ "id")]
          projection := some (.mk (.record [⟨"total", .column ⟨1, 0⟩ "total"⟩])) }⟩]
        projection := some (.column ⟨0, 0⟩ "total") }]]
      projection := some (.column ⟨0, 0⟩ "id") }
    ∃ s, q.compile .postgres = .ok s ∧ captured .postgres q = [⟨0, 0⟩]
      ∧ (Piece.qualifiers s.pieces).map some ≠ (lexical .postgres q (fun _ => none) 0).1 := by
  intro q
  cases hs : q.compile .postgres with
  | error e => cases hs
  | ok s =>
    cases hs
    exact ⟨_, rfl, rfl, by decide⟩

end Query
end SqlCompiler
