import SqlCompiler.Proofs.Bindings
import SqlCompiler.Proofs.Passing
import SqlCompiler.Proofs.Strides

/-!
# The arguments of a statement

A statement is compiled once and then run with arguments.  Its setters say what is bound to each of
its placeholders: a constant of the tree, or the argument at a position.  Constants are tried when
the statement is compiled and are bound later by another function, so the two have to accept the
same values for every column type; then only the arguments can be at fault.

* `Setter.parameter` — what is bound to a placeholder, or why nothing can be; and
  `Statement.parameters_eq`: a statement binds that to its placeholders, one after the other.
* `Script.setters` — the setters of a script, whatever its aliases are.
* `Binding.Refuses` — why an argument is refused; and `Binding.parameter_eq_error_iff`: where
  constants have cells, only an argument can be at fault.
* `Query.sets_tree` — a tree that passes has a setter for each of its bindings, and its constants
  have cells.
* `Query.parameters_exact` — binding a compiled statement, in all its outcomes.
-/

set_option autoImplicit false
namespace SqlCompiler

/-! ## What is bound to a placeholder -/

/-- The parameter for a value: a null of the type for null, and else the cell of the value. -/
def ColumnType.parameter (c : ColumnType) (v : Value) : Except Error Parameter :=
  if v.isNull then .ok (.null c.code) else (c.toCell v).map .value

/-- What may be bound for a value: a null of the type for null, and else the cell of the value. -/
inductive ColumnType.Holds (c : ColumnType) : Value → Parameter → Prop
  | null : Holds c .null (.null c.code)
  | cell {v cell : Value} : v ≠ .null → c.toCell v = .ok cell → Holds c v (.value cell)

theorem ColumnType.parameter_of_ne (c : ColumnType) {v : Value} (hv : v ≠ .null) :
    c.parameter v = (c.toCell v).map .value := by
  have hnull : ¬ v.isNull = true := fun h => hv (Value.isNull_iff.mp h)
  rw [parameter, if_neg hnull]

theorem ColumnType.parameter_eq_ok_iff {c : ColumnType} {v : Value} {p : Parameter} :
    c.parameter v = .ok p ↔ c.Holds v p := by
  constructor
  · intro h
    by_cases hv : v = .null
    · subst hv
      cases h
      exact .null
    · rw [c.parameter_of_ne hv] at h
      cases hcell : c.toCell v with
      | error e => rw [hcell] at h; cases h
      | ok cell => rw [hcell] at h; cases h; exact .cell hv hcell
  · intro h
    cases h with
    | null => rfl
    | cell hv hcell => rw [c.parameter_of_ne hv, hcell]; rfl

theorem ColumnType.parameter_eq_error_iff {c : ColumnType} {v : Value} {e : Error} :
    c.parameter v = .error e ↔ v ≠ .null ∧ c.toCell v = .error e := by
  by_cases hv : v = .null
  · subst hv
    exact ⟨nofun, fun h => absurd rfl h.1⟩
  · rw [c.parameter_of_ne hv]
    cases c.toCell v with
    | error e' =>
      constructor
      · intro h; cases h; exact ⟨hv, rfl⟩
      · rintro ⟨-, h⟩; cases h; rfl
    | ok cell => exact ⟨nofun, nofun⟩

/-- An optional value binds its parameter, or nothing. -/
theorem ColumnType.run_setOption (c : ColumnType) (v : Value) (ps : Parameters) :
    (c.setOption (some v)).run ps =
      match c.parameter v with
      | .ok p => .ok () (ps ++ [p])
      | .error e => .error e ps := by
  rw [setOption, parameter]
  cases hv : v.isNull with
  | true => rfl
  | false =>
    rw [if_neg Bool.false_ne_true, if_neg Bool.false_ne_true, run_set c hv]
    cases c.toCell v <;> rfl

/-- The value that is bound, if it was supplied. -/
def Source.value? (arguments : List Value) : Source → Option Value
  | constant v => some v
  | argument index => arguments[index]?

namespace Setter

/-- The parameter for a placeholder, or why there is none. -/
def parameter (arguments : List Value) (s : Setter) : Except Error Parameter :=
  match s.source with
  | .constant v => s.column.parameter v
  | .argument index =>
    match arguments[index]? with
    | some v => s.column.parameter v
    | none => .error (.malformed (.missingArgument index arguments.length))

theorem run_bind (s : Setter) (arguments : List Value) (ps : Parameters) :
    (s.bind arguments).run ps =
      match s.parameter arguments with
      | .ok p => .ok () (ps ++ [p])
      | .error e => .error e ps := by
  obtain ⟨column, source⟩ := s
  cases source with
  | constant v => exact column.run_setOption v ps
  | argument index =>
    rw [bind, parameter]
    dsimp only
    cases arguments[index]? with
    | none => rfl
    | some v => exact column.run_setOption v ps

/-- A parameter that is bound holds the value of its setter. -/
theorem holds_of_parameter {s : Setter} {arguments : List Value} {p : Parameter}
    (h : s.parameter arguments = .ok p) :
    ∃ v, s.source.value? arguments = some v ∧ s.column.Holds v p := by
  obtain ⟨column, source⟩ := s
  cases source with
  | constant v => exact ⟨v, rfl, ColumnType.parameter_eq_ok_iff.mp h⟩
  | argument index =>
    rw [parameter] at h
    dsimp only at h
    cases hv : arguments[index]? with
    | none => rw [hv] at h; cases h
    | some v =>
      rw [hv] at h
      exact ⟨v, hv, ColumnType.parameter_eq_ok_iff.mp h⟩

end Setter

/-- Placeholders are bound one after the other, up to the first that cannot be. -/
theorem outcome_bindAll (setters : List Setter) (arguments : List Value) : ∀ ps : Parameters,
    (match (bindAll setters arguments).run ps with
      | .ok _ qs => .ok qs
      | .error e _ => .error e)
      = (setters.mapM (Setter.parameter arguments)).map (ps ++ ·) := by
  induction setters with
  | nil =>
    intro ps
    exact congrArg Except.ok (List.append_nil ps).symm
  | cons s rest ih =>
    intro ps
    have step : (bindAll (s :: rest) arguments).run ps
        = (s.bind arguments >>= fun _ => bindAll rest arguments).run ps := rfl
    rw [EStateM.run_bind, s.run_bind] at step
    rw [step, List.mapM_cons]
    cases s.parameter arguments with
    | error e => rfl
    | ok p =>
      refine (ih (ps ++ [p])).trans ?_
      cases rest.mapM (Setter.parameter arguments) with
      | error e => rfl
      | ok qs => exact congrArg Except.ok (List.append_assoc ps [p] qs)

/-- **A statement binds the parameters of its setters, in their order.** -/
theorem Statement.parameters_eq (s : Statement) (arguments : List Value) :
    s.parameters arguments = s.setters.mapM (Setter.parameter arguments) := by
  refine (outcome_bindAll s.setters arguments []).trans ?_
  cases s.setters.mapM (Setter.parameter arguments) <;> rfl

/-! ## Arguments that are refused -/

namespace Binding

variable (d : Dialect)

/-- The setter for something that is bound. -/
def setter (b : Binding) : Setter :=
  ⟨d.types.column b.kind, b.source⟩

/-- A constant has to have a cell; an argument is not known yet. -/
def Ready (b : Binding) : Prop :=
  ∀ v, b.source = .constant v → ∃ cell, (d.types.column b.kind).toCell v = .ok cell

/-- An argument has to be there, and to be null or to have a cell. -/
def Accepts (arguments : List Value) (b : Binding) : Prop :=
  ∀ index, b.source = .argument index → ∃ v, arguments[index]? = some v
    ∧ (v = .null ∨ ∃ cell, (d.types.column b.kind).toCell v = .ok cell)

/-- Why an argument is refused: it is not there, or it is not null and has no cell. -/
inductive Refuses (arguments : List Value) : Binding → Error → Prop
  | missing {kind : Kind} {index : Nat} : arguments.length ≤ index →
      Refuses arguments ⟨kind, .argument index⟩
        (.malformed (.missingArgument index arguments.length))
  | mismatch {kind : Kind} {index : Nat} {v : Value} {e : Error} : arguments[index]? = some v →
      v ≠ .null → (d.types.column kind).toCell v = .error e →
      Refuses arguments ⟨kind, .argument index⟩ e

variable {d} in
/-- **Only an argument can be at fault**, if constants have cells. -/
theorem parameter_eq_error_iff {b : Binding} (hb : b.Ready d) {arguments : List Value} {e : Error} :
    (b.setter d).parameter arguments = .error e ↔ Refuses d arguments b e := by
  obtain ⟨kind, source⟩ := b
  cases source with
  | constant v =>
    obtain ⟨cell, hcell⟩ := hb v rfl
    constructor
    · intro h
      obtain ⟨-, herror⟩ := ColumnType.parameter_eq_error_iff.mp h
      cases hcell.symm.trans herror
    · intro h; cases h
  | argument index =>
    rw [setter, Setter.parameter]
    dsimp only
    cases hv : arguments[index]? with
    | none =>
      constructor
      · intro h; cases h; exact .missing (List.getElem?_eq_none_iff.mp hv)
      · intro h
        cases h with
        | missing _ => rfl
        | mismatch hsome _ _ => cases hv.symm.trans hsome
    | some v =>
      constructor
      · intro h
        obtain ⟨hne, herror⟩ := ColumnType.parameter_eq_error_iff.mp h
        exact .mismatch hv hne herror
      · intro h
        cases h with
        | missing hlength => cases hv.symm.trans (List.getElem?_eq_none_iff.mpr hlength)
        | mismatch hsome hne herror =>
          cases hv.symm.trans hsome
          exact ColumnType.parameter_eq_error_iff.mpr ⟨hne, herror⟩

variable {d} in
theorem exists_parameter_iff {b : Binding} (hb : b.Ready d) {arguments : List Value} :
    (∃ p, (b.setter d).parameter arguments = .ok p) ↔ b.Accepts d arguments := by
  constructor
  · rintro ⟨p, hp⟩ index hindex
    rw [Setter.parameter, setter, hindex] at hp
    dsimp only at hp
    cases hv : arguments[index]? with
    | none => rw [hv] at hp; cases hp
    | some v =>
      rw [hv] at hp
      refine ⟨v, rfl, ?_⟩
      cases ColumnType.parameter_eq_ok_iff.mp hp with
      | null => exact .inl rfl
      | cell _ hcell => exact .inr ⟨_, hcell⟩
  · intro haccepts
    cases hp : (b.setter d).parameter arguments with
    | ok p => exact ⟨p, rfl⟩
    | error e =>
      cases (parameter_eq_error_iff hb).mp hp with
      | missing hlength =>
        obtain ⟨v, hv, -⟩ := haccepts _ rfl
        cases hv.symm.trans (List.getElem?_eq_none_iff.mpr hlength)
      | mismatch hv hne herror =>
        obtain ⟨w, hw, hnull | ⟨cell, hcell⟩⟩ := haccepts _ rfl
        · cases hv.symm.trans hw
          exact absurd hnull hne
        · cases hv.symm.trans hw
          cases hcell.symm.trans herror

/-- Setters that are those of bindings, all of them ready. -/
def Settled (setters : List Setter) (bs : List Binding) : Prop :=
  setters = bs.map (setter d) ∧ ∀ b ∈ bs, b.Ready d

variable {d}

theorem settled_nil : Settled d [] [] :=
  ⟨rfl, fun _ hb => absurd hb List.not_mem_nil⟩

theorem Settled.append {xs ys : List Setter} {bs cs : List Binding} (h : Settled d xs bs)
    (h' : Settled d ys cs) : Settled d (xs ++ ys) (bs ++ cs) := by
  refine ⟨?_, fun b hb => ?_⟩
  · rw [h.1, h'.1, List.map_append]
  · rcases List.mem_append.mp hb with hb | hb
    · exact h.2 b hb
    · exact h'.2 b hb

theorem settled_flatMap {ι : Type} {l : List ι} {f : ι → List Setter} {g : ι → List Binding}
    (h : ∀ i ∈ l, Settled d (f i) (g i)) : Settled d (l.flatMap f) (l.flatMap g) := by
  induction l with
  | nil => exact settled_nil
  | cons i l ih =>
    rw [List.flatMap_cons, List.flatMap_cons]
    exact (h i List.mem_cons_self).append (ih fun j hj => h j (List.mem_cons_of_mem _ hj))

end Binding

/-! ## The setters of a tree -/

namespace Script

/-- The setters of a script, in the order of their placeholders. -/
def setters : Script → List Setter
  | piece p => p.setter?.toList
  | append first second => first.setters ++ second.setters
  | scope _ body | deeper body => body.setters
  | done | reference _ | sourceAlias _ | check _ | checkNested _ | skipRows _ => []

theorem collects_setters : Collects setters where
  done := rfl
  words _ := rfl
  name _ := rfl
  nameText _ := rfl
  skipRows _ := rfl
  append _ _ := rfl

/-- **The setters of a script are those of its output.** -/
theorem setters_of_output_ok {σ : Script} : ∀ {aliases : Aliases} {nested : Bool} {count : Nat}
    {o : Output}, σ.output aliases nested count = .ok o → Piece.setters o.pieces = σ.setters := by
  induction σ with
  | done | skipRows _ => intro _ _ _ _ h; cases h; rfl
  | piece p =>
    intro _ _ _ _ h
    cases h
    cases p <;> rfl
  | reference s | sourceAlias s =>
    intro aliases nested count o h
    obtain ⟨q, -, rfl⟩ := Aliases.map_lookup_eq_ok h
    rfl
  | check e =>
    intro aliases nested count o h
    cases e with
    | error e => cases h
    | ok u => cases h; rfl
  | checkNested e =>
    intro aliases nested count o h
    cases nested with
    | false => cases h; rfl
    | true =>
      cases e with
      | error e => cases h
      | ok u => cases h; rfl
  | append first second ih₁ ih₂ =>
    intro aliases nested count o h
    obtain ⟨a, b, ha, hb, rfl⟩ := output_append_eq_ok h
    rw [setters, ← ih₁ ha, ← ih₂ hb]
    exact List.filterMap_append
  | scope symbols body ih | deeper body ih => intro aliases nested count o h; exact ih h

end Script

namespace Node

open Binding

variable {d : Dialect} {nested : Bool}

/-- What a script that passes sets is what a node binds. -/
def Sets (d : Dialect) (n : Node) (σ : Script) : Prop :=
  ∀ nested, σ.Passes nested → Settled d σ.setters (n.bindings d)

/-- A bound constant is tried before its placeholder is written. -/
theorem settled_literal {c : Literal} (h : (Script.literal d c).Passes nested) :
    Settled d (Script.literal d c).setters (Shape.binding (ν := Node) (.literal c)) := by
  rw [Script.literal] at h ⊢
  rw [Shape.binding]
  by_cases hbind : c.bind = true
  · rw [if_pos hbind] at h ⊢
    rw [if_pos hbind]
    cases hcell : (d.types.column c.kind).toCell c.value with
    | error e =>
      rw [hcell] at h
      exact absurd h (Script.Passes.not_fail e)
    | ok cell =>
      refine ⟨rfl, fun b hb v hv => ?_⟩
      rw [List.mem_singleton.mp hb] at hv ⊢
      cases hv
      exact ⟨cell, hcell⟩
  · rw [if_neg hbind, if_neg hbind]
    split
    · exact settled_nil
    · cases (d.types.column c.kind).inline c.value <;> exact settled_nil

/-- What the instructions of a node itself set is what it binds by itself. -/
theorem settled_own {s : Shape Node} (h : ((mk s).script d).Passes nested) :
    Settled d ((Script.own d s).flatMap Script.setters) s.binding := by
  cases s with
  | literal c =>
    rw [script_literal] at h
    rw [Script.own, List.flatMap_singleton]
    exact settled_literal h
  | parameter index kind =>
    refine ⟨rfl, fun b hb v hv => ?_⟩
    rw [List.mem_singleton.mp hb] at hv
    cases hv
  | apply f arguments =>
    rw [Script.own]
    cases f.capability? arguments.length <;> exact settled_nil
  | _ => exact settled_nil

theorem sets_expression {s : Shape Node} (hquery : ∀ q, s ≠ .query q)
    (h : ∀ n ∈ s.children, n.Sets d (n.script d)) : (mk s).Sets d ((mk s).script d) := by
  intro nested hpasses
  rw [Script.collects_setters.expression d (writable_of_passes hpasses) hquery, bindings_mk]
  refine (settled_own hpasses).append (settled_flatMap fun n hn => ?_)
  have hn : n ∈ s.children := Shape.mem_written.mp hn
  exact h n hn nested (passes_child hquery hpasses hn)

/-- A column of a projection; a whole row binds nothing. -/
theorem sets_item {n : Node} (h : n.Sets d (n.script d)) : n.Sets d (n.item d) := by
  rcases n.item_cases d with ⟨s, rfl, hitem⟩ | hitem
  · rw [hitem, Sets, show (row s).bindings d = [] from bindings_mk d _]
    exact fun _ _ => settled_nil
  · rwa [hitem]

theorem sets_source {n : Node} (h : n.Sets d (n.script d)) :
    n.Sets d (Script.source d (n.rendering d)) := by
  intro nested hpasses
  rcases source_of_passes hpasses with ⟨name, rfl⟩ | ⟨q, rfl, hq⟩
  · rw [show (table name).bindings d = [] from bindings_mk d _]
    exact settled_nil
  · exact h nested hq

end Node

namespace Query

open Binding

variable {d : Dialect}

/-- The clauses of a query that passes, one after the other. -/
theorem settled_body {q : Query} (hnumbers : ¬ d.Numbers q)
    (h : ∀ n ∈ q.children, WithChildren (fun n => n.Sets d (n.script d)) n) {nested : Bool}
    (hpasses : (Script.body d (rendering d q)).Passes nested) :
    Settled d (Script.body d (rendering d q)).setters (bindings d q) := by
  have collects := Script.collects_setters
  have passes := bodyPasses hpasses
  have hselect : Settled d (Script.select (rendering d q)).setters
      (q.projection.toList.flatMap (Node.bindings d)) := by
    cases hp : q.projection with
    | none =>
      rw [collects.select_none d q hp]
      split <;> exact settled_nil
    | some p =>
      rw [collects.select d q hp, Option.toList_some, List.flatMap_singleton,
        ← (Node.enumerates_bindings d).columns Node.ignores_binding]
      exact settled_flatMap fun n hn => Node.sets_item
        ((h p (Clauses.projection_mem_children hp)).column hn) nested (passes.column p hp n hn)
  have hfrom : Settled d (Script.from_ d (rendering d q)).setters
      (q.generators.flatMap fun g => g.source.bindings d) := by
    rw [collects.from_ d q]
    refine settled_flatMap fun g hg => ?_
    rw [show (Script.sourceAlias g.binder).setters = [] from rfl, List.append_nil]
    exact Node.sets_source (h g.source (Clauses.source_mem_children hg)).1 nested
      (passes.source g hg)
  have hfilters : Settled d (Script.filters (rendering d q)).setters
      (q.filters.flatMap (Node.bindings d)) := by
    rw [collects.filters d q]
    exact settled_flatMap fun n hn =>
      (h n (Clauses.filter_mem_children hn)).1 nested (passes.filter n hn)
  have hgroup : Settled d (Script.groupBy (rendering d q)).setters
      (q.groupBy.toList.flatMap (Node.bindings d)) := by
    rw [collects.groupBy d q]
    cases hkey : q.groupBy with
    | none => exact settled_nil
    | some key =>
      rw [Option.toList_some, List.flatMap_singleton,
        ← (Node.enumerates_bindings d).groupKeys Node.ignores_binding]
      exact settled_flatMap fun n hn => (h key (Clauses.groupBy_mem_children hkey)).groupKey hn
        nested (passes.groupKey key hkey n hn)
  have horder : Settled d (Script.orderBy d (rendering d q)).setters
      ((SortKey.written d q.orderBy).flatMap (Node.bindings d)) := by
    rw [collects.orderBy d q]
    refine settled_flatMap fun n hn => ?_
    obtain ⟨k, hk, rfl⟩ := List.mem_map.mp (SortKey.mem_written.mp hn)
    exact (h k.key (Clauses.key_mem_children hk)).1 nested (passes.key k hk)
  rw [collects.body d q, collects.modifiers_of_fail d q fun _ => rfl, List.nil_append,
    bindings_of_not_numbers d hnumbers]
  simp only [List.append_assoc]
  exact hselect.append (hfrom.append (hfilters.append (hgroup.append horder)))

/-- **The setters of a query that passes are those of what it binds**, and its constants have
cells. -/
theorem sets_tree (d : Dialect) :
    (∀ n : Node, n.Sets d (n.script d))
      ∧ ∀ (q : Query) (nested : Bool), (script d q).Passes nested →
          Settled d (script d q).setters (bindings d q) := by
  refine writing_induct d ?_ ?_ ?_ ?_ ?_
  · intro s hquery ih
    exact Node.sets_expression hquery ih
  · intro q ih nested hpasses
    rw [Script.collects_setters.subquery d q, Node.bindings_query]
    refine ih true fun e he => hpasses e ?_
    rwa [(Script.collects_checks nested).subquery d q]
  · intro q hnumbers ih nested hpasses
    rw [script_eq_clauses hnumbers] at hpasses ⊢
    rw [Script.collects_setters.clauses d q (fun _ => rfl) fun _ => rfl]
    have hbody : (Script.body d (rendering d q)).Passes nested :=
      hpasses.of_subset (List.subset_append_right _ _)
    exact settled_body hnumbers ih hbody
  · intro q p hnumbers hp ih nested hpasses
    rw [script_of_numbers hnumbers, hp] at hpasses ⊢
    rw [← bindings_numberRows d hnumbers hp]
    exact ih nested hpasses
  · intro q e hnumbers he nested hpasses
    rw [script_of_numbers hnumbers, he] at hpasses
    exact absurd hpasses (Script.Passes.not_fail e)

/-- The setters of a statement are those of what its query binds, and its constants have cells. -/
theorem settled_compile {q : Query} {s : Statement} (h : q.compile d = .ok s) :
    Settled d s.setters (bindings d q) := by
  rw [compile_eq] at h
  obtain ⟨_, -, h⟩ := bind_eq_ok_iff.mp h
  obtain ⟨o, ho, h⟩ := bind_eq_ok_iff.mp h
  cases h
  change Settled d (Piece.setters o.pieces) _
  rw [Script.setters_of_output_ok ho]
  exact (sets_tree d).2 q false fun e he => Script.check_eq_ok_of_output_ok ho e he

/-- **Binding a compiled statement fails only because of its arguments.**  Its setters are those of
what the query binds, and its constants have cells.  They are bound if each argument that is needed
is there and is null or has a cell of its column type; then there is one parameter for each setter,
which holds the constant or the argument of that setter.  Otherwise the error is that of the first
argument in the order of the text that is refused. -/
theorem parameters_exact {d : Dialect} {q : Query} {s : Statement} (hs : q.compile d = .ok s)
    (arguments : List Value) :
    (s.setters = (bindings d q).map (setter d) ∧ ∀ b ∈ bindings d q, b.Ready d)
    ∧ ((∃ ps, s.parameters arguments = .ok ps) ↔ ∀ b ∈ bindings d q, b.Accepts d arguments)
    ∧ (∀ ps, s.parameters arguments = .ok ps → ps.length = s.setters.length
        ∧ ∀ (k : Nat) (b : Setter), s.setters[k]? = some b →
          ∃ v p, b.source.value? arguments = some v ∧ ps[k]? = some p ∧ b.column.Holds v p)
    ∧ ∀ e, s.parameters arguments = .error e ↔
        ∃ before b after, bindings d q = before ++ b :: after
          ∧ (∀ x ∈ before, x.Accepts d arguments) ∧ Refuses d arguments b e := by
  obtain ⟨hsetters, hready⟩ := settled_compile hs
  have hparameters : s.parameters arguments
      = (bindings d q).mapM fun b => (b.setter d).parameter arguments := by
    rw [s.parameters_eq, hsetters, List.mapM_map]
    rfl
  refine ⟨⟨hsetters, hready⟩, ?_, fun ps hps => ?_, fun e => ?_⟩
  · rw [hparameters, exists_mapM_eq_ok_iff]
    exact forall₂_congr fun b hb => exists_parameter_iff (hready b hb)
  · rw [s.parameters_eq] at hps
    obtain ⟨hlength, hresults⟩ := getElem?_of_mapM hps
    refine ⟨hlength, fun k b hb => ?_⟩
    obtain ⟨p, hp, hparameter⟩ := hresults k b hb
    obtain ⟨v, hv, hholds⟩ := Setter.holds_of_parameter hparameter
    exact ⟨v, p, hv, hp, hholds⟩
  · rw [hparameters, mapM_eq_error_iff]
    refine exists_congr fun before => exists_congr fun b => exists_congr fun after =>
      and_congr_right fun hbindings => ?_
    rw [hbindings] at hready
    rw [parameter_eq_error_iff (hready b (List.mem_append_right _ List.mem_cons_self))]
    exact and_congr_left' (forall₂_congr fun x hx =>
      exists_parameter_iff (hready x (List.mem_append_left _ hx)))

/-- A constant, a null identifier and then an argument that is no truth value. -/
theorem parameters_exact_sqlite :
    let x : Symbol := ⟨0, 0⟩
    let q : Query := {
      generators := [⟨x, .table "users"⟩]
      filters := [.binary .eq (.column x "active") (.bound .boolean (.bool true)),
        .binary .eq (.column x "id") (.parameter 1 .uuid),
        .binary .eq (.column x "admin") (.parameter 0 .boolean)]
      projection := some (.column x "name") }
    ∃ s, q.compile .sqlite = .ok s
      ∧ (∃ ps, s.parameters [.bool false, .null] = .ok ps ∧ ps.length = 3)
      ∧ s.parameters [.int 3, .null] = .error (Value.mismatch .boolean (.int 3)) := by
  intro x q
  cases hs : q.compile Dialect.sqlite with
  | error e => cases hs
  | ok s =>
    have hbindings : bindings .sqlite q = [⟨.boolean, .constant (.bool true)⟩, ⟨.uuid, .argument 1⟩,
        ⟨.boolean, .argument 0⟩] := rfl
    have hconstant : ∀ arguments,
        Accepts .sqlite arguments ⟨.boolean, .constant (.bool true)⟩ := nofun
    have hnull : ∀ v, Accepts .sqlite [v, .null] ⟨.uuid, .argument 1⟩ := by
      rintro v index ⟨⟩
      exact ⟨.null, rfl, .inl rfl⟩
    refine ⟨s, rfl, ?_, ?_⟩
    · obtain ⟨⟨hsetters, -⟩, hok, hps, -⟩ := parameters_exact hs [.bool false, .null]
      have hbool : Accepts .sqlite [.bool false, .null] ⟨.boolean, .argument 0⟩ := by
        rintro index ⟨⟩
        exact ⟨.bool false, rfl, .inr ⟨.int 0, rfl⟩⟩
      rw [hbindings] at hok hsetters
      obtain ⟨ps, h⟩ := hok.mpr (by
        simp only [List.forall_mem_cons]
        exact ⟨hconstant _, hnull _, hbool, List.forall_mem_nil _⟩)
      exact ⟨ps, h, (hps ps h).1.trans (congrArg List.length hsetters)⟩
    · obtain ⟨-, -, -, herror⟩ := parameters_exact hs [.int 3, .null]
      refine (herror _).mpr ⟨[_, _], _, [], hbindings, ?_, .mismatch rfl nofun rfl⟩
      simp only [List.forall_mem_cons]
      exact ⟨hconstant _, hnull _, List.forall_mem_nil _⟩

end Query
end SqlCompiler
