import SqlCompiler.Proofs.Levels
import SqlCompiler.Proofs.Writing

/-!
# Relations that follow the writing

Many facts about what is written for a tree have the same proof: they hold of every instruction by
itself, and pass from two scripts to the one after the other.  This file has that proof once, for a
relation between the script of a tree and that of its *twin*, the tree with other symbols in it;
a fact about one script is the case in which the twin is the tree itself.

The relation may keep account of two things while it goes through a script, its `Place`: whether a
quoted region may begin there, and how many parentheses are open.  `Discipline` says what is asked
of single instructions.  The rest follows, node by node and clause by clause:

* `Shape.relabelLayer`, `Twin` — trees with other symbols in them.
* `Discipline` — relations that follow the writing.
* `Discipline.expression` — the rule for a node that is no query.
* `Discipline.select`, `Discipline.from_`, … — the rules for clauses, and `Discipline.body`.
-/

set_option autoImplicit false
namespace SqlCompiler

open Text

/-! ## Twins -/

/-- A query with other symbols for its generators. -/
def Clauses.relabelLayer {ν : Type} (r : Symbol → Symbol) (q : Clauses ν) : Clauses ν :=
  { q with generators := q.generators.map fun g => ⟨r g.binder, g.source⟩ }

/-- A node with other symbols of its own. -/
def Shape.relabelLayer {ν : Type} (r : Symbol → Symbol) : Shape ν → Shape ν
  | .query q => .query (q.relabelLayer r)
  | .row source => .row (r source)
  | .column source name => .column (r source) name
  | s => s

/-- A map of trees that replaces their symbols and nothing else. -/
def Twin (r : Symbol → Symbol) (t : Node → Node) : Prop :=
  ∀ s, t (.mk s) = .mk ((s.map t).relabelLayer r)

/-- The twin of a query. -/
def Query.twin (r : Symbol → Symbol) (t : Node → Node) (q : Query) : Query :=
  (q.map t).relabelLayer r

/-- A tree is its own twin. -/
theorem Twin.refl : Twin id id := by
  intro s
  rw [Shape.map_id]
  cases s <;> simp [Shape.relabelLayer, Clauses.relabelLayer]

namespace Twin

variable {r : Symbol → Symbol} {t : Node → Node} (ht : Twin r t)
include ht

theorem query (q : Query) : t (.query q) = .query (q.twin r t) :=
  ht (.query q)

theorem shape (n : Node) : (t n).shape = (n.shape.map t).relabelLayer r := by
  obtain ⟨s⟩ := n
  exact congrArg Node.shape (ht s)

theorem shape_rendering (d : Dialect) (n : Node) :
    ((t n).rendering d).shape = (n.shape.map fun m => (t m).rendering d).relabelLayer r := by
  rw [Node.shape_rendering, ht.shape]
  cases n.shape <;>
    simp [Shape.map, Shape.relabelLayer, Clauses.map, Clauses.relabelLayer, Function.comp_def]

/-- The same arguments are refused. -/
theorem checkSubquery (d : Dialect) (f : Function) (arguments : List Node) :
    Script.checkSubquery f (arguments.map fun n => ((t n).rendering d).shape)
      = Script.checkSubquery f (arguments.map fun n => (n.rendering d).shape) := by
  cases f with
  | hasRows =>
    match arguments with
    | [] => rfl
    | [n] | n :: _ :: _ =>
      simp only [List.map_cons, ht.shape_rendering, Node.shape_rendering]
      cases n.shape <;> rfl
  | _ => rfl

end Twin

/-! ## Relations -/

/-- Where a script begins or ends: whether a quoted region may begin there, and the number of open
parentheses. -/
structure Place where
  room : Bool
  level : Nat

/-- A relation between two scripts, with the places where they begin and end, that holds of single
instructions and passes to scripts put together.  Of the user's functions, only those with a
`legal` name need be written. -/
structure Discipline (d : Dialect) (r : Symbol → Symbol) (legal : String → Prop)
    (T : Place → Place → Script → Script → Prop) : Prop where
  done : ∀ a, T a a .done .done
  append : ∀ {a b c σ σ' τ τ'}, T a b σ σ' → T b c τ τ' → T a c (σ ++ τ) (σ' ++ τ')
  /-- Room for a quoted region need not be used. -/
  relax : ∀ {a k σ σ'}, T a ⟨true, k⟩ σ σ' → T a ⟨false, k⟩ σ σ'
  check : ∀ a e, T a a (.check e) (.check e)
  /-- Scripts that fail whatever happens. -/
  fails : ∀ {a b σ σ' e}, (∀ aliases nested count, σ.output aliases nested count = .error e) →
    (∀ aliases nested count, σ'.output aliases nested count = .error e) → T a b σ σ'
  words : ∀ {text room k k'}, IsWord text → climb k text.toList = some k' →
    T ⟨room, k⟩ ⟨true, k'⟩ (.words text) (.words text)
  call : ∀ {name room k}, legal name →
    T ⟨room, k⟩ ⟨true, k + 1⟩ (.words (name ++ "(")) (.words (name ++ "("))
  name : ∀ n k, T ⟨true, k⟩ ⟨false, k⟩ (.name n) (.name n)
  nameText : ∀ n k, T ⟨true, k⟩ ⟨false, k⟩ (.piece (.nameText n)) (.piece (.nameText n))
  literal : ∀ c k, T ⟨true, k⟩ ⟨false, k⟩ (.literal d c) (.literal d c)
  placeholder : ∀ column source k,
    T ⟨true, k⟩ ⟨false, k⟩ (.placeholder column source) (.placeholder column source)
  reference : ∀ s k, T ⟨true, k⟩ ⟨false, k⟩ (.reference s) (.reference (r s))
  sourceAlias : ∀ s k, T ⟨false, k + 1⟩ ⟨false, k + 1⟩ (.sourceAlias s) (.sourceAlias (r s))

namespace Discipline

variable {d : Dialect} {r : Symbol → Symbol} {legal : String → Prop}
  {T : Place → Place → Script → Script → Prop} (h : Discipline d r legal T)
include h

theorem fail (a b : Place) (e : Error) : T a b (.fail e) (.fail e) :=
  h.fails (fun _ _ _ => rfl) fun _ _ _ => rfl

/-- Words with more parentheses around them. -/
theorem word {text : String} {room : Bool} {m m' : Nat} (hword : IsWord text)
    (hclimb : climb m text.toList = some m') (k : Nat) :
    T ⟨room, k + m⟩ ⟨true, k + m'⟩ (.words text) (.words text) :=
  h.words hword (climb_add hclimb k)

theorem flatWord {text : String} {room : Bool} (hword : IsWord text)
    (hclimb : climb 0 text.toList = some 0) (k : Nat) :
    T ⟨room, k⟩ ⟨true, k⟩ (.words text) (.words text) :=
  h.word hword hclimb k

/-- Words inside parentheses, where commas and conjunctions are not exposed. -/
theorem innerWord {text : String} {room : Bool} (hword : IsWord text)
    (hclimb : climb 1 text.toList = some 1) (k : Nat) :
    T ⟨room, k + 1⟩ ⟨true, k + 1⟩ (.words text) (.words text) :=
  h.word hword hclimb k

theorem wordsIfAny {text : String} {room : Bool} {m m' : Nat} (hneutral : Neutral text)
    (hclimb : climb m text.toList = some m') (k : Nat) :
    T ⟨room, k + m⟩ ⟨room, k + m'⟩ (.wordsIfAny text) (.wordsIfAny text) := by
  rw [Script.wordsIfAny]
  split
  · next hempty =>
    have htext : text = "" := String.isEmpty_iff.mp hempty
    rw [htext] at hclimb
    cases hclimb
    exact h.done _
  · next hempty =>
    have hne : text.toList ≠ [] := by
      intro hnil
      exact hempty (String.isEmpty_iff.mpr (String.toList_eq_nil_iff.mp hnil))
    cases room with
    | true => exact h.word ⟨hne, hneutral⟩ hclimb k
    | false => exact h.relax (h.word ⟨hne, hneutral⟩ hclimb k)

/-! ## Lists of scripts -/

section
variable {ι : Type} {l : List ι} {σ τ : ι → Script}

theorem eachAfter {separator : String} {k : Nat} (hword : IsWord separator)
    (hclimb : climb k separator.toList = some k)
    (hl : ∀ i ∈ l, T ⟨true, k⟩ ⟨false, k⟩ (σ i) (τ i)) :
    T ⟨false, k⟩ ⟨false, k⟩ (.eachAfter separator (l.map σ)) (.eachAfter separator (l.map τ)) := by
  induction l with
  | nil => exact h.done _
  | cons i l ih =>
    exact h.append (h.append (h.words hword hclimb) (hl i List.mem_cons_self))
      (ih fun j hj => hl j (List.mem_cons_of_mem _ hj))

theorem separated {separator : String} {k : Nat} (hword : IsWord separator)
    (hclimb : climb k separator.toList = some k)
    (hl : ∀ i ∈ l, T ⟨true, k⟩ ⟨false, k⟩ (σ i) (τ i)) :
    T ⟨true, k⟩ ⟨false, k⟩ (.separated separator (l.map σ)) (.separated separator (l.map τ)) := by
  cases l with
  | nil => exact h.relax (h.done _)
  | cons i l =>
    exact h.append (hl i List.mem_cons_self)
      (h.eachAfter hword hclimb fun j hj => hl j (List.mem_cons_of_mem _ hj))

/-- A list inside parentheses. -/
theorem listed {k : Nat} (hl : ∀ i ∈ l, T ⟨true, k + 1⟩ ⟨false, k + 1⟩ (σ i) (τ i)) :
    T ⟨true, k + 1⟩ ⟨false, k + 1⟩ (.separated ", " (l.map σ)) (.separated ", " (l.map τ)) :=
  h.separated (by decide) (climb_add (show climb 1 ", ".toList = some 1 by decide) k) hl

/-- Arguments with the words of a spelling between them. -/
theorem argumentList (s : Spelling) (inside after k : Nat)
    (hfirst : 2 ≤ l.length → IsWord s.first ∧ climb inside s.first.toList = some after)
    (hnext : 3 ≤ l.length → IsWord s.next ∧ climb after s.next.toList = some after)
    (hl : ∀ i ∈ l, ∀ k, T ⟨true, k⟩ ⟨false, k⟩ (σ i) (τ i)) :
    T ⟨true, k + inside⟩ ⟨false, k + if l.length < 2 then inside else after⟩
      (.argumentList s (l.map σ)) (.argumentList s (l.map τ)) := by
  match l with
  | [] => exact h.relax (h.done _)
  | [i] => exact hl i List.mem_cons_self _
  | i :: j :: rest =>
    obtain ⟨hword, hclimb⟩ := hfirst (Nat.le_add_left 2 rest.length)
    have hj : j ∈ i :: j :: rest := List.mem_cons_of_mem _ List.mem_cons_self
    have hlevel : ¬ (i :: j :: rest).length < 2 := Nat.not_lt.mpr (Nat.le_add_left 2 rest.length)
    rw [if_neg hlevel]
    refine h.append (h.append (h.append (hl i List.mem_cons_self _) (h.word hword hclimb k))
      (hl j hj _)) ?_
    cases rest with
    | nil => exact h.done _
    | cons m rest =>
      obtain ⟨hword, hclimb⟩ := hnext (Nat.le_add_left 3 rest.length)
      exact h.eachAfter hword (climb_add hclimb k) fun m' hm' =>
        hl m' (List.mem_cons_of_mem _ (List.mem_cons_of_mem _ hm')) _

/-- A function of the dialect, applied to as many arguments as it takes. -/
theorem spelled {s : Spelling} {a : Arity} (hs : s.Legible a) (hb : s.isBalanced a = true)
    (hcount : a.accepts l.length = true) (hl : ∀ i ∈ l, ∀ k, T ⟨true, k⟩ ⟨false, k⟩ (σ i) (τ i))
    (room : Bool) (k : Nat) :
    T ⟨room, k⟩ ⟨false, k⟩ (.spelled s (l.map σ)) (.spelled s (l.map τ)) := by
  obtain ⟨hleast, hmost⟩ := Bool.and_eq_true_iff.mp hcount
  have hleast : a.least ≤ l.length := of_decide_eq_true hleast
  have few : ∀ {n : Nat}, a.most.any (· < n) = true → l.length < n := by
    intro n hn
    cases hm : a.most with
    | none => rw [hm] at hn; cases hn
    | some most =>
      rw [hm] at hn hmost
      exact Nat.lt_of_le_of_lt (of_decide_eq_true hmost) (of_decide_eq_true hn)
  obtain ⟨inside, hopening, hb⟩ := (Option.any_eq_true _ _).mp hb
  simp only [Bool.and_eq_true, Bool.or_eq_true, decide_eq_true_eq, beq_iff_eq] at hb
  obtain ⟨hone, hmore⟩ := hb
  by_cases hlength : l.length < 2
  · have hclosing : climb inside s.closing.toList = some 0 := hone.resolve_left (by omega)
    have harguments := h.argumentList s inside inside k
      (fun hl => absurd hl (by omega)) (fun hl => absurd hl (by omega)) hl
    rw [if_pos hlength] at harguments
    exact h.append (h.append (h.word hs.opening hopening k) harguments)
      (h.wordsIfAny hs.closing hclosing k)
  · have hmore := hmore.resolve_left fun hfew => hlength (few hfew)
    obtain ⟨after, hafter, hmore⟩ := (Option.any_eq_true _ _).mp hmore
    simp only [Bool.and_eq_true, Bool.or_eq_true, beq_iff_eq] at hmore
    obtain ⟨hnext, hclosing⟩ := hmore
    have harguments := h.argumentList s inside after k
      (fun _ => ⟨hs.first.resolve_left fun hfew => hlength (few hfew), hafter⟩)
      (fun hl => ⟨hs.next.resolve_left fun hfew => absurd (few hfew) (by omega),
        hnext.resolve_left fun hfew => absurd (few hfew) (by omega)⟩) hl
    rw [if_neg hlength] at harguments
    exact h.append (h.append (h.word hs.opening hopening k) harguments)
      (h.wordsIfAny hs.closing hclosing k)

/-- A function of the user. -/
theorem called {name : String} (hname : legal name)
    (hl : ∀ i ∈ l, ∀ k, T ⟨true, k⟩ ⟨false, k⟩ (σ i) (τ i)) (room : Bool) (k : Nat) :
    T ⟨room, k⟩ ⟨false, k⟩ (.spelled (.call name) (l.map σ)) (.spelled (.call name) (l.map τ)) := by
  have hcomma : IsWord ", " ∧ climb 1 ", ".toList = some 1 := by decide
  have harguments := h.argumentList (.call name) 1 1 k (fun _ => hcomma) (fun _ => hcomma) hl
  rw [ite_self] at harguments
  exact h.append (h.append (h.call hname) harguments)
    (h.wordsIfAny (show Neutral ")" by decide) (show climb 1 ")".toList = some 0 by decide) k)

end

/-! ## Nodes -/

omit h in
/-- The texts around an additional key for nulls. -/
theorem climb_extraKey {keys : NullKeys} {nulls : NullPlacement} {before behind : String}
    (hkey : keys.extraKey? nulls = some (before, behind)) :
    ∃ inside, climb 1 before.toList = some inside ∧ climb inside behind.toList = some 1 := by
  cases keys <;> cases nulls <;> first
    | cases hkey; exact ⟨_, rfl, rfl⟩
    | cases hkey

omit h in
theorem climb_suffix (keys : NullKeys) (nulls : NullPlacement) :
    climb 0 (keys.suffix nulls).toList = some 0 := by
  cases keys <;> cases nulls <;> decide

/-- A relation between the script of a tree, written as an expression, and that of its twin. -/
def Holds (d : Dialect) (t : Node → Node) (T : Place → Place → Script → Script → Prop) (n : Node) :
    Prop :=
  ∀ k, T ⟨true, k⟩ ⟨false, k⟩ (n.script d) ((t n).script d)

variable {t : Node → Node}

/-- An ordering key, once or twice. -/
theorem sortKey {key : SortKey Node} (hkey : Holds d t T key.key) (k : Nat) :
    T ⟨true, k + 1⟩ ⟨false, k + 1⟩ (.sortKey d ⟨key.key.rendering d, key.order⟩)
      (.sortKey d ⟨(t key.key).rendering d, key.order⟩) := by
  have hdirection : T ⟨false, k + 1⟩ ⟨false, k + 1⟩
      (if key.order.isDescending then .words " desc" else .done)
      (if key.order.isDescending then .words " desc" else .done) := by
    split
    · exact h.relax (h.word (by decide) (by decide) k)
    · exact h.done _
  have hsuffix : T ⟨false, k + 1⟩ ⟨false, k + 1⟩
      (.wordsIfAny (d.nullKeys.suffix key.order.nulls))
      (.wordsIfAny (d.nullKeys.suffix key.order.nulls)) :=
    h.wordsIfAny (Script.neutral_suffix _ _) (climb_suffix _ _) (k + 1)
  refine h.append (h.append (h.append ?_ (hkey (k + 1))) hdirection) hsuffix
  dsimp only
  cases hextra : d.nullKeys.extraKey? key.order.nulls with
  | none => exact h.done _
  | some texts =>
    obtain ⟨before, behind⟩ := texts
    obtain ⟨hbefore, hbehind⟩ := Script.isWord_extraKey hextra
    obtain ⟨inside, hopening, hclosing⟩ := climb_extraKey hextra
    exact h.append (h.append (h.word hbefore hopening k) (hkey _)) (h.word hbehind hclosing k)

theorem sortKeys {keys : List (SortKey Node)} (hkeys : ∀ key ∈ keys, Holds d t T key.key)
    (k : Nat) :
    T ⟨true, k + 1⟩ ⟨false, k + 1⟩
      (.sortKeys d (keys.map fun key => ⟨key.key.rendering d, key.order⟩))
      (.sortKeys d (keys.map fun key => ⟨(t key.key).rendering d, key.order⟩)) := by
  rw [Script.sortKeys, Script.sortKeys, List.map_map, List.map_map]
  exact h.listed fun key hkey => h.sortKey (hkeys key hkey) k

/-- The check for what a function demands. -/
theorem demand (demand : Option Capability) (a : Place) :
    T a a (match demand with | some c => .check (d.require c) | none => .done)
      (match demand with | some c => .check (d.require c) | none => .done) := by
  cases demand with
  | some c => exact h.check a _
  | none => exact h.done a

theorem apply (ht : Twin r t) (hd : d.Balanced) {f : Function} {arguments : List Node}
    (hcall : ∀ name, f = .named name → legal name) (hl : ∀ n ∈ arguments, Holds d t T n) (k : Nat) :
    T ⟨true, k⟩ ⟨false, k⟩ (.apply d f (arguments.map (Node.rendering d)))
      (.apply d f (arguments.map fun n => (t n).rendering d)) := by
  rw [Script.apply, Script.apply, List.length_map, List.length_map, List.map_map, List.map_map,
    List.map_map, List.map_map]
  cases harity : f.checkArity arguments.length with
  | error e => exact h.fails (fun _ _ _ => rfl) fun _ _ _ => rfl
  | ok u =>
    have hshapes := ht.checkSubquery d f arguments
    refine h.append (h.append (h.append (h.check _ _) (h.demand _ _)) ?_)
      (?_ : T ⟨true, k⟩ ⟨false, k⟩ _ _)
    · rw [show arguments.map (Rendering.shape ∘ fun n => (t n).rendering d)
        = arguments.map fun n => ((t n).rendering d).shape from rfl, hshapes]
      exact h.check _ _
    -- an application of the user's function is spelled as a call of its name
    by_cases hf : ∃ name, f = .named name
    · obtain ⟨name, rfl⟩ := hf
      rw [hd.legible.named]
      exact h.called (hcall name rfl) hl true k
    · have hf : ∀ name, f ≠ .named name := fun name hname => hf ⟨name, hname⟩
      have haccepts : f.arity.accepts arguments.length = true := by
        rw [Function.checkArity] at harity
        split at harity
        · assumption
        · cases harity
      exact h.spelled (hd.legible.spelling f hf) (hd.spelling f hf) haccepts hl true k

/-- The last branch of a conditional. -/
theorem otherwise (hd : d.Balanced) (otherwise : Option Node)
    (hl : ∀ n, otherwise = some n → Holds d t T n) (k : Nat) :
    T ⟨false, k + 1⟩ ⟨false, k + 1⟩
      (match otherwise.map (Node.rendering d) with
        | some r => .words d.conditional.otherwise ++ r.script
        | none => .done)
      (match otherwise.map fun n => (t n).rendering d with
        | some r => .words d.conditional.otherwise ++ r.script
        | none => .done) := by
  obtain ⟨-, hclimb⟩ := Bool.and_eq_true_iff.mp (Bool.and_eq_true_iff.mp hd.conditional).1
  cases otherwise with
  | none => exact h.done _
  | some n =>
    exact h.append (h.word hd.legible.conditional.otherwise (beq_iff_eq.mp hclimb) k)
      (hl n rfl (k + 1))

theorem conditional (hd : d.Balanced) {branches : List (Branch Node)} {otherwise : Option Node}
    (hl : ∀ n ∈ (Shape.cases branches otherwise).children, Holds d t T n) (k : Nat) :
    T ⟨true, k⟩ ⟨false, k⟩
      (.conditional d (branches.map fun b => ⟨b.condition.rendering d, b.value.rendering d⟩)
        (otherwise.map (Node.rendering d)))
      (.conditional d
        (branches.map fun b => ⟨(t b.condition).rendering d, (t b.value).rendering d⟩)
        (otherwise.map fun n => (t n).rendering d)) := by
  obtain ⟨wopening, wfirst, wnext, wvalue, -, wclosing⟩ := hd.legible.conditional
  have hbalanced := hd.conditional
  simp only [Conditional.isBalanced, Bool.and_eq_true, beq_iff_eq] at hbalanced
  obtain ⟨⟨⟨⟨⟨hopening, hfirst⟩, hnext⟩, hvalue⟩, -⟩, hclosing⟩ := hbalanced
  have hbranch : ∀ b ∈ branches, T ⟨true, k + 1⟩ ⟨false, k + 1⟩
      (.branch d ⟨b.condition.rendering d, b.value.rendering d⟩)
      (.branch d ⟨(t b.condition).rendering d, (t b.value).rendering d⟩) := by
    intro b hb
    have hmem : ∀ n ∈ [b.condition, b.value], n ∈ (Shape.cases branches otherwise).children :=
      fun n hn => List.mem_append_left _ (List.mem_flatMap.mpr ⟨b, hb, hn⟩)
    have hcondition := hl b.condition (hmem _ List.mem_cons_self)
    have hresult := hl b.value (hmem _ (List.mem_cons_of_mem _ List.mem_cons_self))
    exact h.append (h.append (hcondition _) (h.word wvalue hvalue k)) (hresult _)
  have helse := h.otherwise hd otherwise (fun n hn =>
    hl n (List.mem_append_right _ (Option.mem_toList.mpr hn))) k
  rw [Script.conditional.eq_def, Script.conditional.eq_def, List.isEmpty_map, List.isEmpty_map]
  split
  · exact h.fail _ _ _
  · rw [List.map_map, List.map_map]
    refine h.relax (h.append (h.append (h.append (h.append (h.word wopening hopening k)
      (h.wordsIfAny wfirst hfirst k)) ?_) helse) (h.word wclosing hclosing k))
    exact h.separated wnext (climb_add hnext k) hbranch

theorem rowNumber {keys : List (SortKey Node)} (hkeys : ∀ key ∈ keys, Holds d t T key.key)
    (k : Nat) :
    T ⟨true, k⟩ ⟨false, k⟩
      (.rowNumber d (keys.map fun key => ⟨key.key.rendering d, key.order⟩))
      (.rowNumber d (keys.map fun key => ⟨(t key.key).rendering d, key.order⟩)) := by
  have hlist : T ⟨true, k + 1⟩ ⟨false, k + 1⟩
      (if (keys.map fun key => (⟨key.key.rendering d, key.order⟩ : SortKey Rendering)).isEmpty then
        .words "(select 1)"
      else .sortKeys d (keys.map fun key => ⟨key.key.rendering d, key.order⟩))
      (if (keys.map fun key => (⟨(t key.key).rendering d, key.order⟩ : SortKey Rendering)).isEmpty
        then .words "(select 1)"
      else .sortKeys d (keys.map fun key => ⟨(t key.key).rendering d, key.order⟩)) := by
    cases keys with
    | nil => exact h.relax (h.word (by decide) (by decide) k)
    | cons key keys => exact h.sortKeys hkeys k
  rw [Script.rowNumber, Script.rowNumber]
  split
  · exact h.relax (h.append (h.append (h.word (by decide) (show climb 0 _ = some 1 by decide) k)
      hlist) (h.word (by decide) (show climb 1 _ = some 0 by decide) k))
  · exact h.fail _ _ _

theorem sequenceCall (hd : d.Balanced) {opening : String} (hword : IsWord opening)
    (hclimb : climb 0 opening.toList = some 1) (sequence : String) (k : Nat) :
    T ⟨true, k⟩ ⟨false, k⟩ (.sequenceCall d opening sequence)
      (.sequenceCall d opening sequence) := by
  have hname : T ⟨true, k + 1⟩ ⟨false, k + 1⟩
      (.piece (if d.sequences.asText then .nameText sequence else .name sequence))
      (.piece (if d.sequences.asText then .nameText sequence else .name sequence)) := by
    split
    · exact h.nameText sequence _
    · exact h.name sequence _
  exact h.relax (h.append (h.append (h.word hword hclimb k) hname)
    (h.word hd.legible.closing hd.closing k))

/-- **The rule for a node that is no query.** -/
theorem expression (ht : Twin r t) (hd : d.Balanced) {s : Shape Node} (hquery : ∀ q, s ≠ .query q)
    (hcall : ∀ name ∈ s.call, legal name) (hl : ∀ n ∈ s.children, Holds d t T n) :
    Holds d t T (.mk s) := by
  intro k
  rw [ht s]
  cases s with
  | query q => exact absurd rfl (hquery q)
  | table _ | row _ | product _ | record _ =>
    rw [Node.script_refused d (by simp),
      Node.script_refused d (by simp [Shape.relabelLayer, Shape.map])]
    exact h.fail _ _ _
  | column source name =>
    have htwin : (Node.mk (((Shape.column source name).map t).relabelLayer r)).script d
        = .reference (r source) ++ Script.words "." ++ Script.name name := Node.script_column d _ _
    rw [Node.script_column, htwin]
    exact h.append (h.append (h.reference source k) (h.flatWord (by decide) (by decide) k))
      (h.name name k)
  | literal c => exact h.literal c k
  | parameter index kind => exact h.placeholder _ _ k
  | apply f arguments =>
    have htwin : (Node.mk (((Shape.apply f arguments).map t).relabelLayer r)).script d
        = .apply d f (arguments.map fun n => (t n).rendering d) := by
      refine (Node.script_apply d f (arguments.map t)).trans ?_
      rw [List.map_map]
      rfl
    rw [Node.script_apply, htwin]
    refine h.apply ht hd (fun name hf => ?_) hl k
    subst hf
    exact hcall name List.mem_cons_self
  | cases branches otherwise =>
    have htwin : (Node.mk (((Shape.cases branches otherwise).map t).relabelLayer r)).script d
        = .conditional d
            (branches.map fun b => ⟨(t b.condition).rendering d, (t b.value).rendering d⟩)
            (otherwise.map fun n => (t n).rendering d) := by
      refine (Node.script_cases d _ _).trans ?_
      rw [List.map_map, Option.map_map]
      rfl
    rw [Node.script_cases, htwin]
    exact h.conditional hd hl k
  | rowNumber keys =>
    have htwin : (Node.mk (((Shape.rowNumber keys).map t).relabelLayer r)).script d
        = .rowNumber d (keys.map fun key => ⟨(t key.key).rendering d, key.order⟩) := by
      refine (Node.script_rowNumber d _).trans ?_
      rw [List.map_map]
      rfl
    rw [Node.script_rowNumber, htwin]
    exact h.rowNumber (fun key hkey => hl key.key (List.mem_map_of_mem hkey)) k
  | nextValue sequence =>
    exact h.append (h.check _ _) (h.sequenceCall hd hd.legible.next hd.next sequence k)
  | currentValue sequence =>
    exact h.append (h.append (h.check _ _) (h.check _ _))
      (h.sequenceCall hd hd.legible.current hd.current sequence k)

/-! ## Clauses

The rules are about clauses inside parentheses, where commas and conjunctions do not count. -/

theorem item {n : Node} (ht : Twin r t) (hn : Holds d t T n) (k : Nat) :
    T ⟨true, k⟩ ⟨false, k⟩ (n.item d) ((t n).item d) := by
  obtain ⟨s⟩ := n
  cases s with
  | row source =>
    rw [ht]
    exact h.relax (h.append (h.reference source k) (h.flatWord (by decide) (by decide) k))
  | _ =>
    rw [Node.item, Node.item, Script.item, Script.item, ht.shape_rendering, Node.shape_rendering]
    exact hn k

theorem field {c : Field Node} {k : Nat} (ht : Twin r t) (hc : Holds d t T c.value)
    (has : T ⟨false, k⟩ ⟨true, k⟩ (.words " as ") (.words " as ")) :
    T ⟨true, k⟩ ⟨false, k⟩ (.field ⟨c.name, c.value.rendering d⟩)
      (.field ⟨c.name, (t c.value).rendering d⟩) := by
  have hrow : ((t c.value).rendering d).shape.isRow = (c.value.rendering d).shape.isRow := by
    rw [ht.shape_rendering, Node.shape_rendering]
    cases c.value.shape <;> rfl
  rw [Script.field, Script.field, hrow]
  refine h.append (h.item ht hc k) ?_
  split
  · exact h.done _
  · exact h.append has (h.name c.name k)

theorem select {q : Query} (ht : Twin r t)
    (hp : ∀ n, q.projection = some n → Query.WithChildren (Holds d t T) n) (k : Nat) :
    T ⟨true, k + 1⟩ ⟨false, k + 1⟩ (.select (Query.rendering d q))
      (.select (Query.rendering d (q.twin r t))) := by
  have hgenerators : (Query.rendering d (q.twin r t)).generators.length
      = (Query.rendering d q).generators.length := by
    simp [Query.rendering, Query.twin, Clauses.map, Clauses.relabelLayer]
  have hprojection : (Query.rendering d (q.twin r t)).projection
      = q.projection.map fun n => (t n).rendering d := by
    simp [Query.rendering, Query.twin, Clauses.map, Clauses.relabelLayer, Function.comp_def]
  rw [Script.select, Script.select, hprojection, hgenerators,
    show (Query.rendering d q).projection = q.projection.map (Node.rendering d) from rfl]
  cases hq : q.projection with
  | none =>
    dsimp only [Option.map_none]
    split
    · exact h.relax (h.flatWord (by decide) (by decide) _)
    · exact h.fail _ _ _
  | some p =>
    obtain ⟨hself, hchildren⟩ := hp p hq
    obtain ⟨s⟩ := p
    dsimp only [Option.map_some]
    rw [ht.shape_rendering, Node.shape_rendering]
    cases s with
    | record fields =>
      dsimp only [Node.shape, Shape.map, Shape.relabelLayer]
      rw [List.map_map, List.map_map]
      exact h.listed fun c hc => h.field ht (hchildren c.value (List.mem_map_of_mem hc))
        (h.innerWord (by decide) (by decide) k)
    | product items =>
      dsimp only [Node.shape, Shape.map, Shape.relabelLayer]
      rw [List.map_map, List.map_map]
      exact h.listed fun n hn => h.item ht (hchildren n hn) _
    | _ => exact h.item ht hself _

theorem source {n : Node} (ht : Twin r t) (hn : Holds d t T n) (k : Nat) :
    T ⟨true, k⟩ ⟨false, k⟩ (.source d (n.rendering d)) (.source d ((t n).rendering d)) := by
  obtain ⟨s⟩ := n
  rw [Script.source, Script.source, ht.shape_rendering, Node.shape_rendering]
  cases s with
  | table name => exact h.name name k
  | query q => exact hn k
  | _ => exact h.fail _ _ _

theorem from_ {q : Query} (ht : Twin r t) (hd : d.Balanced)
    (hg : ∀ g ∈ q.generators, Holds d t T g.source) (k : Nat) :
    T ⟨false, k + 1⟩ ⟨false, k + 1⟩ (.from_ d (Query.rendering d q))
      (.from_ d (Query.rendering d (q.twin r t))) := by
  have hgenerators : (Query.rendering d (q.twin r t)).generators
      = q.generators.map fun g => ⟨r g.binder, (t g.source).rendering d⟩ := by
    simp [Query.rendering, Query.twin, Clauses.map, Clauses.relabelLayer]
  rw [Script.from_, Script.from_, hgenerators,
    show (Query.rendering d q).generators
      = q.generators.map fun g => ⟨g.binder, g.source.rendering d⟩ from rfl]
  cases hgs : q.generators with
  | nil => exact h.wordsIfAny hd.legible.emptyFrom hd.emptyFrom k
  | cons g gs =>
    rw [hgs] at hg
    refine h.append (h.innerWord (by decide) (by decide) k) ?_
    rw [List.map_map, List.map_map]
    exact h.listed fun g' hg' => h.append (h.source ht (hg g' hg') _) (h.sourceAlias g'.binder _)

theorem filters {q : Query} (hf : ∀ n ∈ q.filters, Holds d t T n) (k : Nat) :
    T ⟨false, k + 1⟩ ⟨false, k + 1⟩ (.filters (Query.rendering d q))
      (.filters (Query.rendering d (q.twin r t))) := by
  rw [Script.filters, Script.filters,
    show (Query.rendering d q).filters = q.filters.map (Node.rendering d) from rfl,
    show (Query.rendering d (q.twin r t)).filters = (q.filters.map t).map (Node.rendering d)
      from rfl]
  cases hfs : q.filters with
  | nil => exact h.done _
  | cons n ns =>
    rw [hfs] at hf
    refine h.append (h.innerWord (by decide) (by decide) k) ?_
    rw [List.map_map, List.map_map, List.map_map]
    exact h.separated (by decide) (climb_add (show climb 1 " and ".toList = some 1 by decide) k)
      fun m hm => hf m hm (k + 1)

theorem groupBy {q : Query} (ht : Twin r t)
    (hg : ∀ n, q.groupBy = some n → Query.WithChildren (Holds d t T) n) (k : Nat) :
    T ⟨false, k + 1⟩ ⟨false, k + 1⟩ (.groupBy (Query.rendering d q))
      (.groupBy (Query.rendering d (q.twin r t))) := by
  rw [Script.groupBy, Script.groupBy,
    show (Query.rendering d q).groupBy = q.groupBy.map (Node.rendering d) from rfl,
    show (Query.rendering d (q.twin r t)).groupBy = (q.groupBy.map t).map (Node.rendering d)
      from rfl]
  cases hq : q.groupBy with
  | none => exact h.done _
  | some key =>
    obtain ⟨hself, hchildren⟩ := hg key hq
    refine h.append (h.innerWord (by decide) (by decide) k) ?_
    obtain ⟨s⟩ := key
    rw [ht.shape_rendering, Node.shape_rendering]
    cases s with
    | product items =>
      dsimp only [Node.shape, Shape.map, Shape.relabelLayer]
      rw [List.map_map, List.map_map]
      exact h.listed fun n hn => hchildren n hn _
    | _ => exact hself _

theorem orderBy {q : Query} (hk : ∀ key ∈ q.orderBy, Holds d t T key.key) (k : Nat) :
    T ⟨false, k + 1⟩ ⟨false, k + 1⟩ (.orderBy d (Query.rendering d q))
      (.orderBy d (Query.rendering d (q.twin r t))) := by
  have horder : (Query.rendering d (q.twin r t)).orderBy
      = q.orderBy.map fun key => ⟨(t key.key).rendering d, key.order⟩ := by
    simp [Query.rendering, Query.twin, Clauses.map, Clauses.relabelLayer]
  rw [Script.orderBy, Script.orderBy, horder,
    show (Query.rendering d q).orderBy
      = q.orderBy.map fun key => ⟨key.key.rendering d, key.order⟩ from rfl]
  cases hks : q.orderBy with
  | nil => exact h.done _
  | cons key keys =>
    rw [hks] at hk
    exact h.append (h.innerWord (by decide) (by decide) k) (h.sortKeys hk k)

/-- The part before the projection, if rows may be left to the caller to skip. -/
theorem modifiers {q : Query} (hskip : ∀ n a, T a a (.skipRows n) (.skipRows n)) (k : Nat) :
    T ⟨true, k + 1⟩ ⟨true, k + 1⟩ (.modifiers d (Query.rendering d q))
      (.modifiers d (Query.rendering d (q.twin r t))) := by
  have htop : ∀ n : Nat, T ⟨true, k + 1⟩ ⟨true, k + 1⟩ (.words ("top " ++ toString n ++ " "))
      (.words ("top " ++ toString n ++ " ")) := by
    intro n
    have hbare : Bare ("top " ++ toString n ++ " ") :=
      bare_append (bare_append (by decide) (solid_toString n).bare) (by decide)
    exact h.words (Script.isWord_top n) (climb_bare hbare k)
  change T _ _ _ (.modifiers d (Query.rendering d q))
  rw [Script.modifiers]
  split
  · dsimp only
    cases Script.topRows _ _ with
    | error e => exact h.fail _ _ _
    | ok rows =>
      refine h.append (htop rows) ?_
      split
      · exact hskip _ _
      · exact h.done _
  · split
    · exact htop _
    · exact h.done _
  · exact h.done _

theorem paging {q : Query} (hd : d.Balanced) (k : Nat) :
    T ⟨false, k + 1⟩ ⟨false, k + 1⟩ (.paging d (Query.rendering d q))
      (.paging d (Query.rendering d (q.twin r t))) := by
  have hwords : ∀ text ∈ Script.pagingWords, Bare text := by decide
  have hbare : Bare (Script.pagingText d.paging (q.fetch.map UInt64.toNat)
      (q.offset.map UInt64.toNat)) :=
    Script.forall_mem_pagingText (fun n => (solid_toString n).bare) hwords hd.unbounded _ _
  exact h.wordsIfAny hbare.neutral (climb_bare hbare 0) k

/-- **The rule for the clauses of a query.** -/
theorem body {q : Query} (ht : Twin r t) (hd : d.Balanced)
    (hskip : ∀ n a, T a a (.skipRows n) (.skipRows n))
    (hq : ∀ n ∈ q.children, Query.WithChildren (Holds d t T) n) (k : Nat) :
    T ⟨true, k + 1⟩ ⟨false, k + 1⟩ (.body d (Query.rendering d q))
      (.body d (Query.rendering d (q.twin r t))) := by
  have hselect := h.select ht (fun n hn => hq n (Clauses.projection_mem_children hn)) k
  have hfrom := h.from_ ht hd (fun g hg => (hq g.source (Clauses.source_mem_children hg)).1) k
  have hfilters := h.filters (fun n hn => (hq n (Clauses.filter_mem_children hn)).1) k
  have hgroup := h.groupBy ht (fun n hn => hq n (Clauses.groupBy_mem_children hn)) k
  have horder := h.orderBy (fun key hk => (hq key.key (Clauses.key_mem_children hk)).1) k
  have hword : T ⟨true, k + 1⟩ ⟨true, k + 1⟩ (.words "select ") (.words "select ") :=
    h.innerWord (by decide) (by decide) k
  exact h.append (h.append (h.append (h.append (h.append (h.append (h.append hword
    (h.modifiers hskip _)) hselect) hfrom) hfilters) hgroup) horder) (h.paging hd _)

end Discipline
end SqlCompiler
