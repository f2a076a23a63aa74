import SqlCompiler.Proofs.Discipline
import SqlCompiler.Proofs.Sections

/-!
# What a statement exposes

Whoever takes a statement apart again, into the columns of a list or into the conditions of a
filter, looks at what stands outside quoted regions and outside parentheses.  Expressions are
written so that this is little: an operator stands in parentheses, and what a function or a
subquery has in it too.  This file follows, script by script, what of a text is exposed, for any
property `P` that calm characters have and that passes to texts put together.

* `Text.Exposes` — texts that lead from one place to another and expose what `P` says.
* `Aliases.Inert`, `Text.Callable` — the aliases and the names of functions that may be written.
* `Script.Shows` — scripts that write such a text.
* `Script.shows_tree` — whatever is written for a tree is one.
-/

set_option autoImplicit false
namespace SqlCompiler
namespace Text

/-! ## Texts -/

/-- A text that leads from the place `a` to the place `b`, whatever is written after it, and exposes
characters of which `P` holds. -/
structure Exposes (names : Quote) (P : List Char → Prop) (a b : Place) (cs : List Char) : Prop where
  /-- It does not go on with a quoted region right before it. -/
  front : a.room = false → ∀ rest, (b.room = false → Separated names rest) →
    Separated names (cs ++ rest)
  /-- What stands behind it is read as if it stood alone. -/
  apart : ∀ rest, (b.room = false → Separated names rest) →
    marked names none (cs ++ rest) = marked names none cs ++ marked names none rest
  levels : rise a.level (outside names cs) = some b.level
  shows : P (exposed a.level (outside names cs))

variable {names : Quote} {P Q R : List Char → Prop} {a b c : Place} {cs ds : List Char}

/-- The marks of a text, and what they show. -/
theorem Exposes.of_marks {ms : List (Char × Bool)}
    (hfront : a.room = false → ∀ rest, (b.room = false → Separated names rest) →
      Separated names (cs ++ rest))
    (hmarked : ∀ rest, (b.room = false → Separated names rest) →
      marked names none (cs ++ rest) = ms ++ marked names none rest)
    (hrise : rise a.level (shown ms) = some b.level) (hP : P (exposed a.level (shown ms))) :
    Exposes names P a b cs := by
  have hmarks : marked names none cs = ms := by
    simpa [marked] using hmarked [] fun _ => separated_nil names
  have hshown : outside names cs = shown ms := by
    rw [outside_eq_shown, hmarks]
  refine ⟨hfront, fun rest hrest => ?_, ?_, ?_⟩
  · rw [hmarked rest hrest, hmarks]
  · rwa [hshown]
  · rwa [hshown]

theorem Exposes.append (hP : ∀ x y, P x → Q y → R (x ++ y)) (hcs : Exposes names P a b cs)
    (hds : Exposes names Q b c ds) : Exposes names R a c (cs ++ ds) := by
  have hseparated : b.room = false → Separated names ds := by
    intro hb
    simpa using hds.front hb [] fun _ => separated_nil names
  have hshown : outside names (cs ++ ds) = outside names cs ++ outside names ds := by
    rw [outside_eq_shown, hcs.apart ds hseparated, shown_append, ← outside_eq_shown,
      ← outside_eq_shown]
  refine ⟨fun ha rest hrest => ?_, fun rest hrest => ?_, ?_, ?_⟩
  · rw [List.append_assoc]
    exact hcs.front ha _ fun hb => hds.front hb rest hrest
  · rw [List.append_assoc, hcs.apart _ fun hb => hds.front hb rest hrest, hds.apart rest hrest,
      hcs.apart ds hseparated, List.append_assoc]
  · rw [hshown]
    exact rise_append hcs.levels hds.levels
  · rw [hshown, exposed_append hcs.levels]
    exact hP _ _ hcs.shows hds.shows

theorem exposes_nil (hP : P []) (a : Place) : Exposes names P a a [] :=
  ⟨fun ha _ hrest => hrest ha, fun _ _ => rfl, rfl, hP⟩

/-- Room for a quoted region need not be used. -/
theorem Exposes.relax {k : Nat} (h : Exposes names P a ⟨true, k⟩ cs) :
    Exposes names P a ⟨false, k⟩ cs :=
  ⟨fun ha rest _ => h.front ha rest nofun, fun rest _ => h.apart rest nofun, h.levels, h.shows⟩

/-- A text without quotation marks. -/
theorem exposes_unquoted {room : Bool} {k k' : Nat} (hne : cs ≠ [])
    (hplain : ∀ c ∈ cs, ¬ names.Delimits c) (hrise : rise k cs = some k') (hP : P (exposed k cs)) :
    Exposes names P ⟨room, k⟩ ⟨true, k'⟩ cs := by
  refine .of_marks (fun _ rest _ => separated_append hplain hne rest)
    (fun rest _ => marked_append hplain rest) ?_ ?_ <;> rwa [shown_map, if_pos rfl]

section
variable (hcalm : ∀ cs, isCalm cs = true → P cs)
include hcalm

/-- A text of the language. -/
theorem exposes_climb {room : Bool} {k k' : Nat} (hne : cs ≠ [])
    (hplain : ∀ c ∈ cs, ¬ names.Delimits c) (hclimb : climb k cs = some k') :
    Exposes names P ⟨room, k⟩ ⟨true, k'⟩ cs := by
  obtain ⟨hexposed, hrise⟩ := climb_eq_some_iff.mp hclimb
  exact exposes_unquoted hne hplain hrise (hcalm _ hexposed)

theorem exposes_inert (h : Inert names cs) (k : Nat) :
    Exposes names P ⟨true, k⟩ ⟨false, k⟩ cs := by
  obtain ⟨ms, hbare, hshown, hmarked⟩ := h
  have hflat := flat_of_bare hbare
  refine .of_marks nofun (fun rest hrest => hmarked rest (hrest rfl)) (rise_flat hflat k)
    (hcalm _ ?_)
  rw [exposed_flat hflat]
  split
  · exact hshown
  · rfl

end

/-! ## Names -/

/-- The name of a function without quotation marks, parentheses and commas. -/
def Callable (names : Quote) (name : String) : Prop :=
  ∀ c ∈ name.toList, ¬ names.Delimits c ∧ c ≠ '(' ∧ c ≠ ')' ∧ c ≠ ','

instance (names : Quote) (c : Char) : Decidable (names.Delimits c) :=
  inferInstanceAs (Decidable (_ ∨ _))

instance (names : Quote) (name : String) : Decidable (Callable names name) :=
  List.decidableBAll (fun c => ¬ names.Delimits c ∧ c ≠ '(' ∧ c ≠ ')' ∧ c ≠ ',') name.toList

theorem inert_numbered (hn : names.Known) (n : Nat) :
    Inert names ((Qualifier.numbered n).text names).toList :=
  inert_solid hn (solid_append (by decide) (solid_toString n))

end Text

open Text

/-- Aliases with texts that the scanner gets over. -/
def Aliases.Inert (names : Quote) (aliases : Aliases) : Prop :=
  ∀ s q, aliases s = some q → Text.Inert names (q.text names).toList

theorem Aliases.Inert.bind {names : Quote} (hn : names.Known) {aliases : Aliases}
    (h : aliases.Inert names) (count : Nat) (symbols : List Symbol) :
    (aliases.bind count symbols).Inert names := by
  intro s q hq
  by_cases hs : s ∈ symbols
  · obtain ⟨n, -, hn'⟩ := Aliases.bind_of_mem hs aliases count
    cases hn'.symm.trans hq
    exact inert_numbered hn n
  · rw [Aliases.bind_of_not_mem hs] at hq
    exact h s q hq

namespace Script

/-! ## Scripts -/

/-- A script that writes a text from the place `a` to the place `b`, and exposes characters of which
`P` holds. -/
def Shows (d : Dialect) (P : List Char → Prop) (a b : Place) (σ : Script) : Prop :=
  ∀ ⦃aliases : Aliases⦄ ⦃nested : Bool⦄ ⦃count : Nat⦄ ⦃o : Output⦄,
    aliases.Inert d.quote → σ.output aliases nested count = .ok o →
      Exposes d.quote P a b (Piece.joined d.quote o.pieces).toList

variable {d : Dialect} {P Q R : List Char → Prop} {a b c : Place}

theorem Shows.append (hP : ∀ x y, P x → Q y → R (x ++ y)) {σ τ : Script} (hσ : Shows d P a b σ)
    (hτ : Shows d Q b c τ) : Shows d R a c (σ ++ τ) := by
  intro aliases nested count o ha ho
  obtain ⟨x, y, hx, hy, rfl⟩ := output_append_eq_ok ho
  rw [Output.append, Piece.joined_append, String.toList_append]
  exact (hσ ha hx).append hP (hτ ha hy)

theorem Shows.relax {σ : Script} {k : Nat} (h : Shows d P a ⟨true, k⟩ σ) :
    Shows d P a ⟨false, k⟩ σ :=
  fun _ _ _ _ ha ho => (h ha ho).relax

theorem Shows.scope (hd : d.quote.Known) {symbols : List Symbol} {body : Script}
    (h : Shows d P a b body) : Shows d P a b (scope symbols body) :=
  fun _ _ count _ ha ho => h (ha.bind hd count symbols) ho

theorem Shows.deeper {body : Script} (h : Shows d P a b body) : Shows d P a b (deeper body) :=
  fun _ _ _ _ ha ho => h ha ho

/-- A script that writes nothing. -/
theorem shows_nothing {σ : Script} (hP : P []) (h : ∀ aliases nested count o,
    σ.output aliases nested count = .ok o → o.pieces = []) (a : Place) : Shows d P a a σ := by
  intro aliases nested count o _ ho
  rw [h aliases nested count o ho]
  exact exposes_nil hP a

theorem shows_fail (e : Error) : Shows d P a b (fail e) := by
  intro aliases nested count o _ ho
  cases ho

theorem shows_piece {p : Piece} (h : Exposes d.quote P a b (p.text d.quote).toList) :
    Shows d P a b (piece p) := by
  intro aliases nested count o _ ho
  cases ho
  rwa [Piece.joined_singleton]

/-- Words without quotation marks. -/
theorem shows_unquoted {text : String} {room : Bool} {k k' : Nat} (hne : text.toList ≠ [])
    (hplain : ∀ c ∈ text.toList, ¬ d.quote.Delimits c) (hrise : rise k text.toList = some k')
    (hP : P (exposed k text.toList)) : Shows d P ⟨room, k⟩ ⟨true, k'⟩ (words text) :=
  shows_piece (exposes_unquoted hne hplain hrise hP)

section
variable (hcalm : ∀ cs, isCalm cs = true → P cs) (hd : d.quote.Known)
include hcalm hd

theorem shows_word {text : String} {room : Bool} {k k' : Nat} (hword : IsWord text)
    (hclimb : climb k text.toList = some k') : Shows d P ⟨room, k⟩ ⟨true, k'⟩ (words text) :=
  shows_piece (exposes_climb hcalm hword.1 (hword.2.unquoted hd) hclimb)

/-- A function of the user, with its opening parenthesis. -/
theorem shows_call {name : String} {room : Bool} {k : Nat} (hname : Callable d.quote name)
    (hP : P name.toList) : Shows d P ⟨room, k⟩ ⟨true, k + 1⟩ (words (name ++ "(")) := by
  have hopening : ∀ c ∈ "(".toList, ¬ d.quote.Delimits c := Neutral.unquoted hd (by decide)
  have hflat : ∀ c ∈ name.toList, c ≠ '(' ∧ c ≠ ')' :=
    fun c hc => ⟨(hname c hc).2.1, (hname c hc).2.2.1⟩
  have hrise := rise_flat hflat k
  refine shows_unquoted ?_ (forall_mem_append (fun c hc => (hname c hc).1) hopening) ?_ ?_
  · rw [String.toList_append]
    exact List.append_ne_nil_of_right_ne_nil _ (by decide)
  · rw [String.toList_append]
    exact rise_append hrise rfl
  · rw [String.toList_append, exposed_append hrise, exposed_flat hflat,
      show exposed k "(".toList = [] from rfl, List.append_nil]
    -- the name is exposed only where no parenthesis is open
    split
    · exact hP
    · exact hcalm [] rfl

omit hd in
theorem shows_inert {p : Piece} (h : Inert d.quote (p.text d.quote).toList) (k : Nat) :
    Shows d P ⟨true, k⟩ ⟨false, k⟩ (piece p) :=
  shows_piece (exposes_inert hcalm h k)

theorem shows_name (n : String) (k : Nat) : Shows d P ⟨true, k⟩ ⟨false, k⟩ (name n) := by
  refine shows_inert hcalm ?_ k
  rw [Piece.text]
  exact inert_write (.inr rfl) hd n

theorem shows_nameText (n : String) (k : Nat) :
    Shows d P ⟨true, k⟩ ⟨false, k⟩ (piece (.nameText n)) := by
  refine shows_inert hcalm ?_ k
  rw [Piece.text, Value.quoteText]
  exact inert_write (.inl rfl) hd _

theorem shows_placeholder (column : ColumnType) (source : Source) (k : Nat) :
    Shows d P ⟨true, k⟩ ⟨false, k⟩ (placeholder column source) := by
  have hmark : ∀ c ∈ "?".toList, ¬ d.quote.Delimits c := by
    intro c hc
    rw [List.mem_singleton.mp hc]
    exact hd.proper.placeholder
  have hlevel : climb k "?".toList = some k :=
    climb_add (show climb 0 "?".toList = some 0 by decide) k
  have hne : "?".toList ≠ [] := by decide
  exact Shows.relax (shows_piece (exposes_climb hcalm hne hmark hlevel))

theorem shows_literal (c : Literal) (k : Nat) :
    Shows d P ⟨true, k⟩ ⟨false, k⟩ (literal d c) := by
  rw [literal]
  split
  · cases (d.types.column c.kind).toCell c.value with
    | error e => exact shows_fail e
    | ok cell => exact shows_placeholder hcalm hd _ _ k
  · split
    · exact shows_fail _
    · cases htext : (d.types.column c.kind).inline c.value with
      | error e => exact shows_fail e
      | ok text => exact shows_inert hcalm (ColumnType.inert_inline hd htext) k

omit hd in
theorem shows_reference (s : Symbol) (k : Nat) :
    Shows d P ⟨true, k⟩ ⟨false, k⟩ (reference s) := by
  intro aliases nested count o ha ho
  obtain ⟨q, hs, rfl⟩ := Aliases.map_lookup_eq_ok ho
  rw [Piece.joined_singleton]
  exact exposes_inert hcalm (ha s q hs) k

/-- A blank and an alias, inside parentheses. -/
theorem shows_sourceAlias (happend : ∀ x y, P x → P y → P (x ++ y)) (s : Symbol) (k : Nat) :
    Shows d P ⟨false, k + 1⟩ ⟨false, k + 1⟩ (sourceAlias s) := by
  intro aliases nested count o ha ho
  obtain ⟨q, hs, rfl⟩ := Aliases.map_lookup_eq_ok ho
  have hblank : climb (k + 1) " ".toList = some (k + 1) :=
    climb_add (show climb 1 " ".toList = some 1 by decide) k
  have hplain : ∀ c ∈ " ".toList, ¬ d.quote.Delimits c := Neutral.unquoted hd (by decide)
  rw [Piece.toList_joined_cons, Piece.joined_singleton]
  exact (exposes_climb hcalm (by decide) hplain hblank).append happend
    (exposes_inert hcalm (ha s q hs) (k + 1))

variable (happend : ∀ x y, P x → P y → P (x ++ y)) {legal : String → Prop}
  (hlegal : ∀ name, legal name → Callable d.quote name ∧ P name.toList)
include happend hlegal

/-- **What is exposed follows the writing.** -/
theorem discipline_shows : Discipline d id legal fun a b σ _ => Shows d P a b σ where
  done a := shows_nothing (hcalm [] rfl) (fun _ _ _ _ ho => by cases ho; rfl) a
  append hσ hτ := hσ.append happend hτ
  relax h := h.relax
  check a e := by
    refine shows_nothing (hcalm [] rfl) (fun _ _ _ _ ho => ?_) a
    rw [output_check_eq_ok ho]
  fails hσ _ := by
    intro aliases nested count o _ ho
    cases (hσ aliases nested count).symm.trans ho
  words hword hclimb := shows_word hcalm hd hword hclimb
  call hname := shows_call hcalm hd (hlegal _ hname).1 (hlegal _ hname).2
  name n k := shows_name hcalm hd n k
  nameText n k := shows_nameText hcalm hd n k
  literal c k := shows_literal hcalm hd c k
  placeholder column source k := shows_placeholder hcalm hd column source k
  reference s k := shows_reference hcalm s k
  sourceAlias s k := shows_sourceAlias hcalm hd happend s k

end

/-- **Whatever is written for a tree exposes nothing else**, if the user's functions have legal
names. -/
theorem shows_tree (hd : d.Balanced) (hcalm : ∀ cs, isCalm cs = true → P cs)
    (happend : ∀ x y, P x → P y → P (x ++ y)) {legal : String → Prop}
    (hlegal : ∀ name, legal name → Callable d.quote name ∧ P name.toList) :
    (∀ n : Node, (∀ name ∈ n.calls, legal name) →
        ∀ k, Shows d P ⟨true, k⟩ ⟨false, k⟩ (n.script d))
      ∧ ∀ q : Query, (∀ name ∈ Query.calls q, legal name) →
          ∀ k, Shows d P ⟨true, k + 1⟩ ⟨false, k + 1⟩ (Query.script d q) := by
  have hquote := hd.legible.quote
  have discipline := discipline_shows hcalm hquote happend hlegal
  refine Query.writing_induct d ?_ ?_ ?_ ?_ ?_
  · intro s hquery ih hcalls
    refine discipline.expression .refl hd hquery (fun name hname => hcalls name ?_) fun n hn =>
      ih n hn fun name hname => hcalls name (Node.gathers_calls.subset hn hname)
    rw [Node.gathers_calls.layer]
    exact List.mem_append_left _ hname
  · intro q ih hcalls k
    have hquery : ∀ name ∈ Query.calls q, legal name := by
      intro name hname
      refine hcalls name ?_
      rwa [Node.gathers_calls.layer]
    rw [Node.script_query]
    have hopening : Shows d P ⟨true, k⟩ ⟨true, k + 1⟩ (words "(") :=
      discipline.word (by decide) (show climb 0 "(".toList = some 1 by decide) k
    have hclosing : Shows d P ⟨false, k + 1⟩ ⟨true, k⟩ (words ")") :=
      discipline.word (by decide) (show climb 1 ")".toList = some 0 by decide) k
    exact ((hopening.append happend (ih hquery k).deeper).append happend hclosing).relax
  · intro q hnumbers ih hcalls k
    have hchildren : ∀ n ∈ q.children, Query.WithChildren
        (Discipline.Holds d id fun a b σ _ => Shows d P a b σ) n := by
      intro n hn
      have hn' : ∀ name ∈ n.calls, legal name :=
        fun name hname => hcalls name (List.mem_flatMap.mpr ⟨n, hn, hname⟩)
      obtain ⟨hself, hgrand⟩ := ih n hn
      exact ⟨hself hn', fun m hm => hgrand m hm fun name hname =>
        hn' name (Node.gathers_calls.subset hm hname)⟩
    have hskip : ∀ n a, Shows d P a a (skipRows n) :=
      fun n a => shows_nothing (hcalm [] rfl) (fun _ _ _ _ ho => by cases ho; rfl) a
    have hpaging : Shows d P ⟨true, k + 1⟩ ⟨true, k + 1⟩ (checkPaging d (Query.rendering d q)) :=
      shows_nothing (hcalm [] rfl) (fun _ _ _ _ ho => by rw [output_checkPaging_eq_ok ho]) _
    rw [Query.script_eq_clauses hnumbers]
    exact hpaging.append happend ((discipline.body .refl hd hskip hchildren k).scope hquote)
  · intro q p hnumbers hp ih hcalls
    rw [Query.script_of_numbers hnumbers, hp]
    exact ih fun name hname => hcalls name ((Query.mem_calls_numberRows hp).mp hname)
  · intro q e hnumbers he hcalls k
    rw [Query.script_of_numbers hnumbers, he]
    exact shows_fail e

end Script
end SqlCompiler
