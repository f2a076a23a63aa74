import SqlCompiler.Proofs.ColumnCounts

/-!
# Conditions and conjunctions

The conditions of a filter are written one after the other with conjunctions between them, and
without parentheses around them.  That is right only if a condition cannot be torn apart: whatever
is written for a node closes its quoted regions and its parentheses, and shows neither a comma nor a
conjunction outside them, however many there are in the texts, names and subqueries inside.  Then
whoever cuts a filter at the conjunctions outside gets back the conditions it was made of.

* `Text.SelfDelimiting` — texts that can stand next to others without parentheses.
* `Text.cut`, `Text.conjuncts` — the parts of a text between the conjunctions outside quoted regions
  and parentheses.
* `Conjoined` — the runs that write conditions one after the other.
* `Query.selfDelimiting_write` — whatever is written for a node is self-delimiting, and the parts of
  a filter are its conditions.
-/

set_option autoImplicit false
namespace SqlCompiler
namespace Text

/-! ## Self-delimiting texts -/

/-- A text that can stand next to others without parentheses. -/
structure SelfDelimiting (names : Quote) (text : String) : Prop where
  nonempty : text ≠ ""
  /-- What stands behind it is read as if it stood alone. -/
  apart : ∀ rest, Separated names rest →
    outside names (text.toList ++ rest) = outside names text.toList ++ outside names rest
  balanced : (outside names text.toList).count '(' = (outside names text.toList).count ')'
  /-- No parenthesis is closed before it was opened. -/
  nested : ∀ front, front <+: outside names text.toList → front.count ')' ≤ front.count '('
  comma : ',' ∉ exposed 0 (outside names text.toList)
  conjunction : ¬ " and ".toList <:+: exposed 0 (outside names text.toList)
  disjunction : ¬ " or ".toList <:+: exposed 0 (outside names text.toList)

theorem count_of_rise {cs : List Char} {level final : Nat} (h : rise level cs = some final) :
    final + cs.count ')' = level + cs.count '(' := by
  fun_induction rise level cs with
  | case1 => cases h; rfl
  | case2 level cs ih =>
    have hcount := ih h
    rw [List.count_cons_of_ne (by decide), List.count_cons_self]
    omega
  | case3 => cases h
  | case4 level cs hlevel _ ih =>
    have hcount := ih h
    rw [List.count_cons_self, List.count_cons_of_ne (by decide)]
    omega
  | case5 level c cs hopening hclosing ih =>
    rw [List.count_cons_of_ne hopening, List.count_cons_of_ne hclosing]
    exact ih h

theorem exists_rise_of_append {a b : List Char} {level final : Nat}
    (h : rise level (a ++ b) = some final) : ∃ between, rise level a = some between := by
  fun_induction rise level a with
  | case1 level => exact ⟨level, rfl⟩
  | case2 level cs ih =>
    rw [List.cons_append, rise, if_pos rfl] at h
    exact ih h
  | case3 level cs =>
    rw [List.cons_append, rise, if_neg (by decide), if_pos rfl, if_pos rfl] at h
    cases h
  | case4 level cs hlevel _ ih =>
    rw [List.cons_append, rise, if_neg (by decide), if_pos rfl, if_neg hlevel] at h
    exact ih h
  | case5 level c cs hopening hclosing ih =>
    rw [List.cons_append, rise, if_neg hopening, if_neg hclosing] at h
    exact ih h

theorem isCalm_of_append {a b : List Char} (h : isCalm (a ++ b) = true) : isCalm b = true := by
  induction a with
  | nil => exact h
  | cons c cs ih =>
    rw [List.cons_append, isCalm, Bool.and_eq_true] at h
    exact ih h.2

/-- Calm characters have no conjunction among them. -/
theorem not_infix_of_isCalm {cs word : List Char} (h : isCalm cs = true)
    (hword : ∀ rest, isCalm (word ++ rest) = false) : ¬ word <:+: cs := by
  rintro ⟨front, rest, rfl⟩
  rw [List.append_assoc] at h
  exact Bool.false_ne_true ((hword rest).symm.trans (isCalm_of_append h))

variable {names : Quote}

/-- A text that is left at the level where it began, and exposes calm characters only. -/
theorem SelfDelimiting.of_exposes {text : String} (hne : text ≠ "")
    (h : Exposes names (isCalm · = true) ⟨true, 0⟩ ⟨false, 0⟩ text.toList) :
    SelfDelimiting names text := by
  have hrise : rise 0 (outside names text.toList) = some 0 := h.levels
  have hcount := count_of_rise hrise
  refine ⟨hne, fun rest hrest => ?_, by omega, ?_, comma_notMem_of_isCalm h.shows,
    not_infix_of_isCalm h.shows fun _ => rfl, not_infix_of_isCalm h.shows fun _ => rfl⟩
  · rw [outside_eq_shown, h.apart rest fun _ => hrest, shown_append, ← outside_eq_shown,
      ← outside_eq_shown]
  · rintro front ⟨rest, hfront⟩
    rw [← hfront] at hrise
    obtain ⟨between, hbetween⟩ := exists_rise_of_append hrise
    have hcount := count_of_rise hbetween
    omega

/-! ## Cutting a text -/

/-- The parts of a list between the places where `separator` stands in it.  The next `skip` elements
belong to one that was found already. -/
def cut {α : Type} [BEq α] (separator : List α) : Nat → List α → List (List α)
  | _, [] => [[]]
  | skip + 1, _ :: xs => cut separator skip xs
  | 0, x :: xs =>
    if separator.isPrefixOf (x :: xs) then [] :: cut separator (separator.length - 1) xs
    else (cut separator 0 xs).modifyHead (x :: ·)

/-- Keeps the marks of the characters outside parentheses, of which `level` are open where the text
begins. -/
def lifted (level : Nat) : List (Char × Bool) → List (Char × Bool)
  | [] => []
  | (c, false) :: ms => (c, false) :: lifted level ms
  | (c, true) :: ms =>
    if c = '(' then (c, false) :: lifted (level + 1) ms
    else if c = ')' then (c, false) :: lifted (level - 1) ms
    else (c, level == 0) :: lifted level ms

/-- A conjunction outside quoted regions and parentheses. -/
def conjunction : List (Char × Bool) :=
  " and ".toList.map (·, true)

/-- The parts of a text between the conjunctions outside quoted regions and parentheses. -/
def conjuncts (names : Quote) (text : String) : List String :=
  (cut conjunction 0 (lifted 0 (marked names none text.toList))).map
    fun ms => String.ofList (ms.map Prod.fst)

theorem map_fst_lifted (level : Nat) (ms : List (Char × Bool)) :
    (lifted level ms).map Prod.fst = ms.map Prod.fst := by
  fun_induction lifted level ms <;> simp_all

theorem shown_lifted (level : Nat) (ms : List (Char × Bool)) :
    shown (lifted level ms) = exposed level (shown ms) := by
  fun_induction lifted level ms with
  | case1 => rfl
  | case2 level c ms ih => exact ih
  | case3 level ms ih =>
    rw [shown_cons_true, exposed, if_pos rfl]
    exact ih
  | case4 level ms _ ih =>
    rw [shown_cons_true, exposed, if_neg (by decide), if_pos rfl]
    exact ih
  | case5 level c ms hopening hclosing ih =>
    rw [shown_cons_true, exposed, if_neg hopening, if_neg hclosing, ← ih]
    by_cases hlevel : level = 0 <;> simp [shown, hlevel]

theorem lifted_append {ms : List (Char × Bool)} {level final : Nat}
    (h : rise level (shown ms) = some final) (ns : List (Char × Bool)) :
    lifted level (ms ++ ns) = lifted level ms ++ lifted final ns := by
  fun_induction lifted level ms with
  | case1 =>
    cases h
    rfl
  | case2 level c ms ih =>
    rw [List.cons_append, lifted, ih h]
    rfl
  | case3 level ms ih =>
    rw [shown_cons_true, rise, if_pos rfl] at h
    rw [List.cons_append, lifted, if_pos rfl, ih h]
    rfl
  | case4 level ms _ ih =>
    rw [shown_cons_true, rise, if_neg (by decide), if_pos rfl] at h
    split at h
    · cases h
    · rw [List.cons_append, lifted, if_neg (by decide), if_pos rfl, ih h]
      rfl
  | case5 level c ms hopening hclosing ih =>
    rw [shown_cons_true, rise, if_neg hopening, if_neg hclosing] at h
    rw [List.cons_append, lifted, if_neg hopening, if_neg hclosing, ih h]
    rfl

/-- No conjunction begins among calm characters, whatever stands behind them. -/
theorem not_conjunction_of_isCalm {m : Char × Bool} {ms : List (Char × Bool)}
    (h : isCalm (shown (m :: ms)) = true) (rest : List (Char × Bool)) :
    conjunction.isPrefixOf (m :: ms ++ rest) = false := by
  rw [Bool.eq_false_iff, ne_eq, List.isPrefixOf_iff_prefix]
  rintro ⟨tail, htail⟩
  obtain ⟨rfl, hbehind⟩ := List.cons.inj htail
  rw [shown_cons_true, isCalm] at h
  -- behind the blank there is nothing calm left, or the first letter of the conjunction
  cases ms with
  | nil => cases h
  | cons m' ms =>
    obtain ⟨rfl, -⟩ := List.cons.inj hbehind
    cases h

theorem cut_of_isCalm {ms : List (Char × Bool)} (h : isCalm (shown ms) = true)
    (rest : List (Char × Bool)) :
    cut conjunction 0 (ms ++ rest) = (cut conjunction 0 rest).modifyHead (ms ++ ·) := by
  induction ms with
  | nil =>
    rw [List.nil_append]
    cases cut conjunction 0 rest <;> rfl
  | cons m ms ih =>
    have hcalm : isCalm (shown ms) = true := by
      rw [← List.singleton_append, shown_append] at h
      exact isCalm_of_append h
    rw [List.cons_append, cut, ← List.cons_append, not_conjunction_of_isCalm h rest,
      if_neg Bool.false_ne_true, ih hcalm, List.modifyHead_modifyHead]
    rfl

theorem cut_conjunction (rest : List (Char × Bool)) :
    cut conjunction 0 (conjunction ++ rest) = [] :: cut conjunction 0 rest :=
  rfl

/-- A text that begins with a conjunction has nothing before it. -/
theorem conjuncts_conjunction (hn : names.Known) (rest : String) :
    conjuncts names (" and " ++ rest) = "" :: conjuncts names rest := by
  have hplain : ∀ c ∈ " and ".toList, ¬ names.Delimits c := Neutral.unquoted hn (by decide)
  have hlifted : lifted 0 (marked names none (" and ".toList ++ rest.toList))
      = conjunction ++ lifted 0 (marked names none rest.toList) := by
    rw [marked_append hplain]
    rfl
  rw [conjuncts, String.toList_append, hlifted, cut_conjunction]
  rfl

/-- A text that exposes calm characters only belongs to a single part. -/
theorem conjuncts_append {text : String}
    (h : Exposes names (isCalm · = true) ⟨true, 0⟩ ⟨false, 0⟩ text.toList) {rest : String}
    (hrest : Separated names rest.toList) :
    conjuncts names (text ++ rest) = (conjuncts names rest).modifyHead (text ++ ·) := by
  have hrise : rise 0 (shown (marked names none text.toList)) = some 0 := by
    rw [← outside_eq_shown]
    exact h.levels
  have hcalm : isCalm (shown (lifted 0 (marked names none text.toList))) = true := by
    rw [shown_lifted, ← outside_eq_shown]
    exact h.shows
  have htext : (lifted 0 (marked names none text.toList)).map Prod.fst = text.toList := by
    rw [map_fst_lifted, map_fst_marked]
  rw [conjuncts, conjuncts, String.toList_append, h.apart rest.toList fun _ => hrest,
    lifted_append hrise, cut_of_isCalm hcalm]
  cases cut conjunction 0 (lifted 0 (marked names none rest.toList)) with
  | nil => rfl
  | cons part parts => simp [htext]

end Text

open Text

/-! ## Filters -/

/-- Aliases that were handed out by number, or are quoted names. -/
def Aliases.Named (names : Quote) (aliases : Aliases) : Prop :=
  ∀ s q, aliases s = some q → (∃ n, q = .numbered n) ∨ ∃ name, q.text names = names.write name

theorem Aliases.Named.inert {names : Quote} (hn : names.Known) {aliases : Aliases}
    (h : aliases.Named names) : aliases.Inert names := by
  intro s q hq
  rcases h s q hq with ⟨n, rfl⟩ | ⟨name, hname⟩
  · exact inert_numbered hn n
  · rw [hname]
    exact inert_write (.inr rfl) hn name

/-- Names of functions that have no blanks either. -/
def Text.Solitary (names : Quote) (name : String) : Prop :=
  Callable names name ∧ ' ' ∉ name.toList

instance (names : Quote) (name : String) : Decidable (Solitary names name) :=
  inferInstanceAs (Decidable (_ ∧ _))

theorem Text.Solitary.isCalm {names : Quote} (name : String) (h : Solitary names name) :
    Callable names name ∧ isCalm name.toList = true := by
  refine ⟨h.1, isCalm_of_forall fun c hc => ⟨(h.1 c hc).2.2.2, ?_⟩⟩
  rintro rfl
  exact h.2 hc

/-- The runs that write conditions one after the other, with a conjunction between any two of them:
the texts are what is written for each condition, in the context that it finds. -/
inductive Conjoined (d : Dialect) : Context → List Node → List String → Context → Prop where
  | last {c c' : Context} {n : Node} {t : String} (hrun : (n.rendering d).write.run c = .ok () c')
      (htext : c'.text d.quote = c.text d.quote ++ t) : Conjoined d c [n] [t] c'
  | next {c c₁ c₂ c' : Context} {n : Node} {ns : List Node} {t : String} {ts : List String}
      (hrun : (n.rendering d).write.run c = .ok () c₁)
      (htext : c₁.text d.quote = c.text d.quote ++ t)
      (hword : (Emit.words " and ").run c₁ = .ok () c₂) (hrest : Conjoined d c₂ ns ts c') :
      Conjoined d c (n :: ns) (t :: ts) c'

theorem Conjoined.length_eq {d : Dialect} {c c' : Context} {ns : List Node} {ts : List String}
    (h : Conjoined d c ns ts c') : ts.length = ns.length := by
  induction h with
  | last => rfl
  | next _ _ _ _ ih => rw [List.length_cons, List.length_cons, ih]

namespace Script

variable {d : Dialect}

/-- What is written for a node in some context. -/
theorem exposes_of_run (hd : d.Balanced) {n : Node}
    (hcalls : ∀ name ∈ n.calls, Solitary d.quote name) {c c' : Context}
    (hc : Aliases.Inert d.quote c.aliases) (h : (n.rendering d).write.run c = .ok () c') :
    ∃ t, t ≠ "" ∧ c'.text d.quote = c.text d.quote ++ t ∧ c'.aliases = c.aliases
      ∧ Exposes d.quote (isCalm · = true) ⟨true, 0⟩ ⟨false, 0⟩ t.toList := by
  obtain ⟨o, ho, rfl⟩ := run_eq_ok_iff.mp h
  have hshows := (shows_tree hd (fun _ hcs => hcs) (fun _ _ => isCalm_append)
    fun name hname => Solitary.isCalm name hname).1 n hcalls 0
  exact ⟨_, visible_script hd.legible n ho, c.text_after d.quote o, rfl, hshows hc ho⟩

theorem text_of_words (names : Quote) {text : String} {c c' : Context}
    (h : (Emit.words text).run c = .ok () c') :
    c'.text names = c.text names ++ text ∧ c'.aliases = c.aliases := by
  cases (run_piece (.words text) c).symm.trans h
  refine ⟨?_, rfl⟩
  rw [Context.text_after, Piece.joined_singleton]
  rfl

theorem run_separated (separator : String) (σ τ : Script) (rest : List Script) :
    (separated separator (σ :: τ :: rest)).run
      = σ.run >>= fun _ => Emit.words separator >>= fun _ =>
          (separated separator (τ :: rest)).run := by
  change (σ.run >>= fun _ => (Emit.words separator >>= fun _ => τ.run) >>= fun _ =>
    (eachAfter separator rest).run) = _
  simp only [bind_assoc]
  rfl

theorem run_filters {q : Query} (h : q.filters ≠ []) :
    (filters (Query.rendering d q)).run
      = Emit.words " where " >>= fun _ =>
          (separated " and " (q.filters.map (Node.script d))).run := by
  rw [filters, show (Query.rendering d q).filters = q.filters.map (Node.rendering d) from rfl]
  cases hq : q.filters with
  | nil => exact absurd hq h
  | cons n ns =>
    simp only [List.map_cons, List.map_map]
    rfl

/-- **The parts of a conjunction are its conditions**, as they are written one after the other. -/
theorem conjoined_of_run (hd : d.Balanced) {ns : List Node} : ∀ {n : Node} {c c' : Context},
    (∀ m ∈ n :: ns, ∀ name ∈ m.calls, Solitary d.quote name) →
    Aliases.Inert d.quote c.aliases →
    (separated " and " ((n :: ns).map (Node.script d))).run.run c = .ok () c' →
    ∃ w, c'.text d.quote = c.text d.quote ++ w
      ∧ Conjoined d c (n :: ns) (conjuncts d.quote w) c' := by
  induction ns with
  | nil =>
    intro n c c' hcalls hc h
    obtain ⟨⟨⟩, c₁, hrun, hdone⟩ := run_bind_eq_ok.mp h
    cases hdone
    obtain ⟨t, -, htext, -, hexposes⟩ := exposes_of_run hd (hcalls n List.mem_cons_self) hc hrun
    have hparts : conjuncts d.quote t = [t] := by
      have h := conjuncts_append hexposes (show Separated d.quote "".toList from separated_nil _)
      simpa [conjuncts, marked, lifted, cut] using h
    exact ⟨t, htext, hparts ▸ .last hrun htext⟩
  | cons m ns ih =>
    intro n c c' hcalls hc h
    rw [List.map_cons, List.map_cons, run_separated] at h
    obtain ⟨⟨⟩, c₁, hrun, h⟩ := run_bind_eq_ok.mp h
    obtain ⟨⟨⟩, c₂, hword, h⟩ := run_bind_eq_ok.mp h
    obtain ⟨t, -, htext, haliases, hexposes⟩ :=
      exposes_of_run hd (hcalls n List.mem_cons_self) hc hrun
    obtain ⟨hafter, haliases'⟩ := text_of_words d.quote hword
    have hc₂ : Aliases.Inert d.quote c₂.aliases := by
      rwa [haliases', haliases]
    obtain ⟨w, hw, hconjoined⟩ := ih (fun m' hm' => hcalls m' (List.mem_cons_of_mem _ hm')) hc₂ h
    have hseparated : Separated d.quote (" and " ++ w).toList := by
      rw [String.toList_append]
      exact separated_append (Neutral.unquoted hd.legible.quote (by decide)) (by decide) _
    have hparts : conjuncts d.quote (t ++ (" and " ++ w)) = t :: conjuncts d.quote w := by
      rw [conjuncts_append hexposes hseparated, conjuncts_conjunction hd.legible.quote]
      simp
    refine ⟨t ++ (" and " ++ w), ?_, hparts ▸ .next hrun htext hword hconjoined⟩
    rw [hw, hafter, htext, String.append_assoc, String.append_assoc]

end Script

/-- **Whatever is written for a node is self-delimiting, and the parts of a filter are its
conditions.**  This is so on every database and in every context whose aliases are numbers or quoted
names, if the user's functions have names without quotation marks, parentheses, commas and
blanks. -/
theorem Query.selfDelimiting_write (b : Database) (c : Context)
    (hc : Aliases.Named b.dialect.quote c.aliases) :
    (∀ n : Node, (∀ name ∈ n.calls, Solitary b.dialect.quote name) →
      ∀ c', (n.rendering b.dialect).write.run c = .ok () c' →
        ∃ t, c'.text b.dialect.quote = c.text b.dialect.quote ++ t
          ∧ SelfDelimiting b.dialect.quote t)
    ∧ ∀ q : Query, q.filters ≠ [] →
      (∀ n ∈ q.filters, ∀ name ∈ n.calls, Solitary b.dialect.quote name) →
      ∀ c', (Render.filters (rendering b.dialect q)).run c = .ok () c' →
        ∃ c₀ w, (Emit.words " where ").run c = .ok () c₀
          ∧ c'.text b.dialect.quote = c.text b.dialect.quote ++ " where " ++ w
          ∧ (conjuncts b.dialect.quote w).length = q.filters.length
          ∧ Conjoined b.dialect c₀ q.filters (conjuncts b.dialect.quote w) c' := by
  have hinert := hc.inert b.legible.quote
  constructor
  · intro n hcalls c' hrun
    obtain ⟨t, hne, htext, -, hexposes⟩ := Script.exposes_of_run b.balanced hcalls hinert hrun
    exact ⟨t, htext, .of_exposes hne hexposes⟩
  · intro q hfilters hcalls c' hrun
    rw [Render.filters, Script.run_filters hfilters] at hrun
    obtain ⟨⟨⟩, c₀, hword, hrun⟩ := run_bind_eq_ok.mp hrun
    obtain ⟨hwhere, haliases⟩ := Script.text_of_words b.dialect.quote hword
    obtain ⟨n, ns, hq⟩ := List.exists_cons_of_ne_nil hfilters
    rw [hq] at hcalls hrun
    obtain ⟨w, hw, hconjoined⟩ :=
      Script.conjoined_of_run b.balanced hcalls (haliases ▸ hinert) hrun
    rw [hwhere] at hw
    rw [← hq] at hconjoined
    exact ⟨c₀, w, hword, hw, hconjoined.length_eq, hconjoined⟩

/-- Two conditions on the rows of a table, with conjunctions, commas and parentheses in the names of
the table and of a column, and in a text. -/
theorem Query.selfDelimiting_write_mysql :
    let x : Symbol := ⟨0, 0⟩
    let c : Context := { aliases := fun s => if s = x then some (.table "old, (and new") else none }
    let text : Node := .literal ⟨.string, .string "b' and (c", false⟩
    let n : Node := .apply .eq [.column x "to and fro", text]
    let q : Query := { filters := [n, .apply (.named "near") [text, .column x "id"]] }
    ∃ c₁ c' t w, (n.rendering .mysql).write.run c = .ok () c₁
      ∧ c₁.text .backquotes = c.text .backquotes ++ t ∧ SelfDelimiting .backquotes t
      ∧ (Render.filters (rendering .mysql q)).run c = .ok () c'
      ∧ c'.text .backquotes = c.text .backquotes ++ " where " ++ w
      ∧ (conjuncts .backquotes w).length = 2 := by
  intro x c text n q
  have hc : Aliases.Named Database.mysql.dialect.quote c.aliases := by
    intro s a ha
    by_cases hs : s = x
    · cases (if_pos hs).symm.trans ha
      exact .inr ⟨_, rfl⟩
    · cases (if_neg hs).symm.trans ha
  obtain ⟨hnode, hfilters⟩ := selfDelimiting_write .mysql c hc
  have runs : ∀ {σ : Script}, (σ.output c.aliases false 0).isOk = true →
      ∃ c', σ.run.run c = .ok () c' := by
    intro σ hok
    cases ho : σ.output c.aliases false 0 with
    | error e => rw [ho] at hok; cases hok
    | ok o => exact ⟨_, Script.run_eq_ok_iff.mpr ⟨o, ho, rfl⟩⟩
  obtain ⟨c₁, h₁⟩ := runs (show ((n.script .mysql).output c.aliases false 0).isOk = true by
    decide +kernel)
  obtain ⟨c', h'⟩ := runs
    (show ((Script.filters (rendering .mysql q)).output c.aliases false 0).isOk = true by
      decide +kernel)
  obtain ⟨t, ht, hdelimiting⟩ := hnode n (by decide +kernel) c₁ h₁
  obtain ⟨c₀, w, -, hw, hlength, -⟩ := hfilters q (by decide) (by decide +kernel) c' h'
  exact ⟨c₁, c', t, w, h₁, ht, hdelimiting, h', hw, hlength⟩

end SqlCompiler
