import Mathlib.Data.List.Nodup
import Mathlib.Logic.Relation
import SqlCompiler.Proofs.Cuts
import SqlCompiler.Proofs.Texts

/-!
# The stages of writing a query

`Script.run` says what is left when everything is written.  Some promises are about what is there
in between: no two symbols ever share an alias, and no alias is handed out twice.  Here a script is
run in small steps.  A stage is a context together with the tasks that are left, and a step begins
the first of them, with the same operations that running the whole script uses.

* `Task`, `Stage`, `Stage.Step`, `Stage.Reaches` — running a script in small steps, and
  `Stage.reaches_end_iff`, which says that it ends where running it at once does.
* `Context.Issued` — the aliases of a context were handed out one after the other.
* `Stage.Sound` — what every step keeps: aliases that are put back later were handed out as well.
* `Query.write_restores` — writing a query only adds to a context.
-/

set_option autoImplicit false
namespace SqlCompiler

/-! ## Small steps -/

/-- Something that is left to do. -/
inductive Task where
  | script (σ : Script)
  /-- A symbol gets the next alias. -/
  | bind (s : Symbol)
  /-- A symbol stands again for what it stood for before. -/
  | restore (s : Symbol) (q : Option Qualifier)
  /-- A subquery ends. -/
  | leave

namespace Task

/-- Carries out a task at once. -/
def run : Task → Emit Unit
  | script σ => σ.run
  | bind s => discard (Emit.bindAlias s)
  | restore s q => Emit.restoreAliases [(s, q)]
  | leave => Emit.leave

/-- Begins a task; answers the aliases that were handed out, and the tasks that are left of it. -/
def step : Task → Emit (List (Symbol × Qualifier) × List Task)
  | script (.append first second) => return ([], [script first, script second])
  | script (.scope symbols body) => do
    let saved ← Emit.saveAliases symbols
    return ([], symbols.map bind ++ script body :: saved.map fun p => restore p.1 p.2)
  | script (.deeper body) => do
    Emit.enter
    return ([], [script body, leave])
  -- the other instructions have no parts, and leave the aliases alone
  | script σ => do
    σ.run
    return ([], [])
  | bind s => do
    let q ← Emit.bindAlias s
    return ([(s, q)], [])
  | restore s q => do
    Emit.restoreAliases [(s, q)]
    return ([], [])
  | leave => do
    Emit.leave
    return ([], [])

/-- Aliases can be put back one by one. -/
theorem forM_restoreAliases (saved : List (Symbol × Option Qualifier)) :
    (forM saved fun p => Emit.restoreAliases [(p.1, p.2)]) = Emit.restoreAliases saved := by
  induction saved with
  | nil => rfl
  | cons p saved ih =>
    rw [List.forM_cons, ih]
    rfl

/-- A task comes to beginning it and carrying out what is left of it. -/
theorem run_eq (t : Task) : t.run = t.step >>= fun r => forM r.2 run := by
  cases t with
  | script σ =>
    cases σ with
    | scope symbols body =>
      simp only [run, Script.run, Emit.withAliases, step, bind_assoc, pure_bind, List.forM_append,
        List.forM_cons, List.forM_map, forM_restoreAliases]
      rfl
    | _ => simp [run, Script.run, step]
  | bind s => rfl
  | restore s q => rfl
  | leave => rfl

end Task

/-- A stage of writing something: what is written and bound so far, what is left to do, and which
aliases were handed out. -/
structure Stage where
  context : Context
  tasks : List Task
  given : List (Symbol × Qualifier)

namespace Stage

/-- The stage at the beginning of a script. -/
def start (c : Context) (σ : Script) : Stage :=
  ⟨c, [.script σ], []⟩

/-- From one stage to the next: the first task is begun. -/
inductive Step : Stage → Stage → Prop where
  | next {t : Task} {tasks rest : List Task} {given new : List (Symbol × Qualifier)}
    {c c' : Context} (h : t.step.run c = .ok (new, tasks) c') :
    Step ⟨c, t :: rest, given⟩ ⟨c', tasks ++ rest, given ++ new⟩

/-- One stage comes after another, or is the same. -/
abbrev Reaches : Stage → Stage → Prop :=
  Relation.ReflTransGen Step

/-- The result of carrying out everything that is left. -/
def finish (stage : Stage) : EStateM.Result Error Context Unit :=
  (forM stage.tasks Task.run).run stage.context

theorem Step.finish_eq {stage later : Stage} (h : Step stage later) :
    stage.finish = later.finish := by
  obtain ⟨h⟩ := h
  rw [finish, finish, List.forM_cons, Task.run_eq, bind_assoc, EStateM.run_bind, h,
    List.forM_append]

theorem finish_eq_of_reaches {stage later : Stage} (h : Reaches stage later) :
    stage.finish = later.finish := by
  induction h with
  | refl => rfl
  | tail _ hstep ih => rw [ih, hstep.finish_eq]

end Stage

/-! ## Small steps carry out everything -/

open Stage

namespace Task

/-- A task that succeeds is carried out by steps. -/
def Completes (t : Task) : Prop :=
  ∀ (c c' : Context) (rest : List Task) (given : List (Symbol × Qualifier)),
    t.run.run c = .ok () c' → ∃ new, Reaches ⟨c, t :: rest, given⟩ ⟨c', rest, given ++ new⟩

theorem reaches_of_forM {tasks : List Task} (h : ∀ t ∈ tasks, t.Completes) :
    ∀ (c c' : Context) (rest : List Task) (given : List (Symbol × Qualifier)),
      (forM tasks Task.run).run c = .ok () c' →
        ∃ new, Reaches ⟨c, tasks ++ rest, given⟩ ⟨c', rest, given ++ new⟩ := by
  induction tasks with
  | nil =>
    intro c c' rest given hrun
    cases hrun
    exact ⟨[], by rw [List.append_nil]; exact .refl⟩
  | cons t tasks ih =>
    intro c c' rest given hrun
    obtain ⟨ht, htasks⟩ := List.forall_mem_cons.mp h
    rw [List.forM_cons] at hrun
    obtain ⟨_, c₁, hfirst, hrun⟩ := run_bind_eq_ok.mp hrun
    obtain ⟨new, hfirst⟩ := ht c c₁ (tasks ++ rest) given hfirst
    obtain ⟨new', hrest⟩ := ih htasks c₁ c' rest (given ++ new) hrun
    exact ⟨new ++ new', List.append_assoc given new new' ▸ hfirst.trans hrest⟩

/-- A task is carried out by steps if everything that is left of it after its first step is. -/
theorem completes_of_step {t : Task} (h : ∀ {c c' : Context} {new : List (Symbol × Qualifier)}
    {tasks : List Task}, t.step.run c = .ok (new, tasks) c' → ∀ u ∈ tasks, u.Completes) :
    t.Completes := by
  intro c c' rest given hrun
  rw [run_eq] at hrun
  obtain ⟨⟨new, tasks⟩, c₁, hstep, hrun⟩ := run_bind_eq_ok.mp hrun
  obtain ⟨new', hrest⟩ := reaches_of_forM (h hstep) c₁ c' rest (given ++ new) hrun
  refine ⟨new ++ new', ?_⟩
  rw [← List.append_assoc]
  exact .head (.next hstep) hrest

/-- A task of which nothing is left after its first step. -/
theorem completes_of_leaf {α : Type} {t : Task} {x : Emit α} {f : α → List (Symbol × Qualifier)}
    (h : t.step = x >>= fun a => pure (f a, [])) : t.Completes := by
  refine completes_of_step fun hstep u hu => ?_
  rw [h] at hstep
  obtain ⟨_, _, -, hstep⟩ := run_bind_eq_ok.mp hstep
  cases hstep
  exact absurd hu List.not_mem_nil

theorem completes_bind (s : Symbol) : (bind s).Completes :=
  completes_of_leaf rfl

theorem completes_restore (s : Symbol) (q : Option Qualifier) : (restore s q).Completes :=
  completes_of_leaf rfl

theorem completes_leave : leave.Completes :=
  completes_of_leaf rfl

/-- **A script that succeeds is carried out by steps.** -/
theorem completes_script (σ : Script) : (script σ).Completes := by
  induction σ with
  | append first second ih₁ ih₂ =>
    refine completes_of_step fun hstep u hu => ?_
    cases hstep
    simp only [List.mem_cons, List.not_mem_nil, or_false] at hu
    rcases hu with rfl | rfl
    · exact ih₁
    · exact ih₂
  | scope symbols body ih =>
    refine completes_of_step fun hstep u hu => ?_
    obtain ⟨saved, _, -, hstep⟩ := run_bind_eq_ok.mp hstep
    cases hstep
    simp only [List.mem_append, List.mem_cons, List.mem_map] at hu
    rcases hu with ⟨s, -, rfl⟩ | rfl | ⟨⟨s, q⟩, -, rfl⟩
    · exact completes_bind s
    · exact ih
    · exact completes_restore s q
  | deeper body ih =>
    refine completes_of_step fun hstep u hu => ?_
    obtain ⟨_, _, -, hstep⟩ := run_bind_eq_ok.mp hstep
    cases hstep
    simp only [List.mem_cons, List.not_mem_nil, or_false] at hu
    rcases hu with rfl | rfl
    · exact ih
    · exact completes_leave
  | _ => exact completes_of_leaf rfl

end Task

/-- **Running a script in small steps ends where running it at once does.** -/
theorem Stage.reaches_end_iff {σ : Script} {c c' : Context} :
    (∃ given, Reaches (start c σ) ⟨c', [], given⟩) ↔ σ.run.run c = .ok () c' := by
  constructor
  · rintro ⟨given, h⟩
    have hfinish := finish_eq_of_reaches h
    rw [finish, start, List.forM_cons] at hfinish
    obtain ⟨_, _, hrun, hrest⟩ := run_bind_eq_ok.mp hfinish
    cases hrest
    exact hrun
  · exact Task.completes_script σ c c' [] []

/-! ## Aliases that were handed out -/

namespace Qualifier

theorem text_numbered_injective (quote : Text.Quote) :
    Function.Injective fun n => (numbered n).text quote := by
  intro m n h
  have hdigits : toString m = toString n := (String.append_right_inj "x").mp h
  have hnumber := congrArg Text.number? hdigits
  rw [Text.number?_toString, Text.number?_toString] at hnumber
  exact Option.some.inj hnumber

/-- A qualifier is the alias that a symbol got, if the given symbols got the first aliases one after
the other. -/
def IsIssued (history : List Symbol) (s : Symbol) (q : Qualifier) : Prop :=
  ∃ i, history[i]? = some s ∧ q = .numbered (i + 1)

namespace IsIssued

variable {history : List Symbol} {s t : Symbol} {q r : Qualifier}

theorem append (h : IsIssued history s q) (more : List Symbol) :
    IsIssued (history ++ more) s q := by
  obtain ⟨i, hi, hq⟩ := h
  refine ⟨i, ?_, hq⟩
  rwa [List.getElem?_append_left (List.getElem?_eq_some_iff.mp hi).1]

theorem last (history : List Symbol) (s : Symbol) :
    IsIssued (history ++ [s]) s (.numbered (history.length + 1)) :=
  ⟨history.length, by simp, rfl⟩

/-- No alias is handed out to two symbols. -/
theorem symbol_eq {quote : Text.Quote} (hs : IsIssued history s q) (ht : IsIssued history t r)
    (h : q.text quote = r.text quote) : s = t := by
  obtain ⟨i, hi, rfl⟩ := hs
  obtain ⟨j, hj, rfl⟩ := ht
  cases text_numbered_injective quote h
  exact Option.some.inj (hi.symm.trans hj)

end IsIssued
end Qualifier

open Qualifier

/-- Aliases were handed out to the given symbols one after the other, and those in a context are
among them. -/
structure Context.Issued (c : Context) (history : List Symbol) : Prop where
  count : c.aliasCount = history.length
  aliases : ∀ s q, c.aliases s = some q → IsIssued history s q

/-- Different symbols have different aliases. -/
def Context.Distinguishes (quote : Text.Quote) (c : Context) : Prop :=
  ∀ s t q r, s ≠ t → c.aliases s = some q → c.aliases t = some r → q.text quote ≠ r.text quote

namespace Context.Issued

variable {c c' : Context} {history : List Symbol} {s : Symbol}

theorem nil : Issued {} [] :=
  ⟨rfl, fun _ _ h => by cases h⟩

theorem bind (h : c.Issued history)
    (haliases : c'.aliases = (c.withAlias s (some (.numbered (c.aliasCount + 1)))).aliases)
    (hcount : c'.aliasCount = c.aliasCount + 1) : c'.Issued (history ++ [s]) := by
  refine ⟨?_, fun t q ht => ?_⟩
  · rw [hcount, h.count, List.length_append, List.length_singleton]
  · rw [haliases, Context.withAlias, h.count] at ht
    by_cases hts : t = s
    · cases (if_pos hts).symm.trans ht
      exact hts ▸ .last history s
    · exact (h.aliases t q ((if_neg hts).symm.trans ht)).append [s]

theorem restore {q : Option Qualifier} (h : c.Issued history)
    (hq : ∀ r, q = some r → IsIssued history s r) : (c.withAlias s q).Issued history := by
  refine ⟨h.count, fun t r ht => ?_⟩
  by_cases hts : t = s
  · exact hts ▸ hq r ((if_pos hts).symm.trans ht)
  · exact h.aliases t r ((if_neg hts).symm.trans ht)

end Context.Issued

/-! ## What a step does to the aliases -/

namespace Script

/-- A script that only writes or checks. -/
def isLeaf : Script → Bool
  | append _ _ | scope _ _ | deeper _ => false
  | _ => true

/-- Writing and checking changes no alias. -/
theorem aliases_of_isLeaf {σ : Script} (hleaf : σ.isLeaf = true) {c c' : Context}
    (h : σ.run.run c = .ok () c') : c'.aliases = c.aliases ∧ c'.aliasCount = c.aliasCount := by
  obtain ⟨o, ho, rfl⟩ := run_eq_ok_iff.mp h
  refine ⟨rfl, ?_⟩
  change o.aliasCount = c.aliasCount
  cases σ with
  | append _ _ => cases hleaf
  | scope _ _ => cases hleaf
  | deeper _ => cases hleaf
  | done => cases ho; rfl
  | piece p => cases ho; rfl
  | skipRows n => cases ho; rfl
  | reference s =>
    obtain ⟨q, -, rfl⟩ := Aliases.map_lookup_eq_ok ho
    rfl
  | sourceAlias s =>
    obtain ⟨q, -, rfl⟩ := Aliases.map_lookup_eq_ok ho
    rfl
  | check e =>
    cases e with
    | error e => cases ho
    | ok u => cases ho; rfl
  | checkNested e =>
    rw [output] at ho
    split at ho
    · cases e with
      | error e => cases ho
      | ok u => cases ho; rfl
    · cases ho; rfl

end Script

namespace Task

theorem step_of_isLeaf {σ : Script} (hleaf : σ.isLeaf = true) :
    (script σ).step = (do σ.run; return ([], [])) := by
  cases σ with
  | append _ _ => cases hleaf
  | scope _ _ => cases hleaf
  | deeper _ => cases hleaf
  | _ => rfl

variable {t : Task} {c c' : Context} {new : List (Symbol × Qualifier)} {tasks : List Task}

/-- **What a step does to the aliases.**  It hands out the next one, puts one back, or leaves them
as they are and notes which ones are to be put back. -/
theorem step_cases (h : t.step.run c = .ok (new, tasks) c') :
    (∃ s, t = .bind s ∧ new = [(s, .numbered (c.aliasCount + 1))] ∧ tasks = []
        ∧ c'.aliases = (c.withAlias s (some (.numbered (c.aliasCount + 1)))).aliases
        ∧ c'.aliasCount = c.aliasCount + 1)
      ∨ (∃ s q, t = .restore s q ∧ new = [] ∧ tasks = [] ∧ c' = c.withAlias s q)
      ∨ new = [] ∧ c'.aliases = c.aliases ∧ c'.aliasCount = c.aliasCount
        ∧ ∀ s q, .restore s q ∈ tasks → q = c.aliases s := by
  cases t with
  | bind s => cases h; exact .inl ⟨s, rfl, rfl, rfl, rfl, rfl⟩
  | restore s q => cases h; exact .inr (.inl ⟨s, q, rfl, rfl, rfl, rfl⟩)
  | leave => cases h; exact .inr (.inr ⟨rfl, rfl, rfl, by simp⟩)
  | script σ =>
    refine .inr (.inr ?_)
    cases hleaf : σ.isLeaf with
    | true =>
      rw [step_of_isLeaf hleaf] at h
      obtain ⟨_, _, hrun, h⟩ := run_bind_eq_ok.mp h
      cases h
      obtain ⟨haliases, hcount⟩ := Script.aliases_of_isLeaf hleaf hrun
      exact ⟨rfl, haliases, hcount, by simp⟩
    | false =>
      cases σ with
      | append first second => cases h; exact ⟨rfl, rfl, rfl, by simp⟩
      | scope symbols body =>
        cases h
        refine ⟨rfl, rfl, rfl, fun s q hmem => ?_⟩
        simp only [List.mem_append, List.mem_cons, List.mem_map] at hmem
        rcases hmem with ⟨_, -, hmem⟩ | hmem | ⟨_, ⟨t, -, rfl⟩, hmem⟩
        · cases hmem
        · cases hmem
        · cases hmem
          rfl
      | deeper body => cases h; exact ⟨rfl, rfl, rfl, by simp⟩
      | _ => cases hleaf

end Task

/-! ## What every step keeps -/

/-- The aliases at a stage, and those that are put back later, were handed out one after the other:
some before, and the ones noted since. -/
structure Stage.Sound (history : List Symbol) (stage : Stage) : Prop where
  context : stage.context.Issued (history ++ stage.given.map Prod.fst)
  saved : ∀ s q, .restore s (some q) ∈ stage.tasks →
    IsIssued (history ++ stage.given.map Prod.fst) s q
  given : stage.given.map Prod.snd
    = (List.range' (history.length + 1) stage.given.length).map .numbered

namespace Stage.Sound

variable {history : List Symbol}

/-- **A step keeps all this.** -/
theorem step {stage later : Stage} (h : stage.Sound history) (hstep : Step stage later) :
    later.Sound history := by
  obtain @⟨t, tasks, rest, given, new, c, c', hstep⟩ := hstep
  have hcontext : c.Issued (history ++ given.map Prod.fst) := h.context
  have hrest : ∀ s q, .restore s (some q) ∈ rest →
      IsIssued (history ++ given.map Prod.fst) s q := fun s q hmem =>
    h.saved s q (List.mem_cons_of_mem t hmem)
  obtain ⟨s, rfl, rfl, rfl, haliases, hcount⟩ | ⟨s, q, rfl, rfl, rfl, rfl⟩
    | ⟨rfl, haliases, hcount, hsaved⟩ := Task.step_cases hstep
  · -- the next alias is one more than all that were handed out, so the list grows at its end
    refine ⟨?_, fun s' q hmem => ?_, ?_⟩
    · rw [List.map_append, ← List.append_assoc]
      exact hcontext.bind haliases hcount
    · rw [List.map_append, ← List.append_assoc]
      exact (hrest s' q hmem).append _
    · have hnumber : c.aliasCount + 1 = history.length + 1 + given.length := by
        rw [hcontext.count, List.length_append, List.length_map]
        omega
      rw [List.map_append, h.given, List.length_append, List.length_singleton, List.range'_concat,
        List.map_append, Nat.one_mul, ← hnumber]
      rfl
  · -- what is put back belongs to the symbol since it was saved
    rw [List.append_nil]
    refine ⟨hcontext.restore fun r hr => ?_, hrest, h.given⟩
    exact h.saved s r (hr ▸ List.mem_cons_self)
  · -- what is saved here is in the table
    rw [List.append_nil]
    refine ⟨⟨hcount.trans hcontext.count, haliases ▸ hcontext.aliases⟩, fun s q hmem => ?_,
      h.given⟩
    rcases List.mem_append.mp hmem with hmem | hmem
    · exact hcontext.aliases s q (hsaved s _ hmem).symm
    · exact hrest s q hmem

/-- **So does every run.** -/
theorem reaches {stage later : Stage} (h : stage.Sound history) (hreaches : Reaches stage later) :
    later.Sound history := by
  induction hreaches with
  | refl => exact h
  | tail _ hstep ih => exact ih.step hstep

/-- At the beginning of a script nothing is to be put back. -/
theorem start {c : Context} (h : c.Issued history) (σ : Script) : (start c σ).Sound history :=
  ⟨(List.append_nil history).symm ▸ h, by simp [Stage.start], rfl⟩

section
variable {stage : Stage} (h : stage.Sound history) (quote : Text.Quote)
include h

/-- Different symbols have different aliases. -/
theorem distinguishes : stage.context.Distinguishes quote := fun s t q r hst hs ht htext =>
  hst ((h.context.aliases s q hs).symbol_eq (h.context.aliases t r ht) htext)

/-- No alias is handed out twice. -/
theorem nodup_given : (stage.given.map fun p => p.2.text quote).Nodup := by
  have htexts : (stage.given.map fun p => p.2.text quote)
      = (List.range' (history.length + 1) stage.given.length).map
          fun n => (Qualifier.numbered n).text quote := by
    have := congrArg (List.map (Qualifier.text quote)) h.given
    rwa [List.map_map, List.map_map] at this
  rw [htexts]
  exact (List.nodup_range' 1).map (text_numbered_injective quote)

/-- No alias is handed out that was handed out before. -/
theorem given_ne {c : Context} (hc : c.Issued history) :
    ∀ p ∈ stage.given, ∀ s q, c.aliases s = some q → p.2.text quote ≠ q.text quote := by
  intro p hp s q hs htext
  obtain ⟨i, hi, rfl⟩ := hc.aliases s q hs
  have hlt : i < history.length := (List.getElem?_eq_some_iff.mp hi).1
  have hmem : p.2 ∈ stage.given.map Prod.snd := List.mem_map_of_mem hp
  rw [h.given] at hmem
  obtain ⟨n, hn, hpn⟩ := List.mem_map.mp hmem
  rw [← hpn] at htext
  cases text_numbered_injective quote htext
  have := (List.mem_range'_1.mp hn).1
  omega

end

end Stage.Sound

/-- **Writing a query only adds to a context.**  If the aliases of the context were handed out one
after the other, then a query that is written leaves all symbols with the aliases they had, and the
depth as it was, and adds to the text and to the setters.  The aliases that are handed out meanwhile
are different from each other and from all that were in use, and at no stage two symbols share an
alias. -/
theorem Query.write_restores (d : Dialect) (q : Query) {c c' : Context} {history : List Symbol}
    (hissued : c.Issued history) (h : (Query.write d q).run c = .ok () c') :
    c'.aliases = c.aliases ∧ c'.depth = c.depth
      ∧ (∃ added, c'.text d.quote = c.text d.quote ++ added)
      ∧ (∃ added, c'.setters = c.setters ++ added)
      ∧ c.aliasCount ≤ c'.aliasCount
      ∧ (∃ given, Reaches (start c (q.script d)) ⟨c', [], given⟩
          ∧ c'.aliasCount = c.aliasCount + given.length)
      ∧ ∀ stage, Reaches (start c (q.script d)) stage →
          (stage.given.map fun p => p.2.text d.quote).Nodup
            ∧ (∀ p ∈ stage.given, ∀ s old, c.aliases s = some old →
                p.2.text d.quote ≠ old.text d.quote)
            ∧ stage.context.Distinguishes d.quote := by
  obtain ⟨o, -, hafter⟩ := Script.run_eq_ok_iff.mp h
  obtain ⟨given, hreaches⟩ := reaches_end_iff.mpr h
  have hsound : ∀ {stage}, Reaches (start c (q.script d)) stage → stage.Sound history :=
    (Sound.start hissued (q.script d)).reaches
  have hcount : c'.aliasCount = c.aliasCount + given.length := by
    have hend : c'.aliasCount = _ := (hsound hreaches).context.count
    rw [hend, List.length_append, List.length_map, hissued.count]
  refine ⟨hafter ▸ rfl, hafter ▸ rfl, ⟨_, hafter ▸ c.text_after d.quote o⟩,
    ⟨Piece.setters o.pieces, ?_⟩, ?_, ⟨given, hreaches, hcount⟩, fun stage hstage => ?_⟩
  · simp [hafter, Context.setters, Context.after, Piece.setters]
  · rw [hcount]
    exact Nat.le_add_right _ _
  · have hstage := hsound hstage
    exact ⟨hstage.nodup_given d.quote, hstage.given_ne d.quote hissued,
      hstage.distinguishes d.quote⟩

/-- Two symbols have aliases already.  The query binds one of them again, twice, and skips rows, so
that it is replaced by another one; the other symbol is referred to from the inside. -/
theorem Query.write_restores_shadowed :
    let x : Symbol := ⟨0, 0⟩
    let y : Symbol := ⟨1, 0⟩
    let c : Context := {
      aliases := fun s =>
        if s = y then some (.numbered 2) else if s = x then some (.numbered 1) else none
      aliasCount := 2
      depth := 1 }
    let paid : Query := {
      generators := [⟨y, .table "payments"⟩]
      filters := [.binary .eq (.column y "order") (.column x "id")] }
    let q : Query := {
      projection := some (.column x "id")
      generators := [⟨x, .table "users"⟩, ⟨x, .table "orders"⟩]
      filters := [.binary .eq (.column x "user") (.column y "id"), .apply .hasRows [.query paid]]
      orderBy := [⟨.column x "date", .descending⟩]
      fetch := some 10
      offset := some 5 }
    c.Issued [x, y] ∧ ∃ c', (Query.write .sqlserver q).run c = .ok () c'
      ∧ c'.aliases x = some (.numbered 1) ∧ c'.aliases y = some (.numbered 2) ∧ c'.depth = 1
      ∧ c'.aliasCount = 6
      ∧ ∃ given, Reaches (start c (q.script .sqlserver)) ⟨c', [], given⟩
        ∧ given.length = 4 ∧ (given.map fun p => p.2.text .brackets).Nodup := by
  intro x y c paid q
  let first : Context := {
    aliases := fun s => if s = x then some (.numbered 1) else none
    aliasCount := 1 }
  have hfirst : first.Issued [x] := Context.Issued.nil.bind rfl rfl
  have hissued : c.Issued [x, y] := hfirst.bind rfl rfl
  have hok : ((q.script .sqlserver).output c.aliases true 2).toOption.map Output.aliasCount
      = some 6 := by
    decide +kernel
  cases ho : (q.script .sqlserver).output c.aliases true 2 with
  | error e => rw [ho] at hok; cases hok
  | ok o =>
    rw [ho] at hok
    have hrun : (Query.write .sqlserver q).run c = .ok () (c.after o) :=
      Script.run_eq_ok_iff.mpr ⟨o, ho, rfl⟩
    obtain ⟨haliases, hdepth, -, -, -, ⟨given, hgiven, hcount⟩, hstages⟩ :=
      Query.write_restores .sqlserver q hissued hrun
    have hsix : o.aliasCount = 6 := Option.some.inj hok
    have hlength : 6 = 2 + given.length := hsix.symm.trans hcount
    exact ⟨hissued, c.after o, hrun, by rw [haliases]; rfl, by rw [haliases]; rfl, hdepth, hsix,
      given, hgiven, by omega, (hstages _ hgiven).1⟩

end SqlCompiler
