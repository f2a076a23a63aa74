import SqlCompiler.Statement.Update

/-!
# What a script writes

`Script.run` threads a whole context through a script.  Very little of that context matters: which
aliases are in scope, whether the script stands in a subquery, and how many aliases have been
handed out.  `Script.output` computes from these three what the script writes, or why it fails,
and `runs_output` says that running the script adds exactly that and puts everything else back: a
subquery leaves the depth as it was, and a scope the aliases.

So every statement about a compiled query is a statement about `Script.output`, and most of them
are about two lists that can be read off a script without running it:

* `Script.checks` — the checks it makes.  All of them succeed if the script does
  (`check_eq_ok_of_output_ok`).
* `Script.free` — the symbols it needs an alias for.

If a script fails, one of its checks failed or one of these symbols has no alias
(`output_eq_error`), and so it fails whatever number the next alias has
(`exists_output_of_output`).
-/

set_option autoImplicit false
namespace SqlCompiler

/-! ## Checked computations -/

theorem bind_eq_ok_iff {α β : Type} {x : Except Error α} {f : α → Except Error β} {b : β} :
    (x >>= f) = .ok b ↔ ∃ a, x = .ok a ∧ f a = .ok b := by
  cases x with
  | error e =>
    constructor
    · intro h; cases h
    · rintro ⟨_, h, _⟩; cases h
  | ok a =>
    constructor
    · intro h; exact ⟨a, rfl, h⟩
    · rintro ⟨_, h, h'⟩; cases h; exact h'

theorem bind_eq_error_iff {α β : Type} {x : Except Error α} {f : α → Except Error β} {e : Error} :
    (x >>= f) = .error e ↔ x = .error e ∨ ∃ a, x = .ok a ∧ f a = .error e := by
  cases x with
  | error e' =>
    constructor
    · intro h; cases h; exact .inl rfl
    · rintro (h | ⟨_, h, _⟩) <;> cases h; rfl
  | ok a =>
    constructor
    · intro h; exact .inr ⟨a, rfl, h⟩
    · rintro (h | ⟨_, h, h'⟩) <;> cases h; exact h'

theorem bind_return_eq {α β γ : Type} (x : Except Error α) (f : α → β) (g : β → γ) :
    (x >>= fun a => pure (g (f a))) = (x.map f).map g := by
  cases x <;> rfl

section
variable {α β : Type} {f : α → Except Error β}

/-- A list of computations that succeeds has their results in their order. -/
theorem getElem?_of_mapM {l : List α} : ∀ {out : List β}, l.mapM f = .ok out →
    out.length = l.length
      ∧ ∀ (k : Nat) (a : α), l[k]? = some a → ∃ b, out[k]? = some b ∧ f a = .ok b := by
  induction l with
  | nil =>
    intro out h
    cases h
    exact ⟨rfl, nofun⟩
  | cons x l ih =>
    intro out h
    rw [List.mapM_cons] at h
    obtain ⟨b, hb, h⟩ := bind_eq_ok_iff.mp h
    obtain ⟨bs, hbs, h⟩ := bind_eq_ok_iff.mp h
    cases h
    obtain ⟨hlength, hresults⟩ := ih hbs
    refine ⟨congrArg (· + 1) hlength, fun k a ha => ?_⟩
    cases k with
    | zero =>
      cases ha
      exact ⟨b, rfl, hb⟩
    | succ k => exact hresults k a ha

/-- A list of computations fails as the first of them that does. -/
theorem mapM_eq_error_iff {l : List α} {e : Error} :
    l.mapM f = .error e ↔ ∃ before a after, l = before ++ a :: after
      ∧ (∀ x ∈ before, ∃ b, f x = .ok b) ∧ f a = .error e := by
  induction l with
  | nil =>
    constructor
    · intro h; cases h
    · rintro ⟨before, a, after, h, -⟩
      simp at h
  | cons a l ih =>
    rw [List.mapM_cons, bind_eq_error_iff]
    constructor
    · rintro (h | ⟨b, hb, h⟩)
      · exact ⟨[], a, l, rfl, nofun, h⟩
      · rcases bind_eq_error_iff.mp h with h | ⟨_, -, h⟩
        · obtain ⟨before, x, after, rfl, hbefore, hx⟩ := ih.mp h
          exact ⟨a :: before, x, after, rfl, List.forall_mem_cons.mpr ⟨⟨b, hb⟩, hbefore⟩, hx⟩
        · cases h
    · rintro ⟨before, x, after, h, hbefore, hx⟩
      cases before with
      | nil => cases h; exact .inl hx
      | cons y before =>
        cases h
        obtain ⟨⟨b, hb⟩, hbefore⟩ := List.forall_mem_cons.mp hbefore
        have hrest := ih.mpr ⟨before, x, after, rfl, hbefore, hx⟩
        exact .inr ⟨b, hb, bind_eq_error_iff.mpr (.inl hrest)⟩

/-- A list of computations succeeds if each of them does. -/
theorem exists_mapM_eq_ok_iff {l : List α} :
    (∃ out, l.mapM f = .ok out) ↔ ∀ a ∈ l, ∃ b, f a = .ok b := by
  constructor
  · rintro ⟨out, h⟩ a ha
    obtain ⟨k, hk⟩ := List.mem_iff_getElem?.mp ha
    obtain ⟨b, -, hb⟩ := (getElem?_of_mapM h).2 k a hk
    exact ⟨b, hb⟩
  · intro h
    cases hl : l.mapM f with
    | ok out => exact ⟨out, rfl⟩
    | error e =>
      obtain ⟨before, a, after, rfl, -, ha⟩ := mapM_eq_error_iff.mp hl
      obtain ⟨b, hb⟩ := h a (List.mem_append_right _ List.mem_cons_self)
      cases ha.symm.trans hb

end

theorem run_bind_eq_ok {σ α β : Type} {x : EStateM Error σ α} {f : α → EStateM Error σ β} {s t : σ}
    {b : β} : (x >>= f).run s = .ok b t ↔ ∃ a r, x.run s = .ok a r ∧ (f a).run r = .ok b t := by
  change EStateM.bind x f s = .ok b t ↔ ∃ a r, x s = .ok a r ∧ f a r = .ok b t
  rw [EStateM.bind]
  cases x s with
  | error e r => simp
  | ok a r =>
    refine ⟨fun h => ⟨a, r, rfl, h⟩, ?_⟩
    rintro ⟨_, _, h, hf⟩
    cases h
    exact hf

/-! ## Aliases -/

/-- The aliases in scope. -/
abbrev Aliases := Symbol → Option Qualifier

namespace Aliases

/-- The aliases after some more generators were given the next numbers. -/
def bind (aliases : Aliases) (count : Nat) : List Symbol → Aliases
  | [] => aliases
  | s :: rest =>
    bind (fun t => if t = s then some (.numbered (count + 1)) else aliases t) (count + 1) rest

/-- What stands for the rows of a generator. -/
def lookup (aliases : Aliases) (s : Symbol) : Except Error Qualifier :=
  match aliases s with
  | some q => .ok q
  | none => .error (.malformed (.unbound s))

theorem bind_of_not_mem {symbols : List Symbol} {s : Symbol} (h : s ∉ symbols) :
    ∀ (aliases : Aliases) (count : Nat), aliases.bind count symbols s = aliases s := by
  induction symbols with
  | nil => intro aliases count; rfl
  | cons t rest ih =>
    intro aliases count
    rw [List.mem_cons, not_or] at h
    rw [bind, ih h.2, if_neg h.1]

/-- A symbol that is bound has one of the next numbers. -/
theorem bind_of_mem {symbols : List Symbol} {s : Symbol} (h : s ∈ symbols) :
    ∀ (aliases : Aliases) (count : Nat),
      ∃ n, count < n ∧ aliases.bind count symbols s = some (.numbered n) := by
  induction symbols with
  | nil => exact absurd h List.not_mem_nil
  | cons t rest ih =>
    intro aliases count
    rw [bind]
    by_cases hr : s ∈ rest
    · obtain ⟨n, hn, hs⟩ := ih hr _ (count + 1)
      exact ⟨n, Nat.lt_of_succ_lt hn, hs⟩
    · have hst : s = t := (List.mem_cons.mp h).resolve_right hr
      refine ⟨count + 1, Nat.lt_succ_self count, ?_⟩
      rw [bind_of_not_mem hr, if_pos hst]

section
variable {aliases : Aliases} {s : Symbol} {α : Type} {f : Qualifier → α}

theorem map_lookup_eq_ok {a : α} (h : (aliases.lookup s).map f = .ok a) :
    ∃ q, aliases s = some q ∧ a = f q := by
  rw [lookup] at h
  cases hs : aliases s with
  | none => rw [hs] at h; cases h
  | some q =>
    rw [hs] at h
    cases h
    exact ⟨q, rfl, rfl⟩

theorem map_lookup_eq_error {e : Error} (h : (aliases.lookup s).map f = .error e) :
    aliases s = none ∧ e = .malformed (.unbound s) := by
  rw [lookup] at h
  cases hs : aliases s with
  | some q => rw [hs] at h; cases h
  | none =>
    rw [hs] at h
    cases h
    exact ⟨rfl, rfl⟩

end

end Aliases

/-- What a script adds to a statement, and the number of aliases handed out after it. -/
structure Output where
  pieces : List Piece := []
  aliasCount : Nat
  /-- The rows left to the caller to skip, if the script says so. -/
  skipRows : Option UInt64 := none

/-- One output after another. -/
def Output.append (first second : Output) : Output where
  pieces := first.pieces ++ second.pieces
  aliasCount := second.aliasCount
  skipRows := second.skipRows.or first.skipRows

/-- A context with an output added to it. -/
def Context.after (c : Context) (o : Output) : Context :=
  { c with
    pieces := c.pieces ++ o.pieces.toArray
    aliasCount := o.aliasCount
    skipRows := o.skipRows.getD c.skipRows }

namespace Script

/-- What a script writes. -/
def output : Script → Aliases → Bool → Nat → Except Error Output
  | done, _, _, count => .ok { aliasCount := count }
  | piece p, _, _, count => .ok { pieces := [p], aliasCount := count }
  | reference s, aliases, _, count =>
    (aliases.lookup s).map fun q => { pieces := [.qualifier q], aliasCount := count }
  | sourceAlias s, aliases, _, count =>
    (aliases.lookup s).map fun q => { pieces := [.words " ", .qualifier q], aliasCount := count }
  | check e, _, _, count => e.map fun _ => { aliasCount := count }
  | checkNested e, _, nested, count =>
    if nested then e.map fun _ => { aliasCount := count } else .ok { aliasCount := count }
  | skipRows n, _, _, count => .ok { aliasCount := count, skipRows := some n }
  | append first second, aliases, nested, count => do
    let x ← first.output aliases nested count
    let y ← second.output aliases nested x.aliasCount
    return x.append y
  | scope symbols body, aliases, nested, count =>
    body.output (aliases.bind count symbols) nested (count + symbols.length)
  | deeper body, aliases, _, count => body.output aliases true count

theorem output_append_eq_ok {first second : Script} {aliases : Aliases} {nested : Bool}
    {count : Nat} {o : Output} (h : (first ++ second).output aliases nested count = .ok o) :
    ∃ x y, first.output aliases nested count = .ok x
      ∧ second.output aliases nested x.aliasCount = .ok y ∧ o = x.append y := by
  obtain ⟨x, hx, h⟩ := bind_eq_ok_iff.mp h
  obtain ⟨y, hy, h⟩ := bind_eq_ok_iff.mp h
  cases h
  exact ⟨x, y, hx, hy, rfl⟩

theorem output_append_eq_error {first second : Script} {aliases : Aliases} {nested : Bool}
    {count : Nat} {e : Error} (h : (first ++ second).output aliases nested count = .error e) :
    first.output aliases nested count = .error e
      ∨ ∃ x, first.output aliases nested count = .ok x
        ∧ second.output aliases nested x.aliasCount = .error e := by
  rcases bind_eq_error_iff.mp h with h | ⟨x, hx, h⟩
  · exact .inl h
  · rcases bind_eq_error_iff.mp h with h | ⟨y, _, h⟩
    · exact .inr ⟨x, hx, h⟩
    · cases h

/-! ## What can go wrong -/

/-- The checks that a script makes. -/
def checks (nested : Bool) : Script → List (Except Error Unit)
  | check e => [e]
  | checkNested e => if nested then [e] else []
  | append first second => first.checks nested ++ second.checks nested
  | scope _ body => body.checks nested
  | deeper body => body.checks true
  | done | piece _ | reference _ | sourceAlias _ | skipRows _ => []

/-- The symbols that have to have an alias where a script begins. -/
def free : Script → List Symbol
  | reference s => [s]
  | sourceAlias s => [s]
  | append first second => first.free ++ second.free
  | scope symbols body => body.free.filter (· ∉ symbols)
  | deeper body => body.free
  | done | piece _ | check _ | checkNested _ | skipRows _ => []

/-- A script that succeeds passes all its checks. -/
theorem check_eq_ok_of_output_ok {σ : Script} : ∀ {aliases : Aliases} {nested : Bool} {count : Nat}
    {o : Output}, σ.output aliases nested count = .ok o → ∀ e ∈ σ.checks nested, e = .ok () := by
  induction σ with
  | done | piece _ | reference _ | sourceAlias _ | skipRows _ =>
    intro _ _ _ _ _ e he
    exact absurd he List.not_mem_nil
  | check e =>
    intro aliases nested count o h e' he'
    rw [checks, List.mem_singleton] at he'
    subst he'
    cases e' with
    | error e => cases h
    | ok u => rfl
  | checkNested e =>
    intro aliases nested count o h e' he'
    cases nested with
    | false => exact absurd he' List.not_mem_nil
    | true =>
      rw [checks, if_pos rfl, List.mem_singleton] at he'
      subst he'
      cases e' with
      | error e => cases h
      | ok u => rfl
  | append first second ih₁ ih₂ =>
    intro aliases nested count o h e he
    obtain ⟨x, y, hx, hy, -⟩ := output_append_eq_ok h
    rcases List.mem_append.mp he with he | he
    · exact ih₁ hx e he
    · exact ih₂ hy e he
  | scope symbols body ih => intro aliases nested count o h e he; exact ih h e he
  | deeper body ih => intro aliases nested count o h e he; exact ih h e he

/-- **Why a script fails**: a check failed, or a symbol has no alias. -/
theorem output_eq_error {σ : Script} : ∀ {aliases : Aliases} {nested : Bool} {count : Nat}
    {e : Error}, σ.output aliases nested count = .error e →
      .error e ∈ σ.checks nested
        ∨ ∃ s ∈ σ.free, aliases s = none ∧ e = .malformed (.unbound s) := by
  induction σ with
  | done | piece _ | skipRows _ => intro _ _ _ _ h; cases h
  | reference s | sourceAlias s =>
    intro aliases nested count e h
    exact .inr ⟨s, List.mem_singleton_self s, Aliases.map_lookup_eq_error h⟩
  | check e =>
    intro aliases nested count e' h
    cases e with
    | ok u => cases h
    | error e => cases h; exact .inl (List.mem_singleton_self _)
  | checkNested e =>
    intro aliases nested count e' h
    cases nested with
    | false => cases h
    | true =>
      cases e with
      | ok u => cases h
      | error e => cases h; exact .inl (List.mem_singleton_self _)
  | append first second ih₁ ih₂ =>
    intro aliases nested count e h
    rcases output_append_eq_error h with h | ⟨x, -, h⟩
    · refine (ih₁ h).imp (List.mem_append_left _) ?_
      rintro ⟨s, hs, h⟩
      exact ⟨s, List.mem_append_left _ hs, h⟩
    · refine (ih₂ h).imp (List.mem_append_right _) ?_
      rintro ⟨s, hs, h⟩
      exact ⟨s, List.mem_append_right _ hs, h⟩
  | scope symbols body ih =>
    intro aliases nested count e h
    refine (ih h).imp id ?_
    rintro ⟨s, hs, hnone, he⟩
    -- a symbol that the scope itself binds has an alias, so this one comes from outside
    have hmem : s ∉ symbols := by
      intro hmem
      obtain ⟨n, -, hsome⟩ := Aliases.bind_of_mem hmem aliases count
      cases hnone.symm.trans hsome
    rw [Aliases.bind_of_not_mem hmem] at hnone
    exact ⟨s, List.mem_filter.mpr ⟨hs, by simpa using hmem⟩, hnone, he⟩
  | deeper body ih => intro aliases nested count e h; exact ih h

/-- A script that succeeds has an alias for each symbol that it needs. -/
theorem ne_none_of_output_ok {σ : Script} : ∀ {aliases : Aliases} {nested : Bool} {count : Nat}
    {o : Output}, σ.output aliases nested count = .ok o → ∀ s ∈ σ.free, aliases s ≠ none := by
  induction σ with
  | done | piece _ | check _ | checkNested _ | skipRows _ =>
    intro _ _ _ _ _ s hs
    exact absurd hs List.not_mem_nil
  | reference t | sourceAlias t =>
    intro aliases nested count o h s hs
    obtain ⟨q, hq, -⟩ := Aliases.map_lookup_eq_ok h
    rw [List.mem_singleton.mp hs, hq]
    exact Option.some_ne_none q
  | append first second ih₁ ih₂ =>
    intro aliases nested count o h s hs
    obtain ⟨x, y, hx, hy, -⟩ := output_append_eq_ok h
    rcases List.mem_append.mp hs with hs | hs
    · exact ih₁ hx s hs
    · exact ih₂ hy s hs
  | scope symbols body ih =>
    intro aliases nested count o h s hs
    obtain ⟨hs, hmem⟩ := List.mem_filter.mp hs
    have hbound := ih h s hs
    rwa [Aliases.bind_of_not_mem (by simpa using hmem)] at hbound
  | deeper body ih => intro aliases nested count o h s hs; exact ih h s hs

/-- Whether a script succeeds does not depend on the number of the next alias. -/
theorem exists_output_of_output {σ : Script} {aliases : Aliases} {nested : Bool} {count : Nat}
    {o : Output} (h : σ.output aliases nested count = .ok o) (count' : Nat) :
    ∃ o', σ.output aliases nested count' = .ok o' := by
  cases h' : σ.output aliases nested count' with
  | ok o' => exact ⟨o', rfl⟩
  | error e =>
    rcases output_eq_error h' with hcheck | ⟨s, hs, hnone, -⟩
    · cases check_eq_ok_of_output_ok h _ hcheck
    · exact absurd hnone (ne_none_of_output_ok h s hs)

/-! ## Running a script -/

/-- Giving generators their aliases, one after the other. -/
theorem forM_bindAlias (symbols : List Symbol) :
    ∀ c : Context, (symbols.forM fun s => discard (Emit.bindAlias s)).run c
      = .ok () { c with
          aliases := Aliases.bind c.aliases c.aliasCount symbols
          aliasCount := c.aliasCount + symbols.length } := by
  induction symbols with
  | nil => intro c; rfl
  | cons s rest ih =>
    intro c
    -- the first generator takes the next number, and the others go on from there
    change (rest.forM fun s => discard (Emit.bindAlias s)).run
      { c.withAlias s (some (.numbered (c.aliasCount + 1))) with
        aliasCount := c.aliasCount + 1 } = _
    rw [ih, List.length_cons, Nat.add_assoc, Nat.add_comm 1 rest.length]
    rfl

/-- Restoring saved aliases changes nothing but aliases, and those only for the symbols saved. -/
theorem restore_aliases (before : Aliases) (symbols : List Symbol) :
    ∀ c : Context, (symbols.map fun s => (s, before s)).foldl
        (fun c pair => c.withAlias pair.1 pair.2) c
      = { c with aliases := fun s => if s ∈ symbols then before s else c.aliases s } := by
  induction symbols with
  | nil => intro c; rfl
  | cons s rest ih =>
    intro c
    rw [List.map_cons, List.foldl_cons, ih]
    refine congrArg (fun a => { c with aliases := a }) (funext fun t => ?_)
    by_cases hr : t ∈ rest
    · simp [hr]
    · by_cases hs : t = s
      · subst hs; simp [hr, Context.withAlias]
      · simp [hr, hs, Context.withAlias]

/-- A scope puts the aliases back that its symbols had before. -/
theorem restore_bind (symbols : List Symbol) (aliases : Aliases) (count : Nat) :
    (fun s => if s ∈ symbols then aliases s else aliases.bind count symbols s) = aliases := by
  funext s
  by_cases h : s ∈ symbols
  · rw [if_pos h]
  · rw [if_neg h, Aliases.bind_of_not_mem h]

theorem after_append (c : Context) (x y : Output) :
    (c.after x).after y = c.after (x.append y) := by
  simp only [Context.after, Output.append, Context.mk.injEq, true_and]
  refine ⟨by simp, ?_⟩
  cases y.skipRows <;> rfl

/-- What running a script comes to: its output is added to the context, or its error is raised. -/
def Runs (σ : Script) (c : Context) : Except Error Output → Prop
  | .ok o => σ.run.run c = .ok () (c.after o)
  | .error e => ∃ c', σ.run.run c = .error e c'

theorem after_nothing (c : Context) : c.after { aliasCount := c.aliasCount } = c := by
  simp [Context.after]

theorem run_piece (p : Piece) (c : Context) :
    (Emit.piece p).run c = .ok () (c.after { pieces := [p], aliasCount := c.aliasCount }) := by
  simp [Emit.piece, Context.after]

theorem run_qualifierOf (s : Symbol) (c : Context) :
    (Emit.qualifierOf s).run c
      = match Aliases.lookup c.aliases s with
        | .ok q => .ok q c
        | .error e => .error e c := by
  change (match c.aliases s with
    | some q => pure q
    | none => throw (.malformed (.unbound s)) : Emit Qualifier).run c = _
  rw [Aliases.lookup]
  cases c.aliases s <;> rfl

theorem runs_check (e : Except Error Unit) (c : Context) :
    Runs (check e) c (e.map fun _ => { aliasCount := c.aliasCount }) := by
  cases e with
  | error e => exact ⟨c, rfl⟩
  | ok u => exact congrArg _ (after_nothing c).symm

theorem runs_append {first second : Script} {c : Context} {x : Output}
    (hx : Runs first c (.ok x)) {r : Except Error Output} (hr : Runs second (c.after x) r) :
    Runs (first ++ second) c (r.map x.append) := by
  have step : (first ++ second).run.run c = second.run.run (c.after x) := by
    change (first.run >>= fun _ => second.run).run c = _
    rw [EStateM.run_bind, show first.run.run c = .ok () (c.after x) from hx]
  cases r with
  | error e =>
    obtain ⟨c', h⟩ := hr
    exact ⟨c', step.trans h⟩
  | ok y =>
    change _ = _
    rw [step, show second.run.run (c.after x) = _ from hr, after_append]

theorem runs_scope {symbols : List Symbol} {body : Script} {c : Context}
    {r : Except Error Output}
    (h : Runs body { c with
      aliases := Aliases.bind c.aliases c.aliasCount symbols
      aliasCount := c.aliasCount + symbols.length } r) :
    Runs (scope symbols body) c r := by
  have step : (scope symbols body).run.run c = (body.run >>= fun _ =>
      Emit.restoreAliases (symbols.map fun s => (s, c.aliases s))).run { c with
        aliases := Aliases.bind c.aliases c.aliasCount symbols
        aliasCount := c.aliasCount + symbols.length } := by
    change ((symbols.forM fun s => discard (Emit.bindAlias s)) >>= fun _ =>
      body.run >>= fun _ => Emit.restoreAliases (symbols.map fun s => (s, c.aliases s))).run c = _
    rw [EStateM.run_bind, forM_bindAlias]
  rw [EStateM.run_bind] at step
  cases r with
  | error e =>
    obtain ⟨c', h⟩ := h
    rw [h] at step
    exact ⟨c', step⟩
  | ok o =>
    rw [show body.run.run _ = _ from h] at step
    refine step.trans (congrArg (EStateM.Result.ok ()) ?_)
    refine (restore_aliases c.aliases symbols _).trans ?_
    exact congrArg (fun a => { c.after o with aliases := a })
      (restore_bind symbols c.aliases c.aliasCount)

theorem runs_deeper {body : Script} {c : Context} {r : Except Error Output}
    (h : Runs body { c with depth := c.depth + 1 } r) : Runs (deeper body) c r := by
  have step : (deeper body).run.run c
      = (body.run >>= fun _ => Emit.leave).run { c with depth := c.depth + 1 } := rfl
  rw [EStateM.run_bind] at step
  cases r with
  | error e =>
    obtain ⟨c', h⟩ := h
    rw [h] at step
    exact ⟨c', step⟩
  | ok o =>
    rw [show body.run.run _ = _ from h] at step
    exact step

/-- **Running a script adds its output to the context.** -/
theorem runs_output {σ : Script} : ∀ c : Context,
    Runs σ c (σ.output c.aliases (decide (0 < c.depth)) c.aliasCount) := by
  induction σ with
  | done => intro c; exact congrArg _ (after_nothing c).symm
  | piece p => intro c; exact run_piece p c
  | reference s =>
    intro c
    have step : (reference s).run.run c
        = (Emit.qualifierOf s >>= fun q => Emit.piece (.qualifier q)).run c := rfl
    rw [EStateM.run_bind, run_qualifierOf] at step
    rw [output]
    cases h : Aliases.lookup c.aliases s with
    | error e => rw [h] at step; exact ⟨c, step⟩
    | ok q => rw [h] at step; exact step.trans (run_piece _ c)
  | sourceAlias s =>
    intro c
    have step : (sourceAlias s).run.run c = (Emit.qualifierOf s >>= fun q =>
        Emit.piece (.words " ") >>= fun _ => Emit.piece (.qualifier q)).run c := rfl
    rw [EStateM.run_bind, run_qualifierOf] at step
    rw [output]
    cases h : Aliases.lookup c.aliases s with
    | error e => rw [h] at step; exact ⟨c, step⟩
    | ok q =>
      rw [h] at step
      refine step.trans ?_
      change (Emit.piece (.words " ") >>= fun _ => Emit.piece (.qualifier q)).run c = _
      rw [EStateM.run_bind, run_piece]
      exact (run_piece _ _).trans (congrArg _ (after_append c _ _))
  | check e => intro c; exact runs_check e c
  | checkNested e =>
    intro c
    by_cases h : 0 < c.depth
    · have step : (checkNested e).run.run c = (check e).run.run c := by
        change (if 0 < c.depth then Emit.check e else pure () : Emit Unit).run c = _
        rw [if_pos h]; rfl
      rw [output, decide_eq_true h, if_pos rfl]
      have hc := runs_check e c
      cases e with
      | error e => exact ⟨c, step⟩
      | ok u => exact step.trans hc
    · have step : (checkNested e).run.run c = .ok () c := by
        change (if 0 < c.depth then Emit.check e else pure () : Emit Unit).run c = _
        rw [if_neg h]; rfl
      rw [output, decide_eq_false h, if_neg Bool.false_ne_true]
      exact step.trans (congrArg _ (after_nothing c).symm)
  | skipRows n => intro c; simp [output, Runs, run, Context.after, Emit.skipRows]
  | append first second ih₁ ih₂ =>
    intro c
    have h₁ := ih₁ c
    rw [output]
    cases hx : first.output c.aliases (decide (0 < c.depth)) c.aliasCount with
    | error e =>
      rw [hx] at h₁
      obtain ⟨c', h₁⟩ := h₁
      refine ⟨c', ?_⟩
      change (first.run >>= fun _ => second.run).run c = _
      rw [EStateM.run_bind, h₁]
    | ok x =>
      rw [hx] at h₁
      exact runs_append h₁ (ih₂ (c.after x))
  | scope symbols body ih => intro c; exact runs_scope (ih _)
  | deeper body ih =>
    intro c
    have h := ih { c with depth := c.depth + 1 }
    rw [decide_eq_true (Nat.succ_pos c.depth)] at h
    exact runs_deeper h

/-- The outcome of running a script, whatever was written before a failure. -/
theorem outcome_run (σ : Script) (c : Context) :
    (match σ.run.run c with
      | .ok _ c' => .ok c'
      | .error e _ => .error e)
      = (σ.output c.aliases (decide (0 < c.depth)) c.aliasCount).map c.after := by
  have h := runs_output (σ := σ) c
  cases ho : σ.output c.aliases (decide (0 < c.depth)) c.aliasCount with
  | error e =>
    rw [ho] at h
    obtain ⟨c', h⟩ := h
    rw [h]; rfl
  | ok o =>
    rw [ho] at h
    rw [show σ.run.run c = _ from h]; rfl

theorem run_eq_ok_iff {σ : Script} {c c' : Context} :
    σ.run.run c = .ok () c'
      ↔ ∃ o, σ.output c.aliases (decide (0 < c.depth)) c.aliasCount = .ok o ∧ c' = c.after o := by
  have h := runs_output (σ := σ) c
  cases ho : σ.output c.aliases (decide (0 < c.depth)) c.aliasCount with
  | error e =>
    rw [ho] at h
    obtain ⟨c₁, h⟩ := h
    simp [h]
  | ok o =>
    rw [ho] at h
    simp only [show σ.run.run c = .ok () (c.after o) from h, EStateM.Result.ok.injEq, true_and,
      Except.ok.injEq, exists_eq_left']
    exact eq_comm

end Script

/-! ## Compiled statements -/

/-- The qualifiers in scope of a statement about a target: its own name, for its rows. -/
def Target.aliases (t : Target) : Aliases :=
  fun s => if s = t.binder then some (.table t.table) else none

theorem run_pieces (pieces : List Piece) : ∀ c : Context,
    (pieces.forM Emit.piece).run c = .ok () (c.after { pieces, aliasCount := c.aliasCount }) := by
  induction pieces with
  | nil => intro c; simp [Context.after]
  | cons p rest ih =>
    intro c
    have step : ((p :: rest).forM Emit.piece).run c
        = (rest.forM Emit.piece).run { c with pieces := c.pieces.push p } := rfl
    rw [step, ih]
    simp [Context.after]

namespace Query

/-- The select statement of a query, by the output of its script. -/
theorem compile_eq (d : Dialect) (q : Query) :
    q.compile d = do
      checkScope q
      let o ← (Query.script d q).output (fun _ => none) false 0
      return {
        quote := d.quote
        pieces := o.pieces
        columnCount := columnCount q
        skipRows := o.skipRows.getD 0 } := by
  have h : run (write d q)
      = ((Query.script d q).output (fun _ => none) false 0).map (Context.after {}) :=
    Script.outcome_run (Query.script d q) {}
  rw [compile, h]
  refine congrArg _ (funext fun _ => ?_)
  cases (Query.script d q).output (fun _ => none) false 0 with
  | error e => rfl
  | ok o =>
    simp only [Except.map, Context.after, Array.empty_append]
    rfl

/-- What is written about a target, by the output of its filters. -/
theorem run_target_eq (d : Dialect) (t : Target) (beginning : List Piece) (q : Query) :
    (run (t.write d beginning q)).map (fun c => c.pieces.toList)
      = ((Script.filters (Query.rendering d q)).output t.aliases false 0).map
          fun o => beginning ++ o.pieces := by
  let start : Context := Context.withAlias {} t.binder (some (.table t.table))
  have step : (t.write d beginning q).run {}
      = (Render.filters (Query.rendering d q)).run
          (start.after { pieces := beginning, aliasCount := 0 }) := by
    change (beginning.forM Emit.piece >>= fun _ => Render.filters (Query.rendering d q)).run
      start = _
    rw [EStateM.run_bind, run_pieces]
    rfl
  have h : run (t.write d beginning q)
      = ((Script.filters (Query.rendering d q)).output t.aliases false 0).map
          (start.after { pieces := beginning, aliasCount := 0 }).after := by
    rw [run, step]
    exact Script.outcome_run (Script.filters (Query.rendering d q)) _
  rw [h]
  cases (Script.filters (Query.rendering d q)).output t.aliases false 0 with
  | error e => rfl
  | ok o => simp [start, Except.map, Context.after, Context.withAlias]

/-- The delete statement of a query, by the output of its filters. -/
theorem compileDelete_eq (d : Dialect) (q : Query) :
    q.compileDelete d = do
      checkScope q
      let t ← Target.ofQuery "delete" q
      let o ← (Script.filters (Query.rendering d q)).output t.aliases false 0
      return {
        quote := d.quote
        pieces := [.words "delete from ", .name t.table] ++ o.pieces } := by
  rw [compileDelete]
  refine congrArg _ (funext fun _ => congrArg _ (funext fun t => ?_))
  refine (bind_return_eq _ (fun c : Context => c.pieces.toList)
    fun ps => ({ quote := d.quote, pieces := ps } : Statement)).trans ?_
  rw [run_target_eq]
  cases (Script.filters (Query.rendering d q)).output t.aliases false 0 <;> rfl

/-- What an update writes before its filters: the columns to set, each with a placeholder. -/
def updateBeginning (t : Target) (columns : List String) : List Piece :=
  [.words "update ", .name t.table, .words " set "]
    ++ Piece.separated (.words ", ") (columns.map fun c => [.name c, .words " = ", .input])

/-- The update statement of a query, by the output of its filters. -/
theorem compileUpdate_eq (d : Dialect) (q : Query) :
    q.compileUpdate d = do
      checkScope q
      let t ← Target.ofQuery "update" q
      let columns ← Target.columnNames "update" (some t.binder) (← Update.targets q)
      let o ← (Script.filters (Query.rendering d q)).output t.aliases false 0
      return {
        quote := d.quote
        pieces := updateBeginning t columns ++ o.pieces
        columns } := by
  rw [compileUpdate]
  refine congrArg _ (funext fun _ => congrArg _ (funext fun t => congrArg _ (funext fun ns =>
    congrArg _ (funext fun columns => ?_))))
  change (run (t.write d (updateBeginning t columns) q) >>= _) = _
  refine (bind_return_eq _ (fun c : Context => c.pieces.toList)
    fun ps => ({ quote := d.quote, pieces := ps, columns } : Update)).trans ?_
  rw [run_target_eq]
  cases (Script.filters (Query.rendering d q)).output t.aliases false 0 <;> rfl

end Query
end SqlCompiler
