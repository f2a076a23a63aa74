import SqlCompiler.Proofs.Bindings
import SqlCompiler.Proofs.Texts

/-!
# Writing without touching quoted regions

Two things have to be shown of every script before the placeholders of its text can be counted:
that it writes its pieces so that no two quoted regions touch, and that the placeholders among them
are the ones for what the tree binds.  `Script.Writes` says both.  It is a triple: before the script
there may or may not be a quoted region right at its left, and the same is said of what comes after
it, so scripts can be put one after the other.

* `Script.Writes`, with a rule for every way of putting scripts together.
* `Script.writes_expression`, `Script.writes_clauses` — the rules for nodes and for queries.
* `Script.writes_tree` — the rule for trees, by induction along their writing.
-/

set_option autoImplicit false
namespace SqlCompiler

open Text

theorem Text.IsWord.fine {names : Quote} (hn : names.Known) {text : String} (h : IsWord text) :
    (Piece.words text).Fine names :=
  ⟨h.1, h.2.plain hn⟩

/-- Aliases whose texts the scanner gets over. -/
def Aliases.Fine (names : Quote) (aliases : Aliases) : Prop :=
  ∀ s q, aliases s = some q → (Piece.qualifier q).Fine names

theorem Aliases.Fine.bind {names : Quote} {symbols : List Symbol} :
    ∀ {aliases : Aliases} (_ : aliases.Fine names) (count : Nat),
      (aliases.bind count symbols).Fine names := by
  induction symbols with
  | nil => intro aliases h count; exact h
  | cons s rest ih =>
    intro aliases h count
    refine ih (fun t q hq => ?_) (count + 1)
    split at hq
    · cases hq; trivial
    · exact h t q hq

/-- The placeholder for what is bound. -/
def Binding.piece (d : Dialect) (b : Binding) : Piece :=
  .placeholder ⟨d.types.column b.kind, b.source⟩

namespace Script

/-- A script that writes the placeholders for `bs` among pieces whose quoted regions do not touch.
It may begin with a quoted region if `before` is set, and leaves room for one after it if `after`
is set. -/
def Writes (d : Dialect) (before after : Bool) (bs : List Binding) (σ : Script) : Prop :=
  ∀ ⦃aliases : Aliases⦄ ⦃nested : Bool⦄ ⦃count : Nat⦄ ⦃o : Output⦄,
    aliases.Fine d.quote → σ.output aliases nested count = .ok o →
      (∀ ps, Piece.Spaced d.quote after ps → Piece.Spaced d.quote before (o.pieces ++ ps))
        ∧ o.pieces.filter Piece.isPlaceholder = bs.map (Binding.piece d)

variable {d : Dialect} {before between after : Bool} {as bs cs : List Binding}

/-! ## Single instructions -/

theorem Writes.append {σ τ : Script} (h₁ : Writes d before between as σ)
    (h₂ : Writes d between after bs τ) : Writes d before after (as ++ bs) (σ ++ τ) := by
  intro aliases nested count o ha ho
  obtain ⟨x, y, hx, hy, rfl⟩ := output_append_eq_ok ho
  obtain ⟨hspaced₁, hfilter₁⟩ := h₁ ha hx
  obtain ⟨hspaced₂, hfilter₂⟩ := h₂ ha hy
  constructor
  · intro ps hps
    rw [Output.append, List.append_assoc]
    exact hspaced₁ _ (hspaced₂ ps hps)
  · rw [Output.append, List.filter_append, hfilter₁, hfilter₂, List.map_append]

/-- Scripts of which the first one binds nothing. -/
theorem Writes.preceded {σ τ : Script} (h₁ : Writes d before between [] σ)
    (h₂ : Writes d between after bs τ) : Writes d before after bs (σ ++ τ) :=
  h₁.append h₂

/-- Scripts of which the second one binds nothing. -/
theorem Writes.followed {σ τ : Script} (h₁ : Writes d before between bs σ)
    (h₂ : Writes d between after [] τ) : Writes d before after bs (σ ++ τ) := by
  have h := h₁.append h₂
  rwa [List.append_nil] at h

/-- Room for a quoted region need not be used. -/
theorem Writes.closed {σ : Script} (h : Writes d before true bs σ) :
    Writes d before false bs σ := by
  intro aliases nested count o ha ho
  obtain ⟨hspaced, hfilter⟩ := h ha ho
  exact ⟨fun ps hps => hspaced ps hps.weaken, hfilter⟩

/-- A script may be taken to pass its checks. -/
theorem Writes.of_check {σ : Script} {e : Except Error Unit} (hmem : ∀ nested, e ∈ σ.checks nested)
    (h : e = .ok () → Writes d before after bs σ) : Writes d before after bs σ := by
  intro aliases nested count o ha ho
  exact h (check_eq_ok_of_output_ok ho e (hmem nested)) ha ho

theorem writes_done : Writes d before before [] done := by
  intro aliases nested count o ha ho
  cases ho
  exact ⟨fun ps hps => hps, rfl⟩

theorem writes_skipRows (n : UInt64) : Writes d before before [] (skipRows n) := by
  intro aliases nested count o ha ho
  cases ho
  exact ⟨fun ps hps => hps, rfl⟩

theorem writes_check (e : Except Error Unit) : Writes d before before [] (check e) := by
  intro aliases nested count o ha ho
  cases e with
  | error e => cases ho
  | ok u =>
    cases ho
    exact ⟨fun ps hps => hps, rfl⟩

theorem writes_checkNested (e : Except Error Unit) :
    Writes d before before [] (checkNested e) := by
  intro aliases nested count o ha ho
  cases nested with
  | false =>
    cases ho
    exact ⟨fun ps hps => hps, rfl⟩
  | true => exact writes_check e ha (show (check e).output aliases true count = .ok o from ho)

theorem writes_fail (e : Error) : Writes d before after bs (fail e) := by
  intro aliases nested count o ha ho
  cases ho

theorem writes_checked {α : Type} {r : Except Error α} {body : α → Script}
    (h : ∀ a, r = .ok a → Writes d before after bs (body a)) :
    Writes d before after bs (checked r body) := by
  cases r with
  | error e => exact writes_fail e
  | ok a => exact h a rfl

/-- A piece that is no placeholder. -/
theorem writes_piece {p : Piece} (hp : p.isPlaceholder = false) (hfine : p.Fine d.quote)
    (hbefore : p.isQuoted = true → before = true) : Writes d before (!p.isQuoted) [] (piece p) := by
  intro aliases nested count o ha ho
  cases ho
  refine ⟨fun ps hps => ⟨hbefore, hfine, hps⟩, ?_⟩
  rw [List.filter_cons, hp]
  rfl

theorem writes_words {text : String} (h : (Piece.words text).Fine d.quote) :
    Writes d before true [] (words text) :=
  writes_piece rfl h nofun

theorem writes_word (hd : d.quote.Known) {text : String} (h : IsWord text) :
    Writes d before true [] (words text) :=
  writes_words (h.fine hd)

theorem writes_wordsIfAny {text : String} (h : Plain d.quote text.toList) :
    Writes d before before [] (wordsIfAny text) := by
  rw [wordsIfAny]
  split
  · exact writes_done
  · next hempty =>
    have hne : text.toList ≠ [] := by
      intro hnil
      rw [String.toList_eq_nil_iff.mp hnil] at hempty
      exact hempty rfl
    have hwords : Writes d before true [] (words text) := writes_words ⟨hne, h⟩
    cases before with
    | true => exact hwords
    | false => exact hwords.closed

theorem writes_name (n : String) : Writes d true false [] (name n) :=
  writes_piece rfl trivial fun _ => rfl

theorem writes_nameText (n : String) : Writes d true false [] (piece (.nameText n)) :=
  writes_piece rfl trivial fun _ => rfl

theorem writes_constant {text : String} (h : Skippable d.quote text.toList) :
    Writes d true false [] (piece (.constant text)) :=
  writes_piece rfl h fun _ => rfl

theorem writes_placeholder (kind : Kind) (source : Source) :
    Writes d before true [⟨kind, source⟩] (placeholder (d.types.column kind) source) := by
  intro aliases nested count o ha ho
  cases ho
  exact ⟨fun ps hps => ⟨nofun, trivial, hps⟩, rfl⟩

theorem writes_reference (s : Symbol) : Writes d true false [] (reference s) := by
  intro aliases nested count o ha ho
  obtain ⟨q, hs, rfl⟩ := Aliases.map_lookup_eq_ok ho
  exact ⟨fun ps hps => ⟨fun _ => rfl, ha s q hs, hps⟩, rfl⟩

theorem writes_sourceAlias (hd : d.quote.Known) (s : Symbol) :
    Writes d before false [] (sourceAlias s) := by
  intro aliases nested count o ha ho
  obtain ⟨q, hs, rfl⟩ := Aliases.map_lookup_eq_ok ho
  have hblank : (Piece.words " ").Fine d.quote :=
    IsWord.fine hd (by decide)
  exact ⟨fun ps hps => ⟨nofun, hblank, fun _ => rfl, ha s q hs, hps⟩, rfl⟩

theorem Writes.scope {symbols : List Symbol} {body : Script} (h : Writes d before after bs body) :
    Writes d before after bs (scope symbols body) := by
  intro aliases nested count o ha ho
  exact h (ha.bind count) ho

theorem Writes.deeper {body : Script} (h : Writes d before after bs body) :
    Writes d before after bs (deeper body) := by
  intro aliases nested count o ha ho
  exact h ha ho

/-! ## Lists of scripts -/

section
variable {ι : Type} {l : List ι} {σ : ι → Script} {f : ι → List Binding}

theorem writes_eachAfter {separator : String} (hs : (Piece.words separator).Fine d.quote)
    (h : ∀ i ∈ l, Writes d true false (f i) (σ i)) :
    Writes d false false (l.flatMap f) (eachAfter separator (l.map σ)) := by
  induction l with
  | nil => exact writes_done
  | cons i l ih =>
    have hfirst : Writes d false false (f i) (words separator ++ σ i) :=
      (writes_words hs).preceded (h i List.mem_cons_self)
    exact hfirst.append (ih fun j hj => h j (List.mem_cons_of_mem _ hj))

theorem writes_separated {separator : String} (hs : (Piece.words separator).Fine d.quote)
    (h : ∀ i ∈ l, Writes d true false (f i) (σ i)) :
    Writes d true false (l.flatMap f) (separated separator (l.map σ)) := by
  cases l with
  | nil => exact writes_done.closed
  | cons i l =>
    exact (h i List.mem_cons_self).append
      (writes_eachAfter hs fun j hj => h j (List.mem_cons_of_mem _ hj))

/-- Arguments with the words of a spelling between them, as far as there are any to be kept
apart. -/
theorem writes_argumentList {s : Spelling}
    (hfirst : 2 ≤ l.length → (Piece.words s.first).Fine d.quote)
    (hnext : 3 ≤ l.length → (Piece.words s.next).Fine d.quote)
    (h : ∀ i ∈ l, Writes d true false (f i) (σ i)) :
    Writes d true false (l.flatMap f) (argumentList s (l.map σ)) := by
  match l with
  | [] => exact writes_done.closed
  | [i] =>
    rw [List.flatMap_singleton]
    exact h i List.mem_cons_self
  | i :: j :: rest =>
    have hij : Writes d true false (f i ++ f j) (σ i ++ words s.first ++ σ j) :=
      ((h i List.mem_cons_self).followed
        (writes_words (hfirst (Nat.le_add_left 2 rest.length)))).append
        (h j (List.mem_cons_of_mem _ List.mem_cons_self))
    rw [List.flatMap_cons, List.flatMap_cons, ← List.append_assoc]
    refine hij.append ?_
    cases rest with
    | nil => exact writes_done
    | cons k rest =>
      refine writes_eachAfter (hnext (Nat.le_add_left 3 rest.length)) fun k' hk' => ?_
      exact h k' (List.mem_cons_of_mem _ (List.mem_cons_of_mem _ hk'))

theorem writes_spelled {s : Spelling} (hopening : (Piece.words s.opening).Fine d.quote)
    (hfirst : 2 ≤ l.length → (Piece.words s.first).Fine d.quote)
    (hnext : 3 ≤ l.length → (Piece.words s.next).Fine d.quote)
    (hclosing : Plain d.quote s.closing.toList)
    (h : ∀ i ∈ l, Writes d true false (f i) (σ i)) :
    Writes d before false (l.flatMap f) (spelled s (l.map σ)) :=
  ((writes_words hopening).preceded (writes_argumentList hfirst hnext h)).followed
    (writes_wordsIfAny hclosing)

end

/-! ## Nodes -/

theorem writes_literal (hd : d.quote.Known) (c : Literal) :
    Writes d true false ((Node.literal c).bindings d) (literal d c) := by
  rw [literal, Node.bindings_literal]
  by_cases hc : c.bind = true
  · rw [if_pos hc, if_pos hc]
    exact writes_checked fun _ _ => (writes_placeholder c.kind (.constant c.value)).closed
  · rw [if_neg hc, if_neg hc]
    split
    · exact writes_fail _
    · exact writes_checked fun text ht => writes_constant (ColumnType.inert_inline hd ht).skippable

/-- The texts around an additional key for nulls are words. -/
theorem isWord_extraKey {k : NullKeys} {nulls : NullPlacement} {opening behind : String}
    (h : k.extraKey? nulls = some (opening, behind)) : IsWord opening ∧ IsWord behind := by
  cases k <;> cases nulls <;> first | cases h; decide | cases h

theorem neutral_suffix (k : NullKeys) (nulls : NullPlacement) : Neutral (k.suffix nulls) := by
  cases k <;> cases nulls <;> decide

/-- An ordering key, once or twice. -/
theorem writes_sortKey (hd : d.quote.Known) {k : SortKey Node}
    (h : Writes d true false (k.key.bindings d) (k.key.script d)) :
    Writes d true false ((SortKey.written d [k]).flatMap (Node.bindings d))
      (sortKey d ⟨k.key.rendering d, k.order⟩) := by
  have hdirection : Writes d false false []
      (if k.order.isDescending then words " desc" else done) := by
    split
    · exact (writes_word hd (by decide)).closed
    · exact writes_done
  have hsuffix : Writes d false false [] (wordsIfAny (d.nullKeys.suffix k.order.nulls)) :=
    writes_wordsIfAny ((neutral_suffix _ _).plain hd)
  rw [SortKey.written, List.flatMap_singleton, sortKey]
  refine Writes.followed (Writes.followed ?_ hdirection) hsuffix
  cases hkey : d.nullKeys.extraKey? k.order.nulls with
  | none =>
    simp only [Option.isSome_none, Bool.false_eq_true, if_false, List.flatMap_singleton]
    exact writes_done.preceded h
  | some texts =>
    obtain ⟨opening, behind⟩ := texts
    obtain ⟨hopening, hbehind⟩ := isWord_extraKey hkey
    simp only [Option.isSome_some, if_true, List.flatMap_cons, List.flatMap_nil, List.append_nil]
    exact (((writes_word hd hopening).preceded h).followed (writes_word hd hbehind)).append h

theorem writes_sortKeys (hd : d.quote.Known) {keys : List (SortKey Node)}
    (h : ∀ k ∈ keys, Writes d true false (k.key.bindings d) (k.key.script d)) :
    Writes d true false ((SortKey.written d keys).flatMap (Node.bindings d))
      (sortKeys d (keys.map fun k => ⟨k.key.rendering d, k.order⟩)) := by
  have hflat : (SortKey.written d keys).flatMap (Node.bindings d)
      = keys.flatMap fun k => (SortKey.written d [k]).flatMap (Node.bindings d) := by
    simp only [SortKey.written, List.flatMap_assoc, List.flatMap_singleton]
  rw [sortKeys, hflat, List.map_map]
  exact writes_separated (IsWord.fine hd (by decide))
    fun k hk => writes_sortKey hd (h k hk)

/-- The check for what a function demands. -/
theorem writes_demand (demand : Option Capability) :
    Writes d true true [] (match demand with
      | some c => check (d.require c)
      | none => done) := by
  cases demand with
  | some c => exact writes_check _
  | none => exact writes_done

theorem writes_apply (hd : d.Legible) {f : Function} {arguments : List Node}
    (hcall : ∀ name, f = .named name → Plain d.quote name.toList)
    (h : ∀ n ∈ arguments, Writes d true false (n.bindings d) (n.script d)) :
    Writes d true false (arguments.flatMap (Node.bindings d))
      (apply d f (arguments.map (Node.rendering d))) := by
  rw [apply]
  refine Writes.of_check (e := f.checkArity (arguments.map (Node.rendering d)).length)
    (fun nested => ?_) fun harity => ?_
  · exact List.mem_append_left _ (List.mem_append_left _ (List.mem_append_left _
      List.mem_cons_self))
  rw [List.length_map] at harity
  refine Writes.preceded
    (((writes_check _).preceded (writes_demand _)).preceded (writes_check _)) ?_
  rw [List.map_map]
  -- an application of the user's function is spelled as a call of its name
  by_cases hf : ∃ name, f = .named name
  · obtain ⟨name, rfl⟩ := hf
    rw [hd.named]
    have hcomma : (Piece.words ", ").Fine d.quote :=
      IsWord.fine hd.quote (by decide)
    refine writes_spelled ⟨?_, ?_⟩ (fun _ => hcomma) (fun _ => hcomma)
      (Neutral.plain (s := ")") hd.quote (by decide)) h
    · simp [Spelling.call]
    · intro c hc
      rw [Spelling.call, String.toList_append] at hc
      rcases List.mem_append.mp hc with hc | hc
      · exact hcall name rfl c hc
      · exact Neutral.plain (s := "(") hd.quote (by decide) c hc
  · have hspelling := hd.spelling f fun name hname => hf ⟨name, hname⟩
    have hmost : f.arity.most.all (arguments.length ≤ ·) = true := by
      rw [Function.checkArity] at harity
      split at harity
      · next haccepts => exact (Bool.and_eq_true_iff.mp haccepts).2
      · cases harity
    have enough : ∀ {n : Nat} {text : String},
        f.arity.most.any (· < n) = true ∨ IsWord text → n ≤ arguments.length →
          (Piece.words text).Fine d.quote := by
      intro n text hword hn
      rcases hword with hfew | hword
      · cases hm : f.arity.most with
        | none => rw [hm] at hfew; cases hfew
        | some most =>
          rw [hm] at hfew hmost
          have hlt : most < n := of_decide_eq_true hfew
          have hle : arguments.length ≤ most := of_decide_eq_true hmost
          omega
      · exact hword.fine hd.quote
    exact writes_spelled (hspelling.opening.fine hd.quote)
      (enough hspelling.first) (enough hspelling.next) (hspelling.closing.plain hd.quote) h

/-- The last branch of a conditional. -/
theorem writes_otherwise (hd : d.Legible) (otherwise : Option Node)
    (h : ∀ n, otherwise = some n → Writes d true false (n.bindings d) (n.script d)) :
    Writes d false false (otherwise.toList.flatMap (Node.bindings d))
      (match otherwise.map (Node.rendering d) with
        | some r => words d.conditional.otherwise ++ r.script
        | none => done) := by
  cases otherwise with
  | none => exact writes_done
  | some n =>
    rw [Option.toList_some, List.flatMap_singleton]
    exact (writes_word hd.quote hd.conditional.otherwise).preceded (h n rfl)

theorem writes_conditional (hd : d.Legible) {branches : List (Branch Node)}
    {otherwise : Option Node}
    (h : ∀ n ∈ (Shape.cases branches otherwise).children,
      Writes d true false (n.bindings d) (n.script d)) :
    Writes d true false ((Shape.cases branches otherwise).children.flatMap (Node.bindings d))
      (conditional d (branches.map fun b => ⟨b.condition.rendering d, b.value.rendering d⟩)
        (otherwise.map (Node.rendering d))) := by
  obtain ⟨hopening, hfirst, hnext, hvalue, -, hclosing⟩ := hd.conditional
  have hbranches : ∀ b ∈ branches, Writes d true false
      (b.condition.bindings d ++ b.value.bindings d)
      (branch d ⟨b.condition.rendering d, b.value.rendering d⟩) := by
    intro b hb
    have hmem : ∀ n ∈ [b.condition, b.value], n ∈ (Shape.cases branches otherwise).children :=
      fun n hn => List.mem_append_left _ (List.mem_flatMap.mpr ⟨b, hb, hn⟩)
    have hcondition := h b.condition (hmem _ List.mem_cons_self)
    have hresult := h b.value (hmem _ (List.mem_cons_of_mem _ List.mem_cons_self))
    exact (hcondition.followed (writes_word hd.quote hvalue)).append hresult
  have helse := writes_otherwise hd otherwise fun n hn =>
    h n (List.mem_append_right _ (Option.mem_toList.mpr hn))
  have hflat : (branches.flatMap fun b => [b.condition, b.value]).flatMap (Node.bindings d)
      = branches.flatMap fun b => b.condition.bindings d ++ b.value.bindings d := by
    simp only [List.flatMap_assoc, List.flatMap_cons, List.flatMap_nil, List.append_nil]
  rw [conditional.eq_def]
  split
  · exact writes_fail _
  · rw [Shape.children, List.flatMap_append, hflat, List.map_map]
    refine Writes.closed (Writes.followed (Writes.append ?_ helse)
      (writes_word hd.quote hclosing))
    refine Writes.preceded ((writes_word hd.quote hopening).preceded
      (writes_wordsIfAny (hfirst.plain hd.quote))) ?_
    exact writes_separated (hnext.fine hd.quote) hbranches

theorem writes_rowNumber (hd : d.quote.Known) {keys : List (SortKey Node)}
    (h : ∀ k ∈ keys, Writes d true false (k.key.bindings d) (k.key.script d)) :
    Writes d true false ((SortKey.written d keys).flatMap (Node.bindings d))
      (rowNumber d (keys.map fun k => ⟨k.key.rendering d, k.order⟩)) := by
  have hkeys : Writes d true false ((SortKey.written d keys).flatMap (Node.bindings d))
      (if (keys.map fun k => (⟨k.key.rendering d, k.order⟩ : SortKey Rendering)).isEmpty then
        words "(select 1)"
      else sortKeys d (keys.map fun k => ⟨k.key.rendering d, k.order⟩)) := by
    cases keys with
    | nil => exact (writes_word hd (by decide)).closed
    | cons k keys => exact writes_sortKeys hd h
  rw [rowNumber]
  split
  · exact (((writes_word hd (by decide)).preceded hkeys).followed
      (writes_word hd (by decide))).closed
  · exact writes_fail _

theorem writes_sequenceCall (hd : d.Legible) {opening : String} (h : IsWord opening)
    (sequence : String) : Writes d true false [] (sequenceCall d opening sequence) := by
  have hname : Writes d true false []
      (piece (if d.sequences.asText then .nameText sequence else .name sequence)) := by
    split
    · exact writes_nameText sequence
    · exact writes_name sequence
  exact (((writes_word hd.quote h).preceded hname).followed
    (writes_word hd.quote hd.closing)).closed

/-- **The rule for a node that is no query.** -/
theorem writes_expression (hd : d.Legible) {s : Shape Node} (hquery : ∀ q, s ≠ .query q)
    (hcall : ∀ name ∈ s.call, Plain d.quote name.toList)
    (h : ∀ n ∈ s.children, Writes d true false (n.bindings d) (n.script d)) :
    Writes d true false ((Node.mk s).bindings d) ((Node.mk s).script d) := by
  cases s with
  | query q => exact absurd rfl (hquery q)
  | table _ | row _ | product _ | record _ =>
    rw [Node.script_refused d (by simp)]
    exact writes_fail _
  | column source name =>
    rw [Node.script_column, Node.bindings_column]
    exact ((writes_reference source).preceded (writes_word hd.quote (by decide))).preceded
      (writes_name name)
  | literal c =>
    rw [Node.script_literal]
    exact writes_literal hd.quote c
  | parameter index kind =>
    rw [Node.script_parameter, Node.bindings_mk]
    exact (writes_placeholder kind (.argument index.toNat)).closed
  | apply f arguments =>
    rw [Node.script_apply, Node.bindings_mk]
    refine writes_apply hd (fun name hf => ?_) h
    subst hf
    exact hcall name List.mem_cons_self
  | cases branches otherwise =>
    rw [Node.script_cases, Node.bindings_mk]
    exact writes_conditional hd h
  | rowNumber keys =>
    rw [Node.script_rowNumber, Node.bindings_rowNumber]
    exact writes_rowNumber hd.quote fun k hk => h k.key (List.mem_map_of_mem hk)
  | nextValue sequence =>
    rw [Node.script_nextValue, Node.bindings_mk]
    exact (writes_check _).preceded (writes_sequenceCall hd hd.next sequence)
  | currentValue sequence =>
    rw [Node.script_currentValue, Node.bindings_mk]
    exact ((writes_check _).preceded (writes_check _)).preceded
      (writes_sequenceCall hd hd.current sequence)

/-! ## Clauses -/

theorem writes_item {n : Node} (hd : d.quote.Known)
    (h : Writes d true false (n.bindings d) (n.script d)) :
    Writes d true false (n.bindings d) (n.item d) := by
  rcases n.item_cases d with ⟨s, rfl, hitem⟩ | hitem
  · rw [hitem, Node.bindings_mk]
    exact ((writes_reference s).preceded (writes_word hd (by decide))).closed
  · rw [hitem]
    exact h

theorem writes_field {c : Field Node} (hd : d.quote.Known)
    (h : Writes d true false (c.value.bindings d) (c.value.script d)) :
    Writes d true false (c.value.bindings d) (field ⟨c.name, c.value.rendering d⟩) := by
  refine Writes.followed (writes_item hd h) ?_
  split
  · exact writes_done
  · exact (writes_word hd (by decide)).preceded (writes_name c.name)

theorem writes_select (hd : d.quote.Known) {q : Query}
    (h : ∀ n, q.projection = some n →
      Query.WithChildren (fun n => Writes d true false (n.bindings d) (n.script d)) n) :
    Writes d true false (q.projection.toList.flatMap (Node.bindings d))
      (select (Query.rendering d q)) := by
  have hcomma : (Piece.words ", ").Fine d.quote :=
    IsWord.fine hd (by decide)
  rw [select]
  cases hp : q.projection with
  | none =>
    rw [show (Query.rendering d q).projection = none by
      rw [Query.rendering, Clauses.map, hp]; rfl]
    dsimp only
    split
    · exact (writes_word hd (by decide)).closed
    · exact writes_fail _
  | some p =>
    obtain ⟨hself, hchildren⟩ := h p hp
    rw [show (Query.rendering d q).projection = some (p.rendering d) by
      rw [Query.rendering, Clauses.map, hp]; rfl, Option.toList_some, List.flatMap_singleton]
    obtain ⟨s⟩ := p
    dsimp only
    rw [Node.shape_rendering]
    cases s with
    | record fields =>
      change Writes d true false _
        (separated ", " ((fields.map fun c => ⟨c.name, c.value.rendering d⟩).map field))
      rw [Node.bindings_record, List.map_map]
      exact writes_separated hcomma fun c hc =>
        writes_field hd (hchildren c.value (List.mem_map_of_mem hc))
    | product items =>
      change Writes d true false _ (separated ", " ((items.map (Node.rendering d)).map item))
      rw [Node.bindings_product, List.map_map]
      exact writes_separated hcomma fun n hn => writes_item hd (hchildren n hn)
    | _ => exact writes_item hd hself

theorem writes_source {n : Node} (h : Writes d true false (n.bindings d) (n.script d)) :
    Writes d true false (n.bindings d) (source d (n.rendering d)) := by
  obtain ⟨s⟩ := n
  rw [source, Node.shape_rendering]
  cases s with
  | table name =>
    rw [Node.bindings_mk]
    exact writes_name name
  | query q => exact h
  | _ => exact writes_fail _

theorem writes_from (hd : d.Legible) {q : Query}
    (h : ∀ g ∈ q.generators, Writes d true false (g.source.bindings d) (g.source.script d)) :
    Writes d false false (q.generators.flatMap fun g => g.source.bindings d)
      (from_ d (Query.rendering d q)) := by
  rw [from_, Query.rendering, Clauses.map]
  cases hg : q.generators with
  | nil => exact writes_wordsIfAny (hd.emptyFrom.plain hd.quote)
  | cons g gs =>
    rw [hg] at h
    refine (writes_word hd.quote (by decide)).preceded ?_
    change Writes d true false _ (separated ", "
      (((g :: gs).map fun g => ⟨g.binder, g.source.rendering d⟩).map (generator d)))
    rw [List.map_map]
    exact writes_separated (IsWord.fine hd.quote (by decide))
      fun g hg => (writes_source (h g hg)).followed (writes_sourceAlias hd.quote g.binder)

theorem writes_filters (hd : d.quote.Known) {q : Query}
    (h : ∀ n ∈ q.filters, Writes d true false (n.bindings d) (n.script d)) :
    Writes d false false (q.filters.flatMap (Node.bindings d))
      (filters (Query.rendering d q)) := by
  rw [filters, Query.rendering, Clauses.map]
  cases hf : q.filters with
  | nil => exact writes_done
  | cons n ns =>
    rw [hf] at h
    refine (writes_word hd (by decide)).preceded ?_
    rw [List.map_map]
    exact writes_separated (IsWord.fine hd (by decide)) h

theorem writes_groupBy (hd : d.quote.Known) {q : Query}
    (h : ∀ n, q.groupBy = some n →
      Query.WithChildren (fun n => Writes d true false (n.bindings d) (n.script d)) n) :
    Writes d false false (q.groupBy.toList.flatMap (Node.bindings d))
      (groupBy (Query.rendering d q)) := by
  rw [groupBy, Query.rendering, Clauses.map]
  cases hg : q.groupBy with
  | none => exact writes_done
  | some key =>
    obtain ⟨hself, hchildren⟩ := h key hg
    rw [Option.toList_some, List.flatMap_singleton]
    refine (writes_word hd (by decide)).preceded ?_
    obtain ⟨s⟩ := key
    rw [Node.shape_rendering]
    cases s with
    | product items =>
      change Writes d true false _
        (separated ", " ((items.map (Node.rendering d)).map Rendering.script))
      rw [Node.bindings_product, List.map_map]
      exact writes_separated (IsWord.fine hd (by decide)) hchildren
    | _ => exact hself

theorem writes_orderBy (hd : d.quote.Known) {q : Query}
    (h : ∀ k ∈ q.orderBy, Writes d true false (k.key.bindings d) (k.key.script d)) :
    Writes d false false ((SortKey.written d q.orderBy).flatMap (Node.bindings d))
      (orderBy d (Query.rendering d q)) := by
  rw [orderBy, Query.rendering, Clauses.map]
  cases hk : q.orderBy with
  | nil => exact writes_done
  | cons k ks =>
    rw [hk] at h
    exact (writes_word hd (by decide)).preceded (writes_sortKeys hd h)

theorem isWord_top (n : Nat) : IsWord ("top " ++ toString n ++ " ") :=
  (IsWord.append (by decide) (solid_toString n).bare.neutral).append (by decide)

theorem writes_modifiers (hd : d.quote.Known) (q : Query) :
    Writes d true true [] (modifiers d (Query.rendering d q)) := by
  rw [modifiers]
  split
  · refine writes_checked fun rows _ => (writes_word hd (isWord_top rows)).preceded ?_
    split
    · exact writes_skipRows _
    · exact writes_done
  · split
    · exact writes_word hd (isWord_top _)
    · exact writes_done
  · exact writes_done

/-- The words of the last clause. -/
def pagingWords : List String :=
  [" limit ", " offset ", " rows fetch next ", " rows only", " fetch next ", " rows"]

/-- What holds of digits and of the words of the last clause holds of its text. -/
theorem forall_mem_pagingText {p : Char → Prop}
    (hdigits : ∀ n : Nat, ∀ c ∈ (toString n).toList, p c)
    (hwords : ∀ text ∈ pagingWords, ∀ c ∈ text.toList, p c)
    {paging : Paging} (hunbounded : ∀ text, paging = .limit (some text) → ∀ c ∈ text.toList, p c)
    (fetch offset : Option Nat) : ∀ c ∈ (pagingText paging fetch offset).toList, p c := by
  have both := @forall_mem_append p
  simp only [pagingWords, List.mem_cons, List.not_mem_nil, or_false, forall_eq_or_imp,
    forall_eq] at hwords
  obtain ⟨hlimit, hoffset, hrowsFetch, honly, hfetch, hrows⟩ := hwords
  rw [pagingText.eq_def]
  split
  · exact both (both (both hlimit (hdigits _)) hoffset) (hdigits _)
  · exact both hlimit (hdigits _)
  · exact both (both (both hlimit (hunbounded _ rfl)) hoffset) (hdigits _)
  · exact both hoffset (hdigits _)
  · exact both (both (both (both hoffset (hdigits _)) hrowsFetch) (hdigits _)) honly
  · exact both (both hfetch (hdigits _)) honly
  · exact both (both hoffset (hdigits _)) hrows
  · intro c hc
    cases hc

theorem neutral_pagingText (hd : d.Legible) (fetch offset : Option Nat) :
    Neutral (pagingText d.paging fetch offset) := by
  have hwords : ∀ text ∈ pagingWords, Neutral text := by decide
  exact forall_mem_pagingText (fun n => (solid_toString n).bare.neutral) hwords hd.unbounded fetch
    offset

theorem writes_checkPaging (q : Query) :
    Writes d before before [] (checkPaging d (Query.rendering d q)) := by
  rw [checkPaging]
  split
  · refine (writes_checkNested _).preceded ?_
    split
    · exact writes_check _
    · exact writes_done
  · exact writes_done

/-- **The rule for a query that is written clause by clause.** -/
theorem writes_clauses (hd : d.Legible) {q : Query} (hnumbers : ¬ d.Numbers q)
    (h : ∀ n ∈ q.children,
      Query.WithChildren (fun n => Writes d true false (n.bindings d) (n.script d)) n) :
    Writes d true false (Query.bindings d q) (clauses d (Query.rendering d q)) := by
  have hselect := writes_select hd.quote
    fun n hn => h n (Clauses.projection_mem_children hn)
  have hfrom := writes_from hd
    fun g hg => (h g.source (Clauses.source_mem_children hg)).1
  have hfilters := writes_filters hd.quote
    fun n hn => (h n (Clauses.filter_mem_children hn)).1
  have hgroup := writes_groupBy hd.quote
    fun n hn => h n (Clauses.groupBy_mem_children hn)
  have horder := writes_orderBy hd.quote
    fun k hk => (h k.key (Clauses.key_mem_children hk)).1
  have hpaging : Writes d false false [] (paging d (Query.rendering d q)) :=
    writes_wordsIfAny ((neutral_pagingText hd _ _).plain hd.quote)
  have hfront : Writes d true true [] (words "select " ++ modifiers d (Query.rendering d q)) :=
    (writes_word hd.quote (by decide)).preceded (writes_modifiers hd.quote q)
  refine (writes_checkPaging q).preceded (Writes.scope ?_)
  have hbody := (((((hfront.preceded hselect).append hfrom).append hfilters).append
    hgroup).append horder).followed hpaging
  rw [Query.bindings_of_not_numbers d hnumbers]
  simp only [List.append_assoc] at hbody
  exact hbody

/-- **What a tree binds is what its script writes placeholders for.** -/
theorem writes_tree (hd : d.Legible) :
    (∀ n : Node, (∀ name ∈ n.calls, Plain d.quote name.toList) →
        Writes d true false (n.bindings d) (n.script d))
      ∧ ∀ q : Query, (∀ name ∈ Query.calls q, Plain d.quote name.toList) →
          Writes d true false (Query.bindings d q) (Query.script d q) := by
  refine Query.writing_induct d ?_ ?_ ?_ ?_ ?_
  · intro s hquery ih hcalls
    refine writes_expression hd hquery (fun name hname => hcalls name ?_) fun n hn =>
      ih n hn fun name hname => hcalls name (Node.gathers_calls.subset hn hname)
    rw [Node.gathers_calls.layer]
    exact List.mem_append_left _ hname
  · intro q ih hcalls
    have hquery : ∀ name ∈ Query.calls q, Plain d.quote name.toList := by
      intro name hname
      refine hcalls name ?_
      rwa [Node.gathers_calls.layer]
    rw [Node.script_query, Node.bindings_query]
    exact (((writes_word hd.quote (by decide)).preceded (ih hquery).deeper).followed
      (writes_word hd.quote (by decide))).closed
  · intro q hnumbers ih hcalls
    rw [Query.script_eq_clauses hnumbers]
    refine writes_clauses hd hnumbers fun n hn => ?_
    have hn' : ∀ name ∈ n.calls, Plain d.quote name.toList :=
      fun name hname => hcalls name (List.mem_flatMap.mpr ⟨n, hn, hname⟩)
    obtain ⟨hself, hchildren⟩ := ih n hn
    exact ⟨hself hn', fun m hm => hchildren m hm fun name hname =>
      hn' name (Node.gathers_calls.subset hm hname)⟩
  · intro q p hnumbers hp ih hcalls
    rw [Query.script_of_numbers hnumbers, hp, ← Query.bindings_numberRows d hnumbers hp]
    exact ih fun name hname => hcalls name ((Query.mem_calls_numberRows hp).mp hname)
  · intro q e hnumbers he hcalls
    rw [Query.script_of_numbers hnumbers, he]
    exact writes_fail e

end Script

end SqlCompiler
