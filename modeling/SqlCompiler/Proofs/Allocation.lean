import Mathlib.Data.Set.Card
import SqlCompiler.Proofs.Relabeling

/-!
# Handing out symbols

A symbol table hands out symbols and takes them back, in any order and with anything at all given
back to it: a symbol that was never handed out, or one that was given back before.  What it is to
do is a matter of its history alone.  A symbol is held if it was handed out and has not been given
back since, and the table has to answer for exactly the symbols that are held.

The table itself only knows slots.  What ties it to its history is that a slot in use belongs to
the one symbol with the slot's generation, that the slots to be used again are dead and different
ones, and that no symbol handed out so far has a greater generation than its slot.  So the next
generation of a dead slot is new, and so is a slot that was never opened.

* `SymbolTable.Run` — the runs of a table, with their histories.
* `Held` — the symbols held after a history, with their hints.
* `SymbolTable.Follows` — a table that is in step with a history; every run keeps it so
  (`SymbolTable.Run.follows`).
* `SymbolTable.run_faithful` — what a table answers after any run.
-/

set_option autoImplicit false
namespace SqlCompiler

/-! ## Histories -/

/-- What happened to a symbol table. -/
inductive Event where
  /-- A symbol was handed out. -/
  | issued (s : Symbol) (hint : String)
  /-- A symbol was given back, whether it was live or not. -/
  | released (s : Symbol)

/-- The symbols handed out, the last one first. -/
def issuedSymbols : List Event → List Symbol
  | [] => []
  | .issued s _ :: earlier => s :: issuedSymbols earlier
  | .released _ :: earlier => issuedSymbols earlier

/-- A symbol was handed out with a hint, and not given back since.  The last event comes first. -/
def Held (s : Symbol) (hint : String) : List Event → Prop
  | [] => False
  | .issued s' hint' :: earlier => (s' = s ∧ hint' = hint) ∨ Held s hint earlier
  | .released s' :: earlier => s' ≠ s ∧ Held s hint earlier

namespace SymbolTable

/-- The number that the next symbol takes: the generation of the slot that is used again, or the
number of a new slot. -/
def nextNumber (t : SymbolTable) : Nat :=
  match t.free with
  | slot :: _ => ((t.slot? slot).elim 0 Slot.generation).toNat + 1
  | [] => t.reserved + t.slots.size

/-- The next symbol takes a number that can be represented. -/
def HasRoom (t : SymbolTable) : Prop :=
  t.nextNumber < UInt32.size

instance (t : SymbolTable) : Decidable t.HasRoom :=
  inferInstanceAs (Decidable (_ < _))

/-- A table as it is made: an empty one, or one above a tree. -/
inductive Initial : SymbolTable → Prop where
  | empty : Initial {}
  | aboveNode (n : Node) : Initial (aboveNode n)
  | aboveQuery (q : Query) : Initial (aboveQuery q)

/-- The runs of a table: symbols are handed out while there is room, and any are given back.  A run
leads to a table and has a history, the last event first. -/
inductive Run (start : SymbolTable) : List Event → SymbolTable → Prop where
  | start : Run start [] start
  | fresh {events : List Event} {t : SymbolTable} (hint : String) :
    Run start events t → t.HasRoom →
      Run start (.issued (t.fresh hint).1 hint :: events) (t.fresh hint).2
  | release {events : List Event} {t : SymbolTable} (s : Symbol) :
    Run start events t → Run start (.released s :: events) (t.release s).2

/-! ## Slots -/

variable {t : SymbolTable} {events : List Event}

theorem slot?_modifySlot {f : Slot → Slot} {i : UInt32} {slot : Slot} (h : t.slot? i = some slot)
    (j : UInt32) : (t.modifySlot i f).slot? j = if j = i then some (f slot) else t.slot? j := by
  have hi : t.reserved ≤ i.toNat := by
    by_contra hlow
    rw [slot?, if_neg hlow] at h
    cases h
  rw [slot?, if_pos hi] at h
  rw [modifySlot, if_pos hi, slot?, slot?]
  by_cases hj : t.reserved ≤ j.toNat
  · rw [if_pos hj, if_pos hj, Array.getElem?_modify]
    by_cases hij : j = i
    · rw [if_pos hij, if_pos (by rw [hij]), hij, h, Option.map_some]
    · have hne : i.toNat - t.reserved ≠ j.toNat - t.reserved := by
        intro heq
        exact hij (UInt32.toNat_inj.mp (by omega))
      rw [if_neg hij, if_neg hne]
  · have hij : j ≠ i := fun heq => hj (heq ▸ hi)
    rw [if_neg hj, if_neg hj, if_neg hij]

theorem slot?_push {slot : Slot} (hroom : t.reserved + t.slots.size < UInt32.size) (j : UInt32) :
    { t with slots := t.slots.push slot }.slot? j
      = if j = UInt32.ofNat (t.reserved + t.slots.size) then some slot else t.slot? j := by
  have hnew : j = UInt32.ofNat (t.reserved + t.slots.size)
      ↔ j.toNat = t.reserved + t.slots.size := by
    rw [← UInt32.toNat_inj, UInt32.toNat_ofNat_of_lt' hroom]
  change (if t.reserved ≤ j.toNat then (t.slots.push slot)[j.toNat - t.reserved]? else none) = _
  rw [slot?]
  by_cases hj : t.reserved ≤ j.toNat
  · rw [if_pos hj, if_pos hj, Array.getElem?_push]
    by_cases heq : j.toNat = t.reserved + t.slots.size
    · rw [if_pos (hnew.mpr heq), if_pos (by omega)]
    · rw [if_neg (mt hnew.mp heq), if_neg (by omega)]
  · rw [if_neg hj, if_neg hj, if_neg fun h => hj (by rw [hnew.mp h]; omega)]

theorem slot?_of_size_le {i : UInt32} (h : t.reserved + t.slots.size ≤ i.toNat) :
    t.slot? i = none := by
  rw [slot?]
  split
  · exact Array.getElem?_eq_none (by omega)
  · rfl

@[simp] theorem reserved_modifySlot (i : UInt32) (f : Slot → Slot) :
    (t.modifySlot i f).reserved = t.reserved := by
  rw [modifySlot]
  split <;> rfl

@[simp] theorem size_slots_modifySlot (i : UInt32) (f : Slot → Slot) :
    (t.modifySlot i f).slots.size = t.slots.size := by
  rw [modifySlot]
  split
  · exact Array.size_modify
  · rfl

/-- A new slot is opened if no slot can be used again. -/
theorem fresh_of_nil (hfree : t.free = []) (hint : String) :
    t.fresh hint = (⟨UInt32.ofNat (t.reserved + t.slots.size), 0⟩,
      { t with slots := t.slots.push ⟨hint, 0, true⟩ }) := by
  rw [fresh, hfree]

/-- A slot is used again with its next generation. -/
theorem fresh_of_cons {i : UInt32} {rest : List UInt32} {slot : Slot} (hfree : t.free = i :: rest)
    (hslot : t.slot? i = some slot) (hint : String) :
    t.fresh hint = (⟨i, slot.generation + 1⟩,
      { t.modifySlot i fun _ => ⟨hint, slot.generation + 1, true⟩ with free := rest }) := by
  rw [fresh, hfree]
  simp only [hslot, Option.elim_some]

theorem isLive_iff {s : Symbol} :
    t.isLive s = true ↔ ∃ hint, t.slot? s.slot = some ⟨hint, s.generation, true⟩ := by
  rw [isLive]
  cases t.slot? s.slot with
  | none => simp
  | some slot =>
    obtain ⟨hint, generation, live⟩ := slot
    simp [and_comm]

theorem hint?_eq_some_iff {s : Symbol} {hint : String} :
    t.hint? s = some hint ↔ t.slot? s.slot = some ⟨hint, s.generation, true⟩ := by
  rw [hint?]
  split
  · next hlive =>
    obtain ⟨hint', hslot⟩ := isLive_iff.mp hlive
    simp [hslot]
  · next hdead =>
    constructor
    · intro h; cases h
    · intro h; exact absurd (isLive_iff.mpr ⟨hint, h⟩) hdead

theorem release_fst (s : Symbol) : (t.release s).1 = t.isLive s := by
  rw [release]
  split
  · next hlive => exact hlive.symm
  · next hdead => exact (Bool.eq_false_iff.mpr hdead).symm

theorem release_of_not_isLive {s : Symbol} (h : t.isLive s = false) : (t.release s).2 = t := by
  rw [release, if_neg (by rw [h]; decide)]

/-! ## Counting -/

/-- The live symbols of slots that are numbered from `k` on. -/
def liveFrom (k : Nat) : List Slot → List Symbol
  | [] => []
  | slot :: slots =>
    if slot.live then ⟨UInt32.ofNat k, slot.generation⟩ :: liveFrom (k + 1) slots
    else liveFrom (k + 1) slots

theorem length_liveFrom (k : Nat) (slots : List Slot) :
    (liveFrom k slots).length = slots.countP Slot.live := by
  induction slots generalizing k with
  | nil => rfl
  | cons slot slots ih =>
    rw [liveFrom, List.countP_cons]
    split
    · rw [List.length_cons, ih]
    · rw [ih, Nat.add_zero]

theorem mem_liveFrom_cons {slot : Slot} {slots : List Slot} {k : Nat} {s : Symbol} :
    s ∈ liveFrom k (slot :: slots)
      ↔ (slot.live = true ∧ s = ⟨UInt32.ofNat k, slot.generation⟩)
        ∨ s ∈ liveFrom (k + 1) slots := by
  rw [liveFrom]
  split
  · next hlive => rw [List.mem_cons]; simp [hlive]
  · next hdead => simp [hdead]

theorem mem_liveFrom {slots : List Slot} {k : Nat} (hfits : k + slots.length ≤ UInt32.size)
    {s : Symbol} :
    s ∈ liveFrom k slots ↔ k ≤ s.slot.toNat
      ∧ ∃ hint, slots[s.slot.toNat - k]? = some ⟨hint, s.generation, true⟩ := by
  induction slots generalizing k with
  | nil => simp [liveFrom]
  | cons slot slots ih =>
    rw [List.length_cons] at hfits
    obtain ⟨hint, generation, live⟩ := slot
    obtain ⟨i, g⟩ := s
    have hfirst : i = UInt32.ofNat k ↔ i.toNat = k := by
      rw [← UInt32.toNat_inj, UInt32.toNat_ofNat_of_lt' (by omega)]
    rw [mem_liveFrom_cons, ih (by omega), Symbol.mk.injEq, hfirst]
    dsimp only
    by_cases hk : i.toNat = k
    · rw [hk, Nat.sub_self, List.getElem?_cons_zero]
      simp [and_comm, eq_comm]
    · by_cases hle : k + 1 ≤ i.toNat
      · rw [show i.toNat - k = i.toNat - (k + 1) + 1 by omega, List.getElem?_cons_succ]
        simp [hk, hle, show k ≤ i.toNat by omega]
      · simp [hk, hle, show ¬ k ≤ i.toNat by omega]

theorem nodup_liveFrom {slots : List Slot} {k : Nat} (hfits : k + slots.length ≤ UInt32.size) :
    (liveFrom k slots).Nodup := by
  induction slots generalizing k with
  | nil => exact List.nodup_nil
  | cons slot slots ih =>
    rw [List.length_cons] at hfits
    have hrest : (liveFrom (k + 1) slots).Nodup := ih (by omega)
    rw [liveFrom]
    split
    · refine List.nodup_cons.mpr ⟨fun hmem => ?_, hrest⟩
      have hle := ((mem_liveFrom (by omega)).mp hmem).1
      rw [UInt32.toNat_ofNat_of_lt' (by omega)] at hle
      omega
    · exact hrest

/-- The size of a table is the number of its live symbols. -/
theorem size_eq_ncard (hfits : t.reserved + t.slots.size ≤ UInt32.size) :
    t.size = {s | t.isLive s = true}.ncard := by
  have hlength : t.reserved + t.slots.toList.length ≤ UInt32.size := by
    rwa [Array.length_toList]
  have hlive : {s | t.isLive s = true}
      = ((liveFrom t.reserved t.slots.toList).toFinset : Set _) := by
    ext s
    rw [Finset.mem_coe, List.mem_toFinset, mem_liveFrom hlength, Set.mem_ofPred_eq, isLive_iff,
      slot?]
    split <;> simp [*]
  rw [hlive, Set.ncard_coe_finset, List.toFinset_card_of_nodup (nodup_liveFrom hlength),
    length_liveFrom, size]

/-! ## Tables in step with their history -/

/-- A table is in step with a history. -/
structure Follows (t : SymbolTable) (events : List Event) : Prop where
  /-- Every slot has a number. -/
  fits : t.reserved + t.slots.size ≤ UInt32.size
  free_nodup : t.free.Nodup
  /-- The slots to be used again are dead; those reserved are not among them. -/
  free_dead : ∀ i ∈ t.free, ∃ slot, t.slot? i = some slot ∧ slot.live = false
  /-- A slot in use belongs to the symbol with its generation. -/
  held_iff : ∀ s hint, Held s hint events ↔ t.slot? s.slot = some ⟨hint, s.generation, true⟩
  /-- No symbol was handed out with a generation that its slot has not reached. -/
  issued_le : ∀ s ∈ issuedSymbols events,
    ∃ slot, t.slot? s.slot = some slot ∧ s.generation.toNat ≤ slot.generation.toNat
  issued_nodup : (issuedSymbols events).Nodup

theorem follows_above (symbols : List Symbol) : (above symbols).Follows [] where
  fits := (lt_reserved_above fun s _ => s.slot.toNat_lt_size).2
  free_nodup := List.nodup_nil
  free_dead _ h := absurd h List.not_mem_nil
  held_iff s hint := by simp [Held, above, slot?]
  issued_le _ h := absurd h List.not_mem_nil
  issued_nodup := List.nodup_nil

theorem Initial.follows (h : Initial t) : t.Follows [] := by
  cases h with
  | empty => exact follows_above []
  | aboveNode n => exact follows_above n.symbols
  | aboveQuery q => exact follows_above (Query.symbols q)

namespace Follows

variable (h : t.Follows events)
include h

/-- A symbol of which the table knows no slot, or only one of an earlier generation, is new. -/
theorem not_issued {s : Symbol}
    (hnew : ∀ slot, t.slot? s.slot = some slot → slot.generation.toNat < s.generation.toNat) :
    s ∉ issuedSymbols events := by
  intro hmem
  obtain ⟨slot, hslot, hle⟩ := h.issued_le s hmem
  exact absurd (hnew slot hslot) (by omega)

/-- Handing out a symbol: it may be any new one, as long as the table gives it its slot. -/
theorem issue {t' : SymbolTable} {s : Symbol} {hint : String}
    (hnew : ∀ slot, t.slot? s.slot = some slot →
      slot.live = false ∧ slot.generation.toNat < s.generation.toNat)
    (hslots : ∀ i, t'.slot? i
      = if i = s.slot then some ⟨hint, s.generation, true⟩ else t.slot? i)
    (hfits : t'.reserved + t'.slots.size ≤ UInt32.size) (hnodup : t'.free.Nodup)
    (hfree : ∀ i ∈ t'.free, i ≠ s.slot ∧ i ∈ t.free) :
    t'.Follows (.issued s hint :: events) where
  fits := hfits
  free_nodup := hnodup
  free_dead i hi := by
    rw [hslots, if_neg (hfree i hi).1]
    exact h.free_dead i (hfree i hi).2
  held_iff a hint' := by
    rw [Held, h.held_iff, hslots]
    by_cases ha : a.slot = s.slot
    · -- the slot was dead before, so nobody else holds a symbol of it
      have hdead : t.slot? s.slot ≠ some ⟨hint', a.generation, true⟩ := by
        intro hslot
        cases (hnew _ hslot).1
      rw [if_pos ha, ha, or_iff_left hdead]
      obtain ⟨i, g⟩ := a
      obtain ⟨j, g'⟩ := s
      cases ha
      simp [and_comm]
    · rw [if_neg ha, or_iff_right]
      rintro ⟨rfl, -⟩
      exact ha rfl
  issued_le a ha := by
    rw [hslots]
    rcases List.mem_cons.mp ha with rfl | ha
    · exact ⟨_, if_pos rfl, Nat.le_refl _⟩
    · obtain ⟨slot, hslot, hle⟩ := h.issued_le a ha
      split
      · next heq =>
        rw [heq] at hslot
        exact ⟨_, rfl, Nat.le_trans hle (Nat.le_of_lt (hnew slot hslot).2)⟩
      · exact ⟨slot, hslot, hle⟩
  issued_nodup := List.nodup_cons.mpr
    ⟨h.not_issued fun slot hslot => (hnew slot hslot).2, h.issued_nodup⟩

/-- Handing out a symbol keeps a table in step, while there is room. -/
theorem fresh (hroom : t.HasRoom) (hint : String) :
    (t.fresh hint).2.Follows (.issued (t.fresh hint).1 hint :: events) := by
  rw [HasRoom, nextNumber] at hroom
  cases hfree : t.free with
  | nil =>
    rw [hfree] at hroom
    have hclosed : t.slot? (UInt32.ofNat (t.reserved + t.slots.size)) = none :=
      slot?_of_size_le (by rw [UInt32.toNat_ofNat_of_lt' hroom])
    rw [fresh_of_nil hfree]
    refine h.issue (fun slot hslot => ?_) (slot?_push hroom) ?_ h.free_nodup fun i hi => ?_
    · cases hclosed.symm.trans hslot
    · rw [Array.size_push]
      exact hroom
    · rw [hfree] at hi
      cases hi
  | cons i rest =>
    obtain ⟨slot, hslot, hdead⟩ := h.free_dead i (by rw [hfree]; exact List.mem_cons_self)
    have hnodup := h.free_nodup
    rw [hfree, List.nodup_cons] at hnodup
    simp only [hfree, hslot, Option.elim_some] at hroom
    have hnext : (slot.generation + 1).toNat = slot.generation.toNat + 1 := by
      rw [UInt32.toNat_add]
      exact Nat.mod_eq_of_lt hroom
    rw [fresh_of_cons hfree hslot]
    refine h.issue (fun slot' hslot' => ?_) (slot?_modifySlot hslot) ?_ hnodup.2 fun j hj => ?_
    · cases hslot.symm.trans hslot'
      exact ⟨hdead, by rw [hnext]; exact Nat.lt_succ_self _⟩
    · rw [reserved_modifySlot, size_slots_modifySlot]
      exact h.fits
    · refine ⟨?_, by rw [hfree]; exact List.mem_cons_of_mem _ hj⟩
      rintro rfl
      exact hnodup.1 hj

/-- Giving back a symbol keeps a table in step, whatever symbol it is. -/
theorem release (s : Symbol) : (t.release s).2.Follows (.released s :: events) := by
  cases hlive : t.isLive s with
  | false =>
    -- nobody holds the symbol, so giving it back changes neither side
    rw [release_of_not_isLive hlive]
    refine { h with held_iff := fun a hint => ?_ }
    rw [Held, h.held_iff, and_iff_right_iff_imp]
    rintro hslot rfl
    rw [isLive_iff.mpr ⟨hint, hslot⟩] at hlive
    cases hlive
  | true =>
    obtain ⟨hint, hslot⟩ := isLive_iff.mp hlive
    have hslots : ∀ i, (t.release s).2.slot? i
        = if i = s.slot then some ⟨hint, s.generation, false⟩ else t.slot? i := by
      rw [SymbolTable.release, if_pos hlive]
      exact slot?_modifySlot hslot
    have hfree : (t.release s).2.free = s.slot :: t.free := by
      rw [SymbolTable.release, if_pos hlive]
    have hnot : s.slot ∉ t.free := by
      intro hmem
      obtain ⟨slot, hslot', hdead⟩ := h.free_dead _ hmem
      cases hslot.symm.trans hslot'
      cases hdead
    constructor
    · rw [SymbolTable.release, if_pos hlive]
      simpa using h.fits
    · rw [hfree]
      exact List.nodup_cons.mpr ⟨hnot, h.free_nodup⟩
    · intro i hi
      rw [hfree] at hi
      rw [hslots]
      rcases List.mem_cons.mp hi with rfl | hi
      · exact ⟨_, if_pos rfl, rfl⟩
      · have hne : i ≠ s.slot := by
          rintro rfl
          exact hnot hi
        rw [if_neg hne]
        exact h.free_dead i hi
    · intro a hint'
      rw [Held, h.held_iff, hslots]
      by_cases ha : a.slot = s.slot
      · -- the slot belonged to `s` and to no other symbol, and now to none
        rw [if_pos ha, ha, hslot]
        obtain ⟨i, g⟩ := a
        obtain ⟨j, g'⟩ := s
        cases ha
        simp +contextual
      · rw [if_neg ha, and_iff_right_iff_imp]
        rintro - rfl
        exact ha rfl
    · intro a ha
      obtain ⟨slot, hslot', hle⟩ := h.issued_le a ha
      rw [hslots]
      split
      · next heq =>
        rw [heq, hslot] at hslot'
        cases hslot'
        exact ⟨_, rfl, hle⟩
      · exact ⟨slot, hslot', hle⟩
    · exact h.issued_nodup

end Follows

/-- **Every run keeps a table in step with its history.** -/
theorem Run.follows {start : SymbolTable} (hstart : Initial start) (h : Run start events t) :
    t.Follows events := by
  induction h with
  | start => exact hstart.follows
  | fresh hint _ hroom ih => exact ih.fresh hroom hint
  | release s _ ih => exact ih.release s

/-- **Symbols are never handed out twice.**  After any run of a table, whatever was given back to it
and however often, all symbols handed out are different.  The live symbols are exactly those held,
each with the hint of its own; giving back a symbol succeeds for these, and changes nothing for any
other; and the size of the table is their number. -/
theorem run_faithful {start : SymbolTable} (hstart : Initial start) (h : Run start events t) :
    (issuedSymbols events).Nodup
      ∧ (∀ s, t.isLive s = true ↔ ∃ hint, Held s hint events)
      ∧ (∀ s hint, t.hint? s = some hint ↔ Held s hint events)
      ∧ (∀ s, (t.release s).1 = true ↔ ∃ hint, Held s hint events)
      ∧ (∀ s, (t.release s).1 = false → (t.release s).2 = t)
      ∧ t.size = {s | ∃ hint, Held s hint events}.ncard := by
  have hfollows := h.follows hstart
  have hlive : ∀ s, t.isLive s = true ↔ ∃ hint, Held s hint events := fun s =>
    isLive_iff.trans (exists_congr fun hint => (hfollows.held_iff s hint).symm)
  refine ⟨hfollows.issued_nodup, hlive, fun s hint => ?_, fun s => ?_, fun s hs => ?_, ?_⟩
  · rw [hint?_eq_some_iff, hfollows.held_iff]
  · rw [release_fst, hlive]
  · rw [release_fst] at hs
    exact release_of_not_isLive hs
  · rw [size_eq_ncard hfollows.fits]
    exact congrArg Set.ncard (Set.ext hlive)

/-- A slot above a tree is handed out, given back twice and handed out again, and a symbol of the
tree is given back in between. -/
theorem run_faithful_reuse :
    let start := aboveNode (.column ⟨3, 0⟩ "id")
    let opened := ((start.fresh "user").2.release ⟨3, 0⟩).2
    let t := (((opened.release ⟨4, 0⟩).2.release ⟨4, 0⟩).2.fresh "order").2
    let events : List Event := [.issued ⟨4, 1⟩ "order", .released ⟨4, 0⟩, .released ⟨4, 0⟩,
      .released ⟨3, 0⟩, .issued ⟨4, 0⟩ "user"]
    Initial start ∧ Run start events t ∧ (issuedSymbols events).Nodup
      ∧ t.hint? ⟨4, 1⟩ = some "order" ∧ (t.release ⟨4, 1⟩).1 = true
      ∧ t.hint? ⟨4, 0⟩ ≠ some "user" := by
  intro start opened t events
  have hstart : Initial start := .aboveNode _
  have hopened : Run start [.released ⟨3, 0⟩, .issued ⟨4, 0⟩ "user"] opened :=
    (Run.start.fresh "user" (by decide)).release ⟨3, 0⟩
  have hrun : Run start events t :=
    ((hopened.release ⟨4, 0⟩).release ⟨4, 0⟩).fresh "order" (by decide)
  obtain ⟨hnodup, -, hhint, hrelease, -⟩ := run_faithful hstart hrun
  have hheld : Held ⟨4, 1⟩ "order" events := .inl ⟨rfl, rfl⟩
  refine ⟨hstart, hrun, hnodup, (hhint _ _).mpr hheld, (hrelease _).mpr ⟨_, hheld⟩, ?_⟩
  rw [Ne, hhint]
  simp [events, Held]

end SymbolTable
end SqlCompiler
