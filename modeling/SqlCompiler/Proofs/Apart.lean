import SqlCompiler.Proofs.Allocation
import SqlCompiler.Proofs.Sights

/-!
# Symbols apart from a tree

A table that is made above a tree reserves the slots up to the greatest one that the tree mentions.
Nothing that is asked of the table later gives one of them away: a symbol is handed out on a slot
that was used before or on a new one, a slot comes back for another use only if a live symbol stood
on it, and no symbol was ever live below the reserved slots.  How often a slot is used does not
matter, so no bound on the generations is needed.

* `Request`, `SymbolTable.answer` — one request to a table; `SymbolTable.serve` — several of them,
  with the symbols handed out.
* `SymbolTable.Keeps` — a table that has nothing below its reserved slots to give away.
* `SymbolTable.Keeps.serve` — no request changes that, and what is handed out is above them.
* `SymbolTable.serve_apart` — a table made above a tree hands out no symbol that the tree mentions.
-/

set_option autoImplicit false
namespace SqlCompiler

/-- What a symbol table is asked for. -/
inductive Request where
  | fresh (hint : String)
  | release (s : Symbol)

namespace SymbolTable

/-- The symbols that a request is answered with, and the table after it. -/
def answer (t : SymbolTable) : Request → List Symbol × SymbolTable
  | .fresh hint => ([(t.fresh hint).1], (t.fresh hint).2)
  | .release s => ([], (t.release s).2)

/-- The symbols handed out for some requests, and the table after them. -/
def serve (t : SymbolTable) : List Request → List Symbol × SymbolTable
  | [] => ([], t)
  | request :: rest =>
    let (now, t) := t.answer request
    let (later, t) := t.serve rest
    (now ++ later, t)

/-- The number of slots, the reserved ones included. -/
def slotCount (t : SymbolTable) : Nat :=
  t.reserved + t.slots.size

/-- A table with that many reserved slots, none of which is to be used again. -/
structure Keeps (reserved : Nat) (t : SymbolTable) : Prop where
  reserved_eq : t.reserved = reserved
  free : ∀ slot ∈ t.free, reserved ≤ slot.toNat

variable {t : SymbolTable} {reserved : Nat}

theorem keeps_above (symbols : List Symbol) : (above symbols).Keeps (above symbols).reserved :=
  ⟨rfl, fun _ h => absurd h List.not_mem_nil⟩

/-- A live symbol is above the reserved slots. -/
theorem reserved_le_of_isLive {s : Symbol} (h : t.isLive s = true) :
    t.reserved ≤ s.slot.toNat := by
  obtain ⟨hint, hslot⟩ := isLive_iff.mp h
  by_contra hlow
  rw [slot?, if_neg hlow] at hslot
  cases hslot

/-- **What one request does**: the table keeps its reserved slots, no slot goes away, and the
symbols handed out are above the reserved slots as long as the slots can be numbered. -/
theorem Keeps.answer (h : t.Keeps reserved) (request : Request) :
    (t.answer request).2.Keeps reserved
      ∧ t.slotCount ≤ (t.answer request).2.slotCount
      ∧ ((t.answer request).2.slotCount ≤ UInt32.size →
          ∀ s ∈ (t.answer request).1, reserved ≤ s.slot.toNat) := by
  cases request with
  | fresh hint =>
    simp only [SymbolTable.answer, List.mem_singleton, forall_eq]
    rw [fresh]
    split
    · next slot rest hfree =>
      have hslots : ∀ i ∈ slot :: rest, reserved ≤ i.toNat := hfree ▸ h.free
      refine ⟨⟨?_, fun i hi => hslots i (List.mem_cons_of_mem _ hi)⟩, ?_, fun _ => ?_⟩
      · exact (reserved_modifySlot _ _).trans h.reserved_eq
      · simp [slotCount]
      · exact hslots slot List.mem_cons_self
    · next hfree =>
      refine ⟨⟨h.reserved_eq, fun i hi => h.free i hi⟩, ?_, fun hcount => ?_⟩
      · simp [slotCount]
      · have hnumber : t.reserved + t.slots.size < UInt32.size := by
          simp only [slotCount, Array.size_push] at hcount
          omega
        rw [UInt32.toNat_ofNat_of_lt' hnumber, h.reserved_eq]
        exact Nat.le_add_right _ _
  | release s =>
    simp only [SymbolTable.answer, List.not_mem_nil, false_implies, implies_true, and_true]
    rw [release]
    split
    · next hlive =>
      refine ⟨⟨?_, fun i hi => ?_⟩, ?_⟩
      · exact (reserved_modifySlot _ _).trans h.reserved_eq
      · rcases List.mem_cons.mp hi with rfl | hi
        · exact h.reserved_eq ▸ reserved_le_of_isLive hlive
        · exact h.free i hi
      · simp [slotCount]
    · exact ⟨h, Nat.le_refl _⟩

/-- No slot goes away, whatever is asked. -/
theorem Keeps.slotCount_le (h : t.Keeps reserved) (requests : List Request) :
    t.slotCount ≤ (t.serve requests).2.slotCount := by
  induction requests generalizing t with
  | nil => exact Nat.le_refl _
  | cons request rest ih =>
    obtain ⟨hkeeps, hcount, -⟩ := h.answer request
    exact hcount.trans (ih hkeeps)

/-- **Whatever is asked of a table, it hands out nothing below its reserved slots.** -/
theorem Keeps.serve (h : t.Keeps reserved) {requests : List Request}
    (hcount : (t.serve requests).2.slotCount ≤ UInt32.size) :
    ∀ s ∈ (t.serve requests).1, reserved ≤ s.slot.toNat := by
  induction requests generalizing t with
  | nil => intro s hs; exact absurd hs List.not_mem_nil
  | cons request rest ih =>
    obtain ⟨hkeeps, -, hhanded⟩ := h.answer request
    intro s hs
    rcases List.mem_append.mp hs with hs | hs
    · exact hhanded ((hkeeps.slotCount_le rest).trans hcount) s hs
    · exact ih hkeeps hcount s hs

/-- A table made above some symbols hands out none of them. -/
theorem serve_above {symbols : List Symbol} {requests : List Request}
    (hcount : ((above symbols).serve requests).2.slotCount ≤ UInt32.size) :
    ∀ s ∈ ((above symbols).serve requests).1, s ∉ symbols := by
  intro s hs hmem
  have hlow := (lt_reserved_above fun s _ => s.slot.toNat_lt).1 s hmem
  have hhigh := (keeps_above symbols).serve hcount s hs
  omega

/-- **A table made above a tree hands out no symbol that the tree mentions**, for every sequence of
requests that does not run out of slots. -/
theorem serve_apart :
    (∀ (n : Node) (requests : List Request),
      ((aboveNode n).serve requests).2.slotCount ≤ UInt32.size →
        ∀ s ∈ ((aboveNode n).serve requests).1, ¬ n.Mentions s)
    ∧ ∀ (q : Query) (requests : List Request),
      ((aboveQuery q).serve requests).2.slotCount ≤ UInt32.size →
        ∀ s ∈ ((aboveQuery q).serve requests).1, ¬ (Node.query q).Mentions s := by
  constructor
  · intro n requests hcount s hs
    rw [Node.mentions_iff]
    exact serve_above hcount s hs
  · intro q requests hcount s hs
    rw [Node.mentions_iff, Node.mem_symbols_query]
    exact serve_above hcount s hs

/-- A slot above a subquery is used twice, and a symbol of the subquery is given back in between. -/
theorem serve_apart_reuse :
    let q : Query := {
      generators := [⟨⟨0, 0⟩, .table "users"⟩]
      filters := [.apply .hasRows [.query {
        generators := [⟨⟨3, 1⟩, .table "orders"⟩]
        projection := some (.column ⟨0, 0⟩ "id") }]] }
    let requests : List Request :=
      [.fresh "row", .release ⟨3, 1⟩, .release ⟨4, 0⟩, .fresh "again", .fresh "other"]
    ((aboveQuery q).serve requests).2.slotCount ≤ UInt32.size
      ∧ ((aboveQuery q).serve requests).1 = [⟨4, 0⟩, ⟨4, 1⟩, ⟨5, 0⟩]
      ∧ (Node.query q).Mentions ⟨3, 1⟩ ∧ ¬ (Node.query q).Mentions ⟨4, 1⟩ := by
  intro q requests
  have hcount : ((aboveQuery q).serve requests).2.slotCount ≤ UInt32.size := by decide
  refine ⟨hcount, by decide, ?_, serve_apart.2 q requests hcount _ (by decide)⟩
  rw [Node.mentions_iff]
  decide

end SymbolTable
end SqlCompiler
