/-!
# Symbols and their table

A symbol is the identity of a bound variable: a slot of a table together with the generation that
the slot had when the symbol was handed out.  Symbols are compared by that pair and never by the
name hint they were given, so two freshly made symbols are different even if their hints agree.

A released slot is used again, with its generation increased, before a new one is opened; the slot
released last is used first.  A table may start above a number of reserved slots, which are never
handed out: that is how new symbols are kept apart from those that a query already mentions.
-/

set_option autoImplicit false
namespace SqlCompiler

/-- A bound variable. -/
structure Symbol where
  slot : UInt32
  generation : UInt32
deriving DecidableEq, Repr

/-- A symbol in a description: its slot, and its generation unless that is zero. -/
def Symbol.text (s : Symbol) : String :=
  if s.generation = 0 then "s" ++ toString s.slot.toNat
  else "s" ++ toString s.slot.toNat ++ "#" ++ toString s.generation.toNat

/-- One slot of a symbol table. -/
structure Slot where
  hint : String
  generation : UInt32
  live : Bool
deriving DecidableEq, Repr

/-- A table of slots.  The slots below `reserved` are dead for good, slot `reserved + i` is
`slots[i]`, and `free` holds the released slots, the last one first. -/
structure SymbolTable where
  reserved : Nat := 0
  slots : Array Slot := #[]
  free : List UInt32 := []
deriving Repr

namespace SymbolTable

/-- A table that never hands out a slot of the given symbols, nor one below them. -/
def above (symbols : List Symbol) : SymbolTable where
  reserved := symbols.foldl (fun bound s => max bound (s.slot.toNat + 1)) 0

/-- The slot of that number, if the table holds it. -/
def slot? (t : SymbolTable) (slot : UInt32) : Option Slot :=
  if t.reserved ≤ slot.toNat then t.slots[slot.toNat - t.reserved]? else none

/-- The table with one slot changed. -/
def modifySlot (t : SymbolTable) (slot : UInt32) (f : Slot → Slot) : SymbolTable :=
  if t.reserved ≤ slot.toNat then
    { t with slots := t.slots.modify (slot.toNat - t.reserved) f }
  else t

/-- Hands out a symbol that is not live, and remembers its hint. -/
def fresh (t : SymbolTable) (hint : String) : Symbol × SymbolTable :=
  match t.free with
  | slot :: rest =>
    let generation := ((t.slot? slot).elim 0 Slot.generation) + 1
    (⟨slot, generation⟩,
      { t.modifySlot slot fun _ => ⟨hint, generation, true⟩ with free := rest })
  | [] =>
    (⟨UInt32.ofNat (t.reserved + t.slots.size), 0⟩,
      { t with slots := t.slots.push ⟨hint, 0, true⟩ })

/-- Whether a symbol has been handed out and not released since. -/
def isLive (t : SymbolTable) (s : Symbol) : Bool :=
  match t.slot? s.slot with
  | some slot => slot.live && slot.generation == s.generation
  | none => false

/-- Gives a symbol's slot back.  Answers whether the symbol was live; otherwise nothing changes. -/
def release (t : SymbolTable) (s : Symbol) : Bool × SymbolTable :=
  if t.isLive s then
    (true, { t.modifySlot s.slot ({ · with live := false }) with free := s.slot :: t.free })
  else (false, t)

/-- The hint a live symbol was handed out with. -/
def hint? (t : SymbolTable) (s : Symbol) : Option String :=
  if t.isLive s then (t.slot? s.slot).map Slot.hint else none

/-- The number of live symbols. -/
def size (t : SymbolTable) : Nat :=
  t.slots.toList.countP Slot.live

/-- Whether no symbol is live. -/
def isEmpty (t : SymbolTable) : Bool :=
  t.size == 0

end SymbolTable
end SqlCompiler
