import Mathlib.Order.Defs.LinearOrder
import SqlCompiler.Proofs.Cuts

/-!
# Orders and how they are read

A database compares rows by the terms of an order, and the first term that tells two rows apart
decides.  This file reads an order the way a database would.  What stands for a key may be any
expression, so an order is a text with places for its keys, which each stand for the same key
wherever they are.  A term is such a key, or a number that tells whether a key is null.

Nulls are where databases differ.  A term can say where they go; if it does not, the database is
free to put them anywhere among the values.

* `Glyph`, `Glyph.Filled` — texts with places for keys, and the texts that they become.
* `OrderTerm`, `OrderTerm.read?` — the terms of an order, and how they are read, with
  `OrderTerm.read?_append` for orders one after the other.
* `OrderTerm.compareAll` — rows by the terms of an order.
* `SortOrder.compareFrom` — rows in the order that is intended.
* `OrderValue.compare_said`, `OrderValue.compare_tested` — a key whose nulls are placed by words,
  or by a number before it, compares as intended.
-/

set_option autoImplicit false
namespace SqlCompiler

/-! ## Texts with places for keys -/

/-- A character, or the place of the expression of a key. -/
inductive Glyph where
  | char (c : Char)
  | key (i : Nat)
deriving DecidableEq

namespace Glyph

/-- The character, if it is one. -/
def char? : Glyph → Option Char
  | char c => some c
  | key _ => none

/-- A text without keys. -/
def ofString (s : String) : List Glyph :=
  s.toList.map char

/-- The texts in which each key is replaced by something that may be written for it. -/
inductive Filled (writes : Nat → String → Prop) : List Glyph → String → Prop where
  | nil : Filled writes [] ""
  | char (c : Char) {gs : List Glyph} {t : String} (h : Filled writes gs t) :
      Filled writes (.char c :: gs) (String.singleton c ++ t)
  | key {i : Nat} {e : String} {gs : List Glyph} {t : String} (he : writes i e)
      (h : Filled writes gs t) : Filled writes (.key i :: gs) (e ++ t)

namespace Filled

variable {writes : Nat → String → Prop}

theorem ofString (s : String) : Filled writes (Glyph.ofString s) s := by
  have hcs : ∀ cs : List Char, Filled writes (cs.map .char) (String.ofList cs) := by
    intro cs
    induction cs with
    | nil => exact .nil
    | cons c cs ih =>
      rw [String.ofList_cons]
      exact .char c ih
  rw [Glyph.ofString, ← String.ofList_toList (s := s)]
  simpa using hcs s.toList

theorem append {gs hs : List Glyph} {t u : String} (ht : Filled writes gs t)
    (hu : Filled writes hs u) : Filled writes (gs ++ hs) (t ++ u) := by
  induction ht with
  | nil => rwa [String.empty_append]
  | char c h ih => rw [String.append_assoc]; exact .char c ih
  | key he h ih => rw [String.append_assoc]; exact .key he ih

end Filled
end Glyph

/-! ## Reading an order -/

/-- What an order is made of. -/
inductive OrderToken where
  | word (s : String)
  /-- A parenthesis or a comma. -/
  | mark (c : Char)
  /-- The expression of a key. -/
  | key (i : Nat)
  /-- An expression with letters right beside it. -/
  | other
deriving DecidableEq

namespace OrderToken

/-- The token of glyphs that stand together. -/
def ofRun : List Glyph → List OrderToken
  | [] => []
  | [.key i] => [key i]
  | run =>
    match run.mapM Glyph.char? with
    | some cs => [word (String.ofList cs)]
    | none => [other]

/-- The tokens of a text, behind glyphs that stand together with its first ones. -/
def tokens (run : List Glyph) : List Glyph → List OrderToken
  | [] => ofRun run
  | .key i :: gs => tokens (run ++ [.key i]) gs
  | .char c :: gs =>
    if c = ' ' then ofRun run ++ tokens [] gs
    else if c = '(' ∨ c = ')' ∨ c = ',' then ofRun run ++ mark c :: tokens [] gs
    else tokens (run ++ [.char c]) gs

/-- A token before the first of some lists. -/
def before (t : OrderToken) : List (List OrderToken) → List (List OrderToken)
  | [] => [[t]]
  | part :: parts => (t :: part) :: parts

/-- The level of parentheses behind a token. -/
def step (level : Nat) : OrderToken → Nat
  | mark '(' => level + 1
  | mark ')' => level - 1
  | _ => level

/-- The parts of an order, between the commas that are not in parentheses. -/
def parts (level : Nat) : List OrderToken → List (List OrderToken)
  | [] => [[]]
  | t :: ts =>
    if t = mark ',' ∧ level = 0 then [] :: parts 0 ts else before t (parts (step level t) ts)

end OrderToken

/-- What rows are compared by. -/
inductive OrderValue where
  /-- The value of a key. -/
  | key (i : Nat)
  /-- A number for null and one for every other value of a key. -/
  | test (i ifNull otherwise : Nat)

/-- A term of an order. -/
structure OrderTerm where
  value : OrderValue
  direction : Direction
  /-- Where the database is told to put nulls. -/
  nulls : NullPlacement

namespace OrderTerm

open OrderToken

/-- What rows are compared by, at the beginning of a term. -/
def value? : List OrderToken → Option (OrderValue × List OrderToken)
  | .key i :: ts => some (.key i, ts)
  | .word "case" :: .word "when" :: .mark '(' :: .key i :: .mark ')' :: .word "is" :: .word "null"
      :: .word "then" :: .word a :: .word "else" :: .word b :: .word "end" :: ts => do
    return (.test i (← Text.number? a) (← Text.number? b), ts)
  | .word "isnull" :: .mark '(' :: .key i :: .mark ')' :: ts => some (.test i 1 0, ts)
  | .word "iif" :: .mark '(' :: .word "isnull" :: .mark '(' :: .key i :: .mark ')' :: .mark ','
      :: .word a :: .mark ',' :: .word b :: .mark ')' :: ts => do
    return (.test i (← Text.number? a) (← Text.number? b), ts)
  | _ => none

/-- The direction, which is ascending unless it is said otherwise. -/
def directionOf : List OrderToken → Direction × List OrderToken
  | .word "desc" :: ts => (.descending, ts)
  | ts => (.ascending, ts)

/-- Where nulls go, at the end of a term. -/
def placement? : List OrderToken → Option NullPlacement
  | [] => some .unspecified
  | [.word "nulls", .word "first"] => some .first
  | [.word "nulls", .word "last"] => some .last
  | _ => none

/-- A term of an order. -/
def ofTokens? (ts : List OrderToken) : Option OrderTerm := do
  let (value, ts) ← value? ts
  let (direction, ts) := directionOf ts
  return { value, direction, nulls := ← placement? ts }

/-- The terms of an order, which are separated by commas. -/
def read? (gs : List Glyph) : Option (List OrderTerm) :=
  if gs = [] then some [] else (parts 0 (tokens [] gs)).mapM ofTokens?

end OrderTerm

/-! ## Orders one after the other -/

namespace OrderToken

/-- A comma ends whatever stands before it. -/
theorem tokens_append_comma (gs hs : List Glyph) : ∀ run,
    tokens run (gs ++ .char ',' :: hs) = tokens run gs ++ mark ',' :: tokens [] hs := by
  induction gs with
  | nil =>
    intro run
    simp [tokens]
  | cons g gs ih =>
    intro run
    cases g with
    | key i => exact ih _
    | char c =>
      rw [List.cons_append, tokens, tokens]
      split
      · rw [ih, List.append_assoc]
      · split
        · rw [ih, List.append_assoc, List.cons_append]
        · exact ih _

theorem parts_ne_nil (level : Nat) (ts : List OrderToken) : parts level ts ≠ [] := by
  cases ts with
  | nil => simp [parts]
  | cons t ts =>
    rw [parts]
    split
    · simp
    · cases parts (step level t) ts <;> simp [before]

theorem before_append (t : OrderToken) {ps : List (List OrderToken)} (h : ps ≠ [])
    (qs : List (List OrderToken)) : before t (ps ++ qs) = before t ps ++ qs := by
  cases ps with
  | nil => exact absurd rfl h
  | cons part ps => rfl

/-- A comma outside of parentheses separates the parts before it from those behind it. -/
theorem parts_append_comma (ts us : List OrderToken) : ∀ level, ts.foldl step level = 0 →
    parts level (ts ++ mark ',' :: us) = parts level ts ++ parts 0 us := by
  induction ts with
  | nil =>
    rintro level rfl
    rfl
  | cons t ts ih =>
    intro level h
    rw [List.cons_append, parts, parts]
    split
    · next hcomma =>
      obtain ⟨rfl, rfl⟩ := hcomma
      rw [ih 0 h, List.cons_append]
    · rw [ih _ h, before_append t (parts_ne_nil _ ts)]

end OrderToken

namespace OrderTerm

open OrderToken

/-- Two orders with a comma between them are read one after the other. -/
theorem read?_append {gs hs : List Glyph} {ts us : List OrderTerm} (hgs : gs ≠ []) (hhs : hs ≠ [])
    (hlevel : (tokens [] gs).foldl step 0 = 0) (hread : read? gs = some ts)
    (hread' : read? hs = some us) :
    read? (gs ++ Glyph.ofString ", " ++ hs) = some (ts ++ us) := by
  have htext : gs ++ Glyph.ofString ", " ++ hs = gs ++ .char ',' :: .char ' ' :: hs := by
    rw [List.append_assoc]
    rfl
  have hblank : tokens [] (.char ' ' :: hs) = tokens [] hs := rfl
  rw [read?, if_neg hgs] at hread
  rw [read?, if_neg hhs] at hread'
  rw [read?, htext, if_neg (by simp), tokens_append_comma, hblank, parts_append_comma _ _ _ hlevel,
    List.mapM_append, hread, hread']
  rfl

end OrderTerm

/-! ## Comparing rows -/

universe u

/-- The outcome of a comparison in a direction. -/
def Direction.orient : Direction → Ordering → Ordering
  | .ascending, o => o
  | .descending, o => o.swap

/-- How null compares with a value, given how it does if nothing is said about it. -/
def NullPlacement.compareNull (unsaid : Ordering) : NullPlacement → Ordering
  | .unspecified => unsaid
  | .first => .lt
  | .last => .gt

/-- The number by which a value is told from null. -/
def OrderValue.number {β : Type u} (ifNull otherwise : Nat) : Option β → Nat
  | none => ifNull
  | some _ => otherwise

section
variable {β : Type u} [LinearOrder β]

/-- Two values of a key as a database compares them. -/
def OrderValue.compare (direction : Direction) (nulls : NullPlacement) (likes : β → Ordering) :
    Option β → Option β → Ordering
  | none, none => .eq
  | none, some y => nulls.compareNull (likes y)
  | some x, none => (nulls.compareNull (likes x)).swap
  | some x, some y => direction.orient (Ord.compare x y)

/-- Two values of a key in the intended order: nulls before or after all others, whatever the
direction is. -/
def SortOrder.compare (o : SortOrder) : Option β → Option β → Ordering
  | none, none => .eq
  | none, some _ => if o.nulls = .first then .lt else .gt
  | some _, none => if o.nulls = .first then .gt else .lt
  | some x, some y =>
    match o.direction with
    | .ascending => Ord.compare x y
    | .descending => Ord.compare y x

end

section
variable {α : Nat → Type u} [∀ i, LinearOrder (α i)]

/-- Two rows by a term.  Where nothing is said about nulls, null compares with a value as the
database likes. -/
def OrderTerm.compare (likes : ∀ i, Direction → α i → Ordering) (r s : ∀ i, Option (α i))
    (t : OrderTerm) : Ordering :=
  match t.value with
  | .key i => OrderValue.compare t.direction t.nulls (likes i t.direction) (r i) (s i)
  | .test i ifNull otherwise =>
    t.direction.orient (Ord.compare (OrderValue.number ifNull otherwise (r i))
      (OrderValue.number ifNull otherwise (s i)))

/-- Two rows by the terms of an order, of which the first that tells them apart decides. -/
def OrderTerm.compareAll (likes : ∀ i, Direction → α i → Ordering) (r s : ∀ i, Option (α i)) :
    List OrderTerm → Ordering
  | [] => .eq
  | t :: ts => (t.compare likes r s).then (compareAll likes r s ts)

/-- Two rows in the intended order, with the first of its keys at the given position. -/
def SortOrder.compareFrom (r s : ∀ i, Option (α i)) : Nat → List SortOrder → Ordering
  | _, [] => .eq
  | i, o :: orders => (o.compare (r i) (s i)).then (compareFrom r s (i + 1) orders)

end

/-! ## Keys that compare as intended -/

theorem Direction.orient_compare_swap {β : Type u} [Ord β] [Std.OrientedOrd β] (d : Direction)
    (x y : β) : d.orient (Ord.compare y x) = (d.orient (Ord.compare x y)).swap := by
  cases d with
  | ascending => exact Std.OrientedOrd.eq_swap
  | descending => exact congrArg Ordering.swap Std.OrientedOrd.eq_swap

theorem Direction.orient_compare_self {β : Type u} [Ord β] [Std.OrientedOrd β] (d : Direction)
    (x : β) : d.orient (Ord.compare x x) = .eq := by
  cases d with
  | ascending => exact Std.ReflOrd.compare_self
  | descending => exact congrArg Ordering.swap Std.ReflOrd.compare_self

theorem OrderTerm.compareAll_append {α : Nat → Type u} [∀ i, LinearOrder (α i)]
    (likes : ∀ i, Direction → α i → Ordering) (r s : ∀ i, Option (α i)) (ts us : List OrderTerm) :
    compareAll likes r s (ts ++ us)
      = (compareAll likes r s ts).then (compareAll likes r s us) := by
  induction ts with
  | nil => rfl
  | cons t ts ih => rw [List.cons_append, compareAll, ih, compareAll, Ordering.then_assoc]

section
variable {β : Type u} [LinearOrder β]

/-- Values other than null compare as intended, whatever is said about nulls. -/
theorem SortOrder.compare_some (o : SortOrder) (x y : β) :
    o.compare (some x) (some y) = o.direction.orient (Ord.compare x y) := by
  rw [SortOrder.compare]
  cases o.direction with
  | ascending => rfl
  | descending => exact Direction.orient_compare_swap .ascending x y

theorem SortOrder.compare_none_some {o : SortOrder} (h : o.nulls ≠ .unspecified) (y : β)
    (unsaid : Ordering) : o.compare none (some y) = o.nulls.compareNull unsaid := by
  rw [SortOrder.compare]
  cases hnulls : o.nulls with
  | unspecified => exact absurd hnulls h
  | first => rfl
  | last => rfl

theorem SortOrder.compare_some_none {o : SortOrder} (h : o.nulls ≠ .unspecified) (x : β)
    (unsaid : Ordering) : o.compare (some x) none = (o.nulls.compareNull unsaid).swap := by
  rw [SortOrder.compare]
  cases hnulls : o.nulls with
  | unspecified => exact absurd hnulls h
  | first => rfl
  | last => rfl

/-- A key with words for its nulls compares as intended. -/
theorem OrderValue.compare_said {o : SortOrder} (h : o.nulls ≠ .unspecified) (likes : β → Ordering)
    (x y : Option β) :
    OrderValue.compare o.direction o.nulls likes x y = o.compare x y := by
  cases x with
  | none =>
    cases y with
    | none => rfl
    | some y => exact (SortOrder.compare_none_some h y (likes y)).symm
  | some x =>
    cases y with
    | none => exact (SortOrder.compare_some_none h x (likes x)).symm
    | some y => exact (o.compare_some x y).symm

/-- A number before a key takes null to the side where the number for it goes. -/
theorem OrderValue.compare_tested {o : SortOrder} (h : o.nulls ≠ .unspecified) {d : Direction}
    {ifNull otherwise : Nat}
    (hside : d.orient (Ord.compare ifNull otherwise) = o.nulls.compareNull .eq)
    (likes : β → Ordering) (x y : Option β) :
    (d.orient (Ord.compare (number ifNull otherwise x) (number ifNull otherwise y))).then
      (OrderValue.compare o.direction .unspecified likes x y) = o.compare x y := by
  have hdecides : ∀ rest, (o.nulls.compareNull .eq).then rest = o.nulls.compareNull .eq
      ∧ (o.nulls.compareNull .eq).swap.then rest = (o.nulls.compareNull .eq).swap := by
    intro rest
    cases hnulls : o.nulls with
    | unspecified => exact absurd hnulls h
    | first => exact ⟨rfl, rfl⟩
    | last => exact ⟨rfl, rfl⟩
  -- the number decides if one of the two is null, and leaves it to the key otherwise
  cases x with
  | none =>
    cases y with
    | none => rw [number, Direction.orient_compare_self]; rfl
    | some y =>
      rw [number, number, hside, (hdecides _).1]
      exact (SortOrder.compare_none_some h y .eq).symm
  | some x =>
    cases y with
    | none =>
      rw [number, number, Direction.orient_compare_swap, hside, (hdecides _).2]
      exact (SortOrder.compare_some_none h x .eq).symm
    | some y =>
      rw [number, number, Direction.orient_compare_self, SortOrder.compare_some]
      rfl

end

end SqlCompiler
