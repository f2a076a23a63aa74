import SqlCompiler.Proofs.ColumnCounts
import SqlCompiler.Proofs.Cuts

/-!
# Items of lists

The keyword of a clause is followed by a list: of columns, generators, conditions, keys or
assignments.  Here a statement is read piece by piece to see whether there is a list where one is
due.  All that is kept in mind is whether a list is due, and the reading fails at the first piece
that ends a clause before its list has begun.

An expression is followed by the reading to its end: wherever it stands, it begins an item, and it
has no list of its own, but for those of the queries in it.  So it is read to its end unless one of
these has a list without items, which comes from an empty group of columns in the tree.

* `Piece.read`, `Piece.hasItems` — reading a statement for lists without items.
* `Node.isFilled` — trees without empty groups.
* `Dialect.WritesItems` — what the reading asks of the words of a dialect.
* `Script.Reads`, and `Script.readsItem_expression` — expressions are read as items.
-/

set_option autoImplicit false
namespace SqlCompiler

/-! ## Reading a statement -/

namespace Piece

/-- The keywords that a list of items follows. -/
def listKeywords : List String :=
  ["select ", " from ", " where ", " group by ", " order by ", "row_number() over(order by ",
    " set "]

/-- Whether a list of items follows these words. -/
def isKeyword (text : String) : Bool :=
  listKeywords.contains text

/-- Whether words ask for the topmost rows; they stand between a keyword and its list. -/
def isTop (text : String) : Bool :=
  "top ".toList.isPrefixOf text.toList && text.toList.getLast? == some ' '

/-- Whether words begin an item: a call, or anything that neither ends a list nor separates its
items. -/
def beginsItem (text : String) : Bool :=
  text.toList.getLast? == some '('
    || text.toList.head?.any fun c => c != ' ' && c != ',' && c != ')'

/-- Reads a piece, given whether a list is due, and answers whether one is due after it.  There is
no answer if a list is due and the piece does not begin it. -/
def read (due : Bool) : Piece → Option Bool
  | words text =>
    if due && isTop text then some true
    else if due && !beginsItem text then none
    else some (isKeyword text)
  | constant text => if due && text.isEmpty then none else some false
  | name _ | nameText _ | qualifier _ | placeholder _ | input => some false

/-- Reads the pieces one after the other. -/
def readAll (due : Bool) (pieces : List Piece) : Option Bool :=
  pieces.foldlM read due

/-- Whether every keyword that a list follows is followed by an item. -/
def hasItems (pieces : List Piece) : Bool :=
  readAll false pieces == some false

theorem readAll_cons (due : Bool) (p : Piece) (ps : List Piece) :
    readAll due (p :: ps) = (read due p).bind fun due => readAll due ps :=
  rfl

theorem readAll_append (due : Bool) (ps qs : List Piece) :
    readAll due (ps ++ qs) = (readAll due ps).bind fun due => readAll due qs :=
  List.foldlM_append

/-- Whether words begin an item and no list inside it. -/
def leads (text : String) : Bool :=
  !isKeyword text && beginsItem text && !isTop text

/-- Whether words end a list that is due, and begin none. -/
def closes (text : String) : Bool :=
  !isKeyword text && !beginsItem text && !isTop text

theorem read_of_not_isKeyword {text : String} (h : isKeyword text = false) :
    read false (words text) = some false := by
  simp [read, h]

theorem read_of_leads {text : String} (h : leads text = true) (due : Bool) :
    read due (words text) = some false := by
  simp only [leads, Bool.and_eq_true, Bool.not_eq_true'] at h
  simp [read, h.1.1, h.1.2, h.2]

theorem read_of_closes {text : String} (h : closes text = true) :
    read false (words text) = some false ∧ read true (words text) = none := by
  simp only [closes, Bool.and_eq_true, Bool.not_eq_true'] at h
  simp [read, h.1.1, h.1.2, h.2]

section
variable {text : String} {c : Char} (hlast : text.toList.getLast? = some c) (hblank : c ≠ ' ')
include hlast hblank

/-- All keywords end in a blank. -/
theorem isKeyword_of_getLast? : isKeyword text = false := by
  have hkeywords : ∀ keyword ∈ listKeywords, keyword.toList.getLast? = some ' ' := by decide
  rw [isKeyword, List.contains_eq_mem, decide_eq_false_iff_not]
  intro hmem
  have hsame := hlast.symm.trans (hkeywords text hmem)
  exact hblank (Option.some.inj hsame)

theorem isTop_of_getLast? : isTop text = false := by
  simp [isTop, hlast, hblank]

/-- Words that begin with a blank and end in some other mark than a parenthesis. -/
theorem closes_of_getLast? (hopen : c ≠ '(') (hfirst : text.toList.head? = some ' ') :
    closes text = true := by
  have hbegins : beginsItem text = false := by simp [beginsItem, hlast, hopen, hfirst]
  rw [closes, isKeyword_of_getLast? hlast hblank, isTop_of_getLast? hlast hblank, hbegins]
  rfl

end

theorem leads_call (name : String) : leads (name ++ "(") = true := by
  have hlast : (name ++ "(").toList.getLast? = some '(' := by simp [String.toList_append]
  have hbegins : beginsItem (name ++ "(") = true := by rw [beginsItem, hlast]; rfl
  rw [leads, isKeyword_of_getLast? hlast (by decide), isTop_of_getLast? hlast (by decide), hbegins]
  rfl

end Piece

/-! ## Trees without empty groups -/

/-- Whether a node is no group of columns, or one that is not empty. -/
def Shape.isFilled : Shape Node → Bool
  | .product items => !items.isEmpty
  | .record fields => !fields.isEmpty
  | _ => true

/-- Whether no group of columns in a tree is empty. -/
def Node.isFilled (n : Node) : Bool :=
  n.all Shape.isFilled

namespace Node

theorem isFilled_of_isFilled_shape {s : Shape Node} (h : s.isFilled = true) :
    (mk s).isFilled = true ↔ ∀ n ∈ s.children, n.isFilled = true := by
  rw [isFilled, all_mk]
  exact and_iff_right h

@[simp] theorem isFilled_query (q : Query) :
    (query q).isFilled = true ↔ ∀ n ∈ q.children, n.isFilled = true :=
  isFilled_of_isFilled_shape rfl

@[simp] theorem isFilled_product (items : List Node) :
    (mk (.product items)).isFilled = true ↔ items ≠ [] ∧ ∀ n ∈ items, n.isFilled = true := by
  rw [isFilled, all_mk, Shape.isFilled, Bool.not_eq_true', List.isEmpty_eq_false_iff]
  rfl

@[simp] theorem isFilled_record (fields : List (Field Node)) :
    (mk (.record fields)).isFilled = true
      ↔ fields ≠ [] ∧ ∀ c ∈ fields, c.value.isFilled = true := by
  rw [isFilled, all_mk, Shape.isFilled, Bool.not_eq_true', List.isEmpty_eq_false_iff,
    Shape.children, List.forall_mem_map]
  rfl

@[simp] theorem isFilled_column (s : Symbol) (name : String) :
    (column s name).isFilled = true := by
  refine (isFilled_of_isFilled_shape rfl).mpr fun n hn => ?_
  cases hn

end Node

/-! ## The words of dialects -/

/-- Whether an application is read as an item. -/
def Spelling.isItem (s : Spelling) : Bool :=
  Piece.leads s.opening && !Piece.isKeyword s.first && !Piece.isKeyword s.next
    && !Piece.isKeyword s.closing

/-- Whether a conditional is read as an item. -/
def Conditional.isItem (c : Conditional) : Bool :=
  Piece.leads c.opening && !Piece.isKeyword c.first && !Piece.isKeyword c.next
    && !Piece.isKeyword c.value && !Piece.isKeyword c.otherwise && !Piece.isKeyword c.closing

/-- A dialect that has the keywords of clauses for nothing else, and whose words for expressions
begin items. -/
structure Dialect.WritesItems (d : Dialect) : Prop where
  spelling : ∀ f, (d.spelling f).isItem = true
  conditional : d.conditional.isItem = true
  next : Piece.leads d.sequences.next = true
  current : Piece.leads d.sequences.current = true
  closing : Piece.isKeyword d.sequences.closing = false
  emptyFrom : Piece.closes d.emptyFrom = true

theorem Spelling.isItem_call (name : String) : (call name).isItem = true := by
  have hrest : Piece.isKeyword ", " = false ∧ Piece.isKeyword ")" = false := by decide
  rw [isItem, call, Piece.leads_call, hrest.1, hrest.2]
  rfl

theorem Spelling.isItem_standard (f : Function) : (standard f).isItem = true := by
  cases f with
  | named name => exact isItem_call name
  | _ => decide

/-- **The built-in dialects write items.** -/
theorem Database.writesItems (b : Database) : b.dialect.WritesItems where
  spelling f := by
    have hstandard := Spelling.isItem_standard f
    cases f with
    | concat | modulo | length | lower | upper | currentDate | database | user =>
      cases b <;> decide
    | _ => cases b <;> exact hstandard
  conditional := by cases b <;> decide
  next := by cases b <;> decide
  current := by cases b <;> decide
  closing := by cases b <;> decide
  emptyFrom := by cases b <;> decide

namespace Piece

/-- The texts around an additional key for nulls. -/
theorem leads_extraKey {keys : NullKeys} {nulls : NullPlacement} {before behind : String}
    (h : keys.extraKey? nulls = some (before, behind)) :
    leads before = true ∧ isKeyword behind = false := by
  cases keys <;> cases nulls <;> first
    | cases h; decide
    | cases h

theorem isKeyword_suffix (keys : NullKeys) (nulls : NullPlacement) :
    isKeyword (keys.suffix nulls) = false := by
  cases keys <;> cases nulls <;> decide

theorem isTop_top (n : Nat) : isTop ("top " ++ toString n ++ " ") = true := by
  have hfirst : "top ".toList.isPrefixOf ("top " ++ toString n ++ " ").toList = true := by
    rw [List.isPrefixOf_iff_prefix, String.append_assoc, String.toList_append]
    exact List.prefix_append _ _
  have hlast : ("top " ++ toString n ++ " ").toList.getLast? = some ' ' := by
    rw [String.toList_append, List.getLast?_append]
    rfl
  rw [isTop, hfirst, hlast]
  rfl

/-- A text that begins with a blank and ends in a text with another mark at its end. -/
theorem closes_append {before behind : String} {c : Char} (hfirst : before.toList.head? = some ' ')
    (hlast : behind.toList.getLast? = some c) (hblank : c ≠ ' ') (hopen : c ≠ '(') :
    closes (before ++ behind) = true := by
  have hlast : (before ++ behind).toList.getLast? = some c := by
    rw [String.toList_append, List.getLast?_append, hlast]
    rfl
  refine closes_of_getLast? hlast hblank hopen ?_
  rw [String.toList_append, List.head?_append, hfirst]
  rfl

/-- A text that begins with a blank and ends in a number. -/
theorem closes_number {before : String} (hfirst : before.toList.head? = some ' ') (n : Nat) :
    closes (before ++ toString n) = true := by
  have hdigits : (toString n).toList ≠ [] :=
    fun hnil => Nat.repr_ne_empty (String.toList_eq_nil_iff.mp hnil)
  obtain ⟨c, hc⟩ := Option.ne_none_iff_exists'.mp (mt List.getLast?_eq_none_iff.mp hdigits)
  have hdigit : c.isDigit = true := Text.isDigit_of_mem_toString (List.mem_of_getLast? hc)
  refine closes_append hfirst hc ?_ ?_
  · rintro rfl
    exact absurd hdigit (by decide)
  · rintro rfl
    exact absurd hdigit (by decide)

theorem closes_pagingText (paging : Paging) (fetch offset : Option Nat) :
    closes (Script.pagingText paging fetch offset) = true := by
  have hrows : ∀ before : String, before.toList.head? = some ' ' →
      closes (before ++ " rows only") = true ∧ closes (before ++ " rows") = true := fun _ hfirst =>
    ⟨closes_append (c := 'y') hfirst rfl (by decide) (by decide),
      closes_append (c := 's') hfirst rfl (by decide) (by decide)⟩
  rw [Script.pagingText.eq_def]
  split
  · exact closes_number (by simp) _
  · exact closes_number rfl _
  · exact closes_number (by simp) _
  · exact closes_number rfl _
  · exact (hrows _ (by simp)).1
  · exact (hrows _ (by simp)).1
  · exact (hrows _ (by simp)).2
  · decide

end Piece

/-! ## Expressions -/

namespace Script

/-- What a script writes is read to its end with no list due if `P` holds, and otherwise not to its
end. -/
def Reads (σ : Script) (due : Bool) (P : Prop) : Prop :=
  ∀ ⦃aliases : Aliases⦄ ⦃nested : Bool⦄ ⦃count : Nat⦄ ⦃o : Output⦄,
    σ.output aliases nested count = .ok o →
      (P → Piece.readAll due o.pieces = some false) ∧ (¬ P → Piece.readAll due o.pieces = none)

/-- A script that writes nothing. -/
def Silent (σ : Script) : Prop :=
  ∀ ⦃aliases : Aliases⦄ ⦃nested : Bool⦄ ⦃count : Nat⦄ ⦃o : Output⦄,
    σ.output aliases nested count = .ok o → o.pieces = []

theorem silent_done : Silent done := by
  intro aliases nested count o ho
  cases ho
  rfl

theorem silent_check (e : Except Error Unit) : Silent (check e) := by
  intro aliases nested count o ho
  rw [output_check_eq_ok ho]

theorem Silent.append {σ τ : Script} (hσ : Silent σ) (hτ : Silent τ) : Silent (σ ++ τ) := by
  intro aliases nested count o ho
  obtain ⟨x, y, hx, hy, rfl⟩ := output_append_eq_ok ho
  rw [Output.append, hσ hx, hτ hy]
  rfl

theorem silent_demand (d : Dialect) (demand : Option Capability) :
    Silent (match demand with | some c => check (d.require c) | none => done) := by
  cases demand with
  | some c => exact silent_check _
  | none => exact silent_done

namespace Reads

variable {σ τ : Script} {due : Bool} {P Q : Prop}

theorem congr (hσ : Reads σ due P) (h : P ↔ Q) : Reads σ due Q :=
  propext h ▸ hσ

theorem append (hσ : Reads σ due P) (hτ : Reads τ false Q) : Reads (σ ++ τ) due (P ∧ Q) := by
  intro aliases nested count o ho
  obtain ⟨x, y, hx, hy, rfl⟩ := output_append_eq_ok ho
  rw [Output.append, Piece.readAll_append]
  by_cases hP : P
  · rw [(hσ hx).1 hP]
    exact ⟨fun h => (hτ hy).1 h.2, fun h => (hτ hy).2 fun hQ => h ⟨hP, hQ⟩⟩
  · rw [(hσ hx).2 hP]
    exact ⟨fun h => absurd h.1 hP, fun _ => rfl⟩

/-- With something before it that is always read to its end. -/
theorem preceded (hσ : Reads σ due True) (hτ : Reads τ false Q) : Reads (σ ++ τ) due Q :=
  (hσ.append hτ).congr (iff_of_eq (true_and Q))

/-- With something after it that is always read to its end. -/
theorem followed (hσ : Reads σ due P) (hτ : Reads τ false True) : Reads (σ ++ τ) due P :=
  (hσ.append hτ).congr (iff_of_eq (and_true P))

theorem after (hσ : Silent σ) (hτ : Reads τ due P) : Reads (σ ++ τ) due P := by
  intro aliases nested count o ho
  obtain ⟨x, y, hx, hy, rfl⟩ := output_append_eq_ok ho
  have hpieces : (x.append y).pieces = y.pieces := by
    rw [Output.append, hσ hx]
    rfl
  rw [hpieces]
  exact hτ hy

/-- With a keyword before it, after which a list is due. -/
theorem keyed {text : String} (h : Piece.read due (.words text) = some true)
    (hτ : Reads τ true P) : Reads (words text ++ τ) due P := by
  intro aliases nested count o ho
  obtain ⟨x, y, hx, hy, rfl⟩ := output_append_eq_ok ho
  cases hx
  change (P → ((Piece.read due (.words text)).bind fun due => Piece.readAll due y.pieces) = _)
    ∧ (¬ P → ((Piece.read due (.words text)).bind fun due => Piece.readAll due y.pieces) = _)
  rw [h]
  exact hτ hy

end Reads

section
variable {due : Bool}

theorem reads_fail (e : Error) (due : Bool) (P : Prop) : Reads (fail e) due P := by
  intro aliases nested count o ho
  cases ho

theorem reads_piece {p : Piece} (h : p.read due = some false) : Reads (piece p) due True := by
  intro aliases nested count o ho
  cases ho
  refine ⟨fun _ => ?_, fun hfalse => absurd trivial hfalse⟩
  rw [Piece.readAll_cons, h]
  rfl

theorem reads_leading {text : String} (h : Piece.leads text = true) (due : Bool) :
    Reads (words text) due True :=
  reads_piece (Piece.read_of_leads h due)

theorem reads_words {text : String} (h : Piece.isKeyword text = false) :
    Reads (words text) false True :=
  reads_piece (Piece.read_of_not_isKeyword h)

theorem reads_done : Reads done false True := by
  intro aliases nested count o ho
  cases ho
  exact ⟨fun _ => rfl, fun hfalse => absurd trivial hfalse⟩

theorem reads_wordsIfAny {text : String} (h : Piece.isKeyword text = false) :
    Reads (wordsIfAny text) false True := by
  rw [wordsIfAny]
  split
  · exact reads_done
  · exact reads_words h

theorem reads_reference (s : Symbol) (due : Bool) : Reads (reference s) due True := by
  intro aliases nested count o ho
  obtain ⟨q, -, rfl⟩ := Aliases.map_lookup_eq_ok ho
  exact ⟨fun _ => rfl, fun hfalse => absurd trivial hfalse⟩

theorem reads_sourceAlias (s : Symbol) : Reads (sourceAlias s) false True := by
  intro aliases nested count o ho
  obtain ⟨q, -, rfl⟩ := Aliases.map_lookup_eq_ok ho
  exact ⟨fun _ => rfl, fun hfalse => absurd trivial hfalse⟩

theorem reads_literal (d : Dialect) (c : Literal) (due : Bool) : Reads (literal d c) due True := by
  rw [literal]
  split
  · cases (d.types.column c.kind).toCell c.value with
    | error e => exact reads_fail e _ _
    | ok cell => exact reads_piece rfl
  · split
    · exact reads_fail _ _ _
    · cases htext : (d.types.column c.kind).inline c.value with
      | error e => exact reads_fail e _ _
      | ok text =>
        have hempty : text.isEmpty = false := by
          simpa [String.isEmpty_iff] using ColumnType.inline_ne_empty htext
        exact reads_piece (by simp [Piece.read, hempty])

end

section
variable {ι : Type} {l : List ι} {σ : ι → Script} {P : ι → Prop}

theorem reads_eachAfter {separator : String} (h : Piece.isKeyword separator = false)
    (hl : ∀ i ∈ l, ∀ due, Reads (σ i) due (P i)) :
    Reads (eachAfter separator (l.map σ)) false (∀ i ∈ l, P i) := by
  induction l with
  | nil => exact reads_done.congr (by simp)
  | cons i l ih =>
    have hfirst := (reads_words h).preceded (hl i List.mem_cons_self false)
    exact (hfirst.append (ih fun j hj => hl j (List.mem_cons_of_mem _ hj))).congr
      List.forall_mem_cons.symm

/-- A list that has an item. -/
theorem reads_separated {separator : String} (h : Piece.isKeyword separator = false)
    (hsome : l ≠ []) (hl : ∀ i ∈ l, ∀ due, Reads (σ i) due (P i)) (due : Bool) :
    Reads (separated separator (l.map σ)) due (∀ i ∈ l, P i) := by
  cases l with
  | nil => exact absurd rfl hsome
  | cons i l =>
    exact ((hl i List.mem_cons_self due).append
      (reads_eachAfter h fun j hj => hl j (List.mem_cons_of_mem _ hj))).congr
        List.forall_mem_cons.symm

theorem reads_spelled {s : Spelling} (hs : s.isItem = true)
    (hl : ∀ i ∈ l, ∀ due, Reads (σ i) due (P i)) (due : Bool) :
    Reads (spelled s (l.map σ)) due (∀ i ∈ l, P i) := by
  simp only [Spelling.isItem, Bool.and_eq_true, Bool.not_eq_true'] at hs
  obtain ⟨⟨⟨hopening, hfirst⟩, hnext⟩, hclosing⟩ := hs
  refine ((reads_leading hopening due).preceded ?_).followed (reads_wordsIfAny hclosing)
  -- the opening words have begun the item, so the arguments are read with no list due
  match l, hl with
  | [], _ => exact reads_done.congr (by simp)
  | [i], hl => exact (hl i List.mem_cons_self false).congr List.forall_mem_singleton.symm
  | i :: j :: rest, hl =>
    have hj : j ∈ i :: j :: rest := List.mem_cons_of_mem _ List.mem_cons_self
    have hpair := ((hl i List.mem_cons_self false).followed (reads_words hfirst)).append
      (hl j hj false)
    have hrest := reads_eachAfter hnext fun m hm =>
      hl m (List.mem_cons_of_mem _ (List.mem_cons_of_mem _ hm))
    refine (hpair.append hrest).congr ?_
    rw [List.forall_mem_cons, List.forall_mem_cons, and_assoc]

end

variable {d : Dialect}

/-- A node that is read as an item wherever it stands, unless there is an empty group in it. -/
def ReadsItem (d : Dialect) (n : Node) : Prop :=
  ∀ due, Reads (n.script d) due (n.isFilled = true)

theorem reads_sortKey {k : SortKey Node} (h : ReadsItem d k.key) (due : Bool) :
    Reads (sortKey d ⟨k.key.rendering d, k.order⟩) due (k.key.isFilled = true) := by
  have hdirection : Reads (if k.order.isDescending then words " desc" else done) false True := by
    split
    · exact reads_words (by decide)
    · exact reads_done
  have hsuffix := reads_wordsIfAny (Piece.isKeyword_suffix d.nullKeys k.order.nulls)
  refine Reads.followed (Reads.followed ?_ hdirection) hsuffix
  dsimp only
  cases hextra : d.nullKeys.extraKey? k.order.nulls with
  | none => exact Reads.after silent_done (h due)
  | some texts =>
    obtain ⟨before, behind⟩ := texts
    obtain ⟨hbefore, hbehind⟩ := Piece.leads_extraKey hextra
    have htest := ((reads_leading hbefore due).preceded (h false)).followed (reads_words hbehind)
    exact (htest.append (h false)).congr (iff_of_eq (and_self _))

theorem reads_sortKeys {keys : List (SortKey Node)} (hsome : keys ≠ [])
    (h : ∀ k ∈ keys, ReadsItem d k.key) (due : Bool) :
    Reads (sortKeys d (keys.map fun k => ⟨k.key.rendering d, k.order⟩)) due
      (∀ k ∈ keys, k.key.isFilled = true) := by
  rw [sortKeys, List.map_map]
  exact reads_separated (by decide) hsome (fun k hk => reads_sortKey (h k hk)) due

theorem reads_apply (hd : d.WritesItems) (f : Function) {arguments : List Node}
    (h : ∀ n ∈ arguments, ReadsItem d n) (due : Bool) :
    Reads (apply d f (arguments.map (Node.rendering d))) due
      (∀ n ∈ arguments, n.isFilled = true) := by
  rw [apply, List.map_map, List.map_map]
  refine Reads.after (((silent_check _).append (silent_demand d _)).append (silent_check _)) ?_
  exact reads_spelled (hd.spelling f) h due

theorem reads_conditional (hd : d.WritesItems) {branches : List (Branch Node)}
    {otherwise : Option Node} (h : ∀ n ∈ (Shape.cases branches otherwise).children, ReadsItem d n)
    (due : Bool) :
    Reads (conditional d (branches.map fun b => ⟨b.condition.rendering d, b.value.rendering d⟩)
      (otherwise.map (Node.rendering d))) due
      (∀ n ∈ (Shape.cases branches otherwise).children, n.isFilled = true) := by
  have hwords := hd.conditional
  simp only [Conditional.isItem, Bool.and_eq_true, Bool.not_eq_true'] at hwords
  obtain ⟨⟨⟨⟨⟨hopening, hfirst⟩, hnext⟩, hvalue⟩, hotherwise⟩, hclosing⟩ := hwords
  have hchildren : ∀ P : Node → Prop, (∀ n ∈ (Shape.cases branches otherwise).children, P n)
      ↔ (∀ b ∈ branches, P b.condition ∧ P b.value) ∧ ∀ n, otherwise = some n → P n := by
    intro P
    rw [Shape.children, List.forall_mem_append, List.forall_mem_flatMap]
    simp [or_imp, forall_and]
  obtain ⟨hbranches, hlast⟩ := (hchildren _).mp h
  have hbranch : ∀ b ∈ branches, ∀ due,
      Reads (branch d ⟨b.condition.rendering d, b.value.rendering d⟩) due
        (b.condition.isFilled = true ∧ b.value.isFilled = true) := fun b hb due =>
    (((hbranches b hb).1 due).followed (reads_words hvalue)).append ((hbranches b hb).2 false)
  rw [conditional.eq_def]
  split
  · exact reads_fail _ _ _
  · next hempty =>
    have hsome : branches ≠ [] := by simpa using hempty
    rw [List.map_map, hchildren]
    refine Reads.followed (Reads.append ?_ ?_) (reads_words hclosing)
    · refine Reads.preceded ((reads_leading hopening due).followed (reads_wordsIfAny hfirst)) ?_
      exact reads_separated hnext hsome hbranch false
    · cases otherwise with
      | none => exact reads_done.congr (by simp)
      | some n => exact ((reads_words hotherwise).preceded (hlast n rfl false)).congr (by simp)

theorem reads_rowNumber {keys : List (SortKey Node)} (h : ∀ k ∈ keys, ReadsItem d k.key)
    (due : Bool) :
    Reads (rowNumber d (keys.map fun k => ⟨k.key.rendering d, k.order⟩)) due
      (∀ k ∈ keys, k.key.isFilled = true) := by
  rw [rowNumber, List.isEmpty_map]
  split
  · refine Reads.followed (Reads.keyed (by cases due <;> decide) ?_) (reads_words (by decide))
    cases keys with
    | nil => exact (reads_leading (by decide) true).congr (by simp)
    | cons k keys => exact reads_sortKeys (List.cons_ne_nil k keys) h true
  · exact reads_fail _ _ _

theorem reads_sequenceCall (hd : d.WritesItems) {opening : String}
    (hopening : Piece.leads opening = true) (sequence : String) (due : Bool) :
    Reads (sequenceCall d opening sequence) due True := by
  have hname : Reads (piece (if d.sequences.asText then .nameText sequence else .name sequence))
      false True := by
    split
    · exact reads_piece rfl
    · exact reads_piece rfl
  exact ((reads_leading hopening due).preceded hname).followed (reads_words hd.closing)

/-- **A node that is no query.** -/
theorem readsItem_expression (hd : d.WritesItems) {s : Shape Node} (hquery : ∀ q, s ≠ .query q)
    (h : ∀ n ∈ s.children, ReadsItem d n) : ReadsItem d (.mk s) := by
  intro due
  have hleaf : s.isFilled = true → s.children = [] → (True ↔ (Node.mk s).isFilled = true) := by
    intro hs hnone
    rw [Node.isFilled_of_isFilled_shape hs, hnone]
    simp
  cases s with
  | query q => exact absurd rfl (hquery q)
  | table _ | row _ | product _ | record _ =>
    rw [Node.script_refused d (by simp)]
    exact reads_fail _ _ _
  | column source name =>
    rw [Node.script_column]
    refine Reads.congr ?_ (hleaf rfl rfl)
    exact ((reads_reference source due).followed (reads_words (by decide))).followed
      (reads_piece rfl)
  | literal c =>
    rw [Node.script_literal]
    exact (reads_literal d c due).congr (hleaf rfl rfl)
  | parameter index kind =>
    rw [Node.script_parameter]
    exact (reads_piece rfl).congr (hleaf rfl rfl)
  | apply f arguments =>
    rw [Node.script_apply]
    exact (reads_apply hd f h due).congr (Node.isFilled_of_isFilled_shape rfl).symm
  | cases branches otherwise =>
    rw [Node.script_cases]
    exact (reads_conditional hd h due).congr (Node.isFilled_of_isFilled_shape rfl).symm
  | rowNumber keys =>
    rw [Node.script_rowNumber]
    refine Reads.congr ?_ (Node.isFilled_of_isFilled_shape rfl).symm
    rw [Shape.children, List.forall_mem_map] at h ⊢
    exact reads_rowNumber h due
  | nextValue sequence =>
    rw [Node.script_nextValue]
    refine Reads.congr ?_ (hleaf rfl rfl)
    exact Reads.after (silent_check _) (reads_sequenceCall hd hd.next sequence due)
  | currentValue sequence =>
    rw [Node.script_currentValue]
    refine Reads.congr ?_ (hleaf rfl rfl)
    exact Reads.after ((silent_check _).append (silent_check _))
      (reads_sequenceCall hd hd.current sequence due)

end Script
end SqlCompiler
