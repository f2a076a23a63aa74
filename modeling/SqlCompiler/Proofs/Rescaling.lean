import SqlCompiler.Proofs.Gathering
import SqlCompiler.Proofs.Relabeling

/-!
# Trees that compare equal

Two trees compare equal if they have the same shape all the way down and the same constants, and a
decimal is the same constant with more places, or a zero with a sign.  So trees that compare equal
differ in how decimals are written and in nothing else.  `Node.Rescaled` says that without a
comparison: both trees are projections of one tree of pairs, down to decimals that are the same
number.

Nothing that is done to a tree before it is written looks at a constant, so all of it gives the
same for both trees.

* `Agree` — computations that fail alike or succeed with related results.
* `Node.Rescaled`, `Query.Rescaled` — trees that differ only in how decimals are written.
* `Query.rescaled_of_same` — trees that compare equal are such trees.
* `Query.symbols_rescaled`, `Query.checkScope_rescaled`, `Query.columnCount_rescaled` — they have
  the same symbols, pass the same checks, and yield as many columns.
* `Query.numberRows_rescaled` — and so do the queries that number their rows.
-/

set_option autoImplicit false
namespace SqlCompiler

open Number (Decimal)

/-! ## Computations with related results -/

/-- Two computations that fail with the same error, or succeed with related results. -/
inductive Agree {ε α β : Type} (R : α → β → Prop) : Except ε α → Except ε β → Prop where
  | error (e : ε) : Agree R (.error e) (.error e)
  | ok {a : α} {b : β} (h : R a b) : Agree R (.ok a) (.ok b)

namespace Agree

variable {ε α β γ δ : Type} {R : α → β → Prop} {S : γ → δ → Prop} {x : Except ε α}
  {y : Except ε β}

theorem bind {f : α → Except ε γ} {g : β → Except ε δ} (h : Agree R x y)
    (hfg : ∀ a b, R a b → Agree S (f a) (g b)) : Agree S (x >>= f) (y >>= g) := by
  cases h with
  | error e => exact .error e
  | ok h => exact hfg _ _ h

theorem mapError {ε' : Type} (h : Agree R x y) (f : ε → ε') :
    Agree R (x.mapError f) (y.mapError f) := by
  cases h with
  | error e => exact .error (f e)
  | ok h => exact .ok h

theorem imp {S : α → β → Prop} (h : Agree R x y) (himp : ∀ a b, R a b → S a b) : Agree S x y := by
  cases h with
  | error e => exact .error e
  | ok h => exact .ok (himp _ _ h)

/-- A computation agrees with itself. -/
theorem self (x : Except ε α) : Agree Eq x x := by
  cases x with
  | error e => exact .error e
  | ok a => exact .ok rfl

end Agree

/-! ## Pairs of trees -/

/-- Trees that differ only in how decimals are written.  Those of the first tree that are written
into the statement are among `ds`. -/
inductive Node.Rescaled (ds : List Decimal) : Node → Node → Prop where
  | decimal (kind : Kind) (bind : Bool) {x y : Decimal} (same : x.same y = true)
    (mem : bind = false → x ∈ ds) :
    Rescaled ds (.literal ⟨kind, .decimal x, bind⟩) (.literal ⟨kind, .decimal y, bind⟩)
  | places (pairs : Shape (Node × Node)) (h : ∀ x ∈ pairs.children, Rescaled ds x.1 x.2) :
    Rescaled ds (.mk (pairs.map Prod.fst)) (.mk (pairs.map Prod.snd))

/-- Queries that differ only in how decimals are written. -/
inductive Query.Rescaled (ds : List Decimal) : Query → Query → Prop where
  | places (pairs : Clauses (Node × Node)) (h : ∀ x ∈ pairs.children, x.1.Rescaled ds x.2) :
    Rescaled ds (pairs.map Prod.fst) (pairs.map Prod.snd)

namespace Node

variable {ds : List Decimal}

theorem Rescaled.refl : ∀ n : Node, n.Rescaled ds n := by
  refine Node.induct fun s ih => ?_
  have hpairs : Rescaled ds (.mk ((s.map fun n => (n, n)).map Prod.fst))
      (.mk ((s.map fun n => (n, n)).map Prod.snd)) := by
    refine .places _ fun x hx => ?_
    rw [Shape.children_map] at hx
    obtain ⟨n, hn, rfl⟩ := List.mem_map.mp hx
    exact ih n hn
  rwa [Shape.map_map, Shape.map_map, show (Prod.fst ∘ fun n : Node => (n, n)) = id from rfl,
    show (Prod.snd ∘ fun n : Node => (n, n)) = id from rfl, Shape.map_id] at hpairs

theorem Rescaled.query {p q : Query} (h : Query.Rescaled ds p q) :
    (Node.query p).Rescaled ds (.query q) := by
  obtain ⟨pairs, h⟩ := h
  exact .places (.query pairs) h

theorem Rescaled.exists_query {p : Query} {m : Node} (h : (Node.query p).Rescaled ds m) :
    ∃ q, m = .query q ∧ Query.Rescaled ds p q := by
  generalize hn : Node.query p = n at h
  cases h with
  | decimal => cases hn
  | places pairs h =>
    cases pairs with
    | query pairs =>
      cases hn
      exact ⟨_, rfl, .places pairs h⟩
    | _ => cases hn

theorem Rescaled.isRow {n m : Node} (h : n.Rescaled ds m) : n.isRow = m.isRow := by
  cases h with
  | decimal => rfl
  | places pairs _ => exact (Shape.isRow_map _ pairs).trans (Shape.isRow_map _ pairs).symm

end Node

/-! ## Equality as a relation of places -/

section
variable {α β γ : Type} {same : α → β → Bool} {left : γ → α} {right : γ → β} {P : γ → Prop}

theorem exists_of_sameList
    (hpair : ∀ a b, same a b = true → ∃ c, left c = a ∧ right c = b ∧ P c) :
    ∀ {as : List α} {bs : List β}, sameList same as bs = true →
      ∃ cs : List γ, cs.map left = as ∧ cs.map right = bs ∧ ∀ c ∈ cs, P c
  | [], [], _ => ⟨[], rfl, rfl, fun _ h => absurd h List.not_mem_nil⟩
  | a :: as, b :: bs, h => by
    obtain ⟨hab, hrest⟩ := Bool.and_eq_true_iff.mp h
    obtain ⟨c, rfl, rfl, hc⟩ := hpair a b hab
    obtain ⟨cs, rfl, rfl, hcs⟩ := exists_of_sameList hpair hrest
    exact ⟨c :: cs, rfl, rfl, List.forall_mem_cons.mpr ⟨hc, hcs⟩⟩
  | [], _ :: _, h => absurd h Bool.false_ne_true
  | _ :: _, [], h => absurd h Bool.false_ne_true

theorem exists_of_sameOption
    (hpair : ∀ a b, same a b = true → ∃ c, left c = a ∧ right c = b ∧ P c) :
    ∀ {a : Option α} {b : Option β}, sameOption same a b = true →
      ∃ c : Option γ, c.map left = a ∧ c.map right = b ∧ ∀ x ∈ c.toList, P x
  | none, none, _ => ⟨none, rfl, rfl, fun _ h => absurd h List.not_mem_nil⟩
  | some a, some b, h => by
    obtain ⟨c, rfl, rfl, hc⟩ := hpair a b h
    exact ⟨some c, rfl, rfl, fun x hx => by rwa [List.mem_singleton.mp hx]⟩
  | none, some _, h => absurd h Bool.false_ne_true
  | some _, none, h => absurd h Bool.false_ne_true

end

section
variable {ν : Type} {same : ν → ν → Bool}

/-- Nodes that are the same, as a pair. -/
theorem exists_pair {n m : ν} (h : same n m = true) :
    ∃ x : ν × ν, x.1 = n ∧ x.2 = m ∧ same x.1 x.2 = true :=
  ⟨(n, m), rfl, rfl, h⟩

theorem SortKey.exists_pair {k l : SortKey ν} (h : k.sameBy same l = true) :
    ∃ x : SortKey (ν × ν), (⟨x.key.1, x.order⟩ : SortKey ν) = k ∧ ⟨x.key.2, x.order⟩ = l
      ∧ same x.key.1 x.key.2 = true := by
  obtain ⟨hkey, horder⟩ := Bool.and_eq_true_iff.mp h
  obtain ⟨key, order⟩ := k
  obtain ⟨key', order'⟩ := l
  cases eq_of_beq horder
  exact ⟨⟨(key, key'), order⟩, rfl, rfl, hkey⟩

theorem Generator.exists_pair {g h : Generator ν}
    (hsame : (g.binder == h.binder && same g.source h.source) = true) :
    ∃ x : Generator (ν × ν), (⟨x.binder, x.source.1⟩ : Generator ν) = g ∧ ⟨x.binder, x.source.2⟩ = h
      ∧ same x.source.1 x.source.2 = true := by
  obtain ⟨hbinder, hsource⟩ := Bool.and_eq_true_iff.mp hsame
  obtain ⟨binder, source⟩ := g
  obtain ⟨binder', source'⟩ := h
  cases eq_of_beq hbinder
  exact ⟨⟨binder, (source, source')⟩, rfl, rfl, hsource⟩

theorem Field.exists_pair {f g : Field ν}
    (hsame : (f.name == g.name && same f.value g.value) = true) :
    ∃ x : Field (ν × ν), (⟨x.name, x.value.1⟩ : Field ν) = f ∧ ⟨x.name, x.value.2⟩ = g
      ∧ same x.value.1 x.value.2 = true := by
  obtain ⟨hname, hvalue⟩ := Bool.and_eq_true_iff.mp hsame
  obtain ⟨name, value⟩ := f
  obtain ⟨name', value'⟩ := g
  cases eq_of_beq hname
  exact ⟨⟨name, (value, value')⟩, rfl, rfl, hvalue⟩

theorem Branch.exists_pair {b c : Branch ν}
    (hsame : (same b.condition c.condition && same b.value c.value) = true) :
    ∃ x : Branch (ν × ν), (⟨x.condition.1, x.value.1⟩ : Branch ν) = b
      ∧ ⟨x.condition.2, x.value.2⟩ = c
      ∧ same x.condition.1 x.condition.2 = true ∧ same x.value.1 x.value.2 = true :=
  ⟨⟨(b.condition, c.condition), (b.value, c.value)⟩, rfl, rfl, Bool.and_eq_true_iff.mp hsame⟩

theorem Clauses.exists_pairs {p q : Clauses ν} (h : p.sameBy same q = true) :
    ∃ pairs : Clauses (ν × ν), pairs.map Prod.fst = p ∧ pairs.map Prod.snd = q
      ∧ ∀ x ∈ pairs.children, same x.1 x.2 = true := by
  obtain ⟨generators, filters, groupBy, orderBy, projection, fetch, offset⟩ := p
  obtain ⟨generators', filters', groupBy', orderBy', projection', fetch', offset'⟩ := q
  simp only [sameBy, Bool.and_eq_true, beq_iff_eq] at h
  obtain ⟨⟨⟨⟨⟨⟨hgenerators, hfilters⟩, hgroup⟩, horder⟩, hprojection⟩, rfl⟩, rfl⟩ := h
  obtain ⟨gs, rfl, rfl, hgs⟩ := exists_of_sameList (fun _ _ => Generator.exists_pair) hgenerators
  obtain ⟨fs, rfl, rfl, hfs⟩ := exists_of_sameList (fun _ _ => exists_pair) hfilters
  obtain ⟨g, rfl, rfl, hg⟩ := exists_of_sameOption (fun _ _ => exists_pair) hgroup
  obtain ⟨ks, rfl, rfl, hks⟩ := exists_of_sameList (fun _ _ => SortKey.exists_pair) horder
  obtain ⟨p, rfl, rfl, hp⟩ := exists_of_sameOption (fun _ _ => exists_pair) hprojection
  refine ⟨⟨gs, fs, g, ks, p, fetch, offset⟩, rfl, rfl, fun x hx => ?_⟩
  rcases mem_children_iff.mp hx with ⟨g', hg', rfl⟩ | hx | hx | ⟨k, hk, rfl⟩ | hx
  · exact hgs g' hg'
  · exact hfs x hx
  · exact hg x (Option.mem_toList.mpr hx)
  · exact hks k hk
  · exact hp x (Option.mem_toList.mpr hx)

/-- Nodes that are the same are the same constant, or have children that are the same in the same
places. -/
theorem Shape.exists_pairs {s t : Shape ν} (h : s.sameBy same t = true) :
    (∃ a b : Literal, s = .literal a ∧ t = .literal b ∧ a.same b = true)
      ∨ ∃ pairs : Shape (ν × ν), pairs.map Prod.fst = s ∧ pairs.map Prod.snd = t
        ∧ ∀ x ∈ pairs.children, same x.1 x.2 = true := by
  have none_below : ∀ x : ν × ν, x ∈ ([] : List (ν × ν)) → same x.1 x.2 = true :=
    fun _ hx => absurd hx List.not_mem_nil
  unfold sameBy at h
  split at h
  · obtain ⟨pairs, rfl, rfl, hpairs⟩ := Clauses.exists_pairs h
    exact .inr ⟨.query pairs, rfl, rfl, hpairs⟩
  · cases eq_of_beq h
    exact .inr ⟨.table _, rfl, rfl, none_below⟩
  · cases eq_of_beq h
    exact .inr ⟨.row _, rfl, rfl, none_below⟩
  · obtain ⟨hs, hn⟩ := Bool.and_eq_true_iff.mp h
    cases eq_of_beq hs
    cases eq_of_beq hn
    exact .inr ⟨.column _ _, rfl, rfl, none_below⟩
  · exact .inl ⟨_, _, rfl, rfl, h⟩
  · obtain ⟨hi, hk⟩ := Bool.and_eq_true_iff.mp h
    cases eq_of_beq hi
    cases eq_of_beq hk
    exact .inr ⟨.parameter _ _, rfl, rfl, none_below⟩
  · obtain ⟨hf, harguments⟩ := Bool.and_eq_true_iff.mp h
    cases eq_of_beq hf
    obtain ⟨as, rfl, rfl, has⟩ := exists_of_sameList (fun _ _ => exists_pair) harguments
    exact .inr ⟨.apply _ as, rfl, rfl, has⟩
  · obtain ⟨hbranches, hotherwise⟩ := Bool.and_eq_true_iff.mp h
    obtain ⟨bs, rfl, rfl, hbs⟩ := exists_of_sameList (fun _ _ => Branch.exists_pair) hbranches
    obtain ⟨o, rfl, rfl, ho⟩ := exists_of_sameOption (fun _ _ => exists_pair) hotherwise
    refine .inr ⟨.cases bs o, rfl, rfl, fun x hx => ?_⟩
    rcases List.mem_append.mp hx with hx | hx
    · obtain ⟨b, hb, hx⟩ := List.mem_flatMap.mp hx
      rcases List.mem_cons.mp hx with rfl | hx
      · exact (hbs b hb).1
      · rw [List.mem_singleton.mp hx]
        exact (hbs b hb).2
    · exact ho x hx
  · obtain ⟨items, rfl, rfl, hitems⟩ := exists_of_sameList (fun _ _ => exists_pair) h
    exact .inr ⟨.product items, rfl, rfl, hitems⟩
  · obtain ⟨fs, rfl, rfl, hfs⟩ := exists_of_sameList (fun _ _ => Field.exists_pair) h
    refine .inr ⟨.record fs, rfl, rfl, fun x hx => ?_⟩
    obtain ⟨f, hf, rfl⟩ := List.mem_map.mp hx
    exact hfs f hf
  · obtain ⟨ks, rfl, rfl, hks⟩ := exists_of_sameList (fun _ _ => SortKey.exists_pair) h
    refine .inr ⟨.rowNumber ks, rfl, rfl, fun x hx => ?_⟩
    obtain ⟨k, hk, rfl⟩ := List.mem_map.mp hx
    exact hks k hk
  · cases eq_of_beq h
    exact .inr ⟨.nextValue _, rfl, rfl, none_below⟩
  · cases eq_of_beq h
    exact .inr ⟨.currentValue _, rfl, rfl, none_below⟩
  · cases h

end

/-! ## Trees that compare equal -/

section
variable {ν μ κ : Type} {same : ν → μ → Bool}

theorem sameList_map {α β γ : Type} {same : β → γ → Bool} (f : α → β) :
    ∀ (as : List α) (cs : List γ),
      sameList same (as.map f) cs = sameList (fun a c => same (f a) c) as cs
  | [], [] => rfl
  | a :: as, c :: cs => congrArg (same (f a) c && ·) (sameList_map f as cs)
  | [], _ :: _ => rfl
  | _ :: _, [] => rfl

theorem sameOption_map {α β γ : Type} {same : β → γ → Bool} (f : α → β) (a : Option α)
    (c : Option γ) : sameOption same (a.map f) c = sameOption (fun a c => same (f a) c) a c := by
  cases a <;> cases c <;> rfl

theorem Clauses.sameBy_map (f : κ → ν) (p : Clauses κ) (q : Clauses μ) :
    (p.map f).sameBy same q = p.sameBy (fun n m => same (f n) m) q := by
  simp only [sameBy, map, sameList_map, sameOption_map]
  rfl

theorem Shape.sameBy_map (f : κ → ν) (s : Shape κ) (t : Shape μ) :
    (s.map f).sameBy same t = s.sameBy (fun n m => same (f n) m) t := by
  cases s with
  | query p =>
    cases t with
    | query q => exact Clauses.sameBy_map f p q
    | _ => rfl
  | apply g as =>
    cases t with
    | apply h bs => exact congrArg (g == h && ·) (sameList_map f as bs)
    | _ => rfl
  | cases bs o =>
    cases t with
    | cases cs p => simp only [map, sameBy, sameList_map, sameOption_map]
    | _ => rfl
  | product as =>
    cases t with
    | product bs => exact sameList_map f as bs
    | _ => rfl
  | record as =>
    cases t with
    | record bs => exact sameList_map _ as bs
    | _ => rfl
  | rowNumber as =>
    cases t with
    | rowNumber bs => exact sameList_map _ as bs
    | _ => rfl
  | _ => cases t <;> rfl

end

theorem Node.same_mk (s : Shape Node) (m : Node) :
    (mk s).same m = s.sameBy Node.same m.shape := by
  rw [same, fold_mk, Shape.sameBy_map]
  rfl

/-- The decimal that a constant writes into the statement, if any. -/
def Literal.inlineDecimals : Literal → List Decimal
  | ⟨_, .decimal x, false⟩ => [x]
  | _ => []

/-- The decimal that a node writes into the statement, if any. -/
def Shape.inlineDecimals {ν : Type} : Shape ν → List Decimal
  | .literal constant => constant.inlineDecimals
  | _ => []

/-- The decimals that are written into the statement. -/
def Node.inlineDecimals : Node → List Decimal :=
  fold fun s => s.inlineDecimals ++ s.children.flatMap Prod.snd

/-- The decimals that a query writes into the statement. -/
def Query.inlineDecimals (q : Query) : List Decimal :=
  q.children.flatMap Node.inlineDecimals

theorem Node.inlineDecimals_mk (s : Shape Node) :
    (mk s).inlineDecimals = s.inlineDecimals ++ s.children.flatMap inlineDecimals := by
  have hown : ∀ f : Node → Node × List Decimal, (s.map f).inlineDecimals = s.inlineDecimals := by
    intro f
    cases s <;> rfl
  rw [inlineDecimals, fold_mk, hown, Shape.children_map, List.flatMap_map]
  rfl

/-- Constants that are the same are equal or decimals. -/
theorem Literal.eq_or_decimal {a b : Literal} (h : a.same b = true) :
    a = b ∨ ∃ kind x y bind, a = ⟨kind, .decimal x, bind⟩ ∧ b = ⟨kind, .decimal y, bind⟩
      ∧ x.same y = true := by
  obtain ⟨kind, value, bind⟩ := a
  obtain ⟨kind', value', bind'⟩ := b
  simp only [same, Bool.and_eq_true, beq_iff_eq] at h
  obtain ⟨⟨rfl, hvalue⟩, rfl⟩ := h
  unfold Value.same at hvalue
  split at hvalue
  · exact .inr ⟨kind, _, _, bind, rfl, rfl, hvalue⟩
  · rw [of_decide_eq_true hvalue]
    exact .inl rfl

section
variable {ds : List Decimal}

theorem Node.rescaled_of_same :
    ∀ n m : Node, n.same m = true → n.inlineDecimals ⊆ ds → n.Rescaled ds m := by
  refine Node.induct fun s ih => ?_
  rintro ⟨t⟩ hsame hds
  rw [same_mk] at hsame
  rcases Shape.exists_pairs hsame with ⟨a, b, rfl, hb, hab⟩ | ⟨pairs, rfl, ht, hpairs⟩
  · cases hb
    rcases Literal.eq_or_decimal hab with rfl | ⟨kind, x, y, bind, rfl, rfl, hxy⟩
    · exact .refl _
    · refine .decimal kind bind hxy fun hbind => hds ?_
      rw [hbind, inlineDecimals_mk]
      exact List.mem_cons_self
  · cases ht
    refine .places pairs fun x hx => ?_
    have hchild : x.1 ∈ (pairs.map Prod.fst).children := by
      rw [Shape.children_map]
      exact List.mem_map_of_mem hx
    refine ih x.1 hchild x.2 (hpairs x hx) fun d hd => hds ?_
    rw [inlineDecimals_mk]
    exact List.mem_append_right _ (List.mem_flatMap.mpr ⟨x.1, hchild, hd⟩)

/-- **Queries that compare equal differ only in how decimals are written.** -/
theorem Query.rescaled_of_same {p q : Query} (h : p.same q = true) :
    Query.Rescaled (inlineDecimals p) p q := by
  obtain ⟨pairs, rfl, rfl, hpairs⟩ := Clauses.exists_pairs h
  refine .places pairs fun x hx => Node.rescaled_of_same x.1 x.2 (hpairs x hx) fun d hd => ?_
  refine List.mem_flatMap.mpr ⟨x.1, ?_, hd⟩
  rw [Clauses.children_map]
  exact List.mem_map_of_mem hx

/-! ## What does not look at constants -/

/-- A fold that does not look at constants gives the same for both trees. -/
theorem Node.fold_rescaled {α : Type} {layer : Shape (Node × α) → α} (answer : Shape α → α)
    (hlayer : ∀ s, layer s = answer (s.map Prod.snd))
    (hliteral : ∀ a b, answer (.literal a) = answer (.literal b)) {n m : Node}
    (h : n.Rescaled ds m) : n.fold layer = m.fold layer := by
  induction h with
  | decimal kind bind same mem =>
    rw [fold_mk, fold_mk, hlayer, hlayer]
    exact hliteral _ _
  | places pairs h ih =>
    rw [fold_mk, fold_mk, hlayer, hlayer, Shape.map_map, Shape.map_map, Shape.map_map,
      Shape.map_map]
    exact congrArg answer (Shape.map_congr ih)

theorem Clauses.symbolsLayer_map {ν μ : Type} (f : ν → μ) (symbols : μ → List Symbol)
    (q : Clauses ν) : (q.map f).symbolsLayer symbols = q.symbolsLayer (symbols ∘ f) := by
  rw [symbolsLayer, symbolsLayer, expressions_map, List.flatMap_map, map, List.flatMap_map]
  rfl

/-- The symbols in a node, from those in its children. -/
def Shape.symbolsOf : Shape (List Symbol) → List Symbol
  | .query q => q.symbolsLayer id
  | .row source => [source]
  | .column source _ => [source]
  | s => s.children.flatten

theorem Node.symbols_rescaled {n m : Node} (h : n.Rescaled ds m) : n.symbols = m.symbols := by
  refine fold_rescaled Shape.symbolsOf (fun s => ?_) (fun _ _ => rfl) h
  have hchildren : s.children.flatMap Prod.snd = (s.map Prod.snd).children.flatten := by
    rw [Shape.children_map]
    rfl
  cases s with
  | query q => exact (Clauses.symbolsLayer_map Prod.snd id q).symm
  | row _ | column _ _ => rfl
  | _ => exact hchildren

theorem Query.symbols_rescaled {p q : Query} (h : Query.Rescaled ds p q) :
    symbols p = symbols q := by
  have hquery : ∀ q : Query, (Node.query q).symbols = symbols q := by
    intro q
    rw [Node.symbols, Node.fold_mk]
    exact Clauses.symbolsLayer_map _ _ q
  rw [← hquery, ← hquery]
  exact Node.symbols_rescaled (.query h)

/-- The check of a node, from those of its children. -/
def Shape.checkScopeOf :
    Shape (List Symbol → Except Error Unit) → List Symbol → Except Error Unit
  | .query q => q.checkScopeLayer id
  | .row source | .column source _ => fun scope =>
    if source ∈ scope then .ok () else .error (.malformed (.outOfScope source))
  | s => fun scope => s.children.forM fun check => check scope

theorem Node.checkScope_rescaled {n m : Node} (h : n.Rescaled ds m) :
    n.checkScope = m.checkScope := by
  refine fold_rescaled Shape.checkScopeOf (fun s => ?_) (fun _ _ => rfl) h
  have hchildren : ∀ scope, (s.children.forM fun n => n.2 scope)
      = (s.map Prod.snd).children.forM fun check => check scope := by
    intro scope
    rw [Shape.children_map, List.forM_eq_forM, List.forM_eq_forM, List.forM_map]
  cases s with
  | query q =>
    change q.checkScopeLayer (fun n => id n.2) = (q.map Prod.snd).checkScopeLayer id
    rw [Clauses.checkScopeLayer_map]
  | row _ | column _ _ => rfl
  | _ => exact funext hchildren

/-- The same checks are passed. -/
theorem Query.checkScope_rescaled {p q : Query} (h : Query.Rescaled ds p q) :
    checkScope p = checkScope q := by
  have hquery : ∀ q : Query, (Node.query q).checkScope [] = checkScope q := fun q =>
    Node.checkScope_mk (.query q) []
  rw [← hquery, ← hquery, Node.checkScope_rescaled (.query h)]

/-- The columns of both projections, in pairs. -/
theorem Node.columnsOf_rescaled {n m : Node} (h : n.Rescaled ds m) :
    ∃ pairs : List (Node × Node), Layout.columnsOf n = pairs.map Prod.fst
      ∧ Layout.columnsOf m = pairs.map Prod.snd ∧ ∀ x ∈ pairs, x.1.Rescaled ds x.2 := by
  have single : ∀ {n m : Node}, n.Rescaled ds m → ∃ pairs : List (Node × Node),
      [n] = pairs.map Prod.fst ∧ [m] = pairs.map Prod.snd ∧ ∀ x ∈ pairs, x.1.Rescaled ds x.2 :=
    fun {n m} h => ⟨[(n, m)], rfl, rfl, fun x hx => by rwa [List.mem_singleton.mp hx]⟩
  cases h with
  | decimal kind bind same mem => exact single (.decimal kind bind same mem)
  | places pairs h =>
    have hself := Rescaled.places pairs h
    cases pairs with
    | product items => exact ⟨items, rfl, rfl, h⟩
    | record fields =>
      refine ⟨fields.map Field.value, ?_, ?_, h⟩
      · change (fields.map _).map Field.value = _
        rw [List.map_map, List.map_map]
        rfl
      · change (fields.map _).map Field.value = _
        rw [List.map_map, List.map_map]
        rfl
    | _ => exact single hself

theorem any_isRow_rescaled {ι : Type} {left right : ι → Node} {l : List ι}
    (h : ∀ i ∈ l, (left i).Rescaled ds (right i)) :
    (l.any fun i => (left i).isRow) = l.any fun i => (right i).isRow := by
  induction l with
  | nil => rfl
  | cons i l ih =>
    rw [List.any_cons, List.any_cons, (h i List.mem_cons_self).isRow,
      ih fun j hj => h j (List.mem_cons_of_mem _ hj)]

theorem Query.columnCount_rescaled {p q : Query} (h : Query.Rescaled ds p q) :
    columnCount p = columnCount q := by
  obtain ⟨pairs, h⟩ := h
  rw [columnCount, columnCount,
    show (pairs.map Prod.fst).projection = pairs.projection.map Prod.fst from rfl,
    show (pairs.map Prod.snd).projection = pairs.projection.map Prod.snd from rfl]
  cases hprojection : pairs.projection with
  | none => rfl
  | some x =>
    obtain ⟨columns, hfst, hsnd, hcolumns⟩ :=
      Node.columnsOf_rescaled (h x (Clauses.projection_mem_children hprojection))
    dsimp only [Option.map_some]
    rw [hfst, hsnd, List.any_map, List.any_map, List.length_map, List.length_map]
    exact congrArg (if · then none else some columns.length) (any_isRow_rescaled hcolumns)

/-! ## Numbering rows -/

namespace RowNumbering

/-- Columns of the inner query and the projection of the outer one, for both queries: the same
names, so the same list of them. -/
def ColumnsRescaled (ds : List Decimal) (r r' : List (Field Node) × Node) : Prop :=
  ∃ fields : List (Field (Node × Node)), r.1 = fields.map (mapField Prod.fst)
    ∧ r'.1 = fields.map (mapField Prod.snd) ∧ r.2 = r'.2
    ∧ ∀ f ∈ fields, f.value.1.Rescaled ds f.value.2

theorem columns_rescaled (outer : Symbol) {projection : Option (Node × Node)}
    (h : ∀ x, projection = some x → x.1.Rescaled ds x.2) :
    Agree (ColumnsRescaled ds) (columns .plain outer (projection.map Prod.fst))
      (columns .plain outer (projection.map Prod.snd)) := by
  have single : ∀ {n m : Node}, n.Rescaled ds m → ColumnsRescaled ds
      ([⟨positionName 0, n⟩], .column outer (positionName 0))
      ([⟨positionName 0, m⟩], .column outer (positionName 0)) :=
    fun {n m} h => ⟨[⟨positionName 0, (n, m)⟩], rfl, rfl, rfl,
      fun f hf => by rwa [List.mem_singleton.mp hf]⟩
  cases projection with
  | none => exact .error _
  | some x =>
    have hx := h x rfl
    obtain ⟨n, m⟩ := x
    cases hx with
    | decimal kind bind same mem => exact .ok (single (.decimal kind bind same mem))
    | places pairs hpairs =>
      have hself := Node.Rescaled.places pairs hpairs
      cases pairs with
      | row source => exact .error _
      | record fields =>
        have hfields : ∀ f ∈ fields, f.value.1.Rescaled ds f.value.2 :=
          fun f hf => hpairs f.value (List.mem_map_of_mem hf)
        have hrow : ((fields.map (mapField Prod.fst)).any fun f => f.value.isRow)
            = (fields.map (mapField Prod.snd)).any fun f => f.value.isRow := by
          rw [List.any_map, List.any_map]
          exact any_isRow_rescaled hfields
        change Agree _
          (if (fields.map (mapField Prod.fst)).any fun f => f.value.isRow then _ else _)
          (if (fields.map (mapField Prod.snd)).any fun f => f.value.isRow then _ else _)
        rw [hrow]
        split
        · exact .error _
        · refine .ok ⟨fields, rfl, rfl, ?_, hfields⟩
          rw [List.map_map, List.map_map]
          rfl
      | product items =>
        have hrow : (items.map Prod.fst).any Node.isRow = (items.map Prod.snd).any Node.isRow := by
          rw [List.any_map, List.any_map]
          exact any_isRow_rescaled hpairs
        change Agree _ (if (items.map Prod.fst).any Node.isRow then _ else _)
          (if (items.map Prod.snd).any Node.isRow then _ else _)
        rw [hrow, positions_map, positions_map]
        split
        · exact .error _
        · refine .ok ⟨items.mapIdx fun i x => ⟨positionName i, x⟩, rfl, rfl, ?_, fun f hf => ?_⟩
          · rw [List.map_map, List.map_map]
            rfl
          · obtain ⟨i, hi, rfl⟩ := List.mem_mapIdx.mp hf
            exact hpairs _ (List.getElem_mem hi)
      | _ => exact .ok (single hself)

theorem inner_rescaled {pairs : Clauses (Node × Node)}
    (h : ∀ x ∈ pairs.children, x.1.Rescaled ds x.2) {fields : List (Field (Node × Node))}
    (hfields : ∀ f ∈ fields, f.value.1.Rescaled ds f.value.2) :
    Query.Rescaled ds
      (inner .plain (fields.map (mapField Prod.fst)) (pairs.map Prod.fst))
      (inner .plain (fields.map (mapField Prod.snd)) (pairs.map Prod.snd)) := by
  have hkeys : (Node.mk (.rowNumber (pairs.map Prod.fst).orderBy)).Rescaled ds
      (.mk (.rowNumber (pairs.map Prod.snd).orderBy)) := by
    refine .places (.rowNumber pairs.orderBy) fun x hx => ?_
    obtain ⟨k, hk, rfl⟩ := List.mem_map.mp hx
    exact h _ (Clauses.key_mem_children hk)
  have hrecord : (Node.mk (.record (fields.map (mapField Prod.fst)
        ++ [⟨numberColumn, .mk (.rowNumber (pairs.map Prod.fst).orderBy)⟩]))).Rescaled ds
      (.mk (.record (fields.map (mapField Prod.snd)
        ++ [⟨numberColumn, .mk (.rowNumber (pairs.map Prod.snd).orderBy)⟩]))) := by
    have hpairs : Node.Rescaled ds _ _ := .places (.record (fields ++ [⟨numberColumn,
      (.mk (.rowNumber (pairs.map Prod.fst).orderBy),
        .mk (.rowNumber (pairs.map Prod.snd).orderBy))⟩])) fun x hx => by
      obtain ⟨f, hf, rfl⟩ := List.mem_map.mp hx
      rcases List.mem_append.mp hf with hf | hf
      · exact hfields f hf
      · rw [List.mem_singleton.mp hf]
        exact hkeys
    rwa [Shape.map, Shape.map, List.map_append, List.map_append] at hpairs
  refine Query.Rescaled.places
    { generators := pairs.generators
      filters := pairs.filters
      groupBy := pairs.groupBy
      projection := some (_, _) } fun x hx => ?_
  rcases Clauses.mem_children_iff.mp hx with ⟨g, hg, rfl⟩ | hx | hx | ⟨_, hk, _⟩ | hx
  · exact h _ (Clauses.source_mem_children hg)
  · exact h x (Clauses.filter_mem_children hx)
  · exact h x (Clauses.groupBy_mem_children hx)
  · cases hk
  · cases hx
    exact hrecord

theorem assembled_rescaled {pairs : Clauses (Node × Node)}
    (h : ∀ x ∈ pairs.children, x.1.Rescaled ds x.2) {fields : List (Field (Node × Node))}
    (hfields : ∀ f ∈ fields, f.value.1.Rescaled ds f.value.2) (outer : Symbol)
    (listed after : Node) (until_ : Option Node) :
    Query.Rescaled ds
      (assembled .plain outer (pairs.map Prod.fst) (fields.map (mapField Prod.fst)) listed after
        until_)
      (assembled .plain outer (pairs.map Prod.snd) (fields.map (mapField Prod.snd)) listed after
        until_) := by
  have hsource := Node.Rescaled.query (inner_rescaled h hfields)
  let compare (f : Function) (limit : Node) : Node × Node :=
    (.apply f [.column outer numberColumn, limit], .apply f [.column outer numberColumn, limit])
  have hassembled : Query.Rescaled ds _ _ := .places
    { generators := [⟨outer, (_, _)⟩]
      filters := compare .gt after :: until_.toList.map (compare .le)
      orderBy := [⟨(.column outer numberColumn, .column outer numberColumn), .ascending⟩]
      projection := some (listed, listed) } fun x hx => by
    rcases Clauses.mem_children_iff.mp hx with ⟨g, hg, rfl⟩ | hx | hx | ⟨k, hk, rfl⟩ | hx
    · rw [List.mem_singleton.mp hg]
      exact hsource
    · rcases List.mem_cons.mp hx with rfl | hx
      · exact .refl _
      · obtain ⟨limit, -, rfl⟩ := List.mem_map.mp hx
        exact .refl _
    · cases hx
    · rw [List.mem_singleton.mp hk]
      exact .refl _
    · cases hx
      exact .refl _
  cases until_ with
  | none => exact hassembled
  | some limit => exact hassembled

end RowNumbering

theorem Query.numbers_rescaled {d : Dialect} {p q : Query} (h : Query.Rescaled ds p q) :
    d.Numbers p ↔ d.Numbers q := by
  obtain ⟨pairs, -⟩ := h
  exact Iff.rfl

/-- **Queries that differ only in how decimals are written number their rows alike.** -/
theorem Query.numberRows_rescaled {p q : Query} (h : Query.Rescaled ds p q) (dialect : String) :
    Agree (Query.Rescaled ds) (numberRows dialect p) (numberRows dialect q) := by
  have hfresh : freshSymbol p = freshSymbol q := by
    rw [freshSymbol, freshSymbol, SymbolTable.aboveQuery, SymbolTable.aboveQuery,
      symbols_rescaled h]
  obtain ⟨pairs, h⟩ := h
  rw [numberRows, numberRows, hfresh, RowNumbering.page_eq, RowNumbering.page_eq]
  refine Agree.bind ((RowNumbering.columns_rescaled _ fun x hx =>
    h x (Clauses.projection_mem_children hx)).mapError _) ?_
  rintro ⟨_, listed⟩ ⟨_, _⟩ ⟨fields, rfl, rfl, rfl, hfields⟩
  refine Agree.bind (Agree.self _) ?_
  rintro after _ rfl
  refine Agree.bind (Agree.self _) ?_
  rintro until_ _ rfl
  exact .ok (RowNumbering.assembled_rescaled h hfields _ listed after until_)

end

end SqlCompiler
