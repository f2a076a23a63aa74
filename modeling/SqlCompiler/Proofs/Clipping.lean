import SqlCompiler.Proofs.Rendering
import SqlCompiler.Proofs.Shedding

/-!
# Documents that are nested too deeply

What is nested too deeply in a text has no value in the document that is read from it.  Such a part
may stand where nothing is read; but of the stored form of a query everything is read.  So a query
is read as a whole or not at all.  This is the other side of `Json.ReadsBack`, again by one rule for
each way in which documents are put together.

* `Json.ReadsWhole` — nothing is read from a document if a part of it has no value.
* `ReadsWhole.list`, `pair`, `nullable`, `tagged`, `object` — the rules.
* `Clipped.required?`, `default?`, `optional?` — the fields of a structure.
* `Query.readsWhole` — a query is read as a whole.
-/

set_option autoImplicit false
namespace SqlCompiler
namespace Json

/-! ## Parts without a value -/

theorem clip_zero {j : Json} (h : 0 < j.nesting) : j.clip 0 = .unread := by
  cases j with
  | array _ | object _ => rfl
  | _ => exact absurd h (Nat.lt_irrefl 0)

theorem clip_ne_null {j : Json} {levels : Nat} (h : levels < j.nesting) :
    j.clip levels ≠ .null := by
  cases j with
  | array _ | object _ => cases levels <;> exact Json.noConfusion
  | _ => exact absurd h (Nat.not_lt_zero _)

theorem exists_deep {members : List (String × Json)} {levels : Nat}
    (h : levels < nestingMembers members) : ∃ m ∈ members, levels < m.2.nesting := by
  induction members with
  | nil => exact absurd h (Nat.not_lt_zero _)
  | cons m members ih =>
    by_cases hm : levels < m.2.nesting
    · exact ⟨m, List.mem_cons_self, hm⟩
    · rw [nestingMembers] at h
      obtain ⟨m', hmem, hm'⟩ := ih (by omega)
      exact ⟨m', List.mem_cons_of_mem _ hmem, hm'⟩

theorem filter_clipMembers (levels : Nat) (name : String) (members : List (String × Json)) :
    (clipMembers levels members).filter (·.1 == name)
      = clipMembers levels (members.filter (·.1 == name)) := by
  induction members with
  | nil => rfl
  | cons m members ih =>
    rw [clipMembers, List.filter_cons, List.filter_cons, ih]
    split <;> rfl

theorem find?_clipMembers (levels : Nat) (name : String) (members : List (String × Json)) :
    Fields.find? ⟨clipMembers levels members, false⟩ name
      = (Fields.find? ⟨members, false⟩ name).map (Option.map (clip levels)) := by
  rw [Fields.find?, Fields.find?, filter_clipMembers]
  cases members.filter (·.1 == name) with
  | nil => rfl
  | cons m ms => cases ms <;> rfl

/-- A member that is left is found, and was there. -/
theorem ShedsMembers.find?_of_mem {ms ns : List (String × Json)} {name : String} {j' : Json}
    (h : ShedsMembers ms ns) (hnodup : (ms.map Prod.fst).Nodup) (hmem : (name, j') ∈ ns) :
    ∃ j, (name, j) ∈ ms ∧ Sheds j j' ∧ Fields.find? ⟨ns, false⟩ name = some (some j') := by
  induction ms generalizing ns with
  | nil =>
    cases h
    cases hmem
  | cons m ms ih =>
    rw [List.map_cons, List.nodup_cons] at hnodup
    cases h with
    | keep name' head tail =>
      rcases List.mem_cons.mp hmem with heq | htail
      · cases heq
        refine ⟨_, List.mem_cons_self, head, ?_⟩
        rw [Fields.find?, List.filter_cons_of_pos (by simp), tail.filter_eq_nil hnodup.1]
      · obtain ⟨j, hj, hsheds, hfind⟩ := ih tail hnodup.2 htail
        have hne : name' ≠ name := by
          rintro rfl
          exact hnodup.1 (List.mem_map.mpr ⟨_, hj, rfl⟩)
        refine ⟨j, List.mem_cons_of_mem _ hj, hsheds, ?_⟩
        rw [Fields.find?, List.filter_cons_of_neg (by simpa using hne)]
        exact hfind
    | drop _ tail =>
      obtain ⟨j, hj, hsheds, hfind⟩ := ih tail hnodup.2 hmem
      exact ⟨j, List.mem_cons_of_mem _ hj, hsheds, hfind⟩

/-! ## Reading as a whole -/

/-- Nothing is read from a document, or from what is left of it without default members, if a part
of that is nested too deeply to have a value. -/
structure ReadsWhole {α : Type} (read : Json → Option α) (j : Json) : Prop where
  unread : read .unread = none
  deep : ∀ j' levels, Sheds j j' → levels < j'.nesting → read (j'.clip levels) = none

/-- A field is given that is nested too deeply. -/
def Clipped (fs : Fields) (name : String) (j : Json) : Prop :=
  ∃ j' levels, Sheds j j' ∧ levels < j'.nesting ∧ fs.find? name = some (some (j'.clip levels))

section
variable {α β : Type} {read : Json → Option α} {write : α → Json} {j : Json}

namespace ReadsWhole

/-- Where nothing is nested in anything else, it is enough that nothing is read from a document
without a value. -/
theorem flat (hunread : read .unread = none) (h : j.nesting ≤ 1) : ReadsWhole read j where
  unread := hunread
  deep j' levels hj hlevels := by
    have hle := hj.nesting_le
    obtain rfl : levels = 0 := by omega
    rw [clip_zero hlevels, hunread]

theorem map (h : ReadsWhole read j) (f : α → β) : ReadsWhole (fun j => (read j).map f) j where
  unread := by rw [h.unread]; rfl
  deep j' levels hj hlevels := by rw [h.deep j' levels hj hlevels]; rfl

theorem mapM_clipItems {l : List α} {items : List Json} {levels : Nat}
    (hsheds : ShedsItems (l.map write) items) (h : ∀ a ∈ l, ReadsWhole read (write a))
    (hlevels : levels < nestingItems items) : (clipItems levels items).mapM read = none := by
  induction l generalizing items with
  | nil =>
    cases hsheds
    exact absurd hlevels (Nat.not_lt_zero _)
  | cons a l ih =>
    cases hsheds with
    | @cons _ j _ js head tail =>
      rw [clipItems, List.mapM_cons]
      by_cases hj : levels < j.nesting
      · rw [(h a List.mem_cons_self).deep j levels head hj]
        rfl
      · rw [nestingItems] at hlevels
        rw [ih tail (fun b hb => h b (List.mem_cons_of_mem _ hb)) (by omega)]
        cases read (j.clip levels) <;> rfl

theorem list {l : List α} (h : ∀ a ∈ l, ReadsWhole read (write a)) :
    ReadsWhole (list? read) (ofList write l) where
  unread := rfl
  deep j levels hj hlevels := by
    cases hj with
    | array hsheds =>
      cases levels with
      | zero => rfl
      | succ levels =>
        rw [nesting] at hlevels
        exact mapM_clipItems hsheds h (by omega)

theorem pair {first : Json → Option α} {second : Json → Option β} {k : Json}
    (h₁ : ReadsWhole first j) (h₂ : ReadsWhole second k) :
    ReadsWhole (pair? first second) (.array [j, k]) where
  unread := rfl
  deep j' levels hj hlevels := by
    cases hj with
    | array hitems =>
      cases hitems with
      | @cons _ a _ _ head tail =>
        cases tail with
        | @cons _ b _ _ head' tail =>
          cases tail
          cases levels with
          | zero => rfl
          | succ levels =>
            simp only [nesting, nestingItems] at hlevels
            simp only [clip, clipItems, pair?]
            by_cases ha : levels < a.nesting
            · rw [h₁.deep a levels head ha]
              rfl
            · rw [h₂.deep b levels head' (by omega)]
              cases first (a.clip levels) <;> rfl

theorem nullable {o : Option α} (hunread : read .unread = none)
    (h : ∀ a, o = some a → ReadsWhole read (write a)) :
    ReadsWhole (Fields.nullable? read) (ofOption write o) where
  unread := congrArg (Option.map some) hunread
  deep j levels hj hlevels := by
    cases o with
    | none =>
      cases hj
      exact absurd hlevels (Nat.not_lt_zero _)
    | some a =>
      unfold Fields.nullable?
      split
      · next heq => exact absurd heq (clip_ne_null hlevels)
      · rw [(h a rfl).deep j levels hj hlevels]
        rfl

/-- A choice with what belongs to it. -/
theorem tagged {content : Json → Option α} {name : String} (h : ReadsWhole content j)
    (hunread : read .unread = none) (hname : IsKept name)
    (hread : ∀ j', read (.tagged name j') = content j') :
    ReadsWhole read (.tagged name j) where
  unread := hunread
  deep k levels hk hlevels := by
    obtain ⟨j', rfl, hj⟩ := hk.exists_tagged hname
    cases levels with
    | zero => exact hunread
    | succ levels =>
      simp only [Json.tagged, nesting, nestingMembers] at hlevels
      exact (hread _).trans (h.deep j' levels hj (by omega))

/-- A structure, given the names of whose fields are distinct, and each of whose fields is read. -/
theorem object {ms : List (String × Json)} (hnodup : (ms.map Prod.fst).Nodup)
    (hunread : read .unread = none)
    (h : ∀ m ∈ ms, ∀ ns, Clipped ⟨ns, false⟩ m.1 m.2 → read (.object ns) = none) :
    ReadsWhole read (.object ms) where
  unread := hunread
  deep j levels hj hlevels := by
    cases hj with
    | @object _ ns hsheds =>
      cases levels with
      | zero => exact hunread
      | succ levels =>
        rw [nesting] at hlevels
        obtain ⟨⟨name, j'⟩, hmem, hdeep⟩ := exists_deep (Nat.lt_of_succ_lt_succ hlevels)
        obtain ⟨j, hj, hsheds, hfind⟩ := hsheds.find?_of_mem hnodup hmem
        refine h _ hj _ ⟨j', levels, hsheds, hdeep, ?_⟩
        rw [find?_clipMembers, hfind]
        rfl

end ReadsWhole

namespace Clipped

variable {fs : Fields} {name : String}

theorem required? (h : Clipped fs name j) (hread : ReadsWhole read j) :
    fs.required? read name = none := by
  obtain ⟨j', levels, hj, hlevels, hfind⟩ := h
  rw [Fields.required?, hfind]
  exact hread.deep j' levels hj hlevels

theorem default? (h : Clipped fs name j) (hread : ReadsWhole read j) (d : α) :
    fs.default? read name d = none := by
  obtain ⟨j', levels, hj, hlevels, hfind⟩ := h
  rw [Fields.default?, hfind]
  exact hread.deep j' levels hj hlevels

theorem optional? (h : Clipped fs name j) (hread : ReadsWhole (Fields.nullable? read) j) :
    fs.optional? read name = none :=
  h.default? hread none

end Clipped
end

end Json

open Json

/-! ## Scalars -/

theorem Symbol.readsWhole (s : Symbol) : ReadsWhole Symbol.ofJson? s.toJson :=
  .flat rfl (Nat.le_refl 1)

theorem SortOrder.readsWhole (o : SortOrder) : ReadsWhole SortOrder.ofJson? o.toJson :=
  .flat rfl (Nat.le_refl 1)

theorem Function.readsWhole (f : Function) : ReadsWhole Function.ofJson? f.toJson := by
  refine .flat rfl ?_
  cases f <;> first | exact Nat.le_refl 1 | exact Nat.zero_le 1

theorem Value.readsWhole (v : Value) : ReadsWhole Value.ofJson? v.toJson := by
  cases v with
  | bytes bs =>
    have hbytes : ReadsWhole (list? uint8?) (ofList (fun b : UInt8 => .int b.toNat) bs) :=
      .list fun _ _ => .flat rfl (Nat.zero_le 1)
    exact (hbytes.map bytes).tagged rfl (by decide) fun _ => rfl
  | float x | double x =>
    refine .flat rfl ?_
    simp only [toJson, finite]
    split <;> exact Nat.le_refl 1
  | null => exact .flat rfl (Nat.zero_le 1)
  | _ => exact .flat rfl (Nat.le_refl 1)

theorem Literal.readsWhole (c : Literal) : ReadsWhole Literal.ofJson? c.toJson := by
  have hkind : ReadsWhole Kind.ofJson? c.kind.toJson := .flat rfl (Nat.zero_le 1)
  have hbind : ReadsWhole bool? (.bool c.bind) := .flat rfl (Nat.zero_le 1)
  refine .object (by simp) rfl ?_
  simp only [List.forall_mem_cons]
  refine ⟨fun ns h => ?_, fun ns h => ?_, fun ns h => ?_, List.forall_mem_nil _⟩
  · simp [Literal.ofJson?, fields?, h.required? hkind]
  · simp [Literal.ofJson?, fields?, h.required? c.value.readsWhole]
  · simp [Literal.ofJson?, fields?, h.default? hbind]

/-! ## Trees -/

section
variable {ν : Type} {read : Json → Option ν} {write : ν → Json}

theorem SortKey.readsWhole {k : SortKey ν} (h : ReadsWhole read (write k.key)) :
    ReadsWhole (SortKey.ofJson? read) (k.toJson write) :=
  (h.pair k.order.readsWhole).map fun p => (⟨p.1, p.2⟩ : SortKey ν)

/-- A query is read as a whole if its children are. -/
theorem Clauses.readsWhole {q : Clauses ν} (hunread : read .unread = none)
    (h : ∀ n ∈ q.children, ReadsWhole read (write n)) :
    ReadsWhole (Clauses.ofJson? read) (q.toJson write) := by
  have hgenerator : ∀ g ∈ q.generators, ReadsWhole
      (fun j => (j.pair? Symbol.ofJson? read).map fun p => (⟨p.1, p.2⟩ : Generator ν))
      (twoItems g.binder.toJson (write g.source)) := fun g hg =>
    (g.binder.readsWhole.pair (h _ (source_mem_children hg))).map fun p =>
      (⟨p.1, p.2⟩ : Generator ν)
  have hgroupBy := ReadsWhole.nullable hunread fun n hn => h n (groupBy_mem_children hn)
  have horderBy := ReadsWhole.list fun k (hk : k ∈ q.orderBy) =>
    SortKey.readsWhole (h _ (key_mem_children hk))
  have hselect := ReadsWhole.nullable hunread fun n hn => h n (projection_mem_children hn)
  have hnumber : ∀ o : Option UInt64,
      ReadsWhole (Fields.nullable? uint64?) (ofOption (fun n => .int n.toNat) o) := fun o =>
    .nullable rfl fun _ _ => .flat rfl (Nat.zero_le 1)
  refine .object (by simp) rfl ?_
  simp only [List.forall_mem_cons]
  refine ⟨fun ns hns => ?_, fun ns hns => ?_, fun ns hns => ?_, fun ns hns => ?_, fun ns hns => ?_,
    fun ns hns => ?_, fun ns hns => ?_, List.forall_mem_nil _⟩
  · simp [Clauses.ofJson?, fields?, hns.default? (.list hgenerator)]
  · simp [Clauses.ofJson?, fields?, hns.default? (.list fun n hn => h n (filter_mem_children hn))]
  · simp [Clauses.ofJson?, fields?, hns.optional? hgroupBy]
  · simp [Clauses.ofJson?, fields?, hns.default? horderBy]
  · simp [Clauses.ofJson?, fields?, hns.optional? hselect]
  · simp [Clauses.ofJson?, fields?, hns.optional? (hnumber _)]
  · simp [Clauses.ofJson?, fields?, hns.optional? (hnumber _)]

theorem ofList_map {μ : Type} (f : μ → ν) (l : List μ) :
    ofList write (l.map f) = ofList (write ∘ f) l := by
  rw [ofList, List.map_map, ofList]

theorem ofOption_map {μ : Type} (f : μ → ν) (o : Option μ) :
    ofOption write (o.map f) = ofOption (write ∘ f) o := by
  cases o <;> rfl

theorem Clauses.toJson_map {μ : Type} (f : μ → ν) (q : Clauses μ) :
    (q.map f).toJson write = q.toJson (write ∘ f) := by
  simp only [Clauses.toJson, Clauses.map, ofList_map, ofOption_map]
  rfl

namespace Shape

/-- The name of a shape is none of those that may be left out. -/
theorem isKept_name (s : Shape ν) : IsKept s.name := by
  cases s <;> rw [name] <;> decide

/-- What belongs to a node is read as a whole if its children are. -/
theorem readsWhole_content {s : Shape ν} (hunread : read .unread = none)
    (h : ∀ n ∈ s.children, ReadsWhole read (write n)) :
    ReadsWhole (content? read s.name) (s.contentJson write) := by
  cases s with
  | query q => exact (Clauses.readsWhole hunread h).map query
  | table _ | parameter _ _ => exact .flat rfl (Nat.le_refl 1)
  | row source => exact source.readsWhole.map row
  | column source name =>
    refine .object (by simp) rfl ?_
    simp only [List.forall_mem_cons]
    refine ⟨fun ns hns => ?_, fun ns hns => ?_, List.forall_mem_nil _⟩
    · simp [Shape.name, content?, fields?, hns.required? source.readsWhole]
    · have hname : ReadsWhole string? (.string name) := .flat rfl (Nat.zero_le 1)
      simp [Shape.name, content?, fields?, hns.required? hname]
  | literal constant => exact constant.readsWhole.map literal
  | apply function arguments =>
    refine .object (by simp) rfl ?_
    simp only [List.forall_mem_cons]
    refine ⟨fun ns hns => ?_, fun ns hns => ?_, List.forall_mem_nil _⟩
    · simp [Shape.name, content?, fields?, hns.required? function.readsWhole]
    · simp [Shape.name, content?, fields?, hns.required? (.list h)]
  | cases branches otherwise =>
    have hbranch : ∀ b ∈ branches, ReadsWhole
        (fun j => (j.pair? read read).map fun p => (⟨p.1, p.2⟩ : Branch ν))
        (twoItems (write b.condition) (write b.value)) := by
      intro b hb
      have hmem : ∀ n ∈ [b.condition, b.value], n ∈ (Shape.cases branches otherwise).children :=
        fun n hn => List.mem_append_left _ (List.mem_flatMap.mpr ⟨b, hb, hn⟩)
      exact ((h _ (hmem _ (by simp))).pair (h _ (hmem _ (by simp)))).map fun p =>
        (⟨p.1, p.2⟩ : Branch ν)
    have hotherwise := ReadsWhole.nullable hunread fun n (hn : otherwise = some n) =>
      h n (List.mem_append_right _ (by simp [hn]))
    refine .object (by simp) rfl ?_
    simp only [List.forall_mem_cons]
    refine ⟨fun ns hns => ?_, fun ns hns => ?_, List.forall_mem_nil _⟩
    · simp [Shape.name, content?, fields?, hns.required? (.list hbranch)]
    · simp [Shape.name, content?, fields?, Fields.named?, hns.optional? hotherwise]
  | product items => exact (ReadsWhole.list h).map product
  | record fields =>
    have hfield : ∀ f ∈ fields, ReadsWhole
        (fun j => (j.pair? string? read).map fun p => (⟨p.1, p.2⟩ : Field ν))
        (twoItems (.string f.name) (write f.value)) := by
      intro f hf
      have hname : ReadsWhole string? (.string f.name) := .flat rfl (Nat.zero_le 1)
      exact (hname.pair (h f.value (List.mem_map_of_mem hf))).map fun p =>
        (⟨p.1, p.2⟩ : Field ν)
    exact (ReadsWhole.list hfield).map record
  | rowNumber keys =>
    have hkeys := ReadsWhole.list fun k (hk : k ∈ keys) =>
      SortKey.readsWhole (h k.key (List.mem_map_of_mem hk))
    exact hkeys.map rowNumber
  | nextValue _ | currentValue _ => exact .flat rfl (Nat.zero_le 1)

/-- So is a node. -/
theorem readsWhole {s : Shape ν} (hunread : read .unread = none)
    (h : ∀ n ∈ s.children, ReadsWhole read (write n)) :
    ReadsWhole (ofJson? read) (s.toJson write) :=
  (readsWhole_content hunread h).tagged rfl s.isKept_name fun _ => rfl

theorem toJson_map {μ : Type} (f : μ → ν) (s : Shape μ) :
    (s.map f).toJson write = s.toJson (write ∘ f) := by
  cases s <;>
    simp only [toJson, map, name, contentJson, Clauses.toJson_map, ofList_map, ofOption_map] <;> rfl

end Shape
end

namespace Node

theorem toJson_mk (s : Shape Node) : (mk s).toJson = s.toJson toJson := by
  rw [toJson, fold_mk, Shape.toJson_map]
  rfl

theorem ofJsonWithin?_unread (levels : Nat) : ofJsonWithin? levels .unread = none := by
  cases levels <;> rfl

/-- A tree is read as a whole, at whatever depth. -/
theorem readsWholeWithin (n : Node) : ∀ levels, ReadsWhole (ofJsonWithin? levels) n.toJson := by
  induction n using Node.induct with
  | step s ih =>
    intro levels
    rw [toJson_mk]
    cases levels with
    | zero => exact ⟨rfl, fun _ _ _ _ => rfl⟩
    | succ levels =>
      have hshape := Shape.readsWhole (ofJsonWithin?_unread levels) fun n hn => ih n hn levels
      exact hshape.map mk

theorem readsWhole (n : Node) : ReadsWhole ofJson? n.toJson where
  unread := rfl
  deep j levels hj hlevels := (n.readsWholeWithin _).deep j levels hj hlevels

end Node

/-- **A query is read as a whole.** -/
theorem Query.readsWhole (q : Query) : ReadsWhole ofJson? q.toJson :=
  Clauses.readsWhole rfl fun n _ => n.readsWhole

end SqlCompiler
