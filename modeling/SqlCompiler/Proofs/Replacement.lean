import SqlCompiler.Proofs.Rendering
import SqlCompiler.Query.Children

/-!
# Taking children out and putting others in

The children of a node can be listed and replaced.  The list, the names of its entries and the
replacement are three case analyses over the shapes, each with an order of its own to keep:
conditions and values of a conditional in turn, the group key between the filters and the ordering
keys, the alternative behind all branches.  Here it is shown that they keep the same order, so that
the children are what a lens looks at.

Everything is proved for shapes and clauses with children of any type.  Two facts carry the rest:

* `Shape.refill_map` and `Shape.map_refill` — putting children in does not look at the old ones, nor
  into the new ones.
* `Shape.refill_children` and `Shape.children_refill` — putting in the children that were taken out
  changes nothing, and children that were put in are taken out again.

What a node is besides its children is its `Shape.frame`.  `Node.children_lens` states the laws, for
nodes and for queries.
-/

set_option autoImplicit false
namespace SqlCompiler

/-! ## Lists put into places -/

section
variable {α β γ : Type} {f : α → β → γ}

theorem zipWith_map_append (g : α → β) (l : List α) (rest : List β) :
    List.zipWith f l (l.map g ++ rest) = l.map fun a => f a (g a) := by
  induction l with
  | nil => simp
  | cons a l ih => simp [ih]

theorem map_zipWith_eq_take {g : γ → β} (h : ∀ a b, g (f a b) = b) (l : List α) :
    ∀ bs : List β, (List.zipWith f l bs).map g = bs.take l.length := by
  induction l with
  | nil => simp
  | cons a l ih =>
    intro bs
    cases bs with
    | nil => simp
    | cons b bs => simp [h, ih]

theorem length_flatMap_pair (first second : α → β) (l : List α) :
    (l.flatMap fun a => [first a, second a]).length = 2 * l.length := by
  induction l with
  | nil => rfl
  | cons a l ih => simp [ih, Nat.mul_succ]

theorem map_bind_const (g : β → γ) (o : Option α) (b : Option β) :
    (o.bind fun _ => b).map g = o.bind fun _ => b.map g := by
  cases o <;> rfl

/-- A place that may be absent takes one entry or none. -/
theorem toList_bind_head? (o : Option α) (bs : List β) :
    (o.bind fun _ => bs.head?).toList = bs.take o.toList.length := by
  cases o with
  | none => simp
  | some a => cases bs <;> simp

theorem bind_head?_map_append (g : α → β) (o : Option α) (rest : List β) :
    (o.bind fun _ => (o.toList.map g ++ rest).head?) = o.map g := by
  cases o <;> simp

end

/-! ## Clauses -/

namespace Clauses

variable {ν μ κ : Type}

/-- A query without its children: its binders, its orders, the number of its filters, which other
clauses it has, and its paging. -/
def frame (q : Clauses ν) : Clauses Unit :=
  q.map fun _ => ()

theorem childNames_map (f : ν → μ) (q : Clauses ν) : (q.map f).childNames = q.childNames := by
  simp [childNames, map, Function.comp_def, Option.toList_map]

theorem length_childNames (q : Clauses ν) : q.childNames.length = q.children.length := by
  simp [childNames, children, sources, expressions]

/-- Putting children in does not look at those that are there. -/
theorem refill_map (f : ν → μ) (q : Clauses ν) (cs : List κ) :
    (q.map f).refill cs = q.refill cs := by
  have hoption : ∀ (o : Option ν) (c : Option κ), ((o.map f).bind fun _ => c) = o.bind fun _ => c :=
    fun o c => by cases o <;> rfl
  simp only [refill, map, List.zipWith_map_left, List.length_map, Option.toList_map, hoption]

/-- Putting children in does not look into them. -/
theorem map_refill (f : μ → κ) (q : Clauses ν) (cs : List μ) :
    (q.refill cs).map f = q.refill (cs.map f) := by
  simp [refill, map, List.map_zipWith, List.zipWith_map_right, ← List.map_drop, List.map_take,
    map_bind_const, -Option.map_bind]

/-- The images of the children in the places of the children. -/
theorem refill_children_map (f : ν → μ) (q : Clauses ν) :
    q.refill (q.children.map f) = q.map f := by
  have hchildren : q.children.map f = q.generators.map (fun g => f g.source)
      ++ (q.filters.map f ++ (q.groupBy.toList.map f ++ (q.orderBy.map (fun k => f k.key)
        ++ (q.projection.toList.map f ++ [])))) := by
    simp [children, sources, expressions, Function.comp_def]
  simp only [refill, hchildren, map, zipWith_map_append, bind_head?_map_append, List.drop_left',
    List.take_left', List.length_map]

theorem children_refill (q : Clauses ν) (cs : List μ) :
    (q.refill cs).children = cs.take q.children.length := by
  have hsources := map_zipWith_eq_take
    (f := fun (g : Generator ν) (c : μ) => Generator.mk g.binder c)
    (g := Generator.source) (fun _ _ => rfl) q.generators
  have hkeys := map_zipWith_eq_take (f := fun (k : SortKey ν) (c : μ) => SortKey.mk c k.order)
    (g := SortKey.key) (fun _ _ => rfl) q.orderBy
  simp only [children, sources, expressions, refill, hsources, hkeys, toList_bind_head?,
    List.length_append, List.length_map, List.take_add, List.drop_drop, List.append_assoc,
    Nat.add_assoc]

end Clauses

/-! ## Shapes -/

namespace Shape

variable {ν μ κ : Type}

/-- A node without its children: its name, its own fields, and how many children it has in which
place. -/
def frame (s : Shape ν) : Shape Unit :=
  s.map fun _ => ()

theorem frame_map (f : ν → μ) (s : Shape ν) : (s.map f).frame = s.frame :=
  map_map f _ s

theorem name_map (f : ν → μ) (s : Shape ν) : (s.map f).name = s.name := by
  cases s <;> rfl

theorem childNames_map (f : ν → μ) (s : Shape ν) : (s.map f).childNames = s.childNames := by
  cases s with
  | query q => exact Clauses.childNames_map f q
  | _ => simp [map, childNames, Function.comp_def, Option.toList_map]

theorem length_childNames (s : Shape ν) : s.childNames.length = s.children.length := by
  cases s with
  | query q => exact q.length_childNames
  | cases branches otherwise =>
    simp only [childNames, children, List.length_append, length_flatMap_pair, List.length_range,
      List.length_map]
  | _ => simp [childNames, children]

theorem refillBranches_map (f : ν → μ) (branches : List (Branch ν)) : ∀ cs : List κ,
    refillBranches (branches.map fun b => (⟨f b.condition, f b.value⟩ : Branch μ)) cs
      = refillBranches branches cs := by
  induction branches with
  | nil => intro cs; rfl
  | cons b branches ih =>
    intro cs
    match cs with
    | [] | [c] => rfl
    | c :: v :: cs => exact congrArg (_ :: ·) (ih cs)

theorem map_refillBranches (f : μ → κ) (branches : List (Branch ν)) : ∀ cs : List μ,
    ((refillBranches branches cs).map fun b => (⟨f b.condition, f b.value⟩ : Branch κ))
      = refillBranches branches (cs.map f) := by
  induction branches with
  | nil => intro cs; rfl
  | cons b branches ih =>
    intro cs
    match cs with
    | [] | [c] => rfl
    | c :: v :: cs => exact congrArg (_ :: ·) (ih cs)

/-- Putting children in does not look at those that are there. -/
theorem refill_map (f : ν → μ) (s : Shape ν) (cs : List κ) : (s.map f).refill cs = s.refill cs := by
  cases s with
  | query q => exact congrArg query (q.refill_map f cs)
  | cases branches otherwise =>
    simp only [map, refill, refillBranches_map, List.length_map]
    cases otherwise <;> rfl
  | _ => simp [map, refill, List.zipWith_map_left]

/-- Putting children in does not look into them. -/
theorem map_refill (f : μ → κ) (s : Shape ν) (cs : List μ) :
    (s.refill cs).map f = s.refill (cs.map f) := by
  cases s with
  | query q => exact congrArg query (q.map_refill f cs)
  | cases branches otherwise =>
    simp [map, refill, map_refillBranches, ← List.map_drop, map_bind_const, -Option.map_bind]
  | _ => simp [map, refill, List.map_zipWith, List.zipWith_map_right, List.map_take]

/-- Conditions and values in turn are put in two by two. -/
theorem refillBranches_children (f : ν → μ) (branches : List (Branch ν)) (rest : List μ) :
    refillBranches branches ((branches.flatMap fun b => [f b.condition, f b.value]) ++ rest)
      = branches.map fun b => ⟨f b.condition, f b.value⟩ := by
  induction branches with
  | nil => cases rest <;> rfl
  | cons b branches ih => exact congrArg (_ :: ·) ih

/-- The images of the children in the places of the children. -/
theorem refill_children_map (f : ν → μ) (s : Shape ν) : s.refill (s.children.map f) = s.map f := by
  cases s with
  | query q => exact congrArg query (q.refill_children_map f)
  | cases branches otherwise =>
    have hlength := length_flatMap_pair (fun b => f b.condition) (fun b => f b.value) branches
    have hchildren : (cases branches otherwise).children.map f
        = (branches.flatMap fun b => [f b.condition, f b.value])
          ++ (otherwise.toList.map f ++ []) := by
      simp [children, List.map_flatMap]
    simp only [refill, hchildren, map, refillBranches_children, List.drop_left' hlength,
      bind_head?_map_append]
  | record fields =>
    have hvalues : (record fields).children.map f = fields.map (fun c => f c.value) ++ [] := by
      simp [children, Function.comp_def]
    simp only [refill, hvalues, map, zipWith_map_append]
  | rowNumber keys =>
    have hkeys : (rowNumber keys).children.map f = keys.map (fun k => f k.key) ++ [] := by
      simp [children, Function.comp_def]
    simp only [refill, hkeys, map, zipWith_map_append]
  | _ => simp [refill, children, map, List.take_of_length_le]

/-- **Putting in the children that were taken out changes nothing.** -/
theorem refill_children (s : Shape ν) : s.refill s.children = s := by
  have h := s.refill_children_map id
  rwa [List.map_id, map_id] at h

/-- Two children for each branch are taken out as they were put in. -/
theorem flatMap_refillBranches (branches : List (Branch ν)) : ∀ cs : List μ,
    2 * branches.length ≤ cs.length →
      ((refillBranches branches cs).flatMap fun b => [b.condition, b.value])
        = cs.take (2 * branches.length) := by
  induction branches with
  | nil => intro cs _; simp [refillBranches]
  | cons b branches ih =>
    intro cs h
    rw [List.length_cons, Nat.mul_succ] at h ⊢
    match cs, h with
    | c :: v :: cs, h =>
      rw [refillBranches, List.flatMap_cons, ih cs (by simp at h; omega)]
      rfl

/-- **Children that were put in are taken out again**, if they are as many as before. -/
theorem children_refill {s : Shape ν} {cs : List μ} (h : cs.length = s.children.length) :
    (s.refill cs).children = cs := by
  cases s with
  | query q =>
    refine (q.children_refill cs).trans (List.take_of_length_le ?_)
    exact Nat.le_of_eq h
  | cases branches otherwise =>
    rw [children, List.length_append, length_flatMap_pair] at h
    rw [refill, children, flatMap_refillBranches branches cs (by omega), toList_bind_head?,
      ← List.take_add, ← h, List.take_length]
  | record fields =>
    rw [children, List.length_map] at h
    rw [refill, children, map_zipWith_eq_take (fun _ _ => rfl), ← h, List.take_length]
  | rowNumber keys =>
    rw [children, List.length_map] at h
    rw [refill, children, map_zipWith_eq_take (fun _ _ => rfl), ← h, List.take_length]
  | apply function arguments => exact List.take_of_length_le (Nat.le_of_eq h)
  | product items => exact List.take_of_length_le (Nat.le_of_eq h)
  | table _ | row _ | column _ _ | literal _ | parameter _ _ | nextValue _ | currentValue _ =>
    exact (List.length_eq_zero_iff.mp h).symm

/-- **Nothing but the children changes**, if they are as many as before. -/
theorem frame_refill {s : Shape ν} {cs : List μ} (h : cs.length = s.children.length) :
    (s.refill cs).frame = s.frame := by
  -- old and new children side by side fill the same places
  have hold : (s.refill (s.children.zip cs)).map Prod.fst = s := by
    rw [map_refill, List.map_fst_zip (Nat.le_of_eq h.symm), refill_children]
  have hnew : (s.refill (s.children.zip cs)).map Prod.snd = s.refill cs := by
    rw [map_refill, List.map_snd_zip (Nat.le_of_eq h)]
  rw [← hnew, frame_map, ← frame_map Prod.fst, hold]

section
variable {s : Shape ν} {t : Shape μ} (h : s.frame = t.frame)
include h

theorem name_eq_of_frame : s.name = t.name := by
  rw [← name_map (fun _ => ()) s, ← name_map (fun _ => ()) t]
  exact congrArg name h

theorem childNames_eq_of_frame : s.childNames = t.childNames := by
  rw [← childNames_map (fun _ => ()) s, ← childNames_map (fun _ => ()) t]
  exact congrArg childNames h

theorem length_children_eq_of_frame : s.children.length = t.children.length := by
  rw [← length_childNames, ← length_childNames, childNames_eq_of_frame h]

theorem refill_eq_of_frame (cs : List κ) : s.refill cs = t.refill cs := by
  rw [← refill_map (fun _ => ()) s, ← refill_map (fun _ => ()) t]
  exact congrArg (refill · cs) h

end

end Shape

/-! ## The laws -/

/-- Children that can be listed, named and replaced, in one order and apart from everything else. -/
structure ChildLens {α : Type} (children : α → List Node) (childNames : α → List String)
    (kind : α → String) (frame : α → Shape Unit) (replace : α → List Node → Except Error α) :
    Prop where
  /-- Putting back what is listed changes nothing. -/
  unchanged : ∀ a, replace a (children a) = .ok a
  /-- As many others are listed afterwards, under the same names, and nothing else is different;
  the children in between leave no trace. -/
  replaced : ∀ a cs, cs.length = (children a).length →
    ∃ b, replace a cs = .ok b ∧ children b = cs ∧ childNames b = childNames a ∧ kind b = kind a
      ∧ frame b = frame a ∧ ∀ ds, replace b ds = replace a ds
  /-- Any other number of children is refused, and the error has both numbers. -/
  refused : ∀ a cs, cs.length ≠ (children a).length →
    replace a cs = .error (.childCount (kind a) (children a).length cs.length)
  /-- There is a name for each child. -/
  named : ∀ a, (childNames a).length = (children a).length

/-- The laws hold of whatever is determined by a shape, and gets its children into that shape. -/
theorem Shape.childLens {α : Type} (shape : α → Shape Node) (put : α → List Node → α)
    (injective : Function.Injective shape)
    (shape_put : ∀ a cs, shape (put a cs) = (shape a).refill cs) :
    ChildLens (fun a => (shape a).children) (fun a => (shape a).childNames)
      (fun a => (shape a).name) (fun a => (shape a).frame)
      (fun a cs => if cs.length = (shape a).children.length then .ok (put a cs)
        else .error (.childCount (shape a).name (shape a).children.length cs.length)) where
  unchanged a := by
    rw [if_pos rfl]
    refine congrArg Except.ok (injective ?_)
    rw [shape_put, refill_children]
  replaced a cs h := by
    have hframe : (shape (put a cs)).frame = (shape a).frame := by
      rw [shape_put]
      exact frame_refill h
    refine ⟨put a cs, if_pos h, ?_, childNames_eq_of_frame hframe, name_eq_of_frame hframe, hframe,
      fun ds => ?_⟩
    · rw [shape_put]
      exact children_refill h
    · have hput : put (put a cs) ds = put a ds := by
        apply injective
        rw [shape_put (put a cs), refill_eq_of_frame hframe, shape_put a]
      rw [hput, length_children_eq_of_frame hframe, name_eq_of_frame hframe]
  refused a cs h := if_neg h
  named a := length_childNames (shape a)

/-- **Children are what a lens looks at**, for nodes of every shape and for queries. -/
theorem Node.children_lens :
    ChildLens Node.children Node.childNames (fun n => n.shape.name) (fun n => n.shape.frame)
        Node.replaceChildren
      ∧ ChildLens Clauses.children Clauses.childNames (fun q => (Shape.query q).name)
        (fun q => (Shape.query q).frame) Clauses.replaceChildren := by
  constructor
  · refine Shape.childLens Node.shape (fun n cs => .mk (n.shape.refill cs)) ?_ fun _ _ => rfl
    rintro ⟨s⟩ ⟨t⟩ rfl
    rfl
  · refine Shape.childLens Shape.query Clauses.refill ?_ fun _ _ => rfl
    intro p q h
    exact Shape.query.inj h

end SqlCompiler
