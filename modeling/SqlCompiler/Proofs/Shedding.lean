import SqlCompiler.Json.Query
import SqlCompiler.Json.Schema
import SqlCompiler.Proofs.Printing

/-!
# Documents without their default members

A member of an object may be left out if it says what is assumed without it.  `Json.Sheds` relates
a document to those that are left when any of these members are taken away, at any depth.

A reader *reads back* a value from a document if it does so from every document that is left:
`Json.ReadsBack`.  This passes from the parts of a document to the whole, by one rule for each way
in which documents are put together.

* `Json.defaults` — the members that may be left out.
* `Json.Sheds` — a document, and one without some of these members.
* `Json.ReadsBack` — a value is read from all such documents.
* `ReadsBack.list`, `pair`, `nullable`, `tagged`, `object` — the rules.
* `LeftOf.required?`, `default?`, `optional?` — the fields of a structure.
-/

set_option autoImplicit false
namespace SqlCompiler
namespace Json

/-- The members that may be left out, with the values that are assumed then. -/
def defaults : List (String × Json) :=
  [
    -- queries
    ("from", .array []), ("where", .array []), ("group_by", .null), ("order_by", .array []),
    ("select", .null), ("fetch", .null), ("offset", .null),
    -- expressions and sort orders
    ("bind", .bool false), ("otherwise", .null), ("direction", .string "asc"),
    ("nulls", .string "default"),
    -- tables
    ("nullable", .bool false), ("primary_key", .bool false), ("auto_increment", .bool false),
    ("default", .null), ("db_type", .null), ("primary_key", .null), ("foreign_keys", .array []),
    ("indexes", .array []), ("on_update", .string "no_action"), ("on_delete", .string "no_action"),
    ("unique", .bool false)]

/-! ## Leaving members out -/

mutual
/-- The second document is the first one without some of its default members, at any depth. -/
inductive Sheds : Json → Json → Prop where
  | null : Sheds .null .null
  | bool (b : Bool) : Sheds (.bool b) (.bool b)
  | int (n : Int) : Sheds (.int n) (.int n)
  | float (x : Number.Double) : Sheds (.float x) (.float x)
  | string (s : String) : Sheds (.string s) (.string s)
  | unread : Sheds .unread .unread
  | array {items items' : List Json} (h : ShedsItems items items') :
    Sheds (.array items) (.array items')
  | object {members members' : List (String × Json)} (h : ShedsMembers members members') :
    Sheds (.object members) (.object members')

/-- The items of an array, without some of the default members in them. -/
inductive ShedsItems : List Json → List Json → Prop where
  | nil : ShedsItems [] []
  | cons {j j' : Json} {js js' : List Json} (head : Sheds j j') (tail : ShedsItems js js') :
    ShedsItems (j :: js) (j' :: js')

/-- The members of an object, without some of the default members among and in them. -/
inductive ShedsMembers : List (String × Json) → List (String × Json) → Prop where
  | nil : ShedsMembers [] []
  | keep (name : String) {j j' : Json} {ms ms' : List (String × Json)} (head : Sheds j j')
    (tail : ShedsMembers ms ms') : ShedsMembers ((name, j) :: ms) ((name, j') :: ms')
  | drop {member : String × Json} {ms ms' : List (String × Json)} (h : member ∈ defaults)
    (tail : ShedsMembers ms ms') : ShedsMembers (member :: ms) ms'
end

mutual
/-- Nothing need be left out. -/
theorem Sheds.refl : ∀ j : Json, Sheds j j
  | .null => .null
  | .bool b => .bool b
  | .int n => .int n
  | .float x => .float x
  | .string s => .string s
  | .unread => .unread
  | .array items => .array (ShedsItems.refl items)
  | .object members => .object (ShedsMembers.refl members)

theorem ShedsItems.refl : ∀ js : List Json, ShedsItems js js
  | [] => .nil
  | j :: js => .cons (Sheds.refl j) (ShedsItems.refl js)

theorem ShedsMembers.refl : ∀ ms : List (String × Json), ShedsMembers ms ms
  | [] => .nil
  | (name, j) :: ms => .keep name (Sheds.refl j) (ShedsMembers.refl ms)
end

theorem Sheds.eq_string {s : String} {j : Json} (h : Sheds (.string s) j) : j = .string s := by
  cases h
  rfl

theorem Sheds.eq_int {n : Int} {j : Json} (h : Sheds (.int n) j) : j = .int n := by
  cases h
  rfl

theorem Sheds.eq_bool {b : Bool} {j : Json} (h : Sheds (.bool b) j) : j = .bool b := by
  cases h
  rfl

/-- Null is left of null only. -/
theorem Sheds.eq_null {j : Json} (h : Sheds j .null) : j = .null := by
  cases h
  rfl

/-- No name but those of the defaults can be missing. -/
def IsKept (name : String) : Prop :=
  name ∉ defaults.map Prod.fst

instance (name : String) : Decidable (IsKept name) :=
  inferInstanceAs (Decidable (_ ∉ _))

theorem IsKept.not_mem {name : String} (h : IsKept name) (j : Json) : (name, j) ∉ defaults :=
  fun hmem => h (List.mem_map_of_mem hmem)

/-- What is left of a choice, which keeps its name. -/
theorem Sheds.exists_tagged {name : String} {j k : Json} (hname : IsKept name)
    (h : Sheds (tagged name j) k) : ∃ j', k = tagged name j' ∧ Sheds j j' := by
  cases h with
  | object h =>
    cases h with
    | keep _ head tail =>
      cases tail
      exact ⟨_, rfl, head⟩
    | drop h _ => exact absurd h (hname.not_mem j)

/-! ## Depth -/

theorem depth_pos (j : Json) : 0 < j.depth := by
  cases j <;> exact Nat.succ_pos _

theorem depth_le_of_mem_members {name : String} {j : Json} {members : List (String × Json)}
    (h : (name, j) ∈ members) : j.depth ≤ depthMembers members := by
  induction members with
  | nil => cases h
  | cons m members ih =>
    rw [depthMembers]
    rcases List.mem_cons.mp h with rfl | h
    · exact Nat.le_max_left _ _
    · exact Nat.le_trans (ih h) (Nat.le_max_right _ _)

/-! ## Printing

What is left is printed as the document is, and nested no deeper. -/

mutual
theorem Sheds.isPlain : ∀ {j j' : Json}, Sheds j j' → j.isPlain = true → j'.isPlain = true
  | _, _, .null, h | _, _, .bool _, h | _, _, .int _, h | _, _, .float _, h | _, _, .string _, h
  | _, _, .unread, h => h
  | _, _, .array hs, h => hs.plainItems h
  | _, _, .object hs, h => hs.plainMembers h

theorem ShedsItems.plainItems : ∀ {js js' : List Json}, ShedsItems js js' →
    Json.plainItems js = true → Json.plainItems js' = true
  | _, _, .nil, _ => rfl
  | _, _, .cons head tail, h => by
    rw [Json.plainItems, Bool.and_eq_true] at h ⊢
    exact ⟨head.isPlain h.1, tail.plainItems h.2⟩

theorem ShedsMembers.plainMembers : ∀ {ms ms' : List (String × Json)}, ShedsMembers ms ms' →
    Json.plainMembers ms = true → Json.plainMembers ms' = true
  | _, _, .nil, _ => rfl
  | _, _, .keep _ head tail, h => by
    rw [Json.plainMembers, Bool.and_eq_true] at h ⊢
    exact ⟨head.isPlain h.1, tail.plainMembers h.2⟩
  | _, _, .drop _ tail, h => by
    rw [Json.plainMembers, Bool.and_eq_true] at h
    exact tail.plainMembers h.2
end

mutual
theorem Sheds.nesting_le : ∀ {j j' : Json}, Sheds j j' → j'.nesting ≤ j.nesting
  | _, _, .null | _, _, .bool _ | _, _, .int _ | _, _, .float _ | _, _, .string _
  | _, _, .unread => Nat.le_refl _
  | _, _, .array hs => Nat.succ_le_succ hs.nesting_le
  | _, _, .object hs => Nat.succ_le_succ hs.nesting_le

theorem ShedsItems.nesting_le : ∀ {js js' : List Json}, ShedsItems js js' →
    nestingItems js' ≤ nestingItems js
  | _, _, .nil => Nat.le_refl _
  | _, _, .cons head tail => by
    have hhead := head.nesting_le
    have htail := tail.nesting_le
    rw [nestingItems, nestingItems]
    omega

theorem ShedsMembers.nesting_le : ∀ {ms ms' : List (String × Json)}, ShedsMembers ms ms' →
    nestingMembers ms' ≤ nestingMembers ms
  | _, _, .nil => Nat.le_refl _
  | _, _, .keep _ head tail => by
    have hhead := head.nesting_le
    have htail := tail.nesting_le
    rw [nestingMembers, nestingMembers]
    omega
  | _, _, .drop _ tail => by
    have htail := tail.nesting_le
    rw [nestingMembers]
    omega
end

/-! ## Reading back -/

/-- A document can be printed, and a value is read from it and from whatever is left of it without
default members, as long as that is nested no deeper than a bound. -/
structure ReadsBack {α : Type} (bound : Nat) (read : Json → Option α) (j : Json) (a : α) :
    Prop where
  isPlain : j.isPlain = true
  read_eq : ∀ j', Sheds j j' → j'.depth ≤ bound → read j' = some a

section
variable {α β : Type} {bound : Nat} {read : Json → Option α} {write : α → Json}

/-- A whole number of 64 bits, with or without a sign. -/
theorem readsBack_int {n : Int} {a : α} (hlow : Int64.minValue.toInt ≤ n)
    (hhigh : n < UInt64.size) (h : read (.int n) = some a) : ReadsBack bound read (.int n) a where
  isPlain := decide_eq_true ⟨hlow, hhigh⟩
  read_eq j hj _ := by rw [hj.eq_int, h]

theorem readsBack_bool (b : Bool) : ReadsBack bound bool? (.bool b) b where
  isPlain := rfl
  read_eq j hj _ := by
    rw [hj.eq_bool]
    rfl

theorem readsBack_string {s : String} {a : α} (h : read (.string s) = some a) :
    ReadsBack bound read (.string s) a where
  isPlain := rfl
  read_eq j hj _ := by rw [hj.eq_string, h]

theorem isPlain_ofList {l : List α} (h : ∀ a ∈ l, (write a).isPlain = true) :
    (ofList write l).isPlain = true := by
  rw [ofList, isPlain]
  induction l with
  | nil => rfl
  | cons a l ih =>
    rw [List.map_cons, plainItems, Bool.and_eq_true]
    exact ⟨h a List.mem_cons_self, ih fun b hb => h b (List.mem_cons_of_mem _ hb)⟩

namespace ReadsBack

theorem map {j : Json} {a : α} (h : ReadsBack bound read j a) (f : α → β) :
    ReadsBack bound (fun j => (read j).map f) j (f a) where
  isPlain := h.isPlain
  read_eq j' hj hdepth := by
    rw [h.read_eq j' hj hdepth]
    rfl

theorem mapM_items {l : List α} {items : List Json} (hsheds : ShedsItems (l.map write) items)
    (h : ∀ a ∈ l, ReadsBack bound read (write a) a) (hdepth : depthItems items ≤ bound) :
    items.mapM read = some l := by
  induction l generalizing items with
  | nil =>
    cases hsheds
    rfl
  | cons a l ih =>
    cases hsheds with
    | cons head tail =>
      rw [depthItems] at hdepth
      rw [List.mapM_cons, (h a List.mem_cons_self).read_eq _ head (by omega),
        ih tail (fun b hb => h b (List.mem_cons_of_mem _ hb)) (by omega)]
      rfl

theorem list {l : List α} (h : ∀ a ∈ l, ReadsBack bound read (write a) a) :
    ReadsBack bound (list? read) (ofList write l) l where
  isPlain := isPlain_ofList fun a ha => (h a ha).isPlain
  read_eq j hj hdepth := by
    cases hj with
    | array hsheds =>
      rw [depth] at hdepth
      exact mapM_items hsheds h (by omega)

theorem pair {first : Json → Option α} {second : Json → Option β} {j k : Json} {a : α} {b : β}
    (h₁ : ReadsBack bound first j a) (h₂ : ReadsBack bound second k b) :
    ReadsBack bound (pair? first second) (.array [j, k]) (a, b) where
  isPlain := by simp only [Json.isPlain, plainItems, h₁.isPlain, h₂.isPlain, Bool.and_self]
  read_eq j' hj hdepth := by
    cases hj with
    | array hitems =>
      cases hitems with
      | cons head tail =>
        cases tail with
        | cons head' tail =>
          cases tail
          simp only [depth, depthItems] at hdepth
          have hfirst := h₁.read_eq _ head (by omega)
          have hsecond := h₂.read_eq _ head' (by omega)
          simp only [pair?, hfirst, hsecond]
          rfl

/-- A value or null, for values that are not written as null. -/
theorem nullable {o : Option α} (h : ∀ a, o = some a → ReadsBack bound read (write a) a)
    (hnull : ∀ a, write a ≠ .null) :
    ReadsBack bound (Fields.nullable? read) (ofOption write o) o := by
  cases o with
  | none =>
    refine ⟨rfl, fun j hj _ => ?_⟩
    cases hj
    rfl
  | some a =>
    refine ⟨(h a rfl).isPlain, fun j hj hdepth => ?_⟩
    have hj' : j ≠ .null := by
      rintro rfl
      exact hnull a hj.eq_null
    unfold Fields.nullable?
    split
    · exact absurd rfl hj'
    · rw [(h a rfl).read_eq j hj hdepth]
      rfl

/-- A choice with what belongs to it, which is one level down. -/
theorem tagged {content : Json → Option α} {name : String} {j : Json} {a : α} {bound' : Nat}
    (h : ReadsBack bound content j a) (hbound : bound' ≤ bound + 1) (hname : IsKept name)
    (hread : ∀ j', read (.tagged name j') = content j') :
    ReadsBack bound' read (.tagged name j) a where
  isPlain := by simp only [Json.tagged, Json.isPlain, plainMembers, h.isPlain, Bool.and_self]
  read_eq k hk hdepth := by
    obtain ⟨j', rfl, hj⟩ := hk.exists_tagged hname
    simp only [Json.tagged, depth, depthMembers] at hdepth
    rw [hread, h.read_eq j' hj (by omega)]

end ReadsBack

/-! ## Fields -/

namespace ShedsMembers

variable {ms ns : List (String × Json)} {name : String} {j : Json}

theorem filter_eq_nil (h : ShedsMembers ms ns) (hname : name ∉ ms.map Prod.fst) :
    ns.filter (·.1 == name) = [] := by
  induction ms generalizing ns with
  | nil =>
    cases h
    rfl
  | cons m ms ih =>
    rw [List.map_cons, List.mem_cons, not_or] at hname
    cases h with
    | keep _ _ tail =>
      rw [List.filter_cons_of_neg (by simpa using Ne.symm hname.1), ih tail hname.2]
    | drop _ tail => exact ih tail hname.2

/-- A member among others of other names stays, or is a default member and no longer there. -/
theorem find? (h : ShedsMembers ms ns) (hnodup : (ms.map Prod.fst).Nodup) (hmem : (name, j) ∈ ms) :
    (∃ j', Sheds j j' ∧ (name, j') ∈ ns ∧ Fields.find? ⟨ns, false⟩ name = some (some j')) ∨
      ((name, j) ∈ defaults ∧ Fields.find? ⟨ns, false⟩ name = some none) := by
  induction ms generalizing ns with
  | nil => cases hmem
  | cons m ms ih =>
    rw [List.map_cons, List.nodup_cons] at hnodup
    rcases List.mem_cons.mp hmem with rfl | htail
    · cases h with
      | keep _ head tail =>
        refine .inl ⟨_, head, List.mem_cons_self, ?_⟩
        rw [Fields.find?, List.filter_cons_of_pos (by simp), tail.filter_eq_nil hnodup.1]
      | drop h tail =>
        refine .inr ⟨h, ?_⟩
        rw [Fields.find?, tail.filter_eq_nil hnodup.1]
    · have hne : m.1 ≠ name := by
        rintro rfl
        exact hnodup.1 (List.mem_map.mpr ⟨_, htail, rfl⟩)
      cases h with
      | keep _ _ tail =>
        unfold Fields.find?
        rw [List.filter_cons_of_neg (by simpa using hne)]
        rcases ih tail hnodup.2 htail with ⟨j', hj, hmem', hj'⟩ | hdrop
        · exact .inl ⟨j', hj, List.mem_cons_of_mem _ hmem', hj'⟩
        · exact .inr hdrop
      | drop _ tail => exact ih tail hnodup.2 htail

end ShedsMembers

/-- The members that are left of those of a structure, none deeper than a bound. -/
structure LeftOf (bound : Nat) (ms ns : List (String × Json)) : Prop where
  sheds : ShedsMembers ms ns
  nodup : (ms.map Prod.fst).Nodup
  depth : depthMembers ns ≤ bound

/-- A structure, given the names of whose fields are distinct. -/
theorem ReadsBack.object {ms : List (String × Json)} {a : α} (hnodup : (ms.map Prod.fst).Nodup)
    (hplain : plainMembers ms = true)
    (h : ∀ ns, LeftOf bound ms ns → read (.object ns) = some a) :
    ReadsBack bound read (.object ms) a where
  isPlain := hplain
  read_eq j hj hdepth := by
    cases hj with
    | object hsheds =>
      rw [Json.depth] at hdepth
      exact h _ ⟨hsheds, hnodup, by omega⟩

namespace LeftOf

variable {ms ns : List (String × Json)} {j : Json} {a : α}

theorem default? (h : LeftOf bound ms ns) (name : String) (d : α)
    (hread : ReadsBack bound read j a) (hmem : (name, j) ∈ ms)
    (hdefault : (name, j) ∈ defaults → a = d) :
    Fields.default? read ⟨ns, false⟩ name d = some a := by
  unfold Fields.default?
  rcases h.sheds.find? h.nodup hmem with ⟨j', hj, hmem', hfind⟩ | ⟨hdrop, hfind⟩
  · rw [hfind]
    exact hread.read_eq j' hj (Nat.le_trans (depth_le_of_mem_members hmem') h.depth)
  · rw [hfind, hdefault hdrop]
    rfl

theorem required? (h : LeftOf bound ms ns) (name : String) (hread : ReadsBack bound read j a)
    (hmem : (name, j) ∈ ms) (hname : IsKept name) :
    Fields.required? read ⟨ns, false⟩ name = some a := by
  unfold Fields.required?
  rcases h.sheds.find? h.nodup hmem with ⟨j', hj, hmem', hfind⟩ | ⟨hdrop, _⟩
  · rw [hfind]
    exact hread.read_eq j' hj (Nat.le_trans (depth_le_of_mem_members hmem') h.depth)
  · exact absurd hdrop (hname.not_mem j)

/-- A field that may be missing or null, and is null where it is a default member. -/
theorem optional? {o : Option α} (h : LeftOf bound ms ns) (name : String)
    (hread : ReadsBack bound (Fields.nullable? read) (ofOption write o) o)
    (hmem : (name, ofOption write o) ∈ ms) (hdefault : ∀ a, (name, write a) ∉ defaults) :
    Fields.optional? read ⟨ns, false⟩ name = some o := by
  refine h.default? name none hread hmem fun hdrop => ?_
  cases o with
  | none => rfl
  | some a => exact absurd hdrop (hdefault a)

end LeftOf
end
end Json
end SqlCompiler
