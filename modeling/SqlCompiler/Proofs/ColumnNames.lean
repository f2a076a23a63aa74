import Mathlib.Data.List.Nodup
import SqlCompiler.Proofs.Collecting
import SqlCompiler.Proofs.Cuts
import SqlCompiler.Proofs.Gathering

/-!
# Names in a numbered query

A query that numbers its rows is replaced by one around a derived table.  The outer query knows the
columns of that table by their names only: it lists those of the projection, and tests and sorts by
the one with the row numbers.  A name is clear if exactly one column of the derived table has it.

Columns without a name are given names by their positions, and these are always clear.  Columns of a
record keep the names that they have, so there it depends on the caller: two columns may share a
name, or one may have the name of the column with the row numbers.

* `Field.only?` — the column with a name, if it is the only one.
* `Node.namesOf` — the names by which a tree refers to the columns of a symbol.
* `Query.ResolvesTo` — the outer query finds what it asks for.
* `Query.HasClearNames` — the columns of a record have different names, none that of row numbers.
* `Query.resolvesTo_iff_hasClearNames` — the one holds exactly if the other does.
-/

set_option autoImplicit false
namespace SqlCompiler

open RowNumbering

/-! ## Columns by their names -/

/-- The value of the column with a name, if there is exactly one. -/
def Field.only? (fields : List (Field Node)) (name : String) : Option Node :=
  match fields.filter (·.name == name) with
  | [f] => some f.value
  | _ => none

/-- The column of a derived table that a node refers to, if it is clear which. -/
def Node.resolve? (outer : Symbol) (fields : List (Field Node)) (n : Node) : Option Node :=
  match n.shape with
  | .column source name => if source = outer then Field.only? fields name else none
  | _ => none

/-- The name by which a node itself refers to a column of a symbol. -/
def Shape.nameOf (s : Symbol) : Shape Node → List String
  | .column source name => if source = s then [name] else []
  | _ => []

/-- The names by which a tree refers to columns of a symbol. -/
def Node.namesOf (s : Symbol) : Node → List String :=
  Node.fold fun t => (t.map Prod.fst).nameOf s ++ t.children.flatMap Prod.snd

namespace Field

variable {fields : List (Field Node)}

theorem isSome_only?_iff {name : String} :
    (only? fields name).isSome = true ↔ (fields.map Field.name).count name = 1 := by
  rw [List.count, List.countP_map, List.countP_eq_length_filter, only?]
  change _ ↔ (fields.filter (·.name == name)).length = 1
  cases fields.filter (·.name == name) with
  | nil => simp
  | cons f rest => cases rest <;> simp

theorem only?_eq_some (hnodup : (fields.map Field.name).Nodup) {f : Field Node} (hf : f ∈ fields) :
    only? fields f.name = some f.value := by
  have hcount : (fields.map Field.name).count f.name = 1 :=
    List.nodup_iff_count_eq_one.mp hnodup _ (List.mem_map_of_mem hf)
  have hmem : f ∈ fields.filter (·.name == f.name) :=
    List.mem_filter.mpr ⟨hf, beq_self_eq_true _⟩
  rw [List.count, List.countP_map, List.countP_eq_length_filter] at hcount
  obtain ⟨g, hg⟩ := List.length_eq_one_iff.mp hcount
  rw [show fields.filter (·.name == f.name) = [g] from hg, List.mem_singleton] at hmem
  rw [only?, show fields.filter (·.name == f.name) = [g] from hg, hmem]

end Field

namespace Node

theorem gathers_namesOf (s : Symbol) : Gathers (Shape.nameOf s) (namesOf s) where
  layer t := by
    rw [namesOf, fold_mk, Shape.map_map, Shape.children_map, List.flatMap_map]
    exact congrArg (· ++ _) (congrArg _ (Shape.map_id t))

theorem namesOf_column (s : Symbol) (name : String) : (column s name).namesOf s = [name] := by
  rw [(gathers_namesOf s).layer]
  simp [Shape.nameOf, Shape.children]

theorem namesOf_compare (f : Function) (s : Symbol) (name : String) (n : Nat) :
    (apply f [.column s name, rowConstant n]).namesOf s = [name] := by
  have hconstant : (rowConstant n).namesOf s = [] := by
    rw [rowConstant, typed, (gathers_namesOf s).layer]
    rfl
  rw [(gathers_namesOf s).layer]
  simp [Shape.nameOf, Shape.children, namesOf_column, hconstant]

end Node

/-! ## Generated names -/

namespace RowNumbering

theorem positionName_injective : Function.Injective positionName := by
  intro i j h
  have hlist := congrArg String.toList h
  rw [positionName, positionName, String.toList_append, String.toList_append] at hlist
  have hdigits : toString (i + 1) = toString (j + 1) :=
    String.toList_inj.mp (List.append_cancel_left hlist)
  have hnumber := congrArg Text.number? hdigits
  rw [Text.number?_toString, Text.number?_toString] at hnumber
  exact Nat.succ.inj (Option.some.inj hnumber)

theorem positionName_ne_numberColumn (i : Nat) : positionName i ≠ numberColumn := by
  intro h
  have hlist := congrArg String.toList h
  rw [positionName, String.toList_append] at hlist
  exact absurd (List.cons.inj hlist).1 (by decide)

/-- The columns of the derived table: those of the projection, and the row numbers. -/
def numbered (fields : List (Field Node)) (keys : List (SortKey Node)) : List (Field Node) :=
  fields ++ [⟨numberColumn, .mk (.rowNumber keys)⟩]

namespace Listed

variable {outer : Symbol} {p listed : Node} {fields : List (Field Node)}
  (h : Listed outer p fields listed)
include h

theorem columns_listed : listed.columns = fields.map fun c => .column outer c.name := by
  cases h with
  | record fields _ => simp [Node.columns, Layout.columnsOf, Node.shape]
  | product items _ =>
    simp [Node.columns, Layout.columnsOf, Node.shape, List.mapIdx_eq_zipIdx_map, Function.comp_def]
  | single p _ _ _ => rfl

theorem columns_eq : p.columns = fields.map Field.value := by
  cases h with
  | record fields _ => rfl
  | product items _ =>
    simp [Node.columns, Layout.columnsOf, Node.shape, List.mapIdx_eq_zipIdx_map, Function.comp_def]
  | single p _ hrecord hproduct =>
    rw [Node.columns, Layout.columnsOf]
    split
    · next items hitems => exact absurd hitems (hproduct items)
    · next fields hfields => exact absurd hfields (hrecord fields)
    · rfl

/-- The outer query lists every column by its name. -/
theorem namesOf_listed : listed.namesOf outer = fields.map Field.name := by
  have hcolumns : listed.namesOf outer = listed.columns.flatMap (Node.namesOf outer) := by
    cases h with
    | record fields _ => exact (Node.gathers_namesOf outer).layer _
    | product items _ => exact (Node.gathers_namesOf outer).layer _
    | single p _ _ _ => exact (List.flatMap_singleton _ _).symm
  rw [hcolumns, h.columns_listed, List.flatMap_map, List.map_eq_flatMap]
  simp only [Node.namesOf_column]

end Listed

end RowNumbering

/-! ## Clear names -/

/-- The names that the caller gave to the columns of a projection. -/
def Node.givenNames (p : Node) : List String :=
  match p.shape with
  | .record fields => fields.map Field.name
  | _ => []

namespace Query

/-- The columns of a record have different names, and none has the name of the row numbers. -/
def HasClearNames (q : Query) : Prop :=
  (numberColumn :: q.projection.toList.flatMap Node.givenNames).Nodup

instance (q : Query) : Decidable (HasClearNames q) :=
  inferInstanceAs (Decidable (List.Nodup _))

/-- The query `p` around a derived table finds there what `q` asks for: each name that it uses is
the name of exactly one column, the columns that it lists are those of `q` in their order, and its
filters and its order go by the row numbers. -/
def ResolvesTo (p q : Query) : Prop :=
  ∃ (outer : Symbol) (table : Query) (fields : List (Field Node)),
    p.generators = [⟨outer, .query table⟩]
      ∧ table.projection = some (.mk (.record fields))
      ∧ (∀ n ∈ p.expressions, ∀ name ∈ n.namesOf outer, (Field.only? fields name).isSome = true)
      ∧ p.projection.map (fun n => n.columns.map (Node.resolve? outer fields))
          = q.projection.map (fun n => n.columns.map some)
      ∧ (∀ n ∈ p.filters ++ p.orderBy.map SortKey.key, n.namesOf outer = [numberColumn])
      ∧ Field.only? fields numberColumn = some (.mk (.rowNumber q.orderBy))

end Query

namespace RowNumbering

theorem nodup_positionNames (items : List Node) :
    ((items.mapIdx fun i n => (⟨positionName i, n⟩ : Field Node)).map Field.name).Nodup := by
  have hnames : (items.mapIdx fun i n => (⟨positionName i, n⟩ : Field Node)).map Field.name
      = (List.range items.length).map positionName := by
    refine List.ext_getElem (by simp) fun i _ _ => ?_
    simp
  rw [hnames]
  exact List.nodup_range.map positionName_injective

/-- The columns of the derived table have different names exactly if the names given by the caller
are clear; those given by position always are. -/
theorem Listed.nodup_numbered_iff {outer : Symbol} {p listed : Node} {fields : List (Field Node)}
    (h : Listed outer p fields listed) (keys : List (SortKey Node)) :
    ((numbered fields keys).map Field.name).Nodup ↔ (numberColumn :: p.givenNames).Nodup := by
  rw [numbered, List.map_append, List.map_singleton,
    (List.perm_append_singleton numberColumn (fields.map Field.name)).nodup_iff]
  cases h with
  | record fields _ => rfl
  | product items _ =>
    have hnumber : numberColumn
        ∉ (items.mapIdx fun i n => (⟨positionName i, n⟩ : Field Node)).map Field.name := by
      intro hmem
      obtain ⟨c, hc, hname⟩ := List.mem_map.mp hmem
      obtain ⟨i, _, rfl⟩ := List.mem_mapIdx.mp hc
      exact positionName_ne_numberColumn i hname
    exact iff_of_true (List.nodup_cons.mpr ⟨hnumber, nodup_positionNames items⟩)
      (List.nodup_singleton _)
  | single p _ hrecord _ =>
    have hgiven : p.givenNames = [] := by
      rw [Node.givenNames]
      split
      · next fields hfields => exact absurd hfields (hrecord fields)
      · rfl
    rw [hgiven]
    exact iff_of_true (show [numberColumn, positionName 0].Nodup by decide) (List.nodup_singleton _)

/-- The columns that the outer query lists are those of the query, if their names are clear. -/
theorem Listed.map_resolve? {outer : Symbol} {p listed : Node} {fields : List (Field Node)}
    (h : Listed outer p fields listed) {keys : List (SortKey Node)}
    (hnodup : ((numbered fields keys).map Field.name).Nodup) :
    listed.columns.map (Node.resolve? outer (numbered fields keys)) = p.columns.map some := by
  rw [h.columns_listed, h.columns_eq, List.map_map, List.map_map]
  refine List.map_congr_left fun c hc => ?_
  change (if outer = outer then _ else _) = some c.value
  rw [if_pos rfl]
  exact Field.only?_eq_some hnodup (List.mem_append_left _ hc)

/-- The filters and the order of the outer query go by the row numbers. -/
theorem namesOf_of_mem_tests {outer : Symbol} {q : Query} {fields : List (Field Node)}
    {listed : Node} {after : Nat} {until_ : Option Nat} {p : Query}
    (hp : p = assembled .plain outer q fields listed (rowConstant after) (until_.map rowConstant))
    {n : Node} (h : n ∈ p.filters ++ p.orderBy.map SortKey.key) :
    n.namesOf outer = [numberColumn] := by
  subst hp
  rcases List.mem_append.mp h with h | h
  · rcases List.mem_cons.mp h with rfl | h
    · exact Node.namesOf_compare .gt outer numberColumn after
    · cases until_ with
      | none => cases h
      | some last =>
        rw [List.mem_singleton.mp h]
        exact Node.namesOf_compare .le outer numberColumn last
  · rw [List.mem_singleton.mp h]
    exact Node.namesOf_column outer numberColumn

end RowNumbering

namespace Query

variable {dialect : String} {q p : Query}

theorem ResolvesTo.hasClearNames (hp : ResolvesTo p q) (h : numberRows dialect q = .ok p) :
    HasClearNames q := by
  obtain ⟨projection, fields, listed, after, until_, hprojection, hlisted, -, rfl⟩ :=
    numberRows_eq_ok h
  obtain ⟨outer, table, fields', hgenerators, htable, hnames, -, -, hresolved⟩ := hp
  cases hgenerators
  cases htable
  rw [HasClearNames, hprojection, Option.toList_some, List.flatMap_singleton,
    ← hlisted.nodup_numbered_iff q.orderBy]
  -- every column of the table is asked for by its name, so no name occurs twice
  refine List.nodup_iff_count_eq_one.mpr fun name hname => Field.isSome_only?_iff.mp ?_
  rw [numbered, List.map_append] at hname
  rcases List.mem_append.mp hname with hname | hname
  · refine hnames listed (Clauses.mem_expressions_iff.mpr (.inr (.inr (.inr rfl)))) name ?_
    rwa [hlisted.namesOf_listed]
  · rw [List.mem_singleton.mp hname]
    exact Option.isSome_of_eq_some hresolved

theorem HasClearNames.resolvesTo (hq : HasClearNames q) (h : numberRows dialect q = .ok p) :
    ResolvesTo p q := by
  obtain ⟨projection, fields, listed, after, until_, hprojection, hlisted, -, rfl⟩ :=
    numberRows_eq_ok h
  rw [HasClearNames, hprojection, Option.toList_some, List.flatMap_singleton,
    ← hlisted.nodup_numbered_iff q.orderBy] at hq
  have hnumber : (⟨numberColumn, .mk (.rowNumber q.orderBy)⟩ : Field Node)
      ∈ numbered fields q.orderBy := List.mem_append_right _ (List.mem_singleton_self _)
  refine ⟨freshSymbol q, _, numbered fields q.orderBy, rfl, rfl, fun n hn name hname => ?_, ?_,
    fun n hn => namesOf_of_mem_tests rfl hn, Field.only?_eq_some hq hnumber⟩
  · rw [Field.isSome_only?_iff]
    refine List.nodup_iff_count_eq_one.mp hq name ?_
    rw [numbered, List.map_append]
    rcases mem_expressions_assembled hn with ⟨f, limit, -, rfl⟩ | rfl | rfl
    · rw [Node.namesOf_compare] at hname
      exact List.mem_append_right _ hname
    · rw [Node.namesOf_column] at hname
      exact List.mem_append_right _ hname
    · rw [hlisted.namesOf_listed] at hname
      exact List.mem_append_left _ hname
  · rw [hprojection]
    exact congrArg some (hlisted.map_resolve? hq)

/-- **The columns of a numbered query are clear by their names exactly if the caller's names are.**
It may be any query that can be replaced, with any projection: columns that are named by their
positions, or a single column, are always clear. -/
theorem resolvesTo_iff_hasClearNames (h : numberRows dialect q = .ok p) :
    ResolvesTo p q ↔ HasClearNames q :=
  ⟨fun hp => hp.hasClearNames h, fun hq => hq.resolvesTo h⟩

/-- A page of a record with two columns. -/
theorem resolvesTo_iff_hasClearNames_record :
    let q : Query := {
      generators := [⟨⟨0, 0⟩, .table "users"⟩]
      orderBy := [⟨.column ⟨0, 0⟩ "name", .ascending⟩]
      projection := some (.mk (.record
        [⟨"id", .column ⟨0, 0⟩ "id"⟩, ⟨"name", .column ⟨0, 0⟩ "name"⟩]))
      fetch := some 10
      offset := some 5 }
    ∃ p, numberRows "sqlserver" q = .ok p ∧ HasClearNames q ∧ ResolvesTo p q := by
  intro q
  have hok : (numberRows "sqlserver" q).isOk = true := by decide +kernel
  have hclear : HasClearNames q := by decide
  cases h : numberRows "sqlserver" q with
  | error e => rw [h] at hok; cases hok
  | ok p => exact ⟨p, rfl, hclear, (resolvesTo_iff_hasClearNames h).mpr hclear⟩

/-- A column of the caller has the name of the row numbers: the outer query lists it and tests the
row numbers by one name, which two columns have. -/
theorem not_resolvesTo_rownum :
    let q : Query := {
      generators := [⟨⟨0, 0⟩, .table "users"⟩]
      projection := some (.mk (.record [⟨"rownum", .column ⟨0, 0⟩ "id"⟩]))
      fetch := some 10
      offset := some 5 }
    ∃ p, numberRows "sqlserver" q = .ok p ∧ ¬ ResolvesTo p q := by
  intro q
  have hok : (numberRows "sqlserver" q).isOk = true := by decide +kernel
  have hclear : ¬ HasClearNames q := by decide
  cases h : numberRows "sqlserver" q with
  | error e => rw [h] at hok; cases hok
  | ok p => exact ⟨p, rfl, fun hp => hclear (hp.hasClearNames h)⟩

end Query
end SqlCompiler
