import SqlCompiler.Proofs.Clipping
import SqlCompiler.Proofs.Identifiers
import SqlCompiler.Proofs.WrittenScalars

/-!
# Stored queries and tables

A query or a table is read back from its stored form, also if default members are left out of it,
at any depth.  This is put together from the parts: each structure has one lemma, which takes its
fields one by one, and a tree is treated by induction, each node being stored one level below its
parent.  Floating-point values are left out of account, as an infinity is stored as null, and so
are the values whose texts denote other ones.

A text is read down to a greatest depth only.  No table comes near it; a query is read back from
the text of its stored form unless that is nested too deeply, and then no query is read.

* `Value.IsStorable` — a value whose stored form stands for it.
* `Query.values`, `Schema.Table.values` — the values in a query and in a table.
* `Shape.readsBack` — a node is read back if its children are.
* `Query.readsBack`, `Schema.Table.readsBack` — queries and tables are read back.
* `Query.ofText?`, `Schema.Table.ofText?` — a query and a table from a text.
* `read_back_of_sheds` — the main result, for documents and for their texts.
-/

set_option autoImplicit false
namespace SqlCompiler

open Json

section
variable {α : Type} {bound : Nat}

/-! ## Scalars -/

theorem readsBack_natBelow {size n : Nat} {ofNat : Nat → α} {a : α} (hsize : size ≤ UInt64.size)
    (h : n < size) (ha : ofNat n = a) :
    ReadsBack bound (fun j => (j.natBelow? size).map ofNat) (.int n) a := by
  have hmin : Int64.minValue.toInt ≤ 0 := by decide
  refine readsBack_int (by omega) (by omega) ?_
  rw [natBelow?, if_pos ⟨by omega, by omega⟩, Int.toNat_natCast, Option.map_some, ha]

theorem readsBack_uint64 (n : UInt64) : ReadsBack bound uint64? (.int n.toNat) n :=
  readsBack_natBelow (Nat.le_refl _) n.toNat_lt UInt64.ofNat_toNat

theorem readsBack_uint32 (n : UInt32) : ReadsBack bound uint32? (.int n.toNat) n :=
  readsBack_natBelow (by decide) n.toNat_lt UInt32.ofNat_toNat

theorem readsBack_uint8 (n : UInt8) : ReadsBack bound uint8? (.int n.toNat) n :=
  readsBack_natBelow (by decide) n.toNat_lt UInt8.ofNat_toNat

theorem readsBack_intWithin {low high n : Int} {ofInt : Int → α} {a : α}
    (hlow : Int64.minValue.toInt ≤ low) (hhigh : high < UInt64.size) (h : low ≤ n ∧ n ≤ high)
    (ha : ofInt n = a) :
    ReadsBack bound (fun j => (j.intWithin? low high).map ofInt) (.int n) a := by
  refine readsBack_int (by omega) (by omega) ?_
  rw [intWithin?, if_pos h, Option.map_some, ha]

theorem readsBack_int64 (n : Int64) : ReadsBack bound int64? (.int n.toInt) n :=
  readsBack_intWithin (by decide) (by decide) ⟨n.minValue_le_toInt, n.toInt_le⟩ n.ofInt_toInt

theorem readsBack_int32 (n : Int32) : ReadsBack bound int32? (.int n.toInt) n :=
  readsBack_intWithin (by decide) (by decide) ⟨n.minValue_le_toInt, n.toInt_le⟩ n.ofInt_toInt

theorem readsBack_int16 (n : Int16) : ReadsBack bound int16? (.int n.toInt) n :=
  readsBack_intWithin (by decide) (by decide) ⟨n.minValue_le_toInt, n.toInt_le⟩ n.ofInt_toInt

theorem readsBack_name (s : String) : ReadsBack bound string? (.string s) s :=
  readsBack_string rfl

theorem Kind.readsBack (k : Kind) : ReadsBack bound Kind.ofJson? k.toJson k :=
  readsBack_string (ofName?_name k)

theorem Symbol.readsBack (s : Symbol) : ReadsBack bound Symbol.ofJson? s.toJson s := by
  have hslot : ReadsBack bound _ _ s.slot := readsBack_uint32 s.slot
  have hgeneration : ReadsBack bound _ _ s.generation := readsBack_uint32 s.generation
  refine ReadsBack.object (by simp) ?_ fun ns h => ?_
  · simp only [plainMembers, hslot.isPlain, hgeneration.isPlain, Bool.and_self]
  · simp only [Symbol.ofJson?, fields?, Option.bind_eq_bind, Option.bind_some,
      h.required? "slot" hslot (by simp) (by decide),
      h.required? "generation" hgeneration (by simp) (by decide)]

end

/-! ## Values -/

namespace Value

/-- Whether a value is a floating-point number. -/
def isFloating : Value → Bool
  | float _ | double _ => true
  | _ => false

/-- The stored form of a value stands for it: it is no floating-point number, and if it is stored as
a text, then it is what that text denotes. -/
structure IsStorable (v : Value) : Prop where
  not_floating : v.isFloating = false
  denoted : v.denoted = v

/-- Such a value is read back. -/
theorem readsBack {bound : Nat} {v : Value} (h : v.IsStorable) :
    ReadsBack bound ofJson? v.toJson v := by
  have text : ∀ {α : Type} {s : String} {a : α} {read? : String → Option α}, read? s = some a →
      ReadsBack bound (fun j => j.string?.bind read?) (.string s) a :=
    fun h => readsBack_string h
  cases v with
  | float _ | double _ => cases h.not_floating
  | null => exact readsBack_string rfl
  | bool b => exact ((readsBack_bool b).map bool).tagged (Nat.le_succ _) (by decide) fun _ => rfl
  | short n => exact ((readsBack_int16 n).map short).tagged (Nat.le_succ _) (by decide) fun _ => rfl
  | int n => exact ((readsBack_int32 n).map int).tagged (Nat.le_succ _) (by decide) fun _ => rfl
  | long n => exact ((readsBack_int64 n).map long).tagged (Nat.le_succ _) (by decide) fun _ => rfl
  | decimal d =>
    have hread := d.read?_text
    rw [decimal.inj h.denoted] at hread
    have h : ReadsBack bound decimal? (.string d.text) d := readsBack_string hread
    exact (h.map decimal).tagged (Nat.le_succ _) (by decide) fun _ => rfl
  | string s =>
    exact ((readsBack_name s).map string).tagged (Nat.le_succ _) (by decide) fun _ => rfl
  | date d => exact ((text d.read?_text).map date).tagged (Nat.le_succ _) (by decide) fun _ => rfl
  | time t =>
    have hread := t.read?_text
    rw [time.inj h.denoted] at hread
    exact ((text hread).map time).tagged (Nat.le_succ _) (by decide) fun _ => rfl
  | timestamp ts =>
    have hread := ts.read?_stored
    rw [timestamp.inj h.denoted] at hread
    exact ((text hread).map timestamp).tagged (Nat.le_succ _) (by decide) fun _ => rfl
  | uuid u => exact ((text u.read?_text).map uuid).tagged (Nat.le_succ _) (by decide) fun _ => rfl
  | bytes bs =>
    have h : ReadsBack bound (list? uint8?) _ bs := .list fun b _ => readsBack_uint8 b
    exact (h.map bytes).tagged (Nat.le_succ _) (by decide) fun _ => rfl

/-- No value is stored as null. -/
theorem toJson_ne_null (v : Value) : v.toJson ≠ .null := by
  cases v <;> exact Json.noConfusion

end Value

section
variable {bound : Nat}

theorem Literal.readsBack {c : Literal} (h : c.value.IsStorable) :
    ReadsBack bound Literal.ofJson? c.toJson c := by
  have hkind : ReadsBack bound _ _ c.kind := c.kind.readsBack
  have hvalue : ReadsBack bound _ _ c.value := Value.readsBack h
  have hbind : ReadsBack bound _ _ c.bind := readsBack_bool c.bind
  refine ReadsBack.object (by simp) ?_ fun ns h => ?_
  · simp only [plainMembers, hkind.isPlain, hvalue.isPlain, hbind.isPlain, Bool.and_self]
  · simp only [Literal.ofJson?, fields?, Option.bind_eq_bind, Option.bind_some,
      h.required? "kind" hkind (by simp) (by decide),
      h.required? "value" hvalue (by simp) (by decide),
      h.default? "bind" false hbind (by simp) (by simp [defaults])]

theorem Function.readsBack (f : Function) : ReadsBack bound Function.ofJson? f.toJson f := by
  cases f with
  | named name =>
    exact ((readsBack_name name).map named).tagged (Nat.le_succ _) (by decide) fun _ => rfl
  | _ => exact readsBack_string rfl

theorem SortOrder.readsBack (o : SortOrder) : ReadsBack bound SortOrder.ofJson? o.toJson o := by
  have hdirection : ReadsBack bound (choice? direction?) (.string (directionName o.direction))
      o.direction := readsBack_string (by cases o.direction <;> rfl)
  have hnulls : ReadsBack bound (choice? nulls?) (.string (nullsName o.nulls)) o.nulls :=
    readsBack_string (by cases o.nulls <;> rfl)
  refine ReadsBack.object (by simp) (by simp [plainMembers, isPlain]) fun ns h => ?_
  have hdirection := h.default? "direction" .ascending hdirection (by simp) (by
    cases o.direction <;> simp [defaults, directionName])
  have hnulls := h.default? "nulls" .unspecified hnulls (by simp) (by
    cases o.nulls <;> simp [defaults, nullsName])
  simp only [SortOrder.ofJson?, fields?, Option.bind_eq_bind, Option.bind_some, hdirection, hnulls]

end

/-! ## Trees -/

section
variable {ν : Type} {bound : Nat} {read : Json → Option ν} {write : ν → Json}

theorem SortKey.readsBack {k : SortKey ν} (h : ReadsBack bound read (write k.key) k.key) :
    ReadsBack bound (SortKey.ofJson? read) (k.toJson write) k := by
  have hpair := h.pair k.order.readsBack
  exact hpair.map fun p => (⟨p.1, p.2⟩ : SortKey ν)

/-- The clauses of a query are read back if their children are. -/
theorem Clauses.readsBack {q : Clauses ν}
    (h : ∀ n ∈ q.children, ReadsBack bound read (write n) n) (hnull : ∀ n, write n ≠ .null) :
    ReadsBack bound (Clauses.ofJson? read) (q.toJson write) q := by
  have hgenerator : ∀ g ∈ q.generators, ReadsBack bound
      (fun j => (j.pair? Symbol.ofJson? read).map fun p => (⟨p.1, p.2⟩ : Generator ν))
      (twoItems g.binder.toJson (write g.source)) g := by
    intro g hg
    have hpair := g.binder.readsBack.pair (h _ (source_mem_children hg))
    exact hpair.map fun p => (⟨p.1, p.2⟩ : Generator ν)
  have hfrom : ReadsBack bound _ _ q.generators := .list hgenerator
  have hwhere : ReadsBack bound _ _ q.filters := .list fun n hn => h n (filter_mem_children hn)
  have hgroupBy : ReadsBack bound _ _ q.groupBy :=
    .nullable (fun n hn => h n (groupBy_mem_children hn)) hnull
  have horderBy : ReadsBack bound _ _ q.orderBy :=
    .list fun k hk => SortKey.readsBack (h _ (key_mem_children hk))
  have hselect : ReadsBack bound _ _ q.projection :=
    .nullable (fun n hn => h n (projection_mem_children hn)) hnull
  have hfetch : ReadsBack bound _ _ q.fetch :=
    .nullable (fun n _ => readsBack_uint64 n) fun _ => Json.noConfusion
  have hoffset : ReadsBack bound _ _ q.offset :=
    .nullable (fun n _ => readsBack_uint64 n) fun _ => Json.noConfusion
  refine ReadsBack.object (by simp) ?_ fun ns h => ?_
  · simp only [plainMembers, hfrom.isPlain, hwhere.isPlain, hgroupBy.isPlain, horderBy.isPlain,
      hselect.isPlain, hfetch.isPlain, hoffset.isPlain, Bool.and_self]
  · simp only [Clauses.ofJson?, fields?, Option.bind_eq_bind, Option.bind_some,
      h.default? "from" [] hfrom (by simp) (by simp [defaults, ofList]),
      h.default? "where" [] hwhere (by simp) (by simp [defaults, ofList]),
      h.optional? "group_by" hgroupBy (by simp) (by simp [defaults, hnull]),
      h.default? "order_by" [] horderBy (by simp) (by simp [defaults, ofList]),
      h.optional? "select" hselect (by simp) (by simp [defaults, hnull]),
      h.optional? "fetch" hfetch (by simp) (by simp [defaults]),
      h.optional? "offset" hoffset (by simp) (by simp [defaults])]

namespace Shape

/-- The values in a node itself. -/
def values : Shape ν → List Value
  | literal constant => [constant.value]
  | _ => []

/-- What belongs to a node is read back if its children are. -/
theorem readsBack_content {s : Shape ν} (h : ∀ n ∈ s.children, ReadsBack bound read (write n) n)
    (hnull : ∀ n, write n ≠ .null) (hvalues : ∀ v ∈ s.values, v.IsStorable) :
    ReadsBack bound (content? read s.name) (s.contentJson write) s := by
  cases s with
  | query q => exact (Clauses.readsBack h hnull).map query
  | table name =>
    have hname : ReadsBack bound _ _ name := readsBack_name name
    refine ReadsBack.object (by simp) (by simp [plainMembers, isPlain]) fun ns h => ?_
    simp only [Shape.name, content?, fields?, Option.bind_eq_bind, Option.bind_some,
      h.required? "name" hname (by simp) (by decide)]
  | row source => exact source.readsBack.map row
  | column source name =>
    have hsource : ReadsBack bound _ _ source := source.readsBack
    have hname : ReadsBack bound _ _ name := readsBack_name name
    refine ReadsBack.object (by simp) (by simp [plainMembers, hsource.isPlain, isPlain])
      fun ns h => ?_
    simp only [Shape.name, content?, fields?, Option.bind_eq_bind, Option.bind_some,
      h.required? "source" hsource (by simp) (by decide),
      h.required? "name" hname (by simp) (by decide)]
  | literal constant =>
    exact (Literal.readsBack (hvalues _ (List.mem_singleton_self _))).map literal
  | parameter index kind =>
    have hindex : ReadsBack bound _ _ index := readsBack_uint64 index
    have hkind : ReadsBack bound _ _ kind := kind.readsBack
    refine ReadsBack.object (by simp) (by simp [plainMembers, hindex.isPlain, hkind.isPlain])
      fun ns h => ?_
    simp only [Shape.name, content?, fields?, Option.bind_eq_bind, Option.bind_some,
      h.required? "index" hindex (by simp) (by decide),
      h.required? "kind" hkind (by simp) (by decide)]
  | apply function arguments =>
    have hfunction : ReadsBack bound _ _ function := function.readsBack
    have hargs : ReadsBack bound _ _ arguments := .list h
    refine ReadsBack.object (by simp) (by simp [plainMembers, hfunction.isPlain, hargs.isPlain])
      fun ns h => ?_
    simp only [Shape.name, content?, fields?, Option.bind_eq_bind, Option.bind_some,
      h.required? "function" hfunction (by simp) (by decide),
      h.required? "args" hargs (by simp) (by decide)]
  | cases branches otherwise =>
    have hbranch : ∀ b ∈ branches, ReadsBack bound
        (fun j => (j.pair? read read).map fun p => (⟨p.1, p.2⟩ : Branch ν))
        (twoItems (write b.condition) (write b.value)) b := by
      intro b hb
      have hcondition := h b.condition
        (List.mem_append_left _ (List.mem_flatMap.mpr ⟨b, hb, List.mem_cons_self⟩))
      have hvalue := h b.value
        (List.mem_append_left _ (List.mem_flatMap.mpr ⟨b, hb, List.mem_cons_of_mem _ (.head _)⟩))
      exact (hcondition.pair hvalue).map fun p => (⟨p.1, p.2⟩ : Branch ν)
    have hclauses : ReadsBack bound _ _ branches := .list hbranch
    have hotherwise : ReadsBack bound _ _ otherwise :=
      .nullable (fun n hn => h n (List.mem_append_right _ (by simp [hn]))) hnull
    refine ReadsBack.object (by simp) (by simp [plainMembers, hclauses.isPlain, hotherwise.isPlain])
      fun ns h => ?_
    simp only [Shape.name, content?, fields?, Option.bind_eq_bind, Option.bind_some,
      Fields.named?, Bool.false_eq_true, if_false,
      h.required? "clauses" hclauses (by simp) (by decide),
      h.optional? "otherwise" hotherwise (by simp) (by simp [defaults, hnull])]
  | product items =>
    have hitems : ReadsBack bound _ _ items := .list h
    exact hitems.map product
  | record fields =>
    have hfield : ∀ f ∈ fields, ReadsBack bound
        (fun j => (j.pair? string? read).map fun p => (⟨p.1, p.2⟩ : Field ν))
        (twoItems (.string f.name) (write f.value)) f := by
      intro f hf
      have hpair := (readsBack_name f.name).pair (h f.value (List.mem_map_of_mem hf))
      exact hpair.map fun p => (⟨p.1, p.2⟩ : Field ν)
    have hfields : ReadsBack bound _ _ fields := .list hfield
    exact hfields.map record
  | rowNumber keys =>
    have hkeys : ReadsBack bound _ _ keys :=
      .list fun k hk => SortKey.readsBack (h k.key (List.mem_map_of_mem hk))
    exact hkeys.map rowNumber
  | nextValue sequence => exact (readsBack_name sequence).map nextValue
  | currentValue sequence => exact (readsBack_name sequence).map currentValue

/-- So a node is read back, one level further up. -/
theorem readsBack {s : Shape ν} (h : ∀ n ∈ s.children, ReadsBack bound read (write n) n)
    (hnull : ∀ n, write n ≠ .null) (hvalues : ∀ v ∈ s.values, v.IsStorable) :
    ReadsBack (bound + 1) (ofJson? read) (s.toJson write) s := by
  exact (readsBack_content h hnull hvalues).tagged (Nat.le_refl _) s.isKept_name fun _ => rfl

end Shape
end

namespace Node

/-- The values in a tree. -/
def values : Node → List Value :=
  fold fun s => s.values ++ s.children.flatMap Prod.snd

theorem values_mk (s : Shape Node) : (mk s).values = s.values ++ s.children.flatMap values := by
  have hown : ∀ f : Node → Node × List Value, (s.map f).values = s.values := by
    intro f
    cases s <;> rfl
  rw [values, fold_mk, hown, Shape.children_map, List.flatMap_map]
  rfl

theorem toJson_ne_null (n : Node) : n.toJson ≠ .null := by
  obtain ⟨s⟩ := n
  rw [toJson_mk]
  exact Json.noConfusion

/-- A tree is read back, as deep as it is stored. -/
theorem readsBackWithin (n : Node) : (∀ v ∈ n.values, v.IsStorable) →
    ∀ levels, ReadsBack levels (ofJsonWithin? levels) n.toJson n := by
  induction n using Node.induct with
  | step s ih =>
    intro hvalues levels
    rw [values_mk, List.forall_mem_append] at hvalues
    have hchildren : ∀ n ∈ s.children, ∀ v ∈ n.values, v.IsStorable :=
      fun n hn v hv => hvalues.2 v (List.mem_flatMap.mpr ⟨n, hn, hv⟩)
    have hshape : ∀ levels, ReadsBack (levels + 1) (Shape.ofJson? (ofJsonWithin? levels))
        (s.toJson toJson) s := fun levels =>
      Shape.readsBack (fun n hn => ih n hn (hchildren n hn) levels) toJson_ne_null hvalues.1
    rw [toJson_mk]
    cases levels with
    | zero =>
      -- there is no document of depth zero
      refine ⟨(hshape 0).isPlain, fun j _ hdepth => ?_⟩
      have := j.depth_pos
      omega
    | succ levels => exact (hshape levels).map mk

theorem readsBack {n : Node} (h : ∀ v ∈ n.values, v.IsStorable) (bound : Nat) :
    ReadsBack bound ofJson? n.toJson n where
  isPlain := (n.readsBackWithin h 0).isPlain
  read_eq j hj _ := (n.readsBackWithin h j.depth).read_eq j hj (Nat.le_refl _)

end Node

namespace Query

/-- The values in a query. -/
def values (q : Query) : List Value :=
  q.children.flatMap Node.values

/-- A query is read back from its stored form. -/
theorem readsBack {q : Query} (h : ∀ v ∈ q.values, v.IsStorable) (bound : Nat) :
    ReadsBack bound ofJson? q.toJson q :=
  Clauses.readsBack (fun n hn => Node.readsBack (fun v hv => h v (List.mem_flatMap.mpr ⟨n, hn, hv⟩))
    bound) Node.toJson_ne_null

end Query

/-! ## Tables -/

namespace Schema

variable {bound : Nat}

theorem readsBack_names (names : List String) : ReadsBack bound names? (namesJson names) names :=
  .list fun s _ => readsBack_name s

theorem Action.readsBack (a : Action) :
    ReadsBack bound (choice? Action.ofName?) (.string a.name) a :=
  readsBack_string (by cases a <;> rfl)

theorem Column.readsBack {c : Column} (h : ∀ v, c.default = some v → v.IsStorable) :
    ReadsBack bound Column.ofJson? c.toJson c := by
  have hname : ReadsBack bound _ _ c.name := readsBack_name c.name
  have hkind : ReadsBack bound _ _ c.kind := c.kind.readsBack
  have hnullable : ReadsBack bound _ _ c.nullable := readsBack_bool c.nullable
  have hprimaryKey : ReadsBack bound _ _ c.primaryKey := readsBack_bool c.primaryKey
  have hautoIncrement : ReadsBack bound _ _ c.autoIncrement := readsBack_bool c.autoIncrement
  have hdefault : ReadsBack bound _ _ c.default :=
    .nullable (fun v hv => Value.readsBack (h v hv)) Value.toJson_ne_null
  have htypeName : ReadsBack bound _ _ c.typeName :=
    .nullable (fun s _ => readsBack_name s) fun _ => Json.noConfusion
  refine ReadsBack.object (by simp) ?_ fun ns h => ?_
  · simp only [plainMembers, hname.isPlain, hkind.isPlain, hnullable.isPlain, hprimaryKey.isPlain,
      hautoIncrement.isPlain, hdefault.isPlain, htypeName.isPlain, Bool.and_self]
  · simp only [Column.ofJson?, fields?, Option.bind_eq_bind, Option.bind_some,
      h.required? "name" hname (by simp) (by decide),
      h.required? "kind" hkind (by simp) (by decide),
      h.default? "nullable" false hnullable (by simp) (by simp [defaults]),
      h.default? "primary_key" false hprimaryKey (by simp) (by simp [defaults]),
      h.default? "auto_increment" false hautoIncrement (by simp) (by simp [defaults]),
      h.optional? "default" hdefault (by simp) (by simp [defaults, Value.toJson_ne_null]),
      h.optional? "db_type" htypeName (by simp) (by simp [defaults])]

theorem PrimaryKey.readsBack (k : PrimaryKey) : ReadsBack bound PrimaryKey.ofJson? k.toJson k := by
  have hname : ReadsBack bound _ _ k.name := readsBack_name k.name
  have hcolumns : ReadsBack bound _ _ k.columns := readsBack_names k.columns
  refine ReadsBack.object (by simp) (by simp [plainMembers, hname.isPlain, hcolumns.isPlain])
    fun ns h => ?_
  simp only [PrimaryKey.ofJson?, fields?, Option.bind_eq_bind, Option.bind_some,
    h.required? "name" hname (by simp) (by decide),
    h.required? "columns" hcolumns (by simp) (by decide)]

theorem ForeignKey.readsBack (k : ForeignKey) : ReadsBack bound ForeignKey.ofJson? k.toJson k := by
  have hname : ReadsBack bound _ _ k.name := readsBack_name k.name
  have hcolumns : ReadsBack bound _ _ k.columns := readsBack_names k.columns
  have htable : ReadsBack bound _ _ k.targetTable := readsBack_name k.targetTable
  have htargets : ReadsBack bound _ _ k.targetColumns := readsBack_names k.targetColumns
  have honUpdate : ReadsBack bound _ _ k.onUpdate := k.onUpdate.readsBack
  have honDelete : ReadsBack bound _ _ k.onDelete := k.onDelete.readsBack
  refine ReadsBack.object (by simp) ?_ fun ns h => ?_
  · simp only [plainMembers, hname.isPlain, hcolumns.isPlain, htable.isPlain, htargets.isPlain,
      honUpdate.isPlain, honDelete.isPlain, Bool.and_self]
  · simp only [ForeignKey.ofJson?, fields?, Option.bind_eq_bind, Option.bind_some,
      h.required? "name" hname (by simp) (by decide),
      h.required? "columns" hcolumns (by simp) (by decide),
      h.required? "target_table" htable (by simp) (by decide),
      h.required? "target_columns" htargets (by simp) (by decide),
      h.default? "on_update" .noAction honUpdate (by simp)
        (by cases k.onUpdate <;> simp [defaults, Action.name]),
      h.default? "on_delete" .noAction honDelete (by simp)
        (by cases k.onDelete <;> simp [defaults, Action.name])]

theorem Index.readsBack (i : Index) : ReadsBack bound Index.ofJson? i.toJson i := by
  have hname : ReadsBack bound _ _ i.name := readsBack_name i.name
  have hcolumns : ReadsBack bound _ _ i.columns := readsBack_names i.columns
  have hunique : ReadsBack bound _ _ i.unique := readsBack_bool i.unique
  refine ReadsBack.object (by simp) ?_ fun ns h => ?_
  · simp only [plainMembers, hname.isPlain, hcolumns.isPlain, hunique.isPlain, Bool.and_self]
  · simp only [Index.ofJson?, fields?, Option.bind_eq_bind, Option.bind_some,
      h.required? "name" hname (by simp) (by decide),
      h.required? "columns" hcolumns (by simp) (by decide),
      h.default? "unique" false hunique (by simp) (by simp [defaults])]

namespace Table

/-- The values in a table, which are the defaults of its columns. -/
def values (t : Table) : List Value :=
  t.columns.filterMap Column.default

/-- A table is read back from its stored form. -/
theorem readsBack {t : Table} (h : ∀ v ∈ t.values, v.IsStorable) :
    ReadsBack bound ofJson? t.toJson t := by
  have hname : ReadsBack bound _ _ t.name := readsBack_name t.name
  have hcolumns : ReadsBack bound _ _ t.columns := .list fun c hc =>
    Column.readsBack fun v hv => h v (List.mem_filterMap.mpr ⟨c, hc, hv⟩)
  have hprimaryKey : ReadsBack bound _ _ t.primaryKey :=
    .nullable (fun k _ => k.readsBack) fun _ => Json.noConfusion
  have hforeignKeys : ReadsBack bound _ _ t.foreignKeys := .list fun k _ => k.readsBack
  have hindexes : ReadsBack bound _ _ t.indexes := .list fun i _ => i.readsBack
  refine ReadsBack.object (by simp) ?_ fun ns h => ?_
  · simp only [plainMembers, hname.isPlain, hcolumns.isPlain, hprimaryKey.isPlain,
      hforeignKeys.isPlain, hindexes.isPlain, Bool.and_self]
  · simp only [Table.ofJson?, fields?, Option.bind_eq_bind, Option.bind_some,
      h.required? "name" hname (by simp) (by decide),
      h.required? "columns" hcolumns (by simp) (by decide),
      h.optional? "primary_key" hprimaryKey (by simp) (by simp [defaults, PrimaryKey.toJson]),
      h.default? "foreign_keys" [] hforeignKeys (by simp) (by simp [defaults, ofList]),
      h.default? "indexes" [] hindexes (by simp) (by simp [defaults, ofList])]

end Table

/-! ### Nesting -/

theorem nesting_ofList_le {α : Type} {write : α → Json} {l : List α} {n : Nat}
    (h : ∀ a ∈ l, (write a).nesting ≤ n) : (ofList write l).nesting ≤ n + 1 := by
  rw [ofList, nesting]
  refine Nat.succ_le_succ ?_
  induction l with
  | nil => exact Nat.zero_le n
  | cons a l ih =>
    rw [List.map_cons, nestingItems]
    exact Nat.max_le.mpr ⟨h a List.mem_cons_self, ih fun b hb => h b (List.mem_cons_of_mem _ hb)⟩

theorem nesting_ofOption_le {α : Type} {write : α → Json} {n : Nat}
    (h : ∀ a, (write a).nesting ≤ n) (o : Option α) : (ofOption write o).nesting ≤ n := by
  cases o with
  | none => exact Nat.zero_le n
  | some a => exact h a

theorem nesting_names_le (names : List String) : (namesJson names).nesting ≤ 1 :=
  nesting_ofList_le fun _ _ => Nat.le_refl 0

theorem nesting_value_le (v : Value) : v.toJson.nesting ≤ 2 := by
  cases v with
  | bytes bs =>
    have hbytes : (ofList (fun b : UInt8 => .int b.toNat) bs).nesting ≤ 1 :=
      nesting_ofList_le fun _ _ => Nat.le_refl 0
    simp only [Value.toJson, tagged, nesting, nestingMembers]
    omega
  | float x | double x =>
    simp only [Value.toJson, Value.finite]
    split <;> exact Nat.le_succ 1
  | null => exact Nat.zero_le 2
  | _ => exact Nat.le_succ 1

theorem Column.nesting_le (c : Column) : c.toJson.nesting ≤ 3 := by
  have hdefault := nesting_ofOption_le nesting_value_le c.default
  have htypeName := nesting_ofOption_le (fun s => Nat.le_refl (Json.string s).nesting) c.typeName
  simp only [Column.toJson, Kind.toJson, nesting, nestingMembers] at htypeName ⊢
  omega

theorem PrimaryKey.nesting_le (k : PrimaryKey) : k.toJson.nesting ≤ 2 := by
  have hcolumns := nesting_names_le k.columns
  simp only [PrimaryKey.toJson, nesting, nestingMembers]
  omega

theorem ForeignKey.nesting_le (k : ForeignKey) : k.toJson.nesting ≤ 2 := by
  have hcolumns := nesting_names_le k.columns
  have htargets := nesting_names_le k.targetColumns
  simp only [ForeignKey.toJson, nesting, nestingMembers]
  omega

theorem Index.nesting_le (i : Index) : i.toJson.nesting ≤ 2 := by
  have hcolumns := nesting_names_le i.columns
  simp only [Index.toJson, nesting, nestingMembers]
  omega

/-- A table is stored without much nesting. -/
theorem Table.nesting_le (t : Table) : t.toJson.nesting ≤ 5 := by
  have hcolumns := nesting_ofList_le fun c (_ : c ∈ t.columns) => c.nesting_le
  have hprimaryKey := nesting_ofOption_le PrimaryKey.nesting_le t.primaryKey
  have hforeignKeys := nesting_ofList_le fun k (_ : k ∈ t.foreignKeys) => k.nesting_le
  have hindexes := nesting_ofList_le fun i (_ : i ∈ t.indexes) => i.nesting_le
  simp only [Table.toJson, nesting, nestingMembers]
  omega

end Schema

/-! ## Texts -/

/-- Reads a query from a text. -/
def Query.ofText? (s : String) : Option Query :=
  (Json.read? s).bind Query.ofJson?

/-- Reads a table from a text. -/
def Schema.Table.ofText? (s : String) : Option Schema.Table :=
  (Json.read? s).bind Schema.Table.ofJson?

/-- What is read back from a document is read back from its text, if that is not nested too
deeply. -/
theorem Json.ReadsBack.read?_text {α : Type} {read : Json → Option α} {j j' : Json} {a : α}
    (h : ReadsBack j'.depth read j a) (hj : Sheds j j') (hnesting : j'.nesting ≤ Builder.maxDepth) :
    (Json.read? j'.text).bind read = some a := by
  rw [Json.read?_text (hj.isPlain h.isPlain), clip_eq_self hnesting, Option.bind_some,
    h.read_eq j' hj (Nat.le_refl _)]

/-- What is read as a whole is not read from a text that is nested too deeply. -/
theorem Json.ReadsWhole.read?_text {α : Type} {read : Json → Option α} {j j' : Json}
    (h : ReadsWhole read j) (hj : Sheds j j') (hplain : j.isPlain = true)
    (hnesting : Builder.maxDepth < j'.nesting) : (Json.read? j'.text).bind read = none := by
  rw [Json.read?_text (hj.isPlain hplain), Option.bind_some, h.deep j' _ hj hnesting]

/-- **Stored queries and tables are read back.**  A query or a table without floating-point values,
and with no value whose text denotes another one, is read from its stored form and from whatever is
left of that without default members.  A table is read from the text of such a document as well,
and so is a query if the document is not nested too deeply; otherwise no query is read from the
text. -/
theorem read_back_of_sheds :
    (∀ q : Query, (∀ v ∈ q.values, v.IsStorable) → ∀ j, Sheds q.toJson j →
      Query.ofJson? j = some q
        ∧ (j.nesting ≤ Builder.maxDepth → Query.ofText? j.text = some q)
        ∧ (Builder.maxDepth < j.nesting → Query.ofText? j.text = none)) ∧
    (∀ t : Schema.Table, (∀ v ∈ t.values, v.IsStorable) → ∀ j, Sheds t.toJson j →
      Schema.Table.ofJson? j = some t ∧ Schema.Table.ofText? j.text = some t) := by
  constructor
  · intro q hq j hj
    have hread := Query.readsBack hq j.depth
    exact ⟨hread.read_eq j hj (Nat.le_refl _), hread.read?_text hj,
      q.readsWhole.read?_text hj hread.isPlain⟩
  · intro t ht j hj
    have hread : ReadsBack j.depth _ _ t := Schema.Table.readsBack ht
    have hnesting : j.nesting ≤ Builder.maxDepth := calc
      j.nesting ≤ t.toJson.nesting := hj.nesting_le
      _ ≤ 5 := t.nesting_le
      _ ≤ Builder.maxDepth := by decide
    exact ⟨hread.read_eq j hj (Nat.le_refl _), hread.read?_text hj hnesting⟩

/-- A query for a constant with two places after its point. -/
def priceQuery : Query where
  generators := [⟨⟨0, 0⟩, .table "orders"⟩]
  projection := some (.typed .decimal (.decimal ⟨false, 110, 2, by decide, by decide⟩))

/-- A table with one column. -/
def priceTable : Schema.Table where
  name := "prices"
  columns := [{ name := "id", kind := .int }]

/-- A column, with its absolute value taken so many times over. -/
def absolutes : Nat → Node
  | 0 => .column ⟨0, 0⟩ "id"
  | n + 1 => .apply .abs [absolutes n]

/-- A query with one expression, in which calls are nested. -/
def absolutesQuery (n : Nat) : Query where
  generators := [⟨⟨0, 0⟩, .table "users"⟩]
  projection := some (absolutes n)

theorem values_absolutesQuery : (absolutesQuery 42).values = [] := by
  rfl

set_option maxRecDepth 4000 in
theorem nesting_absolutesQuery : Builder.maxDepth < (absolutesQuery 42).toJson.nesting := by
  decide

/-- A query and a table are read back without any of their default members, and a query with
forty-two nested calls is not read from its text. -/
theorem read_back_of_sheds_price :
    Query.ofText? (Json.text (.object [
      ("from", .array [.array [Symbol.toJson ⟨0, 0⟩,
        .tagged "Table" (.object [("name", .string "orders")])]]),
      ("select", .tagged "Literal" (.object [("kind", .string "decimal"),
        ("value", .tagged "Decimal" (.string "1.10"))]))])) = some priceQuery
    ∧ Query.ofText? (absolutesQuery 42).toJson.text = none
    ∧ Schema.Table.ofText? (Json.text (.object [("name", .string "prices"),
      ("columns", .array [.object [("name", .string "id"), ("kind", .string "int")]])]))
        = some priceTable := by
  have member : ∀ {i : Nat} {m : String × Json}, defaults[i]? = some m → m ∈ defaults :=
    List.mem_of_getElem?
  have hquery : ∀ v ∈ priceQuery.values, v.IsStorable := by
    intro v hv
    cases List.mem_singleton.mp hv
    exact ⟨rfl, rfl⟩
  have hnested : ∀ v ∈ (absolutesQuery 42).values, v.IsStorable := by
    rw [values_absolutesQuery]
    exact List.forall_mem_nil _
  have htable : ∀ v ∈ priceTable.values, v.IsStorable := by
    intro v hv
    cases hv
  have hliteral : ShedsMembers [("kind", .string "decimal"),
      ("value", .tagged "Decimal" (.string "1.10")), ("bind", .bool false)] _ :=
    .keep _ (.refl _) (.keep _ (.refl _) (.drop (member (i := 7) rfl) .nil))
  have hcolumn : ShedsMembers [("name", .string "id"), ("kind", .string "int"),
      ("nullable", .bool false), ("primary_key", .bool false), ("auto_increment", .bool false),
      ("default", .null), ("db_type", .null)] _ :=
    .keep _ (.refl _) (.keep _ (.refl _) (.drop (member (i := 11) rfl) (.drop (member (i := 12) rfl)
      (.drop (member (i := 13) rfl) (.drop (member (i := 14) rfl)
        (.drop (member (i := 15) rfl) .nil))))))
  refine ⟨(read_back_of_sheds.1 priceQuery hquery _ ?_).2.1 (by decide),
    (read_back_of_sheds.1 (absolutesQuery 42) hnested _ (.refl _)).2.2 nesting_absolutesQuery,
    (read_back_of_sheds.2 priceTable htable _ ?_).2⟩
  · exact .object (.keep _ (.refl _) (.drop (member (i := 1) rfl) (.drop (member (i := 2) rfl)
      (.drop (member (i := 3) rfl) (.keep _ (.object (.keep _ (.object hliteral) .nil))
        (.drop (member (i := 5) rfl) (.drop (member (i := 6) rfl) .nil)))))))
  · exact .object (.keep _ (.refl _) (.keep _ (.array (.cons (.object hcolumn) .nil))
      (.drop (member (i := 16) rfl) (.drop (member (i := 17) rfl)
        (.drop (member (i := 18) rfl) .nil)))))

/-- A query with forty-two nested calls has no values at all, and it is not read from the text of
its stored form. -/
theorem not_read_back_of_nested :
    (absolutesQuery 42).values = []
      ∧ Query.ofText? (absolutesQuery 42).toJson.text ≠ some (absolutesQuery 42) := by
  refine ⟨values_absolutesQuery, ?_⟩
  have hplain : (absolutesQuery 42).toJson.isPlain = true := by
    refine (Query.readsBack ?_ 0).isPlain
    rw [values_absolutesQuery]
    exact List.forall_mem_nil _
  have hnone := (absolutesQuery 42).readsWhole.read?_text (.refl _) hplain nesting_absolutesQuery
  rw [Query.ofText?, hnone]
  exact (Option.some_ne_none _).symm

end SqlCompiler
