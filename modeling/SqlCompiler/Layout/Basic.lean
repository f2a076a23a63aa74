import SqlCompiler.Dialect.Basic
import SqlCompiler.Layout.Datum
import SqlCompiler.Query.Equality

/-!
# Layouts

A layout says how a structured value lies in the columns of a row: a scalar takes one column, and
a record the columns of its fields one after the other.  The same layout reads a value from a row,
writes one back into it, and binds one to the parameters of a statement.

## What is here

* `Layout`, with `Layout.ofFields` for records and `Layout.fold`.
* `Layout.nodes` and `Layout.width` — the columns of a layout.
* `Layout.read`, `Layout.update`, `Layout.bind` — from and to the next columns.
* `Layout.readRow`, `Layout.updateRow`, `Layout.parameters` — whole rows.
* `Layout.readRows` and `Layout.collect` — many rows into one collection.
* `Layout.matchesProjection` — whether a projection yields the columns of a layout.
-/

set_option autoImplicit false
namespace SqlCompiler

/-- How a structured value lies in the columns of a row. -/
inductive Layout where
  /-- A scalar in one column. -/
  | column (node : Node) (kind : Kind) (nullable : Bool)
  /-- Fields one after the other. -/
  | record (fields : List Layout)

namespace Layout

/-- The greatest number of fields of a record. -/
def maxFields : Nat := 22

/-- A record of the given fields: at least one, and not too many. -/
def ofFields (fields : List Layout) : Except Error Layout :=
  if maxFields < fields.length then .error (.recordTooWide fields.length maxFields)
  else if fields.isEmpty then .error (.malformed .emptyRecord)
  else .ok (record fields)

section
variable {α : Type} (onColumn : Node → Kind → Bool → α) (onRecord : List α → α)

mutual
/-- Folds a layout from its columns. -/
def fold : Layout → α
  | column node kind nullable => onColumn node kind nullable
  | record fields => onRecord (foldFields fields)

/-- Folds the fields of a record. -/
def foldFields : List Layout → List α
  | [] => []
  | field :: fields => fold field :: foldFields fields
end

theorem foldFields_eq (fields : List Layout) :
    foldFields onColumn onRecord fields = fields.map (fold onColumn onRecord) := by
  induction fields with
  | nil => rfl
  | cons field fields ih => simp [foldFields, ih]

end

/-- The columns of a layout, in their order. -/
def nodes : Layout → List Node :=
  fold (fun node _ _ => [node]) List.flatten

/-- The number of columns: one for a scalar, and those of its fields for a record. -/
def width : Layout → Nat :=
  fold (fun _ _ _ => 1) fun widths => widths.foldr (· + ·) 0

variable (d : Dialect)

/-! ## Columns one after the other -/

/-- The scalar that a value is. -/
def scalarOf : Datum → Except Error Value
  | .scalar v => .ok v
  | v => .error (.malformed (.wrongShape "scalar" v.shapeName))

/-- The items of a record with so many fields. -/
def itemsOf (count : Nat) : Datum → Except Error (List Datum)
  | .record items =>
    if items.length = count then .ok items else .error (.columnCount count items.length)
  | v => .error (.malformed (.wrongShape "record" v.shapeName))

/-- Reads a value from the next columns of a row. -/
def read : Layout → RowStep Datum :=
  fold
    (fun _ kind nullable => do
      let column := d.types.column kind
      if nullable then return .scalar ((← column.nextOption).getD .null)
      else return .scalar (← column.next))
    (fun fields => do return .record (← fields.mapM id))

/-- Writes a value into the next columns of a row. -/
def update : Layout → Datum → RowStep Unit :=
  fold
    (fun _ kind nullable v => do
      let v ← MonadExcept.ofExcept (scalarOf v)
      let column := d.types.column kind
      if nullable then column.updateOption (some v) else column.update v)
    (fun fields v => do
      let items ← MonadExcept.ofExcept (itemsOf fields.length v)
      (fields.zip items).forM fun (field, item) => field item)

/-- Binds a value to the next parameters; without a value, a null to each. -/
def bind : Layout → Option Datum → Bind Unit :=
  fold
    (fun _ kind nullable v => do
      let column := d.types.column kind
      match v with
      | none => column.setOption none
      | some v =>
        let v ← MonadExcept.ofExcept (scalarOf v)
        if nullable then column.setOption (some v) else column.set v)
    (fun fields v => do
      match v with
      | none => fields.forM fun field => field none
      | some v =>
        let items ← MonadExcept.ofExcept (itemsOf fields.length v)
        (fields.zip items).forM fun (field, item) => field (some item))

/-! ## Whole rows -/

/-- Refuses a number of columns other than the layout's. -/
def checkWidth (l : Layout) (got : Nat) : Except Error Unit :=
  if l.width = got then .ok () else .error (.columnCount l.width got)

/-- Reads a value from all columns of a row. -/
def readRow (l : Layout) : RowStep Datum := do
  MonadExcept.ofExcept (l.checkWidth (← get).width)
  l.read d

/-- Writes a value into all columns of a row, where rows can be written. -/
def updateRow (l : Layout) (v : Datum) : RowStep Unit := do
  MonadExcept.ofExcept (d.require .mutableCursor)
  MonadExcept.ofExcept (l.checkWidth (← get).width)
  modify Row.rewind
  l.update d v

/-- The parameters that a value is bound to. -/
def parameters (l : Layout) (v : Option Datum) : Except Error Parameters :=
  match (l.bind d v).run [] with
  | .ok _ ps => .ok ps
  | .error e _ => .error e

/-- Reads a value from each row, up to the first that fails; answers the rows as they are left. -/
def readRows (l : Layout) : List Row → Except Error (List Datum) × List Row
  | [] => (.ok [], [])
  | row :: rows =>
    match (l.readRow d).run row with
    | .ok v row =>
      let (result, rows) := readRows l rows
      (result.map (v :: ·), row :: rows)
    | .error e row => (.error e, row :: rows)

/-- Which of the values read are kept. -/
inductive Keep where
  /-- All of them. -/
  | all
  /-- Of equal ones the first. -/
  | distinct
deriving DecidableEq, Repr

/-- Reads a collection, one value from each row; answers the rows as they are left. -/
def collect (l : Layout) (keep : Keep) (rows : List Row) : Except Error Datum × List Row :=
  let (result, rows) := l.readRows d rows
  let kept := result.map fun items =>
    match keep with
    | .all => .collection items
    | .distinct => .collection (Datum.distinct items)
  (kept, rows)

/-! ## Projections -/

/-- The columns that a projection yields. -/
def columnsOf (projection : Node) : List Node :=
  match projection.shape with
  | .product items => items
  | .record fields => fields.map Field.value
  | _ => [projection]

/-- Checks that a projection yields the columns of a layout, position by position. -/
def matchesProjection (l : Layout) (projection : Node) : Except Error Unit := do
  let columns := columnsOf projection
  l.checkWidth columns.length
  match (l.nodes.zip columns).findIdx? fun (a, b) => !a.same b with
  | some i => throw (.malformed (.columnMismatch i))
  | none => return ()

end Layout
end SqlCompiler
