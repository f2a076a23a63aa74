import SqlCompiler.Error
import SqlCompiler.Scalar.Value

/-!
# Rows and parameters

Columns are read from a row, and parameters bound to a statement, one after the other.  A row keeps
the position of the next cell; parameters are kept in the order in which they are bound.  A failed
step leaves both where they had got to.

## What is here

* `Row`, with `Row.next` and `Row.update`.
* `Parameter`, and `Parameters` with `Parameters.add` and `Parameters.toRow`.
-/

set_option autoImplicit false
namespace SqlCompiler

/-- A row of cells, and the position of the next one. -/
structure Row where
  cells : List Value
  position : Nat := 0
deriving DecidableEq

/-- A step on a row. -/
abbrev RowStep := EStateM Error Row

namespace Row

/-- The number of cells. -/
def width (r : Row) : Nat :=
  r.cells.length

/-- The error for a step beyond the last cell. -/
def overrun (r : Row) : Error :=
  .columnCount (r.position + 1) r.width

/-- Reads the next cell. -/
def next : RowStep Value := do
  let r ← get
  match r.cells[r.position]? with
  | some cell =>
    set { r with position := r.position + 1 }
    return cell
  | none => throw r.overrun

/-- Replaces the next cell. -/
def update (v : Value) : RowStep Unit := do
  let r ← get
  if r.position < r.width then
    set { cells := r.cells.set r.position v, position := r.position + 1 : Row }
  else throw r.overrun

/-- The row from its first cell on. -/
def rewind (r : Row) : Row :=
  { r with position := 0 }

end Row

/-- A bound parameter: a value, or a null of the type with the given code. -/
inductive Parameter where
  | value (v : Value)
  | null (code : Int32)
deriving DecidableEq

namespace Parameter

/-- Whether a null is bound. -/
def isNull : Parameter → Bool
  | value v => v.isNull
  | null _ => true

/-- The bound value. -/
def toValue : Parameter → Value
  | value v => v
  | null _ => .null

end Parameter

/-- The parameters bound so far. -/
abbrev Parameters := List Parameter

/-- A step that binds parameters. -/
abbrev Bind := EStateM Error Parameters

namespace Parameters

/-- Binds one more parameter. -/
def add (p : Parameter) : Bind Unit :=
  modify (· ++ [p])

/-- The number of nulls. -/
def nullCount (ps : Parameters) : Nat :=
  ps.countP Parameter.isNull

/-- The row that holds the bound values. -/
def toRow (ps : Parameters) : Row :=
  { cells := ps.map Parameter.toValue }

end Parameters

/-- The outcome of a step, without the state it leaves. -/
def outcome {σ α : Type} : EStateM.Result Error σ α → Except Error α
  | .ok a _ => .ok a
  | .error e _ => .error e

/-- The state that a step leaves, whether it failed or not. -/
def after {σ α : Type} : EStateM.Result Error σ α → σ
  | .ok _ s => s
  | .error _ s => s

end SqlCompiler
