import SqlCompiler.Scalar.Value

/-!
# Structured values

What a row stands for: a scalar, a record of values, or a collection of them.
-/

set_option autoImplicit false
namespace SqlCompiler

/-- A structured value. -/
inductive Datum where
  | scalar (v : Value)
  | record (items : List Datum)
  | collection (items : List Datum)

namespace Datum

/-- Whether a value is the scalar null. -/
def isNull : Datum → Bool
  | scalar v => v.isNull
  | _ => false

/-- The name of the shape of a value. -/
def shapeName : Datum → String
  | scalar _ => "scalar"
  | record _ => "record"
  | collection _ => "collection"

mutual
/-- Equality of structured values: of one shape, and the same scalars in it. -/
def same : Datum → Datum → Bool
  | scalar a, scalar b => a.same b
  | record as, record bs => sameItems as bs
  | collection as, collection bs => sameItems as bs
  | _, _ => false

/-- Equality of lists of structured values. -/
def sameItems : List Datum → List Datum → Bool
  | [], [] => true
  | a :: as, b :: bs => same a b && sameItems as bs
  | _, _ => false
end

/-- The values that are new when they come up, in their order. -/
def distinct (items : List Datum) : List Datum :=
  items.foldl (fun kept item => if kept.any (same · item) then kept else kept ++ [item]) []

end Datum
end SqlCompiler
