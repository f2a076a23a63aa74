import SqlCompiler.Error
import SqlCompiler.Query.Symbols

/-!
# Paging by row numbers

A database that can only cut off a result, but not skip rows, is given a query that numbers its
rows: the query becomes the source of another one, which keeps the rows with the wanted numbers.

```
select ⟨columns⟩ from (select ⟨columns⟩, row_number() over(order by …) as rownum …) p
where p.rownum > d and p.rownum <= d + t order by p.rownum
```

The outer query lists the columns of the inner one by name, so there has to be a projection of
named or nameable columns.  The construction is written for any type of nodes that can be taken
apart and put together; `Query.numberRows` is the case of plain trees.
-/

set_option autoImplicit false
namespace SqlCompiler

/-- How the nodes of a type are taken apart and put together. -/
structure Tree (ν : Type) where
  shape : ν → Shape ν
  make : Shape ν → ν

/-- Plain query trees. -/
def Tree.plain : Tree Node := ⟨Node.shape, Node.mk⟩

namespace RowNumbering

variable {ν : Type}

/-- The name of the column with the row numbers. -/
def numberColumn : String := "rownum"

/-- The name of an unnamed column, by its position from zero. -/
def positionName (i : Nat) : String :=
  "c" ++ toString (i + 1)

/-- The columns of the inner query, and the projection of the outer one that lists them. -/
def columns (t : Tree ν) (outer : Symbol) (projection : Option ν) :
    Except Construct (List (Field ν) × ν) :=
  let isRow (n : ν) := (t.shape n).isRow
  let listed (name : String) := t.make (.column outer name)
  match projection with
  | none => .error .pagingWithoutProjection
  | some p =>
    match t.shape p with
    | .row _ => .error .pagingWithoutProjection
    | .record fields =>
      if fields.any fun f => isRow f.value then .error .pagingWholeRow
      else .ok (fields, t.make (.record (fields.map fun f => ⟨f.name, listed f.name⟩)))
    | .product items =>
      if items.any isRow then .error .pagingWholeRow
      else
        let fields := items.mapIdx fun i n => ⟨positionName i, n⟩
        .ok (fields, t.make (.product (fields.map fun f => listed f.name)))
    | _ => .ok ([⟨positionName 0, p⟩], listed (positionName 0))

/-- A row number as a constant; row numbers are signed and have 64 bits. -/
def bound (t : Tree ν) (n : Nat) : Except Error ν :=
  if (n : Int) ≤ Int64.maxValue.toInt then
    .ok (t.make (.literal { kind := .long, value := .long (Int64.ofNat n) }))
  else .error (.malformed (.rowBound n))

/-- The number of the last row wanted. -/
def lastRow (fetch offset : UInt64) : Except Error Nat :=
  if offset.toNat + fetch.toNat < UInt64.size then .ok (offset.toNat + fetch.toNat)
  else .error (.malformed (.pageOverflow fetch.toNat offset.toNat))

/-- The query with its rows numbered and nothing skipped. -/
def inner (t : Tree ν) (fields : List (Field ν)) (q : Clauses ν) : Clauses ν :=
  let numbered := fields ++ [⟨numberColumn, t.make (.rowNumber q.orderBy)⟩]
  { generators := q.generators
    filters := q.filters
    groupBy := q.groupBy
    projection := some (t.make (.record numbered)) }

/-- The query that keeps the rows of the page, with `outer` for the numbered rows. -/
def page (t : Tree ν) (outer : Symbol) (dialect : String) (q : Clauses ν) :
    Except Error (Clauses ν) := do
  let offset := q.offset.getD 0
  let (fields, projection) ← (columns t outer q.projection).mapError (.unsupported · dialect)
  let number := t.make (.column outer numberColumn)
  let after ← bound t offset.toNat
  let until_ ← q.fetch.mapM fun fetch => do bound t (← lastRow fetch offset)
  let compare (f : Function) (limit : ν) := t.make (.apply f [number, limit])
  return {
    generators := [⟨outer, t.make (.query (inner t fields q))⟩]
    filters := compare .gt after :: until_.toList.map (compare .le)
    orderBy := [⟨number, .ascending⟩]
    projection := some projection }

end RowNumbering

namespace Query

/-- A symbol that does not occur in a query. -/
def freshSymbol (q : Query) : Symbol :=
  ((SymbolTable.aboveQuery q).fresh "paged").1

/-- The query that skips its rows by numbering them. -/
def numberRows (dialect : String) (q : Query) : Except Error Query :=
  RowNumbering.page .plain (freshSymbol q) dialect q

end Query
end SqlCompiler
