import SqlCompiler.Query.RowNumbering
import SqlCompiler.Statement.Script

/-!
# Rendering queries

How a dialect writes each node of a query tree.  A `Rendering` is a node together with the script
that writes it as an expression; it keeps the renderings of its children, because a projection is
written from its columns and not as an expression.  Every function here describes one layer of a
tree in terms of the renderings of its children, and `Node.rendering` carries them to whole trees.

A query that has to number its rows is replaced by another one first.  The two levels of that
query skip no rows themselves, so they are written as they are: the replacement happens once for
each query that skips rows.

## What is here

* `Rendering` and `Node.rendering`.
* The clauses of a query: `Script.modifiers`, `select`, `from_`, `filters`, `groupBy`, `orderBy`,
  `paging`, and `Script.query` for all of them.
* `Script.shape` — any node as an expression.
* `Render.select`, … — single clauses and terms as steps of a computation.
-/

set_option autoImplicit false
namespace SqlCompiler

/-- A node together with the script that writes it as an expression. -/
inductive Rendering where
  | mk (script : Script) (shape : Shape Rendering)

namespace Rendering

/-- The script that writes the node as an expression. -/
def script : Rendering → Script
  | mk script _ => script

/-- The node, with renderings for children. -/
def shape : Rendering → Shape Rendering
  | mk _ shape => shape

/-- Writes the node as an expression. -/
def write (r : Rendering) : Emit Unit :=
  r.script.run

end Rendering

/-- Refuses a number of arguments that the function does not take. -/
def Function.checkArity (f : Function) (count : Nat) : Except Error Unit :=
  if f.arity.accepts count then .ok () else .error (.malformed (.argumentCount f count))

/-- The error for something that the dialect cannot write. -/
def Render.unsupported (d : Dialect) (construct : Construct) : Error :=
  .unsupported construct d.name

namespace Script

variable (d : Dialect)

/-! ## Clauses -/

/-- A column of a projection; the whole row of a generator stands for all its columns. -/
def item (r : Rendering) : Script :=
  match r.shape with
  | .row source => reference source ++ words ".*"
  | _ => r.script

/-- A named column of a projection; a whole row has no name. -/
def field (f : Field Rendering) : Script :=
  item f.value
    ++ if f.value.shape.isRow then done else words " as " ++ name f.name

/-- The sum of the rows to fetch and to skip. -/
def topRows (fetch offset : UInt64) : Except Error Nat :=
  if fetch.toNat + offset.toNat < UInt64.size then .ok (fetch.toNat + offset.toNat)
  else .error (.malformed (.pageOverflow fetch.toNat offset.toNat))

/-- What stands between the keyword and the projection: the number of topmost rows. -/
def modifiers (q : Clauses Rendering) : Script :=
  match d.paging, q.fetch with
  | .top, some fetch =>
    let offset := q.offset.getD 0
    checked (topRows fetch offset) fun rows =>
      words ("top " ++ toString rows ++ " ") ++ if 0 < offset then skipRows offset else done
  | .numbered, some fetch =>
    if q.offset.isNone then words ("top " ++ toString fetch.toNat ++ " ") else done
  | _, _ => done

/-- The projection. -/
def select (q : Clauses Rendering) : Script :=
  match q.projection with
  | none =>
    if q.generators.length = 1 then words "*"
    else fail (.malformed (.noProjection q.generators.length))
  | some p =>
    match p.shape with
    | .record fields => separated ", " (fields.map field)
    | .product items => separated ", " (items.map item)
    | _ => item p

/-- The source of a generator. -/
def source (r : Rendering) : Script :=
  match r.shape with
  | .table name => Script.name name
  | .query _ => r.script
  | s => fail (Render.unsupported d (.generatorSource s.name))

/-- A generator: its source and its alias. -/
def generator (g : Generator Rendering) : Script :=
  source d g.source ++ sourceAlias g.binder

/-- The generators. -/
def from_ (q : Clauses Rendering) : Script :=
  match q.generators with
  | [] => wordsIfAny d.emptyFrom
  | generators => words " from " ++ separated ", " (generators.map (generator d))

/-- The filters.  Every condition is written in parentheses or is a single term, so that the
conjunction needs none. -/
def filters (q : Clauses Rendering) : Script :=
  match q.filters with
  | [] => done
  | filters => words " where " ++ separated " and " (filters.map Rendering.script)

/-- The group key. -/
def groupBy (q : Clauses Rendering) : Script :=
  match q.groupBy with
  | none => done
  | some key =>
    words " group by "
      ++ match key.shape with
        | .product items => separated ", " (items.map Rendering.script)
        | _ => key.script

/-- An ordering key, with another one before it if nulls have to be moved by hand. -/
def sortKey (k : SortKey Rendering) : Script :=
  (match d.nullKeys.extraKey? k.order.nulls with
    | some (before, behind) => words before ++ k.key.script ++ words behind
    | none => done)
  ++ k.key.script
  ++ (if k.order.isDescending then words " desc" else done)
  ++ wordsIfAny (d.nullKeys.suffix k.order.nulls)

/-- The ordering keys. -/
def sortKeys (keys : List (SortKey Rendering)) : Script :=
  separated ", " (keys.map (sortKey d))

/-- The order. -/
def orderBy (q : Clauses Rendering) : Script :=
  match q.orderBy with
  | [] => done
  | keys => words " order by " ++ sortKeys d keys

/-- The text of the last clause: the rows to fetch and to skip. -/
def pagingText (paging : Paging) (fetch offset : Option Nat) : String :=
  match paging, fetch, offset with
  | .limit _, some t, some d => " limit " ++ toString t ++ " offset " ++ toString d
  | .limit _, some t, none => " limit " ++ toString t
  | .limit (some unbounded), none, some d => " limit " ++ unbounded ++ " offset " ++ toString d
  | .limit none, none, some d => " offset " ++ toString d
  | .rows, some t, some d =>
    " offset " ++ toString d ++ " rows fetch next " ++ toString t ++ " rows only"
  | .rows, some t, none => " fetch next " ++ toString t ++ " rows only"
  | .rows, none, some d => " offset " ++ toString d ++ " rows"
  | _, _, _ => ""

/-- The rows to fetch and to skip, where they are asked for at the end. -/
def paging (q : Clauses Rendering) : Script :=
  wordsIfAny (pagingText d.paging (q.fetch.map UInt64.toNat) (q.offset.map UInt64.toNat))

/-- Refuses a paged query where the dialect has no paging of that sort. -/
def checkPaging (q : Clauses Rendering) : Script :=
  if q.isPaged then
    checkNested (d.require .pagingNested)
      ++ if q.fetch.isNone then check (d.require .pagingDrop) else done
  else done

/-- What is written for a query, clause by clause. -/
def body (q : Clauses Rendering) : Script :=
  words "select " ++ modifiers d q ++ select q ++ from_ d q ++ filters q ++ groupBy q
    ++ orderBy d q ++ paging d q

/-- A query, clause by clause. -/
def clauses (q : Clauses Rendering) : Script :=
  checkPaging d q ++ scope q.binders (body d q)

/-! ## Expressions -/

/-- Something in parentheses, one level deeper. -/
def subquery (body : Script) : Script :=
  words "(" ++ deeper body ++ words ")"

/-- A constant: a placeholder, or its text. -/
def literal (c : Literal) : Script :=
  let column := d.types.column c.kind
  if c.bind then
    checked (column.toCell c.value) fun _ => placeholder column (.constant c.value)
  else if c.kind = .blob ∧ !c.value.isNull then fail (Render.unsupported d .inlineBlob)
  else checked (column.inline c.value) fun text => piece (.constant text)

/-- Refuses an existence test of anything but a subquery. -/
def checkSubquery (f : Function) (arguments : List (Shape Rendering)) : Except Error Unit :=
  match f, arguments with
  | .hasRows, [.query _] => .ok ()
  | .hasRows, s :: _ => .error (.malformed (.notASubquery s.name))
  | _, _ => .ok ()

/-- The application of a function. -/
def apply (f : Function) (arguments : List Rendering) : Script :=
  check (f.checkArity arguments.length)
    ++ (match f.capability? arguments.length with
      | some c => check (d.require c)
      | none => done)
    ++ check (checkSubquery f (arguments.map Rendering.shape))
    ++ spelled (d.spelling f) (arguments.map Rendering.script)

/-- A branch of a conditional. -/
def branch (b : Branch Rendering) : Script :=
  b.condition.script ++ words d.conditional.value ++ b.value.script

/-- A conditional. -/
def conditional (branches : List (Branch Rendering)) (otherwise : Option Rendering) : Script :=
  if branches.isEmpty then fail (.malformed .emptyCase)
  else
    words d.conditional.opening
      ++ wordsIfAny d.conditional.first
      ++ separated d.conditional.next (branches.map (branch d))
      ++ (match otherwise with
        | some r => words d.conditional.otherwise ++ r.script
        | none => done)
      ++ words d.conditional.closing

/-- The number of a row in an order. -/
def rowNumber (keys : List (SortKey Rendering)) : Script :=
  if d.numbersRows then
    words "row_number() over(order by "
      ++ (if keys.isEmpty then words "(select 1)" else sortKeys d keys)
      ++ words ")"
  else fail (Render.unsupported d .rowNumber)

/-- The name of a sequence between two texts. -/
def sequenceCall (opening sequence : String) : Script :=
  words opening
    ++ piece (if d.sequences.asText then .nameText sequence else .name sequence)
    ++ words d.sequences.closing

/-- The next value of a sequence. -/
def nextValue (sequence : String) : Script :=
  sequenceCall d d.sequences.next sequence

/-- The current value of a sequence. -/
def currentValue (sequence : String) : Script :=
  sequenceCall d d.sequences.current sequence

/-- A node as an expression, given how queries are written. -/
def shape (onQuery : Clauses Rendering → Script) (s : Shape Rendering) : Script :=
  match s with
  | .query q => subquery (onQuery q)
  | .column source name => reference source ++ words "." ++ Script.name name
  | .literal c => literal d c
  | .parameter index kind => placeholder (d.types.column kind) (.argument index.toNat)
  | .apply f arguments => apply d f arguments
  | .cases branches otherwise => conditional d branches otherwise
  | .rowNumber keys => rowNumber d keys
  | .nextValue sequence => check (d.require .sequence) ++ nextValue d sequence
  | .currentValue sequence =>
    check (d.require .sequence) ++ check (d.require .sequenceCurr) ++ currentValue d sequence
  | .table _ | .row _ | .product _ | .record _ => fail (Render.unsupported d (.expression s.name))

/-- Renderings whose queries are written clause by clause. -/
def plainTree : Tree Rendering where
  shape := Rendering.shape
  make s := .mk (shape d (clauses d) s) s

/-- A query, given the renderings of its children.  Where rows can only be skipped by numbering
them, a query that skips rows is replaced by one that numbers them. -/
def query (q : Query) (r : Clauses Rendering) : Script :=
  if d.paging = .numbered ∧ r.offset.isSome then
    checked (RowNumbering.page (plainTree d) (Query.freshSymbol q) d.name r) (clauses d)
  else clauses d r

/-- The rendering of a node, given those of its children. -/
def layer (s : Shape (Node × Rendering)) : Rendering :=
  let plain := s.map Prod.fst
  let rendered := s.map Prod.snd
  let onQuery r :=
    match plain with
    | .query q => query d q r
    | _ => clauses d r
  .mk (shape d onQuery rendered) rendered

end Script

/-- How a dialect writes a tree. -/
def Node.rendering (d : Dialect) : Node → Rendering :=
  Node.fold (Script.layer d)

/-- The script that writes a tree as an expression. -/
def Node.script (d : Dialect) (n : Node) : Script :=
  (n.rendering d).script

/-- How a dialect writes the children of a query. -/
def Query.rendering (d : Dialect) (q : Query) : Clauses Rendering :=
  q.map (Node.rendering d)

/-- The script that writes a query. -/
def Query.script (d : Dialect) (q : Query) : Script :=
  Script.query d q (Query.rendering d q)

/-- Writes a query. -/
def Query.write (d : Dialect) (q : Query) : Emit Unit :=
  (Query.script d q).run

/-! ## Single clauses and terms -/

namespace Render

variable (d : Dialect)

/-- Writes what stands before the projection. -/
def modifiers (q : Clauses Rendering) : Emit Unit := (Script.modifiers d q).run

/-- Writes the projection. -/
def select (q : Clauses Rendering) : Emit Unit := (Script.select q).run

/-- Writes the generators. -/
def from_ (q : Clauses Rendering) : Emit Unit := (Script.from_ d q).run

/-- Writes the filters. -/
def filters (q : Clauses Rendering) : Emit Unit := (Script.filters q).run

/-- Writes the group key. -/
def groupBy (q : Clauses Rendering) : Emit Unit := (Script.groupBy q).run

/-- Writes the order. -/
def orderBy (q : Clauses Rendering) : Emit Unit := (Script.orderBy d q).run

/-- Writes the rows to fetch and to skip. -/
def paging (q : Clauses Rendering) : Emit Unit := (Script.paging d q).run

/-- Writes an ordering key. -/
def sortKey (k : SortKey Rendering) : Emit Unit := (Script.sortKey d k).run

/-- Writes a constant. -/
def literal (c : Literal) : Emit Unit := (Script.literal d c).run

/-- Writes the number of a row in an order. -/
def rowNumber (keys : List (SortKey Rendering)) : Emit Unit := (Script.rowNumber d keys).run

/-- Writes the next value of a sequence. -/
def nextValue (sequence : String) : Emit Unit := (Script.nextValue d sequence).run

/-- Writes the current value of a sequence. -/
def currentValue (sequence : String) : Emit Unit := (Script.currentValue d sequence).run

end Render
end SqlCompiler
