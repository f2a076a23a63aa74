import SqlCompiler.Statement.Emit

/-!
# Scripts

What is written for a tree does not depend on what was written before it, except for the aliases
of the generators in scope and for whether it stands in a subquery.  So it is a script first: a
tree of plain instructions, which is run afterwards.  Everything that can go wrong is in the
script as a check at the place where it goes wrong.

## What is here

* `Script` and `Script.run`.
* `Script.words`, `Script.name`, `Script.fail`, … — scripts of one instruction.
* `Script.separated`, `Script.spelled` — several scripts with texts between them.
-/

set_option autoImplicit false
namespace SqlCompiler

/-- Instructions for writing a part of a statement. -/
inductive Script where
  | done
  | piece (p : Piece)
  /-- What stands for the rows of a generator, where they are referred to. -/
  | reference (s : Symbol)
  /-- A blank and what stands for the rows of a generator, behind its source. -/
  | sourceAlias (s : Symbol)
  /-- Goes on only if the check succeeded. -/
  | check (e : Except Error Unit)
  /-- Goes on inside a subquery only if the check succeeded. -/
  | checkNested (e : Except Error Unit)
  /-- Leaves it to the caller to skip rows. -/
  | skipRows (n : UInt64)
  | append (first second : Script)
  /-- Gives each of the symbols an alias for as long as the body is written. -/
  | scope (symbols : List Symbol) (body : Script)
  /-- One level of subqueries deeper. -/
  | deeper (body : Script)

namespace Script

instance : Append Script := ⟨append⟩

/-- Carries out the instructions. -/
def run : Script → Emit Unit
  | done => pure ()
  | piece p => Emit.piece p
  | reference s => do
    let q ← Emit.qualifierOf s
    Emit.piece (.qualifier q)
  | sourceAlias s => do
    let q ← Emit.qualifierOf s
    Emit.words " "
    Emit.piece (.qualifier q)
  | check e => Emit.check e
  | checkNested e => do
    if 0 < (← get).depth then Emit.check e
  | skipRows n => Emit.skipRows n
  | append first second => do
    first.run
    second.run
  | scope symbols body => Emit.withAliases symbols body.run
  | deeper body => do
    Emit.enter
    body.run
    Emit.leave

/-! ## Single instructions -/

/-- Words of the language. -/
def words (text : String) : Script :=
  piece (.words text)

/-- Words of the language, unless there are none. -/
def wordsIfAny (text : String) : Script :=
  if text.isEmpty then done else words text

/-- A quoted name. -/
def name (n : String) : Script :=
  piece (.name n)

/-- A placeholder. -/
def placeholder (column : ColumnType) (source : Source) : Script :=
  piece (.placeholder ⟨column, source⟩)

/-- A script that fails. -/
def fail (e : Error) : Script :=
  check (.error e)

/-- Goes on with the result of a computation, or fails with its error. -/
def checked {α : Type} (result : Except Error α) (body : α → Script) : Script :=
  match result with
  | .ok a => body a
  | .error e => fail e

/-! ## Lists -/

/-- Scripts one after the other. -/
def each : List Script → Script
  | [] => done
  | item :: rest => item ++ each rest

/-- Scripts, each after a text. -/
def eachAfter (separator : String) (items : List Script) : Script :=
  each (items.map (words separator ++ ·))

/-- Scripts with a text between any two of them. -/
def separated (separator : String) : List Script → Script
  | [] => done
  | item :: rest => item ++ eachAfter separator rest

/-- The arguments of a function with the words of its spelling between them. -/
def argumentList (s : Spelling) : List Script → Script
  | [] => done
  | [a] => a
  | a :: b :: rest => a ++ words s.first ++ b ++ eachAfter s.next rest

/-- The application of a function in its spelling. -/
def spelled (s : Spelling) (arguments : List Script) : Script :=
  words s.opening ++ argumentList s arguments ++ wordsIfAny s.closing

end Script
end SqlCompiler
