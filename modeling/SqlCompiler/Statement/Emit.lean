import SqlCompiler.Query.Basic
import SqlCompiler.Statement.Piece

/-!
# Emission

Writing a statement is a computation with a state: the pieces written so far, the aliases of the
generators in scope, how deep in subqueries the writing is, and the number of rows that are left
to the caller to skip.  A failed step keeps what was written and bound before it failed.

## What is here

* `Context` and `Emit`.
* `Emit.piece`, `Emit.words`, `Emit.check` — single steps.
* `Emit.bindAlias`, `Emit.qualifierOf`, `Emit.withAliases` — the aliases of generators.
* `Emit.enter`, `Emit.leave` — subqueries.
-/

set_option autoImplicit false
namespace SqlCompiler

/-- The state of writing a statement. -/
structure Context where
  pieces : Array Piece := #[]
  /-- What stands for the rows of a generator. -/
  aliases : Symbol → Option Qualifier := fun _ => none
  /-- The number of aliases handed out. -/
  aliasCount : Nat := 0
  /-- The number of subqueries around what is being written. -/
  depth : Nat := 0
  skipRows : UInt64 := 0

namespace Context

/-- The text written so far. -/
def text (quote : Text.Quote) (c : Context) : String :=
  Piece.joined quote c.pieces.toList

/-- The setters of the placeholders written so far. -/
def setters (c : Context) : List Setter :=
  Piece.setters c.pieces.toList

/-- The context with another meaning for one symbol. -/
def withAlias (c : Context) (s : Symbol) (q : Option Qualifier) : Context :=
  { c with aliases := fun t => if t = s then q else c.aliases t }

end Context

/-- A step in writing a statement. -/
abbrev Emit := EStateM Error Context

namespace Emit

/-- Writes a piece. -/
def piece (p : Piece) : Emit Unit :=
  modify fun c => { c with pieces := c.pieces.push p }

/-- Writes words of the language. -/
def words (text : String) : Emit Unit :=
  piece (.words text)

/-- Goes on only if a check succeeds. -/
def check {α : Type} (e : Except Error α) : Emit α :=
  MonadExcept.ofExcept e

/-! ## Aliases -/

/-- Gives a generator the next alias, and answers it. -/
def bindAlias (s : Symbol) : Emit Qualifier := do
  let c ← get
  let q := Qualifier.numbered (c.aliasCount + 1)
  set { c.withAlias s (some q) with aliasCount := c.aliasCount + 1 }
  return q

/-- Lets a qualifier stand for the rows of a generator. -/
def bindQualifier (s : Symbol) (q : Qualifier) : Emit Unit :=
  modify (·.withAlias s (some q))

/-- What stands for the rows of a generator. -/
def qualifierOf (s : Symbol) : Emit Qualifier := do
  match (← get).aliases s with
  | some q => return q
  | none => throw (.malformed (.unbound s))

/-- What the given symbols stand for at the moment. -/
def saveAliases (symbols : List Symbol) : Emit (List (Symbol × Option Qualifier)) := do
  let c ← get
  return symbols.map fun s => (s, c.aliases s)

/-- Lets symbols stand for what they stood for before. -/
def restoreAliases (saved : List (Symbol × Option Qualifier)) : Emit Unit :=
  modify fun c => saved.foldl (fun c pair => c.withAlias pair.1 pair.2) c

/-- Gives each of the given symbols an alias while something is written. -/
def withAliases (symbols : List Symbol) (body : Emit Unit) : Emit Unit := do
  let saved ← saveAliases symbols
  symbols.forM fun s => discard (bindAlias s)
  body
  restoreAliases saved

/-! ## Subqueries -/

/-- Begins a subquery. -/
def enter : Emit Unit :=
  modify fun c => { c with depth := c.depth + 1 }

/-- Ends a subquery. -/
def leave : Emit Unit :=
  modify fun c => { c with depth := c.depth - 1 }

/-- Leaves it to the caller to skip rows. -/
def skipRows (n : UInt64) : Emit Unit :=
  modify fun c => { c with skipRows := n }

end Emit
end SqlCompiler
