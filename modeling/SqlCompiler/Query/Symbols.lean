import SqlCompiler.Query.Basic

/-!
# The symbols of a tree

Which symbols a tree mentions, as binders or as references, and a symbol table that stays clear of
all of them.

## What is here

* `Node.symbols`, `Query.symbols` — every symbol, a generator's after those of its source.
* `Node.references` — the symbols referred to, not those bound.
* `SymbolTable.aboveNode`, `SymbolTable.aboveQuery` — a table whose symbols are new to the tree.
-/

set_option autoImplicit false
namespace SqlCompiler

namespace Clauses

/-- The symbols of a query, given those of its children: for each generator those of its source
and then its own, after them those of the other clauses. -/
def symbolsLayer {ν : Type} (symbols : ν → List Symbol) (q : Clauses ν) : List Symbol :=
  (q.generators.flatMap fun g => symbols g.source ++ [g.binder]) ++ q.expressions.flatMap symbols

end Clauses

namespace Node

/-- Every symbol bound or referred to in a tree, in the order of its text. -/
def symbols : Node → List Symbol :=
  fold fun s => match s with
    | .query q => q.symbolsLayer Prod.snd
    | .row source => [source]
    | .column source _ => [source]
    | s => s.children.flatMap Prod.snd

/-- The symbols referred to in a tree, in the order of its text. -/
def references : Node → List Symbol :=
  fold fun s => match s with
    | .row source => [source]
    | .column source _ => [source]
    | s => s.children.flatMap Prod.snd

end Node

namespace Query

/-- Every symbol bound or referred to in a query. -/
def symbols (q : Query) : List Symbol :=
  q.symbolsLayer Node.symbols

end Query

namespace SymbolTable

/-- A table whose symbols occur nowhere in a tree. -/
def aboveNode (n : Node) : SymbolTable :=
  above n.symbols

/-- A table whose symbols occur nowhere in a query. -/
def aboveQuery (q : Query) : SymbolTable :=
  above (Query.symbols q)

end SymbolTable
end SqlCompiler
