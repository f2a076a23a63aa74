import SqlCompiler.Error
import SqlCompiler.Query.Basic

/-!
# Scopes

A symbol may be referred to where a generator binds it: the source of a generator sees the
generators before it, every other clause sees all generators of its query, and both see whatever
is in scope where the query stands.  No query binds a symbol twice, but a query may bind a symbol
of an enclosing one again.

## What is here

* `Node.checkScope` — the check of one tree in a scope, and of a query's clauses.
* `Query.checkScope` — the check of a whole statement, which stands in the empty scope.
-/

set_option autoImplicit false
namespace SqlCompiler

/-- The check of a tree in a scope. -/
abbrev ScopeCheck := List Symbol → Except Error Unit

namespace Clauses

variable {ν : Type}

/-- Checks the generators from left to right, and answers the symbols they bind.  A source is
checked before its own symbol is compared with those already bound. -/
def checkGenerators (check : ν → ScopeCheck) (scope : List Symbol) :
    List Symbol → List (Generator ν) → Except Error (List Symbol)
  | bound, [] => .ok bound
  | bound, g :: gs => do
    check g.source (bound ++ scope)
    if g.binder ∈ bound then throw (.malformed (.boundTwice g.binder))
    checkGenerators check scope (g.binder :: bound) gs

/-- Checks the generators and then the other clauses in their sight. -/
def checkScopeLayer (check : ν → ScopeCheck) (q : Clauses ν) : ScopeCheck := fun scope => do
  let bound ← checkGenerators check scope [] q.generators
  q.expressions.forM fun n => check n (bound ++ scope)

end Clauses

namespace Node

/-- Checks that every reference in a tree is to a symbol in scope, and that no query binds a
symbol twice. -/
def checkScope : Node → ScopeCheck :=
  fold fun s => match s with
    | .query q => q.checkScopeLayer Prod.snd
    | .row source | .column source _ => fun scope =>
      if source ∈ scope then .ok () else .error (.malformed (.outOfScope source))
    | s => fun scope => s.children.forM fun n => n.2 scope

end Node

namespace Query

/-- Checks the scopes of a whole query, which sees no symbols but its own. -/
def checkScope (q : Query) : Except Error Unit :=
  q.checkScopeLayer Node.checkScope []

end Query
end SqlCompiler
