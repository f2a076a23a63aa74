import SqlCompiler.Query.Basic

/-!
# Renaming binders

The generators of a query can be given other symbols, and every reference to them follows.  A
query inside that binds a renamed symbol again hides it: there, the symbol means something else
and stays as it is.

## What is here

* `Renaming` — a finite map of symbols; of two pairs for one symbol the later counts.
* `Node.rename` — the references of a tree renamed.
* `Query.renameBinders` — the generators of a query renamed together with their references.
* `Query.refresh` — every generator of a query renamed to a fresh symbol.
-/

set_option autoImplicit false
namespace SqlCompiler

/-- A finite map of symbols, as pairs of an old symbol and its new one. -/
abbrev Renaming := List (Symbol × Symbol)

namespace Renaming

/-- The new name of a symbol: that of the last pair for it, or the symbol itself. -/
def apply (r : Renaming) (s : Symbol) : Symbol :=
  r.foldl (fun result pair => if pair.1 = s then pair.2 else result) s

/-- The renaming without the given symbols. -/
def without (r : Renaming) (hidden : List Symbol) : Renaming :=
  r.filter fun pair => pair.1 ∉ hidden

end Renaming

namespace Node

/-- A tree with its references renamed; inside a query, those that its generators bind are not. -/
def rename : Node → Renaming → Node :=
  fold fun s => match s with
    | .row source => fun r => row (r.apply source)
    | .column source name => fun r => column (r.apply source) name
    | .query q => fun r => query (q.map fun n => n.2 (r.without q.binders))
    | s => fun r => mk (s.map fun n => n.2 r)

end Node

namespace Query

/-- A query with its own generators renamed, and all references to them. -/
def renameBinders (r : Renaming) (q : Query) : Query :=
  let inside := q.map fun n => n.rename r
  { inside with generators := inside.generators.map fun g => ⟨r.apply g.binder, g.source⟩ }

/-- Fresh symbols for the given ones, with the hints of the old ones where they have any. -/
def freshen (t : SymbolTable) : List Symbol → Renaming × SymbolTable
  | [] => ([], t)
  | s :: rest =>
    let (new, t) := t.fresh ((t.hint? s).getD "t")
    let (pairs, t) := freshen t rest
    ((s, new) :: pairs, t)

/-- A query whose generators are fresh symbols of a table. -/
def refresh (t : SymbolTable) (q : Query) : Query × SymbolTable :=
  let (r, t) := freshen t q.binders
  (renameBinders r q, t)

end Query
end SqlCompiler
