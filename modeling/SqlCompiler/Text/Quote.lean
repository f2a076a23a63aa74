/-!
# Quoting by doubling

SQL quotes a name or a text by surrounding it with an opening and a closing character and writing
every closing character inside it twice.
-/

set_option autoImplicit false
namespace SqlCompiler
namespace Text

/-- Writes every occurrence of `mark` twice. -/
def double (mark : Char) (cs : List Char) : List Char :=
  cs.flatMap fun c => if c = mark then [mark, mark] else [c]

/-- A pair of quotation marks; the closing one is doubled inside the quoted text. -/
structure Quote where
  opening : Char
  closing : Char
deriving DecidableEq, Repr

namespace Quote

/-- Quotation marks `"…"`. -/
def doubleQuotes : Quote := ⟨Char.ofNat 34, Char.ofNat 34⟩

/-- Backquotes, the grave accents around a name. -/
def backquotes : Quote := ⟨Char.ofNat 96, Char.ofNat 96⟩

/-- Square brackets `[…]`, of which only the closing one is doubled. -/
def brackets : Quote := ⟨'[', ']'⟩

/-- Apostrophes, around a text literal. -/
def apostrophes : Quote := ⟨Char.ofNat 39, Char.ofNat 39⟩

/-- The quoted form of a text. -/
def write (q : Quote) (s : String) : String :=
  String.ofList (q.opening :: (double q.closing s.toList ++ [q.closing]))

end Quote
end Text
end SqlCompiler
