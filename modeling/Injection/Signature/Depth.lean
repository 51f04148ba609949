import Injection.Token.Basic

/-!
# Nesting depth

Three counters, one for each pair of delimiters.  They are independent: a closing delimiter lowers its own counter
whatever was opened last, and a counter may go below zero.

The counters have no bound.  Counters of 32 bits, which wrap around, show the same depths in any text with fewer than
`2 ^ 31 - 1` tokens (`Depth.wrappedAfterAll_eq`).
-/

namespace Injection

/-- How many more delimiters of each pair have been opened than closed. -/
structure Depth where
  paren : Int
  curly : Int
  bracket : Int
  deriving DecidableEq, Repr

namespace Depth

/-- Outside all delimiters. -/
def top : Depth := ⟨0, 0, 0⟩

/-- Directly inside the body of a class. -/
def classBody : Depth := ⟨0, 1, 0⟩

/-- Directly inside a parameter list. -/
def parameterList : Depth := ⟨1, 0, 0⟩

/-- The depth after a token. -/
def after (d : Depth) (t : Token) : Depth :=
  if t.isPunctuator "(" then { d with paren := d.paren + 1 }
  else if t.isPunctuator ")" then { d with paren := d.paren - 1 }
  else if t.isPunctuator "\x7b" then { d with curly := d.curly + 1 }
  else if t.isPunctuator "\x7d" then { d with curly := d.curly - 1 }
  else if t.isPunctuator "[" then { d with bracket := d.bracket + 1 }
  else if t.isPunctuator "]" then { d with bracket := d.bracket - 1 }
  else d

end Depth

end Injection
