import Injection.Token.Lexing

/-!
# Text without comments

A line comment is dropped up to its line end, which stays.  A block comment becomes one space, so that the tokens
around it stay apart.  Everything else is kept as it is.
-/

namespace Injection

/-- What a token leaves behind when comments are removed. -/
def Token.uncommented (t : Token) : List Char :=
  match t.kind with
  | .lineComment => []
  | .blockComment => [' ']
  | _ => t.text

def stripComments (cs : List Char) : List Char :=
  (tokens cs).flatMap Token.uncommented

/-- The source text without its comments. -/
def withoutComments (source : String) : String :=
  String.ofList (stripComments source.toList)

end Injection
