import Injection.Signature.Depth
import Injection.Token.Lexing

/-!
# Where the parameters stand

The parts of a comment-free text that hold its parameters: the single name before an arrow, the constructor of a
class, and the pieces of the first parenthesised list.
-/

namespace Injection

/-- The first token that is neither layout nor a comment. -/
def firstSignificant (ts : List Token) : Option Token :=
  ts.find? (!·.isTrivia)

/-- The last significant token once `t` has been read, if it was `last` before. -/
def Token.lastSignificant (last : Option Token) (t : Token) : Option Token :=
  if t.isTrivia then last else some t

/-! ### Arrow functions without parentheses -/

/-- Looks for an arrow at depth zero with no parenthesis opened at depth zero before it, and gives the significant
token before that arrow. -/
def arrowParameterFrom (d : Depth) (last : Option Token) : List Token → Option Token
  | [] => none
  | t :: ts =>
    if d = .top ∧ t.isPunctuator "(" then none
    else if d = .top ∧ t.isPunctuator "=>" then last
    else arrowParameterFrom (d.after t) (t.lastSignificant last) ts

/-- The name before the arrow of `x => …`, if the text has this form. -/
def arrowParameter (cs : List Char) : Option (List Char) :=
  (arrowParameterFrom .top none (tokens cs)).map Token.text

/-! ### Classes -/

def isClass (cs : List Char) : Bool :=
  (firstSignificant (tokens cs)).any (·.isIdentifier "class")

/-- The tokens up to the brace that closes a method of the class body; all of them if none does. -/
def throughMethod (d : Depth) : List Token → List Token
  | [] => []
  | t :: ts =>
    if t.isPunctuator "\x7d" ∧ d.after t = .classBody then [t] else t :: throughMethod (d.after t) ts

/-- Whether `t` names the constructor method: it stands directly in the class body, is no member access and is
followed by a parameter list. -/
def isConstructor (d : Depth) (last : Option Token) (t : Token) (ts : List Token) : Bool :=
  d = .classBody && t.isIdentifier "constructor" && !last.any (·.isPunctuator ".") &&
    (firstSignificant ts).any (·.isPunctuator "(")

/-- The tokens of the constructor method of a class, none if it declares no constructor. -/
def constructorFrom (d : Depth) (last : Option Token) : List Token → List Token
  | [] => []
  | t :: ts =>
    if isConstructor d last t ts then t :: throughMethod d ts
    else constructorFrom (d.after t) (t.lastSignificant last) ts

/-- The text of the constructor method of a class, empty if it declares no constructor. -/
def constructorText (cs : List Char) : List Char :=
  Token.joined (constructorFrom .top none (tokens cs))

/-! ### Parameter lists -/

/-- The texts between the commas of a parameter list, up to its closing parenthesis or to the end of the
tokens. -/
def piecesFrom (d : Depth) : List Token → List (List Char)
  | [] => [[]]
  | t :: ts =>
    -- only the parentheses close the list, whatever the other counters say
    if (d.after t).paren = 0 then [[]]
    else if t.isPunctuator "," ∧ d = .parameterList then [] :: piecesFrom d ts
    else (piecesFrom (d.after t) ts).modifyHead (t.text ++ ·)

/-- The texts between the commas of the first parenthesised list. -/
def pieces (cs : List Char) : List (List Char) :=
  match (tokens cs).dropWhile (!·.isPunctuator "(") with
  | [] => []
  | _ :: ts => piecesFrom .parameterList ts

end Injection
