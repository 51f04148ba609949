import Injection.Signature.Basic
import Injection.Signature.Header
import Injection.Token.Comments

/-!
# Reading a signature off source text

Functions, methods, arrow functions and classes are understood; a class has the parameters of its constructor.
Malformed text does not fail: the signature is empty or holds what was found before the text broke off.
-/

namespace Injection

/-- The texts before and after the first `=` at depth zero. -/
def splitAtEquals (d : Depth) : List Token → Option (List Char × List Char)
  | [] => none
  | t :: ts =>
    if d = .top ∧ t.isPunctuator "=" then some ([], Token.joined ts)
    else (splitAtEquals (d.after t) ts).map fun r => (t.text ++ r.1, r.2)

/-- A default value that counts: not empty and not `undefined`. -/
def defaultOf (cs : List Char) : Option String :=
  if cs = [] ∨ cs = "undefined".toList then none else some (String.ofList cs)

/-- The parameter that a piece of a parameter list declares. -/
def Parameter.ofPiece (cs : List Char) : Parameter :=
  match splitAtEquals .top (tokens cs) with
  | some (name, value) => ⟨String.ofList (trim name), defaultOf (trim value)⟩
  | none => ⟨String.ofList (trim cs), none⟩

/-- The pieces of a parameter list without the white space around them; blank ones declare nothing. -/
def parameterTexts (cs : List Char) : List (List Char) :=
  ((pieces cs).map trim).filter (· ≠ [])

/-- The parameters of a text without comments. -/
def parametersOf (cs : List Char) : List Parameter :=
  match arrowParameter cs with
  | some name => [⟨String.ofList name, none⟩]
  | none => (parameterTexts (if isClass cs then constructorText cs else cs)).map Parameter.ofPiece

/-- The signature declared by a source text. -/
def Signature.extract (source : String) : Signature :=
  ⟨parametersOf (stripComments source.toList)⟩

end Injection
