/-!
# Tokens of source text

A token is a kind and the text it covers.  Concatenating the texts of the tokens of a source gives the source
back, so a token carries its text only; positions are derived from the texts before it.
-/

namespace Injection

inductive Token.Kind
  | whitespace
  | lineComment
  | blockComment
  | string
  | template
  | regex
  | number
  | identifier
  | punctuator
  deriving DecidableEq, Repr

structure Token where
  kind : Token.Kind
  text : List Char
  deriving DecidableEq, Repr

/-- The number of bytes of characters in UTF-8. -/
def bytesOf : List Char → Nat
  | [] => 0
  | c :: cs => c.utf8Size + bytesOf cs

namespace Token

/-- Layout and comments: what may stand between any two tokens without a meaning of its own. -/
def isTrivia (t : Token) : Bool :=
  match t.kind with
  | .whitespace | .lineComment | .blockComment => true
  | _ => false

def isPunctuator (t : Token) (p : String) : Bool :=
  t.kind == .punctuator && t.text == p.toList

def isIdentifier (t : Token) (name : String) : Bool :=
  t.kind == .identifier && t.text == name.toList

/-- The words that ask for an expression after them. -/
def operatorWords : List (List Char) :=
  ["return", "typeof", "instanceof", "in", "of", "new", "delete", "void", "case", "do", "else", "yield",
    "await"].map String.toList

/-- The punctuators that end an expression. -/
def closers : List (List Char) :=
  [")", "]", "\x7d", "++", "--"].map String.toList

/-- Whether an expression, so also a regular expression, may follow the token. -/
def precedesExpression (t : Token) : Bool :=
  match t.kind with
  | .punctuator => !closers.contains t.text
  | .identifier => operatorWords.contains t.text
  | _ => false

/-- Whether a slash after the token may open a regular expression, if one before it might have. -/
def regexAfter (regexAllowed : Bool) (t : Token) : Bool :=
  if t.isTrivia then regexAllowed else t.precedesExpression

/-- The number of bytes of the text in UTF-8. -/
def byteLength (t : Token) : Nat :=
  bytesOf t.text

/-- The text that the tokens cover. -/
def joined (ts : List Token) : List Char :=
  ts.flatMap Token.text

@[simp] theorem joined_nil : joined [] = [] := rfl

@[simp] theorem joined_cons (t : Token) (ts : List Token) : joined (t :: ts) = t.text ++ joined ts := rfl

end Token

end Injection
