import Injection.Token.Lexing

/-!
# Reading by byte offsets

The tokens of a text as a reader finds them that counts bytes: it knows its position and the length of a token as
numbers of bytes only, and cuts the text at such numbers.  A cut inside a character or past the end fails.
-/

namespace Injection

open Lexeme

/-! ### Cuts -/

/-- The text from a byte offset on, if no character is cut. -/
def dropBytes? : Nat → List Char → Option (List Char)
  | 0, cs => some cs
  | _ + 1, [] => none
  | n + 1, c :: cs => if c.utf8Size ≤ n + 1 then dropBytes? (n + 1 - c.utf8Size) cs else none

/-- The text up to a byte offset, if no character is cut. -/
def takeBytes? : Nat → List Char → Option (List Char)
  | 0, _ => some []
  | _ + 1, [] => none
  | n + 1, c :: cs => if c.utf8Size ≤ n + 1 then (takeBytes? (n + 1 - c.utf8Size) cs).map (c :: ·) else none

/-! ### Lengths in bytes -/

/-- The offset of the first character that does not satisfy the predicate, or of the end. -/
def runLength (p : Char → Bool) : List Char → Nat
  | [] => 0
  | c :: cs => if p c then c.utf8Size + runLength p cs else 0

/-- The offset of the first mark that closes a block comment. -/
def closingMark : List Char → Option Nat
  | '*' :: '/' :: _ => some 0
  | c :: cs => (closingMark cs).map (c.utf8Size + ·)
  | [] => none

/-- The offset after a literal, of which the first `offset` bytes have been read. -/
def quotedLength (quote : Char) (offset : Nat) : List Char → Nat
  | '\\' :: c :: cs => quotedLength quote (offset + '\\'.utf8Size + c.utf8Size) cs
  | c :: cs => if c = quote then offset + c.utf8Size else quotedLength quote (offset + c.utf8Size) cs
  | [] => offset

/-- The offset after a regular expression with its flags, of which the first `offset` bytes have been read, if it is
closed on its line.  The flags are cut out of the whole text. -/
def regexLength (text : List Char) (offset : Nat) (inSet : Bool) : List Char → Option (Option Nat)
  | '\\' :: c :: cs =>
    if isLineEnd c then some none else regexLength text (offset + '\\'.utf8Size + c.utf8Size) inSet cs
  | c :: cs =>
    if c = '\\' || isLineEnd c then some none
    else if c = '/' && !inSet then
      (dropBytes? (offset + 1) text).map fun flags => some (offset + 1 + runLength isIdentifierPart flags)
    else regexLength text (offset + c.utf8Size) (c == '[' || (inSet && c != ']')) cs
  | [] => some none

/-- The length of the longest operator at the start of the text `c :: cs`, or of its first character. -/
def operatorLength (c : Char) (cs : List Char) : Nat :=
  ((operators.find? (·.isPrefixOf (c :: cs))).map bytesOf).getD c.utf8Size

/-- The length of the regular expression at the start of the text `c :: cs`, if one may stand there and does. -/
def regexExtent (regexAllowed : Bool) (c : Char) (cs : List Char) : Option (Option Nat) :=
  if c = '/' ∧ regexAllowed then regexLength (c :: cs) c.utf8Size false cs else some none

/-- Whether the text `c :: cs` starts with a point and a digit. -/
def startsFraction? (c : Char) (cs : List Char) : Option Bool :=
  if c = '.' then (dropBytes? 1 (c :: cs)).map (·.head?.any Char.isDigit) else some false

/-- The kind and the length of the first token of the text `c :: cs`, if no cut fails. -/
def firstExtent (regexAllowed : Bool) (c : Char) (cs : List Char) : Option (Token.Kind × Nat) :=
  if isWhiteSpace c then some (.whitespace, runLength isWhiteSpace (c :: cs))
  else if c = '/' ∧ cs.head? = some '/' then some (.lineComment, runLength (!isLineEnd ·) (c :: cs))
  else if c = '/' ∧ cs.head? = some '*' then
    -- the two characters of the opening mark, and two of the closing one
    (dropBytes? 2 (c :: cs)).map fun inner =>
      (.blockComment, ((closingMark inner).map (· + 4)).getD (bytesOf (c :: cs)))
  else if c = '\x27' ∨ c = '\x22' then some (.string, quotedLength c c.utf8Size cs)
  else if c = '\x60' then some (.template, quotedLength c c.utf8Size cs)
  else
    (regexExtent regexAllowed c cs).bind fun
      | some length => some (.regex, length)
      | none => (startsFraction? c cs).map fun fraction =>
        if c.isDigit || fraction then (.number, runLength isNumberPart (c :: cs))
        else if isIdentifierStart c then (.identifier, runLength isIdentifierPart (c :: cs))
        else (.punctuator, operatorLength c cs)

/-! ### Steps -/

/-- A reader at a byte offset of a source. -/
structure Cursor where
  source : List Char
  position : Nat
  regexAllowed : Bool

namespace Cursor

def start (source : List Char) : Cursor :=
  ⟨source, 0, true⟩

/-- Reads a token, or finds that the text has ended; none if a cut fails. -/
def next? (k : Cursor) : Option (Option (PlacedToken × Cursor)) := do
  match ← dropBytes? k.position k.source with
  | [] => return none
  | c :: cs =>
    let (kind, length) ← firstExtent k.regexAllowed c cs
    let text ← takeBytes? length (c :: cs)
    let t : Token := ⟨kind, text⟩
    return some (⟨t, k.position⟩,
      { k with position := k.position + length, regexAllowed := t.regexAfter k.regexAllowed })

/-- Reading on comes to the end, without a failed cut, and gives just these tokens. -/
inductive Yields : Cursor → List PlacedToken → Prop
  | done {k : Cursor} (h : k.next? = some none) : Yields k []
  | step {k k' : Cursor} {t : PlacedToken} {ts : List PlacedToken} (h : k.next? = some (some (t, k')))
    (rest : Yields k' ts) : Yields k (t :: ts)

end Cursor

end Injection
