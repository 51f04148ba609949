import Injection.Token.Lexeme

/-!
# The tokens of a text

`tokens` splits any text into tokens, malformed text included: an unterminated literal or comment runs to the end.
The one piece of context is whether a slash may open a regular expression, which the last significant token
decides.

The main statement is `joined_tokens`: nothing is lost, the texts of the tokens in order are the text.
-/

namespace Injection

open Lexeme

/-- The first token of the text `c :: cs`. -/
def firstToken (regexAllowed : Bool) (c : Char) (cs : List Char) : Token :=
  if isWhiteSpace c then ⟨.whitespace, c :: cs.takeWhile isWhiteSpace⟩
  else if c = '/' ∧ cs.head? = some '/' then ⟨.lineComment, c :: cs.takeWhile (!isLineEnd ·)⟩
  else if c = '/' ∧ cs.head? = some '*' then ⟨.blockComment, c :: '*' :: blockCommentTail cs.tail⟩
  else if c = '\x27' ∨ c = '\x22' then ⟨.string, c :: quotedTail c cs⟩
  else if c = '\x60' then ⟨.template, c :: quotedTail c cs⟩
  else
    match if c = '/' ∧ regexAllowed then regexTail false cs else none with
    | some tail => ⟨.regex, c :: tail⟩
    | none =>
      if c.isDigit ∨ (c = '.' ∧ cs.head?.any Char.isDigit) then ⟨.number, c :: cs.takeWhile isNumberPart⟩
      else if isIdentifierStart c then ⟨.identifier, c :: cs.takeWhile isIdentifierPart⟩
      else ⟨.punctuator, operatorAt c cs⟩

theorem firstToken_text_isPrefix (regexAllowed : Bool) (c : Char) (cs : List Char) :
    (firstToken regexAllowed c cs).text <+: c :: cs := by
  have run (p : Char → Bool) : c :: cs.takeWhile p <+: c :: cs :=
    List.cons_prefix_cons.2 ⟨rfl, List.takeWhile_prefix _⟩
  unfold firstToken
  split
  · exact run _
  split
  · exact run _
  split
  · rename_i h
    obtain ⟨cs', rfl⟩ : ∃ cs', cs = '*' :: cs' := by
      cases cs with
      | nil => simp at h
      | cons d cs' => exact ⟨cs', by simpa using h.2⟩
    simpa using blockCommentTail_isPrefix cs'
  split
  · exact List.cons_prefix_cons.2 ⟨rfl, quotedTail_isPrefix c cs⟩
  split
  · exact List.cons_prefix_cons.2 ⟨rfl, quotedTail_isPrefix c cs⟩
  split
  · rename_i tail h
    split at h
    · exact List.cons_prefix_cons.2 ⟨rfl, regexTail_isPrefix h⟩
    · simp at h
  split
  · exact run _
  split
  · exact run _
  · exact operatorAt_isPrefix c cs

theorem firstToken_text_ne_nil (regexAllowed : Bool) (c : Char) (cs : List Char) :
    (firstToken regexAllowed c cs).text ≠ [] := by
  unfold firstToken
  repeat' split
  all_goals first | exact List.cons_ne_nil _ _ | exact operatorAt_ne_nil c cs

/-- The tokens of a text; a slash at its start may open a regular expression if `regexAllowed` says so. -/
def lex (regexAllowed : Bool) : List Char → List Token
  | [] => []
  | c :: cs =>
    let t := firstToken regexAllowed c cs
    t :: lex (t.regexAfter regexAllowed) ((c :: cs).drop t.text.length)
termination_by cs => cs.length
decreasing_by
  have := List.length_pos_iff.2 (firstToken_text_ne_nil regexAllowed c cs)
  simp only [List.length_drop, List.length_cons]
  omega

def tokens (cs : List Char) : List Token :=
  lex true cs

theorem joined_lex (regexAllowed : Bool) (cs : List Char) : Token.joined (lex regexAllowed cs) = cs := by
  fun_induction lex regexAllowed cs with
  | case1 => rfl
  | case2 regexAllowed c cs t ih =>
    rw [Token.joined_cons, ih]
    exact List.prefix_iff_eq_append.1 (firstToken_text_isPrefix regexAllowed c cs)

theorem joined_tokens (cs : List Char) : Token.joined (tokens cs) = cs :=
  joined_lex true cs

/-! ### Positions -/

/-- A token with the byte offset at which it starts. -/
structure PlacedToken extends Token where
  start : Nat
  deriving DecidableEq, Repr

/-- The byte offset just after the token. -/
def PlacedToken.stop (t : PlacedToken) : Nat :=
  t.start + t.byteLength

/-- Tokens that follow one another from a byte offset on. -/
def placeFrom (start : Nat) : List Token → List PlacedToken
  | [] => []
  | t :: ts => { t with start := start } :: placeFrom (start + t.byteLength) ts

/-- The tokens of a source with their byte offsets. -/
def tokenize (source : String) : List PlacedToken :=
  placeFrom 0 (tokens source.toList)

end Injection
