import Injection.Text.WhiteSpace
import Injection.Text.Alphabetic
import Injection.Text.Numeric
import Injection.Token.Basic

/-!
# Lexemes

How far each kind of token reaches.  Every scanner here is given the text after the opening character or mark and
returns the part of it that still belongs to the token, always a prefix of what it was given.
-/

namespace Injection

namespace Lexeme

def isLineEnd (c : Char) : Bool :=
  c == '\n' || c == '\r'

def isIdentifierStart (c : Char) : Bool :=
  isAlphabetic c || c == '_' || c == '$'

def isIdentifierPart (c : Char) : Bool :=
  isAlphabetic c || isNumeric c || c == '_' || c == '$'

/-- The characters of a number after its first: ASCII letters and digits, `_` and `.`. -/
def isNumberPart (c : Char) : Bool :=
  c.isAlphanum || c == '_' || c == '.'

/-! ### Comments and literals -/

/-- The rest of a block comment: up to its first closing mark, or all of the text. -/
def blockCommentTail : List Char → List Char
  | '*' :: '/' :: _ => ['*', '/']
  | c :: cs => c :: blockCommentTail cs
  | [] => []

/-- The rest of a literal opened by `quote`: up to the first `quote` that no backslash escapes, or all of the
text. -/
def quotedTail (quote : Char) : List Char → List Char
  | '\\' :: c :: cs => '\\' :: c :: quotedTail quote cs
  | c :: cs => if c = quote then [c] else c :: quotedTail quote cs
  | [] => []

/-- The rest of a regular expression with its flags, if it is closed on its line.  A slash inside a bracketed
character set does not close it. -/
def regexTail (inSet : Bool) : List Char → Option (List Char)
  | '\\' :: c :: cs => if isLineEnd c then none else (regexTail inSet cs).map fun r => '\\' :: c :: r
  | c :: cs =>
    -- a backslash that stands last escapes nothing
    if c = '\\' || isLineEnd c then none
    else if c = '/' && !inSet then some (c :: cs.takeWhile isIdentifierPart)
    else (regexTail (c == '[' || (inSet && c != ']')) cs).map fun r => c :: r
  | [] => none

/-! ### Operators -/

/-- The operators of more than one character; none stands after one of its own prefixes. -/
def operators : List (List Char) :=
  [">>>=", "...", "===", "!==", "**=", "<<=", ">>=", ">>>", "&&=", "||=", "??=", "=>", "==", "!=", "<=", ">=",
    "&&", "||", "??", "?.", "++", "--", "+=", "-=", "*=", "/=", "%=", "&=", "|=", "^=", "<<", ">>",
    "**"].map String.toList

/-- The longest operator at the start of the text `c :: cs`, or its first character. -/
def operatorAt (c : Char) (cs : List Char) : List Char :=
  (operators.find? (·.isPrefixOf (c :: cs))).getD [c]

/-! ### Every tail is a prefix -/

theorem blockCommentTail_isPrefix (cs : List Char) : blockCommentTail cs <+: cs := by
  fun_induction blockCommentTail cs with
  | case1 cs => exact ⟨cs, rfl⟩
  | case2 c cs _ ih => exact List.cons_prefix_cons.2 ⟨rfl, ih⟩
  | case3 => exact List.prefix_rfl

theorem quotedTail_isPrefix (quote : Char) (cs : List Char) : quotedTail quote cs <+: cs := by
  fun_induction quotedTail quote cs with
  | case1 c cs ih => simpa using ih
  | case2 cs => exact ⟨cs, rfl⟩
  | case3 c cs _ _ ih => exact List.cons_prefix_cons.2 ⟨rfl, ih⟩
  | case4 => exact List.prefix_rfl

theorem regexTail_isPrefix {inSet : Bool} {cs r : List Char} (h : regexTail inSet cs = some r) : r <+: cs := by
  fun_induction regexTail inSet cs generalizing r with
  | case1 => simp at h
  | case2 inSet c cs _ ih =>
    obtain ⟨r', hr', rfl⟩ := Option.map_eq_some_iff.1 h
    simpa using ih hr'
  | case3 => simp at h
  | case4 inSet c cs =>
    obtain rfl := Option.some.inj h
    exact List.cons_prefix_cons.2 ⟨rfl, List.takeWhile_prefix _⟩
  | case5 inSet c cs _ _ _ ih =>
    obtain ⟨r', hr', rfl⟩ := Option.map_eq_some_iff.1 h
    exact List.cons_prefix_cons.2 ⟨rfl, ih hr'⟩
  | case6 => simp at h

theorem operatorAt_isPrefix (c : Char) (cs : List Char) : operatorAt c cs <+: c :: cs := by
  unfold operatorAt
  cases h : operators.find? (·.isPrefixOf (c :: cs)) with
  | none => exact ⟨cs, rfl⟩
  | some op =>
    have hop := List.find?_some h
    exact List.isPrefixOf_iff_prefix.1 hop

theorem operatorAt_ne_nil (c : Char) (cs : List Char) : operatorAt c cs ≠ [] := by
  unfold operatorAt
  cases h : operators.find? (·.isPrefixOf (c :: cs)) with
  | none => simp
  | some op =>
    have hop : ∀ op ∈ operators, op ≠ [] := by decide
    exact hop op (List.mem_of_find?_eq_some h)

end Lexeme

end Injection
