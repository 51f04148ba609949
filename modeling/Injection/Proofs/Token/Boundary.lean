import Injection.Proofs.Token.Scanners
import Injection.Token.Lexing

/-!
# Tokens and what follows them

When a text starts with a token, and how much that depends on the text after the token.  `Token.Starts.cut`: a cut
after the token never matters.  `Token.Starts.extend`: neither does text that is added, if it begins with a character
at which tokens end and the token does not reach for what follows, as an unterminated literal does or a slash that
could still become a regular expression.
-/

namespace Injection

open Lexeme

variable {a : Bool} {c d : Char} {w cs cs' ds : List Char} {t : Token}

/-! ### The kinds of tokens -/

/-- How the first token of the text `c :: cs` is read. -/
inductive Reads (a : Bool) (c : Char) (cs : List Char) : Token → Prop
  | whitespace (hc : isWhiteSpace c = true) : Reads a c cs ⟨.whitespace, c :: cs.takeWhile isWhiteSpace⟩
  | lineComment (hc : c = '/') (hcs : cs.head? = some '/') :
    Reads a c cs ⟨.lineComment, c :: cs.takeWhile (!isLineEnd ·)⟩
  | blockComment (hc : c = '/') (hcs : cs.head? = some '*') :
    Reads a c cs ⟨.blockComment, c :: '*' :: blockCommentTail cs.tail⟩
  | string (hc : c = '\x27' ∨ c = '\x22') : Reads a c cs ⟨.string, c :: quotedTail c cs⟩
  | template (hc : c = '\x60') : Reads a c cs ⟨.template, c :: quotedTail c cs⟩
  | regex {tail : List Char} (hc : c = '/') (hline : cs.head? ≠ some '/') (hblock : cs.head? ≠ some '*')
    (ha : a = true) (htail : regexTail false cs = some tail) : Reads a c cs ⟨.regex, c :: tail⟩
  | number (hc : c.isDigit ∨ (c = '.' ∧ cs.head?.any Char.isDigit)) :
    Reads a c cs ⟨.number, c :: cs.takeWhile isNumberPart⟩
  | identifier (hspace : isWhiteSpace c = false) (hdigit : c.isDigit = false) (hc : isIdentifierStart c = true) :
    Reads a c cs ⟨.identifier, c :: cs.takeWhile isIdentifierPart⟩
  | punctuator (hspace : isWhiteSpace c = false) (hquote : c ≠ '\x27' ∧ c ≠ '\x22' ∧ c ≠ '\x60')
    (hdigit : c.isDigit = false) (hstart : isIdentifierStart c = false)
    (hslash : c = '/' → cs.head? ≠ some '/' ∧ cs.head? ≠ some '*' ∧ (a = true → regexTail false cs = none))
    (hdot : c = '.' → ¬ cs.head?.any Char.isDigit) : Reads a c cs ⟨.punctuator, operatorAt c cs⟩

theorem reads_firstToken (a : Bool) (c : Char) (cs : List Char) : Reads a c cs (firstToken a c cs) := by
  unfold firstToken
  split
  · exact .whitespace ‹_›
  rename_i hspace
  split
  · rename_i h
    exact .lineComment h.1 h.2
  rename_i hline
  split
  · rename_i h
    exact .blockComment h.1 h.2
  rename_i hblock
  split
  · exact .string ‹_›
  rename_i hstring
  split
  · exact .template ‹_›
  rename_i htemplate
  split
  · rename_i tail h
    split at h
    · rename_i hc
      exact .regex hc.1 (fun h => hline ⟨hc.1, h⟩) (fun h => hblock ⟨hc.1, h⟩) hc.2 h
    · simp at h
  rename_i hregex
  split
  · exact .number ‹_›
  rename_i hnumber
  rw [not_or] at hnumber
  split
  · exact .identifier (by simpa using hspace) (by simpa using hnumber.1) ‹_›
  rename_i hstart
  rw [not_or] at hstring
  refine .punctuator (by simpa using hspace) ⟨hstring.1, hstring.2, htemplate⟩ (by simpa using hnumber.1)
    (by simpa using hstart) (fun hc => ⟨fun h => hline ⟨hc, h⟩, fun h => hblock ⟨hc, h⟩, fun ha => ?_⟩)
    fun hc h => hnumber.2 ⟨hc, h⟩
  simpa [hc, ha] using hregex

theorem isWhiteSpace_of_isDigit (h : c.isDigit = true) : isWhiteSpace c = false := by
  have hle := of_decide_eq_true (Bool.and_eq_true_iff.1 h).1
  have hge := of_decide_eq_true (Bool.and_eq_true_iff.1 h).2
  have hl : 48 ≤ c.toNat := UInt32.le_iff_toNat_le.1 hle
  have hg : c.toNat ≤ 57 := UInt32.le_iff_toNat_le.1 hge
  have hblank : c ≠ ' ' := by
    rintro rfl
    exact absurd hl (by decide)
  unfold isWhiteSpace
  rw [if_pos (by omega)]
  simp [hblank]
  omega

private theorem ne_of_isDigit (h : c.isDigit = true) (hd : d.isDigit = false) : c ≠ d := by
  rintro rfl
  simp [h] at hd

theorem Reads.firstToken_eq (h : Reads a c cs t) : firstToken a c cs = t := by
  have hslash : isWhiteSpace '/' = false := rfl
  cases h with
  | whitespace hc => simp [firstToken, hc]
  | lineComment hc hcs =>
    subst hc
    simp [firstToken, hcs, hslash]
  | blockComment hc hcs =>
    subst hc
    simp [firstToken, hcs, hslash]
  | string hc =>
    rcases hc with rfl | rfl
    · simp [firstToken, show isWhiteSpace '\x27' = false from rfl]
    · simp [firstToken, show isWhiteSpace '\x22' = false from rfl]
  | template hc =>
    subst hc
    simp [firstToken, show isWhiteSpace '\x60' = false from rfl]
  | regex hc hline hblock ha htail =>
    subst hc
    simp [firstToken, hslash, hline, hblock, ha, htail]
  | number hc =>
    rcases hc with hc | ⟨rfl, hc⟩
    · have hne (d : Char) (hd : d.isDigit = false) : c ≠ d := ne_of_isDigit hc hd
      simp [firstToken, isWhiteSpace_of_isDigit hc, hne '/' rfl, hne '\x27' rfl, hne '\x22' rfl, hne '\x60' rfl, hc]
    · simp [firstToken, show isWhiteSpace '.' = false from rfl, hc]
  | identifier hspace hdigit hc =>
    have hne (d : Char) (hd : isIdentifierStart d = false) : c ≠ d := by
      rintro rfl
      simp [hc] at hd
    simp [firstToken, hspace, hdigit, hc, hne '/' rfl, hne '\x27' rfl, hne '\x22' rfl, hne '\x60' rfl, hne '.' rfl]
  | punctuator hspace hquote hdigit hstart hslash' hdot =>
    by_cases hc : c = '/'
    · subst hc
      obtain ⟨hline, hblock, hregex⟩ := hslash' rfl
      cases a with
      | false => simp [firstToken, hslash, hline, hblock, hstart]
      | true => simp [firstToken, hslash, hline, hblock, hregex, hstart]
    · have hnumber : ¬ (c = '.' ∧ cs.head?.any Char.isDigit = true) := fun h => hdot h.1 h.2
      simp only [firstToken, hspace, hquote, hdigit, hstart, hc, hnumber]
      simp

/-! ### The start of a text -/

/-- A text of the token and then `rest` starts with the token. -/
def Token.Starts (a : Bool) (t : Token) (rest : List Char) : Prop :=
  ∃ c w, t.text = c :: w ∧ firstToken a c (w ++ rest) = t

theorem Token.starts_iff {rest : List Char} :
    t.Starts a rest ↔ ∃ c w, t.text = c :: w ∧ Reads a c (w ++ rest) t := by
  constructor
  · rintro ⟨c, w, htext, hfirst⟩
    exact ⟨c, w, htext, hfirst ▸ reads_firstToken a c (w ++ rest)⟩
  · rintro ⟨c, w, htext, hreads⟩
    exact ⟨c, w, htext, hreads.firstToken_eq⟩

theorem head?_text_firstToken (a : Bool) (c : Char) (cs : List Char) :
    (firstToken a c cs).text.head? = some c := by
  have hisPrefix := firstToken_text_isPrefix a c cs
  cases htext : (firstToken a c cs).text with
  | nil => exact absurd htext (firstToken_text_ne_nil a c cs)
  | cons d w =>
    rw [htext] at hisPrefix
    rw [(List.cons_prefix_cons.1 hisPrefix).1]
    rfl

theorem firstToken_starts (a : Bool) (c : Char) (cs : List Char) :
    (firstToken a c cs).Starts a ((c :: cs).drop (firstToken a c cs).text.length) := by
  obtain ⟨rest, hrest⟩ := firstToken_text_isPrefix a c cs
  cases htext : (firstToken a c cs).text with
  | nil => exact absurd htext (firstToken_text_ne_nil a c cs)
  | cons d w =>
    rw [htext, List.cons_append] at hrest
    obtain ⟨rfl, rfl⟩ := List.cons.inj hrest
    exact ⟨d, w, htext, by simp⟩

theorem Token.Starts.ne_nil {rest : List Char} (h : t.Starts a rest) : t.text ≠ [] := by
  obtain ⟨c, w, htext, -⟩ := h
  simp [htext]

theorem Token.Starts.lex_eq {rest : List Char} (h : t.Starts a rest) :
    lex a (t.text ++ rest) = t :: lex (t.regexAfter a) rest := by
  obtain ⟨c, w, htext, hfirst⟩ := h
  rw [htext, List.cons_append, lex, hfirst, htext]
  simp

/-! ### Cutting the rest -/

private theorem head?_of_isPrefix (h : cs' <+: cs) {x : Char} (hx : cs'.head? = some x) : cs.head? = some x := by
  obtain ⟨ds, rfl⟩ := h
  simp [List.head?_append, hx]

private theorem Reads.cut (h : Reads a c cs t) (ht : t.text = c :: w) (hw : w <+: cs') (hcs : cs' <+: cs) :
    Reads a c cs' t := by
  cases h with
  | whitespace hc =>
    obtain ⟨-, rfl⟩ := List.cons.inj ht
    rw [← takeWhile_cut rfl hw hcs]
    exact .whitespace hc
  | lineComment hc hhead =>
    obtain ⟨-, rfl⟩ := List.cons.inj ht
    rw [← takeWhile_cut rfl hw hcs]
    exact .lineComment hc (head?_of_isPrefix hw (head?_takeWhile_of_pos hhead rfl))
  | blockComment hc hhead =>
    obtain ⟨-, rfl⟩ := List.cons.inj ht
    obtain ⟨tail, rfl⟩ := List.head?_eq_some_iff.1 hhead
    obtain ⟨tail', rfl⟩ := List.head?_eq_some_iff.1 (head?_of_isPrefix hw rfl)
    rw [List.cons_prefix_cons] at hw hcs
    have htail : blockCommentTail tail' = blockCommentTail tail := blockCommentTail_cut rfl hw.2 hcs.2
    rw [List.tail_cons, ← htail]
    exact .blockComment hc rfl
  | string hc =>
    obtain ⟨-, rfl⟩ := List.cons.inj ht
    rw [← quotedTail_cut (by rcases hc with rfl | rfl <;> decide) rfl hw hcs]
    exact .string hc
  | template hc =>
    obtain ⟨-, rfl⟩ := List.cons.inj ht
    rw [← quotedTail_cut (by rw [hc]; decide) rfl hw hcs]
    exact .template hc
  | regex hc hline hblock ha htail =>
    obtain ⟨-, rfl⟩ := List.cons.inj ht
    exact .regex hc (fun h => hline (head?_of_isPrefix hcs h)) (fun h => hblock (head?_of_isPrefix hcs h)) ha
      (regexTail_cut htail hw hcs)
  | number hc =>
    obtain ⟨-, rfl⟩ := List.cons.inj ht
    rw [← takeWhile_cut rfl hw hcs]
    refine .number (hc.imp id fun h => ⟨h.1, ?_⟩)
    obtain ⟨x, hx, hdigit⟩ := (Option.any_eq_true _ _).1 h.2
    have hpart : isNumberPart x = true := by simp [isNumberPart, Char.isAlphanum, hdigit]
    rw [head?_of_isPrefix hw (head?_takeWhile_of_pos hx hpart)]
    exact hdigit
  | identifier hspace hdigit hc =>
    obtain ⟨-, rfl⟩ := List.cons.inj ht
    rw [← takeWhile_cut rfl hw hcs]
    exact .identifier hspace hdigit hc
  | punctuator hspace hquote hdigit hstart hslash hdot =>
    have hop : operatorAt c cs = c :: w := ht
    rw [hop, ← operatorAt_cut hop hw hcs]
    refine .punctuator hspace hquote hdigit hstart (fun hc => ?_) fun hc h => hdot hc ?_
    · obtain ⟨hline, hblock, hregex⟩ := hslash hc
      refine ⟨fun h => hline (head?_of_isPrefix hcs h), fun h => hblock (head?_of_isPrefix hcs h), fun ha => ?_⟩
      by_contra hsome
      have := regexTail_isSome_of_isPrefix (Option.isSome_iff_ne_none.2 hsome) hcs
      simp [hregex ha] at this
    · obtain ⟨x, hx, hdigit⟩ := (Option.any_eq_true _ _).1 h
      rw [head?_of_isPrefix hcs hx]
      exact hdigit

/-- The token is still read if the text after it is cut. -/
theorem Token.Starts.cut {rest more : List Char} (h : t.Starts a (rest ++ more)) : t.Starts a rest := by
  obtain ⟨c, w, htext, hreads⟩ := starts_iff.1 h
  refine starts_iff.2 ⟨c, w, htext, hreads.cut htext (List.prefix_append w rest) ?_⟩
  rw [← List.append_assoc]
  exact List.prefix_append ..

/-! ### Adding to the rest -/

/-- Whether a string or template ends with its quote; other tokens need no closing. -/
def Token.isClosed (t : Token) : Bool :=
  match t.kind, t.text with
  | .string, quote :: w => closes quote w
  | .template, quote :: w => closes quote w
  | _, _ => true

/-- A division, or an assignment with one. -/
def Token.isSlash (t : Token) : Bool :=
  t.isPunctuator "/" || t.isPunctuator "/="

/-- A character at which every significant token stops. -/
structure Lexeme.IsBreak (d : Char) : Prop where
  identifier : isIdentifierPart d = false
  number : isNumberPart d = false
  operator : ∀ op ∈ operators, d ∉ op

namespace Lexeme.IsBreak

theorem of_isWhiteSpace (h : isWhiteSpace d = true) : IsBreak d where
  identifier := isIdentifierPart_of_isWhiteSpace h
  number := by
    have hpart := isIdentifierPart_of_isWhiteSpace h
    have hdot : d ≠ '.' := by
      rintro rfl
      exact absurd h (by decide)
    rw [Bool.eq_false_iff]
    intro hnumber
    simp only [isNumberPart, Char.isAlphanum, Bool.or_eq_true, beq_iff_eq, hdot, or_false] at hnumber
    rcases hnumber with (halpha | hdigit) | rfl
    · simp [isIdentifierPart, isAlphabetic_of_isAlpha halpha] at hpart
    · simp [isIdentifierPart, isNumeric_of_isDigit hdigit] at hpart
    · simp [isIdentifierPart] at hpart
  operator := by
    intro op hop hd
    simp [isWhiteSpace_of_mem_operators op hop d hd] at h

theorem of_isLineEnd (h : isLineEnd d = true) : IsBreak d :=
  of_isWhiteSpace (isWhiteSpace_of_isLineEnd h)

theorem comma : IsBreak ',' := ⟨rfl, rfl, by decide⟩

theorem openParen : IsBreak '(' := ⟨rfl, rfl, by decide⟩

theorem closeParen : IsBreak ')' := ⟨rfl, rfl, by decide⟩

variable (h : IsBreak d)

include h

theorem ne_slash : d ≠ '/' := by
  rintro rfl
  exact h.operator ['/', '='] (by decide) (by decide)

theorem ne_star : d ≠ '*' := by
  rintro rfl
  exact h.operator ['*', '*'] (by decide) (by decide)

theorem not_isDigit : d.isDigit = false := by
  have := h.number
  simp only [isNumberPart, Char.isAlphanum, Bool.or_eq_false_iff] at this
  exact this.1.1.2

end Lexeme.IsBreak

theorem isSlash_operatorAt (cs : List Char) : (⟨.punctuator, operatorAt '/' cs⟩ : Token).isSlash = true := by
  unfold operatorAt
  cases hfind : operators.find? (·.isPrefixOf ('/' :: cs)) with
  | none => rfl
  | some op =>
    have hop := List.find?_some hfind
    have hhead : ∀ op ∈ operators, op.isPrefixOf ('/' :: cs) = true → op.head? = some '/' := by
      have hne : ∀ op ∈ operators, op ≠ [] := by decide
      intro op hop hprefix
      cases op with
      | nil => exact absurd rfl (hne _ hop)
      | cons x op => rw [(List.cons_prefix_cons.1 (List.isPrefixOf_iff_prefix.1 hprefix)).1]; rfl
    have honly : ∀ op ∈ operators, op.head? = some '/' → op = ['/', '='] := by decide
    have hmem := List.mem_of_find?_eq_some hfind
    rw [honly op hmem (hhead op hmem hop)]
    rfl

private theorem head?_extend {x : Char} (h : (cs ++ d :: ds).head? = some x) : cs.head? = some x ∨ x = d := by
  cases cs with
  | nil => exact .inr (Option.some.inj h).symm
  | cons y cs => exact .inl h

private theorem Reads.extend (h : Reads a c cs t) (ht : t.isTrivia = false) (hclosed : t.isClosed = true)
    (hslash : a = true → t.isSlash = true → isLineEnd d = true) (hd : IsBreak d) : Reads a c (cs ++ d :: ds) t := by
  cases h with
  | whitespace => simp [Token.isTrivia] at ht
  | lineComment => simp [Token.isTrivia] at ht
  | blockComment => simp [Token.isTrivia] at ht
  | string hc =>
    rw [← quotedTail_extend (by rcases hc with rfl | rfl <;> decide) hclosed]
    exact .string hc
  | template hc =>
    rw [← quotedTail_extend (by rw [hc]; decide) hclosed]
    exact .template hc
  | regex hc hline hblock ha htail =>
    exact .regex hc (fun h => (head?_extend h).elim hline hd.ne_slash.symm)
      (fun h => (head?_extend h).elim hblock hd.ne_star.symm) ha (regexTail_extend htail hd.identifier)
  | number hc =>
    rw [← takeWhile_extend rfl hd.number]
    refine .number (hc.imp id fun h => ⟨h.1, ?_⟩)
    obtain ⟨x, hx, hdigit⟩ := (Option.any_eq_true _ _).1 h.2
    rw [head?_of_isPrefix (List.prefix_append ..) hx]
    exact hdigit
  | identifier hspace hdigit hc =>
    rw [← takeWhile_extend rfl hd.identifier]
    exact .identifier hspace hdigit hc
  | punctuator hspace hquote hdigit hstart hslash' hdot =>
    rw [← operatorAt_extend hd.operator]
    refine .punctuator hspace hquote hdigit hstart (fun hc => ?_) fun hc h => ?_
    · obtain ⟨hline, hblock, hregex⟩ := hslash' hc
      refine ⟨fun h => (head?_extend h).elim hline hd.ne_slash.symm,
        fun h => (head?_extend h).elim hblock hd.ne_star.symm, fun ha => ?_⟩
      -- what is added could complete a regular expression, but not on the next line
      subst hc
      exact regexTail_eq_none_of_isLineEnd (hregex ha) (hslash ha (isSlash_operatorAt cs))
    · obtain ⟨x, hx, hx'⟩ := (Option.any_eq_true _ _).1 h
      rcases head?_extend hx with hx | rfl
      · exact hdot hc (by rw [hx]; exact hx')
      · simp [hd.not_isDigit] at hx'

/-- The token is still read if the text after it is continued; a slash that might open a regular expression has to see
the end of its line. -/
theorem Token.Starts.extend_of_slash {rest : List Char} (h : t.Starts a rest) (ht : t.isTrivia = false)
    (hclosed : t.isClosed = true) (hslash : a = true → t.isSlash = true → isLineEnd d = true) (hd : IsBreak d)
    (ds : List Char) : t.Starts a (rest ++ d :: ds) := by
  obtain ⟨c, w, htext, hreads⟩ := starts_iff.1 h
  refine starts_iff.2 ⟨c, w, htext, ?_⟩
  rw [← List.append_assoc]
  exact hreads.extend ht hclosed hslash hd

/-- The token is still read if the text after it is continued. -/
theorem Token.Starts.extend {rest : List Char} (h : t.Starts a rest) (ht : t.isTrivia = false)
    (hclosed : t.isClosed = true) (hslash : a = true → t.isSlash = false) (hd : IsBreak d) (ds : List Char) :
    t.Starts a (rest ++ d :: ds) := by
  refine h.extend_of_slash ht hclosed (fun ha hs => ?_) hd ds
  rw [hslash ha] at hs
  cases hs

/-! ### The state before the token -/

private theorem Reads.congr (h : Reads a c cs t) (ht : t.isTrivia = true ∨ c ≠ '/') (b : Bool) : Reads b c cs t := by
  -- the flag is consulted for a slash only, after the two marks of comments
  cases h with
  | whitespace hc => exact .whitespace hc
  | lineComment hc hhead => exact .lineComment hc hhead
  | blockComment hc hhead => exact .blockComment hc hhead
  | string hc => exact .string hc
  | template hc => exact .template hc
  | regex hc => exact absurd hc (ht.resolve_left (by simp [Token.isTrivia]))
  | number hc => exact .number hc
  | identifier hspace hdigit hc => exact .identifier hspace hdigit hc
  | punctuator hspace hquote hdigit hstart _ hdot =>
    have hne := ht.resolve_left (by simp [Token.isTrivia])
    exact .punctuator hspace hquote hdigit hstart (fun hc => absurd hc hne) hdot

/-- Only a significant token that begins with a slash depends on whether a regular expression is allowed. -/
theorem Token.Starts.congr {rest : List Char} (h : t.Starts a rest)
    (ht : t.isTrivia = true ∨ t.text.head? ≠ some '/') (b : Bool) : t.Starts b rest := by
  obtain ⟨c, w, htext, hreads⟩ := starts_iff.1 h
  refine starts_iff.2 ⟨c, w, htext, hreads.congr (ht.imp id fun hne => ?_) b⟩
  rintro rfl
  simp [htext] at hne

/-! ### Several tokens -/

/-- Whether a slash after the tokens may open a regular expression, if one before them might have. -/
def Token.regexAfterAll (a : Bool) (ts : List Token) : Bool :=
  ts.foldl (fun a t => t.regexAfter a) a

@[simp] theorem Token.regexAfterAll_nil (a : Bool) : Token.regexAfterAll a [] = a := rfl

@[simp] theorem Token.regexAfterAll_cons (a : Bool) (t : Token) (ts : List Token) :
    Token.regexAfterAll a (t :: ts) = Token.regexAfterAll (t.regexAfter a) ts := rfl

@[simp] theorem Token.joined_append (ts us : List Token) :
    Token.joined (ts ++ us) = Token.joined ts ++ Token.joined us :=
  List.flatMap_append ..

/-- A text of the tokens and then `rest` starts with just these tokens. -/
def Lexes (rest : List Char) : Bool → List Token → Prop
  | _, [] => True
  | a, t :: ts => t.Starts a (Token.joined ts ++ rest) ∧ Lexes rest (t.regexAfter a) ts

theorem lexes_lex (a : Bool) (cs : List Char) : Lexes [] a (lex a cs) := by
  fun_induction lex a cs with
  | case1 => trivial
  | case2 a c cs t ih =>
    refine ⟨?_, ih⟩
    rw [joined_lex, List.append_nil]
    exact firstToken_starts a c cs

namespace Lexes

variable {rest : List Char} {ts us vs : List Token}

theorem lex_append (h : Lexes rest a ts) :
    lex a (Token.joined ts ++ rest) = ts ++ lex (Token.regexAfterAll a ts) rest := by
  induction ts generalizing a with
  | nil => rfl
  | cons t ts ih =>
    rw [Token.joined_cons, List.append_assoc, h.1.lex_eq, ih h.2]
    rfl

theorem lex_joined (h : Lexes [] a ts) : lex a (Token.joined ts) = ts := by
  have := h.lex_append
  simpa [lex] using this

theorem append_iff : Lexes rest a (ts ++ us) ↔
    Lexes (Token.joined us ++ rest) a ts ∧ Lexes rest (Token.regexAfterAll a ts) us := by
  induction ts generalizing a with
  | nil => simp [Lexes]
  | cons t ts ih => simp [Lexes, ih, and_assoc]

theorem cut {more : List Char} (h : Lexes (rest ++ more) a ts) : Lexes rest a ts := by
  induction ts generalizing a with
  | nil => trivial
  | cons t ts ih =>
    refine ⟨?_, ih h.2⟩
    have := h.1
    rw [← List.append_assoc] at this
    exact this.cut

/-- Tokens in the middle of others are read from their own text, if the slashes before them allow for it. -/
theorem slice (h : Lexes rest a (us ++ ts ++ vs)) : Lexes [] (Token.regexAfterAll a us) ts := by
  have := (append_iff.1 (append_iff.1 h).1).2
  rw [← List.nil_append (Token.joined vs ++ rest)] at this
  exact this.cut

/-- Whether a regular expression is allowed matters only if the first significant token begins with a slash. -/
theorem congr (h : Lexes rest a ts) (hts : ∀ t, ts.find? (!·.isTrivia) = some t → t.text.head? ≠ some '/') (b : Bool) :
    Lexes rest b ts := by
  induction ts generalizing a b with
  | nil => trivial
  | cons t ts ih =>
    cases ht : t.isTrivia with
    | true =>
      refine ⟨h.1.congr (.inl ht) b, ih h.2 (fun u hu => hts u ?_) _⟩
      simpa [ht] using hu
    | false =>
      refine ⟨h.1.congr (.inr (hts t (by simp [ht]))) b, ?_⟩
      have := h.2
      simpa [Token.regexAfter, ht] using this

end Lexes

end Injection
