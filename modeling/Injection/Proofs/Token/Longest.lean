import Injection.Proofs.Token.RegularExpression
import Mathlib.Algebra.Group.Nat.Even

/-!
# The longest token

Every token reaches as far as its kind allows (`tokens_isLongest`): a run of characters up to the first that does not
belong, a comment or literal up to the first place where it is closed, an operator to the longest that fits.  A quote is
escaped if an odd number of backslashes stands before it; the scanner, which skips the character after a backslash,
never counts them.
-/

namespace Injection

open Lexeme

variable {a : Bool} {c quote : Char} {u v w cs rest : List Char} {t : Token} {us vs : List Token}

namespace Lexeme

/-! ### Where comments and literals are closed -/

/-- The text is closed, or nothing follows it, and no shorter part of it is closed. -/
structure EndsAtFirst (Closed : List Char → Prop) (w rest : List Char) : Prop where
  closed_or : Closed w ∨ rest = []
  first : ∀ u, u <+: w → Closed u → u = w

/-- A scanner that reads all of a text or comes to a place where it is closed, and past none. -/
theorem EndsAtFirst.of_scanner {Closed : List Char → Prop} {scan : List Char → List Char}
    (hor : ∀ cs, scan cs = cs ∨ Closed (scan cs)) (hfirst : ∀ cs u, u <+: scan cs → Closed u → u = scan cs)
    (h : scan (w ++ rest) = w) : EndsAtFirst Closed w rest where
  closed_or := by
    have hscan := hor (w ++ rest)
    rw [h] at hscan
    exact hscan.symm.imp id fun hall => by simpa using hall
  first u hu hclosed := by
    have hscan := hfirst (w ++ rest) u
    rw [h] at hscan
    exact hscan hu hclosed

/-- The text ends with the mark that closes a block comment. -/
def EndsWithMark (u : List Char) : Prop :=
  ['*', '/'] <:+ u

/-- The number of backslashes at the end of the text. -/
def backslashes (v : List Char) : Nat :=
  (v.reverse.takeWhile (· == '\\')).length

/-- The text ends with the quote, which no backslash escapes. -/
def EndsWithQuote (quote : Char) (u : List Char) : Prop :=
  ∃ v, u = v ++ [quote] ∧ Even (backslashes v)

theorem blockCommentTail_or (cs : List Char) : blockCommentTail cs = cs ∨ EndsWithMark (blockCommentTail cs) := by
  fun_induction blockCommentTail cs with
  | case1 cs => exact .inr List.suffix_rfl
  | case2 c cs hc ih => exact ih.imp (congrArg (c :: ·)) fun h => h.trans (List.suffix_cons ..)
  | case3 => exact .inl rfl

theorem blockCommentTail_first (hu : u <+: blockCommentTail cs) (h : EndsWithMark u) : u = blockCommentTail cs := by
  fun_induction blockCommentTail cs generalizing u with
  | case1 cs => exact hu.eq_of_length_le h.length_le
  | case2 c cs hc ih =>
    cases u with
    | nil => simp [EndsWithMark] at h
    | cons d u =>
      obtain ⟨rfl, hu'⟩ := List.cons_prefix_cons.1 hu
      rcases List.suffix_cons_iff.1 h with heq | h'
      -- the mark would have been found where this part begins
      · obtain ⟨hstar, rfl⟩ := List.cons.inj heq
        obtain ⟨rest, hrest⟩ := hu'.trans (blockCommentTail_isPrefix cs)
        exact (hc rest hstar.symm hrest.symm).elim
      · rw [ih hu' h']
  | case3 => exact List.prefix_nil.1 hu

theorem endsAtFirst_blockCommentTail (h : blockCommentTail (w ++ rest) = w) : EndsAtFirst EndsWithMark w rest :=
  .of_scanner blockCommentTail_or (fun _ _ => blockCommentTail_first) h

theorem backslashes_cons (hc : c ≠ '\\') (v : List Char) : backslashes (c :: v) = backslashes v := by
  have hnil : [c].takeWhile (· == '\\') = [] := by simp [hc]
  simp only [backslashes, List.reverse_cons, List.takeWhile_append, hnil]
  split
  · rename_i hall
    rw [List.append_nil, hall]
  · rfl

/-- A backslash and the character that it escapes do not change whether the number is even. -/
theorem even_backslashes_escaped (c : Char) (v : List Char) :
    Even (backslashes ('\\' :: c :: v)) ↔ Even (backslashes v) := by
  by_cases hc : c = '\\'
  · subst hc
    have hpair : [('\\' : Char), '\\'].takeWhile (· == '\\') = ['\\', '\\'] := rfl
    have hreverse : ('\\' :: '\\' :: v).reverse = v.reverse ++ ['\\', '\\'] := by simp
    simp only [backslashes, hreverse, List.takeWhile_append, hpair]
    split
    · rename_i hall
      rw [List.length_append, hall, List.length_cons, List.length_singleton, Nat.even_add]
      simp
    · rfl
  · have hnone : [c, '\\'].takeWhile (· == '\\') = [] := by simp [hc]
    have hreverse : ('\\' :: c :: v).reverse = v.reverse ++ [c, '\\'] := by simp
    simp only [backslashes, hreverse, List.takeWhile_append, hnone]
    split
    · rename_i hall
      rw [List.append_nil, hall]
    · rfl

theorem endsWithQuote_cons (hc : c ≠ '\\') (hq : c ≠ quote) :
    EndsWithQuote quote (c :: u) ↔ EndsWithQuote quote u := by
  constructor
  · rintro ⟨v, hv, heven⟩
    cases v with
    | nil => exact absurd (List.cons.inj hv).1 hq
    | cons d v =>
      obtain ⟨rfl, rfl⟩ := List.cons.inj hv
      exact ⟨v, rfl, by rwa [backslashes_cons hc] at heven⟩
  · rintro ⟨v, rfl, heven⟩
    exact ⟨c :: v, rfl, by rwa [backslashes_cons hc]⟩

theorem endsWithQuote_escaped : EndsWithQuote quote ('\\' :: c :: u) ↔ EndsWithQuote quote u := by
  constructor
  · rintro ⟨v, hv, heven⟩
    rcases v with _ | ⟨d, _ | ⟨e, v⟩⟩
    · simp at hv
    · obtain ⟨rfl, -⟩ := List.cons.inj hv
      exact absurd heven (by decide)
    · obtain ⟨rfl, hv'⟩ := List.cons.inj hv
      obtain ⟨rfl, rfl⟩ := List.cons.inj hv'
      exact ⟨v, rfl, (even_backslashes_escaped c v).1 heven⟩
  · rintro ⟨v, rfl, heven⟩
    exact ⟨'\\' :: c :: v, rfl, (even_backslashes_escaped c v).2 heven⟩

theorem quotedTail_or (quote : Char) (cs : List Char) :
    quotedTail quote cs = cs ∨ EndsWithQuote quote (quotedTail quote cs) := by
  fun_induction quotedTail quote cs with
  | case1 c cs ih => exact ih.imp (congrArg ('\\' :: c :: ·)) endsWithQuote_escaped.2
  | case2 cs => exact .inr ⟨[], rfl, by decide⟩
  | case3 c cs hescape hc ih =>
    cases cs with
    | nil => exact .inl rfl
    | cons d cs =>
      have hc' : c ≠ '\\' := fun hc' => hescape d cs hc' rfl
      exact ih.imp (congrArg (c :: ·)) (endsWithQuote_cons hc' hc).2
  | case4 => exact .inl rfl

theorem not_endsWithQuote_nil : ¬ EndsWithQuote quote [] := by
  rintro ⟨v, hv, -⟩
  simp at hv

theorem quotedTail_first (hq : quote ≠ '\\') (hu : u <+: quotedTail quote cs) (h : EndsWithQuote quote u) :
    u = quotedTail quote cs := by
  fun_induction quotedTail quote cs generalizing u with
  | case1 c cs ih =>
    rcases u with _ | ⟨d, _ | ⟨e, u⟩⟩
    · exact absurd h not_endsWithQuote_nil
    · obtain ⟨rfl, -⟩ := List.cons_prefix_cons.1 hu
      obtain ⟨v, hv, -⟩ := h
      exact absurd (List.append_eq_singleton_iff.1 hv.symm) (by simp [hq])
    · obtain ⟨rfl, hu'⟩ := List.cons_prefix_cons.1 hu
      obtain ⟨rfl, hu''⟩ := List.cons_prefix_cons.1 hu'
      rw [ih hu'' (endsWithQuote_escaped.1 h)]
  | case2 cs =>
    obtain ⟨v, rfl, -⟩ := h
    exact hu.eq_of_length_le (by simp)
  | case3 c cs hescape hc ih =>
    cases u with
    | nil => exact absurd h not_endsWithQuote_nil
    | cons d u =>
      obtain ⟨rfl, hu'⟩ := List.cons_prefix_cons.1 hu
      cases cs with
      | nil =>
        rw [List.prefix_nil.1 hu']
        rfl
      | cons e cs =>
        have hd : d ≠ '\\' := fun hd => hescape e cs hd rfl
        rw [ih hu' ((endsWithQuote_cons hd hc).1 h)]
  | case4 => exact List.prefix_nil.1 hu

theorem endsAtFirst_quotedTail (hq : quote ≠ '\\') (h : quotedTail quote (w ++ rest) = w) :
    EndsAtFirst (EndsWithQuote quote) w rest :=
  .of_scanner (quotedTail_or quote) (fun _ _ => quotedTail_first hq) h

/-! ### The longest operator -/

/-- The text is the longest operator with which the whole text begins, or its first character if there is none. -/
def IsLongestOperator (w rest : List Char) : Prop :=
  (w ∈ operators ∧ ∀ op ∈ operators, op <+: w ++ rest → op.length ≤ w.length) ∨
    (w.length = 1 ∧ ∀ op ∈ operators, ¬ op <+: w ++ rest)

theorem operators_pairwise : operators.Pairwise fun op op' => op'.length ≤ op.length := by
  decide

theorem isLongestOperator_operatorAt (h : operatorAt c cs = w) (hw : w ++ rest = c :: cs) :
    IsLongestOperator w rest := by
  unfold IsLongestOperator
  rw [hw]
  unfold operatorAt at h
  cases hfind : operators.find? (·.isPrefixOf (c :: cs)) with
  | none =>
    rw [hfind, Option.getD_none] at h
    refine .inr ⟨by rw [← h]; rfl, fun op hop hprefix => ?_⟩
    exact List.find?_eq_none.1 hfind op hop (List.isPrefixOf_iff_prefix.2 hprefix)
  | some op =>
    rw [hfind, Option.getD_some] at h
    subst h
    obtain ⟨-, before, after, hops, hbefore⟩ := List.find?_eq_some_iff_append.1 hfind
    refine .inl ⟨List.mem_of_find?_eq_some hfind, fun op' hop' hprefix => ?_⟩
    -- those before it in the list do not fit, those after it are no longer
    have hpairwise := operators_pairwise
    rw [hops] at hop' hpairwise
    rcases List.mem_append.1 hop' with hmem | hmem
    · have hno := hbefore op' hmem
      rw [List.isPrefixOf_iff_prefix.2 hprefix] at hno
      cases hno
    · rcases List.mem_cons.1 hmem with rfl | hmem
      · exact le_rfl
      · exact (List.pairwise_cons.1 (List.pairwise_append.1 hpairwise).2.1).1 op' hmem

end Lexeme

/-! ### Tokens -/

/-- No white space, comment, literal, number or identifier begins the text `c :: cs`. -/
structure Lexeme.BeginsOperator (c : Char) (cs : List Char) : Prop where
  space : isWhiteSpace c = false
  comment : c = '/' → cs.head? ≠ some '/' ∧ cs.head? ≠ some '*'
  quote : c ≠ '\x27' ∧ c ≠ '\x22' ∧ c ≠ '\x60'
  digit : c.isDigit = false
  point : c = '.' → ¬ cs.head?.any Char.isDigit
  identifier : isIdentifierStart c = false

/-- The token reaches as far as its kind allows in a text that goes on with `rest`. -/
inductive Token.IsLongest (rest : List Char) : Token → Prop
  | whitespace {w : List Char} (hw : w ≠ []) (hrun : IsRun isWhiteSpace w rest) : IsLongest rest ⟨.whitespace, w⟩
  | lineComment {w : List Char} (hrun : IsRun (!isLineEnd ·) ('/' :: '/' :: w) rest) :
    IsLongest rest ⟨.lineComment, '/' :: '/' :: w⟩
  | blockComment {w : List Char} (hend : EndsAtFirst EndsWithMark w rest) :
    IsLongest rest ⟨.blockComment, '/' :: '*' :: w⟩
  | string {quote : Char} {w : List Char} (hquote : quote = '\x27' ∨ quote = '\x22')
    (hend : EndsAtFirst (EndsWithQuote quote) w rest) : IsLongest rest ⟨.string, quote :: w⟩
  | template {w : List Char} (hend : EndsAtFirst (EndsWithQuote '\x60') w rest) :
    IsLongest rest ⟨.template, '\x60' :: w⟩
  | regex {p flags : List Char} (hp : IsPattern p) (hrun : IsRun isIdentifierPart flags rest) :
    IsLongest rest ⟨.regex, '/' :: (p ++ '/' :: flags)⟩
  | number {c : Char} {w : List Char} (hc : c.isDigit = true ∨ (c = '.' ∧ w.head?.any Char.isDigit = true))
    (hrun : IsRun isNumberPart (c :: w) rest) : IsLongest rest ⟨.number, c :: w⟩
  | identifier {c : Char} {w : List Char} (hc : isIdentifierStart c = true)
    (hrun : IsRun isIdentifierPart (c :: w) rest) : IsLongest rest ⟨.identifier, c :: w⟩
  | punctuator {c : Char} {w : List Char} (hfirst : BeginsOperator c (w ++ rest))
    (hop : IsLongestOperator (c :: w) rest) : IsLongest rest ⟨.punctuator, c :: w⟩

/-- A token that is read at the start of a text is the longest of its kind there. -/
theorem Token.Starts.isLongest (h : t.Starts a rest) : t.IsLongest rest := by
  obtain ⟨c, w, htext, hreads⟩ := starts_iff.1 h
  have run {belongs : Char → Bool} (hc : belongs c = true) (hw : (w ++ rest).takeWhile belongs = w) :
      IsRun belongs (c :: w) rest := by
    obtain ⟨hall, hstop⟩ := takeWhile_append_eq_left_iff.1 hw
    exact ⟨List.forall_mem_cons.2 ⟨hc, hall⟩, hstop⟩
  cases hreads with
  | whitespace hc =>
    have hw := (List.cons.inj htext).2
    rw [hw]
    exact .whitespace (List.cons_ne_nil _ _) (run hc hw)
  | lineComment hc hcs =>
    have hw := (List.cons.inj htext).2
    subst hc
    have hrun : IsRun (!isLineEnd ·) ('/' :: w) rest := run rfl hw
    have hhead := head?_takeWhile_of_pos (p := (!isLineEnd ·)) hcs rfl
    rw [hw] at hhead ⊢
    obtain ⟨tail, rfl⟩ := List.head?_eq_some_iff.1 hhead
    exact .lineComment hrun
  | blockComment hc hcs =>
    have hw := (List.cons.inj htext).2
    subst hc
    rw [hw]
    cases w with
    | nil => cases hw
    | cons d w =>
      obtain ⟨rfl, hw⟩ := List.cons.inj hw
      exact .blockComment (endsAtFirst_blockCommentTail hw)
  | string hc =>
    have hw := (List.cons.inj htext).2
    rw [hw]
    exact .string hc (endsAtFirst_quotedTail (by rcases hc with rfl | rfl <;> decide) hw)
  | template hc =>
    have hw := (List.cons.inj htext).2
    subst hc
    rw [hw]
    exact .template (endsAtFirst_quotedTail (by decide) hw)
  | regex hc hline hblock ha htail =>
    obtain rfl := (List.cons.inj htext).2
    subst hc
    obtain ⟨p, after, hp, hafter, rfl⟩ := regexTail_eq_some_iff.1 htail
    have hsplit : after.takeWhile isIdentifierPart ++ rest = after := by simpa using hafter
    refine .regex hp (takeWhile_append_eq_left_iff.1 ?_)
    rw [hsplit]
  | number hc =>
    have hw := (List.cons.inj htext).2
    have hrun := run (isNumberPart_of_number hc) hw
    rw [hw]
    refine .number (hc.imp id fun h => ⟨h.1, ?_⟩) hrun
    obtain ⟨x, hx, hdigit⟩ := (Option.any_eq_true _ _).1 h.2
    have hhead := head?_takeWhile_of_pos (p := isNumberPart) hx (by simp [isNumberPart, Char.isAlphanum, hdigit])
    rw [hw] at hhead
    rw [hhead]
    exact hdigit
  | identifier hspace hdigit hc =>
    have hw := (List.cons.inj htext).2
    rw [hw]
    exact .identifier hc (run (isIdentifierPart_of_start hc) hw)
  | punctuator hspace hquote hdigit hstart hslash hdot =>
    have hw : operatorAt c (w ++ rest) = c :: w := htext
    rw [hw]
    refine .punctuator ⟨hspace, fun hc => ⟨(hslash hc).1, (hslash hc).2.1⟩, hquote, hdigit, hdot, hstart⟩ ?_
    exact isLongestOperator_operatorAt hw rfl

/-- Every token of a source is the longest of its kind at its place. -/
theorem tokens_isLongest (source : String) (us vs : List Token) (t : Token)
    (h : tokens source.toList = us ++ t :: vs) : t.IsLongest (Token.joined vs) :=
  (Token.starts_of_tokens_eq h).isLongest

/-- A string that holds an escaped backslash, an escaped quote and the mark of a comment. -/
theorem tokens_isLongest_escapes :
    tokens "s = '\\\\\\' /* ' + 1".toList =
        tokens "s = ".toList ++ ⟨.string, "'\\\\\\' /* '".toList⟩ :: lex false " + 1".toList ∧
      Token.IsLongest (Token.joined (lex false " + 1".toList)) ⟨.string, "'\\\\\\' /* '".toList⟩ := by
  have h : tokens "s = '\\\\\\' /* ' + 1".toList =
      tokens "s = ".toList ++ ⟨.string, "'\\\\\\' /* '".toList⟩ :: lex false " + 1".toList := by
    decide +kernel
  exact ⟨h, tokens_isLongest _ _ _ _ h⟩

end Injection
