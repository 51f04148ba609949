import Injection.Proofs.Token.Trimming
import Injection.Proofs.Token.Settled
import Mathlib.Data.List.Infix

/-!
# Text added at the end

A token that others follow is closed, so what is added to the text does not change it, unless it is an operator that
could be longer, or a slash that could open a regular expression.  No operator goes past a closing parenthesis or an
arrow.  So the tokens up to one of these are read whatever follows them, with the comments among them
(`Lexes.append_final`) and without (`tokens_stripComments_append`).
-/

namespace Injection

open Lexeme

variable {a inSet : Bool} {c quote : Char} {w x cs : List Char} {t : Token} {ts us : List Token}

/-! ### Scanners that stop before the end -/

namespace Lexeme

theorem takeWhile_append_of_ne {p : Char → Bool} (h : cs.takeWhile p ≠ cs) (more : List Char) :
    (cs ++ more).takeWhile p = cs.takeWhile p := by
  rw [List.takeWhile_append, if_neg]
  intro hlength
  exact h ((List.takeWhile_prefix p).eq_of_length hlength)

theorem blockCommentTail_append_of_ne (h : blockCommentTail cs ≠ cs) (more : List Char) :
    blockCommentTail (cs ++ more) = blockCommentTail cs := by
  obtain ⟨rest, hrest⟩ := blockCommentTail_isPrefix cs
  have hclosed := (blockCommentTail_closed cs).resolve_left h (rest ++ more)
  rwa [← List.append_assoc, hrest] at hclosed

theorem quotedTail_append_of_ne (hq : quote ≠ '\\') (h : quotedTail quote cs ≠ cs) (more : List Char) :
    quotedTail quote (cs ++ more) = quotedTail quote cs :=
  quotedTail_extend hq ((quotedTail_closes quote cs).resolve_left h)

theorem regexTail_append_of_ne (h : regexTail inSet cs = some w) (hw : w ≠ cs) (more : List Char) :
    regexTail inSet (cs ++ more) = some w := by
  fun_induction regexTail inSet cs generalizing w with
  | case1 => simp at h
  | case2 inSet c cs hc ih =>
    obtain ⟨r, hr, rfl⟩ := Option.map_eq_some_iff.1 h
    have hr' := ih hr fun heq => hw (by rw [heq])
    simp [regexTail, hc, hr']
  | case3 => simp at h
  | case4 inSet c cs _ hc hslash =>
    obtain rfl := Option.some.inj h
    have hflags : cs.takeWhile isIdentifierPart ≠ cs := fun heq => hw (by rw [heq])
    rw [List.cons_append, regexTail_cons hc, if_pos hslash, takeWhile_append_of_ne hflags]
  | case5 inSet c cs _ hc hslash ih =>
    obtain ⟨r, hr, rfl⟩ := Option.map_eq_some_iff.1 h
    have hr' := ih hr fun heq => hw (by rw [heq])
    rw [List.cons_append, regexTail_cons hc, if_neg hslash, hr']
    rfl
  | case6 => simp at h

/-- No operator goes on after the characters. -/
def NoOperatorPast (x : List Char) : Prop :=
  ∀ op ∈ operators, ¬ x <:+: op.dropLast

instance (x : List Char) : Decidable (NoOperatorPast x) :=
  inferInstanceAs (Decidable (∀ op ∈ operators, ¬ x <:+: op.dropLast))

theorem operatorAt_append (hx : NoOperatorPast x) (hcs : x <:+ c :: cs) (more : List Char) :
    operatorAt c (cs ++ more) = operatorAt c cs := by
  unfold operatorAt
  rw [List.find?_congr]
  intro op hop
  rw [Bool.eq_iff_iff, List.isPrefixOf_iff_prefix, List.isPrefixOf_iff_prefix, ← List.cons_append]
  constructor
  · intro hprefix
    rcases List.prefix_or_prefix_of_prefix hprefix (List.prefix_append (c :: cs) more) with h | ⟨es, rfl⟩
    · exact h
    -- a longer operator would go past the characters
    · rcases List.eq_nil_or_concat es with rfl | ⟨es, e, rfl⟩
      · simp
      · refine absurd ?_ (hx _ hop)
        rw [List.concat_eq_append, ← List.append_assoc, List.dropLast_concat]
        exact hcs.isInfix.trans (List.prefix_append _ _).isInfix
  · intro h
    exact h.trans (List.prefix_append (c :: cs) more)

end Lexeme

/-! ### Tokens before others -/

private theorem Reads.append {rest : List Char} (h : Reads a c (w ++ rest) t) (ht : t.text = c :: w) (hrest : rest ≠ [])
    (hslash : a = true → t.isSlash = false) (hx : NoOperatorPast x) (hcs : x <:+ c :: (w ++ rest))
    (more : List Char) : Reads a c (w ++ rest ++ more) t := by
  have hhead : (w ++ rest ++ more).head? = (w ++ rest).head? := by
    rw [List.head?_append_of_ne_nil]
    simp [hrest]
  have hne : ∀ {r : List Char}, t.text = c :: r → r ≠ w ++ rest := by
    rintro r hr heq
    rw [ht] at hr
    obtain rfl := (List.cons.inj hr).2
    simp at heq
    exact hrest heq
  cases h with
  | whitespace hc =>
    rw [← takeWhile_append_of_ne (hne rfl) more]
    exact .whitespace hc
  | lineComment hc hcs =>
    rw [← takeWhile_append_of_ne (hne rfl) more]
    exact .lineComment hc (hhead.trans hcs)
  | blockComment hc hcs =>
    obtain ⟨tail, htail⟩ := List.head?_eq_some_iff.1 hcs
    have hne' : blockCommentTail tail ≠ tail := by
      intro heq
      refine hne rfl ?_
      rw [htail, List.tail_cons, heq]
    rw [htail, List.tail_cons, ← blockCommentTail_append_of_ne hne' more]
    exact .blockComment hc rfl
  | string hc =>
    rw [← quotedTail_append_of_ne (by rcases hc with rfl | rfl <;> decide) (hne rfl) more]
    exact .string hc
  | template hc =>
    rw [← quotedTail_append_of_ne (by rw [hc]; decide) (hne rfl) more]
    exact .template hc
  | regex hc hline hblock ha htail =>
    exact .regex hc (by rwa [hhead]) (by rwa [hhead]) ha (regexTail_append_of_ne htail (hne rfl) more)
  | number hc =>
    rw [← takeWhile_append_of_ne (hne rfl) more]
    exact .number (by rwa [hhead])
  | identifier hspace hdigit hc =>
    rw [← takeWhile_append_of_ne (hne rfl) more]
    exact .identifier hspace hdigit hc
  | punctuator hspace hquote hdigit hstart hslash' hdot =>
    rw [← operatorAt_append hx hcs more]
    refine .punctuator hspace hquote hdigit hstart (fun hc => ?_) (by rwa [hhead])
    obtain ⟨hline, hblock, -⟩ := hslash' hc
    refine ⟨by rwa [hhead], by rwa [hhead], fun ha => ?_⟩
    -- what is added could complete a regular expression, but no slash stands where one is allowed
    subst hc
    have hno := hslash ha
    rw [isSlash_operatorAt] at hno
    cases hno

/-- A token before others is read whatever is added at the end, if no operator goes past that end. -/
theorem Token.Starts.append {rest : List Char} (h : t.Starts a rest) (hrest : rest ≠ [])
    (hslash : a = true → t.isSlash = false) (hx : NoOperatorPast x) (hsuffix : x <:+ t.text ++ rest)
    (more : List Char) : t.Starts a (rest ++ more) := by
  obtain ⟨c, w, htext, hreads⟩ := starts_iff.1 h
  refine starts_iff.2 ⟨c, w, htext, ?_⟩
  rw [← List.append_assoc]
  refine hreads.append htext hrest hslash hx ?_ more
  rwa [htext] at hsuffix

/-- The token is read wherever it stands, and no operator goes past it. -/
structure Token.IsFinal (t : Token) : Prop where
  starts : ∀ a rest, t.Starts a rest
  operators : NoOperatorPast t.text
  significant : t.isTrivia = false
  visible : ∀ c ∈ t.text, isWhiteSpace c = false

/-- The tokens up to a final one are read whatever follows. -/
theorem Lexes.append_final (h : Lexes [] a (ts ++ [t])) (hs : SlashSafe a (ts ++ [t])) (ht : t.IsFinal)
    (more : List Char) : Lexes more a (ts ++ [t]) := by
  induction ts generalizing a with
  | nil => exact ⟨ht.starts a _, trivial⟩
  | cons u ts ih =>
    refine ⟨?_, ih h.2 hs.2⟩
    have hstarts := h.1
    rw [List.append_nil] at hstarts
    refine hstarts.append ?_ hs.1 ht.operators ?_ more
    · have hne := (ht.starts a []).ne_nil
      simp [hne]
    · exact ⟨u.text ++ Token.joined ts, by simp⟩

/-! ### Without comments -/

/-- A text that ends with a final token has it as its last, if it is the last one that is significant. -/
private theorem eq_append_final (h : Lexes [] a ts) (hc : CommentFree ts) (ht : t.IsFinal)
    (hsig : significant ts = us ++ [t]) (hend : t.text <:+ Token.joined ts) :
    ∃ vs, ts = vs ++ [t] ∧ significant vs = us := by
  obtain ⟨vs, layout, rfl, hvs, hlayout⟩ := exists_of_significant_eq hsig
  have hlex := (Lexes.append_iff.1 h).2
  have hspace := (significant_eq_nil_iff hlex.2 (hc.subset fun u hu => by simp [hu])).1 hlayout
  cases layout with
  | nil => exact ⟨vs, rfl, hvs⟩
  | cons u layout =>
    -- the text would end with white space
    exfalso
    have hne : Token.joined (u :: layout) ≠ [] := by
      have := hlex.2.1.ne_nil
      simp [this]
    have hlast : (Token.joined (vs ++ t :: u :: layout)).getLast? = (Token.joined (u :: layout)).getLast? := by
      rw [Token.joined_append, Token.joined_cons, List.getLast?_append_of_ne_nil _
        fun h => hne (List.append_eq_nil_iff.1 h).2,
        List.getLast?_append_of_ne_nil _ hne]
    obtain ⟨before, hbefore⟩ := hend
    have htext := (ht.starts a []).ne_nil
    rw [← hbefore, List.getLast?_append_of_ne_nil _ htext, List.getLast?_eq_some_getLast htext,
      List.getLast?_eq_some_getLast hne] at hlast
    have hvisible := ht.visible _ (List.getLast_mem htext)
    rw [Option.some.inj hlast, hspace _ (List.getLast_mem hne)] at hvisible
    cases hvisible

/-- The text without comments, where a regular expression may stand at its start or not. -/
def stripFrom (a : Bool) (cs : List Char) : List Char :=
  (lex a cs).flatMap Token.uncommented

/-- A text that ends with a final token is read the same when its comments are stripped, and what follows it is stripped
and read by itself. -/
theorem tokens_stripComments_final (hcs : tokens cs = us ++ [t]) (hs : SlashSafe true (tokens cs)) (ht : t.IsFinal) :
    ∃ vs, significant vs = significant us ∧ tokens (stripComments cs) = vs ++ [t] ∧
      ∀ more, tokens (stripComments (cs ++ more)) =
        vs ++ t :: lex t.precedesExpression (stripFrom t.precedesExpression more) := by
  have hlex : Lexes [] true (us ++ [t]) := hcs ▸ lexes_lex true cs
  have hsafe : SlashSafe true (us ++ [t]) := hcs ▸ hs
  have hjoined : Token.joined (us ++ [t]) = cs := by rw [← hcs, joined_tokens]
  have hsig := significant_tokens_stripComments hs
  have hfree := commentFree_tokens_stripComments hs
  have hend : t.uncommented = t.text :=
    Token.uncommented_of_not_isComment (Token.isComment_of_not_isTrivia ht.significant)
  have hstrip : stripComments cs = us.flatMap Token.uncommented ++ t.text := by
    rw [stripComments, hcs, List.flatMap_append]
    simp [hend]
  have hlast : t.text <:+ Token.joined (tokens (stripComments cs)) := by
    rw [joined_tokens, hstrip]
    exact List.suffix_append ..
  have hsigend : significant (tokens (stripComments cs)) = significant us ++ [t] := by
    rw [hsig, hcs, significant_append, significant_cons ht.significant, significant_nil]
  obtain ⟨vs, hvs, hvsig⟩ := eq_append_final (lexes_lex true (stripComments cs)) hfree ht hsigend hlast
  have hvs' : tokens (stripComments cs) = vs ++ [t] := hvs
  refine ⟨vs, hvsig, hvs', fun more => ?_⟩
  have hafter (ts : List Token) : Token.regexAfterAll true (ts ++ [t]) = t.precedesExpression := by
    rw [Token.regexAfterAll, List.foldl_append]
    simp [Token.regexAfter, ht.significant]
  -- what follows is read after the tokens both with the comments and without them
  have hmore : tokens (cs ++ more) = us ++ [t] ++ lex t.precedesExpression more := by
    have := (hlex.append_final hsafe ht more).lex_append
    rwa [hjoined, hafter] at this
  have hmorestrip : stripComments (cs ++ more) = stripComments cs ++ stripFrom t.precedesExpression more := by
    rw [stripComments, hmore, List.flatMap_append, stripComments, hcs, stripFrom]
  have hvslex : Lexes [] true (vs ++ [t]) := hvs ▸ lexes_lex true (stripComments cs)
  have hvssafe : SlashSafe true (vs ++ [t]) := by
    rw [← hvs', ← slashSafe_significant, hsig, slashSafe_significant]
    exact hs
  have hread := (hvslex.append_final hvssafe ht (stripFrom t.precedesExpression more)).lex_append
  rw [← hvs', joined_tokens, ← hmorestrip, hvs', ← List.append_cons, hafter] at hread
  exact hread

theorem tokens_stripComments_append (hcs : tokens cs = us ++ [t]) (hs : SlashSafe true (tokens cs)) (ht : t.IsFinal)
    (more : List Char) : ∃ vs ws, significant vs = significant us ∧ tokens (stripComments cs) = vs ++ [t] ∧
      tokens (stripComments (cs ++ more)) = vs ++ t :: ws := by
  obtain ⟨vs, hsig, hstrip, hmore⟩ := tokens_stripComments_final hcs hs ht
  exact ⟨vs, _, hsig, hstrip, hmore more⟩

/-! ### Where it does not matter whether a regular expression may stand -/

/-- Where the text has no slash first, it has none without its comments. -/
private theorem head?_flatMap_uncommented (h : Lexes [] a ts)
    (hts : ∀ u, ts.find? (!·.isTrivia) = some u → u.text.head? ≠ some '/') :
    ((ts.flatMap Token.uncommented).dropWhile isWhiteSpace).head? ≠ some '/' := by
  induction ts generalizing a with
  | nil => simp
  | cons t ts ih =>
    rw [List.flatMap_cons]
    cases ht : t.isTrivia with
    | true =>
      rw [List.dropWhile_append_of_pos (h.1.isWhiteSpace_uncommented ht)]
      exact ih h.2 fun u hu => hts u (by simpa [ht] using hu)
    | false =>
      obtain ⟨c, w, htext⟩ := List.exists_cons_of_ne_nil h.1.ne_nil
      have hspace : isWhiteSpace c = false := by
        rw [Bool.eq_false_iff]
        intro hc
        have hkind := h.1.kind_of_isWhiteSpace (by rw [htext]; rfl) hc
        simp [Token.isTrivia, hkind] at ht
      have hslash := hts t (List.find?_cons_of_pos (by simp [ht]))
      rw [Token.uncommented_of_not_isComment (Token.isComment_of_not_isTrivia ht), htext, List.cons_append,
        List.dropWhile_cons_of_neg (by simp [hspace])]
      rwa [htext] at hslash

/-- A text whose first significant token begins with no slash is stripped and read in the same way wherever it
stands. -/
theorem lex_stripFrom_congr (h : ∀ u, (tokens cs).find? (!·.isTrivia) = some u → u.text.head? ≠ some '/')
    (a : Bool) : lex a (stripFrom a cs) = tokens (stripComments cs) := by
  have hlex : lex a cs = tokens cs := by
    have hcongr := (lexes_lex true cs).congr h a
    rw [tokens, ← hcongr.lex_joined, joined_lex]
  have hstrip : stripFrom a cs = stripComments cs := by
    rw [stripFrom, hlex, stripComments]
  rw [hstrip]
  exact lex_congr (head?_flatMap_uncommented (lexes_lex true cs) h) a true

end Injection
