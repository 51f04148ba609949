import Injection.Proofs.Token.Significant

/-!
# Texts put together

A text that has no comments and no open literals, and in which no slash stands for an operator where a regular
expression is allowed, keeps its significant tokens when others follow at a break.  `Settled` says so of a text along
with these tokens; settled texts are put together token by token (`Settled.cons`) and part by part (`Settled.append`).
-/

namespace Injection

open Lexeme

variable {a : Bool} {c : Char} {cs : List Char} {t : Token} {ts sig sig' : List Token}

/-! ### What significant tokens decide -/

theorem Token.regexAfterAll_significant (a : Bool) (ts : List Token) :
    Token.regexAfterAll a (significant ts) = Token.regexAfterAll a ts := by
  induction ts generalizing a with
  | nil => rfl
  | cons t ts ih =>
    cases ht : t.isTrivia with
    | true =>
      rw [significant_cons_of_trivia ht, ih, Token.regexAfterAll_cons, Token.regexAfter, if_pos ht]
    | false => rw [significant_cons ht, Token.regexAfterAll_cons, Token.regexAfterAll_cons, ih]

theorem Token.isSlash_of_isTrivia (ht : t.isTrivia = true) : t.isSlash = false := by
  cases t with
  | mk k text => cases k <;> simp_all [isTrivia, isSlash, isPunctuator]

theorem slashSafe_significant : SlashSafe a (significant ts) ↔ SlashSafe a ts := by
  induction ts generalizing a with
  | nil => exact Iff.rfl
  | cons t ts ih =>
    cases ht : t.isTrivia with
    | true =>
      rw [significant_cons_of_trivia ht, ih, SlashSafe, Token.isSlash_of_isTrivia ht, Token.regexAfter, if_pos ht]
      simp
    | false => rw [significant_cons ht, SlashSafe, SlashSafe, ih]

theorem Token.isClosed_of_isTrivia (ht : t.isTrivia = true) : t.isClosed = true := by
  cases t with
  | mk k text => cases k <;> simp_all [isTrivia, isClosed]

/-! ### Settled texts -/

/-- The text has these significant tokens, whatever follows it at a break. -/
structure Settled (a : Bool) (cs : List Char) (sig : List Token) : Prop where
  reduces : Reduces a cs sig
  closed : ∀ t ∈ sig, t.isClosed = true
  slashSafe : SlashSafe a sig

namespace Settled

theorem nil (a : Bool) : Settled a [] [] :=
  ⟨.nil, List.forall_mem_nil _, trivial⟩

theorem isClosed_of_mem (h : Settled a cs sig) (ht : t ∈ lex a cs) : t.isClosed = true := by
  cases htrivia : t.isTrivia with
  | true => exact Token.isClosed_of_isTrivia htrivia
  | false =>
    have hsig : t ∈ significant (lex a cs) := List.mem_filter.2 ⟨ht, by simp [htrivia]⟩
    rw [h.reduces.2] at hsig
    exact h.closed t hsig

theorem slashSafe_lex (h : Settled a cs sig) : SlashSafe a (lex a cs) := by
  rw [← slashSafe_significant, h.reduces.2]
  exact h.slashSafe

/-- Before a break that is no white space, a settled text has its very tokens. -/
theorem lexes (h : Settled a cs sig) (hc : IsBreak c) (hspace : isWhiteSpace c = false) (rest : List Char) :
    Lexes (c :: rest) a (lex a cs) := by
  refine (lexes_lex a cs).extend h.reduces.1 (fun t ht => h.isClosed_of_mem ht) h.slashSafe_lex ?_ hc rest
  intro hc'
  rw [hspace] at hc'
  cases hc'

theorem whiteSpace_append {w : List Char} (hw : ∀ c ∈ w, isWhiteSpace c = true) (h : Settled a cs sig) :
    Settled a (w ++ cs) sig :=
  ⟨(Reduces.whiteSpace_append_iff hw).2 h.reduces, h.closed, h.slashSafe⟩

/-- One more token in front. -/
theorem cons (ht : t.Starts a cs) (htrivia : t.isTrivia = false) (hclosed : t.isClosed = true)
    (hslash : a = true → t.isSlash = false) (h : Settled (t.regexAfter a) cs sig) :
    Settled a (t.text ++ cs) (t :: sig) :=
  ⟨.cons ht htrivia h.reduces, List.forall_mem_cons.2 ⟨hclosed, h.closed⟩, hslash, h.slashSafe⟩

private theorem reduces_joined_append (h : Lexes [] a ts) (hc : CommentFree ts) (hclosed : ∀ t ∈ ts, t.isClosed = true)
    (hs : SlashSafe a ts) (hbreak : IsBreak c) {rest : List Char}
    (hrest : Reduces (Token.regexAfterAll a ts) (c :: rest) sig') :
    Reduces a (Token.joined ts ++ c :: rest) (significant ts ++ sig') := by
  induction ts generalizing a with
  | nil => exact hrest
  | cons t ts ih =>
    obtain ⟨ht, hc⟩ := List.forall_mem_cons.1 hc
    obtain ⟨htclosed, hclosed⟩ := List.forall_mem_cons.1 hclosed
    have htail := ih h.2 hc hclosed hs.2 hrest
    have hstarts := h.1
    rw [List.append_nil] at hstarts
    rw [Token.joined_cons, List.append_assoc]
    cases htrivia : t.isTrivia with
    | true =>
      have hspace := hstarts.isWhiteSpace_of_kind (Token.kind_of_isTrivia htrivia ht)
      rw [Token.regexAfter, if_pos htrivia] at htail
      rw [significant_cons_of_trivia htrivia]
      exact (Reduces.whiteSpace_append_iff hspace).2 htail
    | false =>
      rw [significant_cons htrivia]
      exact .cons (hstarts.extend htrivia htclosed hs.1 hbreak rest) htrivia htail

theorem slashSafe_append (h : SlashSafe a sig) (h' : SlashSafe (Token.regexAfterAll a sig) sig') :
    SlashSafe a (sig ++ sig') := by
  induction sig generalizing a with
  | nil => exact h'
  | cons t sig ih => exact ⟨h.1, ih h.2 h'⟩

/-- Two texts, the second of which begins with a break. -/
theorem append (h : Settled a cs sig) (hc : IsBreak c) {rest : List Char}
    (h' : Settled (Token.regexAfterAll a sig) (c :: rest) sig') : Settled a (cs ++ c :: rest) (sig ++ sig') := by
  have hafter : Token.regexAfterAll a (lex a cs) = Token.regexAfterAll a sig := by
    rw [← Token.regexAfterAll_significant, h.reduces.2]
  have hrest : Reduces (Token.regexAfterAll a (lex a cs)) (c :: rest) sig' := by
    rw [hafter]
    exact h'.reduces
  have hreduces := reduces_joined_append (lexes_lex a cs) h.reduces.1 (fun t ht => h.isClosed_of_mem ht)
    h.slashSafe_lex hc hrest
  rw [joined_lex, h.reduces.2] at hreduces
  exact ⟨hreduces, List.forall_mem_append.2 ⟨h.closed, h'.closed⟩, slashSafe_append h.slashSafe h'.slashSafe⟩

/-- The first significant token begins with the first character that is no white space. -/
private theorem head?_significant (h : Reduces a cs sig) (ht : sig.head? = some t) :
    t.isTrivia = false ∧ t.text.head? = (cs.dropWhile isWhiteSpace).head? := by
  have hdrop := Reduces.dropWhile_iff.2 h
  cases hcs : cs.dropWhile isWhiteSpace with
  | nil =>
    rw [hcs, Reduces, lex] at hdrop
    rw [← hdrop.2] at ht
    cases ht
  | cons d ds =>
    have hd : isWhiteSpace d = false := by
      have := List.head?_dropWhile_not isWhiteSpace cs
      rw [hcs] at this
      simpa using this
    have hhead := head?_text_firstToken a d ds
    rw [hcs, Reduces, lex] at hdrop
    obtain ⟨hcomment, -⟩ := List.forall_mem_cons.1 hdrop.1
    have htrivia : (firstToken a d ds).isTrivia = false := by
      rw [Bool.eq_false_iff]
      intro htrivia
      have hspace := (firstToken_starts a d ds).isWhiteSpace_of_kind (Token.kind_of_isTrivia htrivia hcomment) d
        (List.mem_of_mem_head? hhead)
      rw [hd] at hspace
      cases hspace
    rw [← hdrop.2, significant_cons htrivia] at ht
    obtain rfl := Option.some.inj ht
    exact ⟨htrivia, hhead⟩

/-- Where no slash comes first, it does not matter whether a regular expression may. -/
theorem congr (h : Settled a cs sig) (hcs : (cs.dropWhile isWhiteSpace).head? ≠ some '/') (b : Bool) :
    Settled b cs sig := by
  have hhead : ∀ t, sig.head? = some t → t.isTrivia = false ∧ t.text.head? ≠ some '/' := by
    intro t ht
    obtain ⟨htrivia, htext⟩ := head?_significant h.reduces ht
    exact ⟨htrivia, by rwa [htext]⟩
  have hlex : lex b cs = lex a cs := lex_congr hcs b a
  have hreduces : Reduces b cs sig := by
    unfold Reduces
    rw [hlex]
    exact h.reduces
  refine ⟨hreduces, h.closed, ?_⟩
  have hslash := h.slashSafe
  cases sig with
  | nil => trivial
  | cons t sig =>
    obtain ⟨htrivia, htext⟩ := hhead t rfl
    constructor
    · intro _
      rw [Bool.eq_false_iff]
      intro ht
      simp only [Token.isSlash, Token.isPunctuator, Bool.or_eq_true, Bool.and_eq_true, beq_iff_eq] at ht
      rcases ht with ⟨-, ht⟩ | ⟨-, ht⟩
      · exact htext (by rw [ht]; rfl)
      · exact htext (by rw [ht]; rfl)
    · have hrest := hslash.2
      rw [Token.regexAfter, if_neg (by simp [htrivia])] at hrest ⊢
      exact hrest

end Settled

end Injection
