import Injection.Proofs.Token.Boundary
import Injection.Token.Comments
import Mathlib.Data.List.Basic

/-!
# Significant tokens

What is left of the tokens of a text without its layout and comments.  White space in front of a text does not change
it, and neither does stripping its comments, unless a slash is taken for an operator where a regular expression is
allowed (`significant_tokens_stripComments`): such a slash depends on all the text up to the end of its line.  It does
not matter if no block comment begins there (`reduces_uncommented`).
-/

namespace Injection

open Lexeme

variable {a : Bool} {cs : List Char} {t : Token} {ts : List Token}

/-! ### Layout -/

/-- The tokens without layout and comments. -/
def significant (ts : List Token) : List Token :=
  ts.filter (!·.isTrivia)

@[simp] theorem significant_nil : significant [] = [] := rfl

@[simp] theorem significant_append (ts us : List Token) : significant (ts ++ us) = significant ts ++ significant us :=
  List.filter_append ..

theorem significant_cons_of_trivia (ht : t.isTrivia = true) (ts : List Token) :
    significant (t :: ts) = significant ts :=
  List.filter_cons_of_neg (by simp [ht])

theorem significant_cons (ht : t.isTrivia = false) (ts : List Token) :
    significant (t :: ts) = t :: significant ts :=
  List.filter_cons_of_pos (by simp [ht])

/-- A significant token stands among others in their layout. -/
theorem exists_of_significant_eq {us vs : List Token} (h : significant ts = us ++ t :: vs) :
    ∃ before after, ts = before ++ t :: after ∧ significant before = us ∧ significant after = vs := by
  obtain ⟨before, rest, rfl, hbefore, hrest⟩ := List.filter_eq_append_iff.1 h
  obtain ⟨layout, after, rfl, hlayout, -, hafter⟩ := List.filter_eq_cons_iff.1 hrest
  have hnil : significant layout = [] := List.filter_eq_nil_iff.2 hlayout
  refine ⟨before ++ layout, after, by simp, ?_, hafter⟩
  rw [significant_append, hnil, List.append_nil]
  exact hbefore

def Token.isComment (t : Token) : Bool :=
  t.kind == .lineComment || t.kind == .blockComment

theorem Token.isComment_of_not_isTrivia (ht : t.isTrivia = false) : t.isComment = false := by
  cases t with
  | mk k text => cases k <;> simp_all [isTrivia, isComment]

theorem Token.kind_of_isTrivia (ht : t.isTrivia = true) (hc : t.isComment = false) : t.kind = .whitespace := by
  cases t with
  | mk k text => cases k <;> simp_all [isTrivia, isComment]

/-- No token is a comment. -/
def CommentFree (ts : List Token) : Prop :=
  ∀ t ∈ ts, t.isComment = false

instance (ts : List Token) : Decidable (CommentFree ts) :=
  inferInstanceAs (Decidable (∀ t ∈ ts, t.isComment = false))

theorem CommentFree.subset {us : List Token} (h : CommentFree us) (hts : ts ⊆ us) : CommentFree ts :=
  fun t ht => h t (hts ht)

/-- No slash stands for an operator where a regular expression is allowed. -/
def SlashSafe : Bool → List Token → Prop
  | _, [] => True
  | a, t :: ts => (a = true → t.isSlash = false) ∧ SlashSafe (t.regexAfter a) ts

instance decidableSlashSafe : (a : Bool) → (ts : List Token) → Decidable (SlashSafe a ts)
  | _, [] => .isTrue trivial
  | a, t :: ts =>
    have := decidableSlashSafe (t.regexAfter a) ts
    inferInstanceAs (Decidable ((a = true → t.isSlash = false) ∧ SlashSafe (t.regexAfter a) ts))

/-- A block comment begins before the line ends. -/
def opensComment : List Token → Bool
  | [] => false
  | t :: ts => t.kind == .blockComment || (!t.text.any isLineEnd && opensComment ts)

/-- On the rest of its line, a slash that stands for an operator where a regular expression is allowed has no block
comment. -/
def LineSafe : Bool → List Token → Prop
  | _, [] => True
  | a, t :: ts => (a = true → t.isSlash = true → opensComment ts = false) ∧ LineSafe (t.regexAfter a) ts

instance decidableLineSafe : (a : Bool) → (ts : List Token) → Decidable (LineSafe a ts)
  | _, [] => .isTrue trivial
  | a, t :: ts =>
    have := decidableLineSafe (t.regexAfter a) ts
    inferInstanceAs (Decidable ((a = true → t.isSlash = true → opensComment ts = false) ∧ LineSafe (t.regexAfter a) ts))

theorem SlashSafe.lineSafe (h : SlashSafe a ts) : LineSafe a ts := by
  induction ts generalizing a with
  | nil => trivial
  | cons t ts ih =>
    refine ⟨fun ha hslash => ?_, ih h.2⟩
    rw [h.1 ha] at hslash
    cases hslash

/-! ### What tokens begin with -/

namespace Token.Starts

variable {rest : List Char} (h : t.Starts a rest)

include h

theorem isWhiteSpace_of_kind (ht : t.kind = .whitespace) : ∀ c ∈ t.text, isWhiteSpace c = true := by
  obtain ⟨c, w, htext, hreads⟩ := starts_iff.1 h
  cases hreads with
  | whitespace hc =>
    have hw := takeWhile_append_eq_left_iff.1 (List.cons.inj htext).2
    rw [htext]
    exact List.forall_mem_cons.2 ⟨hc, hw.1⟩
  | _ => simp at ht

theorem kind_of_isWhiteSpace {c : Char} (hc : t.text.head? = some c) (hspace : isWhiteSpace c = true) :
    t.kind = .whitespace := by
  obtain ⟨d, w, htext, rfl⟩ := h
  rw [htext] at hc
  obtain rfl : d = c := Option.some.inj hc
  simp [firstToken, hspace]

/-- An unterminated literal has nothing after it. -/
theorem isClosed_or : t.isClosed = true ∨ rest = [] := by
  obtain ⟨c, w, htext, hreads⟩ := starts_iff.1 h
  cases hreads with
  | string hc =>
    refine (quotedTail_closes c (w ++ rest)).symm.imp id fun hall => ?_
    rw [(List.cons.inj htext).2] at hall
    simpa using hall
  | template hc =>
    refine (quotedTail_closes c (w ++ rest)).symm.imp id fun hall => ?_
    rw [(List.cons.inj htext).2] at hall
    simpa using hall
  | _ => exact .inl rfl

/-- After a line comment the line ends, or the text does. -/
theorem isLineEnd_of_lineComment (ht : t.kind = .lineComment) {d : Char} (hd : rest.head? = some d) :
    isLineEnd d = true := by
  obtain ⟨c, w, htext, hreads⟩ := starts_iff.1 h
  cases hreads with
  | lineComment hc hcs =>
    simpa using (takeWhile_append_eq_left_iff.1 (List.cons.inj htext).2).2 d hd
  | _ => simp at ht

end Token.Starts

/-! ### Significant tokens before a break -/

private theorem Token.Starts.extend_whitespace {rest : List Char} (h : t.Starts a rest) (ht : t.kind = .whitespace)
    {ds : List Char} (hrest : ∀ x, (rest ++ ds).head? = some x → rest = [] → isWhiteSpace x = false) :
    t.Starts a (rest ++ ds) := by
  obtain ⟨c, w, htext, hreads⟩ := starts_iff.1 h
  cases hreads with
  | whitespace hc =>
    have htail := (List.cons.inj htext).2
    obtain ⟨hw, hstop⟩ := takeWhile_append_eq_left_iff.1 htail
    refine ⟨c, w, htext, ?_⟩
    rw [(Reads.whitespace hc).firstToken_eq, htail]
    rw [takeWhile_append_eq_left_iff.2 ⟨hw, ?_⟩]
    intro x hx
    cases rest with
    | nil => exact hrest x hx rfl
    | cons y rest => exact hstop x hx
  | _ => simp at ht

/-- Tokens are read the same before a break if they depend on nothing that follows, and no white space runs on. -/
theorem Lexes.extend {d : Char} (h : Lexes [] a ts) (hc : CommentFree ts) (hclosed : ∀ t ∈ ts, t.isClosed = true)
    (hs : SlashSafe a ts) (hlast : isWhiteSpace d = true → ∀ t, ts.getLast? = some t → t.isTrivia = false)
    (hd : IsBreak d) (ds : List Char) : Lexes (d :: ds) a ts := by
  induction ts generalizing a with
  | nil => trivial
  | cons t ts ih =>
    obtain ⟨ht, hc⟩ := List.forall_mem_cons.1 hc
    obtain ⟨htclosed, hclosed⟩ := List.forall_mem_cons.1 hclosed
    have hstarts := h.1
    rw [List.append_nil] at hstarts
    constructor
    · cases htrivia : t.isTrivia with
      | false => exact hstarts.extend htrivia htclosed hs.1 hd ds
      | true =>
        refine hstarts.extend_whitespace (Token.kind_of_isTrivia htrivia ht) fun x hx hnil => ?_
        cases ts with
        | nil =>
          obtain rfl : d = x := Option.some.inj hx
          rw [Bool.eq_false_iff]
          intro hspace
          simp [hlast hspace t rfl] at htrivia
        | cons u us => simp [h.2.1.ne_nil] at hnil
    · refine ih h.2 hc hclosed hs.2 fun hspace u hu => hlast hspace u ?_
      cases ts with
      | nil => simp at hu
      | cons v vs => exact hu

/-! ### White space in front -/

/-- White space in front of a text is one token at most. -/
theorem lex_dropWhile (a : Bool) (cs : List Char) :
    lex a cs = lex a (cs.dropWhile isWhiteSpace) ∨
      ∃ w, lex a cs = ⟨.whitespace, w⟩ :: lex a (cs.dropWhile isWhiteSpace) := by
  cases cs with
  | nil => exact .inl rfl
  | cons c cs =>
    cases hc : isWhiteSpace c with
    | false => simp [hc]
    | true =>
      have hstarts : Token.Starts a ⟨.whitespace, c :: cs.takeWhile isWhiteSpace⟩ (cs.dropWhile isWhiteSpace) := by
        refine ⟨c, cs.takeWhile isWhiteSpace, rfl, ?_⟩
        rw [List.takeWhile_append_dropWhile]
        exact (Reads.whitespace hc).firstToken_eq
      refine .inr ⟨c :: cs.takeWhile isWhiteSpace, ?_⟩
      have := hstarts.lex_eq
      rw [List.cons_append, List.takeWhile_append_dropWhile] at this
      rw [List.dropWhile_cons_of_pos hc]
      exact this

/-- Only white space and slashes begin layout and comments. -/
theorem isTrivia_firstToken {c : Char} (hspace : isWhiteSpace c = false) (hslash : c ≠ '/') (a : Bool)
    (cs : List Char) : (firstToken a c cs).isTrivia = false := by
  have hreads := reads_firstToken a c cs
  cases hfirst : firstToken a c cs with
  | mk k text =>
    rw [hfirst] at hreads
    cases hreads with
    | whitespace hc =>
      rw [hspace] at hc
      cases hc
    | lineComment hc => exact absurd hc hslash
    | blockComment hc => exact absurd hc hslash
    | _ => rfl

/-- Where no slash comes first, it does not matter whether a regular expression may stand. -/
theorem lex_congr (h : (cs.dropWhile isWhiteSpace).head? ≠ some '/') (a b : Bool) : lex a cs = lex b cs := by
  have hfirst : ∀ u, (lex b cs).find? (!·.isTrivia) = some u → u.text.head? ≠ some '/' := by
    have hdrop : (lex b cs).find? (!·.isTrivia) = (lex b (cs.dropWhile isWhiteSpace)).find? (!·.isTrivia) := by
      rcases lex_dropWhile b cs with heq | ⟨w, heq⟩
      · rw [← heq]
      · rw [heq]
        exact List.find?_cons_of_neg (by simp [Token.isTrivia])
    have hspace := List.head?_dropWhile_not isWhiteSpace cs
    rw [hdrop]
    cases hds : cs.dropWhile isWhiteSpace with
    | nil => simp [lex]
    | cons d ds =>
      rw [hds] at h hspace
      have hd : isWhiteSpace d = false := by simpa using hspace
      have hne : d ≠ '/' := fun heq => h (congrArg some heq)
      intro u hu
      rw [lex, List.find?_cons_of_pos (by simp [isTrivia_firstToken hd hne])] at hu
      obtain rfl := Option.some.inj hu
      rwa [head?_text_firstToken]
  have hcongr := (lexes_lex b cs).congr hfirst a
  rw [← hcongr.lex_joined, joined_lex]

/-- The text is free of comments and has these significant tokens. -/
def Reduces (a : Bool) (cs : List Char) (sig : List Token) : Prop :=
  CommentFree (lex a cs) ∧ significant (lex a cs) = sig

namespace Reduces

variable {sig : List Token} {w : List Char}

theorem dropWhile_iff : Reduces a (cs.dropWhile isWhiteSpace) sig ↔ Reduces a cs sig := by
  unfold Reduces CommentFree
  rcases lex_dropWhile a cs with h | ⟨w, h⟩
  · rw [h]
  · rw [h, List.forall_mem_cons, significant_cons_of_trivia rfl]
    simp [Token.isComment]

theorem nil : Reduces a [] [] := by
  simp [Reduces, lex, CommentFree]

theorem whiteSpace_append_iff (hw : ∀ c ∈ w, isWhiteSpace c = true) : Reduces a (w ++ cs) sig ↔ Reduces a cs sig := by
  rw [← dropWhile_iff, List.dropWhile_append_of_pos hw, dropWhile_iff]

theorem cons (ht : t.Starts a cs) (htrivia : t.isTrivia = false) (h : Reduces (t.regexAfter a) cs sig) :
    Reduces a (t.text ++ cs) (t :: sig) := by
  unfold Reduces
  rw [ht.lex_eq, significant_cons htrivia, h.2]
  exact ⟨List.forall_mem_cons.2 ⟨Token.isComment_of_not_isTrivia htrivia, h.1⟩, rfl⟩

end Reduces

/-! ### Stripping comments -/

theorem Token.uncommented_of_not_isComment (ht : t.isComment = false) : t.uncommented = t.text := by
  cases t with
  | mk k text => cases k <;> simp_all [isComment, uncommented]

/-- Layout and comments leave white space behind. -/
theorem Token.Starts.isWhiteSpace_uncommented {rest : List Char} (h : t.Starts a rest) (ht : t.isTrivia = true) :
    ∀ c ∈ t.uncommented, isWhiteSpace c = true := by
  have hkind : t.kind = .whitespace ∨ t.kind = .lineComment ∨ t.kind = .blockComment := by
    cases t with
    | mk k text => cases k <;> simp_all [Token.isTrivia]
  rcases hkind with hkind | hkind | hkind
  · rw [Token.uncommented, hkind]
    exact h.isWhiteSpace_of_kind hkind
  · simp [Token.uncommented, hkind]
  · intro c hc
    rw [Token.uncommented, hkind] at hc
    rw [List.mem_singleton.1 hc]
    rfl

/-- Without comments there is nothing to strip. -/
theorem stripComments_of_commentFree (hc : CommentFree (tokens cs)) : stripComments cs = cs := by
  have htexts : (tokens cs).flatMap Token.uncommented = (tokens cs).flatMap Token.text :=
    List.flatMap_congr fun t ht => Token.uncommented_of_not_isComment (hc t ht)
  exact htexts.trans (joined_tokens cs)

/-- Without its comments, a text is the same up to its end or up to a break, which is the end of the line if no block
comment begins before. -/
private theorem uncommented_isPrefix (h : Lexes [] a ts) :
    ∃ p, p <+: Token.joined ts ∧ (ts.flatMap Token.uncommented = p ∨
      ∃ d ds, ts.flatMap Token.uncommented = p ++ d :: ds ∧ IsBreak d ∧
        (opensComment ts = false → isLineEnd d = true)) := by
  induction ts generalizing a with
  | nil => exact ⟨[], List.nil_prefix, .inl rfl⟩
  | cons t ts ih =>
    rw [List.flatMap_cons]
    cases hcomment : t.isComment with
    | false =>
      have hkind : (t.kind == .blockComment) = false := (Bool.or_eq_false_iff.1 hcomment).2
      rw [Token.uncommented_of_not_isComment hcomment, opensComment, hkind, Bool.false_or]
      cases hend : t.text.any isLineEnd with
      | true =>
        obtain ⟨d, hmem, hd⟩ := List.any_eq_true.1 hend
        obtain ⟨w, w', htext⟩ := List.append_of_mem hmem
        refine ⟨w, ⟨d :: w' ++ Token.joined ts, by simp [htext]⟩, .inr ⟨d, w' ++ ts.flatMap Token.uncommented, ?_,
          .of_isLineEnd hd, fun _ => hd⟩⟩
        simp [htext]
      | false =>
        obtain ⟨p, hp, hstrip⟩ := ih h.2
        refine ⟨t.text ++ p, (List.prefix_append_right_inj _).2 hp, ?_⟩
        rcases hstrip with hstrip | ⟨d, ds, hstrip, hd, hline⟩
        · exact .inl (by rw [hstrip])
        · exact .inr ⟨d, ds, by rw [hstrip, List.append_assoc], hd, by simpa using hline⟩
    | true =>
      refine ⟨[], List.nil_prefix, ?_⟩
      simp only [Token.isComment, Bool.or_eq_true, beq_iff_eq] at hcomment
      rcases hcomment with hkind | hkind
      · have hline : t.uncommented = [] := by simp [Token.uncommented, hkind]
        rw [hline]
        cases ts with
        | nil => exact .inl rfl
        | cons u us =>
          -- the line end after the comment is white space, which is kept
          obtain ⟨d, w, htext, hfirst⟩ := h.2.1
          have hhead : (Token.joined (u :: us) ++ []).head? = some d := by simp [htext]
          have hend := h.1.isLineEnd_of_lineComment hkind hhead
          have hu := h.2.1.kind_of_isWhiteSpace (by rw [htext]; rfl) (isWhiteSpace_of_isLineEnd hend)
          refine .inr ⟨d, w ++ us.flatMap Token.uncommented, ?_, .of_isLineEnd hend, fun _ => hend⟩
          simp [List.flatMap_cons, Token.uncommented, hu, htext]
      -- a block comment is replaced by a blank
      · refine .inr ⟨' ', ts.flatMap Token.uncommented, ?_, .of_isWhiteSpace rfl, fun hline => ?_⟩
        · simp [Token.uncommented, hkind]
        · simp [opensComment, hkind] at hline

/-- A significant token is still there when the comments after it are stripped. -/
private theorem starts_uncommented (h : Lexes [] a (t :: ts)) (ht : t.isTrivia = false)
    (hs : a = true → t.isSlash = true → opensComment ts = false) : t.Starts a (ts.flatMap Token.uncommented) := by
  have hstarts := h.1
  rw [List.append_nil] at hstarts
  rcases hstarts.isClosed_or with hclosed | hnil
  · obtain ⟨p, ⟨more, hp⟩, hstrip⟩ := uncommented_isPrefix h.2
    rw [← hp] at hstarts
    rcases hstrip with hstrip | ⟨d, ds, hstrip, hd, hline⟩
    · rw [hstrip]
      exact hstarts.cut
    · rw [hstrip]
      exact hstarts.cut.extend_of_slash ht hclosed (fun ha hslash => hline (hs ha hslash)) hd ds
  · cases ts with
    | nil => exact hstarts
    | cons u us => simp [h.2.1.ne_nil] at hnil

theorem reduces_uncommented (h : Lexes [] a ts) (hs : LineSafe a ts) :
    Reduces a (ts.flatMap Token.uncommented) (significant ts) := by
  -- over the tokens; layout and comments leave the flag as it is, so what is left of them can be dropped
  induction ts generalizing a with
  | nil => exact .nil
  | cons t ts ih =>
    rw [List.flatMap_cons]
    have hrest := ih h.2 hs.2
    cases ht : t.isTrivia with
    | true =>
      rw [significant_cons_of_trivia ht]
      rw [Token.regexAfter, if_pos ht] at hrest
      exact (Reduces.whiteSpace_append_iff (h.1.isWhiteSpace_uncommented ht)).2 hrest
    | false =>
      rw [significant_cons ht, Token.uncommented_of_not_isComment (Token.isComment_of_not_isTrivia ht)]
      exact .cons (starts_uncommented h ht hs.1) ht hrest

/-- Stripping the comments of a text leaves none. -/
theorem commentFree_tokens_stripComments (hs : SlashSafe true (tokens cs)) :
    CommentFree (tokens (stripComments cs)) :=
  (reduces_uncommented (lexes_lex true cs) hs.lineSafe).1

/-- Stripping the comments of a text leaves its significant tokens. -/
theorem significant_tokens_stripComments (hs : SlashSafe true (tokens cs)) :
    significant (tokens (stripComments cs)) = significant (tokens cs) :=
  (reduces_uncommented (lexes_lex true cs) hs.lineSafe).2

end Injection
