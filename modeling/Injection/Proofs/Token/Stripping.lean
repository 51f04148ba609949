import Injection.Proofs.Token.Significant
import Mathlib.Logic.Function.Iterate

/-!
# Stripping comments once and again

Stripping changes a text exactly if it has comments (`stripComments_eq_self_iff`), and then makes it shorter.  What is
left is free of comments, and has the same significant tokens, unless the text has a slash that is taken for an operator
where a regular expression is allowed, with a block comment on the rest of its line.  Such a comment may hold the line
end, or open the bracket, for which the slash is no regular expression.  Without the comment it is one, the quotes after
it may be read differently, and a second pass may find another comment (`comment_after_stripping`).
-/

namespace Injection

open Lexeme

variable {a : Bool} {cs : List Char} {t : Token} {ts : List Token}

/-! ### How much is stripped -/

theorem Token.Starts.length_uncommented_lt {rest : List Char} (h : t.Starts a rest) (ht : t.isComment = true) :
    t.uncommented.length < t.text.length := by
  simp only [Token.isComment, Bool.or_eq_true, beq_iff_eq] at ht
  rcases ht with hkind | hkind
  · have hpos := List.length_pos_iff.2 h.ne_nil
    simpa [Token.uncommented, hkind] using hpos
  · obtain ⟨c, w, htext, hreads⟩ := starts_iff.1 h
    cases hreads with
    | blockComment hc hcs => simp [Token.uncommented]
    | _ => simp at hkind

theorem Token.Starts.length_uncommented_le {rest : List Char} (h : t.Starts a rest) :
    t.uncommented.length ≤ t.text.length := by
  cases ht : t.isComment with
  | true => exact (h.length_uncommented_lt ht).le
  | false => rw [Token.uncommented_of_not_isComment ht]

private theorem length_flatMap_uncommented_le {rest : List Char} (h : Lexes rest a ts) :
    (ts.flatMap Token.uncommented).length ≤ (Token.joined ts).length := by
  induction ts generalizing a with
  | nil => exact le_rfl
  | cons t ts ih =>
    have hfirst := h.1.length_uncommented_le
    have hrest := ih h.2
    rw [List.flatMap_cons, Token.joined_cons, List.length_append, List.length_append]
    omega

private theorem length_flatMap_uncommented_lt {rest : List Char} (h : Lexes rest a ts) (hts : ¬ CommentFree ts) :
    (ts.flatMap Token.uncommented).length < (Token.joined ts).length := by
  induction ts generalizing a with
  | nil => exact absurd (fun t ht => nomatch ht) hts
  | cons t ts ih =>
    rw [List.flatMap_cons, Token.joined_cons, List.length_append, List.length_append]
    cases ht : t.isComment with
    | true =>
      have hfirst := h.1.length_uncommented_lt ht
      have hrest := length_flatMap_uncommented_le h.2
      omega
    | false =>
      have hfirst := h.1.length_uncommented_le
      have hrest := ih h.2 fun hfree => hts (List.forall_mem_cons.2 ⟨ht, hfree⟩)
      omega

/-- A text with comments is shorter without them. -/
theorem length_stripComments_lt (h : ¬ CommentFree (tokens cs)) : (stripComments cs).length < cs.length := by
  have hlt := length_flatMap_uncommented_lt (lexes_lex true cs) h
  rwa [joined_lex] at hlt

/-- Stripping leaves a text as it is exactly if it has no comments. -/
theorem stripComments_eq_self_iff : stripComments cs = cs ↔ CommentFree (tokens cs) := by
  constructor
  · intro heq
    by_contra hc
    have hlt := length_stripComments_lt hc
    rw [heq] at hlt
    exact absurd hlt (lt_irrefl _)
  · exact stripComments_of_commentFree

/-! ### Once -/

/-- Without comments, the significant tokens are those that are not white space. -/
theorem CommentFree.filter_kind (h : CommentFree ts) :
    ts.filter (fun t => decide (t.kind ≠ .whitespace)) = significant ts := by
  refine List.filter_congr fun t ht => ?_
  cases htrivia : t.isTrivia with
  | true => simp [Token.kind_of_isTrivia htrivia (h t ht)]
  | false =>
    have hkind : t.kind ≠ .whitespace := by
      intro hkind
      simp [Token.isTrivia, hkind] at htrivia
    simp [hkind]

theorem toList_withoutComments (s : String) : (withoutComments s).toList = stripComments s.toList :=
  String.toList_ofList

/-- Where no slash stands for an operator at which a regular expression is allowed, stripping leaves no comment, and the
tokens that are left, but for white space, are the significant tokens of the source. -/
theorem withoutComments_of_slashSafe {s : String} (hs : SlashSafe true (tokens s.toList)) :
    CommentFree (tokens (withoutComments s).toList) ∧
      (tokens (withoutComments s).toList).filter (fun t => decide (t.kind ≠ .whitespace)) =
        significant (tokens s.toList) := by
  have hfree := commentFree_tokens_stripComments hs
  have hsig := significant_tokens_stripComments hs
  rw [toList_withoutComments]
  exact ⟨hfree, hfree.filter_kind.trans hsig⟩

/-- Comments between the signs of operators, after a regular expression and at the end of the source. -/
theorem withoutComments_of_slashSafe_operators :
    SlashSafe true (tokens "a +/*+*/+ /[/*]/g/**/ - b /* c".toList) ∧
      CommentFree (tokens (withoutComments "a +/*+*/+ /[/*]/g/**/ - b /* c").toList) ∧
      (tokens (withoutComments "a +/*+*/+ /[/*]/g/**/ - b /* c").toList).filter
          (fun t => decide (t.kind ≠ .whitespace)) =
        significant (tokens "a +/*+*/+ /[/*]/g/**/ - b /* c".toList) := by
  have hs : SlashSafe true (tokens "a +/*+*/+ /[/*]/g/**/ - b /* c".toList) := by
    decide +kernel
  exact ⟨hs, withoutComments_of_slashSafe hs⟩

/-! ### And again -/

/-- Some number of passes, no greater than the length of the source, leaves no comment. -/
theorem exists_iterate_commentFree (s : String) :
    ∃ n ≤ s.length, CommentFree (tokens (withoutComments^[n] s).toList) := by
  -- every pass that finds a comment makes the text shorter
  generalize hlength : s.length = k
  induction k using Nat.strong_induction_on generalizing s with
  | _ k ih =>
    by_cases hfree : CommentFree (tokens s.toList)
    · exact ⟨0, Nat.zero_le _, hfree⟩
    · have hlt : (withoutComments s).length < k := by
        have := length_stripComments_lt hfree
        rwa [← toList_withoutComments, String.length_toList, String.length_toList, hlength] at this
      obtain ⟨n, hn, hfree⟩ := ih _ hlt (withoutComments s) rfl
      exact ⟨n + 1, by omega, hfree⟩

/-- A second pass changes nothing exactly if the first has left no comment.  It has left none if, on the rest of its
line, no slash that stands for an operator where a regular expression is allowed has a block comment; of any source,
some number of passes leaves none. -/
theorem withoutComments_again (s : String) :
    (withoutComments (withoutComments s) = withoutComments s ↔ CommentFree (tokens (withoutComments s).toList)) ∧
      (LineSafe true (tokens s.toList) → CommentFree (tokens (withoutComments s).toList)) ∧
      ∃ n ≤ s.length, CommentFree (tokens (withoutComments^[n] s).toList) := by
  refine ⟨?_, fun hs => ?_, exists_iterate_commentFree s⟩
  · rw [← String.toList_inj, toList_withoutComments (withoutComments s), stripComments_eq_self_iff]
  · rw [toList_withoutComments]
    exact (reduces_uncommented (lexes_lex true s.toList) hs).1

/-- A slash that opens no regular expression, as its line ends before another slash, and comments on the next line. -/
theorem withoutComments_again_division :
    LineSafe true (tokens "a = / b\n/* \n */ c // d".toList) ∧
      withoutComments (withoutComments "a = / b\n/* \n */ c // d") = withoutComments "a = / b\n/* \n */ c // d" := by
  have hs : LineSafe true (tokens "a = / b\n/* \n */ c // d".toList) := by
    decide +kernel
  obtain ⟨hiff, hfree, -⟩ := withoutComments_again "a = / b\n/* \n */ c // d"
  exact ⟨hs, hiff.2 (hfree hs)⟩

/-- Without the comment and the line end that it holds, the slash opens a regular expression, which ends inside the
string; what was the end of the string is a comment now. -/
theorem comment_after_stripping :
    withoutComments "(a = x.of / [/*\n*/ ']/ //'], b) => 0" = "(a = x.of / [  ']/ //'], b) => 0" ∧
      withoutComments "(a = x.of / [  ']/ //'], b) => 0" = "(a = x.of / [  ']/ " ∧
      ¬ ∀ s, CommentFree (tokens (withoutComments s).toList) ∧
        withoutComments (withoutComments s) = withoutComments s := by
  have honce : withoutComments "(a = x.of / [/*\n*/ ']/ //'], b) => 0" = "(a = x.of / [  ']/ //'], b) => 0" := by
    decide +kernel
  have htwice : withoutComments "(a = x.of / [  ']/ //'], b) => 0" = "(a = x.of / [  ']/ " := by
    decide +kernel
  refine ⟨honce, htwice, fun h => ?_⟩
  have hsame := (h "(a = x.of / [/*\n*/ ']/ //'], b) => 0").2
  rw [honce, htwice] at hsame
  exact absurd hsame (by decide +kernel)

end Injection
