import Injection.Proofs.Signature.ClassBody
import Injection.Proofs.Token.Continuing

/-!
# Heads of functions

What follows the head of a function does not change its parameters (`Signature.extract_append`), be it malformed or not:
no token of the head goes on into it, no comment or literal that it opens reaches back, and every pass over the tokens
stops at the end of the head.
-/

namespace Injection

open Lexeme

variable {cs ds : List Char} {name : Token} {before list ts us vs : List Token}

/-! ### Where heads end -/

def arrow : Token := ⟨.punctuator, ['=', '>']⟩

theorem isFinal_openParen : openParen.IsFinal :=
  ⟨starts_openParen, by decide, rfl, List.forall_mem_singleton.2 rfl⟩

theorem isFinal_closeParen : closeParen.IsFinal :=
  ⟨starts_closeParen, by decide, rfl, List.forall_mem_singleton.2 rfl⟩

private theorem isFinal_arrow : arrow.IsFinal :=
  ⟨fun _ _ => ⟨'=', ['>'], rfl, rfl⟩, by decide, rfl, isWhiteSpace_of_mem_operators _ (by decide)⟩

/-- A head that consists of these tokens, a parenthesis, a parameter list and the parenthesis that closes it. -/
structure ListHead (before list : List Token) : Prop extends BeforeList before where
  /-- The counter that the first parenthesis raised comes back to zero at the end. -/
  closed : (Depth.parameterList.afterAll (list ++ [closeParen])).paren = 0

/-- A head that consists of these tokens and the first arrow at depth zero; the last significant token before it is the
name of the parameter. -/
structure ArrowHead (before : List Token) (name : Token) : Prop where
  depth : Depth.top.afterAll before = .top
  noArrow : Depth.top.Avoids "=>" before
  noParen : Depth.top.Avoids "(" before
  last : (significant before).getLast? = some name

/-! ### Heads without their comments -/

theorem BeforeList.congr (h : BeforeList ts) (hsig : significant us = significant ts) : BeforeList us where
  noParen t ht := by
    cases htrivia : t.isTrivia with
    | true => exact Token.isPunctuator_of_isTrivia htrivia _
    | false =>
      have hmem : t ∈ significant us := List.mem_filter.2 ⟨ht, by simp [htrivia]⟩
      rw [hsig] at hmem
      exact h.noParen t (List.mem_filter.1 hmem).1
  depth := (Depth.afterAll_congr _ hsig).trans h.depth
  noArrow := h.noArrow.congr hsig
  noClass := by
    rw [firstSignificant_append, ← firstSignificant_significant us, hsig, firstSignificant_significant,
      ← firstSignificant_append]
    exact h.noClass

theorem ArrowHead.congr (h : ArrowHead before name) (hsig : significant us = significant before) :
    ArrowHead us name where
  depth := (Depth.afterAll_congr _ hsig).trans h.depth
  noArrow := h.noArrow.congr hsig
  noParen := h.noParen.congr hsig
  last := by rw [hsig, h.last]

/-- Sources that begin with the same list have the same parameters. -/
theorem ListHead.parametersOf_eq {ws xs : List Token} (h : ListHead before list)
    (hsig : significant vs = significant (before ++ openParen :: list)) (hcs : tokens cs = vs ++ closeParen :: ws)
    (hds : tokens ds = vs ++ closeParen :: xs) : parametersOf cs = parametersOf ds := by
  rw [significant_append, significant_cons rfl] at hsig
  obtain ⟨us, ts, rfl, hbefore, hlist⟩ := exists_of_significant_eq hsig
  rw [List.append_assoc, List.cons_append] at hcs hds
  have hus : BeforeList us := h.toBeforeList.congr hbefore
  have hclosed : (Depth.parameterList.afterAll ts).paren = 1 := by
    have hzero : (Depth.parameterList.afterAll list).paren - 1 = 0 := by
      have := h.closed
      rwa [Depth.afterAll_append] at this
    rw [Depth.afterAll_congr _ hlist]
    omega
  rw [parametersOf_of_openParen hus hcs, parametersOf_of_openParen hus hds,
    parameterTexts_congr hclosed hus.noParen hus.noParen hcs hds]

/-- The only parameter of a source that begins like this is the name before the arrow. -/
theorem ArrowHead.parametersOf_eq (h : ArrowHead before name) (hcs : tokens cs = before ++ arrow :: us) :
    parametersOf cs = [⟨String.ofList name.text, none⟩] := by
  have hname : Token.lastSignificantAll none before = some name := by
    rw [Token.lastSignificantAll_eq, h.last]
    rfl
  have harrow : arrowParameter cs = some name.text := by
    rw [arrowParameter, hcs, arrowParameterFrom_append h.noParen h.noArrow, h.depth, hname]
    rfl
  simp [parametersOf, harrow]

/-! ### Sources -/

namespace Signature

/-- Whatever follows the head of a function, its parameters are those of the head: the ones of its list if it ends with
one, the name before the arrow if it ends with an arrow. -/
theorem extract_append (head : String) (hs : SlashSafe true (tokens head.toList)) :
    (∀ before list, tokens head.toList = before ++ openParen :: (list ++ [closeParen]) → ListHead before list →
      ∀ body, extract (head ++ body) = extract head) ∧
    ∀ before name, tokens head.toList = before ++ [arrow] → ArrowHead before name →
      ∀ body, extract (head ++ body) = ⟨[⟨String.ofList name.text, none⟩]⟩ := by
  constructor
  · intro before list hhead h body
    have hend : tokens head.toList = (before ++ openParen :: list) ++ [closeParen] := by simp [hhead]
    obtain ⟨vs, ws, hsig, hstrip, hmore⟩ := tokens_stripComments_append hend hs isFinal_closeParen body.toList
    rw [extract, extract, String.toList_append, h.parametersOf_eq hsig hmore hstrip]
  · intro before name hhead h body
    obtain ⟨vs, ws, hsig, -, hmore⟩ := tokens_stripComments_append hhead hs isFinal_arrow body.toList
    rw [extract, String.toList_append, (h.congr hsig).parametersOf_eq hmore]

/-- Parentheses in a comment and in a regular expression, and a comma in another comment. -/
def commentedList : String :=
  "function /* ( */ f(a, b = /[)/]/g /* , */)"

/-- An arrow in a comment. -/
def commentedArrow : String :=
  "async x /* => */ =>"

/-- Bodies with delimiters of no partner, further arrows, and a string that is left open. -/
theorem extract_append_commented :
    SlashSafe true (tokens commentedList.toList) ∧
      tokens commentedList.toList =
        tokens "function /* ( */ f".toList ++ openParen :: (tokens "a, b = /[)/]/g /* , */".toList ++ [closeParen]) ∧
      ListHead (tokens "function /* ( */ f".toList) (tokens "a, b = /[)/]/g /* , */".toList) ∧
      extract (commentedList ++ "=> ) ( ' /*") = extract commentedList ∧
      SlashSafe true (tokens commentedArrow.toList) ∧
      tokens commentedArrow.toList = tokens "async x /* => */ ".toList ++ [arrow] ∧
      ArrowHead (tokens "async x /* => */ ".toList) ⟨.identifier, ['x']⟩ ∧
      extract (commentedArrow ++ "> y => (] / ' /*") = ⟨[⟨String.ofList ['x'], none⟩]⟩ := by
  have hlist : SlashSafe true (tokens commentedList.toList) := by
    decide +kernel
  have hlistTokens : tokens commentedList.toList =
      tokens "function /* ( */ f".toList ++ openParen :: (tokens "a, b = /[)/]/g /* , */".toList ++ [closeParen]) := by
    decide +kernel
  have hlistHead : ListHead (tokens "function /* ( */ f".toList) (tokens "a, b = /[)/]/g /* , */".toList) :=
    ⟨⟨by decide +kernel, by decide +kernel, by decide +kernel, by decide +kernel⟩, by decide +kernel⟩
  have harrow : SlashSafe true (tokens commentedArrow.toList) := by
    decide +kernel
  have harrowTokens : tokens commentedArrow.toList = tokens "async x /* => */ ".toList ++ [arrow] := by
    decide +kernel
  have harrowHead : ArrowHead (tokens "async x /* => */ ".toList) ⟨.identifier, ['x']⟩ :=
    ⟨by decide +kernel, by decide +kernel, by decide +kernel, by decide +kernel⟩
  exact ⟨hlist, hlistTokens, hlistHead, (extract_append _ hlist).1 _ _ hlistTokens hlistHead _, harrow, harrowTokens,
    harrowHead, (extract_append _ harrow).2 _ _ harrowTokens harrowHead _⟩

end Signature

end Injection
