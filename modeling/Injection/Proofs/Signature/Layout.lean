import Injection.Proofs.Signature.Pieces
import Injection.Proofs.Token.Trimming

/-!
# Layout and comments

The parameters of a source depend on its significant tokens only: sources that differ in layout and comments have the
same parameters, as far as the significant tokens of names and defaults go (`Signature.extract_congr`).  Malformed
sources are no exception.
-/

namespace Injection

variable {cs : List Char} {ts : List Token}

/-- The significant tokens of the name and of the default. -/
def Parameter.significant (p : Parameter) : List Token × Option (List Token) :=
  (Injection.significant (tokens p.name.toList), p.default.map fun d => Injection.significant (tokens d.toList))

/-! ### Parameters of significant tokens -/

/-- The word that stands for no default. -/
def undefinedToken : Token :=
  ⟨.identifier, "undefined".toList⟩

/-- What the significant tokens of a default count for. -/
def significantDefault (sig : List Token) : Option (List Token) :=
  if sig = [] ∨ sig = [undefinedToken] then none else some sig

/-- The parameter that the significant tokens of a piece declare. -/
def significantOfPiece (sig : List Token) : List Token × Option (List Token) :=
  match splitTokens .top sig with
  | some (name, value) => (trimLast name, significantDefault (trimLast value))
  | none => (trimLast sig, none)

/-- The parameters that the significant tokens of a text declare. -/
def significantParameters (sig : List Token) : List (List Token × Option (List Token)) :=
  match arrowParameterFrom .top none sig with
  | some t => [(significant (tokens t.text), none)]
  | none =>
    match afterParen (if (firstSignificant sig).any (·.isIdentifier "class") then constructorFrom .top none sig
      else sig) with
    | some list => ((pieceTokens .parameterList list).filter (· ≠ [])).map fun p => significantOfPiece (trimLast p)
    | none => []

/-! ### Trimmed parts -/

theorem reduces_trim_joined (h : Lexes [] true ts) (hc : CommentFree ts) :
    Reduces true (trim (Token.joined ts)) (trimLast (significant ts)) := by
  have hlex : tokens (Token.joined ts) = ts := h.lex_joined
  have hfree : CommentFree (tokens (Token.joined ts)) := by rwa [hlex]
  have := reduces_trim hfree
  rwa [hlex] at this

theorem trim_joined_eq_nil_iff (h : Lexes [] true ts) (hc : CommentFree ts) :
    trim (Token.joined ts) = [] ↔ significant ts = [] := by
  have hlex : tokens (Token.joined ts) = ts := h.lex_joined
  have hfree : CommentFree (tokens (Token.joined ts)) := by rwa [hlex]
  have := trim_eq_nil_iff hfree
  rwa [hlex] at this

private theorem lexes_undefined : Lexes [] true [undefinedToken] :=
  ⟨⟨'u', "ndefined".toList, rfl, rfl⟩, trivial⟩

private theorem trim_joined_eq_undefined_iff (h : Lexes [] true ts) (hc : CommentFree ts) :
    trim (Token.joined ts) = "undefined".toList ↔ trimLast (significant ts) = [undefinedToken] := by
  have hred := reduces_trim_joined h hc
  constructor
  · intro heq
    have hlex : lex true "undefined".toList = [undefinedToken] := lexes_undefined.lex_joined
    rw [heq, Reduces, hlex] at hred
    exact hred.2.symm
  · intro hsig
    obtain ⟨w, w', hw, hw', heq⟩ := joined_eq_of_significant_eq (lexes_lex true _) hred.1 (hred.2.trans hsig)
    rw [joined_lex] at heq
    rw [← trim_trim, heq, trim_append hw hw' (by decide)]
    rfl

theorem significant_defaultOf (h : Lexes [] true ts) (hc : CommentFree ts) :
    (defaultOf (trim (Token.joined ts))).map (fun d => significant (tokens d.toList)) =
      significantDefault (trimLast (significant ts)) := by
  unfold defaultOf significantDefault
  simp only [trim_joined_eq_nil_iff h hc, trim_joined_eq_undefined_iff h hc, trimLast_eq_nil_iff]
  split
  · rfl
  · have hsig : significant (tokens (trim (Token.joined ts))) = _ := (reduces_trim_joined h hc).2
    simpa using hsig

/-! ### Parameters -/

theorem Parameter.significant_ofPiece (hc : CommentFree (tokens cs)) :
    (Parameter.ofPiece cs).significant = significantOfPiece (Injection.significant (tokens cs)) := by
  unfold ofPiece significantOfPiece
  rw [splitAtEquals_eq, splitTokens_significant]
  cases hsplit : splitTokens .top (tokens cs) with
  | none =>
    have hsig : Injection.significant (tokens (trim cs)) = _ := (reduces_trim hc).2
    simpa [Parameter.significant] using hsig
  | some parts =>
    obtain ⟨us, vs⟩ := parts
    obtain ⟨⟨hus, hsub⟩, hvs, hsub'⟩ := splitTokens_lexes hsplit (lexes_lex true cs)
    have hname := (reduces_trim_joined hus (hc.subset hsub)).2
    have hvalue := significant_defaultOf hvs (hc.subset hsub')
    simp only [Option.map_some, Parameter.significant, String.toList_ofList]
    rw [hvalue]
    exact congrArg (·, _) hname

private theorem significant_pieces {ps : List (List Token)} (hps : ∀ p ∈ ps, Lexes [] true p ∧ CommentFree p) :
    (((ps.map Token.joined).map trim).filter (· ≠ [])).map (fun cs => (Parameter.ofPiece cs).significant) =
      ((ps.map significant).filter (· ≠ [])).map fun p => significantOfPiece (trimLast p) := by
  induction ps with
  | nil => rfl
  | cons p ps ih =>
    obtain ⟨⟨hlex, hfree⟩, hps⟩ := List.forall_mem_cons.1 hps
    have hnil := trim_joined_eq_nil_iff hlex hfree
    obtain ⟨hred, hsig⟩ := reduces_trim_joined hlex hfree
    have hpiece := Parameter.significant_ofPiece hred
    rw [show significant (tokens (trim (Token.joined p))) = _ from hsig] at hpiece
    -- blank pieces are dropped on both sides
    by_cases hp : significant p = []
    · simpa [hp, hnil.2 hp] using ih hps
    · have hp' := mt hnil.1 hp
      simpa [hp, hp', hpiece] using ih hps

theorem significant_parameterTexts (hc : CommentFree (tokens cs)) :
    ((parameterTexts cs).map Parameter.ofPiece).map Parameter.significant =
      match afterParen (significant (tokens cs)) with
      | some list => ((pieceTokens .parameterList list).filter (· ≠ [])).map fun p => significantOfPiece (trimLast p)
      | none => [] := by
  unfold parameterTexts
  rw [pieces_eq, afterParen_significant, List.map_map]
  cases hafter : afterParen (tokens cs) with
  | none => rfl
  | some ts =>
    obtain ⟨hlex, hsub⟩ := afterParen_lexes hafter (lexes_lex true cs)
    obtain ⟨p, ps, heq, hp, hplex, hps⟩ := pieceTokens_lexes .parameterList hlex
    simp only [Option.map_some]
    rw [pieceTokens_significant (by decide)]
    refine significant_pieces ?_
    rw [heq]
    have hlist : CommentFree ts := hc.subset hsub
    refine List.forall_mem_cons.2 ⟨⟨hplex, hlist.subset hp.subset⟩, fun q hq => ?_⟩
    obtain ⟨hq, hqlex⟩ := hps q hq
    exact ⟨hqlex, hlist.subset hq⟩

theorem significant_parametersOf (hc : CommentFree (tokens cs)) :
    (parametersOf cs).map Parameter.significant = significantParameters (significant (tokens cs)) := by
  unfold parametersOf significantParameters arrowParameter
  rw [arrowParameterFrom_significant, firstSignificant_significant]
  cases arrowParameterFrom .top none (tokens cs) with
  | some t => simp [Parameter.significant]
  | none =>
    by_cases hclass : (firstSignificant (tokens cs)).any (·.isIdentifier "class") = true
    · obtain ⟨-, hsub⟩ := constructorFrom_lexes .top none (lexes_lex true cs)
      have hfree : CommentFree (tokens (constructorText cs)) := by
        rw [tokens_constructorText]
        exact hc.subset hsub
      have htexts := significant_parameterTexts hfree
      rw [tokens_constructorText] at htexts
      simpa [isClass, hclass, constructorFrom_significant] using htexts
    · simpa [isClass, hclass] using significant_parameterTexts hc

namespace Signature

/-- Sources with the same significant tokens have the same parameters, up to layout. -/
theorem extract_congr {s₁ s₂ : String} (h₁ : SlashSafe true (tokens s₁.toList))
    (h₂ : SlashSafe true (tokens s₂.toList))
    (h : significant (tokens s₁.toList) = significant (tokens s₂.toList)) :
    (extract s₁).parameters.map Parameter.significant = (extract s₂).parameters.map Parameter.significant := by
  have hextract {s : String} (hs : SlashSafe true (tokens s.toList)) :
      (extract s).parameters.map Parameter.significant = significantParameters (significant (tokens s.toList)) := by
    rw [← significant_tokens_stripComments hs]
    exact significant_parametersOf (commentFree_tokens_stripComments hs)
  rw [hextract h₁, hextract h₂, h]

theorem extract_congr_commented :
    SlashSafe true (tokens "(a/* b */ , c=/,/) => 0".toList) ∧ SlashSafe true (tokens "(a, c = /,/) => 0".toList) ∧
      significant (tokens "(a/* b */ , c=/,/) => 0".toList) = significant (tokens "(a, c = /,/) => 0".toList) ∧
        (extract "(a/* b */ , c=/,/) => 0").parameters.map Parameter.significant =
          (extract "(a, c = /,/) => 0").parameters.map Parameter.significant := by
  have h₁ : SlashSafe true (tokens "(a/* b */ , c=/,/) => 0".toList) := by
    decide +kernel
  have h₂ : SlashSafe true (tokens "(a, c = /,/) => 0".toList) := by
    decide +kernel
  have h : significant (tokens "(a/* b */ , c=/,/) => 0".toList) = significant (tokens "(a, c = /,/) => 0".toList) := by
    decide +kernel
  exact ⟨h₁, h₂, h, extract_congr h₁ h₂ h⟩

end Signature

end Injection
