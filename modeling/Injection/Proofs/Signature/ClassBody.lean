import Injection.Proofs.Signature.Members
import Injection.Proofs.Token.Settled

/-!
# Classes

The signature of a class is that of its constructor (`Signature.extract_class`): it is the signature that a function
with the same parameter list has, whatever stands before and after the constructor and in its body.  Members may hold
calls and methods of the name `constructor`, arrow functions, and braces in literals; they are complete in themselves.
-/

namespace Injection

open Lexeme

variable {a : Bool} {c : Char} {cs ps ds : List Char} {d : Depth} {ts us vs sig sig' : List Token}

/-! ### Sources with a parameter list -/

/-- The tokens of a source with a list in parentheses. -/
theorem tokens_list (h : Settled true cs sig) (hps : Settled true ps sig') (ds : List Char) :
    tokens (cs ++ '(' :: (ps ++ ')' :: ds)) =
      lex true cs ++ openParen :: (tokens ps ++ closeParen :: lex false ds) := by
  have hlex : Lexes [] true (lex true cs ++ openParen :: (tokens ps ++ closeParen :: lex false ds)) := by
    rw [Lexes.append_iff]
    refine ⟨h.lexes .openParen rfl _, starts_openParen _ _, ?_⟩
    rw [Lexes.append_iff]
    exact ⟨hps.lexes .closeParen rfl _, starts_closeParen _ _, lexes_lex false ds⟩
  have hjoined := hlex.lex_joined
  simp only [Token.joined_append, Token.joined_cons, joined_lex, joined_tokens] at hjoined
  exact hjoined

theorem commentFree_list (h : Settled true cs sig) (hps : Settled true ps sig') (hds : CommentFree (lex false ds)) :
    CommentFree (tokens (cs ++ '(' :: (ps ++ ')' :: ds))) := by
  rw [tokens_list h hps]
  refine List.forall_mem_append.2 ⟨h.reduces.1, List.forall_mem_cons.2 ⟨rfl, ?_⟩⟩
  exact List.forall_mem_append.2 ⟨hps.reduces.1, List.forall_mem_cons.2 ⟨rfl, hds⟩⟩

/-- Sources with the same list in their first parentheses have the same parameters in it. -/
theorem parameterTexts_congr {us' vs' : List Token} (hts : (Depth.parameterList.afterAll ts).paren = 1)
    (hus : ∀ t ∈ us, t.isPunctuator "(" = false) (hus' : ∀ t ∈ us', t.isPunctuator "(" = false)
    (hcs : tokens cs = us ++ openParen :: (ts ++ closeParen :: vs))
    (hds : tokens ds = us' ++ openParen :: (ts ++ closeParen :: vs')) : parameterTexts cs = parameterTexts ds := by
  have hclosed (vs : List Token) :
      pieceTokens .parameterList (ts ++ closeParen :: vs) = pieceTokens .parameterList ts := by
    refine pieceTokens_append_of_closed fun t ws heq => ?_
    obtain ⟨rfl, -⟩ := List.cons.inj heq
    rw [Depth.afterAll_append, show (_ : Depth).paren = _ - 1 from rfl, hts]
    rfl
  unfold parameterTexts
  rw [pieces_eq, pieces_eq, hcs, hds, afterParen_append hus rfl, afterParen_append hus' rfl, Option.elim_some,
    Option.elim_some, hclosed, hclosed]

/-! ### Sources of classes -/

theorem SelfContained.settled (h : SelfContained cs) : Settled true cs (significant (tokens cs)) where
  reduces := ⟨h.commentFree, rfl⟩
  closed t ht := h.closed t (List.mem_filter.1 ht).1
  slashSafe := slashSafe_significant.2 h.slashSafe

theorem SelfContained.wellNested (h : SelfContained cs) : Depth.WellNested (tokens cs) :=
  ⟨h.nonNegative, h.balanced⟩

theorem Settled.blank (h : Settled a cs sig) : Settled a (' ' :: cs) sig :=
  h.whiteSpace_append (w := [' ']) (List.forall_mem_singleton.2 rfl)

theorem Settled.openCurly (h : Settled true cs sig) (a : Bool) : Settled a ('\x7b' :: cs) (openCurly :: sig) :=
  .cons ⟨'\x7b', [], rfl, rfl⟩ rfl rfl (fun _ => rfl) h

theorem Settled.closeCurly (h : Settled false cs sig) (a : Bool) : Settled a ('\x7d' :: cs) (closeCurly :: sig) :=
  .cons ⟨'\x7d', [], rfl, rfl⟩ rfl rfl (fun _ => rfl) h

/-- A name begins with neither white space nor a slash. -/
theorem exists_cons_of_identifier {x : List Char} (hx : tokens x = [⟨.identifier, x⟩]) :
    ∃ c w, x = c :: w ∧ isWhiteSpace c = false ∧ c ≠ '/' := by
  have hlex := lexes_lex true x
  rw [show lex true x = [⟨.identifier, x⟩] from hx] at hlex
  obtain ⟨c, w, htext, hreads⟩ := Token.starts_iff.1 hlex.1
  cases hreads with
  | identifier hspace hdigit hstart =>
    refine ⟨c, w, htext, hspace, ?_⟩
    rintro rfl
    cases hstart

/-- An identifier is read before a break, whether a regular expression is allowed or not. -/
theorem starts_identifier (h : tokens cs = [⟨.identifier, cs⟩]) (hc : IsBreak c) (a : Bool) (rest : List Char) :
    Token.Starts a ⟨.identifier, cs⟩ (c :: rest) := by
  have hlex := lexes_lex true cs
  rw [show lex true cs = [⟨.identifier, cs⟩] from h] at hlex
  refine (hlex.1.extend rfl rfl (fun _ => rfl) hc rest).congr (.inr fun hslash => ?_) a
  obtain ⟨d, w, rfl, -, hne⟩ := exists_cons_of_identifier h
  exact hne (Option.some.inj hslash)

/-- The text of a class up to the end of some members, and what follows it. -/
theorem settled_class {n ms : List Char} (hn : tokens n = [⟨.identifier, n⟩]) (hms : SelfContained ms)
    (h : ∀ b, Settled b (' ' :: cs) sig) :
    Settled true ("class".toList ++ ' ' :: (n ++ ' ' :: '\x7b' :: ' ' :: (ms ++ ' ' :: cs)))
      (classWord :: ⟨.identifier, n⟩ :: openCurly :: (significant (tokens ms) ++ sig)) := by
  have hbody : ∀ b, Settled b (' ' :: '\x7b' :: ' ' :: (ms ++ ' ' :: cs))
      (openCurly :: (significant (tokens ms) ++ sig)) :=
    fun b => ((hms.settled.append (.of_isWhiteSpace rfl) (h _)).blank.openCurly b).blank
  have hname : ∀ b, Settled b (n ++ ' ' :: '\x7b' :: ' ' :: (ms ++ ' ' :: cs))
      (⟨.identifier, n⟩ :: openCurly :: (significant (tokens ms) ++ sig)) := fun b =>
    .cons (starts_identifier hn (.of_isWhiteSpace rfl) b _) rfl rfl (fun _ => rfl) (hbody _)
  exact .cons (t := classWord) ⟨'c', "lass".toList, rfl, rfl⟩ rfl rfl (fun _ => rfl) (hname _).blank

/-- The text of a class up to the parameter list of its constructor. -/
def beforeParameters (n ms : List Char) : List Char :=
  "class".toList ++ ' ' :: (n ++ ' ' :: '\x7b' :: ' ' :: (ms ++ ' ' :: "constructor".toList))

/-- The text of a class from the end of the parameter list of its constructor on. -/
def afterParameters (body ms : List Char) : List Char :=
  ' ' :: '\x7b' :: ' ' :: (body ++ ' ' :: '\x7d' :: ' ' :: (ms ++ ' ' :: ['\x7d']))

theorem settled_beforeParameters {n ms : List Char} (hn : tokens n = [⟨.identifier, n⟩]) (hms : SelfContained ms) :
    Settled true (beforeParameters n ms)
      (classWord :: ⟨.identifier, n⟩ :: openCurly :: (significant (tokens ms) ++ [constructorWord])) := by
  refine settled_class hn hms fun b => Settled.blank ?_
  exact .cons (t := constructorWord) ⟨'c', "onstructor".toList, rfl, rfl⟩ rfl rfl (fun _ => rfl) (.nil _)

theorem settled_afterParameters {body ms : List Char} (hbody : SelfContained body) (hms : SelfContained ms)
    (hslash : (ms.dropWhile isWhiteSpace).head? ≠ some '/') :
    Settled false (afterParameters body ms)
      (openCurly :: (significant (tokens body) ++ closeCurly :: (significant (tokens ms) ++ [closeCurly]))) := by
  have hend : ∀ b, Settled b (' ' :: ['\x7d']) [closeCurly] := fun b => ((Settled.nil false).closeCurly b).blank
  -- after the brace a slash is an operator, but the second members do not begin with one
  have hms' : Settled false (ms ++ ' ' :: ['\x7d']) (significant (tokens ms) ++ [closeCurly]) :=
    (hms.settled.congr hslash false).append (.of_isWhiteSpace rfl) (hend _)
  have hclose : ∀ b, Settled b (' ' :: '\x7d' :: ' ' :: (ms ++ ' ' :: ['\x7d']))
      (closeCurly :: (significant (tokens ms) ++ [closeCurly])) := fun b => (hms'.blank.closeCurly b).blank
  exact ((hbody.settled.append (.of_isWhiteSpace rfl) (hclose _)).blank.openCurly false).blank

namespace Signature

private theorem lex_function :
    lex true "function f".toList = [⟨.identifier, "function".toList⟩, blank, ⟨.identifier, ['f']⟩] := by
  have hlexes : Lexes [] true [⟨.identifier, "function".toList⟩, blank, ⟨.identifier, ['f']⟩] :=
    ⟨⟨'f', "unction".toList, rfl, rfl⟩, ⟨' ', [], rfl, rfl⟩, ⟨'f', [], rfl, rfl⟩, trivial⟩
  exact hlexes.lex_joined

/-- What stands between the braces of a class leaves the depth as it was. -/
private theorem wellNested_members {m₁ p body m₂ : List Char} (hm₁ : SelfContained m₁) (hp : SelfContained p)
    (hbody : SelfContained body) (hm₂ : SelfContained m₂) :
    Depth.WellNested (significant (tokens m₁) ++ constructorWord ::
      (openParen :: (significant (tokens p) ++ [closeParen]) ++
        (openCurly :: (significant (tokens body) ++ [closeCurly]) ++ significant (tokens m₂)))) := by
  have hlist : Depth.WellNested (openParen :: (significant (tokens p) ++ [closeParen])) :=
    .enclose (by decide) rfl hp.wellNested.significant
  have hblock : Depth.WellNested (openCurly :: (significant (tokens body) ++ [closeCurly])) :=
    .enclose (by decide) rfl hbody.wellNested.significant
  exact hm₁.wellNested.significant.append (.cons rfl (hlist.append (hblock.append hm₂.wellNested.significant)))

private theorem stripComments_list {sig sig' : List Token} (hcs : Settled true cs sig) (hps : Settled true ps sig')
    (hds : CommentFree (lex false ds)) :
    stripComments (cs ++ '(' :: (ps ++ ')' :: ds)) = cs ++ '(' :: (ps ++ ')' :: ds) :=
  stripComments_of_commentFree (commentFree_list hcs hps hds)

private theorem parametersOf_class_eq {n m₁ p body m₂ : List Char} (hn : tokens n = [⟨.identifier, n⟩])
    (hm₁ : SelfContained m₁) (hctor : DeclaresNoConstructor (tokens m₁))
    (hlast : (significant (tokens m₁)).getLast?.any (·.isPunctuator ".") = false)
    (hp : SelfContained p) (hbody : SelfContained body) (hm₂ : SelfContained m₂)
    (hslash : (m₂.dropWhile isWhiteSpace).head? ≠ some '/') :
    parametersOf (stripComments (beforeParameters n m₁ ++ '(' :: (p ++ ')' :: afterParameters body m₂))) =
      parametersOf (stripComments ("function f".toList ++ '(' :: (p ++ ')' :: [' ', '\x7b', '\x7d']))) := by
  have hbefore := settled_beforeParameters hn hm₁
  have hafter := settled_afterParameters hbody hm₂ hslash
  have hfunction : Settled true "function f".toList (significant (lex true "function f".toList)) := by
    refine ⟨⟨?_, rfl⟩, ?_, ?_⟩ <;> rw [lex_function] <;> decide
  have hempty : Settled false [' ', '\x7b', '\x7d'] [openCurly, closeCurly] :=
    (((Settled.nil false).closeCurly true).openCurly false).blank
  rw [stripComments_list hbefore hp.settled hafter.reduces.1,
    stripComments_list hfunction hp.settled hempty.reduces.1]
  have hcs := tokens_list hbefore hp.settled (afterParameters body m₂)
  have hds := tokens_list hfunction hp.settled [' ', '\x7b', '\x7d']
  rw [lex_function] at hds
  have hsig := congrArg significant hcs
  rw [significant_append, hbefore.reduces.2, significant_cons rfl, significant_append, significant_cons rfl,
    hafter.reduces.2] at hsig
  rw [parametersOf_class (n := n) (wellNested_members hm₁ hp hbody hm₂) (hsig.trans (by simp)),
    parametersOf_of_openParen ⟨by decide, rfl, by decide, rfl⟩ hds]
  -- the constructor is found, and read on its own as it is in the class
  obtain ⟨ws, xs, hws, hfound⟩ := constructorFrom_class_eq hm₁.wellNested hctor hlast hp.wellNested hbefore.reduces.2
    (lex false (afterParameters body m₂))
  rw [← hcs] at hfound
  have hclosed : (Depth.parameterList.afterAll (tokens p)).paren = 1 := by
    rw [hp.wellNested.afterAll_eq]
    rfl
  refine congrArg _ (parameterTexts_congr hclosed ?_ (by decide) ((tokens_constructorText _).trans hfound) hds)
  exact List.forall_mem_cons.2 ⟨rfl, fun t ht => Token.isPunctuator_of_isTrivia (hws t ht) _⟩

private theorem parametersOf_class_eq_nil {n m : List Char} (hn : tokens n = [⟨.identifier, n⟩])
    (hm : SelfContained m) (hctor : DeclaresNoConstructor (tokens m)) :
    parametersOf (stripComments ("class".toList ++ ' ' :: (n ++ ' ' :: '\x7b' :: ' ' :: (m ++ ' ' :: ['\x7d'])))) =
      [] := by
  have hclass := settled_class hn hm fun b => ((Settled.nil false).closeCurly b).blank
  rw [stripComments_of_commentFree hclass.reduces.1, parametersOf_class hm.wellNested.significant hclass.reduces.2]
  rw [constructorText, tokens, constructorFrom_class_eq_nil hm.wellNested hctor hclass.reduces.2]
  simp [parameterTexts, pieces, tokens, lex]

/-- A class has the parameters that a function with the parameter list of its constructor has, and none if its members
declare no constructor. -/
theorem extract_class (n m₁ : String) (hn : tokens n.toList = [⟨.identifier, n.toList⟩])
    (hm₁ : SelfContained m₁.toList) (hctor : DeclaresNoConstructor (tokens m₁.toList))
    (hlast : (significant (tokens m₁.toList)).getLast?.any (·.isPunctuator ".") = false) :
    (∀ p body m₂ : String, SelfContained p.toList → SelfContained body.toList → SelfContained m₂.toList →
      (m₂.toList.dropWhile isWhiteSpace).head? ≠ some '/' →
      extract ("class " ++ n ++ " \x7b " ++ m₁ ++ " constructor(" ++ p ++ ") \x7b " ++ body ++ " \x7d " ++ m₂ ++
          " \x7d") =
        extract ("function f(" ++ p ++ ") \x7b\x7d")) ∧
      (extract ("class " ++ n ++ " \x7b " ++ m₁ ++ " \x7d")).isEmpty = true := by
  constructor
  · intro p body m₂ hp hbody hm₂ hslash
    have hparameters := parametersOf_class_eq hn hm₁ hctor hlast hp hbody hm₂ hslash
    unfold extract
    simpa [beforeParameters, afterParameters] using hparameters
  · have hparameters := parametersOf_class_eq_nil hn hm₁ hctor
    have htext : ("class " ++ n ++ " \x7b " ++ m₁ ++ " \x7d").toList =
        "class".toList ++ ' ' :: (n.toList ++ ' ' :: '\x7b' :: ' ' :: (m₁.toList ++ ' ' :: ['\x7d'])) := by
      simp
    unfold extract isEmpty
    rw [htext, hparameters]
    rfl

/-- A field with an arrow function that calls `this.constructor`, and a method that makes an object with a method of
that name. -/
def copyAndMake : String :=
  "copy = () => new this.constructor(1); make() \x7b return \x7b constructor(x) \x7b\x7d \x7d; \x7d"

theorem extract_class_copyAndMake :
    tokens "A".toList = [⟨.identifier, "A".toList⟩] ∧ SelfContained copyAndMake.toList ∧
      DeclaresNoConstructor (tokens copyAndMake.toList) ∧
      (significant (tokens copyAndMake.toList)).getLast?.any (·.isPunctuator ".") = false ∧
      SelfContained "y, z = \x7b \x7d".toList ∧ SelfContained "this.y = y;".toList ∧
      SelfContained "get = z => /\x7d/;".toList ∧
      ("get = z => /\x7d/;".toList.dropWhile isWhiteSpace).head? ≠ some '/' ∧
      extract ("class " ++ "A" ++ " \x7b " ++ copyAndMake ++ " constructor(" ++ "y, z = \x7b \x7d" ++ ") \x7b " ++
          "this.y = y;" ++ " \x7d " ++ "get = z => /\x7d/;" ++ " \x7d") =
        extract ("function f(" ++ "y, z = \x7b \x7d" ++ ") \x7b\x7d") ∧
      (extract ("class " ++ "A" ++ " \x7b " ++ copyAndMake ++ " \x7d")).isEmpty = true := by
  have hn : tokens "A".toList = [⟨.identifier, "A".toList⟩] := by
    decide +kernel
  have hm₁ : SelfContained copyAndMake.toList := by
    decide +kernel
  have hctor : DeclaresNoConstructor (tokens copyAndMake.toList) := by
    decide +kernel
  have hlast : (significant (tokens copyAndMake.toList)).getLast?.any (·.isPunctuator ".") = false := by
    decide +kernel
  have hp : SelfContained "y, z = \x7b \x7d".toList := by
    decide +kernel
  have hbody : SelfContained "this.y = y;".toList := by
    decide +kernel
  have hm₂ : SelfContained "get = z => /\x7d/;".toList := by
    decide +kernel
  have hslash : ("get = z => /\x7d/;".toList.dropWhile isWhiteSpace).head? ≠ some '/' := by
    decide +kernel
  obtain ⟨hwith, hwithout⟩ := extract_class "A" copyAndMake hn hm₁ hctor hlast
  exact ⟨hn, hm₁, hctor, hlast, hp, hbody, hm₂, hslash, hwith _ _ _ hp hbody hm₂ hslash, hwithout⟩

end Signature

end Injection
