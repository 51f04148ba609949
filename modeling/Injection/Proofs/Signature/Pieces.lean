import Injection.Proofs.Token.Significant
import Injection.Signature.Extract

/-!
# The parts of a parameter list

The passes over a source as functions of tokens: what they find does not depend on layout and comments, and every part
that is read again on its own is read as the same tokens.
-/

namespace Injection

variable {a : Bool} {d : Depth} {last : Option Token} {rest : List Char} {t : Token} {ts : List Token}

/-! ### Layout and comments are skipped -/

theorem Token.eq_of_isPunctuator {p : String} (ht : t.isPunctuator p = true) : t = ⟨.punctuator, p.toList⟩ := by
  cases t
  simpa [isPunctuator] using ht

theorem Token.isPunctuator_of_isTrivia (ht : t.isTrivia = true) (p : String) : t.isPunctuator p = false := by
  cases t with
  | mk k text => cases k <;> simp_all [isTrivia, isPunctuator]

theorem Token.isIdentifier_of_isTrivia (ht : t.isTrivia = true) (name : String) : t.isIdentifier name = false := by
  cases t with
  | mk k text => cases k <;> simp_all [isTrivia, isIdentifier]

theorem Depth.after_of_isTrivia (ht : t.isTrivia = true) (d : Depth) : d.after t = d := by
  simp [after, Token.isPunctuator_of_isTrivia ht]

theorem firstSignificant_append (ts us : List Token) :
    firstSignificant (ts ++ us) = (firstSignificant ts).or (firstSignificant us) :=
  List.find?_append

theorem firstSignificant_significant (ts : List Token) : firstSignificant (significant ts) = firstSignificant ts := by
  unfold firstSignificant significant
  rw [List.find?_filter]
  simp

/-- The last significant token once the tokens have been read. -/
def Token.lastSignificantAll (last : Option Token) (ts : List Token) : Option Token :=
  ts.foldl Token.lastSignificant last

theorem Token.lastSignificantAll_eq (last : Option Token) (ts : List Token) :
    Token.lastSignificantAll last ts = (significant ts).getLast?.or last := by
  induction ts generalizing last with
  | nil => rfl
  | cons t ts ih =>
    have hcons : Token.lastSignificantAll last (t :: ts) = Token.lastSignificantAll (t.lastSignificant last) ts := rfl
    rw [hcons, ih]
    cases ht : t.isTrivia with
    | true => rw [significant_cons_of_trivia ht, Token.lastSignificant, if_pos ht]
    | false =>
      rw [significant_cons ht, Token.lastSignificant, if_neg (by simp [ht]), List.getLast?_cons]
      cases (significant ts).getLast? <;> rfl

theorem arrowParameterFrom_significant (d : Depth) (last : Option Token) (ts : List Token) :
    arrowParameterFrom d last (significant ts) = arrowParameterFrom d last ts := by
  induction ts generalizing d last with
  | nil => rfl
  | cons t ts ih =>
    cases ht : t.isTrivia with
    | true =>
      rw [significant_cons_of_trivia ht, ih]
      simp [arrowParameterFrom, Token.isPunctuator_of_isTrivia ht, Depth.after_of_isTrivia ht, Token.lastSignificant,
        ht]
    | false =>
      rw [significant_cons ht]
      simp only [arrowParameterFrom, ih]

theorem throughMethod_significant (d : Depth) (ts : List Token) :
    throughMethod d (significant ts) = significant (throughMethod d ts) := by
  induction ts generalizing d with
  | nil => rfl
  | cons t ts ih =>
    cases ht : t.isTrivia with
    | true =>
      rw [significant_cons_of_trivia ht, ih]
      simp [throughMethod, Token.isPunctuator_of_isTrivia ht, Depth.after_of_isTrivia ht, significant_cons_of_trivia ht]
    | false =>
      rw [significant_cons ht]
      unfold throughMethod
      split
      · rw [significant_cons ht, significant_nil]
      · rw [significant_cons ht, ih]

theorem constructorFrom_significant (d : Depth) (last : Option Token) (ts : List Token) :
    constructorFrom d last (significant ts) = significant (constructorFrom d last ts) := by
  induction ts generalizing d last with
  | nil => rfl
  | cons t ts ih =>
    cases ht : t.isTrivia with
    | true =>
      rw [significant_cons_of_trivia ht, ih]
      simp [constructorFrom, isConstructor, Token.isIdentifier_of_isTrivia ht, Depth.after_of_isTrivia ht,
        Token.lastSignificant, ht]
    | false =>
      rw [significant_cons ht]
      unfold constructorFrom
      rw [isConstructor, isConstructor, firstSignificant_significant]
      split
      · rw [significant_cons ht, throughMethod_significant]
      · exact ih _ _

/-- The tokens after the first parenthesis; none if there is no parenthesis. -/
def afterParen (ts : List Token) : Option (List Token) :=
  match ts.dropWhile (!·.isPunctuator "(") with
  | [] => none
  | _ :: ts => some ts

theorem afterParen_significant (ts : List Token) : afterParen (significant ts) = (afterParen ts).map significant := by
  unfold afterParen
  induction ts with
  | nil => rfl
  | cons t ts ih =>
    cases ht : t.isTrivia with
    | true =>
      rw [significant_cons_of_trivia ht, ih]
      simp [Token.isPunctuator_of_isTrivia ht]
    | false =>
      rw [significant_cons ht]
      cases hp : t.isPunctuator "(" with
      | true => simp [hp]
      | false => simpa [hp] using ih

/-! ### Splitting at commas and equals signs -/

/-- The tokens before and after the first `=` at depth zero. -/
def splitTokens (d : Depth) : List Token → Option (List Token × List Token)
  | [] => none
  | t :: ts =>
    if d = .top ∧ t.isPunctuator "=" then some ([], ts)
    else (splitTokens (d.after t) ts).map fun r => (t :: r.1, r.2)

theorem splitAtEquals_eq (d : Depth) (ts : List Token) :
    splitAtEquals d ts = (splitTokens d ts).map fun r => (Token.joined r.1, Token.joined r.2) := by
  induction ts generalizing d with
  | nil => rfl
  | cons t ts ih =>
    unfold splitAtEquals splitTokens
    split
    · rfl
    · simp [ih, Function.comp_def]

theorem splitTokens_significant (d : Depth) (ts : List Token) :
    splitTokens d (significant ts) = (splitTokens d ts).map fun r => (significant r.1, significant r.2) := by
  induction ts generalizing d with
  | nil => rfl
  | cons t ts ih =>
    cases ht : t.isTrivia with
    | true =>
      rw [significant_cons_of_trivia ht, ih]
      simp [splitTokens, Token.isPunctuator_of_isTrivia ht, Depth.after_of_isTrivia ht, Function.comp_def,
        significant_cons_of_trivia ht]
    | false =>
      rw [significant_cons ht]
      unfold splitTokens
      split
      · rfl
      · simp [ih, Function.comp_def, significant_cons ht]

/-- The tokens between the commas of a parameter list, up to its closing parenthesis or to the end. -/
def pieceTokens (d : Depth) : List Token → List (List Token)
  | [] => [[]]
  | t :: ts =>
    if (d.after t).paren = 0 then [[]]
    else if t.isPunctuator "," ∧ d = .parameterList then [] :: pieceTokens d ts
    else (pieceTokens (d.after t) ts).modifyHead (t :: ·)

theorem piecesFrom_eq (d : Depth) (ts : List Token) : piecesFrom d ts = (pieceTokens d ts).map Token.joined := by
  induction ts generalizing d with
  | nil => rfl
  | cons t ts ih =>
    unfold piecesFrom pieceTokens
    split
    · rfl
    split
    · simp [ih]
    · rw [ih]
      cases pieceTokens (d.after t) ts <;> rfl

theorem pieceTokens_significant (hd : d.paren ≠ 0) (ts : List Token) :
    pieceTokens d (significant ts) = (pieceTokens d ts).map significant := by
  induction ts generalizing d with
  | nil => rfl
  | cons t ts ih =>
    cases ht : t.isTrivia with
    | true =>
      rw [significant_cons_of_trivia ht, ih hd]
      simp only [pieceTokens, Token.isPunctuator_of_isTrivia ht, Depth.after_of_isTrivia ht, hd, if_false]
      cases pieceTokens d ts <;> simp [significant_cons_of_trivia ht]
    | false =>
      rw [significant_cons ht]
      unfold pieceTokens
      split
      · rfl
      rename_i hparen
      split
      · simp [ih hd]
      · rw [ih hparen]
        cases pieceTokens (d.after t) ts <;> simp [significant_cons ht]

/-- The pieces of a source are those of its first parameter list. -/
theorem pieces_eq (cs : List Char) :
    pieces cs = (afterParen (tokens cs)).elim [] fun ts => (pieceTokens .parameterList ts).map Token.joined := by
  cases h : (tokens cs).dropWhile (!·.isPunctuator "(") with
  | nil => simp [pieces, afterParen, h]
  | cons t ts => simp [pieces, afterParen, h, piecesFrom_eq]

theorem afterParen_append {us : List Token} (hts : ∀ t ∈ ts, t.isPunctuator "(" = false)
    (ht : t.isPunctuator "(" = true) : afterParen (ts ++ t :: us) = some us := by
  unfold afterParen
  rw [List.dropWhile_append_of_pos (by simpa using hts), List.dropWhile_cons_of_neg (by simp [ht])]

/-! ### The parts are read as the same tokens -/

private theorem regexAfter_of_isPunctuator {p : String} (hp : p.toList ∉ Token.closers) (ht : t.isPunctuator p = true)
    (a : Bool) : t.regexAfter a = true := by
  cases t with
  | mk k text =>
    simp only [Token.isPunctuator, Bool.and_eq_true, beq_iff_eq] at ht
    obtain ⟨rfl, rfl⟩ := ht
    simpa [Token.regexAfter, Token.isTrivia, Token.precedesExpression] using hp

/-- What stands after a punctuator that closes nothing is read on its own as it is there. -/
private theorem lexes_after_punctuator {p : String} {us vs : List Token} (hp : p.toList ∉ Token.closers)
    (ht : t.isPunctuator p = true) (h : Lexes [] a (us ++ t :: vs)) : Lexes [] true vs := by
  obtain ⟨-, -, hvs⟩ := Lexes.append_iff.1 h
  rwa [regexAfter_of_isPunctuator hp ht] at hvs

theorem splitTokens_eq_some {us vs : List Token} (h : splitTokens d ts = some (us, vs)) :
    ∃ t, t.isPunctuator "=" = true ∧ ts = us ++ t :: vs := by
  induction ts generalizing d us with
  | nil => simp [splitTokens] at h
  | cons t ts ih =>
    unfold splitTokens at h
    split at h
    · rename_i ht
      cases h
      exact ⟨t, ht.2, rfl⟩
    · obtain ⟨⟨us', vs'⟩, hsplit, heq⟩ := Option.map_eq_some_iff.1 h
      cases heq
      obtain ⟨u, hu, rfl⟩ := ih hsplit
      exact ⟨u, hu, rfl⟩

/-- A name and a default are read on their own as they are in their parameter. -/
theorem splitTokens_lexes {us vs : List Token} (h : splitTokens d ts = some (us, vs)) (hts : Lexes [] a ts) :
    (Lexes [] a us ∧ us ⊆ ts) ∧ (Lexes [] true vs ∧ vs ⊆ ts) := by
  obtain ⟨t, ht, rfl⟩ := splitTokens_eq_some h
  have hname : Lexes [] a us := (show Lexes [] a ([] ++ us ++ t :: vs) from hts).slice
  have hvalue : Lexes [] true vs := lexes_after_punctuator (by decide) ht hts
  exact ⟨⟨hname, fun u hu => by simp [hu]⟩, hvalue, fun u hu => by simp [hu]⟩

theorem afterParen_eq_some {us : List Token} (h : afterParen ts = some us) :
    ∃ vs t, (∀ u ∈ vs, u.isPunctuator "(" = false) ∧ t.isPunctuator "(" = true ∧ ts = vs ++ t :: us := by
  unfold afterParen at h
  split at h
  · simp at h
  · rename_i t us' hdrop
    cases h
    refine ⟨ts.takeWhile (!·.isPunctuator "("), t, fun u hu => ?_, ?_, ?_⟩
    · simpa using List.all_eq_true.1 List.all_takeWhile u hu
    · have := List.head?_dropWhile_not (fun t : Token => !t.isPunctuator "(") ts
      rw [hdrop] at this
      simpa using this
    · rw [← hdrop, List.takeWhile_append_dropWhile]

/-- A parameter list is read on its own as it is in its source. -/
theorem afterParen_lexes {us : List Token} (h : afterParen ts = some us) (hts : Lexes [] a ts) :
    Lexes [] true us ∧ us ⊆ ts := by
  obtain ⟨vs, t, -, ht, rfl⟩ := afterParen_eq_some h
  exact ⟨lexes_after_punctuator (by decide) ht hts, fun u hu => by simp [hu]⟩

/-- Every piece of a parameter list is read on its own as it is in the list. -/
theorem pieceTokens_lexes (d : Depth) (h : Lexes rest a ts) :
    ∃ p ps, pieceTokens d ts = p :: ps ∧ p <+: ts ∧ Lexes [] a p ∧ ∀ q ∈ ps, q ⊆ ts ∧ Lexes [] true q := by
  induction ts generalizing a d with
  | nil => exact ⟨[], [], rfl, List.prefix_rfl, trivial, by simp⟩
  | cons t ts ih =>
    unfold pieceTokens
    split
    · exact ⟨[], [], rfl, List.nil_prefix, trivial, by simp⟩
    split
    · rename_i ht
      obtain ⟨p, ps, heq, hp, hlex, hps⟩ := ih d h.2
      rw [regexAfter_of_isPunctuator (by decide) ht.1] at hlex
      refine ⟨[], p :: ps, by rw [heq], List.nil_prefix, trivial, List.forall_mem_cons.2 ⟨⟨?_, hlex⟩, ?_⟩⟩
      · exact fun u hu => List.mem_cons_of_mem _ (hp.subset hu)
      · exact fun q hq => ⟨fun u hu => List.mem_cons_of_mem _ ((hps q hq).1 hu), (hps q hq).2⟩
    · obtain ⟨p, ps, heq, ⟨more, rfl⟩, hlex, hps⟩ := ih (d.after t) h.2
      refine ⟨t :: p, ps, by rw [heq]; rfl, ⟨more, rfl⟩, ⟨?_, hlex⟩, fun q hq => ?_⟩
      · have hstarts := h.1
        rw [Token.joined_append, List.append_assoc] at hstarts
        rw [List.append_nil]
        exact hstarts.cut
      · exact ⟨fun u hu => List.mem_cons_of_mem _ ((hps q hq).1 hu), (hps q hq).2⟩

theorem throughMethod_isPrefix (d : Depth) (ts : List Token) : throughMethod d ts <+: ts := by
  induction ts generalizing d with
  | nil => exact List.prefix_rfl
  | cons t ts ih =>
    unfold throughMethod
    split
    · exact ⟨ts, rfl⟩
    · exact List.cons_prefix_cons.2 ⟨rfl, ih _⟩

/-- The constructor of a class begins with its name. -/
theorem constructorFrom_eq (d : Depth) (last : Option Token) (ts : List Token) : constructorFrom d last ts = [] ∨
    ∃ us t vs ws, t.isIdentifier "constructor" = true ∧ constructorFrom d last ts = t :: vs ∧
      ts = us ++ (t :: vs) ++ ws := by
  induction ts generalizing d last with
  | nil => exact .inl rfl
  | cons t ts ih =>
    unfold constructorFrom
    split
    · rename_i ht
      obtain ⟨ws, hws⟩ := throughMethod_isPrefix d ts
      simp only [isConstructor, Bool.and_eq_true] at ht
      exact .inr ⟨[], t, _, ws, ht.1.1.2, rfl, by simp [hws]⟩
    · refine (ih (d.after t) (t.lastSignificant last)).imp id ?_
      rintro ⟨us, u, vs, ws, hu, heq, hts⟩
      exact ⟨t :: us, u, vs, ws, hu, heq, by rw [List.cons_append, List.cons_append, ← hts]⟩

theorem significant_constructorFrom_eq_nil (h : significant (constructorFrom d last ts) = []) :
    constructorFrom d last ts = [] := by
  rcases constructorFrom_eq d last ts with hnil | ⟨-, t, vs, -, ht, heq, -⟩
  · exact hnil
  · have htrivia : t.isTrivia = false := by
      rw [Bool.eq_false_iff]
      intro htrivia
      simp [Token.isIdentifier_of_isTrivia htrivia] at ht
    rw [heq, significant_cons htrivia] at h
    cases h

/-- The constructor of a class is read on its own as it is in the class. -/
theorem constructorFrom_lexes (d : Depth) (last : Option Token) (h : Lexes [] a ts) :
    Lexes [] true (constructorFrom d last ts) ∧ constructorFrom d last ts ⊆ ts := by
  rcases constructorFrom_eq d last ts with hnil | ⟨us, t, vs, ws, ht, heq, hts⟩
  · rw [hnil]
    exact ⟨trivial, by simp⟩
  · rw [heq]
    constructor
    · rw [hts] at h
      refine h.slice.congr (fun u hu => ?_) true
      have htrivia : t.isTrivia = false := by
        rw [Bool.eq_false_iff]
        intro htrivia
        simp [Token.isIdentifier_of_isTrivia htrivia] at ht
      simp only [Token.isIdentifier, Bool.and_eq_true, beq_iff_eq] at ht
      obtain rfl : t = u := by simpa [htrivia] using hu
      rw [ht.2]
      decide
    · intro u hu
      rw [hts, List.append_assoc]
      exact List.mem_append_right _ (List.mem_append_left _ hu)

theorem tokens_constructorText (cs : List Char) :
    tokens (constructorText cs) = constructorFrom .top none (tokens cs) :=
  (constructorFrom_lexes .top none (lexes_lex true cs)).1.lex_joined

end Injection
