import Injection.Proofs.Signature.Rendering

/-!
# The constructor among the members of a class

What the passes over the tokens of a class make of its members: they leave them all aside but the constructor, whatever
the members hold in delimiters of their own (`constructorFrom_class_eq`, `constructorFrom_class_eq_nil`).
-/

namespace Injection

variable {cs : List Char} {d : Depth} {last last' : Option Token} {t : Token} {ts us vs ws : List Token}

/-! ### Members without a constructor -/

/-- No token outside delimiters names a constructor: none is called `constructor`, followed by a parameter list and not
a member that is accessed. -/
def DeclaresNoConstructor (ts : List Token) : Prop :=
  ∀ us t vs, ts = us ++ t :: vs → Depth.top.afterAll us = .top → t.isIdentifier "constructor" = true →
    (firstSignificant vs).any (·.isPunctuator "(") = true →
    (significant us).getLast?.any (·.isPunctuator ".") = true

instance (ts : List Token) : Decidable (DeclaresNoConstructor ts) :=
  decidable_of_iff (∀ i : Fin ts.length, Depth.top.afterAll (ts.take i) = .top →
      ts[i].isIdentifier "constructor" = true →
      (firstSignificant (ts.drop (i + 1))).any (·.isPunctuator "(") = true →
      (significant (ts.take i)).getLast?.any (·.isPunctuator ".") = true) <| by
    constructor
    · rintro h us t vs rfl
      simpa using h ⟨us.length, by simp⟩
    · intro h i
      exact h (ts.take i) ts[i] (ts.drop (i + 1)) (by simp)

/-- None of the tokens is taken for the name of the constructor when others follow them. -/
def Passes (d : Depth) (last : Option Token) : List Token → List Token → Prop
  | [], _ => True
  | t :: ts, us => isConstructor d last t (ts ++ us) = false ∧ Passes (d.after t) (t.lastSignificant last) ts us

theorem constructorFrom_append (h : Passes d last ts us) :
    constructorFrom d last (ts ++ us) = constructorFrom (d.afterAll ts) (Token.lastSignificantAll last ts) us := by
  induction ts generalizing d last with
  | nil => rfl
  | cons t ts ih =>
    rw [List.cons_append, constructorFrom, if_neg (by simp [h.1]), ih h.2]
    rfl

theorem passes_significant : Passes d last (significant ts) us ↔ Passes d last ts us := by
  induction ts generalizing d last with
  | nil => exact Iff.rfl
  | cons t ts ih =>
    cases ht : t.isTrivia with
    | true =>
      rw [significant_cons_of_trivia ht, ih, Passes, Depth.after_of_isTrivia ht, Token.lastSignificant, if_pos ht]
      simp [isConstructor, Token.isIdentifier_of_isTrivia ht]
    | false =>
      rw [significant_cons ht, Passes, Passes, ih]
      unfold isConstructor
      rw [firstSignificant_append, firstSignificant_append, firstSignificant_significant]

theorem Passes.of_forall (h : ∀ vs t ws, ts = vs ++ t :: ws →
      isConstructor (d.afterAll vs) (Token.lastSignificantAll last vs) t (ws ++ us) = false) : Passes d last ts us := by
  induction ts generalizing d last with
  | nil => trivial
  | cons t ts ih =>
    refine ⟨h [] t ts rfl, ih fun vs u ws hts => ?_⟩
    exact h (t :: vs) u ws (by rw [hts]; rfl)

theorem passes_append : Passes d last (ts ++ us) ws ↔
    Passes d last ts (us ++ ws) ∧ Passes (d.afterAll ts) (Token.lastSignificantAll last ts) us ws := by
  induction ts generalizing d last with
  | nil => exact (iff_of_eq (true_and _)).symm
  | cons t ts ih =>
    rw [List.cons_append, Passes, Passes, ih, List.append_assoc, and_assoc]
    rfl

theorem isConstructor_of_kind (ht : t.kind ≠ .identifier) : isConstructor d last t ts = false := by
  simp [isConstructor, Token.isIdentifier, ht]

/-- What names no constructor names none when others follow, if it ends with a punctuator. -/
theorem Passes.of_constructorFrom_eq_nil (h : constructorFrom d last (ts ++ [t]) = []) (ht : t.kind = .punctuator)
    (us : List Token) : Passes d last (ts ++ [t]) us := by
  have htrivia : t.isTrivia = false := by simp [Token.isTrivia, ht]
  induction ts generalizing d last with
  | nil => exact ⟨isConstructor_of_kind (by simp [ht]), trivial⟩
  | cons u ts ih =>
    rw [List.cons_append, constructorFrom] at h
    split at h
    · cases h
    · rename_i hu
      rw [List.cons_append]
      refine ⟨?_, ih h⟩
      have hfirst : firstSignificant (ts ++ [t] ++ us) = firstSignificant (ts ++ [t]) := by
        rw [firstSignificant_append, firstSignificant_append]
        cases firstSignificant ts <;> simp [firstSignificant, htrivia]
      rw [isConstructor, hfirst]
      exact Bool.eq_false_iff.2 hu

/-- Among the members of a class nothing is taken for its constructor. -/
theorem DeclaresNoConstructor.passes (h : DeclaresNoConstructor ts)
    (hus : (firstSignificant us).any (·.isPunctuator "(") = false) (last : Option Token) :
    Passes .classBody last ts us := by
  refine .of_forall fun vs t ws hts => ?_
  rw [Bool.eq_false_iff]
  intro hctor
  simp only [isConstructor, Bool.and_eq_true, decide_eq_true_eq, Bool.not_eq_true'] at hctor
  obtain ⟨⟨⟨hdepth, hname⟩, hlast⟩, hfirst⟩ := hctor
  have htop : Depth.top.afterAll vs = .top := by
    rw [← Depth.within_eq_iff, ← Depth.afterAll_within, Depth.top_within]
    exact hdepth
  have hopen : (firstSignificant ws).any (·.isPunctuator "(") = true := by
    rw [firstSignificant_append] at hfirst
    cases hws : firstSignificant ws with
    | none => simp [hws, hus] at hfirst
    | some u => simpa [hws] using hfirst
  have hdot := h vs t ws hts htop hname hopen
  rw [Token.lastSignificantAll_eq] at hlast
  cases hvs : (significant vs).getLast? with
  | none => simp [hvs] at hdot
  | some u =>
    rw [hvs, Option.some_or] at hlast
    rw [hvs, hlast] at hdot
    cases hdot

/-- The token before matters to the search only if it is a dot. -/
theorem constructorFrom_congr_last (h : last.any (·.isPunctuator ".") = last'.any (·.isPunctuator "."))
    (d : Depth) (ts : List Token) : constructorFrom d last ts = constructorFrom d last' ts := by
  induction ts generalizing d last last' with
  | nil => rfl
  | cons t ts ih =>
    have hnext : (t.lastSignificant last).any (·.isPunctuator ".") =
        (t.lastSignificant last').any (·.isPunctuator ".") := by
      unfold Token.lastSignificant
      split
      · exact h
      · rfl
    rw [constructorFrom, constructorFrom, isConstructor, isConstructor, h, ih hnext]

/-! ### What the passes find between delimiters -/

/-- Nothing inside parentheses names the constructor of a class. -/
theorem Depth.WellNested.passes (h : WellNested ts) (hd : 0 < d.paren) (last : Option Token) (us : List Token) :
    Passes d last ts us := by
  refine .of_forall fun vs t ws hts => ?_
  obtain ⟨e, he, heq⟩ := h.afterAll_of_isPrefix ⟨t :: ws, hts.symm⟩ d
  have hne : d.afterAll vs ≠ .classBody := by
    intro hbody
    have hparen := congrArg Depth.paren (heq.symm.trans hbody)
    have := he.paren
    simp only [Depth.within, Depth.classBody] at hparen
    omega
  simp [isConstructor, hne]

/-- Nothing inside the body of a class is at depth zero. -/
theorem Depth.WellNested.avoids_classBody (h : WellNested ts) (p : String) : classBody.Avoids p ts := by
  intro us t vs hts _ htop
  obtain ⟨e, he, heq⟩ := h.afterAll_of_isPrefix ⟨t :: vs, hts.symm⟩ .classBody
  have hcurly := congrArg Depth.curly (heq.symm.trans htop)
  have := he.curly
  simp only [Depth.within, Depth.classBody, Depth.top] at hcurly
  omega

theorem throughMethod_append
    (h : ∀ vs t, vs ++ [t] <+: ts → t.isPunctuator "\x7d" = true → d.afterAll (vs ++ [t]) ≠ .classBody)
    (us : List Token) : throughMethod d (ts ++ us) = ts ++ throughMethod (d.afterAll ts) us := by
  induction ts generalizing d with
  | nil => rfl
  | cons t ts ih =>
    have ht : ¬ (t.isPunctuator "\x7d" = true ∧ d.after t = .classBody) := fun ht =>
      h [] t ⟨ts, rfl⟩ ht.1 ht.2
    have hts := fun vs u hvs => h (t :: vs) u (List.cons_prefix_cons.2 ⟨rfl, hvs⟩)
    rw [List.cons_append, throughMethod, if_neg ht, ih hts, List.cons_append, Depth.afterAll_cons]

/-- A method does not end inside its parameter list. -/
theorem throughMethod_parameters (h : Depth.WellNested ts) (hus : ∀ u ∈ us, u.isTrivia = true) (vs : List Token) :
    ∃ ws, throughMethod .classBody (us ++ openParen :: (ts ++ closeParen :: vs)) =
      us ++ openParen :: (ts ++ closeParen :: ws) := by
  have hopen : ∀ t ∈ us ++ [openParen], t.isPunctuator "\x7d" = false := by
    refine List.forall_mem_append.2 ⟨fun u hu => ?_, List.forall_mem_singleton.2 rfl⟩
    exact Token.isPunctuator_of_isTrivia (hus u hu) _
  have hdepth : Depth.classBody.afterAll (us ++ [openParen]) = ⟨1, 1, 0⟩ := by
    have hsig : significant us = [] := List.filter_eq_nil_iff.2 fun u hu => by simp [hus u hu]
    rw [Depth.afterAll_append, ← Depth.afterAll_significant .classBody us, hsig]
    rfl
  have hlist : throughMethod ⟨1, 1, 0⟩ (ts ++ closeParen :: vs) = ts ++ throughMethod ⟨1, 1, 0⟩ (closeParen :: vs) := by
    rw [throughMethod_append, h.afterAll_eq]
    intro ws t hws _ heq
    obtain ⟨e, he, hwithin⟩ := h.afterAll_of_isPrefix hws ⟨1, 1, 0⟩
    have hparen := congrArg Depth.paren (hwithin.symm.trans heq)
    have := he.paren
    simp only [Depth.within, Depth.classBody] at hparen
    omega
  refine ⟨throughMethod .classBody vs, ?_⟩
  have happend (ws : List Token) : us ++ openParen :: ws = (us ++ [openParen]) ++ ws := by simp
  rw [happend, throughMethod_append, hdepth, hlist, ← happend]
  · rfl
  · intro ws t hws ht
    rw [hopen t (hws.subset (by simp))] at ht
    cases ht

/-- No arrow inside the body of a class is at depth zero. -/
theorem arrowParameterFrom_within_classBody (h : d.StaysNonNegative ts) (t : Token) (last : Option Token) :
    arrowParameterFrom (d.within .classBody) last (ts ++ [t]) = none := by
  have htop {e : Depth} (he : e.NonNegative) : e.within .classBody ≠ .top := by
    intro heq
    have hcurly := congrArg Depth.curly heq
    have := he.curly
    simp only [Depth.within, Depth.classBody, Depth.top] at hcurly
    omega
  induction ts generalizing d last with
  | nil =>
    have hd : d.NonNegative := h [] List.nil_prefix
    simp [arrowParameterFrom, htop hd]
  | cons u ts ih =>
    obtain ⟨hd, hts⟩ := Depth.staysNonNegative_cons.1 h
    simp [arrowParameterFrom, htop hd, Depth.after_within, ih hts]

/-! ### Classes -/

def classWord : Token := ⟨.identifier, "class".toList⟩

def constructorWord : Token := ⟨.identifier, "constructor".toList⟩

def openCurly : Token := ⟨.punctuator, ['\x7b']⟩

def closeCurly : Token := ⟨.punctuator, ['\x7d']⟩

/-- Of a class only the constructor is read. -/
theorem parametersOf_class {n : List Char} (hts : Depth.WellNested ts)
    (hcs : significant (tokens cs) = classWord :: ⟨.identifier, n⟩ :: openCurly :: (ts ++ [closeCurly])) :
    parametersOf cs = (parameterTexts (constructorText cs)).map Parameter.ofPiece := by
  have harrow : arrowParameter cs = none := by
    have hbody (last : Option Token) : arrowParameterFrom .classBody last (ts ++ [closeCurly]) = none := by
      rw [← Depth.top_within .classBody]
      exact arrowParameterFrom_within_classBody hts.nonNegative closeCurly last
    rw [arrowParameter, ← arrowParameterFrom_significant, hcs]
    exact congrArg _ (hbody (some openCurly))
  have hclass : isClass cs = true := by
    rw [isClass, ← firstSignificant_significant, hcs]
    rfl
  simp [parametersOf, harrow, hclass]

/-- The search for the constructor comes past the members before it. -/
theorem constructorFrom_class {n : List Char} (hus : Depth.WellNested us) (hctor : DeclaresNoConstructor us)
    (hts : significant ts = classWord :: ⟨.identifier, n⟩ :: openCurly :: significant us)
    (hvs : (firstSignificant vs).any (·.isPunctuator "(") = false) :
    constructorFrom .top none (ts ++ vs) =
      constructorFrom .classBody (some ((significant us).getLast?.getD openCurly)) vs := by
  have hpasses : Passes .top none ts vs := by
    rw [← passes_significant, hts]
    exact ⟨rfl, rfl, rfl, passes_significant.2 (hctor.passes hvs _)⟩
  have hdepth : Depth.top.afterAll ts = .classBody := by
    rw [← Depth.afterAll_significant, hts]
    exact hus.significant.afterAll_eq _
  have hlast : Token.lastSignificantAll none ts = some ((significant us).getLast?.getD openCurly) := by
    rw [Token.lastSignificantAll_eq, hts]
    simp [List.getLast?_cons]
  rw [constructorFrom_append hpasses, hdepth, hlast]

/-- The search for the constructor finds it after these members, with its parameter list. -/
theorem constructorFrom_class_eq {n : List Char} {ps : List Token} (hus : Depth.WellNested us)
    (hctor : DeclaresNoConstructor us) (hlast : (significant us).getLast?.any (·.isPunctuator ".") = false)
    (hps : Depth.WellNested ps)
    (hts : significant ts =
      classWord :: ⟨.identifier, n⟩ :: openCurly :: (significant us ++ [constructorWord])) (vs : List Token) :
    ∃ ws xs, (∀ t ∈ ws, t.isTrivia = true) ∧
      constructorFrom .top none (ts ++ openParen :: (ps ++ closeParen :: vs)) =
        constructorWord :: ws ++ openParen :: (ps ++ closeParen :: xs) := by
  have hsplit : significant ts = (classWord :: ⟨.identifier, n⟩ :: openCurly :: significant us) ++ [constructorWord] :=
    hts
  obtain ⟨before, ws, rfl, hbefore, hafter⟩ := exists_of_significant_eq hsplit
  have hws : ∀ t ∈ ws, t.isTrivia = true := by simpa [significant] using hafter
  obtain ⟨xs, hxs⟩ := throughMethod_parameters hps hws vs
  refine ⟨ws, xs, hws, ?_⟩
  have hdot : (some ((significant us).getLast?.getD openCurly)).any (·.isPunctuator ".") = false := by
    cases hend : (significant us).getLast? with
    | none => rfl
    | some t => simpa [hend] using hlast
  have hopen : firstSignificant (ws ++ openParen :: (ps ++ closeParen :: vs)) = some openParen := by
    rw [firstSignificant_append, show firstSignificant ws = none from List.find?_eq_none.2 (by simpa using hws)]
    rfl
  have hfound : isConstructor .classBody (some ((significant us).getLast?.getD openCurly)) constructorWord
      (ws ++ openParen :: (ps ++ closeParen :: vs)) = true := by
    rw [isConstructor, hdot, hopen]
    rfl
  rw [List.append_assoc, constructorFrom_class hus hctor hbefore rfl, List.cons_append, constructorFrom, if_pos hfound,
    hxs]
  rfl

/-- After these members alone the search finds nothing. -/
theorem constructorFrom_class_eq_nil {n : List Char} (hus : Depth.WellNested us) (hctor : DeclaresNoConstructor us)
    (hts : significant ts = classWord :: ⟨.identifier, n⟩ :: openCurly :: (significant us ++ [closeCurly])) :
    constructorFrom .top none ts = [] := by
  have hsplit : significant ts = (classWord :: ⟨.identifier, n⟩ :: openCurly :: significant us) ++ [closeCurly] := hts
  obtain ⟨before, ws, rfl, hbefore, hafter⟩ := exists_of_significant_eq hsplit
  have hpasses : Passes .classBody (some ((significant us).getLast?.getD openCurly)) (closeCurly :: ws) [] := by
    rw [← passes_significant, significant_cons rfl, hafter]
    exact ⟨rfl, trivial⟩
  have hend := constructorFrom_append hpasses
  rw [List.append_nil] at hend
  rw [constructorFrom_class hus hctor hbefore rfl, hend]
  rfl

end Injection
