import Injection.Proofs.Signature.Heads

/-!
# Member accesses

Which token of a class is taken for the name of its constructor (`constructorText_cases`), and what a field whose
initializer calls a member `constructor` does to the signature: nothing if the member is accessed with a dot.  The
optional access is no exception to the search, so its arguments are taken for the parameters of the class
(`Signature.extract_memberAccess`).
-/

namespace Injection

open Lexeme

variable {cs ds xs args : List Char} {op t : Token} {ts us vs ws : List Token}

/-! ### What the search finds -/

/-- The token `t` between others is the name of a method of the class body that is called `constructor`, unless it is
preceded by a dot. -/
structure NamesConstructor (us : List Token) (t : Token) (vs : List Token) : Prop where
  depth : Depth.top.afterAll us = .classBody
  name : t.isIdentifier "constructor" = true
  noDot : (significant us).getLast?.any (·.isPunctuator ".") = false
  parameters : (firstSignificant vs).any (·.isPunctuator "(") = true

theorem isConstructor_iff : isConstructor (Depth.top.afterAll us) (Token.lastSignificantAll none us) t vs = true ↔
    NamesConstructor us t vs := by
  rw [Token.lastSignificantAll_eq, Option.or_none]
  simp only [isConstructor, Bool.and_eq_true, decide_eq_true_eq, Bool.not_eq_true']
  constructor
  · rintro ⟨⟨⟨hdepth, hname⟩, hdot⟩, hparameters⟩
    exact ⟨hdepth, hname, hdot, hparameters⟩
  · rintro ⟨hdepth, hname, hdot, hparameters⟩
    exact ⟨⟨⟨hdepth, hname⟩, hdot⟩, hparameters⟩

/-- The search stops at the first token that names a constructor. -/
theorem constructorFrom_cases (us ts : List Token) :
    constructorFrom (Depth.top.afterAll us) (Token.lastSignificantAll none us) ts = [] ∧
        (∀ vs t ws, ts = vs ++ t :: ws → ¬ NamesConstructor (us ++ vs) t ws) ∨
      ∃ vs t ws, ts = vs ++ t :: ws ∧ NamesConstructor (us ++ vs) t ws ∧
        constructorFrom (Depth.top.afterAll us) (Token.lastSignificantAll none us) ts =
          t :: throughMethod .classBody ws ∧
        ∀ vs' t' ws', ts = vs' ++ t' :: ws' → vs'.length < vs.length → ¬ NamesConstructor (us ++ vs') t' ws' := by
  induction ts generalizing us with
  | nil => exact .inl ⟨rfl, by simp⟩
  | cons t ts ih =>
    by_cases ht : NamesConstructor us t ts
    · refine .inr ⟨[], t, ts, rfl, by rwa [List.append_nil], ?_, by simp⟩
      rw [constructorFrom, if_pos (isConstructor_iff.2 ht), ht.depth]
    -- what holds of the tokens after `t` holds of all of them, since `t` names no constructor
    have hfirst {vs : List Token} {u : Token} {ws : List Token} (heq : t :: ts = vs ++ u :: ws) :
        vs = [] ∧ ¬ NamesConstructor (us ++ vs) u ws ∨ ∃ vs', vs = t :: vs' ∧ ts = vs' ++ u :: ws := by
      rcases List.cons_eq_append_iff.1 heq with ⟨rfl, hws⟩ | ⟨vs', rfl, hts⟩
      · obtain ⟨rfl, rfl⟩ := List.cons.inj hws
        exact .inl ⟨rfl, by rwa [List.append_nil]⟩
      · exact .inr ⟨vs', rfl, hts⟩
    have hstep : constructorFrom (Depth.top.afterAll us) (Token.lastSignificantAll none us) (t :: ts) =
        constructorFrom (Depth.top.afterAll (us ++ [t])) (Token.lastSignificantAll none (us ++ [t])) ts := by
      rw [constructorFrom, if_neg (by rw [isConstructor_iff]; exact ht), Depth.afterAll_append,
        Token.lastSignificantAll, Token.lastSignificantAll, List.foldl_append]
      rfl
    rw [hstep]
    rcases ih (us ++ [t]) with ⟨hnil, hnone⟩ | ⟨vs, u, ws, rfl, hnames, hfound, hearlier⟩
    · refine .inl ⟨hnil, fun vs u ws heq => ?_⟩
      rcases hfirst heq with ⟨-, hno⟩ | ⟨vs, rfl, hts⟩
      · exact hno
      · have := hnone vs u ws hts
        rwa [List.append_assoc] at this
    · refine .inr ⟨t :: vs, u, ws, rfl, ?_, hfound, fun vs' u' ws' heq hlength => ?_⟩
      · rwa [List.append_assoc] at hnames
      · rcases hfirst heq with ⟨-, hno⟩ | ⟨vs', rfl, hts⟩
        · exact hno
        · have := hearlier vs' u' ws' hts (Nat.lt_of_succ_lt_succ hlength)
          rwa [List.append_assoc] at this

theorem constructorText_cases (cs : List Char) :
    constructorText cs = [] ∧ (∀ us t vs, tokens cs = us ++ t :: vs → ¬ NamesConstructor us t vs) ∨
      ∃ us t vs, tokens cs = us ++ t :: vs ∧ NamesConstructor us t vs ∧
        constructorText cs = Token.joined (t :: throughMethod .classBody vs) ∧
        ∀ us' t' vs', tokens cs = us' ++ t' :: vs' → us'.length < us.length → ¬ NamesConstructor us' t' vs' := by
  have hstart : constructorText cs =
      Token.joined (constructorFrom (Depth.top.afterAll []) (Token.lastSignificantAll none []) (tokens cs)) := rfl
  rw [hstart]
  rcases constructorFrom_cases [] (tokens cs) with ⟨hnil, hnone⟩ | ⟨us, t, vs, heq, hnames, hfound, hearlier⟩
  · rw [hnil]
    exact .inl ⟨rfl, hnone⟩
  · rw [hfound]
    exact .inr ⟨us, t, vs, heq, hnames, rfl, hearlier⟩

/-! ### Places among the members of a class -/

def semicolon : Token := ⟨.punctuator, [';']⟩

/-- The tokens are those of a class up to a place among its members where another one can begin, and none of them names
a constructor. -/
structure MembersBegin (us : List Token) (t : Token) : Prop where
  boundary : t ∈ [openCurly, closeCurly, semicolon]
  beginsClass : (firstSignificant (us ++ [t])).any (·.isIdentifier "class") = true
  depth : Depth.top.afterAll (us ++ [t]) = .classBody
  noConstructor : constructorFrom .top none (us ++ [t]) = []

namespace MembersBegin

theorem congr (h : MembersBegin us t) (hsig : significant vs = significant us) : MembersBegin vs t := by
  have hall : significant (vs ++ [t]) = significant (us ++ [t]) := by
    rw [significant_append, significant_append, hsig]
  refine ⟨h.boundary, ?_, (Depth.afterAll_congr _ hall).trans h.depth, significant_constructorFrom_eq_nil ?_⟩
  · rw [← firstSignificant_significant, hall, firstSignificant_significant]
    exact h.beginsClass
  · rw [← constructorFrom_significant, hall, constructorFrom_significant, h.noConstructor]
    rfl

theorem isFinal (h : MembersBegin us t) : t.IsFinal := by
  have hboundary := h.boundary
  simp only [List.mem_cons, List.not_mem_nil, or_false] at hboundary
  rcases hboundary with rfl | rfl | rfl
  · exact ⟨fun _ _ => ⟨'\x7b', [], rfl, rfl⟩, by decide, rfl, List.forall_mem_singleton.2 rfl⟩
  · exact ⟨fun _ _ => ⟨'\x7d', [], rfl, rfl⟩, by decide, rfl, List.forall_mem_singleton.2 rfl⟩
  · exact ⟨fun _ _ => ⟨';', [], rfl, rfl⟩, by decide, rfl, List.forall_mem_singleton.2 rfl⟩

theorem kind (h : MembersBegin us t) : t.kind = .punctuator := by
  have hkinds : ∀ u ∈ [openCurly, closeCurly, semicolon], u.kind = .punctuator := by decide
  exact hkinds t h.boundary

theorem isPunctuator_dot (h : MembersBegin us t) : t.isPunctuator "." = false := by
  have hdots : ∀ u ∈ [openCurly, closeCurly, semicolon], u.isPunctuator "." = false := by decide
  exact hdots t h.boundary

theorem lastSignificantAll (h : MembersBegin us t) : Token.lastSignificantAll none (us ++ [t]) = some t := by
  rw [Token.lastSignificantAll_eq, significant_append, significant_cons h.isFinal.significant]
  simp

/-- The search for the constructor comes to the place. -/
theorem constructorFrom_eq (h : MembersBegin us t) (hcs : tokens cs = us ++ t :: ws) :
    constructorFrom .top none (tokens cs) = constructorFrom .classBody (some t) ws := by
  have hpasses : Passes .top none (us ++ [t]) ws := .of_constructorFrom_eq_nil h.noConstructor h.kind ws
  rw [hcs, List.append_cons, constructorFrom_append hpasses, h.depth, h.lastSignificantAll]

theorem isClass_eq (h : MembersBegin us t) (hcs : tokens cs = us ++ t :: ws) : isClass cs = true := by
  have hclass := h.beginsClass
  rw [isClass, hcs, List.append_cons, firstSignificant_append]
  cases hfirst : firstSignificant (us ++ [t]) with
  | none => simp [hfirst] at hclass
  | some u => rwa [hfirst] at hclass

/-- What is put in at the place changes no arrow function. -/
theorem arrowParameter_eq (h : MembersBegin us t) (hts : Depth.WellNested ts) (hcs : tokens cs = us ++ t :: ws)
    (hds : tokens ds = us ++ t :: (ts ++ ws)) : arrowParameter ds = arrowParameter cs := by
  rw [arrowParameter, arrowParameter, hcs, hds, List.append_cons, List.append_cons us t ws]
  refine congrArg _ (arrowParameterFrom_append_congr ?_)
  rw [h.depth, arrowParameterFrom_append (hts.avoids_classBody "(") (hts.avoids_classBody "=>"), hts.afterAll_eq]
  exact arrowParameterFrom_congr_last (by decide) _ _ ws

/-- What is put in at the place and names no constructor changes no parameter. -/
theorem parametersOf_eq (h : MembersBegin us t) (hts : Depth.WellNested ts) (hpasses : Passes .classBody (some t) ts ws)
    (hlast : (significant ts).getLast?.any (·.isPunctuator ".") = false) (hcs : tokens cs = us ++ t :: ws)
    (hds : tokens ds = us ++ t :: (ts ++ ws)) : parametersOf ds = parametersOf cs := by
  have hdot : (Token.lastSignificantAll (some t) ts).any (·.isPunctuator ".") =
      (some t).any (·.isPunctuator ".") := by
    rw [Token.lastSignificantAll_eq]
    cases hend : (significant ts).getLast? with
    | none => rfl
    | some u => simpa [hend, h.isPunctuator_dot] using hlast
  have htext : constructorText ds = constructorText cs := by
    rw [constructorText, constructorText, h.constructorFrom_eq hcs, h.constructorFrom_eq hds,
      constructorFrom_append hpasses, hts.afterAll_eq, constructorFrom_congr_last hdot]
  unfold parametersOf
  rw [h.arrowParameter_eq hts hcs hds, h.isClass_eq hcs, h.isClass_eq hds, htext, if_pos rfl, if_pos rfl]

/-- Where a place among the members is followed by no slash, what follows is stripped and read by itself. -/
theorem exists_tokens (h : MembersBegin us t) (hcs : tokens cs = us ++ [t]) (hs : SlashSafe true (tokens cs)) :
    ∃ vs, MembersBegin vs t ∧ ∀ more,
      (∀ u, firstSignificant (tokens more) = some u → u.text.head? ≠ some '/') →
        tokens (stripComments (cs ++ more)) = vs ++ t :: tokens (stripComments more) := by
  obtain ⟨vs, hsig, -, hmore⟩ := tokens_stripComments_final hcs hs h.isFinal
  refine ⟨vs, h.congr hsig, fun more hslash => ?_⟩
  rw [hmore more, lex_stripFrom_congr hslash]

end MembersBegin

/-! ### Fields that call a member -/

def dot : Token := ⟨.punctuator, ['.']⟩

def optionalDot : Token := ⟨.punctuator, ['?', '.']⟩

def thisWord : Token := ⟨.identifier, "this".toList⟩

/-- The tokens of a field up to the arguments with which its initializer calls the member. -/
def accessTokens (x : List Char) (op : Token) : List Token :=
  [blank, ⟨.identifier, x⟩, blank, equals, blank, thisWord, op, constructorWord]

/-- The text can stand between the parentheses of a call: its delimiters are balanced, no comment or literal in it goes
on past its end, and no slash stands for an operator where a regular expression is allowed. -/
structure IsArguments (args : List Char) : Prop where
  closed : tokens (args ++ [')']) = tokens args ++ [closeParen]
  slashSafe : SlashSafe true (tokens args)
  wellNested : Depth.WellNested (tokens args)

theorem IsArguments.exists_tokens (h : IsArguments args) : ∃ list, Depth.WellNested list ∧ ∀ more,
    tokens (stripComments (args ++ ')' :: more)) = list ++ closeParen :: lex false (stripFrom false more) := by
  have hsafe : SlashSafe true (tokens (args ++ [')'])) := by
    rw [h.closed]
    exact Settled.slashSafe_append h.slashSafe ⟨fun _ => rfl, trivial⟩
  obtain ⟨list, hsig, -, hmore⟩ := tokens_stripComments_final h.closed hsafe isFinal_closeParen
  refine ⟨list, h.wellNested.congr hsig, fun more => ?_⟩
  have := hmore more
  rwa [List.append_assoc] at this

theorem lex_stripFrom_semicolon (a : Bool) (cs : List Char) :
    lex a (stripFrom a (';' :: cs)) = semicolon :: tokens (stripComments cs) := by
  have hlex (ds : List Char) : lex a (';' :: ds) = semicolon :: lex true ds := by
    have hstarts : semicolon.Starts a ds := ⟨';', [], rfl, rfl⟩
    exact hstarts.lex_eq
  rw [stripFrom, hlex]
  exact hlex (stripComments cs)

section

variable {x : List Char} (hx : tokens x = [⟨.identifier, x⟩]) (hop : op ∈ [dot, optionalDot])

include hx hop

theorem lexes_accessTokens (rest : List Char) : Lexes ('(' :: rest) true (accessTokens x op) := by
  have hbreak : IsBreak ' ' := .of_isWhiteSpace rfl
  have hname := starts_identifier hx hbreak
  obtain ⟨c, w, rfl, hspace, -⟩ := exists_cons_of_identifier hx
  have hword : constructorWord.Starts (op.regexAfter false) ('(' :: rest) := ⟨'c', "onstructor".toList, rfl, rfl⟩
  have hmember : op.Starts false ("constructor".toList ++ '(' :: rest) ∧
      thisWord.Starts true (op.text ++ "constructor".toList ++ '(' :: rest) := by
    simp only [List.mem_cons, List.not_mem_nil, or_false] at hop
    rcases hop with rfl | rfl
    · exact ⟨⟨'.', [], rfl, rfl⟩, 't', "his".toList, rfl, rfl⟩
    · exact ⟨⟨'?', ['.'], rfl, rfl⟩, 't', "his".toList, rfl, rfl⟩
  have hjoined : Token.joined [op, constructorWord] = op.text ++ "constructor".toList := by
    simp [constructorWord]
  refine ⟨starts_blank hspace _ _, hname _ _, starts_blank rfl _ _, starts_equals _ _, starts_blank rfl _ _, ?_,
    hmember.1, hword, trivial⟩
  rw [hjoined]
  exact hmember.2

theorem tokens_stripComments_access (more : List Char) :
    tokens (stripComments (Token.joined (accessTokens x op) ++ '(' :: more)) =
      accessTokens x op ++ openParen :: tokens (stripComments more) := by
  have htokens : tokens (Token.joined (accessTokens x op ++ [openParen])) = accessTokens x op ++ [openParen] := by
    have hlex : Lexes [] true (accessTokens x op ++ [openParen]) := by
      rw [Lexes.append_iff]
      exact ⟨lexes_accessTokens hx hop [], starts_openParen _ _, trivial⟩
    exact hlex.lex_joined
  have hkinds : ∀ u ∈ [dot, optionalDot], u.isComment = false ∧ u.isSlash = false := by decide
  obtain ⟨hcomment, hslash⟩ := hkinds op hop
  have hfree : CommentFree (accessTokens x op ++ [openParen]) := by
    intro u hu
    simp only [accessTokens, List.cons_append, List.nil_append, List.mem_cons, List.not_mem_nil, or_false] at hu
    rcases hu with rfl | rfl | rfl | rfl | rfl | rfl | rfl | rfl | rfl
    all_goals first | rfl | exact hcomment
  have hsafe : SlashSafe true (accessTokens x op ++ [openParen]) :=
    ⟨fun _ => rfl, fun _ => rfl, fun _ => rfl, fun _ => rfl, fun _ => rfl, fun _ => rfl, fun _ => hslash, fun _ => rfl,
      fun _ => rfl, trivial⟩
  obtain ⟨vs, -, hstrip, hmore⟩ := tokens_stripComments_final htokens (by rwa [htokens]) isFinal_openParen
  rw [stripComments_of_commentFree (by rwa [htokens]), htokens] at hstrip
  obtain ⟨rfl, -⟩ := List.append_inj' hstrip rfl
  have := hmore more
  rw [Token.joined_append, List.append_assoc] at this
  exact this

/-- No field begins with a slash. -/
theorem firstSignificant_access (more : List Char) (u : Token)
    (hu : firstSignificant (tokens (Token.joined (accessTokens x op) ++ '(' :: more)) = some u) :
    u.text.head? ≠ some '/' := by
  rw [tokens, (lexes_accessTokens hx hop more).lex_append] at hu
  obtain rfl : ⟨.identifier, x⟩ = u := Option.some.inj hu
  obtain ⟨c, w, rfl, -, hne⟩ := exists_cons_of_identifier hx
  exact fun heq => hne (Option.some.inj heq)

end

/-- In a field that accesses the member with a dot nothing is taken for the constructor. -/
theorem passes_accessTokens (x : List Char) {list : List Token} (h : Depth.WellNested list) (last : Option Token)
    (ws : List Token) :
    Passes .classBody last (accessTokens x dot ++ openParen :: (list ++ [closeParen, semicolon])) ws := by
  rw [passes_append]
  constructor
  · refine ⟨rfl, ?_, rfl, rfl, rfl, rfl, rfl, rfl, trivial⟩
    -- whatever the name of the field, no parenthesis follows it
    exact Bool.and_false _
  · have hdepth : Depth.classBody.afterAll (accessTokens x dot) = .classBody := rfl
    rw [hdepth]
    refine ⟨rfl, passes_append.2 ⟨h.passes (by decide) _ _, ?_⟩⟩
    exact ⟨isConstructor_of_kind (by decide), isConstructor_of_kind (by decide), trivial⟩

/-- The name of the member that is accessed with the optional dot is taken for that of the constructor. -/
theorem constructorFrom_accessTokens (x : List Char) (last : Option Token) (ws : List Token) :
    constructorFrom .classBody last (accessTokens x optionalDot ++ openParen :: ws) =
      constructorWord :: throughMethod .classBody (openParen :: ws) := by
  have hpasses : Passes .classBody last [blank, ⟨.identifier, x⟩, blank, equals, blank, thisWord, optionalDot]
      (constructorWord :: openParen :: ws) := by
    refine ⟨rfl, ?_, rfl, rfl, rfl, rfl, rfl, trivial⟩
    exact Bool.and_false _
  exact constructorFrom_append hpasses

theorem wellNested_accessTokens (x : List Char) (hop : op ∈ [dot, optionalDot]) {list : List Token}
    (h : Depth.WellNested list) :
    Depth.WellNested (accessTokens x op ++ openParen :: (list ++ [closeParen, semicolon])) := by
  have hafter : ∀ u ∈ [dot, optionalDot], Depth.top.after u = .top := by decide
  have hcall : Depth.WellNested (openParen :: (list ++ [closeParen]) ++ [semicolon]) :=
    (Depth.WellNested.enclose (by decide) rfl h).append (.cons rfl .nil)
  have hlist : openParen :: (list ++ [closeParen, semicolon]) = openParen :: (list ++ [closeParen]) ++ [semicolon] := by
    simp
  rw [hlist]
  exact .cons rfl (.cons rfl (.cons rfl (.cons rfl (.cons rfl (.cons rfl (.cons (hafter op hop) (.cons rfl hcall)))))))

/-! ### Sources -/

namespace Signature

private theorem tokens_function (hargs : ∀ more, tokens (stripComments (args ++ ')' :: more)) =
      ts ++ closeParen :: lex false (stripFrom false more)) (more : List Char) :
    tokens (stripComments ("function f(".toList ++ (args ++ ')' :: more))) =
      tokens "function f".toList ++ openParen :: (ts ++ closeParen :: lex false (stripFrom false more)) := by
  have htokens : tokens "function f(".toList = tokens "function f".toList ++ [openParen] := by
    decide +kernel
  obtain ⟨vs, -, hstrip, hmore⟩ := tokens_stripComments_final htokens (by decide +kernel) isFinal_openParen
  have hself : tokens (stripComments "function f(".toList) = tokens "function f".toList ++ [openParen] := by
    decide +kernel
  rw [hself] at hstrip
  obtain ⟨rfl, -⟩ := List.append_inj' hstrip rfl
  rw [hmore, ← hargs]
  rfl

/-- A call of the member with a dot changes no parameter. -/
private theorem parametersOf_dot {x : List Char} (h : MembersBegin us t) (hlist : Depth.WellNested ts)
    (hcs : tokens cs = us ++ t :: ws)
    (hds : tokens ds = us ++ t :: (accessTokens x dot ++ openParen :: (ts ++ [closeParen, semicolon]) ++ ws)) :
    parametersOf ds = parametersOf cs := by
  have hnested := wellNested_accessTokens x (show dot ∈ [dot, optionalDot] by decide) hlist
  refine h.parametersOf_eq hnested (passes_accessTokens x hlist _ ws) ?_ hcs hds
  have hend : accessTokens x dot ++ openParen :: (ts ++ [closeParen, semicolon]) =
      accessTokens x dot ++ openParen :: (ts ++ [closeParen]) ++ [semicolon] := by
    simp
  rw [hend, significant_append, significant_cons rfl, List.getLast?_append]
  rfl

/-- The arguments of a call of the member with an optional dot are the parameters of the class. -/
private theorem parametersOf_optionalDot {x : List Char} (h : MembersBegin us t) (hlist : Depth.WellNested ts)
    (hcs : tokens cs = us ++ t :: ws) (harrow : arrowParameter cs = none)
    (hds : tokens ds = us ++ t :: (accessTokens x optionalDot ++ openParen :: (ts ++ [closeParen, semicolon]) ++ ws))
    (hxs : tokens xs = tokens "function f".toList ++ openParen :: (ts ++ closeParen :: vs)) :
    parametersOf ds = parametersOf xs := by
  have hnested := wellNested_accessTokens x (show optionalDot ∈ [dot, optionalDot] by decide) hlist
  have harrow' : arrowParameter ds = none := by rw [h.arrowParameter_eq hnested hcs hds, harrow]
  have hfunction : BeforeList (tokens "function f".toList) :=
    ⟨by decide +kernel, by decide +kernel, by decide +kernel, by decide +kernel⟩
  obtain ⟨zs, hzs⟩ := throughMethod_parameters hlist (List.forall_mem_nil _) (semicolon :: ws)
  have hfound : tokens (constructorText ds) = [constructorWord] ++ openParen :: (ts ++ closeParen :: zs) := by
    have hlists : accessTokens x optionalDot ++ openParen :: (ts ++ [closeParen, semicolon]) ++ ws =
        accessTokens x optionalDot ++ openParen :: (ts ++ closeParen :: semicolon :: ws) := by
      simp
    rw [tokens_constructorText, h.constructorFrom_eq hds, hlists, constructorFrom_accessTokens]
    exact congrArg _ hzs
  have hclosed : (Depth.parameterList.afterAll ts).paren = 1 := by
    rw [hlist.afterAll_eq]
    rfl
  rw [parametersOf_of_openParen hfunction hxs, parametersOf, harrow', h.isClass_eq hds]
  refine congrArg _ (parameterTexts_congr hclosed ?_ hfunction.noParen hfound hxs)
  exact List.forall_mem_singleton.2 rfl

/-- Accesses of a member `constructor` in the source of a class.  Its constructor is the first method of that name that
no dot precedes.  So a call of the member with a dot, put in among the members before the constructor, changes no
parameter, but the arguments of a call with an optional dot are the parameters of the class, whatever constructor
follows. -/
theorem extract_memberAccess (source : String) :
    (constructorText source.toList = [] ∧
        (∀ us t vs, tokens source.toList = us ++ t :: vs → ¬ NamesConstructor us t vs) ∨
      ∃ us t vs, tokens source.toList = us ++ t :: vs ∧ NamesConstructor us t vs ∧
        constructorText source.toList = Token.joined (t :: throughMethod .classBody vs) ∧
        ∀ us' t' vs', tokens source.toList = us' ++ t' :: vs' → us'.length < us.length →
          ¬ NamesConstructor us' t' vs') ∧
    ∀ (head rest x args : String) (us : List Token) (t : Token), source = head ++ rest →
      tokens head.toList = us ++ [t] → SlashSafe true (tokens head.toList) → MembersBegin us t →
      (∀ u, firstSignificant (tokens rest.toList) = some u → u.text.head? ≠ some '/') →
      tokens x.toList = [⟨.identifier, x.toList⟩] → IsArguments args.toList →
      extract (head ++ " " ++ x ++ " = this.constructor(" ++ args ++ ");" ++ rest) = extract source ∧
      (arrowParameter (stripComments source.toList) = none →
        extract (head ++ " " ++ x ++ " = this?.constructor(" ++ args ++ ");" ++ rest) =
          extract ("function f(" ++ args ++ ") \x7b\x7d")) := by
  refine ⟨constructorText_cases _, ?_⟩
  rintro head rest x args us t rfl hhead hs hmembers hrest hx hargs
  obtain ⟨vs, hmembers', hplace⟩ := hmembers.exists_tokens hhead hs
  obtain ⟨list, hlist, hlisted⟩ := hargs.exists_tokens
  have hfield {op : Token} (hop : op ∈ [dot, optionalDot]) :
      tokens (stripComments (head.toList ++ (Token.joined (accessTokens x.toList op) ++
        '(' :: (args.toList ++ ')' :: ';' :: rest.toList)))) =
          vs ++ t :: (accessTokens x.toList op ++ openParen :: (list ++ [closeParen, semicolon]) ++
            tokens (stripComments rest.toList)) := by
    rw [hplace _ (firstSignificant_access hx hop _), tokens_stripComments_access hx hop, hlisted,
      lex_stripFrom_semicolon]
    simp
  have hwithout : tokens (stripComments (head ++ rest).toList) = vs ++ t :: tokens (stripComments rest.toList) := by
    rw [String.toList_append]
    exact hplace _ hrest
  constructor
  · have hwith := parametersOf_dot hmembers' hlist hwithout (hfield (by decide))
    unfold extract
    rw [← hwith]
    simp [accessTokens, blank, equals, thisWord, dot, constructorWord]
  · intro harrow
    have hfunction := tokens_function hlisted " \x7b\x7d".toList
    have hwith := parametersOf_optionalDot hmembers' hlist hwithout harrow (hfield (by decide)) hfunction
    unfold extract
    have htext : ("function f(" ++ args ++ ") \x7b\x7d").toList =
        "function f(".toList ++ (args.toList ++ ')' :: " \x7b\x7d".toList) := by
      simp
    rw [htext, ← hwith]
    simp [accessTokens, blank, equals, thisWord, optionalDot, constructorWord]

/-- A class up to the end of a method with a brace in a comment. -/
def classWithMethod : String :=
  "class A \x7b m() \x7b /* \x7d */ \x7d"

/-- A string that holds a parenthesis, and a comment that holds a comma. -/
def callArguments : String :=
  "')' /* , */, b"

theorem extract_memberAccess_commented :
    tokens classWithMethod.toList = tokens "class A \x7b m() \x7b /* \x7d */ ".toList ++ [closeCurly] ∧
      SlashSafe true (tokens classWithMethod.toList) ∧
      MembersBegin (tokens "class A \x7b m() \x7b /* \x7d */ ".toList) closeCurly ∧
      tokens "x".toList = [⟨.identifier, "x".toList⟩] ∧ IsArguments callArguments.toList ∧
      (∀ u, firstSignificant (tokens "/* c */ constructor(d) \x7b\x7d \x7d".toList) = some u →
        u.text.head? ≠ some '/') ∧
      extract (classWithMethod ++ " " ++ "x" ++ " = this.constructor(" ++ callArguments ++ ");" ++
          "/* c */ constructor(d) \x7b\x7d \x7d") =
        extract (classWithMethod ++ "/* c */ constructor(d) \x7b\x7d \x7d") ∧
      arrowParameter (stripComments (classWithMethod ++ "/* c */ constructor(d) \x7b\x7d \x7d").toList) = none ∧
      extract (classWithMethod ++ " " ++ "x" ++ " = this?.constructor(" ++ callArguments ++ ");" ++
          "/* c */ constructor(d) \x7b\x7d \x7d") =
        extract ("function f(" ++ callArguments ++ ") \x7b\x7d") := by
  have hhead : tokens classWithMethod.toList = tokens "class A \x7b m() \x7b /* \x7d */ ".toList ++ [closeCurly] := by
    decide +kernel
  have hs : SlashSafe true (tokens classWithMethod.toList) := by
    decide +kernel
  have hmembers : MembersBegin (tokens "class A \x7b m() \x7b /* \x7d */ ".toList) closeCurly :=
    ⟨by decide, by decide +kernel, by decide +kernel, by decide +kernel⟩
  have hx : tokens "x".toList = [⟨.identifier, "x".toList⟩] := by
    decide +kernel
  have hargs : IsArguments callArguments.toList :=
    ⟨by decide +kernel, by decide +kernel, by decide +kernel, by decide +kernel⟩
  have hfirst : firstSignificant (tokens "/* c */ constructor(d) \x7b\x7d \x7d".toList) = some constructorWord := by
    decide +kernel
  have hrest : ∀ u, firstSignificant (tokens "/* c */ constructor(d) \x7b\x7d \x7d".toList) = some u →
      u.text.head? ≠ some '/' := by
    intro u hu
    obtain rfl := Option.some.inj (hfirst.symm.trans hu)
    decide
  have harrow : arrowParameter (stripComments (classWithMethod ++ "/* c */ constructor(d) \x7b\x7d \x7d").toList) =
      none := by
    decide +kernel
  obtain ⟨-, hcalls⟩ := extract_memberAccess (classWithMethod ++ "/* c */ constructor(d) \x7b\x7d \x7d")
  obtain ⟨hdot, hoptional⟩ := hcalls _ _ "x" callArguments _ _ rfl hhead hs hmembers hrest hx hargs
  exact ⟨hhead, hs, hmembers, hx, hargs, hrest, hdot, harrow, hoptional harrow⟩

/-- The name after an optional dot is taken for the constructor, and the one that follows is not. -/
theorem constructor_after_optionalDot :
    let source := "class A \x7b x = this?.constructor(a); constructor(b) \x7b\x7d \x7d"
    let before := tokens "class A \x7b x = this?.".toList
    let after := tokens "(a); constructor(b) \x7b\x7d \x7d".toList
    isClass source.toList = true ∧ tokens source.toList = before ++ constructorWord :: after ∧
      NamesConstructor before constructorWord after ∧ (significant before).getLast? = some optionalDot ∧
      constructorText source.toList = Token.joined (constructorWord :: throughMethod .classBody after) ∧
      (extract source).names = ["a"] ∧ (extract "class A \x7b constructor(b) \x7b\x7d \x7d").names = ["b"] := by
  refine ⟨by decide +kernel, by decide +kernel, ⟨?_, ?_, ?_, ?_⟩, by decide +kernel, by decide +kernel,
    by decide +kernel, by decide +kernel⟩
  all_goals decide +kernel

end Signature

end Injection
