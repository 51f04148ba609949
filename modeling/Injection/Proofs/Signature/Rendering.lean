import Injection.Proofs.Signature.Nesting
import Injection.Proofs.Token.Trimming

/-!
# Rendering

Parameters written out as the parameters of a function are read off again (`Signature.extract_render`).  Their names and
defaults may be any texts that are complete in themselves and hold no separator outside delimiters: names may be
patterns, and defaults may hold functions, literals and regular expressions.
-/

namespace Injection

open Lexeme

variable {a : Bool} {c : Char} {cs : List Char} {t : Token} {ts : List Token}

/-! ### Texts that are complete in themselves -/

/-- A text without comments and open literals, whose delimiters are balanced, each kind by itself, and in which no slash
stands for an operator where a regular expression is allowed. -/
structure SelfContained (cs : List Char) : Prop where
  commentFree : CommentFree (tokens cs)
  closed : ∀ t ∈ tokens cs, t.isClosed = true
  slashSafe : SlashSafe true (tokens cs)
  nonNegative : Depth.top.StaysNonNegative (tokens cs)
  balanced : Depth.top.afterAll (tokens cs) = .top

instance (cs : List Char) : Decidable (SelfContained cs) :=
  decidable_of_iff (CommentFree (tokens cs) ∧ (∀ t ∈ tokens cs, t.isClosed = true) ∧ SlashSafe true (tokens cs) ∧
      Depth.top.StaysNonNegative (tokens cs) ∧ Depth.top.afterAll (tokens cs) = .top)
    ⟨fun h => ⟨h.1, h.2.1, h.2.2.1, h.2.2.2.1, h.2.2.2.2⟩,
      fun h => ⟨h.commentFree, h.closed, h.slashSafe, h.nonNegative, h.balanced⟩⟩

/-- A self-contained text that has no white space around it and is not empty. -/
structure IsPart (cs : List Char) : Prop extends SelfContained cs where
  ne_nil : cs ≠ []
  trimmed : trim cs = cs

namespace Parameter

/-- The name and the default can stand in a parameter list. -/
structure CanRender (p : Parameter) : Prop where
  name : IsPart p.name.toList
  name_comma : Depth.top.Avoids "," (tokens p.name.toList)
  name_equals : Depth.top.Avoids "=" (tokens p.name.toList)
  default : ∀ d, p.default = some d → IsPart d.toList ∧ d ≠ "undefined" ∧ Depth.top.Avoids "," (tokens d.toList)

/-- The parameter as it is written in a parameter list. -/
def render (p : Parameter) : String :=
  match p.default with
  | none => p.name
  | some d => p.name ++ " = " ++ d

end Parameter

/-- The parameters as they are written in a parameter list. -/
def Signature.renderList (ps : List Parameter) : String :=
  ", ".intercalate (ps.map Parameter.render)

namespace IsPart

theorem isWhiteSpace_head (h : IsPart cs) {d : Char} {ds : List Char} (hcs : cs = d :: ds) :
    isWhiteSpace d = false := by
  rw [Bool.eq_false_iff]
  intro hd
  have htrim := congrArg List.length h.trimmed
  have hshort := (List.rdropWhile_prefix isWhiteSpace (cs.dropWhile isWhiteSpace)).length_le
  have hdrop := (List.dropWhile_suffix isWhiteSpace (l := ds)).length_le
  rw [show (cs.dropWhile isWhiteSpace).rdropWhile isWhiteSpace = trim cs from rfl, htrim, hcs,
    List.dropWhile_cons_of_pos hd, List.length_cons] at hshort
  omega

theorem dropWhile_append (h : IsPart cs) (ds : List Char) : (cs ++ ds).dropWhile isWhiteSpace = cs ++ ds := by
  cases hcs : cs with
  | nil => exact absurd hcs h.ne_nil
  | cons d es => exact List.dropWhile_cons_of_neg (by simp [h.isWhiteSpace_head hcs])

theorem rdropWhile_append (h : IsPart cs) (ds : List Char) : (ds ++ cs).rdropWhile isWhiteSpace = ds ++ cs := by
  have hself : cs.rdropWhile isWhiteSpace = cs := by
    rw [← h.trimmed]
    exact rdropWhile_trim cs
  rw [rdropWhile_append_of_ne_nil ds (by rw [hself]; exact h.ne_nil), hself]

theorem trim_append (h : IsPart cs) {w w' : List Char} (hw : ∀ x ∈ w, isWhiteSpace x = true)
    (hw' : ∀ x ∈ w', isWhiteSpace x = true) : trim (w ++ (cs ++ w')) = cs := by
  have hself := h.dropWhile_append []
  rw [List.append_nil] at hself
  rw [Injection.trim_append hw hw' (by rw [hself]; exact h.ne_nil), h.trimmed]

/-- A part is read as it is on its own when a break follows. -/
theorem lexes (h : IsPart cs) (hc : IsBreak c) (rest : List Char) : Lexes (c :: rest) true (tokens cs) :=
  (lexes_lex true cs).extend h.commentFree h.closed h.slashSafe
    (fun _ _ ht => isTrivia_getLast?_tokens h.commentFree h.trimmed ht) hc rest

end IsPart

/-! ### Tokens of a parameter list -/

def blank : Token := ⟨.whitespace, [' ']⟩

def equals : Token := ⟨.punctuator, ['=']⟩

def comma : Token := ⟨.punctuator, [',']⟩

def openParen : Token := ⟨.punctuator, ['(']⟩

def closeParen : Token := ⟨.punctuator, [')']⟩

private theorem starts_comma (a : Bool) (rest : List Char) : comma.Starts a rest := ⟨',', [], rfl, rfl⟩

theorem starts_openParen (a : Bool) (rest : List Char) : openParen.Starts a rest := ⟨'(', [], rfl, rfl⟩

theorem starts_closeParen (a : Bool) (rest : List Char) : closeParen.Starts a rest := ⟨')', [], rfl, rfl⟩

theorem starts_equals (a : Bool) (rest : List Char) : equals.Starts a (' ' :: rest) := ⟨'=', [], rfl, rfl⟩

theorem starts_blank {d : Char} (hd : isWhiteSpace d = false) (a : Bool) (rest : List Char) :
    blank.Starts a (d :: rest) := by
  refine ⟨' ', [], rfl, ?_⟩
  rw [(Reads.whitespace rfl).firstToken_eq]
  simp [blank, hd]

namespace Parameter

/-- The tokens of a parameter as it is written. -/
def tokensOf (p : Parameter) : List Token :=
  match p.default with
  | none => tokens p.name.toList
  | some d => tokens p.name.toList ++ [blank, equals, blank] ++ tokens d.toList

theorem joined_tokensOf (p : Parameter) : Token.joined p.tokensOf = p.render.toList := by
  unfold tokensOf render
  cases p.default with
  | none => exact joined_tokens _
  | some d => simp [joined_tokens, blank, equals]

variable {p : Parameter}

private theorem regexAfterAll_equals (a : Bool) (ts : List Token) :
    Token.regexAfterAll a (ts ++ [blank, equals, blank]) = true := by
  rw [Token.regexAfterAll, List.foldl_append]
  rfl

theorem CanRender.lexes (h : p.CanRender) (hc : IsBreak c) (rest : List Char) : Lexes (c :: rest) true p.tokensOf := by
  unfold tokensOf
  cases hd : p.default with
  | none => exact h.name.lexes hc rest
  | some d =>
    obtain ⟨hpart, -, -⟩ := h.default d hd
    -- the default stands after an equals sign, where a regular expression is allowed as at its own start
    rw [Lexes.append_iff, Lexes.append_iff, regexAfterAll_equals]
    refine ⟨⟨h.name.lexes (.of_isWhiteSpace rfl) _, starts_blank rfl _ _, starts_equals _ _, ?_, trivial⟩,
      hpart.lexes hc rest⟩
    obtain ⟨e, es, hes⟩ := List.exists_cons_of_ne_nil hpart.ne_nil
    rw [joined_tokens, hes]
    exact starts_blank (hpart.isWhiteSpace_head hes) _ _

theorem CanRender.commentFree (h : p.CanRender) : CommentFree p.tokensOf := by
  unfold tokensOf
  cases hd : p.default with
  | none => exact h.name.commentFree
  | some d =>
    obtain ⟨hpart, -, -⟩ := h.default d hd
    refine List.forall_mem_append.2 ⟨List.forall_mem_append.2 ⟨h.name.commentFree, ?_⟩, hpart.commentFree⟩
    decide

/-- A parameter in a parameter list leaves the depth as it was and does not end before its end. -/
theorem CanRender.depth (h : p.CanRender) : Depth.top.StaysNonNegative p.tokensOf ∧
    Depth.top.Avoids "," p.tokensOf ∧ Depth.top.afterAll p.tokensOf = .top := by
  unfold tokensOf
  cases hd : p.default with
  | none => exact ⟨h.name.nonNegative, h.name_comma, h.name.balanced⟩
  | some d =>
    obtain ⟨hpart, -, hcomma⟩ := h.default d hd
    have hmiddle : Depth.top.StaysNonNegative [blank, equals, blank] := by decide
    have hmiddle' : Depth.top.Avoids "," [blank, equals, blank] := by decide
    have htop : Depth.top.afterAll (tokens p.name.toList ++ [blank, equals, blank]) = .top := by
      rw [Depth.afterAll_append, h.name.balanced]
      rfl
    refine ⟨(h.name.nonNegative.append ?_).append ?_, (h.name_comma.append ?_).append ?_, ?_⟩
    · rwa [h.name.balanced]
    · rw [htop]
      exact hpart.nonNegative
    · rwa [h.name.balanced]
    · rwa [htop]
    · rw [Depth.afterAll_append, htop, hpart.balanced]

theorem CanRender.trim_append (h : p.CanRender) {w : List Char} (hw : ∀ x ∈ w, isWhiteSpace x = true) :
    trim (w ++ p.render.toList) = p.render.toList := by
  unfold trim
  rw [List.dropWhile_append_of_pos hw]
  unfold render
  cases hd : p.default with
  | none =>
    have hfirst := h.name.dropWhile_append []
    have hlast := h.name.rdropWhile_append []
    rw [List.append_nil] at hfirst
    rw [hfirst]
    exact hlast
  | some d =>
    obtain ⟨hpart, -, -⟩ := h.default d hd
    have hfirst := h.name.dropWhile_append (" = ".toList ++ d.toList)
    simp only [String.toList_append, List.append_assoc]
    rw [hfirst, ← List.append_assoc]
    exact hpart.rdropWhile_append _

theorem CanRender.render_eq (h : p.CanRender) : ∃ d ds, p.render.toList = d :: ds ∧ isWhiteSpace d = false := by
  obtain ⟨d, ds, hds⟩ := List.exists_cons_of_ne_nil h.name.ne_nil
  have hrender : ∃ more, p.render.toList = p.name.toList ++ more := by
    unfold render
    cases p.default with
    | none => exact ⟨[], (List.append_nil _).symm⟩
    | some d => exact ⟨" = ".toList ++ d.toList, by simp⟩
  obtain ⟨more, hmore⟩ := hrender
  exact ⟨d, ds ++ more, by rw [hmore, hds]; rfl, h.name.isWhiteSpace_head hds⟩

/-- A parameter is read off its own text. -/
theorem CanRender.ofPiece_render (h : p.CanRender) : Parameter.ofPiece p.render.toList = p := by
  have htokens : tokens p.render.toList = p.tokensOf := by
    have hlex : Lexes ([] ++ [' ']) true p.tokensOf := h.lexes (.of_isWhiteSpace rfl) []
    rw [← p.joined_tokensOf]
    exact hlex.cut.lex_joined
  unfold ofPiece
  rw [htokens, splitAtEquals_eq]
  have hname := splitTokens_append h.name_equals
  rw [h.name.balanced] at hname
  obtain ⟨name, default⟩ := p
  cases default with
  | none =>
    have hsplit := hname []
    rw [List.append_nil] at hsplit
    rw [show (⟨name, none⟩ : Parameter).tokensOf = tokens name.toList from rfl, hsplit]
    simp [splitTokens, render, h.name.trimmed]
  | some d =>
    obtain ⟨hpart, hundefined, -⟩ := h.default d rfl
    have hsplit := hname ([blank, equals, blank] ++ tokens d.toList)
    rw [← List.append_assoc] at hsplit
    rw [show (⟨name, some d⟩ : Parameter).tokensOf = tokens name.toList ++ [blank, equals, blank] ++ tokens d.toList
      from rfl, hsplit]
    have hparts : splitTokens .top ([blank, equals, blank] ++ tokens d.toList) =
        some ([blank], blank :: tokens d.toList) := rfl
    have hblank : ∀ x ∈ blank.text, isWhiteSpace x = true := List.forall_mem_singleton.2 rfl
    have hname : trim (Token.joined (tokens name.toList ++ [blank])) = name.toList := by
      have := h.name.trim_append (List.forall_mem_nil _) hblank
      simpa [joined_tokens] using this
    have hvalue : trim (Token.joined (blank :: tokens d.toList)) = d.toList := by
      have := hpart.trim_append hblank (List.forall_mem_nil _)
      simpa [joined_tokens] using this
    have hne : d.toList ≠ "undefined".toList := fun heq => hundefined (String.toList_inj.1 heq)
    have hdefault : defaultOf d.toList = some d := by
      rw [defaultOf, if_neg (not_or.2 ⟨hpart.ne_nil, hne⟩), String.ofList_toList]
    simp only [hparts, Option.map_some, hname, hvalue, hdefault, String.ofList_toList]

end Parameter

/-! ### Parameter lists -/

variable {ps : List Parameter}

/-- The tokens of a parameter list as it is written. -/
def listTokens (ps : List Parameter) : List Token :=
  [comma, blank].intercalate (ps.map Parameter.tokensOf)

private theorem listTokens_singleton (p : Parameter) : listTokens [p] = p.tokensOf :=
  List.intercalate_singleton

private theorem listTokens_cons_cons (p q : Parameter) (ps : List Parameter) :
    listTokens (p :: q :: ps) = p.tokensOf ++ comma :: blank :: listTokens (q :: ps) := by
  simp [listTokens]

theorem joined_listTokens (ps : List Parameter) : Token.joined (listTokens ps) = (Signature.renderList ps).toList := by
  unfold Signature.renderList
  rw [String.toList_intercalate, List.map_map]
  induction ps with
  | nil => rfl
  | cons p ps ih =>
    cases ps with
    | nil => simp [listTokens_singleton, Parameter.joined_tokensOf]
    | cons q ps =>
      rw [listTokens_cons_cons, Token.joined_append, Token.joined_cons, Token.joined_cons, ih,
        Parameter.joined_tokensOf]
      simp [comma, blank]

private theorem head_listTokens {p : Parameter} (hp : p.CanRender) (ps : List Parameter) :
    ∃ d ds, Token.joined (listTokens (p :: ps)) = d :: ds ∧ isWhiteSpace d = false := by
  obtain ⟨d, ds, hds, hd⟩ := hp.render_eq
  cases ps with
  | nil => exact ⟨d, ds, by rw [listTokens_singleton, Parameter.joined_tokensOf, hds], hd⟩
  | cons q ps =>
    rw [listTokens_cons_cons, Token.joined_append, Parameter.joined_tokensOf, hds]
    exact ⟨d, _, rfl, hd⟩

theorem lexes_listTokens (hps : ∀ p ∈ ps, p.CanRender) (hc : IsBreak c) (rest : List Char) :
    Lexes (c :: rest) true (listTokens ps) := by
  induction ps with
  | nil => trivial
  | cons p ps ih =>
    obtain ⟨hp, hps⟩ := List.forall_mem_cons.1 hps
    cases ps with
    | nil =>
      rw [listTokens_singleton]
      exact hp.lexes hc rest
    | cons q ps =>
      rw [listTokens_cons_cons, Lexes.append_iff]
      refine ⟨hp.lexes .comma _, starts_comma _ _, ?_, ih hps⟩
      obtain ⟨d, ds, hds, hd⟩ := head_listTokens (hps q List.mem_cons_self) ps
      rw [hds]
      exact starts_blank hd _ _

theorem commentFree_listTokens (hps : ∀ p ∈ ps, p.CanRender) : CommentFree (listTokens ps) := by
  induction ps with
  | nil => exact List.forall_mem_nil _
  | cons p ps ih =>
    obtain ⟨hp, hps⟩ := List.forall_mem_cons.1 hps
    cases ps with
    | nil =>
      rw [listTokens_singleton]
      exact hp.commentFree
    | cons q ps =>
      rw [listTokens_cons_cons]
      refine List.forall_mem_append.2 ⟨hp.commentFree, ?_⟩
      exact List.forall_mem_cons.2 ⟨rfl, List.forall_mem_cons.2 ⟨rfl, ih hps⟩⟩

private theorem pieceTokens_tokensOf {p : Parameter} (hp : p.CanRender) (us : List Token) :
    pieceTokens .parameterList (p.tokensOf ++ us) = (pieceTokens .parameterList us).modifyHead (p.tokensOf ++ ·) := by
  obtain ⟨hneg, hcomma, htop⟩ := hp.depth
  have := pieceTokens_append hneg hcomma us
  rwa [htop] at this

/-- The pieces of a parameter list are its parameters, all but the first with a blank before them. -/
theorem pieceTokens_listTokens {p : Parameter} (hp : p.CanRender) (hps : ∀ q ∈ ps, q.CanRender) (post : List Token) :
    pieceTokens .parameterList (listTokens (p :: ps) ++ closeParen :: post) =
      p.tokensOf :: ps.map (blank :: ·.tokensOf) := by
  induction ps generalizing p with
  | nil =>
    have hclose : pieceTokens .parameterList (closeParen :: post) = [[]] := rfl
    rw [listTokens_singleton, pieceTokens_tokensOf hp, hclose]
    simp
  | cons q ps ih =>
    obtain ⟨hq, hps⟩ := List.forall_mem_cons.1 hps
    have hcomma (us : List Token) : pieceTokens .parameterList (comma :: blank :: us) =
        [] :: (pieceTokens .parameterList us).modifyHead (blank :: ·) := rfl
    rw [listTokens_cons_cons, List.append_assoc, pieceTokens_tokensOf hp, List.cons_append, List.cons_append, hcomma,
      ih hq hps]
    simp

theorem isPunctuator_of_kind (ht : t.kind ≠ .punctuator) (p : String) : t.isPunctuator p = false := by
  simp [Token.isPunctuator, ht]

/-- The pieces of a parameter list, trimmed, are its parameters as they are written. -/
theorem parameterTexts_rendered {pre post : List Token} (hpre : ∀ t ∈ pre, t.kind ≠ .punctuator)
    (hps : ∀ p ∈ ps, p.CanRender) (hcs : tokens cs = pre ++ openParen :: (listTokens ps ++ closeParen :: post)) :
    parameterTexts cs = ps.map (·.render.toList) := by
  have hafter : afterParen (pre ++ openParen :: (listTokens ps ++ closeParen :: post)) = some _ :=
    afterParen_append (fun t ht => isPunctuator_of_kind (hpre t ht) "(") rfl
  unfold parameterTexts
  rw [pieces_eq, hcs, hafter, Option.elim_some]
  cases ps with
  | nil => rfl
  | cons p ps =>
    obtain ⟨hp, hps⟩ := List.forall_mem_cons.1 hps
    have hfirst : trim (Token.joined p.tokensOf) = p.render.toList := by
      rw [p.joined_tokensOf]
      exact hp.trim_append (List.forall_mem_nil _)
    have hrest : ∀ q ∈ ps, trim (Token.joined (blank :: q.tokensOf)) = q.render.toList := by
      intro q hq
      rw [Token.joined_cons, q.joined_tokensOf]
      exact (hps q hq).trim_append (List.forall_mem_singleton.2 rfl)
    have htexts : ((p.tokensOf :: ps.map (blank :: ·.tokensOf)).map Token.joined).map trim =
        (p :: ps).map (·.render.toList) := by
      simp only [List.map_cons, List.map_map, hfirst]
      exact congrArg _ (List.map_congr_left hrest)
    rw [pieceTokens_listTokens hp hps, htexts, List.filter_eq_self]
    intro r hr
    obtain ⟨q, hq, rfl⟩ := List.mem_map.1 hr
    obtain ⟨d, ds, hds, -⟩ := (List.forall_mem_cons.2 ⟨hp, hps⟩ q hq).render_eq
    simp [hds]

/-- What may stand before the parameter list of a source: no other parenthesis, nothing that is left open, no arrow at
depth zero, and not the word that begins a class. -/
structure BeforeList (ts : List Token) : Prop where
  noParen : ∀ t ∈ ts, t.isPunctuator "(" = false
  depth : Depth.top.afterAll ts = .top
  noArrow : Depth.top.Avoids "=>" ts
  noClass : (firstSignificant (ts ++ [openParen])).any (·.isIdentifier "class") = false

theorem Depth.afterAll_of_kind (hts : ∀ t ∈ ts, t.kind ≠ .punctuator) (d : Depth) : d.afterAll ts = d := by
  induction ts with
  | nil => rfl
  | cons t ts ih =>
    obtain ⟨ht, hts⟩ := List.forall_mem_cons.1 hts
    have hafter : d.after t = d := by simp [Depth.after, isPunctuator_of_kind ht]
    rw [afterAll_cons, hafter, ih hts]

theorem BeforeList.of_kind {pre : List Token} (hpre : ∀ t ∈ pre, t.kind ≠ .punctuator)
    (hclass : (firstSignificant (pre ++ [openParen])).any (·.isIdentifier "class") = false) : BeforeList pre where
  noParen t ht := isPunctuator_of_kind (hpre t ht) "("
  depth := Depth.afterAll_of_kind hpre _
  noArrow := .of_forall (fun t ht => isPunctuator_of_kind (hpre t ht) "=>") _
  noClass := hclass

/-- The parameters of a source that does not begin like a class or an arrow function are those of its first list. -/
theorem parametersOf_of_openParen {pre post : List Token} (hpre : BeforeList pre)
    (hcs : tokens cs = pre ++ openParen :: post) : parametersOf cs = (parameterTexts cs).map Parameter.ofPiece := by
  have hparen : Depth.top.Avoids "(" pre := .of_forall hpre.noParen _
  have harrow : arrowParameter cs = none := by
    rw [arrowParameter, hcs, arrowParameterFrom_append hparen hpre.noArrow, hpre.depth]
    rfl
  have hnoclass : isClass cs = false := by
    rw [← hpre.noClass, isClass, hcs]
    simp [firstSignificant, List.find?_append, openParen, Token.isTrivia]
  simp [parametersOf, harrow, hnoclass]

theorem parametersOf_rendered {pre post : List Token} (hpre : ∀ t ∈ pre, t.kind ≠ .punctuator)
    (hclass : (firstSignificant (pre ++ [openParen])).any (·.isIdentifier "class") = false)
    (hps : ∀ p ∈ ps, p.CanRender) (hcs : tokens cs = pre ++ openParen :: (listTokens ps ++ closeParen :: post)) :
    parametersOf cs = ps := by
  rw [parametersOf_of_openParen (.of_kind hpre hclass) hcs, parameterTexts_rendered hpre hps hcs, List.map_map]
  refine (List.map_congr_left fun p hp => ?_).trans (List.map_id ps)
  exact (hps p hp).ofPiece_render

/-! ### Sources -/

/-- The parameters of a source that consists of such a beginning, a parameter list and an end. -/
theorem extract_rendered {pre post : List Token} (hpre : ∀ t ∈ pre, t.kind = .identifier ∨ t.kind = .whitespace)
    (hclass : (firstSignificant (pre ++ [openParen])).any (·.isIdentifier "class") = false)
    (hpreLexes : ∀ rest, Lexes ('(' :: rest) true pre) (hpost : Lexes [] false post) (hpostFree : CommentFree post)
    (hps : ∀ p ∈ ps, p.CanRender) {source : String}
    (hsource : source.toList = Token.joined (pre ++ openParen :: (listTokens ps ++ closeParen :: post))) :
    (Signature.extract source).parameters = ps := by
  have hlex : Lexes [] true (pre ++ openParen :: (listTokens ps ++ closeParen :: post)) := by
    rw [Lexes.append_iff]
    refine ⟨hpreLexes _, starts_openParen _ _, ?_⟩
    rw [Lexes.append_iff]
    exact ⟨lexes_listTokens hps .closeParen _, starts_closeParen _ _, hpost⟩
  -- the source is read as the very tokens that it is put together from, so it has no comments to strip
  have hcs : tokens source.toList = pre ++ openParen :: (listTokens ps ++ closeParen :: post) := by
    rw [hsource]
    exact hlex.lex_joined
  have hfree : CommentFree (tokens source.toList) := by
    have hpreFree : CommentFree pre := by
      intro t ht
      rcases hpre t ht with hk | hk <;> simp [Token.isComment, hk]
    rw [hcs]
    refine List.forall_mem_append.2 ⟨hpreFree, List.forall_mem_cons.2 ⟨rfl, ?_⟩⟩
    exact List.forall_mem_append.2 ⟨commentFree_listTokens hps, List.forall_mem_cons.2 ⟨rfl, hpostFree⟩⟩
  have hkinds : ∀ t ∈ pre, t.kind ≠ .punctuator := by
    intro t ht hk
    simpa [hk] using hpre t ht
  unfold Signature.extract
  rw [stripComments_of_commentFree hfree]
  exact parametersOf_rendered hkinds hclass hps hcs

namespace Signature

/-- Parameters that are written out are read off again: off a function, an arrow function and a method. -/
theorem extract_render (ps : List Parameter) (hps : ∀ p ∈ ps, p.CanRender) :
    (extract ("function f(" ++ renderList ps ++ ") \x7b\x7d")).parameters = ps ∧
      (extract ("(" ++ renderList ps ++ ") => 0")).parameters = ps ∧
      ∀ m : String, tokens m.toList = [⟨.identifier, m.toList⟩] → m ≠ "class" →
        (extract (m ++ "(" ++ renderList ps ++ ") \x7b\x7d")).parameters = ps := by
  have hbody : Lexes [] false [blank, ⟨.punctuator, ['\x7b']⟩, ⟨.punctuator, ['\x7d']⟩] :=
    ⟨⟨' ', [], rfl, rfl⟩, ⟨'\x7b', [], rfl, rfl⟩, ⟨'\x7d', [], rfl, rfl⟩, trivial⟩
  have harrow : Lexes [] false [blank, ⟨.punctuator, ['=', '>']⟩, blank, ⟨.number, ['0']⟩] :=
    ⟨⟨' ', [], rfl, rfl⟩, ⟨'=', ['>'], rfl, rfl⟩, ⟨' ', [], rfl, rfl⟩, ⟨'0', [], rfl, rfl⟩, trivial⟩
  have hfunction (rest : List Char) :
      Lexes ('(' :: rest) true [⟨.identifier, "function".toList⟩, blank, ⟨.identifier, ['f']⟩] :=
    ⟨⟨'f', "unction".toList, rfl, rfl⟩, ⟨' ', [], rfl, rfl⟩, ⟨'f', [], rfl, rfl⟩, trivial⟩
  refine ⟨?_, ?_, fun m hm hclass => ?_⟩
  · refine extract_rendered (by decide) rfl hfunction hbody (by decide) hps ?_
    simp [joined_listTokens, blank, openParen, closeParen]
  · refine extract_rendered (List.forall_mem_nil _) rfl (fun rest => trivial) harrow (by decide) hps ?_
    simp [joined_listTokens, blank, openParen, closeParen]
  · have hmethod (rest : List Char) : Lexes ('(' :: rest) true [⟨.identifier, m.toList⟩] := by
      have hlex := lexes_lex true m.toList
      rw [show lex true m.toList = [⟨.identifier, m.toList⟩] from hm] at hlex
      exact ⟨hlex.1.extend rfl rfl (fun _ => rfl) .openParen rest, trivial⟩
    refine extract_rendered (by simp) ?_ hmethod hbody (by decide) hps ?_
    · have hne : m.toList ≠ "class".toList := fun heq => hclass (String.toList_inj.1 heq)
      simpa [firstSignificant, Token.isTrivia, Token.isIdentifier] using hne
    · simp [joined_listTokens, blank, openParen, closeParen]

/-- A pattern with a default that holds commas, and a plain name. -/
def patternAndName : List Parameter :=
  [⟨"\x7ba, b\x7d", some "[1, /,/]"⟩, ⟨"c", none⟩]

theorem canRender_patternAndName : ∀ p ∈ patternAndName, p.CanRender := by
  have hpattern : tokens "\x7ba, b\x7d".toList = [⟨.punctuator, ['\x7b']⟩, ⟨.identifier, ['a']⟩,
      ⟨.punctuator, [',']⟩, ⟨.whitespace, [' ']⟩, ⟨.identifier, ['b']⟩, ⟨.punctuator, ['\x7d']⟩] := by
    decide +kernel
  have hdefault : tokens "[1, /,/]".toList = [⟨.punctuator, ['[']⟩, ⟨.number, ['1']⟩, ⟨.punctuator, [',']⟩,
      ⟨.whitespace, [' ']⟩, ⟨.regex, ['/', ',', '/']⟩, ⟨.punctuator, [']']⟩] := by
    decide +kernel
  have hname : tokens "c".toList = [⟨.identifier, ['c']⟩] := by
    decide +kernel
  have part {cs : List Char} {ts : List Token} (h : tokens cs = ts) (hts : CommentFree ts ∧
      (∀ t ∈ ts, t.isClosed = true) ∧ SlashSafe true ts ∧ Depth.top.StaysNonNegative ts ∧ Depth.top.afterAll ts = .top)
      (hne : cs ≠ []) (htrim : trim cs = cs) : IsPart cs := by
    subst h
    exact ⟨⟨hts.1, hts.2.1, hts.2.2.1, hts.2.2.2.1, hts.2.2.2.2⟩, hne, htrim⟩
  refine List.forall_mem_cons.2 ⟨⟨part hpattern (by decide) (by decide) (by decide), ?_, ?_, ?_⟩,
    List.forall_mem_singleton.2 ⟨part hname (by decide) (by decide) (by decide), ?_, ?_, by simp⟩⟩
  · rw [hpattern]
    decide
  · rw [hpattern]
    decide
  · rintro d hd
    obtain rfl := Option.some.inj hd
    refine ⟨part hdefault (by decide) (by decide) (by decide), by decide, ?_⟩
    rw [hdefault]
    decide
  · rw [hname]
    decide
  · rw [hname]
    decide

/-- The arrow function "(\x7ba, b\x7d = [1, /,/], c) => 0" has the two parameters. -/
theorem extract_render_patternAndName :
    (∀ p ∈ patternAndName, p.CanRender) ∧
      (extract ("(" ++ renderList patternAndName ++ ") => 0")).parameters = patternAndName :=
  ⟨canRender_patternAndName, (extract_render patternAndName canRender_patternAndName).2.1⟩

end Signature

end Injection
