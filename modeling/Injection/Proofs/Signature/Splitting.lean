import Injection.Proofs.Signature.Rendering
import Mathlib.Data.List.Infix

/-!
# Splitting parameter lists

A parameter list is cut at its commas outside delimiters and at no others, and nothing of it is lost
(`parameterTexts_splits`).  This holds of every text: lists may be unterminated, delimiters may be closed in the wrong
order or not at all, and pieces may be blank.
-/

namespace Injection

variable {cs : List Char} {d : Depth} {t : Token} {ts us vs before list rest : List Token}

/-! ### Where the list ends -/

/-- How many of the tokens are this punctuator. -/
def Token.countOf (p : String) (ts : List Token) : Nat :=
  ts.countP (·.isPunctuator p)

/-- The tokens have their first parenthesis before the list, and the list ends before the first token with which as many
parentheses have been closed as opened since then, or with the text. -/
structure FirstList (ts before list rest : List Token) : Prop where
  eq : ts = before ++ openParen :: (list ++ rest)
  first : ∀ t ∈ before, t.isPunctuator "(" = false
  opened : ∀ us, us <+: list → Token.countOf "(" (openParen :: us) ≠ Token.countOf ")" (openParen :: us)
  closed : ∀ t vs, rest = t :: vs →
    Token.countOf "(" (openParen :: (list ++ [t])) = Token.countOf ")" (openParen :: (list ++ [t]))

theorem Depth.paren_afterAll (d : Depth) (ts : List Token) :
    (d.afterAll ts).paren + Token.countOf ")" ts = d.paren + Token.countOf "(" ts := by
  induction ts generalizing d with
  | nil => rfl
  | cons t ts ih =>
    have hstep : (d.after t).paren + Token.countOf ")" [t] = d.paren + Token.countOf "(" [t] := by
      by_cases hopen : t.isPunctuator "(" = true
      · rw [Token.eq_of_isPunctuator hopen]
        simp [Token.countOf, after, Token.isPunctuator]
      by_cases hclose : t.isPunctuator ")" = true
      · rw [Token.eq_of_isPunctuator hclose]
        simp [Token.countOf, after, Token.isPunctuator]
      · simp only [after, Token.countOf, hopen, hclose, Bool.false_eq_true, if_false, not_false_eq_true,
          List.countP_cons_of_neg, List.countP_nil]
        repeat' split
        all_goals rfl
    have hrest := ih (d.after t)
    have hcount (p : String) : Token.countOf p ([t] ++ ts) = Token.countOf p [t] + Token.countOf p ts :=
      List.countP_append
    rw [List.singleton_append] at hcount
    rw [afterAll_cons, hcount, hcount]
    omega

/-- The parenthesis before the tokens is closed after them. -/
theorem Depth.paren_parameterList_eq_zero_iff (us : List Token) : (parameterList.afterAll us).paren = 0 ↔
    Token.countOf "(" (openParen :: us) = Token.countOf ")" (openParen :: us) := by
  have hparen := paren_afterAll top (openParen :: us)
  have hopen : top.afterAll (openParen :: us) = parameterList.afterAll us := rfl
  have htop : top.paren = 0 := rfl
  rw [hopen, htop] at hparen
  omega

/-- Tokens up to the first one that closes the parenthesis they stand in. -/
theorem exists_append_of_paren (hd : d.paren ≠ 0) (ts : List Token) :
    ∃ list rest, ts = list ++ rest ∧ (∀ us, us <+: list → (d.afterAll us).paren ≠ 0) ∧
      ∀ t vs, rest = t :: vs → (d.afterAll (list ++ [t])).paren = 0 := by
  induction ts generalizing d with
  | nil =>
    refine ⟨[], [], rfl, fun us hus => ?_, by simp⟩
    rwa [List.prefix_nil.1 hus]
  | cons t ts ih =>
    by_cases ht : (d.after t).paren = 0
    · refine ⟨[], t :: ts, rfl, fun us hus => ?_, ?_⟩
      · rwa [List.prefix_nil.1 hus]
      · rintro u vs heq
        obtain ⟨rfl, -⟩ := List.cons.inj heq
        exact ht
    · obtain ⟨list, rest, rfl, hlist, hrest⟩ := ih ht
      refine ⟨t :: list, rest, rfl, fun us hus => ?_, hrest⟩
      rcases List.prefix_cons_iff.1 hus with rfl | ⟨us, rfl, hus⟩
      · exact hd
      · exact hlist us (List.cons_prefix_cons.1 hus).2

/-- A text without parentheses has no list, any other one has a first list. -/
theorem firstList_cases (ts : List Token) : (∀ t ∈ ts, t.isPunctuator "(" = false) ∧ afterParen ts = none ∨
    ∃ before list rest, FirstList ts before list rest := by
  cases hafter : afterParen ts with
  | none =>
    refine .inl ⟨?_, rfl⟩
    unfold afterParen at hafter
    split at hafter
    · rename_i hdrop
      simpa using List.dropWhile_eq_nil_iff.1 hdrop
    · cases hafter
  | some us =>
    obtain ⟨before, t, hbefore, ht, hts⟩ := afterParen_eq_some hafter
    obtain rfl : t = openParen := Token.eq_of_isPunctuator ht
    obtain ⟨list, rest, rfl, hlist, hrest⟩ := exists_append_of_paren (d := .parameterList) (by decide) us
    refine .inr ⟨before, list, rest, hts, hbefore, fun us hus => ?_, fun t vs heq => ?_⟩
    · exact mt (Depth.paren_parameterList_eq_zero_iff us).2 (hlist us hus)
    · exact (Depth.paren_parameterList_eq_zero_iff _).1 (hrest t vs heq)

theorem FirstList.afterParen_eq (h : FirstList ts before list rest) : afterParen ts = some (list ++ rest) := by
  rw [h.eq]
  exact afterParen_append h.first rfl

/-- The pieces stand in the first list. -/
theorem FirstList.pieces_eq (h : FirstList (tokens cs) before list rest) :
    pieces cs = (pieceTokens .parameterList list).map Token.joined := by
  rw [Injection.pieces_eq, h.afterParen_eq, Option.elim_some, pieceTokens_append_of_closed]
  exact fun t vs heq => (Depth.paren_parameterList_eq_zero_iff _).2 (h.closed t vs heq)

/-! ### Cutting at commas -/

variable {p : List Token} {ps : List (List Token)}

/-- Each comma between two of the pieces is at depth zero. -/
def CommasOutside (d : Depth) (ps : List (List Token)) : Prop :=
  ∀ us vs, ps = us ++ vs → us ≠ [] → vs ≠ [] → d.afterAll ([comma].intercalate us) = .top

/-- The list consists of these pieces with commas between them; the commas stand outside all delimiters, and no piece
has another one there. -/
structure CutAtCommas (list : List Token) (ps : List (List Char)) : Prop where
  text : [','].intercalate ps = Token.joined list
  tokens : [comma].intercalate (ps.map tokens) = list
  outside : CommasOutside .top (ps.map Injection.tokens)
  inside : ∀ p ∈ ps, Depth.top.Avoids "," (Injection.tokens p)

theorem joined_intercalate_comma (ps : List (List Token)) :
    Token.joined ([comma].intercalate ps) = [','].intercalate (ps.map Token.joined) := by
  induction ps with
  | nil => rfl
  | cons p ps ih =>
    cases ps with
    | nil => simp
    | cons q ps =>
      rw [List.intercalate_cons_cons, List.map_cons, List.map_cons, List.intercalate_cons_cons, ← List.map_cons, ← ih]
      simp [comma]

private theorem intercalate_cons_head (t : Token) (p : List Token) (ps : List (List Token)) :
    [comma].intercalate ((t :: p) :: ps) = t :: [comma].intercalate (p :: ps) := by
  cases ps with
  | nil => simp
  | cons q ps => simp [List.intercalate_cons_cons]

private theorem exists_of_cons_eq_append {α : Type} {x : α} {xs ys zs : List α} (h : x :: xs = ys ++ zs)
    (hys : ys ≠ []) : ∃ ys', ys = x :: ys' ∧ xs = ys' ++ zs := by
  rcases List.cons_eq_append_iff.1 h with ⟨rfl, -⟩ | ⟨ys', rfl, hxs⟩
  · exact absurd rfl hys
  · exact ⟨ys', rfl, hxs⟩

theorem commasOutside_singleton (d : Depth) (p : List Token) : CommasOutside d [p] := by
  intro us vs heq hus hvs
  obtain ⟨us, rfl, hnil⟩ := exists_of_cons_eq_append heq hus
  exact absurd (List.append_eq_nil_iff.1 hnil.symm).2 hvs

theorem CommasOutside.nil_cons (h : CommasOutside .top (p :: ps)) : CommasOutside .top ([] :: p :: ps) := by
  intro us vs heq hus hvs
  obtain ⟨us, rfl, hps⟩ := exists_of_cons_eq_append heq hus
  cases us with
  | nil => rfl
  | cons q us =>
    rw [List.intercalate_cons_cons]
    exact h (q :: us) vs hps (List.cons_ne_nil _ _) hvs

theorem CommasOutside.cons_head (h : CommasOutside (d.after t) (p :: ps)) : CommasOutside d ((t :: p) :: ps) := by
  intro us vs heq hus hvs
  obtain ⟨us, rfl, hps⟩ := exists_of_cons_eq_append heq hus
  rw [intercalate_cons_head, Depth.afterAll_cons]
  exact h (p :: us) vs (by rw [hps, List.cons_append]) (List.cons_ne_nil _ _) hvs

/-- The pieces of a list that is not closed are cut at the commas at depth zero. -/
theorem pieceTokens_cut (h : ∀ us, us <+: ts → (d.inList.afterAll us).paren ≠ 0) :
    ∃ p ps, pieceTokens d.inList ts = p :: ps ∧ [comma].intercalate (p :: ps) = ts ∧ CommasOutside d (p :: ps) ∧
      d.Avoids "," p ∧ ∀ q ∈ ps, Depth.top.Avoids "," q := by
  induction ts generalizing d with
  | nil => exact ⟨[], [], rfl, rfl, commasOutside_singleton d [], Depth.avoids_nil, List.forall_mem_nil _⟩
  | cons t ts ih =>
    have hopen : ¬ (d.inList.after t).paren = 0 := h [t] ⟨ts, rfl⟩
    have hrest : ∀ us, us <+: ts → ((d.after t).inList.afterAll us).paren ≠ 0 := by
      intro us hus
      rw [← Depth.after_inList]
      exact h (t :: us) (List.cons_prefix_cons.2 ⟨rfl, hus⟩)
    obtain ⟨p, ps, heq, hjoin, houtside, hp, hps⟩ := ih hrest
    rw [pieceTokens, if_neg hopen, Depth.after_inList]
    by_cases hcomma : t.isPunctuator "," = true ∧ d.inList = .parameterList
    · obtain rfl : t = comma := Token.eq_of_isPunctuator hcomma.1
      obtain rfl : d = .top := Depth.inList_eq_iff.1 hcomma.2
      -- the comma leaves the depth as it was
      have hpieces : pieceTokens Depth.top.inList ts = p :: ps := heq
      rw [if_pos hcomma, hpieces]
      refine ⟨[], p :: ps, rfl, ?_, houtside.nil_cons, Depth.avoids_nil, List.forall_mem_cons.2 ⟨hp, hps⟩⟩
      rw [List.intercalate_cons_cons, hjoin]
      rfl
    · have hfirst : t.isPunctuator "," = true → d ≠ .top := fun ht htop =>
        hcomma ⟨ht, Depth.inList_eq_iff.2 htop⟩
      rw [if_neg hcomma, heq, List.modifyHead_cons]
      refine ⟨t :: p, ps, rfl, ?_, houtside.cons_head, Depth.avoids_cons.2 ⟨hfirst, hp⟩, hps⟩
      rw [intercalate_cons_head, hjoin]

/-- The pieces of the first list are cut at its commas, and each is read on its own as it is there. -/
theorem FirstList.cutAtCommas (h : FirstList (tokens cs) before list rest) : CutAtCommas list (pieces cs) := by
  have hstays : ∀ us, us <+: list → (Depth.top.inList.afterAll us).paren ≠ 0 := fun us hus =>
    mt (Depth.paren_parameterList_eq_zero_iff us).1 (h.opened us hus)
  obtain ⟨p, ps, hpieces, hjoin, houtside, hp, hps⟩ := pieceTokens_cut hstays
  have hall : ∀ q ∈ p :: ps, tokens (Token.joined q) = q := by
    obtain ⟨hlex, -⟩ := afterParen_lexes h.afterParen_eq (lexes_lex true cs)
    obtain ⟨p', ps', hpieces', -, hfirst, hothers⟩ := pieceTokens_lexes (.inList .top) (Lexes.append_iff.1 hlex).1
    rw [hpieces] at hpieces'
    obtain ⟨rfl, rfl⟩ := List.cons.inj hpieces'
    exact List.forall_mem_cons.2 ⟨hfirst.lex_joined, fun q hq => (hothers q hq).2.lex_joined⟩
  have htokens : ((p :: ps).map Token.joined).map tokens = p :: ps := by
    rw [List.map_map]
    exact (List.map_congr_left hall).trans (List.map_id _)
  have heq : pieces cs = (p :: ps).map Token.joined := by
    rw [h.pieces_eq, ← hpieces]
    rfl
  rw [heq]
  refine ⟨?_, ?_, ?_, List.forall_mem_map.2 fun q hq => ?_⟩
  · rw [← joined_intercalate_comma, hjoin]
  · rw [htokens, hjoin]
  · rwa [htokens]
  · rw [hall q hq]
    rcases List.mem_cons.1 hq with rfl | hq
    · exact hp
    · exact hps q hq

/-! ### Cutting at equals signs -/

/-- The parameter is the one that the text declares: its name alone, or its name, an equals sign and its default, with
white space between them, where the equals sign is the first one outside all delimiters. -/
structure Parameter.DeclaredBy (q : Parameter) (cs : List Char) : Prop where
  name : trim q.name.toList = q.name.toList
  default : ∀ d, q.default = some d → trim d.toList = d.toList ∧ d ≠ "" ∧ d ≠ "undefined"
  text : Depth.top.Avoids "=" (tokens cs) ∧ cs = q.name.toList ∧ q.default = none ∨
    ∃ us vs w w' value, tokens cs = us ++ equals :: vs ∧ Depth.top.Avoids "=" us ∧ Depth.top.afterAll us = .top ∧
      Token.joined us = q.name.toList ++ w ∧ (∀ c ∈ w, isWhiteSpace c = true) ∧
      Token.joined vs = w' ++ value ∧ (∀ c ∈ w', isWhiteSpace c = true) ∧
      (q.default = some (String.ofList value) ∨ q.default = none ∧ (value = [] ∨ value = "undefined".toList))

theorem splitTokens_eq_none (h : splitTokens d ts = none) : d.Avoids "=" ts := by
  induction ts generalizing d with
  | nil => exact Depth.avoids_nil
  | cons t ts ih =>
    unfold splitTokens at h
    split at h
    · cases h
    · rename_i ht
      refine Depth.avoids_cons.2 ⟨fun hequals htop => ht ⟨htop, hequals⟩, ih ?_⟩
      simpa using h

/-- The tokens are cut at the first equals sign at depth zero. -/
theorem splitTokens_first (h : splitTokens d ts = some (us, vs)) :
    ts = us ++ equals :: vs ∧ d.Avoids "=" us ∧ d.afterAll us = .top := by
  induction ts generalizing d us with
  | nil => cases h
  | cons t ts ih =>
    unfold splitTokens at h
    split at h
    · rename_i ht
      obtain rfl : t = equals := Token.eq_of_isPunctuator ht.2
      cases h
      exact ⟨rfl, Depth.avoids_nil, ht.1⟩
    · rename_i ht
      obtain ⟨⟨us', vs'⟩, hsplit, heq⟩ := Option.map_eq_some_iff.1 h
      cases heq
      obtain ⟨rfl, havoids, hdepth⟩ := ih hsplit
      exact ⟨rfl, Depth.avoids_cons.2 ⟨fun hequals htop => ht ⟨htop, hequals⟩, havoids⟩, hdepth⟩

theorem defaultOf_eq_some {ds : List Char} {s : String} (h : defaultOf ds = some s) :
    s.toList = ds ∧ s ≠ "" ∧ s ≠ "undefined" := by
  unfold defaultOf at h
  split at h
  · cases h
  · rename_i hds
    obtain rfl := Option.some.inj h
    rw [not_or] at hds
    refine ⟨String.toList_ofList, fun hempty => hds.1 ?_, fun hundefined => hds.2 ?_⟩
    · rw [← String.toList_ofList (l := ds), hempty]
      rfl
    · rw [← hundefined, String.toList_ofList]

private theorem eq_nil_of_trim_append {w ds : List Char} (hw : ∀ c ∈ w, isWhiteSpace c = true)
    (h : trim (w ++ ds) = w ++ ds) : w = [] := by
  have hfirst := dropWhile_trim (w ++ ds)
  rw [h, List.dropWhile_append_of_pos hw] at hfirst
  have hlength := (List.dropWhile_suffix isWhiteSpace (l := ds)).length_le
  rw [hfirst, List.length_append] at hlength
  exact List.length_eq_zero_iff.1 (by omega)

private theorem eq_nil_of_append_trim {w ds : List Char} (hw : ∀ c ∈ w, isWhiteSpace c = true)
    (h : trim (ds ++ w) = ds ++ w) : w = [] := by
  have hlast := rdropWhile_trim (ds ++ w)
  rw [h, rdropWhile_append_of_nil ds (List.rdropWhile_eq_nil_iff.2 hw)] at hlast
  have hlength := (List.rdropWhile_prefix isWhiteSpace ds).length_le
  rw [hlast, List.length_append] at hlength
  exact List.length_eq_zero_iff.1 (by omega)

/-- Every text without white space around it declares the parameter that is read off it. -/
theorem Parameter.declaredBy_ofPiece (h : trim cs = cs) : (Parameter.ofPiece cs).DeclaredBy cs := by
  unfold ofPiece
  rw [splitAtEquals_eq]
  cases hsplit : splitTokens .top (tokens cs) with
  | none =>
    refine ⟨?_, by simp, .inl ⟨splitTokens_eq_none hsplit, ?_, rfl⟩⟩
    · simp [trim_trim]
    · simp [h]
  | some parts =>
    obtain ⟨us, vs⟩ := parts
    obtain ⟨htokens, havoids, hdepth⟩ := splitTokens_first hsplit
    have hcs : cs = Token.joined us ++ '=' :: Token.joined vs := by
      rw [← joined_tokens cs, htokens]
      simp [equals]
    -- there is no white space before the name, since there is none before the text
    obtain ⟨w, w', hw, hw', hname⟩ := exists_eq_append_trim (Token.joined us)
    obtain rfl : w = [] := by
      rw [hcs, hname, List.append_assoc] at h
      exact eq_nil_of_trim_append hw h
    -- and none after the default
    obtain ⟨x, x', hx, hx', hvalue⟩ := exists_eq_append_trim (Token.joined vs)
    obtain rfl : x' = [] := by
      have hsplit : cs = (Token.joined us ++ '=' :: (x ++ trim (Token.joined vs))) ++ x' := by
        rw [hcs]
        nth_rewrite 1 [hvalue]
        simp
      rw [hsplit] at h
      exact eq_nil_of_append_trim hx' h
    refine ⟨?_, ?_, .inr ⟨us, vs, w', x, trim (Token.joined vs), htokens, havoids, hdepth, ?_, hw', ?_, hx, ?_⟩⟩
    · simp [trim_trim]
    · intro d hd
      obtain ⟨htext, hempty, hundefined⟩ := defaultOf_eq_some hd
      exact ⟨by rw [htext, trim_trim], hempty, hundefined⟩
    · simpa using hname
    · simpa using hvalue
    · simp only [Option.map_some, defaultOf]
      split
      · rename_i hvoid
        exact .inr ⟨rfl, hvoid⟩
      · exact .inl rfl

/-- The parameters of a text are those of the pieces of its first list that are not blank, in their order; every piece
declares its own. -/
theorem parameterTexts_splits (cs : List Char) :
    ((∀ t ∈ tokens cs, t.isPunctuator "(" = false) ∧ parameterTexts cs = [] ∨
      ∃ before list rest, FirstList (tokens cs) before list rest) ∧
    (∀ before list rest, FirstList (tokens cs) before list rest →
      ∃ ps, CutAtCommas list ps ∧ parameterTexts cs = (ps.map trim).filter (· ≠ [])) ∧
    ∀ p ∈ parameterTexts cs, (Parameter.ofPiece p).DeclaredBy p := by
  refine ⟨?_, fun before list rest h => ⟨pieces cs, h.cutAtCommas, rfl⟩, fun p hp => ?_⟩
  · refine (firstList_cases (tokens cs)).imp (fun h => ⟨h.1, ?_⟩) id
    rw [parameterTexts, pieces_eq, h.2]
    rfl
  · obtain ⟨hp, -⟩ := List.mem_filter.1 hp
    obtain ⟨q, -, rfl⟩ := List.mem_map.1 hp
    exact Parameter.declaredBy_ofPiece (trim_trim q)

/-- A comma in brackets that are closed by no bracket, a parenthesis in a string, and blank pieces. -/
def unclosedBracket : List Char :=
  "f(a = ')', , b = [1, 2), c) => (d, e)".toList

theorem parameterTexts_splits_unclosedBracket :
    FirstList (tokens unclosedBracket) (tokens "f".toList) (tokens "a = ')', , b = [1, 2".toList)
        (closeParen :: tokens ", c) => (d, e)".toList) ∧
      (∃ ps, CutAtCommas (tokens "a = ')', , b = [1, 2".toList) ps ∧
        parameterTexts unclosedBracket = (ps.map trim).filter (· ≠ [])) ∧
      "b = [1, 2".toList ∈ parameterTexts unclosedBracket ∧
      (Parameter.ofPiece "b = [1, 2".toList).DeclaredBy "b = [1, 2".toList := by
  have hlist : FirstList (tokens unclosedBracket) (tokens "f".toList) (tokens "a = ')', , b = [1, 2".toList)
      (closeParen :: tokens ", c) => (d, e)".toList) := by
    refine ⟨by decide +kernel, by decide +kernel, fun us hus => ?_, fun t vs heq => ?_⟩
    · have hinits : ∀ us ∈ (tokens "a = ')', , b = [1, 2".toList).inits,
          Token.countOf "(" (openParen :: us) ≠ Token.countOf ")" (openParen :: us) := by
        decide +kernel
      exact hinits us ((List.mem_inits _ _).2 hus)
    · obtain ⟨rfl, -⟩ := List.cons.inj heq
      decide +kernel
  have hmem : "b = [1, 2".toList ∈ parameterTexts unclosedBracket := by
    decide +kernel
  obtain ⟨-, hsplits, hdeclared⟩ := parameterTexts_splits unclosedBracket
  exact ⟨hlist, hsplits _ _ _ hlist, hmem, hdeclared _ hmem⟩

end Injection
