import Injection.Proofs.Token.Significant
import Mathlib.Data.List.DropRight

/-!
# Trimming

Trimming a comment-free text keeps its significant tokens, but for white space at the end of an unterminated literal
(`reduces_trim`).  A text is blank if it has no significant token.
-/

namespace Injection

open Lexeme

variable {a : Bool} {c : Char} {cs w : List Char} {t : Token} {ts : List Token}

/-! ### The end of a text -/

section

variable {p : Char → Bool} {xs ys : List Char}

theorem rdropWhile_append_of_ne_nil (xs : List Char) (h : ys.rdropWhile p ≠ []) :
    (xs ++ ys).rdropWhile p = xs ++ ys.rdropWhile p := by
  have hys : ys.reverse.dropWhile p ≠ [] := by simpa [List.rdropWhile] using h
  simp [List.rdropWhile, List.dropWhile_append, hys]

theorem rdropWhile_append_of_nil (xs : List Char) (h : ys.rdropWhile p = []) :
    (xs ++ ys).rdropWhile p = xs.rdropWhile p := by
  have hys : ys.reverse.dropWhile p = [] := by simpa [List.rdropWhile] using h
  simp [List.rdropWhile, List.dropWhile_append, hys]

private theorem rdropWhile_cons (hc : p c = false) : (c :: xs).rdropWhile p = c :: xs.rdropWhile p := by
  by_cases h : xs.rdropWhile p = []
  · rw [← List.singleton_append, rdropWhile_append_of_nil _ h, h]
    simp [List.rdropWhile_singleton, hc]
  · rw [← List.singleton_append, rdropWhile_append_of_ne_nil _ h]
    rfl

private theorem rdropWhile_of_forall (h : ∀ x ∈ xs, p x = false) : xs.rdropWhile p = xs := by
  rw [List.rdropWhile_eq_self_iff]
  intro hxs
  simp [h _ (List.getLast_mem hxs)]

end

/-- The token without white space at its end. -/
def Token.trimEnd (t : Token) : Token :=
  ⟨t.kind, t.text.rdropWhile isWhiteSpace⟩

private theorem isWhiteSpace_of_not_isBreak (h : ¬ IsBreak c) : isWhiteSpace c = false := by
  rw [Bool.eq_false_iff]
  exact fun hc => h (.of_isWhiteSpace hc)

private theorem regexTail_trimEnd {inSet : Bool} (h : regexTail inSet cs = some w) :
    w.rdropWhile isWhiteSpace = w ∧ w ≠ [] := by
  fun_induction regexTail inSet cs generalizing w with
  | case1 => simp at h
  | case2 inSet c cs hc ih =>
    obtain ⟨r, hr, rfl⟩ := Option.map_eq_some_iff.1 h
    obtain ⟨hr, hne⟩ := ih hr
    have := rdropWhile_append_of_ne_nil ['\\', c] (by rw [hr]; exact hne)
    rw [hr] at this
    exact ⟨this, by simp⟩
  | case3 => simp at h
  | case4 inSet c cs _ hc hslash =>
    obtain rfl := Option.some.inj h
    obtain ⟨rfl, -⟩ : c = '/' ∧ _ := by simpa using hslash
    refine ⟨rdropWhile_of_forall ?_, by simp⟩
    refine List.forall_mem_cons.2 ⟨rfl, fun x hx => isWhiteSpace_of_not_isBreak fun hb => ?_⟩
    have := List.mem_takeWhile_imp hx
    simp [hb.identifier] at this
  | case5 inSet c cs _ hc hslash ih =>
    obtain ⟨r, hr, rfl⟩ := Option.map_eq_some_iff.1 h
    obtain ⟨hr, hne⟩ := ih hr
    have := rdropWhile_append_of_ne_nil [c] (by rw [hr]; exact hne)
    rw [hr] at this
    exact ⟨this, by simp⟩
  | case6 => simp at h

/-- What an unterminated literal covers is covered up to every cut. -/
private theorem quotedTail_of_isPrefix {quote : Char} {w' : List Char} (hq : quote ≠ '\\') (h : quotedTail quote w = w)
    (hw : w' <+: w) : quotedTail quote w' = w' := by
  rcases quotedTail_closes quote w' with hw' | hclosed
  · exact hw'
  · obtain ⟨ds, rfl⟩ := hw
    rw [quotedTail_extend hq hclosed] at h
    refine (quotedTail_isPrefix quote w').eq_of_length_le ?_
    rw [h, List.length_append]
    exact Nat.le_add_right ..

private theorem starts_literal {k : Token.Kind} {rest : List Char} (hc : c ≠ '\\' ∧ isWhiteSpace c = false)
    (hreads : ∀ w, Reads a c w ⟨k, c :: quotedTail c w⟩) (hw : quotedTail c (w ++ rest) = w) :
    Token.Starts a ⟨k, (c :: w).rdropWhile isWhiteSpace⟩ [] := by
  have hself := quotedTail_cut hc.1 hw List.prefix_rfl (List.prefix_append w rest)
  have hcut := quotedTail_of_isPrefix hc.1 hself (List.rdropWhile_prefix isWhiteSpace w)
  refine ⟨c, w.rdropWhile isWhiteSpace, by rw [rdropWhile_cons hc.2], ?_⟩
  rw [List.append_nil, (hreads (w.rdropWhile isWhiteSpace)).firstToken_eq, hcut, rdropWhile_cons hc.2]

/-- A significant token is read without white space at its end if the text ends there. -/
theorem Token.Starts.trimEnd {rest : List Char} (h : t.Starts a rest) (ht : t.isTrivia = false) :
    t.trimEnd.Starts a [] := by
  have hself (heq : t.text.rdropWhile isWhiteSpace = t.text) : t.trimEnd.Starts a [] := by
    rw [Token.trimEnd, heq]
    exact Token.Starts.cut h
  obtain ⟨c, w, htext, hreads⟩ := starts_iff.1 h
  have run {p : Char → Bool} (hp : ∀ x, IsBreak x → p x = false) (hc : isWhiteSpace c = false) (xs : List Char) :
      (c :: xs.takeWhile p).rdropWhile isWhiteSpace = c :: xs.takeWhile p := by
    refine rdropWhile_of_forall (List.forall_mem_cons.2 ⟨hc, fun x hx => isWhiteSpace_of_not_isBreak fun hb => ?_⟩)
    have := List.mem_takeWhile_imp hx
    simp [hp x hb] at this
  cases hreads with
  | whitespace => simp [isTrivia] at ht
  | lineComment => simp [isTrivia] at ht
  | blockComment => simp [isTrivia] at ht
  | string hc =>
    have hw := (List.cons.inj htext).2
    rw [Token.trimEnd, hw]
    exact starts_literal (by rcases hc with rfl | rfl <;> exact ⟨by decide, rfl⟩) (fun w => .string hc) hw
  | template hc =>
    have hw := (List.cons.inj htext).2
    rw [Token.trimEnd, hw]
    exact starts_literal (by rw [hc]; exact ⟨by decide, rfl⟩) (fun w => .template hc) hw
  | regex hc hline hblock ha htail =>
    refine hself ?_
    rw [rdropWhile_cons (by rw [hc]; rfl), (regexTail_trimEnd htail).1]
  | number hc =>
    refine hself (run (fun x hx => hx.number) ?_ _)
    rcases hc with hc | ⟨rfl, -⟩
    · exact isWhiteSpace_of_isDigit hc
    · rfl
  | identifier hspace hdigit hc => exact hself (run (fun x hx => hx.identifier) hspace _)
  | punctuator hspace hquote hdigit hstart hslash hdot =>
    refine hself (rdropWhile_of_forall ?_)
    unfold operatorAt
    cases hfind : operators.find? (·.isPrefixOf (c :: (w ++ rest))) with
    | none => simpa using hspace
    | some op => exact isWhiteSpace_of_mem_operators op (List.mem_of_find?_eq_some hfind)

/-! ### Blank texts -/

theorem Token.Starts.isWhiteSpace_iff {rest : List Char} (h : t.Starts a rest) (ht : t.isComment = false) :
    t.isTrivia = true ↔ ∀ c ∈ t.text, isWhiteSpace c = true := by
  constructor
  · intro htrivia
    exact h.isWhiteSpace_of_kind (kind_of_isTrivia htrivia ht)
  · intro hall
    obtain ⟨c, w, htext, -⟩ := id h
    have hkind := h.kind_of_isWhiteSpace (by rw [htext]; rfl) (hall c (by rw [htext]; exact List.mem_cons_self))
    simp [isTrivia, hkind]

/-- Tokens free of comments are blank if none is significant. -/
theorem significant_eq_nil_iff {rest : List Char} (h : Lexes rest a ts) (hc : CommentFree ts) :
    significant ts = [] ↔ ∀ c ∈ Token.joined ts, isWhiteSpace c = true := by
  induction ts generalizing a with
  | nil => simp
  | cons t ts ih =>
    obtain ⟨ht, hts⟩ := List.forall_mem_cons.1 hc
    have hiff := h.1.isWhiteSpace_iff ht
    rw [Token.joined_cons, List.forall_mem_append, ← hiff, ← ih h.2 hts]
    cases htrivia : t.isTrivia with
    | true => simp [significant_cons_of_trivia htrivia]
    | false => simp [significant_cons htrivia]

/-! ### Trimming -/

/-- The tokens, the last of them without white space at its end. -/
def trimLast : List Token → List Token
  | [] => []
  | [t] => [t.trimEnd]
  | t :: u :: ts => t :: trimLast (u :: ts)

theorem trimLast_cons {us : List Token} (h : us ≠ []) (t : Token) : trimLast (t :: us) = t :: trimLast us := by
  cases us with
  | nil => exact absurd rfl h
  | cons u us => rfl

theorem trimLast_eq_nil_iff {us : List Token} : trimLast us = [] ↔ us = [] := by
  rcases us with _ | ⟨t, _ | ⟨u, us⟩⟩ <;> simp [trimLast]

/-- White space at the end of a text matters only to the last of its significant tokens. -/
theorem reduces_rdropWhile (h : Lexes [] a ts) (hc : CommentFree ts) :
    Reduces a ((Token.joined ts).rdropWhile isWhiteSpace) (trimLast (significant ts)) := by
  induction ts generalizing a with
  | nil => exact .nil
  | cons t ts ih =>
    obtain ⟨ht, hts⟩ := List.forall_mem_cons.1 hc
    have hblank := significant_eq_nil_iff h.2 hts
    have hrest := ih h.2 hts
    rw [Token.joined_cons]
    -- either nothing significant follows and this token loses its end, or only what follows does
    by_cases hnil : (Token.joined ts).rdropWhile isWhiteSpace = []
    · rw [rdropWhile_append_of_nil _ hnil]
      have hsig := hblank.2 (List.rdropWhile_eq_nil_iff.1 hnil)
      cases htrivia : t.isTrivia with
      | true =>
        have hspace := (h.1.isWhiteSpace_iff ht).1 htrivia
        rw [significant_cons_of_trivia htrivia, hsig, List.rdropWhile_eq_nil_iff.2 hspace]
        exact .nil
      | false =>
        rw [significant_cons htrivia, hsig]
        have := Reduces.cons (h.1.trimEnd htrivia) htrivia .nil
        rwa [List.append_nil] at this
    · rw [rdropWhile_append_of_ne_nil _ hnil]
      cases htrivia : t.isTrivia with
      | true =>
        rw [Token.regexAfter, if_pos htrivia] at hrest
        rw [significant_cons_of_trivia htrivia]
        exact (Reduces.whiteSpace_append_iff ((h.1.isWhiteSpace_iff ht).1 htrivia)).2 hrest
      | false =>
        have hsig : significant ts ≠ [] := fun hsig => hnil (List.rdropWhile_eq_nil_iff.2 (hblank.1 hsig))
        rw [significant_cons htrivia, trimLast_cons hsig]
        refine .cons ?_ htrivia hrest
        obtain ⟨more, hmore⟩ := List.rdropWhile_prefix isWhiteSpace (Token.joined ts)
        have hstarts := h.1
        rw [List.append_nil, ← hmore] at hstarts
        exact hstarts.cut

/-- White space around a text matters only to the last of its significant tokens. -/
theorem reduces_trim (hc : CommentFree (tokens cs)) :
    Reduces true (trim cs) (trimLast (significant (tokens cs))) := by
  obtain ⟨hfree, hsig⟩ := Reduces.dropWhile_iff.2 (⟨hc, rfl⟩ : Reduces true cs (significant (tokens cs)))
  have := reduces_rdropWhile (lexes_lex true (cs.dropWhile isWhiteSpace)) hfree
  rwa [joined_lex, hsig] at this

theorem trim_eq_nil_iff (hc : CommentFree (tokens cs)) : trim cs = [] ↔ significant (tokens cs) = [] := by
  constructor
  · intro h
    have hsig := (reduces_trim hc).2
    rw [h] at hsig
    exact trimLast_eq_nil_iff.1 (hsig.symm.trans (by simp [lex]))
  · intro h
    have hblank := (significant_eq_nil_iff (lexes_lex true cs) hc).1 h
    rw [joined_lex] at hblank
    simp [trim, List.dropWhile_eq_nil_iff.2 hblank]

theorem trim_append {x w' : List Char} (hw : ∀ c ∈ w, isWhiteSpace c = true) (hw' : ∀ c ∈ w', isWhiteSpace c = true)
    (hx : x.dropWhile isWhiteSpace ≠ []) : trim (w ++ (x ++ w')) = trim x := by
  have hx' : (x ++ w').dropWhile isWhiteSpace = x.dropWhile isWhiteSpace ++ w' := by
    simp [List.dropWhile_append, hx]
  unfold trim
  rw [List.dropWhile_append_of_pos hw, hx']
  exact rdropWhile_append_of_nil _ (List.rdropWhile_eq_nil_iff.2 hw')

theorem dropWhile_trim (cs : List Char) : (trim cs).dropWhile isWhiteSpace = trim cs := by
  cases h : trim cs with
  | nil => rfl
  | cons c w =>
    obtain ⟨more, hmore⟩ := List.rdropWhile_prefix isWhiteSpace (cs.dropWhile isWhiteSpace)
    have hhead := List.head?_dropWhile_not isWhiteSpace cs
    rw [← hmore, show (cs.dropWhile isWhiteSpace).rdropWhile isWhiteSpace = c :: w from h] at hhead
    exact List.dropWhile_cons_of_neg (by simpa using hhead)

theorem rdropWhile_trim (cs : List Char) : (trim cs).rdropWhile isWhiteSpace = trim cs :=
  List.rdropWhile_idempotent isWhiteSpace _

theorem trim_trim (cs : List Char) : trim (trim cs) = trim cs := by
  have hlast := rdropWhile_trim cs
  rw [← dropWhile_trim cs] at hlast
  exact hlast.trans (dropWhile_trim cs)

/-- A text is what trimming leaves of it with white space around it. -/
theorem exists_eq_append_trim (cs : List Char) : ∃ w w', (∀ c ∈ w, isWhiteSpace c = true) ∧
    (∀ c ∈ w', isWhiteSpace c = true) ∧ cs = w ++ (trim cs ++ w') := by
  have hend (ds : List Char) : ds.rdropWhile isWhiteSpace ++ (ds.reverse.takeWhile isWhiteSpace).reverse = ds := by
    rw [List.rdropWhile, ← List.reverse_append, List.takeWhile_append_dropWhile, List.reverse_reverse]
  refine ⟨cs.takeWhile isWhiteSpace, ((cs.dropWhile isWhiteSpace).reverse.takeWhile isWhiteSpace).reverse,
    fun c hc => List.mem_takeWhile_imp hc, fun c hc => List.mem_takeWhile_imp (List.mem_reverse.1 hc), ?_⟩
  have hdrop := hend (cs.dropWhile isWhiteSpace)
  rw [show (cs.dropWhile isWhiteSpace).rdropWhile isWhiteSpace = trim cs from rfl] at hdrop
  rw [hdrop, List.takeWhile_append_dropWhile]

/-- A comment-free text with a single significant token is that token with white space around it. -/
theorem joined_eq_of_significant_eq {rest : List Char} (h : Lexes rest a ts) (hc : CommentFree ts)
    (hsig : significant ts = [t]) : ∃ w w', (∀ c ∈ w, isWhiteSpace c = true) ∧ (∀ c ∈ w', isWhiteSpace c = true) ∧
      Token.joined ts = w ++ (t.text ++ w') := by
  induction ts generalizing a with
  | nil => simp at hsig
  | cons u us ih =>
    obtain ⟨hu, hus⟩ := List.forall_mem_cons.1 hc
    cases htrivia : u.isTrivia with
    | true =>
      rw [significant_cons_of_trivia htrivia] at hsig
      obtain ⟨w, w', hw, hw', heq⟩ := ih h.2 hus hsig
      refine ⟨u.text ++ w, w', ?_, hw', by rw [Token.joined_cons, heq, List.append_assoc]⟩
      exact List.forall_mem_append.2 ⟨(h.1.isWhiteSpace_iff hu).1 htrivia, hw⟩
    | false =>
      rw [significant_cons htrivia] at hsig
      obtain ⟨rfl, hnil⟩ := List.cons.inj hsig
      exact ⟨[], Token.joined us, by simp, (significant_eq_nil_iff h.2 hus).1 hnil, rfl⟩

/-- A trimmed text ends with a significant token. -/
theorem isTrivia_getLast?_tokens (hc : CommentFree (tokens cs)) (htrim : trim cs = cs)
    (ht : (tokens cs).getLast? = some t) : t.isTrivia = false := by
  rw [Bool.eq_false_iff]
  intro htrivia
  obtain ⟨us, hus⟩ := List.getLast?_eq_some_iff.1 ht
  have hlex : Lexes [] true (us ++ [t]) := hus ▸ lexes_lex true cs
  have hstarts := (Lexes.append_iff.1 hlex).2.1
  have hspace := (hstarts.isWhiteSpace_iff (hc t (by simp [hus]))).1 htrivia
  have hcs : cs = Token.joined us ++ t.text := by
    rw [← joined_tokens cs, hus, Token.joined_append]
    simp
  have hself : cs.rdropWhile isWhiteSpace = cs := by
    rw [← htrim]
    exact rdropWhile_trim cs
  have hshort := rdropWhile_append_of_nil (Token.joined us) (List.rdropWhile_eq_nil_iff.2 hspace)
  rw [← hcs, hself] at hshort
  have hlen := (List.rdropWhile_prefix isWhiteSpace (Token.joined us)).length_le
  have hpos := List.length_pos_iff.2 hstarts.ne_nil
  rw [← hshort, hcs, List.length_append] at hlen
  omega

end Injection
