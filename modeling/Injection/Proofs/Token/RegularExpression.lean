import Injection.Proofs.Token.Settled

/-!
# Regular expressions

Between the slashes of a regular expression stands a pattern: characters, escaped characters and bracketed sets, all on
one line.  The scanner knows no patterns, it looks for the first slash outside brackets; it finds one exactly if a
pattern and a slash stand there (`regexTail_eq_some_iff`).  What the token at a slash is, follows from that and from the
last significant token before it, whatever layout and comments lie between (`slash_starts_regex_iff`).
-/

namespace Injection

open Lexeme

variable {a inSet : Bool} {c : Char} {s p q w cs rest : List Char} {t : Token} {ts us vs : List Token}

namespace Lexeme

/-- The characters belong to the class, and the text goes on with none that does. -/
def IsRun (belongs : Char → Bool) (w rest : List Char) : Prop :=
  (∀ x ∈ w, belongs x = true) ∧ ∀ x, rest.head? = some x → belongs x = false

theorem isRun_takeWhile (belongs : Char → Bool) (cs : List Char) :
    IsRun belongs (cs.takeWhile belongs) (cs.dropWhile belongs) := by
  refine takeWhile_append_eq_left_iff.1 ?_
  rw [List.takeWhile_append_dropWhile]

/-! ### Patterns -/

/-- Some texts one after the other, each of the kind. -/
def IsSequence (kind : List Char → Prop) (cs : List Char) : Prop :=
  ∃ items : List (List Char), (∀ item ∈ items, kind item) ∧ cs = items.flatten

/-- What a bracketed set is made of. -/
inductive IsSetItem : List Char → Prop
  | escaped {c : Char} (hend : isLineEnd c = false) : IsSetItem ['\\', c]
  | plain {c : Char} (hend : isLineEnd c = false) (hescape : c ≠ '\\') (hclose : c ≠ ']') : IsSetItem [c]

/-- What a pattern is made of. -/
inductive IsItem : List Char → Prop
  | escaped {c : Char} (hend : isLineEnd c = false) : IsItem ['\\', c]
  | set {s : List Char} (hs : IsSequence IsSetItem s) : IsItem ('[' :: s ++ [']'])
  | plain {c : Char} (hend : isLineEnd c = false) (hescape : c ≠ '\\') (hopen : c ≠ '[') (hslash : c ≠ '/') : IsItem [c]

/-- What may stand between the slashes of a regular expression. -/
def IsPattern (cs : List Char) : Prop :=
  IsSequence IsItem cs

theorem IsSequence.nil (kind : List Char → Prop) : IsSequence kind [] :=
  ⟨[], List.forall_mem_nil _, rfl⟩

theorem IsSequence.cons {kind : List Char → Prop} {item : List Char} (hitem : kind item) (h : IsSequence kind cs) :
    IsSequence kind (item ++ cs) := by
  obtain ⟨items, hitems, rfl⟩ := h
  exact ⟨item :: items, List.forall_mem_cons.2 ⟨hitem, hitems⟩, rfl⟩

/-! ### The scanner comes past patterns -/

theorem regexTail_escaped (hend : isLineEnd c = false) (cs : List Char) :
    regexTail inSet ('\\' :: c :: cs) = (regexTail inSet cs).map fun w => '\\' :: c :: w := by
  simp [regexTail, hend]

/-- A character that neither escapes nor ends the line, nor closes the regular expression. -/
theorem regexTail_plain {after : Bool} (hend : isLineEnd c = false) (hescape : c ≠ '\\')
    (hslash : c = '/' → inSet = true) (hafter : (c == '[' || (inSet && c != ']')) = after) (cs : List Char) :
    regexTail inSet (c :: cs) = (regexTail after cs).map fun w => c :: w := by
  rw [regexTail_cons (by simp [hend, hescape]), if_neg, hafter]
  simpa using hslash

theorem regexTail_set (hs : IsSequence IsSetItem s) (cs : List Char) :
    regexTail true (s ++ ']' :: cs) = (regexTail false cs).map fun w => s ++ ']' :: w := by
  obtain ⟨items, hitems, rfl⟩ := hs
  induction items with
  | nil => exact regexTail_plain rfl (by decide) (fun _ => rfl) rfl cs
  | cons item items ih =>
    obtain ⟨hitem, hitems⟩ := List.forall_mem_cons.1 hitems
    have hrest := ih hitems
    cases hitem with
    | escaped hend => simp [regexTail_escaped hend, hrest, Function.comp_def]
    | @plain c hend hescape hclose =>
      have hset : (c == '[' || (true && c != ']')) = true := by simp [hclose]
      simp [regexTail_plain hend hescape (fun _ => rfl) hset, hrest, Function.comp_def]

theorem regexTail_pattern (hp : IsPattern p) (cs : List Char) :
    regexTail false (p ++ cs) = (regexTail false cs).map fun w => p ++ w := by
  obtain ⟨items, hitems, rfl⟩ := hp
  induction items with
  | nil => simp
  | cons item items ih =>
    obtain ⟨hitem, hitems⟩ := List.forall_mem_cons.1 hitems
    have hrest := ih hitems
    cases hitem with
    | escaped hend => simp [regexTail_escaped hend, hrest, Function.comp_def]
    | @set s hs =>
      have hopen (ds : List Char) : regexTail false ('[' :: ds) = (regexTail true ds).map fun w => '[' :: w :=
        regexTail_plain rfl (by decide) (by decide) rfl ds
      simp [hopen, regexTail_set hs, hrest, Function.comp_def]
    | @plain c hend hescape hopen hslash =>
      have hset : (c == '[' || (false && c != ']')) = false := by simp [hopen]
      simp [regexTail_plain hend hescape (fun h => absurd h hslash) hset, hrest, Function.comp_def]

/-! ### The scanner finds patterns -/

/-- What may stand before the closing slash where a bracketed set is open, or none is. -/
def ContinuesPattern : Bool → List Char → Prop
  | false, cs => IsPattern cs
  | true, cs => ∃ s p, IsSequence IsSetItem s ∧ IsPattern p ∧ cs = s ++ ']' :: p

theorem ContinuesPattern.escaped (hend : isLineEnd c = false) (h : ContinuesPattern inSet cs) :
    ContinuesPattern inSet ('\\' :: c :: cs) := by
  cases inSet with
  | false => exact .cons (.escaped hend) h
  | true =>
    obtain ⟨s, p, hs, hp, rfl⟩ := h
    exact ⟨'\\' :: c :: s, p, .cons (.escaped hend) hs, hp, rfl⟩

theorem ContinuesPattern.plain (hend : isLineEnd c = false) (hescape : c ≠ '\\') (hslash : c = '/' → inSet = true)
    (h : ContinuesPattern (c == '[' || (inSet && c != ']')) cs) : ContinuesPattern inSet (c :: cs) := by
  cases inSet with
  | false =>
    by_cases hopen : c = '['
    -- the set that opens here is closed in what follows
    · subst hopen
      obtain ⟨s, p, hs, hp, rfl⟩ := h
      have hset := IsSequence.cons (.set hs) hp
      simpa [ContinuesPattern, IsPattern] using hset
    · have hset : (c == '[' || (false && c != ']')) = false := by simp [hopen]
      have hrest : ContinuesPattern false cs := by rwa [hset] at h
      exact .cons (.plain hend hescape hopen fun heq => Bool.noConfusion (hslash heq)) hrest
  | true =>
    by_cases hclose : c = ']'
    · subst hclose
      exact ⟨[], cs, .nil _, h, rfl⟩
    · have hset : (c == '[' || (true && c != ']')) = true := by simp [hclose]
      have hrest : ContinuesPattern true cs := by rwa [hset] at h
      obtain ⟨s, p, hs, hp, rfl⟩ := hrest
      exact ⟨c :: s, p, .cons (.plain hend hescape hclose) hs, hp, rfl⟩

theorem continuesPattern_of_regexTail (h : regexTail inSet cs = some w) : ∃ p rest, ContinuesPattern inSet p ∧
    cs = p ++ '/' :: rest ∧ w = p ++ '/' :: rest.takeWhile isIdentifierPart := by
  fun_induction regexTail inSet cs generalizing w with
  | case1 => simp at h
  | case2 inSet c cs hc ih =>
    obtain ⟨r, hr, rfl⟩ := Option.map_eq_some_iff.1 h
    obtain ⟨p, rest, hp, rfl, rfl⟩ := ih hr
    exact ⟨'\\' :: c :: p, rest, hp.escaped (by simpa using hc), rfl, rfl⟩
  | case3 => simp at h
  | case4 inSet c cs _ hc hslash =>
    obtain ⟨rfl, rfl⟩ : c = '/' ∧ inSet = false := by simpa using hslash
    obtain rfl := Option.some.inj h
    exact ⟨[], cs, .nil _, rfl, rfl⟩
  | case5 inSet c cs _ hc hslash ih =>
    obtain ⟨r, hr, rfl⟩ := Option.map_eq_some_iff.1 h
    obtain ⟨p, rest, hp, rfl, rfl⟩ := ih hr
    obtain ⟨hescape, hend⟩ : c ≠ '\\' ∧ isLineEnd c = false := by simpa using hc
    exact ⟨c :: p, rest, hp.plain hend hescape (by simpa using hslash), rfl, rfl⟩
  | case6 => simp at h

/-- A regular expression is a pattern, a slash and the flags, which are all the identifier characters that follow. -/
theorem regexTail_eq_some_iff : regexTail false cs = some w ↔
    ∃ p rest, IsPattern p ∧ cs = p ++ '/' :: rest ∧ w = p ++ '/' :: rest.takeWhile isIdentifierPart := by
  constructor
  · exact continuesPattern_of_regexTail
  · rintro ⟨p, rest, hp, rfl, rfl⟩
    have hclose : regexTail false ('/' :: rest) = some ('/' :: rest.takeWhile isIdentifierPart) :=
      regexTail_cons (by decide) rest
    rw [regexTail_pattern hp, hclose]
    rfl

/-- No pattern goes past the slash after another. -/
theorem IsPattern.unique {rest' : List Char} (hp : IsPattern p) (hq : IsPattern q)
    (h : p ++ '/' :: rest = q ++ '/' :: rest') : p = q := by
  have hlonger {p x : List Char} (hp : IsPattern p) : ¬ IsPattern (p ++ '/' :: x) := by
    intro hpx
    -- as a pattern it has no closing slash, but it goes past one
    have hopen := regexTail_pattern hpx []
    rw [List.append_nil, regexTail_eq_some_iff.2 ⟨p, x, hp, rfl, rfl⟩] at hopen
    cases hopen
  rcases List.append_eq_append_iff.1 h with ⟨x, rfl, hx⟩ | ⟨x, rfl, hx⟩
  · rcases List.cons_eq_append_iff.1 hx with ⟨rfl, -⟩ | ⟨y, rfl, -⟩
    · rw [List.append_nil]
    · exact absurd hq (hlonger hp)
  · rcases List.cons_eq_append_iff.1 hx with ⟨rfl, -⟩ | ⟨y, rfl, -⟩
    · rw [List.append_nil]
    · exact absurd hp (hlonger hq)

/-- The only operator of more characters that begins with a slash is the assignment. -/
theorem operatorAt_slash (cs : List Char) :
    operatorAt '/' cs = if cs.head? = some '=' then ['/', '='] else ['/'] := by
  cases cs with
  | nil => rfl
  | cons d cs =>
    by_cases hd : d = '='
    · subst hd
      rfl
    · have hd' : ('=' == d) = false := by simpa using Ne.symm hd
      simp [operatorAt, operators, List.isPrefixOf, hd, hd']

end Lexeme

/-! ### The token at a slash -/

/-- A regular expression is allowed where no significant token stands before, or one that asks for an expression. -/
theorem Token.regexAfterAll_eq (ts : List Token) :
    Token.regexAfterAll true ts = (significant ts).getLast?.all Token.precedesExpression := by
  rw [← Token.regexAfterAll_significant]
  rcases List.eq_nil_or_concat (significant ts) with hnil | ⟨us, t, hlast⟩
  · rw [hnil]
    rfl
  · have ht : t ∈ significant ts := by simp [hlast]
    have htrivia : t.isTrivia = false := by simpa using (List.mem_filter.1 ht).2
    rw [hlast, List.concat_eq_append, Token.regexAfterAll, List.foldl_append]
    simp [Token.regexAfter, htrivia]

/-- A token among others is read where it stands, after the tokens before it. -/
theorem Token.starts_of_tokens_eq (h : tokens cs = us ++ t :: vs) :
    t.Starts (Token.regexAfterAll true us) (Token.joined vs) := by
  have hlex : Lexes [] true (us ++ t :: vs) := h ▸ lexes_lex true cs
  have hstarts := (Lexes.append_iff.1 hlex).2.1
  rwa [List.append_nil] at hstarts

/-- At a slash that begins no comment stands a regular expression or an operator. -/
theorem firstToken_slash (a : Bool) (hline : cs.head? ≠ some '/') (hblock : cs.head? ≠ some '*') :
    (a = true ∧ ∃ w, regexTail false cs = some w ∧ firstToken a '/' cs = ⟨.regex, '/' :: w⟩) ∨
      (a = true → regexTail false cs = none) ∧ firstToken a '/' cs = ⟨.punctuator, operatorAt '/' cs⟩ := by
  have hreads := reads_firstToken a '/' cs
  cases hfirst : firstToken a '/' cs with
  | mk kind text =>
    rw [hfirst] at hreads
    cases hreads with
    | whitespace hc => cases hc
    | lineComment _ hcs => exact absurd hcs hline
    | blockComment _ hcs => exact absurd hcs hblock
    | string hc => rcases hc with hc | hc <;> cases hc
    | template hc => cases hc
    | regex _ _ _ ha htail => exact .inl ⟨ha, _, htail, rfl⟩
    | number hc => rcases hc with hc | ⟨hc, -⟩ <;> cases hc
    | identifier _ _ hc => cases hc
    | punctuator _ _ _ _ hslash => exact .inr ⟨(hslash rfl).2.2, rfl⟩

/-- A slash that begins no comment begins a regular expression exactly if none or one that asks for an expression is the
last significant token before it, and a pattern and another slash follow.  The token consists of the two slashes with
the only such pattern between them, and the flags; where there is no regular expression, it is an operator. -/
theorem slash_starts_regex_iff (source : String) (us vs : List Token) (t : Token) (cs : List Char)
    (h : tokens source.toList = us ++ t :: vs) (hcs : Token.joined (t :: vs) = '/' :: cs)
    (hline : cs.head? ≠ some '/') (hblock : cs.head? ≠ some '*') :
    (t.kind = .regex ↔ (significant us).getLast?.all Token.precedesExpression = true ∧
        ∃ p rest, IsPattern p ∧ cs = p ++ '/' :: rest) ∧
      (t.kind = .regex → ∃ p flags rest, IsPattern p ∧ cs = p ++ '/' :: (flags ++ rest) ∧
        IsRun isIdentifierPart flags rest ∧ t.text = '/' :: (p ++ '/' :: flags) ∧
        ∀ q rest', IsPattern q → cs = q ++ '/' :: rest' → q = p) ∧
      (t.kind ≠ .regex → t = ⟨.punctuator, if cs.head? = some '=' then ['/', '='] else ['/']⟩) := by
  obtain ⟨c, w, htext, hfirst⟩ := Token.starts_of_tokens_eq h
  rw [Token.joined_cons, htext, List.cons_append] at hcs
  obtain ⟨rfl, hrest⟩ := List.cons.inj hcs
  rw [hrest, Token.regexAfterAll_eq] at hfirst
  rcases firstToken_slash ((significant us).getLast?.all Token.precedesExpression) hline hblock with
    ⟨hallowed, tail, htail, ht⟩ | ⟨hnone, ht⟩
  · obtain rfl := hfirst.symm.trans ht
    obtain ⟨p, rest, hp, hp', rfl⟩ := regexTail_eq_some_iff.1 htail
    refine ⟨⟨fun _ => ⟨hallowed, p, rest, hp, hp'⟩, fun _ => rfl⟩, fun _ => ?_, fun hne => absurd rfl hne⟩
    refine ⟨p, rest.takeWhile isIdentifierPart, rest.dropWhile isIdentifierPart, hp, ?_, isRun_takeWhile _ _, rfl, ?_⟩
    · rw [List.takeWhile_append_dropWhile]
      exact hp'
    · intro q rest' hq hq'
      exact hq.unique hp (hq'.symm.trans hp')
  · obtain rfl := hfirst.symm.trans ht
    rw [operatorAt_slash]
    refine ⟨⟨nofun, fun h => ?_⟩, nofun, fun _ => rfl⟩
    obtain ⟨hallowed, p, rest, hp, hp'⟩ := h
    have htail := regexTail_eq_some_iff.2 ⟨p, rest, hp, hp', rfl⟩
    rw [hnone hallowed] at htail
    cases htail

/-- A set that holds slashes and an escaped bracket. -/
def slashesInSet : String :=
  "return /* / */ /[/\\]/]\\//gi / 2"

theorem slash_starts_regex_slashesInSet :
    tokens slashesInSet.toList =
        tokens "return /* / */ ".toList ++ ⟨.regex, "/[/\\]/]\\//gi".toList⟩ :: lex false " / 2".toList ∧
      (significant (tokens "return /* / */ ".toList)).getLast?.all Token.precedesExpression = true ∧
      ∃ p flags rest, IsPattern p ∧ "[/\\]/]\\//gi / 2".toList = p ++ '/' :: (flags ++ rest) ∧
        IsRun isIdentifierPart flags rest ∧ "/[/\\]/]\\//gi".toList = '/' :: (p ++ '/' :: flags) ∧
        ∀ q rest', IsPattern q → "[/\\]/]\\//gi / 2".toList = q ++ '/' :: rest' → q = p := by
  have h : tokens slashesInSet.toList =
      tokens "return /* / */ ".toList ++ ⟨.regex, "/[/\\]/]\\//gi".toList⟩ :: lex false " / 2".toList := by
    decide +kernel
  have hcs : Token.joined (⟨.regex, "/[/\\]/]\\//gi".toList⟩ :: lex false " / 2".toList) =
      '/' :: "[/\\]/]\\//gi / 2".toList := by
    rw [Token.joined_cons, joined_lex]
    rfl
  obtain ⟨hiff, htext, -⟩ := slash_starts_regex_iff slashesInSet _ _ _ _ h hcs (by decide) (by decide)
  exact ⟨h, (hiff.1 rfl).1, htext rfl⟩

end Injection
