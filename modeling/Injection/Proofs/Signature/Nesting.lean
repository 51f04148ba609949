import Injection.Proofs.Signature.Pieces

/-!
# Nesting

Tokens whose delimiters are balanced leave the depth as it was, and no piece of a parameter list and no name ends inside
them (`pieceTokens_append`, `splitTokens_append`).

A token moves a counter by one at most, so depths fit into counters of 32 bits unless there are very many tokens
(`Depth.wrappedAfterAll_eq`).
-/

namespace Injection

namespace Depth

variable {d e : Depth} {t : Token} {ts us : List Token} {p : String} {n : Nat}

/-- The depth after tokens. -/
def afterAll (d : Depth) (ts : List Token) : Depth :=
  ts.foldl after d

@[simp] theorem afterAll_nil (d : Depth) : d.afterAll [] = d := rfl

@[simp] theorem afterAll_cons (d : Depth) (t : Token) (ts : List Token) :
    d.afterAll (t :: ts) = (d.after t).afterAll ts := rfl

@[simp] theorem afterAll_append (d : Depth) (ts us : List Token) :
    d.afterAll (ts ++ us) = (d.afterAll ts).afterAll us :=
  List.foldl_append

/-- No counter is below zero. -/
structure NonNegative (d : Depth) : Prop where
  paren : 0 ≤ d.paren
  curly : 0 ≤ d.curly
  bracket : 0 ≤ d.bracket

/-- From the depth on, the counters of the tokens never go below zero. -/
def StaysNonNegative (d : Depth) (ts : List Token) : Prop :=
  ∀ us, us <+: ts → (d.afterAll us).NonNegative

/-- No token of the list is the punctuator at depth zero. -/
def Avoids (d : Depth) (p : String) (ts : List Token) : Prop :=
  ∀ us t vs, ts = us ++ t :: vs → t.isPunctuator p = true → d.afterAll us ≠ .top

theorem staysNonNegative_nil : d.StaysNonNegative [] ↔ d.NonNegative := by
  simp [StaysNonNegative, List.prefix_nil]

theorem staysNonNegative_cons :
    d.StaysNonNegative (t :: ts) ↔ d.NonNegative ∧ (d.after t).StaysNonNegative ts := by
  constructor
  · intro h
    exact ⟨h [] List.nil_prefix, fun us hus => h (t :: us) (List.cons_prefix_cons.2 ⟨rfl, hus⟩)⟩
  · rintro ⟨hd, h⟩ us hus
    rcases List.prefix_cons_iff.1 hus with rfl | ⟨vs, rfl, hvs⟩
    · exact hd
    · exact h vs hvs

theorem StaysNonNegative.append (h : d.StaysNonNegative ts) (h' : (d.afterAll ts).StaysNonNegative us) :
    d.StaysNonNegative (ts ++ us) := by
  intro vs hvs
  rcases List.prefix_or_prefix_of_prefix hvs (List.prefix_append ts us) with hts | ⟨ws, rfl⟩
  · exact h vs hts
  · rw [afterAll_append]
    exact h' ws ((List.prefix_append_right_inj ts).1 hvs)

theorem avoids_nil : d.Avoids p [] := by
  intro us t vs h
  simp at h

theorem avoids_cons :
    d.Avoids p (t :: ts) ↔ (t.isPunctuator p = true → d ≠ .top) ∧ (d.after t).Avoids p ts := by
  constructor
  · intro h
    exact ⟨fun ht => h [] t ts rfl ht, fun us u vs hts hu => h (t :: us) u vs (by rw [hts]; rfl) hu⟩
  · rintro ⟨ht, h⟩ us u vs heq hu
    cases us with
    | nil =>
      obtain ⟨rfl, -⟩ := List.cons.inj heq
      exact ht hu
    | cons v us =>
      obtain ⟨rfl, hts⟩ := List.cons.inj heq
      exact h us u vs hts hu

theorem Avoids.append (h : d.Avoids p ts) (h' : (d.afterAll ts).Avoids p us) : d.Avoids p (ts ++ us) := by
  intro vs t ws heq ht
  rcases List.append_eq_append_iff.1 heq with ⟨xs, rfl, hus⟩ | ⟨xs, hts, hws⟩
  · rw [afterAll_append]
    exact h' xs t ws hus ht
  · rcases List.cons_eq_append_iff.1 hws with ⟨rfl, hus⟩ | ⟨ys, rfl, rfl⟩
    · rw [List.append_nil] at hts
      rw [← hts]
      exact h' [] t ws hus ht
    · exact h vs t ys hts ht

theorem Avoids.of_forall (h : ∀ t ∈ ts, t.isPunctuator p = false) (d : Depth) : d.Avoids p ts := by
  rintro us t vs rfl ht
  rw [h t (by simp)] at ht
  cases ht

instance (d : Depth) : Decidable d.NonNegative :=
  decidable_of_iff (0 ≤ d.paren ∧ 0 ≤ d.curly ∧ 0 ≤ d.bracket)
    ⟨fun h => ⟨h.1, h.2.1, h.2.2⟩, fun h => ⟨h.paren, h.curly, h.bracket⟩⟩

instance decidableStaysNonNegative : (d : Depth) → (ts : List Token) → Decidable (d.StaysNonNegative ts)
  | _, [] => decidable_of_iff _ staysNonNegative_nil.symm
  | d, t :: ts =>
    have := decidableStaysNonNegative (d.after t) ts
    decidable_of_iff _ staysNonNegative_cons.symm

instance decidableAvoids (p : String) : (d : Depth) → (ts : List Token) → Decidable (d.Avoids p ts)
  | _, [] => .isTrue avoids_nil
  | d, t :: ts =>
    have := decidableAvoids p (d.after t) ts
    decidable_of_iff _ avoids_cons.symm

/-! ### Depths inside others -/

/-- The depth at a place that has the depth `d` as seen from a place at the depth `outer`. -/
def within (d outer : Depth) : Depth :=
  ⟨outer.paren + d.paren, outer.curly + d.curly, outer.bracket + d.bracket⟩

@[simp] theorem top_within (d : Depth) : top.within d = d := by
  cases d
  simp [within, top]

theorem within_eq_iff : d.within e = e ↔ d = .top := by
  cases d
  cases e
  simp [within, top]

theorem after_within (d outer : Depth) (t : Token) : (d.within outer).after t = (d.after t).within outer := by
  unfold after within
  repeat' split
  all_goals simp only [Depth.mk.injEq, and_self, and_true, true_and]
  all_goals omega

/-- A token adds what it adds outside all delimiters. -/
theorem after_eq_within (d : Depth) (t : Token) : d.after t = (top.after t).within d := by
  rw [← after_within, top_within]

theorem afterAll_within (d outer : Depth) (ts : List Token) :
    (d.within outer).afterAll ts = (d.afterAll ts).within outer := by
  induction ts generalizing d with
  | nil => rfl
  | cons t ts ih => rw [afterAll_cons, after_within, ih, afterAll_cons]

theorem NonNegative.within (hd : d.NonNegative) (he : e.NonNegative) : (d.within e).NonNegative :=
  ⟨add_nonneg he.paren hd.paren, add_nonneg he.curly hd.curly, add_nonneg he.bracket hd.bracket⟩

/-- The depth inside a parameter list, counted from the list on. -/
def inList (d : Depth) : Depth :=
  { d with paren := d.paren + 1 }

theorem inList_eq_within (d : Depth) : d.inList = d.within .parameterList := by
  simp [inList, within, parameterList, add_comm]

theorem after_inList (d : Depth) (t : Token) : d.inList.after t = (d.after t).inList := by
  rw [inList_eq_within, inList_eq_within, after_within]

theorem inList_eq_iff : d.inList = .parameterList ↔ d = .top := by
  rw [inList_eq_within, within_eq_iff]

/-! ### Counters of 32 bits -/

/-- The counters as 32 bits show them. -/
def wrap (d : Depth) : Depth :=
  ⟨d.paren.bmod (2 ^ 32), d.curly.bmod (2 ^ 32), d.bracket.bmod (2 ^ 32)⟩

/-- The depth after tokens, if counters wrap around at each of them. -/
def wrappedAfterAll (d : Depth) (ts : List Token) : Depth :=
  ts.foldl (fun d t => (d.after t).wrap) d

theorem within_wrap (d outer : Depth) : (d.within outer.wrap).wrap = (d.within outer).wrap := by
  simp [wrap, within]

theorem after_wrap (d : Depth) (t : Token) : (d.wrap.after t).wrap = (d.after t).wrap := by
  rw [after_eq_within, within_wrap, ← after_eq_within]

/-- Counters that wrap around all the time show what unbounded ones show in the end. -/
theorem wrappedAfterAll_wrap (d : Depth) (ts : List Token) : d.wrap.wrappedAfterAll ts = (d.afterAll ts).wrap := by
  induction ts generalizing d with
  | nil => rfl
  | cons t ts ih =>
    rw [wrappedAfterAll, List.foldl_cons, after_wrap]
    exact ih (d.after t)

/-- No counter is further from zero than that. -/
structure Bounded (n : Nat) (d : Depth) : Prop where
  paren : d.paren.natAbs ≤ n
  curly : d.curly.natAbs ≤ n
  bracket : d.bracket.natAbs ≤ n

/-- A token moves a counter by one at most. -/
theorem Bounded.after (h : d.Bounded n) (t : Token) : (d.after t).Bounded (n + 1) := by
  have hone : (top.after t).Bounded 1 := by
    unfold Depth.after
    repeat' split
    all_goals exact ⟨by decide, by decide, by decide⟩
  rw [after_eq_within]
  constructor
  · exact (Int.natAbs_add_le ..).trans (Nat.add_le_add h.paren hone.paren)
  · exact (Int.natAbs_add_le ..).trans (Nat.add_le_add h.curly hone.curly)
  · exact (Int.natAbs_add_le ..).trans (Nat.add_le_add h.bracket hone.bracket)

theorem Bounded.afterAll (h : d.Bounded n) (ts : List Token) : (d.afterAll ts).Bounded (n + ts.length) := by
  induction ts generalizing d n with
  | nil => exact h
  | cons t ts ih =>
    rw [List.length_cons, Nat.add_comm ts.length, ← Nat.add_assoc]
    exact ih (h.after t)

/-- What 32 bits can hold they show as it is. -/
theorem Bounded.wrap_eq (h : d.Bounded n) (hn : n < 2 ^ 31) : d.wrap = d := by
  have bmod_eq {i : Int} (hi : i.natAbs ≤ n) : i.bmod (2 ^ 32) = i := Int.bmod_eq_of_le (by omega) (by omega)
  rw [wrap, bmod_eq h.paren, bmod_eq h.curly, bmod_eq h.bracket]

/-- Unless there are very many tokens, counters of 32 bits show the depths that unbounded ones show. -/
theorem wrappedAfterAll_eq (h : d.Bounded n) (hn : n + ts.length < 2 ^ 31) : d.wrappedAfterAll ts = d.afterAll ts := by
  have hd : d.wrap = d := h.wrap_eq (by omega)
  calc d.wrappedAfterAll ts = d.wrap.wrappedAfterAll ts := by rw [hd]
    _ = (d.afterAll ts).wrap := wrappedAfterAll_wrap d ts
    _ = d.afterAll ts := (h.afterAll ts).wrap_eq hn

/-! ### Balanced tokens -/

/-- Every delimiter that the tokens open they close, and no other, as far as each pair of delimiters goes. -/
structure WellNested (ts : List Token) : Prop where
  nonNegative : top.StaysNonNegative ts
  balanced : top.afterAll ts = top

namespace WellNested

theorem nil : WellNested [] :=
  ⟨by decide, rfl⟩

theorem afterAll_eq (h : WellNested ts) (d : Depth) : d.afterAll ts = d := by
  have := afterAll_within top d ts
  rwa [h.balanced, top_within] at this

/-- Inside the tokens no counter is lower than before them. -/
theorem afterAll_of_isPrefix (h : WellNested ts) (hus : us <+: ts) (d : Depth) :
    ∃ e : Depth, e.NonNegative ∧ d.afterAll us = e.within d := by
  refine ⟨top.afterAll us, h.nonNegative us hus, ?_⟩
  rw [← afterAll_within, top_within]

theorem staysNonNegative (h : WellNested ts) (hd : d.NonNegative) : d.StaysNonNegative ts := by
  intro us hus
  obtain ⟨e, he, heq⟩ := h.afterAll_of_isPrefix hus d
  rw [heq]
  exact he.within hd

theorem append (h : WellNested ts) (h' : WellNested us) : WellNested (ts ++ us) where
  nonNegative := h.nonNegative.append (by rw [h.balanced]; exact h'.nonNegative)
  balanced := by rw [afterAll_append, h.balanced, h'.balanced]

/-- A token that is no delimiter. -/
theorem cons (ht : top.after t = top) (h : WellNested ts) : WellNested (t :: ts) where
  nonNegative := staysNonNegative_cons.2 ⟨by decide, by rw [ht]; exact h.nonNegative⟩
  balanced := by rw [afterAll_cons, ht, h.balanced]

/-- Tokens between an opening and a closing delimiter. -/
theorem enclose {u : Token} (ht : (top.after t).NonNegative) (hu : (top.after t).after u = top)
    (h : WellNested ts) : WellNested (t :: (ts ++ [u])) where
  nonNegative := by
    refine staysNonNegative_cons.2 ⟨by decide, (h.staysNonNegative ht).append ?_⟩
    rw [h.afterAll_eq, staysNonNegative_cons, staysNonNegative_nil, hu]
    exact ⟨ht, by decide⟩
  balanced := by rw [afterAll_cons, afterAll_append, h.afterAll_eq, afterAll_cons, hu, afterAll_nil]

end WellNested

theorem afterAll_significant (d : Depth) (ts : List Token) : d.afterAll (significant ts) = d.afterAll ts := by
  induction ts generalizing d with
  | nil => rfl
  | cons t ts ih =>
    cases ht : t.isTrivia with
    | true => rw [significant_cons_of_trivia ht, ih, afterAll_cons, after_of_isTrivia ht]
    | false => rw [significant_cons ht, afterAll_cons, afterAll_cons, ih]

theorem avoids_significant : d.Avoids p (significant ts) ↔ d.Avoids p ts := by
  induction ts generalizing d with
  | nil => exact Iff.rfl
  | cons t ts ih =>
    cases ht : t.isTrivia with
    | true =>
      rw [significant_cons_of_trivia ht, ih, avoids_cons, after_of_isTrivia ht]
      simp [Token.isPunctuator_of_isTrivia ht]
    | false => rw [significant_cons ht, avoids_cons, avoids_cons, ih]

theorem Avoids.congr (h : d.Avoids p ts) (hsig : Injection.significant us = Injection.significant ts) :
    d.Avoids p us := by
  rwa [← avoids_significant, hsig, avoids_significant]

theorem afterAll_congr (d : Depth) (hsig : Injection.significant us = Injection.significant ts) :
    d.afterAll us = d.afterAll ts := by
  rw [← afterAll_significant, hsig, afterAll_significant]

theorem WellNested.significant (h : WellNested ts) : WellNested (significant ts) where
  nonNegative := by
    intro us hus
    obtain ⟨vs, hvs, rfl⟩ := List.prefix_filter_iff.1 hus
    have := h.nonNegative vs hvs
    rwa [← afterAll_significant] at this
  balanced := by rw [afterAll_significant, h.balanced]

theorem WellNested.congr (h : WellNested ts) (hsig : Injection.significant us = Injection.significant ts) :
    WellNested us where
  nonNegative := by
    intro vs hvs
    have hprefix : Injection.significant vs <+: Injection.significant ts := by
      rw [← hsig]
      exact hvs.filter _
    rw [← afterAll_significant]
    exact h.significant.nonNegative _ hprefix
  balanced := by rw [afterAll_congr _ hsig, h.balanced]

end Depth

variable {d : Depth} {last : Option Token} {ts us vs : List Token}

/-- The search for an arrow comes past tokens that have neither an arrow nor a parenthesis at depth zero. -/
theorem arrowParameterFrom_append (hparen : d.Avoids "(" ts) (harrow : d.Avoids "=>" ts) (last : Option Token)
    (us : List Token) : arrowParameterFrom d last (ts ++ us) =
      arrowParameterFrom (d.afterAll ts) (Token.lastSignificantAll last ts) us := by
  induction ts generalizing d last with
  | nil => rfl
  | cons t ts ih =>
    obtain ⟨hp, hparen⟩ := Depth.avoids_cons.1 hparen
    obtain ⟨ha, harrow⟩ := Depth.avoids_cons.1 harrow
    rw [List.cons_append, arrowParameterFrom, if_neg fun h => hp h.2 h.1, if_neg fun h => ha h.2 h.1, ih hparen harrow]
    rfl

/-- Inside delimiters the token before is not the parameter of an arrow function. -/
theorem arrowParameterFrom_congr_last (hd : d ≠ .top) (last last' : Option Token) (ts : List Token) :
    arrowParameterFrom d last ts = arrowParameterFrom d last' ts := by
  induction ts generalizing d with
  | nil => rfl
  | cons t ts ih =>
    simp only [arrowParameterFrom, hd, false_and, if_false]
    cases ht : t.isTrivia with
    | true =>
      rw [Depth.after_of_isTrivia ht]
      simp only [Token.lastSignificant, ht, if_true]
      exact ih hd
    | false => simp [Token.lastSignificant, ht]

/-- The search for an arrow goes on in the same way after the same tokens. -/
theorem arrowParameterFrom_append_congr (h : arrowParameterFrom (d.afterAll ts) (Token.lastSignificantAll last ts) us =
      arrowParameterFrom (d.afterAll ts) (Token.lastSignificantAll last ts) vs) :
    arrowParameterFrom d last (ts ++ us) = arrowParameterFrom d last (ts ++ vs) := by
  induction ts generalizing d last with
  | nil => exact h
  | cons t ts ih => rw [List.cons_append, List.cons_append, arrowParameterFrom, arrowParameterFrom, ih h]

/-- A piece of a parameter list does not end inside tokens that are nested in it. -/
theorem pieceTokens_append (hneg : d.StaysNonNegative ts) (hcomma : d.Avoids "," ts) (us : List Token) :
    pieceTokens d.inList (ts ++ us) = (pieceTokens (d.afterAll ts).inList us).modifyHead (ts ++ ·) := by
  induction ts generalizing d with
  | nil => cases h : pieceTokens d.inList us <;> simp [h]
  | cons t ts ih =>
    obtain ⟨-, hneg⟩ := Depth.staysNonNegative_cons.1 hneg
    obtain ⟨htop, hcomma⟩ := Depth.avoids_cons.1 hcomma
    have hopen : ¬ (d.inList.after t).paren = 0 := by
      have := (hneg [] List.nil_prefix).paren
      rw [Depth.after_inList, Depth.inList]
      rw [Depth.afterAll_nil] at this
      dsimp only
      omega
    have hlast : ¬ (t.isPunctuator "," = true ∧ d.inList = .parameterList) := by
      rw [Depth.inList_eq_iff]
      exact fun h => htop h.1 h.2
    rw [List.cons_append, pieceTokens, if_neg hopen, if_neg hlast, Depth.after_inList, ih hneg hcomma]
    cases h : pieceTokens ((d.after t).afterAll ts).inList us <;> simp [h]

/-- What stands from the end of a parameter list on does not change its pieces. -/
theorem pieceTokens_append_of_closed (h : ∀ t vs, us = t :: vs → (d.afterAll (ts ++ [t])).paren = 0) :
    pieceTokens d (ts ++ us) = pieceTokens d ts := by
  induction ts generalizing d with
  | nil =>
    cases us with
    | nil => rfl
    | cons t us =>
      have hclosed : (d.after t).paren = 0 := h t us rfl
      simp only [List.nil_append, pieceTokens, if_pos hclosed]
  | cons t ts ih =>
    rw [List.cons_append, pieceTokens, pieceTokens, ih h]
    split
    · rfl
    split
    · rename_i hcomma
      have hafter : d.after t = d := by
        rw [Token.eq_of_isPunctuator hcomma.1]
        rfl
      rw [← hafter, ih h]
    · rfl

/-- A name does not end inside tokens that are nested in it. -/
theorem splitTokens_append (hequals : d.Avoids "=" ts) (us : List Token) :
    splitTokens d (ts ++ us) = (splitTokens (d.afterAll ts) us).map fun r => (ts ++ r.1, r.2) := by
  induction ts generalizing d with
  | nil => cases h : splitTokens d us <;> simp [h]
  | cons t ts ih =>
    obtain ⟨htop, hequals⟩ := Depth.avoids_cons.1 hequals
    rw [List.cons_append, splitTokens, if_neg fun h => htop h.2 h.1, ih hequals]
    cases h : splitTokens ((d.after t).afterAll ts) us <;> simp [h]

end Injection
