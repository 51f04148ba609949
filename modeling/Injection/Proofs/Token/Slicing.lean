import Injection.Proofs.Token.RegularExpression
import Injection.Proofs.Token.Tiling

/-!
# Slices

A text that is cut out of a source, from where one token begins to where another ends, has just the tokens that stand
there in the source (`tokenize_slice`), be the source malformed or not.  The cut at the end never matters.  The cut at
the start loses the tokens before it, and with them whether a slash may open a regular expression, so that has to be the
case there, or the first significant token must not begin with a slash.
-/

namespace Injection

variable {source : String} {p e n : Nat} {t : PlacedToken} {us ts vs : List Token}

/-! ### Boundaries -/

/-- A token begins at the byte offset, or the source ends there. -/
def IsBoundary (source : String) (p : Nat) : Prop :=
  p = source.utf8ByteSize ∨ ∃ t ∈ tokenize source, t.start = p

instance (source : String) (p : Nat) : Decidable (IsBoundary source p) :=
  inferInstanceAs (Decidable (p = source.utf8ByteSize ∨ ∃ t ∈ tokenize source, t.start = p))

/-- The tokens that end at the byte offset or before it. -/
def tokensBefore (source : String) (p : Nat) : List PlacedToken :=
  (tokenize source).filter (·.stop ≤ p)

/-- The tokens that begin at the byte offset or after it. -/
def tokensFrom (source : String) (p : Nat) : List PlacedToken :=
  (tokenize source).filter (p ≤ ·.start)

/-- The tokens between two byte offsets. -/
def tokensBetween (source : String) (p e : Nat) : List PlacedToken :=
  (tokensFrom source p).filter (·.stop ≤ e)

/-- The token in a text that lacks the first `p` bytes. -/
def PlacedToken.back (p : Nat) (t : PlacedToken) : PlacedToken :=
  { t with start := t.start - p }

/-! ### Tokens placed after others -/

theorem placeFrom_append (n : Nat) (us ts : List Token) :
    placeFrom n (us ++ ts) = placeFrom n us ++ placeFrom (n + bytesOf (Token.joined us)) ts := by
  induction us generalizing n with
  | nil => rfl
  | cons u us ih =>
    rw [List.cons_append, placeFrom, placeFrom, ih, Token.joined_cons, bytesOf_append, ← Nat.add_assoc]
    rfl

theorem map_back_placeFrom (p n : Nat) (ts : List Token) :
    (placeFrom (p + n) ts).map (PlacedToken.back p) = placeFrom n ts := by
  induction ts generalizing n with
  | nil => rfl
  | cons t ts ih =>
    rw [placeFrom, placeFrom, List.map_cons, Nat.add_assoc, ih]
    simp [PlacedToken.back]

theorem le_start_of_mem_placeFrom (h : t ∈ placeFrom n ts) : n ≤ t.start := by
  obtain ⟨us, vs, -, hstart⟩ := start_of_mem_placeFrom h
  omega

theorem stop_le_of_mem_placeFrom (h : t ∈ placeFrom n ts) : t.stop ≤ n + bytesOf (Token.joined ts) := by
  obtain ⟨us, vs, rfl, hstart⟩ := start_of_mem_placeFrom h
  rw [PlacedToken.stop, hstart, Token.joined_append, Token.joined_cons, bytesOf_append, bytesOf_append,
    Token.byteLength]
  omega

theorem start_lt_stop_of_mem_placeFrom (hne : ∀ u ∈ ts, u.text ≠ []) (h : t ∈ placeFrom n ts) : t.start < t.stop := by
  obtain ⟨us, vs, rfl, -⟩ := start_of_mem_placeFrom h
  have htext : bytesOf t.text ≠ 0 := mt bytesOf_eq_zero_iff.1 (hne t.toToken (by simp))
  rw [PlacedToken.stop, Token.byteLength]
  omega

/-- Tokens that end at the byte offset or before it are kept, -/
theorem filter_stop_placeFrom (h : n + bytesOf (Token.joined ts) ≤ e) :
    (placeFrom n ts).filter (·.stop ≤ e) = placeFrom n ts := by
  refine List.filter_eq_self.2 fun t ht => ?_
  simpa using (stop_le_of_mem_placeFrom ht).trans h

/-- and those that begin there or after it are not. -/
theorem filter_stop_placeFrom_of_le (hne : ∀ u ∈ ts, u.text ≠ []) (h : e ≤ n) :
    (placeFrom n ts).filter (·.stop ≤ e) = [] := by
  refine List.filter_eq_nil_iff.2 fun t ht => ?_
  have := le_start_of_mem_placeFrom ht
  have := start_lt_stop_of_mem_placeFrom hne ht
  simp only [decide_eq_true_eq]
  omega

/-! ### The tokens around a boundary -/

/-- A text split where a token begins. -/
structure SplitAt (source : String) (p : Nat) (us vs : List Token) : Prop where
  tokens : tokens source.toList = us ++ vs
  bytes : bytesOf (Token.joined us) = p

theorem text_ne_nil_of_mem_tokens {u : Token} (h : u ∈ tokens source.toList) : u.text ≠ [] :=
  text_ne_nil_of_mem_lex h

theorem IsBoundary.exists_splitAt (h : IsBoundary source p) : ∃ us vs, SplitAt source p us vs := by
  rcases h with rfl | ⟨t, ht, rfl⟩
  · refine ⟨tokens source.toList, [], (List.append_nil _).symm, ?_⟩
    rw [joined_tokens, ← utf8ByteSize_ofList, String.ofList_toList]
  · obtain ⟨us, vs, heq, hstart⟩ := start_of_mem_placeFrom ht
    exact ⟨us, t.toToken :: vs, heq, by rw [hstart, Nat.zero_add]⟩

namespace SplitAt

variable {us' vs' : List Token}

theorem text_ne_nil (h : SplitAt source p us vs) : ∀ u ∈ us ++ vs, u.text ≠ [] :=
  fun _ hu => text_ne_nil_of_mem_tokens (h.tokens ▸ hu)

/-- Of two boundaries the later one comes after more tokens. -/
theorem exists_between (h : SplitAt source p us vs) (h' : SplitAt source e us' vs') (hle : p ≤ e) :
    ∃ ts, us' = us ++ ts ∧ vs = ts ++ vs' := by
  rcases List.append_eq_append_iff.1 (h.tokens.symm.trans h'.tokens) with ⟨ts, rfl, rfl⟩ | ⟨ts, rfl, rfl⟩
  · exact ⟨ts, rfl, rfl⟩
  · have hbytes := h.bytes
    rw [Token.joined_append, bytesOf_append, h'.bytes] at hbytes
    have hempty : bytesOf (Token.joined ts) = 0 := by omega
    cases ts with
    | nil => exact ⟨[], by simp, rfl⟩
    | cons t ts =>
      rw [Token.joined_cons, bytesOf_append] at hempty
      exact absurd (bytesOf_eq_zero_iff.1 (by omega)) (h.text_ne_nil t (by simp))

theorem tokenize_eq (h : SplitAt source p us vs) : tokenize source = placeFrom 0 us ++ placeFrom p vs := by
  rw [tokenize, h.tokens, placeFrom_append, Nat.zero_add, h.bytes]

theorem tokensBefore_eq (h : SplitAt source p us vs) : tokensBefore source p = placeFrom 0 us := by
  have hvs : ∀ u ∈ vs, u.text ≠ [] := fun u hu => h.text_ne_nil u (List.mem_append_right _ hu)
  rw [tokensBefore, h.tokenize_eq, List.filter_append, filter_stop_placeFrom (by rw [Nat.zero_add, h.bytes]),
    filter_stop_placeFrom_of_le hvs le_rfl, List.append_nil]

theorem tokensFrom_eq (h : SplitAt source p us vs) : tokensFrom source p = placeFrom p vs := by
  have hus : ∀ t ∈ placeFrom 0 us, ¬ decide (p ≤ t.start) = true := by
    intro t ht
    have := stop_le_of_mem_placeFrom ht
    have := start_lt_stop_of_mem_placeFrom (fun u hu => h.text_ne_nil u (List.mem_append_left _ hu)) ht
    have := h.bytes
    simp only [decide_eq_true_eq]
    omega
  have hvs : ∀ t ∈ placeFrom p vs, decide (p ≤ t.start) = true := by
    intro t ht
    simpa using le_start_of_mem_placeFrom ht
  rw [tokensFrom, h.tokenize_eq, List.filter_append, List.filter_eq_nil_iff.2 hus, List.filter_eq_self.2 hvs,
    List.nil_append]

theorem tokensBetween_eq (h : SplitAt source p us (ts ++ vs)) (h' : SplitAt source e (us ++ ts) vs) :
    tokensBetween source p e = placeFrom p ts := by
  have he : p + bytesOf (Token.joined ts) = e := by
    rw [← h.bytes, ← h'.bytes, Token.joined_append, bytesOf_append]
  have hvs : ∀ u ∈ vs, u.text ≠ [] := fun u hu => h'.text_ne_nil u (List.mem_append_right _ hu)
  rw [tokensBetween, h.tokensFrom_eq, placeFrom_append, he, List.filter_append, filter_stop_placeFrom he.le,
    filter_stop_placeFrom_of_le hvs le_rfl, List.append_nil]

end SplitAt

/-! ### The tokens of a slice -/

/-- Tokens among others are read from their own text. -/
theorem tokens_joined_of_slice {cs : List Char} (h : tokens cs = us ++ ts ++ vs)
    (hslash : (significant us).getLast?.all Token.precedesExpression = true ∨
      ∀ t ∈ (significant (ts ++ vs)).head?, t.text.head? ≠ some '/') :
    tokens (Token.joined ts) = ts := by
  have hlexes : Lexes [] true (us ++ ts ++ vs) := h ▸ lexes_lex true cs
  have hslice := hlexes.slice
  rw [Token.regexAfterAll_eq] at hslice
  rcases hslash with hallowed | hfirst
  · rw [hallowed] at hslice
    exact hslice.lex_joined
  · refine (hslice.congr (fun t ht => hfirst t ?_) true).lex_joined
    rw [significant, List.head?_filter, List.find?_append, ht]
    rfl

/-- A text cut out between two boundaries has the tokens that the source has there. -/
theorem tokenize_slice (source : String) {p e : Nat} (hp : IsBoundary source p) (he : IsBoundary source e) (hle : p ≤ e)
    (hslash : (significant ((tokensBefore source p).map PlacedToken.toToken)).getLast?.all
        Token.precedesExpression = true ∨
      ∀ t ∈ (significant ((tokensFrom source p).map PlacedToken.toToken)).head?, t.text.head? ≠ some '/') :
    ∃ slice : String, slice.toByteArray = source.toByteArray.extract p e ∧
      tokenize slice = (tokensBetween source p e).map (PlacedToken.back p) := by
  obtain ⟨us, rest, hus⟩ := hp.exists_splitAt
  obtain ⟨us', vs, hvs⟩ := he.exists_splitAt
  obtain ⟨ts, rfl, rfl⟩ := hus.exists_between hvs hle
  rw [hus.tokensBefore_eq, hus.tokensFrom_eq, map_placeFrom, map_placeFrom] at hslash
  have htokens : tokens source.toList = us ++ ts ++ vs := hvs.tokens
  have hsource : source = String.ofList (Token.joined us ++ Token.joined ts ++ Token.joined vs) := by
    rw [← Token.joined_append, ← Token.joined_append, ← htokens, joined_tokens, String.ofList_toList]
  refine ⟨String.ofList (Token.joined ts), ?_, ?_⟩
  · have hbytes := extract_ofList_append (Token.joined us) (Token.joined ts) (Token.joined vs)
    rw [← hsource, ← bytesOf_append, ← Token.joined_append, hus.bytes, hvs.bytes] at hbytes
    exact hbytes.symm
  · rw [tokenize, String.toList_ofList, tokens_joined_of_slice htokens hslash, hus.tokensBetween_eq hvs]
    exact (map_back_placeFrom p 0 ts).symm

/-- Division, a regular expression after a comma, and a string that nothing closes. -/
def unclosedAtEnd : String :=
  "é = a / b, /[,/]/g + \"/"

/-- At the comma no regular expression is allowed, but the one after it is read all the same, and the string is cut
off. -/
theorem tokenize_slice_unclosedAtEnd :
    IsBoundary unclosedAtEnd 10 ∧ IsBoundary unclosedAtEnd 19 ∧
      (∀ t ∈ (significant ((tokensFrom unclosedAtEnd 10).map PlacedToken.toToken)).head?, t.text.head? ≠ some '/') ∧
      ∃ slice : String, slice.toByteArray = unclosedAtEnd.toByteArray.extract 10 19 ∧ tokenize slice =
        [⟨⟨.punctuator, [',']⟩, 0⟩, ⟨⟨.whitespace, [' ']⟩, 1⟩, ⟨⟨.regex, "/[,/]/g".toList⟩, 2⟩] := by
  have hp : IsBoundary unclosedAtEnd 10 := by decide +kernel
  have he : IsBoundary unclosedAtEnd 19 := by decide +kernel
  have hfirst : ∀ t ∈ (significant ((tokensFrom unclosedAtEnd 10).map PlacedToken.toToken)).head?,
      t.text.head? ≠ some '/' := by
    decide +kernel
  obtain ⟨slice, hslice, htokens⟩ := tokenize_slice unclosedAtEnd hp he (by decide) (.inr hfirst)
  have hbetween : (tokensBetween unclosedAtEnd 10 19).map (PlacedToken.back 10) =
      [⟨⟨.punctuator, [',']⟩, 0⟩, ⟨⟨.whitespace, [' ']⟩, 1⟩, ⟨⟨.regex, "/[,/]/g".toList⟩, 2⟩] := by
    decide +kernel
  exact ⟨hp, he, hfirst, slice, hslice, htokens.trans hbetween⟩

end Injection
