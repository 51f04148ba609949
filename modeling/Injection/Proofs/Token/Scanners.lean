import Injection.Token.Lexeme
import Mathlib.Data.List.Find
import Mathlib.Tactic.IntervalCases

/-!
# What a scanner has to see

A scanner reads some part of the text that it is given.  If the text is cut after that part, the scanner still reads
it.  If the text is continued, by a character at which the scanner stops, it reads no more than before.  A literal or
comment that is closed does not depend on what follows at all.
-/

namespace Injection

namespace Lexeme

variable {p : Char → Bool} {quote c d : Char} {w cs cs' ds : List Char}

/-! ### White space -/

private theorem whiteSpace_alphabetic : ∀ r ∈ whiteSpaceRanges, ∀ q ∈ alphabeticRanges, r.2 < q.1 ∨ q.2 < r.1 := by
  decide +kernel

private theorem whiteSpace_numeric : ∀ r ∈ whiteSpaceRanges, ∀ q ∈ numericRanges, r.2 < q.1 ∨ q.2 < r.1 := by
  decide +kernel

private theorem isIdentifierPart_of_toNat {n : Nat} (h : n = 32 ∨ 9 ≤ n ∧ n ≤ 13) :
    isIdentifierPart (Char.ofNat n) = false := by
  rcases h with rfl | ⟨h, h'⟩
  · rfl
  · interval_cases n <;> rfl

/-- White space is part of no identifier. -/
theorem isIdentifierPart_of_isWhiteSpace (h : isWhiteSpace c = true) : isIdentifierPart c = false := by
  unfold isWhiteSpace at h
  split at h
  · have hc : c.toNat = 32 ∨ 9 ≤ c.toNat ∧ c.toNat ≤ 13 := by
      simp only [Bool.or_eq_true, beq_iff_eq, Bool.and_eq_true, decide_eq_true_eq] at h
      exact h.imp (fun h => by rw [h]; rfl) id
    have := isIdentifierPart_of_toNat hc
    rwa [Char.ofNat_toNat] at this
  · rename_i hascii
    have hne : c ≠ '_' ∧ c ≠ '$' := by
      constructor <;> (rintro rfl; exact hascii (by decide))
    simp [isIdentifierPart, isAlphabetic, isNumeric, hascii, Ranges.covers_eq_false whiteSpace_alphabetic h,
      Ranges.covers_eq_false whiteSpace_numeric h, hne]

theorem isWhiteSpace_of_isLineEnd (h : isLineEnd c = true) : isWhiteSpace c = true := by
  simp only [isLineEnd, Bool.or_eq_true, beq_iff_eq] at h
  rcases h with rfl | rfl <;> rfl

/-! ### Runs of characters -/

theorem isNumberPart_of_number (hc : c.isDigit = true ∨ (c = '.' ∧ cs.head?.any Char.isDigit)) :
    isNumberPart c = true := by
  rcases hc with hc | ⟨rfl, -⟩
  · simp [isNumberPart, Char.isAlphanum, hc]
  · rfl

theorem isIdentifierPart_of_start (hc : isIdentifierStart c = true) : isIdentifierPart c = true := by
  simp only [isIdentifierStart, Bool.or_eq_true] at hc
  rcases hc with (hc | hc) | hc <;> simp [isIdentifierPart, hc]

theorem head?_takeWhile_of_pos (h : cs.head? = some c) (hc : p c = true) : (cs.takeWhile p).head? = some c := by
  rw [List.head?_takeWhile, h]
  simp [hc]

theorem takeWhile_append_eq_left_iff {rest : List Char} :
    (w ++ rest).takeWhile p = w ↔ (∀ x ∈ w, p x = true) ∧ ∀ x, rest.head? = some x → p x = false := by
  induction w with
  | nil =>
    cases rest with
    | nil => simp
    | cons y rest => cases hy : p y <;> simp [hy]
  | cons x w ih => cases hx : p x <;> simp [hx, ih]

theorem takeWhile_cut (h : cs.takeWhile p = w) (hw : w <+: cs') (hcs : cs' <+: cs) : cs'.takeWhile p = w := by
  obtain ⟨ds, rfl⟩ := hcs
  rw [List.takeWhile_append] at h
  split at h
  -- if all of the shorter text passes, then what was taken ends with it
  · rename_i hlen
    have hall : cs'.takeWhile p = cs' := (List.takeWhile_prefix p).eq_of_length hlen
    rw [hall]
    refine List.IsPrefix.eq_of_length ?_ ?_
    · exact ⟨_, h⟩
    · have := congrArg List.length h
      have := hw.length_le
      simp only [List.length_append] at *
      omega
  · exact h

theorem takeWhile_extend (h : cs.takeWhile p = w) (hd : p d = false) : (cs ++ d :: ds).takeWhile p = w := by
  rw [List.takeWhile_append, h]
  split
  · rename_i hlen
    have hall : w = cs := h ▸ (List.takeWhile_prefix p).eq_of_length (by rw [h]; exact hlen)
    simp [hd, hall]
  · rfl

/-! ### Comments and literals -/

/-- A block comment either runs to the end of the text or is closed before what follows. -/
theorem blockCommentTail_closed (cs : List Char) :
    blockCommentTail cs = cs ∨ ∀ ds, blockCommentTail (blockCommentTail cs ++ ds) = blockCommentTail cs := by
  fun_induction blockCommentTail cs with
  | case1 cs => exact .inr fun ds => rfl
  | case2 c cs hc ih =>
    refine ih.imp (congrArg (c :: ·)) fun h ds => ?_
    rw [List.cons_append, blockCommentTail, h]
    -- a closing mark here would have been the first one
    intro rest hstar heq
    cases hr : blockCommentTail cs with
    | nil => simpa [hr, blockCommentTail] using h ['x']
    | cons d r =>
      obtain ⟨tail, htail⟩ := blockCommentTail_isPrefix cs
      rw [hr] at heq htail
      obtain ⟨rfl, -⟩ := List.cons.inj heq
      exact hc _ hstar htail.symm
  | case3 => exact .inl rfl

/-- Whether the text, which stands after an opening quote, ends with the quote that closes it. -/
def closes (quote : Char) : List Char → Bool
  | '\\' :: _ :: cs => closes quote cs
  | [c] => c == quote
  | c :: cs => c != quote && closes quote cs
  | [] => false

theorem quotedTail_of_closes (hq : quote ≠ '\\') (h : closes quote w = true) (ds : List Char) :
    quotedTail quote (w ++ ds) = w := by
  fun_induction closes quote w with
  | case1 c cs ih => simp [quotedTail, ih h]
  | case2 c =>
    obtain rfl := beq_iff_eq.1 h
    simp [quotedTail, hq]
  | case3 c cs hescape hne ih =>
    simp only [Bool.and_eq_true, bne_iff_ne] at h
    cases cs with
    | nil => simp at hne
    | cons d cs =>
      have hc : c ≠ '\\' := fun hc => hescape d cs hc rfl
      rw [List.cons_append, quotedTail, ih h.2, if_neg h.1]
      intro c' cs' hc'
      exact absurd hc' hc
  | case4 => simp at h

/-- A literal either runs to the end of the text or is closed. -/
theorem quotedTail_closes (quote : Char) (cs : List Char) :
    quotedTail quote cs = cs ∨ closes quote (quotedTail quote cs) = true := by
  fun_induction quotedTail quote cs with
  | case1 c cs ih => simpa [closes] using ih
  | case2 cs => simp [closes]
  | case3 c cs hescape hc ih =>
    refine ih.imp (congrArg (c :: ·)) fun h => ?_
    cases hr : quotedTail quote cs with
    | nil => simp [hr, closes] at h
    | cons d r =>
      rw [hr] at h
      obtain ⟨tail, htail⟩ := quotedTail_isPrefix quote cs
      rw [hr] at htail
      have hc' : c ≠ '\\' := fun hc' => hescape d _ hc' htail.symm
      rw [closes]
      · simp [hc, h]
      · intro x xs hx
        exact absurd hx hc'
      · simp
  | case4 => exact .inl rfl

/-- What only depends on whether it is closed is read from every cut after it. -/
private theorem cut_of_closed {f : List Char → List Char} (hf : f cs = cs ∨ ∀ ds, f (f cs ++ ds) = f cs)
    (h : f cs = w) (hw : w <+: cs') (hcs : cs' <+: cs) : f cs' = w := by
  subst h
  rcases hf with hf | hf
  · rw [hf] at hw ⊢
    rw [hcs.eq_of_length (Nat.le_antisymm hcs.length_le hw.length_le), hf]
  · obtain ⟨ds, rfl⟩ := hw
    exact hf ds

theorem blockCommentTail_cut (h : blockCommentTail cs = w) (hw : w <+: cs') (hcs : cs' <+: cs) :
    blockCommentTail cs' = w :=
  cut_of_closed (blockCommentTail_closed cs) h hw hcs

theorem quotedTail_cut (hq : quote ≠ '\\') (h : quotedTail quote cs = w) (hw : w <+: cs') (hcs : cs' <+: cs) :
    quotedTail quote cs' = w :=
  cut_of_closed ((quotedTail_closes quote cs).imp id (quotedTail_of_closes hq)) h hw hcs

/-- A literal that is closed does not see what is added. -/
theorem quotedTail_extend (hq : quote ≠ '\\') (h : closes quote (quotedTail quote cs) = true) :
    quotedTail quote (cs ++ ds) = quotedTail quote cs := by
  obtain ⟨es, hes⟩ := quotedTail_isPrefix quote cs
  have := quotedTail_of_closes hq h (es ++ ds)
  rwa [← List.append_assoc, hes] at this

/-! ### Regular expressions -/

theorem regexTail_cons {inSet : Bool} (hc : ¬ (c = '\\' || isLineEnd c) = true) (cs : List Char) :
    regexTail inSet (c :: cs) =
      if c = '/' && !inSet then some (c :: cs.takeWhile isIdentifierPart)
      else (regexTail (c == '[' || (inSet && c != ']')) cs).map fun r => c :: r := by
  rw [regexTail, if_neg hc]
  rintro d ds rfl
  simp at hc

/-- A regular expression that is closed is closed in every longer text. -/
theorem regexTail_isSome_of_isPrefix {inSet : Bool} (h : (regexTail inSet cs).isSome) (hcs : cs <+: cs') :
    (regexTail inSet cs').isSome := by
  obtain ⟨ds, rfl⟩ := hcs
  fun_induction regexTail inSet cs with
  | case1 => simp at h
  | case2 inSet c cs hc ih => simpa [regexTail, hc] using ih (by simpa using h)
  | case3 => simp at h
  | case4 inSet c cs _ hc hslash => rw [List.cons_append, regexTail_cons hc, if_pos hslash]; rfl
  | case5 inSet c cs _ hc hslash ih =>
    rw [List.cons_append, regexTail_cons hc, if_neg hslash]
    simpa using ih (by simpa using h)
  | case6 => simp at h

theorem regexTail_cut {inSet : Bool} (h : regexTail inSet cs = some w) (hw : w <+: cs') (hcs : cs' <+: cs) :
    regexTail inSet cs' = some w := by
  fun_induction regexTail inSet cs generalizing w cs' with
  | case1 => simp at h
  | case2 inSet c cs hc ih =>
    obtain ⟨r, hr, rfl⟩ := Option.map_eq_some_iff.1 h
    obtain ⟨ds, rfl⟩ := hw
    simp only [List.cons_append, List.cons_prefix_cons, true_and] at hcs
    simp [regexTail, hc, ih hr (List.prefix_append r ds) hcs]
  | case3 => simp at h
  | case4 inSet c cs _ hc hslash =>
    obtain rfl := Option.some.inj h
    obtain ⟨ds, rfl⟩ := hw
    rw [List.cons_append, List.cons_prefix_cons] at hcs
    rw [List.cons_append, regexTail_cons hc, if_pos hslash, takeWhile_cut rfl (List.prefix_append ..) hcs.2]
  | case5 inSet c cs _ hc hslash ih =>
    obtain ⟨r, hr, rfl⟩ := Option.map_eq_some_iff.1 h
    obtain ⟨ds, rfl⟩ := hw
    rw [List.cons_append, List.cons_prefix_cons] at hcs
    rw [List.cons_append, regexTail_cons hc, if_neg hslash, ih hr (List.prefix_append r ds) hcs.2]
    rfl
  | case6 => simp at h

theorem regexTail_extend {inSet : Bool} (h : regexTail inSet cs = some w) (hd : isIdentifierPart d = false) :
    regexTail inSet (cs ++ d :: ds) = some w := by
  fun_induction regexTail inSet cs generalizing w with
  | case1 => simp at h
  | case2 inSet c cs hc ih =>
    obtain ⟨r, hr, rfl⟩ := Option.map_eq_some_iff.1 h
    simp [regexTail, hc, ih hr]
  | case3 => simp at h
  | case4 inSet c cs _ hc hslash =>
    obtain rfl := Option.some.inj h
    rw [List.cons_append, regexTail_cons hc, if_pos hslash, takeWhile_extend rfl hd]
  | case5 inSet c cs _ hc hslash ih =>
    obtain ⟨r, hr, rfl⟩ := Option.map_eq_some_iff.1 h
    rw [List.cons_append, regexTail_cons hc, if_neg hslash, ih hr]
    rfl
  | case6 => simp at h

/-- A regular expression that is not closed before the end of its line is not closed by what comes after. -/
theorem regexTail_eq_none_of_isLineEnd {inSet : Bool} (h : regexTail inSet cs = none) (hd : isLineEnd d = true) :
    regexTail inSet (cs ++ d :: ds) = none := by
  fun_induction regexTail inSet cs with
  | case1 inSet c cs hc => simp [regexTail, hc]
  | case2 inSet c cs hc ih =>
    have hrest := ih (Option.map_eq_none_iff.1 h)
    simp [regexTail, hc, hrest]
  | case3 inSet c cs hescape hc =>
    simp only [Bool.or_eq_true, decide_eq_true_eq] at hc
    rcases hc with rfl | hc
    -- a backslash does not escape the end of the line
    · cases cs with
      | nil => simp [regexTail, hd]
      | cons e es => exact absurd rfl (hescape e es rfl)
    · rw [List.cons_append, regexTail]
      · simp [hc]
      · rintro e es rfl
        exact absurd hc (by decide)
  | case4 => simp at h
  | case5 inSet c cs _ hc hslash ih =>
    have hrest := ih (Option.map_eq_none_iff.1 h)
    rw [List.cons_append, regexTail_cons hc, if_neg hslash, hrest]
    rfl
  | case6 inSet =>
    rw [List.nil_append, regexTail]
    · simp [hd]
    · rintro e es rfl
      exact absurd hd (by decide)

/-! ### Operators -/

theorem operatorAt_cut (h : operatorAt c cs = c :: w) (hw : w <+: cs') (hcs : cs' <+: cs) :
    operatorAt c cs' = c :: w := by
  unfold operatorAt at h ⊢
  have hshort {op : List Char} (hop : op.isPrefixOf (c :: cs') = true) : op.isPrefixOf (c :: cs) = true := by
    rw [List.isPrefixOf_iff_prefix] at hop ⊢
    exact hop.trans (List.cons_prefix_cons.2 ⟨rfl, hcs⟩)
  cases hfind : operators.find? (·.isPrefixOf (c :: cs)) with
  | none =>
    rw [hfind] at h
    have hnone : operators.find? (·.isPrefixOf (c :: cs')) = none := by
      rw [List.find?_eq_none] at hfind ⊢
      exact fun op hop hp => hfind op hop (hshort hp)
    rw [hnone]
    exact h
  | some op =>
    rw [hfind] at h
    obtain rfl : op = c :: w := h
    obtain ⟨-, before, after, hops, hbefore⟩ := List.find?_eq_some_iff_append.1 hfind
    have hsome : operators.find? (·.isPrefixOf (c :: cs')) = some (c :: w) := by
      refine List.find?_eq_some_iff_append.2 ⟨?_, before, after, hops, fun op hop => ?_⟩
      · exact List.isPrefixOf_iff_prefix.2 (List.cons_prefix_cons.2 ⟨rfl, hw⟩)
      -- an operator that comes earlier and fits now would have fitted before
      · have := hbefore op hop
        simp only [Bool.not_eq_true'] at this ⊢
        exact Bool.eq_false_iff.2 fun hp => Bool.eq_false_iff.1 this (hshort hp)
    rw [hsome]
    rfl

theorem isWhiteSpace_of_mem_operators : ∀ op ∈ operators, ∀ x ∈ op, isWhiteSpace x = false := by
  have hall : (operators.all fun op => op.all fun x => !isWhiteSpace x) = true := by decide
  intro op hop x hx
  simpa using List.all_eq_true.1 (List.all_eq_true.1 hall op hop) x hx

private theorem prefix_of_notMem {op cs : List Char} (hd : d ∉ op) (h : op <+: cs ++ d :: ds) : op <+: cs := by
  rcases List.prefix_or_prefix_of_prefix h (List.prefix_append cs (d :: ds)) with hop | ⟨es, rfl⟩
  · exact hop
  · rw [List.prefix_append_right_inj] at h
    cases es with
    | nil => simp
    | cons e es =>
      obtain ⟨rfl, -⟩ := List.cons_prefix_cons.1 h
      simp at hd

/-- No operator goes past a character that is part of none. -/
theorem operatorAt_extend (hd : ∀ op ∈ operators, d ∉ op) : operatorAt c (cs ++ d :: ds) = operatorAt c cs := by
  unfold operatorAt
  rw [List.find?_congr]
  intro op hop
  rw [Bool.eq_iff_iff, List.isPrefixOf_iff_prefix, List.isPrefixOf_iff_prefix, ← List.cons_append]
  exact ⟨prefix_of_notMem (hd op hop), fun h => h.trans (List.prefix_append (c :: cs) (d :: ds))⟩

end Lexeme

end Injection
