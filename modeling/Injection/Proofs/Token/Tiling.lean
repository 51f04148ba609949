import Injection.Token.Cursor
import Injection.Proofs.Token.Boundary
import Mathlib.Data.List.Chain

/-!
# Tokens tile their source

The tokens of a source cover it from its first byte to its last, one after the other, without a gap or an overlap, and
every one of them begins and ends between characters (`Tiles`).  A reader that finds them by counting bytes never cuts
a character, never stands still and comes to the end (`Cursor.Yields`).  Both hold of every source, unterminated
literals and comments and lone backslashes included: `tokenize_tiles`.
-/

namespace Injection

open Lexeme

variable {a : Bool} {c : Char} {cs w rest : List Char} {n : Nat}

/-! ### Bytes of a text -/

@[simp] theorem bytesOf_nil : bytesOf [] = 0 := rfl

@[simp] theorem bytesOf_cons (c : Char) (cs : List Char) : bytesOf (c :: cs) = c.utf8Size + bytesOf cs := rfl

@[simp] theorem bytesOf_append (cs ds : List Char) : bytesOf (cs ++ ds) = bytesOf cs + bytesOf ds := by
  induction cs with
  | nil => simp
  | cons c cs ih => simp [ih, Nat.add_assoc]

theorem bytesOf_eq_zero_iff : bytesOf cs = 0 ↔ cs = [] := by
  cases cs with
  | nil => simp
  | cons c cs =>
    have := c.utf8Size_pos
    simp only [bytesOf_cons, reduceCtorEq, iff_false]
    omega

theorem utf8ByteSize_ofList (cs : List Char) : (String.ofList cs).utf8ByteSize = bytesOf cs := by
  induction cs with
  | nil => rfl
  | cons c cs ih =>
    have hone : (String.ofList [c]).utf8ByteSize = c.utf8Size := by
      rw [← String.singleton_eq_ofList, String.utf8ByteSize_singleton]
    rw [← List.singleton_append, String.ofList_append, String.utf8ByteSize_append, hone, ih]
    rfl

/-! ### Cuts between characters -/

/-- A cut gives what follows some characters with just as many bytes. -/
theorem dropBytes?_eq_some_iff : dropBytes? n cs = some rest ↔ ∃ w, cs = w ++ rest ∧ bytesOf w = n := by
  fun_induction dropBytes? n cs with
  | case1 cs => simp [bytesOf_eq_zero_iff]
  | case2 n =>
    constructor
    · intro h
      cases h
    · rintro ⟨w, hw, hn⟩
      obtain ⟨rfl, -⟩ := List.append_eq_nil_iff.1 hw.symm
      simp at hn
  | case3 n c cs hc ih =>
    rw [ih]
    constructor
    · rintro ⟨w, rfl, hn⟩
      refine ⟨c :: w, rfl, ?_⟩
      rw [bytesOf_cons, hn]
      exact Nat.add_sub_cancel' hc
    · rintro ⟨w, hw, hn⟩
      cases w with
      | nil => simp at hn
      | cons d w =>
        obtain ⟨rfl, hcs⟩ := List.cons.inj hw
        rw [bytesOf_cons] at hn
        have hw' : bytesOf w = n + 1 - c.utf8Size := by omega
        exact ⟨w, hcs, hw'⟩
  | case4 n c cs hc =>
    constructor
    · intro h
      cases h
    · rintro ⟨w, hw, hn⟩
      cases w with
      | nil => simp at hn
      | cons d w =>
        obtain ⟨rfl, -⟩ := List.cons.inj hw
        rw [bytesOf_cons] at hn
        omega

/-- A cut gives characters from the start with just as many bytes. -/
theorem takeBytes?_eq_some_iff : takeBytes? n cs = some w ↔ w <+: cs ∧ bytesOf w = n := by
  fun_induction takeBytes? n cs generalizing w with
  | case1 cs =>
    rw [Option.some.injEq, bytesOf_eq_zero_iff]
    constructor
    · rintro rfl
      exact ⟨List.nil_prefix, rfl⟩
    · exact fun h => h.2.symm
  | case2 n =>
    constructor
    · intro h
      cases h
    · rintro ⟨hw, hn⟩
      rw [List.prefix_nil.1 hw] at hn
      simp at hn
  | case3 n c cs hc ih =>
    rw [Option.map_eq_some_iff]
    constructor
    · rintro ⟨w, hw, rfl⟩
      obtain ⟨hw, hn⟩ := ih.1 hw
      refine ⟨List.cons_prefix_cons.2 ⟨rfl, hw⟩, ?_⟩
      rw [bytesOf_cons]
      omega
    · rintro ⟨hw, hn⟩
      cases w with
      | nil => simp at hn
      | cons d w =>
        obtain ⟨rfl, hwcs⟩ := List.cons_prefix_cons.1 hw
        rw [bytesOf_cons] at hn
        have hw' : bytesOf w = n + 1 - d.utf8Size := by omega
        exact ⟨w, ih.2 ⟨hwcs, hw'⟩, rfl⟩
  | case4 n c cs hc =>
    constructor
    · intro h
      cases h
    · rintro ⟨hw, hn⟩
      cases w with
      | nil => simp at hn
      | cons d w =>
        obtain ⟨rfl, -⟩ := List.cons_prefix_cons.1 hw
        rw [bytesOf_cons] at hn
        omega

theorem dropBytes?_append (w rest : List Char) : dropBytes? (bytesOf w) (w ++ rest) = some rest :=
  dropBytes?_eq_some_iff.2 ⟨w, rfl, rfl⟩

/-! ### Lengths of lexemes -/

theorem runLength_eq (p : Char → Bool) (cs : List Char) : runLength p cs = bytesOf (cs.takeWhile p) := by
  induction cs with
  | nil => rfl
  | cons c cs ih =>
    by_cases hc : p c = true
    · simp [runLength, hc, ih]
    · simp [runLength, hc]

/-- A block comment reaches two bytes past the offset of its closing mark. -/
theorem bytesOf_blockCommentTail (cs : List Char) :
    bytesOf (blockCommentTail cs) = ((closingMark cs).map (· + 2)).getD (bytesOf cs) := by
  fun_induction blockCommentTail cs with
  | case1 cs => rfl
  | case2 c cs hc ih =>
    rw [bytesOf_cons, ih, closingMark]
    · cases closingMark cs with
      | none => rfl
      | some n => simp [Nat.add_assoc]
    · exact hc
  | case3 => rfl

theorem quotedLength_eq (quote : Char) (n : Nat) (cs : List Char) :
    quotedLength quote n cs = n + bytesOf (quotedTail quote cs) := by
  fun_induction quotedLength quote n cs with
  | case1 n c cs ih =>
    rw [ih, quotedTail, bytesOf_cons, bytesOf_cons]
    omega
  | case2 n cs hc => simp [quotedTail]
  | case3 n c cs hc hq ih =>
    rw [ih, quotedTail, if_neg hq, bytesOf_cons, Nat.add_assoc]
    exact hc
  | case4 => rfl

/-- The flags of a regular expression are cut out between characters. -/
theorem regexLength_eq {inSet : Bool} {text : List Char} (h : text = w ++ cs) :
    regexLength text (bytesOf w) inSet cs = some ((regexTail inSet cs).map fun tail => bytesOf w + bytesOf tail) := by
  fun_induction regexTail inSet cs generalizing w with
  | case1 inSet c cs hc => simp [regexLength, hc]
  | case2 inSet c cs hc ih =>
    have hw : bytesOf w + '\\'.utf8Size + c.utf8Size = bytesOf (w ++ ['\\', c]) := by
      simp [Nat.add_assoc]
    rw [regexLength, if_neg hc, hw, ih (by simp [h])]
    cases regexTail inSet cs with
    | none => rfl
    | some tail => simp [Nat.add_assoc]
  | case3 inSet c cs hc hend =>
    rw [regexLength, if_pos hend]
    · rfl
    · exact hc
  | case4 inSet c cs hc hend hslash =>
    obtain ⟨rfl, -⟩ : c = '/' ∧ _ := by simpa using hslash
    have hw : bytesOf w + 1 = bytesOf (w ++ ['/']) := by
      rw [bytesOf_append]
      rfl
    have htext : text = w ++ ['/'] ++ cs := by simp [h]
    have hcut : dropBytes? (bytesOf w + 1) text = some cs := by
      rw [hw, htext]
      exact dropBytes?_append _ cs
    rw [regexLength, if_neg hend, if_pos hslash, hcut]
    · rw [Option.map_some, Option.map_some, runLength_eq, bytesOf_cons, Nat.add_assoc]
      rfl
    · exact hc
  | case5 inSet c cs hc hend hslash ih =>
    have hw : bytesOf w + c.utf8Size = bytesOf (w ++ [c]) := by simp
    rw [regexLength, if_neg hend, if_neg hslash, hw, ih (by simp [h])]
    · cases regexTail (c == '[' || (inSet && c != ']')) cs with
      | none => rfl
      | some tail => simp [Nat.add_assoc]
    · exact hc
  | case6 inSet => rfl

theorem operatorLength_eq (c : Char) (cs : List Char) : operatorLength c cs = bytesOf (operatorAt c cs) := by
  unfold operatorLength operatorAt
  cases operators.find? (·.isPrefixOf (c :: cs)) with
  | none => rfl
  | some op => rfl

private theorem runLength_cons {p : Char → Bool} (hc : p c = true) (cs : List Char) :
    runLength p (c :: cs) = bytesOf (c :: cs.takeWhile p) := by
  rw [runLength_eq, List.takeWhile_cons_of_pos hc]

private theorem regexExtent_eq (a : Bool) (c : Char) (cs : List Char) : regexExtent a c cs =
    some ((if c = '/' ∧ a = true then regexTail false cs else none).map fun tail => bytesOf (c :: tail)) := by
  unfold regexExtent
  split
  · have h : regexLength (c :: cs) (bytesOf [c]) false cs =
        some ((regexTail false cs).map fun tail => bytesOf [c] + bytesOf tail) := regexLength_eq rfl
    simpa using h
  · rfl

private theorem startsFraction?_eq (c : Char) (cs : List Char) :
    startsFraction? c cs = some (decide (c = '.' ∧ cs.head?.any Char.isDigit)) := by
  unfold startsFraction?
  split
  · rename_i hc
    subst hc
    have hcut : dropBytes? 1 ('.' :: cs) = some cs := dropBytes?_append ['.'] cs
    simp [hcut]
  · rename_i hc
    simp [hc]

/-- A block comment reaches four bytes past the offset of its closing mark, counted from after the opening one. -/
private theorem bytesOf_blockComment (cs : List Char) :
    ((closingMark cs).map (· + 4)).getD (bytesOf ('/' :: '*' :: cs)) = bytesOf ('/' :: '*' :: blockCommentTail cs) := by
  have hslash : '/'.utf8Size = 1 := rfl
  have hstar : '*'.utf8Size = 1 := rfl
  rw [bytesOf_cons, bytesOf_cons, bytesOf_cons, bytesOf_cons, bytesOf_blockCommentTail, hslash, hstar]
  cases closingMark cs with
  | none => rfl
  | some n =>
    simp only [Option.map_some, Option.getD_some]
    omega

/-- The first token has the kind and the length that are found by counting bytes. -/
theorem firstExtent_eq (a : Bool) (c : Char) (cs : List Char) :
    firstExtent a c cs = some ((firstToken a c cs).kind, bytesOf (firstToken a c cs).text) := by
  unfold firstExtent firstToken
  split
  · rename_i hc
    rw [runLength_cons hc]
  split
  · rename_i hc
    obtain ⟨rfl, -⟩ := hc
    rw [runLength_cons rfl]
  split
  · rename_i hc
    obtain ⟨rfl, hhead⟩ := hc
    obtain ⟨cs, rfl⟩ := List.head?_eq_some_iff.1 hhead
    have hcut : dropBytes? 2 ('/' :: '*' :: cs) = some cs := dropBytes?_append ['/', '*'] cs
    rw [hcut, Option.map_some, List.tail_cons, bytesOf_blockComment]
  split
  · rw [quotedLength_eq, bytesOf_cons]
  split
  · rw [quotedLength_eq, bytesOf_cons]
  rw [regexExtent_eq, startsFraction?_eq, Option.bind_some, Option.map_some]
  cases if c = '/' ∧ a = true then regexTail false cs else none with
  | some tail => rfl
  | none =>
    simp only [Option.map_none, Bool.or_eq_true, decide_eq_true_eq]
    by_cases hnumber : c.isDigit = true ∨ c = '.' ∧ cs.head?.any Char.isDigit = true
    · rw [if_pos hnumber, if_pos hnumber, runLength_cons (isNumberPart_of_number hnumber)]
    rw [if_neg hnumber, if_neg hnumber]
    by_cases hidentifier : isIdentifierStart c = true
    · rw [if_pos hidentifier, if_pos hidentifier, runLength_cons (isIdentifierPart_of_start hidentifier)]
    · rw [if_neg hidentifier, if_neg hidentifier, operatorLength_eq]

/-! ### The reader comes to the end -/

/-- One step gives the first token of what is left, and the reader goes to its end. -/
theorem Cursor.next?_append_cons (before : List Char) (a : Bool) (c : Char) (cs : List Char) :
    Cursor.next? ⟨before ++ c :: cs, bytesOf before, a⟩ =
      some (some (⟨firstToken a c cs, bytesOf before⟩,
        ⟨before ++ c :: cs, bytesOf before + (firstToken a c cs).byteLength, (firstToken a c cs).regexAfter a⟩)) := by
  have htext : takeBytes? (bytesOf (firstToken a c cs).text) (c :: cs) = some (firstToken a c cs).text :=
    takeBytes?_eq_some_iff.2 ⟨firstToken_text_isPrefix a c cs, rfl⟩
  simp [Cursor.next?, dropBytes?_append, firstExtent_eq, htext, Token.byteLength]

theorem Cursor.next?_end (source : List Char) (a : Bool) : Cursor.next? ⟨source, bytesOf source, a⟩ = some none := by
  have hcut := dropBytes?_append source []
  rw [List.append_nil] at hcut
  simp [Cursor.next?, hcut]

theorem Cursor.yields_lex (before : List Char) (a : Bool) (cs : List Char) :
    Cursor.Yields ⟨before ++ cs, bytesOf before, a⟩ (placeFrom (bytesOf before) (lex a cs)) := by
  fun_induction lex a cs generalizing before with
  | case1 a =>
    rw [List.append_nil]
    exact .done (next?_end before a)
  | case2 a c cs t ih =>
    have hcut : c :: cs = t.text ++ (c :: cs).drop t.text.length :=
      List.prefix_iff_eq_append.1 (firstToken_text_isPrefix a c cs) |>.symm
    have hrest := ih (before ++ t.text)
    rw [List.append_assoc, ← hcut, bytesOf_append] at hrest
    exact .step (next?_append_cons before a c cs) hrest

/-! ### Tiles -/

/-- The tokens cover the source from one end to the other, cut at the boundaries of characters. -/
structure Tiles (source : String) (ts : List PlacedToken) : Prop where
  text_ne_nil : ∀ t ∈ ts, t.text ≠ []
  first : ∀ t ∈ ts.head?, t.start = 0
  adjacent : ts.IsChain fun t u => u.start = t.stop
  last : ∀ t ∈ ts.getLast?, t.stop = source.utf8ByteSize
  boundaries : ∀ t ∈ ts, String.Pos.Raw.IsValid source ⟨t.start⟩ ∧ String.Pos.Raw.IsValid source ⟨t.stop⟩
  slice : ∀ t ∈ ts, source.toByteArray.extract t.start t.stop = (String.ofList t.text).toByteArray
  joined : String.ofList (Token.joined (ts.map PlacedToken.toToken)) = source

theorem map_placeFrom (n : Nat) (ts : List Token) : (placeFrom n ts).map PlacedToken.toToken = ts := by
  induction ts generalizing n with
  | nil => rfl
  | cons t ts ih => rw [placeFrom, List.map_cons, ih]

/-- A placed token starts after the bytes of the tokens before it. -/
theorem start_of_mem_placeFrom {t : PlacedToken} {ts : List Token} (h : t ∈ placeFrom n ts) :
    ∃ us vs, ts = us ++ t.toToken :: vs ∧ t.start = n + bytesOf (Token.joined us) := by
  induction ts generalizing n with
  | nil => cases h
  | cons u ts ih =>
    rcases List.mem_cons.1 h with rfl | h
    · exact ⟨[], ts, rfl, rfl⟩
    · obtain ⟨us, vs, rfl, hstart⟩ := ih h
      refine ⟨u :: us, vs, rfl, ?_⟩
      rw [hstart, Token.joined_cons, bytesOf_append, ← Nat.add_assoc]
      rfl

theorem isChain_placeFrom (n : Nat) (ts : List Token) : (placeFrom n ts).IsChain fun t u => u.start = t.stop := by
  induction ts generalizing n with
  | nil => exact .nil
  | cons t ts ih =>
    refine List.isChain_cons.2 ⟨?_, ih _⟩
    intro u hu
    cases ts with
    | nil => cases hu
    | cons v ts =>
      obtain rfl := Option.some.inj hu
      rfl

theorem stop_of_getLast?_placeFrom {t : PlacedToken} {ts : List Token} (h : (placeFrom n ts).getLast? = some t) :
    t.stop = n + bytesOf (Token.joined ts) := by
  induction ts generalizing n with
  | nil => cases h
  | cons u ts ih =>
    cases ts with
    | nil =>
      obtain rfl : ⟨u, n⟩ = t := Option.some.inj h
      simp [PlacedToken.stop, Token.byteLength]
    | cons v ts =>
      rw [placeFrom, placeFrom, List.getLast?_cons_cons, ← placeFrom] at h
      rw [ih h, Token.joined_cons u, bytesOf_append, ← Nat.add_assoc]
      rfl

theorem text_ne_nil_of_mem_lex {t : Token} (h : t ∈ lex a cs) : t.text ≠ [] := by
  fun_induction lex a cs with
  | case1 => cases h
  | case2 a c cs u ih =>
    rcases List.mem_cons.1 h with rfl | h
    · exact firstToken_text_ne_nil a c cs
    · exact ih h

/-- The bytes between the first and the last of three texts. -/
theorem extract_ofList_append (u v w : List Char) :
    (String.ofList (u ++ v ++ w)).toByteArray.extract (bytesOf u) (bytesOf u + bytesOf v) =
      (String.ofList v).toByteArray := by
  have hsize (cs : List Char) : (String.ofList cs).toByteArray.size = bytesOf cs := utf8ByteSize_ofList cs
  have hbytes : (String.ofList (u ++ v ++ w)).toByteArray =
      (String.ofList u).toByteArray ++ ((String.ofList v).toByteArray ++ (String.ofList w).toByteArray) := by
    simp only [List.append_assoc, String.ofList_append, String.toByteArray_append]
  have hfrom := ByteArray.extract_append_size_add (a := (String.ofList u).toByteArray)
    (b := (String.ofList v).toByteArray ++ (String.ofList w).toByteArray) (i := 0) (j := bytesOf v)
  rw [hsize, Nat.add_zero] at hfrom
  rw [hbytes, hfrom]
  exact ByteArray.extract_append_eq_left (hsize v).symm

theorem isValid_ofList_append (u v : List Char) : String.Pos.Raw.IsValid (String.ofList (u ++ v)) ⟨bytesOf u⟩ := by
  refine String.Pos.Raw.isValid_iff_exists_append.2 ⟨String.ofList u, String.ofList v, String.ofList_append, ?_⟩
  rw [String.Pos.Raw.ext_iff, String.byteIdx_rawEndPos, utf8ByteSize_ofList]

/-- Tokens with text, placed one after the other, tile the text that they join to. -/
theorem tiles_placeFrom {ts : List Token} (hne : ∀ t ∈ ts, t.text ≠ []) :
    Tiles (String.ofList (Token.joined ts)) (placeFrom 0 ts) := by
  have hplace {t : PlacedToken} (ht : t ∈ placeFrom 0 ts) :
      ∃ u w, Token.joined ts = u ++ t.text ++ w ∧ t.start = bytesOf u ∧ t.stop = bytesOf (u ++ t.text) := by
    obtain ⟨us, vs, hts, hstart⟩ := start_of_mem_placeFrom ht
    rw [Nat.zero_add] at hstart
    refine ⟨Token.joined us, Token.joined vs, ?_, hstart, ?_⟩
    · rw [hts, Token.joined_append, Token.joined_cons, List.append_assoc]
    · rw [PlacedToken.stop, hstart, bytesOf_append]
      rfl
  constructor
  case text_ne_nil =>
    intro t ht
    have hmem := List.mem_map_of_mem (f := PlacedToken.toToken) ht
    rw [map_placeFrom] at hmem
    exact hne t.toToken hmem
  case first =>
    intro t ht
    cases ts with
    | nil => cases ht
    | cons u ts =>
      obtain rfl : ⟨u, 0⟩ = t := Option.some.inj ht
      rfl
  case adjacent => exact isChain_placeFrom 0 ts
  case last =>
    intro t ht
    rw [stop_of_getLast?_placeFrom ht, Nat.zero_add, utf8ByteSize_ofList]
  case boundaries =>
    intro t ht
    obtain ⟨u, w, hjoined, hstart, hstop⟩ := hplace ht
    rw [hstart, hstop, hjoined]
    refine ⟨?_, isValid_ofList_append (u ++ t.text) w⟩
    rw [List.append_assoc]
    exact isValid_ofList_append u (t.text ++ w)
  case slice =>
    intro t ht
    obtain ⟨u, w, hjoined, hstart, hstop⟩ := hplace ht
    rw [hstart, hstop, hjoined, bytesOf_append]
    exact extract_ofList_append u t.text w
  case joined => rw [map_placeFrom]

/-- The tokens of any source tile it, and the reader that counts bytes comes to its end with just these tokens. -/
theorem tokenize_tiles (source : String) :
    Tiles source (tokenize source) ∧ (Cursor.start source.toList).Yields (tokenize source) := by
  constructor
  · have hne : ∀ t ∈ lex true source.toList, t.text ≠ [] := fun t => text_ne_nil_of_mem_lex
    have htiles := tiles_placeFrom hne
    rw [joined_lex, String.ofList_toList] at htiles
    exact htiles
  · exact Cursor.yields_lex [] true source.toList

end Injection
