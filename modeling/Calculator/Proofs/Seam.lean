import Calculator.Proofs.Segmentation

/-!
# Texts Put Together

What becomes of the tokens of two texts when one text is put behind the other. Where no run goes
on across the seam, the tokens are those of the first text and behind them those of the second,
moved by the length of the first. Where blanks meet, two gaps become one; a gap says nothing and
has no defects, so outside of gaps the same holds then. Only where digits meet, two tokens become
another one.

* `Token.solid` — the tokens of a text that are no gaps;
* `Token.solid_append` — those of two texts put together;
* `Sentence.tokens_ofText_append`, `Token.defects_scan_append` — what this says about the sentence
  and the defects of a line.
-/

namespace Calculator

/-- Digits meet where the text `a` is followed by the text `b`. -/
def DigitsMeet (a b : List Char) : Prop :=
  ∃ c ∈ a.getLast?, ∃ d ∈ b.head?, c.isDigit = true ∧ d.isDigit = true

/-- Digits do not meet where the first text does not end in one. -/
theorem not_digitsMeet_of_getLast {a b : List Char} (h : ∀ c ∈ a.getLast?, c.isDigit = false) :
    ¬ DigitsMeet a b := by
  rintro ⟨c, hc, -, -, hdigit, -⟩
  simp [h c hc] at hdigit

/-- Digits do not meet where the second text does not begin with one. -/
theorem not_digitsMeet_of_head {a b : List Char} (h : ∀ d ∈ b.head?, d.isDigit = false) :
    ¬ DigitsMeet a b := by
  rintro ⟨-, -, d, hd, -, hdigit⟩
  simp [h d hd] at hdigit

/-! ### Moving tokens -/

namespace Token

variable {f g : Nat → Nat}

/-- Moving twice is moving once. -/
theorem relocate_relocate (t : Token) : (t.relocate g).relocate f = t.relocate (f ∘ g) := rfl

/-- Moving twice is moving once, also for functions. -/
theorem relocate_comp : relocate f ∘ relocate g = relocate (f ∘ g) := rfl

/-- What is wrong with a token does not depend on its place, and is moved with it. -/
theorem defect?_relocate (t : Token) :
    (t.relocate g).defect? = t.defect?.map (Diagnostic.relocate g) := by
  simp only [defect?, kind_relocate, text_relocate, value_relocate, position_relocate]
  split <;> rfl

/-- What is wrong with tokens is moved with them. -/
theorem defects_map_relocate (ts : List Token) :
    defects (ts.map (relocate g)) = (defects ts).map (Diagnostic.relocate g) := by
  rw [defects, defects, List.filterMap_map, List.map_filterMap]
  exact List.filterMap_congr fun t _ => t.defect?_relocate

/-- Pieces are spread one behind the other, so those of a second list start where the first list
stops. -/
theorem spread_append (position : Nat) (xs ys : List (List Char)) :
    spread position (xs ++ ys) =
      spread position xs ++ spread (position + byteSize xs.flatten) ys := by
  induction xs generalizing position with
  | nil => simp [spread]
  | cons x xs ih => simp [spread, ih, Nat.add_assoc]

/-- Where the pieces start does not matter, except that all their tokens are moved by it. -/
theorem map_relocate_spread (n position : Nat) (pieces : List (List Char)) :
    (spread position pieces).map (relocate (n + ·)) = spread (n + position) pieces := by
  induction pieces generalizing position with
  | nil => rfl
  | cons piece pieces ih =>
      rw [spread, List.map_cons, ih, ← Nat.add_assoc]
      rfl

/-! ### Tokens that are no gaps -/

/-- The **solid** tokens of a text, which are no gaps. -/
def solid (text : List Char) : List Token :=
  (spread 0 (lexemes text)).filter (·.kind ≠ .blank)

/-- One piece is solid unless it is a blank. -/
theorem solid_of_isLexeme {lexeme : List Char} (h : IsLexeme lexeme) :
    solid lexeme = [ofLexeme 0 lexeme].filter (·.kind ≠ .blank) := by
  rw [solid, lexemes_of_isLexeme h]
  rfl

/-- The kind of a piece is that of its first characters. -/
theorem kind_ofLexeme_append {a : List Char} (h : a ≠ []) (b : List Char)
    (position : Nat) : (ofLexeme position (a ++ b)).kind = (ofLexeme position a).kind := by
  cases a with
  | nil => exact absurd rfl h
  | cons => rfl

/-- **The solid tokens of two texts put together.** Blanks that meet at the seam become one gap,
and gaps are left out. -/
theorem solid_append {a b : List Char} (h : ¬ DigitsMeet a b) :
    solid (a ++ b) = solid a ++ (solid b).map (relocate (byteSize a + ·)) := by
  have hmoved : (solid b).map (relocate (byteSize a + ·)) =
      (spread (byteSize a) (lexemes b)).filter (·.kind ≠ .blank) := by
    rw [← Nat.add_zero (byteSize a), ← map_relocate_spread, List.filter_map]
    rfl
  rw [hmoved]
  by_cases hseam : ∃ c ∈ a.getLast?, ∃ d ∈ b.head?, joins c d = true
  · obtain ⟨c, hc, d, hd, hjoins⟩ := hseam
    obtain ⟨before, last, first, after, ha, hb, hclast, hdfirst, hab⟩ :=
      lexemes_append_of_joins hc hd hjoins
    obtain ⟨hrun, heq⟩ := joins_iff.mp hjoins
    have hblank : Kind.ofChar c = .blank := by
      cases hkind : Kind.ofChar c with
      | blank => rfl
      | number =>
          have hcdigit := Kind.ofChar_eq_number_iff.mp hkind
          have hddigit := Kind.ofChar_eq_number_iff.mp (heq ▸ hkind)
          exact absurd ⟨c, hc, d, hd, hcdigit, hddigit⟩ h
      | _ => simp [hkind, Kind.isRun] at hrun
    have hmem : last ∈ lexemes a := by simp [ha]
    have hlexeme := isLexeme_of_mem hmem
    -- the three pieces at the seam are gaps, wherever they stand
    have hlast (position : Nat) : (ofLexeme position last).kind = .blank :=
      (hlexeme.kind_eq_of_getLast hclast position).trans hblank
    have hfirst (position : Nat) : (ofLexeme position first).kind = .blank := by
      obtain ⟨ds, rfl⟩ : ∃ ds, first = d :: ds := ⟨_, List.eq_cons_of_mem_head? hdfirst⟩
      exact heq.symm.trans hblank
    have hjoined (position : Nat) : (ofLexeme position (last ++ first)).kind = .blank :=
      (kind_ofLexeme_append hlexeme.1 first position).trans (hlast position)
    have hsize : byteSize a = byteSize before.flatten + byteSize last := by
      rw [← byteSize_append, ← flatten_lexemes a, ha]
      simp
    rw [solid, solid, hab, ha, hb, spread_append, spread_append, hsize]
    simp [spread, hlast, hfirst, hjoined, Nat.add_assoc]
  · have hjoins : ∀ c ∈ a.getLast?, ∀ d ∈ b.head?, joins c d = false := by
      intro c hc d hd
      rw [Bool.eq_false_iff]
      exact fun hjoin => hseam ⟨c, hc, d, hd, hjoin⟩
    rw [solid, lexemes_append hjoins, spread_append, flatten_lexemes, Nat.zero_add,
      List.filter_append]
    rfl

/-- A gap has no defects. -/
theorem defect?_of_kind_blank {t : Token} (h : t.kind = .blank) : t.defect? = none := by
  rw [defect?, h]

/-- The mark for the end has no defects. -/
theorem defects_scan_eq_spread (text : String) :
    defects (scan text) = defects (spread 0 (lexemes text.toList)) := by
  have hmark : defects [endOfFile text.utf8ByteSize] = [] := rfl
  rw [scan_eq, defects_append, hmark, List.append_nil]

/-- The defects of a text are those of its solid tokens. -/
theorem defects_scan_eq (text : String) : defects (scan text) = defects (solid text.toList) := by
  rw [defects_scan_eq_spread, defects, defects, solid, List.filterMap_filter]
  refine List.filterMap_congr fun t _ => ?_
  by_cases h : t.kind = .blank
  · simp [h, defect?_of_kind_blank]
  · simp [h]

/-- The defects of two texts put together. -/
theorem defects_scan_append {a b : String} (h : ¬ DigitsMeet a.toList b.toList) :
    defects (scan (a ++ b)) =
      defects (scan a) ++ (defects (scan b)).map (Diagnostic.relocate (a.utf8ByteSize + ·)) := by
  rw [defects_scan_eq, defects_scan_eq, defects_scan_eq, String.toList_append, solid_append h,
    byteSize_toList, ← defects_map_relocate, defects_append]

end Token

namespace Sentence

/-- The sentence in a text consists of the significant ones of its solid tokens. -/
theorem tokens_ofText_eq_solid (text : String) :
    (ofText text).tokens = (Token.solid text.toList).filter (·.kind.isSignificant) := by
  rw [tokens_ofText, Token.solid, List.filter_filter]
  refine List.filter_congr fun t _ => ?_
  cases t.kind <;> simp [Token.Kind.isSignificant]

/-- The tokens of the sentence in two texts put together. -/
theorem tokens_ofText_append {a b : String} (h : ¬ DigitsMeet a.toList b.toList) :
    (ofText (a ++ b)).tokens =
      (ofText a).tokens ++ (ofText b).tokens.map (Token.relocate (a.utf8ByteSize + ·)) := by
  rw [tokens_ofText_eq_solid, tokens_ofText_eq_solid, tokens_ofText_eq_solid,
    String.toList_append, Token.solid_append h, Token.byteSize_toList, List.filter_append,
    List.filter_map]
  rfl

end Sentence

end Calculator
