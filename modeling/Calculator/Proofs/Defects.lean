import Mathlib.Algebra.Group.Nat.Defs
import Calculator.Proofs.Order
import Calculator.Proofs.Scanning
import Calculator.Proofs.Spelling

/-!
# The Defects of a Text

What a scanner complains about, and which values it gives. A numeral counts by the number that its
digits denote, each by its place, and not by how many digits there are: it has a value exactly if
that number is a 32-bit integer. So there are two things to complain about, characters that no
token starts with and numerals that are too large, and every one of them is reported once and in
its place.

* `Text.Numeral.byPlace`, `Text.Numeral.value_eq_byPlace` — the number that digits denote;
* `Token.IsValued`, `Token.HasDefect` — the value that a token should have, and what should be
  reported about it;
* `Token.isValued_of_mem_scan`, `Token.forall₂_hasDefect` — the values and the defects of a text;
* `Scanner.drain_exact` — what a scanner hands out and what it reports.
-/

namespace Calculator

/-! ### Numbers -/

namespace Text.Numeral

/-- The number that decimal digits denote: a digit with `n` others behind it stands for so many
times the `n`-th power of ten. -/
def byPlace : List Char → Nat
  | [] => 0
  | c :: cs => (c.toNat - '0'.toNat) * 10 ^ cs.length + byPlace cs

/-- Reading digits from left to right counts each of them by its place. -/
theorem value_eq_byPlace (digits : List Char) : value digits = byPlace digits := by
  induction digits with
  | nil => rfl
  | cons c cs ih =>
      rw [value] at ih
      rw [value, byPlace, Nat.ofDigitChars_cons, Nat.ofDigitChars_eq_ofDigitChars_zero, ih,
        Nat.mul_zero, Nat.zero_add, Nat.mul_comm]

/-- Digits have a 32-bit value exactly if the number that they denote is at most the largest one,
and then they are worth that number. -/
theorem int32?_cases (digits : List Char) :
    (byPlace digits ≤ 2147483647 ∧ ∃ v, int32? digits = some v ∧ v.toInt = byPlace digits) ∨
      (2147483647 < byPlace digits ∧ int32? digits = none) := by
  rcases Nat.lt_or_ge 2147483647 (byPlace digits) with hlt | hle
  · exact .inr ⟨hlt, int32?_eq_none_iff.mpr (value_eq_byPlace digits ▸ hlt)⟩
  · refine .inl ⟨hle, Int32.ofNat (byPlace digits), ?_, Int32.toInt_ofNat_of_lt ?_⟩
    · rw [int32?, value_eq_byPlace, largest, if_pos hle]
    · exact Nat.lt_of_le_of_lt hle (by decide)

end Text.Numeral

/-! ### Single tokens -/

namespace Token

/-- Whether a token is a numeral that denotes a number of more than 32 bits with sign. -/
def isOutOfRange (t : Token) : Bool :=
  t.kind = .number && 2147483647 < Text.Numeral.byPlace t.text.toList

/-- Whether there is something wrong with a token by itself. -/
def isDefective (t : Token) : Bool :=
  t.kind = .bad || t.isOutOfRange

/-- The relation `HasDefect t d` says that `d` is what should be reported about the token `t`. -/
inductive HasDefect (t : Token) : Diagnostic → Prop
  /-- A bad token is its only character. -/
  | badCharacter {c : Char} (hkind : t.kind = .bad) (htext : t.text = String.singleton c) :
      HasDefect t ⟨.badCharacter c, t.position⟩
  /-- A numeral is reported as it is written. -/
  | outOfRange (h : t.isOutOfRange) : HasDefect t ⟨.numberOutOfRange t.text, t.position⟩

/-- A numeral has the value of the number that it denotes, or none if that is out of range. All
other tokens have no value. -/
structure IsValued (t : Token) : Prop where
  inRange : t.kind = .number → t.isOutOfRange = false →
    ∃ v, t.value = some v ∧ v.toInt = Text.Numeral.byPlace t.text.toList
  outOfRange : t.isOutOfRange = true → t.value = none
  other : t.kind ≠ .number → t.value = none

/-- For a numeral, out of range is a matter of its digits. -/
theorem isOutOfRange_of_kind {t : Token} (h : t.kind = .number) :
    t.isOutOfRange = decide (2147483647 < Text.Numeral.byPlace t.text.toList) := by
  simp [isOutOfRange, h]

/-- The text of a piece is the piece. -/
theorem text_ofLexeme (position : Nat) (lexeme : List Char) :
    (ofLexeme position lexeme).text.toList = lexeme :=
  String.toList_ofList

/-- The token of a piece of text has the value that it should have. -/
theorem isValued_ofLexeme (position : Nat) (lexeme : List Char) :
    (ofLexeme position lexeme).IsValued := by
  have hvalue : (ofLexeme position lexeme).value =
      if (ofLexeme position lexeme).kind = .number then Text.Numeral.int32? lexeme else none := rfl
  by_cases hkind : (ofLexeme position lexeme).kind = .number
  · have hrange := isOutOfRange_of_kind hkind
    rw [text_ofLexeme] at hrange
    rw [if_pos hkind] at hvalue
    rcases Text.Numeral.int32?_cases lexeme with ⟨hle, hsome⟩ | ⟨hlt, hnone⟩
    · refine ⟨fun _ _ => ?_, fun hout => ?_, fun hne => absurd hkind hne⟩
      · rwa [hvalue, text_ofLexeme]
      · rw [hrange, decide_eq_true_eq] at hout
        omega
    · refine ⟨fun _ hout => ?_, fun _ => hvalue.trans hnone, fun hne => absurd hkind hne⟩
      rw [hrange, decide_eq_false_iff_not] at hout
      omega
  · rw [if_neg hkind] at hvalue
    exact ⟨fun h => absurd h hkind, fun _ => hvalue, fun _ => hvalue⟩

/-- What is wrong with the token of a piece of text is what should be reported about it. -/
theorem defect?_ofLexeme {lexeme : List Char} (h : IsLexeme lexeme) (position : Nat) :
    ((ofLexeme position lexeme).isDefective = false ∧
        (ofLexeme position lexeme).defect? = none) ∨
      ((ofLexeme position lexeme).isDefective = true ∧
        ∃ d, (ofLexeme position lexeme).defect? = some d ∧
          (ofLexeme position lexeme).HasDefect d) := by
  have hvalued := isValued_ofLexeme position lexeme
  cases hkind : (ofLexeme position lexeme).kind with
  | bad =>
      obtain ⟨c, cs, rfl⟩ := List.exists_cons_of_ne_nil h.1
      have hrun : (Kind.ofChar c).isRun = false := congrArg Kind.isRun hkind
      obtain rfl := h.eq_nil_of_not_isRun hrun
      right
      refine ⟨by simp [isDefective, hkind], ⟨.badCharacter c, position⟩, ?_,
        .badCharacter hkind rfl⟩
      rw [defect?, hkind, text_ofLexeme]
      rfl
  | number =>
      have hdefective : (ofLexeme position lexeme).isDefective =
          (ofLexeme position lexeme).isOutOfRange := by
        simp [isDefective, hkind]
      rw [hdefective, defect?, hkind]
      cases hrange : (ofLexeme position lexeme).isOutOfRange with
      | false =>
          obtain ⟨v, hv, -⟩ := hvalued.inRange hkind hrange
          rw [hv]
          exact .inl ⟨rfl, rfl⟩
      | true =>
          rw [hvalued.outOfRange hrange]
          exact .inr ⟨rfl, _, rfl, .outOfRange hrange⟩
  | _ =>
      left
      simp [isDefective, isOutOfRange, defect?, hkind]

/-! ### Texts -/

/-- A token of a text is a piece of it, or the mark for the end. -/
theorem mem_scan_cases {text : String} {t : Token} (h : t ∈ scan text) :
    (∃ position lexeme, IsLexeme lexeme ∧ t = ofLexeme position lexeme) ∨
      t = endOfFile text.utf8ByteSize := by
  rw [scan_eq, List.mem_append, List.mem_singleton] at h
  refine h.imp_left fun h => ?_
  obtain ⟨before, lexeme, -, -, hlexeme, rfl⟩ := exists_of_mem_spread_lexemes h
  exact ⟨_, lexeme, hlexeme, rfl⟩

/-- **The values in a text** are what the numerals denote. -/
theorem isValued_of_mem_scan {text : String} {t : Token} (h : t ∈ scan text) : t.IsValued := by
  rcases mem_scan_cases h with ⟨position, lexeme, -, rfl⟩ | rfl
  · exact isValued_ofLexeme position lexeme
  · refine ⟨fun hkind => ?_, fun _ => rfl, fun _ => rfl⟩
    exact absurd hkind (by simp [endOfFile, standIn])

/-- A selection of a list beside what is made of its members, one by one and in their order. -/
theorem forall₂_filter_filterMap {α β : Type} {p : α → Bool} {f : α → Option β}
    {R : α → β → Prop} {xs : List α}
    (h : ∀ x ∈ xs, (p x = false ∧ f x = none) ∨ (p x = true ∧ ∃ y, f x = some y ∧ R x y)) :
    List.Forall₂ R (xs.filter p) (xs.filterMap f) := by
  induction xs with
  | nil => exact .nil
  | cons x xs ih =>
      simp only [List.forall_mem_cons] at h
      rcases h.1 with ⟨hp, hf⟩ | ⟨hp, y, hf, hy⟩
      · rw [List.filter_cons_of_neg (by simp [hp]), List.filterMap_cons_none hf]
        exact ih h.2
      · rw [List.filter_cons_of_pos hp, List.filterMap_cons_some hf]
        exact .cons hy (ih h.2)

/-- **The defects of a text** are those of its defective tokens, one for each and in their
order. -/
theorem forall₂_hasDefect (text : String) :
    List.Forall₂ HasDefect ((scan text).filter isDefective) (defects (scan text)) := by
  refine forall₂_filter_filterMap fun t ht => ?_
  rcases mem_scan_cases ht with ⟨position, lexeme, hlexeme, rfl⟩ | rfl
  · exact defect?_ofLexeme hlexeme position
  · exact .inl ⟨rfl, rfl⟩

/-- No two defects of a text are met at the same byte offset. -/
theorem pairwise_position_defects (text : String) :
    (defects (scan text)).Pairwise fun d e => d.position < e.position := by
  have hscan : (scan text).Pairwise fun t u => t.position < u.position :=
    pairwise_position_place 0 fun _ h => (isLexeme_of_mem h).1
  refine hscan.filterMap _ fun t u hlt d hd e he => ?_
  rwa [position_of_defect?_eq_some hd, position_of_defect?_eq_some he]

/-- The text of a spelled token has that token and no other. -/
theorem IsSpelled.scan_text {t : Token} (h : t.IsSpelled) :
    scan t.text = [t.unplaced, endOfFile t.text.utf8ByteSize] := by
  rw [scan_eq, lexemes_of_isLexeme h.isLexeme, h.unplaced_eq]
  rfl

end Token

/-- **Exactness of scanning.** What a scanner reports about a text is, in the order of the tokens
and at rising byte offsets, one bad character for each bad token and one numeral out of range for
each numeral that denotes a number above the largest word, and nothing else. Every other numeral is
worth the number that it denotes, and no other token has a value. The text of a literal that is not
negative is scanned as the token that the literal is made of, without complaint. -/
theorem Scanner.drain_exact (text : String) :
    List.Forall₂ Token.HasDefect ((ofString text).drain.1.filter Token.isDefective)
      (ofString text).drain.2.diagnostics ∧
    (ofString text).drain.2.diagnostics.Pairwise (fun d e => d.position < e.position) ∧
    (∀ t ∈ (ofString text).drain.1, t.IsValued) ∧
    ∀ v : Int32, 0 ≤ v →
      (ofString (Expression.literal v).text).drain.1 =
        (Expression.literal v).tokens ++
          [.endOfFile (Expression.literal v).text.utf8ByteSize] ∧
      (ofString (Expression.literal v).text).drain.2.diagnostics = [] := by
  rw [drain_ofString]
  refine ⟨Token.forall₂_hasDefect text, Token.pairwise_position_defects text,
    fun t ht => Token.isValued_of_mem_scan ht, fun v hv => ?_⟩
  have hscan : Token.scan (Expression.literal v).text =
      [Token.literal v, .endOfFile (Expression.literal v).text.utf8ByteSize] :=
    (Token.isSpelled_literal (Int32.le_iff_toInt_le.mp hv)).scan_text
  rw [drain_ofString, hscan]
  exact ⟨rfl, rfl⟩

/-- The number decides, and not the count of digits. -/
example : ((Scanner.ofString "0000000002147483647 2147483648").drain.1.map Token.value) =
      [some 2147483647, none, none, none] ∧
    (Scanner.ofString "0000000002147483647 2147483648").drain.2.diagnostics =
      [⟨.numberOutOfRange "2147483648", 20⟩] := by
  decide +kernel

end Calculator
