import Calculator.Expression.Render
import Calculator.Proofs.Account
import Calculator.Proofs.Nesting
import Calculator.Proofs.Seam

/-!
# Spelling

What a text says, apart from its layout: the **spelling** of a text is the list of its
significant tokens, all of them moved to position zero. Blanks do not show in a spelling, and so
two texts that are put together say one behind the other what they say alone, unless digits meet
at the seam.

A token is **spelled** when its text says the token itself (`Token.IsSpelled`). The text of an
expression says what its tokens say, from left to right. So where every token is spelled, the
text of an expression says the tokens of the expression.

* `spelling_append` — the spelling of two texts put together;
* `Expression.IsBracketed.spelling_text` — the spelling of the text of an expression;
* `Token.isSpelled_of_mem_tokens`, `Token.isSpelled_literal`, `Token.isSpelled_ofKind` — tokens
  that are spelled.
-/

namespace Calculator

/-- The token at position zero. -/
def Token.unplaced (t : Token) : Token :=
  t.relocate fun _ => 0

/-- The expression with all its tokens at position zero. -/
def Expression.unplaced (e : Expression) : Expression :=
  e.relocate fun _ => 0

/-- The significant tokens of a text, moved to position zero. -/
def spelling (text : List Char) : List Token :=
  ((lexemes text).map (Token.ofLexeme 0)).filter (·.kind.isSignificant)

@[simp] theorem spelling_nil : spelling [] = [] := rfl

/-- A blank says nothing. -/
@[simp] theorem spelling_space : spelling [' '] = [] := by decide

/-- A piece of text says what kind of token it is, if that is significant. -/
theorem spelling_of_isLexeme {lexeme : List Char} (h : IsLexeme lexeme) :
    spelling lexeme = [Token.ofLexeme 0 lexeme].filter (·.kind.isSignificant) := by
  rw [spelling, lexemes_of_isLexeme h]
  rfl

/-- Without its position a token is known by its piece. -/
theorem Token.unplaced_ofLexeme (position : Nat) (lexeme : List Char) :
    (ofLexeme position lexeme).unplaced = ofLexeme 0 lexeme := rfl

/-- Without their positions the tokens of a text are known by its pieces. -/
theorem Token.map_unplaced_spread (position : Nat) (pieces : List (List Char)) :
    (spread position pieces).map unplaced = pieces.map (ofLexeme 0) := by
  induction pieces generalizing position with
  | nil => rfl
  | cons lexeme pieces ih => simp [spread, ih, unplaced_ofLexeme]

/-- The sentence in a text is its spelling with positions. -/
theorem Sentence.map_unplaced_tokens (text : String) :
    (Sentence.ofText text).tokens.map Token.unplaced = spelling text.toList := by
  rw [tokens_ofText, spelling, ← Token.map_unplaced_spread 0, List.filter_map]
  rfl

/-- The spelling of two texts put together, unless digits meet at the seam. -/
theorem spelling_append {a b : List Char} (h : ¬ DigitsMeet a b) :
    spelling (a ++ b) = spelling a ++ spelling b := by
  have htext : spelling (a ++ b) =
      (Sentence.ofText (String.ofList a ++ String.ofList b)).tokens.map Token.unplaced := by
    rw [Sentence.map_unplaced_tokens]
    simp
  rw [htext, Sentence.tokens_ofText_append (by simpa using h), List.map_append,
    Sentence.map_unplaced_tokens, List.map_map]
  -- moved to position zero, a token does not tell where it was moved from
  have hunplaced : Token.unplaced ∘ Token.relocate ((String.ofList a).utf8ByteSize + ·) =
      Token.unplaced := rfl
  rw [hunplaced, Sentence.map_unplaced_tokens, String.toList_ofList, String.toList_ofList]

/-- Behind a text that does not end in a digit everything is said as it is said alone. -/
theorem spelling_append_of_getLast {a b : List Char}
    (h : ∀ c ∈ a.getLast?, c.isDigit = false) :
    spelling (a ++ b) = spelling a ++ spelling b :=
  spelling_append (not_digitsMeet_of_getLast h)

/-- In front of a text that does not begin with a digit everything is said as it is said
alone. -/
theorem spelling_append_of_head {a b : List Char}
    (h : ∀ d ∈ b.head?, d.isDigit = false) :
    spelling (a ++ b) = spelling a ++ spelling b :=
  spelling_append (not_digitsMeet_of_head h)

/-- A blank may stand between any two texts. -/
theorem spelling_append_space (a b : List Char) :
    spelling (a ++ ' ' :: b) = spelling a ++ spelling b := by
  rw [spelling_append_of_head (by simp), ← List.singleton_append,
    spelling_append_of_getLast (by simp), spelling_space, List.nil_append]

/-! ### Spelled tokens -/

/-- A token is **spelled** when its text, cut into tokens, is the token itself. -/
structure Token.IsSpelled (t : Token) : Prop where
  isLexeme : IsLexeme t.text.toList
  unplaced_eq : t.unplaced = Token.ofLexeme 0 t.text.toList
  significant : t.kind.isSignificant = true

namespace Token

/-- The text of a spelled token says the token. -/
theorem IsSpelled.spelling_text {t : Token} (h : t.IsSpelled) :
    spelling t.text.toList = [t.unplaced] := by
  have hsignificant : (ofLexeme 0 t.text.toList).kind.isSignificant = true := by
    rw [← h.unplaced_eq]
    exact h.significant
  rw [spelling_of_isLexeme h.isLexeme, List.filter_singleton, hsignificant, h.unplaced_eq]
  rfl

/-- A token that is spelled has a text. -/
theorem IsSpelled.isEmpty {t : Token} (h : t.IsSpelled) : t.isEmpty = false := by
  have hne := h.isLexeme.1
  simp only [Token.isEmpty, Bool.eq_false_iff, ne_eq, String.isEmpty_iff]
  rintro heq
  simp [heq] at hne

/-- All characters of a spelled token are of its kind. -/
theorem IsSpelled.ofChar_eq {t : Token} (h : t.IsSpelled) :
    ∀ c ∈ t.text.toList, Kind.ofChar c = t.kind := by
  have hkind : t.unplaced.kind = (ofLexeme 0 t.text.toList).kind :=
    congrArg Token.kind h.unplaced_eq
  change t.kind = _ at hkind
  have hlexeme := h.isLexeme
  cases htext : t.text.toList with
  | nil => simp
  | cons c cs =>
      rw [htext] at hkind hlexeme
      rw [hkind]
      simp only [List.forall_mem_cons]
      exact ⟨rfl, hlexeme.ofChar_eq⟩

/-- Digits stand in numerals only. -/
theorem IsSpelled.isDigit_eq_false {t : Token} (h : t.IsSpelled) (hkind : t.kind ≠ .number) :
    ∀ c ∈ t.text.toList, c.isDigit = false := by
  intro c hc
  rw [Bool.eq_false_iff]
  intro hdigit
  exact hkind ((h.ofChar_eq c hc).symm.trans (Kind.ofChar_eq_number_iff.mpr hdigit))

/-- The tokens of a line are spelled. -/
theorem isSpelled_of_mem_tokens {t : Token} {text : String}
    (h : t ∈ (Sentence.ofText text).tokens) : t.IsSpelled := by
  have hsignificant := (Sentence.ofText text).significant t h
  obtain ⟨before, lexeme, after, -, hlexeme, rfl⟩ := Sentence.exists_of_mem_tokens h
  have htext : (ofLexeme (byteSize before) lexeme).text.toList = lexeme := String.toList_ofList
  refine ⟨by rwa [htext], ?_, hsignificant⟩
  rw [htext, unplaced_ofLexeme]

/-- The tokens with only one text are spelled. -/
theorem isSpelled_ofKind {k : Kind} {c : Char} (h : k.symbol? = some c) :
    (ofKind k).IsSpelled := by
  have htext : (ofKind k).text.toList = [c] := by simp [ofKind, h]
  have hofChar : Kind.ofChar c = k := Kind.ofChar_of_symbol? h
  have hkind : k ≠ .number := by rintro rfl; simp [Kind.symbol?] at h
  refine ⟨htext ▸ isLexeme_singleton c, ?_, ?_⟩
  · have hlexeme : ofLexeme 0 [c] = ⟨k, 0, String.ofList [c], none⟩ := by
      simp [ofLexeme, hofChar, hkind]
    rw [htext, hlexeme, ← htext, String.ofList_toList]
    rfl
  · cases k <;> simp_all [ofKind, Kind.symbol?, Kind.isSignificant]

/-- The digits of a number are one piece of text. -/
theorem isLexeme_toDigits (n : Nat) : IsLexeme (Nat.toDigits 10 n) :=
  isLexeme_of_forall_ofChar (k := .number) rfl Nat.toDigits_ne_nil fun _ hc =>
    Kind.ofChar_eq_number_iff.mpr (Nat.isDigit_of_mem_toDigits (by decide) (by decide) hc)

/-- The digits of a number are a numeral. -/
theorem kind_ofLexeme_toDigits (position n : Nat) :
    (ofLexeme position (Nat.toDigits 10 n)).kind = .number := by
  cases hdigits : Nat.toDigits 10 n with
  | nil => exact absurd hdigits Nat.toDigits_ne_nil
  | cons c cs =>
      have hc : c ∈ Nat.toDigits 10 n := hdigits ▸ List.mem_cons_self
      exact Kind.ofChar_eq_number_iff.mpr
        (Nat.isDigit_of_mem_toDigits (by decide) (by decide) hc)

/-- The numeral of a value, as it is made without a line. -/
def literal (v : Int32) : Token where
  kind := .number
  position := 0
  text := Text.Numeral.ofInt32 v
  value := some v

/-- The numeral of a value that is not negative is spelled. -/
theorem isSpelled_literal {v : Int32} (h : 0 ≤ v.toInt) : (literal v).IsSpelled := by
  have htext : (literal v).text.toList = Nat.toDigits 10 v.toInt.toNat :=
    Text.Numeral.toList_ofInt32 h
  refine ⟨htext ▸ isLexeme_toDigits _, ?_, rfl⟩
  have hkind := kind_ofLexeme_toDigits 0 v.toInt.toNat
  rw [← htext] at hkind
  have hvalue : (ofLexeme 0 (literal v).text.toList).value = some v := by
    show (if (ofLexeme 0 (literal v).text.toList).kind = .number then
      Text.Numeral.int32? (literal v).text.toList else none) = some v
    rw [if_pos hkind]
    exact Text.Numeral.int32?_ofInt32 h
  have heq : ofLexeme 0 (literal v).text.toList =
      ⟨(ofLexeme 0 (literal v).text.toList).kind, 0,
        String.ofList (literal v).text.toList,
        (ofLexeme 0 (literal v).text.toList).value⟩ := rfl
  rw [heq, hkind, hvalue, String.ofList_toList]
  rfl

/-- A negative value is written as a minus sign and the numeral of its absolute value. -/
theorem spelling_literal_of_neg {v : Int32} (h : v.toInt < 0) :
    (spelling (literal v).text.toList).map Token.kind = [.operator .minus, .number] := by
  obtain ⟨n, hn⟩ := Int.eq_negSucc_of_lt_zero h
  have htext : (literal v).text.toList = ['-'] ++ Nat.toDigits 10 (n + 1) := by
    simp [literal, Text.Numeral.ofInt32, hn, Int.repr, Nat.toList_repr]
  rw [htext, spelling_append_of_getLast (by simp), spelling_of_isLexeme (isLexeme_singleton '-'),
    spelling_of_isLexeme (isLexeme_toDigits _)]
  have hkind := kind_ofLexeme_toDigits 0 (n + 1)
  have hsign : (ofLexeme 0 ['-']).kind = .operator .minus := by decide
  simp [hkind, hsign, Kind.isSignificant]

/-- The texts of tokens that are spelled, or stand-ins, say the tokens with a text. -/
theorem flatMap_spelling {ts : List Token} (h : ∀ t ∈ ts, t.isEmpty = true ∨ t.IsSpelled) :
    (ts.flatMap fun t => spelling t.text.toList) =
      (ts.filter fun t => !t.isEmpty).map unplaced := by
  induction ts with
  | nil => rfl
  | cons t ts ih =>
      simp only [List.forall_mem_cons] at h
      rw [List.flatMap_cons, ih h.2]
      rcases h.1 with hempty | hspelled
      · have htext : t.text = "" := String.isEmpty_iff.mp hempty
        simp [htext, hempty]
      · rw [hspelled.spelling_text, List.filter_cons_of_pos (by simp [hspelled.isEmpty])]
        rfl

end Token

/-! ### The text of an expression -/

/-- The text of a bracketed expression says what its tokens say, from left to right. Digits must
stand in numerals only, and then there is an operator or a parenthesis between any two of them. -/
theorem Expression.IsBracketed.spelling_text {e : Expression} (h : e.IsBracketed)
    (hdigits : ∀ t ∈ e.tokens, t.kind ≠ .number → ∀ c ∈ t.text.toList, c.isDigit = false) :
    spelling e.text.toList = e.tokens.flatMap fun t => spelling t.text.toList := by
  induction e with
  | number => simp [text, tokens]
  | binary left operator right ihleft ihright =>
      simp only [mem_tokens_binary] at hdigits
      have hleft := ihleft h.1 fun t ht => hdigits t (.inl ht)
      have hright := ihright h.2.2 fun t ht => hdigits t (.inr (.inr ht))
      have htext : (binary left operator right).text.toList =
          left.text.toList ++ ' ' :: (operator.text.toList ++ ' ' :: right.text.toList) := by
        simp [text]
      rw [htext, spelling_append_space, spelling_append_space, hleft, hright]
      simp [tokens]
  | grouped opening inner closing ih =>
      simp only [mem_tokens_grouped] at hdigits
      have hfirst := hdigits opening (.inl rfl) (by simp [h.1])
      have hlast := hdigits closing (.inr (.inr rfl)) (by simp [h.2.2])
      have hinner := ih h.2.1 fun t ht => hdigits t (.inr (.inl ht))
      rw [text, String.toList_append, String.toList_append,
        spelling_append_of_head fun d hd => hlast d (List.mem_of_mem_head? hd),
        spelling_append_of_getLast fun c hc => hfirst c (List.mem_of_mem_getLast? hc), hinner]
      simp [tokens]

/-- The text of a bracketed expression with spelled tokens says its tokens. -/
theorem Expression.IsBracketed.spelling_eq {e : Expression} (h : e.IsBracketed)
    (hspelled : ∀ t ∈ e.tokens, t.IsSpelled) :
    spelling e.text.toList = e.tokens.map Token.unplaced := by
  rw [h.spelling_text fun t ht => (hspelled t ht).isDigit_eq_false,
    List.flatMap_congr fun t ht => (hspelled t ht).spelling_text, List.map_eq_flatMap]

/-- The text of a derivation says what its tokens say, from left to right. -/
theorem Derives.spelling_text {c : Category} {e : Expression} (h : Derives c e)
    (hdigits : ∀ t ∈ e.tokens, t.kind ≠ .number → ∀ c ∈ t.text.toList, c.isDigit = false) :
    spelling e.text.toList = e.tokens.flatMap fun t => spelling t.text.toList :=
  h.isBracketed.spelling_text hdigits

/-- The characters of the text of an expression: those of its tokens, and blanks. -/
theorem Expression.mem_text {e : Expression} {c : Char} (h : c ∈ e.text.toList) :
    c = ' ' ∨ ∃ t ∈ e.tokens, c ∈ t.text.toList := by
  induction e with
  | number t => exact .inr ⟨t, by simp [tokens], h⟩
  | binary left operator right ihleft ihright =>
      simp only [text, String.toList_append, List.mem_append] at h
      simp only [mem_tokens_binary]
      rcases h with (((h | h) | h) | h) | h
      · rcases ihleft h with hspace | ⟨t, ht, hc⟩
        · exact .inl hspace
        · exact .inr ⟨t, .inl ht, hc⟩
      · exact .inl (by simpa using h)
      · exact .inr ⟨operator, .inr (.inl rfl), h⟩
      · exact .inl (by simpa using h)
      · rcases ihright h with hspace | ⟨t, ht, hc⟩
        · exact .inl hspace
        · exact .inr ⟨t, .inr (.inr ht), hc⟩
  | grouped opening inner closing ih =>
      simp only [text, String.toList_append, List.mem_append] at h
      simp only [mem_tokens_grouped]
      rcases h with (h | h) | h
      · exact .inr ⟨opening, .inl rfl, h⟩
      · rcases ih h with hspace | ⟨t, ht, hc⟩
        · exact .inl hspace
        · exact .inr ⟨t, .inr (.inl ht), hc⟩
      · exact .inr ⟨closing, by simp, h⟩

end Calculator
