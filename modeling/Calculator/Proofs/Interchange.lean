import Calculator.Proofs.Order
import Calculator.Proofs.Phrase

/-!
# Interchange

A numeral in a line may be exchanged for a phrase in parentheses. The line keeps its tokens around
that place, so its tree keeps its shape around the numeral: what is in the parentheses has no
influence on how the rest is read. And it has none on what the line is worth, beyond its own
value. So phrases of one value can be interchanged in every line.

* `Expression.exchange` — a tree with another one in the place of a numeral;
* `Token.IsNumeral.tokens_eq` — the tokens of a line around a numeral;
* `IsPhrase.exchange` — a phrase with another one in the place of a numeral;
* `calculate_interchange` — lines that differ in the phrase in one place.
-/

namespace Calculator

/-! ### Trees -/

/-- The expression with another one in the place of the numeral at a byte offset, and with all
other tokens moved. -/
def Expression.exchange (place : Nat) (g : Nat → Nat) :
    Expression → Expression → Expression
  | number token, f => if token.position = place then f else number (token.relocate g)
  | binary left operator right, f =>
    binary (left.exchange place g f) (operator.relocate g) (right.exchange place g f)
  | grouped opening inner closing, f =>
    grouped (opening.relocate g) (inner.exchange place g f) (closing.relocate g)

section Tree

variable {c : Category} {e f : Expression} {place : Nat} {g : Nat → Nat}

/-- A primary may stand wherever a numeral may. -/
theorem Derives.exchange (h : Derives c e) (hf : Derives .primary f) :
    Derives c (e.exchange place g f) := by
  induction h with
  | numeral hkind =>
      rw [Expression.exchange]
      split
      · exact hf
      · exact .numeral hkind
  | group hopening _ hclosing ih => exact .group hopening ih hclosing
  | single _ ih => exact .single ih
  | step _ hoperator _ ihleft ihright => exact .step ihleft hoperator ihright

/-- The tokens of an expression with another one in it. -/
theorem Derives.tokens_exchange (h : Derives c e)
    (hplace : ∀ t ∈ e.tokens, t.position = place → t.kind = .number) :
    (e.exchange place g f).tokens =
      e.tokens.flatMap fun t => if t.position = place then f.tokens else [t.relocate g] := by
  induction h with
  | @numeral t =>
      rw [Expression.exchange, Expression.tokens, List.flatMap_singleton]
      split <;> rfl
  | @group opening closing inner hopening _ hclosing ih =>
      simp only [Expression.mem_tokens_grouped] at hplace
      have hfirst : opening.position ≠ place := fun heq => by
        simpa [hopening] using hplace opening (.inl rfl) heq
      have hlast : closing.position ≠ place := fun heq => by
        simpa [hclosing] using hplace closing (.inr (.inr rfl)) heq
      rw [Expression.exchange, Expression.tokens, Expression.tokens,
        ih fun t ht => hplace t (.inr (.inl ht))]
      simp [hfirst, hlast]
  | single _ ih => exact ih hplace
  | @step l left right operator _ hoperator _ ihleft ihright =>
      simp only [Expression.mem_tokens_binary] at hplace
      have hbetween : operator.position ≠ place := fun heq => by
        simp [hplace operator (.inr (.inl rfl)) heq, Level.has, Token.Kind.operator?] at hoperator
      rw [Expression.exchange, Expression.tokens, Expression.tokens,
        ihleft fun t ht => hplace t (.inl ht), ihright fun t ht => hplace t (.inr (.inr ht))]
      simp [hbetween]

/-- A token of an expression with another one in it comes from either. -/
theorem Expression.mem_tokens_exchange {t : Token} (h : t ∈ (e.exchange place g f).tokens) :
    t ∈ f.tokens ∨ ∃ u ∈ e.tokens, t = u.relocate g := by
  induction e with
  | number u =>
      rw [exchange] at h
      split at h
      · exact .inl h
      · exact .inr ⟨u, List.mem_cons_self, List.mem_singleton.mp h⟩
  | binary left operator right ihleft ihright =>
      rw [exchange, mem_tokens_binary] at h
      simp only [mem_tokens_binary]
      rcases h with h | rfl | h
      · rcases ihleft h with h | ⟨u, hu, heq⟩
        · exact .inl h
        · exact .inr ⟨u, .inl hu, heq⟩
      · exact .inr ⟨operator, .inr (.inl rfl), rfl⟩
      · rcases ihright h with h | ⟨u, hu, heq⟩
        · exact .inl h
        · exact .inr ⟨u, .inr (.inr hu), heq⟩
  | grouped opening inner closing ih =>
      rw [exchange, mem_tokens_grouped] at h
      simp only [mem_tokens_grouped]
      rcases h with rfl | h | rfl
      · exact .inr ⟨opening, .inl rfl, rfl⟩
      · rcases ih h with h | ⟨u, hu, heq⟩
        · exact .inl h
        · exact .inr ⟨u, .inr (.inl hu), heq⟩
      · exact .inr ⟨closing, .inr (.inr rfl), rfl⟩

/-- All that counts of the other expression is its value. -/
theorem Expression.evaluate_exchange (e : Expression) {f f' : Expression} {v : Int32}
    (hf : f.evaluate = .ok v) (hf' : f'.evaluate = .ok v) :
    (e.exchange place g f).evaluate =
      (e.exchange place id f').evaluate.mapError (Fault.relocate g) := by
  induction e with
  | number t =>
      rw [exchange, exchange]
      split
      · rw [hf, hf']
        rfl
      · exact t.valueOrFault_relocate
  | binary left operator right ihleft ihright =>
      rw [exchange, exchange, evaluate, evaluate, ihleft, ihright]
      cases (left.exchange place id f').evaluate with
      | error fault => rfl
      | ok a =>
          cases (right.exchange place id f').evaluate with
          | error fault => rfl
          | ok b => exact operator.combine_relocate a b
  | grouped opening inner closing ih => exact ih

end Tree

/-! ### Numerals in a line -/

namespace Token

/-- Only the empty text has no bytes. -/
theorem eq_nil_of_byteSize_eq_zero {text : List Char} (h : byteSize text = 0) : text = [] := by
  by_contra hne
  exact absurd h (Nat.ne_of_gt (byteSize_pos hne))

/-- Beginnings of one text are equal when they are of the same length. -/
theorem eq_of_append_eq_append {a b x y : List Char} (h : a ++ x = b ++ y)
    (hsize : byteSize a = byteSize b) : a = b := by
  rcases List.append_eq_append_iff.mp h with ⟨z, rfl, -⟩ | ⟨z, rfl, -⟩
  · rw [byteSize_append] at hsize
    obtain rfl : z = [] := eq_nil_of_byteSize_eq_zero (by omega)
    exact (List.append_nil a).symm
  · rw [byteSize_append] at hsize
    obtain rfl : z = [] := eq_nil_of_byteSize_eq_zero (by omega)
    exact List.append_nil b

/-- The token is the numeral `d` that stands between the texts `a` and `b`. -/
structure IsNumeral (n : Token) (a d b : String) : Prop where
  /-- It is a token of the line. -/
  mem : n ∈ (Sentence.ofText (a ++ d ++ b)).tokens
  /-- It is a numeral. -/
  kind_eq : n.kind = .number
  /-- It starts behind `a`. -/
  position_eq : n.position = a.utf8ByteSize
  /-- It is written `d`. -/
  text_eq : n.text = d

namespace IsNumeral

variable {n : Token} {a d b : String}

/-- The tokens of a line around a numeral are those of the texts around it. -/
theorem spread_eq (h : n.IsNumeral a d b) :
    spread 0 (lexemes (a ++ d ++ b).toList) =
      spread 0 (lexemes a.toList) ++ n ::
        (spread 0 (lexemes b.toList)).map (relocate ((a ++ d).utf8ByteSize + ·)) := by
  obtain ⟨hmem, -, hposition, rfl⟩ := h
  rw [Sentence.tokens_ofText, List.mem_filter] at hmem
  obtain ⟨before, lexeme, after, hpieces, rfl⟩ := exists_of_mem_spread hmem.1
  have htext : (ofLexeme (0 + byteSize before.flatten) lexeme).text = String.ofList lexeme := rfl
  rw [htext] at hpieces ⊢
  have hflatten : before.flatten ++ (lexeme ++ after.flatten) =
      a.toList ++ (lexeme ++ b.toList) := by
    have heq := congrArg List.flatten hpieces
    rw [flatten_lexemes] at heq
    simpa using heq.symm
  have hsize : byteSize before.flatten = byteSize a.toList := by
    rw [byteSize_toList, ← hposition]
    exact (Nat.zero_add _).symm
  have hbefore : before.flatten = a.toList := eq_of_append_eq_append hflatten hsize
  have hafter : after.flatten = b.toList := by
    rw [hbefore, List.append_cancel_left_eq, List.append_cancel_left_eq] at hflatten
    exact hflatten
  have ha : lexemes a.toList = before := hbefore ▸ (lexemes_flatten_of_append hpieces).1
  have hb : lexemes b.toList = after := by
    rw [List.append_cons] at hpieces
    exact hafter ▸ (lexemes_flatten_of_append hpieces).2
  have hstop : (a ++ String.ofList lexeme).utf8ByteSize =
      0 + byteSize before.flatten + byteSize lexeme := by
    rw [hsize, byteSize_toList, String.utf8ByteSize_append, Nat.zero_add, byteSize]
  rw [hpieces, spread_append, spread, ha, hb, map_relocate_spread, Nat.add_zero, hstop]

/-- The tokens of the sentence around a numeral. -/
theorem tokens_eq (h : n.IsNumeral a d b) :
    (Sentence.ofText (a ++ d ++ b)).tokens =
      (Sentence.ofText a).tokens ++ n ::
        (Sentence.ofText b).tokens.map (relocate ((a ++ d).utf8ByteSize + ·)) := by
  have hsignificant : n.kind.isSignificant = true := by rw [h.kind_eq]; rfl
  rw [Sentence.tokens_ofText, Sentence.tokens_ofText, Sentence.tokens_ofText, h.spread_eq,
    List.filter_append, List.filter_cons, if_pos hsignificant, List.filter_map]
  rfl

/-- Where nothing is wrong with the tokens of a line, nothing is wrong around a numeral. -/
theorem defects_eq_nil (h : n.IsNumeral a d b) (hdefects : defects (scan (a ++ d ++ b)) = []) :
    defects (scan a) = [] ∧ defects (scan b) = [] := by
  rw [defects_scan_eq_spread, h.spread_eq, defects_append, List.append_eq_nil_iff] at hdefects
  obtain ⟨ha, hb⟩ := hdefects
  rw [defects_scan_eq_spread, defects_scan_eq_spread]
  refine ⟨ha, ?_⟩
  have hmoved : defects ((spread 0 (lexemes b.toList)).map
      (relocate ((a ++ d).utf8ByteSize + ·))) = [] :=
    List.filterMap_eq_nil_iff.mpr fun t ht =>
      List.filterMap_eq_nil_iff.mp hb t (List.mem_cons_of_mem _ ht)
  rwa [defects_map_relocate, List.map_eq_nil_iff] at hmoved

/-- The text of a numeral is not empty. -/
theorem utf8ByteSize_pos (h : n.IsNumeral a d b) : 0 < d.utf8ByteSize := by
  have hempty := Sentence.isEmpty_of_mem_tokens h.mem
  rw [isEmpty, h.text_eq, Bool.eq_false_iff, ne_eq, String.isEmpty_iff] at hempty
  rwa [Nat.pos_iff_ne_zero, ne_eq, String.utf8ByteSize_eq_zero_iff]

end IsNumeral

end Token

/-! ### Another phrase in the place of a numeral -/

/-- What becomes of the byte offsets in a line that starts with the texts `a` and `d` when the
text `w` comes in the place of `d`. -/
def Text.exchange (a d w : String) (position : Nat) : Nat :=
  if position < a.utf8ByteSize then position
  else position + w.utf8ByteSize - d.utf8ByteSize

/-- In front of what is exchanged no place is moved. -/
theorem Text.exchange_of_lt {a : String} (d w : String) {position : Nat}
    (h : position < a.utf8ByteSize) : exchange a d w position = position :=
  if_pos h

/-- Behind what is exchanged every place is moved by the difference of the sizes. -/
theorem Text.exchange_add (a d w : String) (position : Nat) :
    exchange a d w ((a ++ d).utf8ByteSize + position) = (a ++ w).utf8ByteSize + position := by
  rw [exchange, String.utf8ByteSize_append, String.utf8ByteSize_append, if_neg (by omega)]
  omega

namespace IsPhrase

variable {c : Category} {e f : Expression} {a d b w : String} {n : Token}

/-- Only the numeral itself starts where it does. -/
theorem kind_of_position_eq (h : IsPhrase c e (a ++ d ++ b)) (hn : n.IsNumeral a d b) {t : Token}
    (ht : t ∈ e.tokens) (hposition : t.position = a.utf8ByteSize) : t.kind = .number := by
  rw [h.tokens_eq] at ht
  have heq : t = n :=
    Sentence.eq_of_position_eq (List.mem_append_left _ ht) (List.mem_append_left _ hn.mem)
      (hposition.trans hn.position_eq.symm)
  rw [heq, hn.kind_eq]

/-- The tokens around the numeral stay what they are. -/
theorem tokens_exchange (h : IsPhrase c e (a ++ d ++ b)) (hn : n.IsNumeral a d b) (w : String)
    (f : Expression) :
    (e.exchange a.utf8ByteSize (Text.exchange a d w) f).tokens =
      (Sentence.ofText a).tokens ++
        (f.tokens ++
          (Sentence.ofText b).tokens.map (Token.relocate ((a ++ w).utf8ByteSize + ·))) := by
  have hbefore : ∀ t ∈ (Sentence.ofText a).tokens,
      (if t.position = a.utf8ByteSize then f.tokens
        else [t.relocate (Text.exchange a d w)]) = [t] := by
    intro t ht
    have hlt := Sentence.position_lt_of_mem_tokens ht
    rw [if_neg (Nat.ne_of_lt hlt), Token.relocate, Text.exchange_of_lt d w hlt]
  have hafter : ∀ t ∈ (Sentence.ofText b).tokens,
      (if (t.relocate ((a ++ d).utf8ByteSize + ·)).position = a.utf8ByteSize then f.tokens
        else [(t.relocate ((a ++ d).utf8ByteSize + ·)).relocate (Text.exchange a d w)]) =
        [t.relocate ((a ++ w).utf8ByteSize + ·)] := by
    intro t _
    have hpos := hn.utf8ByteSize_pos
    have hne : (t.relocate ((a ++ d).utf8ByteSize + ·)).position ≠ a.utf8ByteSize := by
      rw [Token.position_relocate, String.utf8ByteSize_append]
      omega
    rw [if_neg hne, Token.relocate_relocate]
    simp only [Token.relocate, Function.comp_apply, Text.exchange_add]
  rw [h.derives.tokens_exchange fun t ht => h.kind_of_position_eq hn ht, h.tokens_eq,
    hn.tokens_eq, List.flatMap_append, List.flatMap_cons, List.flatMap_map,
    List.flatMap_congr hbefore, List.flatMap_congr hafter, if_pos hn.position_eq,
    List.flatMap_singleton', ← List.map_eq_flatMap]

/-- **Exchange.** A phrase with another one in the place of a numeral is a phrase, where no digits
meet at the seams. -/
theorem exchange (h : IsPhrase c e (a ++ d ++ b)) (hn : n.IsNumeral a d b)
    (hw : IsPhrase .primary f w) (hleft : ¬ DigitsMeet a.toList (w ++ b).toList)
    (hright : ¬ DigitsMeet w.toList b.toList) :
    IsPhrase c
      (e.exchange a.utf8ByteSize (Text.exchange a d w) (f.relocate (a.utf8ByteSize + ·)))
      (a ++ w ++ b) := by
  obtain ⟨ha, hb⟩ := hn.defects_eq_nil h.defects_eq_nil
  refine ⟨h.derives.exchange hw.derives.relocate, ?_, ?_⟩
  · have hmove : (a.utf8ByteSize + ·) ∘ (w.utf8ByteSize + ·) = ((a ++ w).utf8ByteSize + ·) :=
      funext fun _ => by
        rw [Function.comp_apply, String.utf8ByteSize_append, Nat.add_assoc]
    have htext : a ++ w ++ b = a ++ (w ++ b) := String.append_assoc
    rw [h.tokens_exchange hn, Expression.tokens_relocate, hw.tokens_eq, htext,
      Sentence.tokens_ofText_append hleft, Sentence.tokens_ofText_append hright, List.map_append,
      List.map_map, Token.relocate_comp, hmove]
  · rw [String.append_assoc, Token.defects_scan_append hleft, Token.defects_scan_append hright,
      ha, hw.defects_eq_nil, hb]
    rfl

/-- A phrase in parentheses may take the place of every numeral. -/
theorem exchange_inParentheses (h : IsPhrase c e (a ++ d ++ b)) (hn : n.IsNumeral a d b)
    {t : String} (ht : IsPhrase (.chain .sum) f t) {v : Int32} (hv : f.evaluate = .ok v) :
    ∃ e', IsPhrase c e' (a ++ Text.inParentheses t ++ b) ∧
      e'.evaluate = (e.exchange a.utf8ByteSize id (.literal v)).evaluate.mapError
        (Fault.relocate (Text.exchange a d (Text.inParentheses t))) := by
  have htext : (Text.inParentheses t).toList = ('(' :: t.toList) ++ [')'] := by
    simp [Text.inParentheses]
  have hleft : ¬ DigitsMeet a.toList (Text.inParentheses t ++ b).toList :=
    not_digitsMeet_of_head (by simp [htext])
  have hright : ¬ DigitsMeet (Text.inParentheses t).toList b.toList :=
    not_digitsMeet_of_getLast (by rw [htext, List.getLast?_concat]; simp)
  refine ⟨_, h.exchange hn ht.group hleft hright, ?_⟩
  refine Expression.evaluate_exchange e (v := v) ?_ rfl
  rw [Expression.relocate_grouped, Expression.evaluate_grouped, Expression.evaluate_relocate,
    Expression.evaluate_relocate, hv]
  rfl

/-- With a value in the place of a numeral, a phrase has a value, or one of its division signs
divides by zero. -/
theorem evaluate_exchange_cases {text : String} (h : IsPhrase c e text) (place : Nat) (v : Int32) :
    (∃ w, (e.exchange place id (.literal v)).evaluate = .ok w) ∨
      ∃ o ∈ (Sentence.ofText text).tokens, o.kind = .operator .divide ∧
        (e.exchange place id (.literal v)).evaluate = .error (.divisionByZero o.position) := by
  have hmem {t : Token} (ht : t ∈ (e.exchange place id (.literal v)).tokens) :
      (t.kind = .number ∧ t.value = some v) ∨ t ∈ (Sentence.ofText text).tokens := by
    rcases Expression.mem_tokens_exchange ht with ht | ⟨u, hu, rfl⟩
    · obtain rfl := List.mem_singleton.mp ht
      exact .inl ⟨rfl, rfl⟩
    · exact .inr (h.tokens_eq ▸ hu)
  have hderives : Derives c (e.exchange place id (.literal v)) := h.derives.exchange (.numeral rfl)
  have hvalue : ∀ t ∈ (e.exchange place id (.literal v)).tokens, t.kind = .number →
      ∃ w, t.valueOrFault = .ok w := by
    intro t ht hkind
    rcases hmem ht with ⟨-, hv⟩ | hline
    · exact ⟨v, by rw [Token.valueOrFault, hv]⟩
    · exact Token.exists_valueOrFault_of_mem_tokens h.defects_eq_nil hline hkind
  rcases hderives.evaluate_cases hvalue with hvalue | ⟨o, ho, hkind, hfault⟩
  · exact .inl hvalue
  · refine .inr ⟨o, (hmem ho).resolve_left fun hnumber => ?_, hkind, hfault⟩
    simp [hkind] at hnumber

end IsPhrase

/-! ### Lines -/

section Line

variable {a d b : String} {n : Token} {v : Int32}

/-- A line that has a value is a phrase of that value. -/
theorem isPhrase_of_calculate_eq_ok {t : String} (h : calculate t = .ok v) :
    IsPhrase (.chain .sum) (Reading.ofText t).root t ∧
      (Reading.ofText t).root.evaluate = .ok v := by
  have hvalid : (Reading.ofText t).diagnostics = [] := by
    by_contra hne
    simp [calculate_of_diagnostics_ne_nil hne] at h
  refine ⟨Reading.isPhrase_root hvalid, ?_⟩
  rw [calculate_of_diagnostics_eq_nil hvalid] at h
  cases hevaluate : (Reading.ofText t).root.evaluate with
  | ok w =>
      rw [hevaluate] at h
      exact congrArg _ (Except.ok.inj h)
  | error fault => simp [hevaluate, Except.mapError] at h

/-- Where a token of a line stands when another text comes in the place of a numeral. -/
theorem Token.IsNumeral.exchange_position (hn : n.IsNumeral a d b) {o : Token}
    (ho : o ∈ (Sentence.ofText (a ++ d ++ b)).tokens) (hkind : o.kind ≠ .number) :
    (o.position < a.utf8ByteSize ∧ ∀ w, Text.exchange a d w o.position = o.position) ∨
      ∃ k, o.position = a.utf8ByteSize + d.utf8ByteSize + k ∧
        ∀ w, Text.exchange a d w o.position = a.utf8ByteSize + w.utf8ByteSize + k := by
  rw [hn.tokens_eq, List.mem_append, List.mem_cons, List.mem_map] at ho
  rcases ho with ho | rfl | ⟨t, -, rfl⟩
  · have hlt := Sentence.position_lt_of_mem_tokens ho
    exact .inl ⟨hlt, fun w => Text.exchange_of_lt d w hlt⟩
  · exact absurd hn.kind_eq hkind
  · refine .inr ⟨t.position, ?_, fun w => ?_⟩
    · rw [position_relocate, String.utf8ByteSize_append]
    · rw [position_relocate, Text.exchange_add, String.utf8ByteSize_append]

/-- **Interchange.** Take a numeral `d` out of a valid line, and put in its place, in parentheses,
either of two lines of one value. If both lines that this gives are valid, they are worth the
same, or the same division sign of the first line divides by zero in both: one in front of `d`,
which stays where it is, or one behind `d`, which moves with what is in its place. The only thing
that can be wrong with either line is that it is too high. -/
theorem calculate_interchange {t₁ t₂ : String}
    (hline : (Reading.ofText (a ++ d ++ b)).diagnostics = []) (hn : n.IsNumeral a d b)
    (h₁ : calculate t₁ = .ok v) (h₂ : calculate t₂ = .ok v) :
    ((Reading.ofText (a ++ Text.inParentheses t₁ ++ b)).diagnostics = [] →
      (Reading.ofText (a ++ Text.inParentheses t₂ ++ b)).diagnostics = [] →
      (∃ w, calculate (a ++ Text.inParentheses t₁ ++ b) = .ok w ∧
        calculate (a ++ Text.inParentheses t₂ ++ b) = .ok w) ∨
      ∃ o ∈ (Sentence.ofText (a ++ d ++ b)).tokens, o.kind = .operator .divide ∧
        ((o.position < a.utf8ByteSize ∧
            calculate (a ++ Text.inParentheses t₁ ++ b) =
              .error (.undefined (.divisionByZero o.position)) ∧
            calculate (a ++ Text.inParentheses t₂ ++ b) =
              .error (.undefined (.divisionByZero o.position))) ∨
          ∃ k, o.position = a.utf8ByteSize + d.utf8ByteSize + k ∧
            calculate (a ++ Text.inParentheses t₁ ++ b) =
              .error (.undefined (.divisionByZero (a.utf8ByteSize + (t₁.utf8ByteSize + 2) + k))) ∧
            calculate (a ++ Text.inParentheses t₂ ++ b) =
              .error (.undefined (.divisionByZero (a.utf8ByteSize + (t₂.utf8ByteSize + 2) + k))))) ∧
    ∀ t ∈ [t₁, t₂], (Reading.ofText (a ++ Text.inParentheses t ++ b)).diagnostics = [] ∨
      ∃ position, (Reading.ofText (a ++ Text.inParentheses t ++ b)).diagnostics =
        [⟨.tooDeep depthLimit, position⟩] := by
  have hphrase := Reading.isPhrase_root hline
  obtain ⟨hphrase₁, hvalue₁⟩ := isPhrase_of_calculate_eq_ok h₁
  obtain ⟨hphrase₂, hvalue₂⟩ := isPhrase_of_calculate_eq_ok h₂
  obtain ⟨e₁, he₁, heq₁⟩ := hphrase.exchange_inParentheses hn hphrase₁ hvalue₁
  obtain ⟨e₂, he₂, heq₂⟩ := hphrase.exchange_inParentheses hn hphrase₂ hvalue₂
  constructor
  · intro hvalid₁ hvalid₂
    rw [he₁.calculate_eq hvalid₁, he₂.calculate_eq hvalid₂, heq₁, heq₂]
    rcases hphrase.evaluate_exchange_cases a.utf8ByteSize v with ⟨w, hw⟩ | ⟨o, ho, hkind, hfault⟩
    · rw [hw]
      exact .inl ⟨w, rfl, rfl⟩
    · rw [hfault]
      right
      refine ⟨o, ho, hkind, ?_⟩
      rcases hn.exchange_position ho (by simp [hkind]) with ⟨hlt, hmove⟩ | ⟨k, hk, hmove⟩
      · refine .inl ⟨hlt, ?_, ?_⟩ <;> simp only [Except.mapError, Fault.relocate, hmove]
      · refine .inr ⟨k, hk, ?_, ?_⟩ <;>
          simp only [Except.mapError, Fault.relocate, hmove, Text.utf8ByteSize_inParentheses]
  · simp only [List.forall_mem_cons, List.not_mem_nil, IsEmpty.forall_iff, implies_true, and_true]
    exact ⟨he₁.diagnostics_cases, he₂.diagnostics_cases⟩

/-- The division sign stands behind the numeral, and it divides by zero at two different places. -/
theorem calculate_interchange_divide :
    (Reading.ofText ("2*" ++ "7" ++ "/0")).diagnostics = [] ∧
      Token.IsNumeral ⟨.number, 2, "7", some 7⟩ "2*" "7" "/0" ∧
      calculate "3" = .ok 3 ∧ calculate "1 + 2" = .ok 3 ∧
      calculate ("2*" ++ Text.inParentheses "3" ++ "/0") =
        .error (.undefined (.divisionByZero 5)) ∧
      calculate ("2*" ++ Text.inParentheses "1 + 2" ++ "/0") =
        .error (.undefined (.divisionByZero 9)) := by
  have hline : (Reading.ofText ("2*" ++ "7" ++ "/0")).diagnostics = [] := by decide +kernel
  have hmem : ⟨.number, 2, "7", some 7⟩ ∈ (Sentence.ofText ("2*" ++ "7" ++ "/0")).tokens := by
    decide +kernel
  have hn : Token.IsNumeral ⟨.number, 2, "7", some 7⟩ "2*" "7" "/0" := ⟨hmem, rfl, rfl, rfl⟩
  have h₁ : calculate "3" = .ok 3 := by decide +kernel
  have h₂ : calculate "1 + 2" = .ok 3 := by decide +kernel
  have hvalid₁ : (Reading.ofText ("2*" ++ Text.inParentheses "3" ++ "/0")).diagnostics = [] := by
    decide +kernel
  have hvalid₂ :
      (Reading.ofText ("2*" ++ Text.inParentheses "1 + 2" ++ "/0")).diagnostics = [] := by
    decide +kernel
  have hzero : calculate ("2*" ++ Text.inParentheses "3" ++ "/0") =
      .error (.undefined (.divisionByZero 5)) := by
    decide +kernel
  have hplace : ∀ o ∈ (Sentence.ofText ("2*" ++ "7" ++ "/0")).tokens,
      o.kind = .operator .divide → o.position = 3 := by
    decide +kernel
  refine ⟨hline, hn, h₁, h₂, hzero, ?_⟩
  rcases (calculate_interchange hline hn h₁ h₂).1 hvalid₁ hvalid₂ with
    ⟨w, hw, -⟩ | ⟨o, ho, hkind, ⟨hlt, -⟩ | ⟨k, hk, -, h⟩⟩
  · simp [hzero] at hw
  · rw [hplace o ho hkind] at hlt
    exact absurd hlt (by decide)
  · rw [hplace o ho hkind] at hk
    obtain rfl : k = 0 := Nat.add_left_cancel (n := 3) hk.symm
    exact h

end Line

end Calculator
