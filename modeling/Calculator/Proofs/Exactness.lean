import Mathlib.Data.Int.ModEq
import Calculator.Proofs.Calculation

/-!
# Exact Values

The value of an expression beside its value over the integers. Evaluation brings every
intermediate result back into the range of words. For sums, differences and products this can as
well be done once, at the end: the value is the only word that is congruent to the exact one,
however often the results on the way were out of range. A quotient is not compatible with wrapping
around. With divisions in it an expression has its exact value when no result on the way leaves the
range, and no single division of words can make a result leave it, except for the least word
divided by `-1`.

* `Expression.exactValue?` — the value over the integers;
* `Expression.evaluate_of_isOver_ring` — without divisions, wrapping around once is enough;
* `Expression.evaluate_of_staysInRange` — within the range, the value is the exact one;
* `not_fitsWord_tdiv_iff` — the only quotient out of range;
* `Expression.evaluate_exact` — all of this together.
-/

namespace Calculator

/-! ### The range of words -/

/-- The integer is in the range of 32-bit words. -/
def FitsWord (z : Int) : Prop :=
  -2 ^ 31 ≤ z ∧ z ≤ 2 ^ 31 - 1

/-- The integer of a word is in the range. -/
theorem fitsWord_toInt (w : Int32) : FitsWord w.toInt := by
  have hlow := w.le_toInt
  have hhigh := w.toInt_lt
  constructor <;> omega

/-- An integer in the range is that of its word. -/
theorem toInt_ofInt_of_fitsWord {z : Int} (h : FitsWord z) : (Int32.ofInt z).toInt = z := by
  obtain ⟨hlow, hhigh⟩ := h
  exact Int32.toInt_ofInt_of_le hlow (by omega)

/-- Each integer is congruent to one word. -/
theorem toInt_modEq_iff {w : Int32} {z : Int} :
    w.toInt ≡ z [ZMOD 2 ^ 32] ↔ w = Int32.ofInt z := by
  constructor
  · intro h
    apply Int32.toInt_inj.mp
    calc w.toInt
        = (w.toInt % ((2 ^ 32 : Nat) : Int)).bmod (2 ^ 32) := by
          rw [Int.emod_bmod, w.toInt_bmod]
      _ = (z % ((2 ^ 32 : Nat) : Int)).bmod (2 ^ 32) := congrArg (Int.bmod · (2 ^ 32)) h
      _ = (Int32.ofInt z).toInt := by rw [Int.emod_bmod, Int32.toInt_ofInt]
  · rintro rfl
    rw [Int32.toInt_ofInt]
    exact Int.bmod_emod

/-- The only quotient of words that is not a word is that of the least one by `-1`. -/
theorem not_fitsWord_tdiv_iff {a b : Int32} :
    ¬ FitsWord (a.toInt.tdiv b.toInt) ↔ a = Int32.minValue ∧ b = -1 := by
  constructor
  · intro h
    by_contra hother
    -- every other quotient is the integer that the quotient of the words stands for
    have heq : (a / b).toInt = a.toInt.tdiv b.toInt := by
      by_cases ha : a = Int32.minValue
      · exact Int32.toInt_div_of_ne_right a b fun hb => hother ⟨ha, hb⟩
      · exact Int32.toInt_div_of_ne_left a b ha
    exact h (heq ▸ fitsWord_toInt (a / b))
  · rintro ⟨rfl, rfl⟩ ⟨-, hhigh⟩
    exact absurd hhigh (by decide)

/-- Whether sums, differences and products are brought back into the range before an operation or
only behind it makes no difference. -/
theorem Operator.ofInt_exact_ofInt {o : Operator} (h : o ≠ divide) (a b : Int) :
    Int32.ofInt (o.exact (Int32.ofInt a).toInt (Int32.ofInt b).toInt) =
      Int32.ofInt (o.exact a b) := by
  cases o with
  | plus => simp only [exact, Int32.ofInt_add, Int32.ofInt_toInt]
  | minus => simp only [exact, Int32.ofInt_sub, Int32.ofInt_toInt]
  | times => simp only [exact, Int32.ofInt_mul, Int32.ofInt_toInt]
  | divide => exact absurd rfl h

/-! ### The value over the integers -/

namespace Expression

/-- The **exact value** of an expression: that over the integers, if there is one. There is none
when a numeral has no value, an operator is none, or a divisor is zero. -/
def exactValue? : Expression → Option Int
  | number token => token.value.map Int32.toInt
  | binary left operator right =>
    match operator.kind.operator?, left.exactValue?, right.exactValue? with
    | some o, some a, some b => if o = .divide ∧ b = 0 then none else some (o.exact a b)
    | _, _, _ => none
  | grouped _ inner _ => inner.exactValue?

/-- All numerals have values, and all operators are among the given ones. -/
def IsOver (operators : List Operator) : Expression → Prop
  | number token => ∃ v, token.value = some v
  | binary left operator right =>
    left.IsOver operators ∧ (∃ o ∈ operators, operator.kind = .operator o) ∧
      right.IsOver operators
  | grouped _ inner _ => inner.IsOver operators

/-- Exact evaluation meets no zero divisor. -/
def AvoidsZero (e : Expression) : Prop :=
  ∀ left operator right, binary left operator right ∈ e.postorder →
    operator.kind = .operator .divide → right.exactValue? ≠ some 0

/-- The exact values of all subexpressions are in the range of words. -/
def StaysInRange (e : Expression) : Prop :=
  ∀ f ∈ e.postorder, ∀ z, f.exactValue? = some z → FitsWord z

variable {left right inner : Expression} {operator opening closing : Token} {o : Operator}

/-- The exact value of an operator whose operands have one. -/
theorem exactValue?_binary {a b : Int} (hkind : operator.kind = .operator o)
    (hleft : left.exactValue? = some a) (hright : right.exactValue? = some b) :
    (binary left operator right).exactValue? =
      if o = .divide ∧ b = 0 then none else some (o.exact a b) := by
  rw [exactValue?, hkind, hleft, hright]
  rfl

/-- If no divisor in an expression is zero, none is in its operands, and neither is the right
operand of a division at the top. -/
theorem AvoidsZero.of_binary (h : (binary left operator right).AvoidsZero) :
    left.AvoidsZero ∧ right.AvoidsZero ∧
      (operator.kind = .operator .divide → right.exactValue? ≠ some 0) := by
  refine ⟨fun l op r hmem => ?_, fun l op r hmem => ?_, ?_⟩
  · exact h l op r (mem_postorder_binary.mpr (.inl hmem))
  · exact h l op r (mem_postorder_binary.mpr (.inr (.inl hmem)))
  · exact h left operator right (mem_postorder_binary.mpr (.inr (.inr rfl)))

/-- A group has the divisors of the expression in it. -/
theorem AvoidsZero.of_grouped (h : (grouped opening inner closing).AvoidsZero) :
    inner.AvoidsZero :=
  fun l op r hmem => h l op r (mem_postorder_grouped.mpr (.inl hmem))

/-- If all subexpressions are in range, those of both operands are, and so is the whole. -/
theorem StaysInRange.of_binary (h : (binary left operator right).StaysInRange) :
    left.StaysInRange ∧ right.StaysInRange ∧
      ∀ z, (binary left operator right).exactValue? = some z → FitsWord z := by
  refine ⟨fun f hmem => ?_, fun f hmem => ?_, ?_⟩
  · exact h f (mem_postorder_binary.mpr (.inl hmem))
  · exact h f (mem_postorder_binary.mpr (.inr (.inl hmem)))
  · exact h _ (mem_postorder_binary.mpr (.inr (.inr rfl)))

/-- A group has the subexpressions of the expression in it, and itself. -/
theorem StaysInRange.of_grouped (h : (grouped opening inner closing).StaysInRange) :
    inner.StaysInRange :=
  fun f hmem => h f (mem_postorder_grouped.mpr (.inl hmem))

/-- The word of a numeral stands for its exact value. -/
theorem evaluate_number_of_value {t : Token} {v : Int32} (h : t.value = some v) :
    (number t).exactValue? = some v.toInt ∧ (number t).evaluate = .ok (Int32.ofInt v.toInt) := by
  rw [exactValue?, evaluate_number, Token.valueOrFault, h, Int32.ofInt_toInt]
  exact ⟨rfl, rfl⟩

/-- **Wrapping around once is enough.** The value of an expression without divisions is what its
exact value wraps around to. -/
theorem evaluate_of_isOver_ring {e : Expression} (h : e.IsOver [.plus, .minus, .times]) :
    ∃ z, e.exactValue? = some z ∧ e.evaluate = .ok (Int32.ofInt z) := by
  induction e with
  | number t =>
      obtain ⟨v, hv⟩ := h
      exact ⟨v.toInt, evaluate_number_of_value hv⟩
  | binary left operator right ihleft ihright =>
      obtain ⟨hleft, ⟨o, ho, hkind⟩, hright⟩ := h
      obtain ⟨a, ha, hevala⟩ := ihleft hleft
      obtain ⟨b, hb, hevalb⟩ := ihright hright
      have hring : o ≠ .divide := by
        rintro rfl
        simp at ho
      refine ⟨o.exact a b, ?_, ?_⟩
      · rw [exactValue?_binary hkind ha hb, if_neg fun hzero => hring hzero.1]
      · rw [evaluate_binary_of_ok operator hevala hevalb, Token.combine_eq hkind,
          if_neg fun hzero => hring hzero.1, Operator.ofInt_exact_ofInt hring]
  | grouped opening inner closing ih => exact ih h

/-- **Within the range the value is exact**, with divisions as well. -/
theorem evaluate_of_staysInRange {e : Expression}
    (h : e.IsOver [.plus, .minus, .times, .divide]) (hzero : e.AvoidsZero)
    (hrange : e.StaysInRange) :
    ∃ z, e.exactValue? = some z ∧ FitsWord z ∧ e.evaluate = .ok (Int32.ofInt z) := by
  induction e with
  | number t =>
      obtain ⟨v, hv⟩ := h
      exact ⟨v.toInt, (evaluate_number_of_value hv).1, fitsWord_toInt v,
        (evaluate_number_of_value hv).2⟩
  | binary left operator right ihleft ihright =>
      obtain ⟨hleft, ⟨o, -, hkind⟩, hright⟩ := h
      obtain ⟨hzeroLeft, hzeroRight, hdivisor⟩ := hzero.of_binary
      obtain ⟨hrangeLeft, hrangeRight, hfits⟩ := hrange.of_binary
      obtain ⟨a, ha, hafits, hevala⟩ := ihleft hleft hzeroLeft hrangeLeft
      obtain ⟨b, hb, hbfits, hevalb⟩ := ihright hright hzeroRight hrangeRight
      have hnonzero : ¬ (o = .divide ∧ b = 0) := by
        rintro ⟨rfl, rfl⟩
        exact hdivisor hkind hb
      have hword : ¬ (o = .divide ∧ Int32.ofInt b = 0) := by
        rintro ⟨ho, hb0⟩
        refine hnonzero ⟨ho, ?_⟩
        rw [← toInt_ofInt_of_fitsWord hbfits, hb0]
        rfl
      have hexact : (binary left operator right).exactValue? = some (o.exact a b) := by
        rw [exactValue?_binary hkind ha hb, if_neg hnonzero]
      refine ⟨o.exact a b, hexact, hfits _ hexact, ?_⟩
      rw [evaluate_binary_of_ok operator hevala hevalb, Token.combine_eq hkind, if_neg hword,
        toInt_ofInt_of_fitsWord hafits, toInt_ofInt_of_fitsWord hbfits]
  | grouped opening inner closing ih => exact ih h hzero.of_grouped hrange.of_grouped

/-- The least word divided by `-1` wraps around to itself. -/
theorem evaluate_minValue_div (hkind : operator.kind = .operator .divide)
    (hleft : left.evaluate = .ok Int32.minValue) (hright : right.evaluate = .ok (-1)) :
    (binary left operator right).evaluate = .ok Int32.minValue := by
  rw [evaluate_binary_of_ok operator hleft hright, Token.combine, hkind]
  rfl

/-- **Evaluation against exact arithmetic.** Without divisions the value of an expression is the
one word that is congruent to its exact value, whatever the exact values of its subexpressions are.
With divisions it is the exact value, if no divisor is zero and no subexpression is out of range.
Of all quotients of words one is out of range, and that one evaluates to the least word. -/
theorem evaluate_exact (e : Expression) :
    (e.IsOver [.plus, .minus, .times] →
      ∃ z v, e.exactValue? = some z ∧ e.evaluate = .ok v ∧
        ∀ w : Int32, w.toInt ≡ z [ZMOD 2 ^ 32] ↔ w = v) ∧
    (e.IsOver [.plus, .minus, .times, .divide] → e.AvoidsZero → e.StaysInRange →
      ∃ v, e.evaluate = .ok v ∧ e.exactValue? = some v.toInt) ∧
    (∀ a b : Int32, b ≠ 0 →
      (¬ FitsWord (a.toInt.tdiv b.toInt) ↔ a = Int32.minValue ∧ b = -1)) ∧
    ∀ left operator right, operator.kind = .operator .divide →
      left.evaluate = .ok Int32.minValue → right.evaluate = .ok (-1) →
      (binary left operator right).evaluate = .ok Int32.minValue := by
  refine ⟨fun h => ?_, fun h hzero hrange => ?_, fun a b _ => not_fitsWord_tdiv_iff,
    fun left operator right => evaluate_minValue_div⟩
  · obtain ⟨z, hz, hevaluate⟩ := evaluate_of_isOver_ring h
    exact ⟨z, Int32.ofInt z, hz, hevaluate, fun w => toInt_modEq_iff⟩
  · obtain ⟨z, hz, hfits, hevaluate⟩ := evaluate_of_staysInRange h hzero hrange
    exact ⟨Int32.ofInt z, hevaluate, by rw [hz, toInt_ofInt_of_fitsWord hfits]⟩

/-- The square of the greatest word wraps around to one; a quotient is truncated toward zero; and
the least word divided by `-1` is out of range. -/
theorem evaluate_exact_square :
    (operation (literal Int32.maxValue) (.operator .times) (literal Int32.maxValue)).exactValue? =
        some 4611686014132420609 ∧
      (operation (literal Int32.maxValue) (.operator .times)
        (literal Int32.maxValue)).evaluate = .ok 1 ∧
      (operation (literal (-7)) (.operator .divide) (literal 2)).AvoidsZero ∧
      (operation (literal (-7)) (.operator .divide) (literal 2)).StaysInRange ∧
      (operation (literal (-7)) (.operator .divide) (literal 2)).evaluate = .ok (-3) ∧
      ¬ FitsWord (Int32.minValue.toInt.tdiv (-1 : Int32).toInt) ∧
      (operation (literal Int32.minValue) (.operator .divide) (literal (-1))).evaluate =
        .ok Int32.minValue := by
  have hsquare : (operation (literal Int32.maxValue) (.operator .times)
      (literal Int32.maxValue)).exactValue? = some 4611686014132420609 := by
    decide
  have hring : (operation (literal Int32.maxValue) (.operator .times)
      (literal Int32.maxValue)).IsOver [.plus, .minus, .times] :=
    ⟨⟨_, rfl⟩, ⟨.times, by simp, rfl⟩, ⟨_, rfl⟩⟩
  obtain ⟨z, v, hz, hevaluate, hword⟩ := (evaluate_exact _).1 hring
  obtain rfl : z = 4611686014132420609 := Option.some.inj (hz.symm.trans hsquare)
  obtain rfl : 1 = v := (hword 1).mp (by decide)
  have hquotient : (operation (literal (-7)) (.operator .divide) (literal 2)).exactValue? =
      some (-3) := by
    decide
  have hover : (operation (literal (-7)) (.operator .divide) (literal 2)).IsOver
      [.plus, .minus, .times, .divide] :=
    ⟨⟨_, rfl⟩, ⟨.divide, by simp, rfl⟩, ⟨_, rfl⟩⟩
  have hzero : (operation (literal (-7)) (.operator .divide) (literal 2)).AvoidsZero := by
    intro left operator right hmem _
    obtain ⟨-, -, rfl⟩ := by simpa [operation, literal, postorder] using hmem
    decide
  have hrange : (operation (literal (-7)) (.operator .divide) (literal 2)).StaysInRange := by
    intro f hmem z hz
    have hf : f = literal (-7) ∨ f = literal 2 ∨
        f = operation (literal (-7)) (.operator .divide) (literal 2) := by
      simpa [operation, literal, postorder] using hmem
    rcases hf with rfl | rfl | rfl
    · obtain rfl : -7 = z := Option.some.inj hz
      exact ⟨by decide, by decide⟩
    · obtain rfl : 2 = z := Option.some.inj hz
      exact ⟨by decide, by decide⟩
    · obtain rfl : -3 = z := Option.some.inj (hquotient.symm.trans hz)
      exact ⟨by decide, by decide⟩
  obtain ⟨q, hq, hexact⟩ := (evaluate_exact _).2.1 hover hzero hrange
  have hq3 : q.toInt = -3 := Option.some.inj (hexact.symm.trans hquotient)
  obtain rfl : q = -3 := Int32.toInt_inj.mp hq3
  refine ⟨hsquare, hevaluate, hzero, hrange, hq, ?_, ?_⟩
  · exact ((evaluate_exact (literal 0)).2.2.1 Int32.minValue (-1) (by decide)).mpr ⟨rfl, rfl⟩
  · exact (evaluate_exact (literal 0)).2.2.2 _ _ _ rfl rfl rfl

end Expression

end Calculator
