import Calculator.Expression

/-!
# Evaluation

The value of an expression: operands from left to right, then their operator, and the first
fault ends it. Parentheses do not matter, and neither do the texts of tokens: a numeral counts
by its value and an operator by its kind.

A tree without a text may have numerals without a value and operators that are none, so both
are faults as well. Of the three faults only a division by zero has its cause in the
arithmetic; the others mean that the tree is **ill-formed** (`Fault.isIllFormed`).

The arithmetic is that of 32-bit words, beside that of the integers. What an operator gives on two
words is what it gives on their integers, brought back into the range of words: nothing else is lost
on the way, and that only a division by zero has no result is as it is with the integers.

* `Fault`, `Fault.message` — what can go wrong, and how it is said;
* `Expression.evaluate` — the value of an expression, or its first fault;
* `Operator.exact` — the operators on integers;
* `Operator.compute_eq`, `Token.combine_eq` — the operators on words, and their tokens.
-/

namespace Calculator

/-- What can keep an expression from having a value. -/
inductive Fault
  /-- The right operand of the division sign at this byte offset is zero. -/
  | divisionByZero (position : Nat)
  /-- The numeral with this text, at this byte offset, has no value. -/
  | missingValue (text : String) (position : Nat)
  /-- A token of this kind stands in the place of an operator. -/
  | notAnOperator (kind : Token.Kind)
deriving DecidableEq

namespace Fault

/-- Whether a fault lies in the tree and not in the arithmetic. -/
def isIllFormed : Fault → Bool
  | divisionByZero _ => false
  | missingValue _ _ | notAnOperator _ => true

/-- What a fault says about the tree, or about the arithmetic. -/
def detail : Fault → String
  | divisionByZero position => "division by zero at position " ++ position.repr
  | missingValue text position =>
    "missing value for number expression \"" ++ text ++ "\" at position " ++ position.repr
  | notAnOperator kind => "unexpected binary operator <" ++ kind.name ++ ">"

/-- The text that a user is shown. -/
def message (f : Fault) : String :=
  if f.isIllFormed then "invalid state: " ++ f.detail else f.detail

end Fault

namespace Token

/-- The value of a token in the place of a numeral. -/
def valueOrFault (t : Token) : Except Fault Int32 :=
  match t.value with
  | some v => .ok v
  | none => .error (.missingValue t.text t.position)

/-- The result of a token in the place of an operator. -/
def combine (t : Token) (a b : Int32) : Except Fault Int32 :=
  match t.kind.operator? with
  | none => .error (.notAnOperator t.kind)
  | some o =>
    match o.compute a b with
    | some v => .ok v
    | none => .error (.divisionByZero t.position)

end Token

/-- The **value of an expression**, or the first fault that is met on the way. -/
def Expression.evaluate : Expression → Except Fault Int32
  | number token => token.valueOrFault
  | binary left operator right =>
    match left.evaluate with
    | .error fault => .error fault
    | .ok a =>
      match right.evaluate with
      | .error fault => .error fault
      | .ok b => operator.combine a b
  | grouped _ inner _ => inner.evaluate

namespace Expression

@[simp] theorem evaluate_number (t : Token) : (number t).evaluate = t.valueOrFault := rfl

@[simp] theorem evaluate_grouped (opening : Token) (inner : Expression) (closing : Token) :
    (grouped opening inner closing).evaluate = inner.evaluate := rfl

/-- Once both operands have values, the operator's token has the last word. -/
theorem evaluate_binary_of_ok {left right : Expression} {a b : Int32} (operator : Token)
    (hl : left.evaluate = .ok a) (hr : right.evaluate = .ok b) :
    (binary left operator right).evaluate = operator.combine a b := by
  simp only [evaluate, hl, hr]

/-- A fault of the left operand is the fault of the whole. -/
theorem evaluate_binary_of_left_error {left : Expression} {fault : Fault} (operator : Token)
    (right : Expression) (hl : left.evaluate = .error fault) :
    (binary left operator right).evaluate = .error fault := by
  simp only [evaluate, hl]

/-- A fault of the right operand is the fault of the whole once the left one has a value. -/
theorem evaluate_binary_of_right_error {left right : Expression} {a : Int32} {fault : Fault}
    (operator : Token) (hl : left.evaluate = .ok a) (hr : right.evaluate = .error fault) :
    (binary left operator right).evaluate = .error fault := by
  simp only [evaluate, hl, hr]

end Expression

/-! ### Words and integers -/

namespace Operator

/-- The result of an operator on integers. A quotient is truncated toward zero. -/
def exact : Operator → Int → Int → Int
  | plus, a, b => a + b
  | minus, a, b => a - b
  | times, a, b => a * b
  | divide, a, b => a.tdiv b

/-- The quotient of two words is their integer quotient; that of the least word by `-1` wraps
around. -/
theorem ofInt_tdiv_toInt (a b : Int32) : Int32.ofInt (a.toInt.tdiv b.toInt) = a / b := by
  rw [Int32.ofInt_tdiv a.minValue_le_toInt a.toInt_le b.minValue_le_toInt b.toInt_le,
    Int32.ofInt_toInt, Int32.ofInt_toInt]

/-- **Wrapping arithmetic.** Apart from a division by zero, an operator on words gives the word
that the exact result wraps around to. -/
theorem compute_eq (o : Operator) (a b : Int32) :
    o.compute a b =
      if o = divide ∧ b = 0 then none else some (Int32.ofInt (o.exact a.toInt b.toInt)) := by
  cases o with
  | plus => simp [compute, exact]
  | minus => simp [compute, exact]
  | times => simp [compute, exact]
  | divide => simp [compute, exact, ofInt_tdiv_toInt]

end Operator

/-- The result of an operator's token. A division by zero names the place of the token. -/
theorem Token.combine_eq {t : Token} {o : Operator} (hkind : t.kind = .operator o)
    (a b : Int32) :
    t.combine a b =
      if o = .divide ∧ b = 0 then .error (.divisionByZero t.position)
      else .ok (Int32.ofInt (o.exact a.toInt b.toInt)) := by
  simp only [combine, hkind, Kind.operator?, o.compute_eq]
  by_cases hzero : o = .divide ∧ b = 0
  · rw [if_pos hzero, if_pos hzero]
  · rw [if_neg hzero, if_neg hzero]

end Calculator
