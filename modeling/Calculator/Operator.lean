/-!
# Operators

The four operators of the arithmetic language, the two levels at which they bind, and their
meaning on 32-bit integers.

Addition and subtraction form the level of **sums**, multiplication and division the level of
**products**, which binds tighter; operators of one level group to the left. Arithmetic is
that of two's complement words: sums, differences and products wrap around, and a quotient is
truncated toward zero. The only operation without a result is division by zero.
-/

namespace Calculator

/-- The two levels at which binary operators bind. -/
inductive Level
  /-- The level of addition and subtraction. -/
  | sum
  /-- The level of multiplication and division. -/
  | product
deriving DecidableEq

namespace Level

/-- How tightly the operators of a level bind; zero is left for what is no operator. -/
def precedence : Level → Nat
  | sum => 1
  | product => 2

end Level

/-- The four binary operators. -/
inductive Operator
  /-- Addition. -/
  | plus
  /-- Subtraction. -/
  | minus
  /-- Multiplication. -/
  | times
  /-- Division, truncated toward zero. -/
  | divide
deriving DecidableEq

namespace Operator

/-- The character that stands for an operator in a text. -/
def symbol : Operator → Char
  | plus => '+'
  | minus => '-'
  | times => '*'
  | divide => '/'

/-- The level at which an operator binds. -/
def level : Operator → Level
  | plus | minus => .sum
  | times | divide => .product

/-- How tightly an operator binds. -/
def precedence (o : Operator) : Nat :=
  o.level.precedence

/-- The result of an operator on two words, or nothing for a division by zero. The quotient of
the least word by `-1` wraps around to the least word. -/
def compute : Operator → Int32 → Int32 → Option Int32
  | plus, a, b => some (a + b)
  | minus, a, b => some (a - b)
  | times, a, b => some (a * b)
  | divide, a, b => if b = 0 then none else some (a / b)

/-- Division by zero is the only operation without a result. -/
theorem compute_eq_none_iff {o : Operator} {a b : Int32} :
    o.compute a b = none ↔ o = divide ∧ b = 0 := by
  cases o <;> simp [compute]

end Operator

end Calculator
