import Calculator.Expression

/-!
# Rendering

The canonical text of an expression: single spaces around every operator, no other blanks, and
parentheses where they are needed. An operand needs them when the grammar would otherwise give it
to another operator: when its own operator binds looser than the one above it, or as loosely and
stands on the right.

`Expression.render` writes this text in one pass, and decides at each operand whether to put it in
parentheses. The same can be said of trees. `Expression.parenthesize` puts a group around every
operand that needs one, and `Expression.text` writes the tokens as they are; the rendering is the
text of the tree with its groups (`Expression.render_eq`). A tree that was read from a line has
such operands only inside groups, so it is its own tree with groups.

* `Expression.needsGroup`, `Expression.render` — the one pass;
* `Expression.parenthesize`, `Expression.text` — the groups, and the texts of the tokens;
* `Expression.render_eq` — both come to the same text.
-/

namespace Calculator

/-- A text in parentheses. -/
def Text.inParentheses (text : String) : String :=
  "(" ++ text ++ ")"

/-- A text in parentheses, if it needs them. -/
def Text.inParenthesesIf (needed : Bool) (text : String) : String :=
  if needed then inParentheses text else text

namespace Expression

/-! ### In one pass -/

/-- Whether an operand needs parentheses beside an operator of the given precedence: its own
operator binds looser, or on the right as loosely. -/
def needsGroup (operand : Expression) (parent : Nat) (isRight : Bool) : Bool :=
  match operand with
  | binary _ operator _ =>
    let own := operator.kind.precedence
    own < parent || (isRight && own == parent)
  | number _ | grouped _ _ _ => false

/-- The **canonical text of an expression**. -/
def render : Expression → String
  | number token => token.text
  | binary left operator right =>
    let parent := operator.kind.precedence
    Text.inParenthesesIf (left.needsGroup parent false) left.render ++ " " ++ operator.text ++
      " " ++ Text.inParenthesesIf (right.needsGroup parent true) right.render
  | grouped opening inner closing => opening.text ++ inner.render ++ closing.text

/-! ### By way of trees -/

/-- The precedence of the operator at the top, if the expression has one there. -/
def topPrecedence? : Expression → Option Nat
  | number _ => none
  | binary _ operator _ => some operator.kind.precedence
  | grouped _ _ _ => none

/-- Whether an operand needs parentheses on the left of an operator: its own operator binds
looser. -/
def needsGroupOnLeft (operator : Token) (operand : Expression) : Bool :=
  operand.topPrecedence?.any (· < operator.kind.precedence)

/-- Whether an operand needs parentheses on the right of an operator: its own operator does not
bind tighter. -/
def needsGroupOnRight (operator : Token) (operand : Expression) : Bool :=
  operand.topPrecedence?.any (· ≤ operator.kind.precedence)

/-- An expression inside parentheses, if it needs them. -/
def groupIf (needed : Bool) (e : Expression) : Expression :=
  if needed then e.group else e

/-- The **expression with the groups that it needs**, so that reading its text gives back its
shape. -/
def parenthesize : Expression → Expression
  | number token => number token
  | binary left operator right =>
    binary (groupIf (needsGroupOnLeft operator left) left.parenthesize) operator
      (groupIf (needsGroupOnRight operator right) right.parenthesize)
  | grouped opening inner closing => grouped opening inner.parenthesize closing

/-- The texts of the tokens, with a space on either side of each operator. -/
def text : Expression → String
  | number token => token.text
  | binary left operator right => left.text ++ " " ++ operator.text ++ " " ++ right.text
  | grouped opening inner closing => opening.text ++ inner.text ++ closing.text

/-- Adding groups keeps the operator at the top. -/
theorem topPrecedence?_parenthesize (e : Expression) :
    e.parenthesize.topPrecedence? = e.topPrecedence? := by
  cases e <;> rfl

/-! ### The same text -/

/-- An operand is put in parentheses on the left where it gets a group on the left. -/
theorem needsGroup_left (operator : Token) (operand : Expression) :
    operand.needsGroup operator.kind.precedence false = needsGroupOnLeft operator operand := by
  cases operand <;> simp [needsGroup, needsGroupOnLeft, topPrecedence?]

/-- An operand is put in parentheses on the right where it gets a group on the right. -/
theorem needsGroup_right (operator : Token) (operand : Expression) :
    operand.needsGroup operator.kind.precedence true = needsGroupOnRight operator operand := by
  cases operand with
  | number | grouped => rfl
  | binary left own right =>
    simp only [needsGroup, needsGroupOnRight, topPrecedence?, Bool.true_and, Option.any_some,
      Nat.le_iff_lt_or_eq, Bool.decide_or]
    rfl

/-- A group that is added puts the text of the operand in parentheses. -/
theorem text_groupIf (needed : Bool) (e : Expression) :
    (groupIf needed e).text = Text.inParenthesesIf needed e.text := by
  cases needed <;> rfl

/-- **One pass is enough.** The rendering of an expression is the text of the expression with the
groups that it needs. -/
theorem render_eq (e : Expression) : e.render = e.parenthesize.text := by
  induction e with
  | number => rfl
  | binary left operator right ihleft ihright =>
    rw [render, parenthesize, text, text_groupIf, text_groupIf, ← ihleft, ← ihright,
      needsGroup_left, needsGroup_right]
  | grouped opening inner closing ih => rw [render, parenthesize, text, ih]

end Expression

end Calculator
