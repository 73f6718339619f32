import Calculator.Token
import Calculator.Text.Numeral

/-!
# Expressions

Expression trees over tokens: a numeral, an operator between two operands, or an expression
inside a pair of parentheses. A tree keeps every token it was made of, so the text it came from
can be told from it; the tokens of a tree are arbitrary, and whether they make sense is a
property of the tree and no part of its type.

* `Expression.tokens` — the tokens from left to right;
* `Expression.position` — where the first of them starts (`position_eq_head_tokens`);
* `Expression.height` — the number of levels;
* `Expression.literal`, `Expression.operation`, `Expression.group` — trees that are made
  without a text, with tokens that stand at position zero.
-/

namespace Calculator

/-- An expression with the tokens that it is written with. -/
inductive Expression
  /-- A numeral. -/
  | number (token : Token)
  /-- An operator between two operands. -/
  | binary (left : Expression) (operator : Token) (right : Expression)
  /-- An expression in parentheses. -/
  | grouped (opening : Token) (inner : Expression) (closing : Token)
deriving DecidableEq

namespace Expression

/-- The tokens of an expression from left to right. -/
def tokens : Expression → List Token
  | number token => [token]
  | binary left operator right => left.tokens ++ operator :: right.tokens
  | grouped opening inner closing => opening :: inner.tokens ++ [closing]

/-- The byte offset of the first token. -/
def position : Expression → Nat
  | number token => token.position
  | binary left _ _ => left.position
  | grouped opening _ _ => opening.position

/-- The number of levels: every operator and every pair of parentheses adds one. -/
def height : Expression → Nat
  | number _ => 1
  | binary left _ right => max left.height right.height + 1
  | grouped _ inner _ => inner.height + 1

/-- The expression with every token changed in the same way. -/
def mapTokens (f : Token → Token) : Expression → Expression
  | number token => number (f token)
  | binary left operator right =>
    binary (left.mapTokens f) (f operator) (right.mapTokens f)
  | grouped opening inner closing => grouped (f opening) (inner.mapTokens f) (f closing)

/-! ### Trees without a text -/

/-- The numeral of a 32-bit integer. A negative value has a text that no line can bring forth as
one token. -/
def literal (v : Int32) : Expression :=
  number
    { kind := .number
      position := 0
      text := Text.Numeral.ofInt32 v
      value := some v }

/-- Two operands with a token of the given kind between them. -/
def operation (left : Expression) (kind : Token.Kind) (right : Expression) : Expression :=
  binary left (.ofKind kind) right

/-- An expression inside a pair of parentheses. -/
def group (inner : Expression) : Expression :=
  grouped (.ofKind .groupOpen) inner (.ofKind .groupClose)

/-! ### Elementary facts -/

/-- The tokens of an operator with its operands. -/
@[simp] theorem mem_tokens_binary {left right : Expression} {operator t : Token} :
    t ∈ (binary left operator right).tokens ↔
      t ∈ left.tokens ∨ t = operator ∨ t ∈ right.tokens := by
  simp [tokens]

/-- The tokens of a group. -/
@[simp] theorem mem_tokens_grouped {inner : Expression} {opening closing t : Token} :
    t ∈ (grouped opening inner closing).tokens ↔
      t = opening ∨ t ∈ inner.tokens ∨ t = closing := by
  simp [tokens]

/-- No expression is without tokens. -/
theorem tokens_ne_nil (e : Expression) : e.tokens ≠ [] := by
  cases e <;> simp [tokens]

/-- An expression starts where its first token does. -/
theorem position_eq_head_tokens (e : Expression) :
    e.position = (e.tokens.head e.tokens_ne_nil).position := by
  induction e with
  | number | grouped => rfl
  | binary left operator right ihl _ => simp [position, tokens, ihl, left.tokens_ne_nil]

/-- Every expression has a level. -/
theorem height_pos (e : Expression) : 0 < e.height := by
  cases e <;> simp [height]

/-- What is done to every token is done to the list of them. -/
theorem tokens_mapTokens (f : Token → Token) (e : Expression) :
    (e.mapTokens f).tokens = e.tokens.map f := by
  induction e with
  | number => rfl
  | binary left operator right ihl ihr => simp [mapTokens, tokens, ihl, ihr]
  | grouped opening inner closing ih => simp [mapTokens, tokens, ih]

/-- Changing tokens leaves the number of levels as it is. -/
theorem height_mapTokens (f : Token → Token) (e : Expression) :
    (e.mapTokens f).height = e.height := by
  induction e with
  | number => rfl
  | binary left operator right ihl ihr => simp [mapTokens, height, ihl, ihr]
  | grouped opening inner closing ih => simp [mapTokens, height, ih]

end Expression

end Calculator
