import Calculator.Grammar

/-!
# Reading Expressions

Recursive descent over a list of tokens. The grammar has three layers: a **chain** of sums joins
operands that are chains of products, a chain of products joins **primaries**, and a primary is
a numeral or a chain of sums in parentheses. Chains group to the left.

Reading never fails. Where a token is missing, a stand-in with empty text takes its place and
the defect is reported; nothing is skipped, so every token that is consumed becomes part of the
tree. The one exception is the **depth limit**: an expression of more levels than it allows is
given up as a whole. That is reported once, the rest of the tokens is dropped, and a stand-in
numeral takes the place of the expression. A group is already refused at its opening when as
many groups are open as the limit allows, which bounds the recursion.

* `Remaining` — what is left to read: some tokens, or nothing after giving up;
* `Parsed` — an expression with its height, what was reported on the way, and what is left;
* `Parser.chain`, `Parser.operand`, `Parser.extend`, `Parser.primary` — the grammar, with the
  equations `chain_eq`, `operand_sum`, `operand_product`, `extend_eq` and `primary_eq`;
* `Parser.operand_length_le` — behind an operand no more is left than there was in front of it.

A parser without a depth limit is one with `limit := none`.
-/

namespace Calculator

/-- What is left to read. -/
inductive Remaining
  /-- These tokens are left. -/
  | tokens (ts : List Token)
  /-- Reading was given up, and nothing is left. -/
  | givenUp
deriving DecidableEq

namespace Remaining

/-- The tokens that are left; there are none after giving up. -/
def toList : Remaining → List Token
  | tokens ts => ts
  | givenUp => []

/-- The number of tokens that are left. -/
def length (r : Remaining) : Nat :=
  r.toList.length

/-- The next token, which is the mark for the end when no token is left. -/
def current (endOfFile : Token) (r : Remaining) : Token :=
  r.toList.head?.getD endOfFile

/-- What is left behind the next token. -/
def behind : Remaining → Remaining
  | tokens ts => tokens ts.tail
  | givenUp => givenUp

/-- The next token and those behind it, if its kind passes a test. -/
def takeIf (test : Token.Kind → Bool) (r : Remaining) : Option (Token × List Token) :=
  match r.toList with
  | [] => none
  | t :: ts => if test t.kind then some (t, ts) else none

/-- The report of a defect that is met here. After giving up nothing is reported. -/
def report (d : Diagnostic) : Remaining → List Diagnostic
  | tokens _ => [d]
  | givenUp => []

/-- Passing over a token leaves no more than there was. -/
theorem behind_length_le (r : Remaining) : r.behind.length ≤ r.length := by
  cases r <;> simp [behind, length, toList]

/-- Taking a token leaves less than there was. -/
theorem length_lt_of_takeIf {test : Token.Kind → Bool} {r : Remaining} {t : Token}
    {ts : List Token} (h : r.takeIf test = some (t, ts)) :
    (tokens ts).length < r.length := by
  unfold takeIf at h
  split at h
  · exact absurd h (by simp)
  · next heq =>
    split at h
    · simp only [Option.some.injEq, Prod.mk.injEq] at h
      simp only [length, heq, ← h.2]
      simp [toList]
    · exact absurd h (by simp)

end Remaining

/-- An expression that was read. -/
structure Parsed where
  /-- The expression. -/
  expression : Expression
  /-- The number of its levels. -/
  height : Nat
  /-- What was reported while reading it. -/
  diagnostics : List Diagnostic
  /-- What is left behind it. -/
  rest : Remaining
deriving DecidableEq

/-- A token that the grammar asks for at one place. -/
structure Expected where
  /-- The token that was found, or its stand-in. -/
  token : Token
  /-- What was reported about it. -/
  diagnostics : List Diagnostic
  /-- What is left behind it. -/
  rest : Remaining
deriving DecidableEq

/-- What the reading of a sentence depends on beside its tokens. -/
structure Parser where
  /-- The number of levels that an expression may have, if there is a limit. -/
  limit : Option Nat
  /-- The mark behind the last token. -/
  endOfFile : Token
deriving DecidableEq

namespace Parser

/-! ### Steps -/

/-- The next token, if it is of the given kind. Otherwise a stand-in at its place, and the
report that another kind was found. -/
def expect (p : Parser) (kind : Token.Kind) (r : Remaining) : Expected :=
  let found := r.current p.endOfFile
  if found.kind = kind then
    ⟨found, [], r.behind⟩
  else
    ⟨.standIn kind found.position,
      r.report ⟨.unexpectedToken found.kind kind, found.position⟩, r⟩

/-- Gives up: a stand-in numeral, and the report that the limit is passed. -/
def giveUp (limit position : Nat) (diagnostics : List Diagnostic) (r : Remaining) : Parsed where
  expression := .number (.standIn .number position)
  height := 1
  diagnostics := diagnostics ++ r.report ⟨.tooDeep limit, position⟩
  rest := .givenUp

/-- Gives up an expression of more levels than the limit allows. -/
def bounded (p : Parser) (e : Parsed) : Parsed :=
  match p.limit with
  | none => e
  | some limit =>
    if limit < e.height then giveUp limit e.expression.position e.diagnostics e.rest else e

/-- Two operands and the operator between them. -/
def join (p : Parser) (left : Parsed) (operator : Token) (right : Parsed) : Parsed :=
  p.bounded
    { expression := .binary left.expression operator right.expression
      height := max left.height right.height + 1
      diagnostics := left.diagnostics ++ right.diagnostics
      rest := right.rest }

/-- An expression behind an opening parenthesis, with the closing one that should follow. -/
def enclose (p : Parser) (opening : Token) (inner : Parsed) : Parsed :=
  let closing := p.expect .groupClose inner.rest
  p.bounded
    { expression := .grouped opening inner.expression closing.token
      height := inner.height + 1
      diagnostics := inner.diagnostics ++ closing.diagnostics
      rest := closing.rest }

/-- A numeral. -/
def numeral (p : Parser) (r : Remaining) : Parsed :=
  let number := p.expect .number r
  { expression := .number number.token
    height := 1
    diagnostics := number.diagnostics
    rest := number.rest }

/-- The limit, if so many groups are open that no further one may be. -/
def exhausted? (p : Parser) (nesting : Nat) : Option Nat :=
  p.limit.filter (· ≤ nesting)

/-- What is left behind an expected token is no more than what there was, found or not. -/
theorem expect_length_le (p : Parser) (kind : Token.Kind) (r : Remaining) :
    (p.expect kind r).rest.length ≤ r.length := by
  simp only [expect]
  split
  · exact r.behind_length_le
  · exact Nat.le_refl _

/-- The limit does not give anything back: giving up leaves nothing at all. -/
theorem bounded_length_le (p : Parser) (e : Parsed) :
    (p.bounded e).rest.length ≤ e.rest.length := by
  unfold bounded
  split
  · exact Nat.le_refl _
  · split
    · exact Nat.zero_le _
    · exact Nat.le_refl _

/-- A node leaves no more than its right operand does. -/
theorem join_length_le (p : Parser) (left : Parsed) (operator : Token) (right : Parsed) :
    (p.join left operator right).rest.length ≤ right.rest.length :=
  p.bounded_length_le _

/-- A group leaves no more than the expression in it does. -/
theorem enclose_length_le (p : Parser) (opening : Token) (inner : Parsed) :
    (p.enclose opening inner).rest.length ≤ inner.rest.length :=
  Nat.le_trans (p.bounded_length_le _) (p.expect_length_le _ _)

/-- A numeral leaves no more than there was. -/
theorem numeral_length_le (p : Parser) (r : Remaining) :
    (p.numeral r).rest.length ≤ r.length :=
  p.expect_length_le _ _

/-! ### The grammar -/

/-- An expression that was read from at most the given number of tokens. -/
abbrev Within (n : Nat) : Type :=
  { e : Parsed // e.rest.length ≤ n }

/-- How far an operand of a level stands above the primaries in the order of calls. -/
def rank : Level → Nat
  | .sum => 3
  | .product => 1

mutual

/-- A chain, with the proof that what is left is no longer than what there was. -/
def chainWithin (p : Parser) (l : Level) (nesting : Nat) (r : Remaining) : Within r.length :=
  match p.operandWithin l nesting r with
  | ⟨first, hf⟩ =>
    match p.extendWithin l nesting first with
    | ⟨whole, hw⟩ => ⟨whole, Nat.le_trans hw hf⟩
termination_by 6 * r.length + rank l + 1

/-- An operand of a chain, with the same proof. -/
def operandWithin (p : Parser) (l : Level) (nesting : Nat) (r : Remaining) : Within r.length :=
  match l with
  | .sum => p.chainWithin .product nesting r
  | .product => p.primaryWithin nesting r
termination_by 6 * r.length + rank l
decreasing_by
  · simp [rank]
  · simp [rank]

/-- The rest of a chain, with the same proof. -/
def extendWithin (p : Parser) (l : Level) (nesting : Nat) (left : Parsed) :
    Within left.rest.length :=
  match h : left.rest.takeIf l.has with
  | none => ⟨left, Nat.le_refl _⟩
  | some (operator, ts) =>
    have shorter := Remaining.length_lt_of_takeIf h
    match p.operandWithin l nesting (.tokens ts) with
    | ⟨right, hr⟩ =>
      have joined := Nat.le_trans (p.join_length_le left operator right) hr
      match p.extendWithin l nesting (p.join left operator right) with
      | ⟨whole, hw⟩ => ⟨whole, Nat.le_trans hw (Nat.le_trans joined (Nat.le_of_lt shorter))⟩
termination_by 6 * left.rest.length
decreasing_by
  · cases l <;> simp only [rank] <;> omega
  · omega

/-- A primary, with the same proof. -/
def primaryWithin (p : Parser) (nesting : Nat) (r : Remaining) : Within r.length :=
  match h : r.takeIf (· == .groupOpen) with
  | none => ⟨p.numeral r, p.numeral_length_le r⟩
  | some (opening, ts) =>
    have shorter := Remaining.length_lt_of_takeIf h
    match p.exhausted? nesting with
    | some limit => ⟨giveUp limit opening.position [] r, Nat.zero_le _⟩
    | none =>
      match p.chainWithin .sum (nesting + 1) (.tokens ts) with
      | ⟨inner, hi⟩ =>
        ⟨p.enclose opening inner,
          Nat.le_trans (p.enclose_length_le opening inner)
            (Nat.le_trans hi (Nat.le_of_lt shorter))⟩
termination_by 6 * r.length
decreasing_by simp only [rank]; omega

end

/-- A **chain**: operands of a level with operators of that level between them. -/
def chain (p : Parser) (l : Level) (nesting : Nat) (r : Remaining) : Parsed :=
  (p.chainWithin l nesting r).1

/-- An **operand** of a chain: a chain of products in a sum, a primary in a product. -/
def operand (p : Parser) (l : Level) (nesting : Nat) (r : Remaining) : Parsed :=
  (p.operandWithin l nesting r).1

/-- The **rest of a chain**: as long as an operator of the level follows, it takes the operator
and an operand and joins them to what is on their left. -/
def extend (p : Parser) (l : Level) (nesting : Nat) (left : Parsed) : Parsed :=
  (p.extendWithin l nesting left).1

/-- A **primary**: a numeral, or a chain of sums in parentheses. -/
def primary (p : Parser) (nesting : Nat) (r : Remaining) : Parsed :=
  (p.primaryWithin nesting r).1

/-- A chain is an operand, and then the rest of the chain. -/
theorem chain_eq (p : Parser) (l : Level) (nesting : Nat) (r : Remaining) :
    p.chain l nesting r = p.extend l nesting (p.operand l nesting r) := by
  rw [chain, chainWithin]
  rfl

/-- An operand of a sum is a chain of products. -/
theorem operand_sum (p : Parser) (nesting : Nat) (r : Remaining) :
    p.operand .sum nesting r = p.chain .product nesting r := by
  rw [operand, operandWithin]
  rfl

/-- An operand of a product is a primary. -/
theorem operand_product (p : Parser) (nesting : Nat) (r : Remaining) :
    p.operand .product nesting r = p.primary nesting r := by
  rw [operand, operandWithin]
  rfl

/-- The **loop** of a chain: it stops where no operator of the level follows, and otherwise goes on
with both operands joined. -/
theorem extend_eq (p : Parser) (l : Level) (nesting : Nat) (left : Parsed) :
    p.extend l nesting left =
      match left.rest.takeIf l.has with
      | none => left
      | some (operator, ts) =>
        p.extend l nesting (p.join left operator (p.operand l nesting (.tokens ts))) := by
  rw [extend, extendWithin]
  split <;> simp only [*]
  rfl

/-- A primary is a numeral unless a parenthesis opens; then it is a group, if one more may be
open. -/
theorem primary_eq (p : Parser) (nesting : Nat) (r : Remaining) :
    p.primary nesting r =
      match r.takeIf (· == .groupOpen) with
      | none => p.numeral r
      | some (opening, ts) =>
        match p.exhausted? nesting with
        | some limit => giveUp limit opening.position [] r
        | none => p.enclose opening (p.chain .sum (nesting + 1) (.tokens ts)) := by
  rw [primary, primaryWithin]
  split <;> simp only [*]
  split <;> rfl

/-- Behind an operand no more is left than there was in front of it. -/
theorem operand_length_le (p : Parser) (l : Level) (nesting : Nat) (r : Remaining) :
    (p.operand l nesting r).rest.length ≤ r.length :=
  (p.operandWithin l nesting r).2

end Parser

end Calculator
