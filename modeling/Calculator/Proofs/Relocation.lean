import Calculator.Proofs.Steps

/-!
# Relocation

Reading looks at kinds only. When every token of a line is moved to another position, by a map
of positions that need not even be monotone, the parser takes the same steps, and everything
that it says about positions is moved by the same map: the tokens of the tree, the stand-ins and
the diagnostics.

* `Token.relocate`, `Expression.relocate`, `Parsed.relocate` — moving positions;
* `Parser.Returns.relocate` — a run of the parser on tokens that were moved;
* `Parser.chain_relocate` — reading commutes with moving.

Moving all positions to zero is how two lines are compared that differ in their layout only
(`Expression.unplaced`).
-/

namespace Calculator

/-! ### Moving positions -/

/-- The token at another position. -/
def Token.relocate (g : Nat → Nat) (t : Token) : Token :=
  { t with position := g t.position }

/-- The diagnostic at another position. -/
def Diagnostic.relocate (g : Nat → Nat) (d : Diagnostic) : Diagnostic :=
  { d with position := g d.position }

/-- The expression with all its tokens moved. -/
def Expression.relocate (g : Nat → Nat) (e : Expression) : Expression :=
  e.mapTokens (Token.relocate g)

/-- What is left, with all tokens moved. -/
def Remaining.relocate (g : Nat → Nat) : Remaining → Remaining
  | tokens ts => tokens (ts.map (Token.relocate g))
  | givenUp => givenUp

/-- The result with everything in it moved. -/
def Parsed.relocate (g : Nat → Nat) (e : Parsed) : Parsed where
  expression := e.expression.relocate g
  height := e.height
  diagnostics := e.diagnostics.map (Diagnostic.relocate g)
  rest := e.rest.relocate g

/-- The result for one token with everything in it moved. -/
def Expected.relocate (g : Nat → Nat) (e : Expected) : Expected where
  token := e.token.relocate g
  diagnostics := e.diagnostics.map (Diagnostic.relocate g)
  rest := e.rest.relocate g

/-- The parser with the mark moved. -/
def Parser.relocate (g : Nat → Nat) (p : Parser) : Parser :=
  { p with endOfFile := p.endOfFile.relocate g }

variable {g : Nat → Nat}

namespace Token

@[simp] theorem kind_relocate (t : Token) : (t.relocate g).kind = t.kind := rfl

@[simp] theorem text_relocate (t : Token) : (t.relocate g).text = t.text := rfl

@[simp] theorem value_relocate (t : Token) : (t.relocate g).value = t.value := rfl

@[simp] theorem position_relocate (t : Token) : (t.relocate g).position = g t.position := rfl

/-- A stand-in is moved as any other token. -/
@[simp] theorem relocate_standIn (k : Token.Kind) (position : Nat) :
    (standIn k position).relocate g = standIn k (g position) := rfl

end Token

namespace Expression

/-- An expression is moved with its first token. -/
@[simp] theorem position_relocate (e : Expression) :
    (e.relocate g).position = g e.position := by
  induction e with
  | number => rfl
  | binary _ _ _ ih _ => exact ih
  | grouped => rfl

/-- Moving tokens adds no level. -/
@[simp] theorem height_relocate (e : Expression) : (e.relocate g).height = e.height :=
  height_mapTokens _ e

/-- The tokens of an expression are moved one by one. -/
theorem tokens_relocate (e : Expression) :
    (e.relocate g).tokens = e.tokens.map (Token.relocate g) :=
  tokens_mapTokens _ e

end Expression

namespace Remaining

/-- What is left is moved token by token. -/
theorem toList_relocate (r : Remaining) :
    (r.relocate g).toList = r.toList.map (Token.relocate g) := by
  cases r <;> rfl

/-- What stands in front is moved, the mark at the end too. -/
theorem current_relocate (endOfFile : Token) (r : Remaining) :
    (r.relocate g).current (endOfFile.relocate g) = (r.current endOfFile).relocate g := by
  rw [current, current, toList_relocate]
  cases r.toList <;> rfl

/-- Passing over a token can be done before moving, or behind it. -/
theorem behind_relocate (r : Remaining) : (r.relocate g).behind = r.behind.relocate g := by
  cases r with
  | tokens ts => simp [relocate, behind]
  | givenUp => rfl

/-- A report is moved with the tokens. -/
theorem report_relocate (d : Diagnostic) (r : Remaining) :
    (r.relocate g).report (d.relocate g) = (r.report d).map (Diagnostic.relocate g) := by
  cases r <;> rfl

/-- What is not taken is not taken in another place. -/
theorem takeIf_relocate_none {test : Token.Kind → Bool} {r : Remaining}
    (h : r.takeIf test = none) : (r.relocate g).takeIf test = none := by
  rw [takeIf_eq_none_iff] at h ⊢
  rw [toList_relocate, List.head?_map]
  simpa using h

/-- What is taken is taken in another place, and what is left is moved. -/
theorem takeIf_relocate_some {test : Token.Kind → Bool} {r : Remaining} {t : Token}
    {ts : List Token} (h : r.takeIf test = some (t, ts)) :
    (r.relocate g).takeIf test = some (t.relocate g, ts.map (Token.relocate g)) := by
  rw [takeIf_eq_some_iff] at h ⊢
  rw [toList_relocate, h.1]
  exact ⟨rfl, h.2⟩

end Remaining

/-! ### The parser on tokens that were moved -/

namespace Parser

variable {p : Parser}

/-- A token that is expected is found anywhere or nowhere. -/
theorem expect_relocate (kind : Token.Kind) (r : Remaining) :
    (p.relocate g).expect kind (r.relocate g) = (p.expect kind r).relocate g := by
  have hcurrent : (r.relocate g).current (p.relocate g).endOfFile =
      (r.current p.endOfFile).relocate g := r.current_relocate p.endOfFile
  by_cases h : (r.current p.endOfFile).kind = kind
  · rw [expect_of_kind h, expect_of_kind (by rw [hcurrent]; exact h), hcurrent,
      r.behind_relocate]
    rfl
  · rw [expect_of_kind_ne h, expect_of_kind_ne (by rw [hcurrent]; exact h), hcurrent]
    simp only [Expected.relocate, Token.relocate_standIn, Token.position_relocate,
      Token.kind_relocate, ← Remaining.report_relocate]
    rfl

/-- Giving up can be done before moving, or behind it. -/
theorem giveUp_relocate (m position : Nat) (ds : List Diagnostic) (r : Remaining) :
    giveUp m (g position) (ds.map (Diagnostic.relocate g)) (r.relocate g) =
      (giveUp m position ds r).relocate g := by
  have hreport := r.report_relocate (g := g) ⟨.tooDeep m, position⟩
  simp only [giveUp, Parsed.relocate, List.map_append, ← hreport]
  rfl

/-- The limit does not look at positions. -/
theorem bounded_relocate (e : Parsed) :
    (p.relocate g).bounded (e.relocate g) = (p.bounded e).relocate g := by
  cases hlimit : p.limit with
  | none => rw [bounded_of_limit_none hlimit, bounded_of_limit_none (p := p.relocate g) hlimit]
  | some m =>
      rcases Nat.lt_or_ge m e.height with h | h
      · have hposition : (e.relocate g).expression.position = g e.expression.position :=
          Expression.position_relocate _
        rw [bounded_of_lt_height hlimit h,
          bounded_of_lt_height (p := p.relocate g) (e := e.relocate g) hlimit h, hposition]
        exact giveUp_relocate _ _ _ _
      · rw [bounded_of_height_le hlimit h,
          bounded_of_height_le (p := p.relocate g) (e := e.relocate g) hlimit h]

/-- Joining does not look at positions. -/
theorem join_relocate (left : Parsed) (operator : Token) (right : Parsed) :
    (p.relocate g).join (left.relocate g) (operator.relocate g) (right.relocate g) =
      (p.join left operator right).relocate g := by
  simp only [join, ← bounded_relocate]
  simp only [Parsed.relocate, List.map_append]
  rfl

/-- Closing a group does not look at positions. -/
theorem enclose_relocate (opening : Token) (inner : Parsed) :
    (p.relocate g).enclose (opening.relocate g) (inner.relocate g) =
      (p.enclose opening inner).relocate g := by
  have hclosing : (p.relocate g).expect .groupClose (inner.relocate g).rest =
      (p.expect .groupClose inner.rest).relocate g := expect_relocate _ _
  simp only [enclose, hclosing, ← bounded_relocate]
  simp only [Parsed.relocate, List.map_append]
  rfl

/-- Reading a numeral does not look at positions. -/
theorem numeral_relocate (r : Remaining) :
    (p.relocate g).numeral (r.relocate g) = (p.numeral r).relocate g := by
  simp only [numeral, expect_relocate]
  rfl

/-- The call on tokens that were moved. -/
def Call.relocate (g : Nat → Nat) : Call → Call
  | chain l n r => chain l n (r.relocate g)
  | operand l n r => operand l n (r.relocate g)
  | extend l n left => extend l n (left.relocate g)
  | primary n r => primary n (r.relocate g)

/-- **Relocation.** A run on tokens that were moved goes through the same steps. Induction on
the run, where each step commutes with moving. -/
theorem Returns.relocate {c : Call} {e : Parsed} (h : p.Returns c e) :
    (p.relocate g).Returns (c.relocate g) (e.relocate g) := by
  induction h with
  | chain _ _ ihfirst ihrest => exact .chain ihfirst ihrest
  | sumOperand _ ih => exact .sumOperand ih
  | productOperand _ ih => exact .productOperand ih
  | stop hnone => exact .stop (Remaining.takeIf_relocate_none hnone)
  | @step l n left right e operator ts hoperator _ _ ihright ihrest =>
      refine .step (Remaining.takeIf_relocate_some hoperator) ihright ?_
      rw [join_relocate]
      exact ihrest
  | numeral hnone =>
      rw [← numeral_relocate]
      exact .numeral (Remaining.takeIf_relocate_none hnone)
  | @refused n limit r opening ts hopening hlimit =>
      rw [← giveUp_relocate]
      have htake := Remaining.takeIf_relocate_some (g := g) hopening
      exact .refused htake hlimit
  | group hopening hlimit _ ih =>
      rw [← enclose_relocate]
      exact .group (Remaining.takeIf_relocate_some hopening) hlimit ih

/-- Reading a chain commutes with moving the tokens. -/
theorem chain_relocate (l : Level) (n : Nat) (ts : List Token) :
    (p.relocate g).chain l n (.tokens (ts.map (Token.relocate g))) =
      (p.chain l n (.tokens ts)).relocate g :=
  (returns_iff.mp (p.returns_result (.chain l n (.tokens ts))).relocate).symm

end Parser

end Calculator
