import Calculator.Parser

/-!
# Runs of the Parser

The grammar functions as a relation: `Parser.Returns p c e` says that the call `c` comes to an
end with `e`, by one rule for each way in which a call can come to an end. A run of the parser
is a derivation in these rules.

The relation holds of a call and its result, and of nothing else (`Parser.returns_iff`).
Facts about reading are proved by induction on runs: the rules leave out the bookkeeping that
makes the functions total, and the four functions are covered by one induction.
-/

namespace Calculator.Parser

/-- A call of one of the grammar functions. -/
inductive Call
  /-- A call of `Parser.chain`. -/
  | chain (l : Level) (nesting : Nat) (r : Remaining)
  /-- A call of `Parser.operand`. -/
  | operand (l : Level) (nesting : Nat) (r : Remaining)
  /-- A call of `Parser.extend`. -/
  | extend (l : Level) (nesting : Nat) (left : Parsed)
  /-- A call of `Parser.primary`. -/
  | primary (nesting : Nat) (r : Remaining)

/-- What a call gives. -/
def result (p : Parser) : Call → Parsed
  | .chain l nesting r => p.chain l nesting r
  | .operand l nesting r => p.operand l nesting r
  | .extend l nesting left => p.extend l nesting left
  | .primary nesting r => p.primary nesting r

/-- How much work a call has before it: six units for every token that is left, and one for
every call that takes no token. -/
def Call.work : Call → Nat
  | chain l _ r => 6 * r.length + rank l + 1
  | operand l _ r => 6 * r.length + rank l
  | extend _ _ left => 6 * left.rest.length
  | primary _ r => 6 * r.length

/-- The relation `Returns p c e` says that the call `c` comes to an end with `e`. -/
inductive Returns (p : Parser) : Call → Parsed → Prop
  /-- A chain is an operand with the rest of the chain behind it. -/
  | chain {l : Level} {nesting : Nat} {r : Remaining} {first e : Parsed}
      (hfirst : Returns p (.operand l nesting r) first)
      (hrest : Returns p (.extend l nesting first) e) :
      Returns p (.chain l nesting r) e
  /-- An operand of a sum is a chain of products. -/
  | sumOperand {nesting : Nat} {r : Remaining} {e : Parsed}
      (h : Returns p (.chain .product nesting r) e) :
      Returns p (.operand .sum nesting r) e
  /-- An operand of a product is a primary. -/
  | productOperand {nesting : Nat} {r : Remaining} {e : Parsed}
      (h : Returns p (.primary nesting r) e) :
      Returns p (.operand .product nesting r) e
  /-- A chain stops where no operator of its level follows. -/
  | stop {l : Level} {nesting : Nat} {left : Parsed}
      (hnone : left.rest.takeIf l.has = none) :
      Returns p (.extend l nesting left) left
  /-- A chain takes an operator of its level and the operand behind it. -/
  | step {l : Level} {nesting : Nat} {left right e : Parsed} {operator : Token}
      {ts : List Token}
      (hoperator : left.rest.takeIf l.has = some (operator, ts))
      (hright : Returns p (.operand l nesting (.tokens ts)) right)
      (hrest : Returns p (.extend l nesting (p.join left operator right)) e) :
      Returns p (.extend l nesting left) e
  /-- Without an opening parenthesis a primary is a numeral. -/
  | numeral {nesting : Nat} {r : Remaining}
      (hnone : r.takeIf (· == .groupOpen) = none) :
      Returns p (.primary nesting r) (p.numeral r)
  /-- A group is refused when too many are open. -/
  | refused {nesting limit : Nat} {r : Remaining} {opening : Token} {ts : List Token}
      (hopening : r.takeIf (· == .groupOpen) = some (opening, ts))
      (hlimit : p.exhausted? nesting = some limit) :
      Returns p (.primary nesting r) (giveUp limit opening.position [] r)
  /-- A group encloses a chain of sums. -/
  | group {nesting : Nat} {r : Remaining} {opening : Token} {ts : List Token} {inner : Parsed}
      (hopening : r.takeIf (· == .groupOpen) = some (opening, ts))
      (hlimit : p.exhausted? nesting = none)
      (hinner : Returns p (.chain .sum (nesting + 1) (.tokens ts)) inner) :
      Returns p (.primary nesting r) (p.enclose opening inner)

/-- Every call comes to an end with what the function gives. -/
theorem returns_result (p : Parser) (c : Call) : p.Returns c (p.result c) := by
  match c with
  | .chain l nesting r =>
    have hle := p.operand_length_le l nesting r
    have hfirst := p.returns_result (.operand l nesting r)
    have hrest := p.returns_result (.extend l nesting (p.operand l nesting r))
    rw [result, chain_eq]
    exact .chain hfirst hrest
  | .operand .sum nesting r =>
    have h := p.returns_result (.chain .product nesting r)
    rw [result, operand_sum]
    exact .sumOperand h
  | .operand .product nesting r =>
    have h := p.returns_result (.primary nesting r)
    rw [result, operand_product]
    exact .productOperand h
  | .extend l nesting left =>
    cases hop : left.rest.takeIf l.has with
    | none =>
      rw [result, extend_eq, hop]
      exact .stop hop
    | some next =>
      obtain ⟨operator, ts⟩ := next
      have hlt := Remaining.length_lt_of_takeIf hop
      have hle := p.operand_length_le l nesting (.tokens ts)
      have hjoin := p.join_length_le left operator (p.operand l nesting (.tokens ts))
      have hright := p.returns_result (.operand l nesting (.tokens ts))
      have hrest := p.returns_result
        (.extend l nesting (p.join left operator (p.operand l nesting (.tokens ts))))
      rw [result, extend_eq, hop]
      exact .step hop hright hrest
  | .primary nesting r =>
    cases hop : r.takeIf (· == .groupOpen) with
    | none =>
      rw [result, primary_eq, hop]
      exact .numeral hop
    | some next =>
      obtain ⟨opening, ts⟩ := next
      have hlt := Remaining.length_lt_of_takeIf hop
      cases hlim : p.exhausted? nesting with
      | some limit =>
        rw [result, primary_eq, hop]
        simp only [hlim]
        exact .refused hop hlim
      | none =>
        have hinner := p.returns_result (.chain .sum (nesting + 1) (.tokens ts))
        rw [result, primary_eq, hop]
        simp only [hlim]
        exact .group hop hlim hinner
termination_by c.work
decreasing_by
  all_goals simp only [Call.work, rank]
  all_goals first | omega | (cases l <;> simp only <;> omega)

/-- A call comes to an end in one way only. -/
theorem Returns.unique {p : Parser} {c : Call} {e f : Parsed} (he : p.Returns c e)
    (hf : p.Returns c f) : e = f := by
  induction he generalizing f with
  | chain _ _ ihfirst ihrest =>
    cases hf with
    | chain hfirst hrest => exact ihrest (ihfirst hfirst ▸ hrest)
  | sumOperand _ ih =>
    cases hf with
    | sumOperand h => exact ih h
  | productOperand _ ih =>
    cases hf with
    | productOperand h => exact ih h
  | stop hnone =>
    cases hf with
    | stop => rfl
    | step hoperator => exact absurd (hnone.symm.trans hoperator) (by simp)
  | step hoperator _ _ ihright ihrest =>
    cases hf with
    | stop hnone => exact absurd (hnone.symm.trans hoperator) (by simp)
    | step hoperator' hright' hrest' =>
      obtain ⟨rfl, rfl⟩ := Prod.mk.inj (Option.some.inj (hoperator.symm.trans hoperator'))
      exact ihrest (ihright hright' ▸ hrest')
  | numeral hnone =>
    cases hf with
    | numeral => rfl
    | refused hopening => exact absurd (hnone.symm.trans hopening) (by simp)
    | group hopening => exact absurd (hnone.symm.trans hopening) (by simp)
  | refused hopening hlimit =>
    cases hf with
    | numeral hnone => exact absurd (hnone.symm.trans hopening) (by simp)
    | refused hopening' hlimit' =>
      obtain ⟨rfl, rfl⟩ := Prod.mk.inj (Option.some.inj (hopening.symm.trans hopening'))
      obtain rfl := Option.some.inj (hlimit.symm.trans hlimit')
      rfl
    | group _ hlimit' => exact absurd (hlimit.symm.trans hlimit') (by simp)
  | group hopening hlimit _ ih =>
    cases hf with
    | numeral hnone => exact absurd (hnone.symm.trans hopening) (by simp)
    | refused _ hlimit' => exact absurd (hlimit.symm.trans hlimit') (by simp)
    | group hopening' _ hinner' =>
      obtain ⟨rfl, rfl⟩ := Prod.mk.inj (Option.some.inj (hopening.symm.trans hopening'))
      rw [ih hinner']

/-- The **agreement of runs and results**: a call comes to an end with what the function gives, and
with nothing else. -/
theorem returns_iff {p : Parser} {c : Call} {e : Parsed} :
    p.Returns c e ↔ e = p.result c :=
  ⟨fun h => h.unique (p.returns_result c), fun h => h ▸ p.returns_result c⟩

end Calculator.Parser
