import Calculator.Proofs.Phrase

/-!
# Compound Lines

A line that is made of an operator between two valid lines in parentheses. Its tree is made of
their trees, two levels higher than the higher one of them. So it is valid if that is within the
depth limit, and then what it is worth can be told from what the two lines are worth: the fault
of the left one comes first, then that of the right one, each moved to where its line stands, and
then comes the operator.

* `Operator.applied` — the line;
* `Operator.exists_isPhrase_applied` — its tree;
* `calculate_applied` — what it is worth.
-/

namespace Calculator

/-- An operator between two texts in parentheses. -/
def Operator.applied (o : Operator) (s t : String) : String :=
  Text.inParentheses s ++ String.singleton o.symbol ++ Text.inParentheses t

/-- The tree of a compound line: its operands are the trees of the two lines, one level higher
and moved to where the lines stand. -/
theorem Operator.exists_isPhrase_applied (o : Operator) {e f : Expression} {s t : String}
    (hs : IsPhrase (.chain .sum) e s) (ht : IsPhrase (.chain .sum) f t) :
    ∃ left operator right,
      IsPhrase (.chain .sum) (.binary left operator right) (o.applied s t) ∧
      operator.kind = .operator o ∧ operator.position = s.utf8ByteSize + 2 ∧
      left.height = e.height + 1 ∧ right.height = f.height + 1 ∧
      left.evaluate = e.evaluate.mapError (Fault.relocate (· + 1)) ∧
      right.evaluate = f.evaluate.mapError (Fault.relocate (· + s.utf8ByteSize + 4)) := by
  have hleft := hs.group.weaken (d := .chain o.level) (Category.precedence_le_primary _)
  have hright := ht.group.weaken (d := o.level.operands) (Category.precedence_le_primary _)
  have hphrase := (hleft.step hright).weaken (d := .chain .sum) (Category.sum_le_precedence _)
  rw [Text.utf8ByteSize_inParentheses] at hphrase
  refine ⟨_, _, _, hphrase, rfl, rfl, by simp [Expression.height], by simp [Expression.height],
    ?_, ?_⟩
  · have hmove : (1 + ·) = (· + 1) := funext fun _ => Nat.add_comm _ _
    rw [Expression.evaluate_grouped, Expression.evaluate_relocate, hmove]
  · have hmove : (s.utf8ByteSize + 2 + 1 + ·) ∘ (1 + ·) = (· + s.utf8ByteSize + 4) :=
      funext fun _ => by simp only [Function.comp_apply]; omega
    rw [Expression.relocate_grouped, Expression.evaluate_grouped, Expression.relocate_relocate,
      Expression.evaluate_relocate, hmove]

/-- **Compound lines.** An operator between two valid lines in parentheses is worth what the
operator gives on what they are worth, if it is within the depth limit. The fault of the left line
comes before that of the right one, and both come before a division by zero of the operator
itself. Beyond the depth limit the compound has the report of that and no other. -/
theorem calculate_applied (o : Operator) {s t : String}
    (hs : (Reading.ofText s).diagnostics = []) (ht : (Reading.ofText t).diagnostics = []) :
    (max (Reading.ofText s).root.height (Reading.ofText t).root.height + 2 ≤ depthLimit →
      (∃ p, calculate s = .error (.undefined (.divisionByZero p)) ∧
        calculate (o.applied s t) = .error (.undefined (.divisionByZero (p + 1)))) ∨
      (∃ x p, calculate s = .ok x ∧ calculate t = .error (.undefined (.divisionByZero p)) ∧
        calculate (o.applied s t) =
          .error (.undefined (.divisionByZero (p + s.utf8ByteSize + 4)))) ∨
      (∃ x y, calculate s = .ok x ∧ calculate t = .ok y ∧
        calculate (o.applied s t) =
          if o = .divide ∧ y = 0 then
            .error (.undefined (.divisionByZero (s.utf8ByteSize + 2)))
          else .ok (Int32.ofInt (o.exact x.toInt y.toInt)))) ∧
    (depthLimit < max (Reading.ofText s).root.height (Reading.ofText t).root.height + 2 →
      ∃ p, calculate (o.applied s t) = .error (.malformed [⟨.tooDeep depthLimit, p⟩])) := by
  have hsPhrase := Reading.isPhrase_root hs
  have htPhrase := Reading.isPhrase_root ht
  obtain ⟨left, operator, right, hphrase, hkind, hposition, hleftHeight, hrightHeight, hleft,
    hright⟩ := o.exists_isPhrase_applied hsPhrase htPhrase
  have hheight : (Expression.binary left operator right).height =
      max (Reading.ofText s).root.height (Reading.ofText t).root.height + 2 := by
    rw [Expression.height, hleftHeight, hrightHeight]
    omega
  constructor
  · intro hle
    have hvalid := congrArg Reading.diagnostics (hphrase.ofText_of_height_le (hheight ▸ hle))
    rw [hphrase.calculate_eq hvalid, hsPhrase.calculate_eq hs, htPhrase.calculate_eq ht]
    rcases hsPhrase.evaluate_cases with ⟨x, hx⟩ | ⟨p, -, -, hp⟩
    · rw [hx] at hleft
      rcases htPhrase.evaluate_cases with ⟨y, hy⟩ | ⟨p, -, -, hp⟩
      · right
        right
        rw [hy] at hright
        refine ⟨x, y, by rw [hx]; rfl, by rw [hy]; rfl, ?_⟩
        rw [Expression.evaluate_binary_of_ok operator hleft hright, Token.combine_eq hkind,
          hposition]
        split <;> rfl
      · right
        left
        rw [hp] at hright
        refine ⟨x, p.position, by rw [hx]; rfl, by rw [hp]; rfl, ?_⟩
        rw [Expression.evaluate_binary_of_right_error operator hleft hright]
        rfl
    · left
      rw [hp] at hleft
      refine ⟨p.position, by rw [hp]; rfl, ?_⟩
      rw [Expression.evaluate_binary_of_left_error operator right hleft]
      rfl
  · intro hlt
    obtain ⟨p, hdiagnostics⟩ := hphrase.diagnostics_of_lt_height (hheight ▸ hlt)
    refine ⟨p, ?_⟩
    rw [calculate_of_diagnostics_ne_nil (by simp [hdiagnostics]), hdiagnostics]

/-- The fault of the right line is met, not that of the operator. -/
theorem calculate_applied_divide :
    (Reading.ofText "2").diagnostics = [] ∧ (Reading.ofText "1/0").diagnostics = [] ∧
      max (Reading.ofText "2").root.height (Reading.ofText "1/0").root.height + 2 ≤ depthLimit ∧
      calculate (Operator.divide.applied "2" "1/0") =
        .error (.undefined (.divisionByZero 6)) := by
  have hs : (Reading.ofText "2").diagnostics = [] := by decide +kernel
  have ht : (Reading.ofText "1/0").diagnostics = [] := by decide +kernel
  have hheight : max (Reading.ofText "2").root.height (Reading.ofText "1/0").root.height + 2 ≤
      depthLimit := by
    decide +kernel
  have hleft : calculate "2" = .ok 2 := by decide +kernel
  have hright : calculate "1/0" = .error (.undefined (.divisionByZero 1)) := by decide +kernel
  refine ⟨hs, ht, hheight, ?_⟩
  rcases (calculate_applied .divide hs ht).1 hheight with
    ⟨p, hp, -⟩ | ⟨x, p, -, hp, h⟩ | ⟨x, y, -, hy, -⟩
  · simp [hleft] at hp
  · obtain rfl : 1 = p := by simpa [hright] using hp
    exact h
  · simp [hright] at hy

end Calculator
