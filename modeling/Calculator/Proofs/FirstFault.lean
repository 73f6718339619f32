import Calculator.Proofs.Calculation

/-!
# The First Fault

Evaluation reports one fault, also where a tree has several and of different kinds. The trees
here are arbitrary: numerals may lack a value, and anything may stand in the place of an operator.

A node is **faulty** if it cannot be given a value although its operands have theirs
(`Expression.HasFault`, which says it without the evaluator's own case distinction). Of the faulty
nodes evaluation reports the one that comes first in post-order: operands from left to right, and
then what they are part of. What lies above a failing operand is never looked at, so it is not
faulty, whatever is wrong with it.

* `Expression.ownFault?_eq_some_iff` — the fault that is looked for at one node;
* `Expression.HasFault.exists_operands` — no node above a failing operand is faulty;
* `Expression.evaluate_first_fault` — which fault is reported, and when there is one.
-/

namespace Calculator

namespace Expression

/-- The relation `HasFault e fault` says that the node at the top of `e` is faulty, and in what
way: it is a numeral without a value, or both its operands have values and its operator is none,
or divides by zero. -/
inductive HasFault : Expression → Fault → Prop
  /-- A numeral without a value. -/
  | missingValue {t : Token} (hvalue : t.value = none) :
      HasFault (.number t) (.missingValue t.text t.position)
  /-- Something else in the place of an operator. -/
  | notAnOperator {left right : Expression} {operator : Token} {a b : Int32}
      (hleft : left.evaluate = .ok a) (hright : right.evaluate = .ok b)
      (hkind : ∀ o, operator.kind ≠ .operator o) :
      HasFault (.binary left operator right) (.notAnOperator operator.kind)
  /-- A division sign in front of a zero. -/
  | divisionByZero {left right : Expression} {operator : Token} {a : Int32}
      (hleft : left.evaluate = .ok a) (hright : right.evaluate = .ok 0)
      (hkind : operator.kind = .operator .divide) :
      HasFault (.binary left operator right) (.divisionByZero operator.position)

/-- The node at the top of an expression is **faulty**. -/
def IsFaulty (e : Expression) : Prop :=
  ∃ fault, e.HasFault fault

end Expression

/-! ### The fault of one node -/

/-- A token in the place of a numeral has a fault when it has no value. -/
theorem Token.valueOrFault_eq_error_iff {t : Token} {fault : Fault} :
    t.valueOrFault = .error fault ↔
      t.value = none ∧ fault = .missingValue t.text t.position := by
  rw [valueOrFault]
  cases t.value <;> simp [eq_comm]

/-- A token in the place of an operator has a fault when it is none, or divides by zero. -/
theorem Token.combine_eq_error_iff {t : Token} {a b : Int32} {fault : Fault} :
    t.combine a b = .error fault ↔
      (∀ o, t.kind ≠ .operator o) ∧ fault = .notAnOperator t.kind ∨
        t.kind = .operator .divide ∧ b = 0 ∧ fault = .divisionByZero t.position := by
  constructor
  · intro h
    cases hkind : t.kind with
    | operator o =>
        obtain ⟨rfl, hzero, hfault⟩ := eq_of_combine_eq_error hkind h
        exact .inr ⟨rfl, hzero, hfault⟩
    | _ =>
        rw [combine, hkind] at h
        exact .inl ⟨by simp, (Except.error.inj h).symm⟩
  · rintro (⟨hkind, rfl⟩ | ⟨hkind, rfl, rfl⟩)
    · cases h : t.kind with
      | operator o => exact absurd h (hkind o)
      | _ => rw [combine, h]; rfl
    · rw [combine, hkind]
      rfl

namespace Expression

/-- The fault that evaluation meets at a node is the one that makes it faulty. -/
theorem ownFault?_eq_some_iff {e : Expression} {fault : Fault} :
    e.ownFault? = some fault ↔ e.HasFault fault := by
  cases e with
  | number t =>
      rw [ownFault?, Fault.of?_eq_some_iff, Token.valueOrFault_eq_error_iff]
      constructor
      · rintro ⟨hvalue, rfl⟩
        exact .missingValue hvalue
      · rintro ⟨hvalue⟩
        exact ⟨hvalue, rfl⟩
  | binary left operator right =>
      rw [ownFault?_binary_eq_some_iff]
      constructor
      · rintro ⟨a, b, hleft, hright, hcombine⟩
        rcases Token.combine_eq_error_iff.mp hcombine with ⟨hkind, rfl⟩ | ⟨hkind, rfl, rfl⟩
        · exact .notAnOperator hleft hright hkind
        · exact .divisionByZero hleft hright hkind
      · intro h
        cases h with
        | notAnOperator hleft hright hkind =>
            exact ⟨_, _, hleft, hright, Token.combine_eq_error_iff.mpr (.inl ⟨hkind, rfl⟩)⟩
        | divisionByZero hleft hright hkind =>
            exact ⟨_, _, hleft, hright, Token.combine_eq_error_iff.mpr (.inr ⟨hkind, rfl, rfl⟩)⟩
  | grouped opening inner closing =>
      constructor
      · intro h
        cases h
      · intro h
        cases h

/-- An expression that is not faulty has no fault of its own. -/
theorem ownFault?_eq_none_iff {e : Expression} : e.ownFault? = none ↔ ¬ e.IsFaulty := by
  rw [Option.eq_none_iff_forall_ne_some, IsFaulty, not_exists]
  exact forall_congr' fun fault => not_congr ownFault?_eq_some_iff

/-- The operands of a faulty node have values, so nothing above a failing operand is faulty. -/
theorem HasFault.exists_operands {left right : Expression} {operator : Token} {fault : Fault}
    (h : HasFault (.binary left operator right) fault) :
    ∃ a b, left.evaluate = .ok a ∧ right.evaluate = .ok b := by
  cases h with
  | notAnOperator hleft hright => exact ⟨_, _, hleft, hright⟩
  | divisionByZero hleft hright => exact ⟨_, _, hleft, hright⟩

/-! ### The fault that is reported -/

/-- Evaluation reports a fault exactly when it is that of a node in front of which, in
post-order, no other node is faulty. -/
theorem evaluate_eq_error_iff {e : Expression} {fault : Fault} :
    e.evaluate = .error fault ↔
      ∃ before node after, e.postorder = before ++ node :: after ∧
        (∀ n ∈ before, ¬ n.IsFaulty) ∧ node.HasFault fault := by
  rw [← Fault.of?_eq_some_iff, Fault.of?_evaluate, List.findSome?_eq_some_iff]
  constructor
  · rintro ⟨before, node, after, heq, hfault, hbefore⟩
    exact ⟨before, node, after, heq, fun n hn => ownFault?_eq_none_iff.mp (hbefore n hn),
      ownFault?_eq_some_iff.mp hfault⟩
  · rintro ⟨before, node, after, heq, hbefore, hfault⟩
    exact ⟨before, node, after, heq, ownFault?_eq_some_iff.mpr hfault,
      fun n hn => ownFault?_eq_none_iff.mpr (hbefore n hn)⟩

/-- Evaluation fails exactly when some node is faulty. -/
theorem exists_evaluate_eq_error_iff {e : Expression} :
    (∃ fault, e.evaluate = .error fault) ↔ ∃ node ∈ e.postorder, node.IsFaulty := by
  constructor
  · rintro ⟨fault, h⟩
    obtain ⟨before, node, after, heq, -, hfault⟩ := evaluate_eq_error_iff.mp h
    exact ⟨node, by simp [heq], fault, hfault⟩
  · rintro ⟨node, hnode, fault, hfault⟩
    cases hevaluate : e.evaluate with
    | error f => exact ⟨f, rfl⟩
    | ok v =>
        -- no node would have a fault of its own
        have hnone : e.postorder.findSome? ownFault? = none := by
          rw [← Fault.of?_evaluate, hevaluate, Fault.of?_ok]
        exact absurd ⟨fault, hfault⟩
          (ownFault?_eq_none_iff.mp (List.findSome?_eq_none_iff.mp hnone node hnode))

/-- Three faults at once. A numeral without a value stands behind a division by zero, and what
stands between them is no operator. -/
example :
    (binary (operation (literal 1) (.operator .divide) (literal 0)) (.ofKind .groupOpen)
      (number (.standIn .number 7))).evaluate = .error (.divisionByZero 0) := by
  decide

end Expression

end Calculator
