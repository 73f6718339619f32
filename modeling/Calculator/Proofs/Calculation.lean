import Calculator.Expression.Evaluate
import Calculator.Proofs.Recognition

/-!
# Calculation

Where the fault of an expression comes from, and which faults a line can have. Evaluation stops
at the first subexpression, operands before operators, that has a fault of its own
(`Fault.of?_evaluate`). In the expression of a valid line every numeral has a value and every
operator is one, so the only fault that is left is a division by zero, and then the line itself
has a division sign in the place that the fault names.

* `Expression.postorder`, `Expression.ownFault?` — the subexpressions and their own faults;
* `Derives.ownFault?_of_mem_postorder`, `Derives.evaluate_cases` — the faults in a derivation;
* `calculate_of_diagnostics_eq_nil`, `calculate_of_diagnostics_ne_nil` — the value of a line;
* `Reading.ownFault?_of_mem_postorder` — the faults in a valid line;
* `calculate_cases` — what a line can be worth.
-/

namespace Calculator

/-! ### The faults of subexpressions -/

/-- The fault in a result, if there is one. -/
def Fault.of? : Except Fault Int32 → Option Fault
  | .ok _ => none
  | .error fault => some fault

@[simp] theorem Fault.of?_ok (v : Int32) : of? (.ok v) = none := rfl

@[simp] theorem Fault.of?_error (fault : Fault) : of? (.error fault) = some fault := rfl

/-- The fault of an outcome is the one it was made of. -/
theorem Fault.of?_eq_some_iff {r : Except Fault Int32} {fault : Fault} :
    of? r = some fault ↔ r = .error fault := by
  cases r <;> simp

namespace Expression

/-- The subexpressions of an expression, operands from left to right and then what they are
part of. The expression itself comes last. -/
def postorder : Expression → List Expression
  | number token => [number token]
  | binary left operator right => left.postorder ++ right.postorder ++ [binary left operator right]
  | grouped opening inner closing => inner.postorder ++ [grouped opening inner closing]

/-- An expression comes last among its subexpressions. -/
theorem mem_postorder_self (e : Expression) : e ∈ e.postorder := by
  cases e <;> simp [postorder]

/-- The subexpressions of an operator with its operands. -/
theorem mem_postorder_binary {left right e : Expression} {operator : Token} :
    e ∈ (binary left operator right).postorder ↔
      e ∈ left.postorder ∨ e ∈ right.postorder ∨ e = binary left operator right := by
  simp [postorder]

/-- The subexpressions of a group. -/
theorem mem_postorder_grouped {inner e : Expression} {opening closing : Token} :
    e ∈ (grouped opening inner closing).postorder ↔
      e ∈ inner.postorder ∨ e = grouped opening inner closing := by
  simp [postorder]

/-- The fault that an expression has at its top, when its operands have values. -/
def ownFault? : Expression → Option Fault
  | number token => Fault.of? token.valueOrFault
  | binary left operator right =>
    match left.evaluate, right.evaluate with
    | .ok a, .ok b => Fault.of? (operator.combine a b)
    | _, _ => none
  | grouped _ _ _ => none

/-- An operator has a fault of its own when both operands have values and these do not go
together. -/
theorem ownFault?_binary_eq_some_iff {left right : Expression} {operator : Token}
    {fault : Fault} :
    (binary left operator right).ownFault? = some fault ↔
      ∃ a b, left.evaluate = .ok a ∧ right.evaluate = .ok b ∧
        operator.combine a b = .error fault := by
  rw [ownFault?]
  cases left.evaluate with
  | error => simp
  | ok a =>
      cases right.evaluate with
      | error => simp
      | ok b => simp [Fault.of?_eq_some_iff]

end Expression

/-- **The first fault.** The fault of an expression is the first one that a subexpression has of
its own. -/
theorem Fault.of?_evaluate (e : Expression) :
    of? e.evaluate = e.postorder.findSome? Expression.ownFault? := by
  induction e with
  | number t =>
      simp [Expression.postorder, Expression.ownFault?]
  | binary left operator right ihleft ihright =>
      rw [Expression.postorder, List.findSome?_append, List.findSome?_append, ← ihleft, ← ihright]
      cases hleft : left.evaluate with
      | error fault =>
          rw [Expression.evaluate_binary_of_left_error operator right hleft]
          rfl
      | ok a =>
          cases hright : right.evaluate with
          | error fault =>
              rw [Expression.evaluate_binary_of_right_error operator hleft hright]
              rfl
          | ok b =>
              rw [Expression.evaluate_binary_of_ok operator hleft hright]
              simp [Expression.ownFault?, hleft, hright]
  | grouped opening inner closing ih =>
      rw [Expression.postorder, List.findSome?_append, ← ih, Expression.evaluate]
      cases inner.evaluate <;> rfl

/-- The fault of an expression is one of its subexpressions' own. -/
theorem Expression.exists_of_evaluate_eq_error {e : Expression} {fault : Fault}
    (h : e.evaluate = .error fault) : ∃ f ∈ e.postorder, f.ownFault? = some fault := by
  rw [← Fault.of?_eq_some_iff, Fault.of?_evaluate] at h
  exact List.exists_of_findSome?_eq_some h

/-- The tokens of a subexpression are tokens of the expression. -/
theorem Expression.tokens_subset_of_mem_postorder {e f : Expression} (h : f ∈ e.postorder) :
    f.tokens ⊆ e.tokens := by
  induction e with
  | number t =>
      obtain rfl := List.mem_singleton.mp h
      exact List.Subset.refl _
  | binary left operator right ihleft ihright =>
      simp only [postorder, List.mem_append, List.mem_singleton] at h
      intro t ht
      rcases h with (h | h) | rfl
      · exact List.mem_append_left _ (ihleft h ht)
      · exact List.mem_append_right _ (List.mem_cons_of_mem _ (ihright h ht))
      · exact ht
  | grouped opening inner closing ih =>
      simp only [postorder, List.mem_append, List.mem_singleton] at h
      intro t ht
      rcases h with h | rfl
      · exact List.mem_append_left _ (List.mem_cons_of_mem _ (ih h ht))
      · exact ht

/-- The subexpressions of a derivation are derivations. -/
theorem Derives.of_mem_postorder {c : Category} {e f : Expression} (h : Derives c e)
    (hf : f ∈ e.postorder) : ∃ d, Derives d f := by
  induction h with
  | numeral hkind =>
      obtain rfl := List.mem_singleton.mp hf
      exact ⟨_, .numeral hkind⟩
  | group hopening hinner hclosing ih =>
      rcases List.mem_append.mp hf with hf | hf
      · exact ih hf
      · obtain rfl := List.mem_singleton.mp hf
        exact ⟨_, .group hopening hinner hclosing⟩
  | single _ ih => exact ih hf
  | step hleft hoperator hright ihleft ihright =>
      simp only [Expression.postorder, List.mem_append, List.mem_singleton] at hf
      rcases hf with (hf | hf) | rfl
      · exact ihleft hf
      · exact ihright hf
      · exact ⟨_, .step hleft hoperator hright⟩

/-- The token of a numeral in a derivation is one. -/
theorem Derives.kind_of_number {c : Category} {t : Token} (h : Derives c (.number t)) :
    t.kind = .number := by
  generalize he : Expression.number t = e at h
  induction h with
  | numeral hkind =>
      obtain rfl := Expression.number.inj he
      exact hkind
  | single _ ih => exact ih he
  | group | step => cases he

/-- The token between two operands in a derivation is an operator. -/
theorem Derives.kind_of_binary {c : Category} {left right : Expression} {operator : Token}
    (h : Derives c (.binary left operator right)) : ∃ o, operator.kind = .operator o := by
  generalize he : Expression.binary left operator right = e at h
  induction h with
  | step _ hoperator =>
      obtain ⟨-, rfl, -⟩ := Expression.binary.inj he
      cases hkind : operator.kind with
      | operator o => exact ⟨o, rfl⟩
      | _ => simp [hkind, Level.has, Token.Kind.operator?] at hoperator
  | single _ ih => exact ih he
  | numeral | group => cases he

/-- The fault of an operator is a division by zero at its place. -/
theorem Token.eq_of_combine_eq_error {t : Token} {o : Operator} (hkind : t.kind = .operator o)
    {a b : Int32} {fault : Fault} (h : t.combine a b = .error fault) :
    o = .divide ∧ b = 0 ∧ fault = .divisionByZero t.position := by
  rw [combine, hkind] at h
  cases hcompute : o.compute a b with
  | some => simp [Kind.operator?, hcompute] at h
  | none =>
      obtain ⟨rfl, rfl⟩ := Operator.compute_eq_none_iff.mp hcompute
      refine ⟨rfl, rfl, ?_⟩
      simpa [Kind.operator?, hcompute] using h.symm

/-- A numeral without defects has a value. -/
theorem Token.exists_valueOrFault_eq_ok {t : Token} (hkind : t.kind = .number)
    (h : t.defect? = none) : ∃ v, t.valueOrFault = .ok v := by
  rw [valueOrFault]
  cases hvalue : t.value with
  | some v => exact ⟨v, rfl⟩
  | none => simp [defect?, hkind, hvalue] at h

/-- The numerals of a line without defects have values. -/
theorem Token.exists_valueOrFault_of_mem_tokens {text : String} (h : defects (scan text) = [])
    {t : Token} (ht : t ∈ (Sentence.ofText text).tokens) (hkind : t.kind = .number) :
    ∃ v, t.valueOrFault = .ok v :=
  exists_valueOrFault_eq_ok hkind (defect?_eq_none_of_mem_tokens h ht)

/-- **The faults of a derivation.** When all its numerals have values, a subexpression with a fault
of its own is a division by zero. -/
theorem Derives.ownFault?_of_mem_postorder {c : Category} {e f : Expression} (h : Derives c e)
    (hvalue : ∀ t ∈ e.tokens, t.kind = .number → ∃ v, t.valueOrFault = .ok v)
    (hf : f ∈ e.postorder) {fault : Fault} (hfault : f.ownFault? = some fault) :
    ∃ left operator right a, f = .binary left operator right ∧
      operator.kind = .operator .divide ∧ left.evaluate = .ok a ∧ right.evaluate = .ok 0 ∧
      fault = .divisionByZero operator.position := by
  obtain ⟨d, hderives⟩ := h.of_mem_postorder hf
  have hsub := Expression.tokens_subset_of_mem_postorder hf
  cases f with
  | number t =>
      obtain ⟨v, hv⟩ := hvalue t (hsub List.mem_cons_self) hderives.kind_of_number
      simp [Expression.ownFault?, hv, Fault.of?] at hfault
  | grouped => simp [Expression.ownFault?] at hfault
  | binary left operator right =>
      obtain ⟨o, hkind⟩ := hderives.kind_of_binary
      obtain ⟨a, b, hleft, hright, hcombine⟩ :=
        Expression.ownFault?_binary_eq_some_iff.mp hfault
      obtain ⟨rfl, rfl, rfl⟩ := Token.eq_of_combine_eq_error hkind hcombine
      exact ⟨left, operator, right, a, rfl, hkind, hleft, hright, rfl⟩

/-- When all its numerals have values, a derivation has a value, or one of its division signs
divides by zero. -/
theorem Derives.evaluate_cases {c : Category} {e : Expression} (h : Derives c e)
    (hvalue : ∀ t ∈ e.tokens, t.kind = .number → ∃ v, t.valueOrFault = .ok v) :
    (∃ v, e.evaluate = .ok v) ∨
      ∃ o ∈ e.tokens, o.kind = .operator .divide ∧
        e.evaluate = .error (.divisionByZero o.position) := by
  cases hevaluate : e.evaluate with
  | ok v => exact .inl ⟨v, rfl⟩
  | error fault =>
      obtain ⟨f, hf, hfault⟩ := Expression.exists_of_evaluate_eq_error hevaluate
      obtain ⟨left, o, right, a, rfl, hkind, -, -, rfl⟩ :=
        h.ownFault?_of_mem_postorder hvalue hf hfault
      exact .inr ⟨o, Expression.tokens_subset_of_mem_postorder hf (by simp), hkind, rfl⟩

/-! ### The value of a line -/

/-- A valid line is worth what its expression is worth. -/
theorem calculate_of_diagnostics_eq_nil {text : String}
    (h : (Reading.ofText text).diagnostics = []) :
    calculate text = (Reading.ofText text).root.evaluate.mapError .undefined := by
  rw [calculate, Reading.value, Reading.isValid, h]
  rfl

/-- A line that is not valid has no value, whatever its expression is worth. -/
theorem calculate_of_diagnostics_ne_nil {text : String}
    (h : (Reading.ofText text).diagnostics ≠ []) :
    calculate text = .error (.malformed (Reading.ofText text).diagnostics) := by
  rw [calculate, Reading.value, Reading.isValid, List.isEmpty_eq_false_iff.mpr h]
  rfl

/-- **The faults of a valid line.** A subexpression with a fault of its own is a division by
zero, and the line has a division sign in that place. -/
theorem Reading.ownFault?_of_mem_postorder {text : String} (h : (ofText text).diagnostics = [])
    {e : Expression} (he : e ∈ (ofText text).root.postorder) {fault : Fault}
    (hfault : e.ownFault? = some fault) :
    ∃ before after left right a, text = before ++ "/" ++ after ∧
      e = .binary left ⟨.operator .divide, before.utf8ByteSize, "/", none⟩ right ∧
      left.evaluate = .ok a ∧ right.evaluate = .ok 0 ∧
      fault = .divisionByZero before.utf8ByteSize := by
  obtain ⟨-, htokens, -⟩ := root_of_diagnostics_eq_nil h
  have hdefects : Token.defects (Token.scan text) = [] :=
    (List.append_eq_nil_iff.mp (diagnostics_ofText text ▸ h)).1
  have hderives := (derives_root depthLimit_pos (Sentence.ofText text)).1
  obtain ⟨left, operator, right, a, rfl, hkind, hleft, hright, rfl⟩ :=
    hderives.ownFault?_of_mem_postorder
      (fun _ ht => Token.exists_valueOrFault_of_mem_tokens hdefects (htokens ▸ ht)) he hfault
  have hmem : operator ∈ (Sentence.ofText text).tokens :=
    htokens ▸ Expression.tokens_subset_of_mem_postorder he (by simp)
  obtain ⟨before, symbol, after, hsymbol, htext, heq⟩ :=
    Sentence.exists_of_mem_tokens_of_symbol? hmem (by simp [hkind, Token.Kind.symbol?])
  obtain rfl : '/' = symbol := by
    simpa [hkind, Token.Kind.symbol?, Operator.symbol] using hsymbol
  rw [hkind] at heq
  refine ⟨before, after, left, right, a, htext, ?_, hleft, hright, ?_⟩
  · rw [heq]
    rfl
  · rw [heq]

/-- **What a line can be worth.** It is not valid, and the diagnostics of its reading are the
answer; or it is valid and has the value of its expression; or it is valid and divides by zero,
at a division sign of the line whose left operand has a value and whose right operand is zero.
An ill-formed expression is never met. -/
theorem calculate_cases (text : String) :
    ((Reading.ofText text).diagnostics ≠ [] ∧
        calculate text = .error (.malformed (Reading.ofText text).diagnostics) ∨
      (Reading.ofText text).diagnostics = [] ∧
        (∃ v, (Reading.ofText text).root.evaluate = .ok v ∧ calculate text = .ok v) ∨
      (Reading.ofText text).diagnostics = [] ∧
        ∃ before after left right a, text = before ++ "/" ++ after ∧
          .binary left ⟨.operator .divide, before.utf8ByteSize, "/", none⟩ right ∈
            (Reading.ofText text).root.postorder ∧
          left.evaluate = .ok a ∧ right.evaluate = .ok 0 ∧
          calculate text = .error (.undefined (.divisionByZero before.utf8ByteSize))) ∧
    ∀ fault, calculate text = .error (.undefined fault) → fault.isIllFormed = false := by
  by_cases h : (Reading.ofText text).diagnostics = []
  · rw [calculate_of_diagnostics_eq_nil h]
    cases hvalue : (Reading.ofText text).root.evaluate with
    | ok v => exact ⟨.inr (.inl ⟨h, v, rfl, rfl⟩), by simp [Except.mapError]⟩
    | error fault =>
        obtain ⟨e, he, hfault⟩ := Expression.exists_of_evaluate_eq_error hvalue
        obtain ⟨before, after, left, right, a, htext, rfl, hleft, hright, rfl⟩ :=
          Reading.ownFault?_of_mem_postorder h he hfault
        constructor
        · right
          right
          exact ⟨h, before, after, left, right, a, htext, he, hleft, hright, rfl⟩
        · intro fault heq
          obtain rfl : Fault.divisionByZero before.utf8ByteSize = fault := by
            simpa [Except.mapError] using heq
          rfl
  · rw [calculate_of_diagnostics_ne_nil h]
    exact ⟨.inl ⟨h, rfl⟩, by simp⟩

end Calculator
