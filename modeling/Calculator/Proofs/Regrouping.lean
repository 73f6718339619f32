import Calculator.Proofs.Phrase

/-!
# Sums of Lines

A line that is made of a plus sign between two valid lines. Its tree is not made of their trees:
the chain of sums on the right leans to the left, and so it is regrouped under the one on the left,
which comes to stand in front of its first operand. Sums and differences of words may be regrouped
like that, and the operands keep their order, so the line is still worth the sum of what the two
lines are worth, and the first fault is still the first one.

* `Expression.regroup` — a chain of sums with another one in front of it;
* `Expression.evaluate_regroup` — regrouping changes neither the value nor the fault;
* `IsPhrase.sum` — the tree of the line;
* `calculate_sum` — what the line is worth.
-/

namespace Calculator

/-! ### Words -/

/-- A sum or a difference may be regrouped to the left. -/
theorem Operator.compute_add_left {o : Operator} (h : o.level = .sum) (a b c : Int32) :
    o.compute (a + b) c = (o.compute b c).map (a + ·) := by
  cases o with
  | plus => simp [compute, Int32.add_assoc]
  | minus => simp [compute, Int32.sub_eq_add_neg, Int32.add_assoc]
  | times | divide => simp [level] at h

/-- The token of a sum or of a difference gives a result, and it may be regrouped to the left. -/
theorem Token.exists_combine_add_left {t : Token} (h : Level.sum.has t.kind) (a b c : Int32) :
    ∃ d, t.combine b c = .ok d ∧ t.combine (a + b) c = .ok (a + d) := by
  cases hkind : t.kind with
  | operator o =>
      have hlevel : o.level = .sum := by simpa [hkind, Level.has, Kind.operator?] using h
      have hsome : o.compute b c ≠ none := by
        rw [ne_eq, Operator.compute_eq_none_iff]
        rintro ⟨rfl, -⟩
        simp [Operator.level] at hlevel
      obtain ⟨d, hd⟩ := Option.ne_none_iff_exists'.mp hsome
      refine ⟨d, ?_, ?_⟩
      · simp [combine, hkind, Kind.operator?, hd]
      · simp [combine, hkind, Kind.operator?, Operator.compute_add_left hlevel, hd]
  | _ => simp [hkind, Level.has, Kind.operator?] at h

/-- A plus sign always has a result. -/
theorem Token.combine_plus {plus : Token} (h : plus.kind = .operator .plus) (a b : Int32) :
    plus.combine a b = .ok (a + b) := by
  simp [combine, h, Kind.operator?, Operator.compute]

/-! ### Regrouping -/

/-- A chain of sums with the expression `e` and a plus sign in front of its first operand. -/
def Expression.regroup (e : Expression) (plus : Token) : Expression → Expression
  | binary left operator right =>
    if Level.sum.has operator.kind then binary (e.regroup plus left) operator right
    else binary e plus (binary left operator right)
  | number token => binary e plus (number token)
  | grouped opening inner closing => binary e plus (grouped opening inner closing)

namespace Expression

variable {e : Expression} {plus : Token}

/-- Through an operator of sums, regrouping goes on in the left operand. -/
theorem regroup_binary_of_has {left right : Expression} {operator : Token}
    (h : Level.sum.has operator.kind) :
    e.regroup plus (binary left operator right) =
      binary (e.regroup plus left) operator right := by
  rw [regroup, if_pos h]

/-- Everything else is put behind the plus sign as it is. -/
theorem regroup_binary_of_not_has {left right : Expression} {operator : Token}
    (h : ¬ Level.sum.has operator.kind) :
    e.regroup plus (binary left operator right) =
      binary e plus (binary left operator right) := by
  rw [regroup, if_neg h]

/-- Regrouping keeps the tokens and their order. -/
theorem tokens_regroup (f : Expression) :
    (e.regroup plus f).tokens = e.tokens ++ plus :: f.tokens := by
  induction f with
  | number | grouped => rfl
  | binary left operator right ihleft =>
      by_cases hhas : Level.sum.has operator.kind
      · rw [regroup_binary_of_has hhas, tokens, tokens, ihleft, List.append_assoc,
          List.cons_append]
      · rw [regroup_binary_of_not_has hhas]
        rfl

/-- **Regrouping** changes neither the value nor the fault. Induction on the chain: its last
operand is evaluated last in either grouping. -/
theorem evaluate_regroup (hplus : plus.kind = .operator .plus) (f : Expression) :
    (e.regroup plus f).evaluate = (binary e plus f).evaluate := by
  induction f with
  | number | grouped => rfl
  | binary left operator right ihleft =>
      by_cases hhas : Level.sum.has operator.kind
      · rw [regroup_binary_of_has hhas]
        simp only [evaluate] at ihleft ⊢
        rw [ihleft]
        cases e.evaluate with
        | error fault => rfl
        | ok a =>
            cases left.evaluate with
            | error fault => rfl
            | ok b =>
                simp only [Token.combine_plus hplus]
                cases right.evaluate with
                | error fault => rfl
                | ok c =>
                    obtain ⟨d, hd, hsum⟩ := Token.exists_combine_add_left hhas a b c
                    simp only [hd, hsum]
      · rw [regroup_binary_of_not_has hhas]

end Expression

/-- A chain of products is taken up as one operand. -/
theorem Derives.regroup_eq {e f : Expression} {plus : Token} (h : Derives (.chain .product) f) :
    e.regroup plus f = .binary e plus f := by
  cases f with
  | number | grouped => rfl
  | binary left operator right =>
      refine Expression.regroup_binary_of_not_has fun hhas => ?_
      have hle := h.precedence_le operator.kind.precedence rfl
      rw [Level.precedence_of_has hhas] at hle
      exact absurd hle (by decide)

/-- Two chains of sums with a plus sign between them are, regrouped, a chain of sums. -/
theorem Derives.regroup {e f : Expression} {plus : Token} (he : Derives (.chain .sum) e)
    (hplus : plus.kind = .operator .plus) (hf : Derives (.chain .sum) f) :
    Derives (.chain .sum) (e.regroup plus f) := by
  have hhas : Level.sum.has plus.kind := by rw [hplus]; rfl
  generalize hc : Category.chain .sum = c at hf
  induction hf with
  | numeral | group => cases hc
  | single hf =>
      cases hc
      rw [hf.regroup_eq]
      exact .step he hhas hf
  | step _ hoperator hright ihleft =>
      cases hc
      rw [Expression.regroup_binary_of_has hoperator]
      exact .step (ihleft rfl) hoperator hright

/-! ### Lines -/

/-- A plus sign between two phrases. -/
theorem IsPhrase.sum {e f : Expression} {s t : String} (hs : IsPhrase (.chain .sum) e s)
    (ht : IsPhrase (.chain .sum) f t) :
    IsPhrase (.chain .sum)
      (e.regroup ((Token.ofKind (.operator .plus)).relocate (s.utf8ByteSize + ·))
        (f.relocate (s.utf8ByteSize + 1 + ·)))
      (s ++ "+" ++ t) := by
  have hsymbol : (Token.Kind.operator .plus).symbol? = some '+' := rfl
  have htext : s ++ "+" ++ t = s ++ String.singleton '+' ++ t := rfl
  refine ⟨hs.derives.regroup rfl ht.derives.relocate, ?_, ?_⟩
  · rw [htext, Sentence.tokens_ofText_append_symbol hsymbol, Expression.tokens_regroup,
      Expression.tokens_relocate, hs.tokens_eq, ht.tokens_eq]
  · rw [htext, Token.defects_scan_append_symbol hsymbol, hs.defects_eq_nil, ht.defects_eq_nil]
    rfl

/-- **Sums of lines.** Where two valid lines with a plus sign between them make a valid line, it is
worth the sum of what they are worth, in words that wrap around. The fault of the first line is the
fault of the whole; that of the second one is it if the first line has a value, and it is met
behind the first line and the plus sign. The only thing that can be wrong with the line is that it
is too high. -/
theorem calculate_sum {s t : String} (hs : (Reading.ofText s).diagnostics = [])
    (ht : (Reading.ofText t).diagnostics = []) :
    ((Reading.ofText (s ++ "+" ++ t)).diagnostics = [] →
      (∃ p, calculate s = .error (.undefined (.divisionByZero p)) ∧
        calculate (s ++ "+" ++ t) = .error (.undefined (.divisionByZero p))) ∨
      (∃ x p, calculate s = .ok x ∧ calculate t = .error (.undefined (.divisionByZero p)) ∧
        calculate (s ++ "+" ++ t) =
          .error (.undefined (.divisionByZero (p + s.utf8ByteSize + 1)))) ∨
      (∃ x y, calculate s = .ok x ∧ calculate t = .ok y ∧
        calculate (s ++ "+" ++ t) = .ok (x + y))) ∧
    ((Reading.ofText (s ++ "+" ++ t)).diagnostics = [] ∨
      ∃ position, (Reading.ofText (s ++ "+" ++ t)).diagnostics =
        [⟨.tooDeep depthLimit, position⟩]) := by
  have hsPhrase := Reading.isPhrase_root hs
  have htPhrase := Reading.isPhrase_root ht
  have hphrase := hsPhrase.sum htPhrase
  refine ⟨fun hvalid => ?_, hphrase.diagnostics_cases⟩
  have hplus : ((Token.ofKind (.operator .plus)).relocate (s.utf8ByteSize + ·)).kind =
      .operator .plus := rfl
  have hmoved := Expression.evaluate_relocate (g := (s.utf8ByteSize + 1 + ·))
    (Reading.ofText t).root
  rw [hphrase.calculate_eq hvalid, Expression.evaluate_regroup hplus, hsPhrase.calculate_eq hs,
    htPhrase.calculate_eq ht]
  rcases hsPhrase.evaluate_cases with ⟨x, hx⟩ | ⟨p, -, -, hp⟩
  · right
    rcases htPhrase.evaluate_cases with ⟨y, hy⟩ | ⟨p, -, -, hp⟩
    · right
      rw [hy] at hmoved
      refine ⟨x, y, by rw [hx]; rfl, by rw [hy]; rfl, ?_⟩
      rw [Expression.evaluate_binary_of_ok _ hx hmoved, Token.combine_plus hplus]
      rfl
    · left
      rw [hp] at hmoved
      refine ⟨x, p.position, by rw [hx]; rfl, by rw [hp]; rfl, ?_⟩
      have hposition : p.position + s.utf8ByteSize + 1 = s.utf8ByteSize + 1 + p.position := by
        omega
      rw [Expression.evaluate_binary_of_right_error _ hx hmoved, hposition]
      rfl
  · left
    refine ⟨p.position, by rw [hp]; rfl, ?_⟩
    rw [Expression.evaluate_binary_of_left_error _ _ hp]
    rfl

/-- The sum that is computed first wraps around, and the difference behind it wraps back. -/
theorem calculate_sum_wrapping :
    (Reading.ofText "2147483647").diagnostics = [] ∧ (Reading.ofText "1-2").diagnostics = [] ∧
      (Reading.ofText ("2147483647" ++ "+" ++ "1-2")).diagnostics = [] ∧
      calculate ("2147483647" ++ "+" ++ "1-2") = .ok 2147483646 := by
  have hs : (Reading.ofText "2147483647").diagnostics = [] := by decide +kernel
  have ht : (Reading.ofText "1-2").diagnostics = [] := by decide +kernel
  have hvalid : (Reading.ofText ("2147483647" ++ "+" ++ "1-2")).diagnostics = [] := by
    decide +kernel
  have hleft : calculate "2147483647" = .ok 2147483647 := by decide +kernel
  have hright : calculate "1-2" = .ok (-1) := by decide +kernel
  refine ⟨hs, ht, hvalid, ?_⟩
  rcases (calculate_sum hs ht).1 hvalid with ⟨p, hp, -⟩ | ⟨x, p, -, hp, -⟩ | ⟨x, y, hx, hy, h⟩
  · simp [hleft] at hp
  · simp [hright] at hp
  · obtain rfl : 2147483647 = x := Except.ok.inj (hleft.symm.trans hx)
    obtain rfl : -1 = y := Except.ok.inj (hright.symm.trans hy)
    exact h

end Calculator
