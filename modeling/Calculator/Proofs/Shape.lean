import Calculator.Proofs.Steps
import Calculator.Expression.Render

/-!
# The Shape of What Is Read

Whatever a line looks like, the expression that is read for it is a derivation of the grammar:
a stand-in has the kind of the token it stands for, and so recovery and giving up change the
texts in a tree but never its shape. The height that the parser keeps beside an expression is
the height of that expression, and it respects the limit.

* `Parser.fits_of_returns` — every result is a derivation within the limit (`Parsed.Fits`);
* `Parser.past_of_returns` — behind a chain no operator follows that the chain could take;
* `Derives.parenthesize_eq` — a derivation needs no further parentheses;
* `Derives.of_kinds` — what counts in a derivation is the kinds of its tokens.
-/

namespace Calculator

/-! ### Derivations -/

/-- A numeral is a derivation of every category. -/
theorem Derives.number {t : Token} (hkind : t.kind = .number) :
    ∀ c : Category, Derives c (.number t)
  | .primary => .numeral hkind
  | .chain .product => .single (.numeral hkind)
  | .chain .sum => .single (.single (.numeral hkind))

/-- How tightly the expressions of a category hold together. -/
def Category.precedence : Category → Nat
  | chain l => l.precedence
  | primary => 3

/-- A chain of sums holds together least tightly, and a primary most tightly. -/
theorem Category.sum_le_precedence (c : Category) : (chain .sum).precedence ≤ c.precedence := by
  match c with
  | primary | chain .sum | chain .product => decide

/-- Nothing binds tighter than a primary. -/
theorem Category.precedence_le_primary (c : Category) : c.precedence ≤ primary.precedence := by
  match c with
  | primary | chain .sum | chain .product => decide

/-- The operands of a level bind tighter than its operators. -/
theorem Level.precedence_lt_operands (l : Level) : l.precedence < l.operands.precedence := by
  cases l <;> decide

/-- An operator binds as tightly as its level. -/
theorem Level.precedence_of_has {l : Level} {k : Token.Kind} (h : l.has k) :
    k.precedence = l.precedence := by
  cases k with
  | operator o =>
      obtain rfl : o.level = l := by simpa [has, Token.Kind.operator?] using h
      rfl
  | _ => simp [has, Token.Kind.operator?] at h

/-- A derivation of a category is one of every category that holds together less tightly. -/
theorem Derives.weaken {c d : Category} {e : Expression} (h : Derives c e)
    (hle : d.precedence ≤ c.precedence) : Derives d e := by
  have hproduct : Derives .primary e → Derives (.chain .product) e := .single (l := .product)
  have hsum : Derives (.chain .product) e → Derives (.chain .sum) e := .single (l := .sum)
  match c, d with
  | .primary, .primary => exact h
  | .primary, .chain .product => exact hproduct h
  | .primary, .chain .sum => exact hsum (hproduct h)
  | .chain .product, .primary => exact absurd hle (by decide)
  | .chain .product, .chain .product => exact h
  | .chain .product, .chain .sum => exact hsum h
  | .chain .sum, .primary => exact absurd hle (by decide)
  | .chain .sum, .chain .product => exact absurd hle (by decide)
  | .chain .sum, .chain .sum => exact h

/-- The operator at the top of a derivation binds at least as tightly as the category. -/
theorem Derives.precedence_le {c : Category} {e : Expression} (h : Derives c e) :
    ∀ k ∈ e.topPrecedence?, c.precedence ≤ k := by
  induction h with
  | numeral | group => simp [Expression.topPrecedence?]
  | @single l e _ ih =>
      intro k hk
      exact Nat.le_trans (Nat.le_of_lt l.precedence_lt_operands) (ih k hk)
  | step _ hoperator =>
      simp [Expression.topPrecedence?, Level.precedence_of_has hoperator, Category.precedence]

/-- A derivation has all the parentheses that it needs. -/
theorem Derives.parenthesize_eq {c : Category} {e : Expression} (h : Derives c e) :
    e.parenthesize = e := by
  induction h with
  | numeral => rfl
  | group _ _ _ ih => rw [Expression.parenthesize, ih]
  | single _ ih => exact ih
  | @step l left right operator hleft hoperator hright ihleft ihright =>
      have hprecedence := Level.precedence_of_has hoperator
      have hnotLeft : Expression.needsGroupOnLeft operator left = false := by
        simp only [Expression.needsGroupOnLeft, Option.any_eq_false, decide_eq_false_iff_not,
          Nat.not_lt, hprecedence]
        exact fun k hk => hleft.precedence_le k hk
      have hnotRight : Expression.needsGroupOnRight operator right = false := by
        simp only [Expression.needsGroupOnRight, Option.any_eq_false, decide_eq_false_iff_not,
          Nat.not_le, hprecedence]
        exact fun k hk => Nat.lt_of_lt_of_le l.precedence_lt_operands (hright.precedence_le k hk)
      rw [Expression.parenthesize, hnotLeft, hnotRight, ihleft, ihright]
      rfl

/-- Tokens of the same kinds as those of a derivation are the tokens of a derivation of the same
height. -/
theorem Derives.of_kinds {c : Category} {e : Expression} (h : Derives c e) {ts : List Token}
    (hkinds : ts.map Token.kind = e.tokens.map Token.kind) :
    ∃ f, Derives c f ∧ f.tokens = ts ∧ f.height = e.height := by
  induction h generalizing ts with
  | @numeral t hkind =>
      obtain ⟨u, hu, rfl⟩ : ∃ u, u.kind = t.kind ∧ ts = [u] := by
        simpa [Expression.tokens, List.map_eq_singleton_iff, and_comm] using hkinds
      exact ⟨.number u, .numeral (hu.trans hkind), rfl, rfl⟩
  | @group opening closing inner hopening _ hclosing ih =>
      rw [Expression.tokens, List.cons_append, List.map_cons, List.map_append] at hkinds
      obtain ⟨first, ts, rfl, hfirst, hkinds⟩ := List.map_eq_cons_iff.mp hkinds
      obtain ⟨middle, ts, rfl, hmiddle, hkinds⟩ := List.map_eq_append_iff.mp hkinds
      obtain ⟨last, rfl, hlast⟩ := List.map_eq_singleton_iff.mp hkinds
      obtain ⟨f, hf, rfl, hheight⟩ := ih hmiddle
      refine ⟨.grouped first f last, .group (hfirst.trans hopening) hf (hlast.trans hclosing),
        by simp [Expression.tokens], ?_⟩
      simp only [Expression.height, hheight]
  | single _ ih =>
      obtain ⟨f, hf, htokens, hheight⟩ := ih hkinds
      exact ⟨f, .single hf, htokens, hheight⟩
  | @step l left right operator _ hoperator _ ihleft ihright =>
      rw [Expression.tokens, List.map_append, List.map_cons] at hkinds
      obtain ⟨before, ts, rfl, hbefore, hkinds⟩ := List.map_eq_append_iff.mp hkinds
      obtain ⟨middle, after, rfl, hmiddle, hafter⟩ := List.map_eq_cons_iff.mp hkinds
      obtain ⟨f, hf, rfl, hfheight⟩ := ihleft hbefore
      obtain ⟨g, hg, rfl, hgheight⟩ := ihright hafter
      refine ⟨.binary f middle g, .step hf (hmiddle ▸ hoperator) hg, rfl, ?_⟩
      simp only [Expression.height, hfheight, hgheight]

/-! ### Results -/

/-- A result **fits** a category: its expression is a derivation of the category, its height is
the height of the expression, and the limit holds. -/
structure Parsed.Fits (p : Parser) (c : Category) (e : Parsed) : Prop where
  derives : Derives c e.expression
  height_eq : e.height = e.expression.height
  height_le : ∀ m, p.limit = some m → e.height ≤ m

namespace Parser

variable {p : Parser}

/-- What is given up is a numeral, which fits everywhere. -/
theorem fits_giveUp (hpos : ∀ m, p.limit = some m → 0 < m) (c : Category) (m position : Nat)
    (ds : List Diagnostic) (r : Remaining) : (giveUp m position ds r).Fits p c where
  derives := Derives.number rfl c
  height_eq := rfl
  height_le := hpos

/-- What fits still fits under the limit: it stays as it is, or a stand-in fits in its place. -/
theorem fits_bounded (hpos : ∀ m, p.limit = some m → 0 < m) {c : Category} {e : Parsed}
    (hderives : Derives c e.expression) (hheight : e.height = e.expression.height) :
    (p.bounded e).Fits p c := by
  cases hlimit : p.limit with
  | none =>
      rw [bounded_of_limit_none hlimit]
      exact ⟨hderives, hheight, by simp [hlimit]⟩
  | some m =>
      rcases Nat.lt_or_ge m e.height with h | h
      · rw [bounded_of_lt_height hlimit h]
        exact fits_giveUp hpos c m _ _ _
      · rw [bounded_of_height_le hlimit h]
        refine ⟨hderives, hheight, fun m' hm' => ?_⟩
        obtain rfl : m = m' := Option.some.inj (hlimit.symm.trans hm')
        exact h

/-- Which category the result of a call fits. -/
def Call.Fits (p : Parser) (e : Parsed) : Call → Prop
  | .chain l _ _ => e.Fits p (.chain l)
  | .operand l _ _ => e.Fits p l.operands
  | .extend l _ left => left.Fits p (.chain l) → e.Fits p (.chain l)
  | .primary _ _ => e.Fits p .primary

/-- A token that is expected has the kind that was asked for, found or not. -/
theorem kind_expect (kind : Token.Kind) (r : Remaining) : (p.expect kind r).token.kind = kind := by
  by_cases h : (r.current p.endOfFile).kind = kind
  · rw [expect_of_kind h]
    exact h
  · rw [expect_of_kind_ne h]
    rfl

/-- Every result fits the category of its call. -/
theorem fits_of_returns (hpos : ∀ m, p.limit = some m → 0 < m) {c : Call} {e : Parsed}
    (h : p.Returns c e) : c.Fits p e := by
  induction h with
  | chain _ _ ihfirst ihrest =>
      exact ihrest ⟨.single ihfirst.derives, ihfirst.height_eq, ihfirst.height_le⟩
  | sumOperand _ ih | productOperand _ ih => exact ih
  | stop => exact fun hleft => hleft
  | @step l n left right e operator ts hoperator _ _ ihright ihrest =>
      intro hleft
      obtain ⟨-, hkind⟩ := Remaining.takeIf_eq_some_iff.mp hoperator
      refine ihrest (fits_bounded hpos (.step hleft.derives hkind ihright.derives) ?_)
      simp only [Expression.height, hleft.height_eq, ihright.height_eq]
  | numeral =>
      exact ⟨.numeral (kind_expect _ _), rfl, hpos⟩
  | refused => exact fits_giveUp hpos _ _ _ _ _
  | @group n r opening ts inner hopening _ _ ih =>
      obtain ⟨-, hkind⟩ := Remaining.takeIf_eq_some_iff.mp hopening
      refine fits_bounded hpos (.group (by simpa using hkind) ih.derives (kind_expect _ _)) ?_
      simp only [Expression.height, ih.height_eq]

/-- What follows the result of a call: behind a chain there is no operator of its level or of a
tighter one. -/
def Call.Past (e : Parsed) : Call → Prop
  | .chain l _ _ => ∀ l' : Level, l.precedence ≤ l'.precedence → e.rest.takeIf l'.has = none
  | .operand l _ _ => ∀ l' : Level, l.precedence < l'.precedence → e.rest.takeIf l'.has = none
  | .extend l _ left =>
    (∀ l' : Level, l.precedence < l'.precedence → left.rest.takeIf l'.has = none) →
      ∀ l' : Level, l.precedence ≤ l'.precedence → e.rest.takeIf l'.has = none
  | .primary _ _ => True

/-- Behind a chain no operator follows that the chain could take. -/
theorem past_of_returns {c : Call} {e : Parsed} (h : p.Returns c e) : c.Past e := by
  induction h with
  | chain _ _ ihfirst ihrest => exact ihrest ihfirst
  | sumOperand _ ih =>
      intro l' hlt
      exact ih l' (by cases l' <;> simp_all [Level.precedence])
  | productOperand =>
      intro l' hlt
      cases l' <;> simp [Level.precedence] at hlt
  | @stop l n left hnone =>
      intro htighter l' hle
      by_cases hl : l' = l
      · exact hl ▸ hnone
      · refine htighter l' (Nat.lt_of_le_of_ne hle fun heq => hl ?_)
        cases l <;> cases l' <;> simp_all [Level.precedence]
  | @step l n left right e operator ts _ _ _ ihright ihrest =>
      intro _
      refine ihrest fun l' hlt => ?_
      rcases p.bounded_eq_or
        { expression := .binary left.expression operator right.expression
          height := max left.height right.height + 1
          diagnostics := left.diagnostics ++ right.diagnostics
          rest := right.rest } with h | ⟨m, -, -, h⟩ <;>
        rw [join, h]
      · exact ihright l' hlt
      · rfl
  | numeral | refused | group => trivial

/-- Behind a chain of sums no operator follows at all. -/
theorem operator?_of_chain_sum {n : Nat} {r : Remaining} {e : Parsed}
    (h : p.Returns (.chain .sum n r) e) : ∀ t ∈ e.rest.toList.head?, t.kind.operator? = none := by
  intro t ht
  have hpast : ∀ l' : Level, l'.has t.kind = false := fun l' =>
    Remaining.takeIf_eq_none_iff.mp
      (past_of_returns h l' (by cases l' <;> decide)) t ht
  cases hop : t.kind.operator? with
  | none => rfl
  | some o => simpa [Level.has, hop] using hpast o.level

end Parser

end Calculator
