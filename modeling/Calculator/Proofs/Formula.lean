import Calculator.Proofs.Calculation
import Calculator.Proofs.RoundTrip

/-!
# Formulas

Expressions that are built without a text, from the values of literals, the four operators and
pairs of parentheses. The groups that `Expression.parenthesize` adds make a formula a derivation
of the grammar, and they do not change its value. So the rendering of a formula is read as the
formula with its groups and has the value of the formula, if it is not too high.

A negative literal has no token of its own. Its text says a minus sign and a numeral, and then
the line has an operator too many: in every derivation there is one operand more than there are
operators (`Derives.surplus_eq_one`). So a rendering with a negative literal is never valid, and
the minus sign is never taken for a subtraction.

* `Formula.derives_parenthesize` — a formula with its groups is a derivation;
* `Expression.evaluate_parenthesize` — groups do not change the value;
* `Formula.diagnostics_ne_nil_of_neg` — no rendering with a negative literal is valid;
* `Formula.calculate_render` — what the rendering of a formula is worth.
-/

namespace Calculator

/-- A **formula**: an expression as it is built without a text. -/
inductive Formula
  /-- The numeral of a value. -/
  | literal (v : Int32)
  /-- An operator between two operands. -/
  | operation (left : Formula) (o : Operator) (right : Formula)
  /-- A formula in parentheses. -/
  | group (inner : Formula)
deriving DecidableEq

namespace Formula

/-- The expression that a formula is. -/
def expression : Formula → Expression
  | literal v => .literal v
  | operation left o right => .operation left.expression (.operator o) right.expression
  | group inner => .group inner.expression

/-- The values of the literals from left to right. -/
def literals : Formula → List Int32
  | literal v => [v]
  | operation left _ right => left.literals ++ right.literals
  | group inner => inner.literals

/-- The tightest category of which a formula with its groups is a derivation. -/
def category : Formula → Category
  | literal _ => .primary
  | operation _ o _ => .chain o.level
  | group _ => .primary

end Formula

/-! ### Groups -/

/-- The operands of a level hold together no tighter than the chains of a tighter level. -/
theorem Level.precedence_operands_le {l l' : Level} (h : l.precedence < l'.precedence) :
    l.operands.precedence ≤ (Category.chain l').precedence := by
  cases l <;> cases l' <;> simp_all [precedence, operands, Category.precedence]

/-- An operand with a group where it needs one is a derivation of the category that is asked
for. -/
theorem Derives.groupIf {c d : Category} {e : Expression} {needed : Bool} (h : Derives c e)
    (hneeded : needed = false → d.precedence ≤ c.precedence) :
    Derives d (Expression.groupIf needed e) := by
  cases needed with
  | false => exact h.weaken (hneeded rfl)
  | true => exact weaken (.group rfl (h.weaken c.sum_le_precedence) rfl) d.precedence_le_primary

namespace Formula

variable {o : Operator}

/-- An operand that stands bare on the left binds at least as tightly as the operator. -/
theorem precedence_le_of_needsGroupOnLeft {f : Formula}
    (h : Expression.needsGroupOnLeft (.ofKind (.operator o)) f.expression = false) :
    (Category.chain o.level).precedence ≤ f.category.precedence := by
  cases f with
  | literal | group => exact Category.precedence_le_primary _
  | operation left o' right =>
      have hlt : decide (o'.precedence < o.precedence) = false := h
      exact Nat.le_of_not_lt (of_decide_eq_false hlt)

/-- An operand that stands bare on the right binds tighter than the operator. -/
theorem precedence_le_of_needsGroupOnRight {f : Formula}
    (h : Expression.needsGroupOnRight (.ofKind (.operator o)) f.expression = false) :
    o.level.operands.precedence ≤ f.category.precedence := by
  cases f with
  | literal | group => exact Category.precedence_le_primary _
  | operation left o' right =>
      have hle : decide (o'.precedence ≤ o.precedence) = false := h
      have hlt : o.level.precedence < o'.level.precedence :=
        Nat.lt_of_not_le (of_decide_eq_false hle)
      exact Level.precedence_operands_le hlt

/-- A formula with the groups that it needs is a derivation. -/
theorem derives_parenthesize (f : Formula) : Derives f.category f.expression.parenthesize := by
  induction f with
  | literal v => exact .numeral rfl
  | operation left o right ihleft ihright =>
      refine .step (ihleft.groupIf precedence_le_of_needsGroupOnLeft) ?_
        (ihright.groupIf precedence_le_of_needsGroupOnRight)
      simp [Level.has, Token.ofKind, Token.Kind.operator?]
  | group inner ih => exact .group rfl (ih.weaken inner.category.sum_le_precedence) rfl

end Formula

namespace Expression

/-- A group that is added does not change the value. -/
@[simp] theorem evaluate_groupIf (needed : Bool) (e : Expression) :
    (groupIf needed e).evaluate = e.evaluate := by
  cases needed <;> rfl

/-- The groups that are added do not change the value, nor the fault. -/
theorem evaluate_parenthesize (e : Expression) : e.parenthesize.evaluate = e.evaluate := by
  induction e with
  | number => rfl
  | binary left operator right ihleft ihright =>
      rw [parenthesize, evaluate, evaluate, evaluate_groupIf, evaluate_groupIf, ihleft, ihright]
  | grouped opening inner closing ih => exact ih

/-- The only tokens that are added are two parentheses. -/
theorem mem_tokens_groupIf {needed : Bool} {e : Expression} {t : Token}
    (h : t ∈ (groupIf needed e).tokens) :
    t ∈ e.tokens ∨ t = .ofKind .groupOpen ∨ t = .ofKind .groupClose := by
  cases needed with
  | false => exact .inl h
  | true =>
      rcases mem_tokens_grouped.mp h with h | h | h
      · exact .inr (.inl h)
      · exact .inl h
      · exact .inr (.inr h)

/-- A group that is added takes no token away. -/
theorem tokens_subset_groupIf (needed : Bool) (e : Expression) :
    e.tokens ⊆ (groupIf needed e).tokens := by
  cases needed with
  | false => exact List.Subset.refl _
  | true => exact fun t ht => List.mem_cons_of_mem _ (List.mem_append_left _ ht)

/-- The groups that are added take no token away. -/
theorem tokens_subset_parenthesize (e : Expression) : e.tokens ⊆ e.parenthesize.tokens := by
  induction e with
  | number => exact List.Subset.refl _
  | binary left operator right ihleft ihright =>
      intro t ht
      rcases mem_tokens_binary.mp ht with ht | rfl | ht
      · exact mem_tokens_binary.mpr (.inl (tokens_subset_groupIf _ _ (ihleft ht)))
      · exact mem_tokens_binary.mpr (.inr (.inl rfl))
      · exact mem_tokens_binary.mpr (.inr (.inr (tokens_subset_groupIf _ _ (ihright ht))))
  | grouped opening inner closing ih =>
      intro t ht
      rcases mem_tokens_grouped.mp ht with rfl | ht | rfl
      · exact mem_tokens_grouped.mpr (.inl rfl)
      · exact mem_tokens_grouped.mpr (.inr (.inl (ih ht)))
      · exact mem_tokens_grouped.mpr (.inr (.inr rfl))

end Expression

/-! ### Tokens -/

namespace Formula

/-- The tokens of a formula with its groups: its literals, and tokens with only one text. -/
theorem mem_tokens {f : Formula} {t : Token} (h : t ∈ f.expression.parenthesize.tokens) :
    (∃ v ∈ f.literals, t = .literal v) ∨ ∃ k c, k.symbol? = some c ∧ t = .ofKind k := by
  have hgroup : t = .ofKind .groupOpen ∨ t = .ofKind .groupClose →
      ∃ k c, k.symbol? = some c ∧ t = .ofKind k := by
    rintro (rfl | rfl) <;> exact ⟨_, _, rfl, rfl⟩
  induction f with
  | literal v => exact .inl ⟨v, by simp [literals], List.mem_singleton.mp h⟩
  | operation left o right ihleft ihright =>
      simp only [literals, List.mem_append]
      rcases Expression.mem_tokens_binary.mp h with h | rfl | h
      · rcases Expression.mem_tokens_groupIf h with h | h
        · exact (ihleft h).imp_left fun ⟨v, hv, ht⟩ => ⟨v, .inl hv, ht⟩
        · exact .inr (hgroup h)
      · exact .inr ⟨.operator o, o.symbol, rfl, rfl⟩
      · rcases Expression.mem_tokens_groupIf h with h | h
        · exact (ihright h).imp_left fun ⟨v, hv, ht⟩ => ⟨v, .inr hv, ht⟩
        · exact .inr (hgroup h)
  | group inner ih =>
      rcases Expression.mem_tokens_grouped.mp h with h | h | h
      · exact .inr (hgroup (.inl h))
      · exact ih h
      · exact .inr (hgroup (.inr h))

/-- Every literal is one of the tokens. -/
theorem literal_mem_tokens {f : Formula} {v : Int32} (h : v ∈ f.literals) :
    .literal v ∈ f.expression.parenthesize.tokens := by
  induction f with
  | literal w =>
      obtain rfl := List.mem_singleton.mp h
      exact List.mem_cons_self
  | operation left o right ihleft ihright =>
      rcases List.mem_append.mp h with h | h
      · exact List.mem_append_left _ (Expression.tokens_subset_groupIf _ _ (ihleft h))
      · exact List.mem_append_right _ (List.mem_cons_of_mem _
          (Expression.tokens_subset_groupIf _ _ (ihright h)))
  | group inner ih => exact List.mem_cons_of_mem _ (List.mem_append_left _ (ih h))

/-- In a formula without negative literals every token is spelled. -/
theorem isSpelled_of_mem_tokens {f : Formula} (h : ∀ v ∈ f.literals, 0 ≤ v) {t : Token}
    (ht : t ∈ f.expression.parenthesize.tokens) : t.IsSpelled := by
  rcases mem_tokens ht with ⟨v, hv, rfl⟩ | ⟨k, c, hsymbol, rfl⟩
  · exact Token.isSpelled_literal (Int32.le_iff_toInt_le.mp (h v hv))
  · exact Token.isSpelled_ofKind hsymbol

/-- No token of a formula has a defect. -/
theorem defect?_of_mem_tokens {f : Formula} {t : Token}
    (ht : t ∈ f.expression.parenthesize.tokens) : t.defect? = none := by
  rcases mem_tokens ht with ⟨v, hv, rfl⟩ | ⟨k, c, hsymbol, rfl⟩
  · rfl
  · cases k <;> simp_all [Token.ofKind, Token.Kind.symbol?, Token.defect?]

/-- A formula with its groups is a whole expression of the grammar. -/
theorem derives_sum (f : Formula) : Derives (.chain .sum) f.expression.parenthesize :=
  f.derives_parenthesize.weaken f.category.sum_le_precedence

end Formula

/-! ### Counting operands -/

/-- What a kind adds to the number of operands in excess of operators. -/
def Token.Kind.surplus : Token.Kind → Int
  | number => 1
  | operator _ => -1
  | bad | blank | groupOpen | groupClose | endOfFile => 0

/-- By how many the operands of a list of tokens exceed the operators. -/
def Token.surplus : List Token → Int
  | [] => 0
  | t :: ts => t.kind.surplus + surplus ts

namespace Token

@[simp] theorem surplus_nil : surplus [] = 0 := rfl

/-- One token more. -/
@[simp] theorem surplus_cons (t : Token) (ts : List Token) :
    surplus (t :: ts) = t.kind.surplus + surplus ts := rfl

/-- The surplus adds up. -/
@[simp] theorem surplus_append (ts us : List Token) :
    surplus (ts ++ us) = surplus ts + surplus us := by
  induction ts with
  | nil => simp
  | cons t ts ih =>
      simp only [List.cons_append, surplus_cons, ih]
      omega

/-- The surplus is a matter of kinds. -/
theorem surplus_congr {ts us : List Token} (h : ts.map kind = us.map kind) :
    surplus ts = surplus us := by
  induction ts generalizing us with
  | nil =>
      obtain rfl : us = [] := by simpa using h.symm
      rfl
  | cons t ts ih =>
      obtain ⟨u, us, rfl, hkind, hkinds⟩ := List.map_eq_cons_iff.mp h.symm
      rw [surplus_cons, surplus_cons, hkind, ih hkinds.symm]

/-- Positions do not matter for the surplus. -/
theorem surplus_map_unplaced (ts : List Token) : surplus (ts.map unplaced) = surplus ts := by
  refine surplus_congr ?_
  rw [List.map_map]
  rfl

/-- Where tokens are replaced by lists of no greater surplus, the surplus does not grow. -/
theorem surplus_flatMap_le {f : Token → List Token} {ts : List Token}
    (h : ∀ t ∈ ts, surplus (f t) ≤ t.kind.surplus) : surplus (ts.flatMap f) ≤ surplus ts := by
  induction ts with
  | nil => simp
  | cons t ts ih =>
      simp only [List.forall_mem_cons] at h
      have hrest := ih h.2
      simp only [List.flatMap_cons, surplus_append, surplus_cons]
      omega

/-- If one of them has a smaller surplus, the surplus goes down. -/
theorem surplus_flatMap_lt {f : Token → List Token} {ts : List Token}
    (h : ∀ t ∈ ts, surplus (f t) ≤ t.kind.surplus)
    (hlt : ∃ t ∈ ts, surplus (f t) < t.kind.surplus) : surplus (ts.flatMap f) < surplus ts := by
  induction ts with
  | nil => simp at hlt
  | cons t ts ih =>
      obtain ⟨u, hu, hlt⟩ := hlt
      simp only [List.forall_mem_cons] at h
      simp only [List.flatMap_cons, surplus_append, surplus_cons]
      rcases List.mem_cons.mp hu with rfl | hu
      · have hrest := surplus_flatMap_le h.2
        omega
      · have hrest := ih h.2 ⟨u, hu, hlt⟩
        omega

end Token

/-- A derivation has one operand more than it has operators. -/
theorem Derives.surplus_eq_one {c : Category} {e : Expression} (h : Derives c e) :
    Token.surplus e.tokens = 1 := by
  induction h with
  | numeral hkind => simp [Expression.tokens, hkind, Token.Kind.surplus]
  | group hopening _ hclosing ih =>
      simp [Expression.tokens, hopening, hclosing, ih, Token.Kind.surplus]
  | single _ ih => exact ih
  | @step l left right operator _ hoperator _ ihleft ihright =>
      have hkind : operator.kind.surplus = -1 := by
        cases hkind : operator.kind with
        | operator => rfl
        | _ => simp [hkind, Level.has, Token.Kind.operator?] at hoperator
      simp [Expression.tokens, hkind, ihleft, ihright]

namespace Formula

/-- A negative literal is written with an operator and a numeral, so it adds nothing. -/
theorem surplus_spelling_of_neg {v : Int32} (h : v < 0) :
    Token.surplus (spelling (Token.literal v).text.toList) = 0 := by
  have hkinds := Token.spelling_literal_of_neg (Int32.lt_iff_toInt_lt.mp h)
  have hcongr : Token.surplus (spelling (Token.literal v).text.toList) =
      Token.surplus [.ofKind (.operator .minus), .ofKind .number] := Token.surplus_congr hkinds
  rw [hcongr]
  rfl

/-- What the text of a token says is the token, or else an operator comes on top. -/
theorem surplus_spelling_le {f : Formula} {t : Token}
    (ht : t ∈ f.expression.parenthesize.tokens) :
    Token.surplus (spelling t.text.toList) ≤ t.kind.surplus := by
  rcases mem_tokens ht with ⟨v, -, rfl⟩ | ⟨k, c, hsymbol, rfl⟩
  · rcases Int32.lt_or_le v 0 with hneg | hnonneg
    · rw [surplus_spelling_of_neg hneg]
      exact Int.one_nonneg
    · rw [(Token.isSpelled_literal (Int32.le_iff_toInt_le.mp hnonneg)).spelling_text]
      simp [Token.unplaced]
  · rw [(Token.isSpelled_ofKind hsymbol).spelling_text]
    simp [Token.unplaced]

/-- No rendering with a negative literal is valid: it has too few operands. -/
theorem diagnostics_ne_nil_of_neg {f : Formula} {v : Int32} (hv : v ∈ f.literals) (h : v < 0) :
    (Reading.ofText f.expression.render).diagnostics ≠ [] := by
  intro hvalid
  obtain ⟨-, htokens, -⟩ := Reading.root_of_diagnostics_eq_nil hvalid
  have hone : Token.surplus (Sentence.ofText f.expression.render).tokens = 1 := by
    rw [← htokens]
    exact (Reading.derives_root Reading.depthLimit_pos _).1.surplus_eq_one
  have hdigits : ∀ t ∈ f.expression.parenthesize.tokens, t.kind ≠ .number →
      ∀ c ∈ t.text.toList, c.isDigit = false := by
    intro t ht hkind
    rcases mem_tokens ht with ⟨v, -, rfl⟩ | ⟨k, c, hsymbol, rfl⟩
    · exact absurd rfl hkind
    · exact (Token.isSpelled_ofKind hsymbol).isDigit_eq_false hkind
  have hlost : Token.surplus (spelling (Token.literal v).text.toList) <
      (Token.literal v).kind.surplus := by
    rw [surplus_spelling_of_neg h]
    exact Int.one_pos
  have hlt : Token.surplus (spelling f.expression.parenthesize.text.toList) <
      Token.surplus f.expression.parenthesize.tokens := by
    rw [f.derives_sum.spelling_text hdigits]
    exact Token.surplus_flatMap_lt (fun t ht => surplus_spelling_le ht)
      ⟨_, literal_mem_tokens hv, hlost⟩
  rw [← Expression.render_eq, ← Sentence.map_unplaced_tokens, Token.surplus_map_unplaced, hone,
    f.derives_sum.surplus_eq_one] at hlt
  exact absurd hlt (Int.lt_irrefl 1)

/-- The sign of a literal behind an operator is one operator too many. -/
example : (operation (literal 1) .minus (literal (-2))).expression.render = "1 - -2" ∧
    (Reading.ofText "1 - -2").diagnostics =
      [⟨.unexpectedToken (.operator .minus) .number, 4⟩] := by
  decide +kernel

/-! ### Rendering -/

/-- No token is missing in a formula without negative literals, because each of them has a text. -/
theorem missing_eq_nil {f : Formula} (h : ∀ v ∈ f.literals, 0 ≤ v) :
    f.expression.parenthesize.missing = [] :=
  List.filter_eq_nil_iff.mpr fun t ht => by simp [(isSpelled_of_mem_tokens h ht).isEmpty]

/-- A formula without negative literals can be told from its rendering. -/
theorem legible {f : Formula} (h : ∀ v ∈ f.literals, 0 ≤ v) :
    f.expression.parenthesize.Legible where
  derives := f.derives_sum
  spelled := fun t ht _ => isSpelled_of_mem_tokens h ht
  standIn := fun t ht hempty => by simp [(isSpelled_of_mem_tokens h ht).isEmpty] at hempty
  ended := by
    have hrecovered : f.expression.parenthesize.Recovered 0 := .of_missing_eq_nil (missing_eq_nil h)
    exact hrecovered.ended

/-- Within the limit, the rendering of a formula without negative literals is valid, and it is
read as the formula with its groups. -/
theorem ofText_render {f : Formula} (h : ∀ v ∈ f.literals, 0 ≤ v)
    (hheight : f.expression.parenthesize.height ≤ depthLimit) :
    (Reading.ofText f.expression.render).diagnostics = [] ∧
      (Reading.ofText f.expression.render).root.unplaced =
        f.expression.parenthesize.unplaced := by
  obtain ⟨e, ds, heq, -, he, hds⟩ := (legible h).ofSentence_of_height_le hheight
  have hdefects := (legible h).defects_eq_nil fun t ht => defect?_of_mem_tokens ht
  rw [← Expression.render_eq] at heq hdefects
  rw [Reading.ofText, Reading.ofTextWithin, heq, hdefects, hds (missing_eq_nil h)]
  exact ⟨rfl, he⟩

/-- Beyond the limit, the rendering of a formula is not valid. -/
theorem diagnostics_ne_nil_of_lt_height {f : Formula} (h : ∀ v ∈ f.literals, 0 ≤ v)
    (hheight : depthLimit < f.expression.parenthesize.height) :
    (Reading.ofText f.expression.render).diagnostics ≠ [] := by
  obtain ⟨e, ds, heq, he, -⟩ := (legible h).ofSentence_none
  have hlt : depthLimit <
      (Reading.ofSentence none (Sentence.ofText f.expression.render)).root.height := by
    rw [Expression.render_eq, heq]
    exact Expression.height_eq_of_unplaced_eq he ▸ hheight
  intro hvalid
  rw [Reading.diagnostics_ofText, List.append_eq_nil_iff] at hvalid
  exact (Reading.cutShort_of_lt_height Reading.depthLimit_pos hlt).1.ne_nil hvalid.2

/-- **The rendering of a formula.** Where all literals can be written and the groups leave the
formula within the limit, its rendering is valid, is read as the formula with its groups, and is
worth what the formula is worth; it divides by zero exactly when the formula does. Every other
rendering is not valid, and so it has neither a value nor a fault. -/
theorem calculate_render (f : Formula) :
    ((∀ v ∈ f.literals, 0 ≤ v) → f.expression.parenthesize.height ≤ depthLimit →
      (Reading.ofText f.expression.render).diagnostics = [] ∧
      (Reading.ofText f.expression.render).root.unplaced =
        f.expression.parenthesize.unplaced ∧
      (∀ v, calculate f.expression.render = .ok v ↔ f.expression.evaluate = .ok v) ∧
      ((∃ p, calculate f.expression.render = .error (.undefined (.divisionByZero p))) ↔
        ∃ p, f.expression.evaluate = .error (.divisionByZero p))) ∧
    ((∃ v ∈ f.literals, v < 0) ∨ depthLimit < f.expression.parenthesize.height →
      ∃ ds, calculate f.expression.render = .error (.malformed ds)) := by
  constructor
  · intro hliterals hheight
    obtain ⟨hdiagnostics, hroot⟩ := ofText_render hliterals hheight
    have hevaluate := Expression.mapError_evaluate_of_unplaced_eq hroot
    rw [Expression.evaluate_parenthesize] at hevaluate
    obtain ⟨hvalue, hzero⟩ := Fault.of_mapError_relocate_eq hevaluate
    refine ⟨hdiagnostics, hroot, fun v => ?_, ?_⟩
    · rw [calculate_of_diagnostics_eq_nil hdiagnostics, ← hvalue]
      cases (Reading.ofText f.expression.render).root.evaluate <;> simp [Except.mapError]
    · rw [calculate_of_diagnostics_eq_nil hdiagnostics, ← hzero]
      cases (Reading.ofText f.expression.render).root.evaluate <;> simp [Except.mapError]
  · intro h
    refine ⟨_, calculate_of_diagnostics_ne_nil ?_⟩
    by_cases hneg : ∃ v ∈ f.literals, v < 0
    · obtain ⟨v, hv, hneg⟩ := hneg
      exact diagnostics_ne_nil_of_neg hv hneg
    · refine diagnostics_ne_nil_of_lt_height (fun v hv => ?_) (h.resolve_left hneg)
      rcases Int32.lt_or_le v 0 with hlt | hle
      · exact absurd ⟨v, hv, hlt⟩ hneg
      · exact hle

/-- A difference that needs a group, a division by zero, a negative literal, and a formula with one
group too many. -/
theorem calculate_render_grouped :
    (∀ v ∈ (operation (literal 10) .minus (operation (literal 3) .minus (literal 2))).literals,
        0 ≤ v) ∧
      (operation (literal 10) .minus
        (operation (literal 3) .minus (literal 2))).expression.parenthesize.height ≤ depthLimit ∧
      (operation (literal 10) .minus (operation (literal 3) .minus (literal 2))).expression.render =
        "10 - (3 - 2)" ∧
      (Reading.ofText "10 - (3 - 2)").diagnostics = [] ∧
      (Reading.ofText "10 - (3 - 2)").root.unplaced = (operation (literal 10) .minus
        (operation (literal 3) .minus (literal 2))).expression.parenthesize.unplaced ∧
      calculate "10 - (3 - 2)" = .ok 9 ∧
      (operation (literal 1) .divide (literal 0)).expression.evaluate =
        .error (.divisionByZero 0) ∧
      (∃ p, calculate (operation (literal 1) .divide (literal 0)).expression.render =
        .error (.undefined (.divisionByZero p))) ∧
      (∃ ds, calculate (operation (literal 1) .minus (literal (-2))).expression.render =
        .error (.malformed ds)) ∧
      depthLimit < (Nat.repeat group 256 (literal 1)).expression.parenthesize.height ∧
      ∃ ds, calculate (Nat.repeat group 256 (literal 1)).expression.render =
        .error (.malformed ds) := by
  have hliterals : ∀ v ∈ (operation (literal 10) .minus
      (operation (literal 3) .minus (literal 2))).literals, 0 ≤ v := by
    intro v hv
    simp only [literals, List.cons_append, List.nil_append, List.mem_cons, List.not_mem_nil,
      or_false] at hv
    rcases hv with rfl | rfl | rfl <;> decide
  have hheight : (operation (literal 10) .minus
      (operation (literal 3) .minus (literal 2))).expression.parenthesize.height ≤ depthLimit := by
    decide
  have hrender : (operation (literal 10) .minus
      (operation (literal 3) .minus (literal 2))).expression.render = "10 - (3 - 2)" := by
    decide +kernel
  obtain ⟨hvalid, hroot, hvalue, -⟩ := (calculate_render _).1 hliterals hheight
  rw [hrender] at hvalid hroot hvalue
  have hpositive : ∀ v ∈ (operation (literal 1) .divide (literal 0)).literals, 0 ≤ v := by
    intro v hv
    simp only [literals, List.cons_append, List.nil_append, List.mem_cons, List.not_mem_nil,
      or_false] at hv
    rcases hv with rfl | rfl <;> decide
  have hzero : (operation (literal 1) .divide (literal 0)).expression.evaluate =
      .error (.divisionByZero 0) := by
    decide
  have hdeep : depthLimit < (Nat.repeat group 256 (literal 1)).expression.parenthesize.height := by
    decide +kernel
  refine ⟨hliterals, hheight, hrender, hvalid, hroot, (hvalue 9).mpr (by decide), hzero, ?_, ?_,
    hdeep, (calculate_render _).2 (.inr hdeep)⟩
  · exact ((calculate_render _).1 hpositive (by decide)).2.2.2.mpr ⟨0, hzero⟩
  · exact (calculate_render _).2 (.inl ⟨-2, by simp [literals], by decide⟩)

end Formula

end Calculator
