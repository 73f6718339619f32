import Calculator.Grammar

/-!
# Nesting

Groups and the parentheses around them. An expression is **bracketed** when its parentheses open
and close its groups and stand nowhere else, as they do in every derivation. From left to right,
the parentheses of a bracketed expression never close more groups than are open, and in the end
none is open (`Token.balance`). So what stands between two parentheses that belong together is
the same in all bracketed expressions with the same tokens.

The tokens alone do not determine a bracketed expression, because operators may bind in any way.
But the tokens and the expression without its groups do.

* `Expression.withoutGroups` — the expression with each group replaced by what is inside;
* `Derives.isBracketed` — derivations are bracketed;
* `Expression.IsBracketed.balance_nonneg` — the balance along a bracketed expression;
* `Expression.IsBracketed.eq_of_withoutGroups_eq` — what determines a bracketed expression.
-/

namespace Calculator

/-- What a kind adds to the number of groups that are open. -/
def Token.Kind.opens : Token.Kind → Int
  | groupOpen => 1
  | groupClose => -1
  | bad | blank | number | operator _ | endOfFile => 0

/-- By how many the groups that a list of tokens opens exceed those that it closes. -/
def Token.balance : List Token → Int
  | [] => 0
  | t :: ts => t.kind.opens + balance ts

/-- An expression is **bracketed** when its parentheses stand around its groups and nowhere
else. -/
def Expression.IsBracketed : Expression → Prop
  | number token => token.kind.opens = 0
  | binary left operator right =>
    left.IsBracketed ∧ operator.kind.opens = 0 ∧ right.IsBracketed
  | grouped opening inner closing =>
    opening.kind = .groupOpen ∧ inner.IsBracketed ∧ closing.kind = .groupClose

/-- The expression **without its groups**: each is replaced by what is inside. -/
def Expression.withoutGroups : Expression → Expression
  | number token => number token
  | binary left operator right => binary left.withoutGroups operator right.withoutGroups
  | grouped _ inner _ => inner.withoutGroups

/-- An operator opens nothing. -/
theorem Level.opens_of_has {l : Level} {k : Token.Kind} (h : l.has k) : k.opens = 0 := by
  cases k with
  | operator => rfl
  | _ => simp [has, Token.Kind.operator?] at h

/-- Derivations are bracketed. -/
theorem Derives.isBracketed {c : Category} {e : Expression} (h : Derives c e) :
    e.IsBracketed := by
  induction h with
  | numeral hkind => simp [Expression.IsBracketed, hkind, Token.Kind.opens]
  | group hopening _ hclosing ih => exact ⟨hopening, ih, hclosing⟩
  | single _ ih => exact ih
  | step _ hoperator _ ihleft ihright => exact ⟨ihleft, Level.opens_of_has hoperator, ihright⟩

/-! ### Balance -/

namespace Token

@[simp] theorem balance_nil : balance [] = 0 := rfl

/-- One token more. -/
@[simp] theorem balance_cons (t : Token) (ts : List Token) :
    balance (t :: ts) = t.kind.opens + balance ts := rfl

/-- What is opened and closed adds up. -/
@[simp] theorem balance_append (ts us : List Token) :
    balance (ts ++ us) = balance ts + balance us := by
  induction ts with
  | nil => simp
  | cons t ts ih => simp [ih, Int.add_assoc]

/-- A list splits in only one place into a part with the given tokens besides parentheses, one
more such token, and the rest. -/
theorem append_cons_inj_of_filter_eq {ts ts' us us' : List Token} {t t' : Token}
    (ht : t.kind.opens = 0) (ht' : t'.kind.opens = 0)
    (hfilter : ts.filter (·.kind.opens = 0) = ts'.filter (·.kind.opens = 0))
    (h : ts ++ t :: us = ts' ++ t' :: us') : ts = ts' ∧ t = t' ∧ us = us' := by
  rcases List.append_eq_append_iff.mp h with ⟨vs, rfl, hvs⟩ | ⟨vs, rfl, hvs⟩
  · rcases List.cons_eq_append_iff.mp hvs with ⟨rfl, heq⟩ | ⟨ws, rfl, -⟩
    · obtain ⟨rfl, rfl⟩ := List.cons_eq_cons.mp heq
      exact ⟨(List.append_nil ts).symm, rfl, rfl⟩
    · simp [ht] at hfilter
  · rcases List.cons_eq_append_iff.mp hvs with ⟨rfl, heq⟩ | ⟨ws, rfl, -⟩
    · obtain ⟨rfl, rfl⟩ := List.cons_eq_cons.mp heq
      exact ⟨List.append_nil ts', rfl, rfl⟩
    · simp [ht'] at hfilter

end Token

namespace Expression

variable {e f : Expression}

/-- In the end no group is open. -/
theorem IsBracketed.balance_eq_zero (h : e.IsBracketed) : Token.balance e.tokens = 0 := by
  induction e with
  | number token =>
      have hopens : token.kind.opens = 0 := h
      simp [tokens, hopens]
  | binary left operator right ihleft ihright =>
      simp [tokens, ihleft h.1, ihright h.2.2, h.2.1]
  | grouped opening inner closing ih =>
      simp [tokens, ih h.2.1, h.1, h.2.2, Token.Kind.opens]

/-- **Balance.** On the way no more groups are closed than are open. -/
theorem IsBracketed.balance_nonneg (h : e.IsBracketed) {ts us : List Token}
    (htokens : e.tokens = ts ++ us) : 0 ≤ Token.balance ts := by
  induction e generalizing ts us with
  | number token =>
      rcases List.cons_eq_append_iff.mp htokens with ⟨rfl, -⟩ | ⟨vs, rfl, hvs⟩
      · exact Int.le_refl 0
      · obtain ⟨rfl, -⟩ := List.append_eq_nil_iff.mp hvs.symm
        exact Int.le_of_eq h.balance_eq_zero.symm
  | binary left operator right ihleft ihright =>
      rcases List.append_eq_append_iff.mp htokens with ⟨vs, rfl, hvs⟩ | ⟨vs, hleft, -⟩
      · have hleft := h.1.balance_eq_zero
        rcases List.cons_eq_append_iff.mp hvs with ⟨rfl, -⟩ | ⟨ws, rfl, hright⟩
        · simp [hleft]
        · simpa [hleft, h.2.1] using ihright h.2.2 hright
      · exact ihleft h.1 hleft
  | grouped opening inner closing ih =>
      rcases List.cons_eq_append_iff.mp htokens with ⟨rfl, -⟩ | ⟨vs, rfl, hvs⟩
      · exact Int.le_refl 0
      · have hopening : opening.kind.opens = 1 := by rw [h.1]; rfl
        have hclosing : closing.kind.opens = -1 := by rw [h.2.2]; rfl
        rcases List.append_eq_append_iff.mp hvs with ⟨ws, rfl, hws⟩ | ⟨ws, hinner, -⟩
        · have hinner := h.2.1.balance_eq_zero
          rcases List.cons_eq_append_iff.mp hws with ⟨rfl, -⟩ | ⟨xs, rfl, hxs⟩
          · simp [hinner, hopening]
          · obtain ⟨rfl, -⟩ := List.append_eq_nil_iff.mp hxs.symm
            simp [hinner, hopening, hclosing]
        · have hinside := ih h.2.1 hinner
          rw [Token.balance_cons, hopening]
          omega

/-! ### What determines an expression -/

/-- The tokens without the parentheses are those of the expression without its groups. -/
theorem IsBracketed.tokens_withoutGroups (h : e.IsBracketed) :
    e.withoutGroups.tokens = e.tokens.filter (·.kind.opens = 0) := by
  induction e with
  | number token =>
      have hopens : token.kind.opens = 0 := h
      simp [withoutGroups, tokens, hopens]
  | binary left operator right ihleft ihright =>
      simp [withoutGroups, tokens, ihleft h.1, ihright h.2.2, h.2.1]
  | grouped opening inner closing ih =>
      simp [withoutGroups, tokens, ih h.2.1, h.1, h.2.2, Token.Kind.opens]

/-- A group never has the tokens of an operator between two operands. The group is open behind its
first token, and until its last; but no group is open behind the left operand. -/
theorem IsBracketed.tokens_grouped_ne_binary {left right inner : Expression}
    {operator opening closing : Token} (hgroup : (grouped opening inner closing).IsBracketed)
    (hleft : left.IsBracketed) :
    (grouped opening inner closing).tokens ≠ (binary left operator right).tokens := by
  intro h
  rcases List.append_eq_append_iff.mp h with ⟨ts, -, hts⟩ | ⟨ts, hts, -⟩
  · have hlength := congrArg List.length hts
    have hright := List.length_pos_iff.mpr right.tokens_ne_nil
    simp only [List.length_append, List.length_cons, List.length_nil] at hlength
    omega
  · rcases List.cons_eq_append_iff.mp hts with ⟨hnil, -⟩ | ⟨us, hus, hinner⟩
    · exact left.tokens_ne_nil hnil
    · have hinside := hgroup.2.1.balance_nonneg hinner
      have hbehind := hleft.balance_eq_zero
      rw [hus, Token.balance_cons, hgroup.1] at hbehind
      simp only [Token.Kind.opens] at hbehind
      omega

/-- **Bracketed expressions** with the same tokens are equal if they are equal without their
groups. Induction on the first, where the second must be made in the same way. -/
theorem IsBracketed.eq_of_withoutGroups_eq (he : e.IsBracketed) (hf : f.IsBracketed)
    (htokens : e.tokens = f.tokens) (h : e.withoutGroups = f.withoutGroups) : e = f := by
  induction e generalizing f with
  | number token =>
      cases f with
      | number token' => exact congrArg number (List.singleton_inj.mp htokens)
      | binary => exact absurd h (by simp [withoutGroups])
      | grouped => exact absurd htokens (by simp [tokens])
  | binary left operator right ihleft ihright =>
      cases f with
      | number => exact absurd h (by simp [withoutGroups])
      | binary left' operator' right' =>
          simp only [withoutGroups, binary.injEq] at h
          -- there may be more parentheses on one side, but the same tokens stand besides them
          have hfilter := he.1.tokens_withoutGroups.symm.trans
            ((congrArg tokens h.1).trans hf.1.tokens_withoutGroups)
          obtain ⟨hleft, rfl, hright⟩ :=
            Token.append_cons_inj_of_filter_eq he.2.1 hf.2.1 hfilter htokens
          rw [ihleft he.1 hf.1 hleft h.1, ihright he.2.2 hf.2.2 hright h.2.2]
      | grouped => exact absurd htokens.symm (hf.tokens_grouped_ne_binary he.1)
  | grouped opening inner closing ih =>
      cases f with
      | number => exact absurd htokens (by simp [tokens])
      | binary => exact absurd htokens (he.tokens_grouped_ne_binary hf.1)
      | grouped opening' inner' closing' =>
          simp only [tokens, List.cons_append, List.cons.injEq] at htokens
          obtain ⟨rfl, htokens⟩ := htokens
          obtain ⟨hinner, hclosing⟩ := List.append_inj' htokens rfl
          rw [ih he.2.1 hf.2.1 hinner h, List.singleton_inj.mp hclosing]

end Expression

end Calculator
