import Calculator.Expression

/-!
# The Grammar

The language of arithmetic lines, stated without a parser. `Derives c e` says that the tree `e`
is a derivation of the category `c`: tokens stand in their places by kind, chains group to the
left, and an operand of a chain binds tighter than the chain does. A **word** of the language is
the sequence of the kinds of such a tree's tokens, from left to right.

* `Category`, `Derives` — the categories of the grammar and their derivation trees;
* `IsWord` — the words of the language;
* `Derives.significant` — a derivation is made of significant tokens only.
-/

namespace Calculator

/-- Whether tokens of a kind are operators of a level. -/
def Level.has (l : Level) (k : Token.Kind) : Bool :=
  k.operator?.any (·.level == l)

/-- The categories of the grammar. -/
inductive Category
  /-- Operands of a level with operators of that level between them. -/
  | chain (l : Level)
  /-- A numeral, or a chain of sums in parentheses. -/
  | primary
deriving DecidableEq

/-- The category of the operands of a level. -/
def Level.operands : Level → Category
  | sum => .chain .product
  | product => .primary

/-- The relation `Derives c e` says that the tree `e` is a derivation of the category `c`. -/
inductive Derives : Category → Expression → Prop
  /-- A numeral is a primary. -/
  | numeral {t : Token} (hkind : t.kind = .number) : Derives .primary (.number t)
  /-- A chain of sums in parentheses is a primary. -/
  | group {opening closing : Token} {inner : Expression} (hopening : opening.kind = .groupOpen)
      (hinner : Derives (.chain .sum) inner) (hclosing : closing.kind = .groupClose) :
      Derives .primary (.grouped opening inner closing)
  /-- A single operand is a chain. -/
  | single {l : Level} {e : Expression} (h : Derives l.operands e) : Derives (.chain l) e
  /-- A chain, an operator of its level and an operand are a chain. -/
  | step {l : Level} {left right : Expression} {operator : Token}
      (hleft : Derives (.chain l) left) (hoperator : l.has operator.kind)
      (hright : Derives l.operands right) : Derives (.chain l) (.binary left operator right)

/-- The **words** of the language: the kinds of the tokens of a chain of sums. -/
def IsWord (kinds : List Token.Kind) : Prop :=
  ∃ e, Derives (.chain .sum) e ∧ e.tokens.map Token.kind = kinds

/-- The operators of a level are significant. -/
theorem Level.isSignificant_of_has {l : Level} {k : Token.Kind} (h : l.has k) :
    k.isSignificant := by
  cases k with
  | operator => rfl
  | _ => simp [has, Token.Kind.operator?] at h

/-- A derivation is made of significant tokens only. -/
theorem Derives.significant {c : Category} {e : Expression} (h : Derives c e) :
    ∀ t ∈ e.tokens, t.kind.isSignificant := by
  induction h with
  | numeral hkind => simp [Expression.tokens, hkind, Token.Kind.isSignificant]
  | group hopening _ hclosing ih =>
    intro t ht
    rcases Expression.mem_tokens_grouped.mp ht with rfl | ht | rfl
    · simp [hopening, Token.Kind.isSignificant]
    · exact ih t ht
    · simp [hclosing, Token.Kind.isSignificant]
  | single _ ih => exact ih
  | step _ hoperator _ ihleft ihright =>
    intro t ht
    rcases Expression.mem_tokens_binary.mp ht with ht | rfl | ht
    · exact ihleft t ht
    · exact Level.isSignificant_of_has hoperator
    · exact ihright t ht

end Calculator
