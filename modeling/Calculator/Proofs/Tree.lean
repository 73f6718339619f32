import Calculator.Proofs.Order

/-!
# The Tree of a Line

What the expression that a line is read as looks like, whatever is wrong with the line. The kinds
in it are those of a derivation, so every token stands where its kind belongs and no operand
binds looser than its place allows. Operators and opening parentheses are never made up: where
one of their kinds stands, it is written in the line. What is written in the tree is a first part
of the line, and the stand-ins in between do not disturb the order of positions.

* `Expression.IsProper` — the tokens and the operands in every node of a tree;
* `Derives.isProper` — a derivation is proper, if its symbols are written;
* `Reading.isProper_root` — the tree of a line.
-/

namespace Calculator

/-- The token is written as the symbol of its kind, if there is one. Only a closing parenthesis
may be missing. -/
def Token.HasSymbol (t : Token) : Prop :=
  ∀ c, t.kind.symbol? = some c →
    t.text = String.singleton c ∨ (t.kind = .groupClose ∧ t.text = "")

/-- A tree is **proper** when every numeral in it is one; every operator is one, is written as its
symbol, and has no operand that binds looser, nor one on the right that binds as loosely; and
every group is opened by a parenthesis that is written, and closed by one that is written or
missing. -/
def Expression.IsProper : Expression → Prop
  | number token => token.kind = .number
  | binary left operator right =>
    left.IsProper ∧ right.IsProper ∧
      (∃ o, operator.kind = .operator o ∧ operator.text = String.singleton o.symbol) ∧
      (∀ k ∈ left.topPrecedence?, operator.kind.precedence ≤ k) ∧
      ∀ k ∈ right.topPrecedence?, operator.kind.precedence < k
  | grouped opening inner closing =>
    inner.IsProper ∧ (opening.kind = .groupOpen ∧ opening.text = "(") ∧
      closing.kind = .groupClose ∧ (closing.text = ")" ∨ closing.text = "")

/-- An operator is written as its symbol. -/
theorem Token.HasSymbol.text_operator {t : Token} (h : t.HasSymbol) {o : Operator}
    (hkind : t.kind = .operator o) : t.text = String.singleton o.symbol := by
  rcases h o.symbol (by rw [hkind]; rfl) with htext | ⟨hclose, -⟩
  · exact htext
  · simp [hkind] at hclose

/-- A derivation is proper, if the symbols in it are written. Induction on the derivation. -/
theorem Derives.isProper {c : Category} {e : Expression} (h : Derives c e)
    (hsymbol : ∀ t ∈ e.tokens, t.HasSymbol) : e.IsProper := by
  induction h with
  | numeral hkind => exact hkind
  | @group opening closing inner hopening _ hclosing ih =>
      simp only [Expression.mem_tokens_grouped] at hsymbol
      refine ⟨ih fun t ht => hsymbol t (.inr (.inl ht)), ⟨hopening, ?_⟩, hclosing, ?_⟩
      · rcases hsymbol opening (.inl rfl) '(' (by rw [hopening]; rfl) with htext | ⟨hclose, -⟩
        · exact htext
        · simp [hopening] at hclose
      · rcases hsymbol closing (.inr (.inr rfl)) ')' (by rw [hclosing]; rfl) with
          htext | ⟨-, htext⟩
        · exact .inl htext
        · exact .inr htext
  | single _ ih => exact ih hsymbol
  | @step l left right operator hleft hoperator hright ihleft ihright =>
      simp only [Expression.mem_tokens_binary] at hsymbol
      have hprecedence := Level.precedence_of_has hoperator
      refine ⟨ihleft fun t ht => hsymbol t (.inl ht),
        ihright fun t ht => hsymbol t (.inr (.inr ht)), ?_, fun k hk => ?_, fun k hk => ?_⟩
      · cases hkind : operator.kind with
        | operator o => exact ⟨o, rfl, (hsymbol operator (.inr (.inl rfl))).text_operator hkind⟩
        | _ => simp [hkind, Level.has, Token.Kind.operator?] at hoperator
      · exact hprecedence ▸ hleft.precedence_le k hk
      · rw [hprecedence]
        exact Nat.lt_of_lt_of_le l.precedence_lt_operands (hright.precedence_le k hk)

namespace Reading

/-- A token of the tree is one of the line, or a stand-in. -/
theorem mem_tokens_or_isStandIn {text : String} {t : Token} (ht : t ∈ (ofText text).root.tokens) :
    t ∈ (Sentence.ofText text).tokens ∨ t.IsStandIn := by
  cases hempty : t.isEmpty with
  | true => exact .inr ((keeps_ofText text).standIn t ht hempty)
  | false => exact .inl (mem_tokens_of_isEmpty_eq_false ht hempty)

/-- The symbols in the tree of a line are written, except for closing parentheses. -/
theorem hasSymbol_of_mem_tokens {text : String} {t : Token}
    (ht : t ∈ (ofText text).root.tokens) : t.HasSymbol := by
  intro c hc
  rcases mem_tokens_or_isStandIn ht with hmem | ⟨hnumber | hclose, heq⟩
  · left
    obtain ⟨before, d, after, hd, -, heq⟩ :=
      Sentence.exists_of_mem_tokens_of_symbol? hmem (by simp [hc])
    obtain rfl : c = d := Option.some.inj (hc.symm.trans hd)
    rw [heq, Token.ofKind, hc]
    rfl
  · simp [hnumber, Token.Kind.symbol?] at hc
  · exact .inr ⟨hclose, congrArg Token.text heq⟩

/-- **The tree of a line.** Whatever is wrong with the line, the tree is within the depth limit
and proper; the tokens that are written in it are a first part of those of the line; and the
positions of all its tokens, and of the mark behind it, never go back and never leave the line. -/
theorem isProper_root (text : String) :
    (ofText text).root.height ≤ depthLimit ∧
    (ofText text).root.IsProper ∧
    (ofText text).root.written <+: (Sentence.ofText text).tokens ∧
    (((ofText text).root.tokens ++ [(ofText text).endOfFile]).map Token.position).Pairwise
      (· ≤ ·) ∧
    (ofText text).endOfFile.position ≤ text.utf8ByteSize := by
  obtain ⟨hderives, hheight⟩ := derives_root depthLimit_pos (Sentence.ofText text)
  obtain ⟨hascending, hstop⟩ := ascending_root (some depthLimit)
    (Token.Ascending.of_pairwise_lt (Sentence.pairwise_position_ofText text))
  refine ⟨hheight, hderives.isProper fun t ht => hasSymbol_of_mem_tokens ht, ?_,
    List.pairwise_map.mpr hascending, ?_⟩
  · exact (List.prefix_append _ _).trans (keeps_ofText text).consumed
  · rwa [Sentence.endOfFile_ofText] at hstop

end Reading

end Calculator
