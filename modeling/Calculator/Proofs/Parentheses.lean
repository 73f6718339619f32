import Calculator.Proofs.Formula
import Calculator.Proofs.Phrase

/-!
# Added Parentheses

Rendering adds parentheses only where they are needed. The pairs that it adds are listed with
what stands before, inside and behind them in the text. A text with one of them left out is the
text of a tree, but not of a derivation: it is written without parentheses around an operand that
needs them. If such a text is read at all, then as a derivation. This has the same tokens as the
tree, so if it were the same expression apart from groups, it would be the tree.

* `Parentheses`, `Expression.addedPairs` — the pairs that rendering adds;
* `Expression.isAddedBy_of_mem_addedPairs` — the text with a pair, and without it;
* `Expression.length_tokens_parenthesize`, `Expression.pairwise_opensAt_addedPairs` — the list is
  complete;
* `Formula.addedPairs_needed` — without a pair, the line is read as another expression.
-/

namespace Calculator

/-- A **pair of parentheses** in a text: what stands before, inside and behind it. -/
structure Parentheses where
  /-- The text in front of the opening parenthesis. -/
  before : String
  /-- The text between the two. -/
  inside : String
  /-- The text behind the closing parenthesis. -/
  behind : String
deriving DecidableEq

namespace Parentheses

/-- The text with the pair. -/
def kept (p : Parentheses) : String :=
  p.before ++ Text.inParentheses p.inside ++ p.behind

/-- The text without the pair. -/
def omitted (p : Parentheses) : String :=
  p.before ++ p.inside ++ p.behind

/-- The pair in a longer text. -/
def within (a b : String) (p : Parentheses) : Parentheses :=
  { p with before := a ++ p.before, behind := p.behind ++ b }

/-- The byte offset of the opening parenthesis. -/
def opensAt (p : Parentheses) : Nat :=
  p.before.utf8ByteSize

/-- The pairs in the text of an operand that is put in parentheses if it needs them: first the
pair around all of it, then the pairs that are in it already. -/
def aroundIf (needed : Bool) (text : String) (ps : List Parentheses) : List Parentheses :=
  if needed then ⟨"", text, ""⟩ :: ps.map (within "(" ")") else ps

end Parentheses

/-- The **pairs that rendering adds** to an expression, from left to right. -/
def Expression.addedPairs : Expression → List Parentheses
  | number _ => []
  | binary left operator right =>
    (Parentheses.aroundIf (needsGroupOnLeft operator left) left.render left.addedPairs).map
      (.within "" (" " ++ operator.text ++ " " ++
        (groupIf (needsGroupOnRight operator right) right.parenthesize).text)) ++
    (Parentheses.aroundIf (needsGroupOnRight operator right) right.render right.addedPairs).map
      (.within ((groupIf (needsGroupOnLeft operator left) left.parenthesize).text ++ " " ++
        operator.text ++ " ") "")
  | grouped opening inner closing => inner.addedPairs.map (.within opening.text closing.text)

/-! ### Operands -/

namespace Expression

variable {test : Nat → Bool} {e : Expression}

/-- The expression as an operand: in parentheses, if the operator at its top passes a test. -/
def operand (test : Nat → Bool) (e : Expression) : Expression :=
  groupIf (e.topPrecedence?.any test) e.parenthesize

/-- Both operands are treated alike, except for the test. -/
theorem parenthesize_binary (left : Expression) (operator : Token) (right : Expression) :
    (binary left operator right).parenthesize =
      binary (left.operand (· < operator.kind.precedence)) operator
        (right.operand (· ≤ operator.kind.precedence)) := rfl

/-- An operand that passes the test gets a group. -/
theorem operand_of_needed (h : e.topPrecedence?.any test) :
    e.operand test = e.parenthesize.group := by
  rw [operand, h]
  rfl

/-- An operand that does not pass the test stays as it is. -/
theorem operand_of_not_needed (h : e.topPrecedence?.any test = false) :
    e.operand test = e.parenthesize := by
  rw [operand, h]
  rfl

/-- Only the operator at the top matters for the parentheses of an operand. -/
theorem operand_eq_of_parenthesize_eq {u : Expression} (h : u.parenthesize = e.parenthesize) :
    u.operand test = e.operand test := by
  rw [operand, operand, ← topPrecedence?_parenthesize u, h, topPrecedence?_parenthesize]

/-- A group is written with the two parentheses. -/
theorem text_group (e : Expression) : e.group.text = Text.inParentheses e.text := rfl

/-- A group needs no other group around it. -/
theorem operand_group (e : Expression) : e.group.operand test = e.parenthesize.group := rfl

/-- An operand that has its parentheses gets no more. -/
theorem operand_operand (h : e.parenthesize.parenthesize = e.parenthesize) :
    (e.operand test).operand test = e.operand test := by
  cases hneeded : e.topPrecedence?.any test with
  | false =>
      have hoperand := operand_of_not_needed hneeded
      rw [hoperand, operand_eq_of_parenthesize_eq h, hoperand]
  | true => rw [operand_of_needed hneeded, operand_group, h]

/-- Adding parentheses a second time adds none. -/
theorem parenthesize_parenthesize (e : Expression) :
    e.parenthesize.parenthesize = e.parenthesize := by
  induction e with
  | number => rfl
  | binary left operator right ihleft ihright =>
      rw [parenthesize_binary, parenthesize_binary, operand_operand ihleft,
        operand_operand ihright]
  | grouped opening inner closing ih => rw [parenthesize, parenthesize, ih]

end Expression

/-! ### The text without a pair -/

/-- The pair is **added** when the expression is put in its place: then the text has the pair,
around one of the groups; and without the pair it is the text of a tree which becomes the same
expression in that place. -/
structure Parentheses.IsAddedBy (p : Parentheses) (place : Expression → Expression)
    (e : Expression) : Prop where
  /-- The text has the pair. -/
  kept_eq : p.kept = (place e).text
  /-- The pair stands around a group. -/
  exists_inside : ∃ x : Expression, x.group ∈ (place e).postorder ∧ p.inside = x.text
  /-- The text without the pair is that of a tree. -/
  exists_omitted : ∃ u : Expression, u.text = p.omitted ∧ place u = place e

namespace Parentheses

variable {p : Parentheses} {test : Nat → Bool} {e inner left right : Expression} {operator : Token}

/-- A pair in a longer text is kept in the longer text. -/
@[simp] theorem kept_within (a b : String) : (p.within a b).kept = a ++ p.kept ++ b := by
  simp [within, kept, String.append_assoc]

/-- A pair in a longer text is left out of the longer text. -/
@[simp] theorem omitted_within (a b : String) : (p.within a b).omitted = a ++ p.omitted ++ b := by
  simp [within, omitted, String.append_assoc]

/-- In a longer text a pair opens behind what stands in front. -/
@[simp] theorem opensAt_within (a b : String) :
    (p.within a b).opensAt = a.utf8ByteSize + p.opensAt :=
  String.utf8ByteSize_append

/-- A pair opens inside of the text that has it. -/
theorem opensAt_lt (p : Parentheses) : p.opensAt < p.kept.utf8ByteSize := by
  simp only [kept, String.utf8ByteSize_append, Text.utf8ByteSize_inParentheses, opensAt]
  omega

/-- The two parentheses take up room. -/
theorem kept_ne_omitted (p : Parentheses) : p.kept ≠ p.omitted := by
  intro h
  have hsize := congrArg String.utf8ByteSize h
  simp only [kept, omitted, String.utf8ByteSize_append, Text.utf8ByteSize_inParentheses] at hsize
  omega

/-- The pair around an operand that needs one. -/
theorem isAddedBy_operand_self (h : e.topPrecedence?.any test) :
    IsAddedBy ⟨"", e.render, ""⟩ (Expression.operand test) e := by
  have hoperand := Expression.operand_of_needed h
  refine ⟨?_, ⟨e.parenthesize, ?_, e.render_eq⟩, e.parenthesize, ?_, ?_⟩
  · rw [hoperand, Expression.text_group]
    simp [kept, Expression.render_eq]
  · exact hoperand ▸ Expression.mem_postorder_self _
  · simp [omitted, Expression.render_eq]
  · exact Expression.operand_eq_of_parenthesize_eq e.parenthesize_parenthesize

/-- A pair that is inside of an operand already. -/
theorem IsAddedBy.operand_of_needed (h : p.IsAddedBy Expression.parenthesize e)
    (hneeded : e.topPrecedence?.any test) :
    (p.within "(" ")").IsAddedBy (Expression.operand test) e := by
  obtain ⟨hkept, ⟨x, hx, hinside⟩, u, htext, hu⟩ := h
  have hoperand := Expression.operand_of_needed hneeded
  refine ⟨?_, ⟨x, ?_, hinside⟩, u.group, ?_, ?_⟩
  · rw [kept_within, hkept, hoperand, Expression.text_group, Text.inParentheses]
  · exact hoperand ▸ Expression.mem_postorder_grouped.mpr (.inl hx)
  · rw [omitted_within, ← htext, Expression.text_group, Text.inParentheses]
  · rw [Expression.operand_group, hu, hoperand]

/-- A pair in an operand that needs none around it. -/
theorem IsAddedBy.operand_of_not_needed (h : p.IsAddedBy Expression.parenthesize e)
    (hneeded : e.topPrecedence?.any test = false) : p.IsAddedBy (Expression.operand test) e := by
  obtain ⟨hkept, hinside, u, htext, hu⟩ := h
  have hoperand := Expression.operand_of_not_needed hneeded
  exact ⟨hoperand ▸ hkept, hoperand ▸ hinside, u, htext,
    Expression.operand_eq_of_parenthesize_eq hu⟩

/-- The pairs in the text of an operand, if those that are in it already are known. -/
theorem isAddedBy_operand (h : ∀ p ∈ e.addedPairs, p.IsAddedBy Expression.parenthesize e)
    (hp : p ∈ aroundIf (e.topPrecedence?.any test) e.render e.addedPairs) :
    p.IsAddedBy (Expression.operand test) e := by
  cases hneeded : e.topPrecedence?.any test with
  | false =>
      rw [hneeded] at hp
      exact (h p hp).operand_of_not_needed hneeded
  | true =>
      rw [hneeded] at hp
      rcases List.mem_cons.mp hp with rfl | hp
      · exact isAddedBy_operand_self hneeded
      · obtain ⟨q, hq, rfl⟩ := List.mem_map.mp hp
        exact (h q hq).operand_of_needed hneeded

/-- A pair in the left operand. -/
theorem IsAddedBy.binary_left
    (h : p.IsAddedBy (Expression.operand (· < operator.kind.precedence)) left) :
    (p.within "" (" " ++ operator.text ++ " " ++
        (right.operand (· ≤ operator.kind.precedence)).text)).IsAddedBy
      Expression.parenthesize (.binary left operator right) := by
  obtain ⟨hkept, ⟨x, hx, hinside⟩, u, htext, hu⟩ := h
  refine ⟨?_, ⟨x, Expression.mem_postorder_binary.mpr (.inl hx), hinside⟩,
    .binary u operator (right.operand (· ≤ operator.kind.precedence)), ?_, ?_⟩
  · simp [hkept, Expression.parenthesize_binary, Expression.text, String.append_assoc]
  · simp [← htext, Expression.text, String.append_assoc]
  · rw [Expression.parenthesize_binary, Expression.parenthesize_binary, hu,
      Expression.operand_operand right.parenthesize_parenthesize]

/-- A pair in the right operand. -/
theorem IsAddedBy.binary_right
    (h : p.IsAddedBy (Expression.operand (· ≤ operator.kind.precedence)) right) :
    (p.within ((left.operand (· < operator.kind.precedence)).text ++ " " ++
        operator.text ++ " ") "").IsAddedBy
      Expression.parenthesize (.binary left operator right) := by
  obtain ⟨hkept, ⟨x, hx, hinside⟩, u, htext, hu⟩ := h
  refine ⟨?_, ⟨x, Expression.mem_postorder_binary.mpr (.inr (.inl hx)), hinside⟩,
    .binary (left.operand (· < operator.kind.precedence)) operator u, ?_, ?_⟩
  · simp [hkept, Expression.parenthesize_binary, Expression.text]
  · simp [← htext, Expression.text]
  · rw [Expression.parenthesize_binary, Expression.parenthesize_binary, hu,
      Expression.operand_operand left.parenthesize_parenthesize]

/-- A pair inside of a group. -/
theorem IsAddedBy.grouped (h : p.IsAddedBy Expression.parenthesize inner)
    (opening closing : Token) :
    (p.within opening.text closing.text).IsAddedBy Expression.parenthesize
      (.grouped opening inner closing) := by
  obtain ⟨hkept, ⟨x, hx, hinside⟩, u, htext, hu⟩ := h
  refine ⟨?_, ⟨x, Expression.mem_postorder_grouped.mpr (.inl hx), hinside⟩,
    .grouped opening u closing, ?_, ?_⟩
  · rw [kept_within, hkept, Expression.parenthesize, Expression.text]
  · rw [omitted_within, ← htext, Expression.text]
  · rw [Expression.parenthesize, Expression.parenthesize, hu]

end Parentheses

/-- The text of an expression with its groups has all the pairs that are listed, and without one
of them it is the text of a tree to which the same groups are added. Induction on the
expression. -/
theorem Expression.isAddedBy_of_mem_addedPairs {e : Expression} {p : Parentheses}
    (hp : p ∈ e.addedPairs) : p.IsAddedBy parenthesize e := by
  induction e generalizing p with
  | number => exact absurd hp List.not_mem_nil
  | binary left operator right ihleft ihright =>
      rcases List.mem_append.mp hp with hp | hp
      · obtain ⟨q, hq, rfl⟩ := List.mem_map.mp hp
        exact (Parentheses.isAddedBy_operand (fun _ => ihleft) hq).binary_left
      · obtain ⟨q, hq, rfl⟩ := List.mem_map.mp hp
        exact (Parentheses.isAddedBy_operand (fun _ => ihright) hq).binary_right
  | grouped opening inner closing ih =>
      obtain ⟨q, hq, rfl⟩ := List.mem_map.mp hp
      exact (ih hq).grouped opening closing

/-- The pair around an operand stands in front of the pairs inside of it, and the parentheses of a
group are not in the list. -/
example :
    (Formula.operation
      (.operation (.literal 1) .minus (.operation (.literal 2) .plus (.literal 3))) .times
      (.group (.literal 4))).expression.addedPairs =
      [⟨"", "1 - (2 + 3)", " * (4)"⟩, ⟨"(1 - ", "2 + 3", ") * (4)"⟩] := by
  decide +kernel

/-! ### The list of pairs -/

namespace Parentheses

variable {ps : List Parentheses}

/-- In a longer text pairs open in the same order. -/
theorem pairwise_within {a b : String} (h : ps.Pairwise fun p q => p.opensAt < q.opensAt) :
    (ps.map (within a b)).Pairwise fun p q => p.opensAt < q.opensAt :=
  List.pairwise_map.mpr (h.imp fun hlt => by simpa using hlt)

/-- A pair around all of an operand opens in front of those that are in it. -/
theorem pairwise_aroundIf (needed : Bool) (text : String)
    (h : ps.Pairwise fun p q => p.opensAt < q.opensAt) :
    (aroundIf needed text ps).Pairwise fun p q => p.opensAt < q.opensAt := by
  cases needed with
  | false => exact h
  | true =>
      refine List.pairwise_cons.mpr ⟨fun q hq => ?_, pairwise_within h⟩
      obtain ⟨q, -, rfl⟩ := List.mem_map.mp hq
      have hopening : "(".utf8ByteSize = 1 := rfl
      rw [opensAt_within, hopening]
      exact Nat.lt_add_right _ Nat.one_pos

end Parentheses

namespace Expression

variable {e : Expression}

/-- A pair around an operand adds two tokens, and one pair to the list. -/
theorem length_tokens_groupIf (needed : Bool) (text : String)
    (h : e.parenthesize.tokens.length = e.tokens.length + 2 * e.addedPairs.length) :
    (groupIf needed e.parenthesize).tokens.length =
      e.tokens.length + 2 * (Parentheses.aroundIf needed text e.addedPairs).length := by
  cases needed with
  | false => exact h
  | true =>
      simp only [groupIf, if_true, group, tokens, Parentheses.aroundIf, List.length_cons,
        List.length_append, List.length_nil, List.length_map, h]
      omega

/-- Each pair in the list accounts for two of the tokens that are added. -/
theorem length_tokens_parenthesize (e : Expression) :
    e.parenthesize.tokens.length = e.tokens.length + 2 * e.addedPairs.length := by
  induction e with
  | number => rfl
  | binary left operator right ihleft ihright =>
      have hleft := length_tokens_groupIf (needsGroupOnLeft operator left) left.render ihleft
      have hright := length_tokens_groupIf (needsGroupOnRight operator right) right.render ihright
      simp only [parenthesize, tokens, addedPairs, List.length_append, List.length_cons,
        List.length_map, hleft, hright]
      omega
  | grouped opening inner closing ih =>
      simp only [parenthesize, tokens, addedPairs, List.length_append, List.length_cons,
        List.length_nil, List.length_map, ih]
      omega

/-- The pairs open one behind the other, each in a place of its own. -/
theorem pairwise_opensAt_addedPairs (e : Expression) :
    (e.addedPairs.map Parentheses.opensAt).Pairwise (· < ·) := by
  rw [List.pairwise_map]
  induction e with
  | number => exact .nil
  | binary left operator right ihleft ihright =>
      have hleft :=
        Parentheses.pairwise_aroundIf (needsGroupOnLeft operator left) left.render ihleft
      have hright :=
        Parentheses.pairwise_aroundIf (needsGroupOnRight operator right) right.render ihright
      refine List.pairwise_append.mpr ⟨Parentheses.pairwise_within hleft,
        Parentheses.pairwise_within hright, fun p hp q hq => ?_⟩
      obtain ⟨first, hfirst, rfl⟩ := List.mem_map.mp hp
      obtain ⟨second, -, rfl⟩ := List.mem_map.mp hq
      have hadded := Parentheses.isAddedBy_operand (fun _ => isAddedBy_of_mem_addedPairs) hfirst
      have hlt : first.opensAt <
          (groupIf (needsGroupOnLeft operator left) left.parenthesize).text.utf8ByteSize :=
        hadded.kept_eq ▸ first.opensAt_lt
      have hempty : "".utf8ByteSize = 0 := rfl
      simp only [Parentheses.opensAt_within, String.utf8ByteSize_append]
      omega
  | grouped opening inner closing ih => exact Parentheses.pairwise_within ih

/-! ### Trees with the same groups -/

/-- Taking out groups takes out those that were added. -/
theorem withoutGroups_groupIf (needed : Bool) (e : Expression) :
    (groupIf needed e).withoutGroups = e.withoutGroups := by
  cases needed <;> rfl

/-- Without groups it does not matter which were added. -/
theorem withoutGroups_parenthesize (e : Expression) :
    e.parenthesize.withoutGroups = e.withoutGroups := by
  induction e with
  | number => rfl
  | binary left operator right ihleft ihright =>
      rw [parenthesize, withoutGroups, withoutGroups, withoutGroups_groupIf,
        withoutGroups_groupIf, ihleft, ihright]
  | grouped opening inner closing ih => exact ih

/-- Groups can be taken out before tokens are moved, or behind it. -/
theorem withoutGroups_relocate {g : Nat → Nat} (e : Expression) :
    (e.relocate g).withoutGroups = e.withoutGroups.relocate g := by
  induction e with
  | number => rfl
  | binary left operator right ihleft ihright =>
      rw [relocate_binary, withoutGroups, withoutGroups, ihleft, ihright, relocate_binary]
  | grouped opening inner closing ih => exact ih

/-- What is bracketed with a group around it was bracketed without it. -/
theorem IsBracketed.of_groupIf {needed : Bool} (h : (groupIf needed e).IsBracketed) :
    e.IsBracketed := by
  cases needed with
  | false => exact h
  | true => exact h.2.1

/-- Where an expression is bracketed with all its groups, it is without those that are added. -/
theorem IsBracketed.of_parenthesize (h : e.parenthesize.IsBracketed) : e.IsBracketed := by
  induction e with
  | number => exact h
  | binary left operator right ihleft ihright =>
      exact ⟨ihleft h.1.of_groupIf, h.2.1, ihright h.2.2.of_groupIf⟩
  | grouped opening inner closing ih => exact ⟨h.1, ih h.2.1, h.2.2⟩

end Expression

namespace Formula

/-- The tokens of a formula with its groups stand at position zero. -/
theorem unplaced_of_mem_tokens {f : Formula} {t : Token}
    (ht : t ∈ f.expression.parenthesize.tokens) : t.unplaced = t := by
  rcases mem_tokens ht with ⟨v, -, rfl⟩ | ⟨k, -, -, rfl⟩ <;> rfl

/-- If a tree gets the groups of a formula, and its text is a valid line which is read as the
formula apart from groups, then the tree has those groups already. -/
theorem parenthesize_eq_of_withoutGroups_eq {f : Formula} (h : ∀ v ∈ f.literals, 0 ≤ v)
    {u : Expression} (hu : u.parenthesize = f.expression.parenthesize)
    (hvalid : (Reading.ofText u.text).diagnostics = [])
    (hroot : (Reading.ofText u.text).root.withoutGroups.unplaced =
      f.expression.withoutGroups.unplaced) : u.parenthesize = u := by
  have hphrase := Reading.isPhrase_root hvalid
  have hsubset : u.tokens ⊆ f.expression.parenthesize.tokens :=
    hu ▸ u.tokens_subset_parenthesize
  have hbracketed : u.IsBracketed := .of_parenthesize (hu ▸ f.derives_parenthesize.isBracketed)
  have hunplaced : u.unplaced = u :=
    Expression.relocate_eq_self fun t ht => unplaced_of_mem_tokens (hsubset ht)
  -- the line says the tokens of the tree, so they are those of the derivation that is read
  have htokens : (Reading.ofText u.text).root.unplaced.tokens = u.tokens := by
    calc (Reading.ofText u.text).root.unplaced.tokens
      _ = (Sentence.ofText u.text).tokens.map Token.unplaced :=
        hphrase.tokens_eq ▸ Expression.tokens_relocate _
      _ = spelling u.text.toList := Sentence.map_unplaced_tokens u.text
      _ = u.tokens.map Token.unplaced :=
        hbracketed.spelling_eq fun t ht => isSpelled_of_mem_tokens h (hsubset ht)
      _ = u.unplaced.tokens := (Expression.tokens_relocate (g := fun _ => 0) u).symm
      _ = u.tokens := by rw [hunplaced]
  have hwithoutGroups : (Reading.ofText u.text).root.unplaced.withoutGroups = u.withoutGroups := by
    calc (Reading.ofText u.text).root.unplaced.withoutGroups
      _ = (Reading.ofText u.text).root.withoutGroups.unplaced :=
        Expression.withoutGroups_relocate _
      _ = f.expression.withoutGroups.unplaced := hroot
      _ = u.withoutGroups.unplaced := by
        rw [← f.expression.withoutGroups_parenthesize, ← hu, u.withoutGroups_parenthesize]
      _ = u.unplaced.withoutGroups := (Expression.withoutGroups_relocate u).symm
      _ = u.withoutGroups := by rw [hunplaced]
  have hderives : Derives (.chain .sum) (Reading.ofText u.text).root.unplaced :=
    hphrase.derives.relocate
  have heq := hderives.isBracketed.eq_of_withoutGroups_eq hbracketed htokens hwithoutGroups
  exact (heq ▸ hderives : Derives (.chain .sum) u).parenthesize_eq

/-- **Added parentheses are needed.** The list of pairs is complete: it has one pair for every two
tokens that are added, and no two pairs open in the same place. Each is a pair of parentheses in
the rendering of the formula, around one of its groups. And if the rendering without that pair is
a valid line, then what is read is another expression than the formula, even when all groups are
taken out of both and positions do not count. -/
theorem addedPairs_needed (f : Formula) (h : ∀ v ∈ f.literals, 0 ≤ v) :
    f.expression.parenthesize.tokens.length =
      f.expression.tokens.length + 2 * f.expression.addedPairs.length ∧
    (f.expression.addedPairs.map Parentheses.opensAt).Pairwise (· < ·) ∧
    ∀ p ∈ f.expression.addedPairs,
      p.kept = f.expression.render ∧
      (∃ x : Expression, x.group ∈ f.expression.parenthesize.postorder ∧ p.inside = x.text) ∧
      ((Reading.ofText p.omitted).diagnostics = [] →
        (Reading.ofText p.omitted).root.withoutGroups.unplaced ≠
          f.expression.withoutGroups.unplaced) := by
  refine ⟨Expression.length_tokens_parenthesize _, Expression.pairwise_opensAt_addedPairs _,
    fun p hp => ?_⟩
  obtain ⟨hkept, hinside, u, htext, hu⟩ := Expression.isAddedBy_of_mem_addedPairs hp
  refine ⟨hkept.trans f.expression.render_eq.symm, hinside,
    fun hvalid hroot => p.kept_ne_omitted ?_⟩
  rw [← htext] at hvalid hroot
  have hself := parenthesize_eq_of_withoutGroups_eq h hu hvalid hroot
  rw [hkept, ← hu, hself, htext]

/-- The parentheses of the right operand of a minus sign. -/
theorem addedPairs_needed_minus :
    (⟨"1 - ", "2 + 3", ""⟩ : Parentheses) ∈ (operation (literal 1) .minus
      (operation (literal 2) .plus (literal 3))).expression.addedPairs ∧
    (Reading.ofText "1 - 2 + 3").diagnostics = [] ∧
    (Reading.ofText "1 - 2 + 3").root.withoutGroups.unplaced ≠
      (operation (literal 1) .minus
        (operation (literal 2) .plus (literal 3))).expression.withoutGroups.unplaced := by
  have hliterals : ∀ v ∈ (operation (literal 1) .minus
      (operation (literal 2) .plus (literal 3))).literals, 0 ≤ v := by
    intro v hv
    simp only [literals, List.cons_append, List.nil_append, List.mem_cons, List.not_mem_nil,
      or_false] at hv
    rcases hv with rfl | rfl | rfl <;> decide
  have hmem : (⟨"1 - ", "2 + 3", ""⟩ : Parentheses) ∈ (operation (literal 1) .minus
      (operation (literal 2) .plus (literal 3))).expression.addedPairs := by decide +kernel
  have hvalid : (Reading.ofText "1 - 2 + 3").diagnostics = [] := by decide +kernel
  exact ⟨hmem, hvalid, ((addedPairs_needed _ hliterals).2.2 _ hmem).2.2 hvalid⟩

end Formula

end Calculator
