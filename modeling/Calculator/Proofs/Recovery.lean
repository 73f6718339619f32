import Calculator.Proofs.Account

/-!
# Reading a Tree Back

The converse of `Parser.keeps_of_returns`: which trees are read from their own written tokens.
A derivation is, when its stand-ins stand where the parser would put them
(`Expression.Recovered`): each at the place of the next written token, and nothing written
behind a lost closing parenthesis. A tree without stand-ins is always of this kind, so this is
the completeness of the parser with respect to the grammar, and it is the stability of recovered
trees as well.

The parser is one without a limit. A chain is stated up to the rest that it goes on to take,
because that is where the induction on derivations needs it: the left operand of a longer chain
is never read by itself.

* `Token.Anchored` — stand-ins at the place of the next written token;
* `Parser.readsBack_of_derives` — the induction on derivations;
* `Parser.chain_written` — a recovered tree is read from its written tokens.
-/

namespace Calculator

/-! ### The places of stand-ins -/

/-- Where the first written token of a list stands, or else the place behind the list. -/
def Token.nextPosition (stop : Nat) (ts : List Token) : Nat :=
  (ts.find? fun t => !t.isEmpty).elim stop Token.position

/-- A list of tokens is **anchored** when each of its stand-ins stands where the next written
token does, or at the place behind the list when none is written. -/
def Token.Anchored (stop : Nat) : List Token → Prop
  | [] => True
  | t :: ts =>
    (t.isEmpty = true → t.IsStandIn ∧ t.position = nextPosition stop ts) ∧ Anchored stop ts

namespace Token

variable {stop : Nat}

@[simp] theorem nextPosition_nil : nextPosition stop [] = stop := rfl

/-- In front of a written token the next position is its own. -/
theorem nextPosition_of_written {t : Token} (h : t.isEmpty = false) (ts : List Token) :
    nextPosition stop (t :: ts) = t.position := by
  simp [nextPosition, h]

/-- In front of a token without a text the next position is that of what follows. -/
theorem nextPosition_of_isEmpty {t : Token} (h : t.isEmpty = true) (ts : List Token) :
    nextPosition stop (t :: ts) = nextPosition stop ts := by
  simp [nextPosition, h]

/-- In front of two lists the next position is that in the first one, or else that in the second. -/
theorem nextPosition_append (ts us : List Token) :
    nextPosition stop (ts ++ us) = nextPosition (nextPosition stop us) ts := by
  induction ts with
  | nil => rfl
  | cons t ts ih =>
      cases h : t.isEmpty with
      | true => rw [List.cons_append, nextPosition_of_isEmpty h, nextPosition_of_isEmpty h, ih]
      | false => rw [List.cons_append, nextPosition_of_written h, nextPosition_of_written h]

/-- Tokens are anchored part by part, the first part in front of what the second one begins with. -/
theorem anchored_append {ts us : List Token} :
    Anchored stop (ts ++ us) ↔ Anchored (nextPosition stop us) ts ∧ Anchored stop us := by
  induction ts with
  | nil => simp [Anchored]
  | cons t ts ih =>
      simp only [List.cons_append, Anchored, ih, nextPosition_append]
      exact and_assoc.symm

/-- Written tokens are anchored. -/
theorem anchored_of_allWritten {ts : List Token} (h : AllWritten ts) : Anchored stop ts := by
  induction ts with
  | nil => trivial
  | cons t ts ih =>
      obtain ⟨ht, hts⟩ := h.of_cons
      exact ⟨fun hempty => by simp [ht] at hempty, ih hts⟩

/-- Where all positions are the same, every stand-in is in its place. -/
theorem anchored_of_position_eq {ts : List Token} (hposition : ∀ t ∈ ts, t.position = stop)
    (hstandIn : ∀ t ∈ ts, t.isEmpty = true → t.IsStandIn) : Anchored stop ts := by
  induction ts with
  | nil => trivial
  | cons t ts ih =>
      simp only [List.forall_mem_cons] at hposition hstandIn
      refine ⟨fun hempty => ⟨hstandIn.1 hempty, ?_⟩, ih hposition.2 hstandIn.2⟩
      rw [hposition.1, nextPosition]
      cases hnext : ts.find? fun t => !t.isEmpty with
      | none => rfl
      | some u => exact (hposition.2 u (List.mem_of_find?_eq_some hnext)).symm

end Token

/-- An expression is **recovered** in front of a place when its stand-ins are where the parser
puts them, and nothing is written behind a lost closing parenthesis. -/
structure Expression.Recovered (stop : Nat) (e : Expression) : Prop where
  anchored : Token.Anchored stop e.tokens
  ended : e.tokens.Pairwise fun t u => t.IsLost → u.isEmpty = true

namespace Expression.Recovered

variable {stop : Nat}

/-- An expression without stand-ins is recovered everywhere. -/
theorem of_missing_eq_nil {e : Expression} (h : e.missing = []) : e.Recovered stop := by
  have hwritten : Token.AllWritten e.tokens := by
    rw [missing, List.filter_eq_nil_iff] at h
    exact fun t ht => by simpa using h t ht
  refine ⟨Token.anchored_of_allWritten hwritten, ?_⟩
  refine List.pairwise_iff_forall_sublist.mpr fun {t u} hsub hlost => ?_
  have ht : t.isEmpty = false := hwritten t (hsub.subset (by simp))
  simp [Token.IsLost, ht] at hlost

variable {left right inner : Expression} {operator opening closing : Token}

/-- What was recovered on the left of an operator stops at the operator, and nothing is lost in
it. -/
theorem of_binary_left (h : (binary left operator right).Recovered stop)
    (hoperator : operator.isEmpty = false) :
    left.Recovered operator.position ∧ ∀ t ∈ left.tokens, ¬ t.IsLost := by
  obtain ⟨hanchored, hended⟩ := h
  rw [tokens] at hanchored hended
  rw [List.pairwise_append] at hended
  refine ⟨⟨?_, hended.1⟩, fun t ht hlost => ?_⟩
  · have hposition : Token.nextPosition stop (operator :: right.tokens) = operator.position :=
      Token.nextPosition_of_written hoperator right.tokens
    rw [← hposition]
    exact (Token.anchored_append.mp hanchored).1
  · have := hended.2.2 t ht operator List.mem_cons_self hlost
    simp [hoperator] at this

/-- What was recovered on the right of an operator stops where the whole does. -/
theorem of_binary_right (h : (binary left operator right).Recovered stop) :
    right.Recovered stop := by
  obtain ⟨hanchored, hended⟩ := h
  rw [tokens] at hanchored hended
  rw [List.pairwise_append, List.pairwise_cons] at hended
  exact ⟨(Token.anchored_append.mp hanchored).2.2, hended.2.1.2⟩

/-- What was recovered in a group stops at the closing parenthesis, or behind the group if that is
missing. -/
theorem of_grouped (h : (grouped opening inner closing).Recovered stop) :
    inner.Recovered (Token.nextPosition stop [closing]) := by
  obtain ⟨hanchored, hended⟩ := h
  rw [tokens, List.cons_append] at hanchored hended
  rw [List.pairwise_cons, List.pairwise_append] at hended
  exact ⟨(Token.anchored_append.mp hanchored.2).1, hended.2.1⟩

/-- A group in which a closing parenthesis is lost has lost its own as well. -/
theorem isEmpty_closing (h : (grouped opening inner closing).Recovered stop)
    (hlost : ∃ t ∈ inner.tokens, t.IsLost) : closing.isEmpty = true := by
  obtain ⟨-, hended⟩ := h
  rw [tokens, List.cons_append, List.pairwise_cons, List.pairwise_append] at hended
  obtain ⟨t, ht, hlost⟩ := hlost
  exact hended.2.2.2 t ht closing (by simp) hlost

/-- Openings, operators and numerals that are there are no stand-ins; a closing parenthesis that
is not there is one, in its place. -/
theorem closing_eq (h : (grouped opening inner closing).Recovered stop)
    (hkind : closing.kind = .groupClose) (hempty : closing.isEmpty = true) :
    closing = .standIn .groupClose stop := by
  obtain ⟨hanchored, -⟩ := h
  rw [tokens, List.cons_append] at hanchored
  obtain ⟨⟨-, heq⟩, hposition⟩ := (Token.anchored_append.mp hanchored.2).2.1 hempty
  rw [heq, hkind, hposition, Token.nextPosition_nil]

/-- An opening parenthesis is never stood in for. -/
theorem opening_isEmpty (h : (grouped opening inner closing).Recovered stop)
    (hkind : opening.kind = .groupOpen) : opening.isEmpty = false := by
  obtain ⟨hanchored, -⟩ := h
  rw [tokens, List.cons_append] at hanchored
  rw [Bool.eq_false_iff]
  intro hempty
  have := (hanchored.1 hempty).1.1
  simp [hkind] at this

/-- An operator is never stood in for. -/
theorem operator_isEmpty {l : Level} (h : (binary left operator right).Recovered stop)
    (hoperator : l.has operator.kind) : operator.isEmpty = false := by
  obtain ⟨hanchored, -⟩ := h
  rw [tokens] at hanchored
  rw [Bool.eq_false_iff]
  intro hempty
  rcases ((Token.anchored_append.mp hanchored).2.1 hempty).1.1 with hkind | hkind <;>
    simp [hkind, Level.has, Token.Kind.operator?] at hoperator

/-- A numeral without a text is the stand-in at the end of what was recovered. -/
theorem number_eq {t : Token} (h : (number t).Recovered stop) (hkind : t.kind = .number)
    (hempty : t.isEmpty = true) : t = .standIn .number stop := by
  obtain ⟨⟨hanchored, -⟩, -⟩ := h
  obtain ⟨⟨-, heq⟩, hposition⟩ := hanchored hempty
  rw [heq, hkind, hposition, Token.nextPosition_nil]

end Expression.Recovered

/-! ### Reading back -/

/-- The tokens `ws` may stand behind an expression of a category: they do not begin with a
primary, and behind a chain of sums they do not go on with a product. -/
def Category.CanPrecede (c : Category) (ws : List Token) : Prop :=
  ∀ t ∈ ws.head?, t.kind ≠ .number ∧ t.kind ≠ .groupOpen ∧
    (c = .chain .sum → Level.product.has t.kind = false)

/-- Everything can be followed by nothing. -/
theorem Category.CanPrecede.nil (c : Category) : c.CanPrecede [] := by
  simp [CanPrecede]

/-- An operator may stand behind a chain of its level. -/
theorem Category.CanPrecede.operator {l : Level} {t : Token} (h : l.has t.kind)
    (ws : List Token) : CanPrecede (.chain l) (t :: ws) := by
  intro u hu
  obtain rfl : t = u := by simpa using hu
  cases hkind : t.kind with
  | operator o =>
      refine ⟨by simp, by simp, ?_⟩
      rintro ⟨⟩
      rw [hkind] at h
      cases o <;> simp_all [Level.has, Token.Kind.operator?, Operator.level]
  | _ => simp [hkind, Level.has, Token.Kind.operator?] at h

/-- A closing parenthesis may stand behind everything. -/
theorem Category.CanPrecede.closing (c : Category) {t : Token} (h : t.kind = .groupClose)
    (ws : List Token) : c.CanPrecede (t :: ws) := by
  simp [CanPrecede, h, Level.has, Token.Kind.operator?]

/-- What may stand behind a chain may stand behind its operands. -/
theorem Category.CanPrecede.operands {l : Level} {ws : List Token}
    (h : CanPrecede (.chain l) ws) : l.operands.CanPrecede ws := by
  intro t ht
  refine ⟨(h t ht).1, (h t ht).2.1, ?_⟩
  cases l <;> simp [Level.operands]

namespace Parser

variable {p : Parser} {n : Nat} {ws : List Token}

/-- The parser reads an expression of a category from its written tokens in front of `ws`. What
it reports then is due to the stand-ins. A chain goes on with what is left. -/
def ReadsBack (p : Parser) (n : Nat) (ws : List Token) (e : Expression) : Category → Prop
  | .primary => ∃ ds, p.primary n (.tokens (e.written ++ ws)) = ⟨e, e.height, ds, .tokens ws⟩ ∧
      (e.missing = [] → ds = [])
  | .chain l => ∃ ds, p.chain l n (.tokens (e.written ++ ws)) =
        p.extend l n ⟨e, e.height, ds, .tokens ws⟩ ∧
      (e.missing = [] → ds = [])

/-- Behind an operand the chain of its level goes on, if at all, with an operator. -/
theorem operand_of_readsBack {l : Level} {e : Expression} (h : p.ReadsBack n ws e l.operands)
    (hws : Category.CanPrecede (.chain l) ws) :
    ∃ ds, p.operand l n (.tokens (e.written ++ ws)) = ⟨e, e.height, ds, .tokens ws⟩ ∧
      (e.missing = [] → ds = []) := by
  cases l with
  | product =>
      rw [operand_product]
      exact h
  | sum =>
      obtain ⟨ds, heq, hds⟩ := h
      refine ⟨ds, ?_, hds⟩
      rw [operand_sum, heq, extend_of_takeIf_none]
      exact Remaining.takeIf_eq_none_iff.mpr fun t ht => (hws t ht).2.2 rfl

/-- **A numeral is read back**, or else its stand-in is made again in the same place. -/
theorem readsBack_number (hmark : p.endOfFile.kind = .endOfFile) {t : Token}
    (hkind : t.kind = .number)
    (hrecovered :
      (Expression.number t).Recovered ((Remaining.tokens ws).current p.endOfFile).position)
    (hws : Category.CanPrecede .primary ws) : p.ReadsBack n ws (.number t) .primary := by
  cases ht : t.isEmpty with
  | true =>
      have hnone : (Remaining.tokens ws).takeIf (· == .groupOpen) = none :=
        Remaining.takeIf_eq_none_iff.mpr fun u hu => by simpa using (hws u hu).2.1
      have hne : ((Remaining.tokens ws).current p.endOfFile).kind ≠ .number := by
        cases ws with
        | nil => simp [hmark]
        | cons u us => exact (hws u (by simp)).1
      refine ⟨(p.expect .number (.tokens ws)).diagnostics, ?_, fun h => ?_⟩
      · rw [Expression.written_number_of_isEmpty ht, List.nil_append, primary_eq, hnone,
          hrecovered.number_eq hkind ht]
        simp only [numeral, expect_of_kind_ne hne]
        rfl
      · simp [Expression.missing, Expression.tokens, ht] at h
  | false =>
      refine ⟨[], ?_, fun _ => rfl⟩
      rw [Expression.written_number ht, List.singleton_append, primary_eq,
        Remaining.takeIf_cons, hkind]
      simp only [numeral, expect_of_kind (p := p) (r := .tokens (t :: ws)) hkind]
      rfl

/-- A group whose closing parenthesis is lost stands at the end of what is written. -/
theorem readsBack_unclosed (hlimit : p.limit = none) (hmark : p.endOfFile.kind = .endOfFile)
    {opening closing : Token} {inner : Expression} (hopening : opening.kind = .groupOpen)
    (hclosing : closing.kind = .groupClose) (hempty : closing.isEmpty = true)
    (hrecovered : (Expression.grouped opening inner closing).Recovered p.endOfFile.position)
    (hinner : p.ReadsBack (n + 1) [] inner (.chain .sum)) :
    p.ReadsBack n [] (.grouped opening inner closing) .primary := by
  have hwritten := hrecovered.opening_isEmpty hopening
  obtain ⟨ds, heq, -⟩ := hinner
  rw [extend_of_takeIf_none (Remaining.takeIf_nil _), List.append_nil] at heq
  have hne : ((Remaining.tokens []).current p.endOfFile).kind ≠ .groupClose := by
    simp [hmark]
  refine ⟨ds ++ (p.expect .groupClose (.tokens [])).diagnostics, ?_, fun h => ?_⟩
  · rw [Expression.written_grouped hwritten, List.filter_cons_of_neg (by simp [hempty]),
      List.filter_nil, List.append_nil, List.append_nil, primary_eq, Remaining.takeIf_cons,
      hopening]
    simp only [BEq.rfl, if_true, exhausted?_of_limit_none hlimit, heq]
    rw [enclose, bounded_of_limit_none hlimit, hrecovered.closing_eq hclosing hempty]
    simp only [expect_of_kind_ne hne]
    rfl
  · simp [Expression.missing, Expression.tokens, hwritten, hempty] at h

/-- A group with both its parentheses is read from them and from what is read inside. -/
theorem readsBack_closed (hlimit : p.limit = none) {opening closing : Token}
    {inner : Expression} (hopening : opening.kind = .groupOpen)
    (hclosing : closing.kind = .groupClose) (hwritten : opening.isEmpty = false)
    (hempty : closing.isEmpty = false)
    (hinner : p.ReadsBack (n + 1) (closing :: ws) inner (.chain .sum)) :
    p.ReadsBack n ws (.grouped opening inner closing) .primary := by
  obtain ⟨ds, heq, hds⟩ := hinner
  have hstop : (Remaining.tokens (closing :: ws)).takeIf Level.sum.has = none :=
    Remaining.takeIf_eq_none_iff.mpr
      (by simp [hclosing, Level.has, Token.Kind.operator?])
  rw [extend_of_takeIf_none hstop] at heq
  refine ⟨ds, ?_, fun h => hds ?_⟩
  · rw [Expression.written_grouped hwritten, List.filter_cons_of_pos (by simp [hempty]),
      List.filter_nil, List.cons_append, List.append_assoc, List.singleton_append,
      primary_eq, Remaining.takeIf_cons, hopening]
    simp only [BEq.rfl, if_true, exhausted?_of_limit_none hlimit, heq]
    rw [enclose, bounded_of_limit_none hlimit,
      expect_of_kind (r := .tokens (closing :: ws)) hclosing]
    simp only [List.append_nil]
    rfl
  · rw [Expression.missing_grouped hwritten] at h
    exact (List.append_eq_nil_iff.mp h).1

/-- **A group is read back**, with its closing parenthesis or with a stand-in for it. What is
missing in the group can only stand at its end. -/
theorem readsBack_group (hlimit : p.limit = none) (hmark : p.endOfFile.kind = .endOfFile)
    {opening closing : Token} {inner : Expression} (hopening : opening.kind = .groupOpen)
    (hclosing : closing.kind = .groupClose)
    (hrecovered : (Expression.grouped opening inner closing).Recovered
      ((Remaining.tokens ws).current p.endOfFile).position)
    (hlost : (∃ t ∈ (Expression.grouped opening inner closing).tokens, t.IsLost) → ws = [])
    (ih : ∀ us, inner.Recovered ((Remaining.tokens us).current p.endOfFile).position →
      ((∃ t ∈ inner.tokens, t.IsLost) → us = []) → Category.CanPrecede (.chain .sum) us →
      p.ReadsBack (n + 1) us inner (.chain .sum)) :
    p.ReadsBack n ws (.grouped opening inner closing) .primary := by
  have hinner := hrecovered.of_grouped
  cases hempty : closing.isEmpty with
  | true =>
      obtain rfl : ws = [] :=
        hlost ⟨closing, by simp, hempty, hclosing⟩
      rw [Token.nextPosition_of_isEmpty hempty] at hinner
      exact readsBack_unclosed hlimit hmark hopening hclosing hempty hrecovered
        (ih [] hinner (fun _ => rfl) (.nil _))
  | false =>
      rw [Token.nextPosition_of_written hempty] at hinner
      refine readsBack_closed hlimit hopening hclosing (hrecovered.opening_isEmpty hopening)
        hempty (ih (closing :: ws) hinner (fun h => ?_) (.closing _ hclosing ws))
      simp [hrecovered.isEmpty_closing h] at hempty

/-- **Reading back.** A recovered derivation is read from its written tokens, in front of any
tokens that may follow it. Induction on the derivation, for all tokens behind it. -/
theorem readsBack_of_derives (hlimit : p.limit = none) (hmark : p.endOfFile.kind = .endOfFile)
    {c : Category} {e : Expression} (h : Derives c e) :
    ∀ (n : Nat) (ws : List Token),
      e.Recovered ((Remaining.tokens ws).current p.endOfFile).position →
      ((∃ t ∈ e.tokens, t.IsLost) → ws = []) → c.CanPrecede ws → p.ReadsBack n ws e c := by
  induction h with
  | numeral hkind => exact fun n ws hrecovered _ hws => readsBack_number hmark hkind hrecovered hws
  | group hopening _ hclosing ih =>
      exact fun n ws hrecovered hlost _ =>
        readsBack_group hlimit hmark hopening hclosing hrecovered hlost (ih (n + 1))
  | @single l e _ ih =>
      intro n ws hrecovered hlost hws
      obtain ⟨ds, heq, hds⟩ := operand_of_readsBack (ih n ws hrecovered hlost hws.operands) hws
      exact ⟨ds, by rw [chain_eq, heq], hds⟩
  | @step l left right operator _ hoperator _ ihleft ihright =>
      intro n ws hrecovered hlost hws
      have hwritten := hrecovered.operator_isEmpty hoperator
      obtain ⟨hleft, hnone⟩ := hrecovered.of_binary_left hwritten
      obtain ⟨ds, heqleft, hds⟩ := ihleft n (operator :: (right.written ++ ws)) hleft
        (fun ⟨t, ht, h⟩ => absurd h (hnone t ht)) (.operator hoperator _)
      obtain ⟨es, heqright, hes⟩ := operand_of_readsBack
        (ihright n ws hrecovered.of_binary_right
          (fun ⟨t, ht, h⟩ => hlost ⟨t, by simp [Expression.tokens, ht], h⟩) hws.operands) hws
      have htake : (Remaining.tokens (operator :: (right.written ++ ws))).takeIf l.has =
          some (operator, right.written ++ ws) := by
        rw [Remaining.takeIf_cons, if_pos hoperator]
      refine ⟨ds ++ es, ?_, fun h => ?_⟩
      · rw [Expression.written_binary hwritten, List.append_assoc, List.cons_append, heqleft,
          extend_of_takeIf_some htake, heqright, join, bounded_of_limit_none hlimit]
        rfl
      · rw [Expression.missing_binary hwritten, List.append_eq_nil_iff] at h
        rw [hds h.1, hes h.2, List.append_nil]

/-- A recovered chain of sums is read from its written tokens. -/
theorem chain_written (hlimit : p.limit = none) (hmark : p.endOfFile.kind = .endOfFile)
    {e : Expression} (h : Derives (.chain .sum) e) (hrecovered : e.Recovered p.endOfFile.position)
    (n : Nat) :
    ∃ ds, p.chain .sum n (.tokens e.written) = ⟨e, e.height, ds, .tokens []⟩ ∧
      (e.missing = [] → ds = []) := by
  obtain ⟨ds, heq, hds⟩ :=
    readsBack_of_derives hlimit hmark h n [] hrecovered (fun _ => rfl) (.nil _)
  rw [extend_of_takeIf_none (Remaining.takeIf_nil _), List.append_nil] at heq
  exact ⟨ds, heq, hds⟩

end Parser

end Calculator
