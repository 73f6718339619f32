import Mathlib.Data.List.Forall2
import Calculator.Proofs.Shape

/-!
# The Account of Tokens

Where the tokens of a tree come from. The ones with a text are the tokens of the line in their
order, with none left out and none twice, up to the place where reading stopped; the others are
stand-ins. A stand-in is made for a numeral or for a closing parenthesis only. Once a closing
parenthesis is missing, nothing more is taken from the line at any level: the token that
stands there is no operator and closes no group (`Parsed.Keeps.halted`).

Without a limit nothing is dropped, and stand-ins and reports are paired one to one
(`Parsed.Accounts`).

* `Expression.written`, `Expression.missing` — the tokens with a text, and the stand-ins;
* `Parser.keeps_of_returns` — what holds of every result, given up or not;
* `Parser.accounts_of_returns` — what holds of every result of an unlimited parser.
-/

namespace Calculator

/-! ### Written and missing tokens -/

/-- The tokens of an expression that have a text, from left to right. -/
def Expression.written (e : Expression) : List Token :=
  e.tokens.filter fun t => !t.isEmpty

/-- The stand-ins in an expression, from left to right. -/
def Expression.missing (e : Expression) : List Token :=
  e.tokens.filter Token.isEmpty

/-- A token stands for a numeral or a closing parenthesis that is not there. -/
def Token.IsStandIn (t : Token) : Prop :=
  (t.kind = .number ∨ t.kind = .groupClose) ∧ t = .standIn t.kind t.position

/-- A closing parenthesis that is not there. -/
def Token.IsLost (t : Token) : Prop :=
  t.isEmpty = true ∧ t.kind = .groupClose

namespace Expression

/-- The written tokens are those with a text. -/
theorem mem_written {e : Expression} {t : Token} :
    t ∈ e.written ↔ t ∈ e.tokens ∧ t.isEmpty = false := by
  simp [written]

/-- A numeral without a text is not written. -/
theorem written_number_of_isEmpty {t : Token} (h : t.isEmpty = true) :
    (number t).written = [] := by
  simp [written, tokens, h]

/-- A numeral with a text is what it is written with. -/
theorem written_number {t : Token} (h : t.isEmpty = false) : (number t).written = [t] := by
  simp [written, tokens, h]

/-- What is written of an operator with its operands stands in their order. -/
theorem written_binary {left right : Expression} {operator : Token}
    (h : operator.isEmpty = false) :
    (binary left operator right).written = left.written ++ operator :: right.written := by
  simp [written, tokens, h]

/-- An operator that is written adds nothing to what is missing in the operands. -/
theorem missing_binary {left right : Expression} {operator : Token}
    (h : operator.isEmpty = false) :
    (binary left operator right).missing = left.missing ++ right.missing := by
  simp [missing, tokens, h]

/-- A group is written with its closing parenthesis, unless this one is missing. -/
theorem written_grouped {opening closing : Token} {inner : Expression}
    (h : opening.isEmpty = false) :
    (grouped opening inner closing).written =
      opening :: (inner.written ++ [closing].filter fun t => !t.isEmpty) := by
  simp [written, tokens, h, List.filter_append]

/-- In a group the closing parenthesis can be missing, and whatever is missing inside. -/
theorem missing_grouped {opening closing : Token} {inner : Expression}
    (h : opening.isEmpty = false) :
    (grouped opening inner closing).missing =
      inner.missing ++ [closing].filter Token.isEmpty := by
  simp [missing, tokens, h, List.filter_append]

/-- Without stand-ins all tokens are written. -/
theorem written_eq_tokens {e : Expression} (h : e.missing = []) : e.written = e.tokens := by
  rw [missing, List.filter_eq_nil_iff] at h
  exact List.filter_eq_self.mpr fun t ht => by simpa using h t ht

end Expression

/-- The stand-ins that the parser makes inside of expressions are for numerals and closing
parentheses. -/
theorem Token.isStandIn_standIn {k : Token.Kind} (h : k = .number ∨ k = .groupClose)
    (position : Nat) : (standIn k position).IsStandIn :=
  ⟨h, rfl⟩

/-- No operator is lost. -/
theorem Token.not_isLost_of_has {l : Level} {t : Token} (h : l.has t.kind) : ¬ t.IsLost := by
  rintro ⟨-, hkind⟩
  simp [hkind, Level.has, Token.Kind.operator?] at h

/-- What a level takes for an operator is one. -/
theorem Level.operator?_ne_none_of_has {l : Level} {k : Token.Kind} (h : l.has k) :
    k.operator? ≠ none := by
  intro hnone
  simp [Level.has, hnone] at h

/-! ### What every result keeps -/

/-- What a result **keeps** of the tokens it was read from. -/
structure Parsed.Keeps (ts : List Token) (e : Parsed) : Prop where
  /-- The written tokens, and those that are left, are a first part of the tokens. -/
  consumed : e.expression.written ++ e.rest.toList <+: ts
  /-- Every other token is a stand-in. -/
  standIn : ∀ t ∈ e.expression.tokens, t.isEmpty = true → t.IsStandIn
  /-- Behind a lost closing parenthesis nothing is written. -/
  ended : e.expression.tokens.Pairwise fun t u => t.IsLost → u.isEmpty = true
  /-- Behind a lost closing parenthesis nothing more can be taken. -/
  halted : (∃ t ∈ e.expression.tokens, t.IsLost) →
    ∀ t ∈ e.rest.toList.head?, t.kind.operator? = none ∧ t.kind ≠ .groupClose

/-- The tokens of a line have a text. -/
def Token.AllWritten (ts : List Token) : Prop :=
  ∀ t ∈ ts, t.isEmpty = false

/-- A list of written tokens begins with one and goes on with such. -/
theorem Token.AllWritten.of_cons {t : Token} {ts : List Token} (h : AllWritten (t :: ts)) :
    t.isEmpty = false ∧ AllWritten ts :=
  ⟨h t List.mem_cons_self, fun u hu => h u (List.mem_cons_of_mem t hu)⟩

/-- What is left behind a result is tokens with a text. -/
theorem Parsed.Keeps.allWritten_rest {ts : List Token} {e : Parsed} (h : e.Keeps ts)
    (hts : Token.AllWritten ts) : Token.AllWritten e.rest.toList :=
  fun t ht => hts t (h.consumed.subset (List.mem_append_right _ ht))

namespace Parser

variable {p : Parser} {ts : List Token}

/-- Where it gives up, the parser has taken nothing and leaves nothing, so nothing can be out of
place. -/
theorem keeps_giveUp (ts : List Token) (m position : Nat) (ds : List Diagnostic)
    (r : Remaining) : (giveUp m position ds r).Keeps ts where
  consumed := List.nil_prefix
  standIn := by
    simp only [giveUp, Expression.tokens, List.mem_singleton, forall_eq]
    exact fun _ => Token.isStandIn_standIn (.inl rfl) position
  ended := List.pairwise_singleton _ _
  halted := by simp [giveUp]

/-- Bounding keeps what the expression keeps: it only ever puts a stand-in in its place. -/
theorem keeps_bounded {e : Parsed} (h : e.Keeps ts) : (p.bounded e).Keeps ts := by
  rcases p.bounded_eq_or e with heq | ⟨m, -, -, heq⟩ <;> rw [heq]
  · exact h
  · exact keeps_giveUp ts m _ _ _

/-- A numeral is taken or stood in for; in both cases what was there is kept. -/
theorem keeps_numeral (hmark : p.endOfFile.kind = .endOfFile) {r : Remaining}
    (hr : Token.AllWritten r.toList) : (p.numeral r).Keeps r.toList := by
  rcases p.expect_cases .number r (by simp [hmark]) with
    ⟨t, ts, rfl, hkind, heq⟩ | ⟨-, heq⟩ <;> rw [numeral, heq]
  · obtain ⟨ht, -⟩ := hr.of_cons
    refine ⟨?_, ?_, List.pairwise_singleton _ _, ?_⟩
    · simp [Expression.written_number ht]
    · simp [Expression.tokens, ht]
    · simp [Expression.tokens, Token.IsLost, hkind]
  · refine ⟨?_, ?_, List.pairwise_singleton _ _, ?_⟩
    · rw [Expression.written_number_of_isEmpty (Token.isEmpty_standIn _ _)]
      exact List.prefix_rfl
    · simp only [Expression.tokens, List.mem_singleton, forall_eq]
      exact fun _ => Token.isStandIn_standIn (.inl rfl) _
    · simp [Expression.tokens, Token.IsLost, Token.standIn]

/-- An operator behind an expression shows that no closing parenthesis was lost in it. -/
theorem not_isLost_of_operator {us : List Token} {e : Parsed} {operator : Token} {l : Level}
    (h : e.Keeps us) (hrest : e.rest.toList = operator :: ts) (hoperator : l.has operator.kind) :
    ∀ t ∈ e.expression.tokens, ¬ t.IsLost := by
  intro t ht hlost
  have hhalted := h.halted ⟨t, ht, hlost⟩ operator (by simp [hrest])
  exact Level.operator?_ne_none_of_has hoperator hhalted.1

/-- **A node keeps the tokens of both operands.** The operator stands between what the left operand
took and what the right one took, so together they are what there was. -/
theorem keeps_join {us : List Token} {left right : Parsed} {operator : Token} {l : Level}
    (hus : Token.AllWritten us) (hleft : left.Keeps us)
    (hrest : left.rest.toList = operator :: ts) (hoperator : l.has operator.kind)
    (hright : right.Keeps ts) : (p.join left operator right).Keeps us := by
  obtain ⟨hwritten, -⟩ :=
    Token.AllWritten.of_cons (hrest ▸ hleft.allWritten_rest hus)
  have hnone := not_isLost_of_operator hleft hrest hoperator
  refine keeps_bounded ⟨?_, ?_, ?_, ?_⟩
  · rw [Expression.written_binary hwritten, List.append_assoc, List.cons_append]
    refine List.IsPrefix.trans ?_ hleft.consumed
    rw [hrest, List.prefix_append_right_inj, List.cons_prefix_cons]
    exact ⟨rfl, hright.consumed⟩
  · simp only [Expression.mem_tokens_binary]
    rintro t (ht | rfl | ht) hempty
    · exact hleft.standIn t ht hempty
    · simp [hwritten] at hempty
    · exact hright.standIn t ht hempty
  · rw [Expression.tokens, List.pairwise_append, List.pairwise_cons]
    refine ⟨hleft.ended, ⟨?_, hright.ended⟩, ?_⟩
    · exact fun _ _ hlost => absurd hlost (Token.not_isLost_of_has hoperator)
    · exact fun t ht _ _ hlost => absurd hlost (hnone t ht)
  · simp only [Expression.mem_tokens_binary]
    rintro ⟨t, ht | rfl | ht, hlost⟩
    · exact absurd hlost (hnone t ht)
    · exact absurd hlost (Token.not_isLost_of_has hoperator)
    · exact hright.halted ⟨t, ht, hlost⟩

/-- A group that finds its closing parenthesis has lost none inside. -/
theorem keeps_closed {us : List Token} {opening closing : Token} {inner : Parsed}
    (hopening : opening.kind = .groupOpen) (hclosing : closing.kind = .groupClose)
    (hts : Token.AllWritten (opening :: ts)) (hinner : inner.Keeps ts)
    (hrest : inner.rest = .tokens (closing :: us)) (height : Nat) (ds : List Diagnostic) :
    Parsed.Keeps (opening :: ts)
      ⟨.grouped opening inner.expression closing, height, ds, .tokens us⟩ := by
  obtain ⟨hwritten, hts⟩ := hts.of_cons
  have hnotLost : ¬ opening.IsLost := by simp [Token.IsLost, hopening]
  have hclosed : closing.isEmpty = false := by
    refine hinner.allWritten_rest hts closing ?_
    simp [hrest]
  have hnone : ∀ t ∈ inner.expression.tokens, ¬ t.IsLost := by
    intro t ht hlost
    exact (hinner.halted ⟨t, ht, hlost⟩ closing (by simp [hrest])).2 hclosing
  refine ⟨?_, ?_, ?_, ?_⟩
  · have hconsumed := hinner.consumed
    rw [hrest] at hconsumed
    simpa [Expression.written_grouped hwritten, hclosed, List.cons_prefix_cons] using hconsumed
  · simp only [Expression.mem_tokens_grouped]
    rintro t (rfl | ht | rfl) hempty
    · simp [hwritten] at hempty
    · exact hinner.standIn t ht hempty
    · simp [hclosed] at hempty
  · rw [Expression.tokens, List.cons_append, List.pairwise_cons, List.pairwise_append]
    refine ⟨fun _ _ h => absurd h hnotLost, hinner.ended, List.pairwise_singleton _ _, ?_⟩
    exact fun t ht _ _ hlost => absurd hlost (hnone t ht)
  · simp only [Expression.mem_tokens_grouped]
    rintro ⟨t, rfl | ht | rfl, hlost⟩
    · exact absurd hlost hnotLost
    · exact absurd hlost (hnone t ht)
    · simp [Token.IsLost, hclosed] at hlost

/-- A group that does not find its closing parenthesis ends in a stand-in. What follows is no
operator, because the expression inside has taken those. -/
theorem keeps_unclosed {opening : Token} {inner : Parsed} (hopening : opening.kind = .groupOpen)
    (hwritten : opening.isEmpty = false) (hinner : inner.Keeps ts)
    (hpast : ∀ t ∈ inner.rest.toList.head?, t.kind.operator? = none ∧ t.kind ≠ .groupClose)
    (position height : Nat) (ds : List Diagnostic) :
    Parsed.Keeps (opening :: ts)
      ⟨.grouped opening inner.expression (.standIn .groupClose position), height, ds,
        inner.rest⟩ := by
  have hnotLost : ¬ opening.IsLost := by simp [Token.IsLost, hopening]
  refine ⟨?_, ?_, ?_, fun _ => hpast⟩
  · simpa [Expression.written_grouped hwritten, List.cons_prefix_cons] using hinner.consumed
  · simp only [Expression.mem_tokens_grouped]
    rintro t (rfl | ht | rfl) hempty
    · simp [hwritten] at hempty
    · exact hinner.standIn t ht hempty
    · exact Token.isStandIn_standIn (.inr rfl) _
  · rw [Expression.tokens, List.cons_append, List.pairwise_cons, List.pairwise_append]
    refine ⟨fun _ _ h => absurd h hnotLost, hinner.ended, List.pairwise_singleton _ _, ?_⟩
    simp

/-- **A group keeps its tokens**, whether its closing parenthesis follows or not. It can only be
missing where no operator follows, because an expression takes all of them. -/
theorem keeps_enclose (hmark : p.endOfFile.kind = .endOfFile) {opening : Token} {inner : Parsed}
    (hts : Token.AllWritten (opening :: ts)) (hopening : opening.kind = .groupOpen)
    (hinner : inner.Keeps ts)
    (hpast : ∀ t ∈ inner.rest.toList.head?, t.kind.operator? = none) :
    (p.enclose opening inner).Keeps (opening :: ts) := by
  rw [enclose]
  rcases p.expect_cases .groupClose inner.rest (by simp [hmark]) with
    ⟨closing, us, hrest, hkind, heq⟩ | ⟨hkind, heq⟩ <;> rw [heq]
  · exact keeps_bounded (keeps_closed hopening hkind hts hinner hrest _ _)
  · refine keeps_bounded (keeps_unclosed hopening hts.of_cons.1 hinner (fun t ht => ?_) _ _ _)
    refine ⟨hpast t ht, fun hclose => hkind ?_⟩
    simpa [Remaining.current, Option.mem_def.mp ht] using hclose

/-- What the result of a call keeps. The rest of a chain keeps what its left operand keeps. -/
def Call.Keeps (e : Parsed) : Call → Prop
  | .chain _ _ r | .operand _ _ r | .primary _ r => Token.AllWritten r.toList → e.Keeps r.toList
  | .extend _ _ left => ∀ ts, Token.AllWritten ts → left.Keeps ts → e.Keeps ts

/-- Every result keeps the tokens it was read from. -/
theorem keeps_of_returns (hmark : p.endOfFile.kind = .endOfFile) {c : Call} {e : Parsed}
    (h : p.Returns c e) : c.Keeps e := by
  induction h with
  | chain _ _ ihfirst ihrest => exact fun hr => ihrest _ hr (ihfirst hr)
  | sumOperand _ ih | productOperand _ ih => exact ih
  | stop => exact fun _ _ hleft => hleft
  | @step l n left right e operator us hoperator _ _ ihright ihrest =>
      intro ts hts hleft
      obtain ⟨hrest, hkind⟩ := Remaining.takeIf_eq_some_iff.mp hoperator
      obtain ⟨-, hus⟩ :=
        Token.AllWritten.of_cons (hrest ▸ hleft.allWritten_rest hts)
      exact ihrest ts hts (keeps_join hts hleft hrest hkind (ihright hus))
  | numeral => exact keeps_numeral hmark
  | refused => exact fun _ => keeps_giveUp _ _ _ _ _
  | @group n r opening us inner hopening _ hinner ih =>
      intro hr
      obtain ⟨htokens, hkind⟩ := Remaining.takeIf_eq_some_iff.mp hopening
      rw [htokens] at hr ⊢
      exact keeps_enclose hmark hr (by simpa using hkind) (ih hr.of_cons.2)
        (operator?_of_chain_sum hinner)

/-! ### Without a limit nothing is dropped -/

end Parser

/-- The report `d` says that another token of the stream was found in the place of the stand-in
`t`. -/
def Token.ReportedAs (stream : List Token) (t : Token) (d : Diagnostic) : Prop :=
  ∃ u ∈ stream, u.kind ≠ t.kind ∧ u.position = t.position ∧
    d = ⟨.unexpectedToken u.kind t.kind, t.position⟩

/-- The **account** of a result: the tokens it was read from are those that are written in it and
those that are left, and its reports are those of its stand-ins, in their order. -/
structure Parsed.Accounts (stream ts : List Token) (e : Parsed) : Prop where
  live : e.rest.IsLive
  written_eq : e.expression.written ++ e.rest.toList = ts
  reported : List.Forall₂ (Token.ReportedAs stream) e.expression.missing e.diagnostics

/-- Every report is that of a stand-in. -/
theorem Parsed.Accounts.exists_of_mem_diagnostics {stream ts : List Token} {e : Parsed}
    (h : e.Accounts stream ts) {d : Diagnostic} (hd : d ∈ e.diagnostics) :
    ∃ t ∈ e.expression.missing, t.ReportedAs stream d := by
  have hreported := h.reported
  generalize e.expression.missing = us, e.diagnostics = ds at hreported hd
  induction hreported with
  | nil => simp at hd
  | @cons t d' us ds hhead _ ih =>
      rcases List.mem_cons.mp hd with rfl | hd
      · exact ⟨t, List.mem_cons_self, hhead⟩
      · obtain ⟨u, hu, hreported⟩ := ih hd
        exact ⟨u, List.mem_cons_of_mem t hu, hreported⟩

namespace Parser

variable {p : Parser} {stream ts : List Token}

/-- What stands in front is a token of the stream, also at the end. -/
theorem mem_stream_current (hmark : p.endOfFile ∈ stream) {r : Remaining}
    (hstream : r.toList ⊆ stream) : r.current p.endOfFile ∈ stream := by
  rw [Remaining.current]
  cases hr : r.toList with
  | nil => exact hmark
  | cons t us =>
      refine hstream ?_
      rw [hr]
      exact List.mem_cons_self

/-- A token that is asked for is written, or it is missing and reported. -/
theorem accounts_expect (kind : Token.Kind) {r : Remaining} (hlive : r.IsLive)
    (hkind : p.endOfFile.kind ≠ kind) (hmark : p.endOfFile ∈ stream)
    (hr : Token.AllWritten r.toList) (hstream : r.toList ⊆ stream) :
    ([(p.expect kind r).token].filter (fun t => !t.isEmpty)) ++ (p.expect kind r).rest.toList
        = r.toList ∧
      List.Forall₂ (Token.ReportedAs stream) ([(p.expect kind r).token].filter Token.isEmpty)
        (p.expect kind r).diagnostics := by
  rcases p.expect_cases kind r hkind with ⟨t, ts, rfl, -, heq⟩ | ⟨hne, heq⟩ <;> rw [heq]
  · have ht : t.isEmpty = false := hr t List.mem_cons_self
    simp [ht]
  · rw [hlive.report]
    exact ⟨rfl, .cons ⟨_, mem_stream_current hmark hstream, hne, rfl, rfl⟩ .nil⟩

/-- A numeral that is missing is reported once, and one that is there is not. -/
theorem accounts_numeral {r : Remaining} (hlive : r.IsLive)
    (hkind : p.endOfFile.kind = .endOfFile) (hmark : p.endOfFile ∈ stream)
    (hr : Token.AllWritten r.toList) (hstream : r.toList ⊆ stream) :
    (p.numeral r).Accounts stream r.toList := by
  obtain ⟨hwritten, hreported⟩ :=
    accounts_expect .number hlive (by simp [hkind]) hmark hr hstream
  exact ⟨isLive_expect.mpr hlive, hwritten, hreported⟩

/-- A node has nothing to report that its operands did not. -/
theorem accounts_join (hlimit : p.limit = none) {us : List Token} {left right : Parsed}
    {operator : Token} (hwritten : operator.isEmpty = false)
    (hleft : left.Accounts stream us) (hrest : left.rest.toList = operator :: ts)
    (hright : right.Accounts stream ts) :
    (p.join left operator right).Accounts stream us := by
  rw [join, bounded_of_limit_none hlimit]
  refine ⟨hright.live, ?_, ?_⟩
  · rw [← hleft.written_eq, hrest, Expression.written_binary hwritten, ← hright.written_eq,
      List.append_assoc, List.cons_append]
  · rw [Expression.missing_binary hwritten]
    exact List.rel_append hleft.reported hright.reported

/-- A group accounts for its closing parenthesis: it is reported exactly when it is missing. -/
theorem accounts_enclose (hlimit : p.limit = none) (hkind : p.endOfFile.kind = .endOfFile)
    (hmark : p.endOfFile ∈ stream) {opening : Token} {inner : Parsed}
    (hts : Token.AllWritten (opening :: ts)) (hstream : ts ⊆ stream)
    (hinner : inner.Accounts stream ts) :
    (p.enclose opening inner).Accounts stream (opening :: ts) := by
  obtain ⟨hwritten, hts⟩ := hts.of_cons
  have hsub : inner.rest.toList ⊆ ts :=
    fun t ht => hinner.written_eq ▸ List.mem_append_right _ ht
  obtain ⟨hclosing, hreported⟩ :=
    accounts_expect .groupClose hinner.live (by simp [hkind]) hmark
      (fun t ht => hts t (hsub ht)) (fun t ht => hstream (hsub ht))
  rw [enclose, bounded_of_limit_none hlimit]
  refine ⟨isLive_expect.mpr hinner.live, ?_, ?_⟩
  · rw [Expression.written_grouped hwritten, List.cons_append, List.append_assoc, hclosing,
      hinner.written_eq]
  · rw [Expression.missing_grouped hwritten]
    exact List.rel_append hinner.reported hreported

/-- The account of the result of a call. The rest of a chain goes on with the account of its left
operand. -/
def Call.Accounted (stream : List Token) (e : Parsed) : Call → Prop
  | .chain _ _ r | .operand _ _ r | .primary _ r =>
    r.IsLive → Token.AllWritten r.toList → r.toList ⊆ stream → e.Accounts stream r.toList
  | .extend _ _ left => ∀ ts, Token.AllWritten ts → ts ⊆ stream → left.Accounts stream ts →
    e.Accounts stream ts

/-- Without a limit every result accounts for the tokens it was read from. -/
theorem accounts_of_returns (hlimit : p.limit = none) (hkind : p.endOfFile.kind = .endOfFile)
    (hmark : p.endOfFile ∈ stream) {c : Call} {e : Parsed} (h : p.Returns c e) :
    c.Accounted stream e := by
  induction h with
  | chain _ _ ihfirst ihrest =>
      exact fun hlive hr hsub => ihrest _ hr hsub (ihfirst hlive hr hsub)
  | sumOperand _ ih | productOperand _ ih => exact ih
  | stop => exact fun _ _ _ hleft => hleft
  | @step l n left right e operator us hoperator _ _ ihright ihrest =>
      intro ts hts hstream hleft
      obtain ⟨hrest, -⟩ := Remaining.takeIf_eq_some_iff.mp hoperator
      have hsub : operator :: us ⊆ ts :=
        fun t ht => hleft.written_eq ▸ List.mem_append_right _ (hrest ▸ ht)
      obtain ⟨hwritten, hus⟩ := Token.AllWritten.of_cons fun t ht => hts t (hsub ht)
      have hright := ihright (by simp) hus
        fun t ht => hstream (hsub (List.mem_cons_of_mem operator ht))
      exact ihrest ts hts hstream (accounts_join hlimit hwritten hleft hrest hright)
  | numeral => exact fun hlive hr hsub => accounts_numeral hlive hkind hmark hr hsub
  | refused _ hrefused =>
      rw [exhausted?_of_limit_none hlimit] at hrefused
      exact absurd hrefused (by simp)
  | @group n r opening us inner hopening _ _ ih =>
      intro _ hr hstream
      obtain ⟨htokens, -⟩ := Remaining.takeIf_eq_some_iff.mp hopening
      rw [htokens] at hr hstream ⊢
      have hsub : us ⊆ stream := fun t ht => hstream (List.mem_cons_of_mem opening ht)
      exact accounts_enclose hlimit hkind hmark hr hsub
        (ih (by simp) hr.of_cons.2 hsub)

end Parser

end Calculator
