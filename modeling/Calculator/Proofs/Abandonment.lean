import Calculator.Proofs.Calls
import Calculator.Proofs.Diagnosis

/-!
# Giving Up

What happens when the depth limit is met. It is met at one place: at an opening parenthesis while
as many groups are open as the limit allows, or at a node that has one level too many. The report
names this place, and nothing is reported behind it. On the way out nothing more is taken, and
nodes are still put together, of what was read before. Some of them may have too many levels and be
given up as well; this drops tokens and does nothing else.

The argument is one induction on runs. A call that is made while reading goes on, and is given up
when it returns, has met the limit on its way; whatever its caller still does with the result
changes neither the report nor the place.

* `Parser.Builds` — a node as it is put together, before the limit is applied to it;
* `Parser.MeetsLimit` — on the way from a call the limit is met at a position;
* `Parsed.AbandonedAt` — a result that was given up at a position;
* `Parser.abandons_of_returns` — a result that was given up comes from a place where the limit is
  met;
* `Reading.ofText_abandoned` — the same of a line.
-/

namespace Calculator

namespace Parser

variable {p : Parser} {m : Nat}

/-! ### Where an expression starts -/

/-- Where the result of a call starts: at the next token, or where the left operand does. -/
def Call.start (endOfFile : Token) : Call → Nat
  | .chain _ _ r | .operand _ _ r | .primary _ r => (r.current endOfFile).position
  | .extend _ _ left => left.expression.position

/-- What is left when a call is made. -/
def Call.rest : Call → Remaining
  | .chain _ _ r | .operand _ _ r | .primary _ r => r
  | .extend _ _ left => left.rest

/-- What is taken is what stands in front. -/
theorem current_of_takeIf {test : Token.Kind → Bool} {r : Remaining} {t : Token} {ts : List Token}
    (h : r.takeIf test = some (t, ts)) (endOfFile : Token) : r.current endOfFile = t := by
  obtain ⟨htokens, -⟩ := Remaining.takeIf_eq_some_iff.mp h
  simp [Remaining.current, htokens]

/-- What takes the place of an expression starts where the expression did. -/
@[simp] theorem position_bounded (e : Parsed) :
    (p.bounded e).expression.position = e.expression.position := by
  rcases p.bounded_eq_or e with h | ⟨m, -, -, h⟩ <;> rw [h]
  rfl

/-- A node starts where its left operand does, given up or not: giving up names this place. -/
theorem position_join (left : Parsed) (operator : Token) (right : Parsed) :
    (p.join left operator right).expression.position = left.expression.position :=
  position_bounded _

/-- A token that was expected is put where the next one stands, found or not. -/
theorem position_expect (kind : Token.Kind) (r : Remaining) :
    (p.expect kind r).token.position = (r.current p.endOfFile).position := by
  by_cases h : (r.current p.endOfFile).kind = kind
  · rw [expect_of_kind h]
  · rw [expect_of_kind_ne h]
    rfl

/-- Every result starts where its call says. -/
theorem position_of_returns {c : Call} {e : Parsed} (h : p.Returns c e) :
    e.expression.position = c.start p.endOfFile := by
  induction h with
  | chain _ _ ihfirst ihrest => exact ihrest.trans ihfirst
  | sumOperand _ ih | productOperand _ ih => exact ih
  | stop => rfl
  | step _ _ _ _ ihrest => exact ihrest.trans (position_join _ _ _)
  | numeral => exact position_expect _ _
  | refused hopening | group hopening =>
      rw [Call.start, current_of_takeIf hopening]
      first | rfl | exact position_bounded _

/-! ### Where the limit is met -/

/-- The relation `Builds p c e` says that the call `c` puts the node `e` together, which the limit
is then applied to. -/
inductive Builds (p : Parser) : Call → Parsed → Prop
  /-- An operator between two operands. -/
  | operation {l : Level} {n : Nat} {left right : Parsed} {operator : Token} {ts : List Token}
      (hoperator : left.rest.takeIf l.has = some (operator, ts))
      (hright : p.Returns (.operand l n (.tokens ts)) right) :
      Builds p (.extend l n left) (p.unlimited.join left operator right)
  /-- An expression in parentheses. -/
  | group {n : Nat} {r : Remaining} {opening : Token} {ts : List Token} {inner : Parsed}
      (hopening : r.takeIf (· == .groupOpen) = some (opening, ts))
      (hlimit : p.exhausted? n = none)
      (hinner : p.Returns (.chain .sum (n + 1) (.tokens ts)) inner) :
      Builds p (.primary n r) (p.unlimited.enclose opening inner)

/-- On the way from a call the limit `m` is met at a position. -/
inductive MeetsLimit (p : Parser) (m : Nat) (c : Call) : Nat → Prop
  /-- A group is to be opened while `m` groups are open. -/
  | opening {t : Token} {ts : List Token} (hreaches : p.Reaches c (.primary m (.tokens (t :: ts))))
      (hkind : t.kind = .groupOpen) : MeetsLimit p m c t.position
  /-- A node is put together that has one level too many. Nothing was given up in it. -/
  | node {d : Call} {e : Parsed} (hreaches : p.Reaches c d) (hbuilds : p.Builds d e)
      (hlive : e.rest.IsLive) (hheight : e.expression.height = m + 1) :
      MeetsLimit p m c e.expression.position

/-- If a call that is made meets the limit, the call that makes it meets the limit. -/
theorem MeetsLimit.of_calls {c d : Call} {position : Nat} (h : p.MeetsLimit m d position)
    (hcall : p.Calls c d) : p.MeetsLimit m c position := by
  cases h with
  | opening hreaches hkind => exact .opening (.head hcall hreaches) hkind
  | node hreaches hbuilds hlive hheight => exact .node (.head hcall hreaches) hbuilds hlive hheight

/-- Where a node is put together, its expression starts where the result of the call does. -/
theorem position_of_builds {c : Call} {e : Parsed} (h : p.Builds c e) :
    e.expression.position = c.start p.endOfFile := by
  cases h with
  | operation => exact position_join _ _ _
  | group hopening =>
      rw [Call.start, current_of_takeIf hopening]
      exact position_bounded _

end Parser

/-! ### What was given up -/

/-- A result was **abandoned** at a position: nothing is left, the report of the limit is the last
one and names the position, and what is written in the expression stands in front of it. -/
structure Parsed.AbandonedAt (m position : Nat) (e : Parsed) : Prop where
  rest_eq : e.rest = .givenUp
  reported : ∃ before, e.diagnostics = before ++ [⟨.tooDeep m, position⟩]
  lt_position : ∀ t ∈ e.expression.written, t.position < position

namespace Parser

variable {p : Parser} {m position : Nat} {ts : List Token}

/-- Giving up while reading goes on abandons it: its report is the last one, and nothing is written
in the expression. -/
theorem abandonedAt_giveUp {r : Remaining} (hlive : r.IsLive) (ds : List Diagnostic) :
    (giveUp m position ds r).AbandonedAt m position where
  rest_eq := rfl
  reported := ⟨ds, by rw [giveUp, hlive.report]⟩
  lt_position := by
    simp [giveUp, Expression.written_number_of_isEmpty (Token.isEmpty_standIn _ _)]

/-- Giving up once more changes nothing but that the expression is dropped. -/
theorem abandonedAt_bounded {e : Parsed} (h : e.AbandonedAt m position) :
    (p.bounded e).AbandonedAt m position := by
  rcases p.bounded_eq_or e with heq | ⟨m', -, -, heq⟩ <;> rw [heq]
  · exact h
  · obtain ⟨before, hbefore⟩ := h.reported
    refine ⟨rfl, ⟨before, ?_⟩, ?_⟩
    · simp [giveUp, h.rest_eq, hbefore]
    · simp [giveUp, Expression.written_number_of_isEmpty (Token.isEmpty_standIn _ _)]

/-- An operator and its left operand stand in front of the place where the right one was given
up. -/
theorem abandonedAt_join {us : List Token} {left right : Parsed} {operator : Token}
    (hline : Token.InLine p.endOfFile ts) (hleft : left.Keeps ts)
    (hrest : left.rest.toList = operator :: us) (hright : right.AbandonedAt m position)
    (hle : ((Remaining.tokens us).current p.endOfFile).position ≤ position) :
    (p.join left operator right).AbandonedAt m position := by
  obtain ⟨before, hbefore⟩ := hright.reported
  have hconsumed : Token.InLine p.endOfFile (left.expression.written ++ [operator] ++ us) := by
    refine hline.sublist ?_
    have hprefix := hleft.consumed
    rw [hrest] at hprefix
    simpa using hprefix.sublist
  have hwritten : operator.isEmpty = false := hconsumed.written operator (by simp)
  refine abandonedAt_bounded ⟨hright.rest_eq, ⟨left.diagnostics ++ before, ?_⟩, ?_⟩
  · simp [hbefore]
  · intro t ht
    rw [Expression.written_binary hwritten] at ht
    simp only [List.mem_append, List.mem_cons] at ht
    rcases ht with ht | rfl | ht
    · exact Nat.lt_of_lt_of_le (hconsumed.lt_current (by simp [ht])) hle
    · exact Nat.lt_of_lt_of_le (hconsumed.lt_current (by simp)) hle
    · exact hright.lt_position t ht

/-- An opening parenthesis stands in front of the place where the group was given up. The closing
one is not looked for any more. -/
theorem abandonedAt_enclose (hmark : p.endOfFile.kind = .endOfFile) {opening : Token}
    {inner : Parsed} (hline : Token.InLine p.endOfFile (opening :: ts))
    (hinner : inner.AbandonedAt m position)
    (hle : ((Remaining.tokens ts).current p.endOfFile).position ≤ position) :
    (p.enclose opening inner).AbandonedAt m position := by
  obtain ⟨before, hbefore⟩ := hinner.reported
  have hwritten : opening.isEmpty = false := hline.written opening (by simp)
  rw [enclose, hinner.rest_eq, expect_givenUp (by simp [hmark])]
  refine abandonedAt_bounded ⟨rfl, ⟨before, by simp [hbefore]⟩, ?_⟩
  intro t ht
  rw [Expression.written_grouped hwritten, List.filter_cons_of_neg (by simp), List.filter_nil,
    List.append_nil, List.mem_cons] at ht
  rcases ht with rfl | ht
  · exact Nat.lt_of_lt_of_le hline.head_lt_current hle
  · exact hinner.lt_position t ht

/-- What the limit gives up is abandoned where it starts, if nothing was given up before. -/
theorem abandonedAt_of_givenUp (hlimit : p.limit = some m) {e : Parsed} (hlive : e.rest.IsLive)
    (h : (p.bounded e).rest = .givenUp) :
    m < e.height ∧ (p.bounded e).AbandonedAt m e.expression.position := by
  rcases Nat.lt_or_ge m e.height with hlt | hle
  · rw [bounded_of_lt_height hlimit hlt]
    exact ⟨hlt, abandonedAt_giveUp hlive _⟩
  · rw [bounded_of_height_le hlimit hle] at h
    exact absurd h hlive

/-! ### Calls that are given up -/

/-- The result `e` of the call `c` was given up: on the way from the call the limit was met, not in
front of the place where the call starts, and the result was abandoned there. -/
def Abandons (p : Parser) (m : Nat) (c : Call) (e : Parsed) : Prop :=
  ∃ position, c.start p.endOfFile ≤ position ∧ e.AbandonedAt m position ∧
    p.MeetsLimit m c position

/-- What a call was given up for is also what the call was given up for that made it. -/
theorem Abandons.of_calls {c d : Call} {e : Parsed} (h : p.Abandons m d e) (hcall : p.Calls c d)
    (hstart : c.start p.endOfFile ≤ d.start p.endOfFile) : p.Abandons m c e := by
  obtain ⟨position, hle, habandoned, hmeets⟩ := h
  exact ⟨position, Nat.le_trans hstart hle, habandoned, hmeets.of_calls hcall⟩

/-- A chain whose right operand was given up is given up. -/
theorem Abandons.join {l : Level} {n : Nat} {left right : Parsed} {operator : Token}
    {us : List Token} (h : p.Abandons m (.operand l n (.tokens us)) right)
    (hc : (Call.extend l n left).IsReady p)
    (hoperator : left.rest.takeIf l.has = some (operator, us)) :
    p.Abandons m (.extend l n left) (p.join left operator right) := by
  obtain ⟨ts, hline, hleft⟩ := hc
  obtain ⟨hrest, -⟩ := Remaining.takeIf_eq_some_iff.mp hoperator
  obtain ⟨position, hle, habandoned, hmeets⟩ := h
  refine ⟨position, ?_, abandonedAt_join hline hleft.keeps hrest habandoned hle,
    hmeets.of_calls (.right hoperator)⟩
  exact Nat.le_trans (Nat.le_of_lt (hleft.position_lt_current hline hoperator)) hle

/-- A group in which the expression was given up is given up. -/
theorem Abandons.enclose (hmark : p.endOfFile.kind = .endOfFile) {n : Nat} {r : Remaining}
    {opening : Token} {us : List Token} {inner : Parsed}
    (h : p.Abandons m (.chain .sum (n + 1) (.tokens us)) inner)
    (hc : (Call.primary n r).IsReady p)
    (hopening : r.takeIf (· == .groupOpen) = some (opening, us))
    (hexhausted : p.exhausted? n = none) :
    p.Abandons m (.primary n r) (p.enclose opening inner) := by
  obtain ⟨htokens, -⟩ := Remaining.takeIf_eq_some_iff.mp hopening
  rw [Call.IsReady, htokens] at hc
  obtain ⟨position, hle, habandoned, hmeets⟩ := h
  refine ⟨position, ?_, abandonedAt_enclose hmark hc habandoned hle,
    hmeets.of_calls (.inner hopening hexhausted)⟩
  rw [Call.start, current_of_takeIf hopening]
  exact Nat.le_trans (Nat.le_of_lt hc.head_lt_current) hle

/-- A node that is put together has the height that is kept beside it, and at most one level too
many: its parts are within the limit. -/
theorem height_of_builds (hpos : ∀ m, p.limit = some m → 0 < m) (hlimit : p.limit = some m)
    {c : Call} {e : Parsed} (h : p.Builds c e) (hc : c.IsReady p) :
    e.height = e.expression.height ∧ e.height ≤ m + 1 := by
  cases h with
  | @operation l n left right operator us hoperator hright =>
      obtain ⟨ts, -, hleft⟩ := hc
      have hfits : right.Fits p l.operands := fits_of_returns hpos hright
      have hleftle := hleft.fits.height_le m hlimit
      have hrightle := hfits.height_le m hlimit
      rw [join, bounded_of_limit_none (p := p.unlimited) rfl]
      refine ⟨?_, by dsimp only; omega⟩
      simp only [Expression.height, hleft.fits.height_eq, hfits.height_eq]
  | @group n r opening us inner hopening hexhausted hinner =>
      have hfits : inner.Fits p (.chain .sum) := fits_of_returns hpos hinner
      have hinnerle := hfits.height_le m hlimit
      rw [enclose, bounded_of_limit_none (p := p.unlimited) rfl]
      refine ⟨?_, by dsimp only; omega⟩
      simp only [Expression.height, hfits.height_eq]

/-- A chain goes on from nothing that was given up. -/
theorem Returns.eq_of_givenUp {l : Level} {n : Nat} {left e : Parsed}
    (h : p.Returns (.extend l n left) e) (hrest : left.rest = .givenUp) : e = left :=
  h.unique (.stop (by simp [hrest]))

/-- A node that is given up, although nothing was given up in it, has one level too many. -/
theorem abandons_of_builds (hpos : ∀ m, p.limit = some m → 0 < m)
    (hlimit : p.limit = some m) {c : Call} {e : Parsed} (h : p.Builds c e) (hc : c.IsReady p)
    (hlive : e.rest.IsLive) (hrest : (p.bounded e).rest = .givenUp) :
    p.Abandons m c (p.bounded e) := by
  obtain ⟨hheight, hle⟩ := height_of_builds hpos hlimit h hc
  obtain ⟨hlt, habandoned⟩ := abandonedAt_of_givenUp hlimit hlive hrest
  exact ⟨e.expression.position, Nat.le_of_eq (position_of_builds h).symm, habandoned,
    .node .refl h hlive (by omega)⟩

/-- **Giving up.** A call that is made while reading goes on, and that is given up when it returns,
has met the limit on its way, and was abandoned there. Induction on the run. A part that was given
up ends the chain or the group that it stands in; if no part was, the node itself is what was given
up. -/
theorem abandons_of_returns (hlimit : p.limit = some m) (hpos : 0 < m)
    (hmark : p.endOfFile.kind = .endOfFile) {c : Call} {e : Parsed} (h : p.Returns c e)
    (hc : c.IsReady p) (hnesting : c.nesting ≤ m) (hlive : c.rest.IsLive)
    (hrest : e.rest = .givenUp) : p.Abandons m c e := by
  have hlimits := limit_pos hlimit hpos
  induction h with
  | @chain l n r first e hfirst hothers ihfirst ihothers =>
      by_cases hgone : first.rest = .givenUp
      · rw [hothers.eq_of_givenUp hgone]
        exact (ihfirst hc hnesting hlive hgone).of_calls .first (Nat.le_refl _)
      · have hcall : p.Calls (.chain l n r) (.extend l n first) := .others hfirst
        exact (ihothers (isReady_of_calls hlimits hmark hcall hc) hnesting hgone hrest).of_calls
          hcall (Nat.le_of_eq (position_of_returns hfirst).symm)
  | sumOperand _ ih => exact (ih hc hnesting hlive hrest).of_calls .sumOperand (Nat.le_refl _)
  | productOperand _ ih =>
      exact (ih hc hnesting hlive hrest).of_calls .productOperand (Nat.le_refl _)
  | stop => exact absurd hrest hlive
  | @step l n left right e operator us hoperator hright hothers ihright ihothers =>
      have hcall : p.Calls (.extend l n left) (.operand l n (.tokens us)) := .right hoperator
      have hfurther : p.Calls (.extend l n left)
          (.extend l n (p.join left operator right)) := .further hoperator hright
      by_cases hgone : (p.join left operator right).rest = .givenUp
      · rw [hothers.eq_of_givenUp hgone]
        by_cases hgoneRight : right.rest = .givenUp
        · have hoperand := isReady_of_calls hlimits hmark hcall hc
          exact (ihright hoperand hnesting (by simp [Call.rest]) hgoneRight).join hc hoperator
        · rw [join_eq_bounded] at hgone ⊢
          exact abandons_of_builds hlimits hlimit (.operation hoperator hright) hc hgoneRight hgone
      · refine (ihothers (isReady_of_calls hlimits hmark hfurther hc) hnesting hgone
          hrest).of_calls hfurther (Nat.le_of_eq ?_)
        exact (position_join _ _ _).symm
  | numeral => exact absurd hrest (isLive_expect.mpr hlive)
  | @refused n limit r opening us hopening hexhausted =>
      obtain ⟨hlimit', hle⟩ := exhausted?_eq_some_iff.mp hexhausted
      obtain rfl : m = limit := Option.some.inj (hlimit.symm.trans hlimit')
      obtain rfl : n = m := Nat.le_antisymm hnesting hle
      obtain ⟨htokens, hkind⟩ := Remaining.takeIf_eq_some_iff.mp hopening
      obtain rfl : r = .tokens (opening :: us) := htokens ▸ hlive.eq_tokens
      exact ⟨opening.position, Nat.le_refl _, abandonedAt_giveUp hlive [],
        .opening .refl (by simpa using hkind)⟩
  | @group n r opening us inner hopening hexhausted hinner ih =>
      have hcall : p.Calls (.primary n r) (.chain .sum (n + 1) (.tokens us)) :=
        .inner hopening hexhausted
      by_cases hgone : inner.rest = .givenUp
      · have hready := isReady_of_calls hlimits hmark hcall hc
        have hopen := nesting_le_of_calls hlimit hcall hnesting
        exact (ih hready hopen (by simp [Call.rest]) hgone).enclose hmark hc hopening hexhausted
      · rw [enclose_eq_bounded] at hrest ⊢
        exact abandons_of_builds hlimits hlimit (.group hopening hexhausted hinner) hc
          (isLive_expect.mpr hgone) hrest

end Parser

/-! ### Lines -/

/-- The call that reads a sentence. -/
def Sentence.call (s : Sentence) : Parser.Call :=
  .chain .sum 0 (.tokens s.tokens)

/-- The tokens of a text stand in line. -/
theorem Sentence.inLine_ofText (text : String) :
    Token.InLine (ofText text).endOfFile (ofText text).tokens :=
  ⟨allWritten_ofText text, pairwise_position_ofText text⟩

namespace Reading

/-- A group is to be opened at a position of a line while as many groups are open as the limit
allows: the parser counts so many, and the tokens in front of it leave so many open. -/
def IsRefusedAt (text : String) (position : Nat) : Prop :=
  ∃ opened t others, (Sentence.ofText text).tokens = opened ++ t :: others ∧
    t.kind = .groupOpen ∧ t.position = position ∧ Token.LeavesOpen depthLimit opened ∧
    (parser (some depthLimit) (Sentence.ofText text)).Reaches (Sentence.ofText text).call
      (.primary depthLimit (.tokens (t :: others)))

/-- A node of an expression that starts at a position of a line has one level too many. Nothing was
given up in it. -/
def IsOutgrownAt (text : String) (position : Nat) : Prop :=
  ∃ c e, (parser (some depthLimit) (Sentence.ofText text)).Reaches (Sentence.ofText text).call c ∧
    (parser (some depthLimit) (Sentence.ofText text)).Builds c e ∧ e.rest.IsLive ∧
    e.expression.height = depthLimit + 1 ∧ e.expression.position = position

/-- The reading of a line was **abandoned** at a position. -/
structure AbandonedAt (text : String) (position : Nat) : Prop where
  /-- The limit is reported once, at this position and behind everything else. -/
  reported : ∃ before, (ofText text).diagnostics = before ++ [⟨.tooDeep depthLimit, position⟩] ∧
    ∀ d ∈ before, ∀ m, d.cause ≠ .tooDeep m
  /-- No token is reported to stand where the line should end. -/
  expected_ne : ∀ d ∈ (ofText text).diagnostics, ∀ found,
    d.cause ≠ .unexpectedToken found .endOfFile
  /-- The mark is that of the line. -/
  endOfFile_mem : (ofText text).endOfFile ∈ Token.scan text
  /-- It stands at the end. -/
  endOfFile_eq : (ofText text).endOfFile = .endOfFile text.utf8ByteSize
  /-- What is written in the tree stands in front of the position. -/
  lt_position : ∀ t ∈ (ofText text).root.tokens, t.isEmpty = false → t.position < position
  /-- It is where the limit was met. -/
  met : IsRefusedAt text position ∨ IsOutgrownAt text position

/-- Without a limit, it is a numeral or a closing parenthesis that is reported to be missing in the
expression of a sentence. -/
theorem expected_ne_of_mem_parsed {s : Sentence} (hwritten : Token.AllWritten s.tokens)
    {d : Diagnostic} (h : d ∈ (parsed none s).diagnostics) (found : Token.Kind) :
    d.cause ≠ .unexpectedToken found .endOfFile := by
  obtain ⟨t, ht, u, -, -, -, rfl⟩ := (accounts_parsed hwritten).exists_of_mem_diagnostics h
  obtain ⟨ht, hempty⟩ := List.mem_filter.mp ht
  rcases ((keeps_parsed none hwritten).standIn t ht hempty).1 with hkind | hkind <;> simp [hkind]

/-- The defects of single tokens say nothing about the end of the line. -/
theorem expected_ne_of_mem_defects {ts : List Token} {d : Diagnostic} (h : d ∈ Token.defects ts)
    (found : Token.Kind) : d.cause ≠ .unexpectedToken found .endOfFile := by
  rcases Token.cause_of_mem_defects h with ⟨c, hcause⟩ | ⟨text, hcause⟩ <;> simp [hcause]

/-- An expression that was given up was abandoned where the limit is met. -/
theorem abandons_parsed {text : String}
    (h : (parsed (some depthLimit) (Sentence.ofText text)).rest = .givenUp) :
    (parser (some depthLimit) (Sentence.ofText text)).Abandons depthLimit
      (Sentence.ofText text).call (parsed (some depthLimit) (Sentence.ofText text)) :=
  Parser.abandons_of_returns rfl depthLimit_pos (Sentence.ofText text).endOfFile_kind
    (Parser.returns_result _ (.chain .sum 0 (.tokens (Sentence.ofText text).tokens)))
    (Sentence.inLine_ofText text) (Nat.zero_le _)
    (Remaining.isLive_tokens _) h

/-- The limit is met at a token of the line, with the groups open that the line opens before, or at
a node. -/
theorem isRefusedAt_or_isOutgrownAt {text : String} {position : Nat}
    (h : (parser (some depthLimit) (Sentence.ofText text)).MeetsLimit depthLimit
      (Sentence.ofText text).call position) :
    IsRefusedAt text position ∨ IsOutgrownAt text position := by
  cases h with
  | @opening t others hreaches hkind =>
      obtain ⟨-, opened, htokens, hopened⟩ := Parser.standsIn_of_reaches
        (p := parser (some depthLimit) (Sentence.ofText text)) rfl depthLimit_pos
        (Sentence.ofText text).endOfFile_kind (Sentence.inLine_ofText text) hreaches
      exact .inl ⟨opened, t, others, htokens, hkind, rfl, hopened, hreaches⟩
  | node hreaches hbuilds hlive hheight =>
      exact .inr ⟨_, _, hreaches, hbuilds, hlive, hheight, rfl⟩

/-- A line whose expression was given up was abandoned. -/
theorem exists_abandonedAt {text : String}
    (hrest : (parsed (some depthLimit) (Sentence.ofText text)).rest = .givenUp)
    (hcut : Diagnostic.CutShort depthLimit
      (parsed (some depthLimit) (Sentence.ofText text)).diagnostics
      (parsed none (Sentence.ofText text)).diagnostics) :
    ∃ position, AbandonedAt text position := by
  have hwritten := Sentence.allWritten_ofText text
  obtain ⟨position, -, habandoned, hmeets⟩ := abandons_parsed hrest
  -- both accounts of the diagnostics end in the same report
  obtain ⟨before, position', hbefore, hdiagnostics⟩ := hcut
  obtain ⟨before', hdiagnostics'⟩ := habandoned.reported
  obtain ⟨rfl, hlast⟩ := List.append_inj' (hdiagnostics.symm.trans hdiagnostics') rfl
  obtain rfl : position' = position := by simpa using hlast
  have hreading : ofText text =
      ⟨(parsed (some depthLimit) (Sentence.ofText text)).expression, .endOfFile text.utf8ByteSize,
        Token.defects (Token.scan text) ++ (before ++ [⟨.tooDeep depthLimit, position'⟩])⟩ := by
    rw [ofText, ofTextWithin, ofSentence_eq, ofParsed_of_toList_eq_nil (by simp [hrest]),
      hdiagnostics, Sentence.endOfFile_ofText]
  have hbefore' : ∀ d ∈ Token.defects (Token.scan text) ++ before, ∀ m, d.cause ≠ .tooDeep m := by
    intro d hd
    have hmem : d ∈ (ofTextWithin none text).diagnostics := by
      rcases List.mem_append.mp hd with hd | hd
      · exact List.mem_append_left _ hd
      · exact List.mem_append_right _ (List.mem_append_left _ (hbefore.subset hd))
    exact cause_ne_tooDeep_of_mem_none hmem
  refine ⟨position', ⟨⟨_, by rw [hreading, List.append_assoc], hbefore'⟩, ?_, ?_, ?_, ?_,
    isRefusedAt_or_isOutgrownAt hmeets⟩⟩
  · intro d hd found
    rw [hreading] at hd
    simp only [List.mem_append, List.mem_singleton] at hd
    rcases hd with hd | hd | rfl
    · exact expected_ne_of_mem_defects hd found
    · exact expected_ne_of_mem_parsed hwritten (hbefore.subset hd) found
    · simp
  · rw [hreading, Token.scan_eq]
    simp
  · rw [hreading]
  · intro t ht hempty
    rw [hreading] at ht
    exact habandoned.lt_position t (Expression.mem_written.mpr ⟨ht, hempty⟩)

/-- **Giving up is reported once, and it is final.** A line has no report of the depth limit, or it
has one: it is the last diagnostic, none before it asks for the end of the line, the mark is the one
at the end, and no token that is written in the tree starts at the place that is reported or behind
it. This is the place of an opening parenthesis that is met while as many groups are open as the
limit allows, or the place where an expression starts that has exactly one level more. -/
theorem ofText_abandoned (text : String) :
    (∀ d ∈ (ofText text).diagnostics, ∀ m, d.cause ≠ .tooDeep m) ∨
      ∃ position, AbandonedAt text position := by
  rcases (tracks_parsed depthLimit_pos (Sentence.ofText text)).eq_or_gaveUp with
    ⟨heq, -⟩ | ⟨hrest, hcut, -⟩
  · left
    have heqText : ofText text = ofTextWithin none text := by
      rw [ofText, ofTextWithin, ofTextWithin, ofSentence_eq, ofSentence_eq, heq]
    rw [heqText]
    exact fun d hd => cause_ne_tooDeep_of_mem_none hd
  · exact .inr (exists_abandonedAt hrest hcut)

end Reading

end Calculator
