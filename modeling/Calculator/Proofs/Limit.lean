import Calculator.Proofs.Steps
import Calculator.Reading

/-!
# The Depth Limit

A parser with a depth limit beside the same parser without one (`Parser.unlimited`). The two go
together step by step up to the place where the limit is met, and from there on the limited one
takes and reports nothing more. There are two such places, a node that has become too high and
a group that is refused at its opening. One measure covers both: the levels of the expression
that the unlimited parser goes on to build, counted together with the groups that are open.

* `Diagnostic.CutShort` — a list of diagnostics that the limit has cut short;
* `Parsed.Tracks` — how a result under a limit relates to the result without one;
* `Parser.tracked_of_returns` — the relation holds of every call;
* `Parser.tracks_chain` — in particular it holds of what a whole sentence is read as.
-/

namespace Calculator

/-- The diagnostics `es` are `fs` **cut short** by the limit `m`: a first part of `fs`, and the
report that the limit is passed. -/
def Diagnostic.CutShort (m : Nat) (es fs : List Diagnostic) : Prop :=
  ∃ before position, before <+: fs ∧ es = before ++ [⟨.tooDeep m, position⟩]

namespace Diagnostic.CutShort

variable {m : Nat} {es fs : List Diagnostic}

/-- What is cut short stays so when the other list goes on. -/
theorem append_right (h : CutShort m es fs) (gs : List Diagnostic) :
    CutShort m es (fs ++ gs) := by
  obtain ⟨before, position, hbefore, rfl⟩ := h
  exact ⟨before, position, hbefore.trans (List.prefix_append fs gs), rfl⟩

/-- What comes before the cut may be added to both lists. -/
theorem append_left (h : CutShort m es fs) (gs : List Diagnostic) :
    CutShort m (gs ++ es) (gs ++ fs) := by
  obtain ⟨before, position, hbefore, rfl⟩ := h
  exact ⟨gs ++ before, position, (List.prefix_append_right_inj gs).mpr hbefore, by simp⟩

/-- The report of the limit alone cuts every list short. -/
theorem singleton (m position : Nat) (fs : List Diagnostic) :
    CutShort m [⟨.tooDeep m, position⟩] fs :=
  ⟨[], position, List.nil_prefix, rfl⟩

/-- A list that is cut short contains the report of the limit. -/
theorem ne_nil (h : CutShort m es fs) : es ≠ [] := by
  obtain ⟨before, position, -, rfl⟩ := h
  simp

end Diagnostic.CutShort

/-- The parser without a depth limit. -/
def Parser.unlimited (p : Parser) : Parser :=
  { p with limit := none }

/-- The relation `Tracks m n e f` says how the result `e` under the limit `m` relates to the
result `f` of the same call without a limit, when `n` groups are open. Either the results are
equal and within the limit, or `e` was given up on the way to an expression that passes it. -/
inductive Parsed.Tracks (m n : Nat) : Parsed → Parsed → Prop
  /-- The limit was not met. -/
  | agree {f : Parsed} (hlive : f.rest.IsLive) (hheight : f.height ≤ m) : Tracks m n f f
  /-- The limit was met. -/
  | gaveUp {e f : Parsed} (hrest : e.rest = .givenUp)
      (hcut : Diagnostic.CutShort m e.diagnostics f.diagnostics) (hheight : m < n + f.height) :
      Tracks m n e f

/-- A result that tracks another is the same and within the limit, or reading was given up and the
other one has too many levels, with the groups around it. -/
theorem Parsed.Tracks.eq_or_gaveUp {m n : Nat} {e f : Parsed} (h : e.Tracks m n f) :
    (e = f ∧ f.height ≤ m) ∨
      (e.rest = .givenUp ∧ Diagnostic.CutShort m e.diagnostics f.diagnostics ∧
        m < n + f.height) := by
  cases h with
  | agree _ hheight => exact .inl ⟨rfl, hheight⟩
  | gaveUp hrest hcut hheight => exact .inr ⟨hrest, hcut, hheight⟩

namespace Parser

variable {p : Parser} {m n : Nat}

/-- The limit is applied to the node that is put together without one. -/
theorem join_eq_bounded (left : Parsed) (operator : Token) (right : Parsed) :
    p.join left operator right = p.bounded (p.unlimited.join left operator right) := by
  rw [join, join, bounded_of_limit_none (p := p.unlimited) rfl]

/-- A group under a limit is the group without one, cut down to the limit. -/
theorem enclose_eq_bounded (opening : Token) (inner : Parsed) :
    p.enclose opening inner = p.bounded (p.unlimited.enclose opening inner) := by
  rw [enclose, enclose, bounded_of_limit_none (p := p.unlimited) rfl]
  rfl

/-- A node that is within the limit agrees; a higher one is given up, and its height witnesses
that the limit is passed. -/
theorem tracks_bounded (hlimit : p.limit = some m) {e : Parsed} (hlive : e.rest.IsLive) :
    (p.bounded e).Tracks m n e := by
  rcases Nat.lt_or_ge m e.height with h | h
  · rw [bounded_of_lt_height hlimit h]
    refine .gaveUp rfl ⟨e.diagnostics, e.expression.position, List.prefix_rfl, ?_⟩ (by omega)
    simp only [giveUp, hlive.report]
  · rw [bounded_of_height_le hlimit h]
    exact .agree hlive h

/-- Giving up is final: bounding what was given up already changes neither what is left nor
what was reported. -/
theorem bounded_of_givenUp {e : Parsed} (hrest : e.rest = .givenUp) :
    (p.bounded e).rest = .givenUp ∧ (p.bounded e).diagnostics = e.diagnostics := by
  rcases p.bounded_eq_or e with h | ⟨m, -, -, h⟩
  · rw [h]
    exact ⟨hrest, rfl⟩
  · rw [h]
    simp [giveUp, hrest]

/-- A node above a result that was given up is given up too. -/
theorem tracks_bounded_of_givenUp {e f : Parsed} (hrest : e.rest = .givenUp)
    (hcut : Diagnostic.CutShort m e.diagnostics f.diagnostics) (hheight : m < n + f.height) :
    (p.bounded e).Tracks m n f := by
  obtain ⟨hrest', hdiagnostics⟩ := bounded_of_givenUp (p := p) hrest
  exact .gaveUp hrest' (hdiagnostics ▸ hcut) hheight

/-- Joining a right operand to a left one that is within the limit. -/
theorem tracks_join (hlimit : p.limit = some m) (left : Parsed) (operator : Token)
    {e f : Parsed} (h : e.Tracks m n f) :
    (p.join left operator e).Tracks m n (p.unlimited.join left operator f) := by
  rw [join, join, bounded_of_limit_none (p := p.unlimited) rfl]
  cases h with
  | agree hlive => exact tracks_bounded hlimit hlive
  | gaveUp hrest hcut hheight =>
      exact tracks_bounded_of_givenUp hrest (hcut.append_left left.diagnostics)
        (by simp only; omega)

/-- Closing a group around an expression that was read with one more group open. -/
theorem tracks_enclose (hlimit : p.limit = some m) (hmark : p.endOfFile.kind = .endOfFile)
    (opening : Token) {e f : Parsed} (h : e.Tracks m (n + 1) f) :
    (p.enclose opening e).Tracks m n (p.unlimited.enclose opening f) := by
  rw [enclose, enclose, bounded_of_limit_none (p := p.unlimited) rfl]
  cases h with
  | agree hlive => exact tracks_bounded hlimit (isLive_expect.mpr hlive)
  | gaveUp hrest hcut hheight =>
      rw [hrest, expect_givenUp (by simp [hmark])]
      refine tracks_bounded_of_givenUp rfl ?_ (by simp only; omega)
      simp only [List.append_nil]
      exact hcut.append_right _

/-- A group is refused only where its expression would pass the limit. -/
theorem tracks_refused (hlimit : p.limit = some m) {limit : Nat}
    (hrefused : p.exhausted? n = some limit) {r : Remaining} (hlive : r.IsLive)
    (opening : Token) (inner : Parsed) :
    (giveUp limit opening.position [] r).Tracks m n (p.unlimited.enclose opening inner) := by
  obtain ⟨hlimit', hle⟩ := exhausted?_eq_some_iff.mp hrefused
  obtain rfl : m = limit := Option.some.inj (hlimit.symm.trans hlimit')
  have hheight : (p.unlimited.enclose opening inner).height = inner.height + 1 := by
    rw [enclose, bounded_of_limit_none (p := p.unlimited) rfl]
  refine .gaveUp rfl ?_ (by omega)
  simp only [giveUp, hlive.report, List.nil_append]
  exact .singleton m _ _

/-- What the limited parser must do when the unlimited one gives `f` for a call: it tracks `f`
from a live rest, and the rest of a chain does so from every left operand that tracks the one
of the call. -/
def Call.Tracked (p : Parser) (m : Nat) (f : Parsed) : Call → Prop
  | .chain l n r => r.IsLive → (p.chain l n r).Tracks m n f
  | .operand l n r => r.IsLive → (p.operand l n r).Tracks m n f
  | .extend l n left => ∀ e : Parsed, e.Tracks m n left → (p.extend l n e).Tracks m n f
  | .primary n r => r.IsLive → (p.primary n r).Tracks m n f

/-- **Simulation.** Every call under a limit tracks the same call without one. Induction on the
unlimited run; the limited parser follows it until the limit is met. -/
theorem tracked_of_returns (hlimit : p.limit = some m) (hpos : 0 < m)
    (hmark : p.endOfFile.kind = .endOfFile) {c : Call} {f : Parsed}
    (h : p.unlimited.Returns c f) : c.Tracked p m f := by
  induction h with
  | chain _ _ ihfirst ihrest =>
      intro hlive
      rw [chain_eq]
      exact ihrest _ (ihfirst hlive)
  | sumOperand _ ih =>
      intro hlive
      rw [operand_sum]
      exact ih hlive
  | productOperand _ ih =>
      intro hlive
      rw [operand_product]
      exact ih hlive
  | @stop l n left hnone =>
      intro e he
      have hstop : e.rest.takeIf l.has = none := by
        cases he with
        | agree => exact hnone
        | gaveUp hrest => rw [hrest, Remaining.takeIf_givenUp]
      rw [extend_of_takeIf_none hstop]
      exact he
  | @step l n left right f operator ts hoperator _ _ ihright ihrest =>
      intro e he
      cases he with
      | agree =>
          rw [extend_of_takeIf_some hoperator]
          exact ihrest _ (tracks_join hlimit left operator (ihright (by simp)))
      | gaveUp hrest hcut hheight =>
          -- the limited parser stays where it gave up, while the other joins one more operand
          refine ihrest e ?_
          rw [join, bounded_of_limit_none (p := p.unlimited) rfl]
          exact .gaveUp hrest (hcut.append_right right.diagnostics) (by simp only; omega)
  | @numeral n r hnone =>
      intro hlive
      rw [primary_eq, hnone]
      exact .agree (isLive_expect.mpr hlive) hpos
  | refused _ hrefused =>
      rw [exhausted?_of_limit_none (p := p.unlimited) rfl] at hrefused
      exact absurd hrefused (by simp)
  | @group n r opening ts inner hopening _ _ ih =>
      intro hlive
      rw [primary_eq, hopening]
      cases hexhausted : p.exhausted? n with
      | none =>
          dsimp only
          exact tracks_enclose hlimit hmark opening (ih (by simp))
      | some limit =>
          dsimp only
          exact tracks_refused hlimit hexhausted hlive opening inner

/-- A chain under a limit tracks the chain without one. -/
theorem tracks_chain (hlimit : p.limit = some m) (hpos : 0 < m)
    (hmark : p.endOfFile.kind = .endOfFile) (l : Level) (n : Nat) (ts : List Token) :
    (p.chain l n (.tokens ts)).Tracks m n (p.unlimited.chain l n (.tokens ts)) :=
  tracked_of_returns hlimit hpos hmark (p.unlimited.returns_result (.chain l n (.tokens ts)))
    (Remaining.isLive_tokens ts)

end Parser

end Calculator
