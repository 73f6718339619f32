import Calculator.Proofs.Calls
import Calculator.Proofs.Passage

/-!
# The Parser with a Cursor, and the Parser without

The parser exists twice: as functions that take tokens off the front of a list, and as routines
that move a cursor on a state of their own. The second do what the first do. What the functions are
given as the rest is what lies behind the cursor, or nothing if reading was given up; what they
are given as the number of open groups is the counter; and what they report is what the routines
add to the diagnostics.

The functions hand the number of open groups down and never back. The routines have one counter for
all of them, so the agreement rests on the fact that a routine leaves the counter as it was, which
is known from the way of the cursor.

* `TokenStream.parser`, `TokenStream.remaining` — the functions and what they are given to read;
* `TokenStream.takeIf_remaining`, `TokenStream.expect_remaining` — one step of both;
* `TokenStream.Agrees` — a result and an outcome that say the same;
* `TokenStream.agreed_of_runs` — the agreement of all the routines;
* `TokenStream.reading_scan` — a text is taken for the same thing by both.
-/

namespace Calculator

namespace TokenStream

open Calculator.Parser (State Outcome Routine Moment)

variable {S : TokenStream} {s : State}

/-- The parser that takes the tokens of a stream off the front of a list. -/
def parser (S : TokenStream) : Parser :=
  ⟨some depthLimit, S.endOfFile⟩

/-- What a state leaves to be read. -/
def remaining (S : TokenStream) (s : State) : Remaining :=
  if s.abandoned then .givenUp else .tokens (S.inner.drop s.index)

/-! ### Steps -/

/-- Both see the same token in front. -/
theorem current_remaining (hs : S.IsProper s) :
    (S.remaining s).current S.endOfFile = S.current s := by
  rw [current, peek_eq_inner, remaining]
  cases habandoned : s.abandoned with
  | true =>
      have hindex : S.inner.length ≤ s.index := by rw [hs.index_eq habandoned, last_eq]
      rw [List.getElem?_eq_none hindex]
      rfl
  | false => simp [Remaining.current, List.head?_drop]

/-- In front of a token that is no mark, this token and those behind it are left. -/
theorem remaining_eq (hs : S.IsProper s) (h : (S.current s).kind ≠ .endOfFile) :
    s.abandoned = false ∧
      S.remaining s = .tokens (S.current s :: S.inner.drop (s.index + 1)) := by
  have hlt := index_lt_last h
  have hinner : s.index < S.inner.length := S.last_eq ▸ hlt
  have habandoned : s.abandoned = false := by
    by_contra habandoned
    have := hs.index_eq (by simpa using habandoned)
    omega
  refine ⟨habandoned, ?_⟩
  rw [remaining, habandoned, List.drop_eq_getElem_cons hinner, current, peek_eq_inner,
    List.getElem?_eq_getElem hinner]
  rfl

/-- Behind a token that was taken both have the same tokens left. -/
theorem remaining_advance (hs : S.IsProper s) (h : (S.current s).kind ≠ .endOfFile) :
    S.remaining s.advance = .tokens (S.inner.drop (s.index + 1)) := by
  rw [remaining, State.advance, (remaining_eq hs h).1]
  rfl

/-- A token that passes a test is taken, and no test lets the mark pass. -/
theorem takeIf_remaining (hs : S.IsProper s) {test : Token.Kind → Bool}
    (htest : test .endOfFile = false) :
    (S.remaining s).takeIf test =
      if test (S.current s).kind then some (S.current s, S.inner.drop (s.index + 1)) else none := by
  by_cases hkind : (S.current s).kind = .endOfFile
  · rw [hkind, htest, if_neg (by simp), Remaining.takeIf_eq_none_iff]
    intro t ht
    have hcurrent := current_remaining hs
    rw [Remaining.current, Option.mem_def.mp ht, Option.getD_some] at hcurrent
    rw [hcurrent, hkind, htest]
  · rw [(remaining_eq hs hkind).2, Remaining.takeIf_cons]

/-- An opening parenthesis is taken. -/
theorem takeIf_opening (hs : S.IsProper s) (hkind : (S.current s).kind = .groupOpen) :
    (S.remaining s).takeIf (· == .groupOpen) =
      some (S.current s, S.inner.drop (s.index + 1)) := by
  rw [takeIf_remaining hs rfl, if_pos (by simpa using hkind)]

/-- A report leaves what is to be read as it is. -/
theorem remaining_note (d : Diagnostic) (s : State) : S.remaining (s.note d) = S.remaining s := by
  obtain ⟨hindex, -, habandoned⟩ := note_eq d s
  rw [remaining, remaining, hindex, habandoned]

/-- Both report, or neither does: after giving up nothing is reported. -/
theorem diagnostics_note (d : Diagnostic) (s : State) :
    (s.note d).diagnostics = s.diagnostics ++ (S.remaining s).report d := by
  rw [State.note, remaining]
  cases s.abandoned <;> simp

/-- What is asked for at one place is found by both, or missed by both. -/
theorem expect_remaining (hs : S.IsProper s) (kind : Token.Kind) :
    (S.parser.expect kind (S.remaining s)).token = (S.expect kind s).1 ∧
      (S.expect kind s).2.diagnostics =
        s.diagnostics ++ (S.parser.expect kind (S.remaining s)).diagnostics ∧
      (kind ≠ .endOfFile →
        (S.parser.expect kind (S.remaining s)).rest = S.remaining (S.expect kind s).2) := by
  have hcurrent : (S.remaining s).current S.parser.endOfFile = S.current s := current_remaining hs
  by_cases hkind : (S.current s).kind = kind
  · rw [Parser.expect_of_kind (hcurrent ▸ hkind), hcurrent, expect, if_pos hkind]
    refine ⟨rfl, by simp [State.advance], fun hne => ?_⟩
    have hne : (S.current s).kind ≠ .endOfFile := hkind ▸ hne
    rw [remaining_advance hs hne, (remaining_eq hs hne).2]
    rfl
  · rw [Parser.expect_of_kind_ne (hcurrent ▸ hkind), hcurrent, expect, if_neg hkind]
    exact ⟨rfl, diagnostics_note _ s, fun _ => (remaining_note _ s).symm⟩

/-- A result of the parser without a cursor **agrees** with an outcome: the expression, its height
and what is left are the same, and so is what was reported since the diagnostics were `before`. -/
structure Agrees (S : TokenStream) (before : List Diagnostic) (o : Outcome) (e : Parsed) :
    Prop where
  expression_eq : e.expression = o.expression
  height_eq : e.height = o.height
  diagnostics_eq : o.state.diagnostics = before ++ e.diagnostics
  rest_eq : e.rest = S.remaining o.state

variable {before : List Diagnostic} {o : Outcome} {e : Parsed}

/-- Giving up is the same for both: one report, a stand-in, and nothing left. -/
theorem agrees_abandon {position : Nat} {ds : List Diagnostic}
    (hds : s.diagnostics = before ++ ds) :
    S.Agrees before (S.abandon position s)
      (Parser.giveUp depthLimit position ds (S.remaining s)) where
  expression_eq := rfl
  height_eq := rfl
  diagnostics_eq := by
    rw [abandon, Parser.giveUp]
    dsimp only
    rw [diagnostics_note (S := S), hds, List.append_assoc]
  rest_eq := rfl

/-- Both apply the limit to the same height. -/
theorem agrees_bounded (h : S.Agrees before o e) :
    S.Agrees before (S.bounded o.expression o.height o.state) (S.parser.bounded e) := by
  rw [bounded]
  split
  · next hlt =>
    rw [Parser.bounded_of_lt_height (p := S.parser) rfl (h.height_eq ▸ hlt), h.expression_eq,
      h.rest_eq]
    exact agrees_abandon h.diagnostics_eq
  · next hle =>
    rw [Parser.bounded_of_height_le (p := S.parser) rfl (h.height_eq ▸ Nat.le_of_not_lt hle)]
    exact h

/-- Both read the same numeral, or miss it in the same place. -/
theorem agrees_numeral (hs : S.IsProper s) :
    S.Agrees s.diagnostics (S.numeral s) (S.parser.numeral (S.remaining s)) := by
  obtain ⟨htoken, hdiagnostics, hrest⟩ := expect_remaining hs .number
  exact ⟨congrArg Expression.number htoken, rfl, hdiagnostics, hrest (by simp)⟩

/-- Joining keeps the agreement. What the left operand reported is already part of the diagnostics
when the right one is read. -/
theorem agrees_join {left : Parsed} (operator : Token) {right : Outcome} {f : Parsed}
    (hright : S.Agrees (before ++ left.diagnostics) right f) :
    S.Agrees before (S.join left.expression left.height operator right)
      (S.parser.join left operator f) := by
  rw [join, Parser.join]
  refine agrees_bounded (o := ⟨_, _, _⟩) ⟨?_, ?_, ?_, hright.rest_eq⟩
  · dsimp only
    rw [hright.expression_eq]
  · dsimp only
    rw [hright.height_eq]
  · dsimp only
    rw [hright.diagnostics_eq, List.append_assoc]

/-- Closing a group keeps the agreement. The counter goes down before the parenthesis is asked for,
and what is left does not depend on it. -/
theorem agrees_enclose {opening : Token} {inner : Outcome} (hs : S.IsProper inner.state.leave)
    (h : S.Agrees before inner e) :
    S.Agrees before (S.enclose opening inner) (S.parser.enclose opening e) := by
  obtain ⟨htoken, hdiagnostics, hrest⟩ := expect_remaining hs .groupClose
  have hremaining : S.remaining inner.state.leave = e.rest := h.rest_eq.symm
  rw [hremaining] at htoken hdiagnostics hrest
  rw [enclose, Parser.enclose]
  refine agrees_bounded (o := ⟨_, _, _⟩) ⟨?_, ?_, ?_, hrest (by simp)⟩
  · dsimp only
    rw [h.expression_eq, htoken]
  · dsimp only
    rw [h.height_eq]
  · dsimp only
    rw [hdiagnostics, ← List.append_assoc, ← h.diagnostics_eq]
    rfl

/-! ### Runs -/

/-- Which result the outcome of a routine agrees with. A loop goes on from what was read so far, and
it agrees if this does. -/
def Agreed (S : TokenStream) (s : State) (o : Outcome) : Routine → Prop
  | .chain l => S.Agrees s.diagnostics o (S.parser.chain l s.nesting (S.remaining s))
  | .extend l left height => ∀ before e, S.Agrees before ⟨left, height, s⟩ e →
    S.Agrees before o (S.parser.extend l s.nesting e)
  | .primary => S.Agrees s.diagnostics o (S.parser.primary s.nesting (S.remaining s))

/-- Agreement on the operands of a level is agreement on the routine that reads them. -/
theorem agreed_operand {l : Level} (h : S.Agreed s o (.operand l)) :
    S.Agrees s.diagnostics o (S.parser.operand l s.nesting (S.remaining s)) := by
  cases l with
  | sum =>
      rw [Parser.operand_sum]
      exact h
  | product =>
      rw [Parser.operand_product]
      exact h

/-- Without an opening parenthesis both read a numeral. -/
theorem agreed_numeral (hs : S.IsProper s) (hkind : (S.current s).kind ≠ .groupOpen) :
    S.Agreed s (S.numeral s) .primary := by
  have htake : (S.remaining s).takeIf (· == .groupOpen) = none := by
    rw [takeIf_remaining hs rfl, if_neg (by simpa using hkind)]
  rw [Agreed, Parser.primary_eq, htake]
  exact agrees_numeral hs

/-- Both refuse a group when as many are open as may be. -/
theorem agreed_refused (hs : S.IsProper s) (hkind : (S.current s).kind = .groupOpen)
    (hnesting : depthLimit ≤ s.nesting) :
    S.Agreed s (S.abandon (S.current s).position s) .primary := by
  have hlimit : S.parser.exhausted? s.nesting = some depthLimit :=
    Parser.exhausted?_eq_some_iff.mpr ⟨rfl, hnesting⟩
  rw [Agreed, Parser.primary_eq, takeIf_opening hs hkind]
  dsimp only
  rw [hlimit]
  exact agrees_abandon (List.append_nil _).symm

/-- Both read a group as they read the expression in it, with one more group open. -/
theorem agreed_group {inner : Outcome} (hs : S.IsProper s)
    (hkind : (S.current s).kind = .groupOpen) (hnesting : s.nesting < depthLimit)
    (hleave : S.IsProper inner.state.leave)
    (hinner : S.Agreed s.advance.enter inner (.chain .sum)) :
    S.Agreed s (S.enclose (S.current s) inner) .primary := by
  have hne : (S.current s).kind ≠ .endOfFile := by simp [hkind]
  have hlimit : S.parser.exhausted? s.nesting = none :=
    (Parser.exhausted?_eq_none_iff (p := S.parser) rfl).mpr hnesting
  have hagrees : S.Agrees s.diagnostics inner
      (S.parser.chain .sum (s.nesting + 1) (.tokens (S.inner.drop (s.index + 1)))) :=
    remaining_advance hs hne ▸ hinner
  rw [Agreed, Parser.primary_eq, takeIf_opening hs hkind]
  dsimp only
  rw [hlimit]
  exact agrees_enclose hleave hagrees

/-- **Agreement.** The routines on one state do what the functions on what is left do. Induction on
the run; the counter of the open groups is what the functions get as an argument, because a routine
leaves it as it was. -/
theorem agreed_of_runs {c : Routine} {moments : List Moment} (h : S.Runs c s moments o)
    (hs : S.IsProper s) : S.Agreed s o c := by
  induction h with
  | @chain l s _ _ first o hfirst _ ihfirst ihrest =>
      have hfollows := (leads_of_runs hfirst hs).follows
      have hrest := ihrest hfollows.proper _ _ (agreed_operand (ihfirst hs))
      rw [hfollows.nesting_eq] at hrest
      rw [Agreed, Parser.chain_eq]
      exact hrest
  | stop hnone =>
      intro before e he
      rw [Parser.extend_of_takeIf_none]
      · exact he
      · rw [he.rest_eq, takeIf_remaining hs rfl, hnone, if_neg (by simp)]
  | @step l left height s _ _ right joined o hoperator hright hjoined _ ihright ihrest =>
      subst hjoined
      intro before e he
      obtain ⟨hexpression, hheight, hdiagnostics, hrest⟩ := he
      have hkind := ne_endOfFile_of_has hoperator
      have hround := (leads_of_round hs hoperator hright left height).follows
      have hoperand := agreed_operand (ihright (isProper_advance_of_has hs hoperator))
      rw [remaining_advance hs hkind] at hoperand
      have htake : e.rest.takeIf l.has = some (S.current s, S.inner.drop (s.index + 1)) := by
        rw [hrest, takeIf_remaining hs rfl, if_pos hoperator]
      rw [Parser.extend_of_takeIf_some htake]
      obtain rfl : e.expression = left := hexpression
      obtain rfl : e.height = height := hheight
      have hjoined := agrees_join (S.current s)
        (show S.Agrees (before ++ e.diagnostics) right _ from hdiagnostics ▸ hoperand)
      have hextend := ihrest hround.proper before _ hjoined
      rw [hround.nesting_eq] at hextend
      exact hextend
  | numeral hkind => exact agreed_numeral hs hkind
  | refused hkind hnesting ho => exact ho ▸ agreed_refused hs hkind hnesting
  | group hkind hnesting hinner ho ih =>
      have hentered := isProper_entered hs hkind hnesting
      have hleave := (leads_of_runs hinner hentered).leave.follows.proper
      exact ho ▸ agreed_group hs hkind hnesting hleave (ih hentered)

/-! ### Whole lines -/

/-- The routine for a whole expression, called in front of the first token, agrees with the function
for a whole expression. -/
theorem agrees_of_runs_start {defects : List Diagnostic} {moments : List Moment}
    (h : S.Runs (.chain .sum) (.start defects) moments o) :
    S.Agrees defects o (S.parser.chain .sum 0 (.tokens S.inner)) :=
  agreed_of_runs h (isProper_start S defects)

/-- A sentence is taken for **the same reading**, with what was known before it in front. -/
theorem reading_stream {x : Sentence} {defects : List Diagnostic} {moments : List Moment}
    (h : x.stream.Runs (.chain .sum) (.start defects) moments o) :
    x.stream.reading o =
      { Reading.ofSentence (some depthLimit) x with
        diagnostics := defects ++ (Reading.ofSentence (some depthLimit) x).diagnostics } := by
  obtain ⟨hexpression, -, hdiagnostics, hrest⟩ := agrees_of_runs_start h
  have hproper := (leads_of_runs h (isProper_start _ _)).follows.proper
  obtain ⟨htoken, hstop, -⟩ := expect_remaining hproper .endOfFile
  rw [← hrest] at htoken hstop
  rw [reading, Reading.ofSentence]
  simp only [Reading.mk.injEq]
  refine ⟨hexpression.symm, htoken.symm, ?_⟩
  rw [hstop, hdiagnostics, List.append_assoc]
  rfl

/-- A text is taken for **the same reading**. -/
theorem reading_scan {text : String} {moments : List Moment}
    (h : (scan text).1.Runs (.chain .sum) (.start (scan text).2) moments o) :
    (scan text).1.reading o = Reading.ofText text := by
  have hscan : scan text = ((Sentence.ofText text).stream, Token.defects (Token.scan text)) := by
    rw [scan_eq, ofTokens_eq]
    rfl
  rw [hscan] at h ⊢
  exact reading_stream h

end TokenStream

end Calculator
