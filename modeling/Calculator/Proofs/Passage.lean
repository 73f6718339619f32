import Calculator.Parser.Cursor
import Calculator.Proofs.Gathering

/-!
# The Way of the Cursor

What the routines of the parser do to the state they work on. A state is **proper** if the cursor
stands on a token of the stream, not more groups are open than may be, and the cursor stands on the
mark if reading was given up. Every step leads from a proper state to a proper one: what is taken is
never the mark, which no routine asks for, and giving up moves the cursor forward to it.

A run is put together from such steps. `TokenStream.Leads` says what is kept along a piece of it:
the cursor goes forward, and the counter of the open groups comes back to what it was and stays
between that and the limit. Pieces can be put one behind the other, and the piece that is read in a
group can be taken as a piece outside of it, because the counter goes up in front and down behind.

That the cursor moves on is why a run comes to an end. A routine may call others without taking a
token, but not a loop that goes round or a primary that opens a group; so the number of tokens in
front of the mark, together with the few routines that can stand at one token, goes down.

* `TokenStream.IsProper`, `TokenStream.Follows` — proper states, and one behind another;
* `TokenStream.leads_of_runs` — the way of the cursor;
* `TokenStream.index_lt_of_call_mem` — progress;
* `TokenStream.isCounted_of_runs` — heights;
* `TokenStream.exists_runs`, `TokenStream.runs_unique` — every call has one run;
* `TokenStream.makesCall_of_mem` — what is called in a run has a run that is a part of it.
-/

namespace Calculator

/-- An expression was **counted** right: its height was given as what it is, and it is within the
limit. -/
structure Expression.IsCounted (e : Expression) (height : Nat) : Prop where
  eq : height = e.height
  le : height ≤ depthLimit

namespace Parser.Routine

/-- What a loop is called with was counted right. -/
def Counts : Routine → Prop
  | extend _ left height => left.IsCounted height
  | chain _ | primary => True

/-- The routine for an operand is called with nothing that could be counted wrong. -/
theorem counts_operand (l : Level) : (operand l).Counts := by
  cases l <;> trivial

/-- How far a routine stands above those that it calls without taking a token. -/
def rank : Routine → Nat
  | chain .sum => 3
  | chain .product => 2
  | primary => 1
  | extend _ _ _ => 0

/-- An operand stands below its chain: it may be called without a token being taken. -/
theorem rank_operand_lt (l : Level) : (operand l).rank < (chain l).rank := by
  cases l <;> decide

/-- No operand stands so high that a token would not make up for it. -/
theorem rank_operand_le (l : Level) : (operand l).rank ≤ 2 := by
  cases l <;> decide

end Parser.Routine

namespace TokenStream

open Calculator.Parser (State Outcome Routine Moment)

variable {S : TokenStream} {s t u : State}

/-! ### Proper states -/

/-- A state is **proper**: the cursor stands on a token, not more groups are open than may be, and
if reading was given up, the cursor stands on the mark. -/
structure IsProper (S : TokenStream) (s : State) : Prop where
  index_le : s.index ≤ S.last
  nesting_le : s.nesting ≤ depthLimit
  index_eq : s.abandoned = true → s.index = S.last

/-- The state in front of the first token is proper. -/
theorem isProper_start (S : TokenStream) (defects : List Diagnostic) :
    S.IsProper (.start defects) :=
  ⟨Nat.zero_le _, Nat.zero_le _, by simp [State.start]⟩

/-- Where the cursor stands on a token, a look shows this token. -/
theorem getElem?_tokens_index (h : s.index ≤ S.last) :
    S.tokens[s.index]? = some (S.current s) := by
  have hlt : s.index < S.tokens.length := Nat.lt_of_le_of_lt h S.last_lt_length
  rw [current, peek_eq, List.getElem?_eq_getElem hlt, Option.getD_some]

/-- A token that is no mark stands in front of the mark. -/
theorem index_lt_last (h : (S.current s).kind ≠ .endOfFile) : s.index < S.last := by
  by_contra hlast
  have hnone : S.inner[s.index]? = none := by
    rw [List.getElem?_eq_none_iff, ← S.last_eq]
    exact Nat.not_lt.mp hlast
  rw [current, peek_eq_inner, hnone, Option.getD_none] at h
  exact h S.endOfFile_kind

/-- The state `t` **follows** on `s`: it is proper, the cursor did not go back, and the same groups
are open. -/
structure Follows (S : TokenStream) (s t : State) : Prop where
  proper : S.IsProper t
  index_le : s.index ≤ t.index
  nesting_eq : t.nesting = s.nesting

/-- A state follows on itself. -/
theorem Follows.refl (hs : S.IsProper s) : S.Follows s s :=
  ⟨hs, Nat.le_refl _, rfl⟩

/-- States follow one another. -/
theorem Follows.trans (hst : S.Follows s t) (htu : S.Follows t u) : S.Follows s u :=
  ⟨htu.proper, Nat.le_trans hst.index_le htu.index_le, htu.nesting_eq.trans hst.nesting_eq⟩

/-- A token that is no mark can be taken. Reading was not given up in front of it, because then the
cursor would stand on the mark. -/
theorem follows_advance (hs : S.IsProper s) (h : (S.current s).kind ≠ .endOfFile) :
    S.Follows s s.advance := by
  have hlt := index_lt_last h
  refine ⟨⟨hlt, hs.nesting_le, fun habandoned => ?_⟩, Nat.le_succ _, rfl⟩
  have := hs.index_eq habandoned
  omega

/-- A report moves nothing. -/
theorem note_eq (d : Diagnostic) (s : State) :
    (s.note d).index = s.index ∧ (s.note d).nesting = s.nesting ∧
      (s.note d).abandoned = s.abandoned := by
  rw [State.note]
  split <;> simp

/-- **Asking for a token** leads on: the token is taken, or a report is made and the cursor stays.
The mark for the end is the only token that must not be asked for. -/
theorem follows_expect (hs : S.IsProper s) {kind : Token.Kind} (hkind : kind ≠ .endOfFile) :
    S.Follows s (S.expect kind s).2 := by
  rw [expect]
  split
  · next h => exact follows_advance hs (h ▸ hkind)
  · obtain ⟨hindex, hnesting, habandoned⟩ := note_eq
      ⟨.unexpectedToken (S.current s).kind kind, (S.current s).position⟩ s
    refine ⟨⟨?_, ?_, ?_⟩, ?_, hnesting⟩
    · exact hindex ▸ hs.index_le
    · exact hnesting ▸ hs.nesting_le
    · rw [hindex, habandoned]
      exact hs.index_eq
    · exact Nat.le_of_eq hindex.symm

/-- **Giving up** leads on, because the mark is not in front of the cursor. -/
theorem follows_abandon (hs : S.IsProper s) (position : Nat) :
    S.Follows s (S.abandon position s).state := by
  obtain ⟨-, hnesting, -⟩ := note_eq ⟨.tooDeep depthLimit, position⟩ s
  refine ⟨⟨Nat.le_refl _, ?_, fun _ => rfl⟩, hs.index_le, hnesting⟩
  exact Nat.le_trans (Nat.le_of_eq hnesting) hs.nesting_le

/-- Applying the limit leads on, whether reading is given up there or not. -/
theorem follows_bounded (hs : S.IsProper s) (e : Expression) (height : Nat) :
    S.Follows s (S.bounded e height s).state := by
  rw [bounded]
  split
  · exact follows_abandon hs _
  · exact .refl hs

/-! ### The moments of a run -/

/-- Moments **lead** from the state `s` to the state `t`: the cursor goes from the one to the other
and never back, and on the way no group is closed that was open before, and not more are open than
may be. -/
structure Leads (S : TokenStream) (s : State) (moments : List Moment) (t : State) : Prop where
  follows : S.Follows s t
  between : ∀ m ∈ moments, s.index ≤ m.state.index ∧ m.state.index ≤ t.index
  nesting : ∀ m ∈ moments, s.nesting ≤ m.state.nesting ∧ m.state.nesting ≤ depthLimit
  forwards : moments.Pairwise fun m m' => m.state.index ≤ m'.state.index

namespace Leads

variable {moments moments' : List Moment}

/-- A state that follows can be reached without a moment in between. -/
theorem of_follows (h : S.Follows s t) : S.Leads s [] t :=
  ⟨h, by simp, by simp, .nil⟩

/-- One way behind another. -/
theorem append (hst : S.Leads s moments t) (htu : S.Leads t moments' u) :
    S.Leads s (moments ++ moments') u where
  follows := hst.follows.trans htu.follows
  between := by
    intro m hm
    have hs := hst.follows.index_le
    have ht := htu.follows.index_le
    rcases List.mem_append.mp hm with hm | hm
    · have := hst.between m hm
      omega
    · have := htu.between m hm
      omega
  nesting := by
    intro m hm
    rcases List.mem_append.mp hm with hm | hm
    · exact hst.nesting m hm
    · exact hst.follows.nesting_eq ▸ htu.nesting m hm
  forwards := by
    refine List.pairwise_append.mpr ⟨hst.forwards, htu.forwards, fun m hm m' hm' => ?_⟩
    exact Nat.le_trans (hst.between m hm).2 (htu.between m' hm').1

/-- A moment at the beginning of a way. -/
theorem cons {m : Moment} (hm : m.state = s) (hs : S.IsProper s) (h : S.Leads s moments t) :
    S.Leads s (m :: moments) t := by
  refine append (t := s) ⟨.refl hs, ?_, ?_, List.pairwise_singleton _ _⟩ h
  · simp [hm]
  · simpa [hm] using hs.nesting_le

/-- A step to a state, in which the cursor is seen. -/
theorem pass (h : S.Follows s t) : S.Leads s [.pass t] t :=
  (of_follows h).append ((of_follows (.refl h.proper)).cons rfl h.proper)

/-- A state that follows can be put behind a way. -/
theorem trans_follows (hst : S.Leads s moments t) (htu : S.Follows t u) : S.Leads s moments u := by
  have := hst.append (of_follows htu)
  rwa [List.append_nil] at this

/-- The node that is put together behind a right operand. -/
theorem join {right : Outcome} (h : S.Leads s moments right.state) (left : Expression)
    (height : Nat) (operator : Token) :
    S.Leads s moments (S.join left height operator right).state :=
  h.trans_follows (follows_bounded h.follows.proper _ _)

/-- In a group one more is open, and this one is closed behind it. -/
theorem leave (h : S.Leads s.enter moments t) : S.Leads s moments t.leave where
  follows := by
    obtain ⟨⟨hindex, hnesting, habandoned⟩, hle, heq⟩ := h.follows
    simp only [State.enter] at heq hle
    refine ⟨⟨hindex, ?_, habandoned⟩, hle, ?_⟩
    · simp only [State.leave]
      omega
    · simp only [State.leave]
      omega
  between := h.between
  nesting := by
    intro m hm
    have hm := h.nesting m hm
    simp only [State.enter] at hm
    omega
  forwards := h.forwards

end Leads

/-- An operator is no mark. -/
theorem ne_endOfFile_of_has {l : Level} {k : Token.Kind} (h : l.has k = true) :
    k ≠ .endOfFile := by
  rintro rfl
  simp [Level.has, Token.Kind.operator?] at h

/-- An operator can be taken. -/
theorem isProper_advance_of_has (hs : S.IsProper s) {l : Level}
    (h : l.has (S.current s).kind = true) : S.IsProper s.advance :=
  (follows_advance hs (ne_endOfFile_of_has h)).proper

/-- The state in which a group is read. -/
theorem isProper_entered (hs : S.IsProper s) (hkind : (S.current s).kind = .groupOpen)
    (hnesting : s.nesting < depthLimit) : S.IsProper s.advance.enter := by
  obtain ⟨⟨hindex, -, habandoned⟩, -⟩ := follows_advance hs (by simp [hkind])
  exact ⟨hindex, hnesting, habandoned⟩

/-- **The way of the cursor.** A routine that is called in a proper state leads to a proper state
again, with the same groups open. Induction on the run. -/
theorem leads_of_runs {c : Routine} {moments : List Moment} {o : Outcome}
    (h : S.Runs c s moments o) (hs : S.IsProper s) : S.Leads s moments o.state := by
  induction h with
  | chain _ _ ihfirst ihrest =>
      have hfirst := ihfirst hs
      exact (hfirst.append (ihrest hfirst.follows.proper)).cons rfl hs
  | stop => exact (Leads.of_follows (.refl hs)).cons rfl hs
  | @step l left height s _ _ right _ o hoperator _ hjoined _ ihright ihrest =>
      subst hjoined
      have hadvance := follows_advance hs (ne_endOfFile_of_has hoperator)
      have hround := (ihright hadvance.proper).join left height (S.current s)
      have hrest := hround.append (ihrest hround.follows.proper)
      exact ((Leads.of_follows hadvance).append hrest).cons rfl hs
  | numeral => exact (Leads.pass (follows_expect hs (by simp))).cons rfl hs
  | refused _ _ ho =>
      subst ho
      exact (Leads.pass (follows_abandon hs _)).cons rfl hs
  | @group s moments inner o hkind hnesting _ ho ih =>
      subst ho
      have hadvance : S.Follows s s.advance := follows_advance hs (by simp [hkind])
      have hinner := (ih (isProper_entered hs hkind hnesting)).leave
      have hleave := Leads.pass (.refl hinner.follows.proper)
      have hclosing : S.Follows inner.state.leave (S.expect .groupClose inner.state.leave).2 :=
        follows_expect hleave.follows.proper (by simp)
      have hwhole := Leads.pass (follows_bounded hclosing.proper
        (.grouped (S.current s) inner.expression (S.expect .groupClose inner.state.leave).1)
        (inner.height + 1))
      have hbehind := hleave.append ((Leads.pass hclosing).append hwhole)
      exact ((Leads.pass hadvance).append (hinner.append hbehind)).cons rfl hs

/-- **One round of a loop**: an operator and the operand behind it, up to the state in which the
loop goes on. -/
theorem leads_of_round {l : Level} {moments : List Moment} {right : Outcome} (hs : S.IsProper s)
    (hoperator : l.has (S.current s).kind = true)
    (hright : S.Runs (.operand l) s.advance moments right) (left : Expression) (height : Nat) :
    S.Leads s.advance moments (S.join left height (S.current s) right).state :=
  (leads_of_runs hright (isProper_advance_of_has hs hoperator)).join left height (S.current s)

/-- A run begins with the call. -/
theorem head?_of_runs {c : Routine} {moments : List Moment} {o : Outcome}
    (h : S.Runs c s moments o) : moments.head? = some (.call c s) := by
  cases h <;> rfl

/-- A run ends in the state in which the routine returns. -/
theorem getLast?_of_runs {c : Routine} {moments : List Moment} {o : Outcome}
    (h : S.Runs c s moments o) : moments.getLast?.map Moment.state = some o.state := by
  induction h with
  | chain _ _ _ ihrest | step _ _ _ _ _ ihrest =>
      obtain ⟨m, hm, hstate⟩ := Option.map_eq_some_iff.mp ihrest
      simp [List.getLast?_cons, List.getLast?_append, hm, hstate]
  | stop | numeral | refused => rfl
  | group => simp [List.getLast?_cons, List.getLast?_append, Moment.pass]

/-- **Progress.** What is called on the way by the loop of a chain or by a primary is called behind
the token that these begin with. -/
theorem index_lt_of_call_mem {c : Routine} {moments : List Moment} {o : Outcome}
    (h : S.Runs c s moments o) (hs : S.IsProper s) (hc : ∀ l, c ≠ .chain l) {c' : Routine}
    (hmem : .call c' t ∈ moments.tail) : s.index < t.index := by
  cases h with
  | chain => exact absurd rfl (hc _)
  | stop => simp at hmem
  | @step l left height s moments moments' right joined o hoperator hright hjoined hrest =>
      subst hjoined
      have hround := leads_of_round hs hoperator hright left height
      have hrest := leads_of_runs hrest hround.follows.proper
      rw [List.tail_cons] at hmem
      exact Nat.lt_of_lt_of_le (Nat.lt_succ_self _) ((hround.append hrest).between _ hmem).1
  | numeral | refused => simp at hmem
  | @group s moments inner o hkind hnesting hinner =>
      have hinner := leads_of_runs hinner (isProper_entered hs hkind hnesting)
      have hmem : .call c' t ∈ moments := by simpa using hmem
      exact Nat.lt_of_lt_of_le (Nat.lt_succ_self _) (hinner.between _ hmem).1

/-! ### Heights -/

/-- The stand-in of a line that was given up has one level. -/
theorem isCounted_abandon (S : TokenStream) (position : Nat) (s : State) :
    (S.abandon position s).expression.IsCounted (S.abandon position s).height :=
  ⟨rfl, (by decide : 1 ≤ depthLimit)⟩

/-- What is within the limit keeps its height, and what is not is stood in for. -/
theorem isCounted_bounded {e : Expression} {height : Nat} (h : height = e.height) (s : State) :
    (S.bounded e height s).expression.IsCounted (S.bounded e height s).height := by
  rw [bounded]
  split
  · exact isCounted_abandon S _ s
  · next hle => exact ⟨h, Nat.le_of_not_lt hle⟩

/-- The height of a node is one more than that of its higher operand. -/
theorem isCounted_join {left : Expression} {height : Nat} {right : Outcome} {operator : Token}
    (hleft : left.IsCounted height) (hright : right.expression.IsCounted right.height) :
    (S.join left height operator right).expression.IsCounted
      (S.join left height operator right).height :=
  isCounted_bounded (by rw [Expression.height, hleft.eq, hright.eq]) _

/-- **Heights.** A routine returns an expression with its height, within the limit. Induction on the
run. -/
theorem isCounted_of_runs {c : Routine} {moments : List Moment} {o : Outcome}
    (h : S.Runs c s moments o) (hc : c.Counts) : o.expression.IsCounted o.height := by
  induction h with
  | chain _ _ ihfirst ihrest => exact ihrest (ihfirst (Routine.counts_operand _))
  | stop => exact hc
  | step _ _ hjoined _ ihright ihrest =>
      subst hjoined
      exact ihrest (isCounted_join hc (ihright (Routine.counts_operand _)))
  | numeral => exact ⟨rfl, (by decide : 1 ≤ depthLimit)⟩
  | refused _ _ ho =>
      subst ho
      exact isCounted_abandon S _ _
  | group _ _ _ ho ih =>
      subst ho
      exact isCounted_bounded (by rw [Expression.height, (ih trivial).eq]) _

/-! ### Every call comes to an end -/

/-- **Termination.** A routine that is called in a proper state returns. Each round of a loop and
each group takes a token, and there are only so many in front of the mark. -/
theorem exists_runs (S : TokenStream) (c : Routine) (s : State) (hs : S.IsProper s) :
    ∃ moments o, S.Runs c s moments o := by
  match c with
  | .chain l =>
      have hrank := Routine.rank_operand_lt l
      obtain ⟨moments, first, hfirst⟩ := exists_runs S (.operand l) s hs
      have hfollows := (leads_of_runs hfirst hs).follows
      have hindex := hfollows.index_le
      obtain ⟨moments', o, hrest⟩ :=
        exists_runs S (.extend l first.expression first.height) first.state hfollows.proper
      exact ⟨_, o, .chain hfirst hrest⟩
  | .extend l left height =>
      cases hoperator : l.has (S.current s).kind with
      | false => exact ⟨_, _, .stop hoperator⟩
      | true =>
          have hadvance := isProper_advance_of_has hs hoperator
          have hlt : s.index < S.last := hadvance.index_le
          have hrank := Routine.rank_operand_le l
          obtain ⟨moments, right, hright⟩ := exists_runs S (.operand l) s.advance hadvance
          have hround := (leads_of_round hs hoperator hright left height).follows
          have hindex := hround.index_le
          obtain ⟨moments', o, hrest⟩ := exists_runs S (.extend l
            (S.join left height (S.current s) right).expression
            (S.join left height (S.current s) right).height) _ hround.proper
          exact ⟨_, o, .step hoperator hright rfl hrest⟩
  | .primary =>
      by_cases hkind : (S.current s).kind = .groupOpen
      · rcases Nat.lt_or_ge s.nesting depthLimit with hnesting | hnesting
        · have hentered := isProper_entered hs hkind hnesting
          have hlt : s.index < S.last := hentered.index_le
          obtain ⟨moments, inner, hinner⟩ := exists_runs S (.chain .sum) s.advance.enter hentered
          exact ⟨_, _, .group hkind hnesting hinner rfl⟩
        · exact ⟨_, _, .refused hkind hnesting rfl⟩
      · exact ⟨_, _, .numeral hkind⟩
termination_by 4 * (S.last - s.index) + c.rank
decreasing_by
  all_goals simp only [Routine.rank, State.advance, State.enter] at *
  all_goals omega

/-- **Determinism.** A call has one run. Induction on the run. -/
theorem runs_unique {c : Routine} {moments moments' : List Moment} {o o' : Outcome}
    (h : S.Runs c s moments o) (h' : S.Runs c s moments' o') : moments' = moments ∧ o' = o := by
  induction h generalizing moments' o' with
  | chain _ _ ihfirst ihrest =>
      cases h' with
      | chain hfirst hrest =>
          obtain ⟨rfl, rfl⟩ := ihfirst hfirst
          obtain ⟨rfl, rfl⟩ := ihrest hrest
          exact ⟨rfl, rfl⟩
  | stop hnone =>
      cases h' with
      | stop => exact ⟨rfl, rfl⟩
      | step hoperator => exact absurd (hnone.symm.trans hoperator) (by simp)
  | step hoperator _ hjoined _ ihright ihrest =>
      cases h' with
      | stop hnone => exact absurd (hnone.symm.trans hoperator) (by simp)
      | step _ hright' hjoined' hrest' =>
          obtain ⟨rfl, rfl⟩ := ihright hright'
          obtain rfl := hjoined'.trans hjoined.symm
          obtain ⟨rfl, rfl⟩ := ihrest hrest'
          exact ⟨rfl, rfl⟩
  | numeral hkind =>
      cases h' with
      | numeral => exact ⟨rfl, rfl⟩
      | refused hkind' | group hkind' => exact absurd hkind' hkind
  | refused hkind hnesting ho =>
      cases h' with
      | numeral hkind' => exact absurd hkind hkind'
      | refused _ _ ho' =>
          obtain rfl := ho'.trans ho.symm
          exact ⟨rfl, rfl⟩
      | group _ hnesting' => exact absurd hnesting (Nat.not_le.mpr hnesting')
  | group hkind hnesting _ ho ih =>
      cases h' with
      | numeral hkind' => exact absurd hkind hkind'
      | refused _ hnesting' => exact absurd hnesting' (Nat.not_le.mpr hnesting)
      | group _ _ hinner' ho' =>
          obtain ⟨rfl, rfl⟩ := ih hinner'
          obtain rfl := ho'.trans ho.symm
          exact ⟨rfl, rfl⟩

/-- A call in a state has this run, and no other. -/
def RunsOnly (S : TokenStream) (c : Routine) (s : State) (moments : List Moment) (o : Outcome) :
    Prop :=
  ∀ moments' o', S.Runs c s moments' o' ↔ moments' = moments ∧ o' = o

/-- A run of a call is its only one. -/
theorem runsOnly_of_runs {c : Routine} {moments : List Moment} {o : Outcome}
    (h : S.Runs c s moments o) : S.RunsOnly c s moments o := by
  intro moments' o'
  constructor
  · exact runs_unique h
  · rintro ⟨rfl, rfl⟩
    exact h

/-! ### Calls on the way -/

/-- A call is made on the way through some moments: in a proper state, with what was counted right,
and its run is a part of them. -/
structure MakesCall (S : TokenStream) (moments : List Moment) (c : Routine) (s : State) : Prop where
  proper : S.IsProper s
  counts : c.Counts
  runs : ∃ inner o, S.Runs c s inner o ∧ inner <:+: moments

namespace MakesCall

variable {c c' : Routine} {moments moments' : List Moment} {o : Outcome}

/-- A run makes the call that it is the run of. -/
theorem of_runs (hs : S.IsProper s) (hc : c.Counts) (h : S.Runs c s moments o) :
    S.MakesCall moments c s :=
  ⟨hs, hc, moments, o, h, List.infix_rfl⟩

/-- What is called on a part of the way is called on the way. -/
theorem mono (h : S.MakesCall moments c s) (hsub : moments <:+: moments') :
    S.MakesCall moments' c s := by
  obtain ⟨hs, hc, inner, o, hrun, hinner⟩ := h
  exact ⟨hs, hc, inner, o, hrun, hinner.trans hsub⟩

/-- Among the moments of a run there are the call itself and what is called behind it. -/
theorem of_mem_cons (hs : S.IsProper s) (hc : c.Counts) (h : S.Runs c s (.call c s :: moments) o)
    (hmem : .call c' t ∈ Moment.call c s :: moments)
    (hrest : .call c' t ∈ moments → S.MakesCall moments c' t) :
    S.MakesCall (.call c s :: moments) c' t := by
  rcases List.mem_cons.mp hmem with heq | hmem
  · obtain ⟨rfl, rfl⟩ : c' = c ∧ t = s := by simpa [Moment.call] using heq
    exact of_runs hs hc h
  · exact (hrest hmem).mono (List.suffix_cons _ _).isInfix

/-- Calls on two ways, one behind the other. -/
theorem of_mem_append (hmem : .call c t ∈ moments ++ moments')
    (hleft : .call c t ∈ moments → S.MakesCall moments c t)
    (hright : .call c t ∈ moments' → S.MakesCall moments' c t) :
    S.MakesCall (moments ++ moments') c t := by
  rcases List.mem_append.mp hmem with hmem | hmem
  · exact (hleft hmem).mono (List.prefix_append _ _).isInfix
  · exact (hright hmem).mono (List.suffix_append _ _).isInfix

end MakesCall

/-- **Calls on the way.** Whatever is called in a run is called in a proper state, and what it does
is a part of the run. Induction on the run. -/
theorem makesCall_of_mem {c : Routine} {moments : List Moment} {o : Outcome}
    (h : S.Runs c s moments o) (hs : S.IsProper s) (hc : c.Counts) {c' : Routine}
    (hmem : .call c' t ∈ moments) : S.MakesCall moments c' t := by
  induction h with
  | chain hfirst hrest ihfirst ihrest =>
      have hfollows := (leads_of_runs hfirst hs).follows
      have hcounted := isCounted_of_runs hfirst (Routine.counts_operand _)
      refine .of_mem_cons hs hc (.chain hfirst hrest) hmem fun hmem => .of_mem_append hmem ?_ ?_
      · exact ihfirst hs (Routine.counts_operand _)
      · exact ihrest hfollows.proper hcounted
  | stop hnone => exact .of_mem_cons hs hc (.stop hnone) hmem (by simp)
  | @step l left height s _ _ right joined o hoperator hright hjoined hrest ihright ihrest =>
      subst hjoined
      have hadvance := isProper_advance_of_has hs hoperator
      have hround := (leads_of_round hs hoperator hright left height).follows
      have hcounted : (S.join left height (S.current s) right).expression.IsCounted
          (S.join left height (S.current s) right).height :=
        isCounted_join hc (isCounted_of_runs hright (Routine.counts_operand l))
      refine .of_mem_cons hs hc (.step hoperator hright rfl hrest) hmem fun hmem =>
        .of_mem_append hmem ?_ ?_
      · exact ihright hadvance (Routine.counts_operand l)
      · exact ihrest hround.proper hcounted
  | numeral hkind => exact .of_mem_cons hs hc (.numeral hkind) hmem (by simp)
  | refused hkind hnesting ho =>
      exact .of_mem_cons hs hc (.refused hkind hnesting ho) hmem (by simp)
  | @group s moments inner o hkind hnesting hinner ho ih =>
      refine .of_mem_cons hs hc (.group hkind hnesting hinner ho) hmem fun hmem => ?_
      have hmem : .call c' t ∈ moments := by simpa using hmem
      have hcall := ih (isProper_entered hs hkind hnesting) trivial hmem
      exact hcall.mono ((List.prefix_append _ _).isInfix.trans (List.suffix_cons _ _).isInfix)

end TokenStream

end Calculator
