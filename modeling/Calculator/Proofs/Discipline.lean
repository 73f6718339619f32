import Calculator.Proofs.Agreement

/-!
# The Discipline of the Parser

What may be relied on at every call that the parser makes while it reads a line, whatever the line
is like and however reading goes on: that the cursor stands on a token and only moves forward, that
the call comes to an end, that the counter of the open groups is right again when it does, and that
the height that is returned is that of the expression. This is put together from what is known of
the way of the cursor and from the agreement with the parser without one.

* `TokenStream.kind_eq_endOfFile_iff`, `TokenStream.index_expect_endOfFile` — where the mark for the
  end stands, and when it is taken;
* `TokenStream.IsDisciplined` — what one call keeps;
* `TokenStream.exists_disciplined_run` — all the calls that are made for a line keep it.
-/

namespace Calculator

namespace TokenStream

open Calculator.Parser (State Outcome Routine Moment)

variable {S : TokenStream} {s : State} {c : Routine} {moments : List Moment} {o : Outcome}

/-! ### The mark for the end -/

/-- The mark for the end stands at the last index, and nowhere else. -/
theorem kind_eq_endOfFile_iff {i : Nat} {t : Token} (h : S.tokens[i]? = some t) :
    t.kind = .endOfFile ↔ i = S.last := by
  rw [last_eq]
  rcases Nat.lt_trichotomy i S.inner.length with hlt | rfl | hgt
  · rw [tokens, List.getElem?_append_left hlt] at h
    simp [S.inner_kind t (List.mem_of_getElem? h), Nat.ne_of_lt hlt]
  · rw [tokens, List.getElem?_concat_length, Option.some.injEq] at h
    simp [← h, S.endOfFile_kind]
  · have hlength : S.tokens.length ≤ i := by
      simp only [tokens, List.length_append, List.length_singleton]
      omega
    simp [List.getElem?_eq_none hlength] at h

/-- The mark is taken when it is asked for and the cursor stands on it. -/
theorem index_expect_endOfFile (hs : S.IsProper s) :
    (S.expect .endOfFile s).2.index = if s.index = S.last then S.last + 1 else s.index := by
  have hkind := kind_eq_endOfFile_iff (getElem?_tokens_index hs.index_le)
  rw [expect]
  by_cases hlast : s.index = S.last
  · rw [if_pos (hkind.mpr hlast), if_pos hlast, State.advance, hlast]
  · rw [if_neg (mt hkind.mp hlast), if_neg hlast]
    exact (note_eq _ s).1

/-! ### One call -/

/-- Behind an expression there is no operator. -/
theorem operator?_current_of_runs (h : S.Runs (.chain .sum) s moments o) (hs : S.IsProper s) :
    (S.current o.state).kind.operator? = none := by
  have hagrees : S.Agrees s.diagnostics o (S.parser.chain .sum s.nesting (S.remaining s)) :=
    agreed_of_runs h hs
  have hpast := Parser.operator?_of_chain_sum
    (S.parser.returns_result (.chain .sum s.nesting (S.remaining s)))
  rw [Parser.result, hagrees.rest_eq] at hpast
  rw [← current_remaining (leads_of_runs h hs).follows.proper, Remaining.current]
  cases hhead : (S.remaining o.state).toList.head? with
  | none =>
      rw [Option.getD_none, S.endOfFile_kind]
      rfl
  | some t => exact hpast t hhead

/-- The **discipline** of a call: what it does to the state on its way through the moments. -/
structure IsDisciplined (S : TokenStream) (c : Routine) (s : State) (moments : List Moment)
    (o : Outcome) : Prop where
  /-- The way begins where the routine is called. -/
  head?_eq : moments.head? = some (.call c s)
  /-- The way ends where it returns. -/
  getLast?_eq : moments.getLast?.map Moment.state = some o.state
  /-- The cursor never moves backwards. -/
  forwards : moments.Pairwise fun m m' => m.state.index ≤ m'.state.index
  /-- The cursor stands on a token, which is what is read there: no look is taken back to the
  mark from behind it. -/
  within : ∀ m ∈ moments,
    m.state.index ≤ S.last ∧ S.tokens[m.state.index]? = some (S.current m.state)
  /-- A loop goes round again, and a group is read, only behind a token that was taken. -/
  progress : (∀ l, c ≠ .chain l) → ∀ c' t, .call c' t ∈ moments.tail → s.index < t.index
  /-- As many groups are open on return as were at the call. -/
  nesting_eq : o.state.nesting = s.nesting
  /-- On the way not fewer are open, and not more than may be. -/
  nesting_le : ∀ m ∈ moments, s.nesting ≤ m.state.nesting ∧ m.state.nesting ≤ depthLimit
  /-- Behind a whole expression there is no operator. -/
  operator?_eq : c = .chain .sum → (S.current o.state).kind.operator? = none
  /-- The height that is returned is that of the expression. -/
  height_eq : o.height = o.expression.height
  /-- The expression has a level, and not more than it may have. -/
  height_le : 1 ≤ o.height ∧ o.height ≤ depthLimit

/-- **Every call in a proper state is disciplined.** The way of the cursor, progress and heights are
known of its run; that no operator follows is known of the parser without a cursor. -/
theorem isDisciplined_of_runs (h : S.Runs c s moments o) (hs : S.IsProper s) (hc : c.Counts) :
    S.IsDisciplined c s moments o where
  head?_eq := head?_of_runs h
  getLast?_eq := getLast?_of_runs h
  forwards := (leads_of_runs h hs).forwards
  within := by
    intro m hm
    have hleads := leads_of_runs h hs
    have hindex : m.state.index ≤ S.last :=
      Nat.le_trans (hleads.between m hm).2 hleads.follows.proper.index_le
    exact ⟨hindex, getElem?_tokens_index hindex⟩
  progress := fun hchain _ _ hmem => index_lt_of_call_mem h hs hchain hmem
  nesting_eq := (leads_of_runs h hs).follows.nesting_eq
  nesting_le := (leads_of_runs h hs).nesting
  operator?_eq := by
    rintro rfl
    exact operator?_current_of_runs h hs
  height_eq := (isCounted_of_runs h hc).eq
  height_le := by
    obtain ⟨heq, hle⟩ := isCounted_of_runs h hc
    exact ⟨heq ▸ o.expression.height_pos, hle⟩

/-! ### All the calls -/

/-- **State discipline.** On every stream the parser has one run. Every call in it, that of the
whole expression among them, comes to an end in one way, which is a part of the run, and keeps the
discipline. The mark for the end is the last token and the only mark, and it is taken by nothing but
the request for it behind the whole expression. What is read is what the functions without a cursor
read, and for the stream of a text it is the reading of the text. -/
theorem exists_disciplined_run (S : TokenStream) (defects : List Diagnostic) :
    ∃ moments o, S.RunsOnly (.chain .sum) (.start defects) moments o ∧
      (∀ c s, .call c s ∈ moments → ∃ inner o', S.RunsOnly c s inner o' ∧ inner <:+: moments ∧
        S.IsDisciplined c s inner o') ∧
      (∀ i t, S.tokens[i]? = some t → (t.kind = .endOfFile ↔ i = S.last)) ∧
      (S.expect .endOfFile o.state).2.index =
        (if o.state.index = S.last then S.last + 1 else o.state.index) ∧
      S.Agrees defects o (S.parser.chain .sum 0 (.tokens S.inner)) ∧
      ∀ text, scan text = (S, defects) → S.reading o = Reading.ofText text := by
  have hstart := isProper_start S defects
  obtain ⟨moments, o, hrun⟩ := exists_runs S (.chain .sum) (.start defects) hstart
  refine ⟨moments, o, runsOnly_of_runs hrun, fun c s hmem => ?_, fun i t => kind_eq_endOfFile_iff,
    index_expect_endOfFile (leads_of_runs hrun hstart).follows.proper, agrees_of_runs_start hrun,
    fun text hscan => ?_⟩
  · obtain ⟨hs, hc, inner, o', hinner, hpart⟩ := makesCall_of_mem hrun hstart trivial hmem
    exact ⟨inner, o', runsOnly_of_runs hinner, hpart, isDisciplined_of_runs hinner hs hc⟩
  · obtain ⟨rfl, rfl⟩ := Prod.mk.inj hscan.symm
    exact reading_scan hrun

end TokenStream

end Calculator
