import Calculator.Proofs.Outline
import Calculator.Proofs.Recognition
import Calculator.Proofs.Spelling

/-!
# Layout

Lines that differ in their layout only. What a tree is worth, how it is rendered and how it is
outlined does not depend on where its tokens stand, up to the position that a fault names. And
what a sentence is read as, apart from positions, depends only on its tokens apart from their
positions: it is enough to know which recovered tree has them as its written tokens.

* `Expression.text_relocate`, `Node.expressionLines_relocate`, `Expression.evaluate_relocate` —
  what moving the tokens of a tree changes;
* `Reading.ofSentence_none_of_map_unplaced` — the reading of a sentence with known tokens.
-/

namespace Calculator

variable {g : Nat → Nat}

/-! ### Trees -/

/-- Derivations may be moved. -/
theorem Derives.relocate {c : Category} {e : Expression} (h : Derives c e) :
    Derives c (e.relocate g) := by
  induction h with
  | numeral hkind => exact .numeral hkind
  | group hopening _ hclosing ih => exact .group hopening ih hclosing
  | single _ ih => exact .single ih
  | step _ hoperator _ ihleft ihright => exact .step ihleft hoperator ihright

namespace Expression

theorem relocate_binary (left : Expression) (operator : Token) (right : Expression) :
    (binary left operator right).relocate g =
      binary (left.relocate g) (operator.relocate g) (right.relocate g) := rfl

theorem relocate_grouped (opening : Token) (inner : Expression) (closing : Token) :
    (grouped opening inner closing).relocate g =
      grouped (opening.relocate g) (inner.relocate g) (closing.relocate g) := rfl

/-- Moving twice is moving once. -/
theorem relocate_relocate {f : Nat → Nat} (e : Expression) :
    (e.relocate g).relocate f = e.relocate (f ∘ g) := by
  induction e with
  | number => rfl
  | binary left operator right ihleft ihright =>
      rw [relocate_binary, relocate_binary, relocate_binary, ihleft, ihright,
        Token.relocate_relocate]
  | grouped opening inner closing ih =>
      rw [relocate_grouped, relocate_grouped, relocate_grouped, ih, Token.relocate_relocate,
        Token.relocate_relocate]

/-- Where no token moves, the expression does not change. -/
theorem relocate_eq_self {e : Expression} (h : ∀ t ∈ e.tokens, t.relocate g = t) :
    e.relocate g = e := by
  induction e with
  | number token => exact congrArg number (h token List.mem_cons_self)
  | binary left operator right ihleft ihright =>
      simp only [mem_tokens_binary] at h
      rw [relocate_binary, ihleft fun t ht => h t (.inl ht), h operator (.inr (.inl rfl)),
        ihright fun t ht => h t (.inr (.inr ht))]
  | grouped opening inner closing ih =>
      simp only [mem_tokens_grouped] at h
      rw [relocate_grouped, h opening (.inl rfl), ih fun t ht => h t (.inr (.inl ht)),
        h closing (.inr (.inr rfl))]

/-- Moving tokens leaves the text as it is. -/
theorem text_relocate (e : Expression) : (e.relocate g).text = e.text := by
  induction e with
  | number => rfl
  | binary left operator right ihleft ihright =>
      rw [relocate_binary, text, text, ihleft, ihright, Token.text_relocate]
  | grouped opening inner closing ih =>
      rw [relocate_grouped, text, text, ih, Token.text_relocate, Token.text_relocate]

/-- Trees that are equal apart from positions have the same text. -/
theorem text_eq_of_unplaced_eq {e f : Expression} (h : e.unplaced = f.unplaced) :
    e.text = f.text := by
  rw [← text_relocate (g := fun _ => 0) e, ← text_relocate (g := fun _ => 0) f]
  exact congrArg text h

/-- Expressions that only differ in positions have the same height. -/
theorem height_eq_of_unplaced_eq {e f : Expression} (h : e.unplaced = f.unplaced) :
    e.height = f.height := by
  rw [← height_relocate (g := fun _ => 0) e, ← height_relocate (g := fun _ => 0) f]
  exact congrArg height h

/-- What is written does not depend on positions. -/
theorem written_unplaced (e : Expression) :
    e.unplaced.written = e.written.map Token.unplaced := by
  rw [written, unplaced, tokens_relocate, List.filter_map]
  rfl

/-- What is missing does not depend on positions. -/
theorem missing_unplaced (e : Expression) :
    e.unplaced.missing = e.missing.map Token.unplaced := by
  rw [missing, unplaced, tokens_relocate, List.filter_map]
  rfl

/-- With all positions the same, stand-ins are where the parser puts them. -/
theorem recovered_unplaced {e : Expression}
    (hstandIn : ∀ t ∈ e.tokens, t.isEmpty = true → t.IsStandIn)
    (hended : e.tokens.Pairwise fun t u => t.IsLost → u.isEmpty = true) :
    e.unplaced.Recovered 0 := by
  rw [unplaced]
  refine ⟨?_, ?_⟩ <;> rw [tokens_relocate]
  · refine Token.anchored_of_position_eq ?_ ?_
    · simp only [List.forall_mem_map]
      exact fun _ _ => rfl
    · simp only [List.forall_mem_map]
      intro t ht hempty
      obtain ⟨hkind, heq⟩ := hstandIn t ht hempty
      exact ⟨hkind, congrArg (Token.relocate fun _ => 0) heq⟩
  · exact List.pairwise_map.mpr hended

end Expression

/-- The outline does not show positions. -/
theorem Node.expressionLines_relocate (depth : Nat) (e : Expression) :
    expressionLines depth (e.relocate g) = expressionLines depth e :=
  expressionLines_mapTokens (f := Token.relocate g) (fun _ => rfl) (fun _ => rfl) depth e

/-- Trees that are equal apart from positions have the same outline. -/
theorem Node.outlineText_eq_of_unplaced_eq {e f : Expression} (h : e.unplaced = f.unplaced) :
    (expression e).outlineText = (expression f).outlineText := by
  have hlines : expressionLines 0 e = expressionLines 0 f := by
    rw [← expressionLines_relocate (g := fun _ => 0) 0 e,
      ← expressionLines_relocate (g := fun _ => 0) 0 f]
    exact congrArg (expressionLines 0) h
  simp only [outlineText, outline, hlines]

/-- The fault at another position. -/
def Fault.relocate (g : Nat → Nat) : Fault → Fault
  | divisionByZero position => divisionByZero (g position)
  | missingValue text position => missingValue text (g position)
  | notAnOperator kind => notAnOperator kind

/-- The value of a numeral does not depend on its place, and if it has none, the place is moved with
it. -/
theorem Token.valueOrFault_relocate (t : Token) :
    (t.relocate g).valueOrFault = t.valueOrFault.mapError (Fault.relocate g) := by
  simp only [valueOrFault, value_relocate]
  cases t.value <;> rfl

/-- An operator computes the same anywhere, and its fault is moved with it. -/
theorem Token.combine_relocate (t : Token) (a b : Int32) :
    (t.relocate g).combine a b = (t.combine a b).mapError (Fault.relocate g) := by
  simp only [combine, kind_relocate]
  cases t.kind.operator? with
  | none => rfl
  | some o => cases hcompute : o.compute a b <;> simp only [hcompute] <;> rfl

/-- Moving the tokens of a tree moves the position that its fault names, and changes no value. -/
theorem Expression.evaluate_relocate (e : Expression) :
    (e.relocate g).evaluate = e.evaluate.mapError (Fault.relocate g) := by
  induction e with
  | number t => exact t.valueOrFault_relocate
  | binary left operator right ihleft ihright =>
      rw [relocate_binary, evaluate, evaluate, ihleft, ihright]
      cases left.evaluate with
      | error fault => rfl
      | ok a =>
          cases right.evaluate with
          | error fault => rfl
          | ok b => exact operator.combine_relocate a b
  | grouped opening inner closing ih => exact ih

/-- Trees that are equal apart from positions have the same value, or faults of the same kind. -/
theorem Expression.mapError_evaluate_of_unplaced_eq {e f : Expression}
    (h : e.unplaced = f.unplaced) :
    e.evaluate.mapError (Fault.relocate fun _ => 0) =
      f.evaluate.mapError (Fault.relocate fun _ => 0) := by
  rw [← evaluate_relocate, ← evaluate_relocate]
  exact congrArg evaluate h

/-- Results that are equal apart from positions are the same value, or both divisions by zero,
or neither. -/
theorem Fault.of_mapError_relocate_eq {r s : Except Fault Int32}
    (h : r.mapError (relocate g) = s.mapError (relocate g)) :
    (∀ v, r = .ok v ↔ s = .ok v) ∧
      ((∃ p, r = .error (divisionByZero p)) ↔ ∃ p, s = .error (divisionByZero p)) := by
  cases r with
  | ok a => cases s <;> simp_all [Except.mapError]
  | error fault =>
      cases s with
      | ok b => simp [Except.mapError] at h
      | error fault' => cases fault <;> cases fault' <;> simp_all [Except.mapError, relocate]

/-! ### Readings -/

/-- The reading with everything in it moved. -/
def Reading.relocate (g : Nat → Nat) (r : Reading) : Reading where
  root := r.root.relocate g
  endOfFile := r.endOfFile.relocate g
  diagnostics := r.diagnostics.map (Diagnostic.relocate g)

/-- Reading a sentence commutes with moving its tokens, under every limit. -/
theorem Reading.ofSentence_relocate (limit : Option Nat) {s s' : Sentence}
    (htokens : s'.tokens = s.tokens.map (Token.relocate g))
    (hmark : s'.endOfFile = s.endOfFile.relocate g) :
    ofSentence limit s' = (ofSentence limit s).relocate g := by
  have hparser (limit : Option Nat) : parser limit s' = (parser limit s).relocate g := by
    rw [parser, hmark]
    rfl
  have hparsed : parsed limit s' = (parsed limit s).relocate g := by
    rw [parsed, hparser, htokens]
    exact Parser.chain_relocate .sum 0 s.tokens
  have hstop : (parser none s').expect .endOfFile ((parsed limit s).relocate g).rest =
      ((parser none s).expect .endOfFile (parsed limit s).rest).relocate g := by
    rw [hparser]
    exact Parser.expect_relocate _ _
  rw [ofSentence_eq, ofSentence_eq, hparsed, ofParsed, hstop, ofParsed, Reading.relocate,
    List.map_append]
  rfl

/-- The failure with all its positions moved. -/
def Failure.relocate (g : Nat → Nat) : Failure → Failure
  | malformed diagnostics => malformed (diagnostics.map (Diagnostic.relocate g))
  | undefined fault => undefined (fault.relocate g)

/-- Moving a reading moves the positions that its failure names, and changes no value. -/
theorem Reading.value_relocate (r : Reading) :
    (r.relocate g).value = r.value.mapError (Failure.relocate g) := by
  have hvalid : (r.relocate g).isValid = r.isValid := List.isEmpty_map
  rw [value, value, hvalid]
  cases r.isValid with
  | false => rfl
  | true =>
      rw [if_pos rfl, if_pos rfl, relocate, Expression.evaluate_relocate]
      cases r.root.evaluate <;> rfl

/-- What a sentence is read as without a limit, when its tokens are, apart from positions, the
written tokens of a recovered derivation. -/
theorem Reading.ofSentence_none_of_map_unplaced {s : Sentence} {e : Expression}
    (h : Derives (.chain .sum) e) (hrecovered : e.unplaced.Recovered 0)
    (htokens : s.tokens.map Token.unplaced = e.unplaced.written) :
    ∃ f ds, ofSentence none s = ⟨f, s.endOfFile, ds⟩ ∧ f.unplaced = e.unplaced ∧
      (e.missing = [] → ds = []) := by
  obtain ⟨ds, hchain, hds⟩ :=
    Parser.chain_written (p := (parser none s).relocate fun _ => 0) rfl s.endOfFile_kind
      h.relocate hrecovered 0
  have hparsed : (parsed none s).relocate (fun _ => 0) =
      ⟨e.unplaced, e.unplaced.height, ds, .tokens []⟩ := by
    refine Eq.trans ?_ hchain
    change _ = Parser.chain _ .sum 0 (.tokens e.unplaced.written)
    rw [← htokens]
    exact (Parser.chain_relocate .sum 0 s.tokens).symm
  have hrest : (parsed none s).rest.toList = [] := by
    have := congrArg (fun r : Parsed => r.rest.toList) hparsed
    simpa [Parsed.relocate, Remaining.toList_relocate] using this
  refine ⟨(parsed none s).expression, (parsed none s).diagnostics, ?_, ?_, fun hmissing => ?_⟩
  · rw [ofSentence_eq, ofParsed_of_toList_eq_nil hrest]
  · exact congrArg Parsed.expression hparsed
  · have hunplaced : e.unplaced.missing = [] := by
      rw [Expression.missing_unplaced, hmissing]
      rfl
    have hnil := hds hunplaced
    have := congrArg Parsed.diagnostics hparsed
    rw [hnil] at this
    exact List.map_eq_nil_iff.mp this

end Calculator
