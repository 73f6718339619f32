import Calculator.Proofs.Calculation
import Calculator.Proofs.Conversation
import Calculator.Proofs.Diagnosis
import Calculator.Proofs.Seam

/-!
# The Answer to a Line

What a session says about a line is what calculating the line gives: its value on the standard
output, or else its error on the standard error. The report of a line is put together in one
place, line by line, and the error of a calculation in another, as one text; both come to the
same text, because there is at least one diagnostic where a line is malformed.

Each diagnostic is one line of this text. A message can only break a line if it quotes a line
break. It quotes bad characters and numerals, and a line break is neither: it is a blank.

* `Output.ofValue` — what is written for the value or the error of a calculation;
* `Reading.report_eq_ofValue` — a report is what is written for the value of the reading;
* `Reading.not_mem_message_of_mem_diagnostics` — no message has a line break;
* `Session.run_answers_calculate` — what a run says about one of its lines.
-/

namespace Calculator

/-! ### Reports -/

/-- What is written for the outcome of a calculation. -/
def Output.ofValue : Except Failure Int32 → Output
  | .ok v => .out (v.toInt.repr ++ "\n")
  | .error failure => .err (failure.message ++ "\n")

/-- Lines with a line break behind each are lines with a line break between them, and one at the
end. -/
theorem join_map_lineBreak {lines : List String} (h : lines ≠ []) :
    String.join (lines.map (· ++ "\n")) = "\n".intercalate lines ++ "\n" := by
  induction lines with
  | nil => exact absurd rfl h
  | cons line lines ih =>
      cases lines with
      | nil => simp [String.join_cons]
      | cons next lines =>
          rw [List.map_cons, String.join_cons, ih (by simp), String.intercalate_cons_cons]
          simp only [String.append_assoc]

/-- **A report** is what is written for the value of the reading, whether it has one or not. -/
theorem Reading.report_eq_ofValue (r : Reading) : r.report = Output.ofValue r.value := by
  rw [report, value]
  split
  · cases r.root.evaluate <;> rfl
  · next hvalid =>
    have hne : r.diagnostics.map Diagnostic.message ≠ [] := by
      simpa [isValid] using hvalid
    have hlines := join_map_lineBreak hne
    rw [List.map_map] at hlines
    exact congrArg Output.err hlines

/-! ### Messages -/

/-- A name of a kind has no line break in it. -/
theorem Token.Kind.not_mem_name (k : Token.Kind) : '\n' ∉ k.name.toList := by
  cases k with
  | operator o => cases o <;> simp [name]
  | _ => simp [name]

/-- A message breaks a line only where it quotes a line break. -/
theorem Diagnostic.Cause.not_mem_message {cause : Diagnostic.Cause}
    (hnumber : ∀ text, cause = .numberOutOfRange text → '\n' ∉ text.toList)
    (hbad : ∀ c, cause = .badCharacter c → c ≠ '\n') : '\n' ∉ cause.message.toList := by
  -- the definition is opened as a whole: Lean takes too long to state its equations one by one
  delta message
  cases cause with
  | numberOutOfRange text =>
      simp only [String.toList_append, List.mem_append, not_or]
      exact ⟨⟨by decide +kernel, hnumber text rfl⟩, by decide +kernel⟩
  | badCharacter c =>
      simp only [String.toList_append, List.mem_append, not_or, String.toList_singleton,
        List.mem_singleton]
      exact ⟨by decide +kernel, (hbad c rfl).symm⟩
  | unexpectedToken found expected =>
      simp only [String.toList_append, List.mem_append, not_or]
      exact ⟨⟨⟨⟨by decide +kernel, found.not_mem_name⟩, by decide +kernel⟩,
        expected.not_mem_name⟩, by decide +kernel⟩
  | tooDeep limit =>
      have hdigits : '\n' ∉ Nat.toDigits 10 limit := fun hmem =>
        absurd (Nat.isDigit_of_mem_toDigits (by decide) (by decide) hmem) (by decide)
      simp only [String.toList_append, List.mem_append, not_or, Nat.toList_repr]
      exact ⟨⟨by decide +kernel, hdigits⟩, by decide +kernel⟩

/-- What is wrong with a single token quotes a bad character, or a run of digits. -/
theorem Token.quotes_of_mem_defects_scan {text : String} {d : Diagnostic}
    (h : d ∈ defects (scan text)) :
    (∃ c, d.cause = .badCharacter c ∧ Kind.ofChar c = .bad) ∨
      ∃ digits, d.cause = .numberOutOfRange digits ∧
        ∀ c ∈ digits.toList, Kind.ofChar c = .number := by
  rw [defects_scan_eq_spread] at h
  obtain ⟨t, ht, hdefect⟩ := List.mem_filterMap.mp h
  obtain ⟨before, lexeme, after, -, hlexeme, rfl⟩ := exists_of_mem_spread_lexemes ht
  cases lexeme with
  | nil => exact absurd rfl hlexeme.1
  | cons c cs =>
      have htext : (ofLexeme (byteSize before) (c :: cs)).text.toList = c :: cs :=
        String.toList_ofList
      rcases cause_of_defect?_eq_some hdefect with ⟨hbad, -⟩ | ⟨hnumber, hcause⟩
      · left
        rw [kind_ofLexeme_cons] at hbad
        rw [defect?, kind_ofLexeme_cons, hbad, htext] at hdefect
        obtain rfl := Option.some.inj hdefect
        exact ⟨c, rfl, hbad⟩
      · right
        rw [kind_ofLexeme_cons] at hnumber
        refine ⟨_, hcause, ?_⟩
        rw [htext, List.forall_mem_cons]
        exact ⟨hnumber, fun e he => (hlexeme.ofChar_eq e he).trans hnumber⟩

namespace Reading

/-- What is reported about a line: what is wrong with a single token, a token in the place of
another, or the limit. -/
theorem cause_of_mem_ofText {text : String} {d : Diagnostic}
    (h : d ∈ (ofText text).diagnostics) :
    d ∈ Token.defects (Token.scan text) ∨
      (∃ found expected, d.cause = .unexpectedToken found expected) ∨
      d.cause = .tooDeep depthLimit := by
  have hnone : ∀ d ∈ (ofTextWithin none text).diagnostics,
      d ∈ Token.defects (Token.scan text) ∨
        ∃ found expected, d.cause = .unexpectedToken found expected := fun d hd =>
    (List.mem_append.mp hd).imp_right (cause_of_mem_diagnostics (Sentence.allWritten_ofText text))
  rcases Nat.lt_or_ge depthLimit (ofTextWithin none text).root.height with hlt | hle
  · obtain ⟨before, position, -, hbefore, heq⟩ := cutShort_ofText hlt
    rw [heq, List.mem_append, List.mem_singleton] at h
    rcases h with h | rfl
    · exact (hnone d (hbefore.subset h)).imp_right .inl
    · exact .inr (.inr rfl)
  · rw [ofText_of_height_le hle] at h
    exact (hnone d h).imp_right .inl

/-- **No message** of a line has a line break in it. -/
theorem not_mem_message_of_mem_diagnostics {text : String} {d : Diagnostic}
    (h : d ∈ (ofText text).diagnostics) : '\n' ∉ d.message.toList := by
  have hblank : Token.Kind.ofChar '\n' = .blank := by decide
  rw [Diagnostic.message]
  rcases cause_of_mem_ofText h with hdefect | ⟨found, expected, hcause⟩ | hcause
  · rcases Token.quotes_of_mem_defects_scan hdefect with
      ⟨c, hcause, hbad⟩ | ⟨digits, hcause, hdigits⟩
    · rw [hcause]
      refine Diagnostic.Cause.not_mem_message (by simp) ?_
      rintro _ ⟨⟩ rfl
      simp [hblank] at hbad
    · rw [hcause]
      refine Diagnostic.Cause.not_mem_message ?_ (by simp)
      rintro _ ⟨⟩ hmem
      exact absurd (hdigits _ hmem) (by simp [hblank])
  · rw [hcause]
    exact Diagnostic.Cause.not_mem_message (by simp) (by simp)
  · rw [hcause]
    exact Diagnostic.Cause.not_mem_message (by simp) (by simp)

end Reading

/-- Messages without line breaks are the lines of the text that is made of them. -/
theorem Diagnostic.splitOn_joinedMessages {ds : List Diagnostic} (hne : ds ≠ [])
    (h : ∀ d ∈ ds, '\n' ∉ d.message.toList) :
    (joinedMessages ds).toList.splitOn '\n' = ds.map fun d => d.message.toList := by
  have hbreak : "\n".toList = ['\n'] := rfl
  rw [joinedMessages, String.toList_intercalate, hbreak, List.map_map]
  refine List.splitOn_intercalate '\n' (fun line hline => ?_) (by simpa using hne)
  obtain ⟨d, hd, rfl⟩ := List.mem_map.mp hline
  exact h d hd

/-- What a malformed line is said to have wrong with it is what is reported about it, and that is
not nothing. -/
theorem eq_diagnostics_of_calculate_eq_malformed {text : String} {ds : List Diagnostic}
    (h : calculate text = .error (.malformed ds)) :
    ds = (Reading.ofText text).diagnostics ∧ ds ≠ [] := by
  by_cases hvalid : (Reading.ofText text).diagnostics = []
  · rw [calculate_of_diagnostics_eq_nil hvalid] at h
    cases hvalue : (Reading.ofText text).root.evaluate <;> simp [hvalue, Except.mapError] at h
  · rw [calculate_of_diagnostics_ne_nil hvalid] at h
    simp only [Except.error.injEq, Failure.malformed.injEq] at h
    exact ⟨h.symm, h ▸ hvalid⟩

/-! ### Answers -/

/-- The characters of a token are characters of the text. -/
theorem Token.toList_text_subset {t : Token} {text : String} (h : t ∈ scan text) :
    t.text.toList ⊆ text.toList := by
  rw [scan_eq, List.mem_append, List.mem_singleton] at h
  rcases h with h | rfl
  · obtain ⟨before, lexeme, after, htext, -, rfl⟩ := exists_of_mem_spread_lexemes h
    intro c hc
    have hc : c ∈ lexeme := by simpa [ofLexeme] using hc
    simp [htext, hc]
  · exact List.nil_subset _

/-- An answer: the outline, and a line for each token, where they are asked for, and then what is
written for the outcome of the calculation. -/
theorem Options.answer_eq (o : Options) (text : String) :
    o.answer text =
      ⟨(if o.showOutline then (Node.expression (Reading.ofText text).root).outlineText else "") ++
          (if o.showTokens then
            String.join ((Token.scan text).map fun t => t.kind.name ++ ": '" ++ t.text ++ "'\n")
            else "") ++
          (Output.ofValue (calculate text)).stdout,
        (Output.ofValue (calculate text)).stderr⟩ := by
  have hout (b : Bool) (shown : String) :
      (if b then Output.out shown else .empty) = ⟨if b then shown else "", ""⟩ := by
    cases b <;> rfl
  rw [answer, outline, tokens, hout, hout, Reading.report_eq_ofValue]
  show Output.append (Output.append _ _) _ = _
  simp only [Output.append, String.append_empty, String.empty_append]
  rfl

end Calculator
