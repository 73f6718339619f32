import Calculator.Proofs.Order

/-!
# What Is Reported

The diagnostics of a line, and what they say about its tree. The depth limit shows in them
exactly where the tree that would be built without it is too high, and shows in nothing else.
Where it does not show, the diagnostics behind those of single tokens are the stand-ins of the
reading, one for one and in the order of the tree: each names the token that begins in the place
of the one that was asked for.

* `Reading.ofText_of_height_le`, `Reading.cutShort_ofText` — a line within the limit, and one
  beyond it;
* `Reading.ofText_eq_or_cutShort` — both together, and when the limit is reported;
* `Sentence.Reports` — the report of a stand-in;
* `Reading.forall₂_reports` — the reports of a line are those of its stand-ins.
-/

namespace Calculator

/-! ### The limit in the diagnostics -/

/-- The defect of a token is a bad character or a numeral that is too large. -/
theorem Token.cause_of_mem_defects {ts : List Token} {d : Diagnostic} (h : d ∈ defects ts) :
    (∃ c, d.cause = .badCharacter c) ∨ ∃ text, d.cause = .numberOutOfRange text := by
  obtain ⟨t, -, hdefect⟩ := List.mem_filterMap.mp h
  rcases cause_of_defect?_eq_some hdefect with ⟨-, hcause⟩ | ⟨-, hcause⟩
  · exact .inl hcause
  · exact .inr ⟨t.text, hcause⟩

/-- The depth limit is no matter of single tokens. -/
theorem Token.cause_ne_tooDeep_of_mem_defects {ts : List Token} {d : Diagnostic}
    (h : d ∈ defects ts) (m : Nat) : d.cause ≠ .tooDeep m := by
  rcases cause_of_mem_defects h with ⟨c, hcause⟩ | ⟨text, hcause⟩ <;> simp [hcause]

namespace Reading

/-- Without a limit none is reported. -/
theorem cause_ne_tooDeep_of_mem_none {text : String} {d : Diagnostic}
    (h : d ∈ (ofTextWithin none text).diagnostics) (m : Nat) : d.cause ≠ .tooDeep m := by
  rcases List.mem_append.mp h with h | h
  · exact Token.cause_ne_tooDeep_of_mem_defects h m
  · obtain ⟨found, expected, hcause⟩ :=
      cause_of_mem_diagnostics (Sentence.allWritten_ofText text) h
    simp [hcause]

/-- A line whose tree is within the limit is read as without one. -/
theorem ofText_of_height_le {text : String}
    (h : (ofTextWithin none text).root.height ≤ depthLimit) :
    ofText text = ofTextWithin none text := by
  have heq := ofSentence_of_height_le depthLimit_pos (s := Sentence.ofText text) h
  rw [ofText, ofTextWithin, ofTextWithin, heq]

/-- The diagnostics of a line whose tree passes the limit are a first part of those without one,
which reaches beyond the defects of single tokens, and the report of the limit. -/
theorem cutShort_ofText {text : String}
    (h : depthLimit < (ofTextWithin none text).root.height) :
    ∃ before position, Token.defects (Token.scan text) <+: before ∧
      before <+: (ofTextWithin none text).diagnostics ∧
      (ofText text).diagnostics = before ++ [⟨.tooDeep depthLimit, position⟩] := by
  obtain ⟨⟨before, position, hbefore, heq⟩, -⟩ :=
    cutShort_of_lt_height depthLimit_pos (s := Sentence.ofText text) h
  refine ⟨Token.defects (Token.scan text) ++ before, position, List.prefix_append _ _,
    (List.prefix_append_right_inj _).mpr hbefore, ?_⟩
  rw [diagnostics_ofText, heq, List.append_assoc]

/-- The limit is reported exactly when the tree would pass it. -/
theorem exists_tooDeep_iff (text : String) :
    (∃ d ∈ (ofText text).diagnostics, ∃ m, d.cause = .tooDeep m) ↔
      depthLimit < (ofTextWithin none text).root.height := by
  constructor
  · rintro ⟨d, hd, m, hcause⟩
    by_contra hle
    rw [ofText_of_height_le (Nat.le_of_not_lt hle)] at hd
    exact cause_ne_tooDeep_of_mem_none hd m hcause
  · intro h
    obtain ⟨before, position, -, -, heq⟩ := cutShort_ofText h
    exact ⟨⟨.tooDeep depthLimit, position⟩, by simp [heq], depthLimit, rfl⟩

/-- **Transparency of the limit.** A line whose tree would be within the limit is read as if
there were none: the same tree, the same mark and the same diagnostics. For every other line the
diagnostics are a first part of what would be reported without a limit, with nothing about single
tokens left out, and one report of the limit behind it. So the limit is reported exactly when the
tree would pass it, by whichever of the two guards it is met. -/
theorem ofText_eq_or_cutShort (text : String) :
    ((ofTextWithin none text).root.height ≤ depthLimit → ofText text = ofTextWithin none text) ∧
    (depthLimit < (ofTextWithin none text).root.height →
      ∃ before position, Token.defects (Token.scan text) <+: before ∧
        before <+: (ofTextWithin none text).diagnostics ∧
        (∀ d ∈ before, ∀ m, d.cause ≠ .tooDeep m) ∧
        (ofText text).diagnostics = before ++ [⟨.tooDeep depthLimit, position⟩]) ∧
    ((∃ d ∈ (ofText text).diagnostics, ∃ m, d.cause = .tooDeep m) ↔
      depthLimit < (ofTextWithin none text).root.height) := by
  refine ⟨ofText_of_height_le, fun h => ?_, exists_tooDeep_iff text⟩
  obtain ⟨before, position, hdefects, hbefore, heq⟩ := cutShort_ofText h
  exact ⟨before, position, hdefects, hbefore,
    fun d hd => cause_ne_tooDeep_of_mem_none (hbefore.subset hd), heq⟩

end Reading

/-! ### The reports of stand-ins -/

/-- The report `d` of a stand-in `t`: the one token of the sentence that begins in its place is of
another kind. -/
def Sentence.Reports (s : Sentence) (t : Token) (d : Diagnostic) : Prop :=
  ∃ u ∈ s.toList, (∀ v ∈ s.toList, v.position = t.position ↔ v = u) ∧ u.kind ≠ t.kind ∧
    d = ⟨.unexpectedToken u.kind t.kind, t.position⟩

/-- No two tokens of a line begin in the same place, so a report says which one was found. -/
theorem Sentence.reports_of_reportedAs {text : String} {t : Token} {d : Diagnostic}
    (h : t.ReportedAs (ofText text).toList d) : (ofText text).Reports t d := by
  obtain ⟨u, hu, hkind, hposition, rfl⟩ := h
  refine ⟨u, hu, fun v hv => ⟨fun heq => ?_, ?_⟩, hkind, rfl⟩
  · exact eq_of_position_eq hv hu (heq.trans hposition.symm)
  · rintro rfl
    exact hposition

namespace Reading

/-- The stand-ins of a reading: those in the tree, and one for the mark behind it, where that is
in front of the end of the line. -/
def standIns (r : Reading) (stop : Nat) : List Token :=
  r.root.missing ++ if r.endOfFile.position < stop then [.endOfFile r.endOfFile.position] else []

/-- Without a limit the diagnostics of a sentence are the reports of its stand-ins. -/
theorem forall₂_reportedAs_none (text : String) :
    List.Forall₂ (Token.ReportedAs (Sentence.ofText text).toList)
      ((ofSentence none (Sentence.ofText text)).standIns text.utf8ByteSize)
      (ofSentence none (Sentence.ofText text)).diagnostics := by
  have hwritten := Sentence.allWritten_ofText text
  have haccounts := accounts_parsed hwritten
  rw [ofSentence_eq]
  cases hrest : (parsed none (Sentence.ofText text)).rest.toList with
  | nil =>
      have hmark : (Sentence.ofText text).endOfFile.position = text.utf8ByteSize := by
        rw [Sentence.endOfFile_ofText]
        rfl
      rw [ofParsed_of_toList_eq_nil hrest, standIns, if_neg (by simp [hmark]), List.append_nil]
      exact haccounts.reported
  | cons t ts =>
      -- the first token that is left is found where the end of the line is asked for
      obtain ⟨ht, heq⟩ := ofParsed_of_rest_eq_cons hwritten hrest
      have hkind := kind_ne_endOfFile_of_mem ht
      have hlt := Sentence.position_lt_of_mem_tokens ht
      rw [heq, standIns, if_pos]
      · refine List.rel_append haccounts.reported (.cons ⟨t, ?_, hkind, rfl, rfl⟩ .nil)
        exact List.mem_append_left _ ht
      · exact hlt

/-- **One report for each stand-in.** Where the limit is not reported, the diagnostics of a line
are those of single tokens and behind them the reports of its stand-ins, one for one and in the
order of the tree. -/
theorem forall₂_reports {text : String}
    (h : ∀ d ∈ (ofText text).diagnostics, ∀ m, d.cause ≠ .tooDeep m) :
    ∃ reports, (ofText text).diagnostics = Token.defects (Token.scan text) ++ reports ∧
      List.Forall₂ (Sentence.ofText text).Reports ((ofText text).standIns text.utf8ByteSize)
        reports := by
  have hheight : (ofTextWithin none text).root.height ≤ depthLimit := by
    by_contra hlt
    obtain ⟨d, hd, m, hcause⟩ := (exists_tooDeep_iff text).mpr (Nat.lt_of_not_le hlt)
    exact h d hd m hcause
  rw [ofText_of_height_le hheight]
  exact ⟨(ofSentence none (Sentence.ofText text)).diagnostics, rfl,
    (forall₂_reportedAs_none text).imp fun _ _ => Sentence.reports_of_reportedAs⟩

/-- A numeral and the end of the line are missing behind a bad character. -/
theorem forall₂_reports_incomplete :
    (∀ d ∈ (ofText "@(1+) 2").diagnostics, ∀ m, d.cause ≠ .tooDeep m) ∧
      ∃ reports, (ofText "@(1+) 2").diagnostics = ⟨.badCharacter '@', 0⟩ :: reports ∧
        List.Forall₂ (Sentence.ofText "@(1+) 2").Reports
          [.standIn .number 4, .endOfFile 6] reports := by
  have hdiagnostics : (ofText "@(1+) 2").diagnostics =
      [⟨.badCharacter '@', 0⟩, ⟨.unexpectedToken .groupClose .number, 4⟩,
        ⟨.unexpectedToken .number .endOfFile, 6⟩] := by
    decide +kernel
  have hdefects : Token.defects (Token.scan "@(1+) 2") = [⟨.badCharacter '@', 0⟩] := by
    decide +kernel
  have hstandIns : (ofText "@(1+) 2").standIns "@(1+) 2".utf8ByteSize =
      [.standIn .number 4, .endOfFile 6] := by
    decide +kernel
  have hlimit : ∀ d ∈ (ofText "@(1+) 2").diagnostics, ∀ m, d.cause ≠ .tooDeep m := by
    simp [hdiagnostics]
  have hreports := forall₂_reports hlimit
  rw [hdefects, hstandIns] at hreports
  exact ⟨hlimit, hreports⟩

end Reading

end Calculator
