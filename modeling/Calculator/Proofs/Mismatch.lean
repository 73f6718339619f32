import Calculator.Proofs.Diagnosis
import Calculator.Proofs.Expectation

/-!
# The First Mismatch

A token in the place of another is reported as early as can be. The first such report of a line
is made at a token that no line of the language could have there: what stands before it begins a
word, and with the token it begins none. Where the token is the mark for the end, what stands
before it is no word itself.

The depth limit does not matter: up to the place where it is met, the reports are those without a
limit, and they are made at the first token that the grammar refuses (`Reading.run?_or_failsOn`).

* `Reading.head?_of_find?_isMismatch` — the first mismatch of a line is the first thing that is
  reported about its sentence without a limit;
* `Reading.isViable_before_mismatch` — where it is reported.
-/

namespace Calculator

/-- A token was found in the place of another. -/
def Diagnostic.isMismatch (d : Diagnostic) : Bool :=
  match d.cause with
  | .unexpectedToken _ _ => true
  | .numberOutOfRange _ | .badCharacter _ | .tooDeep _ => false

/-- A single token is no mismatch, whatever its defect. -/
theorem Token.isMismatch_of_mem_defects {ts : List Token} {d : Diagnostic}
    (h : d ∈ defects ts) : d.isMismatch = false := by
  rcases cause_of_mem_defects h with ⟨c, hcause⟩ | ⟨text, hcause⟩ <;>
    simp [Diagnostic.isMismatch, hcause]

/-- The tokens of a line can be told by their positions. -/
theorem Sentence.position_eq_iff {text : String} {i j : Nat} {t u : Token}
    (ht : (ofText text).toList[i]? = some t) (hu : (ofText text).toList[j]? = some u) :
    t.position = u.position ↔ i = j := by
  constructor
  · intro h
    obtain ⟨hi, rfl⟩ := List.getElem?_eq_some_iff.mp ht
    obtain ⟨hj, rfl⟩ := List.getElem?_eq_some_iff.mp hu
    have hlt := List.pairwise_iff_getElem.mp (pairwise_position_ofText text)
    rcases Nat.lt_trichotomy i j with hij | hij | hij
    · exact absurd h (Nat.ne_of_lt (hlt i j hi hj hij))
    · exact hij
    · exact absurd h.symm (Nat.ne_of_lt (hlt j i hj hi hij))
  · rintro rfl
    rw [Option.some.inj (ht.symm.trans hu)]

namespace Reading

/-- Without a limit all that is reported about a sentence is mismatches. -/
theorem find?_isMismatch_none {s : Sentence} (hwritten : Token.AllWritten s.tokens) :
    (ofSentence none s).diagnostics.find? Diagnostic.isMismatch =
      (ofSentence none s).diagnostics.head? := by
  have hall : ∀ d ∈ (ofSentence none s).diagnostics, d.isMismatch = true := by
    intro d hd
    obtain ⟨found, expected, hcause⟩ := cause_of_mem_diagnostics hwritten hd
    simp [Diagnostic.isMismatch, hcause]
  cases hds : (ofSentence none s).diagnostics with
  | nil => rfl
  | cons d ds => exact List.find?_cons_of_pos (hall d (by simp [hds]))

/-- The first mismatch of a line is the first thing that is reported about its sentence without a
limit. -/
theorem head?_of_find?_isMismatch {text : String} {d : Diagnostic}
    (h : (ofText text).diagnostics.find? Diagnostic.isMismatch = some d) :
    (ofSentence none (Sentence.ofText text)).diagnostics.head? = some d := by
  have hdefects : (Token.defects (Token.scan text)).find? Diagnostic.isMismatch = none :=
    List.find?_eq_none.mpr fun e he => by simp [Token.isMismatch_of_mem_defects he]
  rw [diagnostics_ofText, List.find?_append, hdefects, Option.none_or] at h
  rw [← find?_isMismatch_none (Sentence.allWritten_ofText text)]
  by_cases hheight : (ofSentence none (Sentence.ofText text)).root.height ≤ depthLimit
  · rwa [ofSentence_of_height_le depthLimit_pos hheight] at h
  · obtain ⟨⟨before, position, hbefore, heq⟩, -⟩ :=
      cutShort_of_lt_height depthLimit_pos (Nat.lt_of_not_le hheight)
    -- the report of the limit comes last and is no mismatch
    rw [heq, List.find?_append, List.find?_cons_of_neg (by simp [Diagnostic.isMismatch]),
      List.find?_nil, Option.or_none] at h
    exact hbefore.find?_eq_some h

/-- **The earliest mismatch.** Let `c` be the index of the token where the first mismatch of a line
is reported. The tokens before it begin a word of the language. With the token itself they begin
none; and if it is the mark for the end, the tokens before it are no word. -/
theorem isViable_before_mismatch {text : String} {d : Diagnostic}
    (h : (ofText text).diagnostics.find? Diagnostic.isMismatch = some d) :
    ∃ c t, (Sentence.ofText text).toList[c]? = some t ∧
      (∀ i u, (Sentence.ofText text).toList[i]? = some u → (u.position = d.position ↔ i = c)) ∧
      IsViable (((Sentence.ofText text).toList.take c).map Token.kind) ∧
      (t.kind ≠ .endOfFile →
        ¬ IsViable (((Sentence.ofText text).toList.take (c + 1)).map Token.kind)) ∧
      (t.kind = .endOfFile →
        ¬ IsWord (((Sentence.ofText text).toList.take c).map Token.kind)) := by
  have hhead := head?_of_find?_isMismatch h
  rcases run?_or_failsOn (Sentence.ofText text) with
    ⟨hnil, -⟩ | ⟨before, t, after, e, es, x, htokens, hds, hposition, hrun, hnext, hmark⟩
  · simp [hnil] at hhead
  · obtain rfl : e = d := by simpa [hds] using hhead
    have ht : (Sentence.ofText text).toList[before.length]? = some t := by
      simp [htokens]
    have htake : (Sentence.ofText text).toList.take before.length = before := by
      simp [htokens]
    have htake' : (Sentence.ofText text).toList.take (before.length + 1) = before ++ [t] := by
      rw [htokens, List.append_cons, List.take_left' (by simp)]
    refine ⟨before.length, t, ht, fun i u hu => ?_, ?_, fun _ => ?_, fun hkind => ?_⟩
    · rw [hposition]
      exact Sentence.position_eq_iff hu ht
    · rw [htake]
      exact (isViable_iff_run? _).mpr ⟨x, hrun⟩
    · rw [htake', isViable_iff_run?, List.map_append, Expectation.run?_append_of_run? hrun,
        List.map_singleton, Expectation.run?_singleton, hnext]
      simp
    · rw [htake, isWord_iff_run?, hrun]
      exact fun hdone => hmark ⟨hkind, Option.some.inj hdone⟩

/-- An operator that lacks its right operand: the closing parenthesis is the first token that no
line could have in its place. -/
theorem isViable_before_mismatch_incomplete :
    (ofText "@(1+) 2").diagnostics.find? Diagnostic.isMismatch =
        some ⟨.unexpectedToken .groupClose .number, 4⟩ ∧
      IsViable [.groupOpen, .number, .operator .plus] ∧
      ¬ IsViable [.groupOpen, .number, .operator .plus, .groupClose] := by
  have h : (ofText "@(1+) 2").diagnostics.find? Diagnostic.isMismatch =
      some ⟨.unexpectedToken .groupClose .number, 4⟩ := by
    decide +kernel
  have htoken : (Sentence.ofText "@(1+) 2").toList[3]? =
      some ⟨.groupClose, 4, ")", none⟩ := by
    decide +kernel
  have hkinds : (Sentence.ofText "@(1+) 2").toList.map Token.kind =
      [.groupOpen, .number, .operator .plus, .groupClose, .number, .endOfFile] := by
    decide +kernel
  obtain ⟨c, t, ht, hindex, hviable, hnot, -⟩ := isViable_before_mismatch h
  obtain rfl : 3 = c := (hindex 3 _ htoken).mp rfl
  obtain rfl := Option.some.inj (htoken.symm.trans ht)
  rw [List.map_take, hkinds] at hviable hnot
  exact ⟨h, hviable, hnot (by simp)⟩

end Reading

end Calculator
