import Calculator.Proofs.Layout

/-!
# Reading a Rendered Expression

What is read from the text of an expression. The expression is **legible** when it is a
derivation in which every token is either spelled or a stand-in, and nothing is written behind a
lost closing parenthesis (`Expression.Legible`). The text of a legible expression is read as the
expression itself, with stand-ins in the same places, up to the positions of tokens.

Every expression that is read from a line is legible, whatever is wrong with the line, because
the stand-ins of recovery leave no text behind, and an expression that was given up is replaced
by a stand-in. So rendering is a section of reading on everything that is ever read.

* `Expression.Legible.ofSentence_none` — the text of a legible expression;
* `Reading.legible_root` — every expression that is read is legible;
* `Reading.reread_ofText` — reading, rendering and reading again.
-/

namespace Calculator

/-- An expression is **legible** when it can be told from its text. -/
structure Expression.Legible (e : Expression) : Prop where
  derives : Derives (.chain .sum) e
  /-- Every token with a text is spelled. -/
  spelled : ∀ t ∈ e.tokens, t.isEmpty = false → t.IsSpelled
  /-- Every other token is a stand-in. -/
  standIn : ∀ t ∈ e.tokens, t.isEmpty = true → t.IsStandIn
  /-- Behind a lost closing parenthesis nothing is written. -/
  ended : e.tokens.Pairwise fun t u => t.IsLost → u.isEmpty = true

namespace Expression.Legible

variable {e : Expression}

/-- A token of a legible expression is a stand-in, or else it is spelled. -/
theorem isEmpty_or_isSpelled (h : e.Legible) {t : Token} (ht : t ∈ e.tokens) :
    t.isEmpty = true ∨ t.IsSpelled := by
  cases hempty : t.isEmpty with
  | true => exact .inl rfl
  | false => exact .inr (h.spelled t ht hempty)

/-- All characters of a token are of its kind. -/
theorem ofChar_eq (h : e.Legible) {t : Token} (ht : t ∈ e.tokens) :
    ∀ c ∈ t.text.toList, Token.Kind.ofChar c = t.kind := by
  rcases h.isEmpty_or_isSpelled ht with hempty | hspelled
  · have htext : t.text = "" := String.isEmpty_iff.mp hempty
    simp [htext]
  · exact hspelled.ofChar_eq

/-- In a legible expression digits stand in numerals only. -/
theorem isDigit_eq_false (h : e.Legible) {t : Token} (ht : t ∈ e.tokens)
    (hkind : t.kind ≠ .number) : ∀ c ∈ t.text.toList, c.isDigit = false := by
  intro c hc
  rw [Bool.eq_false_iff]
  intro hdigit
  exact hkind ((h.ofChar_eq ht c hc).symm.trans (Token.Kind.ofChar_eq_number_iff.mpr hdigit))

/-- The sentence in the text of a legible expression. -/
theorem map_unplaced_tokens (h : e.Legible) :
    (Sentence.ofText e.text).tokens.map Token.unplaced = e.unplaced.written := by
  rw [Sentence.map_unplaced_tokens,
    h.derives.spelling_text fun t ht hkind => h.isDigit_eq_false ht hkind,
    Token.flatMap_spelling fun t ht => h.isEmpty_or_isSpelled ht, written_unplaced, written]

/-- Without a limit, the text of a legible expression is read as the expression. -/
theorem ofSentence_none (h : e.Legible) :
    ∃ f ds, Reading.ofSentence none (Sentence.ofText e.text) =
        ⟨f, .endOfFile e.text.utf8ByteSize, ds⟩ ∧
      f.unplaced = e.unplaced ∧ (e.missing = [] → ds = []) := by
  obtain ⟨f, ds, heq, hf, hds⟩ := Reading.ofSentence_none_of_map_unplaced h.derives
    (recovered_unplaced h.standIn h.ended) h.map_unplaced_tokens
  exact ⟨f, ds, by rw [heq, Sentence.endOfFile_ofText], hf, hds⟩

/-- The text of a legible expression within the limit is read as the expression. -/
theorem ofSentence_of_height_le (h : e.Legible) (hheight : e.height ≤ depthLimit) :
    ∃ f ds, Reading.ofSentence (some depthLimit) (Sentence.ofText e.text) =
        ⟨f, .endOfFile e.text.utf8ByteSize, ds⟩ ∧
      Reading.ofSentence none (Sentence.ofText e.text) =
        ⟨f, .endOfFile e.text.utf8ByteSize, ds⟩ ∧
      f.unplaced = e.unplaced ∧ (e.missing = [] → ds = []) := by
  obtain ⟨f, ds, heq, hf, hds⟩ := h.ofSentence_none
  refine ⟨f, ds, ?_, heq, hf, hds⟩
  rw [Reading.ofSentence_of_height_le Reading.depthLimit_pos, heq]
  rw [heq]
  exact height_eq_of_unplaced_eq hf ▸ hheight

/-- There are no bad characters in the text of a legible expression. -/
theorem ofChar_ne_bad (h : e.Legible) {c : Char} (hc : c ∈ e.text.toList) :
    Token.Kind.ofChar c ≠ .bad := by
  rcases mem_text hc with rfl | ⟨t, ht, hc⟩
  · decide
  · rw [h.ofChar_eq ht c hc]
    intro hbad
    have hsignificant := h.derives.significant t ht
    simp [hbad, Token.Kind.isSignificant] at hsignificant

/-- Every defect in the text of a legible expression is a numeral that is out of range, and the
same numeral is found in the expression. -/
theorem exists_of_mem_defects (h : e.Legible) {d : Diagnostic}
    (hd : d ∈ Token.defects (Token.scan e.text)) :
    ∃ t ∈ e.written, t.defect? ≠ none ∧ d.cause = .numberOutOfRange t.text := by
  rcases Token.exists_of_mem_defects_scan hd with ⟨c, hc, hbad⟩ | ⟨u, hu, hdefect, hcause⟩
  · exact absurd hbad (h.ofChar_ne_bad hc)
  · have hmem : u.unplaced ∈ e.written.map Token.unplaced := by
      rw [← written_unplaced, ← h.map_unplaced_tokens]
      exact List.mem_map_of_mem hu
    obtain ⟨t, ht, htu⟩ := List.mem_map.mp hmem
    have htext : t.unplaced.text = u.unplaced.text := congrArg Token.text htu
    refine ⟨t, ht, fun hnone => ?_, htext ▸ hcause⟩
    have hdefects : t.unplaced.defect? = u.unplaced.defect? := congrArg Token.defect? htu
    rw [Token.unplaced, Token.unplaced, Token.defect?_relocate, Token.defect?_relocate, hnone,
      hdefect] at hdefects
    simp at hdefects

/-- When no token of a legible expression has a defect, its text has none. -/
theorem defects_eq_nil (h : e.Legible) (hdefect : ∀ t ∈ e.tokens, t.defect? = none) :
    Token.defects (Token.scan e.text) = [] := by
  rw [List.eq_nil_iff_forall_not_mem]
  intro d hd
  obtain ⟨t, ht, hne, -⟩ := h.exists_of_mem_defects hd
  exact hne (hdefect t (mem_written.mp ht).1)

end Expression.Legible

namespace Reading

/-- Every expression that is read from a line is legible. -/
theorem legible_root (text : String) : (ofText text).root.Legible := by
  have hkeeps := keeps_ofText text
  refine ⟨(derives_root depthLimit_pos _).1, fun t ht hwritten => ?_, hkeeps.standIn, hkeeps.ended⟩
  exact Token.isSpelled_of_mem_tokens (mem_tokens_of_isEmpty_eq_false ht hwritten)

/-- What a line is read as renders as its own text. -/
theorem render_root (text : String) : (ofText text).root.render = (ofText text).root.text := by
  rw [Expression.render_eq, (legible_root text).derives.parenthesize_eq]

/-- The two stand-ins of an open group leave no text, and they are found again. -/
example : (ofText "(1+").root.render = "(1 + " ∧
    (ofText "(1 + ").root.unplaced = (ofText "(1+").root.unplaced := by
  decide +kernel

/-- What can be wrong with the text of a legible expression within the limit: a numeral is out of
range, or a token stands in the place of another. -/
theorem cause_of_mem_diagnostics_text {e : Expression} (h : e.Legible)
    (hheight : e.height ≤ depthLimit) {d : Diagnostic} (hd : d ∈ (ofText e.text).diagnostics) :
    (∃ text, d.cause = .numberOutOfRange text) ∨
      ∃ found expected, d.cause = .unexpectedToken found expected := by
  obtain ⟨f, ds, heq, hnone, -, -⟩ := h.ofSentence_of_height_le hheight
  rw [diagnostics_ofText, heq, ← hnone] at hd
  rcases List.mem_append.mp hd with hd | hd
  · obtain ⟨t, -, -, hcause⟩ := h.exists_of_mem_defects hd
    exact .inl ⟨t.text, hcause⟩
  · exact .inr (cause_of_mem_diagnostics (Sentence.allWritten_ofText e.text) hd)

/-- What the rendering of a reading is read as. -/
def reread (r : Reading) : Reading :=
  ofText r.root.render

/-- **Round trip.** Whatever a line looks like, the rendering of what it is read as is read as
the same expression, with the same kinds, texts and values of tokens. Nothing in it is a bad
character, nothing is too deep and nothing is left over, and a rendering of a valid line is
valid. -/
theorem reread_ofText (text : String) :
    (ofText text).reread.root.unplaced = (ofText text).root.unplaced ∧
    (Node.expression (ofText text).reread.root).outlineText =
      (Node.expression (ofText text).root).outlineText ∧
    (ofText text).reread.root.render = (ofText text).root.render ∧
    (∀ d ∈ (ofText text).reread.diagnostics,
      (∀ m, d.cause ≠ .tooDeep m) ∧ ∀ c, d.cause ≠ .badCharacter c) ∧
    (ofText text).reread.endOfFile = .endOfFile (ofText text).root.render.utf8ByteSize ∧
    ((ofText text).diagnostics = [] → (ofText text).reread.diagnostics = []) := by
  have hlegible := legible_root text
  have hheight := (derives_root depthLimit_pos (Sentence.ofText text)).2
  obtain ⟨f, ds, heq, -, hf, hds⟩ := hlegible.ofSentence_of_height_le hheight
  have hreading : (ofText text).reread =
      ⟨f, .endOfFile (ofText text).root.text.utf8ByteSize,
        Token.defects (Token.scan (ofText text).root.text) ++ ds⟩ := by
    rw [reread, render_root, ofText, ofTextWithin, heq]
  have hroot : (ofText text).reread.root = f := congrArg root hreading
  refine ⟨hroot ▸ hf, hroot ▸ Node.outlineText_eq_of_unplaced_eq hf, ?_, fun d hd => ?_, ?_,
    fun hvalid => ?_⟩
  · rw [reread, render_root, ← reread, hroot, render_root, Expression.text_eq_of_unplaced_eq hf]
  · rw [reread, render_root] at hd
    rcases cause_of_mem_diagnostics_text hlegible hheight hd with ⟨_, h⟩ | ⟨_, _, h⟩ <;> simp [h]
  · rw [hreading, render_root]
  · obtain ⟨-, htokens, -⟩ := root_of_diagnostics_eq_nil hvalid
    have hmissing : (ofText text).root.missing = [] := by
      rw [Expression.missing, htokens, List.filter_eq_nil_iff]
      exact fun t ht => by simp [Sentence.isEmpty_of_mem_tokens ht]
    have hdefect : ∀ t ∈ (ofText text).root.tokens, t.defect? = none := fun t ht =>
      Token.defect?_eq_none_of_mem_tokens (List.append_eq_nil_iff.mp hvalid).1 (htokens ▸ ht)
    rw [hreading, hds hmissing, hlegible.defects_eq_nil hdefect]
    rfl

end Reading

end Calculator
