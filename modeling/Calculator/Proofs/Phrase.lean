import Calculator.Proofs.Calculation
import Calculator.Proofs.Layout

/-!
# Phrases

A **phrase** is a text without defects whose tokens are, in their places, the tokens of a
derivation. A line is valid exactly if it is a phrase that is not too high, and a phrase that is
too high has the report of that and no other.

Phrases are put together as derivations are: a phrase may be put in parentheses, and an operator
may be put between two phrases. So the tree of a line that is made of smaller ones is made of
their trees, moved to where they stand, and what the line is worth can be told from theirs.

* `IsPhrase.group`, `IsPhrase.step` — how phrases are put together;
* `Reading.isPhrase_root`, `IsPhrase.ofText_of_height_le`, `IsPhrase.diagnostics_of_lt_height` —
  phrases and lines;
* `IsPhrase.evaluate_cases` — what a phrase can be worth.
-/

namespace Calculator

/-- The text is a **phrase** of a category, with the given derivation. -/
structure IsPhrase (c : Category) (e : Expression) (text : String) : Prop where
  /-- The tree is a derivation. -/
  derives : Derives c e
  /-- Its tokens are those of the text. -/
  tokens_eq : e.tokens = (Sentence.ofText text).tokens
  /-- Nothing is wrong with a single token. -/
  defects_eq_nil : Token.defects (Token.scan text) = []

/-- Parentheses take two bytes. -/
theorem Text.utf8ByteSize_inParentheses (text : String) :
    (inParentheses text).utf8ByteSize = text.utf8ByteSize + 2 := by
  have hopening : "(".utf8ByteSize = 1 := rfl
  have hclosing : ")".utf8ByteSize = 1 := rfl
  rw [inParentheses, String.utf8ByteSize_append, String.utf8ByteSize_append, hopening, hclosing]
  omega

/-! ### Symbols between texts -/

section Symbol

variable {k : Token.Kind} {c : Char}

/-- The characters of operators and parentheses have one byte. -/
theorem Token.Kind.utf8Size_of_symbol? (h : k.symbol? = some c) : c.utf8Size = 1 := by
  cases k with
  | operator o =>
      obtain rfl : o.symbol = c := by simpa [symbol?] using h
      cases o <;> rfl
  | groupOpen | groupClose =>
      obtain rfl := Option.some.inj h
      rfl
  | _ => simp [symbol?] at h

/-- No operator or parenthesis is a digit. -/
theorem Token.Kind.isDigit_of_symbol? (h : k.symbol? = some c) : c.isDigit = false := by
  rw [Bool.eq_false_iff]
  intro hdigit
  have hnumber := ofChar_eq_number_iff.mpr hdigit
  rw [ofChar_of_symbol? h] at hnumber
  simp [hnumber, symbol?] at h

/-- Operators and parentheses are significant. -/
theorem Token.Kind.isSignificant_of_symbol? (h : k.symbol? = some c) : k.isSignificant = true := by
  cases k <;> simp_all [symbol?, isSignificant]

/-- The symbol of a kind is a token of that kind. -/
theorem Token.solid_symbol (h : k.symbol? = some c) : solid [c] = [ofKind k] := by
  have htext : (ofKind k).text.toList = [c] := by simp [ofKind, h]
  have heq : ofKind k = ofLexeme 0 [c] := htext ▸ (isSpelled_ofKind h).unplaced_eq
  have hkind : k ≠ .blank := by
    rintro rfl
    simp [Kind.symbol?] at h
  rw [solid_of_isLexeme (isLexeme_singleton c), ← heq]
  simp [ofKind, hkind]

/-- A symbol separates the texts around it. -/
theorem Token.solid_append_symbol (h : k.symbol? = some c) (a b : List Char) :
    solid (a ++ c :: b) =
      solid a ++ (ofKind k).relocate (byteSize a + ·) ::
        (solid b).map (relocate (byteSize a + 1 + ·)) := by
  have hdigit := Kind.isDigit_of_symbol? h
  have hsize : byteSize [c] = 1 := by simp [byteSize, Kind.utf8Size_of_symbol? h]
  have hbehind : solid (c :: b) = ofKind k :: (solid b).map (relocate (1 + ·)) := by
    rw [← List.singleton_append, solid_append (not_digitsMeet_of_getLast (by simp [hdigit])),
      solid_symbol h, hsize]
    rfl
  rw [solid_append (not_digitsMeet_of_head (by simp [hdigit])), hbehind, List.map_cons,
    List.map_map, relocate_comp]
  simp only [Function.comp_def, Nat.add_assoc]

/-- The tokens of two texts with a symbol between them. -/
theorem Sentence.tokens_ofText_append_symbol (h : k.symbol? = some c) (a b : String) :
    (ofText (a ++ String.singleton c ++ b)).tokens =
      (ofText a).tokens ++ (Token.ofKind k).relocate (a.utf8ByteSize + ·) ::
        (ofText b).tokens.map (Token.relocate (a.utf8ByteSize + 1 + ·)) := by
  have htext : (a ++ String.singleton c ++ b).toList = a.toList ++ c :: b.toList := by simp
  have hsignificant : ((Token.ofKind k).relocate (a.utf8ByteSize + ·)).kind.isSignificant = true :=
    Token.Kind.isSignificant_of_symbol? h
  rw [tokens_ofText_eq_solid, tokens_ofText_eq_solid, tokens_ofText_eq_solid, htext,
    Token.solid_append_symbol h, Token.byteSize_toList, List.filter_append,
    List.filter_cons, if_pos hsignificant, List.filter_map]
  rfl

/-- The defects of two texts with a symbol between them. -/
theorem Token.defects_scan_append_symbol (h : k.symbol? = some c) (a b : String) :
    defects (scan (a ++ String.singleton c ++ b)) =
      defects (scan a) ++
        (defects (scan b)).map (Diagnostic.relocate (a.utf8ByteSize + 1 + ·)) := by
  have htext : (a ++ String.singleton c ++ b).toList = a.toList ++ c :: b.toList := by simp
  have hdefect : ((ofKind k).relocate (a.utf8ByteSize + ·)).defect? = none := by
    cases k <;> simp_all [Kind.symbol?, ofKind, defect?]
  rw [defects_scan_eq, defects_scan_eq, defects_scan_eq, htext, solid_append_symbol h,
    byteSize_toList, ← defects_map_relocate, defects_append, defects_cons, hdefect]
  rfl

end Symbol

/-! ### Putting phrases together -/

namespace IsPhrase

variable {c d : Category} {e f : Expression} {s t : String}

/-- A phrase is one of every category that binds no tighter. -/
theorem weaken (h : IsPhrase c e s) (hle : d.precedence ≤ c.precedence) : IsPhrase d e s :=
  ⟨h.derives.weaken hle, h.tokens_eq, h.defects_eq_nil⟩

/-- A phrase in parentheses. -/
theorem group (h : IsPhrase (.chain .sum) e s) :
    IsPhrase .primary
      (.grouped (.ofKind .groupOpen) (e.relocate (1 + ·))
        ((Token.ofKind .groupClose).relocate (1 + s.utf8ByteSize + ·)))
      (Text.inParentheses s) := by
  have htext : Text.inParentheses s =
      "" ++ String.singleton '(' ++ (s ++ String.singleton ')' ++ "") := by
    simp [Text.inParentheses, ← String.toList_inj]
  have hnil : (Sentence.ofText "").tokens = [] := rfl
  have hopening : (Token.ofKind .groupOpen).relocate (fun p => p) = .ofKind .groupOpen := rfl
  refine ⟨.group rfl h.derives.relocate rfl, ?_, ?_⟩
  · rw [htext, Sentence.tokens_ofText_append_symbol (k := .groupOpen) rfl,
      Sentence.tokens_ofText_append_symbol (k := .groupClose) rfl, ← h.tokens_eq, hnil]
    simp [Expression.tokens, Expression.tokens_relocate, Token.relocate_relocate,
      Function.comp_def, Nat.add_assoc, hopening]
  · rw [htext, Token.defects_scan_append_symbol (k := .groupOpen) rfl,
      Token.defects_scan_append_symbol (k := .groupClose) rfl, h.defects_eq_nil]
    rfl

/-- An operator between two phrases. -/
theorem step {o : Operator} (hs : IsPhrase (.chain o.level) e s)
    (ht : IsPhrase o.level.operands f t) :
    IsPhrase (.chain o.level)
      (.binary e ((Token.ofKind (.operator o)).relocate (s.utf8ByteSize + ·))
        (f.relocate (s.utf8ByteSize + 1 + ·)))
      (s ++ String.singleton o.symbol ++ t) := by
  have hsymbol : (Token.Kind.operator o).symbol? = some o.symbol := rfl
  have hhas : o.level.has (.operator o) := by simp [Level.has, Token.Kind.operator?]
  refine ⟨.step hs.derives hhas ht.derives.relocate, ?_, ?_⟩
  · rw [Sentence.tokens_ofText_append_symbol hsymbol, Expression.tokens,
      Expression.tokens_relocate, hs.tokens_eq, ht.tokens_eq]
  · rw [Token.defects_scan_append_symbol hsymbol, hs.defects_eq_nil, ht.defects_eq_nil]
    rfl

end IsPhrase

/-! ### Phrases and lines -/

/-- A valid line is a phrase. -/
theorem Reading.isPhrase_root {text : String} (h : (ofText text).diagnostics = []) :
    IsPhrase (.chain .sum) (ofText text).root text :=
  ⟨(derives_root depthLimit_pos (Sentence.ofText text)).1, (root_of_diagnostics_eq_nil h).2.1,
    (List.append_eq_nil_iff.mp (diagnostics_ofText text ▸ h)).1⟩

namespace IsPhrase

variable {c : Category} {e : Expression} {text : String}

/-- Without a limit, a phrase is read as its derivation. -/
theorem ofSentence_none (h : IsPhrase (.chain .sum) e text) :
    Reading.ofSentence none (Sentence.ofText text) =
      ⟨e, (Sentence.ofText text).endOfFile, []⟩ :=
  Reading.ofSentence_none_of_tokens_eq h.derives (Sentence.allWritten_ofText text) h.tokens_eq

/-- A phrase that is not too high is a valid line. -/
theorem ofText_of_height_le (h : IsPhrase (.chain .sum) e text) (hheight : e.height ≤ depthLimit) :
    Reading.ofText text = ⟨e, .endOfFile text.utf8ByteSize, []⟩ := by
  have hsentence := h.ofSentence_none
  have hle : (Reading.ofSentence none (Sentence.ofText text)).root.height ≤ depthLimit :=
    hsentence ▸ hheight
  rw [Reading.ofText, Reading.ofTextWithin, h.defects_eq_nil,
    Reading.ofSentence_of_height_le Reading.depthLimit_pos hle, hsentence,
    Sentence.endOfFile_ofText]
  rfl

/-- A phrase that is too high has the report of that and no other. -/
theorem diagnostics_of_lt_height (h : IsPhrase (.chain .sum) e text)
    (hheight : depthLimit < e.height) :
    ∃ position, (Reading.ofText text).diagnostics = [⟨.tooDeep depthLimit, position⟩] := by
  have hsentence := h.ofSentence_none
  have hlt : depthLimit < (Reading.ofSentence none (Sentence.ofText text)).root.height :=
    hsentence ▸ hheight
  obtain ⟨⟨before, position, hbefore, heq⟩, -⟩ :=
    Reading.cutShort_of_lt_height Reading.depthLimit_pos hlt
  rw [hsentence] at hbefore
  obtain rfl := List.prefix_nil.mp hbefore
  refine ⟨position, ?_⟩
  rw [Reading.diagnostics_ofText, h.defects_eq_nil, heq]
  rfl

/-- A phrase is a valid line, or it is only too high. -/
theorem diagnostics_cases (h : IsPhrase (.chain .sum) e text) :
    (Reading.ofText text).diagnostics = [] ∨
      ∃ position, (Reading.ofText text).diagnostics = [⟨.tooDeep depthLimit, position⟩] := by
  rcases Nat.lt_or_ge depthLimit e.height with hlt | hle
  · exact .inr (h.diagnostics_of_lt_height hlt)
  · exact .inl (congrArg Reading.diagnostics (h.ofText_of_height_le hle))

/-- A phrase that is a valid line is worth what its derivation is worth. -/
theorem calculate_eq (h : IsPhrase (.chain .sum) e text)
    (hvalid : (Reading.ofText text).diagnostics = []) :
    calculate text = e.evaluate.mapError .undefined := by
  have hphrase := Reading.isPhrase_root hvalid
  have htokens : (Reading.ofText text).root.tokens = e.tokens :=
    hphrase.tokens_eq.trans h.tokens_eq.symm
  have hroot : (Reading.ofText text).root = e :=
    hphrase.derives.unique h.derives htokens
      (hphrase.tokens_eq ▸ Sentence.allWritten_ofText text)
  rw [calculate_of_diagnostics_eq_nil hvalid, hroot]

/-- A phrase has a value, or one of its division signs divides by zero. -/
theorem evaluate_cases (h : IsPhrase c e text) :
    (∃ v, e.evaluate = .ok v) ∨
      ∃ o ∈ (Sentence.ofText text).tokens, o.kind = .operator .divide ∧
        e.evaluate = .error (.divisionByZero o.position) := by
  rw [← h.tokens_eq]
  refine h.derives.evaluate_cases fun t ht hkind => ?_
  rw [h.tokens_eq] at ht
  exact Token.exists_valueOrFault_of_mem_tokens h.defects_eq_nil ht hkind

end IsPhrase

end Calculator
