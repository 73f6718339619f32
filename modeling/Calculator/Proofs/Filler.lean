import Calculator.Proofs.Munch
import Calculator.Proofs.Order
import Calculator.Proofs.RoundTrip

/-!
# Filler

Characters that are no part of any significant token: blanks and bad characters. A text of such
characters says nothing and has no defects but its bad characters. So it may be put into a line
at every place where it does not separate digits, inside a gap as well: the line is read as
before, with everything behind that place moved, and only the bad characters are reported in
addition. That is so for every line, valid or not, within the limit or beyond it.

* `IsFiller`, `Diagnostic.badCharacters` — a filler, and what is reported about it;
* `Sentence.tokens_insert_filler`, `Token.defects_insert_filler` — what a filler does to the
  tokens and the defects of a line;
* `Reading.ofText_insert_filler` — what it does to the reading of the line.
-/

namespace Calculator

/-- A **filler** is made of characters that are neither digits nor operators nor parentheses. -/
def IsFiller (text : String) : Prop :=
  ∀ c ∈ text.toList, c.isDigit = false ∧ c ∉ ['+', '-', '*', '/', '(', ')']

/-- The reports of the characters of a text that are not blank, each at the byte offset of its
character when the text starts at the given one. -/
def Diagnostic.badCharacters (position : Nat) : List Char → List Diagnostic
  | [] => []
  | c :: cs =>
    if Text.isBlank c then badCharacters (position + c.utf8Size) cs
    else ⟨.badCharacter c, position⟩ :: badCharacters (position + c.utf8Size) cs

/-- What becomes of the byte offsets in a line that starts with the text `a` when the text `w` is
put in behind `a`. -/
def Text.makeRoom (a w : String) (position : Nat) : Nat :=
  if position < a.utf8ByteSize then position else position + w.utf8ByteSize

/-- In front of the filler no place is moved. -/
theorem Text.makeRoom_of_lt {a : String} (w : String) {position : Nat}
    (h : position < a.utf8ByteSize) : makeRoom a w position = position :=
  if_pos h

/-- Behind the filler every place is moved by its size. -/
theorem Text.makeRoom_add (a w : String) (position : Nat) :
    makeRoom a w (a.utf8ByteSize + position) =
      a.utf8ByteSize + (w.utf8ByteSize + position) := by
  rw [makeRoom, if_neg (by omega)]
  omega

/-- Diagnostics whose places stay are not changed. -/
theorem Diagnostic.map_relocate_of_forall {g : Nat → Nat} {ds : List Diagnostic}
    (h : ∀ d ∈ ds, g d.position = d.position) : ds.map (relocate g) = ds := by
  conv_rhs => rw [← List.map_id ds]
  exact List.map_congr_left fun d hd => by rw [relocate, h d hd, id]

/-- Tokens whose places stay are not changed. -/
theorem Token.map_relocate_of_forall {g : Nat → Nat} {ts : List Token}
    (h : ∀ t ∈ ts, g t.position = t.position) : ts.map (relocate g) = ts := by
  conv_rhs => rw [← List.map_id ts]
  exact List.map_congr_left fun t ht => by rw [relocate, h t ht, id]

/-- A bad character is reported in its place, wherever the text starts. -/
theorem Diagnostic.map_relocate_badCharacters (n position : Nat) (text : List Char) :
    (badCharacters position text).map (relocate (n + ·)) = badCharacters (n + position) text := by
  induction text generalizing position with
  | nil => rfl
  | cons c cs ih =>
      rw [badCharacters, badCharacters, Nat.add_assoc]
      split
      · exact ih _
      · rw [List.map_cons, ih]
        rfl

/-- Blanks are not reported. -/
theorem Diagnostic.badCharacters_of_forall_isBlank {text : List Char}
    (h : ∀ c ∈ text, Text.isBlank c = true) (position : Nat) :
    badCharacters position text = [] := by
  induction text generalizing position with
  | nil => rfl
  | cons c cs ih =>
      simp only [List.forall_mem_cons] at h
      rw [badCharacters, if_pos h.1]
      exact ih h.2 _

/-! ### A filler by itself -/

/-- A character that is no part of a significant token is a gap, or it is reported. -/
theorem Token.solid_singleton_of_isFiller {c : Char} (hdigit : c.isDigit = false)
    (hsymbol : c ∉ ['+', '-', '*', '/', '(', ')']) :
    (solid [c]).filter (·.kind.isSignificant) = [] ∧
      defects (solid [c]) = if Text.isBlank c then [] else [⟨.badCharacter c, 0⟩] := by
  rw [solid_of_isLexeme (isLexeme_singleton c)]
  have hkind : (ofLexeme 0 [c]).kind = Kind.ofChar c := rfl
  cases hblank : Text.isBlank c with
  | true =>
      have hofChar := Kind.ofChar_eq_blank_iff.mpr hblank
      simp [hkind, hofChar, defects]
  | false =>
      have hofChar := (Kind.ofChar_eq_bad_iff c).mpr ⟨hdigit, hblank, hsymbol⟩
      simp [hofChar, Kind.isSignificant, defects, defect?, ofLexeme]

/-- A filler says nothing, and its bad characters are all that is wrong with it. Induction on the
text: a character that is no digit may be scanned by itself. -/
theorem Token.solid_of_isFiller {text : List Char}
    (h : ∀ c ∈ text, c.isDigit = false ∧ c ∉ ['+', '-', '*', '/', '(', ')']) :
    (solid text).filter (·.kind.isSignificant) = [] ∧
      defects (solid text) = Diagnostic.badCharacters 0 text := by
  induction text with
  | nil => exact ⟨rfl, rfl⟩
  | cons c cs ih =>
      simp only [List.forall_mem_cons] at h
      obtain ⟨hsignificant, hdefects⟩ := ih h.2
      obtain ⟨hfirst, hfirstDefects⟩ := solid_singleton_of_isFiller h.1.1 h.1.2
      have hseam : ¬ DigitsMeet [c] cs := not_digitsMeet_of_getLast (by simp [h.1.1])
      have hsize : byteSize [c] = c.utf8Size := by simp [byteSize]
      have hsolid : solid (c :: cs) = solid [c] ++ (solid cs).map (relocate (c.utf8Size + ·)) := by
        rw [← hsize, ← solid_append hseam, List.singleton_append]
      rw [hsolid]
      constructor
      · rw [List.filter_append, hfirst, List.filter_map, List.nil_append, List.map_eq_nil_iff]
        exact hsignificant
      · rw [defects_append, hfirstDefects, defects_map_relocate, hdefects,
          Diagnostic.map_relocate_badCharacters, Diagnostic.badCharacters, Nat.add_zero,
          Nat.zero_add]
        split <;> rfl

namespace IsFiller

variable {a b w : String}

/-- In a filler there is no significant token. -/
theorem tokens_ofText (h : IsFiller w) : (Sentence.ofText w).tokens = [] := by
  rw [Sentence.tokens_ofText_eq_solid]
  exact (Token.solid_of_isFiller h).1

/-- What is wrong with a filler are its bad characters. -/
theorem defects_scan (h : IsFiller w) :
    Token.defects (Token.scan w) = Diagnostic.badCharacters 0 w.toList := by
  rw [Token.defects_scan_eq]
  exact (Token.solid_of_isFiller h).2

/-- A filler has no digit, so no numeral goes on through it. -/
theorem not_digitsMeet_left (h : IsFiller w) : ¬ DigitsMeet w.toList b.toList :=
  not_digitsMeet_of_getLast fun c hc => (h c (List.mem_of_mem_getLast? hc)).1

/-- No digits meet at the start of a filler, unless it is empty and they met before. -/
theorem not_digitsMeet_right (h : IsFiller w) (hseam : ¬ DigitsMeet a.toList b.toList) :
    ¬ DigitsMeet a.toList (w ++ b).toList := by
  rw [String.toList_append]
  cases hw : w.toList with
  | nil => exact hseam
  | cons c cs => exact not_digitsMeet_of_head (by simp [(h c (by simp [hw])).1])

end IsFiller

/-! ### A filler in a line -/

variable {a b w : String}

/-- A filler moves the tokens behind it and does nothing else to the sentence. -/
theorem Sentence.tokens_insert_filler (hw : IsFiller w)
    (hseam : ¬ DigitsMeet a.toList b.toList) :
    (ofText (a ++ w ++ b)).tokens =
      (ofText (a ++ b)).tokens.map (Token.relocate (Text.makeRoom a w)) := by
  have hbefore : (ofText a).tokens.map (Token.relocate (Text.makeRoom a w)) =
      (ofText a).tokens :=
    Token.map_relocate_of_forall fun t ht => Text.makeRoom_of_lt w (position_lt_of_mem_tokens ht)
  rw [String.append_assoc, tokens_ofText_append (hw.not_digitsMeet_right hseam),
    tokens_ofText_append hw.not_digitsMeet_left, hw.tokens_ofText, List.nil_append,
    tokens_ofText_append hseam, List.map_append, hbefore, List.map_map, List.map_map]
  refine congrArg _ (List.map_congr_left fun t _ => ?_)
  rw [Function.comp_apply, Function.comp_apply, Token.relocate_relocate, Token.relocate_relocate]
  simp only [Token.relocate, Function.comp_apply, Text.makeRoom_add]

/-- The bad characters of a filler are reported between the defects before it and those behind
it. -/
theorem Token.defects_insert_filler (hw : IsFiller w)
    (hseam : ¬ DigitsMeet a.toList b.toList) :
    ∃ before after, defects (scan (a ++ b)) = before ++ after ∧
      (∀ d ∈ before, d.position < a.utf8ByteSize) ∧
      (∀ d ∈ after, a.utf8ByteSize ≤ d.position) ∧
      defects (scan (a ++ w ++ b)) =
        before.map (Diagnostic.relocate (Text.makeRoom a w)) ++
          Diagnostic.badCharacters a.utf8ByteSize w.toList ++
          after.map (Diagnostic.relocate (Text.makeRoom a w)) := by
  refine ⟨defects (scan a),
    (defects (scan b)).map (Diagnostic.relocate (a.utf8ByteSize + ·)),
    defects_scan_append hseam, fun d hd => position_lt_of_mem_defects hd, ?_, ?_⟩
  · simp only [List.forall_mem_map]
    exact fun d _ => Nat.le_add_right _ _
  · have hbefore : (defects (scan a)).map (Diagnostic.relocate (Text.makeRoom a w)) =
        defects (scan a) :=
      Diagnostic.map_relocate_of_forall fun d hd =>
        Text.makeRoom_of_lt w (position_lt_of_mem_defects hd)
    rw [String.append_assoc, defects_scan_append (hw.not_digitsMeet_right hseam),
      defects_scan_append hw.not_digitsMeet_left, hw.defects_scan, hbefore, List.map_append,
      Diagnostic.map_relocate_badCharacters, Nat.add_zero, List.append_assoc, List.map_map,
      List.map_map]
    refine congrArg _ (congrArg _ (List.map_congr_left fun d _ => ?_))
    simp only [Diagnostic.relocate, Function.comp_apply, Text.makeRoom_add]

namespace Reading

/-- Apart from the defects of single tokens, a filler only moves what is behind it. -/
theorem ofSentence_insert_filler (hw : IsFiller w) (hseam : ¬ DigitsMeet a.toList b.toList) :
    ofSentence (some depthLimit) (Sentence.ofText (a ++ w ++ b)) =
      (ofSentence (some depthLimit) (Sentence.ofText (a ++ b))).relocate (Text.makeRoom a w) := by
  refine ofSentence_relocate _ (Sentence.tokens_insert_filler hw hseam) ?_
  rw [Sentence.endOfFile_ofText, Sentence.endOfFile_ofText, String.utf8ByteSize_append,
    String.utf8ByteSize_append, String.utf8ByteSize_append, Token.endOfFile, Token.endOfFile,
    Token.relocate_standIn, Text.makeRoom_add, Nat.add_assoc]

/-- **Filler is irrelevant.** When a filler is put into a line, and does not separate digits, the
line is read as before, with every position behind the filler moved by its length. In addition
its bad characters are reported, in their place among the defects of single tokens. So outline
and rendering stay as they are, and a filler of blanks does not change the value either, nor the
failure apart from its positions. -/
theorem ofText_insert_filler (hw : IsFiller w) (hseam : ¬ DigitsMeet a.toList b.toList) :
    (ofText (a ++ w ++ b)).root =
      (ofText (a ++ b)).root.relocate (Text.makeRoom a w) ∧
    (ofText (a ++ w ++ b)).endOfFile =
      (ofText (a ++ b)).endOfFile.relocate (Text.makeRoom a w) ∧
    (∃ before after reports,
      Token.defects (Token.scan (a ++ b)) = before ++ after ∧
      (∀ d ∈ before, d.position < a.utf8ByteSize) ∧
      (∀ d ∈ after, a.utf8ByteSize ≤ d.position) ∧
      (ofText (a ++ b)).diagnostics = before ++ after ++ reports ∧
      (ofText (a ++ w ++ b)).diagnostics =
        before.map (Diagnostic.relocate (Text.makeRoom a w)) ++
          Diagnostic.badCharacters a.utf8ByteSize w.toList ++
          after.map (Diagnostic.relocate (Text.makeRoom a w)) ++
          reports.map (Diagnostic.relocate (Text.makeRoom a w))) ∧
    (Node.expression (ofText (a ++ w ++ b)).root).outlineText =
      (Node.expression (ofText (a ++ b)).root).outlineText ∧
    (ofText (a ++ w ++ b)).root.render = (ofText (a ++ b)).root.render ∧
    ((∀ c ∈ w.toList, Text.isBlank c = true) →
      calculate (a ++ w ++ b) =
        (calculate (a ++ b)).mapError (Failure.relocate (Text.makeRoom a w))) := by
  have hsentence := ofSentence_insert_filler hw hseam
  have hroot : (ofText (a ++ w ++ b)).root =
      (ofText (a ++ b)).root.relocate (Text.makeRoom a w) :=
    congrArg root hsentence
  have hmark : (ofText (a ++ w ++ b)).endOfFile =
      (ofText (a ++ b)).endOfFile.relocate (Text.makeRoom a w) :=
    congrArg endOfFile hsentence
  obtain ⟨before, after, hdefects, hbefore, hafter, hinserted⟩ :=
    Token.defects_insert_filler hw hseam
  have hdiagnostics : (ofText (a ++ w ++ b)).diagnostics =
      before.map (Diagnostic.relocate (Text.makeRoom a w)) ++
        Diagnostic.badCharacters a.utf8ByteSize w.toList ++
        after.map (Diagnostic.relocate (Text.makeRoom a w)) ++
        (ofSentence (some depthLimit) (Sentence.ofText (a ++ b))).diagnostics.map
          (Diagnostic.relocate (Text.makeRoom a w)) := by
    rw [diagnostics_ofText, hinserted, hsentence]
    rfl
  have hbase : (ofText (a ++ b)).diagnostics = before ++ after ++
      (ofSentence (some depthLimit) (Sentence.ofText (a ++ b))).diagnostics := by
    rw [diagnostics_ofText, hdefects]
  refine ⟨hroot, hmark, ⟨before, after, _, hdefects, hbefore, hafter, hbase, hdiagnostics⟩,
    ?_, ?_, fun hblank => ?_⟩
  · rw [hroot, Node.outlineText, Node.outlineText, Node.outline, Node.outline,
      Node.expressionLines_relocate]
  · rw [render_root, render_root, hroot, Expression.text_relocate]
  · have hreading : ofText (a ++ w ++ b) =
        (ofText (a ++ b)).relocate (Text.makeRoom a w) := by
      rw [Diagnostic.badCharacters_of_forall_isBlank hblank, List.append_nil, ← List.map_append,
        ← List.map_append, ← hbase] at hdiagnostics
      rw [relocate, ← hroot, ← hmark, ← hdiagnostics]
    rw [calculate, hreading, value_relocate, calculate]

/-- Two blanks, one of them of three bytes, inside a gap: the fault is met four bytes further
on. -/
theorem ofText_insert_filler_blanks :
    IsFiller " \u3000" ∧ ¬ DigitsMeet "1 ".toList "/0".toList ∧
      (∀ c ∈ " \u3000".toList, Text.isBlank c = true) ∧
      calculate ("1 " ++ "/0") = .error (.undefined (.divisionByZero 2)) ∧
      calculate ("1 " ++ " \u3000" ++ "/0") = .error (.undefined (.divisionByZero 6)) := by
  have hw : IsFiller " \u3000" := by simp [IsFiller]
  have hseam : ¬ DigitsMeet "1 ".toList "/0".toList := not_digitsMeet_of_getLast (by simp)
  have hblank : ∀ c ∈ " \u3000".toList, Text.isBlank c = true :=
    List.all_eq_true.mp (by decide)
  have hbase : calculate ("1 " ++ "/0") = .error (.undefined (.divisionByZero 2)) := by
    decide +kernel
  obtain ⟨-, -, -, -, -, hvalue⟩ := ofText_insert_filler hw hseam
  refine ⟨hw, hseam, hblank, hbase, ?_⟩
  rw [hvalue hblank, hbase]
  decide

end Reading

end Calculator
