import Mathlib.Algebra.GroupWithZero.Nat
import Calculator.Proofs.Scanning

/-!
# Maximal Munch

The tokens of a text, described without a scanner. A **segmentation** of a text is a list of
segments — tokens without their values — that lie behind one another without a gap or an
overlap, are spelled as their kinds demand, end in the mark for the end of the text, and are as
long as they can be: no two numerals and no two gaps are neighbours.

Every text has exactly one segmentation, and that is what scanning gives, whether it lays out all
tokens at once or hands them out one at a time.

* `Segment.IsFormed` — how the segments of each kind are spelled;
* `Segment.isFormed_iff` — such a segment is a piece of text that is taken for what it is;
* `IsSegmentation` — the segmentations of a text;
* `isSegmentation_iff_eq_scan` — the tokens of a text are its only segmentation.
-/

namespace Calculator

/-- A token without its value. -/
structure Segment where
  /-- What the token is. -/
  kind : Token.Kind
  /-- The byte offset at which the token starts. -/
  position : Nat
  /-- The token as it is written. -/
  text : String
deriving DecidableEq

/-- What a token is, where it starts and how it is written. -/
def Token.segment (t : Token) : Segment :=
  ⟨t.kind, t.position, t.text⟩

/-- The spelling that a kind demands: numerals and gaps are runs of digits and of blanks, an
operator or a parenthesis is its own character, a bad character is any single other one, and the
mark for the end is not written. -/
def Segment.IsFormed (s : Segment) : Prop :=
  match s.kind with
  | .number => s.text ≠ "" ∧ ∀ c ∈ s.text.toList, c.isDigit
  | .blank => s.text ≠ "" ∧ ∀ c ∈ s.text.toList, Text.isBlank c
  | .operator o => s.text = String.singleton o.symbol
  | .groupOpen => s.text = "("
  | .groupClose => s.text = ")"
  | .bad => ∃ c, s.text = String.singleton c ∧ c.isDigit = false ∧ Text.isBlank c = false ∧
      c ∉ ['+', '-', '*', '/', '(', ')']
  | .endOfFile => s.text = ""

/-- A **segmentation** of a text. -/
structure IsSegmentation (text : String) (segments : List Segment) : Prop where
  /-- The segments, put together, are the text. -/
  text_eq : String.join (segments.map Segment.text) = text
  /-- A segment starts behind the bytes of those before it. -/
  position_eq : ∀ before s after, segments = before ++ s :: after →
    s.position = (before.map fun u => u.text.utf8ByteSize).sum
  /-- The last segment is the mark for the end of the text, and the others are neither marks nor
  empty. -/
  ends : ∃ before, segments = before ++ [⟨.endOfFile, text.utf8ByteSize, ""⟩] ∧
    ∀ s ∈ before, s.kind ≠ .endOfFile ∧ s.text ≠ ""
  /-- Every segment is spelled as its kind demands. -/
  formed : ∀ s ∈ segments, s.IsFormed
  /-- No two numerals and no two gaps are neighbours. -/
  maximal : segments.IsChain fun s u =>
    ¬ (s.kind = .number ∧ u.kind = .number) ∧ ¬ (s.kind = .blank ∧ u.kind = .blank)

/-! ### Spellings -/

/-- A character is read as a kind with only one text exactly when it is that text. -/
theorem Token.Kind.ofChar_eq_iff_of_symbol? {k : Token.Kind} {d : Char} (h : k.symbol? = some d)
    (c : Char) : Token.Kind.ofChar c = k ↔ c = d := by
  constructor
  · rintro rfl
    have hsymbol := Token.symbol?_ofChar (c := c) (by simp [h])
    exact Option.some.inj (hsymbol.symm.trans h)
  · rintro rfl
    exact Token.Kind.ofChar_of_symbol? h

/-- The characters that are operators and parentheses. -/
theorem Token.Kind.mem_of_symbol? {k : Token.Kind} {c : Char} (h : k.symbol? = some c) :
    c ∈ ['+', '-', '*', '/', '(', ')'] := by
  cases k with
  | operator o =>
      obtain rfl : o.symbol = c := Option.some.inj h
      cases o <;> decide
  | groupOpen | groupClose =>
      obtain rfl := Option.some.inj h
      decide
  | bad | blank | number | endOfFile => simp [symbol?] at h

/-- A character is bad when it is no digit, no blank, no operator and no parenthesis. -/
theorem Token.Kind.ofChar_eq_bad_iff (c : Char) :
    Token.Kind.ofChar c = .bad ↔
      c.isDigit = false ∧ Text.isBlank c = false ∧ c ∉ ['+', '-', '*', '/', '(', ')'] := by
  have hdigit := Token.Kind.ofChar_eq_number_iff (c := c)
  have hblank := Token.Kind.ofChar_eq_blank_iff (c := c)
  constructor
  · intro hbad
    simp only [hbad, reduceCtorEq, false_iff, Bool.not_eq_true] at hdigit hblank
    refine ⟨hdigit, hblank, fun hmem => ?_⟩
    simp only [List.mem_cons, List.not_mem_nil, or_false] at hmem
    rcases hmem with rfl | rfl | rfl | rfl | rfl | rfl <;> exact absurd hbad (by decide)
  · rintro ⟨hd, hb, hmem⟩
    rcases Token.ofChar_cases c with hkind | hkind | hkind | hsymbol
    · simp [hdigit.mp hkind] at hd
    · simp [hblank.mp hkind] at hb
    · exact hkind
    · exact absurd (Token.Kind.mem_of_symbol? hsymbol) hmem

/-- A piece of a run kind is any run of characters of that kind. -/
theorem isLexeme_and_forall_iff_of_isRun {k : Token.Kind} (hrun : k.isRun = true)
    {text : List Char} :
    (IsLexeme text ∧ ∀ c ∈ text, Token.Kind.ofChar c = k) ↔
      text ≠ [] ∧ ∀ c ∈ text, Token.Kind.ofChar c = k :=
  ⟨fun ⟨hlexeme, h⟩ => ⟨hlexeme.1, h⟩, fun ⟨hne, h⟩ => ⟨isLexeme_of_forall_ofChar hrun hne h, h⟩⟩

/-- A piece of any other kind is a single character. -/
theorem isLexeme_and_forall_iff_of_not_isRun {k : Token.Kind} (hrun : k.isRun = false)
    {text : List Char} :
    (IsLexeme text ∧ ∀ c ∈ text, Token.Kind.ofChar c = k) ↔
      ∃ c, text = [c] ∧ Token.Kind.ofChar c = k := by
  constructor
  · rintro ⟨hlexeme, h⟩
    cases text with
    | nil => exact absurd rfl hlexeme.1
    | cons c cs =>
        have hc : Token.Kind.ofChar c = k := h c List.mem_cons_self
        rw [hlexeme.eq_nil_of_not_isRun (hc ▸ hrun)]
        exact ⟨c, rfl, hc⟩
  · rintro ⟨c, rfl, hc⟩
    exact ⟨isLexeme_singleton c, by simpa using hc⟩

/-- A segment is spelled as its kind demands when its text is a piece, and each of its characters
is read as that kind. -/
theorem Segment.isFormed_iff {s : Segment} (h : s.kind ≠ .endOfFile) :
    s.IsFormed ↔
      IsLexeme s.text.toList ∧ ∀ c ∈ s.text.toList, Token.Kind.ofChar c = s.kind := by
  have hsymbol : ∀ {k : Token.Kind} {d : Char}, k.symbol? = some d →
      ((∃ c, s.text.toList = [c] ∧ Token.Kind.ofChar c = k) ↔ s.text = String.singleton d) := by
    intro k d hk
    simp [Token.Kind.ofChar_eq_iff_of_symbol? hk, ← String.toList_inj]
  obtain ⟨k, position, text⟩ := s
  rw [Segment.IsFormed]
  cases k with
  | number =>
      rw [isLexeme_and_forall_iff_of_isRun rfl]
      simp [Token.Kind.ofChar_eq_number_iff]
  | blank =>
      rw [isLexeme_and_forall_iff_of_isRun rfl]
      simp [Token.Kind.ofChar_eq_blank_iff]
  | operator o =>
      rw [isLexeme_and_forall_iff_of_not_isRun rfl]
      exact (hsymbol rfl).symm
  | groupOpen =>
      rw [isLexeme_and_forall_iff_of_not_isRun rfl]
      exact (hsymbol (k := .groupOpen) (d := '(') rfl).symm
  | groupClose =>
      rw [isLexeme_and_forall_iff_of_not_isRun rfl]
      exact (hsymbol (k := .groupClose) (d := ')') rfl).symm
  | bad =>
      rw [isLexeme_and_forall_iff_of_not_isRun rfl]
      simp [Token.Kind.ofChar_eq_bad_iff, ← String.toList_inj]
  | endOfFile => exact absurd rfl h

/-- Behind a segment that is spelled as its kind demands there is one token. -/
theorem Segment.IsFormed.eq_segment {s : Segment} (h : s.IsFormed) (hkind : s.kind ≠ .endOfFile) :
    s = (Token.ofLexeme s.position s.text.toList).segment := by
  obtain ⟨hlexeme, hchars⟩ := (Segment.isFormed_iff hkind).mp h
  obtain ⟨k, position, text⟩ := s
  have hofKind : (Token.ofLexeme position text.toList).kind = k := by
    cases htext : text.toList with
    | nil => exact absurd htext hlexeme.1
    | cons c cs => exact hchars c (by simp [htext])
  simp only [Token.segment, hofKind, Segment.mk.injEq, true_and]
  exact ⟨rfl, String.ofList_toList.symm⟩

/-! ### The tokens of a text are a segmentation of it -/

namespace Token

/-- The token of a piece is spelled as its kind demands. -/
theorem isFormed_ofLexeme {lexeme : List Char} (h : IsLexeme lexeme) (position : Nat) :
    (ofLexeme position lexeme).segment.IsFormed := by
  cases lexeme with
  | nil => exact absurd rfl h.1
  | cons c cs =>
      have htext : (ofLexeme position (c :: cs)).segment.text.toList = c :: cs :=
        String.toList_ofList
      refine (Segment.isFormed_iff (ofChar_ne_endOfFile c)).mpr ?_
      rw [htext]
      simp only [List.forall_mem_cons]
      exact ⟨h, rfl, h.ofChar_eq⟩

/-- No text is lost between the pieces. -/
theorem join_text_place (position : Nat) (pieces : List (List Char)) :
    String.join ((place position pieces).map Token.text) = String.ofList pieces.flatten := by
  induction pieces generalizing position with
  | nil => rfl
  | cons lexeme pieces ih =>
      rw [place, List.map_cons, String.join_cons, ih, List.flatten_cons, String.ofList_append]
      rfl

/-- A token lies behind the bytes of the tokens before it. -/
theorem position_of_place_eq {position : Nat} {pieces : List (List Char)}
    {before after : List Token} {t : Token} (h : place position pieces = before ++ t :: after) :
    t.position = position + (before.map fun u => u.text.utf8ByteSize).sum := by
  induction before generalizing position pieces with
  | nil =>
      cases pieces with
      | nil =>
          obtain ⟨rfl, -⟩ := List.cons.inj h
          rfl
      | cons lexeme pieces =>
          obtain ⟨rfl, -⟩ := List.cons.inj h
          rfl
  | cons u before ih =>
      cases pieces with
      | nil => simp [place] at h
      | cons lexeme pieces =>
          obtain ⟨rfl, hrest⟩ := List.cons.inj h
          rw [ih hrest, List.map_cons, List.sum_cons, ← Nat.add_assoc]
          rfl

/-- The kinds of the tokens of a text are those of its pieces, wherever these start. -/
theorem map_kind_spread (position : Nat) (pieces : List (List Char)) :
    (spread position pieces).map Token.kind =
      pieces.map fun lexeme => (ofLexeme 0 lexeme).kind := by
  induction pieces generalizing position with
  | nil => rfl
  | cons lexeme pieces ih =>
      rw [spread, List.map_cons, ih, List.map_cons]
      rfl

/-- Where two pieces meet, no run goes on. -/
theorem isChain_kind_spread (position : Nat) (text : List Char) :
    ((spread position (lexemes text)).map Token.kind).IsChain fun j k =>
      ¬ (j = .number ∧ k = .number) ∧ ¬ (j = .blank ∧ k = .blank) := by
  rw [map_kind_spread, List.isChain_map]
  refine (List.isChain_getLast_head_splitBy joins text).imp_of_mem_imp ?_
  rintro a b ha hb ⟨hane, hbne, hseam⟩
  have hlast := (isLexeme_of_mem ha).kind_eq_of_getLast (List.getLast_mem_getLast? hane) 0
  obtain ⟨d, ds, rfl⟩ := List.exists_cons_of_ne_nil hbne
  have hrun : ∀ k : Kind, k.isRun = true →
      ¬ ((ofLexeme 0 a).kind = k ∧ (ofLexeme 0 (d :: ds)).kind = k) := by
    rintro k hk ⟨hj, hd⟩
    have hjoins : joins (a.getLast hane) d = true :=
      joins_iff.mpr ⟨by rw [← hlast, hj, hk], by rw [← hlast, hj]; exact hd.symm⟩
    simp [hjoins] at hseam
  exact ⟨hrun .number rfl, hrun .blank rfl⟩

end Token

/-- The tokens of a text are a segmentation of it. -/
theorem isSegmentation_scan (text : String) :
    IsSegmentation text ((Token.scan text).map Token.segment) where
  text_eq := by
    have hjoin := Token.join_text_place 0 (lexemes text.toList)
    rw [flatten_lexemes, String.ofList_toList] at hjoin
    simpa [Token.scan, Token.segment, Function.comp_def] using hjoin
  position_eq := by
    intro before s after h
    obtain ⟨us, vs, hscan, rfl, hvs⟩ := List.map_eq_append_iff.mp h
    obtain ⟨t, ws, rfl, rfl, -⟩ := List.map_eq_cons_iff.mp hvs
    have hposition := Token.position_of_place_eq hscan
    rw [Nat.zero_add] at hposition
    simpa [Token.segment, Function.comp_def] using hposition
  ends := by
    refine ⟨(Token.spread 0 (lexemes text.toList)).map Token.segment, ?_, ?_⟩
    · rw [Token.scan_eq, List.map_append]
      rfl
    · simp only [List.forall_mem_map]
      intro t ht
      obtain ⟨hkind, hempty⟩ := Token.ne_endOfFile_of_mem_spread ht
      exact ⟨hkind, by simpa [Token.isEmpty, Token.segment] using hempty⟩
  formed := by
    rw [Token.scan_eq, List.map_append, List.forall_mem_append]
    simp only [List.forall_mem_map]
    refine ⟨fun t ht => ?_, by simp [Token.segment, Token.endOfFile, Token.standIn,
      Segment.IsFormed]⟩
    obtain ⟨before, lexeme, after, -, hlexeme, rfl⟩ := Token.exists_of_mem_spread_lexemes ht
    exact Token.isFormed_ofLexeme hlexeme _
  maximal := by
    have hchain := Token.isChain_kind_spread 0 text.toList
    rw [List.isChain_map] at hchain
    rw [List.isChain_map, Token.scan_eq]
    refine List.isChain_append.mpr ⟨hchain, List.isChain_singleton _, ?_⟩
    simp [Token.segment, Token.endOfFile, Token.standIn]

/-! ### There is no other segmentation -/

/-- Segments that lie behind one another are the tokens of their texts. -/
theorem eq_map_segment_spread {segments : List Segment} {position : Nat}
    (hformed : ∀ s ∈ segments, s.kind ≠ .endOfFile ∧ s.IsFormed)
    (hposition : ∀ before s after, segments = before ++ s :: after →
      s.position = position + (before.map fun u => u.text.utf8ByteSize).sum) :
    segments =
      (Token.spread position (segments.map fun s => s.text.toList)).map Token.segment := by
  induction segments generalizing position with
  | nil => rfl
  | cons s segments ih =>
      simp only [List.forall_mem_cons] at hformed
      have hs : s.position = position := hposition [] s segments rfl
      have hrest : ∀ before u after, segments = before ++ u :: after →
          u.position = position + Token.byteSize s.text.toList +
            (before.map fun u => u.text.utf8ByteSize).sum := by
        intro before u after h
        rw [hposition (s :: before) u after (by rw [h, List.cons_append]), List.map_cons,
          List.sum_cons, Token.byteSize_toList, Nat.add_assoc]
      rw [List.map_cons, Token.spread, List.map_cons, ← ih hformed.2 hrest, ← hs,
        ← hformed.1.2.eq_segment hformed.1.1]

/-- The texts of a segmentation are the pieces of the text. -/
theorem lexemes_eq_of_isSegmentation {text : String} {before : List Segment}
    (h : IsSegmentation text (before ++ [⟨.endOfFile, text.utf8ByteSize, ""⟩]))
    (hkind : ∀ s ∈ before, s.kind ≠ .endOfFile) :
    lexemes text.toList = before.map fun s => s.text.toList := by
  have hformed : ∀ s ∈ before, IsLexeme s.text.toList ∧
      ∀ c ∈ s.text.toList, Token.Kind.ofChar c = s.kind := fun s hs =>
    (Segment.isFormed_iff (hkind s hs)).mp (h.formed s (List.mem_append_left _ hs))
  refine List.splitBy_eq_iff.mpr ⟨?_, ?_, ?_, ?_⟩
  · conv_lhs => rw [← h.text_eq]
    simp [String.toList_join, List.flatMap_def, Function.comp_def]
  · intro hmem
    obtain ⟨s, hs, heq⟩ := List.mem_map.mp hmem
    exact (hformed s hs).1.1 heq
  · simp only [List.forall_mem_map]
    exact fun s hs => (hformed s hs).1.2
  · rw [List.isChain_map]
    refine (List.isChain_append.mp h.maximal).1.imp_of_mem_imp ?_
    rintro s u hs hu ⟨hnumber, hblank⟩
    obtain ⟨hslexeme, hschars⟩ := hformed s hs
    obtain ⟨hulexeme, huchars⟩ := hformed u hu
    refine ⟨hslexeme.1, hulexeme.1, ?_⟩
    rw [Bool.eq_false_iff]
    intro hjoins
    obtain ⟨hrun, heq⟩ := joins_iff.mp hjoins
    rw [hschars _ (List.getLast_mem _)] at hrun heq
    rw [huchars _ (List.head_mem _)] at heq
    -- only a numeral or a gap goes on, and then its neighbour would be one as well
    cases hk : s.kind with
    | number => exact hnumber ⟨hk, heq ▸ hk⟩
    | blank => exact hblank ⟨hk, heq ▸ hk⟩
    | bad | operator | groupOpen | groupClose | endOfFile => simp [hk, Token.Kind.isRun] at hrun

/-- **Maximal munch.** The tokens of a text are its only segmentation; a scanner that hands them
out one at a time comes to the same tokens; and each of them is what the text has at the byte
offset of the token, which is the end of a character. -/
theorem isSegmentation_iff_eq_scan (text : String) :
    (∀ segments, IsSegmentation text segments ↔
      segments = (Token.scan text).map Token.segment) ∧
    (Scanner.ofString text).drain.1 = Token.scan text ∧
    ∀ t ∈ Token.scan text, ∃ before after, text = before ++ t.text ++ after ∧
      t.position = before.utf8ByteSize := by
  refine ⟨fun segments => ⟨fun h => ?_, ?_⟩, ?_, fun t ht => ?_⟩
  · obtain ⟨before, rfl, hbefore⟩ := h.ends
    have hpieces := lexemes_eq_of_isSegmentation h fun s hs => (hbefore s hs).1
    have hspread : before =
        (Token.spread 0 (before.map fun s => s.text.toList)).map Token.segment := by
      refine eq_map_segment_spread (fun s hs => ⟨(hbefore s hs).1, ?_⟩) fun us s vs heq => ?_
      · exact h.formed s (List.mem_append_left _ hs)
      · rw [Nat.zero_add]
        exact h.position_eq us s (vs ++ [⟨.endOfFile, text.utf8ByteSize, ""⟩]) (by simp [heq])
    rw [Token.scan_eq, List.map_append, hpieces, ← hspread]
    rfl
  · rintro rfl
    exact isSegmentation_scan text
  · rw [Scanner.drain_ofString]
  · rw [Token.scan_eq, List.mem_append, List.mem_singleton] at ht
    rcases ht with ht | rfl
    · obtain ⟨before, lexeme, after, htext, -, rfl⟩ := Token.exists_of_mem_spread_lexemes ht
      refine ⟨String.ofList before, String.ofList after, ?_, rfl⟩
      rw [← String.toList_inj, htext]
      simp [Token.ofLexeme]
    · exact ⟨text, "", by simp [Token.endOfFile, Token.standIn], rfl⟩

/-- A digit that is not an ASCII digit is bad, and a wide blank belongs to the gap. -/
example : (Token.scan "12 \u3000٣+").map Token.segment =
    [⟨.number, 0, "12"⟩, ⟨.blank, 2, " \u3000"⟩, ⟨.bad, 6, "٣"⟩, ⟨.operator .plus, 8, "+"⟩,
      ⟨.endOfFile, 9, ""⟩] := by
  decide +kernel

end Calculator
