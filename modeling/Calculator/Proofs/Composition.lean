import Calculator.Proofs.Defects
import Calculator.Proofs.Seam

/-!
# Scanning Texts Put Together

A scanner takes no notice of what lies before a token. So the tokens of two texts put together are
those of the first one, and behind them those of the second one, moved by the length of the first;
and the same holds of what is reported. The only exception is a run that goes on behind the seam:
where digits meet digits, or blanks meet blanks, the token on either side of the seam gives way to
the one token of the joined text. What that one is worth, and whether it is reported, depends on
all of its digits.

* `RunsMeet` — a run goes on behind the seam;
* `Token.scan_append`, `Token.exists_scan_append` — the tokens of two texts put together;
* `Scanner.drain_append` — the tokens and the reports of two texts put together.
-/

namespace Calculator

/-- A run goes on where the text `a` is followed by the text `b`: digits meet, or blanks do. -/
def RunsMeet (a b : List Char) : Prop :=
  ∃ c ∈ a.getLast?, ∃ d ∈ b.head?,
    (c.isDigit = true ∧ d.isDigit = true) ∨ (Text.isBlank c = true ∧ Text.isBlank d = true)

/-- The runs are those of digits and those of blanks. -/
theorem Token.Kind.isRun_iff {k : Token.Kind} : k.isRun = true ↔ k = .number ∨ k = .blank := by
  cases k <;> simp [isRun]

/-- Characters join when both are digits, or both are blanks. -/
theorem joins_iff_isDigit_or_isBlank {c d : Char} :
    joins c d = true ↔
      (c.isDigit = true ∧ d.isDigit = true) ∨
        (Text.isBlank c = true ∧ Text.isBlank d = true) := by
  rw [joins_iff, Token.Kind.isRun_iff, ← Token.Kind.ofChar_eq_number_iff,
    ← Token.Kind.ofChar_eq_number_iff, ← Token.Kind.ofChar_eq_blank_iff,
    ← Token.Kind.ofChar_eq_blank_iff]
  constructor
  · rintro ⟨hrun, heq⟩
    rw [← heq]
    exact hrun.imp (fun h => ⟨h, h⟩) fun h => ⟨h, h⟩
  · rintro (⟨hc, hd⟩ | ⟨hc, hd⟩)
    · exact ⟨.inl hc, hc.trans hd.symm⟩
    · exact ⟨.inr hc, hc.trans hd.symm⟩

namespace Token

/-! ### Tokens at a seam -/

/-- Pieces are placed one behind the other, so those of a second list start where the first list
stops. -/
theorem place_append (position : Nat) (xs ys : List (List Char)) :
    place position (xs ++ ys) =
      spread position xs ++ place (position + byteSize xs.flatten) ys := by
  induction xs generalizing position with
  | nil => simp [spread]
  | cons x xs ih => simp [place, spread, ih, stop_ofLexeme, Nat.add_assoc]

/-- Where the pieces start does not matter, except that all their tokens are moved by it, and the
mark behind them as well. -/
theorem map_relocate_place (n position : Nat) (pieces : List (List Char)) :
    (place position pieces).map (relocate (n + ·)) = place (n + position) pieces := by
  rw [place_eq, place_eq, List.map_append, map_relocate_spread, Nat.add_assoc]
  rfl

/-- The tokens of a text in front of the mark for its end. -/
theorem dropLast_scan (text : String) :
    (scan text).dropLast = spread 0 (lexemes text.toList) := by
  rw [scan_eq, List.dropLast_concat]

/-- The mark for the end has no defect. -/
theorem defects_dropLast_scan (text : String) :
    defects (scan text).dropLast = defects (scan text) := by
  rw [dropLast_scan, defects_scan_eq_spread]

/-- Where no run goes on, the tokens of the second text follow those of the first. -/
theorem scan_append {a b : String} (h : ¬ RunsMeet a.toList b.toList) :
    scan (a ++ b) = (scan a).dropLast ++ (scan b).map (relocate (a.utf8ByteSize + ·)) := by
  have hseam : ∀ c ∈ a.toList.getLast?, ∀ d ∈ b.toList.head?, joins c d = false := by
    intro c hc d hd
    rw [Bool.eq_false_iff]
    exact fun hjoins => h ⟨c, hc, d, hd, joins_iff_isDigit_or_isBlank.mp hjoins⟩
  rw [dropLast_scan, scan, scan, map_relocate_place, String.toList_append, lexemes_append hseam,
    place_append, flatten_lexemes, byteSize_toList, Nat.zero_add, Nat.add_zero]

/-- The token `joined` comes in the place of the tokens of one run that meet at a seam. -/
structure IsJoint (last first joined : Token) : Prop where
  /-- The tokens at the seam are numerals or gaps. -/
  isRun : last.kind = .number ∨ last.kind = .blank
  /-- They are of the same kind. -/
  kind_first : first.kind = last.kind
  kind_eq : joined.kind = last.kind
  position_eq : joined.position = last.position
  text_eq : joined.text = last.text ++ first.text
  /-- The value is the one that all the digits give. -/
  isValued : joined.IsValued

/-- The report of a numeral that is out of range. -/
def excess (t : Token) : List Diagnostic :=
  if t.isOutOfRange then [⟨.numberOutOfRange t.text, t.position⟩] else []

/-- All that can be wrong with a numeral or with a gap is that it is out of range. -/
theorem IsValued.defect?_eq {t : Token} (h : t.IsValued)
    (hrun : t.kind = .number ∨ t.kind = .blank) : t.defect?.toList = t.excess := by
  rcases hrun with hkind | hkind
  · cases hrange : t.isOutOfRange with
    | true => simp [defect?, hkind, h.outOfRange hrange, excess, hrange]
    | false =>
        obtain ⟨v, hv, -⟩ := h.inRange hkind hrange
        simp [defect?, hkind, hv, excess, hrange]
  · simp [defect?, hkind, excess, isOutOfRange]

/-- Where a run goes on, one token comes in the place of the two at the seam. -/
theorem exists_scan_append {a b : String} (h : RunsMeet a.toList b.toList) :
    ∃ before last first after joined,
      scan a = before ++ [last, .endOfFile a.utf8ByteSize] ∧
      scan b = first :: after ∧
      scan (a ++ b) = before ++ joined :: after.map (relocate (a.utf8ByteSize + ·)) ∧
      last.IsJoint first joined ∧ last.IsValued ∧ first.IsValued := by
  obtain ⟨c, hc, d, hd, hcd⟩ := h
  have hjoins := joins_iff_isDigit_or_isBlank.mpr hcd
  obtain ⟨before, last, first, after, ha, hb, hclast, hdfirst, hab⟩ :=
    lexemes_append_of_joins hc hd hjoins
  have hmemLast : last ∈ lexemes a.toList := by simp [ha]
  have hlast := isLexeme_of_mem hmemLast
  have hkindLast := hlast.kind_eq_of_getLast hclast (byteSize before.flatten)
  -- what lies behind the seam moves by the length of the first text, not of the joined piece
  have hsize : a.utf8ByteSize = byteSize before.flatten + byteSize last := by
    rw [← byteSize_toList, ← byteSize_append, ← flatten_lexemes a.toList, ha]
    simp
  refine ⟨spread 0 before, ofLexeme (byteSize before.flatten) last, ofLexeme 0 first,
    place (byteSize first) after, ofLexeme (byteSize before.flatten) (last ++ first),
    ?_, ?_, ?_, ⟨?_, ?_, ?_, rfl, ?_, isValued_ofLexeme _ _⟩, isValued_ofLexeme _ _,
    isValued_ofLexeme _ _⟩
  · rw [scan_eq, ha, spread_append, Nat.zero_add, List.append_assoc]
    rfl
  · rw [scan, hb, place, stop_ofLexeme, Nat.zero_add]
  · rw [scan, String.toList_append, hab, place_append, map_relocate_place, place, stop_ofLexeme,
      byteSize_append, hsize, Nat.zero_add, Nat.add_assoc]
  · rw [hkindLast]
    exact Kind.isRun_iff.mp (joins_iff.mp hjoins).1
  · obtain ⟨ds, rfl⟩ : ∃ ds, first = d :: ds := ⟨_, List.eq_cons_of_mem_head? hdfirst⟩
    rw [hkindLast, (joins_iff.mp hjoins).2]
    rfl
  · exact kind_ofLexeme_append hlast.1 first _
  · exact String.ofList_append

end Token

namespace Scanner

/-- **Scanning is compositional.** Where no run goes on behind the seam, a scanner hands out for the
joined text what it hands out for the first one, without the mark for the end, and then what it
hands out for the second one, moved by the length of the first; and it reports in the same way.
Where a run goes on, the same holds except for the tokens at the seam. In their place comes the one
token with the joined text, at the byte offset of the first of them. It is worth what all of its
digits denote, and whether it is out of range depends on them and not on the tokens it replaces. -/
theorem drain_append (a b : String) :
    (¬ RunsMeet a.toList b.toList →
      (ofString (a ++ b)).drain.1 =
        (ofString a).drain.1.dropLast ++
          (ofString b).drain.1.map (Token.relocate (a.utf8ByteSize + ·)) ∧
      (ofString (a ++ b)).drain.2.diagnostics =
        (ofString a).drain.2.diagnostics ++
          (ofString b).drain.2.diagnostics.map (Diagnostic.relocate (a.utf8ByteSize + ·))) ∧
    (RunsMeet a.toList b.toList →
      ∃ before last first after joined reportsBefore reportsAfter,
        (ofString a).drain.1 = before ++ [last, .endOfFile a.utf8ByteSize] ∧
        (ofString b).drain.1 = first :: after ∧
        (ofString (a ++ b)).drain.1 =
          before ++ joined :: after.map (Token.relocate (a.utf8ByteSize + ·)) ∧
        last.IsJoint first joined ∧
        (ofString a).drain.2.diagnostics = reportsBefore ++ last.excess ∧
        (ofString b).drain.2.diagnostics = first.excess ++ reportsAfter ∧
        (ofString (a ++ b)).drain.2.diagnostics =
          reportsBefore ++ joined.excess ++
            reportsAfter.map (Diagnostic.relocate (a.utf8ByteSize + ·))) := by
  simp only [drain_ofString]
  constructor
  · intro h
    refine ⟨Token.scan_append h, ?_⟩
    rw [Token.scan_append h, Token.defects_append, Token.defects_map_relocate,
      Token.defects_dropLast_scan]
  · intro h
    obtain ⟨before, last, first, after, joined, ha, hb, hab, hjoint, hlast, hfirst⟩ :=
      Token.exists_scan_append h
    have hmark : Token.defects [Token.endOfFile a.utf8ByteSize] = [] := rfl
    refine ⟨before, last, first, after, joined, Token.defects before, Token.defects after,
      ha, hb, hab, hjoint, ?_, ?_, ?_⟩
    · rw [ha, Token.defects_append, Token.defects_cons, hmark, List.append_nil,
        hlast.defect?_eq hjoint.isRun]
    · rw [hb, Token.defects_cons, hfirst.defect?_eq (hjoint.kind_first.symm ▸ hjoint.isRun)]
    · rw [hab, Token.defects_append, Token.defects_cons, Token.defects_map_relocate,
        hjoint.isValued.defect?_eq (hjoint.kind_eq.symm ▸ hjoint.isRun), List.append_assoc]

/-- Neither half is out of range, but the joined numeral is. -/
example : (ofString "21474836").drain.2.diagnostics = [] ∧
    (ofString "48").drain.2.diagnostics = [] ∧
    (ofString ("21474836" ++ "48")).drain.2.diagnostics =
      [⟨.numberOutOfRange "2147483648", 0⟩] := by
  decide +kernel

end Scanner

end Calculator
