import Mathlib.Data.List.TakeWhile
import Calculator.Scanner
import Calculator.Proofs.Segmentation

/-!
# Scanning Piece by Piece

The scanner that hands out one token at a time, beside the tokens of a text as they are laid out
all at once. The scanner only ever looks at the rest of the text: it takes the first character
and those that join it, which is the first piece of the rest, and goes on behind it. So it comes
to the same pieces, at the same byte offsets.

* `lexemes_cons` — the first piece of a text, and the pieces behind it;
* `Scanner.take_of_length_lt` — what a scanner hands out until its text is used up;
* `Scanner.drain_ofString` — a scanner at the start of a text hands out the tokens of the text.
-/

namespace Calculator

/-! ### The first piece -/

/-- Whether a character joins another depends on its kind alone. -/
theorem joins_congr {c e : Char} (h : Token.Kind.ofChar e = Token.Kind.ofChar c) (d : Char) :
    joins e d = joins c d := by
  rw [joins, joins, h]

/-- A character and those behind it that join it are a piece. -/
theorem isLexeme_cons_takeWhile (c : Char) (cs : List Char) :
    IsLexeme (c :: cs.takeWhile (joins c)) := by
  cases hrun : (Token.Kind.ofChar c).isRun with
  | true =>
      refine isLexeme_of_forall_ofChar hrun (by simp) ?_
      simp only [List.forall_mem_cons, true_and]
      exact fun d hd => (joins_iff.mp (List.mem_takeWhile_imp hd)).2.symm
  | false =>
      have hnil : cs.takeWhile (joins c) = [] := by
        rw [List.takeWhile_eq_nil_iff]
        simp [joins, hrun]
      rw [hnil]
      exact isLexeme_singleton c

/-- The **first piece** of a text is its first character with those that join it, and the pieces
behind it are those of the rest. -/
theorem lexemes_cons (c : Char) (cs : List Char) :
    lexemes (c :: cs) =
      (c :: cs.takeWhile (joins c)) :: lexemes (cs.dropWhile (joins c)) := by
  have hpiece := isLexeme_cons_takeWhile c cs
  have hseam : ∀ e ∈ (c :: cs.takeWhile (joins c)).getLast?,
      ∀ d ∈ (cs.dropWhile (joins c)).head?, joins e d = false := by
    intro e he d hd
    -- the last character of the piece is of the kind of the first, so the same characters join it
    have hkind : Token.Kind.ofChar e = Token.Kind.ofChar c := by
      rcases List.mem_cons.mp (List.mem_of_mem_getLast? he) with rfl | hmem
      · rfl
      · exact hpiece.ofChar_eq e hmem
    rw [joins_congr hkind]
    have hstop := List.head?_dropWhile_not (joins c) cs
    rw [Option.mem_def.mp hd] at hstop
    simpa using hstop
  calc lexemes (c :: cs)
      = lexemes ((c :: cs.takeWhile (joins c)) ++ cs.dropWhile (joins c)) := by
        rw [List.cons_append, List.takeWhile_append_dropWhile]
    _ = (c :: cs.takeWhile (joins c)) :: lexemes (cs.dropWhile (joins c)) := by
        rw [lexemes_append hseam, lexemes_of_isLexeme hpiece, List.singleton_append]

/-! ### What a scanner hands out -/

namespace Scanner

variable {s : Scanner}

/-- At the end of its text a scanner reads the mark for the end and stays where it is. -/
theorem read_of_rest_nil (h : s.rest = []) : s.read = (Token.endOfFile s.position, s) := by
  rw [read, h]

/-- In front of a character a scanner reads the piece that begins with it. -/
theorem read_of_rest_cons {c : Char} {cs : List Char} (h : s.rest = c :: cs) :
    s.read =
      (Token.ofLexeme s.position (c :: cs.takeWhile (joins c)),
        { s with
          rest := cs.dropWhile (joins c)
          position := s.position + Token.byteSize (c :: cs.takeWhile (joins c))
          diagnostics := s.diagnostics ++
            (Token.ofLexeme s.position (c :: cs.takeWhile (joins c))).defect?.toList }) := by
  rw [read, h]
  rfl

/-- A scanner that has finished hands out nothing more. -/
theorem take_of_finished (h : s.finished = true) (k : Nat) : s.take k = ([], s) := by
  cases k with
  | zero => rfl
  | succ k => rw [take, next?, if_pos h]

/-- What a scanner hands out if it is asked more often than its rest has characters: the tokens
of the rest with the mark behind them. Then it stands at the end of the text and has noted what
is wrong with those tokens. -/
theorem take_of_length_lt {k : Nat} (hfinished : s.finished = false) (hk : s.rest.length < k) :
    s.take k =
      (Token.place s.position (lexemes s.rest),
        { rest := []
          position := s.position + Token.byteSize s.rest
          diagnostics := s.diagnostics ++ Token.defects (Token.place s.position (lexemes s.rest))
          finished := true }) := by
  induction k generalizing s with
  | zero => omega
  | succ k ih =>
      cases hrest : s.rest with
      | nil =>
          have hread := read_of_rest_nil hrest
          rw [take, next?, if_neg (by simp [hfinished]), hread]
          simp only [Token.endOfFile, Token.standIn, decide_true]
          rw [take_of_finished rfl]
          simp [hrest, lexemes, Token.place, Token.defects, Token.defect?, Token.endOfFile,
            Token.standIn]
      | cons c cs =>
          have hread := read_of_rest_cons hrest
          have hkind : (Token.ofLexeme s.position (c :: cs.takeWhile (joins c))).kind ≠
              .endOfFile := Token.ofChar_ne_endOfFile c
          -- a piece has at least one character, so one request less is enough for what is left
          have hlength : (cs.dropWhile (joins c)).length < k := by
            have := (List.dropWhile_suffix (l := cs) (joins c)).length_le
            rw [hrest, List.length_cons] at hk
            omega
          have hsize : Token.byteSize (c :: cs) =
              Token.byteSize (c :: cs.takeWhile (joins c)) +
                Token.byteSize (cs.dropWhile (joins c)) := by
            rw [← Token.byteSize_append, List.cons_append, List.takeWhile_append_dropWhile]
          rw [take, next?, if_neg (by simp [hfinished]), hread]
          simp only [decide_eq_false hkind]
          rw [ih rfl hlength, lexemes_cons, Token.place, Token.stop_ofLexeme, Token.defects_cons,
            hsize]
          simp only [List.append_assoc, Nat.add_assoc]

/-- A scanner at the start of a text hands out the **tokens of the text**, ends behind them, and
has noted their defects. -/
theorem drain_ofString (text : String) :
    (ofString text).drain =
      (Token.scan text,
        { rest := []
          position := text.utf8ByteSize
          diagnostics := Token.defects (Token.scan text)
          finished := true }) := by
  rw [drain, take_of_length_lt (k := fuel _) rfl (Nat.lt_succ_self _)]
  simp [ofString, Token.scan, Token.byteSize_toList]

end Scanner

end Calculator
