import Mathlib.Data.List.Nodup
import Calculator.Proofs.Recognition

/-!
# The Order of Positions

The tokens of a line stand one behind the other, and reading keeps them so. Wherever a stand-in
is made — for a token that is missing, or for an expression that is given up — it takes the
position of a token that is still to come or of the first token of what it replaces. So the
tokens of the tree never go back, even where outer levels go on building after a part was given
up.

* `Sentence.pairwise_position_ofText`, `Sentence.eq_of_position_eq` — no two tokens of a line
  start at the same byte offset;
* `Parsed.Ascends` — the tokens before an expression, its own, those that are left and the mark
  are in order;
* `Parser.ascends_of_returns` — every result is in order if what it was read from was;
* `Reading.ascending_root` — the tokens of a tree and the mark behind it are in order.
-/

namespace Calculator

/-! ### The tokens of a line -/

namespace Token

/-- A piece of text has bytes. -/
theorem byteSize_pos {lexeme : List Char} (h : lexeme ≠ []) : 0 < byteSize lexeme := by
  rw [byteSize, Nat.pos_iff_ne_zero, ne_eq, String.utf8ByteSize_eq_zero_iff, ← String.toList_inj]
  simpa using h

/-- No token of a text starts in front of the text. -/
theorem le_position_of_mem_place {t : Token} {position : Nat} {pieces : List (List Char)}
    (h : t ∈ place position pieces) : position ≤ t.position := by
  induction pieces generalizing position with
  | nil =>
      obtain rfl := List.mem_singleton.mp h
      exact Nat.le_refl _
  | cons lexeme pieces ih =>
      rcases List.mem_cons.mp h with rfl | h
      · exact Nat.le_refl _
      · exact Nat.le_trans (Nat.le_add_right _ _) (ih h)

/-- Each token of a text starts in front of the next one. -/
theorem pairwise_position_place (position : Nat) {pieces : List (List Char)}
    (h : ∀ lexeme ∈ pieces, lexeme ≠ []) :
    (place position pieces).Pairwise fun t u => t.position < u.position := by
  induction pieces generalizing position with
  | nil => exact List.pairwise_singleton _ _
  | cons lexeme pieces ih =>
      simp only [List.forall_mem_cons] at h
      rw [place, stop_ofLexeme, List.pairwise_cons]
      refine ⟨fun t ht => ?_, ih _ h.2⟩
      calc position
          < position + byteSize lexeme := Nat.lt_add_of_pos_right (byteSize_pos h.1)
        _ ≤ t.position := le_position_of_mem_place ht

/-- The tokens of a text start in front of its end. -/
theorem position_lt_of_mem_spread {text : String} {t : Token}
    (h : t ∈ spread 0 (lexemes text.toList)) : t.position < text.utf8ByteSize := by
  have hpairwise : (scan text).Pairwise fun t u => t.position < u.position :=
    pairwise_position_place 0 fun _ h => (isLexeme_of_mem h).1
  rw [scan_eq, List.pairwise_append] at hpairwise
  exact hpairwise.2.2 t h _ List.mem_cons_self

/-- A defect of a token is met where the token starts. -/
theorem position_of_defect?_eq_some {t : Token} {d : Diagnostic} (h : t.defect? = some d) :
    d.position = t.position := by
  rw [defect?] at h
  split at h
  · obtain rfl := Option.some.inj h
    rfl
  · obtain rfl := Option.some.inj h
    rfl
  · exact absurd h (by simp)

/-- The defects of a text are met in front of its end. -/
theorem position_lt_of_mem_defects {text : String} {d : Diagnostic} (h : d ∈ defects (scan text)) :
    d.position < text.utf8ByteSize := by
  obtain ⟨t, ht, hdefect⟩ := List.mem_filterMap.mp h
  rw [scan_eq, List.mem_append, List.mem_singleton] at ht
  rcases ht with ht | rfl
  · rw [position_of_defect?_eq_some hdefect]
    exact position_lt_of_mem_spread ht
  · simp [endOfFile, standIn, defect?] at hdefect

end Token

namespace Sentence

/-- The sentence in a text is a selection of its tokens. -/
theorem toList_ofText_sublist (text : String) :
    (ofText text).toList.Sublist (Token.scan text) := by
  rw [toList, tokens_ofText, endOfFile_ofText, Token.scan_eq]
  exact List.filter_sublist.append (List.Sublist.refl _)

/-- No two tokens of a line start at the same byte offset. -/
theorem pairwise_position_ofText (text : String) :
    (ofText text).toList.Pairwise fun t u => t.position < u.position :=
  (Token.pairwise_position_place 0 fun _ h => (isLexeme_of_mem h).1).sublist
    (toList_ofText_sublist text)

/-- A token of a line can be told by its position. -/
theorem eq_of_position_eq {text : String} {t u : Token} (ht : t ∈ (ofText text).toList)
    (hu : u ∈ (ofText text).toList) (h : t.position = u.position) : t = u := by
  have hnodup : ((ofText text).toList.map Token.position).Nodup :=
    List.pairwise_map.mpr ((pairwise_position_ofText text).imp Nat.ne_of_lt)
  exact List.inj_on_of_nodup_map hnodup ht hu h

/-- The tokens of a line start in front of its end. -/
theorem position_lt_of_mem_tokens {text : String} {t : Token} (h : t ∈ (ofText text).tokens) :
    t.position < text.utf8ByteSize := by
  rw [tokens_ofText, List.mem_filter] at h
  exact Token.position_lt_of_mem_spread h.1

end Sentence

/-! ### Lists of tokens in order -/

/-- The positions of the tokens never go back. -/
def Token.Ascending (ts : List Token) : Prop :=
  ts.Pairwise fun t u => t.position ≤ u.position

namespace Token.Ascending

variable {before after ts us : List Token} {t u : Token}

/-- Tokens that start one behind the other are in rising order. -/
theorem of_pairwise_lt (h : ts.Pairwise fun t u => t.position < u.position) : Ascending ts :=
  h.imp Nat.le_of_lt

/-- Fewer tokens are in rising order as well. -/
theorem sublist (h : Ascending us) (hsub : ts.Sublist us) : Ascending ts :=
  List.Pairwise.sublist hsub h

/-- The order depends on positions alone. -/
theorem congr (h : Ascending ts) (heq : us.map Token.position = ts.map Token.position) :
    Ascending us := by
  have hmap : (ts.map Token.position).Pairwise (· ≤ ·) := List.pairwise_map.mpr h
  rw [← heq] at hmap
  exact List.pairwise_map.mp hmap

/-- A token may be put in front of another one that starts in the same place. -/
theorem insert (h : Ascending (before ++ u :: after)) (heq : t.position = u.position) :
    Ascending (before ++ t :: u :: after) := by
  -- as far as the order is concerned, `t` is `u` once more
  have hdouble : Ascending (before ++ u :: u :: after) := by
    rw [Ascending, List.pairwise_append, List.pairwise_cons] at h ⊢
    obtain ⟨hbefore, ⟨hu, hafter⟩, hacross⟩ := h
    refine ⟨hbefore, ⟨fun v hv => ?_, List.pairwise_cons.mpr ⟨hu, hafter⟩⟩, fun v hv w hw => ?_⟩
    · rcases List.mem_cons.mp hv with rfl | hv
      · exact Nat.le_refl _
      · exact hu v hv
    · rcases List.mem_cons.mp hw with rfl | hw
      · exact hacross v hv _ List.mem_cons_self
      · exact hacross v hv w hw
  exact hdouble.congr (by simp [heq])

/-- A token may take the place of others up to the end, if it starts where the first of them
does. -/
theorem replace (h : Ascending (before ++ u :: us ++ after)) (heq : t.position = u.position) :
    Ascending (before ++ t :: after) := by
  have hsub : (before ++ u :: after).Sublist (before ++ u :: us ++ after) := by
    rw [List.append_assoc, List.cons_append]
    exact (List.Sublist.refl before).append ((List.sublist_append_right us after).cons_cons u)
  exact (h.sublist hsub).congr (by simp [heq])

end Token.Ascending

/-! ### Results -/

/-- A result **ascends** behind some tokens when these, the tokens of the expression, those that
are left and the mark for the end are in order. -/
def Parsed.Ascends (endOfFile : Token) (before : List Token) (e : Parsed) : Prop :=
  Token.Ascending (before ++ (e.expression.tokens ++ (e.rest.toList ++ [endOfFile])))

namespace Parser

variable {p : Parser} {before : List Token}

/-- A token that is asked for, or its stand-in, comes in order. -/
theorem ascending_expect (kind : Token.Kind) {r : Remaining}
    (h : Token.Ascending (before ++ (r.toList ++ [p.endOfFile]))) :
    Token.Ascending (before ++ (p.expect kind r).token ::
      ((p.expect kind r).rest.toList ++ [p.endOfFile])) := by
  have hcurrent : ∃ after, r.toList ++ [p.endOfFile] = r.current p.endOfFile :: after := by
    cases hr : r.toList with
    | nil => exact ⟨[], by simp [Remaining.current, hr]⟩
    | cons t ts => exact ⟨ts ++ [p.endOfFile], by simp [Remaining.current, hr]⟩
  by_cases hkind : (r.current p.endOfFile).kind = kind
  · rw [expect_of_kind hkind]
    cases r with
    | givenUp => exact h.insert rfl
    | tokens ts =>
        cases ts with
        | nil => exact h.insert rfl
        | cons t ts => exact h
  · rw [expect_of_kind_ne hkind]
    obtain ⟨after, hafter⟩ := hcurrent
    rw [hafter] at h ⊢
    exact h.insert rfl

/-- An expression may be given up at the position of its first token. -/
theorem ascends_bounded {e : Parsed} (h : e.Ascends p.endOfFile before) :
    (p.bounded e).Ascends p.endOfFile before := by
  rcases p.bounded_eq_or e with heq | ⟨m, -, -, heq⟩ <;> rw [heq]
  · exact h
  · obtain ⟨first, others, htokens⟩ := List.exists_cons_of_ne_nil e.expression.tokens_ne_nil
    have hposition : e.expression.position = first.position := by
      simp [Expression.position_eq_head_tokens, htokens]
    rw [Parsed.Ascends, htokens] at h
    have hreplace : Token.Ascending
        (before ++ first :: (others ++ e.rest.toList) ++ [p.endOfFile]) := by
      simpa using h
    exact hreplace.replace (t := .standIn .number e.expression.position) hposition

/-- A node is in order if its right operand is, behind the left one and the operator. -/
theorem ascends_join {left right : Parsed} {operator : Token}
    (h : right.Ascends p.endOfFile (before ++ left.expression.tokens ++ [operator])) :
    (p.join left operator right).Ascends p.endOfFile before :=
  ascends_bounded (by simpa [Parsed.Ascends, Expression.tokens] using h)

/-- A group is in order if the expression in it is, behind the opening parenthesis. -/
theorem ascends_enclose {opening : Token} {inner : Parsed}
    (h : inner.Ascends p.endOfFile (before ++ [opening])) :
    (p.enclose opening inner).Ascends p.endOfFile before := by
  have hinner : Token.Ascending ((before ++ [opening] ++ inner.expression.tokens) ++
      (inner.rest.toList ++ [p.endOfFile])) := by
    simpa [Parsed.Ascends] using h
  exact ascends_bounded
    (by simpa [Parsed.Ascends, Expression.tokens] using ascending_expect .groupClose hinner)

/-- What the result of a call does with the order of the tokens that it was read from. The rest
of a chain keeps the order of its left operand. -/
def Call.Ascends (endOfFile : Token) (e : Parsed) : Call → Prop
  | .chain _ _ r | .operand _ _ r | .primary _ r => ∀ before,
    Token.Ascending (before ++ (r.toList ++ [endOfFile])) → e.Ascends endOfFile before
  | .extend _ _ left => ∀ before, left.Ascends endOfFile before → e.Ascends endOfFile before

/-- Every result is in order if what it was read from was. Induction on the run; what was read
before a part of an expression counts among the tokens before it. -/
theorem ascends_of_returns {c : Call} {e : Parsed} (h : p.Returns c e) :
    c.Ascends p.endOfFile e := by
  induction h with
  | chain _ _ ihfirst ihrest => exact fun before hr => ihrest before (ihfirst before hr)
  | sumOperand _ ih | productOperand _ ih => exact ih
  | stop => exact fun _ hleft => hleft
  | @step l n left right e operator ts hoperator _ _ ihright ihrest =>
      intro before hleft
      obtain ⟨hrest, -⟩ := Remaining.takeIf_eq_some_iff.mp hoperator
      refine ihrest before (ascends_join (ihright _ ?_))
      simpa [Parsed.Ascends, hrest] using hleft
  | numeral => exact fun before hr => ascending_expect .number hr
  | @refused n limit r opening ts hopening _ =>
      intro before hr
      obtain ⟨htokens, -⟩ := Remaining.takeIf_eq_some_iff.mp hopening
      rw [htokens, ← List.append_assoc] at hr
      -- the stand-in takes the place of the parenthesis and of everything behind it
      exact hr.replace (t := .standIn .number opening.position) rfl
  | @group n r opening ts inner hopening _ _ ih =>
      intro before hr
      obtain ⟨htokens, -⟩ := Remaining.takeIf_eq_some_iff.mp hopening
      refine ascends_enclose (ih _ ?_)
      simpa [htokens] using hr

end Parser

namespace Reading

/-- The tokens of a tree and the mark behind it are in order, and the mark is not behind the end
of the line. -/
theorem ascending_root (limit : Option Nat) {s : Sentence} (h : Token.Ascending s.toList) :
    Token.Ascending ((ofSentence limit s).root.tokens ++ [(ofSentence limit s).endOfFile]) ∧
      (ofSentence limit s).endOfFile.position ≤ s.endOfFile.position := by
  have hparsed : (parsed limit s).Ascends s.endOfFile [] :=
    Parser.ascends_of_returns (p := parser limit s)
      (Parser.returns_result _ (.chain .sum 0 (.tokens s.tokens))) [] h
  have hstop := Parser.ascending_expect (p := parser none s) .endOfFile hparsed
  constructor
  · refine hstop.sublist ((List.Sublist.refl _).append ?_)
    exact List.singleton_sublist.mpr List.mem_cons_self
  · rw [Token.Ascending, List.pairwise_append, List.pairwise_cons] at hstop
    exact hstop.2.1.1 s.endOfFile (by simp [parser])

end Reading

end Calculator
