import Calculator.Proofs.Recognition

/-!
# The Text behind the End

Reading a line ends at the mark that it reports: at the end of the line, or in front of the first
token that is no part of the expression. What is written from there on has no influence on the
tree. The line that is cut off at that place is read as the same tree, with the same stand-ins in
the same places, and the mark is where it was.

The tree is read from its written tokens alone if its stand-ins are where the parser puts them,
and nothing is written behind a lost closing parenthesis. The latter is known of every tree
(`Parsed.Keeps`). The former is shown here, by induction on the run: a stand-in is put in the
place of the token that is next, and this token is either taken next or never.

* `Sentence.exists_ofText_of_tokens_eq` — a line cut off in front of a token;
* `Parser.settled_of_returns` — the stand-ins of every result are in their places;
* `Reading.ofText_truncated` — a line cut off in front of the mark is read as the same tree.
-/

namespace Calculator

/-! ### A line cut off -/

/-- In front of each of its tokens a line can be cut off, so that just the tokens before this one
are left. -/
theorem Sentence.exists_ofText_of_tokens_eq {text : String} {us ts : List Token} {t : Token}
    (h : (ofText text).tokens = us ++ t :: ts) :
    ∃ before after, text = before ++ after ∧ before.utf8ByteSize = t.position ∧
      (ofText before).tokens = us := by
  rw [tokens_ofText] at h
  obtain ⟨xs, ys, hspread, hus, hrest⟩ := List.filter_eq_append_iff.mp h
  obtain ⟨gap, zs, rfl, hgap, -, -⟩ := List.filter_eq_cons_iff.mp hrest
  rw [← List.append_assoc] at hspread
  obtain ⟨before, after, htext, hbefore, -⟩ := exists_append_of_lexemes text (xs ++ gap).length
  have hnth := Token.getElem?_spread 0 (lexemes text.toList) (xs ++ gap).length
  have htake := Token.take_spread 0 (lexemes text.toList) (xs ++ gap).length
  rw [hspread, List.take_left] at htake
  rw [hspread, List.getElem?_append_right (Nat.le_refl _), Nat.sub_self, List.getElem?_cons_zero,
    eq_comm, Option.map_eq_some_iff] at hnth
  obtain ⟨lexeme, -, rfl⟩ := hnth
  refine ⟨before, after, htext, ?_, ?_⟩
  · rw [← Token.byteSize_toList, hbefore, Token.ofLexeme, Nat.zero_add]
  · have hpieces := (lexemes_flatten_of_append
      (List.take_append_drop (xs ++ gap).length (lexemes text.toList)).symm).1
    rw [tokens_ofText, hbefore, hpieces, ← htake, List.filter_append, hus,
      List.filter_eq_nil_iff.mpr hgap, List.append_nil]

/-! ### The places of stand-ins -/

/-- A result is **settled** when nothing can move its stand-ins any more. -/
structure Parsed.Settled (endOfFile : Token) (e : Parsed) : Prop where
  /-- Its stand-ins are in their places in front of the token that is next. -/
  anchored : Token.Anchored (e.rest.current endOfFile).position e.expression.tokens
  /-- What is left is written. -/
  written : Token.AllWritten e.rest.toList

namespace Parser

variable {p : Parser}

/-- The stand-in of a numeral is in its place: it stands where the next token does. -/
theorem settled_numeral (hmark : p.endOfFile.kind = .endOfFile) {r : Remaining}
    (hr : Token.AllWritten r.toList) : (p.numeral r).Settled p.endOfFile := by
  rcases p.expect_cases .number r (by simp [hmark]) with
    ⟨t, ts, rfl, -, heq⟩ | ⟨-, heq⟩ <;> rw [numeral, heq]
  · obtain ⟨ht, hts⟩ := hr.of_cons
    exact ⟨⟨fun hempty => by simp [ht] at hempty, trivial⟩, hts⟩
  · exact ⟨⟨fun _ => ⟨Token.isStandIn_standIn (.inl rfl) _, rfl⟩, trivial⟩, hr⟩

/-- The operator is written, so the stand-ins of the left operand are in front of it. -/
theorem settled_join (hlimit : p.limit = none) {left right : Parsed} {operator : Token}
    {ts : List Token} (hleft : left.Settled p.endOfFile)
    (hrest : left.rest.toList = operator :: ts) (hright : right.Settled p.endOfFile) :
    (p.join left operator right).Settled p.endOfFile := by
  obtain ⟨hwritten, -⟩ := Token.AllWritten.of_cons (hrest ▸ hleft.written)
  have hcurrent : left.rest.current p.endOfFile = operator := by
    simp [Remaining.current, hrest]
  rw [join, bounded_of_limit_none hlimit]
  refine ⟨?_, hright.written⟩
  rw [Expression.tokens, Token.anchored_append, Token.nextPosition_of_written hwritten]
  exact ⟨hcurrent ▸ hleft.anchored, fun hempty => by simp [hwritten] at hempty, hright.anchored⟩

/-- A closing parenthesis is taken or a stand-in for it is put in its place; either way the
stand-ins inside are in front of what is next. -/
theorem settled_enclose (hlimit : p.limit = none) (hmark : p.endOfFile.kind = .endOfFile)
    {opening : Token} {inner : Parsed} (hopening : opening.isEmpty = false)
    (hinner : inner.Settled p.endOfFile) : (p.enclose opening inner).Settled p.endOfFile := by
  obtain ⟨hanchored, hwritten⟩ := hinner
  rw [enclose, bounded_of_limit_none hlimit]
  rcases p.expect_cases .groupClose inner.rest (by simp [hmark]) with
    ⟨closing, us, hrest, -, heq⟩ | ⟨-, heq⟩ <;> rw [heq]
  · rw [hrest] at hanchored hwritten
    obtain ⟨hclosing, hus⟩ := hwritten.of_cons
    refine ⟨?_, hus⟩
    rw [Expression.tokens, List.cons_append]
    refine ⟨fun hempty => by simp [hopening] at hempty, Token.anchored_append.mpr ⟨?_, ?_⟩⟩
    · rw [Token.nextPosition_of_written hclosing]
      exact hanchored
    · exact ⟨fun hempty => by simp [hclosing] at hempty, trivial⟩
  · refine ⟨?_, hwritten⟩
    rw [Expression.tokens, List.cons_append]
    refine ⟨fun hempty => by simp [hopening] at hempty, Token.anchored_append.mpr ⟨?_, ?_⟩⟩
    · rw [Token.nextPosition_of_isEmpty (Token.isEmpty_standIn _ _)]
      exact hanchored
    · exact ⟨fun _ => ⟨Token.isStandIn_standIn (.inr rfl) _, rfl⟩, trivial⟩

/-- When the result of a call is settled. The rest of a chain is if its left operand is. -/
def Call.Settled (endOfFile : Token) (e : Parsed) : Call → Prop
  | .chain _ _ r | .operand _ _ r | .primary _ r =>
    Token.AllWritten r.toList → e.Settled endOfFile
  | .extend _ _ left => left.Settled endOfFile → e.Settled endOfFile

/-- Without a limit every result is settled that is read from written tokens. Induction on the
run. -/
theorem settled_of_returns (hlimit : p.limit = none) (hmark : p.endOfFile.kind = .endOfFile)
    {c : Call} {e : Parsed} (h : p.Returns c e) : c.Settled p.endOfFile e := by
  induction h with
  | chain _ _ ihfirst ihrest => exact fun hr => ihrest (ihfirst hr)
  | sumOperand _ ih | productOperand _ ih => exact ih
  | stop => exact id
  | @step l n left right e operator ts hoperator _ _ ihright ihrest =>
      intro hleft
      obtain ⟨hrest, -⟩ := Remaining.takeIf_eq_some_iff.mp hoperator
      obtain ⟨-, hts⟩ := Token.AllWritten.of_cons (hrest ▸ hleft.written)
      exact ihrest (settled_join hlimit hleft hrest (ihright hts))
  | numeral => exact settled_numeral hmark
  | refused _ hexhausted =>
      rw [exhausted?_of_limit_none hlimit] at hexhausted
      cases hexhausted
  | @group n r opening ts inner hopening _ _ ih =>
      intro hr
      obtain ⟨htokens, -⟩ := Remaining.takeIf_eq_some_iff.mp hopening
      obtain ⟨hwritten, hts⟩ := Token.AllWritten.of_cons (htokens ▸ hr)
      exact settled_enclose hlimit hmark hwritten (ih hts)

end Parser

/-! ### The text behind the end -/

namespace Reading

variable {s : Sentence}

/-- Without a limit the tree of a sentence is recovered in front of the first token that is left,
or else of the end. -/
theorem recovered_parsed (hwritten : Token.AllWritten s.tokens) :
    (parsed none s).expression.Recovered
      ((parsed none s).rest.current s.endOfFile).position where
  anchored := (Parser.settled_of_returns (c := .chain .sum 0 (.tokens s.tokens)) rfl
    s.endOfFile_kind (Parser.returns_result (parser none s) _) hwritten).anchored
  ended := (keeps_parsed none hwritten).ended

/-- A sentence whose tokens are those of the tree of another sentence, and whose mark is where the
first token behind them was, is read as this tree. -/
theorem ofSentence_of_written {u : Sentence} (hwritten : Token.AllWritten s.tokens)
    (hheight : (parsed none s).height ≤ depthLimit)
    (htokens : u.tokens = (parsed none s).expression.written)
    (hmark : u.endOfFile.position = ((parsed none s).rest.current s.endOfFile).position) :
    (ofSentence (some depthLimit) u).root = (parsed none s).expression ∧
      (ofSentence (some depthLimit) u).endOfFile = u.endOfFile := by
  obtain ⟨hderives, heq⟩ := height_parsed_none s
  obtain ⟨ds, hnone, -⟩ :=
    ofSentence_none_of_derives hderives (hmark ▸ recovered_parsed hwritten) htokens
  have hlimited : ofSentence (some depthLimit) u = ofSentence none u :=
    ofSentence_of_height_le depthLimit_pos (by rw [hnone, ← heq]; exact hheight)
  rw [hlimited, hnone]
  exact ⟨rfl, rfl⟩

/-- A line of which tokens are left can be cut off in front of the first of them, if its tree is
within the limit. -/
theorem exists_ofText_of_rest_eq_cons {text : String} {t : Token} {ts : List Token}
    (hheight : (parsed none (Sentence.ofText text)).height ≤ depthLimit)
    (hrest : (parsed none (Sentence.ofText text)).rest.toList = t :: ts) :
    ∃ before after, text = before ++ after ∧ before.utf8ByteSize = t.position ∧
      (ofText before).root = (parsed none (Sentence.ofText text)).expression ∧
      (ofText before).endOfFile = .endOfFile t.position := by
  have hwritten := Sentence.allWritten_ofText text
  have htokens := (accounts_parsed hwritten).written_eq
  rw [hrest] at htokens
  obtain ⟨before, after, htext, hsize, hbefore⟩ :=
    Sentence.exists_ofText_of_tokens_eq htokens.symm
  have hmark : (Sentence.ofText before).endOfFile = .endOfFile t.position := by
    rw [Sentence.endOfFile_ofText, hsize]
  have hnext : (parsed none (Sentence.ofText text)).rest.current
      (Sentence.ofText text).endOfFile = t := by
    simp [Remaining.current, hrest]
  obtain ⟨hroot, hend⟩ := ofSentence_of_written hwritten hheight hbefore
    (by rw [hmark, hnext]; rfl)
  exact ⟨before, after, htext, hsize, hroot, hend.trans hmark⟩

/-- **The text behind the end** has no influence on the tree. A line can be cut off where the mark
behind its expression stands, and then it is read as the same tree, with the same kinds, texts,
values and positions, stand-ins included, and with the same mark. -/
theorem ofText_truncated (text : String) :
    ∃ before after, text = before ++ after ∧
      before.utf8ByteSize = (ofText text).endOfFile.position ∧
      (ofText before).root = (ofText text).root ∧
      (ofText before).endOfFile = (ofText text).endOfFile := by
  have hroot : (ofText text).root =
      (parsed (some depthLimit) (Sentence.ofText text)).expression := rfl
  have hend : (ofText text).endOfFile = (ofParsed (Sentence.ofText text)
      (parsed (some depthLimit) (Sentence.ofText text))).endOfFile := rfl
  cases hrest : (parsed (some depthLimit) (Sentence.ofText text)).rest.toList with
  | nil =>
      refine ⟨text, "", String.append_empty.symm, ?_, rfl, rfl⟩
      rw [hend, ofParsed_of_toList_eq_nil hrest, Sentence.endOfFile_ofText]
      rfl
  | cons t ts =>
      rcases (tracks_parsed depthLimit_pos (Sentence.ofText text)).eq_or_gaveUp with
        ⟨heq, hheight⟩ | ⟨hgaveUp, -, -⟩
      · -- the limit has made no difference, so the tree is the one without it
        rw [heq] at hroot hend hrest
        rw [(ofParsed_of_rest_eq_cons (Sentence.allWritten_ofText text) hrest).2] at hend
        have htruncated := exists_ofText_of_rest_eq_cons hheight hrest
        rw [hroot, hend]
        exact htruncated
      · simp [hgaveUp] at hrest

/-- A number stands where the closing parenthesis is expected. Nothing behind it is read, not even
a parenthesis or a sign, and the stand-in is where it was. -/
example :
    (ofText "(1 + 2 3) * 4").root = (ofText "(1 + 2 ").root ∧
      (ofText "(1 + 2 3) * 4").endOfFile = .endOfFile 7 := by
  decide +kernel

end Reading

end Calculator
