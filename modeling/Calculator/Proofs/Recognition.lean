import Calculator.Proofs.Limit
import Calculator.Proofs.Recovery
import Calculator.Proofs.Segmentation

/-!
# Recognition

Which lines are valid, and what they are read as. Without a depth limit a sentence is valid
exactly when its tokens are the tokens of a derivation, and then it is read as that derivation.
The limit refuses the derivations that are too high and changes nothing else. For lines of text
the defects of single tokens come on top.

* `Reading.ofSentence_none_of_derives`, `Reading.tokens_root_of_diagnostics_eq_nil` — the two
  directions without a limit;
* `Reading.ofSentence_of_height_le`, `Reading.cutShort_of_lt_height` — what the limit changes;
* `Derives.unique` — the grammar is unambiguous;
* `Reading.isValid_iff_isWord` — the valid lines, their expressions, and the lines that are only
  too deep.
-/

namespace Calculator

/-- The word is the sequence of kinds of a derivation of the given height. -/
def IsWordOfHeight (n : Nat) (kinds : List Token.Kind) : Prop :=
  ∃ e, Derives (.chain .sum) e ∧ e.tokens.map Token.kind = kinds ∧ e.height = n

namespace Reading

variable {s : Sentence} {m : Nat}

/-- The parser that reads a sentence. -/
def parser (limit : Option Nat) (s : Sentence) : Parser :=
  ⟨limit, s.endOfFile⟩

/-- The result that the reading of a sentence is made of. -/
def parsed (limit : Option Nat) (s : Sentence) : Parsed :=
  (parser limit s).chain .sum 0 (.tokens s.tokens)

/-- The reading that a result is completed to by asking for the mark behind the line. -/
def ofParsed (s : Sentence) (e : Parsed) : Reading where
  root := e.expression
  endOfFile := ((parser none s).expect .endOfFile e.rest).token
  diagnostics := e.diagnostics ++ ((parser none s).expect .endOfFile e.rest).diagnostics

/-- A sentence is read as what the parser makes of it. -/
theorem ofSentence_eq (limit : Option Nat) (s : Sentence) :
    ofSentence limit s = ofParsed s (parsed limit s) := rfl

/-- When nothing is left, or reading was given up, the mark behind the line is found. -/
theorem ofParsed_of_toList_eq_nil {e : Parsed} (h : e.rest.toList = []) :
    ofParsed s e = ⟨e.expression, s.endOfFile, e.diagnostics⟩ := by
  have hcurrent : e.rest.current s.endOfFile = s.endOfFile := by
    simp [Remaining.current, h]
  have hexpect : (parser none s).expect .endOfFile e.rest =
      ⟨s.endOfFile, [], e.rest.behind⟩ := by
    rw [Parser.expect_of_kind (hcurrent.symm ▸ s.endOfFile_kind), parser, hcurrent]
  rw [ofParsed, hexpect, List.append_nil]

/-- A token that is left is reported in the place of the mark. -/
theorem ofParsed_of_toList_eq_cons {e : Parsed} {t : Token} {ts : List Token}
    (hlive : e.rest.IsLive) (hrest : e.rest.toList = t :: ts) (ht : t.kind ≠ .endOfFile) :
    ofParsed s e =
      ⟨e.expression, .endOfFile t.position,
        e.diagnostics ++ [⟨.unexpectedToken t.kind .endOfFile, t.position⟩]⟩ := by
  have hcurrent : e.rest.current (parser none s).endOfFile = t := by
    simp [Remaining.current, hrest]
  rw [ofParsed, Parser.expect_of_kind_ne (hcurrent.symm ▸ ht), hcurrent, hlive.report]
  rfl

/-- The tokens of a sentence are none of them the mark. -/
theorem kind_ne_endOfFile_of_mem {t : Token} (h : t ∈ s.tokens) : t.kind ≠ .endOfFile := by
  intro hkind
  have hsignificant := s.significant t h
  simp [hkind, Token.Kind.isSignificant] at hsignificant

/-- When nothing is reported, nothing is left. -/
theorem toList_eq_nil_of_diagnostics_eq_nil {e : Parsed} (hlive : e.rest.IsLive)
    (hsub : e.rest.toList ⊆ s.tokens) (h : (ofParsed s e).diagnostics = []) :
    e.rest.toList = [] := by
  cases hrest : e.rest.toList with
  | nil => rfl
  | cons t ts =>
      have ht := kind_ne_endOfFile_of_mem (hsub (hrest ▸ List.mem_cons_self))
      rw [ofParsed_of_toList_eq_cons hlive hrest ht] at h
      exact absurd h (by simp)

/-! ### The grammar -/

/-- The expression of every reading is a derivation, whether the line is valid or not. -/
theorem derives_root (hpos : 0 < m) (s : Sentence) :
    Derives (.chain .sum) (ofSentence (some m) s).root ∧
      (ofSentence (some m) s).root.height ≤ m := by
  have hfits : (parsed (some m) s).Fits (parser (some m) s) (.chain .sum) :=
    Parser.fits_of_returns (c := .chain .sum 0 (.tokens s.tokens))
      (Parser.limit_pos rfl hpos)
      (Parser.returns_result _ (.chain .sum 0 (.tokens s.tokens)))
  exact ⟨hfits.derives, hfits.height_eq ▸ hfits.height_le m rfl⟩

/-- Without a limit, the height that is kept beside the expression is its height. -/
theorem height_parsed_none (s : Sentence) :
    Derives (.chain .sum) (parsed none s).expression ∧
      (parsed none s).height = (parsed none s).expression.height := by
  have hfits : (parsed none s).Fits (parser none s) (.chain .sum) :=
    Parser.fits_of_returns (c := .chain .sum 0 (.tokens s.tokens)) (fun m hm => by cases hm)
      (Parser.returns_result _ (.chain .sum 0 (.tokens s.tokens)))
  exact ⟨hfits.derives, hfits.height_eq⟩

/-- **Completeness.** Without a limit, the written tokens of a recovered derivation are read as
that derivation, and nothing is reported unless it has stand-ins. -/
theorem ofSentence_none_of_derives {e : Expression} (h : Derives (.chain .sum) e)
    (hrecovered : e.Recovered s.endOfFile.position) (htokens : s.tokens = e.written) :
    ∃ ds, ofSentence none s = ⟨e, s.endOfFile, ds⟩ ∧ (e.missing = [] → ds = []) := by
  obtain ⟨ds, heq, hds⟩ := Parser.chain_written (p := parser none s) rfl s.endOfFile_kind h
    hrecovered 0
  have hparsed : parsed none s = ⟨e, e.height, ds, .tokens []⟩ := by
    rw [parsed, htokens, heq]
  refine ⟨ds, ?_, hds⟩
  rw [ofSentence_eq, hparsed, ofParsed_of_toList_eq_nil rfl]

/-- Completeness for derivations without stand-ins. -/
theorem ofSentence_none_of_tokens_eq {e : Expression} (h : Derives (.chain .sum) e)
    (hwritten : Token.AllWritten s.tokens) (htokens : e.tokens = s.tokens) :
    ofSentence none s = ⟨e, s.endOfFile, []⟩ := by
  have hmissing : e.missing = [] :=
    List.filter_eq_nil_iff.mpr fun t ht => by simp [hwritten t (htokens ▸ ht)]
  obtain ⟨ds, heq, hds⟩ := ofSentence_none_of_derives h (.of_missing_eq_nil hmissing)
    (htokens ▸ (Expression.written_eq_tokens hmissing).symm)
  rw [heq, hds hmissing]

/-- Without a limit every token of a sentence is accounted for. -/
theorem accounts_parsed (hwritten : Token.AllWritten s.tokens) :
    (parsed none s).Accounts s.toList s.tokens :=
  Parser.accounts_of_returns (c := .chain .sum 0 (.tokens s.tokens)) rfl s.endOfFile_kind
    (by simp [Sentence.toList, parser])
    (Parser.returns_result (parser none s) (.chain .sum 0 (.tokens s.tokens)))
    (Remaining.isLive_tokens s.tokens) hwritten (by simp [Sentence.toList])

/-- Without a limit the first token that is left is one of the sentence, and it is reported in the
place of the mark. -/
theorem ofParsed_of_rest_eq_cons (hwritten : Token.AllWritten s.tokens) {t : Token}
    {ts : List Token} (hrest : (parsed none s).rest.toList = t :: ts) :
    t ∈ s.tokens ∧
      ofParsed s (parsed none s) =
        ⟨(parsed none s).expression, .endOfFile t.position,
          (parsed none s).diagnostics ++
            [⟨.unexpectedToken t.kind .endOfFile, t.position⟩]⟩ := by
  have haccounts := accounts_parsed hwritten
  have hmem : t ∈ s.tokens := by
    rw [← haccounts.written_eq, hrest]
    simp
  exact ⟨hmem, ofParsed_of_toList_eq_cons haccounts.live hrest (kind_ne_endOfFile_of_mem hmem)⟩

/-- Without a limit nothing is reported but tokens in the place of others. -/
theorem cause_of_mem_diagnostics (hwritten : Token.AllWritten s.tokens) {d : Diagnostic}
    (h : d ∈ (ofSentence none s).diagnostics) :
    ∃ found expected, d.cause = .unexpectedToken found expected := by
  rw [ofSentence_eq] at h
  rcases List.mem_append.mp h with h | h
  · obtain ⟨t, -, u, -, -, -, rfl⟩ := (accounts_parsed hwritten).exists_of_mem_diagnostics h
    exact ⟨_, _, rfl⟩
  · by_cases hkind : ((parsed none s).rest.current (parser none s).endOfFile).kind = .endOfFile
    · simp [Parser.expect_of_kind hkind] at h
    · rw [Parser.expect_of_kind_ne hkind, (accounts_parsed hwritten).live.report,
        List.mem_singleton] at h
      exact ⟨_, _, congrArg Diagnostic.cause h⟩

/-- Under every limit, the expression of a sentence keeps its tokens. -/
theorem keeps_parsed (limit : Option Nat) (hwritten : Token.AllWritten s.tokens) :
    (parsed limit s).Keeps s.tokens :=
  Parser.keeps_of_returns (p := parser limit s) (c := .chain .sum 0 (.tokens s.tokens))
    s.endOfFile_kind (Parser.returns_result _ (.chain .sum 0 (.tokens s.tokens))) hwritten

/-- **Soundness.** When nothing is reported, without a limit, the tokens of the expression are
those of the sentence. -/
theorem tokens_root_of_diagnostics_eq_nil (hwritten : Token.AllWritten s.tokens)
    (h : (ofSentence none s).diagnostics = []) :
    (ofSentence none s).root.tokens = s.tokens ∧
      (ofSentence none s).endOfFile = s.endOfFile := by
  have haccounts := accounts_parsed hwritten
  obtain ⟨hdiagnostics, -⟩ := List.append_eq_nil_iff.mp h
  have hmissing : (parsed none s).expression.missing = [] :=
    List.forall₂_nil_right_iff.mp (hdiagnostics ▸ haccounts.reported)
  have hnil : (parsed none s).rest.toList = [] :=
    toList_eq_nil_of_diagnostics_eq_nil haccounts.live
      (fun t ht => haccounts.written_eq ▸ List.mem_append_right _ ht) h
  rw [ofSentence_eq, ofParsed_of_toList_eq_nil hnil]
  refine ⟨?_, rfl⟩
  rw [← Expression.written_eq_tokens hmissing, ← haccounts.written_eq, hnil, List.append_nil]

/-! ### The limit -/

/-- The reading under the limit tracks the one without. -/
theorem tracks_parsed (hpos : 0 < m) (s : Sentence) :
    (parsed (some m) s).Tracks m 0 (parsed none s) :=
  Parser.tracks_chain (p := parser (some m) s) rfl hpos s.endOfFile_kind .sum 0 s.tokens

/-- Up to the limit, the readings with and without it are equal. -/
theorem ofSentence_of_height_le (hpos : 0 < m) (h : (ofSentence none s).root.height ≤ m) :
    ofSentence (some m) s = ofSentence none s := by
  have hheight := (height_parsed_none s).2
  rcases (tracks_parsed hpos s).eq_or_gaveUp with ⟨heq, -⟩ | ⟨-, -, hlt⟩
  · rw [ofSentence_eq, ofSentence_eq, heq]
  · rw [ofSentence_eq] at h
    exact absurd h (by simp only [ofParsed]; omega)

/-- Beyond the limit, reading stops with the report of it, behind a first part of what is
reported without a limit. -/
theorem cutShort_of_lt_height (hpos : 0 < m) (h : m < (ofSentence none s).root.height) :
    Diagnostic.CutShort m (ofSentence (some m) s).diagnostics (ofSentence none s).diagnostics ∧
      (ofSentence (some m) s).endOfFile = s.endOfFile := by
  have hheight := (height_parsed_none s).2
  rcases (tracks_parsed hpos s).eq_or_gaveUp with ⟨-, hle⟩ | ⟨hrest, hcut, -⟩
  · rw [ofSentence_eq] at h
    exact absurd h (by simp only [ofParsed]; omega)
  · rw [ofSentence_eq, ofSentence_eq, ofParsed_of_toList_eq_nil (by rw [hrest]; rfl)]
    exact ⟨hcut.append_right _, rfl⟩

end Reading

/-! ### Words -/

/-- **Unambiguity.** Two derivations with the same tokens are the same. -/
theorem Derives.unique {e f : Expression} (he : Derives (.chain .sum) e)
    (hf : Derives (.chain .sum) f) (htokens : e.tokens = f.tokens)
    (hwritten : Token.AllWritten e.tokens) : e = f := by
  let s : Sentence := ⟨e.tokens, .endOfFile 0, he.significant, rfl⟩
  have h := Reading.ofSentence_none_of_tokens_eq (s := s) he hwritten rfl
  rw [Reading.ofSentence_none_of_tokens_eq (s := s) hf hwritten htokens.symm] at h
  exact (congrArg Reading.root h).symm

/-- The tokens of a text are written. -/
theorem Sentence.allWritten_ofText (text : String) :
    Token.AllWritten (Sentence.ofText text).tokens :=
  fun _ => Sentence.isEmpty_of_mem_tokens

namespace Reading

/-- There may be at least one level. -/
theorem depthLimit_pos : 0 < depthLimit := by decide

/-- What is reported about a line: the defects of its tokens, and then those of their order. -/
theorem diagnostics_ofText (text : String) :
    (ofText text).diagnostics = Token.defects (Token.scan text) ++
      (ofSentence (some depthLimit) (Sentence.ofText text)).diagnostics := rfl

/-- Under the depth limit, the tree of a line keeps the tokens of the line. -/
theorem keeps_ofText (text : String) :
    (parsed (some depthLimit) (Sentence.ofText text)).Keeps (Sentence.ofText text).tokens :=
  keeps_parsed _ (Sentence.allWritten_ofText text)

/-- A token of the tree with a text is one of the line. -/
theorem mem_tokens_of_isEmpty_eq_false {text : String} {t : Token}
    (ht : t ∈ (ofText text).root.tokens) (hwritten : t.isEmpty = false) :
    t ∈ (Sentence.ofText text).tokens := by
  refine (keeps_ofText text).consumed.subset (List.mem_append_left _ ?_)
  exact Expression.mem_written.mpr ⟨ht, hwritten⟩

/-- A sentence whose kinds are a word is read without a limit as a derivation of that height. -/
theorem ofSentence_none_of_isWordOfHeight {s : Sentence} {n : Nat}
    (hwritten : Token.AllWritten s.tokens) (h : IsWordOfHeight n (s.tokens.map Token.kind)) :
    (ofSentence none s).root.height = n ∧ (ofSentence none s).diagnostics = [] := by
  obtain ⟨e, he, hkinds, hheight⟩ := h
  obtain ⟨f, hf, htokens, hfheight⟩ := he.of_kinds hkinds.symm
  rw [ofSentence_none_of_tokens_eq hf hwritten htokens]
  exact ⟨hfheight.trans hheight, rfl⟩

/-- A valid line is read as the derivation of its tokens. -/
theorem root_of_diagnostics_eq_nil {text : String} (h : (ofText text).diagnostics = []) :
    ofSentence none (Sentence.ofText text) =
        ofSentence (some depthLimit) (Sentence.ofText text) ∧
      (ofText text).root.tokens = (Sentence.ofText text).tokens ∧
      (ofText text).endOfFile = (Sentence.ofText text).endOfFile := by
  obtain ⟨-, hsentence⟩ := List.append_eq_nil_iff.mp (diagnostics_ofText text ▸ h)
  have hle : (ofSentence none (Sentence.ofText text)).root.height ≤ depthLimit := by
    by_contra hlt
    exact (cutShort_of_lt_height depthLimit_pos (Nat.lt_of_not_le hlt)).1.ne_nil hsentence
  have heq := ofSentence_of_height_le depthLimit_pos hle
  have hsound := tokens_root_of_diagnostics_eq_nil (Sentence.allWritten_ofText text)
    (heq ▸ hsentence)
  rw [← heq] at hsound
  exact ⟨heq.symm, hsound⟩

/-- **Recognition.** A line is valid exactly when its tokens have no defects and their kinds are
a word of the language whose derivation is within the depth limit. A valid line is read as that
derivation, the only one of its tokens, and none of its tokens is lost, added or moved. A line
that is a word without defects and only too high has the report of the limit and no other. -/
theorem isValid_iff_isWord (text : String) :
    ((ofText text).diagnostics = [] ↔
      Token.defects (Token.scan text) = [] ∧
        ∃ n ≤ depthLimit, IsWordOfHeight n ((Sentence.ofText text).tokens.map Token.kind)) ∧
    ((ofText text).diagnostics = [] →
      Derives (.chain .sum) (ofText text).root ∧
        (∀ e, Derives (.chain .sum) e → e.tokens = (Sentence.ofText text).tokens →
          e = (ofText text).root) ∧
        (ofText text).root.tokens ++ [(ofText text).endOfFile] =
          (Sentence.ofText text).toList) ∧
    ∀ n, IsWordOfHeight n ((Sentence.ofText text).tokens.map Token.kind) →
      Token.defects (Token.scan text) = [] → depthLimit < n →
        ∃ position, (ofText text).diagnostics = [⟨.tooDeep depthLimit, position⟩] := by
  have hwritten := Sentence.allWritten_ofText text
  obtain ⟨hderives, hheight⟩ := derives_root depthLimit_pos (Sentence.ofText text)
  refine ⟨⟨fun h => ?_, ?_⟩, fun h => ?_, ?_⟩
  · obtain ⟨-, htokens, -⟩ := root_of_diagnostics_eq_nil h
    refine ⟨(List.append_eq_nil_iff.mp h).1, _, hheight, _, hderives, ?_, rfl⟩
    exact congrArg (List.map Token.kind) htokens
  · rintro ⟨hdefects, n, hn, hword⟩
    obtain ⟨hroot, hdiagnostics⟩ := ofSentence_none_of_isWordOfHeight hwritten hword
    rw [diagnostics_ofText, hdefects,
      ofSentence_of_height_le depthLimit_pos (hroot ▸ hn), hdiagnostics, List.append_nil]
  · obtain ⟨heq, htokens, hmark⟩ := root_of_diagnostics_eq_nil h
    refine ⟨hderives, fun e he hetokens => ?_, ?_⟩
    · exact he.unique hderives (hetokens.trans htokens.symm) (hetokens ▸ hwritten)
    · rw [htokens, hmark, Sentence.toList]
  · rintro n hword hdefects hlt
    obtain ⟨hroot, hdiagnostics⟩ := ofSentence_none_of_isWordOfHeight hwritten hword
    obtain ⟨⟨before, position, hbefore, heq⟩, -⟩ :=
      cutShort_of_lt_height depthLimit_pos (hroot.symm ▸ hlt)
    obtain rfl : before = [] := List.prefix_nil.mp (hdiagnostics ▸ hbefore)
    refine ⟨position, ?_⟩
    rw [diagnostics_ofText, hdefects, heq]
    rfl

end Reading

end Calculator
