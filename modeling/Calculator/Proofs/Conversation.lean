import Mathlib.Data.List.Chain
import Mathlib.Data.List.SplitBy
import Calculator.Session

/-!
# A Session Line by Line

A session is the concatenation of its lines. Each line that is answered adds its prompt and its
answer to the output, whatever comes before or behind it, and the session goes on as if it began
there. The first line that is not answered ends the session, and the bytes behind it are never
looked at.

The induction is on the lines that are answered (`Session.exists_converse_append`). That bytes can
be cut where a line ends is a matter of `List.splitBy`: no line goes on behind its line feed.

* `Text.IsLine`, `Text.lines_append` — a line, and the lines of what begins with one;
* `Text.not_mem_chomp` — a line without its line break is one line;
* `Options.ofArguments_eq` — what the two options ask for;
* `Session.exists_converse_append` — what lines that are answered add to a session;
* `Session.run_append` — sessions put together, and what ends them.
-/

namespace Calculator

/-! ### Lines of bytes -/

namespace Text

/-- A line that ends with its line feed, the only one in it. -/
def IsLine (line : List UInt8) : Prop :=
  ∃ body, line = body ++ [lineFeed] ∧ lineFeed ∉ body

/-- A line with something to answer: it is well-formed UTF-8 and not only blank. -/
def HasContent (line : List UInt8) : Prop :=
  ∃ text, decode? line = some text ∧ isBlankText text = false

/-- A line that is well-formed UTF-8 and only blank. -/
def IsBlankLine (line : List UInt8) : Prop :=
  ∃ text, decode? line = some text ∧ isBlankText text = true

variable {line : List UInt8}

/-- A line is not cut any further. -/
theorem IsLine.lines_eq (h : IsLine line) : lines line = [line] := by
  obtain ⟨body, rfl, hbody⟩ := h
  have hne : ∀ b ∈ body, (b != lineFeed) = true := by
    intro b hb
    simpa using fun heq : b = lineFeed => hbody (heq ▸ hb)
  refine List.splitBy_of_isChain (by simp) (List.isChain_append.mpr ⟨?_, by simp, ?_⟩)
  · exact (List.pairwise_of_forall_mem_list fun b hb _ _ => hne b hb).isChain
  · exact fun b hb _ _ => hne b (List.mem_of_mem_getLast? hb)

/-- **No line goes on** behind its line feed: what begins with a line has this line, and then the
lines of what follows. -/
theorem lines_append (h : IsLine line) (bytes : List UInt8) :
    lines (line ++ bytes) = line :: lines bytes := by
  have hseam : ∀ b ∈ line.getLast?, ∀ c ∈ bytes.head?, (b != lineFeed) = false := by
    obtain ⟨body, rfl, -⟩ := h
    simp
  rw [lines, List.splitBy_append hseam, ← lines, ← lines, h.lines_eq, List.singleton_append]

/-- Lines put together are cut into these lines again. -/
theorem lines_flatten_append {ls : List (List UInt8)} (h : ∀ line ∈ ls, IsLine line)
    (bytes : List UInt8) : lines (ls.flatten ++ bytes) = ls ++ lines bytes := by
  induction ls with
  | nil => rfl
  | cons line ls ih =>
      rw [List.forall_mem_cons] at h
      rw [List.flatten_cons, List.append_assoc, lines_append h.1, ih h.2, List.cons_append]

/-- Nothing stands behind a line feed in a line. -/
theorem eq_nil_of_mem_lines {bytes before after : List UInt8}
    (h : before ++ lineFeed :: after ∈ lines bytes) : after = [] := by
  cases after with
  | nil => rfl
  | cons b after =>
      have hchain := List.isChain_of_mem_splitBy h
      obtain ⟨-, hnext, -⟩ := List.isChain_append_cons_cons.mp hchain
      simp at hnext

/-- A line is its text in UTF-8, character by character. -/
theorem eq_flatMap_of_decode? {text : String} (h : decode? line = some text) :
    line = text.toList.flatMap String.utf8EncodeChar := by
  rw [decode?, String.fromUTF8?] at h
  split at h
  · have hbytes : text.toByteArray = line.toByteArray := by
      rw [← Option.some.inj h]
      rfl
    rw [← text.ofList_toList, String.toByteArray_ofList, List.utf8Encode] at hbytes
    have hdata := congrArg ByteArray.data hbytes
    rw [List.data_toByteArray, List.data_toByteArray] at hdata
    simpa using (congrArg Array.toList hdata).symm
  · cases h

/-- **No line break is left** in a line when that at its end is taken off. -/
theorem not_mem_chomp {bytes : List UInt8} {text : String} (hline : line ∈ lines bytes)
    (hdecode : decode? line = some text) : '\n' ∉ (chomp text).toList := by
  intro hmem
  have hchomp : (chomp text).toList.reverse = text.toList.reverse.dropWhile isLineBreak := by
    rw [chomp, String.toList_ofList, List.reverse_reverse]
  obtain ⟨before, after, hsplit⟩ := List.append_of_mem hmem
  obtain ⟨dropped, hdropped⟩ := List.dropWhile_suffix isLineBreak (l := text.toList.reverse)
  have htext : text.toList = before ++ '\n' :: (after ++ dropped.reverse) := by
    rw [← text.toList.reverse_reverse, ← hdropped, ← hchomp, hsplit]
    simp
  -- so the line feed that is left is the last of the line, and of what is left
  have hlast : after ++ dropped.reverse = [] := by
    have hfeed : String.utf8EncodeChar '\n' = [lineFeed] := by decide
    rw [eq_flatMap_of_decode? hdecode, htext, List.flatMap_append, List.flatMap_cons, hfeed,
      List.singleton_append] at hline
    have hnil := eq_nil_of_mem_lines hline
    rw [List.flatMap_eq_nil_iff] at hnil
    exact List.eq_nil_iff_forall_not_mem.mpr fun c hc => String.utf8EncodeChar_ne_nil (hnil c hc)
  obtain ⟨rfl, -⟩ := List.append_eq_nil_iff.mp hlast
  have hdrop : text.toList.reverse.dropWhile isLineBreak = '\n' :: before.reverse := by
    rw [← hchomp, hsplit]
    simp
  have hkept := List.head_dropWhile_not isLineBreak (l := text.toList.reverse) (by simp [hdrop])
  simp [hdrop, isLineBreak] at hkept

end Text

/-! ### Options -/

namespace Options

/-- The options that are set by the arguments in a list. -/
def among (arguments : List String) : Options :=
  ⟨decide ("--tree" ∈ arguments), decide ("--tokens" ∈ arguments)⟩

/-- Each of the two options is set once it is among the arguments, in whichever place. -/
theorem foldlM_add {arguments : List String}
    (h : ∀ a ∈ arguments, a = "--tree" ∨ a = "--tokens") (o : Options) :
    arguments.foldlM add o =
      .ok ⟨o.showOutline || decide ("--tree" ∈ arguments),
        o.showTokens || decide ("--tokens" ∈ arguments)⟩ := by
  induction arguments generalizing o with
  | nil => simp [pure, Except.pure]
  | cons a arguments ih =>
      rw [List.forall_mem_cons] at h
      obtain ⟨rfl | rfl, hothers⟩ := h
      · have hadd : o.add "--tree" = .ok { o with showOutline := true } := rfl
        rw [List.foldlM_cons, hadd]
        exact (ih hothers _).trans (by simp)
      · have hadd : o.add "--tokens" = .ok { o with showTokens := true } := rfl
        rw [List.foldlM_cons, hadd]
        exact (ih hothers _).trans (by simp)

/-- Arguments that are all among the two options are accepted. -/
theorem ofArguments_eq {arguments : List String}
    (h : ∀ a ∈ arguments, a = "--tree" ∨ a = "--tokens") :
    ofArguments arguments = .ok (among arguments) := by
  rw [ofArguments, foldlM_add h]
  simp [none, among]

end Options

/-! ### Output -/

namespace Output

/-- Outputs are put together stream by stream, so it does not matter where they are split. -/
theorem append_assoc (a b c : Output) : a ++ b ++ c = a ++ (b ++ c) := by
  show append (append a b) c = append a (append b c)
  simp [append, String.append_assoc]

@[simp] theorem empty_append (a : Output) : empty ++ a = a := by
  show append empty a = a
  simp [append, empty]

@[simp] theorem append_empty (a : Output) : a ++ empty = a := by
  show append a empty = a
  simp [append, empty]

end Output

/-! ### Sessions -/

namespace Session

variable {o : Options} {line : List UInt8} {others : List (List UInt8)}

/-- A session with an output in front of its own. -/
def after (s : Session) (output : Output) : Session :=
  ⟨output ++ s.output, s.exitCode⟩

/-- What was said first stands in front. -/
theorem after_after (s : Session) (a b : Output) : (s.after b).after a = s.after (a ++ b) := by
  rw [after, after, after, Output.append_assoc]

/-- A line with content is answered, and the session goes on. -/
theorem converse_cons_of_hasContent {text : String} (hdecode : Text.decode? line = some text)
    (hcontent : Text.isBlankText text = false) :
    converse o (line :: others) =
      (converse o others).after (prompt ++ o.answer (Text.chomp text)) := by
  have hrespond : o.respond line = .continued (o.answer (Text.chomp text)) := by
    simp [Options.respond, hdecode, hcontent]
  rw [converse, hrespond]
  rfl

/-- A blank line ends the session as the end of the input does. -/
theorem converse_cons_of_isBlankLine (h : Text.IsBlankLine line) :
    converse o (line :: others) = ⟨prompt, 0⟩ := by
  obtain ⟨text, hdecode, hblank⟩ := h
  have hrespond : o.respond line = .ended .empty 0 := by
    simp [Options.respond, hdecode, hblank]
  rw [converse, hrespond]
  simp

/-- A line that is not well-formed ends the session as a failure. -/
theorem converse_cons_of_decode?_eq_none (h : Text.decode? line = none) :
    converse o (line :: others) = ⟨prompt ++ .err undecodable, 1⟩ := by
  have hrespond : o.respond line = .ended (.err undecodable) 1 := by
    simp [Options.respond, h]
  rw [converse, hrespond]

/-- **Lines with content** add their prompts and answers to a session, and nothing else. Induction
on these lines. -/
theorem exists_converse_append (o : Options) {lines : List (List UInt8)}
    (h : ∀ line ∈ lines, Text.HasContent line) :
    ∃ said, ∀ others, converse o (lines ++ others) = (converse o others).after said := by
  induction lines with
  | nil => exact ⟨.empty, fun others => by rw [after, Output.empty_append]; rfl⟩
  | cons line lines ih =>
      rw [List.forall_mem_cons] at h
      obtain ⟨⟨text, hdecode, hcontent⟩, hlines⟩ := h
      obtain ⟨said, hsaid⟩ := ih hlines
      refine ⟨prompt ++ o.answer (Text.chomp text) ++ said, fun others => ?_⟩
      rw [List.cons_append, converse_cons_of_hasContent hdecode hcontent, hsaid, after_after]

/-- A run with the two options is a session on the lines of the input. -/
theorem run_eq {arguments : List String}
    (h : ∀ a ∈ arguments, a = "--tree" ∨ a = "--tokens") (input : List UInt8) :
    run arguments input = converse (.among arguments) (Text.lines input) := by
  rw [run, Options.ofArguments_eq h]

/-- **Sessions put together.** Lines with content say what they say, without the prompt behind
them, and then the run goes on with the other bytes as if it began there. If a blank line
follows, the run ends in front of it, and the bytes behind it make no difference. If a line
follows that is not well-formed, the run fails there. -/
theorem run_append {arguments : List String}
    (harguments : ∀ a ∈ arguments, a = "--tree" ∨ a = "--tokens") {lines : List (List UInt8)}
    (hlines : ∀ line ∈ lines, Text.IsLine line ∧ Text.HasContent line) :
    (∃ said, (run arguments lines.flatten).output.stdout = said ++ "> " ∧
      ∀ bytes,
        (run arguments (lines.flatten ++ bytes)).output.stdout =
          said ++ (run arguments bytes).output.stdout ∧
        (run arguments (lines.flatten ++ bytes)).output.stderr =
          (run arguments lines.flatten).output.stderr ++ (run arguments bytes).output.stderr ∧
        (run arguments (lines.flatten ++ bytes)).exitCode = (run arguments bytes).exitCode) ∧
    (∀ blank bytes, Text.IsLine blank → Text.IsBlankLine blank →
      run arguments (lines.flatten ++ blank ++ bytes) = run arguments lines.flatten ∧
        (run arguments lines.flatten).exitCode = 0) ∧
    ∀ bad bytes, Text.IsLine bad → Text.decode? bad = none →
      (run arguments (lines.flatten ++ bad ++ bytes)).output.stdout =
          (run arguments lines.flatten).output.stdout ∧
        (run arguments (lines.flatten ++ bad ++ bytes)).output.stderr =
          (run arguments lines.flatten).output.stderr ++
            "Error: stream did not contain valid UTF-8\n" ∧
        (run arguments (lines.flatten ++ bad ++ bytes)).exitCode = 1 := by
  obtain ⟨said, hsaid⟩ :=
    exists_converse_append (.among arguments) fun line hline => (hlines line hline).2
  have hrun (bytes : List UInt8) :
      run arguments (lines.flatten ++ bytes) = (run arguments bytes).after said := by
    rw [run_eq harguments, Text.lines_flatten_append fun line hline => (hlines line hline).1, hsaid,
      ← run_eq harguments]
  have hempty : run arguments [] = ⟨prompt, 0⟩ := by
    rw [run_eq harguments]
    rfl
  have halone : run arguments lines.flatten = ⟨said ++ prompt, 0⟩ := by
    rw [← List.append_nil lines.flatten, hrun, hempty]
    rfl
  refine ⟨⟨said.stdout, ?_, fun bytes => ⟨?_, ?_, ?_⟩⟩, fun blank bytes hline hblank => ⟨?_, ?_⟩,
    fun bad bytes hline hbad => ?_⟩
  · rw [halone]
    rfl
  · rw [hrun]
    rfl
  · rw [hrun, halone]
    simp [after, prompt, Output.out]
  · rw [hrun]
    rfl
  · rw [List.append_assoc, hrun, run_eq harguments, Text.lines_append hline,
      converse_cons_of_isBlankLine hblank, halone]
    rfl
  · rw [halone]
  · rw [List.append_assoc, hrun, run_eq harguments, Text.lines_append hline,
      converse_cons_of_decode?_eq_none hbad, halone]
    simp [after, prompt, undecodable, Output.out, Output.err]

/-- A line with an error: in front of a line without a line feed, of a line with only a tabulator,
and of a line that is not well-formed. -/
theorem run_append_error :
    Text.IsLine [40, 10] ∧ Text.HasContent [40, 10] ∧
      (∃ said, (run ["--tree"] [40, 10]).output.stdout = said ++ "> " ∧
        (run ["--tree"] [40, 10, 49]).output.stdout =
          said ++ (run ["--tree"] [49]).output.stdout) ∧
      run ["--tree"] [40, 10, 9, 10, 255] = run ["--tree"] [40, 10] ∧
      (run ["--tree"] [40, 10, 255, 10, 49]).output.stderr =
        (run ["--tree"] [40, 10]).output.stderr ++
          "Error: stream did not contain valid UTF-8\n" := by
  have hisLine (b : UInt8) (hb : b ≠ 10) : Text.IsLine [b, 10] :=
    ⟨[b], rfl, by simpa [Text.lineFeed] using hb.symm⟩
  have hcontent : Text.HasContent [40, 10] := ⟨"(\n", by decide +kernel, by decide +kernel⟩
  have hblank : Text.IsBlankLine [9, 10] := ⟨"\t\n", by decide +kernel, by decide +kernel⟩
  have hline := hisLine 40 (by decide)
  obtain ⟨⟨said, halone, hmore⟩, hended, hfailed⟩ :=
    @run_append ["--tree"] (by simp) [[40, 10]] (by simpa using ⟨hline, hcontent⟩)
  exact ⟨hline, hcontent, ⟨said, halone, (hmore [49]).1⟩,
    (hended [9, 10] [255] (hisLine 9 (by decide)) hblank).1,
    (hfailed [255, 10] [49] (hisLine 255 (by decide)) (by decide +kernel)).2.1⟩

end Session

end Calculator
