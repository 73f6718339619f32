import Calculator.Proofs.Recognition

/-!
# What the Grammar Expects

The words of the language, told from left to right. Behind a part of a line it only matters
whether an operand is due and how many groups are open (`Expectation`). A numeral or an opening
parenthesis comes where an operand is due, an operator or a closing parenthesis where none is;
levels of operators play no role. What has come so far can always be completed, so a list of
kinds begins a word exactly as long as none of them was refused.

The parser without a limit goes the same way. It reports nothing as long as the tokens come as
expected, and its first report is made at the first token that is refused, which may be the mark
for the end (`Parsed.Follows`).

* `Expectation.next?`, `Expectation.run?` — one token, and several;
* `Derives.run?_tokens`, `isWord_iff_run?` — the words of the language;
* `Parser.follows_of_returns` — what holds of every result of the parser;
* `isViable_iff_run?` — the beginnings of words.
-/

namespace Calculator

/-- What the grammar **expects** behind a part of a line. -/
structure Expectation where
  /-- Whether an operand is due. -/
  operandDue : Bool
  /-- The number of groups that are open. -/
  openGroups : Nat
deriving DecidableEq

namespace Expectation

/-- At the start of a line an operand is due. -/
def start : Expectation := ⟨true, 0⟩

/-- At the end of a word nothing is due and no group is open. -/
def done : Expectation := ⟨false, 0⟩

/-- What is expected behind a token of a kind, if such a token may come next. -/
def next? : Expectation → Token.Kind → Option Expectation
  | ⟨true, n⟩, .number => some ⟨false, n⟩
  | ⟨true, n⟩, .groupOpen => some ⟨true, n + 1⟩
  | ⟨false, n⟩, .operator _ => some ⟨true, n⟩
  | ⟨false, n + 1⟩, .groupClose => some ⟨false, n⟩
  | _, _ => none

/-- What is expected behind several tokens. -/
def run? (x : Expectation) (kinds : List Token.Kind) : Option Expectation :=
  kinds.foldlM next? x

/-- A token of this kind cannot come next. The mark for the end can, when a word has ended. -/
def Refuses (x : Expectation) (k : Token.Kind) : Prop :=
  x.next? k = none ∧ ¬ (k = .endOfFile ∧ x = done)

variable {x y z : Expectation} {n : Nat}

@[simp] theorem run?_nil (x : Expectation) : x.run? [] = some x := rfl

/-- A run goes on behind its first kind. -/
theorem run?_cons (x : Expectation) (k : Token.Kind) (ks : List Token.Kind) :
    x.run? (k :: ks) = (x.next? k).bind (run? · ks) := rfl

/-- A run can be made in two parts. -/
theorem run?_append (x : Expectation) (ks ls : List Token.Kind) :
    x.run? (ks ++ ls) = (x.run? ks).bind (run? · ls) :=
  List.foldlM_append

/-- A run goes on where its first part came to. -/
theorem run?_append_of_run? {ks : List Token.Kind} (h : x.run? ks = some y)
    (ls : List Token.Kind) : x.run? (ks ++ ls) = y.run? ls := by
  rw [run?_append, h]
  rfl

/-- A run on one kind is one step. -/
theorem run?_singleton (x : Expectation) (k : Token.Kind) : x.run? [k] = x.next? k := by
  rw [run?_cons]
  cases x.next? k <;> rfl

@[simp] theorem next?_number : next? ⟨true, n⟩ .number = some ⟨false, n⟩ := rfl

@[simp] theorem next?_groupOpen : next? ⟨true, n⟩ .groupOpen = some ⟨true, n + 1⟩ := rfl

@[simp] theorem next?_groupClose : next? ⟨false, n + 1⟩ .groupClose = some ⟨false, n⟩ := rfl

/-- An operator is expected behind an operand, and then an operand is due. -/
theorem next?_of_has {l : Level} {k : Token.Kind} (h : l.has k) :
    next? ⟨false, n⟩ k = some ⟨true, n⟩ := by
  cases k with
  | operator => rfl
  | _ => simp [Level.has, Token.Kind.operator?] at h

/-- Only significant tokens are expected. -/
theorem isSignificant_of_next? {k : Token.Kind} (h : x.next? k = some y) :
    k.isSignificant = true := by
  obtain ⟨due, n⟩ := x
  cases k with
  | bad | blank | endOfFile => cases due <;> cases n <;> simp [next?] at h
  | _ => rfl

/-- What a run gets through is significant, kind by kind. -/
theorem isSignificant_of_run? {ks : List Token.Kind} (h : x.run? ks = some y) :
    ∀ k ∈ ks, k.isSignificant = true := by
  induction ks generalizing x with
  | nil => simp
  | cons k ks ih =>
      rw [run?_cons, Option.bind_eq_some_iff] at h
      obtain ⟨z, hz, h⟩ := h
      simp only [List.forall_mem_cons]
      exact ⟨isSignificant_of_next? hz, ih h⟩

/-- **Completion.** Whatever is expected, the line can be completed. -/
theorem exists_run?_eq_done (x : Expectation) : ∃ ks, x.run? ks = some done := by
  have hclose (n : Nat) : run? ⟨false, n⟩ (List.replicate n .groupClose) = some done := by
    induction n with
    | zero => rfl
    | succ n ih => exact ih
  obtain ⟨due, n⟩ := x
  cases due with
  | false => exact ⟨_, hclose n⟩
  | true => exact ⟨.number :: List.replicate n .groupClose, hclose n⟩

/-- Where an operand is due, everything else is refused. -/
theorem refuses_of_operandDue {k : Token.Kind} (hnumber : k ≠ .number)
    (hopening : k ≠ .groupOpen) : Refuses ⟨true, n⟩ k := by
  refine ⟨?_, fun h => absurd h.2 (by simp [done])⟩
  cases k with
  | number => exact absurd rfl hnumber
  | groupOpen => exact absurd rfl hopening
  | _ => rfl

/-- Inside a group, everything but an operator or a closing parenthesis is refused behind an
operand. -/
theorem refuses_of_open {k : Token.Kind} (hoperator : k.operator? = none)
    (hclosing : k ≠ .groupClose) : Refuses ⟨false, n + 1⟩ k := by
  refine ⟨?_, fun h => absurd h.2 (by simp [done])⟩
  cases k with
  | operator o => simp [Token.Kind.operator?] at hoperator
  | groupClose => exact absurd rfl hclosing
  | _ => rfl

/-- Outside of groups, everything but an operator or the mark for the end is refused behind an
operand. -/
theorem refuses_of_done {k : Token.Kind} (hoperator : k.operator? = none)
    (hmark : k ≠ .endOfFile) : done.Refuses k := by
  refine ⟨?_, fun h => hmark h.1⟩
  cases k with
  | operator o => simp [Token.Kind.operator?] at hoperator
  | _ => rfl

end Expectation

open Expectation

/-- From where an operand is due, a derivation leads to where none is. -/
theorem Derives.run?_tokens {c : Category} {e : Expression} (h : Derives c e) (n : Nat) :
    run? ⟨true, n⟩ (e.tokens.map Token.kind) = some ⟨false, n⟩ := by
  induction h generalizing n with
  | numeral hkind => simp [Expression.tokens, hkind, run?_cons]
  | group hopening _ hclosing ih =>
      simp only [Expression.tokens, List.cons_append, List.map_cons, List.map_append, hopening,
        hclosing, run?_cons, next?_groupOpen, Option.bind_some]
      rw [run?_append_of_run? (ih (n + 1))]
      rfl
  | single _ ih => exact ih n
  | step _ hoperator _ ihleft ihright =>
      rw [Expression.tokens, List.map_append, run?_append_of_run? (ihleft n), List.map_cons,
        run?_cons, next?_of_has hoperator]
      exact ihright n

/-! ### The parser -/

/-- The tokens `ts` are refused somewhere when they are run from `x`, and the first of the
diagnostics `ds` is made at the first token that is refused. -/
def Expectation.FailsOn (x : Expectation) (ts : List Token) (ds : List Diagnostic) : Prop :=
  ∃ before t after d es y, ts = before ++ t :: after ∧ ds = d :: es ∧
    d.position = t.position ∧ x.run? (before.map Token.kind) = some y ∧ y.Refuses t.kind

namespace Expectation.FailsOn

variable {x y : Expectation} {ts us : List Token} {ds : List Diagnostic}

/-- What fails goes on failing, whatever else is reported behind it. -/
theorem append_diagnostics (h : x.FailsOn ts ds) (fs : List Diagnostic) :
    x.FailsOn ts (ds ++ fs) := by
  obtain ⟨before, t, after, d, es, y, hts, rfl, hposition, hrun, hrefuses⟩ := h
  exact ⟨before, t, after, d, es ++ fs, y, hts, by simp, hposition, hrun, hrefuses⟩

/-- A failure behind tokens that came as expected. -/
theorem behind (h : y.FailsOn ts ds) (hrun : x.run? (us.map Token.kind) = some y) :
    x.FailsOn (us ++ ts) ds := by
  obtain ⟨before, t, after, d, es, z, rfl, hds, hposition, hrun', hrefuses⟩ := h
  refine ⟨us ++ before, t, after, d, es, z, by simp, hds, hposition, ?_, hrefuses⟩
  rw [List.map_append, run?_append_of_run? hrun, hrun']

end Expectation.FailsOn

/-- How a result **follows** the tokens it was read from, where `n` groups are open: nothing is
reported, and what was taken is one operand as far as expectations go; or the first report is made
at the first token that is refused. -/
inductive Parsed.Follows (endOfFile : Token) (n : Nat) (ts : List Token) (e : Parsed) : Prop
  /-- All tokens that were taken came as expected. -/
  | clean (taken : List Token) (hlive : e.rest.IsLive) (hdiagnostics : e.diagnostics = [])
      (htokens : ts = taken ++ e.rest.toList)
      (hrun : run? ⟨true, n⟩ (taken.map Token.kind) = some ⟨false, n⟩) : Follows endOfFile n ts e
  /-- A token was refused. -/
  | fails (h : FailsOn ⟨true, n⟩ (ts ++ [endOfFile]) e.diagnostics) : Follows endOfFile n ts e

namespace Parser

variable {p : Parser} {n : Nat} {ts : List Token}

/-- The report of a token that is missing is made where the next token is refused. -/
theorem failsOn_expect {x : Expectation} {kind : Token.Kind} {r : Remaining} (hlive : r.IsLive)
    (hkind : (r.current p.endOfFile).kind ≠ kind)
    (hrefuses : x.Refuses (r.current p.endOfFile).kind) :
    x.FailsOn (r.toList ++ [p.endOfFile]) (p.expect kind r).diagnostics := by
  rw [expect_of_kind_ne hkind, hlive.report]
  have hcurrent : ∃ after, r.toList ++ [p.endOfFile] = r.current p.endOfFile :: after := by
    cases hr : r.toList with
    | nil => exact ⟨[], by simp [Remaining.current, hr]⟩
    | cons t us => exact ⟨us ++ [p.endOfFile], by simp [Remaining.current, hr]⟩
  obtain ⟨after, hafter⟩ := hcurrent
  exact ⟨[], _, after, _, [], x, hafter, rfl, rfl, rfl, hrefuses⟩

/-- **A numeral** follows what is expected: it is there, or its absence is the first failure. -/
theorem follows_numeral (hmark : p.endOfFile.kind = .endOfFile) {r : Remaining}
    (hlive : r.IsLive) (hnone : r.takeIf (· == .groupOpen) = none) :
    (p.numeral r).Follows p.endOfFile n r.toList := by
  rcases p.expect_cases .number r (by simp [hmark]) with ⟨t, us, rfl, hkind, heq⟩ | ⟨hkind, -⟩
  · refine .clean [t] ?_ ?_ ?_ ?_ <;> simp [numeral, heq, hkind, run?_singleton]
  · refine .fails (failsOn_expect hlive hkind (refuses_of_operandDue hkind fun hopening => ?_))
    rw [Remaining.takeIf_eq_none_iff] at hnone
    cases hr : r.toList with
    | nil => simp [Remaining.current, hr, hmark] at hopening
    | cons t us =>
        rw [Remaining.current, hr] at hopening
        have hne := hnone t (by simp [hr])
        simp_all

/-- **A node** follows what is expected if its operands do. The first failure is that of the left
operand, and if this one has none, it is that of the right one. -/
theorem follows_join (hlimit : p.limit = none) {us : List Token} {left right : Parsed}
    {operator : Token} {l : Level} (hleft : left.Follows p.endOfFile n ts)
    (hrest : left.rest.toList = operator :: us) (hoperator : l.has operator.kind)
    (hright : right.Follows p.endOfFile n us) :
    (p.join left operator right).Follows p.endOfFile n ts := by
  rw [join, bounded_of_limit_none hlimit]
  cases hleft with
  | fails h => exact .fails (h.append_diagnostics right.diagnostics)
  | clean taken _ hdiagnostics htokens hrun =>
      subst htokens
      have hoperand : run? ⟨true, n⟩ ((taken ++ [operator]).map Token.kind) =
          some ⟨true, n⟩ := by
        rw [List.map_append, run?_append_of_run? hrun]
        exact (run?_singleton _ _).trans (next?_of_has hoperator)
      cases hright with
      | clean taken' hlive' hdiagnostics' htokens' hrun' =>
          refine .clean (taken ++ [operator] ++ taken') hlive' ?_ ?_ ?_
          · simp [hdiagnostics, hdiagnostics']
          · simp [hrest, htokens']
          · rw [List.map_append, run?_append_of_run? hoperand, hrun']
      | fails h =>
          refine .fails ?_
          have hbehind := h.behind hoperand
          simpa [hdiagnostics, hrest] using hbehind

/-- **A group** follows what is expected if the expression in it does, with one more group open.
Where the closing parenthesis is missing, the token in its place is refused, because no operator
follows on the expression. -/
theorem follows_enclose (hlimit : p.limit = none) (hmark : p.endOfFile.kind = .endOfFile)
    {opening : Token} {inner : Parsed} (hopening : opening.kind = .groupOpen)
    (hinner : inner.Follows p.endOfFile (n + 1) ts)
    (hpast : ∀ t ∈ inner.rest.toList.head?, t.kind.operator? = none) :
    (p.enclose opening inner).Follows p.endOfFile n (opening :: ts) := by
  have hopened : run? ⟨true, n⟩ ([opening].map Token.kind) = some ⟨true, n + 1⟩ := by
    rw [List.map_singleton, run?_singleton, hopening, next?_groupOpen]
  rw [enclose, bounded_of_limit_none hlimit]
  cases hinner with
  | fails h => exact .fails ((h.append_diagnostics _).behind hopened)
  | clean taken hlive hdiagnostics htokens hrun =>
      subst htokens
      have hoperand : run? ⟨true, n⟩ ((opening :: taken).map Token.kind) =
          some ⟨false, n + 1⟩ := by
        rw [← List.singleton_append, List.map_append, run?_append_of_run? hopened, hrun]
      rcases p.expect_cases .groupClose inner.rest (by simp [hmark]) with
        ⟨closing, us, hrest, hkind, heq⟩ | ⟨hkind, -⟩
      · rw [heq]
        refine .clean (opening :: taken ++ [closing]) (by simp) ?_ ?_ ?_
        · simp [hdiagnostics]
        · simp [hrest]
        · rw [List.map_append, run?_append_of_run? hoperand, List.map_singleton, run?_singleton,
            hkind, next?_groupClose]
      · refine .fails ?_
        have hoperator : (inner.rest.current p.endOfFile).kind.operator? = none := by
          cases hr : inner.rest.toList with
          | nil => simp [Remaining.current, hr, hmark, Token.Kind.operator?]
          | cons t us => simpa [Remaining.current, hr] using hpast t (by simp [hr])
        have hbehind :=
          (failsOn_expect hlive hkind (refuses_of_open hoperator hkind)).behind hoperand
        simpa [hdiagnostics] using hbehind

/-- How the result of a call follows the tokens it was read from. The rest of a chain follows
those of its left operand. -/
def Call.Follows (endOfFile : Token) (e : Parsed) : Call → Prop
  | .chain _ n r | .operand _ n r | .primary n r => r.IsLive → e.Follows endOfFile n r.toList
  | .extend _ n left => ∀ ts, left.Follows endOfFile n ts → e.Follows endOfFile n ts

/-- **The first report.** Without a limit every result follows the tokens it was read from.
Induction on the run: the groups that are open are those that the parser counts. -/
theorem follows_of_returns (hlimit : p.limit = none) (hmark : p.endOfFile.kind = .endOfFile)
    {c : Call} {e : Parsed} (h : p.Returns c e) : c.Follows p.endOfFile e := by
  induction h with
  | chain _ _ ihfirst ihrest => exact fun hlive => ihrest _ (ihfirst hlive)
  | sumOperand _ ih | productOperand _ ih => exact ih
  | stop => exact fun _ hleft => hleft
  | @step l n left right e operator us hoperator _ _ ihright ihrest =>
      intro ts hleft
      obtain ⟨hrest, hkind⟩ := Remaining.takeIf_eq_some_iff.mp hoperator
      exact ihrest ts (follows_join hlimit hleft hrest hkind (ihright (by simp)))
  | numeral hnone => exact fun hlive => follows_numeral hmark hlive hnone
  | refused _ hrefused =>
      rw [exhausted?_of_limit_none hlimit] at hrefused
      exact absurd hrefused (by simp)
  | @group n r opening us inner hopening _ hinner ih =>
      intro _
      obtain ⟨htokens, hkind⟩ := Remaining.takeIf_eq_some_iff.mp hopening
      rw [htokens]
      exact follows_enclose hlimit hmark (by simpa using hkind) (ih (by simp))
        (operator?_of_chain_sum hinner)

end Parser

/-- Without a limit a sentence is read without a report, and then its tokens come as expected from
the start to the end; or its first report is made at the first token that is refused. -/
theorem Reading.run?_or_failsOn (s : Sentence) :
    ((ofSentence none s).diagnostics = [] ∧
        start.run? (s.tokens.map Token.kind) = some done) ∨
      start.FailsOn s.toList (ofSentence none s).diagnostics := by
  have hreturns := Parser.returns_result (parser none s) (.chain .sum 0 (.tokens s.tokens))
  have hfollows : (parsed none s).Follows s.endOfFile 0 s.tokens :=
    Parser.follows_of_returns (p := parser none s) rfl s.endOfFile_kind hreturns (by simp)
  rw [ofSentence_eq]
  cases hfollows with
  | fails h => exact .inr (h.append_diagnostics _)
  | clean taken hlive hdiagnostics htokens hrun =>
      cases hrest : (parsed none s).rest.toList with
      | nil =>
          left
          rw [hrest, List.append_nil] at htokens
          rw [ofParsed_of_toList_eq_nil hrest]
          exact ⟨hdiagnostics, htokens ▸ hrun⟩
      | cons t us =>
          right
          have hmem : t ∈ s.tokens := by
            rw [htokens, hrest]
            simp
          have hkind := kind_ne_endOfFile_of_mem hmem
          -- behind the operand that was read there is no operator, and so nothing may come
          have hoperator : t.kind.operator? = none :=
            Parser.operator?_of_chain_sum hreturns t (Option.mem_def.mpr
              (congrArg List.head? hrest))
          rw [ofParsed_of_toList_eq_cons hlive hrest hkind]
          refine ⟨taken, t, us ++ [s.endOfFile], ⟨.unexpectedToken t.kind .endOfFile, t.position⟩,
            [], done, ?_, ?_, rfl, hrun, refuses_of_done hoperator hkind⟩
          · rw [Sentence.toList, htokens, hrest]
            simp
          · rw [hdiagnostics]
            rfl

/-! ### Words and their beginnings -/

/-- A list of kinds **begins** a word of the language. -/
def IsViable (kinds : List Token.Kind) : Prop :=
  ∃ rest, IsWord (kinds ++ rest)

/-- Tokens that come as expected from the start to the end are not refused. -/
theorem Expectation.not_failsOn_of_run? {s : Sentence}
    (h : start.run? (s.tokens.map Token.kind) = some done) (ds : List Diagnostic) :
    ¬ start.FailsOn s.toList ds := by
  rintro ⟨before, t, after, d, es, y, htokens, -, -, hrun, hnext, hmark⟩
  rcases List.eq_nil_or_concat after with rfl | ⟨us, u, rfl⟩
  · -- the refused token is the mark behind all tokens
    obtain ⟨rfl, hlast⟩ := List.append_inj' htokens rfl
    obtain rfl : s.endOfFile = t := by simpa using hlast
    rw [h] at hrun
    exact hmark ⟨s.endOfFile_kind, (Option.some.inj hrun).symm⟩
  · have hlast : s.tokens ++ [s.endOfFile] = (before ++ t :: us) ++ [u] := by
      simpa [Sentence.toList] using htokens
    obtain ⟨hall, -⟩ := List.append_inj' hlast rfl
    rw [hall, List.map_append, run?_append_of_run? hrun, List.map_cons, run?_cons, hnext] at h
    simp at h

/-- **The words of the language** are the lists of kinds that come as expected, from the start to
the end. -/
theorem isWord_iff_run? (kinds : List Token.Kind) :
    IsWord kinds ↔ start.run? kinds = some done := by
  constructor
  · rintro ⟨e, he, rfl⟩
    exact he.run?_tokens 0
  · intro h
    -- any line with these kinds will do, since it is read without a report
    let token (k : Token.Kind) : Token := ⟨k, 0, "x", none⟩
    have hkinds : (kinds.map token).map Token.kind = kinds := by
      rw [List.map_map]
      exact List.map_id kinds
    let s : Sentence :=
      { tokens := kinds.map token
        endOfFile := .endOfFile 0
        significant := by
          simp only [List.forall_mem_map]
          exact isSignificant_of_run? h
        endOfFile_kind := rfl }
    have hrun : start.run? (s.tokens.map Token.kind) = some done := hkinds.symm ▸ h
    have hwritten : Token.AllWritten s.tokens := by
      simp only [Token.AllWritten, s, List.forall_mem_map]
      exact fun _ _ => rfl
    have hdiagnostics : (Reading.ofSentence none s).diagnostics = [] := by
      rcases Reading.run?_or_failsOn s with ⟨hnil, -⟩ | hfails
      · exact hnil
      · exact absurd hfails (not_failsOn_of_run? hrun _)
    obtain ⟨htokens, -⟩ := Reading.tokens_root_of_diagnostics_eq_nil hwritten hdiagnostics
    exact ⟨_, (Reading.height_parsed_none s).1, htokens ▸ hkinds⟩

/-- The beginnings of words are the lists of kinds of which none is refused. -/
theorem isViable_iff_run? (kinds : List Token.Kind) :
    IsViable kinds ↔ ∃ x, start.run? kinds = some x := by
  constructor
  · rintro ⟨rest, hword⟩
    rw [isWord_iff_run?, run?_append, Option.bind_eq_some_iff] at hword
    obtain ⟨x, hx, -⟩ := hword
    exact ⟨x, hx⟩
  · rintro ⟨x, hx⟩
    obtain ⟨rest, hrest⟩ := x.exists_run?_eq_done
    exact ⟨rest, (isWord_iff_run? _).mpr ((run?_append_of_run? hx rest).trans hrest)⟩

end Calculator
