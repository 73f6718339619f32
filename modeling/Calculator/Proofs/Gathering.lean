import Calculator.TokenStream
import Calculator.Proofs.Scanning

/-!
# What Is Gathered

A pass over some tokens, told from its end: which tokens it keeps, and which mark closes them. The
pass has two ways to end, at a mark that it meets or behind the last token, and for each of them the
stream is written down in full. From these two equations the rest follows without another
induction: a stream that is gathered again stays as it is, what stands behind a mark has no say, and
the stream is that of the sentence that is read.

That tokens are cut from the text one by one makes no difference. A pass that asks a scanner for
them asks until it meets the mark, which is the last thing that the scanner has to give, so it gets
all the tokens and leaves the scanner where it would be left otherwise, with the same diagnostics.

* `Gathering.tokens_gather_append_cons`, `Gathering.tokens_gather` — a pass that meets a mark, and
  one that meets none;
* `TokenStream.ofTokens_eq` — the stream of a list is that of its sentence;
* `Gathering.draw_eq` — a pass through a scanner;
* `TokenStream.isNormalForm_of_list_and_text` — the normal form of a list and of a text.
-/

namespace Calculator

namespace TokenStream

/-- A stream is known by its tokens. -/
theorem eq_of_tokens_eq {S T : TokenStream} (h : S.tokens = T.tokens) : S = T := by
  obtain ⟨hinner, hmark⟩ := List.append_singleton_inj.mp h
  cases S
  cases T
  congr

/-- A look at an index shows the token there, and the mark when there is none. -/
theorem peek_eq (S : TokenStream) (i : Nat) : S.peek i = S.tokens[i]?.getD S.endOfFile := by
  have hpeek : S.tokens[min i S.last]? = some (S.peek i) := by
    rw [peek, List.get_eq_getElem, List.getElem?_eq_getElem]
  rcases Nat.lt_or_ge i S.tokens.length with h | h
  · have hmin : min i S.last = i := by
      simp only [last] at *
      omega
    rw [hmin] at hpeek
    rw [hpeek, Option.getD_some]
  · have hmin : min i S.last = S.inner.length := by
      rw [← S.last_eq]
      simp only [last] at *
      omega
    rw [hmin, tokens, List.getElem?_concat_length] at hpeek
    rw [List.getElem?_eq_none h, Option.getD_none, Option.some.inj hpeek]

/-- The mark is what is seen wherever there is no token in front of it. -/
theorem peek_eq_inner (S : TokenStream) (i : Nat) : S.peek i = S.inner[i]?.getD S.endOfFile := by
  rw [peek_eq, tokens]
  rcases Nat.lt_or_ge i S.inner.length with h | h
  · rw [List.getElem?_append_left h]
  · rw [List.getElem?_append_right h, List.getElem?_eq_none h, Option.getD_none]
    cases i - S.inner.length <;> rfl

end TokenStream

namespace Token

/-- A token is **kept** when it is neither a blank nor bad. -/
def isKept (t : Token) : Bool :=
  t.kind ≠ .bad && t.kind ≠ .blank

/-- Among tokens that are no marks, those that are kept are the significant ones. -/
theorem isKept_eq_isSignificant {t : Token} (h : t.kind ≠ .endOfFile) :
    t.isKept = t.kind.isSignificant := by
  cases hkind : t.kind with
  | endOfFile => exact absurd hkind h
  | _ => simp [isKept, hkind, Kind.isSignificant]

end Token

/-! ### A pass through a list -/

namespace Gathering

variable {t mark : Token} {ts : List Token}

/-- A token that is no mark leaves the pass going on. -/
theorem exists_add_eq_inr (g : Gathering) (h : t.kind ≠ .endOfFile) :
    ∃ g', g.add t = .inr g' ∧ g'.kept = g.kept ++ [t].filter Token.isKept ∧ g'.stop = t.stop := by
  rw [add, dif_neg h]
  by_cases hdropped : t.kind = .bad ∨ t.kind = .blank
  · rw [if_pos hdropped]
    refine ⟨_, rfl, ?_, rfl⟩
    rcases hdropped with hkind | hkind <;> simp [Token.isKept, hkind]
  · rw [if_neg hdropped]
    refine ⟨_, rfl, ?_, rfl⟩
    have hkept : t.isKept = true := by simpa [Token.isKept] using not_or.mp hdropped
    simp [hkept]

/-- **At a mark** a pass is over: what it keeps of the tokens before is closed with this mark. -/
theorem tokens_gather_append_cons (g : Gathering) (h : ∀ t ∈ ts, t.kind ≠ .endOfFile)
    (hmark : mark.kind = .endOfFile) (us : List Token) :
    (g.gather (ts ++ mark :: us)).tokens = g.kept ++ ts.filter Token.isKept ++ [mark] := by
  induction ts generalizing g with
  | nil => simp [gather, add, hmark, close, TokenStream.tokens]
  | cons t ts ih =>
      obtain ⟨ht, hts⟩ := List.forall_mem_cons.mp h
      obtain ⟨g', hadd, hkept, -⟩ := g.exists_add_eq_inr ht
      have hfilter : (t :: ts).filter Token.isKept =
          [t].filter Token.isKept ++ ts.filter Token.isKept := List.filter_append [t] ts
      rw [List.cons_append, gather, hadd]
      dsimp only
      rw [ih g' hts, hkept, hfilter]
      simp only [List.append_assoc]

/-- **Without a mark** a pass goes through all the tokens, and makes a mark where the last of them
stopped. -/
theorem tokens_gather (g : Gathering) (h : ∀ t ∈ ts, t.kind ≠ .endOfFile) :
    (g.gather ts).tokens =
      g.kept ++ ts.filter Token.isKept ++ [.endOfFile (ts.getLast?.elim g.stop Token.stop)] := by
  induction ts generalizing g with
  | nil => simp [gather, finish, close, TokenStream.tokens]
  | cons t ts ih =>
      obtain ⟨ht, hts⟩ := List.forall_mem_cons.mp h
      obtain ⟨g', hadd, hkept, hstop⟩ := g.exists_add_eq_inr ht
      have hfilter : (t :: ts).filter Token.isKept =
          [t].filter Token.isKept ++ ts.filter Token.isKept := List.filter_append [t] ts
      have hlast : (t :: ts).getLast?.elim g.stop Token.stop =
          ts.getLast?.elim t.stop Token.stop := by
        rw [List.getLast?_cons]
        cases ts.getLast? <;> rfl
      rw [gather, hadd]
      dsimp only
      rw [ih g' hts, hkept, hstop, hfilter, hlast]
      simp only [List.append_assoc]

end Gathering

/-! ### The stream of a list -/

/-- A list with a mark has a first one. -/
theorem Token.exists_first_mark {ts : List Token} (h : ∃ t ∈ ts, t.kind = .endOfFile) :
    ∃ before mark after, ts = before ++ mark :: after ∧ (∀ t ∈ before, t.kind ≠ .endOfFile) ∧
      mark.kind = .endOfFile := by
  obtain ⟨t, ht, hkind⟩ := h
  obtain ⟨mark, before, after, hbefore, hmark, hts, -⟩ :=
    List.exists_of_eraseP (p := fun t => t.kind = .endOfFile) ht (by simpa using hkind)
  exact ⟨before, mark, after, hts, by simpa using hbefore, by simpa using hmark⟩

namespace TokenStream

variable {ts before : List Token} {mark : Token}

/-- The stream of a list with a mark. -/
theorem tokens_ofTokens_append_cons (h : ∀ t ∈ before, t.kind ≠ .endOfFile)
    (hmark : mark.kind = .endOfFile) (after : List Token) :
    (ofTokens (before ++ mark :: after)).tokens = before.filter Token.isKept ++ [mark] :=
  Gathering.empty.tokens_gather_append_cons h hmark after

/-- The stream of a list without a mark. -/
theorem tokens_ofTokens (h : ∀ t ∈ ts, t.kind ≠ .endOfFile) :
    (ofTokens ts).tokens =
      ts.filter Token.isKept ++ [.endOfFile (ts.getLast?.elim 0 Token.stop)] :=
  Gathering.empty.tokens_gather h

/-- The stream of a list is **that of its sentence**, which is found without a pass. -/
theorem ofTokens_eq (ts : List Token) : ofTokens ts = (Sentence.ofTokens ts).stream := by
  have hfilter : ∀ us : List Token, (∀ t ∈ us, t.kind ≠ .endOfFile) →
      us.filter Token.isKept = us.filter (·.kind.isSignificant) := fun us hus =>
    List.filter_congr fun t ht => Token.isKept_eq_isSignificant (hus t ht)
  refine eq_of_tokens_eq ?_
  by_cases hts : ∃ t ∈ ts, t.kind = .endOfFile
  · obtain ⟨before, mark, after, rfl, hbefore, hmark⟩ := Token.exists_first_mark hts
    have hwhile : (before ++ mark :: after).takeWhile (fun t => t.kind ≠ .endOfFile) = before := by
      rw [List.takeWhile_append_of_pos (by simpa using hbefore)]
      simp [hmark]
    have hfind : (before ++ mark :: after).find? (fun t => t.kind = .endOfFile) = some mark := by
      rw [List.find?_eq_some_iff_append]
      exact ⟨by simpa using hmark, before, after, rfl, by simpa using hbefore⟩
    rw [tokens_ofTokens_append_cons hbefore hmark, hfilter before hbefore]
    simp only [tokens, Sentence.stream, Sentence.ofTokens, Sentence.markOf, hwhile, hfind,
      Option.getD_some]
  · have hnone : ∀ t ∈ ts, t.kind ≠ .endOfFile := fun t ht hkind => hts ⟨t, ht, hkind⟩
    have hwhile : ts.takeWhile (fun t => t.kind ≠ .endOfFile) = ts := by
      simpa [List.takeWhile_eq_self_iff] using hnone
    have hfind : ts.find? (fun t => t.kind = .endOfFile) = none := by
      simpa [List.find?_eq_none] using hnone
    rw [tokens_ofTokens hnone, hfilter ts hnone]
    simp only [tokens, Sentence.stream, Sentence.ofTokens, Sentence.markOf, hwhile, hfind,
      Option.getD_none]

/-- In the stream of a sentence there is nothing to be dropped. -/
theorem ofTokens_tokens_stream (s : Sentence) : ofTokens s.stream.tokens = s.stream := by
  have hkept : s.stream.inner.filter Token.isKept = s.stream.inner := by
    rw [List.filter_eq_self]
    intro t ht
    rw [Token.isKept_eq_isSignificant (s.stream.inner_kind t ht)]
    exact s.significant t ht
  refine eq_of_tokens_eq ?_
  calc (ofTokens s.stream.tokens).tokens
      = s.stream.inner.filter Token.isKept ++ [s.stream.endOfFile] :=
        tokens_ofTokens_append_cons s.stream.inner_kind s.stream.endOfFile_kind []
    _ = s.stream.tokens := by rw [hkept, tokens]

/-- What stands behind a mark has no say. -/
theorem ofTokens_append (h : ∃ t ∈ ts, t.kind = .endOfFile) (us : List Token) :
    ofTokens (ts ++ us) = ofTokens ts := by
  obtain ⟨before, mark, after, rfl, hbefore, hmark⟩ := Token.exists_first_mark h
  refine eq_of_tokens_eq ?_
  rw [List.append_assoc, List.cons_append, tokens_ofTokens_append_cons hbefore hmark,
    tokens_ofTokens_append_cons hbefore hmark]

/-- There is one mark in a stream. -/
theorem countP_tokens (S : TokenStream) : S.tokens.countP (·.kind = .endOfFile) = 1 := by
  have hinner : S.inner.countP (·.kind = .endOfFile) = 0 := by
    simpa [List.countP_eq_zero] using S.inner_kind
  rw [tokens, List.countP_append, hinner]
  simp [S.endOfFile_kind]

end TokenStream

/-! ### A pass through a scanner -/

namespace Scanner

variable {s left : Scanner} {t : Token}

/-- A scanner has finished when it has handed out the mark. -/
theorem finished_of_next? (h : s.next? = (some t, left)) :
    left.finished = decide (t.kind = .endOfFile) := by
  rw [next?] at h
  split at h
  · simp at h
  · simp only [Prod.mk.injEq, Option.some.injEq] at h
    obtain ⟨rfl, rfl⟩ := h
    rfl

/-- A scanner that has finished has nothing to give. -/
theorem drain_of_next?_none (h : s.next? = (none, left)) : s.drain = ([], left) := by
  rw [drain, fuel, take, h]

/-- The mark is the last thing that a scanner hands out. -/
theorem drain_of_next?_mark (h : s.next? = (some t, left)) (hkind : t.kind = .endOfFile) :
    s.drain = ([t], left) := by
  have hfinished : left.finished = true := by simp [finished_of_next? h, hkind]
  rw [drain, fuel, take, h]
  dsimp only
  rw [take_of_finished hfinished]

/-- Before the mark, a scanner goes on with what is left. -/
theorem drain_of_next?_some (h : s.next? = (some t, left)) (hkind : t.kind ≠ .endOfFile) :
    s.drain = (t :: left.drain.1, left.drain.2) := by
  have hfinished : left.finished = false := by simp [finished_of_next? h, hkind]
  have hlength := length_rest_lt_of_next? h hkind
  -- there are more requests than need be, and how many more is all the same
  have htake : left.take s.rest.length = left.drain := by
    rw [drain, take_of_length_lt hfinished hlength,
      take_of_length_lt (k := left.fuel) hfinished (Nat.lt_succ_self _)]
  rw [drain, fuel, take, h]
  dsimp only
  rw [htake]

end Scanner

/-- A pass that **asks a scanner** comes to the stream of all the tokens that the scanner has to
give, and leaves the scanner as it is when all of them were handed out. -/
theorem Gathering.draw_eq (g : Gathering) (s : Scanner) :
    g.draw s = (g.gather s.drain.1, s.drain.2) := by
  fun_induction draw g s with
  | case1 g s left hnext => rw [Scanner.drain_of_next?_none hnext, gather]
  | case2 g s t left hnext S hadd =>
      have hkind : t.kind = .endOfFile := by
        by_contra hkind
        obtain ⟨g', hadd', -⟩ := g.exists_add_eq_inr hkind
        simp [hadd'] at hadd
      rw [Scanner.drain_of_next?_mark hnext hkind, gather, hadd]
  | case3 g s t left hnext g' hadd _ ih =>
      rw [Scanner.drain_of_next?_some hnext (kind_ne_of_add_eq_inr hadd), ih, gather, hadd]

/-! ### The stream of a text -/

namespace TokenStream

/-- The stream of a text is that of all the tokens that a scanner hands out for it, and the scanner
is left with what is wrong with them. -/
theorem scan_eq_drain (text : String) :
    scan text = (ofTokens (Scanner.ofString text).drain.1,
      (Scanner.ofString text).drain.2.diagnostics) := by
  rw [scan, Gathering.draw_eq]
  rfl

/-- The stream of a text is that of its tokens, with what is wrong with them. -/
theorem scan_eq (text : String) :
    scan text = (ofTokens (Token.scan text), Token.defects (Token.scan text)) := by
  rw [scan_eq_drain, Scanner.drain_ofString]

/-! ### Normal form -/

/-- A stream is the **normal form** of a list of tokens. -/
structure IsNormalForm (ts : List Token) (S : TokenStream) : Prop where
  /-- Behind the first mark of the list nothing counts, and before it the blanks and the bad
  characters do not. The other tokens stay as they are, in their order, and the mark as well. -/
  closed : ∀ before mark after, ts = before ++ mark :: after →
    (∀ t ∈ before, t.kind ≠ .endOfFile) → mark.kind = .endOfFile →
      S.tokens = before.filter Token.isKept ++ [mark]
  /-- A list without a mark gets one at the place where its last token stops, whatever this token
  is, and at the very beginning if the list is empty. -/
  unclosed : (∀ t ∈ ts, t.kind ≠ .endOfFile) →
    S.tokens = ts.filter Token.isKept ++ [.endOfFile (ts.getLast?.elim 0 Token.stop)]
  /-- There is one mark. -/
  countP_eq : S.tokens.countP (·.kind = .endOfFile) = 1
  /-- A stream that is gathered again stays as it is. -/
  again : ofTokens S.tokens = S
  /-- If the list has a mark, more tokens make no difference. -/
  append : (∃ t ∈ ts, t.kind = .endOfFile) → ∀ us, ofTokens (ts ++ us) = S
  /-- A look at an index shows the token there, and the mark when there is none. -/
  peek : ∀ i, S.peek i = S.tokens[i]?.getD S.endOfFile

/-- Every list has the stream that is its normal form, because a pass ends at the first mark or
behind the last token. -/
theorem isNormalForm_ofTokens (ts : List Token) : (ofTokens ts).IsNormalForm ts where
  closed := by
    rintro before mark after rfl hbefore hmark
    exact tokens_ofTokens_append_cons hbefore hmark after
  unclosed := tokens_ofTokens
  countP_eq := countP_tokens _
  again := by
    rw [ofTokens_eq ts]
    exact ofTokens_tokens_stream _
  append := ofTokens_append
  peek := peek_eq _

/-- **Normal form.** The stream of a list is its normal form, and it is the stream of the sentence
in the list. The stream of a text is the stream of all the tokens that a scanner hands out for the
text, which are the tokens of the text; the same is wrong with them; the mark stands at the end. -/
theorem isNormalForm_of_list_and_text :
    (∀ ts : List Token, (ofTokens ts).IsNormalForm ts ∧
      (ofTokens ts).tokens = (Sentence.ofTokens ts).toList ∧
      ∀ i, (ofTokens ts).peek i = (Sentence.ofTokens ts).tokenAt i) ∧
    ∀ text : String,
      scan text = (ofTokens (Scanner.ofString text).drain.1,
        (Scanner.ofString text).drain.2.diagnostics) ∧
      scan text = (ofTokens (Token.scan text), Token.defects (Token.scan text)) ∧
      (scan text).1.endOfFile = .endOfFile text.utf8ByteSize := by
  refine ⟨fun ts => ⟨isNormalForm_ofTokens ts, ?_, fun i => ?_⟩, fun text => ?_⟩
  · rw [ofTokens_eq]
    rfl
  · rw [ofTokens_eq, peek_eq_inner]
    rfl
  · refine ⟨scan_eq_drain text, scan_eq text, ?_⟩
    rw [scan_eq, ofTokens_eq]
    exact Sentence.endOfFile_ofText text

/-- A blank at the end is dropped, and the mark that is made stands behind it all the same. -/
example : (ofTokens [⟨.number, 4, "7", some 7⟩, ⟨.blank, 0, "  ", none⟩]).tokens =
    [⟨.number, 4, "7", some 7⟩, .endOfFile 2] := by
  decide

end TokenStream

end Calculator
