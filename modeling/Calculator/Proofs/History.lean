import Calculator.Proofs.Scanning
import Calculator.Proofs.Seam

/-!
# Every History of a Scanner

A scanner can be asked for a token in two ways, in any order and as often as one likes, and it can
be copied between two requests. Both ways move the same cursor and note the same defects; only
one of them can come to an end. So what a scanner answers depends on how many tokens it has handed
out and on whether `next?` has met the end, and on nothing else in its history.

A text in use is a list of scanners, each with the entries of its history (`Scanner.Tracked`); a
copy takes the history of its original along. The invariant is that a scanner that has handed out
`n` tokens stands behind the first `n` pieces of the text (`Scanner.Stands`).

* `Token.nth` — the tokens of a text, with the end repeated forever;
* `Scanner.Stands.read` — what one token more does;
* `Scanner.Tracked.Faithful.ask` — what one request does to a history;
* `Scanner.answers_of_mem_inUse` — what is true of every scanner after every history.
-/

namespace Calculator

namespace Token

/-! ### The tokens by their numbers -/

/-- The token of a text with a number. The mark for the end has every number behind those of the
pieces. -/
def nth (text : String) (n : Nat) : Token :=
  (scan text)[n]?.getD (.endOfFile text.utf8ByteSize)

/-- The token at an index of a text is the piece there, placed behind the text of the pieces before
it, or else the mark. -/
theorem nth_eq (text : String) (n : Nat) :
    nth text n = ((lexemes text.toList)[n]?.map
      (ofLexeme (byteSize ((lexemes text.toList).take n).flatten))).getD
        (.endOfFile text.utf8ByteSize) := by
  have hmark : [endOfFile text.utf8ByteSize][n - (spread 0 (lexemes text.toList)).length]?.getD
      (.endOfFile text.utf8ByteSize) = .endOfFile text.utf8ByteSize := by
    cases n - (spread 0 (lexemes text.toList)).length <;> rfl
  rw [nth, scan_eq, List.getElem?_append]
  split
  · rw [getElem?_spread, Nat.zero_add]
  · next hlt =>
    have hnone : (spread 0 (lexemes text.toList))[n]? = none :=
      List.getElem?_eq_none (Nat.le_of_not_lt hlt)
    rw [getElem?_spread, Nat.zero_add] at hnone
    rw [hmark, hnone]
    rfl

/-- The defects of the first tokens of a text are those of its first pieces. -/
theorem defects_take_scan (text : String) (n : Nat) :
    defects ((scan text).take n) = defects (spread 0 ((lexemes text.toList).take n)) := by
  have hmark (k : Nat) : defects ([endOfFile text.utf8ByteSize].take k) = [] := by
    cases k with
    | zero => rfl
    | succ k => rw [List.take_of_length_le (by simp)]; rfl
  rw [scan_eq, List.take_append, take_spread, defects_append, hmark, List.append_nil]

end Token

namespace Scanner

variable {text : String} {n : Nat} {s : Scanner}

/-! ### Where a scanner stands -/

/-- A scanner **stands** behind the first `n` pieces of a text. -/
structure Stands (text : String) (n : Nat) (s : Scanner) : Prop where
  /-- The other pieces are still to be read. -/
  rest_eq : s.rest = ((lexemes text.toList).drop n).flatten
  /-- The cursor is behind the bytes of the first pieces. -/
  position_eq : s.position = Token.byteSize ((lexemes text.toList).take n).flatten
  /-- The defects of the first pieces are noted. -/
  diagnostics_eq : s.diagnostics = Token.defects (Token.spread 0 ((lexemes text.toList).take n))

/-- A new scanner stands in front of the first token. -/
theorem stands_ofString (text : String) : Stands text 0 (ofString text) where
  rest_eq := (flatten_lexemes text.toList).symm
  position_eq := rfl
  diagnostics_eq := rfl

/-- Behind the last piece a scanner stays where it is, and reads the mark for the end. -/
theorem Stands.read_of_drop_eq_nil (h : s.Stands text n)
    (hdrop : (lexemes text.toList).drop n = []) :
    s.read = (Token.nth text n, s) ∧ s.Stands text (n + 1) := by
  have hlength := List.drop_eq_nil_iff.mp hdrop
  have htake : (lexemes text.toList).take n = lexemes text.toList := List.take_of_length_le hlength
  have htake' : (lexemes text.toList).take (n + 1) = lexemes text.toList :=
    List.take_of_length_le (Nat.le_succ_of_le hlength)
  have hdrop' : (lexemes text.toList).drop (n + 1) = [] :=
    List.drop_eq_nil_iff.mpr (Nat.le_succ_of_le hlength)
  obtain ⟨hrest, hposition, hdiagnostics⟩ := h
  constructor
  · rw [read_of_rest_nil (by rw [hrest, hdrop, List.flatten_nil]), Token.nth_eq,
      List.getElem?_eq_none hlength, hposition, htake, flatten_lexemes, Token.byteSize_toList]
    rfl
  · exact ⟨by rw [hrest, hdrop, hdrop'], by rw [hposition, htake, htake'],
      by rw [hdiagnostics, htake, htake']⟩

/-- In front of a piece a scanner reads the piece and goes on behind it. -/
theorem Stands.read_of_drop_eq_cons (h : s.Stands text n) {piece : List Char}
    {pieces : List (List Char)} (hdrop : (lexemes text.toList).drop n = piece :: pieces) :
    s.read.1 = Token.nth text n ∧ s.read.2.Stands text (n + 1) := by
  have hsplit : lexemes text.toList = (lexemes text.toList).take n ++ piece :: pieces := by
    rw [← hdrop, List.take_append_drop]
  have hpiece : (lexemes text.toList)[n]? = some piece := by
    rw [← List.head?_drop, hdrop, List.head?_cons]
  have htake : (lexemes text.toList).take (n + 1) = (lexemes text.toList).take n ++ [piece] := by
    rw [List.take_add_one, hpiece, Option.toList_some]
  have hdrop' : (lexemes text.toList).drop (n + 1) = pieces := by
    rw [← List.tail_drop, hdrop, List.tail_cons]
  obtain ⟨hrest, hposition, hdiagnostics⟩ := h
  -- the pieces of the rest are those that are left, so its first piece is the next one
  have hpieces := (lexemes_flatten_of_append hsplit).2
  obtain ⟨c, cs, rfl⟩ := List.exists_cons_of_ne_nil
    (isLexeme_of_mem (List.mem_of_getElem? hpiece)).1
  rw [List.flatten_cons, List.cons_append, lexemes_cons, List.cons.injEq] at hpieces
  rw [hdrop, List.flatten_cons, List.cons_append] at hrest
  obtain ⟨hfirst, hothers⟩ := hpieces
  have hafter := flatten_lexemes ((cs ++ pieces.flatten).dropWhile (joins c))
  rw [hothers] at hafter
  rw [read_of_rest_cons hrest, hfirst]
  refine ⟨?_, ?_, ?_, ?_⟩
  · rw [Token.nth_eq, hpiece, hposition]
    rfl
  · rw [hdrop']
    exact hafter.symm
  · rw [htake, List.flatten_append, Token.byteSize_append, hposition]
    simp
  · rw [htake, Token.spread_append, Token.defects_append, hdiagnostics, hposition, Nat.zero_add,
      Token.spread, Token.defects_cons]
    simp [Token.spread, Token.defects]

/-- **One token more.** A scanner behind `n` pieces reads the token with this number. -/
theorem Stands.read (h : s.Stands text n) :
    s.read.1 = Token.nth text n ∧ s.read.2.Stands text (n + 1) := by
  cases hdrop : (lexemes text.toList).drop n with
  | nil =>
      obtain ⟨hread, hnext⟩ := h.read_of_drop_eq_nil hdrop
      rw [hread]
      exact ⟨rfl, hnext⟩
  | cons piece pieces => exact h.read_of_drop_eq_cons hdrop

/-- The cursor of a scanner lies between two characters of the text, or at one of its ends, and
what is still to be read is the text behind it. -/
theorem Stands.exists_append (h : s.Stands text n) :
    ∃ before after, text = before ++ after ∧ s.position = before.utf8ByteSize ∧
      s.rest = after.toList := by
  obtain ⟨before, after, htext, hbefore, hafter⟩ := exists_append_of_lexemes text n
  refine ⟨before, after, htext, ?_, h.rest_eq.trans hafter.symm⟩
  rw [h.position_eq, ← hbefore, Token.byteSize_toList]

/-- The token that is read is the text behind the cursor, and the cursor moves over this text. -/
theorem Stands.exists_append_read (h : s.Stands text n) :
    ∃ before after, text = before ++ s.read.1.text ++ after ∧
      s.position = before.utf8ByteSize ∧
      s.read.2.position = (before ++ s.read.1.text).utf8ByteSize ∧
      s.read.2.rest = after.toList := by
  obtain ⟨before, after, htext, hposition, hrest⟩ := h.exists_append
  cases hafter : s.rest with
  | nil =>
      obtain rfl : after = "" := String.toList_eq_nil_iff.mp (hrest.symm.trans hafter)
      rw [read_of_rest_nil hafter]
      have hempty : before ++ (Token.endOfFile s.position).text = before := String.append_empty
      exact ⟨before, "", by rw [hempty, htext], hposition, by rw [hempty, hposition], hafter⟩
  | cons c cs =>
      rw [read_of_rest_cons hafter]
      refine ⟨before, String.ofList (cs.dropWhile (joins c)), ?_, hposition, ?_, ?_⟩
      · have hsplit : after = String.ofList (c :: cs.takeWhile (joins c)) ++
            String.ofList (cs.dropWhile (joins c)) := by
          rw [← String.ofList_append, List.cons_append, List.takeWhile_append_dropWhile,
            ← hafter, hrest, String.ofList_toList]
        rw [htext, hsplit, ← String.append_assoc]
        rfl
      · rw [String.utf8ByteSize_append, ← hposition]
        rfl
      · rw [String.toList_ofList]

/-! ### Requests -/

/-- The two ways to ask a scanner for a token. -/
inductive Request
  /-- The token that is read next; the mark for the end over and over. -/
  | read
  /-- The next token of a sequence that ends with the mark. -/
  | next
deriving DecidableEq

/-- The answer to a request, and the scanner behind it. -/
def ask (s : Scanner) : Request → Option Token × Scanner
  | .read => (some s.read.1, s.read.2)
  | .next => s.next?

/-- Reading leaves it open whether the sequence has ended. -/
theorem finished_read (s : Scanner) : s.read.2.finished = s.finished := by
  cases hrest : s.rest with
  | nil => rw [read_of_rest_nil hrest]
  | cons c cs => rw [read_of_rest_cons hrest]

/-- At the end of the text reading changes nothing. -/
theorem read_of_kind_endOfFile (h : s.read.1.kind = .endOfFile) : s.read.2 = s := by
  cases hrest : s.rest with
  | nil => rw [read_of_rest_nil hrest]
  | cons c cs =>
      rw [read_of_rest_cons hrest] at h
      exact absurd h (Token.ofChar_ne_endOfFile c)

/-- What a request can do: it finds the sequence at its end, or it reads a token. -/
theorem ask_cases (s : Scanner) (r : Request) :
    ((r = .next ∧ s.finished = true) ∧ s.ask r = (none, s)) ∨
      (¬ (r = .next ∧ s.finished = true) ∧
        s.ask r = (some s.read.1,
          { s.read.2 with
            finished := s.finished || decide (r = .next ∧ s.read.1.kind = .endOfFile) })) := by
  cases r with
  | read =>
      right
      refine ⟨by simp, ?_⟩
      simp [ask, ← finished_read s]
  | next =>
      cases hfinished : s.finished with
      | true => simp [ask, next?, hfinished]
      | false => simp [ask, next?, hfinished]

/-- A request that is answered by the mark for the end, or not at all, moves nothing. -/
theorem ask_of_forall_endOfFile {r : Request}
    (h : ∀ t ∈ (s.ask r).1, t.kind = .endOfFile) :
    (s.ask r).2.rest = s.rest ∧ (s.ask r).2.position = s.position ∧
      (s.ask r).2.diagnostics = s.diagnostics := by
  rcases s.ask_cases r with ⟨-, heq⟩ | ⟨-, heq⟩
  · rw [heq]
    exact ⟨rfl, rfl, rfl⟩
  · rw [heq] at h ⊢
    rw [read_of_kind_endOfFile (h _ rfl)]
    exact ⟨rfl, rfl, rfl⟩

/-! ### Histories -/

/-- A request and the answer to it. -/
structure Entry where
  /-- How a token was asked for. -/
  request : Request
  /-- The token that was handed out, if any. -/
  answer : Option Token
deriving DecidableEq

/-- The mark for the end was handed out in the sequence, and so the sequence has ended. -/
def Entry.Ends (e : Entry) : Prop :=
  e.request = .next ∧ ∃ t ∈ e.answer, t.kind = .endOfFile

/-- A scanner with its history. -/
structure Tracked where
  /-- The scanner as it is now. -/
  scanner : Scanner
  /-- The requests made of it, and of what it is a copy of, in their order. -/
  history : List Entry
deriving DecidableEq

/-- What is done with the scanners of a text. They are known by their numbers. -/
inductive Action
  /-- A scanner is asked for a token. -/
  | ask (index : Nat) (request : Request)
  /-- A scanner is copied. -/
  | copy (index : Nat)
deriving DecidableEq

namespace Tracked

/-- A request is made, and it is noted with its answer. -/
def ask (t : Tracked) (r : Request) : Tracked where
  scanner := (t.scanner.ask r).2
  history := t.history ++ [⟨r, (t.scanner.ask r).1⟩]

/-- The tokens that were handed out. -/
def tokens (t : Tracked) : List Token :=
  t.history.filterMap Entry.answer

/-- One step in the use of a text. A copy gets the next number. -/
def perform (ts : List Tracked) : Action → List Tracked
  | .ask index request => ts.modify index (·.ask request)
  | .copy index => ts ++ ts[index]?.toList

end Tracked

/-- The scanners of a text after a number of steps. There is one at the start. -/
def inUse (text : String) (actions : List Action) : List Tracked :=
  actions.foldl Tracked.perform [⟨ofString text, []⟩]

/-- A history is **faithful** to a text when it is that of a scanner which hands out the tokens of
the text one after the other, and in the sequence nothing behind the mark for the end. -/
structure Tracked.Faithful (text : String) (t : Tracked) : Prop where
  /-- The scanner stands behind as many pieces as it has handed out tokens. -/
  stands : t.scanner.Stands text t.tokens.length
  /-- The tokens were handed out in the order of the text. -/
  tokens_eq : t.tokens = (List.range t.tokens.length).map (Token.nth text)
  /-- The scanner knows whether the sequence has ended. -/
  finished_iff : t.scanner.finished = true ↔ ∃ e ∈ t.history, e.Ends
  /-- Nothing was handed out exactly where the sequence was asked for and had ended. -/
  answer_eq_none_iff : ∀ i e, t.history[i]? = some e →
    (e.answer = none ↔ e.request = .next ∧ ∃ d ∈ t.history.take i, d.Ends)

namespace Tracked

variable {t : Tracked}

/-- The history of a scanner that was just made is faithful: there is nothing in it. -/
theorem faithful_ofString (text : String) : Faithful text ⟨ofString text, []⟩ where
  stands := stands_ofString text
  tokens_eq := rfl
  finished_iff := by simp [ofString]
  answer_eq_none_iff := by simp

/-- What is said of the entries of a history stays true when an entry is added, if it is true of
this one. -/
theorem forall_getElem?_append {es : List Entry} {e : Entry} (p : List Entry → Entry → Prop)
    (h : ∀ i d, es[i]? = some d → p (es.take i) d) (he : p es e) :
    ∀ i d, (es ++ [e])[i]? = some d → p ((es ++ [e]).take i) d := by
  intro i d hd
  rcases Nat.lt_trichotomy i es.length with hlt | rfl | hlt
  · rw [List.getElem?_append_left hlt] at hd
    rw [List.take_append_of_le_length (Nat.le_of_lt hlt)]
    exact h i d hd
  · rw [List.getElem?_concat_length] at hd
    obtain rfl := Option.some.inj hd
    rw [List.take_left]
    exact he
  · rw [List.getElem?_eq_none (by rw [List.length_append]; exact hlt)] at hd
    cases hd

/-- An answer that is recorded adds its token, if it has one. -/
theorem tokens_append (s : Scanner) (t : Tracked) (e : Entry) :
    tokens ⟨s, t.history ++ [e]⟩ = t.tokens ++ e.answer.toList := by
  rw [tokens, tokens, List.filterMap_append]
  cases h : e.answer <;> simp [h]

/-- One entry more keeps a history faithful, if it is the entry that is due. -/
theorem Faithful.append (h : t.Faithful text) {s : Scanner} {e : Entry}
    (hstands : s.Stands text (t.tokens.length + e.answer.toList.length))
    (htoken : ∀ u ∈ e.answer, u = Token.nth text t.tokens.length)
    (hfinished : s.finished = true ↔ t.scanner.finished = true ∨ e.Ends)
    (hanswer : e.answer = none ↔ e.request = .next ∧ t.scanner.finished = true) :
    Faithful text ⟨s, t.history ++ [e]⟩ := by
  refine ⟨?_, ?_, ?_, ?_⟩
  · rw [tokens_append, List.length_append]
    exact hstands
  · rw [tokens_append, List.length_append]
    cases hsome : e.answer with
    | none =>
        rw [Option.toList_none, List.append_nil]
        exact h.tokens_eq
    | some u =>
        rw [htoken u hsome, Option.toList_some, List.length_singleton, List.range_succ,
          List.map_append, ← h.tokens_eq]
        rfl
  · rw [hfinished, h.finished_iff]
    simp only [List.mem_append, List.mem_singleton, or_and_right, exists_or, exists_eq_left]
  · rw [h.finished_iff] at hanswer
    exact forall_getElem?_append
      (fun es e => e.answer = none ↔ e.request = .next ∧ ∃ d ∈ es, d.Ends)
      h.answer_eq_none_iff hanswer

/-- **One request more.** A request keeps a history faithful: it finds the sequence at its end, or
it reads the token with the next number. -/
theorem Faithful.ask (h : t.Faithful text) (r : Request) : (t.ask r).Faithful text := by
  rw [Tracked.ask]
  rcases t.scanner.ask_cases r with ⟨hend, heq⟩ | ⟨hend, heq⟩ <;> rw [heq]
  · exact h.append h.stands (by simp) (by simp [Entry.Ends]) (by simpa using hend)
  · obtain ⟨hread, hnext⟩ := h.stands.read
    exact h.append ⟨hnext.rest_eq, hnext.position_eq, hnext.diagnostics_eq⟩ (by simp [hread])
      (by simp [Entry.Ends]) (by simpa using hend)

/-- Whatever is done with faithful scanners, they stay faithful. -/
theorem faithful_perform {ts : List Tracked} (h : ∀ t ∈ ts, t.Faithful text) (a : Action) :
    ∀ t ∈ perform ts a, t.Faithful text := by
  cases a with
  | ask index request =>
      intro t ht
      obtain ⟨i, hi⟩ := List.getElem?_of_mem ht
      rw [perform, List.getElem?_modify, Option.map_eq_map, Option.map_eq_some_iff] at hi
      obtain ⟨u, hu, rfl⟩ := hi
      have hfaithful := h u (List.mem_of_getElem? hu)
      split
      · exact hfaithful.ask request
      · exact hfaithful
  | copy index =>
      intro t ht
      rcases List.mem_append.mp ht with ht | ht
      · exact h t ht
      · exact h t (List.mem_of_getElem? (Option.mem_toList.mp ht))

end Tracked

/-- Every scanner of a text in use is faithful. Induction on the steps. -/
theorem faithful_of_mem_inUse {actions : List Action} {t : Tracked}
    (h : t ∈ inUse text actions) : t.Faithful text := by
  have hsteps : ∀ ts : List Tracked, (∀ t ∈ ts, t.Faithful text) →
      ∀ t ∈ actions.foldl Tracked.perform ts, t.Faithful text := by
    clear h
    induction actions with
    | nil => exact fun _ hts => hts
    | cons a actions ih => exact fun ts hts => ih _ (Tracked.faithful_perform hts a)
  exact hsteps _ (by simpa using Tracked.faithful_ofString text) t h

/-- **Every history.** Take any scanner of a text, after any requests in either way and any
copies. The tokens that it has handed out are those of the text by their numbers, and behind the
last one the mark for the end over and over. Nothing was handed out exactly where the sequence
was asked for and had handed out the mark before; a mark that was read does not count. A request
that is answered by the mark, or not at all, moves nothing. What was noted are the defects of as
many tokens as were handed out, a first part of all defects of the text. And the cursor is the
size of a first part of the text: a request takes the text of its answer from there on, and
leaves the cursor behind it. -/
theorem answers_of_mem_inUse {actions : List Action} {t : Tracked}
    (h : t ∈ inUse text actions) :
    (∀ i u, t.tokens[i]? = some u → u = Token.nth text i) ∧
    (∀ i e, t.history[i]? = some e →
      (e.answer = none ↔ e.request = .next ∧ ∃ d ∈ t.history.take i, d.Ends)) ∧
    (∀ r, (∀ u ∈ (t.scanner.ask r).1, u.kind = .endOfFile) →
      (t.scanner.ask r).2.rest = t.scanner.rest ∧
        (t.scanner.ask r).2.position = t.scanner.position ∧
        (t.scanner.ask r).2.diagnostics = t.scanner.diagnostics) ∧
    (t.scanner.diagnostics = Token.defects ((Token.scan text).take t.tokens.length) ∧
      t.scanner.diagnostics <+: Token.defects (Token.scan text)) ∧
    t.scanner.position ≤ text.utf8ByteSize ∧
    (∃ before after, text = before ++ after ∧ t.scanner.position = before.utf8ByteSize ∧
      t.scanner.rest = after.toList) ∧
    ∀ r, ∀ u ∈ (t.scanner.ask r).1, ∃ before after, text = before ++ u.text ++ after ∧
      t.scanner.position = before.utf8ByteSize ∧
      (t.scanner.ask r).2.position = (before ++ u.text).utf8ByteSize ∧
      (t.scanner.ask r).2.rest = after.toList := by
  have hfaithful := faithful_of_mem_inUse h
  have hdiagnostics : t.scanner.diagnostics =
      Token.defects ((Token.scan text).take t.tokens.length) := by
    rw [Token.defects_take_scan, hfaithful.stands.diagnostics_eq]
  obtain ⟨before, after, htext, hposition, hrest⟩ := hfaithful.stands.exists_append
  refine ⟨fun i u hu => ?_, hfaithful.answer_eq_none_iff, fun r => ask_of_forall_endOfFile,
    ⟨hdiagnostics, ?_⟩, ?_, ⟨before, after, htext, hposition, hrest⟩, fun r u hu => ?_⟩
  · rw [hfaithful.tokens_eq, List.getElem?_map, Option.map_eq_some_iff] at hu
    obtain ⟨j, hj, rfl⟩ := hu
    obtain ⟨-, rfl⟩ := List.getElem?_eq_some_iff.mp hj
    rw [List.getElem_range]
  · rw [hdiagnostics]
    exact (List.take_prefix _ _).filterMap Token.defect?
  · rw [hposition, htext, String.utf8ByteSize_append]
    exact Nat.le_add_right _ _
  · rcases t.scanner.ask_cases r with ⟨-, heq⟩ | ⟨-, heq⟩
    · simp [heq] at hu
    · rw [heq] at hu ⊢
      obtain rfl := Option.some.inj hu
      exact hfaithful.stands.exists_append_read

/-- A scanner is copied behind a letter of two bytes. The copy reads the mark for the end before
the sequence hands it out, and only then the sequence has ended. -/
theorem answers_of_mem_inUse_copied :
    ∃ t ∈ inUse "é7" [.ask 0 .read, .copy 0, .ask 0 .next, .ask 1 .next, .ask 1 .read,
        .ask 0 .next, .ask 1 .next, .ask 1 .next],
      t.history.map Entry.answer = [some ⟨.bad, 0, "é", none⟩, some ⟨.number, 2, "7", some 7⟩,
        some (.endOfFile 3), some (.endOfFile 3), none] ∧
      (∀ i u, t.tokens[i]? = some u → u = Token.nth "é7" i) ∧
      t.scanner.diagnostics = Token.defects ((Token.scan "é7").take t.tokens.length) ∧
      ∃ before after, "é7" = before ++ after ∧ t.scanner.position = before.utf8ByteSize := by
  obtain ⟨t, ht, hanswers⟩ : ∃ t ∈ inUse "é7" [.ask 0 .read, .copy 0, .ask 0 .next,
        .ask 1 .next, .ask 1 .read, .ask 0 .next, .ask 1 .next, .ask 1 .next],
      t.history.map Entry.answer = [some ⟨.bad, 0, "é", none⟩, some ⟨.number, 2, "7", some 7⟩,
        some (.endOfFile 3), some (.endOfFile 3), none] := by
    decide +kernel
  obtain ⟨htokens, -, -, ⟨hdiagnostics, -⟩, -, ⟨before, after, htext, hposition, -⟩, -⟩ :=
    answers_of_mem_inUse ht
  exact ⟨t, ht, hanswers, htokens, hdiagnostics, before, after, htext, hposition⟩

end Scanner

end Calculator
