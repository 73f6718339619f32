import Calculator.Scanner

/-!
# Sentences and Token Streams

What the grammar is about: the significant tokens of a line, closed by one mark for the end. Blanks
and bad characters are no part of a **sentence**, and neither is anything behind the first mark for
the end.

A **token stream** is the same as a parser goes through it: one token behind the other, by index,
with one mark for the end as the last. A look behind the mark shows the mark again.

A stream is **gathered** in one pass. The pass keeps what is neither a blank nor bad, and beside
that it remembers where the last token stopped, a dropped one too, in case a mark has to be made
there. It is over at the first mark. The tokens come from a list, or from a scanner that cuts
them from the text only when they are asked for.

* `Sentence.ofTokens` — the sentence in an arbitrary list of tokens; a list without a mark gets one
  at the place where its last token stops;
* `Sentence.ofText`, `Sentence.tokenAt` — the sentence in a text, and the token at an index;
* `TokenStream`, `TokenStream.tokens`, `TokenStream.peek` — a stream, and a look at an index;
* `Gathering.add` — what one token does to a pass;
* `TokenStream.ofTokens`, `TokenStream.scan` — the stream of a list, and that of a text;
* `Sentence.stream` — the stream of a sentence, in which nothing is left to be dropped.
-/

namespace Calculator

/-! ### Sentences -/

/-- Significant tokens and the mark behind them. -/
structure Sentence where
  /-- The tokens in front of the mark. -/
  tokens : List Token
  /-- The mark for the end. -/
  endOfFile : Token
  /-- Only significant tokens stand in front of the mark. -/
  significant : ∀ t ∈ tokens, t.kind.isSignificant
  /-- The mark is one. -/
  endOfFile_kind : endOfFile.kind = .endOfFile
deriving DecidableEq

namespace Sentence

/-- The mark that a list of tokens brings along, or one at the place where its last token
stops. -/
def markOf (ts : List Token) : Token :=
  (ts.find? fun t => t.kind = .endOfFile).getD (.endOfFile (ts.getLast?.elim 0 Token.stop))

/-- What closes a sentence is a mark. -/
theorem markOf_kind (ts : List Token) : (markOf ts).kind = .endOfFile := by
  unfold markOf
  cases h : ts.find? fun t => t.kind = .endOfFile with
  | none => rfl
  | some t => simpa using List.find?_some h

/-- The **sentence in a list of tokens**. -/
def ofTokens (ts : List Token) : Sentence where
  tokens := (ts.takeWhile fun t => t.kind ≠ .endOfFile).filter (·.kind.isSignificant)
  endOfFile := markOf ts
  significant := fun _ h => (List.mem_filter.1 h).2
  endOfFile_kind := markOf_kind ts

/-- The sentence in a text. -/
def ofText (text : String) : Sentence :=
  ofTokens (Token.scan text)

/-- All the tokens of a sentence, the mark included. -/
def toList (s : Sentence) : List Token :=
  s.tokens ++ [s.endOfFile]

/-- The token at an index; every index behind the last token has the mark. -/
def tokenAt (s : Sentence) (index : Nat) : Token :=
  s.tokens[index]?.getD s.endOfFile

end Sentence

/-! ### Streams -/

/-- Tokens of which the last is a mark for the end, and the only one. -/
structure TokenStream where
  /-- The tokens in front of the mark. -/
  inner : List Token
  /-- The mark for the end. -/
  endOfFile : Token
  /-- There is no mark in front of the mark. -/
  inner_kind : ∀ t ∈ inner, t.kind ≠ .endOfFile
  /-- The mark is one. -/
  endOfFile_kind : endOfFile.kind = .endOfFile

namespace TokenStream

/-- All the tokens of a stream. -/
def tokens (S : TokenStream) : List Token :=
  S.inner ++ [S.endOfFile]

/-- The index of the last token. -/
def last (S : TokenStream) : Nat :=
  S.tokens.length - 1

/-- The last token stands behind all the others. -/
theorem last_eq (S : TokenStream) : S.last = S.inner.length := by
  simp [last, tokens]

/-- The index of the last token is one of the stream. -/
theorem last_lt_length (S : TokenStream) : S.last < S.tokens.length := by
  simp [last, tokens]

/-- The token at an index. An index that is too large is taken back to the last. -/
def peek (S : TokenStream) (index : Nat) : Token :=
  S.tokens.get
    ⟨min index S.last, Nat.lt_of_le_of_lt (Nat.min_le_right index S.last) S.last_lt_length⟩

end TokenStream

/-- What a pass knows when it has gone through some tokens. -/
structure Gathering where
  /-- The tokens that it keeps. -/
  kept : List Token
  /-- Where the last token stopped. -/
  stop : Nat
  /-- No mark for the end was met. -/
  kept_kind : ∀ t ∈ kept, t.kind ≠ .endOfFile

namespace Gathering

/-- Before the first token. -/
def empty : Gathering := ⟨[], 0, by simp⟩

/-- The stream that a mark closes. -/
def close (g : Gathering) (mark : Token) (h : mark.kind = .endOfFile) : TokenStream :=
  ⟨g.kept, mark, g.kept_kind, h⟩

/-- The stream when no token is left: a mark is made where the last token stopped. -/
def finish (g : Gathering) : TokenStream :=
  g.close (.endOfFile g.stop) rfl

/-- What **one token** does: a mark closes the stream, a blank or a bad character is dropped, and
every other token is kept. -/
def add (g : Gathering) (t : Token) : TokenStream ⊕ Gathering :=
  if h : t.kind = .endOfFile then .inl (g.close t h)
  else if t.kind = .bad ∨ t.kind = .blank then .inr { g with stop := t.stop }
  else
    .inr
      { kept := g.kept ++ [t]
        stop := t.stop
        kept_kind := by simpa [or_imp, forall_and] using ⟨g.kept_kind, h⟩ }

/-- A pass through a list. What stands behind the first mark is not looked at. -/
def gather (g : Gathering) : List Token → TokenStream
  | [] => g.finish
  | t :: ts =>
    match g.add t with
    | .inl S => S
    | .inr g' => g'.gather ts

/-- A pass that goes on did not meet a mark. -/
theorem kind_ne_of_add_eq_inr {g g' : Gathering} {t : Token} (h : g.add t = .inr g') :
    t.kind ≠ .endOfFile := by
  intro hkind
  simp [add, hkind] at h

end Gathering

/-- A token that is no mark was cut from the text, so less of the text is left. -/
theorem Scanner.length_rest_lt_of_next? {s left : Scanner} {t : Token}
    (h : s.next? = (some t, left)) (hkind : t.kind ≠ .endOfFile) :
    left.rest.length < s.rest.length := by
  rw [next?] at h
  split at h
  · simp at h
  · simp only [Prod.mk.injEq, Option.some.injEq] at h
    obtain ⟨rfl, rfl⟩ := h
    cases hrest : s.rest with
    | nil => simp [read, hrest, Token.endOfFile, Token.standIn] at hkind
    | cons c cs =>
      have hle := (List.dropWhile_suffix (l := cs) (joins c)).length_le
      simp only [read, hrest, List.length_cons]
      omega

/-- A pass through what a scanner hands out, with the scanner that it leaves behind. -/
def Gathering.draw (g : Gathering) (s : Scanner) : TokenStream × Scanner :=
  match h : s.next? with
  | (none, left) => (g.finish, left)
  | (some t, left) =>
    match h' : g.add t with
    | .inl S => (S, left)
    | .inr g' =>
      have := Scanner.length_rest_lt_of_next? h (kind_ne_of_add_eq_inr h')
      g'.draw left
termination_by s.rest.length

namespace TokenStream

/-- The **stream in a list of tokens**. -/
def ofTokens (ts : List Token) : TokenStream :=
  Gathering.empty.gather ts

/-- The **stream of a text**, which is scanned on demand, and what was wrong with its tokens. -/
def scan (text : String) : TokenStream × List Diagnostic :=
  let (S, left) := Gathering.empty.draw (.ofString text)
  (S, left.diagnostics)

end TokenStream

/-- The stream of a sentence. -/
def Sentence.stream (s : Sentence) : TokenStream where
  inner := s.tokens
  endOfFile := s.endOfFile
  inner_kind := fun t ht hkind => by
    simpa [hkind, Token.Kind.isSignificant] using s.significant t ht
  endOfFile_kind := s.endOfFile_kind

end Calculator
