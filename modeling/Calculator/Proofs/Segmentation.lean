import Mathlib.Data.List.SplitBy
import Calculator.TokenStream
import Calculator.Proofs.Relocation

/-!
# The Segmentation of a Line

How a line is cut into tokens and where they lie. A piece is a longest run of characters that
belong together (`IsLexeme`), so cutting commutes with putting texts together, except that two
runs of one kind which meet become one. The tokens lie behind one another without a gap
(`Token.spread`), each at the byte offset of its piece.

* `lexemes_append`, `lexemes_append_of_joins` — the pieces of two texts put together;
* `lexemes_flatten_of_append`, `exists_append_of_lexemes` — a text cut between its pieces;
* `Token.exists_of_mem_spread_lexemes` — a token of a text is a piece of it;
* `Sentence.tokens_ofText`, `Sentence.endOfFile_ofText` — the sentence in a text;
* `Token.exists_of_mem_defects_scan` — what can be wrong with the tokens of a text.
-/

namespace Calculator

/-! ### Pieces -/

/-- A piece that is not cut any further. -/
def IsLexeme (lexeme : List Char) : Prop :=
  lexeme ≠ [] ∧ lexeme.IsChain fun c d => joins c d

/-- No text is lost. -/
theorem flatten_lexemes (text : List Char) : (lexemes text).flatten = text :=
  List.flatten_splitBy joins text

/-- The pieces of a text are lexemes. -/
theorem isLexeme_of_mem {text lexeme : List Char} (h : lexeme ∈ lexemes text) :
    IsLexeme lexeme :=
  ⟨List.ne_nil_of_mem_splitBy h, List.isChain_of_mem_splitBy h⟩

/-- A lexeme is not cut any further. -/
theorem lexemes_of_isLexeme {lexeme : List Char} (h : IsLexeme lexeme) :
    lexemes lexeme = [lexeme] :=
  List.splitBy_of_isChain h.1 h.2

/-- Two characters join when they are of one kind, and tokens of this kind are runs. -/
theorem joins_iff {c d : Char} :
    joins c d = true ↔
      (Token.Kind.ofChar c).isRun = true ∧ Token.Kind.ofChar c = Token.Kind.ofChar d := by
  simp [joins]

/-- The characters of a piece are of one kind. -/
theorem IsLexeme.ofChar_eq {c : Char} {cs : List Char} (h : IsLexeme (c :: cs)) :
    ∀ d ∈ cs, Token.Kind.ofChar d = Token.Kind.ofChar c := by
  obtain ⟨-, hchain⟩ := h
  induction cs generalizing c with
  | nil => simp
  | cons e cs ih =>
      obtain ⟨hce, hchain⟩ := List.isChain_cons_cons.mp hchain
      have heq := (joins_iff.mp hce).2
      simp only [List.forall_mem_cons]
      exact ⟨heq.symm, fun d hd => (ih hchain d hd).trans heq.symm⟩

/-- Outside of runs a piece is a single character. -/
theorem IsLexeme.eq_nil_of_not_isRun {c : Char} {cs : List Char} (h : IsLexeme (c :: cs))
    (hrun : (Token.Kind.ofChar c).isRun = false) : cs = [] := by
  obtain ⟨-, hchain⟩ := h
  cases cs with
  | nil => rfl
  | cons d cs =>
      have := (joins_iff.mp (List.isChain_cons_cons.mp hchain).1).1
      simp [hrun] at this

/-- A piece of text is of the kind of its last character. -/
theorem IsLexeme.kind_eq_of_getLast {lexeme : List Char} (h : IsLexeme lexeme) {c : Char}
    (hc : c ∈ lexeme.getLast?) (position : Nat) :
    (Token.ofLexeme position lexeme).kind = Token.Kind.ofChar c := by
  cases lexeme with
  | nil => simp at hc
  | cons d ds =>
      rcases List.mem_cons.mp (List.mem_of_mem_getLast? hc) with rfl | hmem
      · rfl
      · exact (h.ofChar_eq c hmem).symm

/-- A character by itself is a lexeme. -/
theorem isLexeme_singleton (c : Char) : IsLexeme [c] :=
  ⟨by simp, List.isChain_singleton c⟩

/-- A run of characters of one kind is a piece. -/
theorem isLexeme_of_forall_ofChar {k : Token.Kind} (hrun : k.isRun = true) {text : List Char}
    (hne : text ≠ []) (h : ∀ c ∈ text, Token.Kind.ofChar c = k) : IsLexeme text := by
  refine ⟨hne, ?_⟩
  induction text with
  | nil => exact List.isChain_nil
  | cons c text ih =>
      simp only [List.forall_mem_cons] at h
      cases text with
      | nil => exact List.isChain_singleton c
      | cons d text =>
          refine List.isChain_cons_cons.mpr ⟨joins_iff.mpr ⟨?_, ?_⟩, ih (by simp) h.2⟩
          · rw [h.1, hrun]
          · rw [h.1, h.2 d List.mem_cons_self]

/-- The pieces of two texts put together are those of either, if no run goes on behind the
seam. -/
theorem lexemes_append {a b : List Char}
    (h : ∀ c ∈ a.getLast?, ∀ d ∈ b.head?, joins c d = false) :
    lexemes (a ++ b) = lexemes a ++ lexemes b :=
  List.splitBy_append h

/-- The last piece of a text ends in its last character. -/
theorem exists_lexemes_of_getLast {a : List Char} {c : Char} (hc : c ∈ a.getLast?) :
    ∃ before last, lexemes a = before ++ [last] ∧ c ∈ last.getLast? := by
  have hne : lexemes a ≠ [] := List.splitBy_ne_nil.mpr (by rintro rfl; simp at hc)
  have heq := List.dropLast_append_getLast hne
  refine ⟨_, _, heq.symm, ?_⟩
  have hlast := (isLexeme_of_mem (List.getLast_mem hne)).1
  rw [← flatten_lexemes a, ← heq] at hc
  simpa [List.getLast?_append_of_ne_nil _ hlast] using hc

/-- The first piece of a text begins with its first character. -/
theorem exists_lexemes_of_head {b : List Char} {d : Char} (hd : d ∈ b.head?) :
    ∃ first after, lexemes b = first :: after ∧ d ∈ first.head? := by
  have hne : lexemes b ≠ [] := List.splitBy_ne_nil.mpr (by rintro rfl; simp at hd)
  obtain ⟨first, after, heq⟩ := List.exists_cons_of_ne_nil hne
  have hmem : first ∈ lexemes b := by simp [heq]
  refine ⟨first, after, heq, ?_⟩
  rw [← flatten_lexemes b, heq, List.flatten_cons,
    List.head?_append_of_ne_nil _ (isLexeme_of_mem hmem).1] at hd
  exact hd

/-- Two pieces whose characters join at the seam make one piece. -/
theorem IsLexeme.append {a b : List Char} (ha : IsLexeme a) (hb : IsLexeme b) {c d : Char}
    (hc : c ∈ a.getLast?) (hd : d ∈ b.head?) (h : joins c d = true) : IsLexeme (a ++ b) := by
  refine ⟨fun heq => ha.1 (List.append_eq_nil_iff.mp heq).1, ?_⟩
  refine List.isChain_append.mpr ⟨ha.2, hb.2, fun x hx y hy => ?_⟩
  obtain rfl : c = x := Option.mem_unique hc hx
  obtain rfl : d = y := Option.mem_unique hd hy
  exact h

/-- A run that goes on behind the seam makes one piece out of two. -/
theorem lexemes_append_of_joins {a b : List Char} {c d : Char} (hc : c ∈ a.getLast?)
    (hd : d ∈ b.head?) (h : joins c d = true) :
    ∃ before last first after, lexemes a = before ++ [last] ∧ lexemes b = first :: after ∧
      c ∈ last.getLast? ∧ d ∈ first.head? ∧
      lexemes (a ++ b) = before ++ (last ++ first) :: after := by
  obtain ⟨before, last, hbefore, hclast⟩ := exists_lexemes_of_getLast hc
  obtain ⟨first, after, hafter, hdfirst⟩ := exists_lexemes_of_head hd
  have hlastMem : last ∈ lexemes a := by simp [hbefore]
  have hfirstMem : first ∈ lexemes b := by simp [hafter]
  have hlast := isLexeme_of_mem hlastMem
  have hfirst := isLexeme_of_mem hfirstMem
  have hjoined := hlast.append hfirst hclast hdfirst h
  obtain ⟨hflattenA, hnilA, hchainA, hseamA⟩ := List.splitBy_eq_iff.mp hbefore
  obtain ⟨hflattenB, hnilB, hchainB, hseamB⟩ := List.splitBy_eq_iff.mp hafter
  refine ⟨before, last, first, after, hbefore, hafter, hclast, hdfirst, ?_⟩
  refine List.splitBy_eq_iff.mpr ⟨?_, ?_, ?_, ?_⟩
  · rw [hflattenA, hflattenB]
    simp
  · simp only [List.mem_append, List.mem_cons, not_or] at hnilA hnilB ⊢
    exact ⟨hnilA.1, fun heq => hjoined.1 heq.symm, hnilB.2⟩
  · simp only [List.mem_append, List.mem_cons] at hchainA hchainB ⊢
    rintro m (hm | rfl | hm)
    · exact hchainA m (.inl hm)
    · exact hjoined.2
    · exact hchainB m (.inr hm)
  · rw [List.isChain_append] at hseamA ⊢
    rw [List.isChain_cons] at hseamB ⊢
    refine ⟨hseamA.1, ⟨fun m hm => ?_, hseamB.2⟩, fun m hm m' hm' => ?_⟩
    · obtain ⟨_, hne, hjoin⟩ := hseamB.1 m hm
      exact ⟨hjoined.1, hne, by rwa [List.getLast_append_of_ne_nil _ hfirst.1]⟩
    · obtain rfl : last ++ first = m' := by simpa using hm'
      obtain ⟨hne, _, hjoin⟩ := hseamA.2.2 m hm last (by simp)
      exact ⟨hne, hjoined.1, by rwa [List.head_append_of_ne_nil hlast.1]⟩

/-- A list that is cut in two between its pieces has the same pieces. -/
theorem splitBy_flatten_of_append {α : Type} {r : α → α → Bool} {as : List α}
    {xs ys : List (List α)} (h : as.splitBy r = xs ++ ys) :
    xs.flatten.splitBy r = xs ∧ ys.flatten.splitBy r = ys := by
  obtain ⟨-, hnil, hchain, hseam⟩ := List.splitBy_eq_iff.mp h
  simp only [List.mem_append, not_or] at hnil hchain
  rw [List.isChain_append] at hseam
  constructor
  · exact List.splitBy_eq_iff.mpr ⟨rfl, hnil.1, fun m hm => hchain m (.inl hm), hseam.1⟩
  · exact List.splitBy_eq_iff.mpr ⟨rfl, hnil.2, fun m hm => hchain m (.inr hm), hseam.2.1⟩

/-- The pieces of a text are the pieces of what lies before and behind any place between them. -/
theorem lexemes_flatten_of_append {text : List Char} {xs ys : List (List Char)}
    (h : lexemes text = xs ++ ys) : lexemes xs.flatten = xs ∧ lexemes ys.flatten = ys :=
  splitBy_flatten_of_append h

/-- A text may be cut behind any number of its pieces. -/
theorem exists_append_of_lexemes (text : String) (n : Nat) :
    ∃ before after : String, text = before ++ after ∧
      before.toList = ((lexemes text.toList).take n).flatten ∧
      after.toList = ((lexemes text.toList).drop n).flatten := by
  refine ⟨String.ofList ((lexemes text.toList).take n).flatten,
    String.ofList ((lexemes text.toList).drop n).flatten, ?_, String.toList_ofList,
    String.toList_ofList⟩
  rw [← String.ofList_append, ← List.flatten_append, List.take_append_drop, flatten_lexemes,
    String.ofList_toList]

/-! ### The tokens of a line -/

namespace Token

/-- The number of bytes that a text takes. -/
def byteSize (text : List Char) : Nat :=
  (String.ofList text).utf8ByteSize

@[simp] theorem byteSize_nil : byteSize [] = 0 := rfl

/-- Sizes add up. -/
@[simp] theorem byteSize_append (a b : List Char) :
    byteSize (a ++ b) = byteSize a + byteSize b := by
  simp [byteSize, String.ofList_append, String.utf8ByteSize_append]

/-- The size of a text is the number of its bytes. -/
theorem byteSize_toList (text : String) : byteSize text.toList = text.utf8ByteSize := by
  simp [byteSize]

/-- The pieces as tokens, each where the one before it stops. -/
def spread (position : Nat) : List (List Char) → List Token
  | [] => []
  | lexeme :: rest => ofLexeme position lexeme :: spread (position + byteSize lexeme) rest

/-- A token lies behind the pieces in front of its own. -/
theorem getElem?_spread (position : Nat) (pieces : List (List Char)) (n : Nat) :
    (spread position pieces)[n]? =
      pieces[n]?.map (ofLexeme (position + byteSize (pieces.take n).flatten)) := by
  induction pieces generalizing position n with
  | nil => rfl
  | cons piece pieces ih =>
      cases n with
      | zero => simp [spread]
      | succ n => simp [spread, ih, Nat.add_assoc]

/-- The first tokens are those of the first pieces. -/
theorem take_spread (position : Nat) (pieces : List (List Char)) (n : Nat) :
    (spread position pieces).take n = spread position (pieces.take n) := by
  induction pieces generalizing position n with
  | nil => simp [spread]
  | cons piece pieces ih =>
      cases n with
      | zero => rfl
      | succ n => simp [spread, ih]

/-- A token stops behind the bytes of its text. -/
theorem stop_ofLexeme (position : Nat) (lexeme : List Char) :
    (ofLexeme position lexeme).stop = position + byteSize lexeme := rfl

/-- Behind the pieces of a text lies the mark for its end. -/
theorem place_eq (position : Nat) (pieces : List (List Char)) :
    place position pieces =
      spread position pieces ++ [endOfFile (position + byteSize pieces.flatten)] := by
  induction pieces generalizing position with
  | nil => simp [place, spread]
  | cons lexeme pieces ih => simp [place, spread, ih, stop_ofLexeme, Nat.add_assoc]

/-- The tokens of a text are its pieces, one behind the other, and the mark for the end. -/
theorem scan_eq (text : String) :
    scan text = spread 0 (lexemes text.toList) ++ [endOfFile text.utf8ByteSize] := by
  rw [scan, place_eq, flatten_lexemes, byteSize_toList, Nat.zero_add]

/-- A token lies behind the text of the pieces before it. -/
theorem exists_of_mem_spread {t : Token} {position : Nat} {pieces : List (List Char)}
    (h : t ∈ spread position pieces) :
    ∃ before lexeme after, pieces = before ++ lexeme :: after ∧
      t = ofLexeme (position + byteSize before.flatten) lexeme := by
  induction pieces generalizing position with
  | nil => simp [spread] at h
  | cons lexeme pieces ih =>
      rcases List.mem_cons.mp h with rfl | h
      · exact ⟨[], lexeme, pieces, rfl, by simp⟩
      · obtain ⟨before, lexeme', after, rfl, rfl⟩ := ih h
        exact ⟨lexeme :: before, lexeme', after, rfl, by simp [Nat.add_assoc]⟩

/-- A token of a text is a piece of it, and it stands at the byte offset of the piece. -/
theorem exists_of_mem_spread_lexemes {t : Token} {text : List Char}
    (h : t ∈ spread 0 (lexemes text)) :
    ∃ before lexeme after, text = before ++ lexeme ++ after ∧ IsLexeme lexeme ∧
      t = ofLexeme (byteSize before) lexeme := by
  obtain ⟨before, lexeme, after, hpieces, rfl⟩ := exists_of_mem_spread h
  refine ⟨before.flatten, lexeme, after.flatten, ?_, ?_, by rw [Nat.zero_add]⟩
  · rw [← flatten_lexemes text, hpieces]
    simp
  · have hmem : lexeme ∈ lexemes text := by simp [hpieces]
    exact isLexeme_of_mem hmem

/-- The kind of a piece is that of its first character. -/
theorem kind_ofLexeme_cons (position : Nat) (c : Char) (cs : List Char) :
    (ofLexeme position (c :: cs)).kind = Kind.ofChar c := rfl

/-- A character that is neither a digit nor a blank is bad, or it is the text of its kind. -/
theorem ofChar_cases (c : Char) :
    Kind.ofChar c = .number ∨ Kind.ofChar c = .blank ∨ Kind.ofChar c = .bad ∨
      (Kind.ofChar c).symbol? = some c := by
  unfold Kind.ofChar
  split
  · simp
  · split
    · simp
    · split <;> simp [Kind.symbol?, Operator.symbol]

/-- No character stands for the end. -/
theorem ofChar_ne_endOfFile (c : Char) : Kind.ofChar c ≠ .endOfFile := by
  rcases ofChar_cases c with h | h | h | h
  · simp [h]
  · simp [h]
  · simp [h]
  · intro hkind
    simp [hkind, Kind.symbol?] at h

/-- A character of a kind with only one text is that text. -/
theorem symbol?_ofChar {c : Char} (h : (Kind.ofChar c).symbol? ≠ none) :
    (Kind.ofChar c).symbol? = some c := by
  rcases ofChar_cases c with hkind | hkind | hkind | hsymbol
  · simp [hkind, Kind.symbol?] at h
  · simp [hkind, Kind.symbol?] at h
  · simp [hkind, Kind.symbol?] at h
  · exact hsymbol

/-- A token of a text is not the mark for the end, and it has a text. -/
theorem ne_endOfFile_of_mem_spread {t : Token} {text : List Char}
    (h : t ∈ spread 0 (lexemes text)) : t.kind ≠ .endOfFile ∧ t.isEmpty = false := by
  obtain ⟨before, lexeme, after, -, hlexeme, rfl⟩ := exists_of_mem_spread_lexemes h
  cases lexeme with
  | nil => exact absurd rfl hlexeme.1
  | cons c cs =>
      refine ⟨ofChar_ne_endOfFile c, ?_⟩
      simp [isEmpty, ofLexeme, Bool.eq_false_iff, String.isEmpty_iff, ← String.toList_inj]

end Token

namespace Sentence

/-- The sentence in a text consists of its significant tokens. -/
theorem tokens_ofText (text : String) :
    (ofText text).tokens =
      (Token.spread 0 (lexemes text.toList)).filter (·.kind.isSignificant) := by
  have hne : ∀ t ∈ Token.spread 0 (lexemes text.toList), decide (t.kind ≠ .endOfFile) = true :=
    fun t ht => decide_eq_true (Token.ne_endOfFile_of_mem_spread ht).1
  rw [ofText, ofTokens, Token.scan_eq]
  simp only [List.takeWhile_append_of_pos hne, Token.endOfFile, Token.standIn,
    List.takeWhile_cons_of_neg, ne_eq, not_true_eq_false, decide_false, Bool.false_eq_true,
    not_false_eq_true, List.append_nil]

/-- The mark of the sentence in a text stands at the end of the text. -/
theorem endOfFile_ofText (text : String) :
    (ofText text).endOfFile = Token.endOfFile text.utf8ByteSize := by
  have hnone : (Token.spread 0 (lexemes text.toList)).find? (fun t => t.kind = .endOfFile) = none :=
    List.find?_eq_none.mpr fun t ht => by simpa using (Token.ne_endOfFile_of_mem_spread ht).1
  rw [ofText, ofTokens, Token.scan_eq]
  simp [markOf, List.find?_append, hnone, Token.endOfFile, Token.standIn]

/-- A significant token of a text is a piece of it. -/
theorem exists_of_mem_tokens {t : Token} {text : String} (h : t ∈ (ofText text).tokens) :
    ∃ before lexeme after, text.toList = before ++ lexeme ++ after ∧ IsLexeme lexeme ∧
      t = Token.ofLexeme (Token.byteSize before) lexeme := by
  rw [tokens_ofText, List.mem_filter] at h
  exact Token.exists_of_mem_spread_lexemes h.1

/-- A token of a kind with only one text is that text in its place. -/
theorem exists_of_mem_tokens_of_symbol? {t : Token} {text : String}
    (h : t ∈ (ofText text).tokens) (hsymbol : t.kind.symbol? ≠ none) :
    ∃ before c after, t.kind.symbol? = some c ∧
      text = before ++ String.singleton c ++ after ∧
      t = { Token.ofKind t.kind with position := before.utf8ByteSize } := by
  obtain ⟨before, lexeme, after, htext, hlexeme, rfl⟩ := exists_of_mem_tokens h
  cases lexeme with
  | nil => exact absurd rfl hlexeme.1
  | cons c cs =>
      rw [Token.kind_ofLexeme_cons] at hsymbol
      have hc := Token.symbol?_ofChar hsymbol
      have hrun : (Token.Kind.ofChar c).isRun = false := by
        cases hkind : Token.Kind.ofChar c <;> simp_all [Token.Kind.symbol?, Token.Kind.isRun]
      obtain rfl := hlexeme.eq_nil_of_not_isRun hrun
      have hnumber : Token.Kind.ofChar c ≠ .number := by
        intro hkind
        simp [hkind, Token.Kind.symbol?] at hsymbol
      refine ⟨String.ofList before, c, String.ofList after, hc, ?_, ?_⟩
      · rw [← String.toList_inj, htext]
        simp
      · rw [Token.kind_ofLexeme_cons, Token.ofKind, hc, ← Token.byteSize_toList,
          String.toList_ofList]
        simp [Token.ofLexeme, hnumber]

/-- The tokens of a sentence in a text have a text. -/
theorem isEmpty_of_mem_tokens {t : Token} {text : String} (h : t ∈ (ofText text).tokens) :
    t.isEmpty = false := by
  rw [tokens_ofText, List.mem_filter] at h
  exact (Token.ne_endOfFile_of_mem_spread h.1).2

end Sentence

/-! ### Defects -/

namespace Token

/-- The defects of a list of tokens are those of the first one and those of the others. -/
theorem defects_cons (t : Token) (ts : List Token) :
    defects (t :: ts) = t.defect?.toList ++ defects ts := by
  rw [defects, List.filterMap_cons]
  cases t.defect? <;> rfl

/-- What is wrong with tokens is found one by one. -/
theorem defects_append (ts us : List Token) : defects (ts ++ us) = defects ts ++ defects us :=
  List.filterMap_append

/-- What can be wrong with a token: it is a bad character, or a numeral without a value. -/
theorem cause_of_defect?_eq_some {t : Token} {d : Diagnostic} (h : t.defect? = some d) :
    (t.kind = .bad ∧ ∃ c, d.cause = .badCharacter c) ∨
      (t.kind = .number ∧ d.cause = .numberOutOfRange t.text) := by
  rw [defect?] at h
  split at h
  · obtain rfl := Option.some.inj h
    exact .inl ⟨‹_›, _, rfl⟩
  · obtain rfl := Option.some.inj h
    exact .inr ⟨‹_›, rfl⟩
  · exact absurd h (by simp)

/-- What is wrong with the tokens of a text is due to a bad character, or to a numeral without a
value. -/
theorem exists_of_mem_defects_scan {text : String} {d : Diagnostic}
    (h : d ∈ defects (scan text)) :
    (∃ c ∈ text.toList, Kind.ofChar c = .bad) ∨
      ∃ t ∈ (Sentence.ofText text).tokens, t.defect? = some d ∧
        d.cause = .numberOutOfRange t.text := by
  obtain ⟨t, ht, hdefect⟩ := List.mem_filterMap.mp h
  rw [scan_eq, List.mem_append, List.mem_singleton] at ht
  rcases ht with ht | rfl
  · rcases cause_of_defect?_eq_some hdefect with ⟨hbad, -⟩ | ⟨hnumber, hcause⟩
    · left
      obtain ⟨before, lexeme, after, htext, hlexeme, rfl⟩ := exists_of_mem_spread_lexemes ht
      cases lexeme with
      | nil => exact absurd rfl hlexeme.1
      | cons c cs => exact ⟨c, by simp [htext], hbad⟩
    · right
      refine ⟨t, ?_, hdefect, hcause⟩
      rw [Sentence.tokens_ofText, List.mem_filter, hnumber]
      exact ⟨ht, rfl⟩
  · simp [endOfFile, standIn, defect?] at hdefect

/-- A line without defects has only tokens without defects. -/
theorem defect?_eq_none_of_mem_tokens {text : String} (h : defects (scan text) = []) {t : Token}
    (ht : t ∈ (Sentence.ofText text).tokens) : t.defect? = none := by
  rw [Sentence.tokens_ofText, List.mem_filter] at ht
  refine List.filterMap_eq_nil_iff.mp h t ?_
  rw [scan_eq]
  exact List.mem_append_left _ ht.1

end Token

end Calculator
