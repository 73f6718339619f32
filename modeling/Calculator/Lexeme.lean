import Calculator.Token
import Calculator.Text.Numeral

/-!
# Lexemes

Cutting a text into tokens. The kind of a token is decided by its first character
(`Token.Kind.ofChar`). Digits and blanks **join** neighbours of their own kind, so a numeral or
a gap is as long as possible; every other character is a token by itself. The cut is therefore
`List.splitBy` along the relation `joins`, and no text is lost or reordered by it.

Blanks are the characters with the Unicode property `White_Space`. Core's `Char.isWhitespace` knows
only some of the ASCII ones, so the property is given here as a table of code point ranges. No blank
is a decimal digit, so a run of blanks and a run of digits never compete for a character.

* `Text.isBlank` — membership in the table;
* `Token.Kind.ofChar` — the kind of the tokens that start with a character;
* `lexemes` — the pieces of a text;
* `Token.ofLexeme` — the token that a piece is, at a given byte offset;
* `Token.scan` — the tokens of a text, each placed where the one before it stops, and the mark
  for the end behind them;
* `Token.defect?`, `Token.defects` — what a token, and a list of tokens, has wrong with it.
-/

namespace Calculator

/-! ### Blanks -/

namespace Text

/-- The code points with the property `White_Space`, as closed ranges in rising order. -/
def blankRanges : List (Nat × Nat) :=
  [(0x09, 0x0D), (0x20, 0x20), (0x85, 0x85), (0xA0, 0xA0), (0x1680, 0x1680),
    (0x2000, 0x200A), (0x2028, 0x2029), (0x202F, 0x202F), (0x205F, 0x205F), (0x3000, 0x3000)]

/-- A **blank** is a character whose code point lies in one of the ranges of the table. -/
def isBlank (c : Char) : Bool :=
  blankRanges.any fun (low, high) => low ≤ c.toNat && c.toNat ≤ high

/-- No blank is a decimal digit. -/
theorem not_isDigit_of_isBlank {c : Char} (h : isBlank c) : c.isDigit = false := by
  rw [Bool.eq_false_iff]
  intro hd
  simp only [Char.isDigit, Bool.and_eq_true, decide_eq_true_eq, UInt32.le_iff_toNat_le] at hd
  simp only [isBlank, blankRanges, List.any_cons, List.any_nil, Bool.or_eq_true,
    Bool.and_eq_true, decide_eq_true_eq, Bool.or_false] at h
  have hlow : 48 ≤ c.toNat := hd.1
  have hhigh : c.toNat ≤ 57 := hd.2
  omega

end Text

/-! ### Cutting a text -/

/-- The kind of the tokens that start with a character. -/
def Token.Kind.ofChar (c : Char) : Token.Kind :=
  if c.isDigit then .number
  else if Text.isBlank c then .blank
  else match c with
    | '+' => .operator .plus
    | '-' => .operator .minus
    | '*' => .operator .times
    | '/' => .operator .divide
    | '(' => .groupOpen
    | ')' => .groupClose
    | _ => .bad

/-- Whether tokens of a kind are runs, which take in all the characters of their kind that
follow. -/
def Token.Kind.isRun : Token.Kind → Bool
  | number | blank => true
  | bad | operator _ | groupOpen | groupClose | endOfFile => false

/-- Whether two neighbouring characters belong to one token. -/
def joins (c d : Char) : Bool :=
  (Token.Kind.ofChar c).isRun && Token.Kind.ofChar c == Token.Kind.ofChar d

/-- The pieces into which a text is cut. -/
def lexemes (text : List Char) : List (List Char) :=
  text.splitBy joins

namespace Token

/-- The token that a piece of text is when it starts at a byte offset. The empty piece is the
mark for the end of the text. -/
def ofLexeme (position : Nat) (lexeme : List Char) : Token :=
  let kind := lexeme.head?.elim .endOfFile Kind.ofChar
  { kind
    position
    text := String.ofList lexeme
    value := if kind = .number then Text.Numeral.int32? lexeme else none }

/-- Consecutive pieces as tokens: each starts where the one before it stops, and the mark for
the end follows the last. -/
def place (position : Nat) : List (List Char) → List Token
  | [] => [endOfFile position]
  | lexeme :: rest =>
    let token := ofLexeme position lexeme
    token :: place token.stop rest

/-- The **tokens of a text**, blanks and bad characters among them. -/
def scan (text : String) : List Token :=
  place 0 (lexemes text.toList)

/-- What is wrong with a token taken by itself: it is a character that no token starts with, or
a numeral without a value. -/
def defect? (t : Token) : Option Diagnostic :=
  match t.kind, t.text.toList, t.value with
  | .bad, c :: _, _ => some ⟨.badCharacter c, t.position⟩
  | .number, _, none => some ⟨.numberOutOfRange t.text, t.position⟩
  | _, _, _ => none

/-- What is wrong with the single tokens of a list, in their order. -/
def defects (ts : List Token) : List Diagnostic :=
  ts.filterMap defect?

end Token

/-! ### Characters and kinds -/

/-- An operator's character is read as that operator. -/
@[simp] theorem Token.Kind.ofChar_symbol (o : Operator) :
    Token.Kind.ofChar o.symbol = .operator o := by
  cases o <;> decide

/-- The character of a kind with only one text is read as that kind. -/
theorem Token.Kind.ofChar_of_symbol? {k : Token.Kind} {c : Char} (h : k.symbol? = some c) :
    Token.Kind.ofChar c = k := by
  cases k <;> simp only [symbol?, Option.some.injEq, reduceCtorEq] at h <;> subst h
  · exact ofChar_symbol _
  · decide
  · decide

/-- A character is read as a number exactly when it is a decimal digit. -/
theorem Token.Kind.ofChar_eq_number_iff {c : Char} :
    Token.Kind.ofChar c = .number ↔ c.isDigit := by
  unfold ofChar
  split
  · simp [*]
  · split
    · simp [*]
    · split <;> simp [*]

/-- A character is read as a blank exactly when it is one. -/
theorem Token.Kind.ofChar_eq_blank_iff {c : Char} :
    Token.Kind.ofChar c = .blank ↔ Text.isBlank c := by
  unfold ofChar
  split
  · next h =>
    have : Text.isBlank c ≠ true := fun hb => by simp [Text.not_isDigit_of_isBlank hb] at h
    simp [this]
  · split
    · simp [*]
    · split <;> simp [*]

end Calculator
