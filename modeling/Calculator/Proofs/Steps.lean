import Calculator.Parser.Run

/-!
# The Steps of the Parser

What one step of the parser does, said once. Every later fact about reading is an induction on
runs (`Parser.Returns`), and each case of such an induction is one of these steps.

* `Remaining.takeIf_eq_some_iff`, `Remaining.takeIf_eq_none_iff` — when a token is taken;
* `Parser.expect_of_kind`, `Parser.expect_of_kind_ne` — a token that is there, and one that is
  missing;
* `Parser.bounded_eq_or` — an expression is kept, or it is given up because it passes the limit;
* `Remaining.IsLive` — reading was not given up so far.
-/

namespace Calculator

namespace Remaining

/-- Reading was not given up. -/
def IsLive (r : Remaining) : Prop :=
  r ≠ .givenUp

/-- Where there is a list of tokens reading goes on, even if the list is empty. -/
@[simp] theorem isLive_tokens (ts : List Token) : (tokens ts).IsLive :=
  fun h => Remaining.noConfusion h

/-- Where reading goes on there is a list of tokens. -/
theorem IsLive.eq_tokens {r : Remaining} (h : r.IsLive) : r = tokens r.toList := by
  cases r with
  | tokens ts => rfl
  | givenUp => exact absurd rfl h

/-- Where a token is left, reading was not given up. -/
theorem isLive_of_toList_eq_cons {r : Remaining} {t : Token} {ts : List Token}
    (h : r.toList = t :: ts) : r.IsLive := by
  rintro rfl
  simp [toList] at h

@[simp] theorem toList_tokens (ts : List Token) : (tokens ts).toList = ts := rfl

@[simp] theorem toList_givenUp : givenUp.toList = [] := rfl

@[simp] theorem current_cons (endOfFile t : Token) (ts : List Token) :
    (tokens (t :: ts)).current endOfFile = t := rfl

@[simp] theorem current_nil (endOfFile : Token) : (tokens []).current endOfFile = endOfFile := rfl

/-- From nothing no token is taken. -/
@[simp] theorem takeIf_nil (test : Token.Kind → Bool) : (tokens []).takeIf test = none := rfl

/-- After giving up no token is taken. -/
@[simp] theorem takeIf_givenUp (test : Token.Kind → Bool) : givenUp.takeIf test = none := rfl

/-- The first token is taken if it passes the test. -/
theorem takeIf_cons (test : Token.Kind → Bool) (t : Token) (ts : List Token) :
    (tokens (t :: ts)).takeIf test = if test t.kind then some (t, ts) else none := rfl

/-- A token is taken when it is the next one and passes the test. -/
theorem takeIf_eq_some_iff {test : Token.Kind → Bool} {r : Remaining} {t : Token}
    {ts : List Token} :
    r.takeIf test = some (t, ts) ↔ r.toList = t :: ts ∧ test t.kind = true := by
  rw [takeIf]
  cases r.toList with
  | nil => simp
  | cons u us =>
      by_cases hu : test u.kind
      · simp only [hu, if_true, Option.some.injEq, Prod.mk.injEq, List.cons.injEq]
        constructor
        · rintro ⟨rfl, rfl⟩
          exact ⟨⟨rfl, rfl⟩, hu⟩
        · rintro ⟨h, -⟩
          exact h
      · simp only [hu, Bool.false_eq_true, if_false, reduceCtorEq, List.cons.injEq, false_iff]
        rintro ⟨⟨rfl, -⟩, h⟩
        exact hu h

/-- No token is taken when none is left or the next one does not pass the test. -/
theorem takeIf_eq_none_iff {test : Token.Kind → Bool} {r : Remaining} :
    r.takeIf test = none ↔ ∀ t ∈ r.toList.head?, test t.kind = false := by
  rw [takeIf]
  cases r.toList with
  | nil => simp
  | cons u us => by_cases hu : test u.kind <;> simp [hu]

/-- While reading goes on a report is made. -/
@[simp] theorem report_tokens (d : Diagnostic) (ts : List Token) : (tokens ts).report d = [d] :=
  rfl

/-- After giving up no report is made. -/
@[simp] theorem report_givenUp (d : Diagnostic) : givenUp.report d = [] := rfl

/-- The same, where it is only known that reading goes on. -/
theorem IsLive.report {r : Remaining} (h : r.IsLive) (d : Diagnostic) : r.report d = [d] := by
  rw [h.eq_tokens]
  rfl

/-- Passing over a token neither ends the reading nor takes it up again. -/
theorem isLive_behind {r : Remaining} : r.behind.IsLive ↔ r.IsLive := by
  cases r <;> simp [behind]

end Remaining

namespace Parser

/-! ### A token at one place -/

/-- A token that is there is taken. -/
theorem expect_of_kind {p : Parser} {kind : Token.Kind} {r : Remaining}
    (h : (r.current p.endOfFile).kind = kind) :
    p.expect kind r = ⟨r.current p.endOfFile, [], r.behind⟩ := by
  simp only [expect, h, if_true]

/-- For a token that is missing a stand-in is made, and nothing is taken. -/
theorem expect_of_kind_ne {p : Parser} {kind : Token.Kind} {r : Remaining}
    (h : (r.current p.endOfFile).kind ≠ kind) :
    p.expect kind r =
      ⟨.standIn kind (r.current p.endOfFile).position,
        r.report ⟨.unexpectedToken (r.current p.endOfFile).kind kind,
          (r.current p.endOfFile).position⟩, r⟩ := by
  simp only [expect, h, if_false]

/-- A token that is asked for is taken from the front of the rest, or it is missing. -/
theorem expect_cases (p : Parser) (kind : Token.Kind) (r : Remaining)
    (hmark : p.endOfFile.kind ≠ kind) :
    (∃ t ts, r = .tokens (t :: ts) ∧ t.kind = kind ∧ p.expect kind r = ⟨t, [], .tokens ts⟩) ∨
      ((r.current p.endOfFile).kind ≠ kind ∧
        p.expect kind r =
          ⟨.standIn kind (r.current p.endOfFile).position,
            r.report ⟨.unexpectedToken (r.current p.endOfFile).kind kind,
              (r.current p.endOfFile).position⟩, r⟩) := by
  by_cases h : (r.current p.endOfFile).kind = kind
  · left
    match r, h with
    | .tokens (t :: ts), h => exact ⟨t, ts, rfl, h, expect_of_kind h⟩
    | .tokens [], h => exact absurd h hmark
    | .givenUp, h => exact absurd h hmark
  · exact .inr ⟨h, expect_of_kind_ne h⟩

/-- Asking for a token gives up nothing. -/
theorem isLive_expect {p : Parser} {kind : Token.Kind} {r : Remaining} :
    (p.expect kind r).rest.IsLive ↔ r.IsLive := by
  by_cases h : (r.current p.endOfFile).kind = kind
  · rw [expect_of_kind h]
    exact Remaining.isLive_behind
  · rw [expect_of_kind_ne h]

/-- After giving up everything but the mark is stood in for, without a report. -/
theorem expect_givenUp {p : Parser} {kind : Token.Kind} (hmark : p.endOfFile.kind ≠ kind) :
    p.expect kind .givenUp = ⟨.standIn kind p.endOfFile.position, [], .givenUp⟩ :=
  expect_of_kind_ne hmark

/-! ### The limit -/

/-- Within the limit nothing is given up. -/
theorem bounded_of_height_le {p : Parser} {e : Parsed} {m : Nat} (hlimit : p.limit = some m)
    (h : e.height ≤ m) : p.bounded e = e := by
  simp only [bounded, hlimit, if_neg (Nat.not_lt.mpr h)]

/-- Beyond the limit the expression is given up at its first token. -/
theorem bounded_of_lt_height {p : Parser} {e : Parsed} {m : Nat} (hlimit : p.limit = some m)
    (h : m < e.height) :
    p.bounded e = giveUp m e.expression.position e.diagnostics e.rest := by
  simp only [bounded, hlimit, if_pos h]

/-- Without a limit nothing is given up. -/
theorem bounded_of_limit_none {p : Parser} (hlimit : p.limit = none) (e : Parsed) :
    p.bounded e = e := by
  simp only [bounded, hlimit]

/-- There is one limit at most. -/
theorem limit_pos {p : Parser} {m : Nat} (hlimit : p.limit = some m) (hpos : 0 < m) :
    ∀ m', p.limit = some m' → 0 < m' := by
  intro m' hm'
  obtain rfl := Option.some.inj (hlimit.symm.trans hm')
  exact hpos

/-- An expression is kept as it is, or it is given up because it passes the limit. -/
theorem bounded_eq_or (p : Parser) (e : Parsed) :
    p.bounded e = e ∨ ∃ m, p.limit = some m ∧ m < e.height ∧
      p.bounded e = giveUp m e.expression.position e.diagnostics e.rest := by
  cases hlimit : p.limit with
  | none => exact .inl (bounded_of_limit_none hlimit e)
  | some m =>
      rcases Nat.lt_or_ge m e.height with h | h
      · exact .inr ⟨m, rfl, h, bounded_of_lt_height hlimit h⟩
      · exact .inl (bounded_of_height_le hlimit h)

/-- No further group may be opened exactly when there is a limit and it is reached. -/
theorem exhausted?_eq_some_iff {p : Parser} {n m : Nat} :
    p.exhausted? n = some m ↔ p.limit = some m ∧ m ≤ n := by
  simp [exhausted?, Option.filter_eq_some_iff]

/-- Without a limit a further group may always be opened. -/
theorem exhausted?_of_limit_none {p : Parser} (hlimit : p.limit = none) (n : Nat) :
    p.exhausted? n = none := by
  simp [exhausted?, hlimit]

/-- A chain ends where no operator of its level follows. -/
theorem extend_of_takeIf_none {p : Parser} {l : Level} {n : Nat} {left : Parsed}
    (h : left.rest.takeIf l.has = none) : p.extend l n left = left := by
  rw [extend_eq, h]

/-- A chain takes an operator of its level and the operand behind it. -/
theorem extend_of_takeIf_some {p : Parser} {l : Level} {n : Nat} {left : Parsed}
    {operator : Token} {ts : List Token}
    (h : left.rest.takeIf l.has = some (operator, ts)) :
    p.extend l n left = p.extend l n (p.join left operator (p.operand l n (.tokens ts))) := by
  rw [extend_eq, h]

end Parser

end Calculator
