/-!
# Decimal Numerals

Reading a run of decimal digits as a number, and writing a 32-bit integer in decimal.
A numeral has a 32-bit value when the number it denotes is at most `2147483647`; its length
does not matter, since leading zeros are allowed.

* `Numeral.value` — the number that a run of digits denotes;
* `Numeral.int32?` — that number as a 32-bit integer, when it fits;
* `Numeral.ofInt32` — the decimal text of a 32-bit integer, with a leading minus sign below
  zero;
* `Numeral.ofInt32_injective` — different values are written differently;
* `Numeral.int32?_ofInt32` — what is written for a value that is not negative reads back as
  that value.
-/

namespace Calculator.Text.Numeral

/-- The largest number that a numeral may denote and still have a 32-bit value. -/
def largest : Nat := 2147483647

/-- The number that a run of decimal digits denotes, most significant digit first. -/
def value (digits : List Char) : Nat :=
  Nat.ofDigitChars 10 digits 0

/-- The value of a run of digits as a 32-bit integer, or nothing when the number is too large. -/
def int32? (digits : List Char) : Option Int32 :=
  if value digits ≤ largest then some (Int32.ofNat (value digits)) else none

/-- The decimal text of a 32-bit integer. -/
def ofInt32 (v : Int32) : String :=
  v.toInt.repr

/-- A numeral without a value is one that denotes too large a number. -/
theorem int32?_eq_none_iff {digits : List Char} :
    int32? digits = none ↔ largest < value digits := by
  simp [int32?]

/-- The digits of a number denote that number. -/
theorem value_toDigits (n : Nat) : value (Nat.toDigits 10 n) = n :=
  Nat.ofDigitChars_toDigits (by decide) (by decide)

/-- The text of a value that is not negative consists of the digits of that number. -/
theorem toList_ofInt32 {v : Int32} (h : 0 ≤ v.toInt) :
    (ofInt32 v).toList = Nat.toDigits 10 v.toInt.toNat := by
  obtain ⟨n, hn⟩ := Int.eq_ofNat_of_zero_le h
  simp [ofInt32, hn, Int.repr, Nat.toList_repr]

/-- The text of a value consists of the digits of its absolute value, with a minus sign in front of
them if the value is negative. -/
theorem toList_ofInt32_cases (v : Int32) :
    (0 ≤ v.toInt ∧ (ofInt32 v).toList = Nat.toDigits 10 v.toInt.natAbs) ∨
      (v.toInt < 0 ∧ (ofInt32 v).toList = '-' :: Nat.toDigits 10 v.toInt.natAbs) := by
  rw [ofInt32]
  cases v.toInt with
  | ofNat n => exact .inl ⟨Int.natCast_nonneg n, Nat.toList_repr⟩
  | negSucc n =>
    right
    refine ⟨Int.negSucc_lt_zero n, ?_⟩
    simp [Int.repr, Nat.toList_repr]

/-- A number is written with decimal digits. -/
theorem isDigit_of_mem_toDigits {n : Nat} {c : Char} (h : c ∈ Nat.toDigits 10 n) : c.isDigit :=
  Nat.isDigit_of_mem_toDigits (by decide) (by decide) h

/-- Different values have different texts. -/
theorem ofInt32_injective {v w : Int32} (h : ofInt32 v = ofInt32 w) : v = w := by
  have hlist := congrArg String.toList h
  have habs (hdigits : Nat.toDigits 10 v.toInt.natAbs = Nat.toDigits 10 w.toInt.natAbs) :
      v.toInt.natAbs = w.toInt.natAbs := by
    rw [← value_toDigits v.toInt.natAbs, hdigits, value_toDigits]
  -- a minus sign is no digit, so the values are both negative or both not
  have hsign : ∀ n : Nat, '-' ∉ Nat.toDigits 10 n := fun n hmem =>
    absurd (isDigit_of_mem_toDigits hmem) (by decide)
  apply Int32.toInt_inj.1
  rcases toList_ofInt32_cases v with ⟨hv, hvlist⟩ | ⟨hv, hvlist⟩ <;>
    rcases toList_ofInt32_cases w with ⟨hw, hwlist⟩ | ⟨hw, hwlist⟩ <;>
    rw [hvlist, hwlist] at hlist
  · have := habs hlist
    omega
  · exact absurd (hlist ▸ List.mem_cons_self) (hsign _)
  · exact absurd (hlist ▸ List.mem_cons_self) (hsign _)
  · have := habs (List.cons.inj hlist).2
    omega

/-- The **agreement of writing and reading** on values that are not negative. -/
theorem int32?_ofInt32 {v : Int32} (h : 0 ≤ v.toInt) :
    int32? (ofInt32 v).toList = some v := by
  have hv := value_toDigits v.toInt.toNat
  have hle : v.toInt.toNat ≤ largest := by
    have := v.toInt_lt
    simp only [largest]
    omega
  rw [toList_ofInt32 h, int32?, hv, if_pos hle]
  congr 1
  apply Int32.toInt_inj.1
  rw [Int32.toInt_ofNat_of_lt (by simp only [largest] at hle; omega)]
  omega

end Calculator.Text.Numeral
