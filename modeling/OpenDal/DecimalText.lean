import Mathlib.Data.List.Basic
import Mathlib.Tactic.Common

/-!
# Numbers as decimal texts

`str::parse` for an unsigned type: one or more digits of ASCII, whose number
must be below the bound of the type.  Leading zeros are read, and so is a `+`
in front of the digits.

A number is written without either of them, so what is written is read as the
number, but not everything that is read is what is written.
-/

namespace DecimalText

/-- Digits, and the number that they stand for. -/
structure IsDecimal (digits : List Char) (n : Nat) : Prop where
  filled : digits ≠ []
  digit : ∀ c ∈ digits, c.isDigit = true
  value : Nat.ofDigitChars 10 digits 0 = n

inductive ParseIntError where
  | empty
  | invalidDigit
  | posOverflow
deriving DecidableEq

/-- The loop over the digits. -/
def parseDigits (bound : Nat) : Nat → List Char → Except ParseIntError Nat
  | value, [] => .ok value
  | value, c :: digits =>
      if !c.isDigit then
        .error .invalidDigit
      else
        let value := 10 * value + (c.toNat - '0'.toNat)
        if value < bound then
          parseDigits bound value digits
        else
          .error .posOverflow

def parse (bound : Nat) (text : List Char) : Except ParseIntError Nat :=
  if text.isEmpty then
    .error .empty
  else if text = ['+'] ∨ text = ['-'] then
    .error .invalidDigit
  else if text.head? = some '+' then
    parseDigits bound 0 text.tail
  else
    parseDigits bound 0 text

/-! ## Reading -/

theorem le_ofDigitChars (digits : List Char) (value : Nat) :
    value ≤ Nat.ofDigitChars 10 digits value := by
  induction digits generalizing value with
  | nil => simp
  | cons c digits induction =>
      rw [Nat.ofDigitChars_cons]
      have later := induction (10 * value + (c.toNat - '0'.toNat))
      omega

theorem parseDigits_eq_ok_iff {bound value n : Nat} {digits : List Char}
    (small : value < bound) :
    parseDigits bound value digits = .ok n ↔
      (∀ c ∈ digits, c.isDigit = true) ∧
        Nat.ofDigitChars 10 digits value = n ∧ n < bound := by
  induction digits generalizing value with
  | nil =>
      rw [parseDigits, Except.ok.injEq, Nat.ofDigitChars_nil]
      constructor
      · intro same
        exact ⟨by simp, same, same ▸ small⟩
      · exact fun read => read.2.1
  | cons c digits induction =>
      rw [parseDigits, Nat.ofDigitChars_cons]
      by_cases digit : c.isDigit = true
      · simp only [digit, Bool.not_true, Bool.false_eq_true, if_false,
          List.forall_mem_cons, true_and]
        split
        · next fits => exact induction fits
        · next large =>
            constructor
            · intro read
              cases read
            · rintro ⟨-, same, fits⟩
              have grows := le_ofDigitChars digits
                (10 * value + (c.toNat - '0'.toNat))
              omega
      · rw [if_pos (by simp [digit])]
        constructor
        · intro read
          cases read
        · intro read
          exact absurd (read.1 c List.mem_cons_self) digit

theorem parseDigits_zero_eq_ok_iff {bound n : Nat} (positive : 0 < bound)
    {digits : List Char} (filled : digits ≠ []) :
    parseDigits bound 0 digits = .ok n ↔ IsDecimal digits n ∧ n < bound := by
  rw [parseDigits_eq_ok_iff positive]
  constructor
  · rintro ⟨digit, value, fits⟩
    exact ⟨⟨filled, digit, value⟩, fits⟩
  · rintro ⟨decimal, fits⟩
    exact ⟨decimal.digit, decimal.value, fits⟩

theorem not_isDecimal_cons {c : Char} (other : c.isDigit = false)
    (rest : List Char) (n : Nat) : ¬ IsDecimal (c :: rest) n := by
  intro decimal
  have digit := decimal.digit c List.mem_cons_self
  rw [other] at digit
  cases digit

/-- What is read are digits, with or without a `+`. -/
theorem parse_eq_ok_iff {bound n : Nat} (positive : 0 < bound)
    {text : List Char} :
    parse bound text = .ok n ↔
      n < bound ∧ (IsDecimal text n ∨
        ∃ digits, text = '+' :: digits ∧ IsDecimal digits n) := by
  cases text with
  | nil =>
      constructor
      · intro read
        cases read
      · rintro ⟨-, decimal | ⟨digits, same, -⟩⟩
        · exact absurd rfl decimal.filled
        · cases same
  | cons c rest =>
      by_cases signed : c = '+'
      · subst signed
        have sign : '+'.isDigit = false := by decide
        have unsigned := not_isDecimal_cons sign rest n
        by_cases empty : rest = []
        · subst empty
          constructor
          · intro read
            cases read
          · rintro ⟨-, decimal | ⟨digits, same, decimal⟩⟩
            · exact absurd decimal unsigned
            · cases same
              exact absurd rfl decimal.filled
        · have read : parse bound ('+' :: rest) = parseDigits bound 0 rest := by
            simp [parse, empty]
          rw [read, parseDigits_zero_eq_ok_iff positive empty]
          constructor
          · rintro ⟨decimal, fits⟩
            exact ⟨fits, .inr ⟨rest, rfl, decimal⟩⟩
          · rintro ⟨fits, decimal | ⟨digits, same, decimal⟩⟩
            · exact absurd decimal unsigned
            · cases same
              exact ⟨decimal, fits⟩
      · have noSign : ∀ digits, c :: rest ≠ '+' :: digits := by
          intro digits same
          cases same
          exact signed rfl
        have reading : parse bound (c :: rest) = .ok n ↔
            parseDigits bound 0 (c :: rest) = .ok n := by
          by_cases minus : c :: rest = ['-']
          · rw [minus]
            constructor
            · intro read
              cases read
            · intro read
              cases read
          · simp [parse, signed, minus]
        rw [reading, parseDigits_zero_eq_ok_iff positive (by simp), and_comm]
        constructor
        · rintro ⟨fits, decimal⟩
          exact ⟨fits, .inl decimal⟩
        · rintro ⟨fits, decimal | ⟨digits, same, -⟩⟩
          · exact ⟨fits, decimal⟩
          · exact absurd same (noSign digits)

theorem parse_of_isDecimal {bound n : Nat} {text : List Char}
    (decimal : IsDecimal text n) (fits : n < bound) :
    parse bound text = .ok n := by
  rw [parse_eq_ok_iff (Nat.zero_lt_of_lt fits)]
  exact ⟨fits, .inl decimal⟩

theorem mem_of_parse {bound n : Nat} (positive : 0 < bound)
    {text : List Char} (read : parse bound text = .ok n) {c : Char}
    (member : c ∈ text) : c.isDigit = true ∨ c = '+' := by
  obtain ⟨-, decimal | ⟨digits, rfl, decimal⟩⟩ :=
    (parse_eq_ok_iff positive).mp read
  · exact .inl (decimal.digit c member)
  · rcases List.mem_cons.mp member with same | later
    · exact .inr same
    · exact .inl (decimal.digit c later)

theorem isDecimal_of_parse {bound n : Nat} (positive : 0 < bound)
    {text : List Char} (read : parse bound text = .ok n)
    (unsigned : text.head? ≠ some '+') : IsDecimal text n := by
  obtain ⟨-, decimal | ⟨digits, rfl, -⟩⟩ := (parse_eq_ok_iff positive).mp read
  · exact decimal
  · exact absurd rfl unsigned

theorem IsDecimal.head?_ne {digits : List Char} {n : Nat}
    (decimal : IsDecimal digits n) : digits.head? ≠ some '+' := by
  intro first
  obtain ⟨rest, rfl⟩ := List.head?_eq_some_iff.mp first
  exact not_isDecimal_cons (by decide) rest n decimal

/-! ## Writing -/

theorem isDecimal_toString (n : Nat) : IsDecimal (toString n).toList n := by
  have written : (toString n).toList = Nat.toDigits 10 n := Nat.toList_repr
  rw [written]
  constructor
  · exact Nat.toDigits_ne_nil
  · intro c member
    exact Nat.isDigit_of_mem_toDigits (by decide) (by decide) member
  · exact Nat.ofDigitChars_ten_toDigits

theorem parse_toString {bound n : Nat} (fits : n < bound) :
    parse bound (toString n).toList = .ok n :=
  parse_of_isDecimal (isDecimal_toString n) fits

end DecimalText
