import AbiCodec.Count

/-!
# Decimal numbers

Decimal digits of natural numbers and integers, and the reading of digits as
numbers.
-/

namespace AbiCodec

namespace Decimal

/-- The digits of the number, without leading zeros. -/
def ofNat (n : Nat) : List Char := Nat.toDigits 10 n

/-- The digits of the magnitude, after a minus sign when the integer is negative. -/
def ofInt (i : Int) : List Char := if i < 0 then '-' :: ofNat i.natAbs else ofNat i.natAbs

/-- The number of a non-empty run of digits. -/
def read? (digits : List Char) : Option Nat :=
  if !digits.isEmpty && digits.all Char.isDigit then some (Nat.ofDigitChars 10 digits 0) else none

/-- The count of a non-empty run of digits. -/
def readCount? (digits : List Char) : Option Nat := (read? digits).bind count?

/-- The count of a non-empty run of digits, after a plus sign or none. -/
def readPlusCount? : List Char → Option Nat
  | '+' :: digits => readCount? digits
  | digits => readCount? digits

theorem isDigit_of_mem_ofNat {n : Nat} {c : Char} (member : c ∈ ofNat n) : c.isDigit = true :=
  Nat.isDigit_of_mem_toDigits (by decide) (by decide) member

theorem read?_ofNat (n : Nat) : read? (ofNat n) = some n := by
  have digits : (ofNat n).all Char.isDigit = true :=
    List.all_eq_true.2 fun _ member => isDigit_of_mem_ofNat member
  have some_digit : (ofNat n).isEmpty = false := by
    rw [List.isEmpty_eq_false_iff]
    exact Nat.toDigits_ne_nil
  rw [read?, digits, some_digit]
  exact congrArg some (Nat.ofDigitChars_toDigits (by decide) (by decide))

theorem read?_eq_some_iff {digits : List Char} {n : Nat} :
    read? digits = some n ↔ digits ≠ [] ∧ (∀ c ∈ digits, c.isDigit = true) ∧
      Nat.ofDigitChars 10 digits 0 = n := by
  simp [read?, and_assoc]

theorem readCount?_eq_some_iff {digits : List Char} {n : Nat} :
    readCount? digits = some n ↔ digits ≠ [] ∧ (∀ c ∈ digits, c.isDigit = true) ∧
      Nat.ofDigitChars 10 digits 0 = n ∧ n < countLimit := by
  simp only [readCount?, Option.bind_eq_some_iff, read?_eq_some_iff, count?_eq_some_iff]
  constructor
  · rintro ⟨_, ⟨some, all, rfl⟩, rfl, below⟩
    exact ⟨some, all, rfl, below⟩
  · rintro ⟨some, all, rfl, below⟩
    exact ⟨_, ⟨some, all, rfl⟩, rfl, below⟩

theorem readCount?_ofNat {n : Nat} (h : n < countLimit) : readCount? (ofNat n) = some n := by
  rw [readCount?, read?_ofNat]
  exact count?_eq_some_iff.2 ⟨rfl, h⟩

end Decimal

/-- The decimal text of a natural number. -/
def decimal (n : Nat) : String := String.ofList (Decimal.ofNat n)

/-- The decimal text of an integer. -/
def decimalInt (i : Int) : String := String.ofList (Decimal.ofInt i)

end AbiCodec
