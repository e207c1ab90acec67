import Mathlib.Data.List.TakeWhile
import Mathlib.Data.Nat.Notation

/-! Decimal numbers in texts. -/

namespace Numerals

/-- The number at the start of a text, and what follows it. -/
def readNat (text : List Char) : Option (ℕ × List Char) :=
  let digits := text.takeWhile Char.isDigit
  if digits = [] then none
  else some (Nat.ofDigitChars 10 digits 0, text.dropWhile Char.isDigit)

/-- A number with zeros in front up to a width. -/
def padded (width n : ℕ) : List Char := (Nat.toDigits 10 n).leftpad width '0'

theorem padded_zero (n : ℕ) : padded 0 n = Nat.toDigits 10 n := by
  simp [padded, List.leftpad]

theorem isDigit_of_mem_padded {width n : ℕ} : ∀ c ∈ padded width n, c.isDigit := by
  intro c hc
  rcases List.mem_append.mp hc with hc | hc
  · rw [List.eq_of_mem_replicate hc]
    rfl
  · exact Nat.isDigit_of_mem_toDigits (by decide) (by decide) hc

theorem padded_ne_nil (width n : ℕ) : padded width n ≠ [] := by
  simp [padded, List.leftpad, Nat.toDigits_ne_nil]

theorem ofDigitChars_padded (width n : ℕ) : Nat.ofDigitChars 10 (padded width n) 0 = n := by
  rw [padded, List.leftpad, Nat.ofDigitChars_append, Nat.ofDigitChars_replicate_zero]
  exact Nat.ofDigitChars_ten_toDigits

/-- A number is read up to the first character that is no digit. -/
theorem readNat_padded (width n : ℕ) {rest : List Char} (h : ∀ c ∈ rest.head?, ¬ c.isDigit) :
    readNat (padded width n ++ rest) = some (n, rest) := by
  have htake : rest.takeWhile Char.isDigit = [] := by
    cases rest with
    | nil => rfl
    | cons c rest => simpa using h c rfl
  have hdrop : rest.dropWhile Char.isDigit = rest := by
    cases rest with
    | nil => rfl
    | cons c rest => simpa using h c rfl
  rw [readNat, List.takeWhile_append_of_pos isDigit_of_mem_padded,
    List.dropWhile_append_of_pos isDigit_of_mem_padded, htake, hdrop, List.append_nil,
    if_neg (padded_ne_nil width n), ofDigitChars_padded]

theorem readNat_toDigits (n : ℕ) {rest : List Char} (h : ∀ c ∈ rest.head?, ¬ c.isDigit) :
    readNat (Nat.toDigits 10 n ++ rest) = some (n, rest) := by
  rw [← padded_zero]
  exact readNat_padded 0 n h

end Numerals
