import Mathlib.Data.Nat.Digits.Defs

/-!
# Decimal numerals

Digit sequences, most significant digit first, and their values.  Symbols for
the digits are left to the text that the numerals are embedded in.
-/

namespace Hooq.Library.Decimal

/-- The digits of a number, `[0]` for zero. -/
def digits (number : Nat) : List Nat :=
  if number = 0 then [0] else (Nat.digits 10 number).reverse

/-- The number that a digit sequence denotes. -/
def value (numeral : List Nat) : Nat :=
  numeral.foldl (fun total digit => 10 * total + digit) 0

theorem value_reverse (numeral : List Nat) :
    value numeral.reverse = Nat.ofDigits 10 numeral := by
  rw [value, List.foldl_reverse, Nat.ofDigits_eq_foldr]
  simp only [Nat.cast_id, Nat.add_comm]

/-- Reading the digits of a number gives the number. -/
@[simp] theorem value_digits (number : Nat) : value (digits number) = number := by
  rw [digits]
  split
  · simp [value, *]
  · rw [value_reverse, Nat.ofDigits_digits]

theorem digits_ne_nil (number : Nat) : digits number ≠ [] := by
  rw [digits]
  split
  · simp
  · simpa [Nat.digits_ne_nil_iff_ne_zero] using by assumption

theorem digits_lt_ten {number digit : Nat} (member : digit ∈ digits number) : digit < 10 := by
  rw [digits] at member
  split at member
  · rw [List.mem_singleton.mp member]
    decide
  · exact Nat.digits_lt_base (by decide) (List.mem_reverse.mp member)

end Hooq.Library.Decimal
