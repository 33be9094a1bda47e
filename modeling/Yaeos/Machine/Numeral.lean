import Mathlib.Data.Nat.Digits.Lemmas
import Mathlib.Tactic.Common

/-!
# Numerals

The numeral of a number in a base is the list of its digits, the highest one
first; the numeral of zero is one digit.  Mathlib's `Nat.digits` has the lowest
digit first and none for zero.
-/

namespace Yaeos

/-- The digits of a number, the highest one first. -/
def numeral (base number : Nat) : List Nat :=
  if number = 0 then [0] else (Nat.digits base number).reverse

/-- The number that a list of digits stands for, read from the highest one. -/
def numeralValue (base : Nat) (digits : List Nat) : Nat := Nat.ofDigits base digits.reverse

variable {base number power : Nat} {digits : List Nat}

@[simp]
theorem numeral_zero (base : Nat) : numeral base 0 = [0] := if_pos rfl

theorem numeral_of_lt (small : number < base) : numeral base number = [number] := by
  by_cases zero : number = 0
  · rw [zero, numeral_zero]
  · rw [numeral, if_neg zero, Nat.digits_of_lt base number zero small, List.reverse_singleton]

/-- The last digit is the remainder. -/
theorem numeral_snoc (proper : 1 < base) (large : base ≤ number) :
    numeral base number = numeral base (number / base) ++ [number % base] := by
  have positive : 0 < number := by omega
  have quotient : number / base ≠ 0 := (Nat.div_pos large (by omega)).ne'
  rw [numeral, numeral, if_neg positive.ne', if_neg quotient, Nat.digits_def' proper positive,
    List.reverse_cons]

theorem numeral_ne_nil (base number : Nat) : numeral base number ≠ [] := by
  rw [numeral]
  split
  · exact List.cons_ne_nil _ _
  · next nonzero =>
      exact List.reverse_ne_nil_iff.mpr (Nat.digits_ne_nil_iff_ne_zero.mpr nonzero)

theorem length_numeral_pos (base number : Nat) : 0 < (numeral base number).length :=
  List.length_pos_iff.mpr (numeral_ne_nil base number)

/-- A number has more digits than `power` if it is not below that power of the base. -/
theorem lt_length_numeral (proper : 1 < base) (large : base ^ power ≤ number) :
    power < (numeral base number).length := by
  have positive : 0 < number := Nat.lt_of_lt_of_le (Nat.pow_pos (by omega)) large
  rw [numeral, if_neg positive.ne', List.length_reverse]
  exact (Nat.lt_digits_length_iff proper number).mpr large

theorem length_numeral_le (proper : 1 < base) (some_digits : 0 < power)
    (small : number < base ^ power) : (numeral base number).length ≤ power := by
  rw [numeral]
  split
  · exact some_digits
  · rw [List.length_reverse]
    exact (Nat.digits_length_le_iff proper number).mpr small

@[simp]
theorem numeralValue_nil (base : Nat) : numeralValue base [] = 0 := rfl

theorem numeralValue_snoc (base : Nat) (digits : List Nat) (digit : Nat) :
    numeralValue base (digits ++ [digit]) = numeralValue base digits * base + digit := by
  rw [numeralValue, numeralValue, List.reverse_append, List.reverse_singleton,
    List.singleton_append, Nat.ofDigits_cons]
  exact Nat.add_comm .. |>.trans (by rw [Nat.mul_comm])

/-- A numeral stands for its number. -/
@[simp]
theorem numeralValue_numeral (base number : Nat) : numeralValue base (numeral base number) = number := by
  rw [numeral]
  split
  · next zero => exact zero.symm
  · rw [numeralValue, List.reverse_reverse, Nat.ofDigits_digits]

/-- Zeros in front do not count. -/
@[simp]
theorem numeralValue_padded (base count : Nat) (digits : List Nat) :
    numeralValue base (List.replicate count 0 ++ digits) = numeralValue base digits := by
  rw [numeralValue, numeralValue, List.reverse_append, List.reverse_replicate,
    Nat.ofDigits_append_replicate_zero]

theorem lt_base_of_mem_numeral (proper : 1 < base) {digit : Nat}
    (member : digit ∈ numeral base number) : digit < base := by
  rw [numeral] at member
  split at member
  · cases List.mem_singleton.mp member
    omega
  · exact Nat.digits_lt_base proper (List.mem_reverse.mp member)

/-- Only the numeral of zero starts with a zero. -/
theorem head_numeral_ne_zero (nonzero : number ≠ 0) : (numeral base number).head? ≠ some 0 := by
  rw [numeral, if_neg nonzero, List.head?_reverse,
    List.getLast?_eq_some_getLast (Nat.digits_ne_nil_iff_ne_zero.mpr nonzero)]
  exact fun zero => Nat.getLast_digit_ne_zero base nonzero (Option.some.inj zero)

theorem numeralValue_eq_foldl (base : Nat) (digits : List Nat) :
    numeralValue base digits = digits.foldl (fun value digit => base * value + digit) 0 := by
  induction digits using List.reverseRecOn with
  | nil => rfl
  | append_singleton digits digit inductionHypothesis =>
      rw [numeralValue_snoc, inductionHypothesis, List.foldl_append, Nat.mul_comm]
      rfl

end Yaeos
