import Mathlib.Data.Nat.Bitwise
import Mathlib.Data.Nat.Find
import Mathlib.Tactic.Common

/-!
# Searching a machine word

`findFirstOne` isolates the lowest set bit of a word by `x ^ (x - 1)` and counts
the shifts until nothing is left, as `lib/utils.h` does.  The result is the
position of the lowest set bit of every word but zero; `findFirstZero` is the
same search in the complement.
-/

namespace Yaeos.Word

variable {width : Nat}

/-- The counting loop: shift right until the word is zero.  A word of `width`
bits is zero after `width` shifts, so `width` steps are enough. -/
def shiftsToZero : Nat → BitVec width → Nat
  | 0, _ => 0
  | steps + 1, word =>
      if word = 0 then 0 else shiftsToZero steps (word >>> 1) + 1

def findFirstOne (word : BitVec width) : Nat :=
  shiftsToZero width ((word ^^^ (word - 1)) >>> 1)

def findFirstZero (word : BitVec width) : Nat := findFirstOne (~~~word)

/-- `position` is the lowest set bit of `word`. -/
def IsFirstOne (word : BitVec width) (position : Nat) : Prop :=
  word.getLsbD position = true ∧ ∀ lower < position, word.getLsbD lower = false

theorem exists_isFirstOne {word : BitVec width} (nonzero : word ≠ 0) :
    ∃ position, IsFirstOne word position := by
  have someBit : ∃ position, word.getLsbD position = true := by
    by_contra noBit
    apply nonzero
    apply BitVec.eq_of_getLsbD_eq
    intro position _
    simpa using fun set => noBit ⟨position, set⟩
  classical
  refine ⟨Nat.find someBit, Nat.find_spec someBit, fun lower below => ?_⟩
  simpa using Nat.find_min someBit below

theorem IsFirstOne.lt_width {word : BitVec width} {position : Nat}
    (first : IsFirstOne word position) : position < width :=
  BitVec.lt_of_getLsbD first.1

/-- A word whose lowest set bit is `position` is an odd multiple of `2 ^ position`. -/
theorem IsFirstOne.toNat_eq {word : BitVec width} {position : Nat}
    (first : IsFirstOne word position) :
    ∃ high, word.toNat = 2 ^ position * (2 * high + 1) := by
  have lowZero : word.toNat % 2 ^ position = 0 := by
    apply Nat.eq_of_testBit_eq
    intro bit
    by_cases below : bit < position
    · simpa [Nat.testBit_mod_two_pow, below, BitVec.getLsbD] using first.2 bit below
    · simp [Nat.testBit_mod_two_pow, below]
  have odd : (word.toNat / 2 ^ position) % 2 = 1 := by
    have bitSet : word.toNat.testBit position = true := first.1
    rw [Nat.testBit_eq_decide_div_mod_eq] at bitSet
    exact of_decide_eq_true bitSet
  refine ⟨word.toNat / 2 ^ position / 2, ?_⟩
  have split := Nat.div_add_mod word.toNat (2 ^ position)
  have halves := Nat.div_add_mod (word.toNat / 2 ^ position) 2
  rw [odd] at halves
  rw [halves]
  omega

/-- Subtracting one flips exactly the bits up to the lowest set one. -/
theorem getLsbD_xor_sub_one {word : BitVec width} {position : Nat}
    (first : IsFirstOne word position) (bit : Nat) :
    (word ^^^ (word - 1)).getLsbD bit = decide (bit ≤ position) := by
  obtain ⟨high, value⟩ := first.toNat_eq
  have inWidth := first.lt_width
  have powerPositive : 0 < 2 ^ position := Nat.two_pow_pos position
  have oneLt : 1 < 2 ^ width := Nat.one_lt_two_pow (by omega)
  have valuePositive : 1 ≤ word.toNat := by
    rw [value]; exact Nat.mul_pos powerPositive (by omega)
  have predecessor : (word - 1).toNat = 2 ^ position * (2 * high) + (2 ^ position - 1) := by
    have atLeastOne : (1 : BitVec width) ≤ word := by
      rw [BitVec.le_def]
      simpa [Nat.mod_eq_of_lt oneLt] using valuePositive
    rw [BitVec.toNat_sub_of_le atLeastOne, value]
    simp only [BitVec.ofNat_eq_ofNat, BitVec.toNat_ofNat, Nat.mod_eq_of_lt oneLt]
    rw [Nat.mul_add]
    omega
  have original : word.toNat = 2 ^ position * (2 * high + 1) + 0 := by omega
  simp only [BitVec.getLsbD, BitVec.toNat_xor, Nat.testBit_xor]
  rw [predecessor, original, Nat.testBit_two_pow_mul_add _ powerPositive,
    Nat.testBit_two_pow_mul_add _ (by omega)]
  rcases Nat.lt_trichotomy bit position with below | same | above
  · simp [below, Nat.le_of_lt below, Nat.testBit_two_pow_sub_one]
  · subst same
    simp [Nat.testBit_zero]
  · obtain ⟨offset, rfl⟩ := Nat.exists_eq_add_of_lt above
    have distance : position + offset + 1 - position = offset + 1 := by omega
    have halves : (2 * high + 1) / 2 = 2 * high / 2 := by omega
    simp [Nat.not_lt.mpr (Nat.le_of_lt above), Nat.not_le.mpr above, distance,
      Nat.testBit_succ, halves]

theorem shiftsToZero_eq {word : BitVec width} {position steps : Nat} (enough : position ≤ steps)
    (bits : ∀ bit, word.getLsbD bit = decide (bit < position)) :
    shiftsToZero steps word = position := by
  induction steps generalizing word position with
  | zero => simp only [shiftsToZero]; omega
  | succ steps inductionHypothesis =>
      cases position with
      | zero =>
          have isZero : word = 0 := by
            apply BitVec.eq_of_getLsbD_eq
            intro bit _
            simpa using bits bit
          simp [shiftsToZero, isZero]
      | succ position =>
          have nonzero : word ≠ 0 := by
            rintro rfl
            simpa using bits 0
          have shifted : shiftsToZero steps (word >>> 1) = position := by
            apply inductionHypothesis (by omega)
            intro bit
            simp [BitVec.getLsbD_ushiftRight, bits, Nat.add_comm 1 bit]
          rw [shiftsToZero, if_neg nonzero, shifted]

theorem findFirstOne_eq {word : BitVec width} {position : Nat}
    (first : IsFirstOne word position) : findFirstOne word = position := by
  apply shiftsToZero_eq (Nat.le_of_lt first.lt_width)
  intro bit
  rw [BitVec.getLsbD_ushiftRight, getLsbD_xor_sub_one first, Nat.add_comm 1 bit]
  exact decide_eq_decide.mpr Nat.succ_le_iff

/-- Every word but zero: the search returns the lowest set bit. -/
theorem findFirstOne_isFirstOne {word : BitVec width} (nonzero : word ≠ 0) :
    IsFirstOne word (findFirstOne word) := by
  obtain ⟨position, first⟩ := exists_isFirstOne nonzero
  rwa [findFirstOne_eq first]

/-- Every word that is not all ones: the search in the complement returns the
lowest clear bit. -/
theorem findFirstZero_spec {word : BitVec width} (notFull : word ≠ BitVec.allOnes width) :
    findFirstZero word < width ∧ word.getLsbD (findFirstZero word) = false ∧
      ∀ lower < findFirstZero word, word.getLsbD lower = true := by
  have complementNonzero : ~~~word ≠ 0 := by
    intro complementZero
    apply notFull
    rw [← BitVec.not_not (b := word), complementZero]
    simp
  have first := findFirstOne_isFirstOne complementNonzero
  have inWidth := first.lt_width
  refine ⟨inWidth, ?_, fun lower below => ?_⟩
  · simpa [IsFirstOne, findFirstZero, inWidth] using first.1
  · simpa [findFirstZero, Nat.lt_trans below inWidth] using first.2 lower below

end Yaeos.Word
