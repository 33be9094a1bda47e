import Mathlib.Data.Nat.Bitwise
import Mathlib.Tactic.Common

/-!
# Machine addresses

Addresses and sizes are natural numbers below `addressSpace`; sums that the
source computes in `uintptr_t` are reduced by `wrap`.  The alignment helpers of
`lib/align.h` keep their masks, and the lemmas say what they compute when the
alignment is a power of two.
-/

namespace Yaeos

/-- One more than the largest address of the 32-bit machine. -/
def addressSpace : Nat := 2 ^ 32

/-- `PLATFORM_PAGE_SIZE`. -/
def platformPageSize : Nat := 4096

/-- The value a computed address has in a machine word. -/
def wrap (address : Nat) : Nat := address % addressSpace

theorem wrap_of_lt {address : Nat} (inside : address < addressSpace) : wrap address = address :=
  Nat.mod_eq_of_lt inside

theorem wrap_lt (address : Nat) : wrap address < addressSpace :=
  Nat.mod_lt _ (by decide)

/-- `x - y` in machine words. -/
def wrapSub (minuend subtrahend : Nat) : Nat := wrap (minuend + addressSpace - subtrahend)

theorem wrapSub_of_le {minuend subtrahend : Nat} (ordered : subtrahend ≤ minuend)
    (inside : minuend < addressSpace) : wrapSub minuend subtrahend = minuend - subtrahend := by
  unfold wrapSub wrap addressSpace at *
  omega

/-- The mask `-alignment` of a machine word. -/
def alignMask (alignment : Nat) : Nat := wrapSub 0 alignment

def alignRounddown (start alignment : Nat) : Nat :=
  if alignment = 0 then start else start &&& alignMask alignment

def alignRoundup (start alignment : Nat) : Nat :=
  if alignment = 0 then start
  else wrap (start + (alignment - 1)) &&& alignMask alignment

/-- `check_align`. -/
def checkAlign (value alignment : Nat) : Prop := value = alignRounddown value alignment

instance (value alignment : Nat) : Decidable (checkAlign value alignment) :=
  inferInstanceAs (Decidable (value = alignRounddown value alignment))

/-- `div_ceil`. -/
def divCeil (dividend divisor : Nat) : Nat := (dividend + divisor - 1) / divisor

/-- Masking with `-2 ^ power` clears the low `power` bits. -/
theorem and_alignMask {address power : Nat} (inside : address < addressSpace)
    (fits : power < 32) : address &&& alignMask (2 ^ power) = address / 2 ^ power * 2 ^ power := by
  have mask : alignMask (2 ^ power) = 2 ^ power * (2 ^ (32 - power) - 1) := by
    have below : 2 ^ power < 2 ^ 32 := Nat.pow_lt_pow_right (by omega) fits
    have product : 2 ^ power * 2 ^ (32 - power) = 2 ^ 32 := by
      rw [← Nat.pow_add]; congr 1; omega
    have positive : 0 < 2 ^ power := Nat.two_pow_pos power
    rw [Nat.mul_sub, product]
    unfold alignMask wrapSub wrap addressSpace
    omega
  apply Nat.eq_of_testBit_eq
  intro bit
  rw [mask, Nat.testBit_and, Nat.testBit_two_pow_mul, Nat.testBit_two_pow_sub_one, Nat.mul_comm,
    Nat.testBit_two_pow_mul, Nat.testBit_div_two_pow]
  by_cases low : power ≤ bit
  · by_cases high : bit < 32
    · simp [low, Nat.sub_lt_sub_right low high]
    · have clear : address.testBit bit = false :=
        Nat.testBit_lt_two_pow (Nat.lt_of_lt_of_le inside (Nat.pow_le_pow_right (by omega) (by omega)))
      simp [clear, Nat.sub_add_cancel low]
  · simp [low]

theorem alignRounddown_two_pow {address power : Nat} (inside : address < addressSpace)
    (fits : power < 32) :
    alignRounddown address (2 ^ power) = address / 2 ^ power * 2 ^ power := by
  rw [alignRounddown, if_neg (Nat.two_pow_pos power).ne', and_alignMask inside fits]

theorem alignRoundup_two_pow {address power : Nat} (fits : power < 32)
    (inside : address + (2 ^ power - 1) < addressSpace) :
    alignRoundup address (2 ^ power) = (address + (2 ^ power - 1)) / 2 ^ power * 2 ^ power := by
  rw [alignRoundup, if_neg (Nat.two_pow_pos power).ne', wrap_of_lt inside,
    and_alignMask inside fits]

theorem checkAlign_two_pow {address power : Nat} (inside : address < addressSpace)
    (fits : power < 32) : checkAlign address (2 ^ power) ↔ 2 ^ power ∣ address := by
  rw [checkAlign, alignRounddown_two_pow inside fits]
  constructor
  · intro rounded
    exact ⟨address / 2 ^ power, by rw [Nat.mul_comm]; exact rounded⟩
  · intro divides
    exact (Nat.div_mul_cancel divides).symm

theorem checkAlign_page {address : Nat} (inside : address < addressSpace) :
    checkAlign address platformPageSize ↔ platformPageSize ∣ address :=
  checkAlign_two_pow inside (show 12 < 32 by omega)

theorem alignRounddown_page {address : Nat} (inside : address < addressSpace) :
    alignRounddown address platformPageSize =
      address / platformPageSize * platformPageSize :=
  alignRounddown_two_pow inside (show 12 < 32 by omega)

theorem alignRoundup_page {address : Nat} (inside : address + 4095 < addressSpace) :
    alignRoundup address platformPageSize =
      (address + 4095) / platformPageSize * platformPageSize :=
  alignRoundup_two_pow (show 12 < 32 by omega) inside

/-- Rounding up gives the least multiple that is not below the address. -/
structure RoundedUp (address unit rounded : Nat) : Prop where
  aligned : unit ∣ rounded
  ge : address ≤ rounded
  least : ∀ bound, unit ∣ bound → address ≤ bound → rounded ≤ bound

theorem RoundedUp.lt {address unit rounded : Nat} (rounding : RoundedUp address unit rounded)
    (positive : 0 < unit) : rounded < address + unit := by
  by_contra above
  obtain ⟨factor, rfl⟩ := rounding.aligned
  have split : unit * factor = unit * (factor - 1) + unit := by
    have nonzero : factor ≠ 0 := by
      rintro rfl
      omega
    rw [← Nat.mul_succ]
    congr 1
    omega
  have least := rounding.least (unit * (factor - 1)) (Nat.dvd_mul_right ..) (by omega)
  omega

theorem roundedUp_div (address : Nat) {unit : Nat} (positive : 0 < unit) :
    RoundedUp address unit ((address + (unit - 1)) / unit * unit) := by
  refine ⟨Nat.dvd_mul_left .., ?_, ?_⟩
  · have below := Nat.lt_div_mul_add positive (a := address + (unit - 1))
    omega
  · rintro _ ⟨factor, rfl⟩ atLeast
    rw [Nat.mul_comm unit factor]
    apply Nat.mul_le_mul_right
    rw [Nat.div_le_iff_le_mul_add_pred positive]
    omega

theorem alignRoundup_spec {address power : Nat} (fits : power < 32)
    (inside : address + (2 ^ power - 1) < addressSpace) :
    RoundedUp address (2 ^ power) (alignRoundup address (2 ^ power)) := by
  rw [alignRoundup_two_pow fits inside]
  exact roundedUp_div address (Nat.two_pow_pos power)

/-- A sum above the last address comes out as zero. -/
theorem alignRoundup_overflow {address power : Nat} (below : address < addressSpace)
    (fits : power < 32) (beyond : addressSpace ≤ address + (2 ^ power - 1)) :
    alignRoundup address (2 ^ power) = 0 := by
  have positive : 0 < 2 ^ power := Nat.two_pow_pos power
  have width : 2 ^ power < addressSpace := Nat.pow_lt_pow_right (by decide) fits
  have sum : wrap (address + (2 ^ power - 1)) = address + (2 ^ power - 1) - addressSpace := by
    unfold wrap
    rw [Nat.mod_eq_sub_mod beyond, Nat.mod_eq_of_lt (by omega)]
  rw [alignRoundup, if_neg positive.ne', sum, and_alignMask (by omega) fits,
    Nat.div_eq_of_lt (by omega), Nat.zero_mul]

theorem alignRoundup_zero (address : Nat) : alignRoundup address 0 = address := if_pos rfl

end Yaeos
