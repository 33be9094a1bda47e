import Mathlib.Tactic.Common

/-!
# Extents of memory

Some bytes from an address on.  Two extents are apart if they have no byte in
common; parts of extents that are apart are apart.
-/

namespace Yaeos

structure Extent where
  start : Nat
  length : Nat
  deriving DecidableEq, Repr

namespace Extent

/-- One ends before the other begins. -/
def Apart (first second : Extent) : Prop :=
  first.start + first.length ≤ second.start ∨ second.start + second.length ≤ first.start

instance (first second : Extent) : Decidable (first.Apart second) :=
  inferInstanceAs (Decidable (_ ∨ _))

/-- The first is a part of the second. -/
structure Within (inner outer : Extent) : Prop where
  above : outer.start ≤ inner.start
  below : inner.start + inner.length ≤ outer.start + outer.length

/-- The byte at an address is one of the extent. -/
def Contains (extent : Extent) (address : Nat) : Prop :=
  extent.start ≤ address ∧ address < extent.start + extent.length

instance (extent : Extent) (address : Nat) : Decidable (extent.Contains address) :=
  inferInstanceAs (Decidable (_ ∧ _))

variable {first second inner outer : Extent} {address : Nat}

theorem Apart.not_contains (apart : first.Apart second) (inFirst : first.Contains address) :
    ¬second.Contains address := by
  rintro ⟨above, below⟩
  obtain ⟨from_, upTo⟩ := inFirst
  rcases apart with before | behind
  · omega
  · omega

theorem Contains.within (contains : inner.Contains address) (within : inner.Within outer) :
    outer.Contains address :=
  ⟨Nat.le_trans within.above contains.1, Nat.lt_of_lt_of_le contains.2 within.below⟩

theorem Apart.symm (apart : first.Apart second) : second.Apart first := Or.symm apart

theorem Apart.left (apart : outer.Apart second) (within : inner.Within outer) :
    inner.Apart second := by
  obtain ⟨above, below⟩ := within
  rcases apart with before | behind
  · exact .inl (by omega)
  · exact .inr (by omega)

theorem Apart.right (apart : first.Apart outer) (within : inner.Within outer) :
    first.Apart inner := (apart.symm.left within).symm

/-- Extents with a byte each that are apart start at different addresses. -/
theorem Apart.start_ne (apart : first.Apart second) (some_first : 0 < first.length)
    (some_second : 0 < second.length) : first.start ≠ second.start := by
  rcases apart with before | behind
  · omega
  · omega

/-- Equal parts that follow each other. -/
theorem apart_of_index_ne {start stride i j : Nat} (different : i ≠ j) :
    Apart ⟨start + i * stride, stride⟩ ⟨start + j * stride, stride⟩ := by
  rcases Nat.lt_or_gt_of_ne different with below | above
  · have upTo : i * stride + stride ≤ j * stride := by
      rw [← Nat.succ_mul]
      exact Nat.mul_le_mul_right _ below
    exact .inl (by dsimp only; omega)
  · have upTo : j * stride + stride ≤ i * stride := by
      rw [← Nat.succ_mul]
      exact Nat.mul_le_mul_right _ above
    exact .inr (by dsimp only; omega)

end Extent

end Yaeos
