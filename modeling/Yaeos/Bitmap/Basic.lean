import Yaeos.Bitmap.Word
import Yaeos.Machine.Address
import Yaeos.Machine.Outcome

/-!
# Bitmaps (`lib/ds/bitmap.c`)

A bitmap is a buffer of 32-bit words together with the number of words and the
number of bits it uses.  `Bitmap.bit` reads one bit of the buffer; every
operation of the source is described by what it does to `Bitmap.bit`.

Lengths count bits of page maps, that is byte lengths divided by the page size,
so no sum of the source on them leaves a `size_t`.
-/

namespace Yaeos

/-- `BITS_IN_SET`. -/
def bitsInSet : Nat := 32

structure Bitmap where
  /-- Address of the first word. -/
  space : Nat
  /-- The words from `space` on, at least the ones in use. -/
  bitsets : List (BitVec 32)
  setsCount : Nat
  length : Nat
  /-- The words in use are part of the buffer. -/
  stored : setsCount ≤ bitsets.length
  /-- Every bit of the bitmap has a word. -/
  covered : length ≤ bitsInSet * setsCount

namespace Bitmap

/-- The bit at an index; clear outside the buffer. -/
def bit (bitmap : Bitmap) (index : Nat) : Bool :=
  (bitmap.bitsets.getD (index / bitsInSet) 0).getLsbD (index % bitsInSet)

/-- Change one word of the buffer. -/
def modifySet (bitmap : Bitmap) (bitsetNdx : Nat) (change : BitVec 32 → BitVec 32) : Bitmap where
  space := bitmap.space
  bitsets := bitmap.bitsets.modify bitsetNdx change
  setsCount := bitmap.setsCount
  length := bitmap.length
  stored := by simpa using bitmap.stored
  covered := bitmap.covered

@[simp]
theorem modifySet_length (bitmap : Bitmap) (bitsetNdx : Nat) (change : BitVec 32 → BitVec 32) :
    (bitmap.modifySet bitsetNdx change).length = bitmap.length := rfl

theorem set_lt_length {bitmap : Bitmap} {index : Nat} (inside : index < bitmap.length) :
    index / bitsInSet < bitmap.bitsets.length := by
  have stored := bitmap.stored
  have covered := bitmap.covered
  unfold bitsInSet at *
  omega

theorem bit_modifySet {bitmap : Bitmap} {index : Nat} (inside : index < bitmap.length)
    (change : BitVec 32 → BitVec 32) (other : Nat) :
    (bitmap.modifySet (index / bitsInSet) change).bit other =
      if other / bitsInSet = index / bitsInSet then
        (change (bitmap.bitsets.getD (index / bitsInSet) 0)).getLsbD (other % bitsInSet)
      else bitmap.bit other := by
  have stored := set_lt_length inside
  simp only [bit, modifySet, List.getD_eq_getElem?_getD, List.getElem?_modify]
  by_cases same : other / bitsInSet = index / bitsInSet
  · simp [same, stored]
  · simp [same, Ne.symm same]

end Bitmap

/-- `get_indices`. -/
def getIndices (index : Nat) : Nat × Nat := (index / bitsInSet, index % bitsInSet)

/-- `assert_bounds`: the access must not lie past the length of the bitmap. -/
def assertBounds (bitmap : Bitmap) (bitsetNdx bitndx : Nat) : Outcome Unit :=
  kassert (bitsetNdx * bitsInSet + bitndx < bitmap.length)

def bitmapGet (bitmap : Bitmap) (index : Nat) : Outcome Bool := do
  let (bitsetNdx, bitndx) := getIndices index
  assertBounds bitmap bitsetNdx bitndx
  .ok (bitmap.bitsets.getD bitsetNdx 0 &&& (1#32 <<< bitndx) != 0)

def bitmapSetTrue (bitmap : Bitmap) (index : Nat) : Outcome Bitmap := do
  let (bitsetNdx, bitndx) := getIndices index
  assertBounds bitmap bitsetNdx bitndx
  .ok (bitmap.modifySet bitsetNdx fun bitset => bitset ||| (1#32 <<< bitndx))

def bitmapSetFalse (bitmap : Bitmap) (index : Nat) : Outcome Bitmap := do
  let (bitsetNdx, bitndx) := getIndices index
  assertBounds bitmap bitsetNdx bitndx
  .ok (bitmap.modifySet bitsetNdx fun bitset => bitset &&& ~~~(1#32 <<< bitndx))

/-- The first word that is not full, and in it the first clear bit; the bit
found may still be part of the padding behind the last bit of the bitmap. -/
def bitmapSearchFalse (bitmap : Bitmap) : Option Nat :=
  match (bitmap.bitsets.take bitmap.setsCount).findIdx? (· != BitVec.allOnes 32) with
  | none => none
  | some wordNdx =>
      let bitRelNdx := Word.findFirstZero (bitmap.bitsets.getD wordNdx 0)
      let bitAbsNdx := wordNdx * bitsInSet + bitRelNdx
      if bitAbsNdx < bitmap.length then some bitAbsNdx else none

/-- Bytes of word storage a bitmap of the given length needs. -/
def bitmapPredictSize (lengthBits : Nat) : Outcome Nat := do
  kassert (lengthBits > 0)
  .ok (alignRoundup lengthBits bitsInSet / 8)

/-- `memory` holds the words from `space` on; the ones in use are cleared. -/
def bitmapInit (space : Nat) (memory : List (BitVec 32)) (lengthBits : Nat) : Outcome Bitmap := do
  kassert (space ≠ 0)
  kassert (lengthBits > 0)
  let setsCount := divCeil lengthBits bitsInSet
  if enough : setsCount ≤ memory.length then
    .ok {
      space := space
      bitsets := List.replicate setsCount 0 ++ memory.drop setsCount
      setsCount := setsCount
      length := lengthBits
      stored := by simp
      covered := by
        have := Nat.div_add_mod (lengthBits + bitsInSet - 1) bitsInSet
        have := Nat.mod_lt (lengthBits + bitsInSet - 1) (show 0 < bitsInSet by decide)
        simp only [setsCount, divCeil, bitsInSet] at *
        omega }
  else .error .outOfBounds

namespace Bitmap

theorem assertBounds_ok {bitmap : Bitmap} {index : Nat} (inside : index < bitmap.length) :
    assertBounds bitmap (index / bitsInSet) (index % bitsInSet) = .ok () := by
  apply kassert_ok
  rwa [Nat.div_add_mod']

theorem assertBounds_error {bitmap : Bitmap} {index : Nat} (outside : ¬index < bitmap.length) :
    assertBounds bitmap (index / bitsInSet) (index % bitsInSet) = .error .kassert := by
  apply kassert_error
  rwa [Nat.div_add_mod']

theorem and_oneShift_ne_zero (word : BitVec 32) {position : Nat} (inWord : position < 32) :
    (word &&& (1#32 <<< position) != 0) = word.getLsbD position := by
  cases set : word.getLsbD position with
  | true =>
      have differs : word &&& (1#32 <<< position) ≠ 0 := by
        intro isZero
        have bits := congrArg (fun value => value.getLsbD position) isZero
        rw [BitVec.getLsbD_and, set] at bits
        simp [inWord] at bits
      simpa using differs
  | false =>
      have isZero : word &&& (1#32 <<< position) = 0 := by
        apply BitVec.eq_of_getLsbD_eq
        intro other _
        by_cases same : other = position
        · subst same; simp [set]
        · rcases Nat.lt_or_gt_of_ne same with below | above
          · simp [below]
          · have positiveDistance : other - position ≠ 0 := by omega
            simp [positiveDistance]
      simp [isZero]

theorem mod_bitsInSet_lt (index : Nat) : index % bitsInSet < 32 := Nat.mod_lt _ (by decide)

theorem get_eq {bitmap : Bitmap} {index : Nat} (inside : index < bitmap.length) :
    bitmapGet bitmap index = .ok (bitmap.bit index) := by
  simp only [bitmapGet, getIndices, assertBounds_ok inside, Outcome.ok_bind]
  rw [and_oneShift_ne_zero _ (mod_bitsInSet_lt index)]
  rfl

theorem get_error {bitmap : Bitmap} {index : Nat} (outside : ¬index < bitmap.length) :
    bitmapGet bitmap index = .error .kassert := by
  simp only [bitmapGet, getIndices, assertBounds_error outside, Outcome.error_bind]

/-- Same word and same position in it: same index. -/
theorem index_eq {index other : Nat} (sameWord : other / bitsInSet = index / bitsInSet) :
    other % bitsInSet = index % bitsInSet ↔ other = index := by
  unfold bitsInSet at *
  omega

theorem getLsbD_oneShift {position other : Nat} (inWord : position < 32) :
    (1#32 <<< position).getLsbD other = decide (other = position) := by
  rcases Nat.lt_trichotomy other position with below | same | above
  · simp [below, Nat.ne_of_lt below]
  · subst same; simp [inWord]
  · have positiveDistance : other - position ≠ 0 := by omega
    simp [positiveDistance, Nat.ne_of_gt above]

/-- A word that is changed at one position changes the bitmap at one index. -/
theorem bit_assign {bitmap : Bitmap} {index : Nat} (inside : index < bitmap.length)
    {change : BitVec 32 → BitVec 32} {value : Bool}
    (changed : ∀ word, ∀ position < 32, (change word).getLsbD position =
      if position = index % bitsInSet then value else word.getLsbD position) (other : Nat) :
    (bitmap.modifySet (index / bitsInSet) change).bit other =
      if other = index then value else bitmap.bit other := by
  rw [bit_modifySet inside]
  split
  · next sameWord =>
      rw [changed _ _ (mod_bitsInSet_lt other), if_congr (index_eq sameWord) rfl rfl, ← sameWord]
      rfl
  · next otherWord =>
      have differs : other ≠ index := fun same => otherWord (by rw [same])
      rw [if_neg differs]

theorem setTrue_eq {bitmap : Bitmap} {index : Nat} (inside : index < bitmap.length) :
    ∃ result, bitmapSetTrue bitmap index = .ok result ∧ result.length = bitmap.length ∧
      ∀ other, result.bit other = if other = index then true else bitmap.bit other := by
  refine ⟨bitmap.modifySet (index / bitsInSet) fun bitset =>
      bitset ||| (1#32 <<< (index % bitsInSet)), ?_, rfl, bit_assign inside fun word position _ => ?_⟩
  · simp only [bitmapSetTrue, getIndices, assertBounds_ok inside, Outcome.ok_bind]
  · rw [BitVec.getLsbD_or, getLsbD_oneShift (mod_bitsInSet_lt index)]
    by_cases same : position = index % bitsInSet
    · simp [same]
    · simp [same]

theorem setFalse_eq {bitmap : Bitmap} {index : Nat} (inside : index < bitmap.length) :
    ∃ result, bitmapSetFalse bitmap index = .ok result ∧ result.length = bitmap.length ∧
      ∀ other, result.bit other = if other = index then false else bitmap.bit other := by
  refine ⟨bitmap.modifySet (index / bitsInSet) fun bitset =>
      bitset &&& ~~~(1#32 <<< (index % bitsInSet)), ?_, rfl,
    bit_assign inside fun word position inWord => ?_⟩
  · simp only [bitmapSetFalse, getIndices, assertBounds_ok inside, Outcome.ok_bind]
  · rw [BitVec.getLsbD_and, BitVec.getLsbD_not, getLsbD_oneShift (mod_bitsInSet_lt index)]
    by_cases same : position = index % bitsInSet
    · simp [same]
    · simp [same, inWord]

theorem setFalse_error {bitmap : Bitmap} {index : Nat} (outside : ¬index < bitmap.length) :
    bitmapSetFalse bitmap index = .error .kassert := by
  simp only [bitmapSetFalse, getIndices, assertBounds_error outside, Outcome.error_bind]

/-- The word an index in the words in use belongs to is the one `bit` reads. -/
theorem bit_of_set {bitmap : Bitmap} {wordNdx position : Nat} (inWord : position < 32) :
    bitmap.bit (wordNdx * bitsInSet + position) =
      (bitmap.bitsets.getD wordNdx 0).getLsbD position := by
  have word : (wordNdx * bitsInSet + position) / bitsInSet = wordNdx := by
    unfold bitsInSet; omega
  have inside : (wordNdx * bitsInSet + position) % bitsInSet = position := by
    unfold bitsInSet; omega
  rw [bit, word, inside]

/-- All bits of a full word are set. -/
theorem bit_of_full {bitmap : Bitmap} {index : Nat}
    (full : bitmap.bitsets.getD (index / bitsInSet) 0 = BitVec.allOnes 32) :
    bitmap.bit index = true := by
  have small := mod_bitsInSet_lt index
  rw [bit, full, BitVec.getLsbD_allOnes]
  exact decide_eq_true small

/-- The search returns the first clear bit, and fails only when every bit of the
bitmap is set: a clear bit of the padding is never taken for one of the bitmap. -/
theorem searchFalse_spec (bitmap : Bitmap) :
    match bitmapSearchFalse bitmap with
    | some index => index < bitmap.length ∧ bitmap.bit index = false ∧
        ∀ lower < index, bitmap.bit lower = true
    | none => ∀ index < bitmap.length, bitmap.bit index = true := by
  have stored := bitmap.stored
  have covered := bitmap.covered
  have wordInUse : ∀ index < bitmap.length, index / bitsInSet < bitmap.setsCount := by
    intro index inside
    unfold bitsInSet at *
    omega
  have getDInUse : ∀ wordNdx (inUse : wordNdx < (bitmap.bitsets.take bitmap.setsCount).length),
      bitmap.bitsets.getD wordNdx 0 = (bitmap.bitsets.take bitmap.setsCount)[wordNdx] := by
    intro wordNdx inUse
    rw [List.getElem_take, List.getD_eq_getElem]
  have countInUse : (bitmap.bitsets.take bitmap.setsCount).length = bitmap.setsCount :=
    List.length_take_of_le stored
  unfold bitmapSearchFalse
  cases found : (bitmap.bitsets.take bitmap.setsCount).findIdx? (· != BitVec.allOnes 32) with
  | none =>
      intro index inside
      have allFull := List.findIdx?_eq_none_iff.mp found
      have inUse : index / bitsInSet < (bitmap.bitsets.take bitmap.setsCount).length := by
        rw [countInUse]; exact wordInUse index inside
      apply bit_of_full
      rw [getDInUse _ inUse]
      simpa using allFull _ (List.getElem_mem inUse)
  | some wordNdx =>
      obtain ⟨inUse, notFull, before⟩ := List.findIdx?_eq_some_iff_getElem.mp found
      have partlyFree : bitmap.bitsets.getD wordNdx 0 ≠ BitVec.allOnes 32 := by
        rw [getDInUse _ inUse]; simpa using notFull
      obtain ⟨inWord, clear, firstInWord⟩ := Word.findFirstZero_spec partlyFree
      have lowerSet : ∀ lower < wordNdx * bitsInSet +
          Word.findFirstZero (bitmap.bitsets.getD wordNdx 0), bitmap.bit lower = true := by
        intro lower below
        by_cases earlier : lower / bitsInSet < wordNdx
        · apply bit_of_full
          rw [getDInUse _ (Nat.lt_trans earlier inUse)]
          simpa using before _ earlier
        · obtain ⟨offset, rfl⟩ : ∃ offset, lower = wordNdx * bitsInSet + offset :=
            ⟨lower - wordNdx * bitsInSet, by unfold bitsInSet at *; omega⟩
          have offsetBelow : offset < Word.findFirstZero (bitmap.bitsets.getD wordNdx 0) := by
            omega
          rw [bit_of_set (Nat.lt_trans offsetBelow inWord)]
          exact firstInWord _ offsetBelow
      by_cases inside : wordNdx * bitsInSet +
          Word.findFirstZero (bitmap.bitsets.getD wordNdx 0) < bitmap.length
      · simp only [inside, if_true]
        exact ⟨trivial, (bit_of_set inWord).trans clear, lowerSet⟩
      · simp only [inside, if_false]
        exact fun index small => lowerSet index (by omega)

theorem init_eq {space : Nat} {memory : List (BitVec 32)} {lengthBits : Nat} {bitmap : Bitmap}
    (initialised : bitmapInit space memory lengthBits = .ok bitmap) :
    0 < lengthBits ∧ bitmap.length = lengthBits ∧ ∀ index < lengthBits, bitmap.bit index = false := by
  simp only [bitmapInit, Outcome.bind_eq_ok, kassert_eq_ok] at initialised
  obtain ⟨_, _, _, positive, built⟩ := initialised
  split at built
  · cases built
    refine ⟨positive, rfl, fun index inside => ?_⟩
    have inUse : index / bitsInSet < divCeil lengthBits bitsInSet := by
      unfold divCeil bitsInSet
      omega
    simp [bit, List.getElem?_append_left, inUse]
  · cases built

end Bitmap

end Yaeos
