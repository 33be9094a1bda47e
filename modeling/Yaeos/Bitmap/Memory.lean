import Yaeos.Bitmap.Basic
import Yaeos.Machine.Extent
import Yaeos.Machine.Loop

/-!
# The memory of a bitmap

`bitmap_init` clears every word the bitmap uses.  `bitmap_resize` clears the words
it gets in addition, but hands their number to `kmemset`, which counts bytes; and
when words are given up, their number is the difference of two unsigned numbers
in the wrong order.
-/

namespace Yaeos

/-- No sum in the computation of the size of a bitmap leaves a `size_t`. -/
def Sizable (length : Nat) : Prop := length + (bitsInSet - 1) < addressSpace

instance (length : Nat) : Decidable (Sizable length) := inferInstanceAs (Decidable (_ < _))

theorem Sizable.of_le {length other : Nat} (sizable : Sizable length) (le : other ≤ length) :
    Sizable other := Nat.lt_of_le_of_lt (Nat.add_le_add_right le _) sizable

/-- Both roundings count the same words. -/
theorem bitmapPredictSize_eq {length : Nat} (positive : 0 < length) (sizable : Sizable length) :
    bitmapPredictSize length = .ok (4 * divCeil length bitsInSet) := by
  have rounded := @alignRoundup_two_pow length 5 (by omega) sizable
  simp only [bitmapPredictSize, kassert_ok positive, Outcome.ok_bind, Except.ok.injEq]
  rw [show bitsInSet = 2 ^ 5 from rfl, rounded, divCeil]
  omega

namespace Bitmap

/-- The words that are in use. -/
def storage (bitmap : Bitmap) : Extent := ⟨bitmap.space, 4 * bitmap.setsCount⟩

/-- A bitmap as `bitmap_init` leaves it in memory that is large enough. -/
structure Blank (bitmap : Bitmap) (space length : Nat) : Prop where
  space_eq : bitmap.space = space
  length_eq : bitmap.length = length
  setsCount_eq : bitmap.setsCount = divCeil length bitsInSet
  cleared : ∀ word < bitmap.setsCount, bitmap.bitsets[word]? = some 0

theorem init_blank {space length : Nat} {memory : List (BitVec 32)} (named : space ≠ 0)
    (positive : 0 < length) (enough : divCeil length bitsInSet ≤ memory.length) :
    ∃ bitmap, bitmapInit space memory length = .ok bitmap ∧ bitmap.Blank space length := by
  simp only [bitmapInit, kassert_ok named, kassert_ok positive, Outcome.ok_bind, dif_pos enough]
  refine ⟨_, rfl, rfl, rfl, rfl, fun word below => ?_⟩
  have inside : word < divCeil length bitsInSet := below
  rw [List.getElem?_append_left (by simpa using inside), List.getElem?_replicate, if_pos inside]

end Bitmap

/-! ## Bytes of words -/

/-- `data[index] = val` in memory that is given by its words, the low byte of a
word first. -/
def setByte (words : List (BitVec 32)) (index : Nat) (val : BitVec 8) :
    Outcome (List (BitVec 32)) :=
  match words[index / 4]? with
  | none => .error .outOfBounds
  | some word =>
      let shift := 8 * (index % 4)
      .ok (words.set (index / 4) (word &&& ~~~(255#32 <<< shift) ||| val.setWidth 32 <<< shift))

/-- `kmemset` on `len` bytes from the byte `first` of the words on. -/
def kmemset (words : List (BitVec 32)) (first : Nat) (val : BitVec 8) (len : Nat) :
    Outcome (List (BitVec 32)) :=
  (List.range len).foldlM (fun words i => setByte words (first + i) val) words

/-- The bit at an index of some words; clear behind them. -/
def wordsBit (words : List (BitVec 32)) (index : Nat) : Bool :=
  (words.getD (index / bitsInSet) 0).getLsbD (index % bitsInSet)

/-- The bits of a byte of a word. -/
theorem getLsbD_byteMask {byte position : Nat} (inWord : position < 32) :
    (255#32 <<< (8 * byte)).getLsbD position = decide (position / 8 = byte) := by
  rw [BitVec.getLsbD_shiftLeft, BitVec.getLsbD_ofNat]
  have ones : (255 : Nat).testBit (position - 8 * byte) = decide (position - 8 * byte < 8) :=
    Nat.testBit_two_pow_sub_one 8 _
  rw [ones, Bool.eq_iff_iff]
  simp only [inWord, decide_true, Bool.true_and, Bool.and_eq_true, Bool.not_eq_true',
    decide_eq_false_iff_not, decide_eq_true_eq]
  omega

/-- A zero byte clears its eight bits. -/
theorem setByte_zero {words : List (BitVec 32)} {index : Nat} (inside : index < 4 * words.length) :
    ∃ next, setByte words index 0 = .ok next ∧ next.length = words.length ∧
      ∀ bit, wordsBit next bit = (wordsBit words bit && !decide (bit / 8 = index)) := by
  have below : index / 4 < words.length := by omega
  obtain ⟨word, found⟩ : ∃ word, words[index / 4]? = some word :=
    ⟨_, List.getElem?_eq_getElem below⟩
  refine ⟨words.set (index / 4)
    (word &&& ~~~(255#32 <<< (8 * (index % 4))) ||| (0#8).setWidth 32 <<< (8 * (index % 4))), ?_,
    List.length_set, fun bit => ?_⟩
  · rw [setByte, found]
    rfl
  have inWord := Bitmap.mod_bitsInSet_lt bit
  simp only [wordsBit, List.getD_eq_getElem?_getD, List.getElem?_set]
  by_cases same : index / 4 = bit / bitsInSet
  · have byte : bit % bitsInSet / 8 = index % 4 ↔ bit / 8 = index := by
      unfold bitsInSet at *
      omega
    rw [if_pos same, if_pos below, ← same, found]
    simp only [Option.getD_some, BitVec.getLsbD_or, BitVec.getLsbD_and, BitVec.getLsbD_not,
      getLsbD_byteMask inWord, byte, inWord]
    simp
  · have differs : bit / 8 ≠ index := by
      unfold bitsInSet at *
      omega
    rw [if_neg same]
    simp [differs]

/-- Zero bytes clear their bits and no others. -/
theorem kmemset_zero {words : List (BitVec 32)} {first len : Nat}
    (inside : first + len ≤ 4 * words.length) :
    ∃ next, kmemset words first 0 len = .ok next ∧ next.length = words.length ∧
      ∀ bit, wordsBit next bit =
        (wordsBit words bit && !decide (first ≤ bit / 8 ∧ bit / 8 < first + len)) := by
  refine Loop.range_ok (fun rounds next => next.length = words.length ∧ ∀ bit, wordsBit next bit =
    (wordsBit words bit && !decide (first ≤ bit / 8 ∧ bit / 8 < first + rounds))) ?_ ?_
  · refine ⟨rfl, fun bit => ?_⟩
    have none_ : ¬(first ≤ bit / 8 ∧ bit / 8 < first + 0) := by omega
    rw [decide_eq_false none_, Bool.not_false, Bool.and_true]
  · rintro index below state ⟨length, bits⟩
    obtain ⟨next, assigned, nextLength, nextBits⟩ :=
      @setByte_zero state (first + index) (by omega)
    refine ⟨next, assigned, nextLength.trans length, fun bit => ?_⟩
    have grown : (first ≤ bit / 8 ∧ bit / 8 < first + (index + 1)) ↔
        (first ≤ bit / 8 ∧ bit / 8 < first + index) ∨ bit / 8 = first + index := by omega
    rw [nextBits, bits, decide_eq_decide.mpr grown, Bool.decide_or, Bool.not_or, Bool.and_assoc]

/-- Too many bytes end up behind the memory. -/
theorem kmemset_error {words : List (BitVec 32)} {first len : Nat}
    (inside : first ≤ 4 * words.length) (outside : 4 * words.length < first + len) :
    kmemset words first 0 len = .error .outOfBounds := by
  obtain ⟨before, cleared, length, -⟩ :=
    @kmemset_zero words first (4 * words.length - first) (by omega)
  refine Loop.range_error (show 4 * words.length - first < len by omega) cleared ?_
  have missing : before[(first + (4 * words.length - first)) / 4]? = none :=
    List.getElem?_eq_none (by omega)
  rw [setByte, missing]

/-- Words with the same bits are the same. -/
theorem getElem?_eq_of_wordsBit {words other : List (BitVec 32)} {word : Nat}
    (length : other.length = words.length)
    (bits : ∀ position < 32, wordsBit other (word * bitsInSet + position) =
      wordsBit words (word * bitsInSet + position)) : other[word]? = words[word]? := by
  rcases Nat.lt_or_ge word words.length with inside | outside
  · rw [List.getElem?_eq_getElem (length ▸ inside), List.getElem?_eq_getElem inside,
      Option.some.injEq]
    apply BitVec.eq_of_getLsbD_eq
    intro position inWord
    have same := bits position inWord
    have wordNdx : (word * bitsInSet + position) / bitsInSet = word := by
      unfold bitsInSet; omega
    have positionNdx : (word * bitsInSet + position) % bitsInSet = position := by
      unfold bitsInSet; omega
    rwa [wordsBit, wordsBit, wordNdx, positionNdx, List.getD_eq_getElem _ _ (length ▸ inside),
      List.getD_eq_getElem _ _ inside] at same
  · rw [List.getElem?_eq_none (length ▸ outside), List.getElem?_eq_none outside]

/-! ## Resizing -/

/-- Every bit has a word. -/
theorem le_divCeil (length : Nat) : length ≤ bitsInSet * divCeil length bitsInSet := by
  unfold divCeil bitsInSet
  omega

def bitmapResize (bitmap : Bitmap) (newLengthBits : Nat) : Outcome Bitmap := do
  kassert (newLengthBits > 0)
  let oldSetsCount := bitmap.setsCount
  let setsCount := divCeil newLengthBits bitsInSet
  let setsCountDiff := wrapSub setsCount oldSetsCount
  -- `bitsets + old_sets_count` counts words, the last argument bytes
  let bitsets ←
    if setsCountDiff > 0 then kmemset bitmap.bitsets (4 * oldSetsCount) 0 setsCountDiff
    else .ok bitmap.bitsets
  if enough : setsCount ≤ bitsets.length then
    .ok {
      space := bitmap.space
      bitsets := bitsets
      setsCount := setsCount
      length := newLengthBits
      stored := enough
      covered := le_divCeil newLengthBits }
  else .error .outOfBounds

namespace Bitmap

variable {bitmap next : Bitmap} {newLength : Nat}

/-- The bits both lengths have stay, the new ones are clear, and the words behind
the ones in use are as they were. -/
structure Resized (bitmap : Bitmap) (newLength : Nat) (next : Bitmap) : Prop where
  length_eq : next.length = newLength
  kept : ∀ index < min bitmap.length newLength, next.bit index = bitmap.bit index
  cleared : ∀ index, bitmap.length ≤ index → index < newLength → next.bit index = false
  untouched : ∀ word, divCeil newLength bitsInSet ≤ word →
    next.bitsets[word]? = bitmap.bitsets[word]?

/-- No word is given up, and the bits the bitmap gets are clear in the buffer,
apart from those in as many bytes behind the old words as there are new words. -/
def ResizesCleanly (bitmap : Bitmap) (newLength : Nat) : Prop :=
  bitmap.setsCount ≤ divCeil newLength bitsInSet ∧
    ∀ index, bitmap.length ≤ index → index < newLength → bitmap.bit index = true →
      4 * bitmap.setsCount ≤ index / 8 ∧ index / 8 < 4 * bitmap.setsCount +
        (divCeil newLength bitsInSet - bitmap.setsCount)

/-- A bitmap as `bitmap_init` and `bitmap_resize` leave it, in a buffer that lies
in the memory of the machine. -/
structure WellSized (bitmap : Bitmap) : Prop where
  sizable : Sizable bitmap.length
  setsCount_eq : bitmap.setsCount = divCeil bitmap.length bitsInSet
  inMemory : bitmap.space + 4 * bitmap.bitsets.length ≤ addressSpace

/-- When words are given up, the difference of the counts is larger than any buffer. -/
theorem resize_error (wellSized : bitmap.WellSized) (positive : 0 < newLength)
    (fewer : divCeil newLength bitsInSet < bitmap.setsCount) :
    bitmapResize bitmap newLength = .error .outOfBounds := by
  have inMemory := wellSized.inMemory
  have stored := bitmap.stored
  have counted : divCeil newLength bitsInSet > 0 := by unfold divCeil bitsInSet; omega
  have diff : wrapSub (divCeil newLength bitsInSet) bitmap.setsCount =
      addressSpace - (bitmap.setsCount - divCeil newLength bitsInSet) := by
    unfold wrapSub wrap addressSpace at *
    omega
  have cleared := @kmemset_error bitmap.bitsets (4 * bitmap.setsCount)
    (wrapSub (divCeil newLength bitsInSet) bitmap.setsCount) (by omega) (by omega)
  have positiveDiff : wrapSub (divCeil newLength bitsInSet) bitmap.setsCount > 0 := by omega
  simp only [bitmapResize, kassert_ok positive, Outcome.ok_bind, if_pos positiveDiff, cleared,
    Outcome.error_bind]

/-- Otherwise one byte is cleared for every new word. -/
theorem resize_eq (positive : 0 < newLength) (sizable : Sizable newLength)
    (enough : divCeil newLength bitsInSet ≤ bitmap.bitsets.length)
    (atLeast : bitmap.setsCount ≤ divCeil newLength bitsInSet) :
    ∃ next, bitmapResize bitmap newLength = .ok next ∧ next.length = newLength ∧
      next.bitsets.length = bitmap.bitsets.length ∧
      ∀ bit, next.bit bit = (bitmap.bit bit && !decide (4 * bitmap.setsCount ≤ bit / 8 ∧
        bit / 8 < 4 * bitmap.setsCount + (divCeil newLength bitsInSet - bitmap.setsCount))) := by
  have small : divCeil newLength bitsInSet < addressSpace := by
    unfold Sizable divCeil bitsInSet addressSpace at *
    omega
  have diff : wrapSub (divCeil newLength bitsInSet) bitmap.setsCount =
      divCeil newLength bitsInSet - bitmap.setsCount := wrapSub_of_le atLeast small
  obtain ⟨bitsets, cleared, length, bits⟩ := @kmemset_zero bitmap.bitsets (4 * bitmap.setsCount)
    (divCeil newLength bitsInSet - bitmap.setsCount) (by omega)
  refine ⟨⟨bitmap.space, bitsets, divCeil newLength bitsInSet, newLength, length ▸ enough,
    le_divCeil newLength⟩, ?_, rfl, length, bits⟩
  simp only [bitmapResize, kassert_ok positive, Outcome.ok_bind, diff]
  by_cases more : divCeil newLength bitsInSet - bitmap.setsCount > 0
  · rw [if_pos more, cleared, Outcome.ok_bind]
    exact dif_pos (length ▸ enough)
  · rw [Nat.eq_zero_of_not_pos more] at cleared
    cases cleared
    rw [if_neg more]
    exact dif_pos enough

/-- A bitmap is resized as it should be exactly when it does not lose words and
every bit it gets is clear already or one of those that are cleared. -/
theorem resized_iff {bitmap : Bitmap} {newLength : Nat} (wellSized : bitmap.WellSized)
    (positive : 0 < newLength) (sizable : Sizable newLength)
    (enough : divCeil newLength bitsInSet ≤ bitmap.bitsets.length) :
    (∃ next, bitmapResize bitmap newLength = .ok next ∧ bitmap.Resized newLength next) ↔
      bitmap.ResizesCleanly newLength := by
  by_cases atLeast : bitmap.setsCount ≤ divCeil newLength bitsInSet
  · obtain ⟨next, resized, length, words, bits⟩ := resize_eq positive sizable enough atLeast
    have covered := bitmap.covered
    constructor
    · rintro ⟨other, isNext, meets⟩
      rw [resized] at isNext
      cases isNext
      refine ⟨atLeast, fun index above below set => ?_⟩
      have clear := meets.cleared index above below
      rw [bits, set, Bool.true_and, Bool.not_eq_false', decide_eq_true_eq] at clear
      exact clear
    · rintro ⟨-, clean⟩
      refine ⟨next, resized, length, fun index below => ?_, fun index above below => ?_,
        fun word behind => ?_⟩
      · have before : ¬(4 * bitmap.setsCount ≤ index / 8 ∧ index / 8 < 4 * bitmap.setsCount +
            (divCeil newLength bitsInSet - bitmap.setsCount)) := by
          unfold bitsInSet at covered
          omega
        rw [bits, decide_eq_false before, Bool.not_false, Bool.and_true]
      · rw [bits]
        cases set : bitmap.bit index with
        | false => rfl
        | true => rw [decide_eq_true (clean index above below set), Bool.not_true, Bool.and_false]
      · apply getElem?_eq_of_wordsBit words
        intro position inWord
        have after : ¬(4 * bitmap.setsCount ≤ (word * bitsInSet + position) / 8 ∧
            (word * bitsInSet + position) / 8 < 4 * bitmap.setsCount +
              (divCeil newLength bitsInSet - bitmap.setsCount)) := by
          rw [show bitsInSet = 32 from rfl] at *
          omega
        have same := bits (word * bitsInSet + position)
        rw [decide_eq_false after, Bool.not_false, Bool.and_true] at same
        exact same
  · have stopped := resize_error wellSized positive (Nat.lt_of_not_le atLeast)
    constructor
    · rintro ⟨next, resized, -⟩
      rw [stopped] at resized
      cases resized
    · intro clean
      exact absurd clean.1 atLeast

/-- A bitmap of 32 bits, the first of them set, in a buffer of two words. -/
def oneOfTwoWords (behind : BitVec 32) : Bitmap where
  space := 4096
  bitsets := [1, behind]
  setsCount := 1
  length := 32
  stored := by simp
  covered := by decide

/-- A second word of which only the low byte was used before. -/
theorem resized_iff_lowByte : ∃ next, bitmapResize (oneOfTwoWords 0xff) 64 = .ok next ∧
    (oneOfTwoWords 0xff).Resized 64 next := by
  refine (resized_iff ⟨by decide, by decide, by decide⟩ (by decide) (by decide) (by decide)).mpr
    ⟨by decide, ?_⟩
  have clean : ∀ index < 64, 32 ≤ index → (oneOfTwoWords 0xff).bit index = true →
      4 ≤ index / 8 ∧ index / 8 < 5 := by decide
  exact fun index above below => clean index below above

/-- All but the low byte of a new word stays as it was before. -/
theorem not_resized_stale : ¬∃ next, bitmapResize (oneOfTwoWords 0xffffffff) 64 = .ok next ∧
    (oneOfTwoWords 0xffffffff).Resized 64 next := by
  rintro ⟨next, resized, meets⟩
  have stale : (bitmapResize (oneOfTwoWords 0xffffffff) 64).map (·.bit 40) = .ok true := by decide
  rw [resized] at stale
  have clear := meets.cleared 40 (by decide) (by decide)
  cases stale.symm.trans (congrArg Except.ok clear)

end Bitmap

end Yaeos
