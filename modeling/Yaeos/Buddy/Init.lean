import Yaeos.Bitmap.Memory
import Yaeos.Buddy.Levels

/-!
# The memory of a buddy manager

`buddy_init` takes the level array and the words of one bitmap a level from a
linear allocator.  `buddy_predict_req_space` adds up the same sizes with another
rounding.  Both are the size `lvlsSpace` here, and the storage of a level starts
where the storage of the level before ends.
-/

namespace Yaeos

/-- The bytes of the words of a level. -/
def lvlSpace (pages lvl : Nat) : Nat := 4 * divCeil (pages >>> lvl) bitsInSet

/-- The bytes of the words of the first levels. -/
def lvlsSpace (pages : Nat) : (lvls : Nat) → Nat
  | 0 => 0
  | lvls + 1 => lvlsSpace pages lvls + lvlSpace pages lvls

/-- The bytes a manager needs. -/
def buddySpace (pages : Nat) : Nat :=
  lvlsSpace pages (Nat.log2 pages + 1) + (Nat.log2 pages + 1) * sizeofBitmap

theorem lvlsSpace_le {pages lower upper : Nat} (ordered : lower ≤ upper) :
    lvlsSpace pages lower ≤ lvlsSpace pages upper := by
  induction ordered with
  | refl => exact Nat.le_refl _
  | step _ inductionHypothesis => exact Nat.le_trans inductionHypothesis (Nat.le_add_right _ _)

/-- A level ends before a higher one begins. -/
theorem lvlsSpace_lt {pages lower upper : Nat} (below : lower < upper) :
    lvlsSpace pages lower + lvlSpace pages lower ≤ lvlsSpace pages upper :=
  @lvlsSpace_le pages (lower + 1) upper below

theorem getMaxIndex_eq {pages lvl : Nat} (positive : 0 < pages >>> lvl) :
    getMaxIndex pages lvl = .ok (pages >>> lvl - 1) := by
  simp only [getMaxIndex, kassert_ok positive, Outcome.ok_bind]

theorem log2Floor_eq {value : Nat} (positive : value ≠ 0) : log2Floor value = .ok (Nat.log2 value) := by
  simp only [log2Floor, kassert_ok (Ne.symm positive), Outcome.ok_bind]

theorem buddyPredictReqSpace_eq {pages : Nat} (positive : pages ≠ 0) (sizable : Sizable pages) :
    buddyPredictReqSpace pages = .ok (buddySpace pages) := by
  obtain ⟨total, summed, isSum⟩ : ∃ total,
      (List.range (Nat.log2 pages + 1)).foldlM (fun bitmaps i => do
        let bitsReq := (← getMaxIndex pages i) + 1
        .ok (bitmaps + (← bitmapPredictSize bitsReq))) 0 = (.ok total : Outcome Nat) ∧
      total = lvlsSpace pages (Nat.log2 pages + 1) := by
    refine Loop.range_ok (fun rounds bitmaps => bitmaps = lvlsSpace pages rounds) rfl ?_
    rintro lvl below bitmaps rfl
    have bits := shiftRight_positive positive below
    have size := bitmapPredictSize_eq bits (sizable.of_le (Nat.shiftRight_le pages lvl))
    refine ⟨lvlsSpace pages lvl + lvlSpace pages lvl, ?_, rfl⟩
    simp only [getMaxIndex_eq bits, Outcome.ok_bind, Nat.sub_add_cancel bits, size]
    rfl
  subst isSum
  simp only [buddyPredictReqSpace, log2Floor_eq positive, Outcome.ok_bind]
  rw [summed]
  rfl

/-- The address of the words of a level, for a level array at `array`. -/
def lvlAddress (pages array lvl : Nat) : Nat :=
  array + (Nat.log2 pages + 1) * sizeofBitmap + lvlsSpace pages lvl

/-- A manager as `buddy_init` builds it with its level array at `array`. -/
structure BuddyManager.LaidOut (manager : BuddyManager) (pages array : Nat) : Prop where
  lvls_eq : manager.lvls = Nat.log2 pages + 1
  count : manager.lvlBitmaps.length = manager.lvls
  blank : ∀ lvl < manager.lvls, ∃ bitmap, manager.lvlBitmaps[lvl]? = some bitmap ∧
    bitmap.Blank (lvlAddress pages array lvl) (pages >>> lvl)

section

variable {pages lvl array : Nat} {memory : Nat → BitVec 32} {alloc : LinearAlloc}

/-- A round of the loop, with the words of the level in front of the position. -/
theorem buddyInitLvl_blank (positive : pages ≠ 0) (sizable : Sizable pages)
    (below : lvl < Nat.log2 pages + 1) (ready : alloc.Ready) (named : alloc.position ≠ 0)
    (fits : alloc.position + lvlSpace pages lvl ≤ alloc.limit) (bitmaps : List Bitmap) :
    ∃ bitmap, buddyInitLvl memory (some array) pages (alloc, bitmaps) lvl =
        .ok (alloc.advance (lvlSpace pages lvl), bitmaps ++ [bitmap]) ∧
      bitmap.Blank alloc.position (pages >>> lvl) := by
  have bits := shiftRight_positive positive below
  have size := bitmapPredictSize_eq bits (sizable.of_le (Nat.shiftRight_le pages lvl))
  have enough : divCeil (pages >>> lvl) bitsInSet ≤
      (wordsAt memory alloc.position (lvlSpace pages lvl)).length := by
    simp [wordsAt, lvlSpace]
  obtain ⟨bitmap, initialised, blank⟩ := Bitmap.init_blank named bits enough
  refine ⟨bitmap, ?_, blank⟩
  simp only [buddyInitLvl, getMaxIndex_eq bits, Outcome.ok_bind, Nat.sub_add_cancel bits, size]
  rw [show 4 * divCeil (pages >>> lvl) bitsInSet = lvlSpace pages lvl from rfl,
    ready.alloc_eq fits]
  simp [kassert, initialised]

/-- In enough memory every allocation succeeds, and all of them together take
what was predicted. -/
theorem buddyInit_laidOut (memory : Nat → BitVec 32) (positive : pages ≠ 0)
    (sizable : Sizable pages) (ready : alloc.Ready)
    (room : alloc.position + buddySpace pages ≤ alloc.limit) :
    ∃ manager, buddyInit memory pages alloc =
        .ok (manager, alloc.advance (buddySpace pages), pages - 1) ∧
      manager.LaidOut pages alloc.position := by
  obtain ⟨array, isArray⟩ : ∃ array, array = (Nat.log2 pages + 1) * sizeofBitmap := ⟨_, rfl⟩
  have space : buddySpace pages = lvlsSpace pages (Nat.log2 pages + 1) + array := by
    rw [isArray, buddySpace]
  have address (lvl : Nat) :
      lvlAddress pages alloc.position lvl = alloc.position + array + lvlsSpace pages lvl := by
    rw [isArray, lvlAddress]
  have arrayFits : alloc.position + array ≤ alloc.limit := by omega
  have readyLevels : (alloc.advance array).Ready := ready.advance
  obtain ⟨⟨rest, bitmaps⟩, looped, final, count, blank⟩ : ∃ state,
      (List.range (Nat.log2 pages + 1)).foldlM (buddyInitLvl memory (some alloc.position) pages)
        (alloc.advance array, []) = .ok state ∧
      state.1 = (alloc.advance array).advance (lvlsSpace pages (Nat.log2 pages + 1)) ∧
      state.2.length = Nat.log2 pages + 1 ∧
      ∀ lvl < Nat.log2 pages + 1, ∃ bitmap, state.2[lvl]? = some bitmap ∧
        bitmap.Blank (lvlAddress pages alloc.position lvl) (pages >>> lvl) := by
    refine Loop.range_ok (fun rounds (state : LinearAlloc × List Bitmap) =>
      state.1 = (alloc.advance array).advance (lvlsSpace pages rounds) ∧
      state.2.length = rounds ∧
      ∀ lvl < rounds, ∃ bitmap, state.2[lvl]? = some bitmap ∧
        bitmap.Blank (lvlAddress pages alloc.position lvl) (pages >>> lvl)) ?_ ?_
    · exact ⟨rfl, rfl, nofun⟩
    · rintro lvl below ⟨before, bitmaps⟩ ⟨rfl, count, blank⟩
      have upTo : lvlsSpace pages lvl + lvlSpace pages lvl ≤
          lvlsSpace pages (Nat.log2 pages + 1) := lvlsSpace_lt below
      have fits : alloc.position + array + lvlsSpace pages lvl + lvlSpace pages lvl ≤
          alloc.limit := by omega
      have named : alloc.position + array + lvlsSpace pages lvl ≠ 0 := by
        rw [isArray, sizeofBitmap]
        omega
      have readyLevel : ((alloc.advance array).advance (lvlsSpace pages lvl)).Ready :=
        readyLevels.advance
      obtain ⟨bitmap, initialised, isBlank⟩ :=
        buddyInitLvl_blank positive sizable below readyLevel named fits bitmaps
      have isBlank : bitmap.Blank (lvlAddress pages alloc.position lvl) (pages >>> lvl) := by
        rw [address]
        exact isBlank
      refine ⟨_, initialised, ?_, by simp [count], fun other small => ?_⟩
      · simp only [LinearAlloc.advance, lvlsSpace, Nat.add_assoc]
      rcases Nat.lt_succ_iff_lt_or_eq.mp small with earlier | rfl
      · rw [List.getElem?_append_left (count ▸ earlier)]
        exact blank other earlier
      · exact ⟨bitmap, by simp [← count], isBlank⟩
  refine ⟨⟨bitmaps, Nat.log2 pages + 1⟩, ?_, rfl, count, blank⟩
  have total : (alloc.advance array).advance (lvlsSpace pages (Nat.log2 pages + 1)) =
      alloc.advance (buddySpace pages) := by
    simp only [LinearAlloc.advance, space, LinearAlloc.mk.injEq, true_and, and_true]
    omega
  have occupied : wrapSub (linearAllocOccupied (alloc.advance (buddySpace pages)))
      (linearAllocOccupied alloc) = buddySpace pages := by
    have ordered := ready.ordered
    have inside := ready.inside
    have readyAfter : (alloc.advance (buddySpace pages)).Ready := ready.advance
    rw [readyAfter.occupied_eq room, ready.occupied_eq (by omega)]
    simp only [LinearAlloc.advance]
    rw [wrapSub_of_le (by omega) (by omega)]
    omega
  have isRest : rest = alloc.advance (buddySpace pages) := final.trans total
  subst isRest
  have top : 0 < pages >>> 0 := by simpa using Nat.pos_of_ne_zero positive
  simp only [buddyInit, log2Floor_eq positive, Outcome.ok_bind]
  rw [← isArray, ready.alloc_eq arrayFits]
  refine Outcome.bind_eq_ok.mpr ⟨_, looped, ?_⟩
  refine Outcome.bind_eq_ok.mpr ⟨_, buddyPredictReqSpace_eq positive sizable, ?_⟩
  refine Outcome.bind_eq_ok.mpr ⟨(), kassert_ok occupied, ?_⟩
  exact Outcome.bind_eq_ok.mpr ⟨_, getMaxIndex_eq top, rfl⟩

end

/-- The memory of a manager: the array of the levels at its start, and behind it,
apart from each other, the cleared words of every level. -/
structure BuddyManager.Stored (manager : BuddyManager) (pages : Nat) (memory : Extent) :
    Prop where
  lvls_eq : manager.lvls = Nat.log2 pages + 1
  count : manager.lvlBitmaps.length = manager.lvls
  lengths : ∀ lvl bitmap, manager.lvlBitmaps[lvl]? = some bitmap → bitmap.length = pages >>> lvl
  cleared : ∀ bitmap ∈ manager.lvlBitmaps, bitmap.setsCount = divCeil bitmap.length bitsInSet ∧
    ∀ word < bitmap.setsCount, bitmap.bitsets[word]? = some 0
  array : Extent.Within ⟨memory.start, manager.lvls * sizeofBitmap⟩ memory
  within : ∀ bitmap ∈ manager.lvlBitmaps, bitmap.storage.Within memory
  behind : ∀ bitmap ∈ manager.lvlBitmaps,
    Extent.Apart ⟨memory.start, manager.lvls * sizeofBitmap⟩ bitmap.storage
  apart : (manager.lvlBitmaps.map Bitmap.storage).Pairwise Extent.Apart

namespace BuddyManager

variable {manager : BuddyManager} {pages array lvl : Nat} {bitmap : Bitmap}

theorem LaidOut.blank_of_getElem (laidOut : manager.LaidOut pages array)
    (found : manager.lvlBitmaps[lvl]? = some bitmap) :
    lvl < Nat.log2 pages + 1 ∧ bitmap.Blank (lvlAddress pages array lvl) (pages >>> lvl) := by
  have below : lvl < manager.lvls := laidOut.count ▸ (List.getElem?_eq_some_iff.mp found).1
  obtain ⟨other, isOther, blank⟩ := laidOut.blank lvl below
  rw [found, Option.some.injEq] at isOther
  exact ⟨laidOut.lvls_eq ▸ below, isOther ▸ blank⟩

theorem LaidOut.storage_eq (laidOut : manager.LaidOut pages array)
    (found : manager.lvlBitmaps[lvl]? = some bitmap) :
    bitmap.storage = ⟨lvlAddress pages array lvl, lvlSpace pages lvl⟩ := by
  obtain ⟨-, blank⟩ := laidOut.blank_of_getElem found
  rw [Bitmap.storage, blank.space_eq, blank.setsCount_eq, lvlSpace]

/-- The words of the levels lie between the array and the end. -/
theorem LaidOut.placed (laidOut : manager.LaidOut pages array)
    (member : bitmap ∈ manager.lvlBitmaps) :
    array + manager.lvls * sizeofBitmap ≤ bitmap.storage.start ∧
      bitmap.storage.start + bitmap.storage.length ≤ array + buddySpace pages := by
  obtain ⟨lvl, found⟩ := List.getElem?_of_mem member
  obtain ⟨below, -⟩ := laidOut.blank_of_getElem found
  have upTo : lvlsSpace pages lvl + lvlSpace pages lvl ≤ lvlsSpace pages (Nat.log2 pages + 1) :=
    lvlsSpace_lt below
  rw [laidOut.storage_eq found, laidOut.lvls_eq, lvlAddress, buddySpace]
  dsimp only
  omega

theorem LaidOut.stored (laidOut : manager.LaidOut pages array) :
    manager.Stored pages ⟨array, buddySpace pages⟩ := by
  refine ⟨laidOut.lvls_eq, laidOut.count, fun lvl bitmap found => ?_, fun bitmap member => ?_,
    ⟨Nat.le_refl _, ?_⟩, fun bitmap member => ⟨?_, (laidOut.placed member).2⟩,
    fun bitmap member => .inl (laidOut.placed member).1, ?_⟩
  · exact (laidOut.blank_of_getElem found).2.length_eq
  · obtain ⟨lvl, found⟩ := List.getElem?_of_mem member
    obtain ⟨-, blank⟩ := laidOut.blank_of_getElem found
    exact ⟨by rw [blank.setsCount_eq, blank.length_eq], blank.cleared⟩
  · rw [laidOut.lvls_eq, buddySpace]
    dsimp only
    omega
  · exact Nat.le_trans (Nat.le_add_right _ _) (laidOut.placed member).1
  · rw [List.pairwise_map, List.pairwise_iff_getElem]
    intro lower upper lowerBound upperBound ordered
    have lowerFound := List.getElem?_eq_getElem lowerBound
    have upperFound := List.getElem?_eq_getElem upperBound
    have upTo : lvlsSpace pages lower + lvlSpace pages lower ≤ lvlsSpace pages upper :=
      lvlsSpace_lt ordered
    rw [laidOut.storage_eq lowerFound, laidOut.storage_eq upperFound, lvlAddress, lvlAddress]
    left
    dsimp only
    omega

end BuddyManager

/-- With exactly the predicted bytes left, `buddy_init` returns, uses all of them,
and the levels get cleared words that nothing else of the manager shares. -/
theorem buddyInit_exact {pages space : Nat} {alloc : LinearAlloc} (memory : Nat → BitVec 32)
    (positive : pages ≠ 0) (sizable : Sizable pages) (ready : alloc.Ready)
    (predicted : buddyPredictReqSpace pages = .ok space)
    (exactly : alloc.limit = alloc.position + space) :
    ∃ manager, buddyInit memory pages alloc =
        .ok (manager, { alloc with position := alloc.limit }, pages - 1) ∧
      manager.Stored pages ⟨alloc.position, space⟩ := by
  rw [buddyPredictReqSpace_eq positive sizable] at predicted
  cases predicted
  obtain ⟨manager, initialised, laidOut⟩ :=
    buddyInit_laidOut memory positive sizable ready (Nat.le_of_eq exactly.symm)
  refine ⟨manager, ?_, laidOut.stored⟩
  rw [initialised, LinearAlloc.advance, exactly]

/-- Five pages in 48 bytes behind 12 bytes that are taken, and every word of the
memory was set. -/
theorem buddyInit_exact_five : ∃ manager,
    buddyInit (fun _ => BitVec.allOnes 32) 5 ⟨4096, 4108, 4156⟩ =
      .ok (manager, ⟨4096, 4156, 4156⟩, 4) ∧ manager.Stored 5 ⟨4108, 48⟩ :=
  buddyInit_exact (fun _ => BitVec.allOnes 32) (by decide) (by decide) ⟨by decide, by decide⟩
    (by decide) rfl

end Yaeos
