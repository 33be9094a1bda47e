import Yaeos.Buddy.Pages
import Yaeos.Machine.Loop
import Yaeos.Mm.Basic

/-!
# Sound zones

`MmZone.Sound` is what `mm_zone_create` establishes and every later call keeps.
The number of descriptors is one less than the number of pages the buddy manager
hands out, and `pages_count` is less than that by the bookkeeping pages; both
numbers stand in the invariant as the source computes them.
-/

namespace Yaeos

namespace MmZone

/-- The number of pages the buddy manager of the zone manages. -/
def count (zone : MmZone) : Nat := zone.length / platformPageSize

/-- The number of pages under the bookkeeping of the zone. -/
def infoPages (zone : MmZone) : Nat := zone.infoArea.length / platformPageSize

structure Sound (zone : MmZone) : Prop where
  startAligned : platformPageSize ∣ zone.start
  lengthAligned : platformPageSize ∣ zone.length
  inside : zone.start + zone.length < addressSpace
  tracks : zone.buddym.Tracks zone.count
  described : zone.descriptors = zone.count - 1
  counted : zone.pagesCount = wrapSub zone.descriptors zone.infoPages
  fits : zone.infoPages ≤ zone.count
  paddrs : ∀ ndx < zone.descriptors,
    (zone.pages ndx).paddr = zone.start + ndx * platformPageSize
  reserved : ∀ ndx < zone.infoPages,
    zone.buddym.bit 0 ndx = true ∧ (zone.pages ndx).state = .fixed
  clearFree : ∀ ndx < zone.descriptors, zone.buddym.bit 0 ndx = false →
    (zone.pages ndx).state = .free

/-- The two zones have no physical page in common. -/
def Disjoint (first second : MmZone) : Prop :=
  first.start + first.length ≤ second.start ∨ second.start + second.length ≤ first.start

/-- What no call changes in a zone. -/
def SameFrame (before after : MmZone) : Prop :=
  after.address = before.address ∧ after.start = before.start ∧ after.length = before.length ∧
    after.descriptors = before.descriptors ∧ after.pagesCount = before.pagesCount ∧
    after.infoArea = before.infoArea

end MmZone

section Create

variable {rounds tmpArea areaStart physStart length address : Nat} {space next : VmSpace}
  {alloc : LinearAlloc} {memory : Nat → BitVec 32} {stalePages : Nat → MmPage}
  {zones nextZones : List MmZone}

theorem linearAllocAlloc_some {alloc after : LinearAlloc} {len pos : Nat}
    (taken : linearAllocAlloc alloc len = (after, some pos)) :
    pos = alloc.position ∧ wrap (alloc.position + len) ≤ alloc.limit ∧
      after = { alloc with position := wrap (alloc.position + len) } := by
  simp only [linearAllocAlloc] at taken
  split at taken
  · cases taken
  · next fits =>
      cases taken
      exact ⟨rfl, Nat.le_of_not_gt fits, rfl⟩

theorem bootstrapZoneAlloc_eq (bootstrapped : bootstrapZoneAlloc areaStart length = .ok alloc) :
    wrap (areaStart + sizeofLinearAlloc) ≤ wrap (areaStart + length) ∧
      alloc.position = wrap (areaStart + sizeofLinearAlloc) := by
  simp only [bootstrapZoneAlloc, linearAllocInit, Outcome.bind_eq_ok, kassert_eq_ok,
    Except.ok.injEq, deref_eq_ok] at bootstrapped
  obtain ⟨_, ⟨_, _, _, _, rfl⟩, zoneAlloc, found, rfl⟩ := bootstrapped
  obtain ⟨-, fits, after⟩ := linearAllocAlloc_some (Prod.ext rfl found)
  exact ⟨fits, congrArg LinearAlloc.position after⟩

/-- The structure of the zone lies behind its allocator, and the zone lies at or
above the offset of the space. -/
theorem mmZoneBootstrap_eq
    (bootstrapped : mmZoneBootstrap rounds tmpArea areaStart length space =
      .ok (next, alloc, address)) :
    space.offset ≤ areaStart ∧ next.offset = space.offset ∧
      address = wrap (areaStart + sizeofLinearAlloc) ∧
      wrap (areaStart + sizeofLinearAlloc) ≤ wrap (areaStart + length) := by
  simp only [mmZoneBootstrap, Outcome.bind_eq_ok, Except.ok.injEq, Prod.mk.injEq, deref_eq_ok]
    at bootstrapped
  obtain ⟨first, initialised, second, inserted, start, started, pointer, found, third, removed,
    fourth, insertedAgain, _, _, rfl, rfl, rfl⟩ := bootstrapped
  obtain ⟨-, -, firstOffset, area⟩ := VmSpace.areaInit_eq initialised
  obtain ⟨inside, secondOffset⟩ := VmSpace.insertArea_inside inserted
  obtain ⟨-, fourthOffset⟩ := VmSpace.insertArea_inside insertedAgain
  have thirdOffset : third.offset = second.offset :=
    (VmSpace.removeArea_offset removed).trans rfl
  obtain ⟨fits, position⟩ := bootstrapZoneAlloc_eq started
  obtain ⟨atPosition, -, -⟩ := linearAllocAlloc_some (Prod.ext rfl found)
  refine ⟨?_, ?_, atPosition.trans position, fits⟩
  · rw [area, firstOffset] at inside
    exact inside
  · rw [fourthOffset, thirdOffset, secondOffset, firstOffset]

/-- The first loop: one descriptor a round, with the address of its page. -/
theorem mmPageInit_loop {freePages : Nat} {pagesAddress : Option Nat} {pages : Nat → MmPage}
    (looped : (List.range freePages).foldlM (mmPageInit pagesAddress physStart length) stalePages =
      .ok pages) :
    ∀ ndx < freePages, pages ndx =
      { paddr := wrap (physStart + ndx * platformPageSize), state := .free } := by
  refine Loop.range_of_ok (fun rounds (pages : Nat → MmPage) => ∀ ndx < rounds, pages ndx =
    { paddr := wrap (physStart + ndx * platformPageSize), state := .free }) looped (by simp) ?_
  intro index _ pages next done stepped ndx below
  simp only [mmPageInit, Outcome.bind_eq_ok, kassert_eq_ok, Except.ok.injEq] at stepped
  obtain ⟨_, _, _, _, rfl⟩ := stepped
  rcases Nat.lt_succ_iff_lt_or_eq.mp below with earlier | rfl
  · rw [Function.update_of_ne (Nat.ne_of_lt earlier)]
    exact done ndx earlier
  · rw [Function.update_self]

/-- The second loop: the first pages are set in the bitmap and fixed, the other
bits and descriptors are as before. -/
theorem mmPageFix_loop {usedPages count : Nat} {before pages : Nat → MmPage}
    {fresh buddym : BuddyManager} (tracks : fresh.Tracks count)
    (looped : (List.range usedPages).foldlM mmPageFix (before, fresh) = .ok (pages, buddym)) :
    buddym.Tracks count ∧ usedPages ≤ count ∧
      (∀ ndx < usedPages, buddym.bit 0 ndx = true ∧ (pages ndx).state = .fixed) ∧
      (∀ ndx, (pages ndx).paddr = (before ndx).paddr) ∧
      (∀ ndx, usedPages ≤ ndx → pages ndx = before ndx) ∧
      ∀ ndx < count, usedPages ≤ ndx → buddym.bit 0 ndx = fresh.bit 0 ndx := by
  refine Loop.range_of_ok (fun rounds (state : (Nat → MmPage) × BuddyManager) =>
    state.2.Tracks count ∧ rounds ≤ count ∧
      (∀ ndx < rounds, state.2.bit 0 ndx = true ∧ (state.1 ndx).state = .fixed) ∧
      (∀ ndx, (state.1 ndx).paddr = (before ndx).paddr) ∧
      (∀ ndx, rounds ≤ ndx → state.1 ndx = before ndx) ∧
      ∀ ndx < count, rounds ≤ ndx → state.2.bit 0 ndx = fresh.bit 0 ndx) looped
    ⟨tracks, Nat.zero_le _, by simp, by simp, by simp, by simp⟩ ?_
  rintro index - ⟨pages, buddym⟩ next ⟨tracks, inside, done, paddrs, rest, others⟩ stepped
  simp only [mmPageFix, Outcome.bind_eq_ok] at stepped
  obtain ⟨⟨after, success⟩, tried, stepped⟩ := stepped
  split at stepped
  · next succeeded =>
      cases stepped
      cases succeeded
      obtain ⟨below, nextTracks, bits⟩ := tracks.tryAlloc tried
      refine ⟨nextTracks, below, fun ndx small => ?_, fun ndx => ?_, fun ndx large => ?_,
        fun ndx managed large => ?_⟩
      · rw [bits ndx (by omega)]
        rcases Nat.lt_succ_iff_lt_or_eq.mp small with earlier | rfl
        · simpa [Function.update_of_ne (Nat.ne_of_lt earlier), (done ndx earlier).1]
            using (done ndx earlier).2
        · simp
      · by_cases same : ndx = index
        · subst same
          simpa using paddrs ndx
        · simpa [Function.update_of_ne same] using paddrs ndx
      · have differs : ndx ≠ index := by omega
        simpa [Function.update_of_ne differs] using rest ndx (by omega)
      · have differs : ndx ≠ index := by omega
        rw [bits ndx managed, others ndx managed (by omega), decide_eq_false differs,
          Bool.false_or]
  · cases stepped

/-- The assertion on the offset and the first allocation exclude wrapped sums. -/
theorem zone_inside {offset : Nat} (startInside : physStart < addressSpace)
    (lengthInside : length < addressSpace)
    (areaAligned : platformPageSize ∣ wrap (physStart + offset))
    (lengthAligned : platformPageSize ∣ length) (aboveOffset : offset ≤ wrap (physStart + offset))
    (fits : wrap (wrap (physStart + offset) + sizeofLinearAlloc) ≤
      wrap (wrap (physStart + offset) + length)) :
    physStart + offset + length < addressSpace := by
  unfold wrap sizeofLinearAlloc platformPageSize addressSpace at *
  omega

/-- A zone that `mm_zone_create` returns is sound and is put in front. -/
theorem mmZoneCreate_sound (startInside : physStart < addressSpace)
    (lengthInside : length < addressSpace)
    (created : mmZoneCreate rounds memory stalePages tmpArea physStart length zones space =
      .ok (nextZones, next)) :
    ∃ zone, nextZones = zone :: zones ∧ zone.Sound ∧ zone.start = physStart ∧
      zone.length = length ∧ zone.address = physStart + space.offset + sizeofLinearAlloc ∧
      next.offset = space.offset ∧
      ∀ ndx < zone.count, zone.buddym.bit 0 ndx = true → ndx < zone.infoPages := by
  simp only [mmZoneCreate, Outcome.bind_eq_ok, kassert_eq_ok, Except.ok.injEq, Prod.mk.injEq]
    at created
  obtain ⟨_, startAligned, _, lengthAligned, _, areaAligned, ⟨bootSpace, bootAlloc, address⟩,
    bootstrapped, ⟨fresh, alloc, freePages⟩, initialised, before, initPages, ⟨pages, buddym⟩,
    fixPages, rfl, rfl⟩ := created
  obtain ⟨aboveOffset, sameOffset, addressEq, fits⟩ := mmZoneBootstrap_eq bootstrapped
  obtain ⟨-, described, clear⟩ := BuddyManager.buddyInit_spec initialised
  obtain ⟨tracks, inBuddy, reserved, paddrs, rest, others⟩ :=
    mmPageFix_loop (BuddyManager.buddyInit_represents initialised).tracks fixPages
  rw [checkAlign_page startInside] at startAligned
  rw [checkAlign_page lengthInside] at lengthAligned
  rw [checkAlign_page (wrap_lt _)] at areaAligned
  have zoneInside : physStart + space.offset + length < addressSpace :=
    zone_inside startInside lengthInside areaAligned lengthAligned aboveOffset fits
  have noWrap : wrap (physStart + space.offset) = physStart + space.offset :=
    wrap_of_lt (by omega)
  have initialPages := mmPageInit_loop initPages
  refine ⟨_, rfl, ⟨startAligned, lengthAligned, ?_, tracks, described, rfl, inBuddy, fun ndx below => ?_,
    reserved, fun ndx below clear => ?_⟩, rfl, rfl, ?_, sameOffset, fun ndx managed set => ?_⟩
  · show physStart + length < addressSpace
    omega
  · show (pages ndx).paddr = physStart + ndx * platformPageSize
    have below : ndx < freePages := below
    rw [paddrs, initialPages ndx below, wrap_of_lt]
    rw [described] at below
    unfold platformPageSize addressSpace at *
    omega
  · have clear : buddym.bit 0 ndx = false := clear
    have unchanged : pages ndx = before ndx :=
      rest ndx (Nat.le_of_not_lt fun early => by simp [(reserved ndx early).1] at clear)
    exact (congrArg MmPage.state unchanged).trans (by rw [initialPages ndx below])
  · show address = _
    rw [noWrap] at addressEq fits areaAligned
    rw [addressEq, wrap_of_lt]
    unfold wrap sizeofLinearAlloc platformPageSize addressSpace at *
    omega
  · have managed : ndx < length / platformPageSize := managed
    by_contra usable
    have same := others ndx managed (Nat.le_of_not_lt usable)
    rw [clear 0 ndx (by simpa using managed)] at same
    exact absurd (set.symm.trans same) (by decide)

end Create

end Yaeos
