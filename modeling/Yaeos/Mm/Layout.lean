import Yaeos.Buddy.Init
import Yaeos.Mm.Zone
import Yaeos.VmSpace.NewArea

/-!
# The bookkeeping of a new zone

`mm_zone_create` takes all its memory from the zone it describes and checks no
result of the allocator.  The sizes add up to less than the zone for every number
of pages; what remains is that the end of the zone must be an address.
-/

namespace Yaeos

/-- The bytes of a zone of so many pages that its bookkeeping takes. -/
def zoneSpace (pages : Nat) : Nat :=
  sizeofLinearAlloc + sizeofMmZone + sizeofBuddyManager + buddySpace pages +
    (pages - 1) * sizeofMmPage

theorem lvlsSpace_le_mul (pages lvls : Nat) : lvlsSpace pages lvls ≤ lvls * (4 * pages) := by
  induction lvls with
  | zero => exact Nat.zero_le _
  | succ lvls inductionHypothesis =>
      have shorter := Nat.shiftRight_le pages lvls
      have words : lvlSpace pages lvls ≤ 4 * pages := by
        unfold lvlSpace divCeil bitsInSet
        omega
      rw [lvlsSpace, Nat.succ_mul]
      omega

/-- A zone has room for its bookkeeping. -/
theorem zoneSpace_le {pages : Nat} (positive : 0 < pages)
    (inside : pages * platformPageSize < addressSpace) :
    zoneSpace pages ≤ pages * platformPageSize := by
  have small : pages < 2 ^ 20 := by
    unfold platformPageSize addressSpace at inside
    omega
  have few : Nat.log2 pages + 1 ≤ 20 := (Nat.log2_lt positive.ne').mpr small
  have words := lvlsSpace_le_mul pages (Nat.log2 pages + 1)
  have bounded : (Nat.log2 pages + 1) * (4 * pages) ≤ 20 * (4 * pages) :=
    Nat.mul_le_mul_right _ few
  unfold zoneSpace buddySpace sizeofLinearAlloc sizeofMmZone sizeofBuddyManager sizeofBitmap
    sizeofMmPage platformPageSize
  omega

namespace VmSpace

variable {rounds tmpArea areaStart length infoArea : Nat} {space : VmSpace} {tree : Tree Nat}

/-- An area may be put over the zone, and neither the temporary area nor the one in
the zone is in use. -/
structure Placeable (space : VmSpace) (tmpArea areaStart length : Nat) : Prop where
  named : tmpArea ≠ 0
  fresh : tmpArea ∉ space.sortedAreas
  unused : areaStart + sizeofLinearAlloc + infoAreaOffset ∉ space.sortedAreas
  elsewhere : areaStart + sizeofLinearAlloc + infoAreaOffset ≠ tmpArea
  apart : ∀ other ∈ space.sortedAreas,
    (space.areas other).Disjoint { base := areaStart, length := length }

/-- The copy of an area, whose node is not part of the tree. -/
theorem Synced.copyArea (synced : space.Synced tree) {source target : Nat}
    (unused : target ∉ tree.inorder) : (space.copyArea source target).Synced tree := by
  have ne_target : ∀ other ∈ tree.inorder, other ≠ target := fun other member same =>
    unused (same ▸ member)
  have nodes : ∀ other ∈ tree.inorder,
      (space.copyArea source target).rbAreas.nodes other = space.rbAreas.nodes other :=
    fun other member => by
      simp only [VmSpace.copyArea, Rbtree.nodes_modify, if_neg (ne_target other member)]
  have records : ∀ other ∈ tree.inorder,
      (space.copyArea source target).areas other = space.areas other := fun other member => by
    simp only [VmSpace.copyArea, setArea, Function.update_of_ne (ne_target other member)]
  refine ⟨synced.focus.frame rfl nodes, synced.balanced, synced.sorted, fun other member => ?_,
    synced.apart.imp_of_mem fun {x y} xMember yMember before => ?_⟩
  · rw [nodes other member, records other member]
    exact synced.named other member
  · rw [records x xMember, records y yMember]
    exact before

/-- A space is prepared already when record and data of the area are there. -/
theorem prepare_eq_self {area : Nat} {record : VmArea} (recorded : space.areas area = record)
    (data : (space.rbAreas.nodes area).data = area) : space.prepare area record = space := by
  have node : ({ space.rbAreas.nodes area with data := area } : RbtreeNode Nat Nat) =
      space.rbAreas.nodes area := by
    generalize space.rbAreas.nodes area = node at data ⊢
    subst data
    rfl
  subst recorded
  simp only [prepare, setArea, Rbtree.modify, node, Function.update_eq_self]

/-- A space with one more area. -/
structure Gains (space : VmSpace) (area : Nat) (record : VmArea) (next : VmSpace) : Prop where
  synced : ∃ tree, next.Synced tree
  offset : next.offset = space.offset
  listed : next.sortedAreas.Perm (area :: space.sortedAreas)
  record : next.areas area = record
  others : ∀ other ∈ space.sortedAreas, next.areas other = space.areas other

/-- The new area may be cut off at its end. -/
theorem Gains.cut {area : Nat} {record cut : VmArea} {next : VmSpace}
    (gains : space.Gains area record next) (fresh : area ∉ space.sortedAreas)
    (base : cut.base = record.base) (positive : 0 < cut.length)
    (shorter : cut.length ≤ record.length) : space.Gains area cut (next.setArea area cut) := by
  obtain ⟨⟨tree, synced⟩, offset, listed, recorded, others⟩ := gains
  have bounds : ∀ other, ((next.setArea area cut).areas other).base = (next.areas other).base ∧
      ((next.setArea area cut).areas other).length ≤ (next.areas other).length := by
    intro other
    by_cases same : other = area
    · subst same
      simp only [setArea, Function.update_self, recorded, base, shorter, and_self]
    · simp only [setArea, Function.update_of_ne same, le_refl, and_self]
  refine ⟨⟨tree, synced.focus, synced.balanced, synced.sorted, fun other member => ?_, ?_⟩,
    offset, listed, Function.update_self .., fun other member => ?_⟩
  · obtain ⟨named, data, proper⟩ := synced.named other member
    refine ⟨named, data, ?_⟩
    by_cases same : other = area
    · subst same
      rw [recorded] at proper
      have isCut : (next.setArea other cut).areas other = cut := Function.update_self ..
      rw [isCut]
      exact ⟨positive, Nat.le_trans (by rw [base]; omega) proper.2⟩
    · have isOld : (next.setArea area cut).areas other = next.areas other :=
        Function.update_of_ne same ..
      rw [isOld]
      exact proper
  · refine synced.apart.imp fun {x y} before => ?_
    obtain ⟨sameX, shorterX⟩ := bounds x
    obtain ⟨sameY, -⟩ := bounds y
    unfold VmArea.Before at before ⊢
    omega
  · have differs : other ≠ area := fun same => fresh (same ▸ member)
    exact (Function.update_of_ne differs ..).trans (others other member)

/-- The temporary area is inserted, copied into the zone and removed, and the copy
is inserted instead. -/
theorem Synced.moveArea (synced : space.Synced tree)
    (placeable : space.Placeable tmpArea areaStart length) (above : space.offset ≤ areaStart)
    (positive : 0 < length) (inside : areaStart + length ≤ addressSpace)
    (baseAligned : checkAlign areaStart platformPageSize)
    (lengthAligned : checkAlign length platformPageSize)
    (enough : 2 * (space.sortedAreas.length + 1) < rounds) :
    ∃ first second third fourth,
      vmAreaInit space tmpArea areaStart length = .ok first ∧
      vmSpaceInsertArea rounds first tmpArea = .ok second ∧
      vmSpaceRemoveArea rounds (second.copyArea tmpArea
        (areaStart + sizeofLinearAlloc + infoAreaOffset)) tmpArea = .ok third ∧
      vmSpaceInsertArea rounds third (areaStart + sizeofLinearAlloc + infoAreaOffset) =
        .ok fourth ∧
      space.Gains (areaStart + sizeofLinearAlloc + infoAreaOffset)
        { base := areaStart, length := length } fourth := by
  obtain ⟨named, fresh, unused, elsewhere, apart⟩ := placeable
  generalize isInfo : areaStart + sizeofLinearAlloc + infoAreaOffset = info at unused elsewhere ⊢
  have infoNamed : info ≠ 0 := by
    unfold sizeofLinearAlloc infoAreaOffset at isInfo
    omega
  let record : VmArea := { base := areaStart, length := length }
  have proper : record.Proper := ⟨positive, inside⟩
  have size : tree.inorder.length = space.sortedAreas.length := by rw [synced.sorted]
  obtain ⟨first, second, secondTree, initialised, inserted, syncedSecond, present, secondRecords,
    secondOffset⟩ := synced.place record named fresh baseAligned lengthAligned proper above apart
      (show 2 * tree.inorder.length < rounds by omega)
  have secondSize : secondTree.inorder.length = space.sortedAreas.length + 1 := by
    rw [← syncedSecond.sorted, present.length_eq, List.length_cons]
  have notSecond : info ∉ secondTree.inorder := by
    rw [← syncedSecond.sorted, present.mem_iff, List.mem_cons, not_or]
    exact ⟨elsewhere, unused⟩
  have syncedCopy : (second.copyArea tmpArea info).Synced secondTree :=
    syncedSecond.copyArea notSecond
  have copyPresent : (second.copyArea tmpArea info).Legal (.remove tmpArea) :=
    present.mem_iff.mpr (List.mem_cons_self ..)
  obtain ⟨third, thirdTree, removed, syncedThird, thirdPresent, thirdRecords, thirdData⟩ :=
    syncedCopy.remove copyPresent (show 2 * secondTree.inorder.length < rounds by omega)
  have erased : third.sortedAreas.Perm space.sortedAreas := by
    have copied := present.erase tmpArea
    rw [List.erase_cons_head] at copied
    exact thirdPresent.trans copied
  have thirdRecord : third.areas info = record := by
    rw [thirdRecords]
    simp [VmSpace.copyArea, setArea, secondRecords]
  have thirdNode : (third.rbAreas.nodes info).data = info := by
    rw [thirdData]
    simp [VmSpace.copyArea, Rbtree.nodes_modify]
  have thirdOffset : third.offset = space.offset :=
    ((removeArea_offset removed).trans rfl).trans secondOffset
  have kept : ∀ other ∈ space.sortedAreas, third.areas other = space.areas other := by
    intro other present
    have notInfo : other ≠ info := fun same => unused (same ▸ present)
    have notTmp : other ≠ tmpArea := fun same => fresh (same ▸ present)
    rw [thirdRecords]
    simp [VmSpace.copyArea, setArea, secondRecords, notInfo, notTmp]
  have legalInfo : third.Legal (.insert info record) := by
    refine ⟨infoNamed, fun member => unused (erased.mem_iff.mp member), proper,
      thirdOffset ▸ above, fun other member => ?_⟩
    have present := erased.mem_iff.mp member
    rw [kept other present]
    exact apart other present
  have thirdSize : thirdTree.inorder.length = space.sortedAreas.length := by
    rw [← syncedThird.sorted, erased.length_eq]
  obtain ⟨fourth, fourthTree, calledInfo, syncedFourth, fourthPresent⟩ :=
    syncedThird.insert legalInfo (show 2 * thirdTree.inorder.length < rounds by omega)
  have insertedInfo : vmSpaceInsertArea rounds (third.prepare info record) info = .ok fourth :=
    calledInfo
  rw [prepare_eq_self thirdRecord thirdNode] at insertedInfo
  have fourthRecords := insertArea_areas insertedInfo
  exact ⟨first, second, third, fourth, initialised, inserted, removed, insertedInfo,
    ⟨fourthTree, syncedFourth⟩, (insertArea_inside insertedInfo).2.trans thirdOffset,
    fourthPresent.trans (erased.cons _), fourthRecords ▸ thirdRecord,
    fun other present => fourthRecords ▸ kept other present⟩

end VmSpace

/-- The allocations of `mm_zone_create`, in order, when none of them fails. -/
structure ZoneAllocations (memory : Nat → BitVec 32) (areaStart length : Nat) where
  first : LinearAlloc
  bootstrapped : bootstrapZoneAlloc areaStart length = .ok first
  zone : Nat
  second : LinearAlloc
  zoneTaken : linearAllocAlloc first sizeofMmZone = (second, some zone)
  manager : Nat
  third : LinearAlloc
  managerTaken : linearAllocAlloc second sizeofBuddyManager = (third, some manager)
  buddym : BuddyManager
  fourth : LinearAlloc
  freePages : Nat
  initialised : buddyInit memory (length / platformPageSize) third = .ok (buddym, fourth, freePages)
  pages : Nat
  last : LinearAlloc
  pagesTaken : linearAllocAlloc fourth (wrap (freePages * sizeofMmPage)) = (last, some pages)

namespace ZoneAllocations

variable {memory : Nat → BitVec 32} {areaStart length pages : Nat}

/-- The memory that was taken: the copy of the allocator, the zone, the buddy
manager, the array of its levels, the words of every level, the descriptors. -/
def extents (allocs : ZoneAllocations memory areaStart length) : List Extent :=
  ⟨areaStart, sizeofLinearAlloc⟩ :: ⟨allocs.zone, sizeofMmZone⟩ ::
    ⟨allocs.manager, sizeofBuddyManager⟩ ::
    ⟨allocs.third.position, allocs.buddym.lvls * sizeofBitmap⟩ ::
    (allocs.buddym.lvlBitmaps.map Bitmap.storage ++
      [⟨allocs.pages, allocs.freePages * sizeofMmPage⟩])

/-- Where everything is in a zone of so many pages. -/
structure InPlace (allocs : ZoneAllocations memory areaStart length) (pages : Nat) : Prop where
  first_eq : allocs.first =
    ⟨areaStart, areaStart + sizeofLinearAlloc, areaStart + length⟩
  zone_eq : allocs.zone = areaStart + sizeofLinearAlloc
  manager_eq : allocs.manager = areaStart + sizeofLinearAlloc + sizeofMmZone
  array_eq : allocs.third.position =
    areaStart + sizeofLinearAlloc + sizeofMmZone + sizeofBuddyManager
  laidOut : allocs.buddym.LaidOut pages allocs.third.position
  freePages_eq : allocs.freePages = pages - 1
  pages_eq : allocs.pages = allocs.third.position + buddySpace pages
  last_eq : allocs.last = ⟨areaStart, areaStart + zoneSpace pages, areaStart + length⟩

/-- In a zone that ends at an address, every allocation gets its memory. -/
theorem exists_inPlace (memory : Nat → BitVec 32) (positive : 0 < pages) (named : areaStart ≠ 0)
    (length_eq : length = pages * platformPageSize) (inside : areaStart + length < addressSpace) :
    ∃ allocs : ZoneAllocations memory areaStart length, allocs.InPlace pages := by
  have room : zoneSpace pages ≤ length := by
    rw [length_eq]
    exact zoneSpace_le positive (by omega)
  have count : length / platformPageSize = pages := by
    rw [length_eq]
    exact Nat.mul_div_cancel _ (by decide)
  have sizable : Sizable pages := by
    unfold Sizable bitsInSet platformPageSize addressSpace at *
    omega
  let init : LinearAlloc := ⟨areaStart, areaStart, areaStart + length⟩
  have ready : init.Ready := ⟨Nat.le_refl _, inside⟩
  unfold zoneSpace at room
  have initialised : linearAllocInit areaStart length = .ok init := by
    have end_ : wrap (areaStart + length) = areaStart + length := wrap_of_lt inside
    have some_ : length > 0 := by
      unfold sizeofLinearAlloc at room
      omega
    simp only [linearAllocInit, kassert_ok named, kassert_ok some_, Outcome.ok_bind, end_, init]
  have ofInit := @LinearAlloc.Ready.alloc_eq init sizeofLinearAlloc ready
    (show areaStart + sizeofLinearAlloc ≤ areaStart + length by omega)
  have readyFirst : (init.advance sizeofLinearAlloc).Ready := ready.advance
  have ofFirst := @LinearAlloc.Ready.alloc_eq _ sizeofMmZone readyFirst
    (show areaStart + sizeofLinearAlloc + sizeofMmZone ≤ areaStart + length by omega)
  have readySecond := @LinearAlloc.Ready.advance _ sizeofMmZone readyFirst
  have ofSecond := @LinearAlloc.Ready.alloc_eq _ sizeofBuddyManager readySecond
    (show areaStart + sizeofLinearAlloc + sizeofMmZone + sizeofBuddyManager ≤
      areaStart + length by omega)
  have readyThird := @LinearAlloc.Ready.advance _ sizeofBuddyManager readySecond
  obtain ⟨buddym, built, laidOut⟩ := buddyInit_laidOut memory positive.ne' sizable readyThird
    (show areaStart + sizeofLinearAlloc + sizeofMmZone + sizeofBuddyManager + buddySpace pages ≤
      areaStart + length by omega)
  have readyFourth := @LinearAlloc.Ready.advance _ (buddySpace pages) readyThird
  have ofFourth := @LinearAlloc.Ready.alloc_eq _ ((pages - 1) * sizeofMmPage) readyFourth
    (show areaStart + sizeofLinearAlloc + sizeofMmZone + sizeofBuddyManager + buddySpace pages +
      (pages - 1) * sizeofMmPage ≤ areaStart + length by omega)
  have noWrap : wrap ((pages - 1) * sizeofMmPage) = (pages - 1) * sizeofMmPage :=
    wrap_of_lt (by omega)
  refine ⟨{
    first := init.advance sizeofLinearAlloc
    bootstrapped := ?_
    zone := _
    second := _
    zoneTaken := ofFirst
    manager := _
    third := _
    managerTaken := ofSecond
    buddym := buddym
    fourth := _
    freePages := _
    initialised := by rw [count]; exact built
    pages := _
    last := _
    pagesTaken := by rw [noWrap]; exact ofFourth }, rfl, rfl, rfl, rfl, laidOut, rfl, rfl, ?_⟩
  · simp only [bootstrapZoneAlloc, initialised, Outcome.ok_bind, ofInit, deref_some]
  · simp only [LinearAlloc.advance, init, zoneSpace, LinearAlloc.mk.injEq, true_and, and_true]
    omega

/-- All of it is part of the zone. -/
theorem InPlace.within {allocs : ZoneAllocations memory areaStart length}
    (inPlace : allocs.InPlace pages) (room : zoneSpace pages ≤ length) :
    ∀ extent ∈ allocs.extents, extent.Within ⟨areaStart, length⟩ := by
  have stored := inPlace.laidOut.stored
  have zone_eq := inPlace.zone_eq
  have manager_eq := inPlace.manager_eq
  have array_eq := inPlace.array_eq
  have pages_eq := inPlace.pages_eq
  have freePages_eq := inPlace.freePages_eq
  unfold zoneSpace at room
  intro extent member
  simp only [extents, List.mem_cons, List.mem_append, List.mem_map, List.not_mem_nil,
    or_false] at member
  rcases member with rfl | rfl | rfl | rfl | ⟨bitmap, listed, rfl⟩ | rfl
  · exact ⟨Nat.le_refl _, by dsimp only; omega⟩
  · exact ⟨by dsimp only; omega, by dsimp only; omega⟩
  · exact ⟨by dsimp only; omega, by dsimp only; omega⟩
  · obtain ⟨above, below⟩ := stored.array
    dsimp only at above below
    exact ⟨by dsimp only; omega, by dsimp only; omega⟩
  · obtain ⟨above, below⟩ := stored.within bitmap listed
    dsimp only at above below
    exact ⟨by dsimp only; omega, by dsimp only; omega⟩
  · rw [freePages_eq]
    exact ⟨by dsimp only; omega, by dsimp only; omega⟩

/-- No byte was taken twice. -/
theorem InPlace.apart {allocs : ZoneAllocations memory areaStart length}
    (inPlace : allocs.InPlace pages) : allocs.extents.Pairwise Extent.Apart := by
  have stored := inPlace.laidOut.stored
  have zone_eq := inPlace.zone_eq
  have manager_eq := inPlace.manager_eq
  have array_eq := inPlace.array_eq
  have pages_eq := inPlace.pages_eq
  have levels : ∀ extent ∈ allocs.buddym.lvlBitmaps.map Bitmap.storage,
      allocs.third.position + allocs.buddym.lvls * sizeofBitmap ≤ extent.start ∧
        extent.start + extent.length ≤ allocs.pages := by
    intro extent member
    obtain ⟨bitmap, listed, rfl⟩ := List.mem_map.mp member
    rw [pages_eq]
    exact inPlace.laidOut.placed listed
  obtain ⟨-, arrayBelow⟩ := stored.array
  dsimp only at arrayBelow
  simp only [extents, List.pairwise_cons, List.pairwise_append, List.mem_cons, List.mem_append,
    List.not_mem_nil, or_false]
  refine ⟨?_, ?_, ?_, ?_, stored.apart, ⟨by simp, .nil⟩, ?_⟩
  · rintro extent (rfl | rfl | rfl | member | rfl)
    · exact .inl (by dsimp only; omega)
    · exact .inl (by dsimp only; omega)
    · exact .inl (by dsimp only; omega)
    · have := levels extent member
      exact .inl (by dsimp only; omega)
    · exact .inl (by dsimp only; omega)
  · rintro extent (rfl | rfl | member | rfl)
    · exact .inl (by dsimp only; omega)
    · exact .inl (by dsimp only; omega)
    · have := levels extent member
      exact .inl (by dsimp only; omega)
    · exact .inl (by dsimp only; omega)
  · rintro extent (rfl | member | rfl)
    · exact .inl (by dsimp only; omega)
    · have := levels extent member
      exact .inl (by dsimp only; omega)
    · exact .inl (by dsimp only; omega)
  · rintro extent (member | rfl)
    · exact .inl (levels extent member).1
    · exact .inl (by dsimp only; omega)
  · rintro extent member other rfl
    exact .inl (levels extent member).2

end ZoneAllocations

/-! ## The zone that is returned -/

section

variable {pages usedPages freePages physStart length : Nat} {before : Nat → MmPage}
  {fresh : BuddyManager}

/-- The first loop returns when the array got memory. -/
theorem mmPageInit_returns (address : Nat) (stalePages : Nat → MmPage)
    (inside : freePages * platformPageSize ≤ length) :
    ∃ pages, (List.range freePages).foldlM (mmPageInit (some address) physStart length)
      stalePages = .ok pages := by
  refine (Loop.range_ok (fun _ _ => True) trivial ?_).imp fun _ returned => returned.1
  intro index below state _
  have upTo : index * platformPageSize ≤ freePages * platformPageSize :=
    Nat.mul_le_mul_right _ (Nat.le_of_lt below)
  exact ⟨_, by rw [mmPageInit, kassert_ok (Nat.le_trans upTo inside)]; rfl, trivial⟩

/-- The second loop takes the first pages from a manager that has all of them. -/
theorem mmPageFix_returns (before : Nat → MmPage) (tracks : fresh.Tracks pages)
    (clear : ∀ ndx < pages, fresh.bit 0 ndx = false) (enough : usedPages ≤ pages) :
    ∃ final, (List.range usedPages).foldlM mmPageFix (before, fresh) = .ok final ∧
      final.2.Tracks pages ∧ (∀ ndx < pages, final.2.bit 0 ndx = decide (ndx < usedPages)) ∧
      ∀ ndx, (final.1 ndx).state = if ndx < usedPages then .fixed else (before ndx).state := by
  refine Loop.range_ok (fun rounds (state : (Nat → MmPage) × BuddyManager) =>
    state.2.Tracks pages ∧ (∀ ndx < pages, state.2.bit 0 ndx = decide (ndx < rounds)) ∧
      ∀ ndx, (state.1 ndx).state = if ndx < rounds then .fixed else (before ndx).state) ?_ ?_
  · exact ⟨tracks, by simpa using clear, by simp⟩
  · rintro index below ⟨after, buddym⟩ ⟨tracks, bits, states⟩
    have inPages : index < pages := Nat.lt_of_lt_of_le below enough
    obtain ⟨next, occupied, nextTracks, nextBits⟩ := tracks.occupy inPages
    have isClear : buddym.bit 0 index = false := by simp [bits index inPages]
    have taken : buddyTryAlloc buddym 0 index = .ok (next, true) := by
      rw [BuddyManager.buddyTryAlloc_eq tracks.manages (by simpa using inPages), isClear, occupied]
      rfl
    refine ⟨_, by rw [mmPageFix, taken]; rfl, nextTracks, fun ndx small => ?_, fun ndx => ?_⟩
    · rw [nextBits ndx small, bits ndx small]
      by_cases same : ndx = index
      · simp [same]
      · have grown : ndx < index + 1 ↔ ndx < index := by omega
        simp [same, grown]
    · dsimp only
      by_cases same : ndx = index
      · simp [same]
      · have grown : ndx < index + 1 ↔ ndx < index := by omega
        rw [Function.update_of_ne same, states]
        simp only [grown]

end

/-- What is to hold of a new zone with the allocations made for it: they lie in the
zone and apart from each other, and exactly the pages under them are reserved.
Behind the descriptors only pages that are reserved have a state. -/
structure MmZone.Bookkept {memory : Nat → BitVec 32} {areaStart length : Nat} (zone : MmZone)
    (allocs : ZoneAllocations memory areaStart length) : Prop where
  address_eq : zone.address = allocs.zone
  length_eq : zone.length = length
  alloc_eq : zone.alloc = linearForbidFurtherAlloc allocs.last
  within : ∀ extent ∈ allocs.extents, extent.Within ⟨areaStart, length⟩
  apart : allocs.extents.Pairwise Extent.Apart
  reserved : ∀ ndx < zone.count, zone.buddym.bit 0 ndx = true ↔
    ndx * platformPageSize < linearAllocOccupied zone.alloc
  fixed : ∀ ndx, ndx < zone.descriptors ∨
      ndx * platformPageSize < linearAllocOccupied zone.alloc →
    ((zone.pages ndx).state = .fixed ↔
      ndx * platformPageSize < linearAllocOccupied zone.alloc)
  used : zone.infoPages ≤ zone.count

/-- The pages a length covers are the ones that begin in front of its end. -/
theorem lt_roundup_div {ndx length : Nat} (inside : length + 4095 < addressSpace) :
    ndx < alignRoundup length platformPageSize / platformPageSize ↔
      ndx * platformPageSize < length := by
  rw [alignRoundup_page inside, Nat.mul_div_cancel _ (by decide)]
  unfold platformPageSize
  omega

section Create

variable {rounds tmpArea areaStart physStart pages : Nat} {space : VmSpace} {tree : Tree Nat}

/-- The first half returns in a zone that ends at an address, and the space gets an area over
the zone. -/
theorem mmZoneBootstrap_returns {memory : Nat → BitVec 32} {length : Nat}
    {allocs : ZoneAllocations memory areaStart length} (inPlace : allocs.InPlace pages)
    (synced : space.Synced tree) (placeable : space.Placeable tmpArea areaStart length)
    (above : space.offset ≤ areaStart) (positive : 0 < length)
    (inside : areaStart + length < addressSpace)
    (baseAligned : checkAlign areaStart platformPageSize)
    (lengthAligned : checkAlign length platformPageSize)
    (enough : 2 * (space.sortedAreas.length + 1) < rounds) :
    ∃ next, mmZoneBootstrap rounds tmpArea areaStart length space =
        .ok (next, allocs.third, allocs.zone) ∧
      space.Gains (allocs.zone + infoAreaOffset) { base := areaStart, length := length } next := by
  obtain ⟨first, second, third, fourth, initialised, inserted, removed, moved, gains⟩ :=
    synced.moveArea placeable above positive (Nat.le_of_lt inside) baseAligned lengthAligned enough
  rw [← inPlace.zone_eq] at removed moved gains
  refine ⟨fourth, ?_, gains⟩
  simp only [mmZoneBootstrap, initialised, inserted, allocs.bootstrapped, allocs.zoneTaken,
    allocs.managerTaken, Outcome.ok_bind, deref_some, removed, moved]

/-- A zone that is created is not at address 0 and does not go up to the last address. -/
theorem mmZoneCreate_inside {memory : Nat → BitVec 32} {stalePages : Nat → MmPage}
    {zones nextZones : List MmZone} {next : VmSpace} {length : Nat}
    (startInside : physStart < addressSpace) (lengthInside : length < addressSpace)
    (created : mmZoneCreate rounds memory stalePages tmpArea physStart length zones space =
      .ok (nextZones, next)) :
    physStart + space.offset ≠ 0 ∧ physStart + space.offset + length < addressSpace := by
  simp only [mmZoneCreate, Outcome.bind_eq_ok, kassert_eq_ok] at created
  obtain ⟨_, -, _, lengthAligned, _, areaAligned, ⟨bootSpace, bootAlloc, address⟩, bootstrapped,
    -⟩ := created
  obtain ⟨aboveOffset, -, -, fits⟩ := mmZoneBootstrap_eq bootstrapped
  rw [checkAlign_page lengthInside] at lengthAligned
  rw [checkAlign_page (wrap_lt _)] at areaAligned
  have inside := zone_inside startInside lengthInside areaAligned lengthAligned aboveOffset fits
  refine ⟨fun isZero => ?_, inside⟩
  simp only [mmZoneBootstrap, Outcome.bind_eq_ok] at bootstrapped
  obtain ⟨_, -, _, -, _, started, -⟩ := bootstrapped
  simp only [bootstrapZoneAlloc, linearAllocInit, Outcome.bind_eq_ok, kassert_eq_ok] at started
  obtain ⟨_, ⟨_, named, -⟩, -⟩ := started
  exact named (by rw [isZero]; rfl)

/-- A zone whose virtual addresses end below the last one is set up as it should be, and the
space gets an area over its bookkeeping. -/
theorem mmZoneCreate_gains (memory : Nat → BitVec 32) (stalePages : Nat → MmPage)
    (zones : List MmZone) (positive : 0 < pages)
    (startAligned : platformPageSize ∣ physStart)
    (offsetAligned : platformPageSize ∣ space.offset) (synced : space.Synced tree)
    (placeable : space.Placeable tmpArea (physStart + space.offset) (pages * platformPageSize))
    (enough : 2 * (space.sortedAreas.length + 1) < rounds)
    (named : physStart + space.offset ≠ 0)
    (inside : physStart + space.offset + pages * platformPageSize < addressSpace) :
    ∃ zone next, ∃ allocs : ZoneAllocations memory (wrap (physStart + space.offset))
        (pages * platformPageSize),
      mmZoneCreate rounds memory stalePages tmpArea physStart (pages * platformPageSize) zones
        space = .ok (zone :: zones, next) ∧ zone.Bookkept allocs ∧
      space.Gains (zone.address + infoAreaOffset) zone.infoArea next ∧
      zone.infoArea = { base := physStart + space.offset
                        length := alignRoundup (zoneSpace pages) platformPageSize } := by
  have noWrap : wrap (physStart + space.offset) = physStart + space.offset := wrap_of_lt (by omega)
  have areaAligned : platformPageSize ∣ physStart + space.offset :=
    Nat.dvd_add startAligned offsetAligned
  have startChecked := (checkAlign_page (show physStart < addressSpace by omega)).mpr startAligned
  have areaChecked :=
    (checkAlign_page (show physStart + space.offset < addressSpace by omega)).mpr areaAligned
  have lengthChecked := (checkAlign_page (show pages * platformPageSize < addressSpace by
    omega)).mpr (Nat.dvd_mul_left ..)
  rw [noWrap]
  obtain ⟨allocs, inPlace⟩ := ZoneAllocations.exists_inPlace memory positive named rfl inside
  obtain ⟨next, bootstrapped, gains⟩ := mmZoneBootstrap_returns inPlace synced placeable
    (Nat.le_add_left ..) (by unfold platformPageSize; omega) inside areaChecked lengthChecked enough
  have room : zoneSpace pages ≤ pages * platformPageSize := zoneSpace_le positive (by omega)
  have occupied : linearAllocOccupied (linearForbidFurtherAlloc allocs.last) = zoneSpace pages := by
    rw [inPlace.last_eq, linearAllocOccupied, linearForbidFurtherAlloc]
    dsimp only
    rw [wrapSub_of_le (by omega) (by omega)]
    omega
  have count : pages * platformPageSize / platformPageSize = pages :=
    Nat.mul_div_cancel _ (by decide)
  have roundable : zoneSpace pages + 4095 < addressSpace := by
    unfold platformPageSize addressSpace at *
    omega
  have covered := fun ndx => @lt_roundup_div ndx (zoneSpace pages) roundable
  generalize isLen : alignRoundup (zoneSpace pages) platformPageSize = zoneAreaLen at covered ⊢
  have roundedUp : zoneAreaLen = (zoneSpace pages + 4095) / platformPageSize * platformPageSize :=
    isLen.symm.trans (alignRoundup_page roundable)
  have some_ : 0 < zoneAreaLen := by
    rw [roundedUp]
    unfold zoneSpace sizeofLinearAlloc platformPageSize
    omega
  have shorter : zoneAreaLen ≤ pages * platformPageSize := by
    rw [roundedUp]
    unfold platformPageSize at room ⊢
    omega
  have usedEnough : zoneAreaLen / platformPageSize ≤ pages := by
    by_contra more
    have last := (covered pages).mp (Nat.lt_of_not_le more)
    omega
  have freePages_eq := inPlace.freePages_eq
  obtain ⟨initPages, initialised⟩ := @mmPageInit_returns allocs.freePages physStart
    (pages * platformPageSize) allocs.pages stalePages
    (Nat.mul_le_mul_right _ (by omega))
  have built := allocs.initialised
  rw [count] at built
  obtain ⟨-, -, clear⟩ := BuddyManager.buddyInit_spec built
  obtain ⟨⟨after, buddym⟩, fixed, tracks, bits, states⟩ := mmPageFix_returns initPages
    (BuddyManager.buddyInit_represents built).tracks (fun ndx small => clear 0 ndx (by simpa using small))
    usedEnough
  have freeStates := mmPageInit_loop initialised
  let zone : MmZone := {
    address := allocs.zone, start := physStart, length := pages * platformPageSize
    pages := after, descriptors := allocs.freePages
    pagesCount := wrapSub allocs.freePages (zoneAreaLen / platformPageSize)
    alloc := linearForbidFurtherAlloc allocs.last, buddym := buddym
    infoArea := { base := physStart + space.offset, length := zoneAreaLen } }
  refine ⟨zone, next.setArea (allocs.zone + infoAreaOffset) zone.infoArea, allocs, ?_,
    ⟨rfl, rfl, rfl, inPlace.within room, inPlace.apart, fun ndx small => ?_, fun ndx some_ => ?_,
      ?_⟩, ?_, ?_⟩
  · simp only [mmZoneCreate, kassert_ok startChecked, kassert_ok lengthChecked, noWrap,
      kassert_ok areaChecked, Outcome.ok_bind, bootstrapped, allocs.initialised, allocs.pagesTaken,
      initialised, occupied, isLen, fixed]
    rfl
  · have inPages : ndx < pages := by
      rw [← count]
      exact small
    show buddym.bit 0 ndx = true ↔ _ < linearAllocOccupied (linearForbidFurtherAlloc allocs.last)
    rw [bits ndx inPages, occupied, decide_eq_true_eq]
    exact covered ndx
  · have some_ : ndx < allocs.freePages ∨ _ <
        linearAllocOccupied (linearForbidFurtherAlloc allocs.last) := some_
    show (after ndx).state = .fixed ↔ _ <
      linearAllocOccupied (linearForbidFurtherAlloc allocs.last)
    rw [occupied, ← covered ndx] at some_ ⊢
    rw [states ndx]
    by_cases reserved : ndx < zoneAreaLen / platformPageSize
    · simp [reserved]
    · have described : ndx < allocs.freePages := some_.resolve_right reserved
      simp [reserved, freeStates ndx described]
  · show zoneAreaLen / platformPageSize ≤ pages * platformPageSize / platformPageSize
    rw [count]
    exact usedEnough
  · have info : allocs.zone + infoAreaOffset =
        physStart + space.offset + sizeofLinearAlloc + infoAreaOffset :=
      congrArg (· + infoAreaOffset) inPlace.zone_eq
    exact gains.cut (info ▸ placeable.unused) rfl some_ shorter
  · exact congrArg (VmArea.mk _) rfl

theorem mmZoneCreate_returns (memory : Nat → BitVec 32) (stalePages : Nat → MmPage)
    (zones : List MmZone) (positive : 0 < pages)
    (startAligned : platformPageSize ∣ physStart)
    (offsetAligned : platformPageSize ∣ space.offset) (synced : space.Synced tree)
    (placeable : space.Placeable tmpArea (physStart + space.offset) (pages * platformPageSize))
    (enough : 2 * (space.sortedAreas.length + 1) < rounds)
    (named : physStart + space.offset ≠ 0)
    (inside : physStart + space.offset + pages * platformPageSize < addressSpace) :
    ∃ zone next, ∃ allocs : ZoneAllocations memory (wrap (physStart + space.offset))
        (pages * platformPageSize),
      mmZoneCreate rounds memory stalePages tmpArea physStart (pages * platformPageSize) zones
        space = .ok (zone :: zones, next) ∧ zone.Bookkept allocs := by
  obtain ⟨zone, next, allocs, created, bookkept, -⟩ := mmZoneCreate_gains memory stalePages zones
    positive startAligned offsetAligned synced placeable enough named inside
  exact ⟨zone, next, allocs, created, bookkept⟩

/-- A zone is set up as it should be, with all its bookkeeping in itself, exactly
when its virtual addresses neither begin with 0 nor go up to the last one. -/
theorem mmZoneCreate_bookkept_iff {rounds tmpArea physStart pages : Nat} {space : VmSpace}
    {tree : Tree Nat} (memory : Nat → BitVec 32) (stalePages : Nat → MmPage) (zones : List MmZone)
    (positive : 0 < pages) (lengthInside : pages * platformPageSize < addressSpace)
    (startInside : physStart < addressSpace) (startAligned : platformPageSize ∣ physStart)
    (offsetAligned : platformPageSize ∣ space.offset) (synced : space.Synced tree)
    (placeable : space.Placeable tmpArea (physStart + space.offset) (pages * platformPageSize))
    (enough : 2 * (space.sortedAreas.length + 1) < rounds) :
    (∃ zone next, ∃ allocs : ZoneAllocations memory (wrap (physStart + space.offset))
        (pages * platformPageSize),
      mmZoneCreate rounds memory stalePages tmpArea physStart (pages * platformPageSize) zones
        space = .ok (zone :: zones, next) ∧ zone.Bookkept allocs) ↔
      physStart + space.offset ≠ 0 ∧
        physStart + space.offset + pages * platformPageSize < addressSpace := by
  constructor
  · rintro ⟨zone, next, allocs, created, -⟩
    exact mmZoneCreate_inside startInside lengthInside created
  · rintro ⟨named, inside⟩
    exact mmZoneCreate_returns memory stalePages zones positive startAligned offsetAligned synced
      placeable enough named inside

end Create

/-- A zone of three pages in the first gigabyte. -/
theorem mmZoneCreate_bookkept_three : ∃ zone next,
    ∃ allocs : ZoneAllocations (fun _ => 0) (wrap (4096 + 0xc0000000)) (3 * platformPageSize),
      mmZoneCreate 8 (fun _ => 0) (fun _ => ⟨0, .free⟩) 8 4096 (3 * platformPageSize) []
        (vmSpaceInit VmSpace.noAreas 0xc0000000) = .ok ([zone], next) ∧ zone.Bookkept allocs :=
  (@mmZoneCreate_bookkept_iff 8 8 4096 3 (vmSpaceInit VmSpace.noAreas 0xc0000000) .nil
    (fun _ => 0) (fun _ => ⟨0, .free⟩) [] (by decide) (by decide) (by decide) (by decide)
    (by decide) (VmSpace.synced_init _ _)
    ⟨by decide, List.not_mem_nil, List.not_mem_nil, by decide, nofun⟩ (by decide)).mpr
    ⟨by decide, by decide⟩

/-- The memory above the first megabyte of a machine with two gigabytes: the limit of
the allocator wraps, and its first allocation is not looked at. -/
theorem mmZoneCreate_twoGigabytes :
    (¬∃ zone next,
      ∃ allocs : ZoneAllocations (fun _ => 0) (wrap (0x100000 + 0xc0000000))
          (0x7fee0 * platformPageSize),
        mmZoneCreate 8 (fun _ => 0) (fun _ => ⟨0, .free⟩) 8 0x100000 (0x7fee0 * platformPageSize) []
          (vmSpaceInit VmSpace.noAreas 0xc0000000) = .ok ([zone], next) ∧ zone.Bookkept allocs) ∧
      bootstrapZoneAlloc (0x100000 + 0xc0000000) (0x7fee0 * platformPageSize) =
        .error .nullDeref := by
  refine ⟨?_, by decide⟩
  rintro ⟨zone, next, allocs, created, -⟩
  have inside := mmZoneCreate_inside (by decide) (by decide) created
  exact absurd inside.2 (by decide)

end Yaeos
