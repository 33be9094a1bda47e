import Yaeos.Mm.Zone
import Yaeos.Platform.Register
import Yaeos.Resources.Run

/-!
# Zones at boot (`kernel/kernel.c`)

The base of a region is rounded up and its end down, so that only whole pages get into the
zone.  `register_mem_region` drops what is no longer than a page; a longer region need not
contain a whole one, and then the zone asked for is empty.
-/

namespace Yaeos

/-- The memory `mm_zone_create` is called for. -/
structure ZoneChunk where
  base : Nat
  len : Nat
  deriving DecidableEq, Repr

/-- `chunk_base` and `chunk_len`. -/
def zoneChunk (base len : Nat) : ZoneChunk :=
  let chunkEnd := wrap (base + len)
  let chunkBase := alignRoundup base platformPageSize
  let chunkEnd := alignRounddown chunkEnd platformPageSize
  { base := chunkBase, len := wrapSub chunkEnd chunkBase }

def registerZoneForMem (rounds : Nat) (memory : Nat → BitVec 32) (stalePages : Nat → MmPage)
    (tmpArea : Nat) (base len : Nat) (zones : List MmZone) (kernelVmspace : VmSpace) :
    Outcome (List MmZone × VmSpace) :=
  let chunk := zoneChunk base len
  mmZoneCreate rounds memory stalePages tmpArea chunk.base chunk.len zones kernelVmspace

/-- The page with this number lies between the two addresses. -/
def PageBetween (start stop ndx : Nat) : Prop :=
  start ≤ ndx * platformPageSize ∧ (ndx + 1) * platformPageSize ≤ stop

/-- At least one page, and exactly the whole pages of the registered memory. -/
structure ZoneChunk.WholePages (chunk : ZoneChunk) (data : ResourceData) : Prop where
  baseAligned : platformPageSize ∣ chunk.base
  lenAligned : platformPageSize ∣ chunk.len
  atLeastOne : platformPageSize ≤ chunk.len
  exact : ∀ ndx, PageBetween chunk.base (chunk.base + chunk.len) ndx ↔
    PageBetween data.base (data.base + data.len) ndx

namespace MemRegion

/-- How far the region is from the first page boundary in it. -/
def gap (region : MemRegion) : Nat :=
  (platformPageSize - region.start % platformPageSize) % platformPageSize

/-- The region is not dropped, and this is what is registered of it. -/
def Kept (region : MemRegion) (resources : Resources) (data : ResourceData) : Prop :=
  ∃ next, registerMemRegion resources region = .ok next ∧ next ≠ resources ∧
    next.dataAt resources.nextFreeNdx = some data

variable {region : MemRegion} {resources : Resources} {data : ResourceData}

/-- A resource is registered with its data. -/
theorem resourcesRegister_dataAt {next : Resources} {deviceId resourceId : CString}
    {type : ResourceType}
    (registered : resourcesRegister resources deviceId resourceId type data = .ok next) :
    next.dataAt resources.nextFreeNdx = some data := by
  have room : resources.nextFreeNdx < resources.storage.length := by
    by_contra full
    have refused : writeSlot resources.storage resources.nextFreeNdx
        { deviceId := some deviceId, resourceId := some resourceId, owner := resOwnerNone,
          type := type, data := data } = .error .outOfBounds := if_neg full
    simp only [resourcesRegister, resourcesGetNew] at registered
    split at registered
    · cases registered
    · simp only [Outcome.ok_bind, refused, Outcome.error_bind] at registered
      cases registered
  obtain ⟨other, again, -, stored⟩ := resourcesRegister_ok room deviceId resourceId type data
  cases registered.symm.trans again
  exact stored

/-- Below the last address no length is cut off. -/
theorem registerMemRegion_eq (resources : Resources) (ordered : region.start < region.stop)
    (word : region.stop < addressSpace) : registerMemRegion resources region =
      if region.stop - region.start ≤ platformPageSize then .ok resources
      else resourcesRegister resources platformId memoryId .memory
        { base := region.start, len := region.stop - region.start } := by
  have length : wrapSub region.stop region.start = region.stop - region.start :=
    wrapSub_of_le (Nat.le_of_lt ordered) word
  have rest : wrapSub maxAddr region.start = maxAddr - region.start :=
    wrapSub_of_le (by unfold maxAddr; omega) (by decide)
  have whole : min (region.stop - region.start) (maxAddr - region.start) =
      region.stop - region.start := by
    unfold maxAddr
    omega
  simp only [registerMemRegion, length, rest, whole]

/-- A region that is kept is longer than a page and is registered whole. -/
theorem Kept.data_eq (kept : region.Kept resources data) (ordered : region.start < region.stop)
    (word : region.stop < addressSpace) :
    platformPageSize < region.stop - region.start ∧
      data = { base := region.start, len := region.stop - region.start } := by
  obtain ⟨next, registered, differs, stored⟩ := kept
  rw [registerMemRegion_eq resources ordered word] at registered
  split at registered
  · exact absurd (Except.ok.inj registered).symm differs
  · next long =>
      rw [resourcesRegister_dataAt registered, Option.some.injEq] at stored
      exact ⟨Nat.lt_of_not_le long, stored.symm⟩

/-- At boot there is a slot for every region that is longer than a page. -/
theorem kept_boot {len : Nat} (spans : region.start + len = region.stop)
    (long : platformPageSize < len) (word : region.stop < addressSpace) :
    region.Kept (resourcesInit resourcesBoot) { base := region.start, len := len } := by
  obtain ⟨next, returned, taken, stored⟩ :=
    resourcesRegister_ok MultibootMmapEntry.boot_room platformId memoryId .memory
      { base := region.start, len := len }
  have length : region.stop - region.start = len := by omega
  refine ⟨next, ?_, ?_, stored⟩
  · rw [registerMemRegion_eq _ (by omega) word, length, if_neg (Nat.not_le.mpr long)]
    exact returned
  · rintro rfl
    omega

/-- The chunk goes from the first page boundary in the region to the last one. -/
theorem zoneChunk_eq (long : platformPageSize < region.stop - region.start)
    (word : region.stop < addressSpace) :
    zoneChunk region.start (region.stop - region.start) =
      { base := region.start + region.gap,
        len := region.stop / platformPageSize * platformPageSize - (region.start + region.gap) } ∧
      region.start + region.gap ≤ region.stop / platformPageSize * platformPageSize ∧
      platformPageSize ∣ region.start + region.gap := by
  have roundedBase : alignRoundup region.start platformPageSize = region.start + region.gap := by
    rw [alignRoundup_page (by unfold platformPageSize at long; omega)]
    unfold gap platformPageSize
    omega
  have stop : region.start + (region.stop - region.start) = region.stop := by omega
  have roundedEnd : alignRounddown (wrap region.stop) platformPageSize =
      region.stop / platformPageSize * platformPageSize := by
    rw [wrap_of_lt word, alignRounddown_page word]
  have ordered : region.start + region.gap ≤ region.stop / platformPageSize * platformPageSize := by
    unfold gap platformPageSize at *
    omega
  have below := Nat.div_mul_le_self region.stop platformPageSize
  refine ⟨?_, ordered, ?_⟩
  · rw [zoneChunk, stop, roundedBase, roundedEnd]
    exact congrArg _ (wrapSub_of_le ordered (Nat.lt_of_le_of_lt below word))
  · unfold gap platformPageSize
    omega

/-- Otherwise the chunk is empty. -/
theorem zoneChunk_empty (long : platformPageSize < region.stop - region.start)
    (word : region.stop < addressSpace)
    (short : region.stop - region.start < region.gap + platformPageSize) :
    (zoneChunk region.start (region.stop - region.start)).len = 0 := by
  rw [(zoneChunk_eq long word).1]
  dsimp only
  unfold gap platformPageSize at *
  omega

/-- What `register_mem_region` keeps contains a whole page, and gets a zone, if and only if
it goes on for a page behind the first page boundary in it. -/
theorem wholePages_iff (ordered : region.start < region.stop) (word : region.stop < addressSpace)
    (kept : region.Kept resources data) : (zoneChunk data.base data.len).WholePages data ↔
      region.gap + platformPageSize ≤ region.stop - region.start := by
  obtain ⟨long, rfl⟩ := kept.data_eq ordered word
  obtain ⟨chunk, inside, aligned⟩ := zoneChunk_eq long word
  have stop : region.start + (region.stop - region.start) = region.stop := by omega
  have chunkStop : region.start + region.gap +
      (region.stop / platformPageSize * platformPageSize - (region.start + region.gap)) =
        region.stop / platformPageSize * platformPageSize := by omega
  dsimp only
  rw [chunk]
  constructor
  · rintro ⟨-, -, atLeastOne, -⟩
    have below := Nat.div_mul_le_self region.stop platformPageSize
    dsimp only at atLeastOne
    omega
  · intro room
    refine ⟨aligned, Nat.dvd_sub (Nat.dvd_mul_left ..) aligned, ?_, fun ndx => ?_⟩
    · dsimp only
      unfold gap platformPageSize at *
      omega
    · dsimp only
      rw [chunkStop, stop]
      unfold PageBetween gap platformPageSize
      omega

/-- Eight megabytes that begin and end inside a page. -/
theorem oddMemory_wholePages_iff :
    (zoneChunk 0x100001 0x7FFFFE).WholePages { base := 0x100001, len := 0x7FFFFE } ↔
      (MemRegion.mk 0x100001 0x8FFFFF 1).gap + platformPageSize ≤ 0x8FFFFF - 0x100001 := by
  have kept : (MemRegion.mk 0x100001 0x8FFFFF 1).Kept (resourcesInit resourcesBoot)
      { base := 0x100001, len := 0x7FFFFE } := kept_boot (by decide) (by decide) (by decide)
  have whole := wholePages_iff (by decide) (by decide) kept
  exact whole

/-- A page and a byte, from the second byte of the address space on. -/
theorem pageAndByte_not_wholePages :
    (MemRegion.mk 1 4098 1).Kept (resourcesInit resourcesBoot) { base := 1, len := 4097 } ∧
      zoneChunk 1 4097 = { base := 4096, len := 0 } ∧
      ¬(zoneChunk 1 4097).WholePages { base := 1, len := 4097 } := by
  have empty : zoneChunk 1 4097 = { base := 4096, len := 0 } := by decide
  have kept : (MemRegion.mk 1 4098 1).Kept (resourcesInit resourcesBoot)
      { base := 1, len := 4097 } := kept_boot (by decide) (by decide) (by decide)
  refine ⟨kept, empty, fun pages => ?_⟩
  have atLeastOne := pages.atLeastOne
  rw [empty] at atLeastOne
  exact absurd atLeastOne (by decide)

end MemRegion

section Zone

variable {rounds tmpArea : Nat} {memory : Nat → BitVec 32} {stalePages : Nat → MmPage}
  {zones nextZones : List MmZone} {space next : VmSpace}

/-- `linear_alloc_init` asserts that there is memory before the buddy manager is set up. -/
theorem mmZoneCreate_positive {physStart length : Nat}
    (created : mmZoneCreate rounds memory stalePages tmpArea physStart length zones space =
      .ok (nextZones, next)) : 0 < length := by
  simp only [mmZoneCreate, Outcome.bind_eq_ok] at created
  obtain ⟨-, -, -, -, -, -, _, bootstrapped, -⟩ := created
  simp only [mmZoneBootstrap, Outcome.bind_eq_ok] at bootstrapped
  obtain ⟨-, -, -, -, _, started, -⟩ := bootstrapped
  simp only [bootstrapZoneAlloc, linearAllocInit, Outcome.bind_eq_ok, kassert_eq_ok] at started
  obtain ⟨-, ⟨-, -, -, positive, -⟩, -⟩ := started
  exact positive

/-- Boot stops at a region that is kept without a whole page in it. -/
theorem registerZoneForMem_short {region : MemRegion} {resources : Resources} {data : ResourceData}
    (ordered : region.start < region.stop) (word : region.stop < addressSpace)
    (kept : region.Kept resources data)
    (short : region.stop - region.start < region.gap + platformPageSize) :
    registerZoneForMem rounds memory stalePages tmpArea data.base data.len zones space ≠
      .ok (nextZones, next) := by
  intro created
  obtain ⟨long, rfl⟩ := kept.data_eq ordered word
  have positive := mmZoneCreate_positive created
  rw [MemRegion.zoneChunk_empty long word short] at positive
  exact absurd positive (Nat.lt_irrefl 0)

end Zone

end Yaeos
