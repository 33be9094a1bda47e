import Yaeos.Platform.MemZones
import Yaeos.VmSpace.Gap

/-!
# From the memory map to zones

The memory map, the resources and the zones of the boot are one computation.  It returns exactly
if there are slots for the regions and each of them can have a zone, and then the zones have the
free pages of the map.
-/

namespace Yaeos

/-- What `i686_init` and then `kernel_init` do about memory; `blank` is what the memory of
`CURRENT_KERNEL` holds before. -/
def bootMemory (rounds : Nat) (image : KernelImage) (records : BootRecords image)
    (info : MultibootInfo) (memory : Nat → MmapSlot) (stale : StaleMemory) (blank : VmSpace) :
    Outcome KernelMemory := do
  let addr ← addrSetOffset addrBoot kernelVmOffset
  let kstart ← addrToLow addr image.textStart
  let kend ← addrToLow addr image.bssEnd
  let resources ← i686RegisterResources rounds kstart kend info memory
    (resourcesInit resourcesBoot)
  let space ← initKernelVmspace image records.kernelbinAreas rounds addr blank
  KernelMemory.registerMemZones rounds stale records.tmpArea rounds
    { resources := resources, zones := [], space := space }

/-- The map of the entries that the walk visits. -/
def ramEntries (memory : Nat → MmapSlot) (entries : List Nat) : List MultibootMmapEntry :=
  entries.map fun c => (memory c).entry

namespace RamMap

variable {map : List MultibootMmapEntry} {kstart kend : Nat}

/-- Two regions that are kept have no byte in common. -/
theorem kept_apart (ram : RamMap map kstart kend) (image : kstart < kend) :
    (keptRegions kstart kend map).Pairwise MemRegion.Apart := by
  have nonempty : ∀ region ∈ keptRegions kstart kend map, region.start < region.stop := by
    intro region member
    have long := (List.mem_filter.mp member).2
    simp only [decide_eq_true_eq] at long
    omega
  have apart : (map.flatMap (regionsOf kstart kend)).Pairwise fun first second =>
      first.start < first.stop → second.start < second.stop → first.Apart second := by
    refine List.pairwise_flatMap.mpr ⟨fun mmap member => ?_, ram.apart.imp_of_mem ?_⟩
    · obtain ⟨-, whenUsable, whenNot⟩ := ram.regionsOf_pieces image member
      by_cases usable : mmap.Usable
      · refine (whenUsable usable).disjoint.imp fun {first second} disjoint inFirst inSecond => ?_
        by_contra crosses
        refine disjoint (max first.start second.start) ?_
        unfold MemRegion.Apart at crosses
        unfold MemRegion.Contains
        omega
      · rw [whenNot usable]
        exact .nil
    · intro first second inFirst inSecond disjoint x isX y isY someX someY
      obtain ⟨usable, -, -, inside⟩ := ram.region_inside image inFirst isX
      obtain ⟨usable', -, -, inside'⟩ := ram.region_inside image inSecond isY
      obtain ⟨above, below, -⟩ := inside someX
      obtain ⟨above', below', -⟩ := inside' someY
      have entries := disjoint usable usable'
      unfold MemRegion.Apart
      omega
  exact (apart.filter _).imp_of_mem fun {first second} isFirst isSecond disjoint =>
    disjoint (nonempty first isFirst) (nonempty second isSecond)

/-- A region that is kept has addresses, and none of them is of the image. -/
theorem kept_outside {image : KernelImage}
    (ram : RamMap map (image.lowStart .text) (image.lowEnd .bss))
    (some_ : image.lowStart .text < image.lowEnd .bss) {region : MemRegion}
    (member : region ∈ keptRegions (image.lowStart .text) (image.lowEnd .bss) map) :
    region.Outside image := by
  obtain ⟨listed, long⟩ := List.mem_filter.mp member
  simp only [decide_eq_true_eq] at long
  obtain ⟨mmap, isEntry, isRegion⟩ := List.mem_flatMap.mp listed
  obtain ⟨-, -, word, inside⟩ := ram.region_inside some_ isEntry isRegion
  exact ⟨long, word, (inside (by omega)).2.2⟩

/-- The pages of the kept regions are the free ones with a free neighbour. -/
theorem kept_pages (ram : RamMap map kstart kend) (image : kstart < kend) (address : Nat) :
    (∃ region ∈ keptRegions kstart kend map,
        PageBetween region.start region.stop (address / platformPageSize)) ↔
      ∃ mmap ∈ map, mmap.Usable ∧ mmap.FreesPage kstart kend address ∧
        mmap.FreesNext kstart kend address := by
  constructor
  · rintro ⟨region, member, between⟩
    obtain ⟨listed, long⟩ := List.mem_filter.mp member
    simp only [decide_eq_true_eq] at long
    obtain ⟨mmap, isEntry, isRegion⟩ := List.mem_flatMap.mp listed
    obtain ⟨usable, -⟩ := ram.region_inside image isEntry isRegion
    have pieces := (ram.regionsOf_pieces image isEntry).2.1 usable
    exact ⟨mmap, isEntry, usable, (pieces.freesPage_iff address).mpr
      ⟨region, isRegion, long, between⟩⟩
  · rintro ⟨mmap, isEntry, usable, frees⟩
    have pieces := (ram.regionsOf_pieces image isEntry).2.1 usable
    obtain ⟨region, isRegion, long, between⟩ := (pieces.freesPage_iff address).mp frees
    exact ⟨region, List.mem_filter.mpr ⟨List.mem_flatMap.mpr ⟨mmap, isEntry, isRegion⟩,
      by simpa using long⟩, between⟩

end RamMap

section Boot

variable {image : KernelImage} {records : BootRecords image} {info : MultibootInfo}
  {memory : Nat → MmapSlot} {stale : StaleMemory} {blank : VmSpace} {rounds : Nat}
  {entries : List Nat}

/-- Every region gets a slot, with one left for the buffer of the screen. -/
theorem i686RegisterResources_data {map : List MultibootMmapEntry} {kstart kend : Nat}
    (visited : info.entries memory rounds = some entries)
    (ram : RamMap (ramEntries memory entries) kstart kend) (some_ : kstart < kend)
    (isMap : map = ramEntries memory entries) :
    ((keptRegions kstart kend map).length < maxResources ↔
      ∃ next, i686RegisterResources rounds kstart kend info memory
        (resourcesInit resourcesBoot) = .ok next) ∧
    ∀ next, i686RegisterResources rounds kstart kend info memory
        (resourcesInit resourcesBoot) = .ok next →
      ∃ free, next.Ok free [] ∧ next.memoryData free =
        (keptRegions kstart kend map).reverse.map Resources.regionData := by
  subst isMap
  have registered : i686RegisterResources rounds kstart kend info memory
      (resourcesInit resourcesBoot) =
        (((ramEntries memory entries).flatMap (regionsOf kstart kend)).foldlM registerMemRegion
          (resourcesInit resourcesBoot) >>= registerBiosVga) := by
    rw [MultibootInfo.i686RegisterResources_eq visited, ← ram.registerEntries some_,
      ramEntries, List.foldlM_map]
  obtain ⟨returns, holds⟩ := Resources.init_ok.registerRegions (ram.regions_ordered some_)
  have none : (resourcesInit resourcesBoot).nextFreeNdx = 0 := rfl
  rw [none, Nat.zero_add] at returns
  rw [registered]
  have video : ¬(platformId = platformId ∧ videoId = memoryId) := by decide
  refine ⟨⟨fun room => ?_, fun ⟨next, returned⟩ => ?_⟩, fun next returned => ?_⟩
  · obtain ⟨after, returned⟩ := returns.mp (Nat.le_of_lt room)
    obtain ⟨free, afterOk, taken, -⟩ := holds after returned
    rw [none, Nat.zero_add] at taken
    obtain ⟨next, last, -⟩ := afterOk.register (taken.symm ▸ room) platformId videoId .devBuffer
      { base := 0xA0000, len := 128 * 1024 }
    exact ⟨next, by rw [returned, Outcome.ok_bind]; exact last⟩
  · obtain ⟨after, returned, last⟩ := Outcome.bind_eq_ok.mp returned
    obtain ⟨free, afterOk, taken, -⟩ := holds after returned
    rw [none, Nat.zero_add] at taken
    refine lt_of_le_of_ne (returns.mpr ⟨after, returned⟩) fun full => ?_
    have refused := afterOk.register_full (taken.trans full) platformId videoId .devBuffer
      { base := 0xA0000, len := 128 * 1024 }
    cases last.symm.trans refused
  · obtain ⟨after, returned, last⟩ := Outcome.bind_eq_ok.mp returned
    obtain ⟨free, afterOk, taken, data⟩ := holds after returned
    have room : after.nextFreeNdx < maxResources := by
      refine lt_of_le_of_ne afterOk.bound fun full => ?_
      have refused := afterOk.register_full full platformId videoId .devBuffer
        { base := 0xA0000, len := 128 * 1024 }
      cases last.symm.trans refused
    obtain ⟨next', last', nextOk⟩ := afterOk.register room platformId videoId .devBuffer
      { base := 0xA0000, len := 128 * 1024 }
    cases last'.symm.trans last
    have lastData := afterOk.memoryData_register room last'
    rw [if_neg video, data] at lastData
    refine ⟨after.nextFreeNdx :: free, nextOk, lastData.trans ?_⟩
    rw [List.map_reverse]
    exact List.append_nil _

/-- What the boot leaves: the zones are those of a run, the kernel's space has the areas of the
segments and one over the bookkeeping of each zone, and the zones have exactly the free pages of
the map that lie next to another free byte. -/
structure KernelMemory.Booted (image : KernelImage) (records : BootRecords image)
    (map : List MultibootMmapEntry) (kernel : KernelMemory) : Prop where
  reachable : mmMachine.Reachable ⟨kernel.zones, kernel.space, []⟩
  synced : ∃ tree, kernel.space.Synced tree
  paged : kernel.space.Paged
  listed : kernel.space.sortedAreas.Perm
    (kernel.zones.map MmZone.infoAddress ++ kernelSegments.map records.kernelbinAreas)
  segments : ∀ seg, kernel.space.areas (records.kernelbinAreas seg) = image.segmentArea seg
  infos : ∀ zone ∈ kernel.zones, kernel.space.areas zone.infoAddress = zone.infoArea
  pages : ∀ address, (∃ zone ∈ kernel.zones, zone.Contains address) ↔
    ∃ mmap ∈ map, mmap.Usable ∧
      mmap.FreesPage (image.lowStart .text) (image.lowEnd .bss) address ∧
      mmap.FreesNext (image.lowStart .text) (image.lowEnd .bss) address

/-- The space is one that heap and page faults can be served in. -/
theorem ZonesOver.paged {regions : List MemRegion} {kernel : List MmZone × VmSpace}
    (covering : ZonesOver image records regions kernel) : kernel.2.Paged := by
  obtain ⟨tree, synced⟩ := covering.synced
  have ready := (MmSystem.holds_of_reachable covering.reachable).ready
  have each : ∀ area ∈ kernel.2.sortedAreas, (platformPageSize ∣ (kernel.2.areas area).base ∧
      platformPageSize ∣ (kernel.2.areas area).length) ∧
        kernelVmOffset ≤ (kernel.2.areas area).base := by
    intro area member
    rcases covering.area_cases member with ⟨zone, isZone, rfl⟩ | ⟨seg, rfl⟩
    · obtain ⟨base, -, whole⟩ := covering.within zone isZone
      rw [covering.infos zone isZone, base]
      exact ⟨⟨Nat.dvd_add (ready.sound zone isZone).startAligned (by decide), whole⟩,
        Nat.le_add_left ..⟩
    · rw [covering.segments seg]
      refine ⟨image.segmentArea_paged seg, ?_⟩
      have start := (image.segment_bounds seg).1
      simp only [KernelImage.segmentArea]
      unfold kernelVmOffset
      omega
  refine ⟨covering.offset ▸ by decide, covering.offset ▸ by decide, fun area member => ?_,
    fun area member => (each area member).1,
    fun area member => covering.offset ▸ (each area member).2, synced.sorted ▸ synced.apart⟩
  exact (synced.named area (synced.sorted ▸ member)).2.2

/-- Where the image lies in low memory. -/
theorem image_low (image : KernelImage) :
    addrToLow ⟨true, kernelVmOffset⟩ image.textStart = .ok (image.lowStart .text) ∧
      addrToLow ⟨true, kernelVmOffset⟩ image.bssEnd = .ok (image.lowEnd .bss) := by
  have text := image.textStart_eq
  have fits := image.bss_fits
  obtain ⟨first, behind, last⟩ := image_high image
  have above : kernelVmOffset < image.bssEnd := by
    have ordered := (image.segment_bounds .bss).2.1
    simp only [kernelArchGetSegment] at ordered
    unfold kernelVmOffset
    omega
  unfold platformPageSize at fits
  constructor
  · simp only [addrToLow, kassert_true, Outcome.ok_bind]
    rw [kassert_ok (by rw [text]; decide), Outcome.ok_bind, wrapSub_of_le (by rw [text]; decide)
      (by rw [text]; decide)]
    rfl
  · simp only [addrToLow, kassert_true, Outcome.ok_bind]
    rw [kassert_ok above, Outcome.ok_bind, wrapSub_of_le (Nat.le_of_lt above) (by omega)]
    rfl

/-- Once the resources are registered, what is left is to put a zone over every region. -/
theorem bootMemory_registered (records : BootRecords image) (stale : StaleMemory)
    (blank : VmSpace) (filled : image.Filled) {kept : List MemRegion}
    {resources : Resources} {free : List Nat}
    (registered : i686RegisterResources rounds (image.lowStart .text) (image.lowEnd .bss) info
      memory (resourcesInit resourcesBoot) = .ok resources) (ok : resources.Ok free [])
    (data : resources.memoryData free = kept.reverse.map Resources.regionData)
    (enough : maxResources < rounds) :
    ∃ after space, ZonesOver image records [] ([], space) ∧
      bootMemory rounds image records info memory stale blank =
        ((kept.reverse.map Resources.regionData).foldlM
          (registerZone rounds stale records.tmpArea) ([], space)).map fun kernel =>
            { resources := after, zones := kernel.1, space := kernel.2 } := by
  have many : 6 < rounds := Nat.lt_trans (by decide) enough
  obtain ⟨space, initialised, segments⟩ :=
    KernelImage.initKernelVmspace_ok records filled blank many
  have covering : ZonesOver image records [] ([], space) :=
    ⟨.initial ⟨rfl, rfl⟩, segments.synced, segments.offset,
      segments.listed.trans (List.reverse_perm _ |>.map _),
      fun seg => segments.areas seg (by cases seg <;> decide), nofun, nofun, rfl⟩
  have few : (free.filter (resources.matchesAt (.byId platformId memoryId))).length < rounds :=
    Nat.lt_of_le_of_lt (List.length_filter_le ..) (Nat.lt_of_le_of_lt ok.length_free enough)
  obtain ⟨after, claimed, -⟩ := ok.claimEvery platformId memoryId enough few
  have datas : registerMemZones rounds rounds resources =
      .ok (after, kept.reverse.map Resources.regionData) := by
    rw [← data]
    exact claimed
  have set : addrSetOffset addrBoot kernelVmOffset = .ok ⟨true, kernelVmOffset⟩ := rfl
  obtain ⟨start, end_⟩ := image_low image
  refine ⟨after, space, covering, ?_⟩
  simp only [bootMemory, set, start, end_, registered, initialised, Outcome.ok_bind]
  exact KernelMemory.registerMemZones_eq datas ([], space)

/-- The zones of the kept regions have the free pages. -/
theorem ZonesOver.booted {map : List MultibootMmapEntry} {kernel : List MmZone × VmSpace}
    (ram : RamMap map (image.lowStart .text) (image.lowEnd .bss))
    (some_ : image.lowStart .text < image.lowEnd .bss)
    (covering : ZonesOver image records
      (keptRegions (image.lowStart .text) (image.lowEnd .bss) map) kernel)
    (resources : Resources) :
    KernelMemory.Booted image records map ⟨resources, kernel.1, kernel.2⟩ := by
  refine ⟨covering.reachable, covering.synced, covering.paged, covering.listed,
    covering.segments, covering.infos, fun address => ?_⟩
  rw [← ram.kept_pages some_]
  have chunks : (∃ zone ∈ kernel.1, zone.Contains address) ↔
      ∃ chunk ∈ kernel.1.map (fun zone => (⟨zone.start, zone.length⟩ : ZoneChunk)),
        chunk.base ≤ address ∧ address < chunk.base + chunk.len := by
    simp only [List.mem_map, exists_exists_and_eq_and, MmZone.Contains]
  rw [chunks, covering.chunks]
  simp only [List.mem_map, exists_exists_and_eq_and]
  refine exists_congr fun region => and_congr_right fun member => ?_
  exact MemRegion.chunk_contains_iff (ram.kept_outside some_ member).long address

end Boot

/-- An image with something in every segment. -/
def filledImage : KernelImage :=
  { smallImage with
    dataEnd := 0xC0102008
    bssStart := 0xC0103000
    bssEnd := 0xC0106000
    bootPagingPd := 0xC0104000
    bootPagingPt := 0xC0105000
    data_le := by decide
    bss_start := ⟨by decide, by decide, fun bound aligned above => by
      unfold platformPageSize at aligned
      omega⟩
    bss_le := by decide
    pd_page := by decide
    pt_eq := by decide
    pt_le := by decide
    bss_fits := by decide }

/-- The records at the start of the last segment. -/
def filledRecords : BootRecords filledImage where
  kernelbinAreas
    | .text => 0xC0103000
    | .rodata => 0xC0103040
    | .data => 0xC0103080
    | .bss => 0xC01030C0
  tmpArea := 0xC0103800
  inside seg := by cases seg <;> decide
  tmpInside := by decide
  injective first second same := by
    cases first <;> cases second <;> first | rfl | exact absurd same (by decide)
  apart seg := by cases seg <;> decide

/-- The memory map of a machine with eight megabytes. -/
def smallMap : Nat → MmapSlot := fun c =>
  if c = 0xC0009000 then ⟨20, ⟨0, 0x9FC00, 1⟩⟩
  else if c = 0xC0009018 then ⟨20, ⟨0x9FC00, 0x400, 2⟩⟩
  else ⟨20, ⟨0x100000, 0x700000, 1⟩⟩

end Yaeos
