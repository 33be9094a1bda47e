import Yaeos.Mm.Layout
import Yaeos.Mm.Run
import Yaeos.Platform.KernelAreas
import Yaeos.Platform.Registered

/-!
# Memory at boot (`kernel/kernel.c`)

The free memory of the map becomes zones, and every zone gets an area over its bookkeeping
beside the areas of the kernel's segments.  The invariant is carried by the regions that have a
zone already.
-/

namespace Yaeos

/-- What the memory holds where zones are put, by the first address of the zone. -/
structure StaleMemory where
  words : Nat → Nat → BitVec 32
  pages : Nat → Nat → MmPage

/-- `RESOURCES`, `MM_ZONES` and `CURRENT_KERNEL`. -/
structure KernelMemory where
  resources : Resources
  zones : List MmZone
  space : VmSpace

/-- `register_zone_for_mem` over the memory as it is. -/
def registerZone (rounds : Nat) (stale : StaleMemory) (tmpArea : Nat)
    (kernel : List MmZone × VmSpace) (data : ResourceData) : Outcome (List MmZone × VmSpace) :=
  let chunk := zoneChunk data.base data.len
  registerZoneForMem rounds (stale.words chunk.base) (stale.pages chunk.base) tmpArea data.base
    data.len kernel.1 kernel.2

/-- `register_mem_zones`; at most `claims` claims. -/
def KernelMemory.registerMemZones (rounds : Nat) (stale : StaleMemory) (tmpArea : Nat) :
    (claims : Nat) → KernelMemory → Outcome KernelMemory
  | 0, _ => .error .unfinished
  | claims + 1, kernel => do
      match ← resourcesKclaimById kernel.resources rounds platformId memoryId with
      | (resources, none) => .ok { kernel with resources := resources }
      | (resources, some ndx) => do
          let r ← readSlot resources.storage ndx
          let (zones, space) ← registerZone rounds stale tmpArea (kernel.zones, kernel.space) r.data
          registerMemZones rounds stale tmpArea claims
            { resources := resources, zones := zones, space := space }

/-- Claiming and creating zones is claiming everything first and then creating the zones. -/
theorem KernelMemory.registerMemZones_eq {rounds claims tmpArea : Nat} {stale : StaleMemory}
    {resources after : Resources} {datas : List ResourceData}
    (claimed : Yaeos.registerMemZones rounds claims resources = .ok (after, datas))
    (kernel : List MmZone × VmSpace) :
    KernelMemory.registerMemZones rounds stale tmpArea claims
        { resources := resources, zones := kernel.1, space := kernel.2 } =
      (datas.foldlM (registerZone rounds stale tmpArea) kernel).map fun kernel =>
        { resources := after, zones := kernel.1, space := kernel.2 } := by
  induction claims generalizing resources datas kernel with
  | zero => cases claimed
  | succ claims inductionHypothesis =>
      simp only [Yaeos.registerMemZones, claimEvery, Outcome.bind_eq_ok] at claimed
      obtain ⟨⟨next, found⟩, kclaimed, claimed⟩ := claimed
      cases found with
      | none =>
          simp only [Except.ok.injEq, Prod.mk.injEq] at claimed
          obtain ⟨rfl, rfl⟩ := claimed
          simp only [KernelMemory.registerMemZones, kclaimed, Outcome.ok_bind]
          rfl
      | some ndx =>
          simp only [Outcome.bind_eq_ok, Except.ok.injEq, Prod.mk.injEq] at claimed
          obtain ⟨r, read, ⟨last, rest⟩, later, rfl, rfl⟩ := claimed
          simp only [KernelMemory.registerMemZones, kclaimed, Outcome.ok_bind, read,
            List.foldlM_cons]
          cases created : registerZone rounds stale tmpArea kernel r.data with
          | error fault => rfl
          | ok zoned => exact inductionHypothesis later zoned

/-! ## Zones over regions -/

/-- Where the area over the bookkeeping of a zone has its record. -/
def MmZone.infoAddress (zone : MmZone) : Nat := zone.address + infoAreaOffset

namespace MemRegion

/-- The region has a whole page, and its last one lies in the high memory. -/
def Zoned (region : MemRegion) : Prop :=
  region.gap + platformPageSize ≤ region.stop - region.start ∧
    region.stop / platformPageSize * platformPageSize + kernelVmOffset < addressSpace

instance (region : MemRegion) : Decidable region.Zoned :=
  inferInstanceAs (Decidable (_ ∧ _))

/-- The regions have no byte in common. -/
def Apart (first second : MemRegion) : Prop :=
  first.stop ≤ second.start ∨ second.stop ≤ first.start

/-- The chunk of a region that is longer than a page. -/
def chunk (region : MemRegion) : ZoneChunk where
  base := region.start + region.gap
  len := region.stop / platformPageSize * platformPageSize - (region.start + region.gap)

variable {region : MemRegion}

/-- The chunk has the whole pages of the region. -/
theorem chunk_bounds (long : platformPageSize < region.stop - region.start) :
    region.start ≤ region.chunk.base ∧ region.chunk.base + region.chunk.len ≤ region.stop ∧
      platformPageSize ∣ region.chunk.base ∧ platformPageSize ∣ region.chunk.len ∧
      region.chunk.base + region.chunk.len = region.stop / platformPageSize * platformPageSize := by
  have aligned : platformPageSize ∣ region.start + region.gap := by
    unfold gap platformPageSize
    omega
  have whole : platformPageSize ∣ region.stop / platformPageSize * platformPageSize :=
    Nat.dvd_mul_left ..
  have below := Nat.div_mul_le_self region.stop platformPageSize
  have ordered : region.start + region.gap ≤ region.stop / platformPageSize * platformPageSize := by
    unfold gap platformPageSize at *
    omega
  refine ⟨Nat.le_add_right .., ?_, aligned, Nat.dvd_sub whole aligned, ?_⟩
  · simp only [chunk]
    omega
  · simp only [chunk]
    omega

theorem chunk_len_pos_iff (long : platformPageSize < region.stop - region.start) :
    0 < region.chunk.len ↔ region.gap + platformPageSize ≤ region.stop - region.start := by
  simp only [chunk]
  unfold gap platformPageSize at *
  omega

/-- An address is in the chunk when its page is in the region. -/
theorem chunk_contains_iff (long : platformPageSize < region.stop - region.start) (addr : Nat) :
    (region.chunk.base ≤ addr ∧ addr < region.chunk.base + region.chunk.len) ↔
      PageBetween region.start region.stop (addr / platformPageSize) := by
  obtain ⟨-, -, -, -, ends⟩ := chunk_bounds long
  rw [ends]
  simp only [chunk]
  unfold PageBetween gap platformPageSize at *
  omega

end MemRegion

/-- The zones of these regions are all there is besides the kernel. -/
structure ZonesOver (image : KernelImage) (records : BootRecords image)
    (regions : List MemRegion) (kernel : List MmZone × VmSpace) : Prop where
  reachable : mmMachine.Reachable ⟨kernel.1, kernel.2, []⟩
  synced : ∃ tree, kernel.2.Synced tree
  offset : kernel.2.offset = kernelVmOffset
  listed : kernel.2.sortedAreas.Perm
    (kernel.1.map MmZone.infoAddress ++ kernelSegments.map records.kernelbinAreas)
  segments : ∀ seg, kernel.2.areas (records.kernelbinAreas seg) = image.segmentArea seg
  infos : ∀ zone ∈ kernel.1, kernel.2.areas zone.infoAddress = zone.infoArea
  within : ∀ zone ∈ kernel.1, zone.infoArea.base = zone.start + kernelVmOffset ∧
    zone.infoArea.length ≤ zone.length ∧ platformPageSize ∣ zone.infoArea.length
  chunks : kernel.1.map (fun zone => (⟨zone.start, zone.length⟩ : ZoneChunk)) =
    regions.map MemRegion.chunk

/-- A region that is kept, outside the image. -/
structure MemRegion.Outside (image : KernelImage) (region : MemRegion) : Prop where
  long : platformPageSize < region.stop - region.start
  word : region.stop < addressSpace
  apart : region.stop ≤ image.lowStart .text ∨ image.lowEnd .bss ≤ region.start

section Zones

variable {image : KernelImage} {records : BootRecords image} {regions : List MemRegion}
  {region : MemRegion} {kernel next : List MmZone × VmSpace} {rounds : Nat} {stale : StaleMemory}

theorem zoneChunk_region (outside : region.Outside image) :
    zoneChunk region.start (region.stop - region.start) = region.chunk :=
  (MemRegion.zoneChunk_eq outside.long outside.word).1

/-- The low bounds of the image, as high addresses. -/
theorem image_high (image : KernelImage) :
    image.lowStart .text + kernelVmOffset = 0xC0100000 ∧
      image.lowEnd .bss + kernelVmOffset = image.bssEnd ∧ 0xC0100000 ≤ image.bssStart := by
  have first := (image.segment_bounds .bss).1
  have ordered := (image.segment_bounds .bss).2.1
  have text := image.textStart_eq
  simp only [kernelArchGetSegment] at first ordered
  simp only [KernelImage.lowStart, KernelImage.lowEnd, kernelArchGetSegment, text]
  unfold kernelVmOffset
  omega

/-- The high addresses of a chunk are apart from those of a segment. -/
theorem segmentArea_chunk (outside : region.Outside image) (seg : KernelSegment) :
    (image.segmentArea seg).Disjoint
      { base := region.chunk.base + kernelVmOffset, length := region.chunk.len } := by
  obtain ⟨above, below, aligned, -, ends⟩ := MemRegion.chunk_bounds outside.long
  obtain ⟨start, ordered, last, -⟩ := image.segment_bounds seg
  obtain ⟨areaEnd, -, -⟩ := image.segmentArea_end seg
  obtain ⟨first, behind, -⟩ := image_high image
  simp only [VmArea.Disjoint, VmArea.Before]
  rcases outside.apart with before | after
  · refine .inr ?_
    simp only [KernelImage.segmentArea]
    omega
  · -- the area ends on the first page boundary behind the segment, and the chunk is aligned
    refine .inl ?_
    rw [areaEnd]
    have bound : (kernelArchGetSegment image seg).2 ≤ region.chunk.base + kernelVmOffset := by omega
    have whole : platformPageSize ∣ region.chunk.base + kernelVmOffset :=
      Nat.dvd_add aligned (by decide)
    exact (roundedUp_div _ (show 0 < platformPageSize by decide)).least _ whole bound

/-- Every zone lies in one of the regions, its record behind its allocator. -/
theorem ZonesOver.zone_placed (covering : ZonesOver image records regions kernel)
    (outside : ∀ region ∈ regions, region.Outside image) {zone : MmZone}
    (member : zone ∈ kernel.1) : ∃ region ∈ regions, region.start ≤ zone.start ∧
      zone.start + zone.length ≤ region.stop ∧ platformPageSize ≤ zone.length ∧
      zone.infoAddress = zone.start + kernelVmOffset + 36 := by
  have ready := (MmSystem.holds_of_reachable covering.reachable).ready
  have sound := ready.sound zone member
  have isChunk : (⟨zone.start, zone.length⟩ : ZoneChunk) ∈ regions.map MemRegion.chunk :=
    covering.chunks ▸ List.mem_map_of_mem member
  obtain ⟨region, isRegion, chunkEq⟩ := List.mem_map.mp isChunk
  obtain ⟨above, below, -⟩ := MemRegion.chunk_bounds (outside region isRegion).long
  rw [chunkEq] at above below
  refine ⟨region, isRegion, above, below, Nat.le_of_dvd ?_ sound.lengthAligned, ?_⟩
  · have some_ := sound.tracks.manages.positive
    unfold MmZone.count platformPageSize at some_
    omega
  · rw [MmZone.infoAddress, ready.placed zone member, covering.offset]
    rfl

/-- The areas are those of the zones and those of the segments. -/
theorem ZonesOver.area_cases (covering : ZonesOver image records regions kernel) {area : Nat}
    (member : area ∈ kernel.2.sortedAreas) : (∃ zone ∈ kernel.1, zone.infoAddress = area) ∨
      ∃ seg, records.kernelbinAreas seg = area := by
  rw [covering.listed.mem_iff, List.mem_append, List.mem_map, List.mem_map] at member
  exact member.imp_right fun ⟨seg, _, same⟩ => ⟨seg, same⟩

theorem ZonesOver.zone_apart (covering : ZonesOver image records regions kernel)
    (others : ∀ other ∈ regions, other.Outside image) (outside : region.Outside image)
    (apart : ∀ other ∈ regions, region.Apart other) {zone : MmZone} (member : zone ∈ kernel.1) :
    zone.start + zone.length ≤ region.chunk.base ∨
      region.chunk.base + region.chunk.len ≤ zone.start := by
  obtain ⟨above, below, -⟩ := MemRegion.chunk_bounds outside.long
  obtain ⟨other, isOther, from_, upTo, -⟩ := covering.zone_placed others member
  rcases apart other isOther with before | after
  · exact .inr (by omega)
  · exact .inl (by omega)

/-- A further zone goes where nothing is, and neither is its record in use. -/
theorem ZonesOver.placeable (covering : ZonesOver image records regions kernel)
    (others : ∀ other ∈ regions, other.Outside image) (outside : region.Outside image)
    (apart : ∀ other ∈ regions, region.Apart other) (positive : 0 < region.chunk.len) :
    kernel.2.Placeable records.tmpArea (region.chunk.base + kernel.2.offset) region.chunk.len := by
  obtain ⟨above, below, -, whole, -⟩ := MemRegion.chunk_bounds outside.long
  obtain ⟨first, behind, last⟩ := image_high image
  have onePage : platformPageSize ≤ region.chunk.len := Nat.le_of_dvd positive whole
  have info : region.chunk.base + kernel.2.offset + sizeofLinearAlloc + infoAreaOffset =
      region.chunk.base + kernelVmOffset + 36 := by
    rw [covering.offset]
    rfl
  have notImage : ∀ addr, image.bssStart ≤ addr → addr < image.bssEnd →
      region.chunk.base + kernelVmOffset + 36 ≠ addr := by
    intro addr fromStart upTo
    have imageApart := outside.apart
    unfold platformPageSize at onePage
    omega
  have tmpNotZone : ∀ zone ∈ kernel.1, zone.infoAddress ≠ records.tmpArea := by
    intro zone isZone
    obtain ⟨other, isOther, from_, upTo, room, placed⟩ := covering.zone_placed others isZone
    have imageApart := (others other isOther).apart
    obtain ⟨tmpAbove, tmpBelow⟩ := records.tmpInside
    unfold platformPageSize at room
    omega
  refine ⟨?_, fun member => ?_, fun member => ?_, ?_, fun other member => ?_⟩
  · have tmp := records.tmpInside.1
    omega
  · rcases covering.area_cases member with ⟨zone, isZone, same⟩ | ⟨seg, same⟩
    · exact tmpNotZone zone isZone same
    · exact records.apart seg same
  · rw [info] at member
    rcases covering.area_cases member with ⟨zone, isZone, same⟩ | ⟨seg, same⟩
    · obtain ⟨other, -, -, -, room, placed⟩ := covering.zone_placed others isZone
      have disjoint := covering.zone_apart others outside apart isZone
      unfold platformPageSize at onePage room
      omega
    · exact notImage _ (records.inside seg).1 (records.inside seg).2 same.symm
  · rw [info]
    exact notImage _ records.tmpInside.1 records.tmpInside.2
  · rw [covering.offset]
    rcases covering.area_cases member with ⟨zone, isZone, rfl⟩ | ⟨seg, rfl⟩
    · obtain ⟨base, length, -⟩ := covering.within zone isZone
      have disjoint := covering.zone_apart others outside apart isZone
      rw [covering.infos zone isZone]
      simp only [VmArea.Disjoint, VmArea.Before, base]
      omega
    · rw [covering.segments seg]
      exact segmentArea_chunk outside seg

/-- A region with a whole page in high memory gets its zone. -/
theorem ZonesOver.add (covering : ZonesOver image records regions kernel) (stale : StaleMemory)
    (others : ∀ other ∈ regions, other.Outside image) (outside : region.Outside image)
    (apart : ∀ other ∈ regions, region.Apart other) (zoned : region.Zoned)
    (enough : 2 * (kernel.2.sortedAreas.length + 1) < rounds) :
    ∃ next, registerZone rounds stale records.tmpArea kernel (Resources.regionData region) =
        .ok next ∧ ZonesOver image records (region :: regions) next := by
  obtain ⟨above, below, aligned, whole, ends⟩ := MemRegion.chunk_bounds outside.long
  have positive := (MemRegion.chunk_len_pos_iff outside.long).mpr zoned.1
  have placeable := covering.placeable others outside apart positive
  obtain ⟨pages, isPages⟩ := whole
  rw [Nat.mul_comm] at isPages
  obtain ⟨zones, space⟩ := kernel
  obtain ⟨tree, synced⟩ := covering.synced
  have offset : space.offset = kernelVmOffset := covering.offset
  have somePages : 0 < pages := Nat.pos_of_ne_zero fun none => by
    rw [isPages, none, Nat.zero_mul] at positive
    exact Nat.lt_irrefl 0 positive
  have inside : region.chunk.base + space.offset + pages * platformPageSize < addressSpace := by
    have high := zoned.2
    rw [offset, ← isPages]
    omega
  rw [isPages] at placeable
  obtain ⟨zone, next, allocs, created, bookkept, gains, info⟩ :=
    mmZoneCreate_gains (stale.words region.chunk.base) (stale.pages region.chunk.base) zones
      somePages aligned (offset ▸ by decide) synced placeable enough
      (by rw [offset]; unfold kernelVmOffset; omega) inside
  have startInside : region.chunk.base < addressSpace := by omega
  have lengthInside : pages * platformPageSize < addressSpace := by omega
  obtain ⟨other, same, sound, start, length, address, -, -⟩ :=
    mmZoneCreate_sound startInside lengthInside created
  obtain rfl := (List.cons.inj same).1
  have registered : registerZone rounds stale records.tmpArea (zones, space)
      (Resources.regionData region) = .ok (zone :: zones, next) := by
    simp only [registerZone, registerZoneForMem, Resources.regionData,
      zoneChunk_region outside, isPages]
    exact created
  refine ⟨_, registered, ?_, gains.synced, gains.offset.trans offset, ?_, fun seg => ?_,
    fun other member => ?_, fun other member => ?_, ?_⟩
  · let action : MmCall := .zoneCreate rounds (stale.words region.chunk.base)
      (stale.pages region.chunk.base) records.tmpArea region.chunk.base (pages * platformPageSize)
    have legal : MmSystem.Legal ⟨zones, space, []⟩ action := by
      refine ⟨startInside, lengthInside, fun other member => ?_⟩
      rw [← isPages]
      exact (covering.zone_apart others outside apart member).symm
    have called : MmSystem.call ⟨zones, space, []⟩ action = .ok ⟨zone :: zones, next, []⟩ := by
      simp only [MmSystem.call, action, created, Outcome.ok_bind]
    exact covering.reachable.step ⟨legal, called⟩
  · exact gains.listed.trans (covering.listed.cons _)
  · rw [gains.others _ (covering.listed.mem_iff.mpr (List.mem_append_right _
      (List.mem_map_of_mem (by cases seg <;> decide))))]
    exact covering.segments seg
  · rcases List.mem_cons.mp member with rfl | member
    · exact gains.record
    · have present : other.infoAddress ∈ space.sortedAreas :=
        covering.listed.mem_iff.mpr (List.mem_append_left _ (List.mem_map_of_mem member))
      rw [gains.others _ present]
      exact covering.infos other member
  · rcases List.mem_cons.mp member with rfl | member
    · have room := zoneSpace_le somePages lengthInside
      rw [info, start, length, offset, alignRoundup_page (by
        unfold platformPageSize at lengthInside room
        unfold addressSpace at *
        omega)]
      refine ⟨rfl, ?_, Nat.dvd_mul_left ..⟩
      unfold platformPageSize at *
      dsimp only
      omega
    · exact covering.within other member
  · have isChunk : (⟨zone.start, zone.length⟩ : ZoneChunk) = region.chunk := by
      rw [start, length, ← isPages]
    rw [List.map_cons, List.map_cons, isChunk]
    exact congrArg _ covering.chunks

/-- No other region gets a zone. -/
theorem registerZone_zoned {tmpArea : Nat} (outside : region.Outside image)
    (offset : kernel.2.offset = kernelVmOffset)
    (registered : registerZone rounds stale tmpArea kernel (Resources.regionData region) =
      .ok next) : region.Zoned := by
  obtain ⟨above, below, -, -, ends⟩ := MemRegion.chunk_bounds outside.long
  have word := outside.word
  simp only [registerZone, registerZoneForMem, Resources.regionData,
    zoneChunk_region outside] at registered
  have positive := mmZoneCreate_positive registered
  have inside := mmZoneCreate_inside (by omega) (by omega) registered
  rw [offset] at inside
  exact ⟨(MemRegion.chunk_len_pos_iff outside.long).mp positive, by omega⟩

/-- The regions get their zones exactly if each of them can have one. -/
theorem ZonesOver.registerZones (covering : ZonesOver image records regions kernel)
    (stale : StaleMemory)
    (others : ∀ other ∈ regions, other.Outside image) {rest : List MemRegion}
    (outside : ∀ region ∈ rest, region.Outside image) (pairwise : rest.Pairwise MemRegion.Apart)
    (apart : ∀ region ∈ rest, ∀ other ∈ regions, region.Apart other)
    (enough : 2 * (regions.length + rest.length + 5) < rounds) :
    ((∃ next, (rest.map Resources.regionData).foldlM (registerZone rounds stale records.tmpArea)
        kernel = .ok next) ↔ ∀ region ∈ rest, region.Zoned) ∧
      ∀ next, (rest.map Resources.regionData).foldlM (registerZone rounds stale records.tmpArea)
        kernel = .ok next → ZonesOver image records (rest.reverse ++ regions) next := by
  induction rest generalizing regions kernel with
  | nil =>
      refine ⟨iff_of_true ⟨kernel, rfl⟩ nofun, fun next returned => ?_⟩
      cases returned
      exact covering
  | cons region rest inductionHypothesis =>
      obtain ⟨first, pairwise⟩ := List.pairwise_cons.mp pairwise
      have outsideRegion := outside region List.mem_cons_self
      have size : kernel.2.sortedAreas.length = regions.length + 4 := by
        have chunks := congrArg List.length covering.chunks
        rw [List.length_map, List.length_map] at chunks
        rw [covering.listed.length_eq, List.length_append, List.length_map, List.length_map, chunks]
        rfl
      rw [List.length_cons] at enough
      rw [List.map_cons, List.foldlM_cons]
      by_cases zoned : region.Zoned
      · obtain ⟨after, registered, coveringAfter⟩ := covering.add stale others outsideRegion
          (apart region List.mem_cons_self) zoned (show _ < rounds by omega)
        obtain ⟨returns, holds⟩ := inductionHypothesis coveringAfter
          (List.forall_mem_cons.mpr ⟨outsideRegion, others⟩)
          (fun other member => outside other (List.mem_cons_of_mem _ member)) pairwise
          (fun other member => List.forall_mem_cons.mpr
            ⟨(first other member).symm, apart other (List.mem_cons_of_mem _ member)⟩)
          (by rw [List.length_cons]; omega)
        rw [registered, Outcome.ok_bind, returns, List.forall_mem_cons, and_iff_right zoned,
          List.reverse_cons, List.append_assoc]
        exact ⟨Iff.rfl, holds⟩
      · have fails : ∀ next, ((registerZone rounds stale records.tmpArea kernel
            (Resources.regionData region)) >>= fun kernel => (rest.map Resources.regionData).foldlM
              (registerZone rounds stale records.tmpArea) kernel) ≠ .ok next := by
          intro next returned
          obtain ⟨after, registered, -⟩ := Outcome.bind_eq_ok.mp returned
          exact zoned (registerZone_zoned outsideRegion covering.offset registered)
        exact ⟨iff_of_false (fun ⟨next, returned⟩ => fails next returned)
            fun all => zoned (all region List.mem_cons_self),
          fun next returned => absurd returned (fails next)⟩

end Zones

end Yaeos
