import Yaeos.I686.EarlyPaging
import Yaeos.Mm.Addr
import Yaeos.VmSpace.NewArea

/-!
# The kernel's own areas (`kernel/kernel.c`)

`init_kernel_vmspace` puts an area over every segment of the kernel.  The areas end on page
boundaries, and the next segment starts behind them, so that no assertion of the comparison
fails.
-/

namespace Yaeos

/-- The values of `enum kernel_segments`, from 0 on. -/
def kernelSegments : List KernelSegment := [.text, .rodata, .data, .bss]

/-- One round of the loop; the record of the area is an element of `KERNELBIN_AREAS`. -/
def initKernelArea (image : KernelImage) (kernelbinAreas : KernelSegment → Nat) (rounds : Nat)
    (space : VmSpace) (seg : KernelSegment) : Outcome VmSpace := do
  let bounds := kernelArchGetSegment image seg
  let end_ := alignRoundup bounds.2 platformPageSize
  let len := wrapSub end_ bounds.1
  kassert (checkAlign bounds.1 platformPageSize)
  kassert (checkAlign len platformPageSize)
  let space ← vmAreaInit space (kernelbinAreas seg) bounds.1 len
  vmSpaceInsertArea rounds space (kernelbinAreas seg)

/-- `space` is what the memory of `CURRENT_KERNEL` holds before. -/
def initKernelVmspace (image : KernelImage) (kernelbinAreas : KernelSegment → Nat) (rounds : Nat)
    (addr : AddrOffset) (space : VmSpace) : Outcome VmSpace := do
  let offset ← addrGetOffset addr
  kernelSegments.foldlM (initKernelArea image kernelbinAreas rounds) (vmSpaceInit space offset)

/-- Where the records of areas lie before there is a heap: those of the kernel's segments and
the one on the boot stack are objects of their own in the last segment. -/
structure BootRecords (image : KernelImage) where
  kernelbinAreas : KernelSegment → Nat
  tmpArea : Nat
  inside : ∀ seg, image.bssStart ≤ kernelbinAreas seg ∧ kernelbinAreas seg < image.bssEnd
  tmpInside : image.bssStart ≤ tmpArea ∧ tmpArea < image.bssEnd
  injective : Function.Injective kernelbinAreas
  apart : ∀ seg, kernelbinAreas seg ≠ tmpArea

namespace KernelImage

/-- Every segment holds something. -/
def Filled (image : KernelImage) : Prop :=
  ∀ seg, (kernelArchGetSegment image seg).1 < (kernelArchGetSegment image seg).2

/-- The area of a segment. -/
def segmentArea (image : KernelImage) (seg : KernelSegment) : VmArea where
  base := (kernelArchGetSegment image seg).1
  length := ((kernelArchGetSegment image seg).2 + 4095) / platformPageSize * platformPageSize -
    (kernelArchGetSegment image seg).1

variable {image : KernelImage}

/-- An area ends on the first page boundary that its segment does not go over. -/
theorem segmentArea_end (image : KernelImage) (seg : KernelSegment) :
    (image.segmentArea seg).base + (image.segmentArea seg).length =
        ((kernelArchGetSegment image seg).2 + 4095) / platformPageSize * platformPageSize ∧
      (kernelArchGetSegment image seg).2 ≤
        (image.segmentArea seg).base + (image.segmentArea seg).length ∧
      (image.segmentArea seg).base + (image.segmentArea seg).length < addressSpace := by
  obtain ⟨-, ordered, last, -⟩ := image.segment_bounds seg
  have fits := image.bss_fits
  unfold segmentArea platformPageSize addressSpace at *
  dsimp only
  omega

theorem segmentArea_paged (image : KernelImage) (seg : KernelSegment) :
    platformPageSize ∣ (image.segmentArea seg).base ∧
      platformPageSize ∣ (image.segmentArea seg).length := by
  obtain ⟨-, -, -, aligned⟩ := image.segment_bounds seg
  exact ⟨aligned, Nat.dvd_sub (Nat.dvd_mul_left ..) aligned⟩

theorem segmentArea_proper (filled : image.Filled) (seg : KernelSegment) :
    (image.segmentArea seg).Proper := by
  obtain ⟨-, upTo, inside⟩ := image.segmentArea_end seg
  have nonempty := filled seg
  have start : (image.segmentArea seg).base = (kernelArchGetSegment image seg).1 := rfl
  exact ⟨by omega, Nat.le_of_lt inside⟩

/-- The areas of two segments have no page in common. -/
theorem segmentArea_disjoint (image : KernelImage) {first second : KernelSegment}
    (differ : first ≠ second) :
    (image.segmentArea first).Disjoint (image.segmentArea second) := by
  have rodata := image.rodata_start
  have data := image.data_start
  have bss := image.bss_start
  obtain ⟨rodataPage, rodataAligned⟩ := rodata.aligned
  obtain ⟨dataPage, dataAligned⟩ := data.aligned
  obtain ⟨bssPage, bssAligned⟩ := bss.aligned
  have text := image.text_le
  have rodataEnd := image.rodata_le
  have dataEnd := image.data_le
  have rodataGe := rodata.ge
  have dataGe := data.ge
  have bssGe := bss.ge
  obtain ⟨firstEnd, -⟩ := image.segmentArea_end first
  obtain ⟨secondEnd, -⟩ := image.segmentArea_end second
  simp only [VmArea.Disjoint, VmArea.Before, firstEnd, secondEnd]
  cases first <;> cases second <;> try exact absurd rfl differ
  all_goals
    simp only [segmentArea, kernelArchGetSegment]
    unfold platformPageSize at *
    omega

/-- The space holds the areas of these segments. -/
structure Segments (image : KernelImage) (records : BootRecords image) (segs : List KernelSegment)
    (space : VmSpace) : Prop where
  synced : ∃ tree, space.Synced tree
  offset : space.offset = kernelVmOffset
  listed : space.sortedAreas.Perm (segs.map records.kernelbinAreas)
  areas : ∀ seg ∈ segs, space.areas (records.kernelbinAreas seg) = image.segmentArea seg

variable {records : BootRecords image} {segs : List KernelSegment} {space : VmSpace} {rounds : Nat}

/-- The area of one more segment is inserted. -/
theorem Segments.add (held : image.Segments records segs space) (filled : image.Filled)
    (seg : KernelSegment) (new : seg ∉ segs) {rounds : Nat} (enough : 2 * segs.length < rounds) :
    ∃ next, initKernelArea image records.kernelbinAreas rounds space seg = .ok next ∧
      image.Segments records (seg :: segs) next := by
  obtain ⟨⟨tree, synced⟩, offset, listed, areas⟩ := held
  obtain ⟨start, ordered, last, -⟩ := image.segment_bounds seg
  obtain ⟨aligned, whole⟩ := image.segmentArea_paged seg
  obtain ⟨ends, upTo, inside⟩ := image.segmentArea_end seg
  have fits := image.bss_fits
  have proper := segmentArea_proper filled seg
  have isBase : (image.segmentArea seg).base = (kernelArchGetSegment image seg).1 := rfl
  have named : records.kernelbinAreas seg ≠ 0 := by
    have placed := (records.inside seg).1
    have first := (image.segment_bounds .bss).1
    simp only [kernelArchGetSegment] at first
    omega
  have size : tree.inorder.length = segs.length := by
    rw [← synced.sorted, listed.length_eq, List.length_map]
  have fresh : records.kernelbinAreas seg ∉ space.sortedAreas := by
    rw [listed.mem_iff, List.mem_map_of_injective records.injective]
    exact new
  have among : ∀ area ∈ space.sortedAreas, ∃ other ∈ segs, records.kernelbinAreas other = area ∧
      space.areas area = image.segmentArea other := by
    intro area member
    obtain ⟨other, isOther, rfl⟩ := List.mem_map.mp (listed.mem_iff.mp member)
    exact ⟨other, isOther, rfl, areas other isOther⟩
  have apart : ∀ area ∈ space.sortedAreas, (space.areas area).Disjoint (image.segmentArea seg) := by
    intro area member
    obtain ⟨other, isOther, -, recorded⟩ := among area member
    rw [recorded]
    exact image.segmentArea_disjoint fun same => new (same ▸ isOther)
  have baseChecked := (checkAlign_page (show (image.segmentArea seg).base < addressSpace by
    omega)).mpr aligned
  have lengthChecked := (checkAlign_page (show (image.segmentArea seg).length < addressSpace by
    omega)).mpr whole
  obtain ⟨prepared, next, result, initialised, inserted, syncedNext, present, records', keeps⟩ :=
    synced.place (image.segmentArea seg) named fresh baseChecked lengthChecked proper
      (by rw [offset, isBase]; unfold kernelVmOffset; omega) apart
      (show 2 * tree.inorder.length < rounds by omega)
  have length : wrapSub (alignRoundup (kernelArchGetSegment image seg).2 platformPageSize)
      (kernelArchGetSegment image seg).1 = (image.segmentArea seg).length := by
    rw [alignRoundup_page (by unfold platformPageSize at fits; omega), ← ends,
      wrapSub_of_le (by omega) inside, isBase]
    omega
  refine ⟨next, ?_, ⟨result, syncedNext⟩, keeps.trans offset, ?_, fun other member => ?_⟩
  · rw [isBase] at baseChecked initialised
    simp only [initKernelArea, length, kassert_ok baseChecked, kassert_ok lengthChecked,
      Outcome.ok_bind, initialised]
    exact inserted
  · rw [List.map_cons]
    exact present.trans (listed.cons _)
  · rw [records']
    rcases List.mem_cons.mp member with rfl | member
    · exact Function.update_self ..
    · have differs : other ≠ seg := fun same => new (same ▸ member)
      rw [Function.update_of_ne (records.injective.ne differs)]
      exact areas other member

/-- The kernel's address space gets one area over each segment. -/
theorem initKernelVmspace_ok (records : BootRecords image) (filled : image.Filled)
    (memory : VmSpace) (enough : 6 < rounds) :
    ∃ space, initKernelVmspace image records.kernelbinAreas rounds ⟨true, kernelVmOffset⟩ memory =
        .ok space ∧ image.Segments records kernelSegments.reverse space := by
  have empty : image.Segments records [] (vmSpaceInit memory kernelVmOffset) :=
    ⟨⟨.nil, VmSpace.synced_init memory kernelVmOffset⟩, rfl, .refl _, nofun⟩
  obtain ⟨text, initText, holdsText⟩ :=
    empty.add filled .text nofun (show 0 < rounds by omega)
  obtain ⟨rodata, initRodata, holdsRodata⟩ :=
    holdsText.add filled .rodata (by decide) (show 2 < rounds by omega)
  obtain ⟨data, initData, holdsData⟩ :=
    holdsRodata.add filled .data (by decide) (show 4 < rounds by omega)
  obtain ⟨bss, initBss, holdsBss⟩ :=
    holdsData.add filled .bss (by decide) (show 6 < rounds by omega)
  refine ⟨bss, ?_, holdsBss⟩
  simp only [initKernelVmspace, addrGetOffset, kassert_true, Outcome.ok_bind, kernelSegments,
    List.foldlM_cons, List.foldlM_nil, initText, initRodata, initData, initBss,
    Outcome.pure_eq_ok]

end KernelImage

end Yaeos
