import Yaeos.I686.Rights
import Yaeos.Machine.Loop

/-!
# Paging while booting (`arch/i686/early_paging.c`)

Before paging is on, the kernel runs at low addresses and writes its first directory and its
first table directly.  The table is entered for the low and for the high addresses; once the
kernel runs at high addresses, the low ones are taken back.
-/

namespace Yaeos

/-- `KERNEL_VM_OFFSET`. -/
def kernelVmOffset : Nat := 0xC0000000

/-- `TO_LOW`. -/
def toLow (addr : Nat) : Nat := wrapSub addr kernelVmOffset

/-- `TO_HIGH`. -/
def toHigh (addr : Nat) : Nat := wrap (addr + kernelVmOffset)

/-- `enum kernel_segments`. -/
inductive KernelSegment where
  | text | rodata | data | bss
  deriving DecidableEq, Repr

/-- The kernel as it is linked: every segment starts on the next page behind the one before,
and `boot.asm` puts a directory and a table into the last one.  Addresses do not overflow. -/
structure KernelImage where
  textStart : Nat
  textEnd : Nat
  rodataStart : Nat
  rodataEnd : Nat
  dataStart : Nat
  dataEnd : Nat
  bssStart : Nat
  bssEnd : Nat
  bootPagingPd : Nat
  bootPagingPt : Nat
  textStart_eq : textStart = 0xC0100000
  text_le : textStart ≤ textEnd
  rodata_start : RoundedUp textEnd platformPageSize rodataStart
  rodata_le : rodataStart ≤ rodataEnd
  data_start : RoundedUp rodataEnd platformPageSize dataStart
  data_le : dataStart ≤ dataEnd
  bss_start : RoundedUp dataEnd platformPageSize bssStart
  bss_le : bssStart ≤ bootPagingPd
  pd_page : platformPageSize ∣ bootPagingPd
  pt_eq : bootPagingPt = bootPagingPd + platformPageSize
  pt_le : bootPagingPt + platformPageSize ≤ bssEnd
  bss_fits : bssEnd + platformPageSize ≤ addressSpace

/-- `kernel_arch_get_segment`. -/
def kernelArchGetSegment (image : KernelImage) : KernelSegment → Nat × Nat
  | .text => (image.textStart, image.textEnd)
  | .rodata => (image.rodataStart, image.rodataEnd)
  | .data => (image.dataStart, image.dataEnd)
  | .bss => (image.bssStart, image.bssEnd)

/-- One round of the loop of `map_addr_range`. -/
def mapBootPage (pageDir flags : Nat) (frames : I686VmFrames) (page : Nat) :
    Outcome I686VmFrames := do
  let highPage := toHigh page
  let pde := frames pageDir (i686VmGetPge .dir highPage)
  let pt ← i686VmPgeGetAddr pde
  let pteNdx := i686VmGetPge .table highPage
  let pte := i686VmPgeSetAddr (frames (pt >>> 12) pteNdx) page
  .ok (I686VmFrames.set frames (pt >>> 12) pteNdx { pte with isPresent := true, flags := flags })

/-- The pages of a range, one after the other. -/
def mapAddrRange (frames : I686VmFrames) (pageDir start end_ flags : Nat) :
    Outcome I686VmFrames :=
  let page := alignRounddown start platformPageSize
  let uptoPage := alignRoundup end_ platformPageSize
  (List.range ((uptoPage - page) / platformPageSize)).foldlM (fun frames round =>
    mapBootPage pageDir flags frames (page + platformPageSize * round)) frames

def mapSegment (image : KernelImage) (seg : KernelSegment) (pdir flags : Nat)
    (frames : I686VmFrames) : Outcome I686VmFrames :=
  let bounds := kernelArchGetSegment image seg
  mapAddrRange frames pdir (toLow bounds.1) (toLow bounds.2) flags

def mapKernel (image : KernelImage) (frames : I686VmFrames) (pageDir : Nat) :
    Outcome I686VmFrames := do
  let frames ← mapSegment image .text pageDir 0 frames
  let frames ← mapSegment image .data pageDir i686VmFlagRw frames
  let frames ← mapSegment image .rodata pageDir 0 frames
  mapSegment image .bss pageDir i686VmFlagRw frames

/-- The low megabyte. -/
def mapPlatform (frames : I686VmFrames) (pageDir : Nat) : Outcome I686VmFrames :=
  mapAddrRange frames pageDir 0 (1 * 1024 * 1024) i686VmFlagRw

namespace KernelImage

/-- The frame of the directory. -/
def pd (image : KernelImage) : Nat := toLow image.bootPagingPd >>> 12

/-- The frame of the table. -/
def pt (image : KernelImage) : Nat := toLow image.bootPagingPt >>> 12

end KernelImage

/-- `setup_boot_paging` up to `i686_vm_paging_enable`. -/
def bootPagingTables (image : KernelImage) (frames : I686VmFrames) : Outcome I686VmFrames := do
  let pd := image.pd
  let frames ← i686VmSetupRecursiveMapping frames pd (toLow image.bootPagingPd)
  let pdeLowNdx := i686VmGetPge .dir 0x0
  let pdeLow := i686VmPgeSetAddr { frames pd pdeLowNdx with isPresent := true }
    (toLow image.bootPagingPt)
  let pdeLow := { pdeLow with flags := i686VmFlagRw }
  let frames := I686VmFrames.set frames pd pdeLowNdx pdeLow
  let frames := I686VmFrames.set frames pd (i686VmGetPge .dir kernelVmOffset) pdeLow
  let frames ← mapKernel image frames pd
  mapPlatform frames pd

/-- The end of `setup_boot_paging`. -/
def undoIdentityMapping (image : KernelImage) (frames : I686VmFrames) : I686VmFrames :=
  I686VmFrames.set frames image.pd (i686VmGetPge .dir 0x0)
    { frames image.pd (i686VmGetPge .dir 0x0) with isPresent := false }

def setupBootPaging (image : KernelImage) (frames : I686VmFrames) : Outcome I686VmFrames := do
  let frames ← bootPagingTables image frames
  .ok (undoIdentityMapping image frames)

/-! ## A range of pages -/

/-- The entry of the first table for the high addresses. -/
def highNdx : Nat := getPdeNdx kernelVmOffset

/-- Some entries of a table lead to the frames of their own numbers. -/
def mapEntries (frames : I686VmFrames) (table flags first last : Nat) : I686VmFrames :=
  fun frame ndx => if frame = table ∧ first ≤ ndx ∧ ndx < last then
    { isPresent := true, flags := flags, paddr := ndx } else frames frame ndx

/-- A directory whose high addresses have one table, outside of the directory. -/
structure FirstTable (frames : I686VmFrames) (pageDir table : Nat) : Prop where
  present : (frames pageDir highNdx).isPresent = true
  leads : (frames pageDir highNdx).paddr = table
  apart : pageDir ≠ table
  absent : ∀ ndx, highNdx < ndx → ndx < recursiveNdx → (frames pageDir ndx).isPresent = false

section Ranges

variable {frames : I686VmFrames} {pageDir table flags : Nat}

theorem toHigh_page {ndx : Nat} (inside : ndx < 262144) :
    getPdeNdx (toHigh (platformPageSize * ndx)) = 768 + ndx / 1024 ∧
      getPteNdx (toHigh (platformPageSize * ndx)) = ndx % 1024 := by
  have noWrap : toHigh (platformPageSize * ndx) = platformPageSize * ndx + kernelVmOffset :=
    wrap_of_lt (by unfold platformPageSize kernelVmOffset addressSpace; omega)
  rw [noWrap, getPdeNdx_eq, getPteNdx_eq]
  unfold platformPageSize kernelVmOffset
  omega

theorem mapBootPage_ok (present : (frames pageDir highNdx).isPresent = true)
    (leads : (frames pageDir highNdx).paddr = table) {ndx : Nat} (inside : ndx < 1024) :
    mapBootPage pageDir flags frames (platformPageSize * ndx) = .ok (I686VmFrames.set frames table
      ndx { isPresent := true, flags := flags, paddr := ndx }) := by
  obtain ⟨pde, pte⟩ := toHigh_page (show ndx < 262144 by omega)
  have isHigh : highNdx = 768 := by decide
  rw [Nat.div_eq_of_lt inside, Nat.add_zero, ← isHigh] at pde
  rw [Nat.mod_eq_of_lt inside] at pte
  have ownFrame : (platformPageSize * ndx) >>> 12 = ndx := by
    rw [Nat.shiftRight_eq_div_pow]
    exact Nat.mul_div_cancel_left ndx (show 0 < 2 ^ 12 by decide)
  simp only [mapBootPage, i686VmGetPge, pde, pte, i686VmPgeGetAddr_ok present, Outcome.ok_bind,
    Nat.shiftLeft_shiftRight, leads, i686VmPgeSetAddr, ownFrame]

theorem mapBootPage_error {ndx : Nat} (inside : ndx < 262144)
    (absent : (frames pageDir (768 + ndx / 1024)).isPresent = false) :
    mapBootPage pageDir flags frames (platformPageSize * ndx) = .error .kassert := by
  have missing : i686VmPgeGetAddr (frames pageDir (768 + ndx / 1024)) = .error .kassert := by
    rw [i686VmPgeGetAddr, kassert_error (by rw [absent]; decide), Outcome.error_bind]
  simp only [mapBootPage, i686VmGetPge, (toHigh_page inside).1, missing, Outcome.error_bind]

@[simp]
theorem mapEntries_empty (frames : I686VmFrames) (table flags ndx : Nat) :
    mapEntries frames table flags ndx ndx = frames := by
  funext frame other
  exact if_neg fun inside => by omega

/-- One more entry. -/
theorem mapEntries_succ {first last : Nat} (ordered : first ≤ last) :
    (mapEntries frames table flags first last).set table last
        { isPresent := true, flags := flags, paddr := last } =
      mapEntries frames table flags first (last + 1) := by
  funext frame ndx
  rw [I686VmFrames.set_apply]
  unfold mapEntries
  by_cases same : frame = table ∧ ndx = last
  · obtain ⟨rfl, rfl⟩ := same
    rw [if_pos ⟨rfl, rfl⟩, if_pos ⟨rfl, ordered, Nat.lt_succ_self _⟩]
  · rw [if_neg same]
    refine if_congr ?_ rfl rfl
    constructor
    · exact fun ⟨isTable, above, below⟩ => ⟨isTable, above, by omega⟩
    · exact fun ⟨isTable, above, below⟩ => ⟨isTable, above, by
        have : ndx ≠ last := fun equal => same ⟨isTable, equal⟩
        omega⟩

/-- Other frames than the table are not touched. -/
theorem mapEntries_other (frames : I686VmFrames) (flags first last : Nat) {frame : Nat}
    (apart : frame ≠ table) : mapEntries frames table flags first last frame = frames frame := by
  funext ndx
  exact if_neg fun inside => apart inside.1

theorem FirstTable.mapEntries (ready : FirstTable frames pageDir table) (flags first last : Nat) :
    FirstTable (mapEntries frames table flags first last) pageDir table := by
  have kept := mapEntries_other frames flags first last ready.apart
  exact ⟨kept ▸ ready.present, kept ▸ ready.leads, ready.apart, kept ▸ ready.absent⟩

/-- The rounds of the loop as long as they stay in the table. -/
theorem FirstTable.mapRounds_ok (ready : FirstTable frames pageDir table) {first rounds : Nat}
    (inside : first + rounds ≤ 1024) :
    (List.range rounds).foldlM (fun frames round => mapBootPage pageDir flags frames
        (platformPageSize * (first + round))) frames =
      .ok (Yaeos.mapEntries frames table flags first (first + rounds)) := by
  obtain ⟨final, returned, rfl⟩ : ∃ final, (List.range rounds).foldlM (fun frames round =>
      mapBootPage pageDir flags frames (platformPageSize * (first + round))) frames = .ok final ∧
      final = Yaeos.mapEntries frames table flags first (first + rounds) := by
    refine Loop.range_ok
      (fun round state => state = Yaeos.mapEntries frames table flags first (first + round))
      (by simp) ?_
    rintro round below _ rfl
    have kept := ready.mapEntries flags first (first + round)
    exact ⟨_, mapBootPage_ok kept.present kept.leads (by omega), mapEntries_succ (by omega)⟩
  exact returned

/-- The first page and the number of rounds of a range. -/
theorem mapAddrRange_eq (frames : I686VmFrames) (pageDir flags : Nat) {start end_ : Nat}
    (ordered : start ≤ end_) (fits : end_ + platformPageSize ≤ addressSpace) :
    mapAddrRange frames pageDir start end_ flags =
      (List.range ((end_ + 4095) / platformPageSize - start / platformPageSize)).foldlM
        (fun frames round => mapBootPage pageDir flags frames
          (platformPageSize * (start / platformPageSize + round))) frames := by
  unfold platformPageSize at fits
  have down : alignRounddown start platformPageSize = start / platformPageSize * platformPageSize :=
    alignRounddown_page (by omega)
  have up : alignRoundup end_ platformPageSize =
      (end_ + 4095) / platformPageSize * platformPageSize := alignRoundup_page (by omega)
  have rounds : ((end_ + 4095) / platformPageSize * platformPageSize -
      start / platformPageSize * platformPageSize) / platformPageSize =
      (end_ + 4095) / platformPageSize - start / platformPageSize := by
    rw [← Nat.sub_mul]
    exact Nat.mul_div_cancel _ (by decide)
  simp only [mapAddrRange, down, up, rounds]
  simp only [Nat.mul_add, Nat.mul_comm _ platformPageSize]

/-- A range below the end of the table. -/
theorem FirstTable.mapAddrRange_ok (ready : FirstTable frames pageDir table) (flags : Nat)
    {start end_ : Nat} (ordered : start ≤ end_) (inside : end_ ≤ 1024 * platformPageSize) :
    mapAddrRange frames pageDir start end_ flags = .ok (Yaeos.mapEntries frames table flags
      (start / platformPageSize) ((end_ + 4095) / platformPageSize)) := by
  have bounds : start / platformPageSize ≤ (end_ + 4095) / platformPageSize ∧
      (end_ + 4095) / platformPageSize ≤ 1024 := by
    unfold platformPageSize at *
    omega
  rw [mapAddrRange_eq frames pageDir flags ordered
    (by unfold platformPageSize addressSpace at *; omega), ready.mapRounds_ok (by omega),
    Nat.add_sub_cancel' bounds.1]

/-- A range that leaves the table stops at the first page behind it. -/
theorem FirstTable.mapAddrRange_error (ready : FirstTable frames pageDir table) (flags : Nat)
    {start end_ : Nat} (nonempty : start < end_) (beyond : 1024 * platformPageSize < end_)
    (below : end_ + kernelVmOffset ≤ recursiveNdx <<< 22) :
    mapAddrRange frames pageDir start end_ flags = .error .kassert := by
  have isHigh : highNdx = 768 := by decide
  have window : recursiveNdx <<< 22 = 4290772992 := by decide
  rw [window] at below
  have missing : ∀ ndx, 1024 ≤ ndx → platformPageSize * ndx + kernelVmOffset < 4290772992 →
      768 + ndx / 1024 > highNdx ∧ 768 + ndx / 1024 < recursiveNdx := by
    intro ndx above inside
    rw [isHigh]
    unfold platformPageSize kernelVmOffset at inside
    unfold recursiveNdx
    omega
  rw [mapAddrRange_eq frames pageDir flags (Nat.le_of_lt nonempty)
    (by unfold platformPageSize addressSpace kernelVmOffset at *; omega)]
  unfold platformPageSize kernelVmOffset at *
  by_cases inTable : start / 4096 ≤ 1024
  · have reached : start / 4096 + (1024 - start / 4096) = 1024 := Nat.add_sub_cancel' inTable
    have atEnd : 1024 - start / 4096 < (end_ + 4095) / 4096 - start / 4096 := by omega
    refine Loop.range_error atEnd (ready.mapRounds_ok (by omega)) ?_
    rw [reached]
    obtain ⟨above, inside⟩ := missing 1024 (by omega) (by omega)
    exact mapBootPage_error (by decide) ((ready.mapEntries ..).absent _ above inside)
  · obtain ⟨above, inside⟩ := missing (start / 4096) (by omega) (by omega)
    have first : mapBootPage pageDir flags frames (4096 * (start / 4096 + 0)) = .error .kassert :=
      mapBootPage_error (by omega) (ready.absent _ above inside)
    have atStart : 0 < (end_ + 4095) / 4096 - start / 4096 := by omega
    exact Loop.range_error atStart rfl first

/-- An empty range that starts on a page has no rounds. -/
theorem mapAddrRange_empty (frames : I686VmFrames) (pageDir flags : Nat) {start : Nat}
    (aligned : platformPageSize ∣ start) (fits : start + platformPageSize ≤ addressSpace) :
    mapAddrRange frames pageDir start start flags = .ok frames := by
  have noRounds : (start + 4095) / platformPageSize - start / platformPageSize = 0 := by
    unfold platformPageSize at *
    omega
  rw [mapAddrRange_eq frames pageDir flags (Nat.le_refl _) fits, noRounds]
  rfl

/-- In every case the directory is not touched. -/
theorem FirstTable.mapAddrRange_cases (ready : FirstTable frames pageDir table) (flags : Nat)
    {start end_ : Nat} (ordered : start ≤ end_) (aligned : platformPageSize ∣ start)
    (below : end_ + kernelVmOffset ≤ recursiveNdx <<< 22) :
    (∃ next, mapAddrRange frames pageDir start end_ flags = .ok next ∧
        FirstTable next pageDir table) ∨
      mapAddrRange frames pageDir start end_ flags = .error .kassert := by
  by_cases inside : end_ ≤ 1024 * platformPageSize
  · exact .inl ⟨_, ready.mapAddrRange_ok flags ordered inside, ready.mapEntries ..⟩
  · rcases Nat.eq_or_lt_of_le ordered with rfl | nonempty
    · refine .inl ⟨frames, mapAddrRange_empty frames pageDir flags aligned ?_, ready⟩
      have window : recursiveNdx <<< 22 = 4290772992 := by decide
      unfold platformPageSize addressSpace kernelVmOffset at *
      omega
    · exact .inr (ready.mapAddrRange_error flags nonempty (by omega) below)

end Ranges

/-! ## The image -/

theorem toLow_of_ge {addr : Nat} (high : kernelVmOffset ≤ addr) (inside : addr < addressSpace) :
    toLow addr = addr - kernelVmOffset := wrapSub_of_le high inside

namespace KernelImage

variable (image : KernelImage)

/-- Segments start on pages, behind the low megabyte, and none ends behind the last one. -/
theorem segment_bounds (seg : KernelSegment) :
    0xC0100000 ≤ (kernelArchGetSegment image seg).1 ∧
      (kernelArchGetSegment image seg).1 ≤ (kernelArchGetSegment image seg).2 ∧
      (kernelArchGetSegment image seg).2 ≤ image.bssEnd ∧
      platformPageSize ∣ (kernelArchGetSegment image seg).1 := by
  have text := image.text_le
  have rodata := image.rodata_start.ge
  have rodataEnd := image.rodata_le
  have data := image.data_start.ge
  have dataEnd := image.data_le
  have bss := image.bss_start.ge
  have pd := image.bss_le
  have pt := image.pt_eq
  have ptEnd := image.pt_le
  have first := image.textStart_eq
  cases seg with
  | text => exact ⟨by simp [kernelArchGetSegment, first], text,
      by simp only [kernelArchGetSegment]; omega,
      show platformPageSize ∣ image.textStart from first ▸ (by decide)⟩
  | rodata => exact ⟨by simp only [kernelArchGetSegment]; omega, rodataEnd,
      by simp only [kernelArchGetSegment]; omega, image.rodata_start.aligned⟩
  | data => exact ⟨by simp only [kernelArchGetSegment]; omega, dataEnd,
      by simp only [kernelArchGetSegment]; omega, image.data_start.aligned⟩
  | bss => exact ⟨by simp only [kernelArchGetSegment]; omega,
      by simp only [kernelArchGetSegment]; omega, Nat.le_refl _, image.bss_start.aligned⟩

/-- The low bounds of a segment. -/
def lowStart (seg : KernelSegment) : Nat := (kernelArchGetSegment image seg).1 - kernelVmOffset

def lowEnd (seg : KernelSegment) : Nat := (kernelArchGetSegment image seg).2 - kernelVmOffset

theorem mapSegment_eq (seg : KernelSegment) (pdir flags : Nat) (frames : I686VmFrames) :
    mapSegment image seg pdir flags frames =
      mapAddrRange frames pdir (image.lowStart seg) (image.lowEnd seg) flags := by
  obtain ⟨above, ordered, below, -⟩ := image.segment_bounds seg
  have fits := image.bss_fits
  unfold platformPageSize at fits
  have start : toLow (kernelArchGetSegment image seg).1 = image.lowStart seg :=
    toLow_of_ge (by unfold kernelVmOffset; omega) (by omega)
  have end_ : toLow (kernelArchGetSegment image seg).2 = image.lowEnd seg :=
    toLow_of_ge (by unfold kernelVmOffset; omega) (by omega)
  rw [mapSegment, start, end_]

theorem lowStart_le (seg : KernelSegment) : image.lowStart seg ≤ image.lowEnd seg :=
  Nat.sub_le_sub_right (image.segment_bounds seg).2.1 _

theorem lowEnd_le (seg : KernelSegment) : image.lowEnd seg ≤ image.bssEnd - kernelVmOffset :=
  Nat.sub_le_sub_right (image.segment_bounds seg).2.2.1 _

theorem lowStart_page (seg : KernelSegment) : platformPageSize ∣ image.lowStart seg :=
  Nat.dvd_sub (image.segment_bounds seg).2.2.2 (by decide)

/-- The pages that a segment has some part of. -/
def Covers (seg : KernelSegment) (ndx : Nat) : Prop :=
  image.lowStart seg / platformPageSize ≤ ndx ∧
    ndx < (image.lowEnd seg + 4095) / platformPageSize

instance (seg : KernelSegment) (ndx : Nat) : Decidable (image.Covers seg ndx) :=
  inferInstanceAs (Decidable (_ ∧ _))

/-- The flags a segment is mapped with. -/
def segmentFlags : KernelSegment → Nat
  | .text | .rodata => 0
  | .data | .bss => i686VmFlagRw

/-- The flags that a page of low memory is mapped with, if it is mapped: the last range that
has it counts. -/
def pageFlags (ndx : Nat) : Option Nat :=
  if ndx < 256 then some i686VmFlagRw
  else if image.Covers .bss ndx then some (segmentFlags .bss)
  else if image.Covers .rodata ndx then some (segmentFlags .rodata)
  else if image.Covers .data ndx then some (segmentFlags .data)
  else if image.Covers .text ndx then some (segmentFlags .text)
  else none

/-- No page has parts of two segments. -/
theorem Covers.unique {image : KernelImage} {first second : KernelSegment} {ndx : Nat}
    (inFirst : image.Covers first ndx) (inSecond : image.Covers second ndx) : first = second := by
  have text := image.text_le
  have rodata := image.rodata_start
  have rodataEnd := image.rodata_le
  have data := image.data_start
  have dataEnd := image.data_le
  have bss := image.bss_start
  have start := image.textStart_eq
  obtain ⟨rodataPage, rodataAligned⟩ := rodata.aligned
  obtain ⟨dataPage, dataAligned⟩ := data.aligned
  obtain ⟨bssPage, bssAligned⟩ := bss.aligned
  have rodataGe := rodata.ge
  have dataGe := data.ge
  have bssGe := bss.ge
  cases first <;> cases second <;> try rfl
  all_goals
    exfalso
    simp only [Covers, lowStart, lowEnd, kernelArchGetSegment] at inFirst inSecond
    unfold platformPageSize kernelVmOffset at *
    omega

/-- A page of a segment is mapped with the flags of the segment. -/
theorem Covers.pageFlags_eq {image : KernelImage} {seg : KernelSegment} {ndx : Nat}
    (inSegment : image.Covers seg ndx) : image.pageFlags ndx = some (segmentFlags seg) := by
  have behind : ¬ndx < 256 := by
    have above := (image.segment_bounds seg).1
    have start := inSegment.1
    unfold lowStart platformPageSize kernelVmOffset at start
    omega
  have only : ∀ other, image.Covers other ndx ↔ other = seg :=
    fun other => ⟨fun inOther => inOther.unique inSegment, fun same => same ▸ inSegment⟩
  cases seg <;> simp [pageFlags, behind, only]

/-- Nothing but the low megabyte and the segments is mapped. -/
theorem pageFlags_eq_none {ndx : Nat} (behind : 256 ≤ ndx)
    (uncovered : ∀ seg, ¬image.Covers seg ndx) : image.pageFlags ndx = none := by
  simp [pageFlags, Nat.not_lt.mpr behind, uncovered]

/-- An address of a segment is on a page of the segment. -/
theorem covers_page {seg : KernelSegment} {addr : Nat}
    (above : (kernelArchGetSegment image seg).1 ≤ addr)
    (below : addr < (kernelArchGetSegment image seg).2) :
    image.Covers seg ((addr - kernelVmOffset) / platformPageSize) := by
  have start := (image.segment_bounds seg).1
  unfold Covers lowStart lowEnd platformPageSize kernelVmOffset
  omega

end KernelImage

/-- The directory before the ranges are mapped. -/
def bootDirectory (image : KernelImage) (frames : I686VmFrames) : I686VmFrames :=
  let flags := (frames image.pd recursiveNdx).flags ||| i686VmFlagRw
  let recursive : I686VmPge := { isPresent := true, flags := flags, paddr := image.pd }
  let pdeLow : I686VmPge := { isPresent := true, flags := i686VmFlagRw, paddr := image.pt }
  ((frames.set image.pd recursiveNdx recursive).set image.pd 0 pdeLow).set image.pd highNdx pdeLow

/-- The tables when paging is enabled. -/
def bootTables (image : KernelImage) (frames : I686VmFrames) : I686VmFrames :=
  let mapRange frames seg := mapEntries frames image.pt (KernelImage.segmentFlags seg)
    (image.lowStart seg / platformPageSize) ((image.lowEnd seg + 4095) / platformPageSize)
  let kernel := mapRange (mapRange (mapRange (mapRange (bootDirectory image frames) .text)
    .data) .rodata) .bss
  mapEntries kernel image.pt i686VmFlagRw 0 256

section Tables

variable {image : KernelImage} {frames : I686VmFrames}

theorem KernelImage.pt_ndx (image : KernelImage) : image.pt = image.pd + 1 := by
  have bss := (image.segment_bounds .bss).1
  have above := image.bss_le
  have next := image.pt_eq
  have inside := image.pt_le
  have fits := image.bss_fits
  simp only [kernelArchGetSegment] at bss
  unfold platformPageSize at *
  have low : toLow image.bootPagingPd = image.bootPagingPd - kernelVmOffset :=
    toLow_of_ge (by unfold kernelVmOffset; omega) (by omega)
  have lowNext : toLow image.bootPagingPt = image.bootPagingPt - kernelVmOffset :=
    toLow_of_ge (by unfold kernelVmOffset; omega) (by omega)
  rw [pt, pd, low, lowNext, Nat.shiftRight_eq_div_pow, Nat.shiftRight_eq_div_pow, next]
  unfold kernelVmOffset
  omega

/-- The first entries of the directory: what `setup_boot_paging` does before it maps ranges. -/
theorem bootPagingTables_eq (absent : (frames image.pd recursiveNdx).isPresent = false) :
    bootPagingTables image frames = (do
      let frames ← mapKernel image (bootDirectory image frames) image.pd
      mapPlatform frames image.pd) := by
  have setup : i686VmSetupRecursiveMapping frames image.pd (toLow image.bootPagingPd) =
      .ok (frames.set image.pd recursiveNdx
        { isPresent := true, flags := (frames image.pd recursiveNdx).flags ||| i686VmFlagRw,
          paddr := image.pd }) := by
    rw [i686VmSetupRecursiveMapping, kassert_ok absent, Outcome.ok_bind, i686VmPgeSetAddr,
      KernelImage.pd]
  have lowNdx : i686VmGetPge .dir 0 = 0 := by decide
  have high : i686VmGetPge .dir kernelVmOffset = highNdx := rfl
  have table : toLow image.bootPagingPt >>> 12 = image.pt := rfl
  rw [bootPagingTables, bootDirectory]
  -- the frames stay names here: the checker would count down from a large number
  generalize image.pd = pd, image.pt = pt, toLow image.bootPagingPt = addr at *
  rw [setup, Outcome.ok_bind]
  simp only [i686VmPgeSetAddr]
  rw [lowNdx, high, table]

theorem bootDirectory_firstTable (image : KernelImage)
    (blank : ∀ ndx, (frames image.pd ndx).isPresent = false) :
    FirstTable (bootDirectory image frames) image.pd image.pt := by
  have next := image.pt_ndx
  refine ⟨by simp [bootDirectory], by simp [bootDirectory], by omega, fun ndx above below => ?_⟩
  rw [bootDirectory, I686VmFrames.set_apply, if_neg (by omega), I686VmFrames.set_apply,
    if_neg (by omega), I686VmFrames.set_apply, if_neg (by omega)]
  exact blank ndx

/-- The image ends in the first table: every range is entered. -/
theorem bootPagingTables_ok (blank : ∀ ndx, (frames image.pd ndx).isPresent = false)
    (inside : image.bssEnd ≤ kernelVmOffset + 1024 * platformPageSize) :
    bootPagingTables image frames = .ok (bootTables image frames) := by
  have ready := bootDirectory_firstTable image blank
  have lowEnd : ∀ seg, image.lowEnd seg ≤ 1024 * platformPageSize := by
    intro seg
    have bound := image.lowEnd_le seg
    omega
  rw [bootPagingTables_eq (blank _), mapKernel, image.mapSegment_eq,
    ready.mapAddrRange_ok 0 (image.lowStart_le .text) (lowEnd _), Outcome.ok_bind]
  replace ready := ready.mapEntries 0 (image.lowStart .text / platformPageSize)
    ((image.lowEnd .text + 4095) / platformPageSize)
  rw [image.mapSegment_eq, ready.mapAddrRange_ok _ (image.lowStart_le .data) (lowEnd _),
    Outcome.ok_bind]
  replace ready := ready.mapEntries i686VmFlagRw (image.lowStart .data / platformPageSize)
    ((image.lowEnd .data + 4095) / platformPageSize)
  rw [image.mapSegment_eq, ready.mapAddrRange_ok _ (image.lowStart_le .rodata) (lowEnd _),
    Outcome.ok_bind]
  replace ready := ready.mapEntries 0 (image.lowStart .rodata / platformPageSize)
    ((image.lowEnd .rodata + 4095) / platformPageSize)
  rw [image.mapSegment_eq, ready.mapAddrRange_ok _ (image.lowStart_le .bss) (lowEnd _),
    Outcome.ok_bind]
  replace ready := ready.mapEntries i686VmFlagRw (image.lowStart .bss / platformPageSize)
    ((image.lowEnd .bss + 4095) / platformPageSize)
  exact ready.mapAddrRange_ok i686VmFlagRw (by decide) (by decide)

/-- It ends behind the first table: some range leaves it. -/
theorem bootPagingTables_error (blank : ∀ ndx, (frames image.pd ndx).isPresent = false)
    (beyond : kernelVmOffset + 1024 * platformPageSize < image.bssEnd)
    (below : image.bssEnd ≤ recursiveNdx <<< 22) :
    bootPagingTables image frames = .error .kassert := by
  have ready := bootDirectory_firstTable image blank
  have high : ∀ seg, image.lowEnd seg + kernelVmOffset ≤ recursiveNdx <<< 22 := by
    intro seg
    have bound := image.lowEnd_le seg
    omega
  have nonempty : image.lowStart .bss < image.lowEnd .bss := by
    have start := (image.segment_bounds .bss).1
    have first := image.bss_le
    have next := image.pt_eq
    have last := image.pt_le
    simp only [kernelArchGetSegment] at start
    simp only [KernelImage.lowStart, KernelImage.lowEnd, kernelArchGetSegment]
    unfold platformPageSize kernelVmOffset at *
    omega
  have last : 1024 * platformPageSize < image.lowEnd .bss := by
    simp only [KernelImage.lowEnd, kernelArchGetSegment]
    omega
  rw [bootPagingTables_eq (blank _), mapKernel]
  simp only [image.mapSegment_eq]
  obtain ⟨text, mapped, ready⟩ | failed := ready.mapAddrRange_cases 0 (image.lowStart_le .text)
    (image.lowStart_page _) (high _)
  · rw [mapped, Outcome.ok_bind]
    obtain ⟨data, mapped, ready⟩ | failed := ready.mapAddrRange_cases i686VmFlagRw
      (image.lowStart_le .data) (image.lowStart_page _) (high _)
    · rw [mapped, Outcome.ok_bind]
      obtain ⟨rodata, mapped, ready⟩ | failed := ready.mapAddrRange_cases 0
        (image.lowStart_le .rodata) (image.lowStart_page _) (high _)
      · rw [mapped, Outcome.ok_bind, ready.mapAddrRange_error _ nonempty last (high _)]
        rfl
      · rw [failed]
        rfl
    · rw [failed]
      rfl
  · rw [failed]
    rfl

/-- The directory is left as it was before the ranges. -/
theorem bootTables_pd (image : KernelImage) (frames : I686VmFrames) :
    bootTables image frames image.pd = bootDirectory image frames image.pd := by
  have next := image.pt_ndx
  have apart : image.pd ≠ image.pt := by omega
  simp only [bootTables, mapEntries_other _ _ _ _ apart]

theorem bootTables_other {frame : Nat} (notDirectory : frame ≠ image.pd)
    (notTable : frame ≠ image.pt) : bootTables image frames frame = frames frame := by
  funext ndx
  simp [bootTables, mapEntries_other _ _ _ _ notTable, bootDirectory, I686VmFrames.set_apply,
    notDirectory]

/-- The first table. -/
theorem bootTables_pt (image : KernelImage) (frames : I686VmFrames) (ndx : Nat) :
    bootTables image frames image.pt ndx = (image.pageFlags ndx).elim (frames image.pt ndx)
      fun flags => { isPresent := true, flags := flags, paddr := ndx } := by
  have next := image.pt_ndx
  have old : bootDirectory image frames image.pt ndx = frames image.pt ndx := by
    simp [bootDirectory, I686VmFrames.set_apply, next]
  have segment : ∀ earlier seg, mapEntries earlier image.pt (KernelImage.segmentFlags seg)
      (image.lowStart seg / platformPageSize) ((image.lowEnd seg + 4095) / platformPageSize)
      image.pt ndx = if image.Covers seg ndx then
        { isPresent := true, flags := KernelImage.segmentFlags seg, paddr := ndx }
      else earlier image.pt ndx :=
    fun earlier seg => if_congr (by simp [KernelImage.Covers]) rfl rfl
  have platform : ∀ earlier, mapEntries earlier image.pt i686VmFlagRw 0 256 image.pt ndx =
      if ndx < 256 then { isPresent := true, flags := i686VmFlagRw, paddr := ndx }
      else earlier image.pt ndx :=
    fun earlier => if_congr (by simp) rfl rfl
  simp only [bootTables, platform, segment, old, KernelImage.pageFlags]
  split_ifs <;> rfl

/-- What the first tables translate: every segment to where the loader put it and with the
rights of the segment, the low megabyte, the first table and the directory in the recursive
window, and nothing else. -/
structure BootTranslation (image : KernelImage) (frames : I686VmFrames) : Prop where
  segment : ∀ seg addr, (kernelArchGetSegment image seg).1 ≤ addr →
    addr < (kernelArchGetSegment image seg).2 →
    walk frames image.pd addr = some ((addr - kernelVmOffset) / platformPageSize) ∧
      effectiveRights frames image.pd addr =
        { write := decide (seg = .data ∨ seg = .bss), user := false, cacheOff := false }
  lowMegabyte : ∀ low < 0x100000,
    walk frames image.pd (kernelVmOffset + low) = some (low / platformPageSize) ∧
      effectiveRights frames image.pd (kernelVmOffset + low) =
        { write := true, user := false, cacheOff := false }
  windows : ∀ vaddr, getPdeNdx vaddr = recursiveNdx → walk frames image.pd vaddr =
    if getPteNdx vaddr = highNdx then some image.pt
    else if getPteNdx vaddr = recursiveNdx then some image.pd else none
  behind : ∀ low < 1024 * platformPageSize, 0x100000 ≤ low →
    (∀ seg, ¬image.Covers seg (low / platformPageSize)) →
    walk frames image.pd (kernelVmOffset + low) = none
  elsewhere : ∀ vaddr, getPdeNdx vaddr ≠ highNdx → getPdeNdx vaddr ≠ recursiveNdx →
    walk frames image.pd vaddr = none

/-- The entries of the directory after the boot. -/
theorem undoIdentityMapping_pd (image : KernelImage)
    (blank : ∀ ndx, (frames image.pd ndx).isPresent = false) :
    let booted := undoIdentityMapping image (bootTables image frames)
    booted image.pd highNdx = { isPresent := true, flags := i686VmFlagRw, paddr := image.pt } ∧
      (booted image.pd recursiveNdx).isPresent = true ∧
      (booted image.pd recursiveNdx).paddr = image.pd ∧
      ∀ ndx, ndx ≠ highNdx → ndx ≠ recursiveNdx → (booted image.pd ndx).isPresent = false := by
  have lowNdx : i686VmGetPge .dir 0x0 = 0 := by decide
  have apart : highNdx ≠ 0 ∧ recursiveNdx ≠ 0 ∧ recursiveNdx ≠ highNdx := by decide
  simp only [undoIdentityMapping, lowNdx, I686VmFrames.set_apply, bootTables_pd, bootDirectory,
    true_and, apart, if_false, if_true]
  intro ndx notHigh notRecursive
  by_cases first : ndx = 0
  · rw [if_pos first]
  · rw [if_neg first, if_neg notHigh, if_neg first, if_neg notRecursive]
    exact blank ndx

/-- While both mappings exist, an address of the first 4 MiB and the one above it are the
same byte of memory. -/
theorem bootTables_identity (image : KernelImage) (frames : I686VmFrames) {low : Nat}
    (inside : low < 1024 * platformPageSize) :
    walk (bootTables image frames) image.pd low =
      walk (bootTables image frames) image.pd (kernelVmOffset + low) := by
  have lowPde : getPdeNdx low = 0 := by
    rw [getPdeNdx_eq]
    unfold platformPageSize at inside
    omega
  have highPde : getPdeNdx (kernelVmOffset + low) = highNdx ∧
      getPteNdx (kernelVmOffset + low) = getPteNdx low := by
    have high : highNdx = 768 := by decide
    rw [getPdeNdx_eq, getPteNdx_eq, getPteNdx_eq, high]
    unfold platformPageSize kernelVmOffset at *
    omega
  have same : bootTables image frames image.pd 0 = bootTables image frames image.pd highNdx := by
    rw [bootTables_pd]
    simp [bootDirectory, I686VmFrames.set_apply]
  simp only [walk, lowPde, highPde, same]

/-- The translation of the high addresses of the first 4 MiB. -/
theorem booted_walk (blankDirectory : ∀ ndx, (frames image.pd ndx).isPresent = false)
    (blankTable : ∀ ndx, (frames image.pt ndx).isPresent = false) {low : Nat}
    (inside : low < 1024 * platformPageSize) :
    let booted := undoIdentityMapping image (bootTables image frames)
    walk booted image.pd (kernelVmOffset + low) =
        (image.pageFlags (low / platformPageSize)).map (fun _ => low / platformPageSize) ∧
      ∀ flags, image.pageFlags (low / platformPageSize) = some flags →
        effectiveRights booted image.pd (kernelVmOffset + low) =
          { write := hasFlag flags i686VmFlagRw, user := false,
            cacheOff := hasFlag flags i686VmFlagCacheOff } := by
  intro booted
  have highPde : getPdeNdx (kernelVmOffset + low) = highNdx ∧
      getPteNdx (kernelVmOffset + low) = low / platformPageSize := by
    have high : highNdx = 768 := by decide
    rw [getPdeNdx_eq, getPteNdx_eq, high]
    unfold platformPageSize kernelVmOffset at *
    omega
  obtain ⟨high, -⟩ := undoIdentityMapping_pd image blankDirectory
  have entry : booted image.pt (low / platformPageSize) =
      (image.pageFlags (low / platformPageSize)).elim (frames image.pt (low / platformPageSize))
        fun flags => { isPresent := true, flags := flags, paddr := low / platformPageSize } := by
    have next := image.pt_ndx
    rw [← bootTables_pt]
    exact I686VmFrames.set_apply.trans (if_neg (by omega))
  constructor
  · simp only [walk, highPde, booted, high]
    simp only [booted] at entry
    rw [entry]
    cases image.pageFlags (low / platformPageSize) with
    | none => simp [blankTable]
    | some flags => simp
  · intro flags mapped
    rw [mapped] at entry
    simp only [effectiveRights, rightsOf, pteOf, highPde, booted, high]
    simp only [booted, Option.elim] at entry
    rw [entry]
    rfl

theorem booted_translation (inside : image.bssEnd ≤ kernelVmOffset + 1024 * platformPageSize)
    (blankDirectory : ∀ ndx, (frames image.pd ndx).isPresent = false)
    (blankTable : ∀ ndx, (frames image.pt ndx).isPresent = false) :
    BootTranslation image (undoIdentityMapping image (bootTables image frames)) := by
  obtain ⟨high, recursive, recursiveAddr, absent⟩ := undoIdentityMapping_pd image blankDirectory
  have translated := fun low => @booted_walk image frames blankDirectory blankTable low
  refine ⟨fun seg addr above below => ?_, fun low inMegabyte => ?_, fun vaddr window => ?_,
    fun low inTable behind uncovered => ?_, fun vaddr notHigh notRecursive => ?_⟩
  · have start := (image.segment_bounds seg).1
    have last := (image.segment_bounds seg).2.2.1
    have flags := (image.covers_page above below).pageFlags_eq
    have offset : kernelVmOffset + (addr - kernelVmOffset) = addr := by
      unfold kernelVmOffset
      omega
    obtain ⟨found, rights⟩ := translated (addr - kernelVmOffset) (by omega)
    rw [offset, flags] at found
    have granted := rights _ flags
    rw [offset] at granted
    refine ⟨found, granted.trans ?_⟩
    cases seg <;> rfl
  · have flags : image.pageFlags (low / platformPageSize) = some i686VmFlagRw :=
      if_pos (by unfold platformPageSize; omega)
    obtain ⟨found, rights⟩ := translated low (by unfold platformPageSize; omega)
    rw [flags] at found
    exact ⟨found, rights _ flags⟩
  · simp only [walk, window, recursive, recursiveAddr, true_and]
    by_cases isTable : getPteNdx vaddr = highNdx
    · simp [isTable, high]
    · by_cases isDirectory : getPteNdx vaddr = recursiveNdx
      · have apart : recursiveNdx ≠ highNdx := by decide
        simp [isDirectory, recursive, recursiveAddr, apart]
      · simp [isTable, isDirectory, absent _ isTable isDirectory]
  · obtain ⟨found, -⟩ := translated low inTable
    rw [found, image.pageFlags_eq_none (by unfold platformPageSize; omega) uncovered]
    rfl
  · rw [walk, absent _ notHigh notRecursive]
    simp

/-- The first directory is in the state that the page table calls rely on. -/
theorem booted_tables (blankDirectory : ∀ ndx, (frames image.pd ndx).isPresent = false) :
    Tables (undoIdentityMapping image (bootTables image frames)) image.pd := by
  obtain ⟨high, recursive, recursiveAddr, absent⟩ := undoIdentityMapping_pd image blankDirectory
  have windows : emergencyNdx ≠ highNdx ∧ emergencyNdx ≠ recursiveNdx ∧
    emergencyNdx < recursiveNdx := by decide
  have only : ∀ ndx < emergencyNdx, (undoIdentityMapping image (bootTables image frames)
      image.pd ndx).isPresent = true → ndx = highNdx := by
    intro ndx below present
    by_contra notHigh
    rw [absent ndx notHigh (by omega)] at present
    cases present
  refine ⟨absent _ windows.1 windows.2.1, ⟨recursive, recursiveAddr⟩, fun ndx below present => ?_,
    fun first firstBelow second secondBelow firstPresent secondPresent _ => ?_⟩
  · have next := image.pt_ndx
    rw [only ndx below present, high]
    show image.pt ≠ image.pd
    omega
  · exact (only first firstBelow firstPresent).trans (only second secondBelow secondPresent).symm

end Tables

/-- For an image that stays below the windows, boot paging is set up exactly if the image ends
in the first 4 MiB of the kernel's addresses, else an entry is read that is not there.  While
the low addresses are mapped too they mean what the high ones mean, so the code that runs
there goes on; when they are taken back every segment has its rights, and nothing else is
reached but the low megabyte and the tables. -/
theorem setupBootPaging_iff (image : KernelImage) (frames : I686VmFrames)
    (blankDirectory : ∀ ndx, (frames image.pd ndx).isPresent = false)
    (blankTable : ∀ ndx, (frames image.pt ndx).isPresent = false)
    (below : image.bssEnd ≤ recursiveNdx <<< 22) :
    (image.bssEnd ≤ kernelVmOffset + 1024 * platformPageSize ↔
        ∃ next, setupBootPaging image frames = .ok next) ∧
      (kernelVmOffset + 1024 * platformPageSize < image.bssEnd →
        setupBootPaging image frames = .error .kassert) ∧
      ∀ next, setupBootPaging image frames = .ok next →
        (∃ both, bootPagingTables image frames = .ok both ∧
          ∀ low < 1024 * platformPageSize,
            walk both image.pd low = walk both image.pd (kernelVmOffset + low)) ∧
        BootTranslation image next ∧ Tables next image.pd ∧
        ∀ frame, frame ≠ image.pd → frame ≠ image.pt → next frame = frames frame := by
  have fails : kernelVmOffset + 1024 * platformPageSize < image.bssEnd →
      setupBootPaging image frames = .error .kassert := by
    intro beyond
    rw [setupBootPaging, bootPagingTables_error blankDirectory beyond below, Outcome.error_bind]
  refine ⟨⟨fun inside => ?_, fun ⟨next, returned⟩ => ?_⟩, fails, fun next returned => ?_⟩
  · rw [setupBootPaging, bootPagingTables_ok blankDirectory inside, Outcome.ok_bind]
    exact ⟨_, rfl⟩
  · by_contra beyond
    rw [fails (by omega)] at returned
    cases returned
  · have inside : image.bssEnd ≤ kernelVmOffset + 1024 * platformPageSize := by
      by_contra beyond
      rw [fails (by omega)] at returned
      cases returned
    have both := bootPagingTables_ok blankDirectory inside
    rw [setupBootPaging, both, Outcome.ok_bind, Except.ok.injEq] at returned
    subst returned
    refine ⟨⟨_, both, fun low inTable => bootTables_identity image frames inTable⟩,
      booted_translation inside blankDirectory blankTable, booted_tables blankDirectory,
      fun frame notDirectory notTable => ?_⟩
    have kept : bootTables image frames frame = frames frame :=
      bootTables_other notDirectory notTable
    rw [← kept]
    funext ndx
    exact I686VmFrames.set_apply.trans (if_neg fun both => notDirectory both.1)

/-- One page of text and one of read-only data, and no data; the tables are all of the last
segment. -/
def smallImage : KernelImage where
  textStart := 0xC0100000
  textEnd := 0xC0100800
  rodataStart := 0xC0101000
  rodataEnd := 0xC0101010
  dataStart := 0xC0102000
  dataEnd := 0xC0102000
  bssStart := 0xC0102000
  bssEnd := 0xC0104000
  bootPagingPd := 0xC0102000
  bootPagingPt := 0xC0103000
  textStart_eq := rfl
  text_le := by decide
  rodata_start := ⟨by decide, by decide, fun bound aligned above => by
    unfold platformPageSize at aligned
    omega⟩
  rodata_le := by decide
  data_start := ⟨by decide, by decide, fun bound aligned above => by
    unfold platformPageSize at aligned
    omega⟩
  data_le := by decide
  bss_start := ⟨by decide, by decide, fun bound _ above => above⟩
  bss_le := by decide
  pd_page := by decide
  pt_eq := by decide
  pt_le := by decide
  bss_fits := by decide

theorem setupBootPaging_smallImage :
    ∃ next, setupBootPaging smallImage (fun _ _ => .zero) = .ok next :=
  (setupBootPaging_iff smallImage (fun _ _ => .zero) (fun _ => rfl) (fun _ => rfl)
    (by decide)).1.mp (by decide)

end Yaeos
