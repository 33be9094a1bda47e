import Yaeos.I686.PageFault
import Yaeos.Kheap.Zones

/-!
# Where the frames of the heap come from

A page that the physical allocator hands out to a page fault becomes the frame of a page of the
heap or a page table, and stays it.  So the zones lose exactly the pages that the page tables
use, and the heap never gets a page that was taken before.
-/

namespace Yaeos

variable {Mm : Type} {ops : MmOps Mm} {occupied : Mm → Nat → Prop} {kernel : KernelSpace}
  {start heap heapNext : Kheap Mm} {physAddr vaddr faultAt rounds : Nat} {fault : Fault}

/-- The page is a table of the directory. -/
def HasTable (frames : I686VmFrames) (treeRoot page : Nat) : Prop :=
  ∃ ndx < emergencyNdx, (frames treeRoot ndx).isPresent = true ∧
    page = (frames treeRoot ndx).paddr * platformPageSize

theorem Tables.hasTable_iff {frames : I686VmFrames} {treeRoot : Nat}
    (tables : Tables frames treeRoot) (page : Nat) :
    HasTable frames treeRoot page ↔ ∃ ndx < emergencyNdx, ∃ frame,
      walk frames treeRoot (recursiveAddr + ndx * platformPageSize) = some frame ∧
        page = frame * platformPageSize := by
  constructor
  · rintro ⟨ndx, below, present, same⟩
    exact ⟨ndx, below, _, (tables.walk_recursive below).mpr ⟨present, rfl⟩, same⟩
  · rintro ⟨ndx, below, frame, shown, same⟩
    obtain ⟨present, rfl⟩ := (tables.walk_recursive below).mp shown
    exact ⟨ndx, below, present, same⟩

/-- What a mapping does to the tables: those that exist stay, and one more, in a page that was
free, if the mapping takes a page. -/
structure TablesGrow (occupied : Mm → Nat → Prop) (heap next : Kheap Mm) : Prop where
  taken : ∀ page, occupied next.mm page →
    occupied heap.mm page ∨ HasTable next.frames next.rootDir page
  kept : ∀ page, HasTable heap.frames heap.rootDir page →
    HasTable next.frames next.rootDir page
  fresh : ∀ page, HasTable next.frames next.rootDir page →
    HasTable heap.frames heap.rootDir page ∨ ¬occupied heap.mm page

/-- A table that is missing gets a free page. -/
theorem tablePage_cases (spec : HandsOutFree ops occupied) {mm : Mm} {page : Option Nat}
    {frames : I686VmFrames} (ready : tablePage ops heap vaddr = .ok (mm, page))
    (returned : vmArchPtMap heap.frames heap.rootDir page physAddr vaddr heapVmFlags = .ok frames) :
    ((heap.frames heap.rootDir (getPdeNdx vaddr)).isPresent = true ∧ mm = heap.mm) ∨
      ((heap.frames heap.rootDir (getPdeNdx vaddr)).isPresent = false ∧ ∃ paddr,
        page = some paddr ∧ platformPageSize ∣ paddr ∧ ¬occupied heap.mm paddr ∧
          ∀ other, occupied mm other ↔ other = paddr ∨ occupied heap.mm other) := by
  rw [tablePage, i686VmGetPge] at ready
  split at ready
  · next present =>
      cases ready
      exact .inl ⟨present, rfl⟩
  · next absent =>
      refine .inr ⟨by simpa using absent, ?_⟩
      cases page with
      | none =>
          rw [vmArchPtMap, ensureTable, i686VmGetPge, if_neg absent] at returned
          cases returned
      | some paddr =>
          obtain ⟨aligned, -, unused, marks⟩ := spec.page _ _ _ ready
          exact ⟨paddr, rfl, aligned, unused, marks⟩

theorem heapPtMap_tables (spec : HandsOutFree ops occupied)
    (owned : Owned (occupied heap.mm) heap.frames heap.rootDir)
    (below : getPdeNdx vaddr < recursiveNdx)
    (mapped : heapPtMap ops heap physAddr vaddr = .ok heapNext) :
    TablesGrow occupied heap heapNext := by
  have tables := owned.tables
  obtain ⟨unmapped, ownedNext, -⟩ := heapPtMap_spec spec owned below mapped
  simp only [heapPtMap, Outcome.bind_eq_ok, Except.ok.injEq] at mapped
  obtain ⟨⟨mm, page⟩, ready, frames, returned, rfl⟩ := mapped
  have inTables : getPdeNdx vaddr < emergencyNdx := by
    rcases Nat.lt_or_ge (getPdeNdx vaddr) emergencyNdx with low | high
    · exact low
    · have window : getPdeNdx vaddr = emergencyNdx := by
        unfold emergencyNdx recursiveNdx at *
        omega
      exact absurd returned (tables.vmArchPtMap_emergency window)
  have cases_ := tablePage_cases spec ready returned
  -- the recursive window shows one new table, or none
  have shown : ∀ ndx < emergencyNdx,
      walk frames heap.rootDir (recursiveAddr + ndx * platformPageSize) =
        if (heap.frames heap.rootDir (getPdeNdx vaddr)).isPresent = false ∧
            ndx = getPdeNdx vaddr then page.map (· / platformPageSize)
        else walk heap.frames heap.rootDir (recursiveAddr + ndx * platformPageSize) := by
    intro ndx ndxBelow
    obtain ⟨next, again, -, -, others⟩ :=
      tables.vmArchPtMap_ok physAddr inTables unmapped heapVmFlags fun absent => by
        rcases cases_ with ⟨present, -⟩ | ⟨-, paddr, isSome, aligned, unused, -⟩
        · rw [absent] at present
          cases present
        · exact ⟨paddr, isSome, fresh_of_unused owned aligned unused⟩
    rw [returned] at again
    cases again
    obtain ⟨pde, pte⟩ := recursive_page ndxBelow
    rw [others _ fun same => by rw [pde] at same; omega, pde, pte]
    simp only [true_and]
  have grown := ownedNext.tables.hasTable_iff
  have old := tables.hasTable_iff
  rcases cases_ with ⟨present, rfl⟩ | ⟨absent, paddr, rfl, aligned, unused, marks⟩
  · have same : ∀ page, HasTable frames heap.rootDir page ↔
        HasTable heap.frames heap.rootDir page := by
      intro page
      rw [grown, old]
      refine exists_congr fun ndx => and_congr_right fun ndxBelow => ?_
      rw [shown ndx ndxBelow, if_neg fun isNew => by rw [present] at isNew; cases isNew.1]
    exact ⟨fun page used => .inl used, fun page => (same page).mpr,
      fun page table => .inl ((same page).mp table)⟩
  · have frameOf : paddr / platformPageSize * platformPageSize = paddr :=
      Nat.div_mul_cancel aligned
    -- the entry was absent, so that the recursive window showed nothing there
    have notOld : ∀ frame, walk heap.frames heap.rootDir
        (recursiveAddr + getPdeNdx vaddr * platformPageSize) ≠ some frame := by
      intro frame mapped
      rw [((tables.walk_recursive inTables).mp mapped).1] at absent
      cases absent
    have same : ∀ page, HasTable frames heap.rootDir page ↔
        page = paddr ∨ HasTable heap.frames heap.rootDir page := by
      intro page
      rw [grown, old]
      constructor
      · rintro ⟨ndx, ndxBelow, frame, found, rfl⟩
        rw [shown ndx ndxBelow] at found
        split at found
        · cases found
          exact .inl frameOf
        · exact .inr ⟨ndx, ndxBelow, frame, found, rfl⟩
      · rintro (rfl | ⟨ndx, ndxBelow, frame, found, rfl⟩)
        · refine ⟨getPdeNdx vaddr, inTables, _, ?_, frameOf.symm⟩
          rw [shown _ inTables, if_pos ⟨absent, rfl⟩]
          rfl
        · have another : ndx ≠ getPdeNdx vaddr := fun isNew => notOld frame (isNew ▸ found)
          refine ⟨ndx, ndxBelow, frame, ?_, rfl⟩
          rw [shown ndx ndxBelow, if_neg fun isNew => another isNew.2]
          exact found
    refine ⟨fun page used => ?_, fun page table => (same page).mpr (.inr table),
      fun page table => ?_⟩
    · rcases (marks page).mp used with isPage | before
      · exact .inr ((same page).mpr (.inl isPage))
      · exact .inl before
    · rcases (same page).mp table with rfl | before
      · exact .inr unused
      · exact .inl before

namespace KernelSpace

/-- The page is the frame of a page of the heap. -/
def HasFrame (kernel : KernelSpace) (heap : Kheap Mm) (page : Nat) : Prop :=
  ∃ addr frame, kernel.InArea .chunk addr ∧ walk heap.frames heap.rootDir addr = some frame ∧
    page = frame * platformPageSize

/-- The page tables of the kernel use the page, for the heap or as a table. -/
def Uses (kernel : KernelSpace) (heap : Kheap Mm) (page : Nat) : Prop :=
  kernel.HasFrame heap page ∨ HasTable heap.frames heap.rootDir page

/-- What a run has done to the physical memory: the pages that were taken are in use, nothing that
was taken before has come into use, and no frame of the heap is a table. -/
structure Accounted (occupied : Mm → Nat → Prop) (kernel : KernelSpace) (start heap : Kheap Mm) :
    Prop where
  paged : Paged occupied kernel heap
  root : heap.rootDir = start.rootDir
  grows : ∀ page, occupied start.mm page → occupied heap.mm page
  kept : ∀ page, HasTable start.frames start.rootDir page →
    HasTable heap.frames heap.rootDir page
  taken : ∀ page, occupied heap.mm page → occupied start.mm page ∨ kernel.Uses heap page
  frame : ∀ page, kernel.HasFrame heap page →
    ¬occupied start.mm page ∧ ¬HasTable heap.frames heap.rootDir page
  table : ∀ page, HasTable heap.frames heap.rootDir page →
    HasTable start.frames start.rootDir page ∨ ¬occupied start.mm page

/-- At the start nothing is in use but the tables. -/
theorem accounted_of_initial (initial : (accessMachine ops occupied kernel).initial start) :
    Accounted occupied kernel start start where
  paged := paged_of_initial initial
  root := rfl
  grows _ used := used
  kept _ isTable := isTable
  taken _ used := .inl used
  frame page used := by
    obtain ⟨addr, frame, inChunk, mapped, -⟩ := used
    rw [initial.2.2 addr inChunk] at mapped
    cases mapped
  table _ isTable := .inl isTable

/-- What is in use is occupied. -/
theorem Paged.uses_occupied (paged : Paged occupied kernel heap) {page : Nat}
    (used : kernel.Uses heap page) : occupied heap.mm page := by
  rcases used with ⟨addr, frame, inChunk, mapped, rfl⟩ | ⟨ndx, below, present, rfl⟩
  · exact (paged.chunk addr frame inChunk mapped).1
  · exact paged.owned.table ndx below present

/-- A fault takes the pages that it puts into use. -/
theorem Accounted.afterFault (accounted : Accounted occupied kernel start heap) (ok : kernel.Ok)
    (spec : HandsOutFree ops occupied)
    (returned : i686VmPgFaultHandler ops rounds kernel heap (.error fault) faultAt =
      .ok heapNext)
    (paged : Paged occupied kernel heapNext)
    (kept : ∀ addr frame, kernel.InArea .chunk addr →
      walk heap.frames heap.rootDir addr = some frame →
      walk heapNext.frames heapNext.rootDir addr = some frame) :
    Accounted occupied kernel start heapNext := by
  obtain ⟨area, member, contains, mapped⟩ := ok.mapped returned
  obtain ⟨fits, pageInside, below⟩ := ok.page_below member contains
  obtain ⟨pageFits, pageOf⟩ := pageOf_alignRounddown fits
  have owned := accounted.paged.owned
  have usesMono : (∀ page, HasTable heap.frames heap.rootDir page →
      HasTable heapNext.frames heapNext.rootDir page) →
      ∀ page, kernel.Uses heap page → kernel.Uses heapNext page := by
    intro tables page used
    rcases used with ⟨addr, frame, inChunk, found, same⟩ | table
    · exact .inl ⟨addr, frame, inChunk, kept addr frame inChunk found, same⟩
    · exact .inr (tables page table)
  have untaken : ∀ page, ¬occupied heap.mm page → ¬occupied start.mm page :=
    fun page => mt (accounted.grows page)
  rcases mapped with ⟨isZone, mapped⟩ | ⟨isChunk, mm, paddr, allocated, mapped⟩
  · have tables := heapPtMap_tables spec owned below mapped
    have maps := maps_of_heapPtMap spec owned below mapped
    refine ⟨paged, maps.sameChunks.2.2.trans accounted.root,
      fun page used => maps.grows page (accounted.grows page used),
      fun page isTable => tables.kept page (accounted.kept page isTable), fun page used => ?_,
      fun page isFrame => ?_, fun page isTable => ?_⟩
    · rcases tables.taken page used with before | isTable
      · exact (accounted.taken page before).imp id (usesMono tables.kept page)
      · exact .inr (.inr isTable)
    · obtain ⟨addr, frame, inChunk, found, same⟩ := isFrame
      -- the page that was mapped is in a zone, so the frames of the heap are the old ones
      rcases maps.cases ok pageFits inChunk found with ⟨samePage, -⟩ | before
      · cases ok.handler_unique ⟨area, member, isZone, contains⟩ inChunk
          (pageOf.symm.trans samePage.symm)
      · have isFrame : kernel.HasFrame heap page := ⟨addr, frame, inChunk, before, same⟩
        obtain ⟨free, notTable⟩ := accounted.frame page isFrame
        refine ⟨free, fun isTable => ?_⟩
        exact (tables.fresh page isTable).elim notTable fun unused =>
          unused (accounted.paged.uses_occupied (.inl isFrame))
    · exact (tables.fresh page isTable).elim (accounted.table page)
        fun unused => .inr (untaken page unused)
  · obtain ⟨aligned, -, unused, marks⟩ := spec.page _ _ _ allocated
    have frameOf : paddr / platformPageSize * platformPageSize = paddr :=
      Nat.div_mul_cancel aligned
    have grown : Owned (occupied mm) heap.frames heap.rootDir :=
      owned.mono fun frame used => (marks frame).mpr (.inr used)
    have tables : TablesGrow occupied { heap with mm := mm } heapNext :=
      heapPtMap_tables spec grown below mapped
    have maps : Maps occupied { heap with mm := mm } heapNext _ _ :=
      maps_of_heapPtMap spec grown below mapped
    have sameRoot : heapNext.rootDir = heap.rootDir := maps.sameChunks.2.2
    have grows : ∀ page, occupied heap.mm page → occupied heapNext.mm page :=
      fun page used => maps.grows page ((marks page).mpr (.inr used))
    refine ⟨paged, sameRoot.trans accounted.root,
      fun page used => grows page (accounted.grows page used),
      fun page isTable => tables.kept page (accounted.kept page isTable), fun page used => ?_,
      fun page isFrame => ?_, fun page isTable => ?_⟩
    · rcases tables.taken page used with before | isTable
      · rcases (marks page).mp before with rfl | before
        · refine .inr (.inl ⟨alignRounddown faultAt platformPageSize, _,
            ⟨area, member, isChunk, pageInside⟩, ?_, frameOf.symm⟩)
          rw [sameRoot]
          exact maps.found
        · exact (accounted.taken page before).imp id (usesMono tables.kept page)
      · exact .inr (.inr isTable)
    · obtain ⟨addr, frame, inChunk, found, rfl⟩ := isFrame
      rcases maps.cases ok pageFits inChunk found with ⟨-, rfl⟩ | before
      · rw [frameOf]
        refine ⟨untaken paddr unused, fun isTable => ?_⟩
        rcases tables.fresh paddr isTable with before | free
        · exact unused (accounted.paged.uses_occupied (.inr before))
        · exact free ((marks paddr).mpr (.inl rfl))
      · have isFrame : kernel.HasFrame heap (frame * platformPageSize) :=
          ⟨addr, frame, inChunk, before, rfl⟩
        obtain ⟨free, notTable⟩ := accounted.frame _ isFrame
        refine ⟨free, fun isTable => ?_⟩
        exact (tables.fresh _ isTable).elim notTable fun free =>
          free ((marks _).mpr (.inr (accounted.paged.uses_occupied (.inl isFrame))))
    · exact (tables.fresh page isTable).elim (accounted.table page)
        fun free => .inr (untaken page fun before => free ((marks page).mpr (.inr before)))

/-- Every step of a run takes the pages that it puts into use. -/
theorem Accounted.step (accounted : Accounted occupied kernel start heap) (ok : kernel.Ok)
    (spec : HandsOutFree ops occupied) {action : KernelAccess}
    (stepped : (accessMachine ops occupied kernel).step heap action heapNext) :
    Accounted occupied kernel start heapNext := by
  obtain ⟨paged, kept⟩ := accounted.paged.step ok spec stepped
  cases action with
  | access addr =>
      obtain ⟨rounds, returned⟩ := stepped
      unfold accessMemory at returned
      split at returned
      · cases returned
        exact accounted
      · exact accounted.afterFault ok spec returned paged fun other frame => kept .chunk other frame
  | alloc =>
      obtain ⟨page, chunk, -, -, registered, -, rfl⟩ := stepped
      exact ⟨paged, accounted.root, accounted.grows, accounted.kept, accounted.taken,
        accounted.frame, accounted.table⟩

theorem accounted_of_trace (ok : kernel.Ok) (spec : HandsOutFree ops occupied)
    (initial : (accessMachine ops occupied kernel).initial start) {actions : List KernelAccess}
    (trace : (accessMachine ops occupied kernel).Trace start actions heap) :
    Accounted occupied kernel start heap := by
  induction trace with
  | nil => exact accounted_of_initial initial
  | snoc _ stepped inductionHypothesis => exact inductionHypothesis.step ok spec stepped

/-- The pages in use are the tables of the start and the pages that were taken since. -/
theorem Accounted.uses_iff (accounted : Accounted occupied kernel start heap) (page : Nat) :
    kernel.Uses heap page ↔ HasTable start.frames start.rootDir page ∨
      (¬occupied start.mm page ∧ occupied heap.mm page) := by
  constructor
  · intro used
    have occupies := accounted.paged.uses_occupied used
    rcases used with isFrame | isTable
    · exact .inr ⟨(accounted.frame page isFrame).1, occupies⟩
    · exact (accounted.table page isTable).imp id fun unused => ⟨unused, occupies⟩
  · rintro (isTable | ⟨unused, used⟩)
    · exact .inr (accounted.kept page isTable)
    · exact (accounted.taken page used).resolve_left unused

end KernelSpace

/-! ## A run over a zone of five pages -/

/-- The kernel with one zone, of five pages. -/
def fivePages : MmSystem :=
  (Machine.execute MmSystem.Legal MmSystem.call [MmSystem.zoned 0x100000 5] MmSystem.boot).get
    (by decide +kernel)

theorem fivePages_reachable : mmMachine.Reachable fivePages :=
  MmSystem.reachable_boot (Option.some_get _).symm

def fiveZones : ReadyZones fivePages.space.offset where
  zones := fivePages.zones
  ready := (MmSystem.holds_of_reachable fivePages_reachable).ready

/-- The zone hands out the two pages behind its first one. -/
theorem fiveZones_pages : (fiveZones.allocPage.toOption.bind fun first =>
    first.1.allocPage.toOption.map fun second => (first.2, second.2)) =
      some (some 0x101000, some 0x102000) := by decide +kernel

/-- A chunk of one page, which is taken. -/
def takenChunk : HeapChunk where
  base := 0xC0400000
  length := 4096
  freeSpace := 0
  buddy := ⟨[⟨0, [1], 1, 1, by decide, by decide⟩], 1⟩

/-- The kernel's space with the bookkeeping of the zone and the chunk. -/
def chunkSpace : Option VmSpace :=
  Machine.execute VmSpace.Legal (VmSpace.call 16)
    [.insert 1 ⟨0xC0100000, 4096⟩, .insert 2 ⟨0xC0400000, 4096⟩]
    (vmSpaceInit VmSpace.noAreas 0xC0000000)

def chunkKernel (space : VmSpace) : KernelSpace where
  addr := { ready := true, offset := 0xC0000000 }
  space := space
  handlePgFault area := if area = 1 then some .maplow else if area = 2 then some .chunk else none

def fiveHeap : Kheap (ReadyZones fivePages.space.offset) where
  chunks := [takenChunk]
  heapFreeSpace := 0
  rootDir := 1
  frames := PageTableCall.firstDirectory
  mm := fiveZones

theorem chunkSpace_ok : ∃ space, chunkSpace = some space ∧ (chunkKernel space).Ok ∧
    space.sortedAreas = [1, 2] ∧ space.areas 1 = ⟨0xC0100000, 4096⟩ ∧
    space.areas 2 = ⟨0xC0400000, 4096⟩ := by
  have result : chunkSpace.map (fun space =>
      (space.sortedAreas, space.areas 1, space.areas 2)) =
      some ([1, 2], ⟨0xC0100000, 4096⟩, ⟨0xC0400000, 4096⟩) := by decide
  obtain ⟨space, executed, shape⟩ := Option.map_eq_some_iff.mp result
  simp only [Prod.mk.injEq] at shape
  obtain ⟨listed, zone, chunk⟩ := shape
  have offset : platformPageSize ∣ 0xC0000000 := ⟨0xC0000, rfl⟩
  refine ⟨space, executed, ⟨VmSpace.reachable_of_execute executed, rfl, offset, ?_, ?_, ?_⟩,
    listed, zone, chunk⟩ <;>
  · intro area member
    have isOne : area = 1 ∨ area = 2 := by simpa [chunkKernel, listed] using member
    rcases isOne with rfl | rfl
    · simp only [chunkKernel, zone]
      decide
    · simp only [chunkKernel, chunk]
      decide

theorem fiveZones_occupied {page : Nat} (below : page < 0x101000) : fiveZones.Occupied page := by
  have result : fiveZones.zones.map (fun zone => (zone.start, zone.buddym.bit 0 0)) =
      [(0x100000, true)] := by decide +kernel
  obtain ⟨zone, isZone, shape⟩ := List.map_eq_singleton_iff.mp result
  simp only [Prod.mk.injEq] at shape
  obtain ⟨start, reserved⟩ := shape
  rintro ⟨-, other, member, contains, clear⟩
  rw [isZone, List.mem_singleton] at member
  subst member
  have first : other.pageOf page = 0 := by
    unfold MmZone.pageOf platformPageSize
    omega
  rw [first, reserved] at clear
  cases clear

section ChunkKernel

variable {space : VmSpace}

theorem chunkKernel_area (listed : space.sortedAreas = [1, 2])
    (zone : space.areas 1 = ⟨0xC0100000, 4096⟩) (chunk : space.areas 2 = ⟨0xC0400000, 4096⟩)
    {handler : PgFaultHandler} {addr : Nat} (inArea : (chunkKernel space).InArea handler addr) :
    (handler = .maplow ∧ 0xC0100000 ≤ addr ∧ addr < 0xC0101000) ∨
      (handler = .chunk ∧ 0xC0400000 ≤ addr ∧ addr < 0xC0401000) := by
  obtain ⟨area, member, isHandler, contains⟩ := inArea
  have isOne : area = 1 ∨ area = 2 := by simpa [chunkKernel, listed] using member
  rcases isOne with rfl | rfl
  · simp only [chunkKernel, if_true, Option.some.injEq] at isHandler
    simp only [chunkKernel, zone] at contains
    exact .inl ⟨isHandler.symm, contains.1, Nat.lt_of_le_of_lt contains.2 (by decide)⟩
  · simp only [chunkKernel, OfNat.ofNat_ne_one, if_false, if_true, Option.some.injEq] at isHandler
    simp only [chunkKernel, chunk] at contains
    exact .inr ⟨isHandler.symm, contains.1, Nat.lt_of_le_of_lt contains.2 (by decide)⟩

theorem chunkKernel_initial (listed : space.sortedAreas = [1, 2])
    (zone : space.areas 1 = ⟨0xC0100000, 4096⟩) (chunk : space.areas 2 = ⟨0xC0400000, 4096⟩) :
    (accessMachine (zoneOps _) ReadyZones.Occupied (chunkKernel space)).initial fiveHeap := by
  have window : recursiveAddr = 0xffc00000 := by decide
  have unmapped : ∀ addr < recursiveAddr, walk fiveHeap.frames fiveHeap.rootDir addr = none :=
    fun addr low => directoryHeap_unmapped low
  refine ⟨⟨directoryHeap_owned.tables, fiveZones_occupied (by decide), fun ndx below present => ?_⟩,
    fun addr inZone => ⟨?_, fun frame mapped => ?_⟩, fun addr inChunk => ?_⟩
  · have absent : fiveHeap.frames fiveHeap.rootDir ndx = .zero := by
      show PageTableCall.firstDirectory 1 ndx = .zero
      unfold emergencyNdx at below
      rw [PageTableCall.firstDirectory, I686VmFrames.set_apply, if_neg fun both => by
        have same := both.2
        unfold recursiveNdx at same
        omega]
    rw [absent] at present
    cases present
  · rcases chunkKernel_area listed zone chunk inZone with ⟨-, above, below⟩ | ⟨impossible, -⟩
    · refine fiveZones_occupied ?_
      simp only [KernelSpace.lowFrame, chunkKernel, platformPageSize]
      omega
    · cases impossible
  · rcases chunkKernel_area listed zone chunk inZone with ⟨-, above, below⟩ | ⟨impossible, -⟩
    · rw [unmapped addr (by omega)] at mapped
      cases mapped
    · cases impossible
  · rcases chunkKernel_area listed zone chunk inChunk with ⟨impossible, -⟩ | ⟨-, above, below⟩
    · cases impossible
    · exact unmapped addr (by omega)

/-- The first access to the chunk can be served. -/
theorem chunkKernel_serves (listed : space.sortedAreas = [1, 2])
    (chunk : space.areas 2 = ⟨0xC0400000, 4096⟩) :
    (chunkKernel space).Serves (zoneOps _) fiveHeap 0xC0400123 := by
  have page : alignRounddown 0xC0400123 platformPageSize = 0xC0400000 := by decide
  obtain ⟨⟨mm, first⟩, allocated, pages⟩ := Option.bind_eq_some_iff.mp fiveZones_pages
  obtain ⟨⟨next, second⟩, again, shape⟩ := Option.map_eq_some_iff.mp pages
  simp only [Prod.mk.injEq] at shape
  obtain ⟨rfl, rfl⟩ := shape
  rw [Outcome.toOption_eq_some] at allocated again
  refine ⟨(by decide : 0xC0000000 ≤ 0xC0400123), 2, by simp [chunkKernel, listed], ?_,
    .inr ⟨rfl, takenChunk, ?_, ?_, mm, _, allocated, ?_⟩⟩
  · simp only [chunkKernel, chunk]
    exact ⟨by decide, by decide⟩
  · simp only [KernelSpace.chunkOf, chunkKernel, chunk]
    rfl
  · rw [page]
    rfl
  · rw [page]
    exact ⟨by decide, directoryHeap_unmapped (by decide), .inr ⟨next, _, again⟩⟩

end ChunkKernel

end Yaeos
