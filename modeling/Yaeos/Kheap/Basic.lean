import Yaeos.Buddy.Basic
import Yaeos.I686.Vm

/-!
# The kernel heap (`kernel/kheap.c`)

The heap is a list of chunks, each an area of virtual memory with a buddy
manager over its pages.  `kheap_alloc_page` only takes a page in its manager;
the page gets memory in the handler of its first page fault, and
`kheap_free_page` gives that memory back.

The physical allocator is a parameter: `mm_alloc_page` returns the address of a
page or `NULL`.  Gaps of the address space, the memory `kmm` supplies for a new
chunk and what happens to the heap while `kmm` is at work are arguments.  All
chunks have the flags `HEAP_VM_FLAGS`, and their lengths add up without a wrap
because they are disjoint.
-/

namespace Yaeos

/-- `mm_alloc_page` and `mm_free_page`, with pages named by their address. -/
structure MmOps (Mm : Type) where
  allocPage : Mm → Outcome (Mm × Option Nat)
  freePage : Mm → Nat → Outcome Mm

/-- An area of the heap with its `struct chunk_data`. -/
structure HeapChunk where
  base : Nat
  length : Nat
  freeSpace : Nat
  buddy : BuddyManager

/-- `GLOBAL_DATA`, with the page tables of the address space and the physical
memory behind it. -/
structure Kheap (Mm : Type) where
  /-- The chunks of `head_list`. -/
  chunks : List HeapChunk
  heapFreeSpace : Nat
  rootDir : Nat
  frames : I686VmFrames
  mm : Mm

/-- `HEAP_VM_FLAGS`. -/
def heapVmFlags : Nat := vmWrite

/-- `CONF_HEAP_MAX_CHUNK_SIZE`. -/
def confHeapMaxChunkSize : Nat := 32 * 1024 * 1024

/-- The last address of a chunk. -/
def HeapChunk.last (chunk : HeapChunk) : Nat := wrapSub (wrap (chunk.base + chunk.length)) 1

def areaPageNdx (area : HeapChunk) (addr : Nat) : Option Nat :=
  if addr < area.base ∨ addr > area.last then none
  else some ((addr - area.base) / platformPageSize)

/-- Write a chunk back; a chunk is known by its base. -/
def setChunk (chunks : List HeapChunk) (chunk : HeapChunk) : List HeapChunk :=
  chunks.map fun other => if other.base = chunk.base then chunk else other

def isRegisteredPage (area : HeapChunk) (page : Nat) : Outcome Bool :=
  match areaPageNdx area page with
  | none => .ok false
  | some pgNdx => buddyIsFree area.buddy pgNdx

/-- `create_new_dir` allocates a page when the directory has no entry for an address. -/
def tablePage {Mm : Type} (ops : MmOps Mm) (heap : Kheap Mm) (atVirtAddr : Nat) :
    Outcome (Mm × Option Nat) :=
  if (heap.frames heap.rootDir (i686VmGetPge .dir atVirtAddr)).isPresent then .ok (heap.mm, none)
  else ops.allocPage heap.mm

/-- `vm_arch_pt_map` with the page for the table. -/
def heapPtMap {Mm : Type} (ops : MmOps Mm) (heap : Kheap Mm) (physAddr atVirtAddr : Nat) :
    Outcome (Kheap Mm) := do
  let (mm, page) ← tablePage ops heap atVirtAddr
  let frames ← vmArchPtMap heap.frames heap.rootDir page physAddr atVirtAddr heapVmFlags
  .ok { heap with frames := frames, mm := mm }

/-- `trimmed` is the heap after `kmm_cache_trim_all`, if the handler gets there. -/
def chunkPgfaultHandler {Mm : Type} (ops : MmOps Mm) (heap : Kheap Mm) (area : HeapChunk)
    (faultAddr : Nat) (trimmed : Outcome (Kheap Mm)) : Outcome (Kheap Mm) := do
  let pageAddr := alignRounddown faultAddr platformPageSize
  if ← isRegisteredPage area pageAddr then .error .panic
  else
    let (mm, page) ← ops.allocPage heap.mm
    match page with
    | some paddr => heapPtMap ops { heap with mm := mm } paddr pageAddr
    | none => do
        let heap ← trimmed
        let (mm, page) ← ops.allocPage heap.mm
        match page with
        | some paddr => heapPtMap ops { heap with mm := mm } paddr pageAddr
        | none => .error .panic

def chunkRegisterPage (chunk : HeapChunk) (pageAddr : Option Nat) :
    Outcome (HeapChunk × Option Nat) :=
  let register (buddy : BuddyManager) (pageNdx : Option Nat) :=
    match pageNdx with
    | none => (chunk, none)
    | some pageNdx =>
        ({ chunk with buddy := buddy, freeSpace := chunk.freeSpace - platformPageSize },
          some (chunk.base + pageNdx * platformPageSize))
  match pageAddr with
  | some addr =>
      match areaPageNdx chunk addr with
      | none => .ok (chunk, none)
      | some pageNdx => do
          let (buddy, success) ← buddyTryAlloc chunk.buddy 0 pageNdx
          .ok (register buddy (if success then some pageNdx else none))
  | none => do
      let (buddy, pageNdx) ← buddyAlloc chunk.buddy 0
      .ok (register buddy pageNdx)

def chunkUnregisterPage {Mm : Type} (ops : MmOps Mm) (heap : Kheap Mm) (chunk : HeapChunk)
    (pageAddr : Nat) : Outcome (Kheap Mm) :=
  match areaPageNdx chunk pageAddr with
  | none => .error .panic
  | some pageNdx => do
      let buddy ← buddyFree chunk.buddy pageNdx 0
      let chunk := { chunk with buddy := buddy, freeSpace := chunk.freeSpace + platformPageSize }
      let heap := { heap with chunks := setChunk heap.chunks chunk }
      let (frames, physAddr) ← vmArchResolvePhysPage heap.frames heap.rootDir pageAddr
      let mm ← ops.freePage heap.mm physAddr
      .ok { heap with frames := frames, mm := mm }

/-- The loops that take pages of a chunk out of use. -/
def reservePage (pageNdx : Nat) (buddy : BuddyManager) (i : Nat) : Outcome BuddyManager := do
  let (buddy, success) ← buddyTryAlloc buddy 0 (pageNdx + i)
  if success then .ok buddy else .error .panic

def preregisterInvalidPages (area : HeapChunk) (addr len : Nat) : Outcome HeapChunk :=
  let invEnd := wrapSub (wrap (addr + len)) 1
  if invEnd < area.base ∨ addr > area.last then .ok area
  else
    let overlapStart := max area.base addr
    let overlapEnd := min area.last invEnd
    let overlapLen := wrap (overlapEnd - overlapStart + 1)
    match areaPageNdx area overlapStart with
    | none => .error .panic
    | some pageNdx => do
        let pages := divCeil overlapLen platformPageSize
        let buddy ← (List.range pages).foldlM (reservePage pageNdx) area.buddy
        .ok { area with buddy := buddy }

/-- `I686VM_PD_RECURSIVE_ADDR`. -/
def recursiveAddr : Nat := recursiveNdx <<< 22

/-- `I686VM_PD_EMERGENCY_ADDR`. -/
def emergencyAddr : Nat := emergencyNdx <<< 22

def vmArchIterReservedVaddresses {Data : Type} (fn : Data → Nat → Nat → Outcome Data)
    (data : Data) : Outcome Data := do
  let data ← fn data recursiveAddr platformPageSize
  fn data emergencyAddr platformPageSize

/-- One page of the bookkeeping of the first chunk gets memory. -/
def mapFirstPage {Mm : Type} (ops : MmOps Mm) (base : Nat) (heap : Kheap Mm) (i : Nat) :
    Outcome (Kheap Mm) := do
  let (mm, p) ← ops.allocPage heap.mm
  kassert (p.isSome = true)
  let paddr ← deref p
  heapPtMap ops { heap with mm := mm } paddr (base + i * platformPageSize)

/-- The number of pages the bookkeeping of a first chunk takes. -/
def firstChunkReqPages (chunkPages : Nat) : Outcome Nat := do
  let reqSpace ← buddyPredictReqSpace chunkPages
  .ok (divCeil reqSpace platformPageSize)

/-- The gap is what `vm_space_find_gap` returns; `memory` is what the memory of
the bookkeeping pages holds. -/
def initFirstChunk {Mm : Type} (ops : MmOps Mm) (memory : Nat → BitVec 32) (heap : Kheap Mm)
    (gapBase gapLength : Nat) : Outcome (Kheap Mm × HeapChunk) := do
  let len := min gapLength confHeapMaxChunkSize
  kassert (checkAlign gapBase platformPageSize)
  kassert (checkAlign len platformPageSize)
  let chunkPages := len / platformPageSize
  let reqPages ← firstChunkReqPages chunkPages
  let heap ← (List.range reqPages).foldlM (mapFirstPage ops gapBase) heap
  let buddyAlloc ← linearAllocInit gapBase (reqPages * platformPageSize)
  let (buddy, _, _) ← buddyInit memory chunkPages buddyAlloc
  let buddy ← (List.range reqPages).foldlM (reservePage 0) buddy
  let chunk := {
    base := gapBase, length := len, buddy := buddy,
    freeSpace := (chunkPages - reqPages) * platformPageSize }
  let chunk ← vmArchIterReservedVaddresses preregisterInvalidPages chunk
  .ok (heap, chunk)

/-- What `create_new_chunk` makes of a gap when `kmm` supplies the area, the
chunk data and the memory `buddyMem` of the manager. -/
def createNewChunk (memory : Nat → BitVec 32) (buddyMem gapBase gapLength : Nat) :
    Outcome HeapChunk := do
  let len := min confHeapMaxChunkSize gapLength
  kassert (checkAlign gapBase platformPageSize)
  kassert (checkAlign len platformPageSize)
  let chunkPages := len / platformPageSize
  let buddySpace ← buddyPredictReqSpace chunkPages
  let buddyAlloc ← linearAllocInit buddyMem buddySpace
  let (buddy, _, _) ← buddyInit memory chunkPages buddyAlloc
  let chunk := { base := gapBase, length := len, freeSpace := len, buddy := buddy }
  vmArchIterReservedVaddresses preregisterInvalidPages chunk

/-- The position the loop of `append_new_chunk` stops at. -/
def insertChunk (chunk : HeapChunk) : List HeapChunk → List HeapChunk
  | [] => [chunk]
  | next :: rest =>
      if chunk.base < next.base then chunk :: next :: rest
      else next :: insertChunk chunk rest

def appendNewChunk {Mm : Type} (heap : Kheap Mm) (chunk : HeapChunk) : Kheap Mm :=
  { heap with
    chunks := insertChunk chunk heap.chunks
    heapFreeSpace := heap.heapFreeSpace + chunk.freeSpace }

def kheapInit {Mm : Type} (ops : MmOps Mm) (memory : Nat → BitVec 32) (heap : Kheap Mm)
    (gapBase gapLength : Nat) : Outcome (Kheap Mm) := do
  let heap := { heap with chunks := [], heapFreeSpace := 0 }
  let (heap, first) ← initFirstChunk ops memory heap gapBase gapLength
  .ok (appendNewChunk heap first)

/-- The test on which `kheap_alloc_page` creates a chunk. -/
def Kheap.Grows {Mm : Type} (heap : Kheap Mm) : Prop := heap.heapFreeSpace = platformPageSize

instance {Mm : Type} (heap : Kheap Mm) : Decidable heap.Grows :=
  inferInstanceAs (Decidable (_ = _))

/-- The chunk `kheap_alloc_page` takes a page from.  `created` is the heap after
`create_new_chunk`, with the chunk or `NULL`. -/
def kheapChooseChunk {Mm : Type} (heap : Kheap Mm)
    (created : Outcome (Kheap Mm × Option HeapChunk)) : Outcome (Kheap Mm × Option HeapChunk) :=
  if heap.Grows then do
    let (heap, chunk) ← created
    match chunk with
    | none => .error .panic
    | some chunk => .ok (appendNewChunk heap chunk, some chunk)
  else do
    kassert (heap.heapFreeSpace > platformPageSize)
    .ok (heap, heap.chunks.find? fun chunk => chunk.freeSpace > 0)

def kheapAllocPage {Mm : Type} (heap : Kheap Mm)
    (created : Outcome (Kheap Mm × Option HeapChunk)) : Outcome (Kheap Mm × Option Nat) := do
  let (heap, chunk) ← kheapChooseChunk heap created
  kassert (chunk.isSome = true)
  let chunk ← deref chunk
  let (chunk, page) ← chunkRegisterPage chunk none
  .ok ({ heap with chunks := setChunk heap.chunks chunk }, page)

/-- The chunk `kheap_free_page` hands a page to. -/
def kheapFreeOrigin (chunks : List HeapChunk) (page : Nat) : Outcome HeapChunk :=
  match chunks.find? fun chunk => chunk.base ≤ page with
  | none => .error .panic
  | some origin => do
      kassert (origin.last > page)
      .ok origin

def kheapFreePage {Mm : Type} (ops : MmOps Mm) (heap : Kheap Mm) (page : Nat) :
    Outcome (Kheap Mm) := do
  let origin ← kheapFreeOrigin heap.chunks page
  chunkUnregisterPage ops heap origin page

end Yaeos
