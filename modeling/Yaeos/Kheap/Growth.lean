import Yaeos.Kheap.Bookkeeping
import Yaeos.Kmm.Host
import Yaeos.VmSpace.NewArea

/-!
# The heap that grows with itself (`kernel/kheap.c`, `kernel/mm/vm.c`)

`create_new_chunk` takes a virtual area, an object for the chunk data and a block for
the manager, all from the caches, and the caches take their pages from
`kheap_alloc_page`.  The function behind `ALLOC_PAGE_FN` is a part of the host; with
`kheapAllocPageFn` it is the heap itself, for calls in each other up to a depth.

The data of an area apart from its base and length, and that of the chunk apart from
its manager and its free space, are left out.
-/

namespace Yaeos

/-- `AREAS_CACHE`. -/
def areasCache : KmmCacheRef := .storage 0

/-- `CHUNK_DATA_CACHE`. -/
def chunkDataCache : KmmCacheRef := .storage 1

/-- `sizeof(struct vm_area)`, with the colour that a debug build keeps in a node. -/
def sizeofVmArea : Nat := 56

/-- `sizeof(struct chunk_data)`. -/
def sizeofChunkData : Nat := 36

/-- What `vm_init` makes of `AREAS_CACHE`. -/
def areasLayout : KmmCacheLayout := ⟨sizeofVmArea, 4, 67, 60, false, false, false⟩

/-- What `kheap_init` makes of `CHUNK_DATA_CACHE`. -/
def chunkDataLayout : KmmCacheLayout := ⟨sizeofChunkData, 4, 101, 40, false, false, false⟩

example : (kmmCacheInit { size := sizeofVmArea, align := 0 }).map
    KmmCache.toKmmCacheLayout = .ok areasLayout := by decide

example : (kmmCacheInit { size := sizeofChunkData, align := 0 }).map
    KmmCache.toKmmCacheLayout = .ok chunkDataLayout := by decide

/-- The part of the kernel that the heap grows in. -/
structure HeapKernel (Mm : Type) where
  /-- `GLOBAL_DATA` and what is behind the pages. -/
  heap : Kheap Mm
  /-- `*VMSPACE`. -/
  space : VmSpace
  /-- `kmalloc.c` on the caches of `kmm.c`. -/
  kmalloc : Kmalloc

namespace HeapKernel

variable {Mm : Type}

def setKmm (kernel : HeapKernel Mm) (kmm : Kmm) : HeapKernel Mm :=
  { kernel with kmalloc := { kernel.kmalloc with kmm := kmm } }

/-- The kernel around the caches, with what is behind `ALLOC_PAGE_FN`. -/
def host (allocPageFn : HeapKernel Mm → Outcome (HeapKernel Mm × Option Nat)) :
    KmmHost (HeapKernel Mm) where
  kmm kernel := kernel.kmalloc.kmm
  setKmm := setKmm
  allocPageFn := allocPageFn
  kmm_setKmm _ _ := rfl
  setKmm_setKmm _ _ _ := rfl
  setKmm_kmm _ := rfl

section

variable (host : KmmHost (HeapKernel Mm))

/-- `vm_new_area_within_space`; the area is named by its object. -/
def vmNewAreaWithinSpace (rounds : Nat) (kernel : HeapKernel Mm) (minSize maxSize : Nat) :
    Outcome (HeapKernel Mm × Option Nat) := do
  kassert (minSize ≤ maxSize)
  let fdata : FindData := { offset := kernel.space.offset, len := minSize }
  let (gap, _) ← vmSpaceFindGap kernel.space findWithLenAndOffset fdata
  let occupyLen := min maxSize gap.len
  let (kernel, newArea) ← host.kmmCacheAlloc kernel areasCache
  match newArea with
  | none => .ok (kernel, none)
  | some newArea => do
      let space ← vmAreaInit kernel.space newArea gap.base occupyLen
      let space ← vmSpaceInsertArea rounds space newArea
      .ok ({ kernel with space := space }, some newArea)

def vmFreeArea (rounds : Nat) (kernel : HeapKernel Mm) (area : Nat) :
    Outcome (HeapKernel Mm) := do
  kassert (area ≠ 0)
  let space ← vmSpaceRemoveArea rounds kernel.space area
  host.kmmCacheFree { kernel with space := space } areasCache area

def kmallocObject (kernel : HeapKernel Mm) (cacheIndex : Nat) :
    Outcome (HeapKernel Mm × Option Nat) := do
  let c ← readSlot kernel.kmalloc.caches cacheIndex
  kassert (c ≠ none)
  let address ← deref c
  let (kernel, object) ← host.kmmCacheAlloc kernel (.created address)
  kassert (checkAlign (object.getD 0) alignofMaxAlign)
  let info ← deref object
  let memory := Function.update kernel.kmalloc.memory info cacheIndex
  .ok ({ kernel with kmalloc := { kernel.kmalloc with memory := memory } },
    some (alignRoundup (wrap (info + sizeofIdentInfo)) alignofMaxAlign))

/-- `kmalloc` inside the kernel. -/
def kmallocBlock (kernel : HeapKernel Mm) (size : Nat) : Outcome (HeapKernel Mm × Option Nat) := do
  let reqSpace := wrap (size + sizeofIdentInfo)
  let pow := (← log2Ceil reqSpace) % 256
  let pow := max pow kernel.kmalloc.lowPow
  let cacheIndex := (pow - kernel.kmalloc.lowPow) % 256
  if cacheIndex ≥ kernel.kmalloc.powers then .ok (kernel, none)
  else kmallocObject host kernel cacheIndex

/-- The part of `create_new_chunk` behind the chunk data.  `memory` is what the words of
the machine hold when the manager is set up. -/
def createChunkBuddy (rounds : Nat) (memory : Nat → BitVec 32) (kernel : HeapKernel Mm)
    (chunk data : Nat) : Outcome (HeapKernel Mm × Option HeapChunk) := do
  let area := kernel.space.areas chunk
  let buddySpace ← buddyPredictReqSpace (area.length / platformPageSize)
  let (kernel, buddyMem) ← kmallocBlock host kernel buddySpace
  match buddyMem with
  | none => do
      let kernel ← host.kmmCacheFree kernel chunkDataCache data
      let kernel ← vmFreeArea host rounds kernel chunk
      .ok (kernel, none)
  | some buddyMem => do
      let chunk ← Yaeos.createNewChunk memory buddyMem area.base area.length
      .ok (kernel, some chunk)

/-- The part of `create_new_chunk` behind the area. -/
def createChunkData (rounds : Nat) (memory : Nat → BitVec 32) (kernel : HeapKernel Mm)
    (chunk : Nat) : Outcome (HeapKernel Mm × Option HeapChunk) := do
  let (kernel, data) ← host.kmmCacheAlloc kernel chunkDataCache
  match data with
  | none => do
      let kernel ← vmFreeArea host rounds kernel chunk
      .ok (kernel, none)
  | some data => createChunkBuddy host rounds memory kernel chunk data

def createNewChunk (rounds : Nat) (memory : Nat → BitVec 32) (kernel : HeapKernel Mm) :
    Outcome (HeapKernel Mm × Option HeapChunk) := do
  let (kernel, chunk) ←
    vmNewAreaWithinSpace host rounds kernel chunkAreaMinSpace confHeapMaxChunkSize
  match chunk with
  | none => .ok (kernel, none)
  | some chunk => createChunkData host rounds memory kernel chunk

end

/-- `kheap_alloc_page`, with `create_new_chunk` as an argument. -/
def kheapAllocPage (createNewChunk : HeapKernel Mm → Outcome (HeapKernel Mm × Option HeapChunk))
    (kernel : HeapKernel Mm) : Outcome (HeapKernel Mm × Option Nat) := do
  let (after, chunk) ← if kernel.heap.Grows then createNewChunk kernel else .ok (kernel, none)
  let (heap, page) ← Yaeos.kheapAllocPage kernel.heap (.ok (after.heap, chunk))
  .ok ({ after with heap := heap }, page)

/-- The function that `kernel_init` gives to `kmm_init`; the calls contain each other as
deep as `depth`. -/
def kheapAllocPageFn (rounds : Nat) (memory : Nat → BitVec 32) :
    (depth : Nat) → HeapKernel Mm → Outcome (HeapKernel Mm × Option Nat)
  | 0 => fun _ => .error .unfinished
  | depth + 1 =>
      kheapAllocPage (createNewChunk (host (kheapAllocPageFn rounds memory depth)) rounds memory)

end HeapKernel

end Yaeos
