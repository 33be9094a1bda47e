import Yaeos.Kheap.Growth
import Yaeos.Kheap.Run
import Yaeos.Kmm.Run

/-!
# Growth that needs the heap it grows

With one page of free space left `kheap_alloc_page` creates a chunk before it takes
the page, and `create_new_chunk` starts with an object for an area.  Where
`AREAS_CACHE` has no slab, the object needs a page, and `kheap_alloc_page` is called
again in the same state.  The page that is kept for this is never used.

No page is taken from a heap that starts with one page of free space, so there
`AREAS_CACHE` has no slab: each allocation contains another one.
-/

namespace Yaeos

variable {Mm : Type}

/-! ## The global counter in a run -/

section

variable {ops : MmOps Mm} {allowed : KheapSystem Mm → KheapAction → Prop}
  {start system : KheapSystem Mm}

theorem kheapFreePage_counter {heap next : Kheap Mm} {page : Nat}
    (freed : kheapFreePage ops heap page = .ok next) :
    next.heapFreeSpace = heap.heapFreeSpace := by
  obtain ⟨_, _, _, _, -, -, -, -, -, -, counter, -⟩ := kheapFreePage_cases freed
  exact counter

/-- The counter never goes down. -/
theorem KheapRun.counter_le (run : KheapRun ops allowed start system) :
    start.heap.heapFreeSpace ≤ system.heap.heapFreeSpace := by
  let AtLeast (system : KheapSystem Mm) : Prop :=
    start.heap.heapFreeSpace ≤ system.heap.heapFreeSpace
  have base : AtLeast start := Nat.le_refl _
  refine run.invariant (fun system heap page (atLeast : AtLeast system) takes => ?_)
    (fun system memory buddyMem gapBase gapLength chunk (atLeast : AtLeast system) _ _ _ => ?_)
    (fun system heap page (atLeast : AtLeast system) _ freed => ?_)
    (fun system heap (atLeast : AtLeast system) same => ?_) base
  · obtain ⟨_, -, -, _, -, rfl⟩ := takes
    exact atLeast
  · exact Nat.le_trans atLeast (Nat.le_add_right ..)
  · exact Nat.le_trans atLeast (kheapFreePage_counter freed).ge
  · exact Nat.le_trans atLeast same.2.1.ge

/-- While an allocation would create a chunk, no page is live. -/
theorem KheapRun.noneLive (run : KheapRun ops allowed start system)
    (base : start.heap.Grows → start.live = []) : system.heap.Grows → system.live = [] := by
  induction run with
  | refl => exact base
  | alloc _ stays allocated =>
      intro grows
      obtain ⟨_, -, -, _, -, rfl⟩ := kheapAllocPage_existing stays allocated
      exact absurd grows stays
  | @grow _ before middle _ _ _ _ _ _ chunk _ beforeGrows run free _ created allocated =>
      -- The new chunk has a page at least, and the counter is more than one page.
      intro grows
      obtain ⟨sound, -, -, space, -⟩ := createNewChunk_spec free.1 created
      have hasSpace : 0 < chunk.freeSpace := space ▸ sound.proper.positive
      obtain ⟨_, -, -, _, -, rfl⟩ := kheapAllocPage_grown beforeGrows hasSpace allocated
      have atLeast := run.counter_le
      have more : middle.heap.heapFreeSpace + chunk.freeSpace = platformPageSize := grows
      have last : before.heap.heapFreeSpace = platformPageSize := beforeGrows
      omega
  | touch _ _ _ _ handled inductionHypothesis =>
      intro grows
      obtain ⟨-, _, _, -, mapped⟩ := chunkPgfaultHandler_touched handled
      exact inductionHypothesis base ((heapPtMap_sameChunks mapped).2.1.symm.trans grows)
  | trim _ _ _ full _ _ handled beforeHypothesis middleHypothesis =>
      intro grows
      obtain ⟨-, _, _, -, mapped⟩ := chunkPgfaultHandler_trimmed full handled
      exact middleHypothesis (beforeHypothesis base)
        ((heapPtMap_sameChunks mapped).2.1.symm.trans grows)
  | free _ member _ freed inductionHypothesis =>
      intro grows
      have before := inductionHypothesis base ((kheapFreePage_counter freed).symm.trans grows)
      rw [before] at member
      exact absurd member List.not_mem_nil

theorem noneLive_of_reachable (reached : KheapReachable ops allowed system)
    (grows : system.heap.Grows) : system.live = [] := by
  obtain ⟨start, initial, run⟩ := reached
  obtain ⟨_, _, _, _, _, -, -, noLive⟩ := initial
  exact run.noneLive (fun _ => noLive) grows

end

namespace HeapKernel

variable {kernel : HeapKernel Mm} {live : List Nat} {memory : Nat → BitVec 32}

/-- `AREAS_CACHE` is set up, and the pages of its slabs come from the heap. -/
structure Settled (kernel : HeapKernel Mm) (live : List Nat) : Prop where
  paged : kernel.space.Paged
  areasIs : kernel.kmalloc.kmm.layout areasCache = areasLayout
  areaPages : ∀ slab ∈ (kernel.kmalloc.kmm.cache areasCache).allSlabs,
    kernel.kmalloc.kmm.page (areasCache, slab) ∈ live

/-- `kheap_alloc_page` ends, in whatever way, if there is room for enough calls in each
other. -/
def Terminates (kernel : HeapKernel Mm) (memory : Nat → BitVec 32) : Prop :=
  ∃ enough, ∀ rounds ≥ enough, ∀ depth ≥ enough,
    kheapAllocPageFn rounds memory depth kernel ≠ .error .unfinished

/-- Caches whose pages are live pages of the heap. -/
theorem settled_of_consistent {storage : List Nat} {objects : List KmmEntry}
    (paged : kernel.space.Paged) (areasIs : kernel.kmalloc.kmm.layout areasCache = areasLayout)
    (consistent : KmmSystem.Consistent ⟨kernel.kmalloc.kmm, storage, objects⟩)
    (known : areasCache ∈ kernel.kmalloc.kmm.known storage)
    (pages : ∀ page, kernel.kmalloc.kmm.InUse page → page ∈ live) : kernel.Settled live := by
  obtain ⟨users, view, ok⟩ := consistent
  refine ⟨paged, areasIs, fun slab listed => pages _ (ok.accounted.laidOut.inUse ?_)⟩
  exact List.mem_append_left _
    (List.mem_map_of_mem (((ok.caches areasCache known).listed slab).mp listed))

/-! ## With one page left -/

/-- A cache without a slab asks for a page first. -/
theorem alloc_noSlab (host : KmmHost (HeapKernel Mm)) {ref : KmmCacheRef} {fault : Fault}
    (small : ((host.kmm kernel).cache ref).large = false)
    (noSlab : ((host.kmm kernel).cache ref).allSlabs = [])
    (fails : host.allocPageFn kernel = .error fault) :
    host.kmmCacheAlloc kernel ref = .error fault := by
  unfold KmmCache.allSlabs at noSlab
  obtain ⟨⟨noEmpty, noPartial⟩, -⟩ := List.append_eq_nil_iff.mp noSlab |>.imp
    List.append_eq_nil_iff.mp id
  have nothing : findExistingSlab (host.kmm kernel) ref = .ok (host.kmm kernel, none) := by
    simp only [findExistingSlab, noPartial, noEmpty]
  show host.cacheAlloc (host.calls 1) kernel ref = .error fault
  simp only [KmmHost.cacheAlloc, KmmHost.chooseSlab, nothing, KmmHost.lift, Except.map,
    KmmHost.setKmm_kmm, Outcome.ok_bind, KmmHost.getNewSlab, small, Bool.false_eq_true, if_false,
    KmmHost.slabCreateSmall, KmmHost.pageAlloc, fails, Outcome.error_bind]

/-- However deep the calls may be, each of them contains another one. -/
theorem kheapAllocPageFn_unfinished (grows : kernel.heap.Grows) (settled : kernel.Settled [])
    (rounds : Nat) (memory : Nat → BitVec 32) (depth : Nat) :
    kheapAllocPageFn rounds memory depth kernel = .error .unfinished := by
  have noSlab : (kernel.kmalloc.kmm.cache areasCache).allSlabs = [] :=
    List.eq_nil_iff_forall_not_mem.mpr fun slab listed =>
      List.not_mem_nil (settled.areaPages slab listed)
  have small : (kernel.kmalloc.kmm.cache areasCache).large = false :=
    congrArg KmmCacheLayout.large settled.areasIs
  have ordered : chunkAreaMinSpace ≤ confHeapMaxChunkSize := by decide
  obtain ⟨range, found, -⟩ := settled.paged.findGap_first chunkAreaMinSpace
  induction depth with
  | zero => rfl
  | succ depth inductionHypothesis =>
      have noObject : (host (kheapAllocPageFn rounds memory depth)).kmmCacheAlloc kernel
          areasCache = .error .unfinished := alloc_noSlab _ small noSlab inductionHypothesis
      simp only [kheapAllocPageFn, kheapAllocPage, if_pos grows, createNewChunk,
        vmNewAreaWithinSpace, kassert_ok ordered, found, noObject, Outcome.ok_bind,
        Outcome.error_bind]

/-! ## With more pages left -/

theorem chunkRegisterPage_returns {chunk : HeapChunk} (sound : chunk.Sound) :
    ∃ answer, chunkRegisterPage chunk none = .ok answer := by
  unfold chunkRegisterPage
  rcases sound.tracks.alloc with ⟨_, -, -, -, _, alloc, -⟩ | ⟨-, alloc⟩
  · simp only [alloc, Outcome.ok_bind]
    exact ⟨_, rfl⟩
  · simp only [alloc, Outcome.ok_bind]
    exact ⟨_, rfl⟩

/-- A page of a chunk that is there is taken without another call. -/
theorem kheapAllocPageFn_finishes (sound : ChunksSound kernel.heap.chunks)
    (more : platformPageSize < kernel.heap.heapFreeSpace) (rounds : Nat)
    (memory : Nat → BitVec 32) (depth : Nat) :
    kheapAllocPageFn rounds memory (depth + 1) kernel ≠ .error .unfinished := by
  have stays : ¬kernel.heap.Grows := Nat.ne_of_gt more
  have enough : kernel.heap.heapFreeSpace > platformPageSize := more
  simp only [kheapAllocPageFn, kheapAllocPage, if_neg stays, Outcome.ok_bind,
    Yaeos.kheapAllocPage, kheapChooseChunk, kassert_ok enough]
  cases found : kernel.heap.chunks.find? fun chunk => chunk.freeSpace > 0 with
  | none =>
      intro stopped
      cases stopped
  | some chunk =>
      obtain ⟨answer, registered⟩ :=
        chunkRegisterPage_returns (sound.sound chunk (List.mem_of_find?_eq_some found))
      have isSome : (some chunk).isSome = true := rfl
      simp only [kassert_ok isSome, deref_some, registered, Outcome.ok_bind]
      intro stopped
      cases stopped

/-- From a reachable heap with a page of free space `kheap_alloc_page` terminates exactly
if there is more than one page. -/
theorem terminates_iff {ops : MmOps Mm} {allowed : KheapSystem Mm → KheapAction → Prop}
    (reached : KheapReachable ops allowed ⟨kernel.heap, live⟩) (settled : kernel.Settled live)
    (page : platformPageSize ≤ kernel.heap.heapFreeSpace) (memory : Nat → BitVec 32) :
    kernel.Terminates memory ↔ kernel.heap.heapFreeSpace ≠ platformPageSize := by
  constructor
  · rintro ⟨enough, terminates⟩ grows
    have noLive : live = [] := noneLive_of_reachable reached grows
    exact terminates enough (Nat.le_refl _) enough (Nat.le_refl _)
      (kheapAllocPageFn_unfinished grows (noLive ▸ settled) enough memory enough)
  · intro different
    have more : platformPageSize < kernel.heap.heapFreeSpace :=
      Nat.lt_of_le_of_ne page different.symm
    refine ⟨1, fun rounds _ depth deep => ?_⟩
    obtain ⟨depth, rfl⟩ := Nat.exists_eq_succ_of_ne_zero (Nat.ne_of_gt deep)
    exact kheapAllocPageFn_finishes (counted_of_reachable reached).sound more rounds memory depth

/-- The areas after `kheap_init`: the first chunk fills the one gap. -/
def firstSpace (pages : Nat) : Option VmSpace :=
  let base := 0xc0000000
  let length := pages * platformPageSize
  Machine.execute VmSpace.Legal (VmSpace.call 16)
    [.insert 2 ⟨base + length, addressSpace - (base + length)⟩, .insert 1 ⟨base, length⟩]
    (vmSpaceInit VmSpace.noAreas base)

/-- A kernel after `kheap_init` with a first chunk of some pages, and before the first
allocation. -/
def firstKernel (pages : Nat) : Option (HeapKernel Nat) := do
  let heap ← heapOfGap 0xc0000000 pages
  let space ← firstSpace pages
  let caches ← (KmmSystem.booted.perform
    (.initStorage 0 { size := sizeofVmArea, align := 0 })).toOption
  some ⟨heap, space, { KmallocSystem.unstarted with kmm := caches.kmm }⟩

/-- What a first kernel has to be looked at for. -/
def firstShape (kernel : HeapKernel Nat) : Bool × KmmCacheLayout × List Nat × Nat :=
  (decide kernel.space.Paged, kernel.kmalloc.kmm.layout areasCache,
    (kernel.kmalloc.kmm.cache areasCache).allSlabs, kernel.heap.heapFreeSpace)

theorem firstKernel_start {pages freeSpace : Nat}
    (shape : (firstKernel pages).map firstShape = some (true, areasLayout, [], freeSpace)) :
    ∃ kernel, firstKernel pages = some kernel ∧
      KheapReachable countingOps (fun _ _ => True) ⟨kernel.heap, []⟩ ∧ kernel.Settled [] ∧
      kernel.heap.heapFreeSpace = freeSpace := by
  obtain ⟨kernel, built, isShape⟩ := Option.map_eq_some_iff.mp shape
  simp only [firstShape, Prod.mk.injEq, decide_eq_true_eq] at isShape
  obtain ⟨paged, areasIs, noSlab, counter⟩ := isShape
  refine ⟨kernel, built, ?_, ⟨paged, areasIs, ?_⟩, counter⟩
  · simp only [firstKernel, Option.bind_eq_bind, Option.bind_eq_some_iff,
      Option.some.injEq] at built
    obtain ⟨heap, initialised, _, -, _, -, rfl⟩ := built
    have inside : 0xc0000000 + min (pages * platformPageSize) confHeapMaxChunkSize ≤
        addressSpace := Nat.le_trans (Nat.add_le_add_left (Nat.min_le_right ..) _) (by decide)
    have executed : drained 0xc0000000 pages 0 = some ⟨heap, []⟩ := by
      simp only [drained, initialised, Option.bind_eq_bind, Option.bind_some, allocPages]
    exact drained_reachable inside _ trivial executed
  · rw [noSlab]
    exact fun slab listed => absurd listed List.not_mem_nil

/-- A first chunk of three pages has two for the allocations. -/
theorem threePages_terminates : ∃ kernel, firstKernel 3 = some kernel ∧
    kernel.Terminates fun _ => 0 := by
  have shape : (firstKernel 3).map firstShape = some (true, areasLayout, [], 8192) := by
    decide +kernel
  obtain ⟨kernel, built, reached, settled, counter⟩ := firstKernel_start shape
  refine ⟨kernel, built, (terminates_iff reached settled ?_ fun _ => 0).mpr ?_⟩
  · rw [counter]
    decide
  · rw [counter]
    decide

/-- A first chunk of two pages has one. -/
theorem twoPages_not_terminates : ∃ kernel, firstKernel 2 = some kernel ∧
    KheapReachable countingOps (fun _ _ => True) ⟨kernel.heap, []⟩ ∧ kernel.Settled [] ∧
    platformPageSize ≤ kernel.heap.heapFreeSpace ∧ ∀ memory, ¬kernel.Terminates memory := by
  have shape : (firstKernel 2).map firstShape = some (true, areasLayout, [], platformPageSize) := by
    decide +kernel
  obtain ⟨kernel, built, reached, settled, counter⟩ := firstKernel_start shape
  refine ⟨kernel, built, reached, settled, counter.ge, fun memory => ?_⟩
  rintro ⟨enough, terminates⟩
  exact terminates enough (Nat.le_refl _) enough (Nat.le_refl _)
    (kheapAllocPageFn_unfinished counter settled enough memory enough)

end HeapKernel

end Yaeos
