import Yaeos.I686.Run
import Yaeos.Kheap.Calls

/-!
# Runs of the kernel heap

A call that creates a chunk, and a page fault that trims caches, contain other
calls: `kmm` takes its pages from this heap.  `KheapRun` is the big-step
relation in which such a call contains a whole run.  The state keeps the pages
that were handed out and not freed yet.
-/

namespace Yaeos

/-- What a run decides on, apart from the plain allocations. -/
inductive KheapAction where
  | first (gapBase gapLength : Nat)
  | grow (gapBase gapLength : Nat)
  | touch (addr : Nat)
  | free (page : Nat)
  deriving DecidableEq, Repr

structure KheapSystem (Mm : Type) where
  heap : Kheap Mm
  live : List Nat

/-- A gap of the address space: it lies apart from the chunks of the heap. -/
def GapFree (chunks : List HeapChunk) (gapBase gapLength : Nat) : Prop :=
  gapBase + min gapLength confHeapMaxChunkSize ≤ addressSpace ∧
  ∀ chunk ∈ chunks, chunk.base + chunk.length ≤ gapBase ∨
    gapBase + min gapLength confHeapMaxChunkSize ≤ chunk.base

variable {Mm : Type}

/-- A state after `kheap_init`. -/
def KheapInitial (ops : MmOps Mm) (allowed : KheapSystem Mm → KheapAction → Prop)
    (start : KheapSystem Mm) : Prop :=
  ∃ heap memory gapBase gapLength, GapFree [] gapBase gapLength ∧
    allowed ⟨heap, []⟩ (.first gapBase gapLength) ∧
    kheapInit ops memory heap gapBase gapLength = .ok start.heap ∧ start.live = []

/-- The runs whose actions are allowed in the state before them. -/
inductive KheapRun (ops : MmOps Mm) (allowed : KheapSystem Mm → KheapAction → Prop) :
    KheapSystem Mm → KheapSystem Mm → Prop where
  | refl (start) : KheapRun ops allowed start start
  /-- An allocation from a chunk of the list. -/
  | alloc {start before : KheapSystem Mm} {heap page} :
      KheapRun ops allowed start before →
      ¬before.heap.Grows →
      kheapAllocPage before.heap (.error .unfinished) = .ok (heap, page) →
      KheapRun ops allowed start ⟨heap, page.toList ++ before.live⟩
  /-- An allocation that creates a chunk; other calls happen before the chunk is appended. -/
  | grow {start before middle : KheapSystem Mm} {heap page memory buddyMem gapBase gapLength chunk} :
      KheapRun ops allowed start before →
      before.heap.Grows →
      KheapRun ops allowed before middle →
      GapFree middle.heap.chunks gapBase gapLength →
      allowed middle (.grow gapBase gapLength) →
      createNewChunk memory buddyMem gapBase gapLength = .ok chunk →
      kheapAllocPage before.heap (.ok (middle.heap, some chunk)) = .ok (heap, page) →
      KheapRun ops allowed start ⟨heap, page.toList ++ middle.live⟩
  /-- A page fault that finds a free frame. -/
  | touch {start before : KheapSystem Mm} {heap chunk addr} :
      KheapRun ops allowed start before →
      chunk ∈ before.heap.chunks → chunk.Contains addr →
      allowed before (.touch addr) →
      chunkPgfaultHandler ops before.heap chunk addr (.error .unfinished) = .ok heap →
      KheapRun ops allowed start ⟨heap, before.live⟩
  /-- A page fault that trims the caches first. -/
  | trim {start before middle : KheapSystem Mm} {heap chunk addr mm} :
      KheapRun ops allowed start before →
      chunk ∈ before.heap.chunks → chunk.Contains addr →
      ops.allocPage before.heap.mm = .ok (mm, none) →
      KheapRun ops allowed ⟨{ before.heap with mm := mm }, before.live⟩ middle →
      allowed middle (.touch addr) →
      chunkPgfaultHandler ops before.heap chunk addr (.ok middle.heap) = .ok heap →
      KheapRun ops allowed start ⟨heap, middle.live⟩
  | free {start before : KheapSystem Mm} {heap page} :
      KheapRun ops allowed start before →
      page ∈ before.live →
      allowed before (.free page) →
      kheapFreePage ops before.heap page = .ok heap →
      KheapRun ops allowed start ⟨heap, before.live.erase page⟩

def KheapReachable (ops : MmOps Mm) (allowed : KheapSystem Mm → KheapAction → Prop)
    (system : KheapSystem Mm) : Prop :=
  ∃ start, KheapInitial ops allowed start ∧ KheapRun ops allowed start system

variable {ops : MmOps Mm} {allowed : KheapSystem Mm → KheapAction → Prop}
  {start system : KheapSystem Mm}

theorem KheapInitial.exists_chunk (initial : KheapInitial ops allowed start) :
    ∃ heap mapped chunk gapBase gapLength, allowed ⟨heap, []⟩ (.first gapBase gapLength) ∧
      start = ⟨{ mapped with chunks := [chunk], heapFreeSpace := chunk.freeSpace }, []⟩ ∧
      chunk.Sound ∧ chunk.base = gapBase ∧
      chunk.length = min gapLength confHeapMaxChunkSize ∧ ReservedTaken chunk ∧
      ∃ reqPages ≤ chunk.pages, firstChunkReqPages chunk.pages = .ok reqPages ∧
        (List.range reqPages).foldlM (mapFirstPage ops gapBase)
          { heap with chunks := [], heapFreeSpace := 0 } = .ok mapped ∧
        ∀ ndx < reqPages, chunk.buddy.bit 0 ndx = true := by
  obtain ⟨heap, memory, gapBase, gapLength, ⟨inside, -⟩, permitted, init, noLive⟩ := initial
  simp only [kheapInit, Outcome.bind_eq_ok, Except.ok.injEq] at init
  obtain ⟨⟨mapped, chunk⟩, first, appended⟩ := init
  obtain ⟨sound, base, length, reserved, reqPages, room, required, mapping, fixed⟩ :=
    initFirstChunk_spec inside first
  obtain ⟨noChunks, noSpace, -⟩ := mapFirstPages_sameChunks mapping
  refine ⟨heap, mapped, chunk, gapBase, gapLength, permitted, ?_, sound, base, length,
    reserved, reqPages, room, required, mapping, fixed⟩
  have isHeap : start.heap =
      { mapped with chunks := [chunk], heapFreeSpace := chunk.freeSpace } := by
    rw [← appended, appendNewChunk, noChunks, noSpace, insertChunk, Nat.zero_add]
  rw [← isHeap, ← noLive]

/-- The chunks are sound, and the global counter is too high by the live pages. -/
structure Counted (system : KheapSystem Mm) : Prop where
  sound : ChunksSound system.heap.chunks
  balance : system.heap.heapFreeSpace =
    freeSpaceSum system.heap.chunks + platformPageSize * system.live.length

theorem counted_of_initial (initial : KheapInitial ops allowed start) : Counted start := by
  obtain ⟨_, _, chunk, _, _, -, rfl, sound, -⟩ := initial.exists_chunk
  exact ⟨sound.singleton, by simp [freeSpaceSum]⟩

theorem Counted.takes {heap : Kheap Mm} {page : Option Nat}
    (counted : Counted system) (takes : TakesPage system.heap page heap) :
    Counted ⟨heap, page.toList ++ system.live⟩ := by
  obtain ⟨sound, counter, sum⟩ := takes.counts counted.sound
  have balance := counted.balance
  refine ⟨sound, ?_⟩
  simp only [List.length_append, Nat.mul_add]
  omega

theorem GapFree.apart {chunks : List HeapChunk} {chunk : HeapChunk} {gapBase gapLength : Nat}
    (free : GapFree chunks gapBase gapLength) (base : chunk.base = gapBase)
    (length : chunk.length = min gapLength confHeapMaxChunkSize) :
    ∀ other ∈ chunks, other.Apart chunk := by
  intro other member
  unfold HeapChunk.Apart HeapChunk.Before
  rw [base, length]
  exact free.2 other member

/-- A chunk is appended; both counters get its free space. -/
theorem Counted.append {memory : Nat → BitVec 32} {buddyMem gapBase gapLength : Nat}
    {chunk : HeapChunk} (counted : Counted system)
    (free : GapFree system.heap.chunks gapBase gapLength)
    (created : createNewChunk memory buddyMem gapBase gapLength = .ok chunk) :
    Counted ⟨appendNewChunk system.heap chunk, system.live⟩ := by
  obtain ⟨chunkSound, base, length, -⟩ := createNewChunk_spec free.1 created
  have balance := counted.balance
  refine ⟨counted.sound.insertChunk chunkSound (free.apart base length), ?_⟩
  simp only [appendNewChunk, freeSpaceSum_insertChunk]
  omega

theorem Counted.sameChunks {heap : Kheap Mm} (counted : Counted system)
    (same : SameChunks heap system.heap) : Counted ⟨heap, system.live⟩ := by
  refine ⟨?_, ?_⟩
  · rw [same.1]
    exact counted.sound
  · rw [same.1, same.2.1]
    exact counted.balance

/-- An invariant that only looks at the chunks and the live pages: a step takes a
page, appends a chunk, frees a page or leaves the chunks as they are. -/
theorem KheapRun.invariant {Invariant : KheapSystem Mm → Prop}
    (takes : ∀ system heap page, Invariant system → TakesPage system.heap page heap →
      Invariant ⟨heap, page.toList ++ system.live⟩)
    (append : ∀ system memory buddyMem gapBase gapLength chunk, Invariant system →
      GapFree system.heap.chunks gapBase gapLength → allowed system (.grow gapBase gapLength) →
      createNewChunk memory buddyMem gapBase gapLength = .ok chunk →
      Invariant ⟨appendNewChunk system.heap chunk, system.live⟩)
    (frees : ∀ system heap page, Invariant system → page ∈ system.live →
      kheapFreePage ops system.heap page = .ok heap →
      Invariant ⟨heap, system.live.erase page⟩)
    (remaps : ∀ system heap, Invariant system → SameChunks heap system.heap →
      Invariant ⟨heap, system.live⟩)
    (run : KheapRun ops allowed start system) (base : Invariant start) : Invariant system := by
  induction run with
  | refl => exact base
  | alloc _ stays allocated inductionHypothesis =>
      exact takes _ _ _ (inductionHypothesis base) (kheapAllocPage_existing stays allocated)
  | @grow _ _ middle _ _ _ _ _ _ chunk _ grows _ free permitted created allocated
      beforeHypothesis middleHypothesis =>
      obtain ⟨sound, -, -, space, -⟩ := createNewChunk_spec free.1 created
      have hasSpace : 0 < chunk.freeSpace := space ▸ sound.proper.positive
      apply takes ⟨appendNewChunk middle.heap chunk, middle.live⟩ _ _
      · exact append middle _ _ _ _ _ (middleHypothesis (beforeHypothesis base)) free permitted
          created
      · exact kheapAllocPage_grown grows hasSpace allocated
  | touch _ _ _ _ handled inductionHypothesis =>
      obtain ⟨-, _, _, -, mapped⟩ := chunkPgfaultHandler_touched handled
      exact remaps _ _ (inductionHypothesis base)
        ((heapPtMap_sameChunks mapped).trans ⟨rfl, rfl, rfl⟩)
  | trim _ _ _ full _ _ handled beforeHypothesis middleHypothesis =>
      have middleHolds := middleHypothesis (remaps _ _ (beforeHypothesis base) ⟨rfl, rfl, rfl⟩)
      obtain ⟨-, _, _, -, mapped⟩ := chunkPgfaultHandler_trimmed full handled
      exact remaps _ _ middleHolds ((heapPtMap_sameChunks mapped).trans ⟨rfl, rfl, rfl⟩)
  | free _ member _ freed inductionHypothesis =>
      exact frees _ _ _ (inductionHypothesis base) member freed

theorem Counted.free {heap : Kheap Mm} {page : Nat} (counted : Counted system)
    (member : page ∈ system.live) (freed : kheapFreePage ops system.heap page = .ok heap) :
    Counted ⟨heap, system.live.erase page⟩ := by
  obtain ⟨sound, counter, sum⟩ := kheapFreePage_counts freed counted.sound
  have balance := counted.balance
  have erased : (system.live.erase page).length + 1 = system.live.length :=
    List.length_erase_add_one member
  refine ⟨sound, ?_⟩
  show heap.heapFreeSpace = freeSpaceSum heap.chunks +
    platformPageSize * (system.live.erase page).length
  rw [counter, sum, balance, ← erased, Nat.mul_add]
  omega

theorem Counted.run (run : KheapRun ops allowed start system) (counted : Counted start) :
    Counted system :=
  run.invariant (fun _ _ _ counted takes => counted.takes takes)
    (fun _ _ _ _ _ _ counted free _ created => counted.append free created)
    (fun _ _ _ counted member freed => counted.free member freed)
    (fun _ _ counted same => counted.sameChunks same) counted

theorem counted_of_reachable (reached : KheapReachable ops allowed system) : Counted system := by
  obtain ⟨start, initial, run⟩ := reached
  exact (counted_of_initial initial).run run

/-- The global counter is the sum of the free spaces, and one page of free space
makes the next allocation create a chunk, exactly while no page is live. -/
theorem heapFreeSpace_iff (reached : KheapReachable ops allowed system) :
    (system.heap.heapFreeSpace = freeSpaceSum system.heap.chunks ∧
      (freeSpaceSum system.heap.chunks = platformPageSize → system.heap.Grows)) ↔
    system.live = [] := by
  have balance := (counted_of_reachable reached).balance
  have positive : 0 < platformPageSize := by decide
  constructor
  · rintro ⟨equal, -⟩
    have none_ : platformPageSize * system.live.length = 0 := by omega
    rcases Nat.mul_eq_zero.mp none_ with zero | empty
    · exact absurd zero (Nat.ne_of_gt positive)
    · exact List.length_eq_zero_iff.mp empty
  · intro noLive
    rw [noLive, List.length_nil, Nat.mul_zero, Nat.add_zero] at balance
    exact ⟨balance, fun last => balance.trans last⟩

/-- Page frames are handed out one after another, as long as there are some. -/
def countingOps : MmOps Nat where
  allocPage next :=
    if next * platformPageSize < addressSpace then
      .ok (next + 1, some (next * platformPageSize))
    else .ok (next, none)
  freePage next _ := .ok next

/-- A heap before `kheap_init`, over a directory with the recursive entry only. -/
def directoryHeap : Kheap Nat :=
  { chunks := [], heapFreeSpace := 0, rootDir := 1, frames := PageTableCall.firstDirectory, mm := 16 }

/-- The heap after `kheap_init` with a gap of some pages. -/
def heapOfGap (gapBase pages : Nat) : Option (Kheap Nat) :=
  (kheapInit countingOps (fun _ => 0) directoryHeap gapBase (pages * platformPageSize)).toOption

/-- Allocate some pages, none of them by creating a chunk. -/
def allocPages : (calls : Nat) → KheapSystem Nat → Option (KheapSystem Nat)
  | 0, system => some system
  | calls + 1, system => do
      let (heap, page) ← (kheapAllocPage system.heap (.error .unfinished)).toOption
      allocPages calls ⟨heap, page.toList ++ system.live⟩

/-- The state after `kheap_init` with a gap of some pages and some allocations. -/
def drained (gapBase pages calls : Nat) : Option (KheapSystem Nat) := do
  let heap ← heapOfGap gapBase pages
  allocPages calls ⟨heap, []⟩

theorem allocPages_run {allowed : KheapSystem Nat → KheapAction → Prop} {calls : Nat}
    {start before final : KheapSystem Nat} (run : KheapRun countingOps allowed start before)
    (allocated : allocPages calls before = some final) :
    KheapRun countingOps allowed start final := by
  induction calls generalizing before with
  | zero =>
      cases allocated
      exact run
  | succ calls inductionHypothesis =>
      simp only [allocPages, Option.bind_eq_bind, Option.bind_eq_some_iff,
        Outcome.toOption_eq_some] at allocated
      obtain ⟨⟨heap, page⟩, returned, rest⟩ := allocated
      have stays : ¬before.heap.Grows := by
        intro grows
        simp [kheapAllocPage, kheapChooseChunk, grows] at returned
      exact inductionHypothesis (run.alloc stays returned) rest

theorem drained_reachable {gapBase pages calls : Nat} {system : KheapSystem Nat}
    (inside : gapBase + min (pages * platformPageSize) confHeapMaxChunkSize ≤ addressSpace)
    (allowed : KheapSystem Nat → KheapAction → Prop)
    (permitted : allowed ⟨directoryHeap, []⟩ (.first gapBase (pages * platformPageSize)))
    (executed : drained gapBase pages calls = some system) :
    KheapReachable countingOps allowed system := by
  simp only [drained, heapOfGap, Option.bind_eq_bind, Option.bind_eq_some_iff,
    Outcome.toOption_eq_some] at executed
  obtain ⟨heap, initialised, allocated⟩ := executed
  exact ⟨⟨heap, []⟩, ⟨directoryHeap, fun _ => 0, gapBase, pages * platformPageSize,
    ⟨inside, by simp⟩, permitted, initialised, rfl⟩, allocPages_run (.refl _) allocated⟩

theorem threePages_counted : ∃ system, drained 0xc0000000 3 0 = some system ∧
    system.heap.heapFreeSpace = freeSpaceSum system.heap.chunks := by
  have result : (drained 0xc0000000 3 0).map (fun system => system.live) = some [] := by decide
  obtain ⟨system, executed, noLive⟩ := Option.map_eq_some_iff.mp result
  have reached := drained_reachable (by decide) (fun _ _ => True) trivial executed
  exact ⟨system, executed, ((heapFreeSpace_iff reached).mpr noLive).1⟩

/-- A heap with one page for its bookkeeping and two for use: when both are taken
the counter still shows them, no chunk is created and the next allocation finds
no chunk with space. -/
theorem threePages_exhausted : ∃ system, KheapReachable countingOps (fun _ _ => True) system ∧
    system.heap.heapFreeSpace = 8192 ∧ freeSpaceSum system.heap.chunks = 0 ∧
    ∀ created, kheapAllocPage system.heap created = .error .kassert := by
  have result : (drained 0xc0000000 3 2).map (fun system => (system.heap.heapFreeSpace,
      system.heap.chunks.map HeapChunk.freeSpace)) = some (8192, [0]) := by decide
  obtain ⟨system, executed, shape⟩ := Option.map_eq_some_iff.mp result
  simp only [Prod.mk.injEq] at shape
  obtain ⟨counter, spaces⟩ := shape
  have reached := drained_reachable (by decide) (fun _ _ => True) trivial executed
  have stays : ¬system.heap.Grows := by
    unfold Kheap.Grows
    rw [counter]
    decide
  have noSpace : system.heap.chunks.find? (fun chunk => chunk.freeSpace > 0) = none := by
    rw [List.find?_eq_none]
    intro chunk member
    have zero : chunk.freeSpace ∈ system.heap.chunks.map HeapChunk.freeSpace :=
      List.mem_map_of_mem member
    rw [spaces, List.mem_singleton] at zero
    simp [zero]
  refine ⟨system, reached, counter, by simp [freeSpaceSum, spaces], fun created => ?_⟩
  rw [kheapAllocPage, kheapChooseChunk, if_neg stays,
    kassert_ok (show system.heap.heapFreeSpace > platformPageSize by rw [counter]; decide),
    Outcome.ok_bind, noSpace]
  rfl

end Yaeos
