import Yaeos.I686.Tables
import Yaeos.Kheap.Run
import Mathlib.Data.List.Pairwise

/-!
# Heap pages and their mappings

A page fault maps a page that is in use to a frame nobody uses, and as long as no
page is freed this keeps the three states in step: the buddy managers, the page
tables and the physical memory.  `chunk_unregister_page` gives the frame back
without unmapping the page, so a single `kheap_free_page` ends that.
-/

namespace Yaeos

variable {Mm : Type} {ops : MmOps Mm} {occupied : Mm → Nat → Prop} {heap heapNext : Kheap Mm}
  {frames : I686VmFrames} {treeRoot : Nat}

/-- `mm_alloc_page` hands out free frames only, and marks them. -/
structure HandsOutFree (ops : MmOps Mm) (occupied : Mm → Nat → Prop) : Prop where
  page : ∀ mm next paddr, ops.allocPage mm = .ok (next, some paddr) →
    platformPageSize ∣ paddr ∧ paddr < addressSpace ∧ ¬occupied mm paddr ∧
      ∀ other, occupied next other ↔ other = paddr ∨ occupied mm other
  null : ∀ mm next, ops.allocPage mm = .ok (next, none) →
    ∀ other, occupied next other ↔ occupied mm other

/-- The directory and its tables lie in occupied frames. -/
structure Owned (used : Nat → Prop) (frames : I686VmFrames) (treeRoot : Nat) : Prop where
  tables : Tables frames treeRoot
  root : used (treeRoot * platformPageSize)
  table : ∀ ndx < emergencyNdx, (frames treeRoot ndx).isPresent = true →
    used ((frames treeRoot ndx).paddr * platformPageSize)

/-- The page of the recursive window that shows a directory entry. -/
theorem recursive_page {ndx : Nat} (below : ndx < emergencyNdx) :
    getPdeNdx (recursiveAddr + ndx * platformPageSize) = recursiveNdx ∧
      getPteNdx (recursiveAddr + ndx * platformPageSize) = ndx := by
  have base : recursiveAddr = 1023 * 4194304 := by decide
  rw [getPdeNdx_eq, getPteNdx_eq, base]
  unfold emergencyNdx recursiveNdx platformPageSize at *
  omega

/-- The pages of the recursive window show the directory itself. -/
theorem Tables.walk_recursive (tables : Tables frames treeRoot) {ndx frame : Nat}
    (below : ndx < emergencyNdx) :
    walk frames treeRoot (recursiveAddr + ndx * platformPageSize) = some frame ↔
      (frames treeRoot ndx).isPresent = true ∧ (frames treeRoot ndx).paddr = frame := by
  obtain ⟨pde, pte⟩ := recursive_page below
  rw [walk_eq_some, pteOf, pde, pte, tables.recursive.2]
  simp [tables.recursive.1]

theorem fresh_of_unused {used : Nat → Prop} (owned : Owned used frames treeRoot) {paddr : Nat}
    (aligned : platformPageSize ∣ paddr) (unused : ¬used paddr) :
    FreshFrame frames treeRoot paddr := by
  have same : paddr / platformPageSize * platformPageSize = paddr := Nat.div_mul_cancel aligned
  refine ⟨aligned, fun isRoot => ?_, fun ndx below present isTable => ?_⟩
  · apply unused
    rw [← same, isRoot]
    exact owned.root
  · apply unused
    rw [← same, ← isTable]
    exact owned.table ndx below present

/-- What `vm_arch_pt_map` does below the recursive window: the page was unmapped
and has the frame afterwards, a new table is an occupied frame, and every other
page keeps its translation. -/
theorem heapPtMap_spec (spec : HandsOutFree ops occupied)
    (owned : Owned (occupied heap.mm) heap.frames heap.rootDir) {physAddr vaddr : Nat}
    (below : getPdeNdx vaddr < recursiveNdx)
    (mapped : heapPtMap ops heap physAddr vaddr = .ok heapNext) :
    walk heap.frames heap.rootDir vaddr = none ∧
      Owned (occupied heapNext.mm) heapNext.frames heap.rootDir ∧
      (∀ frame, occupied heap.mm frame → occupied heapNext.mm frame) ∧
      walk heapNext.frames heap.rootDir vaddr = some (physAddr >>> 12) ∧
      ∀ other, getPdeNdx other < recursiveNdx →
        ¬(getPdeNdx other = getPdeNdx vaddr ∧ getPteNdx other = getPteNdx vaddr) →
        walk heapNext.frames heap.rootDir other = walk heap.frames heap.rootDir other := by
  obtain ⟨tables, root, table⟩ := owned
  simp only [heapPtMap, Outcome.bind_eq_ok, Except.ok.injEq] at mapped
  obtain ⟨⟨mm, page⟩, tablePage_, frames, returned, rfl⟩ := mapped
  have inTables : getPdeNdx vaddr < emergencyNdx := by
    rcases Nat.lt_or_ge (getPdeNdx vaddr) emergencyNdx with low | high
    · exact low
    · have window : getPdeNdx vaddr = emergencyNdx := by
        unfold emergencyNdx recursiveNdx at *
        omega
      exact absurd returned (tables.vmArchPtMap_emergency window)
  have unmapped := tables.unmapped_of_vmArchPtMap inTables returned
  have grows : (∀ frame, occupied heap.mm frame → occupied mm frame) ∧
      ((heap.frames heap.rootDir (getPdeNdx vaddr)).isPresent = false →
        ∃ paddr, page = some paddr ∧ FreshFrame heap.frames heap.rootDir paddr ∧
          occupied mm paddr) := by
    unfold tablePage at tablePage_
    split at tablePage_
    · next present =>
        cases tablePage_
        refine ⟨fun _ used => used, fun absent => ?_⟩
        rw [show i686VmGetPge .dir vaddr = getPdeNdx vaddr from rfl, absent] at present
        cases present
    · next notPresent =>
        cases page with
        | none =>
            have panics : vmArchPtMap heap.frames heap.rootDir none physAddr vaddr heapVmFlags =
                .error .panic := by
              rw [vmArchPtMap, ensureTable, if_neg notPresent]
              rfl
            rw [panics] at returned
            cases returned
        | some paddr =>
            obtain ⟨aligned, -, unused, marks⟩ := spec.page _ _ _ tablePage_
            exact ⟨fun frame used => (marks frame).mpr (.inr used), fun _ => ⟨paddr, rfl,
              fresh_of_unused ⟨tables, root, table⟩ aligned unused, (marks paddr).mpr (.inl rfl)⟩⟩
  obtain ⟨monotone, new⟩ := grows
  obtain ⟨next, again, tablesNext, walkNext, others⟩ :=
    tables.vmArchPtMap_ok physAddr inTables unmapped heapVmFlags fun absent => by
      obtain ⟨paddr, isSome, fresh, -⟩ := new absent
      exact ⟨paddr, isSome, fresh⟩
  rw [returned] at again
  cases again
  refine ⟨unmapped, ⟨tablesNext, monotone _ root, fun ndx ndxBelow present => ?_⟩, monotone,
    walkNext, fun other otherBelow different => ?_⟩
  · have shown : walk frames heap.rootDir (recursiveAddr + ndx * platformPageSize) =
        some (frames heap.rootDir ndx).paddr :=
      (tablesNext.walk_recursive ndxBelow).mpr ⟨present, rfl⟩
    have elsewhere := (recursive_page ndxBelow).1
    rw [others _ fun same => by rw [elsewhere] at same; omega] at shown
    split at shown
    · next isNew =>
        obtain ⟨paddr, rfl, fresh, used⟩ := new isNew.1
        simp only [Option.map_some, Option.some.injEq] at shown
        rw [← shown, Nat.div_mul_cancel fresh.1]
        exact used
    · obtain ⟨oldPresent, same⟩ := (tables.walk_recursive ndxBelow).mp shown
      rw [← same]
      exact monotone _ (table ndx ndxBelow oldPresent)
  · rw [others other different, if_neg fun isNew => by
      have window := isNew.2.1
      omega]

/-- The addresses of a range have no translation. -/
def Unmapped (frames : I686VmFrames) (treeRoot base length : Nat) : Prop :=
  ∀ addr, base ≤ addr → addr < base + length → walk frames treeRoot addr = none

/-- What the kernel around the heap provides: a directory in occupied frames and
gaps without translations. -/
def GapsUnmapped (occupied : Mm → Nat → Prop) (system : KheapSystem Mm) : KheapAction → Prop
  | .first gapBase gapLength =>
      Owned (occupied system.heap.mm) system.heap.frames system.heap.rootDir ∧
        Unmapped system.heap.frames system.heap.rootDir gapBase
          (min gapLength confHeapMaxChunkSize)
  | .grow gapBase gapLength =>
      Unmapped system.heap.frames system.heap.rootDir gapBase (min gapLength confHeapMaxChunkSize)
  | .touch _ => True
  | .free _ => True

/-- Chunks end below directory entry 1023, and nothing is freed. -/
def KeepsMappings : KheapAction → Prop
  | .first gapBase gapLength => gapBase + min gapLength confHeapMaxChunkSize ≤ recursiveAddr
  | .grow gapBase gapLength => gapBase + min gapLength confHeapMaxChunkSize ≤ recursiveAddr
  | .touch _ => True
  | .free _ => False

def MappingKept (occupied : Mm → Nat → Prop) (system : KheapSystem Mm) (action : KheapAction) :
    Prop :=
  GapsUnmapped occupied system action ∧ KeepsMappings action

/-- The address lies in a chunk of the heap. -/
def HeapAddr (heap : Kheap Mm) (addr : Nat) : Prop :=
  ∃ chunk ∈ heap.chunks, chunk.Contains addr

/-- The mapped pages of a range have frames of their own, and these are occupied. -/
structure OwnFrames (range used : Nat → Prop) (frames : I686VmFrames) (treeRoot : Nat) :
    Prop where
  apart : ∀ addr other frame, range addr → range other →
    walk frames treeRoot addr = some frame → walk frames treeRoot other = some frame →
    addr / platformPageSize = other / platformPageSize
  backed : ∀ addr frame, range addr → walk frames treeRoot addr = some frame →
    used (frame * platformPageSize)

/-- Mapped heap pages are in use in the manager of their chunk, have frames of
their own, and these are occupied. -/
structure InStep (used : Nat → Prop) (heap : Kheap Mm) : Prop where
  allocated : ∀ chunk ∈ heap.chunks, ∀ addr, chunk.Contains addr →
    walk heap.frames heap.rootDir addr ≠ none → chunk.buddy.bit 0 (chunk.ndxOf addr) = true
  frames : OwnFrames (HeapAddr heap) used heap.frames heap.rootDir

theorem getPdeNdx_lt_recursive {addr : Nat} (low : addr < recursiveAddr) :
    getPdeNdx addr < recursiveNdx := by
  have base : recursiveAddr = 1023 * 4194304 := by decide
  rw [getPdeNdx_eq]
  unfold recursiveNdx
  omega

theorem walk_congr {addr other : Nat} (pde : getPdeNdx addr = getPdeNdx other)
    (pte : getPteNdx addr = getPteNdx other) :
    walk frames treeRoot addr = walk frames treeRoot other := by
  simp only [walk, pde, pte]

/-- Mapping a page of a range to a frame that was free. -/
theorem OwnFrames.map {range : Nat → Prop} (spec : HandsOutFree ops occupied)
    (own : OwnFrames range (occupied heap.mm) heap.frames heap.rootDir)
    (owned : Owned (occupied heap.mm) heap.frames heap.rootDir)
    (low : ∀ addr, range addr → addr < recursiveAddr) {mm : Mm} {paddr vaddr : Nat}
    (inRange : range vaddr) (allocated : ops.allocPage heap.mm = .ok (mm, some paddr))
    (mapped : heapPtMap ops { heap with mm := mm } paddr vaddr = .ok heapNext) :
    OwnFrames range (occupied heapNext.mm) heapNext.frames heap.rootDir ∧
      Owned (occupied heapNext.mm) heapNext.frames heap.rootDir ∧
      (∀ frame, occupied heap.mm frame → occupied heapNext.mm frame) ∧
      ∀ addr, range addr → walk heapNext.frames heap.rootDir addr ≠ none →
        addr / platformPageSize = vaddr / platformPageSize ∨
          walk heap.frames heap.rootDir addr ≠ none := by
  obtain ⟨aligned, -, unused, marks⟩ := spec.page _ _ _ allocated
  have ownedMarked : Owned (occupied mm) heap.frames heap.rootDir :=
    ⟨owned.tables, (marks _).mpr (.inr owned.root), fun ndx below present =>
      (marks _).mpr (.inr (owned.table ndx below present))⟩
  obtain ⟨-, ownedNext, monotone, walkNext, others⟩ := heapPtMap_spec spec ownedMarked
    (getPdeNdx_lt_recursive (low vaddr inRange)) mapped
  change Owned _ _ heap.rootDir at ownedNext
  have frameOf : paddr >>> 12 * platformPageSize = paddr := by
    rw [Nat.shiftRight_eq_div_pow]
    exact Nat.div_mul_cancel aligned
  have recursiveFits : recursiveAddr < addressSpace := by decide
  have cases_ : ∀ addr frame, range addr → walk heapNext.frames heap.rootDir addr = some frame →
      (addr / platformPageSize = vaddr / platformPageSize ∧ frame = paddr >>> 12) ∨
      walk heap.frames heap.rootDir addr = some frame := by
    intro addr frame inside found
    by_cases same : getPdeNdx addr = getPdeNdx vaddr ∧ getPteNdx addr = getPteNdx vaddr
    · refine .inl ⟨(page_eq_iff (Nat.lt_trans (low vaddr inRange) recursiveFits)
        (Nat.lt_trans (low addr inside) recursiveFits)).mpr same, ?_⟩
      rw [walk_congr same.1 same.2] at found
      exact Option.some.inj (found.symm.trans walkNext)
    · exact .inr ((others addr (getPdeNdx_lt_recursive (low addr inside)) same).symm.trans found)
  have notOld : ∀ addr, range addr →
      walk heap.frames heap.rootDir addr ≠ some (paddr >>> 12) := by
    intro addr inside found
    have used := own.backed addr _ inside found
    rw [frameOf] at used
    exact unused used
  refine ⟨⟨fun addr other frame inside otherInside found otherFound => ?_,
    fun addr frame inside found => ?_⟩, ownedNext,
    fun frame used => monotone frame ((marks frame).mpr (.inr used)), fun addr inside found => ?_⟩
  · rcases cases_ addr frame inside found with ⟨isPage, rfl⟩ | old
    · rcases cases_ other _ otherInside otherFound with ⟨otherIsPage, -⟩ | otherOld
      · exact isPage.trans otherIsPage.symm
      · exact absurd otherOld (notOld other otherInside)
    · rcases cases_ other frame otherInside otherFound with ⟨-, rfl⟩ | otherOld
      · exact absurd old (notOld addr inside)
      · exact own.apart addr other frame inside otherInside old otherOld
  · rcases cases_ addr frame inside found with ⟨-, rfl⟩ | old
    · rw [frameOf]
      exact monotone paddr ((marks paddr).mpr (.inl rfl))
    · exact monotone _ ((marks _).mpr (.inr (own.backed addr frame inside old)))
  · obtain ⟨frame, isFrame⟩ := Option.ne_none_iff_exists'.mp found
    rcases cases_ addr frame inside isFrame with ⟨isPage, -⟩ | old
    · exact .inl isPage
    · exact .inr (by rw [old]; simp)

/-- What is kept in a run without a free. -/
structure Kept (used : Nat → Prop) (heap : Kheap Mm) : Prop where
  sound : ChunksSound heap.chunks
  low : ∀ chunk ∈ heap.chunks, chunk.base + chunk.length ≤ recursiveAddr
  owned : Owned used heap.frames heap.rootDir
  inStep : InStep used heap

/-- Every chunk is still there, with the pages in use it had. -/
def Keeps (old new : List HeapChunk) : Prop :=
  ∀ chunk ∈ old, ∃ next ∈ new, SameRange next chunk ∧
    ∀ ndx < chunk.pages, chunk.buddy.bit 0 ndx = true → next.buddy.bit 0 ndx = true

theorem Keeps.refl (chunks : List HeapChunk) : Keeps chunks chunks :=
  fun chunk member => ⟨chunk, member, ⟨rfl, rfl⟩, fun _ _ taken => taken⟩

theorem Keeps.trans {first second third : List HeapChunk} (one : Keeps first second)
    (two : Keeps second third) : Keeps first third := by
  intro chunk member
  obtain ⟨middle, middleMember, range, kept⟩ := one chunk member
  obtain ⟨last, lastMember, lastRange, lastKept⟩ := two middle middleMember
  refine ⟨last, lastMember, ⟨lastRange.1.trans range.1, lastRange.2.trans range.2⟩,
    fun ndx inPages taken => ?_⟩
  exact lastKept ndx (range.pages_eq.symm ▸ inPages) (kept ndx inPages taken)

/-- When a page is taken, every chunk of the new list is one of the old list with
more pages in use, and the other way round. -/
theorem TakesPage.keeps {page : Option Nat} (takes : TakesPage heap page heapNext)
    (sound : ChunksSound heap.chunks) :
    Keeps heap.chunks heapNext.chunks ∧ ∀ next ∈ heapNext.chunks, ∃ chunk ∈ heap.chunks,
      SameRange next chunk ∧
      ∀ ndx < chunk.pages, chunk.buddy.bit 0 ndx = true → next.buddy.bit 0 ndx = true := by
  obtain ⟨chunk, member, -, registered, registers, rfl⟩ := takes
  have chunkSound := sound.sound chunk member
  obtain ⟨-, range⟩ := chunkRegisterPage_sound chunkSound registers
  have kept : ∀ ndx < chunk.pages, chunk.buddy.bit 0 ndx = true →
      registered.buddy.bit 0 ndx = true := by
    rcases chunkRegisterPage_cases chunkSound registers with
      ⟨-, rfl⟩ | ⟨_, _, _, _, _, _, bits⟩
    · exact fun _ _ taken => taken
    · exact fun ndx inPages taken => by rw [bits ndx inPages, taken, Bool.or_true]
  refine ⟨fun old oldMember => ?_, fun next nextMember => ?_⟩
  · by_cases replaced : old.base = registered.base
    · have same : old = chunk := sound.base_inj oldMember member (replaced.trans range.1)
      refine ⟨registered, List.mem_map.mpr ⟨old, oldMember, if_pos replaced⟩, ?_⟩
      rw [same]
      exact ⟨range, kept⟩
    · exact ⟨old, List.mem_map.mpr ⟨old, oldMember, if_neg replaced⟩, ⟨rfl, rfl⟩,
        fun _ _ taken => taken⟩
  · rcases mem_setChunk nextMember with rfl | ⟨old, -⟩
    · exact ⟨chunk, member, range, kept⟩
    · exact ⟨next, old, ⟨rfl, rfl⟩, fun _ _ taken => taken⟩

theorem Kept.takes {used : Nat → Prop} {page : Option Nat} (kept : Kept used heap)
    (takes : TakesPage heap page heapNext) :
    Kept used heapNext ∧ Keeps heap.chunks heapNext.chunks := by
  obtain ⟨keeps, back⟩ := takes.keeps kept.sound
  obtain ⟨sound, -, -⟩ := takes.counts kept.sound
  obtain ⟨_, _, _, _, _, changed⟩ := takes
  have frames : heapNext.frames = heap.frames := by rw [changed]
  have rootDir : heapNext.rootDir = heap.rootDir := by rw [changed]
  have old : ∀ addr, HeapAddr heapNext addr → HeapAddr heap addr := by
    rintro addr ⟨next, nextMember, contains⟩
    obtain ⟨chunk, member, range, -⟩ := back next nextMember
    exact ⟨chunk, member, (range.contains_iff addr).mp contains⟩
  refine ⟨⟨sound, fun next nextMember => ?_, ?_, ⟨fun next nextMember addr contains mapped => ?_,
    fun addr other frame inHeap otherInHeap => ?_, fun addr frame inHeap => ?_⟩⟩, keeps⟩
  · obtain ⟨chunk, member, range, -⟩ := back next nextMember
    rw [range.1, range.2]
    exact kept.low chunk member
  · rw [frames, rootDir]
    exact kept.owned
  · obtain ⟨chunk, member, range, taken⟩ := back next nextMember
    rw [frames, rootDir] at mapped
    have inChunk := (range.contains_iff addr).mp contains
    rw [range.ndxOf_eq]
    exact taken _ ((kept.sound.sound chunk member).proper.ndx_lt inChunk)
      (kept.inStep.allocated chunk member addr inChunk mapped)
  · rw [frames, rootDir]
    exact kept.inStep.frames.apart addr other frame (old addr inHeap) (old other otherInHeap)
  · rw [frames, rootDir]
    exact kept.inStep.frames.backed addr frame (old addr inHeap)

theorem Kept.append {used : Nat → Prop} {memory : Nat → BitVec 32}
    {buddyMem gapBase gapLength : Nat} {chunk : HeapChunk} (kept : Kept used heap)
    (free : GapFree heap.chunks gapBase gapLength)
    (unmapped : Unmapped heap.frames heap.rootDir gapBase (min gapLength confHeapMaxChunkSize))
    (low : gapBase + min gapLength confHeapMaxChunkSize ≤ recursiveAddr)
    (created : createNewChunk memory buddyMem gapBase gapLength = .ok chunk) :
    Kept used (appendNewChunk heap chunk) ∧
      Keeps heap.chunks (appendNewChunk heap chunk).chunks := by
  obtain ⟨chunkSound, base, length, -, -⟩ := createNewChunk_spec free.1 created
  have members : ∀ other, other ∈ (appendNewChunk heap chunk).chunks ↔
      other = chunk ∨ other ∈ heap.chunks := fun other => by
    rw [← List.mem_cons]
    exact (insertChunk_perm chunk heap.chunks).mem_iff
  have notMapped : ∀ addr, chunk.Contains addr → walk heap.frames heap.rootDir addr = none := by
    intro addr contains
    unfold HeapChunk.Contains at contains
    rw [base, length] at contains
    exact unmapped addr contains.1 contains.2
  have old : ∀ addr frame, HeapAddr (appendNewChunk heap chunk) addr →
      walk heap.frames heap.rootDir addr = some frame → HeapAddr heap addr := by
    rintro addr frame ⟨other, member, contains⟩ mapped
    rcases (members other).mp member with rfl | present
    · rw [notMapped addr contains] at mapped
      cases mapped
    · exact ⟨other, present, contains⟩
  refine ⟨⟨kept.sound.insertChunk chunkSound (free.apart base length), fun other member => ?_,
    kept.owned, ⟨fun other member addr contains mapped => ?_,
      fun addr other frame inHeap otherInHeap mapped otherMapped => ?_,
      fun addr frame inHeap mapped => ?_⟩⟩, fun other member => ?_⟩
  · rcases (members other).mp member with rfl | present
    · rw [base, length]
      exact low
    · exact kept.low other present
  · rcases (members other).mp member with rfl | present
    · exact absurd (notMapped addr contains) mapped
    · exact kept.inStep.allocated other present addr contains mapped
  · exact kept.inStep.frames.apart addr other frame (old addr frame inHeap mapped)
      (old other frame otherInHeap otherMapped) mapped otherMapped
  · exact kept.inStep.frames.backed addr frame (old addr frame inHeap mapped) mapped
  · exact ⟨other, (members other).mpr (.inr member), ⟨rfl, rfl⟩, fun _ _ taken => taken⟩

/-- The physical allocator changes; no frame gets free. -/
theorem Kept.allocates (kept : Kept (occupied heap.mm) heap) (mm : Mm)
    (more : ∀ frame, occupied heap.mm frame → occupied mm frame) :
    Kept (occupied mm) { heap with mm := mm } where
  sound := kept.sound
  low := kept.low
  owned := ⟨kept.owned.tables, more _ kept.owned.root, fun ndx below present =>
    more _ (kept.owned.table ndx below present)⟩
  inStep := ⟨kept.inStep.allocated, kept.inStep.frames.apart, fun addr frame inHeap mapped =>
    more _ (kept.inStep.frames.backed addr frame inHeap mapped)⟩

/-- A page lies in one chunk only. -/
theorem ChunksSound.unique {chunks : List HeapChunk} (sound : ChunksSound chunks)
    {first second : HeapChunk} {addr other : Nat} (firstMember : first ∈ chunks)
    (secondMember : second ∈ chunks) (inFirst : first.Contains addr)
    (inSecond : second.Contains other)
    (samePage : addr / platformPageSize = other / platformPageSize) :
    first = second ∧ first.ndxOf addr = second.ndxOf other := by
  have firstProper := (sound.sound first firstMember).proper
  have secondProper := (sound.sound second secondMember).proper
  obtain ⟨firstBase, isFirstBase⟩ := firstProper.baseAligned
  obtain ⟨firstLength, isFirstLength⟩ := firstProper.lengthAligned
  obtain ⟨secondBase, isSecondBase⟩ := secondProper.baseAligned
  obtain ⟨secondLength, isSecondLength⟩ := secondProper.lengthAligned
  have same : first = second := by
    by_contra different
    have apart : first.Apart second := by
      have symmetric : Std.Symm HeapChunk.Apart := ⟨fun _ _ => Or.symm⟩
      have allApart : chunks.Pairwise HeapChunk.Apart := sound.ascending.imp Or.inl
      exact allApart.forall firstMember secondMember different
    unfold HeapChunk.Contains HeapChunk.Apart HeapChunk.Before platformPageSize at *
    omega
  refine ⟨same, ?_⟩
  subst same
  unfold HeapChunk.Contains HeapChunk.ndxOf platformPageSize at *
  omega

/-- A fault on a page in use gets a frame. -/
theorem Kept.touch (spec : HandsOutFree ops occupied) (kept : Kept (occupied heap.mm) heap)
    {chunk : HeapChunk} {addr paddr : Nat} {mm : Mm} (member : chunk ∈ heap.chunks)
    (contains : chunk.Contains addr) (taken : chunk.buddy.bit 0 (chunk.ndxOf addr) = true)
    (allocated : ops.allocPage heap.mm = .ok (mm, some paddr))
    (mapped : heapPtMap ops { heap with mm := mm } paddr
      (alignRounddown addr platformPageSize) = .ok heapNext) :
    Kept (occupied heapNext.mm) heapNext ∧ heapNext.chunks = heap.chunks := by
  have proper := (kept.sound.sound chunk member).proper
  have lowChunk := kept.low chunk member
  have recursiveFits : recursiveAddr < addressSpace := by decide
  have fits : addr < addressSpace := by
    have below := contains.2
    omega
  have rounded := alignRounddown_page fits
  have pageOf : alignRounddown addr platformPageSize / platformPageSize =
      addr / platformPageSize := by
    rw [rounded]
    exact Nat.mul_div_cancel _ (by decide)
  have inChunk : chunk.Contains (alignRounddown addr platformPageSize) := by
    obtain ⟨baseCount, isBase⟩ := proper.baseAligned
    rw [rounded]
    unfold HeapChunk.Contains platformPageSize at *
    omega
  have low : ∀ other, HeapAddr heap other → other < recursiveAddr := by
    rintro other ⟨otherChunk, otherMember, inOther⟩
    exact Nat.lt_of_lt_of_le inOther.2 (kept.low otherChunk otherMember)
  obtain ⟨chunks, -, rootDir⟩ := heapPtMap_sameChunks mapped
  change heapNext.chunks = heap.chunks at chunks
  change heapNext.rootDir = heap.rootDir at rootDir
  obtain ⟨own, owned, -, only⟩ := kept.inStep.frames.map spec kept.owned low
    ⟨chunk, member, inChunk⟩ allocated mapped
  have sameHeap : ∀ other, HeapAddr heapNext other ↔ HeapAddr heap other := fun other => by
    unfold HeapAddr
    rw [chunks]
  refine ⟨⟨chunks ▸ kept.sound, chunks ▸ kept.low, rootDir ▸ owned,
    ⟨fun other otherMember otherAddr inOther otherMapped => ?_,
      ⟨fun first second frame inFirst inSecond => ?_, fun first frame inFirst => ?_⟩⟩⟩, chunks⟩
  · rw [chunks] at otherMember
    rw [rootDir] at otherMapped
    rcases only otherAddr ⟨other, otherMember, inOther⟩ otherMapped with isPage | old
    · obtain ⟨same, sameNdx⟩ := kept.sound.unique otherMember member inOther contains
        (isPage.trans pageOf)
      rw [sameNdx, same]
      exact taken
    · exact kept.inStep.allocated other otherMember otherAddr inOther old
  · rw [rootDir]
    exact own.apart first second frame ((sameHeap first).mp inFirst) ((sameHeap second).mp inSecond)
  · rw [rootDir]
    exact own.backed first frame ((sameHeap first).mp inFirst)

theorem taken_of_registered {chunk : HeapChunk} {addr : Nat} (sound : chunk.Sound)
    (contains : chunk.Contains addr)
    (registered : isRegisteredPage chunk (alignRounddown addr platformPageSize) = .ok false) :
    chunk.buddy.bit 0 (chunk.ndxOf addr) = true := by
  have inside := sound.proper.inside
  have below := contains.2
  have rounded := alignRounddown_page (show addr < addressSpace by omega)
  obtain ⟨baseCount, isBase⟩ := sound.proper.baseAligned
  have inChunk : chunk.Contains (alignRounddown addr platformPageSize) := by
    rw [rounded]
    unfold HeapChunk.Contains platformPageSize at *
    omega
  have sameNdx : chunk.ndxOf (alignRounddown addr platformPageSize) = chunk.ndxOf addr := by
    rw [rounded]
    unfold HeapChunk.Contains HeapChunk.ndxOf platformPageSize at *
    omega
  have ndx := sound.proper.areaPageNdx_eq_some.mpr ⟨inChunk, rfl⟩
  have free := sound.tracks.isFree (sound.proper.ndx_lt inChunk)
  rw [sameNdx] at free ndx
  rw [isRegisteredPage, ndx] at registered
  simp only [free, Except.ok.injEq] at registered
  simpa using registered

variable {start system : KheapSystem Mm}

theorem Kept.run (spec : HandsOutFree ops occupied)
    (run : KheapRun ops (MappingKept occupied) start system)
    (kept : Kept (occupied start.heap.mm) start.heap) :
    Kept (occupied system.heap.mm) system.heap ∧ Keeps start.heap.chunks system.heap.chunks := by
  induction run with
  | refl => exact ⟨kept, .refl _⟩
  | alloc _ stays allocated inductionHypothesis =>
      obtain ⟨before, keeps⟩ := inductionHypothesis kept
      have takes := kheapAllocPage_existing stays allocated
      obtain ⟨after, more⟩ := before.takes takes
      obtain ⟨_, _, _, _, _, rfl⟩ := takes
      exact ⟨after, keeps.trans more⟩
  | @grow _ _ middle _ _ _ _ _ _ chunk _ grows _ free permitted created allocated
      beforeHypothesis middleHypothesis =>
      obtain ⟨before, keeps⟩ := beforeHypothesis kept
      obtain ⟨middleKept, middleKeeps⟩ := middleHypothesis before
      obtain ⟨sound, -, -, space, -⟩ := createNewChunk_spec free.1 created
      have takes := kheapAllocPage_grown grows (space ▸ sound.proper.positive) allocated
      obtain ⟨appended, appendedKeeps⟩ :=
        middleKept.append free permitted.1 permitted.2 created
      obtain ⟨after, more⟩ := appended.takes takes
      obtain ⟨_, _, _, _, _, rfl⟩ := takes
      exact ⟨after, (keeps.trans middleKeeps).trans (appendedKeeps.trans more)⟩
  | touch _ member contains _ handled inductionHypothesis =>
      obtain ⟨before, keeps⟩ := inductionHypothesis kept
      obtain ⟨registered, _, _, allocated, mapped⟩ := chunkPgfaultHandler_touched handled
      obtain ⟨after, chunks⟩ := before.touch spec member contains
        (taken_of_registered (before.sound.sound _ member) contains registered) allocated mapped
      exact ⟨after, by rw [chunks]; exact keeps⟩
  | trim _ member contains full _ _ handled beforeHypothesis middleHypothesis =>
      obtain ⟨before, keeps⟩ := beforeHypothesis kept
      have same := spec.null _ _ full
      obtain ⟨middleKept, middleKeeps⟩ :=
        middleHypothesis (before.allocates _ fun frame used => (same frame).mpr used)
      obtain ⟨registered, _, _, again, mapped⟩ := chunkPgfaultHandler_trimmed full handled
      have sound := before.sound.sound _ member
      obtain ⟨later, laterMember, range, taken⟩ := middleKeeps _ member
      obtain ⟨after, chunks⟩ := middleKept.touch spec laterMember
        ((range.contains_iff _).mpr contains)
        (by
          rw [range.ndxOf_eq]
          exact taken _ (sound.proper.ndx_lt contains)
            (taken_of_registered sound contains registered)) again mapped
      refine ⟨after, ?_⟩
      rw [chunks]
      exact keeps.trans middleKeeps
  | free _ _ permitted _ _ => exact permitted.2.elim

/-- After mapping some first pages: nothing behind them is mapped. -/
structure FirstMapped (used : Nat → Prop) (frames : I686VmFrames) (treeRoot base length count : Nat) :
    Prop where
  own : OwnFrames (fun addr => base ≤ addr ∧ addr < base + length) used frames treeRoot
  owned : Owned used frames treeRoot
  first : ∀ addr, base ≤ addr → addr < base + length → walk frames treeRoot addr ≠ none →
    addr / platformPageSize < base / platformPageSize + count

theorem mapFirstPages_spec (spec : HandsOutFree ops occupied) {base length count : Nat}
    (aligned : platformPageSize ∣ base) (room : count * platformPageSize ≤ length)
    (low : base + length ≤ recursiveAddr)
    (owned : Owned (occupied heap.mm) heap.frames heap.rootDir)
    (unmapped : Unmapped heap.frames heap.rootDir base length)
    (mapping : (List.range count).foldlM (mapFirstPage ops base) heap = .ok heapNext) :
    FirstMapped (occupied heapNext.mm) heapNext.frames heap.rootDir base length count := by
  refine (Loop.range_of_ok (fun round state => state.rootDir = heap.rootDir ∧
    FirstMapped (occupied state.mm) state.frames heap.rootDir base length round)
    mapping ⟨rfl, ⟨?_, ?_⟩, owned, ?_⟩ ?_).2
  · intro addr other frame inside _ found
    rw [unmapped addr inside.1 inside.2] at found
    cases found
  · intro addr frame inside found
    rw [unmapped addr inside.1 inside.2] at found
    cases found
  · intro addr above below found
    exact absurd (unmapped addr above below) found
  · rintro round below state next ⟨rootDir, own, ownedState, first⟩ stepped
    simp only [mapFirstPage, Outcome.bind_eq_ok, deref_eq_ok] at stepped
    obtain ⟨⟨mm, page⟩, allocated, _, _, paddr, rfl, mapped⟩ := stepped
    have inRange : base ≤ base + round * platformPageSize ∧
        base + round * platformPageSize < base + length := by
      unfold platformPageSize at *
      omega
    have sameRoot := (heapPtMap_sameChunks mapped).2.2
    change next.rootDir = state.rootDir at sameRoot
    rw [← rootDir] at own ownedState first ⊢
    obtain ⟨ownNext, ownedNext, -, only⟩ := own.map spec ownedState
      (fun addr inside => Nat.lt_of_lt_of_le inside.2 low) inRange allocated mapped
    refine ⟨sameRoot, ownNext, ownedNext, fun addr above addrBelow found => ?_⟩
    rcases only addr ⟨above, addrBelow⟩ found with isPage | old
    · obtain ⟨baseCount, isBase⟩ := aligned
      rw [isPage]
      unfold platformPageSize at *
      omega
    · have earlier := first addr above addrBelow old
      omega

theorem kept_of_initial (spec : HandsOutFree ops occupied)
    (initial : KheapInitial ops (MappingKept occupied) start) :
    Kept (occupied start.heap.mm) start.heap := by
  obtain ⟨heap, mapped, chunk, gapBase, gapLength, ⟨⟨owned, unmapped⟩, low⟩, rfl, sound, base,
    length, -, reqPages, room, -, mapping, fixed⟩ := initial.exists_chunk
  subst base
  change chunk.base + min gapLength confHeapMaxChunkSize ≤ recursiveAddr at low
  rw [← length] at unmapped low
  have enough : reqPages * platformPageSize ≤ chunk.length := by
    unfold HeapChunk.pages platformPageSize at *
    omega
  obtain ⟨own, ownedMapped, first⟩ := @mapFirstPages_spec Mm ops occupied
    { heap with chunks := [], heapFreeSpace := 0 } mapped spec _ _ _ sound.proper.baseAligned
    enough low owned unmapped mapping
  have rootDir : mapped.rootDir = heap.rootDir := (mapFirstPages_sameChunks mapping).2.2
  have inChunk : ∀ addr,
      HeapAddr { mapped with chunks := [chunk], heapFreeSpace := chunk.freeSpace } addr →
      chunk.Contains addr := by
    rintro addr ⟨other, member, contains⟩
    rw [List.mem_singleton] at member
    exact member ▸ contains
  refine ⟨sound.singleton, fun other member => ?_, rootDir ▸ ownedMapped,
    ⟨fun other member addr contains found => ?_, ?_⟩⟩
  · rw [List.mem_singleton] at member
    exact member ▸ low
  · rw [List.mem_singleton] at member
    subst member
    change walk mapped.frames mapped.rootDir addr ≠ none at found
    rw [rootDir] at found
    apply fixed
    have below := first addr contains.1 contains.2 found
    obtain ⟨baseCount, isBase⟩ := sound.proper.baseAligned
    unfold HeapChunk.ndxOf HeapChunk.Contains platformPageSize at *
    omega
  · change OwnFrames _ _ mapped.frames mapped.rootDir
    rw [rootDir]
    exact ⟨fun addr other frame inHeap otherInHeap => own.apart addr other frame
      (inChunk addr inHeap) (inChunk other otherInHeap),
      fun addr frame inHeap => own.backed addr frame (inChunk addr inHeap)⟩

/-- In a run that frees nothing, over chunks below directory entry 1023, the
managers, the page tables and the physical memory stay in step. -/
theorem inStep_of_reachable (spec : HandsOutFree ops occupied)
    (reached : KheapReachable ops (MappingKept occupied) system) :
    InStep (occupied system.heap.mm) system.heap := by
  obtain ⟨start, initial, run⟩ := reached
  exact ((kept_of_initial spec initial).run spec run).1.inStep

/-- The frames `countingOps` has handed out. -/
def handedOut (next frame : Nat) : Prop :=
  platformPageSize ∣ frame ∧ frame < next * platformPageSize

theorem countingOps_handsOutFree : HandsOutFree countingOps handedOut where
  page := by
    intro next after paddr allocated
    simp only [countingOps] at allocated
    split at allocated
    · next fits =>
        cases allocated
        refine ⟨Nat.dvd_mul_left _ _, fits, fun used => Nat.lt_irrefl _ used.2, fun other => ?_⟩
        unfold handedOut platformPageSize
        omega
    · cases allocated
  null := by
    intro next after allocated other
    simp only [countingOps] at allocated
    split at allocated
    · cases allocated
    · cases allocated
      exact Iff.rfl

theorem directoryHeap_unmapped {addr : Nat} (low : addr < recursiveAddr) :
    walk directoryHeap.frames directoryHeap.rootDir addr = none := by
  have below := getPdeNdx_lt_recursive low
  have absent : (directoryHeap.frames directoryHeap.rootDir (getPdeNdx addr)).isPresent = false := by
    show (PageTableCall.firstDirectory 1 (getPdeNdx addr)).isPresent = false
    rw [PageTableCall.firstDirectory, I686VmFrames.set_apply,
      if_neg fun both => Nat.ne_of_lt below both.2]
    rfl
  exact walk_eq_none.mpr fun present => by
    rw [absent] at present
    cases present

theorem directoryHeap_owned :
    Owned (handedOut directoryHeap.mm) directoryHeap.frames directoryHeap.rootDir where
  tables := PageTableCall.tables_of_reachable PageTableCall.firstDirectory_reachable
  root := ⟨by decide, by decide⟩
  table ndx below present := by
    have absent : (directoryHeap.frames directoryHeap.rootDir ndx).isPresent = false := by
      show (PageTableCall.firstDirectory 1 ndx).isPresent = false
      unfold emergencyNdx at below
      rw [PageTableCall.firstDirectory, I686VmFrames.set_apply, if_neg fun both => by
        have same := both.2
        unfold recursiveNdx at same
        omega]
      rfl
    rw [absent] at present
    cases present

/-- The first fault on an address. -/
def touchPage (addr : Nat) (system : KheapSystem Nat) : Option (KheapSystem Nat) := do
  let chunk ← system.heap.chunks.find? fun chunk =>
    chunk.base ≤ addr ∧ addr < chunk.base + chunk.length
  let heap ← (chunkPgfaultHandler countingOps system.heap chunk addr (.error .unfinished)).toOption
  some ⟨heap, system.live⟩

theorem touchPage_run {allowed : KheapSystem Nat → KheapAction → Prop} {addr : Nat}
    {start before final : KheapSystem Nat} (run : KheapRun countingOps allowed start before)
    (permitted : ∀ system, allowed system (.touch addr))
    (touched : touchPage addr before = some final) : KheapRun countingOps allowed start final := by
  simp only [touchPage, Option.bind_eq_bind, Option.bind_eq_some_iff, Outcome.toOption_eq_some,
    Option.some.injEq] at touched
  obtain ⟨chunk, found, heap, handled, rfl⟩ := touched
  have inside := List.find?_some found
  simp only [decide_eq_true_eq] at inside
  exact run.touch (List.mem_of_find?_eq_some found) inside (permitted before) handled

/-- A heap of three pages at `0xc0000000` whose second page was taken and touched. -/
def touchedPage : Option (KheapSystem Nat) := do
  let system ← drained 0xc0000000 3 1
  touchPage 0xc0001234 system

theorem touchedPage_reachable {allowed : KheapSystem Nat → KheapAction → Prop}
    {system : KheapSystem Nat}
    (permitted : allowed ⟨directoryHeap, []⟩ (.first 0xc0000000 (3 * platformPageSize)))
    (touches : ∀ system, allowed system (.touch 0xc0001234))
    (executed : touchedPage = some system) : KheapReachable countingOps allowed system := by
  simp only [touchedPage, Option.bind_eq_bind, Option.bind_eq_some_iff] at executed
  obtain ⟨before, drains, touched⟩ := executed
  obtain ⟨start, initial, run⟩ := drained_reachable (by decide) allowed permitted drains
  exact ⟨start, initial, touchPage_run run touches touched⟩

theorem touchedPage_environment : GapsUnmapped handedOut ⟨directoryHeap, []⟩
    (.first 0xc0000000 (3 * platformPageSize)) := by
  refine ⟨directoryHeap_owned, fun addr _ below => directoryHeap_unmapped ?_⟩
  have top : min (3 * platformPageSize) confHeapMaxChunkSize = 12288 := by decide
  have window : recursiveAddr = 0xffc00000 := by decide
  omega

theorem touchedPage_inStep : ∃ system, touchedPage = some system ∧
    system.heap.chunks.map (fun chunk => (chunk.buddy.bit 0 1, chunk.buddy.bit 0 2)) =
      [(true, false)] ∧
    InStep (handedOut system.heap.mm) system.heap := by
  have result : touchedPage.map (fun system => system.heap.chunks.map fun chunk =>
      (chunk.buddy.bit 0 1, chunk.buddy.bit 0 2)) = some [(true, false)] := by decide
  obtain ⟨system, executed, bits⟩ := Option.map_eq_some_iff.mp result
  exact ⟨system, executed, bits, inStep_of_reachable countingOps_handsOutFree
    (touchedPage_reachable ⟨touchedPage_environment, by show _ ≤ _; decide⟩
      (fun _ => ⟨trivial, trivial⟩) executed)⟩

/-- After `kheap_free_page` the page is free in its chunk and still mapped. -/
theorem freedPage_mapped : ∃ system, KheapReachable countingOps (GapsUnmapped handedOut) system ∧
    ∃ chunk ∈ system.heap.chunks, chunk.Contains 0xc0001000 ∧
      walk system.heap.frames system.heap.rootDir 0xc0001000 ≠ none ∧
      chunk.buddy.bit 0 (chunk.ndxOf 0xc0001000) = false := by
  have result : (touchedPage.bind fun system =>
      (kheapFreePage countingOps system.heap 0xc0001000).toOption.map fun heap =>
        (system.live, heap.chunks.map fun chunk => (chunk.base, chunk.length,
          chunk.buddy.bit 0 (chunk.ndxOf 0xc0001000)),
          walk heap.frames heap.rootDir 0xc0001000)) =
      some ([0xc0001000], [(0xc0000000, 12288, false)], some 18) := by decide +kernel
  obtain ⟨before, executed, result⟩ := Option.bind_eq_some_iff.mp result
  obtain ⟨heap, freed, shape⟩ := Option.map_eq_some_iff.mp result
  rw [Outcome.toOption_eq_some] at freed
  simp only [Prod.mk.injEq] at shape
  obtain ⟨live, chunks, mapped⟩ := shape
  obtain ⟨chunk, isChunk, shapeOf⟩ := List.map_eq_singleton_iff.mp chunks
  simp only [Prod.mk.injEq] at shapeOf
  obtain ⟨base, length, free⟩ := shapeOf
  obtain ⟨start, initial, run⟩ :=
    touchedPage_reachable touchedPage_environment (fun _ => trivial) executed
  have taken : 0xc0001000 ∈ before.live := by rw [live]; exact List.mem_singleton_self _
  have run := run.free taken trivial freed
  have contains : chunk.Contains 0xc0001000 := by
    unfold HeapChunk.Contains
    rw [base, length]
    decide
  refine ⟨⟨heap, before.live.erase 0xc0001000⟩, ⟨start, initial, run⟩, chunk, ?_, contains, ?_,
    free⟩
  · rw [isChunk]
    exact List.mem_singleton_self _
  · rw [mapped]
    exact Option.some_ne_none 18

end Yaeos
