import Yaeos.Kheap.Run
import Mathlib.Data.Finset.Card
import Mathlib.Order.Interval.Finset.Nat

/-!
# The free space of a chunk

`free_space` is meant to be the size of the free pages.  It counts the pages that
are registered and given back, and it starts without the bookkeeping pages, but
`preregister_invalid_pages` takes reserved pages from the manager without a word:
every reserved page of a chunk stays in its free space for good.
-/

namespace Yaeos

/-! ## Clear bits -/

/-- How many of the first bits are clear. -/
def clearCount (bits : Nat → Bool) (bound : Nat) : Nat :=
  ((Finset.range bound).filter fun index => bits index = false).card

section

variable {bits after : Nat → Bool} {bound index used : Nat}

/-- A bit that was clear is set. -/
theorem clearCount_set (below : index < bound) (clear : bits index = false)
    (changed : ∀ other < bound, after other = (decide (other = index) || bits other)) :
    clearCount after bound + 1 = clearCount bits bound := by
  have erased : (Finset.range bound).filter (fun other => after other = false) =
      ((Finset.range bound).filter fun other => bits other = false).erase index := by
    ext other
    simp only [Finset.mem_filter, Finset.mem_range, Finset.mem_erase]
    constructor
    · rintro ⟨small, afterClear⟩
      rw [changed other small, Bool.or_eq_false_iff, decide_eq_false_iff_not] at afterClear
      exact ⟨afterClear.1, small, afterClear.2⟩
    · rintro ⟨differs, small, beforeClear⟩
      refine ⟨small, ?_⟩
      rw [changed other small, beforeClear, decide_eq_false differs, Bool.or_false]
  have member : index ∈ (Finset.range bound).filter fun other => bits other = false :=
    Finset.mem_filter.mpr ⟨Finset.mem_range.mpr below, clear⟩
  rw [clearCount, erased]
  exact Finset.card_erase_add_one member

/-- A bit that was set is cleared. -/
theorem clearCount_clear (below : index < bound) (set : bits index = true)
    (changed : ∀ other < bound, after other = (!decide (other = index) && bits other)) :
    clearCount after bound = clearCount bits bound + 1 := by
  refine (clearCount_set below ?_ fun other small => ?_).symm
  · simp [changed index below]
  · rw [changed other small]
    by_cases same : other = index
    · subst same
      simp [set]
    · simp [same]

/-- The first bits are set and the others are clear. -/
theorem clearCount_prefix (changed : ∀ other < bound, after other = decide (other < used)) :
    clearCount after bound = bound - used := by
  have rest : (Finset.range bound).filter (fun other => after other = false) =
      Finset.Ico used bound := by
    ext other
    simp only [Finset.mem_filter, Finset.mem_range, Finset.mem_Ico]
    constructor
    · rintro ⟨small, clear⟩
      rw [changed other small, decide_eq_false_iff_not] at clear
      exact ⟨Nat.le_of_not_lt clear, small⟩
    · rintro ⟨large, small⟩
      exact ⟨small, by rw [changed other small, decide_eq_false (Nat.not_lt.mpr large)]⟩
  rw [clearCount, rest, Nat.card_Ico]

end

/-! ## Chunks -/

namespace HeapChunk

variable {chunk next : HeapChunk} {addr : Nat}

/-- The number of pages that `buddy_is_free` reports free. -/
def freePages (chunk : HeapChunk) : Nat :=
  ((Finset.range chunk.pages).filter fun ndx => buddyIsFree chunk.buddy ndx = .ok true).card

/-- The number of reserved pages in the range of the chunk. -/
def reservedPages (chunk : HeapChunk) : Nat :=
  (if chunk.Contains recursiveAddr then 1 else 0) + if chunk.Contains emergencyAddr then 1 else 0

theorem freePages_eq (tracks : chunk.buddy.Tracks chunk.pages) :
    chunk.freePages = clearCount (chunk.buddy.bit 0) chunk.pages := by
  unfold freePages clearCount
  congr 1
  apply Finset.filter_congr
  intro ndx member
  rw [tracks.isFree (Finset.mem_range.mp member), Except.ok.injEq]
  cases chunk.buddy.bit 0 ndx <;> simp

end HeapChunk

namespace HeapChunk

variable {chunk next : HeapChunk} {addr : Nat}

/-- The free space of a chunk as it comes out of the constructors and the calls. -/
structure Counts (chunk : HeapChunk) : Prop where
  sound : chunk.Sound
  balance : chunk.freeSpace = platformPageSize * (chunk.freePages + chunk.reservedPages)

theorem reservedPages_congr (same : SameRange next chunk) :
    next.reservedPages = chunk.reservedPages := by
  simp only [reservedPages, same.contains_iff]

/-- A page that is taken out of use was free, and the free space stays. -/
theorem preregister_counts (sound : chunk.Sound) (aligned : platformPageSize ∣ addr)
    (fits : addr + platformPageSize ≤ addressSpace)
    (done : preregisterInvalidPages chunk addr platformPageSize = .ok next) :
    next.freePages + (if chunk.Contains addr then 1 else 0) = chunk.freePages := by
  obtain ⟨reserves, -⟩ := preregisterInvalidPages_spec sound aligned fits done
  rw [preregisterInvalidPages_eq sound.proper aligned fits] at done
  split
  · next contains =>
      rw [if_pos contains] at done
      simp only [List.range_one, List.foldlM_cons, List.foldlM_nil, reservePage, Nat.add_zero,
        Outcome.bind_eq_ok, Except.ok.injEq] at done
      obtain ⟨buddy, ⟨_, ⟨⟨taken, success⟩, tried, isTaken⟩, same⟩, rfl⟩ := done
      have inPages := sound.proper.ndx_lt contains
      rw [BuddyManager.buddyTryAlloc_eq sound.tracks.manages (by simpa using inPages)] at tried
      split at tried
      · cases tried
        cases isTaken
      · next clear =>
          obtain ⟨occupied, returned, tracks, bits⟩ := sound.tracks.occupy inPages
          rw [returned, Outcome.ok_bind, Except.ok.injEq, Prod.mk.injEq] at tried
          obtain ⟨rfl, rfl⟩ := tried
          cases isTaken
          cases same
          rw [freePages_eq reserves.sound.tracks, freePages_eq sound.tracks]
          exact clearCount_set inPages (by simpa using clear) bits
  · next away =>
      rw [if_neg away] at done
      cases done
      rfl

/-- The reserved pages are taken without a change of the free space. -/
theorem reservedVaddresses_counts (sound : chunk.Sound)
    (balance : chunk.freeSpace = platformPageSize * chunk.freePages)
    (done : vmArchIterReservedVaddresses preregisterInvalidPages chunk = .ok next) :
    next.Counts := by
  obtain ⟨reserves, -, -⟩ := reservedVaddresses_spec sound done
  refine ⟨reserves.sound, ?_⟩
  simp only [vmArchIterReservedVaddresses, Outcome.bind_eq_ok] at done
  obtain ⟨middle, first, second⟩ := done
  obtain ⟨middleReserves, -⟩ :=
    preregisterInvalidPages_spec sound (by decide) (by decide) first
  have recursive := preregister_counts sound (by decide) (by decide) first
  have emergency := preregister_counts middleReserves.sound (by decide) (by decide) second
  simp only [middleReserves.range.contains_iff] at emergency
  rw [reserves.freeSpace, balance, reservedPages_congr reserves.range, reservedPages]
  congr 1
  omega

theorem createNewChunk_counts {memory : Nat → BitVec 32} {buddyMem gapBase gapLength : Nat}
    (inside : gapBase + min gapLength confHeapMaxChunkSize ≤ addressSpace)
    (created : createNewChunk memory buddyMem gapBase gapLength = .ok chunk) : chunk.Counts := by
  obtain ⟨fresh, sound, -, -, all, whole, clear, reserved⟩ := createNewChunk_fresh inside created
  refine reservedVaddresses_counts sound ?_ reserved
  have free : clearCount (fresh.buddy.bit 0) fresh.pages = fresh.pages - 0 :=
    clearCount_prefix fun ndx inPages => by simpa using clear ndx inPages
  rw [freePages_eq sound.tracks, all, free]
  exact (Nat.mul_div_cancel' whole).symm

theorem initFirstChunk_counts {Mm : Type} {ops : MmOps Mm} {heap heapNext : Kheap Mm}
    {memory : Nat → BitVec 32} {gapBase gapLength : Nat}
    (inside : gapBase + min gapLength confHeapMaxChunkSize ≤ addressSpace)
    (initialised : initFirstChunk ops memory heap gapBase gapLength = .ok (heapNext, chunk)) :
    chunk.Counts := by
  simp only [initFirstChunk, Outcome.bind_eq_ok, kassert_eq_ok, Except.ok.injEq,
    Prod.mk.injEq] at initialised
  obtain ⟨_, baseAligned, _, lengthAligned, reqPages, required, _, -, _, -,
    ⟨buddy, rest, maxIndex⟩, booted, fixed, fixing, reserved, reserving, rfl, rfl⟩ := initialised
  simp only [firstChunkReqPages, Outcome.bind_eq_ok] at required
  obtain ⟨_, predicts, _⟩ := required
  obtain ⟨fixedSound, -, fixedBits⟩ := fixed_sound inside baseAligned lengthAligned predicts
    booted fixing (Nat.dvd_mul_left platformPageSize
      (min gapLength confHeapMaxChunkSize / platformPageSize - reqPages))
  refine reservedVaddresses_counts fixedSound ?_ reserving
  have free : clearCount (fixed.bit 0) (min gapLength confHeapMaxChunkSize / platformPageSize) =
      min gapLength confHeapMaxChunkSize / platformPageSize - reqPages :=
    clearCount_prefix fixedBits
  rw [freePages_eq fixedSound.tracks, Nat.mul_comm platformPageSize]
  exact congrArg (· * platformPageSize) free.symm

end HeapChunk

/-! ## Runs over a chunk -/

/-- A chunk with the pages that were registered and not given back yet. -/
structure ChunkSystem where
  chunk : HeapChunk
  registered : List Nat

inductive ChunkCall where
  | register (pageAddr : Option Nat)
  | unregister (page : Nat)
  deriving DecidableEq, Repr

/-- A page is given back in some heap that has the chunk. -/
def Unregisters {Mm : Type} (ops : MmOps Mm) (chunk : HeapChunk) (page : Nat) (next : HeapChunk) :
    Prop :=
  ∃ heap heapNext : Kheap Mm, chunk ∈ heap.chunks ∧
    chunkUnregisterPage ops heap chunk page = .ok heapNext ∧
    next ∈ heapNext.chunks ∧ next.base = chunk.base

/-- A chunk of either constructor, at any place of the address space. -/
def NewChunk {Mm : Type} (ops : MmOps Mm) (chunk : HeapChunk) : Prop :=
  ∃ memory gapBase gapLength, gapBase + min gapLength confHeapMaxChunkSize ≤ addressSpace ∧
    ((∃ heap heapNext, initFirstChunk ops memory heap gapBase gapLength = .ok (heapNext, chunk)) ∨
      ∃ buddyMem, createNewChunk memory buddyMem gapBase gapLength = .ok chunk)

/-- The runs over a new chunk; registered pages are given back. -/
def chunkMachine {Mm : Type} (ops : MmOps Mm) : Machine ChunkSystem ChunkCall where
  initial system := NewChunk ops system.chunk ∧ system.registered = []
  step system call next :=
    match call with
    | .register pageAddr => ∃ page,
        chunkRegisterPage system.chunk pageAddr = .ok (next.chunk, page) ∧
          next.registered = page.toList ++ system.registered
    | .unregister page => page ∈ system.registered ∧
        Unregisters ops system.chunk page next.chunk ∧
          next.registered = system.registered.erase page

namespace ChunkSystem

variable {Mm : Type} {ops : MmOps Mm} {system next : ChunkSystem}

/-- Registered pages are different pages of the chunk, and in use. -/
structure Holds (system : ChunkSystem) : Prop where
  counts : system.chunk.Counts
  distinct : system.registered.Nodup
  inUse : ∀ page ∈ system.registered, ∃ ndx < system.chunk.pages,
    page = system.chunk.base + ndx * platformPageSize ∧ system.chunk.buddy.bit 0 ndx = true

theorem holds_of_initial (start : (chunkMachine ops).initial system) : system.Holds := by
  obtain ⟨⟨memory, gapBase, gapLength, inside, built⟩, nothing⟩ := start
  refine ⟨?_, by simp [nothing], by simp [nothing]⟩
  rcases built with ⟨heap, heapNext, first⟩ | ⟨buddyMem, created⟩
  · exact HeapChunk.initFirstChunk_counts inside first
  · exact HeapChunk.createNewChunk_counts inside created

theorem Holds.register (holds : system.Holds) {pageAddr page : Option Nat}
    (registered : chunkRegisterPage system.chunk pageAddr = .ok (next.chunk, page))
    (listed : next.registered = page.toList ++ system.registered) : next.Holds := by
  obtain ⟨⟨sound, balance⟩, distinct, inUse⟩ := holds
  obtain ⟨nextSound, range⟩ := chunkRegisterPage_sound sound registered
  obtain ⟨nextChunk, nextRegistered⟩ := next
  dsimp only at registered listed nextSound range
  subst listed
  rcases chunkRegisterPage_cases sound registered with
    ⟨rfl, rfl⟩ | ⟨ndx, inPages, clear, rfl, changed, tracks, bits⟩
  · exact ⟨⟨sound, balance⟩, distinct, inUse⟩
  have space : nextChunk.freeSpace = system.chunk.freeSpace - platformPageSize := by rw [changed]
  have free : nextChunk.freePages + 1 = system.chunk.freePages := by
    rw [HeapChunk.freePages_eq nextSound.tracks, HeapChunk.freePages_eq sound.tracks,
      range.pages_eq]
    exact clearCount_set inPages clear bits
  refine ⟨⟨nextSound, ?_⟩, List.nodup_cons.mpr ⟨fun again => ?_, distinct⟩, fun page member => ?_⟩
  · show nextChunk.freeSpace = _
    rw [space, balance, ← free, HeapChunk.reservedPages_congr range]
    have sum : platformPageSize * (nextChunk.freePages + 1 + system.chunk.reservedPages) =
        platformPageSize * (nextChunk.freePages + system.chunk.reservedPages) +
          platformPageSize := by
      rw [← Nat.mul_succ]
      congr 1
      omega
    rw [sum, Nat.add_sub_cancel]
  · obtain ⟨other, -, samePage, used⟩ := inUse _ again
    have same : other = ndx := by
      unfold platformPageSize at samePage
      omega
    rw [same, clear] at used
    cases used
  · rcases List.mem_cons.mp member with rfl | old
    · refine ⟨ndx, range.pages_eq.symm ▸ inPages, by rw [range.1], ?_⟩
      rw [bits ndx inPages]
      simp
    · obtain ⟨other, otherInPages, isPage, used⟩ := inUse page old
      refine ⟨other, range.pages_eq.symm ▸ otherInPages, by rw [isPage, range.1], ?_⟩
      rw [bits other otherInPages, used, Bool.or_true]

theorem Holds.unregister (holds : system.Holds) {page : Nat} (member : page ∈ system.registered)
    (unregisters : Unregisters ops system.chunk page next.chunk)
    (listed : next.registered = system.registered.erase page) : next.Holds := by
  obtain ⟨⟨sound, balance⟩, distinct, inUse⟩ := holds
  obtain ⟨heap, heapNext, inHeap, unregistered, nextMember, sameBase⟩ := unregisters
  obtain ⟨ndx, buddy, -, isNdx, freed, -, -, chunks, -, -⟩ :=
    chunkUnregisterPage_cases unregistered
  obtain ⟨nextChunk, nextRegistered⟩ := next
  dsimp only at nextMember sameBase listed
  subst listed
  rw [chunks] at nextMember
  obtain rfl : nextChunk = { system.chunk with
      buddy := buddy, freeSpace := system.chunk.freeSpace + platformPageSize } := by
    rcases mem_setChunk nextMember with same | ⟨-, different⟩
    · exact same
    · exact absurd sameBase different
  obtain ⟨contains, rfl⟩ := sound.proper.areaPageNdx_eq_some.mp isNdx
  have inPages := sound.proper.ndx_lt contains
  obtain ⟨tracks, bits⟩ := buddyFree_cases sound inPages freed
  have ndxOf (ndx : Nat) :
      system.chunk.ndxOf (system.chunk.base + ndx * platformPageSize) = ndx := by
    rw [HeapChunk.ndxOf, Nat.add_sub_cancel_left, Nat.mul_div_cancel _ (by decide)]
  have used : system.chunk.buddy.bit 0 (system.chunk.ndxOf page) = true := by
    obtain ⟨ndx, -, rfl, used⟩ := inUse page member
    rw [ndxOf]
    exact used
  refine ⟨⟨⟨⟨sound.proper.1, sound.proper.2, sound.proper.3, sound.proper.4⟩, tracks,
    Nat.dvd_add sound.whole (Nat.dvd_refl _)⟩, ?_⟩, distinct.erase page, fun other old => ?_⟩
  · have free : clearCount (buddy.bit 0) system.chunk.pages =
        clearCount (system.chunk.buddy.bit 0) system.chunk.pages + 1 :=
      clearCount_clear inPages used fun other _ => bits other
    rw [HeapChunk.freePages_eq tracks]
    show system.chunk.freeSpace + platformPageSize = platformPageSize *
      (clearCount (buddy.bit 0) system.chunk.pages + system.chunk.reservedPages)
    rw [free, balance, HeapChunk.freePages_eq sound.tracks, ← Nat.mul_succ]
    congr 1
    omega
  · obtain ⟨different, listed⟩ := (List.Nodup.mem_erase_iff distinct).mp old
    obtain ⟨ndx, otherInPages, isPage, otherUsed⟩ := inUse other listed
    refine ⟨ndx, otherInPages, isPage, ?_⟩
    have otherNdx : ndx ≠ system.chunk.ndxOf page := by
      obtain ⟨pageNdx, -, isOther, -⟩ := inUse page member
      rintro rfl
      apply different
      rw [isPage, isOther, ndxOf]
    show buddy.bit 0 ndx = true
    rw [bits, otherUsed, decide_eq_false otherNdx]
    rfl

theorem holds_of_reachable (reached : (chunkMachine ops).Reachable system) : system.Holds := by
  refine reached.invariant (fun system => holds_of_initial) fun system call next holds stepped => ?_
  cases call with
  | register pageAddr =>
      obtain ⟨page, registered, listed⟩ := stepped
      exact holds.register registered listed
  | unregister page =>
      obtain ⟨member, unregisters, listed⟩ := stepped
      exact holds.unregister member unregisters listed

/-- What the free space is for: it is the size of the free pages, and a chunk that
has some yields a page. -/
structure SpaceIsFree (chunk : HeapChunk) : Prop where
  counted : chunk.freeSpace = platformPageSize * chunk.freePages
  yields : 0 < chunk.freeSpace →
    ∃ next page, chunkRegisterPage chunk none = .ok (next, some page)

/-- A chunk with a free page yields one. -/
theorem registers_of_freePages {chunk : HeapChunk} (sound : chunk.Sound)
    (some_ : 0 < chunk.freePages) :
    ∃ next page, chunkRegisterPage chunk none = .ok (next, some page) := by
  rcases sound.tracks.alloc with ⟨ndx, -, -, -, taken, alloc, -, -⟩ | ⟨full, -⟩
  · refine ⟨{ chunk with buddy := taken, freeSpace := chunk.freeSpace - platformPageSize },
      chunk.base + ndx * platformPageSize, ?_⟩
    simp only [chunkRegisterPage, alloc, Outcome.ok_bind]
  · rw [HeapChunk.freePages_eq sound.tracks] at some_
    obtain ⟨ndx, member⟩ := Finset.card_pos.mp some_
    obtain ⟨inPages, clear⟩ := Finset.mem_filter.mp member
    rw [full ndx (Finset.mem_range.mp inPages)] at clear
    cases clear

/-- In every state of every run over a chunk its free space is that of its free
pages exactly when no reserved page lies in the chunk. -/
theorem spaceIsFree_iff (reached : (chunkMachine ops).Reachable system) :
    SpaceIsFree system.chunk ↔
      ¬system.chunk.Contains recursiveAddr ∧ ¬system.chunk.Contains emergencyAddr := by
  obtain ⟨sound, balance⟩ := (holds_of_reachable reached).counts
  have none_ : system.chunk.reservedPages = 0 ↔
      ¬system.chunk.Contains recursiveAddr ∧ ¬system.chunk.Contains emergencyAddr := by
    unfold HeapChunk.reservedPages
    split <;> split <;> simp_all
  rw [← none_]
  constructor
  · rintro ⟨counted, -⟩
    rw [balance, Nat.mul_add] at counted
    have zero : platformPageSize * system.chunk.reservedPages = 0 := by omega
    exact (Nat.mul_eq_zero.mp zero).resolve_left (by decide)
  · intro zero
    rw [zero, Nat.add_zero] at balance
    refine ⟨balance, fun positive => registers_of_freePages sound ?_⟩
    rw [balance] at positive
    exact Nat.pos_of_mul_pos_left positive

/-- A chunk of two pages from an address on, of which one is registered. -/
def oneOfTwo (gapBase : Nat) : Outcome (HeapChunk × HeapChunk × Option Nat) := do
  let chunk ← createNewChunk (fun _ => 0) 4096 gapBase 8192
  let (next, page) ← chunkRegisterPage chunk none
  .ok (chunk, next, page)

theorem oneOfTwo_reachable {gapBase : Nat} {chunk next : HeapChunk} {page : Option Nat}
    (inside : gapBase + 8192 ≤ addressSpace) (built : oneOfTwo gapBase = .ok (chunk, next, page)) :
    (chunkMachine countingOps).Reachable ⟨next, page.toList⟩ := by
  simp only [oneOfTwo, Outcome.bind_eq_ok, Except.ok.injEq, Prod.mk.injEq] at built
  obtain ⟨chunk, created, ⟨next, page⟩, registered, rfl, rfl, rfl⟩ := built
  have start : (chunkMachine countingOps).Reachable ⟨chunk, []⟩ :=
    .initial ⟨⟨_, gapBase, 8192, inside, .inr ⟨4096, created⟩⟩, rfl⟩
  have stepped : (chunkMachine countingOps).step ⟨chunk, []⟩ (.register none)
      ⟨next, page.toList⟩ := ⟨page, registered, (List.append_nil _).symm⟩
  exact start.step stepped

/-- A chunk that holds no reserved page. -/
theorem lowChunk_spaceIsFree : ∃ chunk next page, oneOfTwo 0xc0000000 = .ok (chunk, next, page) ∧
    next.freeSpace = 4096 ∧ SpaceIsFree next := by
  have shape : (oneOfTwo 0xc0000000).map (fun built => (built.2.1.base, built.2.1.length,
      built.2.1.freeSpace)) = .ok (0xc0000000, 8192, 4096) := by decide
  cases built : oneOfTwo 0xc0000000 with
  | error fault =>
      rw [built] at shape
      cases shape
  | ok result =>
      obtain ⟨chunk, next, page⟩ := result
      rw [built] at shape
      simp only [Except.map, Except.ok.injEq, Prod.mk.injEq] at shape
      obtain ⟨base, length, space⟩ := shape
      refine ⟨chunk, next, page, rfl, space, (spaceIsFree_iff
        (oneOfTwo_reachable (by decide) built)).mpr ⟨?_, ?_⟩⟩
      · unfold HeapChunk.Contains
        rw [base, length]
        decide
      · unfold HeapChunk.Contains
        rw [base, length]
        decide

/-- The second of two pages is reserved: when the first one is registered, the free
space still shows a page, and the chunk has none. -/
theorem windowChunk_noPage : ∃ chunk next page,
    oneOfTwo (emergencyAddr - 4096) = .ok (chunk, next, page) ∧
      (chunkMachine countingOps).Reachable ⟨next, page.toList⟩ ∧ ¬SpaceIsFree next := by
  have shape : (oneOfTwo (emergencyAddr - 4096)).map (fun built => (built.2.1.freeSpace,
      (chunkRegisterPage built.2.1 none).map (·.2))) = .ok (4096, .ok none) := by decide
  cases built : oneOfTwo (emergencyAddr - 4096) with
  | error fault =>
      rw [built] at shape
      cases shape
  | ok result =>
      obtain ⟨chunk, next, page⟩ := result
      rw [built] at shape
      simp only [Except.map, Except.ok.injEq, Prod.mk.injEq] at shape
      obtain ⟨space, nothing⟩ := shape
      refine ⟨chunk, next, page, rfl, oneOfTwo_reachable (by decide) built, fun spaceIsFree => ?_⟩
      obtain ⟨after, yielded, registered⟩ := spaceIsFree.yields (by rw [space]; decide)
      rw [registered] at nothing
      cases nothing

end ChunkSystem

end Yaeos
