import Yaeos.Kheap.Run

/-!
# The heap and the windows of the page directory

The addresses from `1022 << 22` on belong to the emergency and the recursive
window.  `vm_arch_iter_reserved_vaddresses` reports one page at the start of
each window, so a chunk stays out of the windows only where all its other pages
do.
-/

namespace Yaeos

variable {Mm : Type} {ops : MmOps Mm} {system start : KheapSystem Mm}

/-- In a range of pages that starts with some bookkeeping, only reserved pages
and bookkeeping lie in the windows. -/
def AvoidsWindows (base length bookkeeping : Nat) : Prop :=
  ∀ page, platformPageSize ∣ page → base ≤ page → page < base + length → emergencyAddr ≤ page →
    page = emergencyAddr ∨ page = recursiveAddr ∨ page < base + bookkeeping

/-- The gaps a run may be given. -/
def WindowsAvoided (_ : KheapSystem Mm) : KheapAction → Prop
  | .first gapBase gapLength =>
      let len := min gapLength confHeapMaxChunkSize
      ∀ reqPages, firstChunkReqPages (len / platformPageSize) = .ok reqPages →
        AvoidsWindows gapBase len (reqPages * platformPageSize)
  | .grow gapBase gapLength => AvoidsWindows gapBase (min gapLength confHeapMaxChunkSize) 0
  | _ => True

/-- The pages of a chunk that lie in the windows are out of use. -/
def HighTaken (chunk : HeapChunk) : Prop :=
  ∀ ndx < chunk.pages, emergencyAddr ≤ chunk.base + ndx * platformPageSize →
    chunk.buddy.bit 0 ndx = true

theorem HeapChunk.Proper.page_of_ndx {chunk : HeapChunk} {ndx : Nat} (proper : chunk.Proper)
    (inPages : ndx < chunk.pages) :
    platformPageSize ∣ chunk.base + ndx * platformPageSize ∧
      chunk.Contains (chunk.base + ndx * platformPageSize) ∧
      chunk.ndxOf (chunk.base + ndx * platformPageSize) = ndx := by
  obtain ⟨count, length⟩ := proper.lengthAligned
  refine ⟨Nat.dvd_add proper.baseAligned (Nat.dvd_mul_left _ _), ⟨by omega, ?_⟩, ?_⟩
  · unfold HeapChunk.pages at inPages
    unfold platformPageSize at *
    omega
  · rw [HeapChunk.ndxOf, Nat.add_sub_cancel_left, Nat.mul_div_cancel _ (by decide)]

theorem highTaken_of_avoids {chunk : HeapChunk} {bookkeeping : Nat} (proper : chunk.Proper)
    (reserved : ReservedTaken chunk)
    (avoids : AvoidsWindows chunk.base chunk.length (bookkeeping * platformPageSize))
    (fixed : ∀ ndx < chunk.pages, ndx < bookkeeping → chunk.buddy.bit 0 ndx = true) :
    HighTaken chunk := by
  intro ndx inPages high
  obtain ⟨aligned, contains, sameNdx⟩ := proper.page_of_ndx inPages
  rcases avoids _ aligned contains.1 contains.2 high with emergency | recursive | low
  · have taken := reserved _ (.inl emergency) contains
    rwa [sameNdx] at taken
  · have taken := reserved _ (.inr recursive) contains
    rwa [sameNdx] at taken
  · apply fixed ndx inPages
    unfold platformPageSize at low
    omega

/-- No live page lies in a window, and no page of a window is free. -/
structure OutOfWindows (system : KheapSystem Mm) : Prop where
  sound : ChunksSound system.heap.chunks
  high : ∀ chunk ∈ system.heap.chunks, HighTaken chunk
  low : ∀ page ∈ system.live, page < emergencyAddr

theorem OutOfWindows.takes {heap : Kheap Mm} {page : Option Nat} (out : OutOfWindows system)
    (takes : TakesPage system.heap page heap) :
    OutOfWindows ⟨heap, page.toList ++ system.live⟩ := by
  obtain ⟨sound, -, -⟩ := takes.counts out.sound
  obtain ⟨chunk, member, -, registered, registers, rfl⟩ := takes
  have chunkSound := out.sound.sound chunk member
  have chunkHigh := out.high chunk member
  rcases chunkRegisterPage_cases chunkSound registers with
    ⟨rfl, rfl⟩ | ⟨ndx, inPages, clear, rfl, changed, -, bits⟩
  · refine ⟨sound, fun other otherMember => ?_, by simpa using out.low⟩
    rcases mem_setChunk otherMember with rfl | ⟨old, -⟩
    · exact chunkHigh
    · exact out.high other old
  · have range : SameRange registered chunk := by
      rw [changed]
      exact ⟨rfl, rfl⟩
    refine ⟨sound, fun other otherMember => ?_, fun page live => ?_⟩
    · rcases mem_setChunk otherMember with rfl | ⟨old, -⟩
      · intro otherNdx otherInPages high
        rw [range.pages_eq] at otherInPages
        rw [range.1] at high
        rw [bits otherNdx otherInPages, chunkHigh otherNdx otherInPages high, Bool.or_true]
      · exact out.high other old
    · rcases List.mem_append.mp live with new | old
      · rw [Option.toList_some, List.mem_singleton] at new
        subst new
        by_contra notLow
        rw [chunkHigh ndx inPages (Nat.le_of_not_lt notLow)] at clear
        cases clear
      · exact out.low page old

theorem OutOfWindows.append {memory : Nat → BitVec 32} {buddyMem gapBase gapLength : Nat}
    {chunk : HeapChunk} (out : OutOfWindows system)
    (free : GapFree system.heap.chunks gapBase gapLength)
    (avoids : AvoidsWindows gapBase (min gapLength confHeapMaxChunkSize) 0)
    (created : createNewChunk memory buddyMem gapBase gapLength = .ok chunk) :
    OutOfWindows ⟨appendNewChunk system.heap chunk, system.live⟩ := by
  obtain ⟨chunkSound, base, length, -, reserved⟩ := createNewChunk_spec free.1 created
  have chunkHigh : HighTaken chunk := by
    apply @highTaken_of_avoids chunk 0 chunkSound.proper reserved
    · rw [base, length, Nat.zero_mul]
      exact avoids
    · intro ndx _ impossible
      exact absurd impossible (Nat.not_lt_zero ndx)
  refine ⟨out.sound.insertChunk chunkSound (free.apart base length), fun other member => ?_,
    out.low⟩
  rcases List.mem_cons.mp ((insertChunk_perm _ _).mem_iff.mp member) with rfl | old
  · exact chunkHigh
  · exact out.high other old

theorem OutOfWindows.free {heap : Kheap Mm} {page : Nat} (out : OutOfWindows system)
    (member : page ∈ system.live) (freed : kheapFreePage ops system.heap page = .ok heap) :
    OutOfWindows ⟨heap, system.live.erase page⟩ := by
  obtain ⟨sound, -, -⟩ := kheapFreePage_counts freed out.sound
  obtain ⟨origin, ndx, buddy, _, originMember, isNdx, free, _, _, chunks, -, -⟩ :=
    kheapFreePage_cases freed
  have originSound := out.sound.sound origin originMember
  obtain ⟨contains, rfl⟩ := originSound.proper.areaPageNdx_eq_some.mp isNdx
  obtain ⟨-, bits⟩ := buddyFree_cases originSound (originSound.proper.ndx_lt contains) free
  refine ⟨sound, fun other otherMember => ?_, fun other live =>
    out.low other (List.mem_of_mem_erase live)⟩
  rw [chunks] at otherMember
  rcases mem_setChunk otherMember with rfl | ⟨old, -⟩
  · intro otherNdx inPages high
    have low := out.low page member
    have different : otherNdx ≠ origin.ndxOf page := by
      rintro rfl
      have above := contains.1
      unfold HeapChunk.ndxOf platformPageSize at high
      change emergencyAddr ≤ origin.base + (page - origin.base) / 4096 * 4096 at high
      omega
    show buddy.bit 0 otherNdx = true
    rw [bits otherNdx, out.high origin originMember otherNdx inPages high]
    simp [different]
  · exact out.high other old

theorem OutOfWindows.sameChunks {heap : Kheap Mm} (out : OutOfWindows system)
    (same : SameChunks heap system.heap) : OutOfWindows ⟨heap, system.live⟩ := by
  refine ⟨?_, ?_, out.low⟩
  · rw [same.1]
    exact out.sound
  · rw [same.1]
    exact out.high

theorem outOfWindows_of_initial (initial : KheapInitial ops WindowsAvoided start) :
    OutOfWindows start := by
  obtain ⟨_, _, chunk, gapBase, gapLength, avoids, rfl, sound, base, length, reserved, reqPages,
    -, required, -, fixed⟩ := initial.exists_chunk
  have chunkHigh : HighTaken chunk := by
    apply highTaken_of_avoids sound.proper reserved _ fun ndx _ below => fixed ndx below
    rw [HeapChunk.pages, length] at required
    rw [base, length]
    exact avoids reqPages required
  refine ⟨sound.singleton, fun other member => ?_, by simp⟩
  rw [List.mem_singleton] at member
  exact member ▸ chunkHigh

/-- In every run over gaps that avoid the windows, no page that was handed out
lies in a window. -/
theorem live_below_windows (reached : KheapReachable ops WindowsAvoided system) :
    ∀ page ∈ system.live, page < emergencyAddr := by
  obtain ⟨start, initial, run⟩ := reached
  have out : OutOfWindows system :=
    run.invariant (fun _ _ _ out takes => out.takes takes)
      (fun _ _ _ _ _ _ out free avoids created => out.append free avoids created)
      (fun _ _ _ out member freed => out.free member freed)
      (fun _ _ out same => out.sameChunks same) (outOfWindows_of_initial initial)
  exact out.low

theorem threePages_below : ∃ system, drained 0xc0000000 3 1 = some system ∧
    system.live = [0xc0001000] ∧ ∀ page ∈ system.live, page < emergencyAddr := by
  have result : (drained 0xc0000000 3 1).map (fun system => system.live) = some [0xc0001000] := by
    decide
  obtain ⟨system, executed, live⟩ := Option.map_eq_some_iff.mp result
  have avoids : WindowsAvoided ⟨directoryHeap, []⟩ (.first 0xc0000000 (3 * platformPageSize)) := by
    intro reqPages _ page _ _ below high
    have top : min (3 * platformPageSize) confHeapMaxChunkSize = 12288 := by decide
    have window : emergencyAddr = 0xff800000 := by decide
    omega
  exact ⟨system, executed, live,
    live_below_windows (drained_reachable (by decide) WindowsAvoided avoids executed)⟩

/-- A chunk that ends behind the first page of the emergency window: the second
page of the window is handed out. -/
theorem windowPage_allocated : ∃ system, KheapReachable countingOps (fun _ _ => True) system ∧
    ∃ page ∈ system.live, emergencyAddr ≤ page := by
  have result : (drained (emergencyAddr - platformPageSize) 3 1).map
      (fun system => system.live) = some [emergencyAddr + platformPageSize] := by decide
  obtain ⟨system, executed, live⟩ := Option.map_eq_some_iff.mp result
  exact ⟨system, drained_reachable (by decide) (fun _ _ => True) trivial executed,
    emergencyAddr + platformPageSize, by simp [live], by decide⟩

end Yaeos
