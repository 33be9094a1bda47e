import Yaeos.Buddy.Pages
import Yaeos.Kheap.Chunks
import Yaeos.Machine.Loop

/-!
# What the calls of the heap do to the chunks

`Chunks` is what holds of the chunks between calls: they are proper, ascending
and disjoint, each with a manager over its pages and a free space in whole
pages.  There is one lemma for every way a call changes the chunks.
-/

namespace Yaeos

open HeapChunk

variable {chunk next : HeapChunk} {chunks : List HeapChunk}

/-- What holds of a chunk by itself. -/
structure HeapChunk.Sound (chunk : HeapChunk) : Prop where
  proper : chunk.Proper
  tracks : chunk.buddy.Tracks chunk.pages
  whole : platformPageSize ∣ chunk.freeSpace

structure ChunksSound (chunks : List HeapChunk) : Prop where
  sound : ∀ chunk ∈ chunks, chunk.Sound
  ascending : chunks.Pairwise Before

theorem HeapChunk.Sound.singleton (sound : chunk.Sound) : ChunksSound [chunk] :=
  ⟨fun other member => by
    rw [List.mem_singleton] at member
    exact member ▸ sound, List.pairwise_singleton _ _⟩

def freeSpaceSum (chunks : List HeapChunk) : Nat := (chunks.map HeapChunk.freeSpace).sum

def SameRange (first second : HeapChunk) : Prop :=
  first.base = second.base ∧ first.length = second.length

theorem SameRange.pages_eq {first second : HeapChunk} (same : SameRange first second) :
    first.pages = second.pages := congrArg (· / platformPageSize) same.2

theorem SameRange.contains_iff {first second : HeapChunk} (same : SameRange first second)
    (addr : Nat) : first.Contains addr ↔ second.Contains addr := by
  unfold HeapChunk.Contains
  rw [same.1, same.2]

theorem SameRange.ndxOf_eq {first second : HeapChunk} (same : SameRange first second)
    (addr : Nat) : first.ndxOf addr = second.ndxOf addr := by
  rw [HeapChunk.ndxOf, HeapChunk.ndxOf, same.1]

theorem SameRange.proper (same : SameRange next chunk) (proper : chunk.Proper) : next.Proper where
  baseAligned := same.1 ▸ proper.baseAligned
  lengthAligned := same.2 ▸ proper.lengthAligned
  positive := same.2 ▸ proper.positive
  inside := by
    rw [same.1, same.2]
    exact proper.inside

/-- The chunks of a sound list have different bases. -/
theorem ChunksSound.base_inj (sound : ChunksSound chunks) {first second : HeapChunk}
    (firstMember : first ∈ chunks) (secondMember : second ∈ chunks)
    (same : first.base = second.base) : first = second := by
  have ordered : chunks.Pairwise fun first second => first.base < second.base :=
    sound.ascending.imp_of_mem fun member _ before =>
      (sound.sound _ member).proper.lt_of_before before
  by_contra different
  have pairwise := List.pairwise_iff_getElem.mp ordered
  obtain ⟨i, iBound, rfl⟩ := List.getElem_of_mem firstMember
  obtain ⟨j, jBound, rfl⟩ := List.getElem_of_mem secondMember
  rcases Nat.lt_trichotomy i j with below | equal | above
  · have less := pairwise i j iBound jBound below
    omega
  · subst equal
    exact different rfl
  · have less := pairwise j i jBound iBound above
    omega

theorem mem_setChunk {other : HeapChunk} (member : other ∈ setChunk chunks next) :
    other = next ∨ other ∈ chunks ∧ other.base ≠ next.base := by
  obtain ⟨old, oldMember, replaced⟩ := List.mem_map.mp member
  split at replaced
  · exact .inl replaced.symm
  · next different => exact .inr (replaced ▸ ⟨oldMember, different⟩)

/-- A chunk is written back over itself. -/
theorem ChunksSound.setChunk (sound : ChunksSound chunks) (member : chunk ∈ chunks)
    (same : SameRange next chunk) (nextSound : next.Sound) :
    ChunksSound (setChunk chunks next) := by
  refine ⟨fun other otherMember => ?_, ?_⟩
  · rcases mem_setChunk otherMember with rfl | ⟨old, -⟩
    · exact nextSound
    · exact sound.sound other old
  · refine List.pairwise_map.mpr (sound.ascending.imp_of_mem fun {x y} xMember yMember before => ?_)
    have range : ∀ old ∈ chunks,
        SameRange (if old.base = next.base then next else old) old := by
      intro old oldMember
      split
      · next sameBase =>
          rw [sound.base_inj oldMember member (sameBase.trans same.1)]
          exact same
      · exact ⟨rfl, rfl⟩
    unfold Before at *
    rw [(range x xMember).1, (range x xMember).2, (range y yMember).1]
    exact before

theorem freeSpaceSum_setChunk_absent (absent : ∀ other ∈ chunks, other.base ≠ next.base) :
    freeSpaceSum (setChunk chunks next) = freeSpaceSum chunks := by
  have same : setChunk chunks next = chunks := by
    rw [setChunk, List.map_congr_left fun other member => if_neg (absent other member),
      List.map_id']
  rw [same]

/-- The sum changes by what the chunk changes. -/
theorem ChunksSound.freeSpaceSum_setChunk (sound : ChunksSound chunks) (member : chunk ∈ chunks)
    (same : next.base = chunk.base) :
    freeSpaceSum (Yaeos.setChunk chunks next) + chunk.freeSpace =
      freeSpaceSum chunks + next.freeSpace := by
  induction chunks with
  | nil => cases member
  | cons head rest inductionHypothesis =>
      have restSound : ChunksSound rest :=
        ⟨fun other inRest => sound.sound other (by simp [inRest]),
          (List.pairwise_cons.mp sound.ascending).2⟩
      have headBefore : ∀ other ∈ rest, head.base < other.base := fun other inRest =>
        (sound.sound head (by simp)).proper.lt_of_before
          ((List.pairwise_cons.mp sound.ascending).1 other inRest)
      rcases List.mem_cons.mp member with rfl | inRest
      · have absent := @freeSpaceSum_setChunk_absent next rest fun other otherMember =>
          (Nat.ne_of_lt (same ▸ headBefore other otherMember)).symm
        simp only [freeSpaceSum, Yaeos.setChunk, List.map_cons, List.sum_cons, same, if_true] at *
        omega
      · have different : head.base ≠ next.base := by
          have below := headBefore chunk inRest
          omega
        have rest_ := inductionHypothesis restSound inRest
        simp only [freeSpaceSum, Yaeos.setChunk, List.map_cons, List.sum_cons,
          if_neg different] at *
        omega

theorem ChunksSound.insertChunk (sound : ChunksSound chunks) (chunkSound : chunk.Sound)
    (apart : ∀ other ∈ chunks, other.Apart chunk) : ChunksSound (insertChunk chunk chunks) := by
  refine ⟨fun other member => ?_, insertChunk_ascending chunkSound.proper
    (fun other member => (sound.sound other member).proper) apart sound.ascending⟩
  rcases List.mem_cons.mp ((insertChunk_perm chunk chunks).mem_iff.mp member) with rfl | old
  · exact chunkSound
  · exact sound.sound other old

theorem freeSpaceSum_insertChunk (chunk : HeapChunk) (chunks : List HeapChunk) :
    freeSpaceSum (insertChunk chunk chunks) = chunk.freeSpace + freeSpaceSum chunks := by
  have perm := (insertChunk_perm chunk chunks).map HeapChunk.freeSpace
  simpa [freeSpaceSum] using perm.sum_nat

/-- `chunk_register_page` takes a free page, or finds none. -/
theorem chunkRegisterPage_cases (sound : chunk.Sound) {pageAddr page : Option Nat}
    (registered : chunkRegisterPage chunk pageAddr = .ok (next, page)) :
    (page = none ∧ next = chunk) ∨
    ∃ ndx < chunk.pages, chunk.buddy.bit 0 ndx = false ∧
      page = some (chunk.base + ndx * platformPageSize) ∧
      next = { chunk with
        buddy := next.buddy, freeSpace := chunk.freeSpace - platformPageSize } ∧
      next.buddy.Tracks chunk.pages ∧
      ∀ other < chunk.pages,
        next.buddy.bit 0 other = (decide (other = ndx) || chunk.buddy.bit 0 other) := by
  cases pageAddr with
  | none =>
      rcases sound.tracks.alloc with
        ⟨ndx, inPages, clear, -, taken, alloc, tracks, bits⟩ | ⟨-, alloc⟩
      · simp only [chunkRegisterPage, alloc, Outcome.ok_bind, Except.ok.injEq, Prod.mk.injEq]
          at registered
        obtain ⟨rfl, rfl⟩ := registered
        exact .inr ⟨ndx, inPages, clear, rfl, rfl, tracks, bits⟩
      · simp only [chunkRegisterPage, alloc, Outcome.ok_bind, Except.ok.injEq, Prod.mk.injEq]
          at registered
        exact .inl ⟨registered.2.symm, registered.1.symm⟩
  | some addr =>
      simp only [chunkRegisterPage] at registered
      split at registered
      · cases registered
        exact .inl ⟨rfl, rfl⟩
      · next ndx isNdx =>
          obtain ⟨contains, rfl⟩ := sound.proper.areaPageNdx_eq_some.mp isNdx
          have inPages := sound.proper.ndx_lt contains
          rw [BuddyManager.buddyTryAlloc_eq sound.tracks.manages (by simpa using inPages)]
            at registered
          split at registered
          · cases registered
            exact .inl ⟨rfl, rfl⟩
          · next clear =>
              obtain ⟨taken, occupied, tracks, bits⟩ := sound.tracks.occupy inPages
              simp only [occupied, Outcome.ok_bind, Except.ok.injEq, if_true, Prod.mk.injEq]
                at registered
              obtain ⟨rfl, rfl⟩ := registered
              exact .inr ⟨_, inPages, by simpa using clear, rfl, rfl, tracks, bits⟩

/-- What is registered is still a sound chunk over the same range. -/
theorem chunkRegisterPage_sound (sound : chunk.Sound) {pageAddr page : Option Nat}
    (registered : chunkRegisterPage chunk pageAddr = .ok (next, page)) :
    next.Sound ∧ SameRange next chunk := by
  rcases chunkRegisterPage_cases sound registered with
    ⟨-, rfl⟩ | ⟨_, _, _, _, changed, tracks, _⟩
  · exact ⟨sound, rfl, rfl⟩
  · have same : SameRange next chunk := by
      rw [changed]
      exact ⟨rfl, rfl⟩
    have space : next.freeSpace = chunk.freeSpace - platformPageSize := by rw [changed]
    exact ⟨⟨same.proper sound.proper, same.pages_eq ▸ tracks,
      space ▸ Nat.dvd_sub sound.whole (Nat.dvd_refl _)⟩, same⟩

/-- A page is freed in a chunk that has it. -/
theorem buddyFree_cases (sound : chunk.Sound) {ndx : Nat} {buddy : BuddyManager}
    (inPages : ndx < chunk.pages) (freed : buddyFree chunk.buddy ndx 0 = .ok buddy) :
    buddy.Tracks chunk.pages ∧
      ∀ other, buddy.bit 0 other = (!decide (other = ndx) && chunk.buddy.bit 0 other) := by
  by_cases sibling : ndx >>> 1 <<< 1 + 1 < chunk.pages
  · obtain ⟨freedNext, returned, tracks, bits⟩ := sound.tracks.free sibling inPages
    rw [returned] at freed
    cases freed
    exact ⟨tracks, bits⟩
  · have spec := @BuddyManager.freeBuddy_represents chunk.buddy chunk.pages _ ⟨ndx, 0⟩
      sound.tracks (by simpa using inPages)
    rw [if_neg (show ¬BuddyManager.HasSibling chunk.pages ⟨ndx, 0⟩ by
      simpa [BuddyManager.HasSibling] using sibling)] at spec
    rw [buddyFree, spec] at freed
    cases freed

/-- The loops that take pages out of use. -/
theorem reservePages_spec {pages ndx count : Nat} {buddy reserved : BuddyManager}
    (tracks : buddy.Tracks pages)
    (done : (List.range count).foldlM (reservePage ndx) buddy = .ok reserved) :
    (∀ i < count, ndx + i < pages) ∧ reserved.Tracks pages ∧
      ∀ other < pages, reserved.bit 0 other =
        (decide (ndx ≤ other ∧ other < ndx + count) || buddy.bit 0 other) := by
  refine Loop.range_of_ok (fun round state => (∀ i < round, ndx + i < pages) ∧
    state.Tracks pages ∧ ∀ other < pages,
    state.bit 0 other = (decide (ndx ≤ other ∧ other < ndx + round) || buddy.bit 0 other))
    done ⟨by simp, tracks, fun other _ => ?_⟩ fun round _ before after holds stepped => ?_
  · simp only [Nat.add_zero, show ¬(ndx ≤ other ∧ other < ndx) by omega, decide_false,
      Bool.false_or]
  · obtain ⟨inside, beforeTracks, beforeBits⟩ := holds
    simp only [reservePage, Outcome.bind_eq_ok] at stepped
    obtain ⟨⟨taken, success⟩, tried, result⟩ := stepped
    cases success with
    | false => cases result
    | true =>
        simp only [if_true, Except.ok.injEq] at result
        subst result
        obtain ⟨here, takenTracks, takenBits⟩ := beforeTracks.tryAlloc tried
        refine ⟨fun i below => ?_, takenTracks, fun other inPages => ?_⟩
        · rcases Nat.lt_succ_iff_lt_or_eq.mp below with earlier | rfl
          · exact inside i earlier
          · exact here
        · rw [takenBits other inPages, beforeBits other inPages, ← Bool.or_assoc,
            ← Bool.decide_or]
          congr 2
          simp only [eq_iff_iff]
          omega

/-- Pages of a chunk were taken out of use, and nothing else. -/
structure Reserves (chunk next : HeapChunk) : Prop where
  sound : next.Sound
  range : SameRange next chunk
  freeSpace : next.freeSpace = chunk.freeSpace
  kept : ∀ ndx < chunk.pages, chunk.buddy.bit 0 ndx = true → next.buddy.bit 0 ndx = true

theorem Reserves.trans {last : HeapChunk} (first : Reserves chunk next)
    (second : Reserves next last) : Reserves chunk last where
  sound := second.sound
  range := ⟨second.range.1.trans first.range.1, second.range.2.trans first.range.2⟩
  freeSpace := second.freeSpace.trans first.freeSpace
  kept ndx inPages taken :=
    second.kept ndx (first.range.pages_eq.symm ▸ inPages) (first.kept ndx inPages taken)

/-- A single page is taken out of use if the chunk has it. -/
theorem preregisterInvalidPages_eq (proper : chunk.Proper) {addr : Nat}
    (aligned : platformPageSize ∣ addr) (fits : addr + platformPageSize ≤ addressSpace) :
    preregisterInvalidPages chunk addr platformPageSize =
      if chunk.Contains addr then do
        let buddy ← (List.range 1).foldlM (reservePage (chunk.ndxOf addr)) chunk.buddy
        .ok { chunk with buddy := buddy }
      else .ok chunk := by
  have last := proper.last_eq
  have positive := proper.positive
  have inside := proper.inside
  have invEnd : wrapSub (wrap (addr + platformPageSize)) 1 = addr + 4095 := by
    unfold wrapSub wrap addressSpace platformPageSize at *
    omega
  simp only [preregisterInvalidPages, invEnd, last]
  split
  · next away =>
      rw [if_neg]
      unfold HeapChunk.Contains
      omega
  · next overlap =>
      obtain ⟨pageCount, isPage⟩ := aligned
      obtain ⟨baseCount, base⟩ := proper.baseAligned
      obtain ⟨lengthCount, length⟩ := proper.lengthAligned
      have contains : chunk.Contains addr := by
        unfold HeapChunk.Contains platformPageSize at *
        omega
      have start : max chunk.base addr = addr := Nat.max_eq_right contains.1
      have stop : min (chunk.base + chunk.length - 1) (addr + 4095) = addr + 4095 := by
        unfold HeapChunk.Contains platformPageSize at *
        omega
      have single : divCeil (wrap (addr + 4095 - addr + 1)) platformPageSize = 1 := by
        rw [Nat.add_sub_cancel_left]
        decide
      have ndx : areaPageNdx chunk addr = some (chunk.ndxOf addr) :=
        proper.areaPageNdx_eq_some.mpr ⟨contains, rfl⟩
      simp only [start, stop, single, ndx, if_pos contains]

/-- A reserved page that lies in the chunk is out of use afterwards. -/
theorem preregisterInvalidPages_spec (sound : chunk.Sound) {addr : Nat}
    (aligned : platformPageSize ∣ addr) (fits : addr + platformPageSize ≤ addressSpace)
    (done : preregisterInvalidPages chunk addr platformPageSize = .ok next) :
    Reserves chunk next ∧
      (chunk.Contains addr → next.buddy.bit 0 (chunk.ndxOf addr) = true) := by
  rw [preregisterInvalidPages_eq sound.proper aligned fits] at done
  split at done
  · next contains =>
      simp only [Outcome.bind_eq_ok, Except.ok.injEq] at done
      obtain ⟨buddy, reserved, rfl⟩ := done
      obtain ⟨-, tracks, bits⟩ := reservePages_spec sound.tracks reserved
      have range : SameRange { chunk with buddy := buddy } chunk := ⟨rfl, rfl⟩
      refine ⟨⟨⟨range.proper sound.proper, tracks, sound.whole⟩, range, rfl,
        fun other inPages taken => ?_⟩, fun _ => ?_⟩
      · show buddy.bit 0 other = true
        rw [bits other inPages, taken, Bool.or_true]
      · show buddy.bit 0 (chunk.ndxOf addr) = true
        rw [bits _ (sound.proper.ndx_lt contains)]
        simp
  · next away =>
      cases done
      exact ⟨⟨sound, ⟨rfl, rfl⟩, rfl, fun _ _ taken => taken⟩, fun contains =>
        absurd contains away⟩

/-- The two reserved pages. -/
theorem reservedVaddresses_spec (sound : chunk.Sound)
    (done : vmArchIterReservedVaddresses preregisterInvalidPages chunk = .ok next) :
    Reserves chunk next ∧
      (chunk.Contains emergencyAddr → next.buddy.bit 0 (chunk.ndxOf emergencyAddr) = true) ∧
      (chunk.Contains recursiveAddr → next.buddy.bit 0 (chunk.ndxOf recursiveAddr) = true) := by
  simp only [vmArchIterReservedVaddresses, Outcome.bind_eq_ok] at done
  obtain ⟨middle, first, second⟩ := done
  obtain ⟨firstReserves, recursive⟩ :=
    preregisterInvalidPages_spec sound (by decide) (by decide) first
  obtain ⟨secondReserves, emergency⟩ :=
    preregisterInvalidPages_spec firstReserves.sound (by decide) (by decide) second
  have sameBase := firstReserves.range.1
  have sameLength := firstReserves.range.2
  refine ⟨firstReserves.trans secondReserves, fun contains => ?_, fun contains => ?_⟩
  · have inMiddle : middle.Contains emergencyAddr := by
      unfold HeapChunk.Contains
      rw [sameBase, sameLength]
      exact contains
    simpa [HeapChunk.ndxOf, sameBase] using emergency inMiddle
  · apply secondReserves.kept _ _ (recursive contains)
    rw [firstReserves.range.pages_eq]
    exact sound.proper.ndx_lt contains

/-- A fresh manager belongs to a chunk whose range passed the assertions. -/
theorem fresh_sound {base length : Nat} {memory : Nat → BitVec 32}
    {alloc rest : LinearAlloc} {buddy : BuddyManager} {maxIndex predicted : Nat}
    (inside : base + length ≤ addressSpace) (baseAligned : checkAlign base platformPageSize)
    (lengthAligned : checkAlign length platformPageSize)
    (predicts : buddyPredictReqSpace (length / platformPageSize) = .ok predicted)
    (initialised :
      buddyInit memory (length / platformPageSize) alloc = .ok (buddy, rest, maxIndex)) :
    platformPageSize ∣ length ∧ ∀ freeSpace, platformPageSize ∣ freeSpace →
      HeapChunk.Sound { base := base, length := length, freeSpace := freeSpace, buddy := buddy } := by
  have pages : length / platformPageSize ≠ 0 := by
    simp only [buddyPredictReqSpace, log2Floor, Outcome.bind_eq_ok, kassert_eq_ok] at predicts
    obtain ⟨_, ⟨_, nonzero, _⟩, _⟩ := predicts
    exact fun zero => nonzero zero.symm
  have positive : 0 < length := by
    unfold platformPageSize at pages
    omega
  have lengthDvd : platformPageSize ∣ length := by
    by_cases all : length < addressSpace
    · exact (checkAlign_page all).mp lengthAligned
    · have full : length = addressSpace := by omega
      rw [full]
      decide
  have baseDvd : platformPageSize ∣ base := (checkAlign_page (by omega)).mp baseAligned
  exact ⟨lengthDvd, fun freeSpace whole => ⟨⟨baseDvd, lengthDvd, positive, inside⟩,
    (BuddyManager.buddyInit_represents initialised).tracks, whole⟩⟩

/-- The first chunk keeps the pages it takes for itself at its start. -/
theorem fixed_sound {base length count freeSpace : Nat} {memory : Nat → BitVec 32}
    {alloc rest : LinearAlloc} {buddy fixed : BuddyManager} {maxIndex predicted : Nat}
    (inside : base + length ≤ addressSpace) (baseAligned : checkAlign base platformPageSize)
    (lengthAligned : checkAlign length platformPageSize)
    (predicts : buddyPredictReqSpace (length / platformPageSize) = .ok predicted)
    (initialised :
      buddyInit memory (length / platformPageSize) alloc = .ok (buddy, rest, maxIndex))
    (fixing : (List.range count).foldlM (reservePage 0) buddy = .ok fixed)
    (whole : platformPageSize ∣ freeSpace) :
    HeapChunk.Sound { base := base, length := length, freeSpace := freeSpace, buddy := fixed } ∧
      (∀ ndx < count, ndx < length / platformPageSize) ∧
      ∀ ndx < length / platformPageSize, fixed.bit 0 ndx = decide (ndx < count) := by
  obtain ⟨-, soundOf⟩ := fresh_sound inside baseAligned lengthAligned predicts initialised
  obtain ⟨proper, tracks, -⟩ := soundOf freeSpace whole
  obtain ⟨inPages, fixedTracks, fixedBits⟩ := reservePages_spec tracks fixing
  obtain ⟨-, -, clear⟩ := BuddyManager.buddyInit_spec initialised
  refine ⟨⟨⟨proper.baseAligned, proper.lengthAligned, proper.positive, proper.inside⟩,
    fixedTracks, whole⟩, fun ndx below => ?_, fun ndx below => ?_⟩
  · have room := inPages ndx below
    rwa [Nat.zero_add] at room
  · rw [fixedBits ndx below, clear 0 ndx (by simpa using below)]
    simp

/-- The windows of a chunk are out of use where they have a reserved page. -/
def ReservedTaken (chunk : HeapChunk) : Prop :=
  ∀ addr, addr = emergencyAddr ∨ addr = recursiveAddr → chunk.Contains addr →
    chunk.buddy.bit 0 (chunk.ndxOf addr) = true

theorem Reserves.reservedTaken (reserves : Reserves chunk next)
    (emergency : chunk.Contains emergencyAddr →
      next.buddy.bit 0 (chunk.ndxOf emergencyAddr) = true)
    (recursive : chunk.Contains recursiveAddr →
      next.buddy.bit 0 (chunk.ndxOf recursiveAddr) = true) : ReservedTaken next := by
  intro addr reserved contains
  have sameNdx : next.ndxOf addr = chunk.ndxOf addr := by
    rw [HeapChunk.ndxOf, HeapChunk.ndxOf, reserves.range.1]
  have old : chunk.Contains addr := by
    unfold HeapChunk.Contains at *
    rwa [reserves.range.1, reserves.range.2] at contains
  rw [sameNdx]
  rcases reserved with rfl | rfl
  · exact emergency old
  · exact recursive old

/-- The chunk before the reserved addresses are registered: sound, and with no page taken. -/
theorem createNewChunk_fresh {memory : Nat → BitVec 32} {buddyMem gapBase gapLength : Nat}
    (inside : gapBase + min gapLength confHeapMaxChunkSize ≤ addressSpace)
    (created : createNewChunk memory buddyMem gapBase gapLength = .ok chunk) : ∃ fresh : HeapChunk,
      fresh.Sound ∧ fresh.base = gapBase ∧ fresh.length = min gapLength confHeapMaxChunkSize ∧
        fresh.freeSpace = fresh.length ∧ platformPageSize ∣ fresh.length ∧
        (∀ ndx < fresh.pages, fresh.buddy.bit 0 ndx = false) ∧
        vmArchIterReservedVaddresses preregisterInvalidPages fresh = .ok chunk := by
  rw [Nat.min_comm] at inside ⊢
  simp only [createNewChunk, Outcome.bind_eq_ok, kassert_eq_ok] at created
  obtain ⟨_, baseAligned, _, lengthAligned, _, predicts, _, _, ⟨buddy, rest, maxIndex⟩,
    initialised, reserved⟩ := created
  obtain ⟨whole, soundOf⟩ := fresh_sound inside baseAligned lengthAligned predicts initialised
  obtain ⟨-, -, clear⟩ := BuddyManager.buddyInit_spec initialised
  exact ⟨_, soundOf _ whole, rfl, rfl, rfl, whole,
    fun ndx inPages => clear 0 ndx (by simpa [HeapChunk.pages] using inPages), reserved⟩

theorem createNewChunk_spec {memory : Nat → BitVec 32} {buddyMem gapBase gapLength : Nat}
    (inside : gapBase + min gapLength confHeapMaxChunkSize ≤ addressSpace)
    (created : createNewChunk memory buddyMem gapBase gapLength = .ok chunk) :
    chunk.Sound ∧ chunk.base = gapBase ∧ chunk.length = min gapLength confHeapMaxChunkSize ∧
      chunk.freeSpace = chunk.length ∧ ReservedTaken chunk := by
  obtain ⟨fresh, sound, base, length, free, -, -, reserved⟩ := createNewChunk_fresh inside created
  obtain ⟨reserves, emergency, recursive⟩ := reservedVaddresses_spec sound reserved
  have sameLength := reserves.range.2
  refine ⟨reserves.sound, reserves.range.1.trans base, sameLength.trans length, ?_,
    reserves.reservedTaken emergency recursive⟩
  rw [reserves.freeSpace, free, sameLength]

section Mapping

variable {Mm : Type} {ops : MmOps Mm} {heap heapNext : Kheap Mm}

/-- The fields of the heap that mappings leave alone. -/
def SameChunks (heapNext heap : Kheap Mm) : Prop :=
  heapNext.chunks = heap.chunks ∧ heapNext.heapFreeSpace = heap.heapFreeSpace ∧
    heapNext.rootDir = heap.rootDir

theorem SameChunks.trans {last : Kheap Mm} (first : SameChunks last heapNext)
    (second : SameChunks heapNext heap) : SameChunks last heap :=
  ⟨first.1.trans second.1, first.2.1.trans second.2.1, first.2.2.trans second.2.2⟩

theorem heapPtMap_sameChunks {physAddr atVirtAddr : Nat}
    (mapped : heapPtMap ops heap physAddr atVirtAddr = .ok heapNext) :
    SameChunks heapNext heap := by
  simp only [heapPtMap, Outcome.bind_eq_ok, Except.ok.injEq] at mapped
  obtain ⟨_, _, _, _, rfl⟩ := mapped
  exact ⟨rfl, rfl, rfl⟩

theorem mapFirstPage_sameChunks {base i : Nat}
    (mapped : mapFirstPage ops base heap i = .ok heapNext) : SameChunks heapNext heap := by
  simp only [mapFirstPage, Outcome.bind_eq_ok, deref_eq_ok] at mapped
  obtain ⟨_, _, _, _, _, _, mapped⟩ := mapped
  exact (heapPtMap_sameChunks mapped).trans ⟨rfl, rfl, rfl⟩

theorem mapFirstPages_sameChunks {base count : Nat}
    (mapped : (List.range count).foldlM (mapFirstPage ops base) heap = .ok heapNext) :
    SameChunks heapNext heap :=
  Loop.range_of_ok (fun _ state => SameChunks state heap) mapped ⟨rfl, rfl, rfl⟩
    fun _ _ _ _ before stepped => (mapFirstPage_sameChunks stepped).trans before

theorem initFirstChunk_spec {memory : Nat → BitVec 32} {gapBase gapLength : Nat}
    (inside : gapBase + min gapLength confHeapMaxChunkSize ≤ addressSpace)
    (initialised : initFirstChunk ops memory heap gapBase gapLength = .ok (heapNext, chunk)) :
    chunk.Sound ∧ chunk.base = gapBase ∧ chunk.length = min gapLength confHeapMaxChunkSize ∧
      ReservedTaken chunk ∧
      ∃ reqPages ≤ chunk.pages, firstChunkReqPages chunk.pages = .ok reqPages ∧
        (List.range reqPages).foldlM (mapFirstPage ops gapBase) heap = .ok heapNext ∧
        ∀ ndx < reqPages, chunk.buddy.bit 0 ndx = true := by
  simp only [initFirstChunk, Outcome.bind_eq_ok, kassert_eq_ok, Except.ok.injEq,
    Prod.mk.injEq] at initialised
  obtain ⟨_, baseAligned, _, lengthAligned, reqPages, required, mapped, mapping, _, _,
    ⟨buddy, rest, maxIndex⟩, booted, fixed, fixing, reserved, reserving, rfl, rfl⟩ := initialised
  have predicted := required
  simp only [firstChunkReqPages, Outcome.bind_eq_ok] at predicted
  obtain ⟨_, predicts, _⟩ := predicted
  obtain ⟨fixedSound, room, fixedBits⟩ := fixed_sound inside baseAligned lengthAligned predicts
    booted fixing (Nat.dvd_mul_left platformPageSize
      (min gapLength confHeapMaxChunkSize / platformPageSize - reqPages))
  obtain ⟨reserves, emergency, recursive⟩ := reservedVaddresses_spec fixedSound reserving
  have pages : reserved.pages = min gapLength confHeapMaxChunkSize / platformPageSize :=
    reserves.range.pages_eq
  refine ⟨reserves.sound, reserves.range.1, reserves.range.2,
    reserves.reservedTaken emergency recursive, reqPages, ?_, ?_, mapping, fun ndx below => ?_⟩
  · rw [pages]
    rcases Nat.eq_zero_or_pos reqPages with zero | positive
    · omega
    · have last := room (reqPages - 1) (by omega)
      omega
  · rw [pages]
    exact required
  · apply reserves.kept ndx (room ndx below)
    show fixed.bit 0 ndx = true
    rw [fixedBits ndx (room ndx below)]
    simp [below]

/-- The fault handler maps a page of a heap whose chunks stay as they are. -/
theorem chunkPgfaultHandler_cases {addr : Nat} {trimmed : Outcome (Kheap Mm)}
    (handled : chunkPgfaultHandler ops heap chunk addr trimmed = .ok heapNext) :
    isRegisteredPage chunk (alignRounddown addr platformPageSize) = .ok false ∧
    ∃ mm page, ops.allocPage heap.mm = .ok (mm, page) ∧
      ((∃ paddr, page = some paddr ∧
        heapPtMap ops { heap with mm := mm } paddr (alignRounddown addr platformPageSize) =
          .ok heapNext) ∨
      (page = none ∧ ∃ trimmedHeap lastMm paddr, trimmed = .ok trimmedHeap ∧
        ops.allocPage trimmedHeap.mm = .ok (lastMm, some paddr) ∧
        heapPtMap ops { trimmedHeap with mm := lastMm } paddr
          (alignRounddown addr platformPageSize) = .ok heapNext)) := by
  simp only [chunkPgfaultHandler, Outcome.bind_eq_ok] at handled
  obtain ⟨registered, checked, handled⟩ := handled
  cases registered with
  | true => cases handled
  | false =>
      simp only [Bool.false_eq_true, if_false, Outcome.bind_eq_ok] at handled
      obtain ⟨⟨mm, page⟩, allocated, handled⟩ := handled
      refine ⟨checked, mm, page, allocated, ?_⟩
      cases page with
      | some paddr => exact .inl ⟨paddr, rfl, handled⟩
      | none =>
          simp only [Outcome.bind_eq_ok] at handled
          obtain ⟨trimmedHeap, trims, ⟨lastMm, last⟩, again, handled⟩ := handled
          cases last with
          | none => cases handled
          | some paddr => exact .inr ⟨rfl, trimmedHeap, lastMm, paddr, trims, again, handled⟩

/-- The handler that returns without a trim found a page at once. -/
theorem chunkPgfaultHandler_touched {addr : Nat} {fault : Fault}
    (handled : chunkPgfaultHandler ops heap chunk addr (.error fault) = .ok heapNext) :
    isRegisteredPage chunk (alignRounddown addr platformPageSize) = .ok false ∧
    ∃ mm paddr, ops.allocPage heap.mm = .ok (mm, some paddr) ∧
      heapPtMap ops { heap with mm := mm } paddr (alignRounddown addr platformPageSize) =
        .ok heapNext := by
  obtain ⟨registered, mm, page, allocated, ⟨paddr, rfl, mapped⟩ | ⟨-, _, _, _, impossible, -⟩⟩ :=
    chunkPgfaultHandler_cases handled
  · exact ⟨registered, mm, paddr, allocated, mapped⟩
  · cases impossible

/-- Without a page the handler goes on after the trim. -/
theorem chunkPgfaultHandler_trimmed {addr : Nat} {mm : Mm} {trimmedHeap : Kheap Mm}
    (full : ops.allocPage heap.mm = .ok (mm, none))
    (handled : chunkPgfaultHandler ops heap chunk addr (.ok trimmedHeap) = .ok heapNext) :
    isRegisteredPage chunk (alignRounddown addr platformPageSize) = .ok false ∧
    ∃ lastMm paddr, ops.allocPage trimmedHeap.mm = .ok (lastMm, some paddr) ∧
      heapPtMap ops { trimmedHeap with mm := lastMm } paddr
        (alignRounddown addr platformPageSize) = .ok heapNext := by
  obtain ⟨registered, _, page, allocated, ⟨_, rfl, -⟩ | ⟨-, _, lastMm, paddr, trims, again, mapped⟩⟩ :=
    chunkPgfaultHandler_cases handled
  · cases full.symm.trans allocated
  · cases trims
    exact ⟨registered, lastMm, paddr, again, mapped⟩

/-- A page was taken from a chunk of the list, or the chunk had none. -/
def TakesPage (heap : Kheap Mm) (page : Option Nat) (next : Kheap Mm) : Prop :=
  ∃ chunk ∈ heap.chunks, 0 < chunk.freeSpace ∧ ∃ registered,
    chunkRegisterPage chunk none = .ok (registered, page) ∧
    next = { heap with chunks := setChunk heap.chunks registered }

theorem kheapAllocPage_existing {created : Outcome (Kheap Mm × Option HeapChunk)}
    {page : Option Nat} (stays : ¬heap.Grows)
    (allocated : kheapAllocPage heap created = .ok (heapNext, page)) :
    TakesPage heap page heapNext := by
  simp only [kheapAllocPage, kheapChooseChunk, if_neg stays, Outcome.bind_eq_ok, kassert_eq_ok,
    deref_eq_ok, Except.ok.injEq, Prod.mk.injEq] at allocated
  obtain ⟨_, ⟨_, _, rfl⟩, _, _, chunk, found, ⟨registered, _⟩, registers, rfl, rfl⟩ := allocated
  have hasSpace := List.find?_some found
  exact ⟨chunk, List.mem_of_find?_eq_some found, by simpa using hasSpace, registered, registers,
    rfl⟩

theorem kheapAllocPage_grown {middle : Kheap Mm} {page : Option Nat} (grows : heap.Grows)
    (hasSpace : 0 < chunk.freeSpace)
    (allocated : kheapAllocPage heap (.ok (middle, some chunk)) = .ok (heapNext, page)) :
    TakesPage (appendNewChunk middle chunk) page heapNext := by
  simp only [kheapAllocPage, kheapChooseChunk, if_pos grows, Outcome.ok_bind, Outcome.bind_eq_ok,
    kassert_eq_ok, deref_eq_ok, Except.ok.injEq, Prod.mk.injEq, Option.some.injEq] at allocated
  obtain ⟨_, _, _, rfl, ⟨registered, _⟩, registers, rfl, rfl⟩ := allocated
  exact ⟨chunk, (insertChunk_perm chunk middle.chunks).mem_iff.mpr (by simp), hasSpace,
    registered, registers, rfl⟩

/-- The counters when a page is taken: the chunk's goes down, the global one stays. -/
theorem TakesPage.counts {page : Option Nat} (takes : TakesPage heap page heapNext)
    (sound : ChunksSound heap.chunks) :
    ChunksSound heapNext.chunks ∧ heapNext.heapFreeSpace = heap.heapFreeSpace ∧
      freeSpaceSum heapNext.chunks + platformPageSize * page.toList.length =
        freeSpaceSum heap.chunks := by
  obtain ⟨chunk, member, hasSpace, registered, registers, rfl⟩ := takes
  have chunkSound := sound.sound chunk member
  obtain ⟨registeredSound, range⟩ := chunkRegisterPage_sound chunkSound registers
  have sums := sound.freeSpaceSum_setChunk member range.1
  refine ⟨sound.setChunk member range registeredSound, rfl, ?_⟩
  show freeSpaceSum (setChunk heap.chunks registered) + _ = _
  rcases chunkRegisterPage_cases chunkSound registers with
    ⟨rfl, rfl⟩ | ⟨ndx, _, _, rfl, changed, _, _⟩
  · simp only [Option.toList_none, List.length_nil, Nat.mul_zero]
    omega
  · have space : registered.freeSpace = chunk.freeSpace - platformPageSize := by rw [changed]
    have enough := Nat.le_of_dvd hasSpace chunkSound.whole
    simp only [Option.toList_some, List.length_singleton, Nat.mul_one]
    omega

/-- What giving a page back changes of a heap with the chunk. -/
theorem chunkUnregisterPage_cases {page : Nat}
    (unregistered : chunkUnregisterPage ops heap chunk page = .ok heapNext) :
    ∃ ndx buddy physAddr, areaPageNdx chunk page = some ndx ∧
      buddyFree chunk.buddy ndx 0 = .ok buddy ∧
      vmArchResolvePhysPage heap.frames heap.rootDir page = .ok (heapNext.frames, physAddr) ∧
      ops.freePage heap.mm physAddr = .ok heapNext.mm ∧
      heapNext.chunks = setChunk heap.chunks { chunk with
        buddy := buddy, freeSpace := chunk.freeSpace + platformPageSize } ∧
      heapNext.heapFreeSpace = heap.heapFreeSpace ∧ heapNext.rootDir = heap.rootDir := by
  unfold chunkUnregisterPage at unregistered
  split at unregistered
  · cases unregistered
  · next ndx isNdx =>
      simp only [Outcome.bind_eq_ok, Except.ok.injEq] at unregistered
      obtain ⟨buddy, freed, ⟨frames, physAddr⟩, resolved, mm, released, rfl⟩ := unregistered
      exact ⟨ndx, buddy, physAddr, isNdx, freed, resolved, released, rfl, rfl, rfl⟩

theorem kheapFreePage_cases {page : Nat} (freed : kheapFreePage ops heap page = .ok heapNext) :
    ∃ origin ndx buddy physAddr, origin ∈ heap.chunks ∧ areaPageNdx origin page = some ndx ∧
      buddyFree origin.buddy ndx 0 = .ok buddy ∧
      vmArchResolvePhysPage heap.frames heap.rootDir page = .ok (heapNext.frames, physAddr) ∧
      ops.freePage heap.mm physAddr = .ok heapNext.mm ∧
      heapNext.chunks = setChunk heap.chunks { origin with
        buddy := buddy, freeSpace := origin.freeSpace + platformPageSize } ∧
      heapNext.heapFreeSpace = heap.heapFreeSpace ∧ heapNext.rootDir = heap.rootDir := by
  simp only [kheapFreePage, Outcome.bind_eq_ok] at freed
  obtain ⟨origin, found, unregistered⟩ := freed
  have member : origin ∈ heap.chunks := by
    unfold kheapFreeOrigin at found
    split at found
    · cases found
    · next chosen search =>
        simp only [Outcome.bind_eq_ok, kassert_eq_ok, Except.ok.injEq] at found
        obtain ⟨_, _, rfl⟩ := found
        exact List.mem_of_find?_eq_some search
  obtain ⟨ndx, buddy, physAddr, rest⟩ := chunkUnregisterPage_cases unregistered
  exact ⟨origin, ndx, buddy, physAddr, member, rest⟩

/-- The counters when a page is freed: the chunk's goes up, the global one stays. -/
theorem kheapFreePage_counts {page : Nat} (freed : kheapFreePage ops heap page = .ok heapNext)
    (sound : ChunksSound heap.chunks) :
    ChunksSound heapNext.chunks ∧ heapNext.heapFreeSpace = heap.heapFreeSpace ∧
      freeSpaceSum heapNext.chunks = freeSpaceSum heap.chunks + platformPageSize := by
  obtain ⟨origin, ndx, buddy, _, member, isNdx, free, _, _, chunks, counter, _⟩ :=
    kheapFreePage_cases freed
  have originSound := sound.sound origin member
  obtain ⟨contains, rfl⟩ := originSound.proper.areaPageNdx_eq_some.mp isNdx
  obtain ⟨tracks, -⟩ := buddyFree_cases originSound (originSound.proper.ndx_lt contains) free
  let restored : HeapChunk :=
    { origin with buddy := buddy, freeSpace := origin.freeSpace + platformPageSize }
  have range : SameRange restored origin := ⟨rfl, rfl⟩
  have restoredSound : restored.Sound := ⟨range.proper originSound.proper, tracks,
    Nat.dvd_add originSound.whole (Nat.dvd_refl _)⟩
  have sums := @ChunksSound.freeSpaceSum_setChunk origin restored heap.chunks sound member rfl
  have space : restored.freeSpace = origin.freeSpace + platformPageSize := rfl
  rw [chunks]
  refine ⟨sound.setChunk member range restoredSound, counter, ?_⟩
  show freeSpaceSum (setChunk heap.chunks restored) = _
  omega

end Mapping

end Yaeos
