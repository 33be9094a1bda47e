import Yaeos.Kheap.Basic

/-!
# The list of chunks

`append_new_chunk` keeps the chunks ascending by base.  `kheap_free_page` takes
the first chunk that does not start above the page, and in an ascending list
this is the first chunk whenever it is any: only a page of the lowest chunk gets
back to where it came from.
-/

namespace Yaeos

namespace HeapChunk

/-- Whole pages, at least one, without a wrap; a chunk may end at the last address. -/
structure Proper (chunk : HeapChunk) : Prop where
  baseAligned : platformPageSize ∣ chunk.base
  lengthAligned : platformPageSize ∣ chunk.length
  positive : 0 < chunk.length
  inside : chunk.base + chunk.length ≤ addressSpace

def Before (first second : HeapChunk) : Prop := first.base + first.length ≤ second.base

def Apart (first second : HeapChunk) : Prop := first.Before second ∨ second.Before first

def Contains (chunk : HeapChunk) (addr : Nat) : Prop :=
  chunk.base ≤ addr ∧ addr < chunk.base + chunk.length

instance (chunk : HeapChunk) (addr : Nat) : Decidable (chunk.Contains addr) :=
  inferInstanceAs (Decidable (_ ∧ _))

def pages (chunk : HeapChunk) : Nat := chunk.length / platformPageSize

/-- The index of an address in a chunk. -/
def ndxOf (chunk : HeapChunk) (addr : Nat) : Nat := (addr - chunk.base) / platformPageSize

variable {chunk first second : HeapChunk} {addr ndx : Nat}

theorem Proper.last_eq (proper : chunk.Proper) :
    chunk.last = chunk.base + chunk.length - 1 := by
  have positive := proper.positive
  have inside := proper.inside
  unfold last wrapSub wrap addressSpace at *
  omega

theorem Proper.lt_of_before (proper : first.Proper) (before : first.Before second) :
    first.base < second.base := by
  have positive := proper.positive
  unfold Before at before
  omega

theorem Proper.areaPageNdx_eq_some (proper : chunk.Proper) :
    areaPageNdx chunk addr = some ndx ↔
      chunk.Contains addr ∧ ndx = chunk.ndxOf addr := by
  have last := proper.last_eq
  have positive := proper.positive
  unfold areaPageNdx Contains ndxOf
  split <;> simp only [Option.some.injEq, reduceCtorEq, false_iff, not_and] <;> omega

/-- The index of an address of a chunk is an index of its manager. -/
theorem Proper.ndx_lt (proper : chunk.Proper) (contains : chunk.Contains addr) :
    chunk.ndxOf addr < chunk.pages := by
  obtain ⟨count, length⟩ := proper.lengthAligned
  have above := contains.1
  have below := contains.2
  unfold ndxOf pages platformPageSize at *
  omega

end HeapChunk

variable {chunk : HeapChunk} {chunks added : List HeapChunk} {page : Nat}

theorem insertChunk_perm (chunk : HeapChunk) (chunks : List HeapChunk) :
    (insertChunk chunk chunks).Perm (chunk :: chunks) := by
  induction chunks with
  | nil => exact .refl _
  | cons next rest inductionHypothesis =>
      unfold insertChunk
      split
      · exact .refl _
      · exact (inductionHypothesis.cons next).trans (.swap _ _ _)

/-- A chunk apart from those of an ascending list goes between its neighbours. -/
theorem insertChunk_ascending (proper : chunk.Proper) (allProper : ∀ other ∈ chunks, other.Proper)
    (apart : ∀ other ∈ chunks, other.Apart chunk)
    (ascending : chunks.Pairwise HeapChunk.Before) :
    (insertChunk chunk chunks).Pairwise HeapChunk.Before := by
  induction chunks with
  | nil => exact List.pairwise_singleton _ _
  | cons next rest inductionHypothesis =>
      have nextProper := allProper next (by simp)
      obtain ⟨nextBefore, restAscending⟩ := List.pairwise_cons.mp ascending
      unfold insertChunk
      split
      · next below =>
          have before : chunk.Before next := by
            rcases apart next (by simp) with after | before
            · have ordered := nextProper.lt_of_before after
              omega
            · exact before
          refine List.pairwise_cons.mpr ⟨fun other member => ?_, ascending⟩
          rcases List.mem_cons.mp member with rfl | inRest
          · exact before
          · have ordered := nextProper.lt_of_before (nextBefore other inRest)
            have afterNext := nextBefore other inRest
            unfold HeapChunk.Before at *
            omega
      · next above =>
          have after : next.Before chunk := by
            rcases apart next (by simp) with after | before
            · exact after
            · have ordered := proper.lt_of_before before
              omega
          refine List.pairwise_cons.mpr ⟨fun other member => ?_,
            inductionHypothesis (fun other inRest => allProper other (by simp [inRest]))
              (fun other inRest => apart other (by simp [inRest])) restAscending⟩
          rcases List.mem_cons.mp ((insertChunk_perm chunk rest).mem_iff.mp member) with
            rfl | inRest
          · exact after
          · exact nextBefore other inRest

/-- Append some chunks, one after another. -/
def appendAll {Mm : Type} (heap : Kheap Mm) (added : List HeapChunk) : Kheap Mm :=
  added.foldl appendNewChunk heap

theorem appendAll_chunks {Mm : Type} (heap : Kheap Mm) (added : List HeapChunk) :
    (appendAll heap added).chunks =
      added.foldl (fun chunks chunk => insertChunk chunk chunks) heap.chunks := by
  induction added generalizing heap with
  | nil => rfl
  | cons chunk rest inductionHypothesis => exact inductionHypothesis (appendNewChunk heap chunk)

theorem foldl_insertChunk (allProper : ∀ other ∈ chunks ++ added, other.Proper)
    (apart : added.Pairwise HeapChunk.Apart)
    (apartOld : ∀ old ∈ chunks, ∀ new ∈ added, old.Apart new)
    (ascending : chunks.Pairwise HeapChunk.Before) :
    let final := added.foldl (fun chunks chunk => insertChunk chunk chunks) chunks
    final.Perm (chunks ++ added) ∧ final.Pairwise HeapChunk.Before := by
  induction added generalizing chunks with
  | nil => exact ⟨by simp, ascending⟩
  | cons chunk rest inductionHypothesis =>
      obtain ⟨chunkApart, restApart⟩ := List.pairwise_cons.mp apart
      have inserted := insertChunk_perm chunk chunks
      have moved : (insertChunk chunk chunks ++ rest).Perm (chunks ++ chunk :: rest) :=
        (inserted.append_right rest).trans List.perm_middle.symm
      obtain ⟨perm, sorted⟩ := inductionHypothesis
        (fun other member => allProper other (moved.mem_iff.mp member)) restApart
        (fun old oldMember new newMember => by
          rcases List.mem_cons.mp (inserted.mem_iff.mp oldMember) with rfl | inChunks
          · exact chunkApart new newMember
          · exact apartOld old inChunks new (by simp [newMember]))
        (insertChunk_ascending (allProper chunk (by simp))
          (fun other member => allProper other (by simp [member]))
          (fun other member => apartOld other member chunk (by simp)) ascending)
      exact ⟨perm.trans moved, sorted⟩

/-- In an ascending list the search of `kheap_free_page` stops at the first chunk. -/
theorem kheapFreeOrigin_eq {first : HeapChunk} {rest : List HeapChunk}
    (above : first.base ≤ page) :
    kheapFreeOrigin (first :: rest) page = (do kassert (first.last > page); .ok first) := by
  simp [kheapFreeOrigin, above]

/-- Chunks appended in any order end up ascending, and a page of one of them is
handed to its chunk exactly when this is the lowest one. -/
theorem kheapFreeOrigin_iff {Mm : Type} (heap : Kheap Mm) (empty : heap.chunks = [])
    (allProper : ∀ chunk ∈ added, chunk.Proper) (apart : added.Pairwise HeapChunk.Apart) :
    (appendAll heap added).chunks.Perm added ∧
    (appendAll heap added).chunks.Pairwise (fun first second => first.base < second.base) ∧
    ∀ chunk ∈ added, ∀ page, platformPageSize ∣ page → chunk.Contains page →
      (kheapFreeOrigin (appendAll heap added).chunks page = .ok chunk ↔
        ∀ other ∈ added, chunk.base ≤ other.base) := by
  obtain ⟨perm, before⟩ :=
    @foldl_insertChunk [] added (by simpa using allProper) apart (by simp) .nil
  rw [← empty, ← appendAll_chunks] at perm before
  rw [empty, List.nil_append] at perm
  have ascending : (appendAll heap added).chunks.Pairwise fun first second =>
      first.base < second.base :=
    before.imp_of_mem fun firstMember _ ordered =>
      (allProper _ (perm.mem_iff.mp firstMember)).lt_of_before ordered
  refine ⟨perm, ascending, fun chunk member page aligned contains => ?_⟩
  have properChunk := allProper chunk member
  have inList := perm.mem_iff.mpr member
  cases listed : (appendAll heap added).chunks with
  | nil => simp [listed] at inList
  | cons first rest =>
      rw [listed] at ascending inList perm
      obtain ⟨lowest, -⟩ := List.pairwise_cons.mp ascending
      have atMost : first.base ≤ chunk.base := by
        rcases List.mem_cons.mp inList with same | inRest
        · rw [same]
        · exact Nat.le_of_lt (lowest chunk inRest)
      rw [kheapFreeOrigin_eq (Nat.le_trans atMost contains.1)]
      constructor
      · intro found other otherMember
        simp only [Outcome.bind_eq_ok, kassert_eq_ok, Except.ok.injEq] at found
        obtain ⟨-, -, same⟩ := found
        rw [← same]
        rcases List.mem_cons.mp (perm.mem_iff.mpr otherMember) with isFirst | inRest
        · rw [isFirst]
        · exact Nat.le_of_lt (lowest other inRest)
      · intro isLowest
        have same : first = chunk := by
          rcases List.mem_cons.mp inList with same | inRest
          · exact same.symm
          · have smaller := lowest chunk inRest
            have larger := isLowest first (perm.mem_iff.mp (by simp))
            omega
        have room : first.last > page := by
          rw [same, properChunk.last_eq]
          obtain ⟨baseCount, base⟩ := properChunk.baseAligned
          obtain ⟨lengthCount, length⟩ := properChunk.lengthAligned
          obtain ⟨pageCount, isPage⟩ := aligned
          have below := contains.2
          unfold platformPageSize at *
          omega
        rw [kassert_ok room, same, Outcome.ok_bind]

/-- A heap without chunks over a physical memory nothing is known about. -/
def blankHeap : Kheap Unit :=
  { chunks := [], heapFreeSpace := 0, rootDir := 1, frames := fun _ _ => .zero, mm := () }

/-- Two chunks of two pages. -/
def lowHighChunks : List HeapChunk :=
  [⟨0xd0000000, 8192, 8192, ⟨[], 0⟩⟩, ⟨0xc0000000, 8192, 8192, ⟨[], 0⟩⟩]

theorem lowHighChunks_proper : (∀ chunk ∈ lowHighChunks, chunk.Proper) ∧
    lowHighChunks.Pairwise HeapChunk.Apart := by
  constructor
  · intro chunk member
    simp only [lowHighChunks, List.mem_cons, List.not_mem_nil, or_false] at member
    rcases member with rfl | rfl <;> exact ⟨by decide, by decide, by decide, by decide⟩
  · exact .cons (by simp [HeapChunk.Apart, HeapChunk.Before]) (List.pairwise_singleton _ _)

theorem lowHighChunks_free : ∃ chunk ∈ lowHighChunks, chunk.base = 0xc0000000 ∧
    kheapFreeOrigin (appendAll blankHeap lowHighChunks).chunks 0xc0001000 = .ok chunk := by
  refine ⟨_, List.mem_cons_of_mem _ (List.mem_singleton.mpr rfl), rfl, ?_⟩
  apply ((kheapFreeOrigin_iff blankHeap rfl lowHighChunks_proper.1
    lowHighChunks_proper.2).2.2 _ (List.mem_cons_of_mem _ (List.mem_singleton.mpr rfl)) _
    (by decide) ⟨by decide, by decide⟩).mpr
  intro other member
  simp only [lowHighChunks, List.mem_cons, List.not_mem_nil, or_false] at member
  rcases member with rfl | rfl <;> decide

/-- A page of the higher chunk is taken for one of the lower chunk, and the range
assertion fails. -/
theorem lowHighChunks_kassert : (∀ chunk ∈ lowHighChunks, chunk.Proper) ∧
    lowHighChunks.Pairwise HeapChunk.Apart ∧
    (∃ chunk ∈ lowHighChunks, chunk.Contains 0xd0000000) ∧
    kheapFreeOrigin (appendAll blankHeap lowHighChunks).chunks 0xd0000000 = .error .kassert :=
  ⟨lowHighChunks_proper.1, lowHighChunks_proper.2,
    ⟨_, List.mem_cons_self, by decide, by decide⟩, rfl⟩

end Yaeos
