import Yaeos.Buddy.Init
import Yaeos.Kheap.Calls
import Yaeos.Kmalloc.Run

/-!
# The bookkeeping memory of a new chunk

`create_new_chunk` asks `kmalloc` for the memory of the buddy manager, with the
largest chunk and the largest class of `kernel/config.h`.  A manager of 7431 pages
takes 2044 bytes and one of 7432 pages 2048; the largest class has 2048 bytes for
the request and its index.
-/

namespace Yaeos

/-- `CHUNK_AREA_MIN_SPACE`. -/
def chunkAreaMinSpace : Nat := 2 * platformPageSize

/-- `CONF_MALLOC_MIN_POW`. -/
def confMallocMinPow : Nat := 5

/-- `CONF_MALLOC_MAX_POW`. -/
def confMallocMaxPow : Nat := 11

/-- The length of the chunk for a gap, as `vm_new_area_within_space` clips it. -/
def newChunkLength (gapLength : Nat) : Nat := min confHeapMaxChunkSize gapLength

/-- The classes are those of `kernel_init`. -/
structure Kmalloc.Configured (state : Kmalloc) : Prop where
  lowPow : state.lowPow = confMallocMinPow
  maxPow : state.maxPow = confMallocMaxPow

/-- The memory of the manager for a chunk in a gap is not refused for its size. -/
def Kmalloc.ServesChunk (state : Kmalloc) (gapLength : Nat) : Prop :=
  ∃ buddySpace, buddyPredictReqSpace (newChunkLength gapLength / platformPageSize) =
    .ok buddySpace ∧ ¬state.Refuses buddySpace

/-! ## The size of a manager -/

theorem lvlSpace_mono {pages more : Nat} (ordered : pages ≤ more) (lvl : Nat) :
    lvlSpace pages lvl ≤ lvlSpace more lvl := by
  have shifted : pages >>> lvl ≤ more >>> lvl := by
    rw [Nat.shiftRight_eq_div_pow, Nat.shiftRight_eq_div_pow]
    exact Nat.div_le_div_right ordered
  unfold lvlSpace divCeil bitsInSet
  omega

theorem lvlsSpace_mono {pages more : Nat} (ordered : pages ≤ more) (lvls : Nat) :
    lvlsSpace pages lvls ≤ lvlsSpace more lvls := by
  induction lvls with
  | zero => exact Nat.le_refl _
  | succ lvls inductionHypothesis =>
      exact Nat.add_le_add inductionHypothesis (lvlSpace_mono ordered lvls)

/-- A manager of more pages takes at least as much memory. -/
theorem buddySpace_mono {pages more : Nat} (ordered : pages ≤ more) :
    buddySpace pages ≤ buddySpace more := by
  have lvls : Nat.log2 pages + 1 ≤ Nat.log2 more + 1 := by
    rw [Nat.log2_eq_log_two, Nat.log2_eq_log_two]
    exact Nat.succ_le_succ (Nat.log_mono_right ordered)
  unfold buddySpace
  exact Nat.add_le_add (Nat.le_trans (lvlsSpace_mono ordered _) (lvlsSpace_le lvls))
    (Nat.mul_le_mul_right _ lvls)

/-- The largest manager for which there is a class. -/
theorem buddySpace_lt_iff (pages : Nat) :
    buddySpace pages < 2 ^ confMallocMaxPow ↔ pages < 7432 := by
  constructor
  · intro small
    by_contra large
    have least : 2 ^ confMallocMaxPow ≤ buddySpace 7432 := by decide
    have above := buddySpace_mono (Nat.le_of_not_lt large)
    omega
  · intro small
    have most : buddySpace 7431 < 2 ^ confMallocMaxPow := by decide
    exact Nat.lt_of_le_of_lt (buddySpace_mono (Nat.le_of_lt_succ small)) most

/-! ## The request -/

namespace Kmalloc

variable {state : Kmalloc} {gapLength : Nat}

theorem Configured.accepted (configured : state.Configured) : state.Accepted := by
  obtain ⟨lowPow, maxPow⟩ := configured
  refine ⟨?_, ?_, ?_⟩
  · rw [lowPow, maxPow]
    decide
  · unfold powers
    rw [lowPow, maxPow]
    decide
  · rw [maxPow]
    decide

/-- `kernel_init` calls `kmalloc_init` with the two constants. -/
theorem configured_of_init {before : Kmalloc}
    (returned : kmallocInit before confMallocMinPow confMallocMaxPow = .ok state) :
    state.Configured := by
  obtain ⟨_, -, rest⟩ := Outcome.bind_eq_ok.mp returned
  obtain ⟨_, -, rest⟩ := Outcome.bind_eq_ok.mp rest
  obtain ⟨_, -, looped⟩ := Outcome.bind_eq_ok.mp rest
  refine Loop.list_of_ok Kmalloc.Configured (fun i state next configured stepped => ?_) looped
    ⟨rfl, rfl⟩
  simp only [kmallocInitCache, Outcome.bind_eq_ok, Except.ok.injEq] at stepped
  obtain ⟨_, -, _, -, _, -, rfl⟩ := stepped
  exact ⟨configured.lowPow, configured.maxPow⟩

theorem newChunkPages_pos (minimal : chunkAreaMinSpace ≤ gapLength) :
    newChunkLength gapLength / platformPageSize ≠ 0 := by
  unfold newChunkLength confHeapMaxChunkSize chunkAreaMinSpace platformPageSize at *
  omega

theorem newChunkPages_le (gapLength : Nat) :
    newChunkLength gapLength / platformPageSize ≤ 8192 := by
  unfold newChunkLength confHeapMaxChunkSize platformPageSize
  omega

theorem newChunkPages_sizable (gapLength : Nat) :
    Sizable (newChunkLength gapLength / platformPageSize) := by
  have most := newChunkPages_le gapLength
  unfold Sizable addressSpace bitsInSet
  omega

/-- The memory of the manager is served exactly for gaps of at most 7431 pages. -/
theorem servesChunk_iff (configured : state.Configured)
    (minimal : chunkAreaMinSpace ≤ gapLength) :
    state.ServesChunk gapLength ↔ gapLength < 7432 * platformPageSize := by
  let pages := newChunkLength gapLength / platformPageSize
  have predicted : buddyPredictReqSpace pages = .ok (buddySpace pages) :=
    buddyPredictReqSpace_eq (newChunkPages_pos minimal) (newChunkPages_sizable _)
  have noOverflow : buddySpace pages + 1 < addressSpace := by
    have most : buddySpace 8192 + 1 < addressSpace := by decide
    exact Nat.lt_of_le_of_lt (Nat.succ_le_succ (buddySpace_mono (newChunkPages_le gapLength))) most
  have refuses := configured.accepted.refuses_iff noOverflow
  rw [configured.maxPow] at refuses
  have served : state.ServesChunk gapLength ↔ buddySpace pages < 2 ^ confMallocMaxPow := by
    unfold ServesChunk
    rw [predicted]
    simp only [Except.ok.injEq, exists_eq_left', refuses, not_le]
  rw [served, buddySpace_lt_iff]
  unfold pages newChunkLength confHeapMaxChunkSize platformPageSize
  omega

theorem classes_configured : KmallocSystem.classes.Configured := by
  have returned : (kmallocInit KmallocSystem.unstarted 5 11).toOption =
      some KmallocSystem.classes := (Option.some_get _).symm
  exact configured_of_init (Outcome.toOption_eq_some.mp returned)

/-- A gap of two pages. -/
theorem servesChunk_twoPages : KmallocSystem.classes.ServesChunk chunkAreaMinSpace :=
  (servesChunk_iff classes_configured (Nat.le_refl _)).mpr (by decide)

/-- In a gap of 32 MiB the chunk has 8192 pages, and its manager takes 2232 bytes. -/
theorem not_servesChunk_largest :
    buddyPredictReqSpace (newChunkLength confHeapMaxChunkSize / platformPageSize) = .ok 2232 ∧
      ¬KmallocSystem.classes.ServesChunk confHeapMaxChunkSize := by
  have predicted : buddyPredictReqSpace (newChunkLength confHeapMaxChunkSize / platformPageSize) =
      .ok 2232 := by decide
  refine ⟨predicted, ?_⟩
  rintro ⟨buddySpace, isSpace, served⟩
  cases predicted.symm.trans isSpace
  exact served ((classes_configured.accepted.refuses_iff (by decide)).mpr (by decide +kernel))

end Kmalloc

end Yaeos
