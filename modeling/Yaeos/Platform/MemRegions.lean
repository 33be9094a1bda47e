import Yaeos.Machine.Address
import Yaeos.Machine.Outcome

/-!
# Memory regions at boot (`arch/i686/platform_resources.c`)

The boot loader describes memory by entries; `iter_without_unavail` passes the
part of an entry outside the kernel image on, as pairs of a first address and the
address behind the last one.  The calls of the callback are the list of these
pairs, in order.
-/

namespace Yaeos

/-- `MULTIBOOT_MEMORY_RESERVED`. -/
def multibootMemoryReserved : Nat := 2

/-- `MULTIBOOT_MEMORY_BADRAM`. -/
def multibootMemoryBadram : Nat := 5

/-- `MAX_ADDR`. -/
def maxAddr : Nat := addressSpace - 1

/-- An entry of the memory map; address and length have 64 bits. -/
structure MultibootMmapEntry where
  addr : Nat
  len : Nat
  type : Nat
  deriving DecidableEq, Repr

/-- The arguments of one call of the callback. -/
structure MemRegion where
  start : Nat
  stop : Nat
  type : Nat
  deriving DecidableEq, Repr

namespace MultibootMmapEntry

/-- `(uintptr_t)mmap->addr`. -/
def memstart (mmap : MultibootMmapEntry) : Nat := wrap mmap.addr

/-- `memstart + (size_t)mmap->len`. -/
def memend (mmap : MultibootMmapEntry) : Nat := wrap (mmap.memstart + wrap mmap.len)

end MultibootMmapEntry

/-- `kstart` and `kend` are the low addresses of `kernel_start` and `kernel_end`. -/
def iterWithoutUnavail (kstart kend : Nat) (mmap : MultibootMmapEntry) :
    Outcome (List MemRegion) :=
  if mmap.type = multibootMemoryBadram ∨ mmap.type = multibootMemoryReserved then .ok []
  else if mmap.addr > maxAddr then .ok []
  else
    let memstart := mmap.memstart
    let memend := mmap.memend
    if kend ≤ memstart then .ok [⟨memstart, memend, mmap.type⟩]
    else if kstart ≥ memend then .ok [⟨memstart, memend, mmap.type⟩]
    else if kend > memstart ∧ kstart ≤ memstart then .ok [⟨kend, memend, mmap.type⟩]
    -- the source passes the two bounds in this order
    else if kstart < memend ∧ kend ≥ memend then .ok [⟨memend, kstart, mmap.type⟩]
    else if kstart ≤ memstart ∧ kend ≥ memend then .ok []
    else if kstart ≥ memstart ∧ kend ≤ memend then
      .ok [⟨memstart, kstart, mmap.type⟩, ⟨kend, memend, mmap.type⟩]
    else do
      kassert False
      .ok []

namespace MemRegion

/-- The addresses from the start up to, but not including, the stop. -/
def Contains (region : MemRegion) (address : Nat) : Prop :=
  region.start ≤ address ∧ address < region.stop

/-- The regions are proper, have no address in common, and together are
`[memstart, memend)` without `[kstart, kend)`. -/
structure Partition (regions : List MemRegion) (memstart memend kstart kend : Nat) : Prop where
  ordered : ∀ region ∈ regions, region.start ≤ region.stop
  disjoint : regions.Pairwise fun first second =>
    ∀ address, ¬(first.Contains address ∧ second.Contains address)
  union : ∀ address, (∃ region ∈ regions, region.Contains address) ↔
    (memstart ≤ address ∧ address < memend) ∧ ¬(kstart ≤ address ∧ address < kend)

variable {memstart memend kstart kend type : Nat}

/-- One region is the whole partition when its bounds are those of the rest. -/
theorem partition_single {region : MemRegion} (ordered : region.start ≤ region.stop)
    (bounds : ∀ address, region.Contains address ↔
      (memstart ≤ address ∧ address < memend) ∧ ¬(kstart ≤ address ∧ address < kend)) :
    Partition [region] memstart memend kstart kend where
  ordered := by simpa using ordered
  disjoint := by simp
  union := by simpa using bounds

/-- The kernel image lies inside, and a region on either side of it is left. -/
theorem partition_split (below : memstart ≤ kstart) (image : kstart ≤ kend) (above : kend ≤ memend) :
    Partition [⟨memstart, kstart, type⟩, ⟨kend, memend, type⟩] memstart memend kstart kend where
  ordered := by simpa using ⟨below, above⟩
  disjoint := by
    simp only [List.pairwise_cons, List.mem_singleton, forall_eq, List.not_mem_nil, false_imp_iff,
      implies_true, List.Pairwise.nil, and_self, and_true]
    intro address both
    simp only [Contains] at both
    omega
  union address := by
    simp only [List.mem_cons, List.not_mem_nil, or_false, exists_eq_or_imp, exists_eq_left,
      Contains]
    omega

/-- A region with its bounds in the wrong order is no part of a partition. -/
theorem not_partition_of_reversed {region : MemRegion} (reversed : region.stop < region.start) :
    ¬Partition [region] memstart memend kstart kend := by
  intro partition
  have ordered := partition.ordered region (by simp)
  omega

end MemRegion

/-- The kernel image leaves the entry alone, or ends inside it, or ends with it
and starts no later than it. -/
def EndsInside (mmap : MultibootMmapEntry) (kstart kend : Nat) : Prop :=
  kend ≤ mmap.memstart ∨ mmap.memend ≤ kstart ∨ kend < mmap.memend ∨
    (kstart ≤ mmap.memstart ∧ kend = mmap.memend)

instance (mmap : MultibootMmapEntry) (kstart kend : Nat) : Decidable (EndsInside mmap kstart kend) :=
  inferInstanceAs (Decidable (_ ∨ _))

/-- An available entry is passed on exactly, without the kernel image, if and only
if the image does not reach over the end of the entry: there the third case takes
what the fifth is for, and the fourth has its arguments in the wrong order. -/
theorem iterWithoutUnavail_partition_iff {mmap : MultibootMmapEntry} {kstart kend : Nat}
    (available : mmap.type ≠ multibootMemoryBadram ∧ mmap.type ≠ multibootMemoryReserved)
    (addressable : mmap.addr < addressSpace) (noWrap : mmap.memstart < mmap.memend)
    (image : kstart < kend) :
    ∃ regions, iterWithoutUnavail kstart kend mmap = .ok regions ∧
      (MemRegion.Partition regions mmap.memstart mmap.memend kstart kend ↔
        EndsInside mmap kstart kend) := by
  have notUnavailable : ¬(mmap.type = multibootMemoryBadram ∨
      mmap.type = multibootMemoryReserved) := by tauto
  have notBeyond : ¬mmap.addr > maxAddr := by
    unfold maxAddr addressSpace at *
    omega
  simp only [iterWithoutUnavail, if_neg notUnavailable, if_neg notBeyond, EndsInside]
  generalize mmap.memstart = memstart at *
  generalize mmap.memend = memend at *
  by_cases before : kend ≤ memstart
  · rw [if_pos before]
    refine ⟨_, rfl, iff_of_true (MemRegion.partition_single (Nat.le_of_lt noWrap) ?_) (.inl before)⟩
    intro address
    simp only [MemRegion.Contains]
    omega
  rw [if_neg before]
  by_cases behind : kstart ≥ memend
  · rw [if_pos behind]
    refine ⟨_, rfl, iff_of_true (MemRegion.partition_single (Nat.le_of_lt noWrap) ?_) (.inr (.inl behind))⟩
    intro address
    simp only [MemRegion.Contains]
    omega
  rw [if_neg behind]
  by_cases fromBelow : kend > memstart ∧ kstart ≤ memstart
  · -- the kernel covers the beginning of the region, and perhaps all of it
    rw [if_pos fromBelow]
    by_cases inside : kend ≤ memend
    · refine ⟨_, rfl, iff_of_true (MemRegion.partition_single inside ?_) (by omega)⟩
      intro address
      simp only [MemRegion.Contains]
      omega
    · exact ⟨_, rfl, iff_of_false
        (MemRegion.not_partition_of_reversed (Nat.lt_of_not_le inside)) (by omega)⟩
  rw [if_neg fromBelow]
  by_cases toEnd : kstart < memend ∧ kend ≥ memend
  · rw [if_pos toEnd]
    exact ⟨_, rfl, iff_of_false (MemRegion.not_partition_of_reversed toEnd.1) (by omega)⟩
  rw [if_neg toEnd, if_neg (by omega), if_pos (by omega)]
  exact ⟨_, rfl, iff_of_true (MemRegion.partition_split (by omega) (by omega) (by omega))
    (by omega)⟩

/-- The kernel image at 1 MiB inside the usual memory from 1 MiB on. -/
theorem kernelAtStart_partition : ∃ regions,
    iterWithoutUnavail 0x100000 0x180000 ⟨0x100000, 0x700000, 1⟩ = .ok regions ∧
      MemRegion.Partition regions 0x100000 0x800000 0x100000 0x180000 := by
  obtain ⟨regions, passed, partition⟩ := @iterWithoutUnavail_partition_iff
    ⟨0x100000, 0x700000, 1⟩ 0x100000 0x180000 (by decide) (by decide) (by decide) (by decide)
  exact ⟨regions, passed, partition.mpr (by decide)⟩

/-- The kernel image reaches over the end of an entry: the callback gets the end
of the entry as the start of a region that stops before it. -/
theorem kernelOverEnd_not_partition : ∃ regions,
    iterWithoutUnavail 0x180000 0x280000 ⟨0x100000, 0x100000, 1⟩ = .ok regions ∧
      regions = [⟨0x200000, 0x180000, 1⟩] ∧
      ¬MemRegion.Partition regions 0x100000 0x200000 0x180000 0x280000 :=
  ⟨_, rfl, rfl, MemRegion.not_partition_of_reversed (by decide)⟩

end Yaeos
