import Yaeos.Platform.Zones

/-!
# Free memory

The regions of an entry are the pieces that the kernel image leaves of it: they have exactly the
bytes outside the image, and none could be longer.  So a page of free memory is never cut by the
bounds of a region.
-/

namespace Yaeos

namespace MultibootMmapEntry

/-- The entry is memory that has addresses. -/
def Usable (mmap : MultibootMmapEntry) : Prop :=
  (mmap.type ≠ multibootMemoryBadram ∧ mmap.type ≠ multibootMemoryReserved) ∧
    mmap.addr < addressSpace

instance (mmap : MultibootMmapEntry) : Decidable mmap.Usable :=
  inferInstanceAs (Decidable (_ ∧ _))

/-- The byte at an address is in the entry, and not in the kernel image. -/
def Frees (mmap : MultibootMmapEntry) (kstart kend address : Nat) : Prop :=
  (mmap.addr ≤ address ∧ address < mmap.addr + mmap.len) ∧
    ¬(kstart ≤ address ∧ address < kend)

/-- The regions have the free bytes of the entry, each in one of them, and there is no free byte
next to a region. -/
structure Pieces (mmap : MultibootMmapEntry) (kstart kend : Nat) (regions : List MemRegion) :
    Prop where
  ordered : ∀ region ∈ regions, region.start ≤ region.stop
  bounded : ∀ region ∈ regions, region.stop ≤ mmap.addr + mmap.len
  disjoint : regions.Pairwise fun first second =>
    ∀ address, ¬(first.Contains address ∧ second.Contains address)
  frees : ∀ address, (∃ region ∈ regions, region.Contains address) ↔
    mmap.Frees kstart kend address
  upward : ∀ region ∈ regions, ∀ address, region.Contains address →
    mmap.Frees kstart kend (address + 1) → region.Contains (address + 1)
  downward : ∀ region ∈ regions, ∀ address, region.Contains (address + 1) →
    mmap.Frees kstart kend address → region.Contains address

variable {mmap : MultibootMmapEntry} {kstart kend : Nat} {regions : List MemRegion}

/-- The image leaves one piece. -/
theorem pieces_single {region : MemRegion} (ordered : region.start ≤ region.stop)
    (bounded : region.stop ≤ mmap.addr + mmap.len)
    (bounds : ∀ address, region.Contains address ↔ mmap.Frees kstart kend address) :
    mmap.Pieces kstart kend [region] where
  ordered := by simpa using ordered
  bounded := by simpa using bounded
  disjoint := List.pairwise_singleton ..
  frees := by simpa using bounds
  upward := by simpa using fun address _ free => (bounds (address + 1)).mpr free
  downward := by simpa using fun address _ free => (bounds address).mpr free

/-- The image leaves a piece on either side. -/
theorem pieces_split {type : Nat} (below : mmap.addr ≤ kstart) (image : kstart < kend)
    (above : kend ≤ mmap.addr + mmap.len) : mmap.Pieces kstart kend
      [⟨mmap.addr, kstart, type⟩, ⟨kend, mmap.addr + mmap.len, type⟩] := by
  refine ⟨?_, ?_, ?_, fun address => ?_, ?_, ?_⟩
  · simpa using ⟨below, above⟩
  · simp only [List.mem_cons, List.not_mem_nil, or_false, forall_eq_or_imp, forall_eq]
    omega
  · refine List.pairwise_pair.mpr fun address both => ?_
    simp only [MemRegion.Contains] at both
    omega
  · simp only [List.mem_cons, List.not_mem_nil, or_false, exists_eq_or_imp, exists_eq_left,
      MemRegion.Contains, Frees]
    omega
  · simp only [List.mem_cons, List.not_mem_nil, or_false, forall_eq_or_imp, forall_eq,
      MemRegion.Contains, Frees]
    exact ⟨fun address => by omega, fun address => by omega⟩
  · simp only [List.mem_cons, List.not_mem_nil, or_false, forall_eq_or_imp, forall_eq,
      MemRegion.Contains, Frees]
    exact ⟨fun address => by omega, fun address => by omega⟩

/-- Where the image does not go over the end of the entry, its pieces are passed on. -/
theorem iterWithoutUnavail_pieces (usable : mmap.Usable)
    (fits : mmap.addr + mmap.len < addressSpace) (image : kstart < kend)
    (ends : EndsInside mmap kstart kend) :
    ∃ regions, iterWithoutUnavail kstart kend mmap = .ok regions ∧
      mmap.Pieces kstart kend regions := by
  obtain ⟨available, below⟩ := usable
  have notUnavailable : ¬(mmap.type = multibootMemoryBadram ∨
      mmap.type = multibootMemoryReserved) := not_or.mpr available
  have notBeyond : ¬mmap.addr > maxAddr := by
    unfold maxAddr
    omega
  have start : mmap.memstart = mmap.addr := wrap_of_lt below
  have stop : mmap.memend = mmap.addr + mmap.len := by
    rw [memend, start, wrap_of_lt (show mmap.len < addressSpace by omega), wrap_of_lt fits]
  simp only [iterWithoutUnavail, if_neg notUnavailable, if_neg notBeyond, start, stop]
  rw [EndsInside, start, stop] at ends
  split_ifs with before behind fromBelow toEnd covered inside
  · refine ⟨_, rfl, pieces_single (Nat.le_add_right ..) (Nat.le_refl _) fun address => ?_⟩
    simp only [MemRegion.Contains, Frees]
    omega
  · refine ⟨_, rfl, pieces_single (Nat.le_add_right ..) (Nat.le_refl _) fun address => ?_⟩
    simp only [MemRegion.Contains, Frees]
    omega
  · refine ⟨_, rfl, pieces_single (by dsimp only; omega) (Nat.le_refl _) fun address => ?_⟩
    simp only [MemRegion.Contains, Frees]
    omega
  · omega
  · omega
  · exact ⟨_, rfl, pieces_split inside.1 image inside.2⟩
  · omega

/-- Nothing is passed on of an entry that is not memory or has no addresses. -/
theorem iterWithoutUnavail_unusable (kstart kend : Nat) (unusable : ¬mmap.Usable) :
    iterWithoutUnavail kstart kend mmap = .ok [] := by
  rw [iterWithoutUnavail]
  by_cases unavailable : mmap.type = multibootMemoryBadram ∨ mmap.type = multibootMemoryReserved
  · exact if_pos unavailable
  · have beyond : mmap.addr > maxAddr := by
      by_contra inside
      refine unusable ⟨not_or.mp unavailable, ?_⟩
      unfold maxAddr addressSpace at inside
      unfold addressSpace
      omega
    rw [if_neg unavailable, if_pos beyond]

/-- All the bytes of the page of an address are free. -/
def FreesPage (mmap : MultibootMmapEntry) (kstart kend address : Nat) : Prop :=
  ∀ other, other / platformPageSize = address / platformPageSize → mmap.Frees kstart kend other

/-- A byte next to the page is free too. -/
def FreesNext (mmap : MultibootMmapEntry) (kstart kend address : Nat) : Prop :=
  mmap.Frees kstart kend ((address / platformPageSize + 1) * platformPageSize) ∨
    0 < address / platformPageSize ∧
      mmap.Frees kstart kend (address / platformPageSize * platformPageSize - 1)

/-- Whole pages with a free neighbour are those of the regions that are longer than a page. -/
theorem Pieces.freesPage_iff (pieces : mmap.Pieces kstart kend regions) (address : Nat) :
    mmap.FreesPage kstart kend address ∧ mmap.FreesNext kstart kend address ↔
      ∃ region ∈ regions, platformPageSize < region.stop - region.start ∧
        PageBetween region.start region.stop (address / platformPageSize) := by
  have large : 1 < platformPageSize := by decide
  unfold FreesPage FreesNext PageBetween
  generalize platformPageSize = size at *
  have inPage : ∀ other, address / size * size ≤ other → other < address / size * size + size →
      other / size = address / size := fun other above below =>
    Nat.div_eq_of_lt_le above (by rwa [Nat.succ_mul])
  generalize address / size = page at *
  rw [Nat.succ_mul]
  constructor
  · rintro ⟨whole, next⟩
    have first : mmap.Frees kstart kend (page * size) :=
      whole _ (inPage _ (Nat.le_refl _) (by omega))
    obtain ⟨region, member, contains⟩ := (pieces.frees _).mpr first
    -- the bytes of the page follow each other in the region
    have all : ∀ more < size, region.Contains (page * size + more) := by
      intro more below
      induction more with
      | zero => exact contains
      | succ more inductionHypothesis =>
          refine pieces.upward region member _ (inductionHypothesis (by omega)) ?_
          exact whole (page * size + more + 1) (inPage _ (by omega) (by omega))
    have inLast : region.Contains (page * size + (size - 1)) := all _ (by omega)
    have upTo := inLast.2
    have above := contains.1
    refine ⟨region, member, ?_, above, by omega⟩
    rcases next with behind | ⟨some_, before⟩
    · have next : page * size + (size - 1) + 1 = page * size + size := by omega
      have inRegion := pieces.upward region member _ inLast (next ▸ behind)
      have upTo := inRegion.2
      omega
    · have behindZero : 0 < page * size := Nat.mul_pos some_ (by omega)
      have next : page * size - 1 + 1 = page * size := Nat.sub_add_cancel behindZero
      have inRegion := pieces.downward region member (page * size - 1) (next ▸ contains) before
      have fromThere := inRegion.1
      omega
  · rintro ⟨region, member, long, above, below⟩
    have frees : ∀ other, region.start ≤ other → other < region.stop →
        mmap.Frees kstart kend other :=
      fun other from_ upTo => (pieces.frees other).mp ⟨region, member, from_, upTo⟩
    refine ⟨fun other same => ?_, ?_⟩
    · have bounds := Nat.div_mul_le_self other size
      have rest := Nat.lt_div_mul_add (show 0 < size by omega) (a := other)
      rw [same] at bounds rest
      exact frees other (by omega) (by omega)
    · by_cases behind : page * size + size < region.stop
      · exact .inl (frees _ (by omega) behind)
      · have some_ : 0 < page := Nat.pos_of_ne_zero fun zero => by
          subst zero
          omega
        exact .inr ⟨some_, frees _ (by omega) (by omega)⟩

end MultibootMmapEntry

/-- A memory map as boot loaders give it: the memory that has addresses ends below the last one,
no byte of it is described twice, and the kernel image does not go over the end of an entry. -/
structure RamMap (map : List MultibootMmapEntry) (kstart kend : Nat) : Prop where
  fits : ∀ mmap ∈ map, mmap.Usable → mmap.addr + mmap.len < addressSpace
  ends : ∀ mmap ∈ map, mmap.Usable → EndsInside mmap kstart kend
  apart : map.Pairwise fun first second => first.Usable → second.Usable →
    first.addr + first.len ≤ second.addr ∨ second.addr + second.len ≤ first.addr

/-- The arguments of the calls for one entry. -/
def regionsOf (kstart kend : Nat) (mmap : MultibootMmapEntry) : List MemRegion :=
  (iterWithoutUnavail kstart kend mmap).toOption.getD []

/-- The regions that `register_mem_region` does not drop, in order. -/
def keptRegions (kstart kend : Nat) (map : List MultibootMmapEntry) : List MemRegion :=
  (map.flatMap (regionsOf kstart kend)).filter fun region =>
    platformPageSize < region.stop - region.start

namespace RamMap

variable {map rest : List MultibootMmapEntry} {mmap : MultibootMmapEntry} {kstart kend : Nat}

theorem regionsOf_pieces (ram : RamMap map kstart kend) (image : kstart < kend)
    (member : mmap ∈ map) : iterWithoutUnavail kstart kend mmap = .ok (regionsOf kstart kend mmap) ∧
      (mmap.Usable → mmap.Pieces kstart kend (regionsOf kstart kend mmap)) ∧
      (¬mmap.Usable → regionsOf kstart kend mmap = []) := by
  by_cases usable : mmap.Usable
  · obtain ⟨regions, passed, pieces⟩ := MultibootMmapEntry.iterWithoutUnavail_pieces usable
      (ram.fits mmap member usable) image (ram.ends mmap member usable)
    have same : regionsOf kstart kend mmap = regions := by
      rw [regionsOf, passed]
      rfl
    rw [same]
    exact ⟨passed, fun _ => pieces, fun unusable => absurd usable unusable⟩
  · have passed := MultibootMmapEntry.iterWithoutUnavail_unusable kstart kend usable
    have same : regionsOf kstart kend mmap = [] := by
      rw [regionsOf, passed]
      rfl
    rw [same]
    exact ⟨passed, fun isUsable => absurd isUsable usable, fun _ => rfl⟩

/-- A region lies in its entry and apart from the image. -/
theorem region_inside (ram : RamMap map kstart kend) (image : kstart < kend) (member : mmap ∈ map)
    {region : MemRegion} (isRegion : region ∈ regionsOf kstart kend mmap) :
    mmap.Usable ∧ region.start ≤ region.stop ∧ region.stop < addressSpace ∧
      (region.start < region.stop → mmap.addr ≤ region.start ∧
        region.stop ≤ mmap.addr + mmap.len ∧
        (region.stop ≤ kstart ∨ kend ≤ region.start)) := by
  obtain ⟨-, whenUsable, whenNot⟩ := ram.regionsOf_pieces image member
  have usable : mmap.Usable := by
    by_contra unusable
    rw [whenNot unusable] at isRegion
    exact List.not_mem_nil isRegion
  have pieces := whenUsable usable
  refine ⟨usable, pieces.ordered region isRegion,
    Nat.lt_of_le_of_lt (pieces.bounded region isRegion) (ram.fits mmap member usable),
    fun nonempty => ?_⟩
  have frees : ∀ address, region.Contains address → mmap.Frees kstart kend address :=
    fun address contains => (pieces.frees address).mp ⟨region, isRegion, contains⟩
  obtain ⟨first, notFirst⟩ := frees region.start ⟨Nat.le_refl _, nonempty⟩
  obtain ⟨last, notLast⟩ := frees (region.stop - 1) ⟨by omega, by omega⟩
  refine ⟨first.1, by omega, ?_⟩
  by_contra crosses
  obtain ⟨fromAbove, fromBelow⟩ := not_or.mp crosses
  obtain ⟨-, notInside⟩ := frees (max region.start kstart) ⟨by omega, by omega⟩
  omega

end RamMap

end Yaeos
