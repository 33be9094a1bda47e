import Yaeos.Dev.Bound

/-!
# The bytes of a buffer

`register_resource` returns the address of a whole page and counts the pages from the last
byte of the buffer.  The count is one too small where this byte is the first one of its
page, and the address is that of the buffer only where this starts a page.
-/

namespace Yaeos

/-- The address that the processor finds for a virtual one. -/
def physicalOf (translation : Translation) (vaddr : Nat) : Option Nat :=
  (translation (vaddr / platformPageSize)).map fun frame =>
    frame * platformPageSize + vaddr % platformPageSize

section Pages

variable {buffer : ResourceData} (positive : 0 < buffer.len)
  (noWrap : buffer.base + buffer.len ≤ addressSpace)
include positive noWrap

theorem devBufferEnd :
    wrapSub (wrap (buffer.base + buffer.len)) 1 = buffer.base + buffer.len - 1 := by
  unfold wrapSub wrap addressSpace at *
  omega

/-- The end of the address space is rounded up to zero. -/
theorem devBufferPages_last (last : addressSpace ≤ buffer.base + buffer.len - 1 + 4095) :
    devBufferPages buffer = wrapSub 0 (buffer.base / platformPageSize * platformPageSize) /
      platformPageSize := by
  have below : buffer.base + buffer.len - 1 < addressSpace := by omega
  have rounded : alignRoundup (buffer.base + buffer.len - 1) (2 ^ 12) = 0 :=
    alignRoundup_overflow below (by decide) last
  have rounded : alignRoundup (buffer.base + buffer.len - 1) platformPageSize = 0 := rounded
  unfold devBufferPages
  dsimp only
  rw [devBufferEnd positive noWrap, rounded, alignRounddown_page (by omega)]

theorem devBufferPages_inside (inside : buffer.base + buffer.len - 1 + 4095 < addressSpace) :
    devBufferPages buffer = (buffer.base + buffer.len - 1 + 4095) / platformPageSize -
      buffer.base / platformPageSize := by
  unfold devBufferPages
  dsimp only
  rw [devBufferEnd positive noWrap, alignRoundup_page inside, alignRounddown_page (by omega),
    wrapSub_of_le (Nat.mul_le_mul_right _ (Nat.div_le_div_right (by omega)))
      (Nat.lt_of_le_of_lt (Nat.div_mul_le_self ..) inside),
    ← Nat.sub_mul, Nat.mul_div_cancel _ (by decide)]

/-- The page of the last byte is counted. -/
theorem lt_devBufferPages_iff (aligned : platformPageSize ∣ buffer.base) :
    (buffer.len - 1) / platformPageSize < devBufferPages buffer ↔
      ¬platformPageSize ∣ buffer.len - 1 ∧
        ¬(buffer.base = 0 ∧ addressSpace < buffer.len + platformPageSize) := by
  by_cases inside : buffer.base + buffer.len - 1 + 4095 < addressSpace
  · rw [devBufferPages_inside positive noWrap inside]
    unfold platformPageSize addressSpace at *
    omega
  · rw [devBufferPages_last positive noWrap (Nat.le_of_not_lt inside)]
    unfold wrapSub wrap platformPageSize addressSpace at *
    omega

end Pages

namespace DevArea

variable {area next mid : DevArea} {cells before after extra : List Nat}
  {r rounds res pageVaddr : Nat} {cell : Option Nat} {resource : Resource}

/-- A byte of the buffer is mapped where it is expected, in a page of the region. -/
structure CoversByte (area : DevArea) (r pageVaddr base i : Nat) : Prop where
  mapped : physicalOf area.translation (pageVaddr + i) = some (base + i)
  low : (area.regions r).pageVaddr ≤ (pageVaddr + i) / platformPageSize * platformPageSize
  high : (pageVaddr + i) / platformPageSize * platformPageSize + platformPageSize ≤
    (area.regions r).pageVaddr + (area.regions r).length

/-- A buffer is mapped in whole where it was expected, if and only if it starts a page, its
last byte does not, and it is not all of the memory. -/
theorem register_covers_iff (reached : unlistedMachine.Reachable area)
    (unlisted : ∀ cells, area.links.Listed (some area.data) cells →
      (DevCall.register cell res resource).Unlisted cells)
    (found : newRegion rounds area cell (devBufferPages resource.data * platformPageSize) =
      .ok (mid, some r))
    (returned : registerResource rounds cell area res resource = .ok (next, some pageVaddr))
    (positive : 1 ≤ resource.data.len)
    (noWrap : resource.data.base + resource.data.len ≤ addressSpace) :
    (∀ i < resource.data.len, next.CoversByte r pageVaddr resource.data.base i) ↔
      platformPageSize ∣ resource.data.base ∧ ¬platformPageSize ∣ resource.data.len - 1 ∧
        ¬(resource.data.base = 0 ∧ addressSpace < resource.data.len + platformPageSize) := by
  obtain ⟨cells, laid⟩ := laid_of_reachable reached
  obtain ⟨before, holder, extra, after, rfl, first, rfl, registered⟩ :=
    laid.registered (unlisted cells laid.listed) returned
  have isHolder := laid.of_newRegion found
  rw [first] at isHolder
  cases isHolder
  have chosen := registered.chosen
  obtain ⟨page, -, atPage, -⟩ := laid.pages (r := r) (by simp)
  have changed := registered.mapped page atPage
  have start := chosen.pageVaddr
  have length := chosen.length
  rw [atPage] at start ⊢
  constructor
  · intro covers
    have aligned : platformPageSize ∣ resource.data.base := by
      obtain ⟨frame, -, isBase⟩ := Option.map_eq_some_iff.mp (covers 0 positive).mapped
      rw [Nat.add_zero, Nat.add_zero, Nat.mul_mod_left, Nat.add_zero] at isBase
      exact isBase ▸ Nat.dvd_mul_left ..
    refine ⟨aligned, (lt_devBufferPages_iff positive noWrap aligned).mp ?_⟩
    have last := (covers (resource.data.len - 1) (by omega)).high
    rw [start, length] at last
    unfold platformPageSize at last ⊢
    omega
  · rintro ⟨aligned, counted⟩ i below
    have pages := (lt_devBufferPages_iff positive noWrap aligned).mpr counted
    have samePage :
        (page * platformPageSize + i) / platformPageSize = page + i / platformPageSize := by
      rw [Nat.mul_comm, Nat.mul_add_div (by decide)]
    have inPages : i / platformPageSize < devBufferPages resource.data :=
      Nat.lt_of_le_of_lt (Nat.div_le_div_right (by omega)) pages
    have framed := changed.inside (page + i / platformPageSize) (Nat.le_add_right ..)
      (Nat.add_lt_add_left inPages page)
    rw [FrameOf, alignRounddown_page (by omega), Nat.div_mul_cancel aligned,
      Nat.add_sub_cancel_left, wrap_of_lt (by unfold platformPageSize; omega)] at framed
    refine ⟨?_, ?_, ?_⟩
    · rw [physicalOf, samePage, framed]
      refine congrArg some ?_
      dsimp only
      unfold platformPageSize at *
      omega
    · rw [start, samePage]
      exact Nat.mul_le_mul_right _ (Nat.le_add_right ..)
    · rw [start, length, samePage]
      unfold platformPageSize at *
      omega

theorem videoBuffer_covers : ∃ mid next pageVaddr,
    newRegion 8 kdevStart (some 2) (devBufferPages videoBuffer.data * platformPageSize) =
        .ok (mid, some 1) ∧
      registerResource 8 (some 2) kdevStart 0xC0105004 videoBuffer = .ok (next, some pageVaddr) ∧
      ((∀ i < 0x8000, next.CoversByte 1 pageVaddr 0xB8000 i) ↔
        platformPageSize ∣ 0xB8000 ∧ ¬platformPageSize ∣ 0x8000 - 1 ∧
          ¬(0xB8000 = 0 ∧ addressSpace < 0x8000 + platformPageSize)) := by
  obtain ⟨mid, found⟩ := kdevStart_newRegion
  obtain ⟨next, returned⟩ := kdevStart_registerResource 0xC0105004
  exact ⟨mid, next, _, found, returned, register_covers_iff (.initial kdevStart_initial)
    (kdevStart_unlisted 0xC0105004) found returned (by decide) (by decide)⟩

/-- A buffer of one byte. -/
def byteBuffer : Resource := { videoBuffer with data := { base := 0xB8000, len := 1 } }

/-- No page is mapped for one byte. -/
theorem byteBuffer_not_covered : ∃ mid next pageVaddr,
    newRegion 8 kdevStart (some 2) (devBufferPages byteBuffer.data * platformPageSize) =
        .ok (mid, some 1) ∧
      registerResource 8 (some 2) kdevStart 0xC0105004 byteBuffer = .ok (next, some pageVaddr) ∧
      ¬∀ i < byteBuffer.data.len, next.CoversByte 1 pageVaddr byteBuffer.data.base i := by
  have shown : (registerResource 8 (some 2) kdevStart 0xC0105004 byteBuffer).map (fun result =>
      (result.2, physicalOf result.1.translation 0xC1000000)) =
        .ok (some 0xC1000000, none) := by decide +kernel
  have chosen : (newRegion 8 kdevStart (some 2)
      (devBufferPages byteBuffer.data * platformPageSize)).map Prod.snd = .ok (some 1) := by
    decide +kernel
  obtain ⟨⟨mid, _⟩, found, rfl⟩ := Outcome.map_eq_ok chosen
  obtain ⟨⟨next, _⟩, returned, known⟩ := Outcome.map_eq_ok shown
  simp only [Prod.mk.injEq] at known
  obtain ⟨rfl, unmapped⟩ := known
  refine ⟨mid, next, _, found, returned, fun covers => ?_⟩
  have mapped := (covers 0 (by decide)).mapped
  rw [Nat.add_zero, unmapped] at mapped
  cases mapped

end DevArea

end Yaeos
