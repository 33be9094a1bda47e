import Yaeos.Kheap.Mapping
import Yaeos.Mm.Run

/-!
# The zones behind the heap (`kernel/mm/mm.c`)

The heap takes its pages from `mm_alloc_page` and reads their addresses from the descriptors.
Every page that it gets so was free in its zone and is taken afterwards, and no other page of a
zone changes.
-/

namespace Yaeos

/-- `MM_ZONES` under a kernel space with the given offset. -/
structure ReadyZones (offset : Nat) where
  zones : List MmZone
  ready : Ready offset zones

variable {offset address page ndx : Nat} {zones next before rest : List MmZone} {zone : MmZone}
  {mm mmNext : ReadyZones offset}

theorem Ready.mmAllocPage {taken : Option PagePtr} (ready : Ready offset zones)
    (allocated : mmAllocPage zones = .ok (next, taken)) : Ready offset next := by
  rcases mmAllocPage_cases ready.sound with
    ⟨before, zone, rest, ndx, buddym, rfl, -, -, returned, sound, -⟩ | ⟨-, returned⟩
  · rw [allocated] at returned
    cases returned
    exact ready.replace sound ⟨rfl, rfl, rfl, rfl, rfl, rfl⟩
  · rw [allocated] at returned
    cases returned
    exact ready

theorem Ready.mmFreePage (ready : Ready offset zones)
    (freed : mmFreePage zones address = .ok next) : Ready offset next := by
  obtain ⟨before, zone, rest, rfl, contains, returnable⟩ := ready.freePage_cases freed
  obtain ⟨buddym, returned, sound, -⟩ := ready.freePage_split contains returnable
  rw [freed] at returned
  cases returned
  exact ready.replace sound ⟨rfl, rfl, rfl, rfl, rfl, rfl⟩

/-- `page->paddr`.  The last page of a zone has no descriptor. -/
def pagePaddr (zones : List MmZone) (p : PagePtr) : Outcome Nat := do
  let zone ← deref (zoneAt zones p.zone)
  if p.ndx < zone.descriptors then .ok (zone.pages p.ndx).paddr else .error .outOfBounds

namespace ReadyZones

/-- `mm_alloc_page` and the address of the page. -/
def allocPage (mm : ReadyZones offset) : Outcome (ReadyZones offset × Option Nat) :=
  match allocated : mmAllocPage mm.zones with
  | .error fault => .error fault
  | .ok (zones, none) => .ok (⟨zones, mm.ready.mmAllocPage allocated⟩, none)
  | .ok (zones, some p) => do
      let paddr ← pagePaddr zones p
      .ok (⟨zones, mm.ready.mmAllocPage allocated⟩, some paddr)

def freePage (mm : ReadyZones offset) (address : Nat) : Outcome (ReadyZones offset) :=
  match freed : mmFreePage mm.zones address with
  | .error fault => .error fault
  | .ok zones => .ok ⟨zones, mm.ready.mmFreePage freed⟩

/-- The page is one that a zone has left. -/
def Free (mm : ReadyZones offset) (page : Nat) : Prop :=
  platformPageSize ∣ page ∧ ∃ zone ∈ mm.zones, zone.Contains page ∧
    zone.buddym.bit 0 (zone.pageOf page) = false

/-- What is not free is occupied: pages that were taken, the bookkeeping and all memory outside
of the zones. -/
def Occupied (mm : ReadyZones offset) (page : Nat) : Prop := ¬mm.Free page

end ReadyZones

/-- `mm_alloc_page` and `mm_free_page` of the kernel. -/
def zoneOps (offset : Nat) : MmOps (ReadyZones offset) where
  allocPage := ReadyZones.allocPage
  freePage := ReadyZones.freePage

/-- A free page is one of the pages behind the bookkeeping of its zone. -/
theorem ReadyZones.Free.usable (free : mm.Free page) : ∃ zone ∈ mm.zones, zone.Contains page ∧
    zone.infoPages ≤ zone.pageOf page := by
  obtain ⟨-, zone, member, contains, clear⟩ := free
  exact ⟨zone, member, contains, (mm.ready.sound zone member).usable_of_clear clear⟩

/-- A page in one zone is in no other one. -/
theorem Ready.contains_unique (ready : Ready offset (before ++ zone :: rest))
    (contains : zone.Contains page) {other : MmZone} (member : other ∈ before ++ rest) :
    ¬other.Contains page := by
  intro both
  have disjoint := ready.split_disjoint other member
  unfold MmZone.Contains MmZone.Disjoint at *
  omega

/-- A page of a zone with the number `ndx` is the page at that place. -/
theorem MmZone.Sound.pageOf_eq (sound : zone.Sound) (contains : zone.Contains page)
    (aligned : platformPageSize ∣ page) :
    zone.pageOf page = ndx ↔ page = zone.start + ndx * platformPageSize := by
  have start := sound.startAligned
  unfold MmZone.Contains MmZone.pageOf platformPageSize at *
  omega

/-- Taking a page leaves the others as they are. -/
theorem free_occupy {buddym : BuddyManager} (ready : Ready offset (before ++ zone :: rest))
    (readyNext : Ready offset (before ++ zone.occupy buddym ndx :: rest))
    (managed : ndx < zone.count)
    (bits : ∀ other < zone.count,
      buddym.bit 0 other = (decide (other = ndx) || zone.buddym.bit 0 other)) (page : Nat) :
    ReadyZones.Free ⟨before ++ zone.occupy buddym ndx :: rest, readyNext⟩ page ↔
      page ≠ zone.start + ndx * platformPageSize ∧
        ReadyZones.Free ⟨before ++ zone :: rest, ready⟩ page := by
  have sound := ready.sound zone (by simp)
  have elsewhere : ∀ other ∈ before ++ rest,
      ¬other.Contains (zone.start + ndx * platformPageSize) :=
    fun other member => ready.contains_unique (MmZone.contains_page managed) member
  simp only [ReadyZones.Free, List.mem_append, List.mem_cons]
  constructor
  · rintro ⟨aligned, other, member, contains, clear⟩
    by_cases replaced : other = zone.occupy buddym ndx
    · subst replaced
      have inZone : zone.Contains page := contains
      have isClear : buddym.bit 0 (zone.pageOf page) = false := clear
      rw [bits _ (sound.pageOf_lt inZone), Bool.or_eq_false_iff, decide_eq_false_iff_not] at isClear
      exact ⟨fun same => isClear.1 ((sound.pageOf_eq inZone aligned).mpr same), aligned, zone,
        .inr (.inl rfl), inZone, isClear.2⟩
    · have listed : other ∈ before ++ rest := by
        rw [List.mem_append]
        tauto
      refine ⟨fun same => elsewhere other listed (same ▸ contains), aligned, other, ?_, contains,
        clear⟩
      tauto
  · rintro ⟨differs, aligned, other, member, contains, clear⟩
    refine ⟨aligned, ?_⟩
    by_cases same : other = zone
    · subst same
      refine ⟨other.occupy buddym ndx, .inr (.inl rfl), contains, ?_⟩
      have number : other.pageOf page ≠ ndx :=
        fun same => differs ((sound.pageOf_eq contains aligned).mp same)
      exact (bits _ (sound.pageOf_lt contains)).trans
        (Bool.or_eq_false_iff.mpr ⟨decide_eq_false number, clear⟩)
    · exact ⟨other, by tauto, contains, clear⟩

/-- The page that `mm_alloc_page` hands out was free, and no other page changes. -/
theorem ReadyZones.allocPage_some {paddr : Nat}
    (returned : mm.allocPage = .ok (mmNext, some paddr)) :
    mm.Free paddr ∧ paddr < addressSpace ∧
      ∀ page, mmNext.Free page ↔ page ≠ paddr ∧ mm.Free page := by
  obtain ⟨zones, ready⟩ := mm
  unfold ReadyZones.allocPage at returned
  split at returned
  · cases returned
  · cases returned
  · next after p allocated =>
      obtain ⟨address, read, same⟩ := Outcome.bind_eq_ok.mp returned
      simp only [Except.ok.injEq, Prod.mk.injEq, Option.some.injEq] at same
      obtain ⟨rfl, rfl⟩ := same
      rcases mmAllocPage_cases ready.sound with
        ⟨before, zone, rest, ndx, buddym, isSplit, managed, clear, taken, sound, bits⟩ | ⟨-, full⟩
      · subst isSplit
        rw [allocated] at taken
        cases taken
        have readyNext := ready.mmAllocPage allocated
        have zoneSound := ready.sound zone (by simp)
        -- the descriptor has the address of the page
        have isPage : address = zone.start + ndx * platformPageSize := by
          have found : zoneAt (before ++ zone.occupy buddym ndx :: rest) zone.address =
              some (zone.occupy buddym ndx) := readyNext.zoneAt_split
          rw [pagePaddr, found] at read
          simp only [deref, Outcome.ok_bind] at read
          split at read
          · next described =>
              cases read
              exact sound.paddrs ndx described
          · cases read
        subst isPage
        have contains := MmZone.contains_page managed
        refine ⟨⟨?_, zone, by simp, contains, ?_⟩, Nat.lt_trans contains.2 zoneSound.inside,
          free_occupy ready readyNext managed bits⟩
        · exact Nat.dvd_add zoneSound.startAligned (Nat.dvd_mul_left ..)
        · rw [MmZone.pageOf_page]
          exact clear
      · rw [allocated] at full
        cases full

theorem ReadyZones.allocPage_none (returned : mm.allocPage = .ok (mmNext, none)) :
    mmNext.zones = mm.zones := by
  unfold ReadyZones.allocPage at returned
  split at returned
  · cases returned
  · next after allocated =>
      cases returned
      rcases mmAllocPage_cases mm.ready.sound with
        ⟨_, _, _, _, _, _, _, _, taken, _⟩ | ⟨-, full⟩
      · rw [allocated] at taken
        cases taken
      · rw [allocated] at full
        cases full
        rfl
  · obtain ⟨_, _, same⟩ := Outcome.bind_eq_ok.mp returned
    cases same

/-- The zones are an allocator as the heap expects it. -/
theorem zoneOps_handsOutFree : HandsOutFree (zoneOps offset) ReadyZones.Occupied where
  page mm next paddr returned := by
    obtain ⟨free, fits, marks⟩ := ReadyZones.allocPage_some returned
    refine ⟨free.1, fits, not_not.mpr free, fun other => ?_⟩
    unfold ReadyZones.Occupied
    rw [marks other]
    tauto
  null mm next returned other := by
    unfold ReadyZones.Occupied ReadyZones.Free
    rw [ReadyZones.allocPage_none returned]

end Yaeos
