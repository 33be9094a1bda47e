import Yaeos.Dev.Run

/-!
# Mapping and unmapping a resource

`kdev_map_resource` returns the virtual address of a mapping and
`kdev_unmap_resource` takes it back, but the area looks for a resource at this
address.  No resource lies in device memory, so it never finds one that is mapped.
-/

namespace Yaeos

namespace DevArea

variable {area mapped : DevArea} {cells : List Nat} {rounds res pageVaddr : Nat}
  {cell : Option Nat} {resource : Resource}

/-- An address of the area. -/
def Contains (area : DevArea) (addr : Nat) : Prop :=
  area.base ≤ addr ∧ addr < area.base + area.length

/-- An address in a region without a resource. -/
def FreeAddr (area : DevArea) (cells : List Nat) (addr : Nat) : Prop :=
  ∃ r ∈ cells, area.isFree r = true ∧ (area.regions r).pageVaddr ≤ addr ∧
    addr < (area.regions r).pageVaddr + (area.regions r).length

/-- The free addresses and the mapped pages are what they were before. -/
def Restores (area : DevArea) (cells : List Nat) (after : DevArea) : Prop :=
  after.translation = area.translation ∧ ∃ cells', after.links.Listed (some after.data) cells' ∧
    ∀ addr, after.FreeAddr cells' addr ↔ area.FreeAddr cells addr

section Registered

variable {before extra after : List Nat} {r : Nat}
  (registered : Registered area mapped cell before r extra after res resource.data)
include registered

/-- No unregister of a free region with addresses returns. -/
theorem Registered.not_unmapped {earlier later cells' : List Nat} {left holder : Nat}
    {final : DevArea} (laid : area.Laid (before ++ r :: after))
    (shown : area.Shows (before ++ r :: after) area.translation) (rFree : area.isFree r = true)
    (member : holder ∈ before ++ (extra ++ after)) (positive : 0 < (mapped.regions holder).length)
    (free : mapped.isFree holder = true)
    (laidNow : mapped.Laid (earlier ++ left :: holder :: later)) :
    ¬Unregistered mapped final earlier left holder later cells' := by
  intro done
  obtain ⟨first, pages, atFirst, -⟩ := laidNow.pages (r := holder) (by simp)
  have absent := registered.shows_others laid shown rFree holder member first
  have present : mapped.translation first ≠ none := done.own laidNow (by rw [atFirst]) (by omega)
  rw [free] at absent
  have unmapped : (mapped.translation first).isSome = false := absent (by rw [atFirst]) (by omega)
  exact present (Option.not_isSome_iff_eq_none.mp (by simp [unmapped]))

end Registered

/-- What was mapped is never unmapped: a region that holds the address that
`kdev_map_resource` returned is none with a resource, and a free one has pages that are not
mapped. -/
theorem kdevUnmap_never (laid : area.Laid cells) (shown : area.Shows cells area.translation)
    (positive : ∀ r ∈ cells, 0 < (area.regions r).length)
    (outside : ∀ r ∈ cells, area.isFree r = false → ¬area.Contains (area.regions r).resource)
    (resOutside : ¬area.Contains res) (unlisted : ∀ new, cell = some new → new ∉ cells)
    (returned : kdevMapResource rounds cell area res resource = .ok (mapped, some pageVaddr)) :
    ¬∃ rounds after, kdevUnmapResource rounds mapped pageVaddr = .ok after ∧
      area.Restores cells after := by
  obtain ⟨_, _, returned⟩ := Outcome.bind_eq_ok.mp returned
  obtain ⟨before, r, extra, after, rfl, fit, rfl, registered⟩ := laid.registered unlisted returned
  have rFree := (fits_iff.mp (List.find?_some fit)).1
  have inArea : area.Contains (area.regions r).pageVaddr := by
    obtain ⟨low, high⟩ := laid.tiles.bounds.2 r (by simp)
    have some_there := positive r (by simp)
    exact ⟨low, by omega⟩
  rintro ⟨more, final, unmapped, -⟩
  obtain ⟨earlier, left, holder, later, cells', same, -, holds, done⟩ :=
    registered.chosen.laid.of_unregister unmapped
  have listed : holder ∈ before ++ r :: (extra ++ after) := by simp [same]
  have laidNow := registered.chosen.laid
  rw [same] at laidNow
  rcases registered.places holder listed with rfl | inExtra | ⟨old, unchanged⟩
  · rw [registered.holds] at holds
    exact resOutside (holds ▸ inArea)
  · obtain ⟨some_there, free⟩ := registered.chosen.extra_free holder inExtra
    exact registered.not_unmapped laid shown rFree
      (List.mem_append_right _ (List.mem_append_left _ inExtra)) some_there free laidNow done
  · have inOld : holder ∈ before ++ r :: after := mem_listed_iff.mpr (.inr old)
    rw [unchanged] at holds
    by_cases free : area.isFree holder = true
    · refine registered.not_unmapped laid shown rFree (mem_extended old) ?_ ?_ laidNow done
      · rw [unchanged]
        exact positive holder inOld
      · rw [isFree, unchanged]
        exact free
    · exact outside holder inOld (by simpa using free) (holds ▸ inArea)

theorem videoBuffer_mapped : ∃ mapped,
    kdevMapResource 8 (some 2) kdevStart 3 videoBuffer = .ok (mapped, some 0xC1000000) := by
  have shown : (kdevMapResource 8 (some 2) kdevStart 3 videoBuffer).map Prod.snd =
      .ok (some 0xC1000000) := by decide +kernel
  obtain ⟨⟨mapped, pageVaddr⟩, called, same⟩ := Outcome.map_eq_ok shown
  exact ⟨mapped, same ▸ called⟩

/-- The buffer of the screen is mapped at the start of the area, and unmapping it stops
the kernel. -/
theorem videoBuffer_unmap : soundMachine.Reachable kdevStart ∧ ∃ mapped,
    kdevMapResource 8 (some 2) kdevStart 3 videoBuffer = .ok (mapped, some 0xC1000000) ∧
      kdevUnmapResource 8 mapped 0xC1000000 = .error .panic ∧
      ¬∃ after, kdevUnmapResource 8 mapped 0xC1000000 = .ok after ∧
        kdevStart.Restores [1] after := by
  obtain ⟨mapped, called⟩ := videoBuffer_mapped
  have stopped : (kdevMapResource 8 (some 2) kdevStart 3 videoBuffer >>= fun result =>
      (kdevUnmapResource 8 result.1 0xC1000000).map DevArea.data) = .error .panic := by
    decide +kernel
  rw [called] at stopped
  have panics : kdevUnmapResource 8 mapped 0xC1000000 = .error .panic :=
    Outcome.map_eq_error stopped
  refine ⟨kdevStart_reachable, mapped, called, panics, ?_⟩
  rintro ⟨after, returned, -⟩
  rw [panics] at returned
  cases returned

theorem videoBuffer_never : ∃ mapped pageVaddr,
    kdevMapResource 8 (some 2) kdevStart 3 videoBuffer = .ok (mapped, some pageVaddr) ∧
      ¬∃ rounds after, kdevUnmapResource rounds mapped pageVaddr = .ok after ∧
        kdevStart.Restores [1] after := by
  obtain ⟨mapped, called⟩ := videoBuffer_mapped
  obtain ⟨cells, ok⟩ := ok_of_reachable kdevStart_reachable
  rw [ok.tiled.listed.unique kdevStart_listed] at ok
  refine ⟨mapped, 0xC1000000, called, kdevUnmap_never ok.tiled.toLaid ok.mapped
    ok.tiled.positive ?_ ?_ ?_ called⟩
  · intro r member occupied
    cases List.mem_singleton.mp member
    cases occupied
  · exact fun inArea => absurd inArea.1 (by decide)
  · rintro new same
    cases same
    decide

end DevArea

end Yaeos
