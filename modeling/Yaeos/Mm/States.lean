import Yaeos.Mm.Run

/-!
# The two records of a page

Whether a page is in use stands in its descriptor and in the buddy manager.
`mm_alloc_page_from` changes only the bit, so the runs here take pages with
`mm_alloc_page`, and only pages that have a descriptor.
-/

namespace Yaeos

namespace MmZone

variable {zone after last : MmZone} {buddym : BuddyManager} {ndx : Nat}

/-- Descriptor and bit of every page that has both say the same. -/
def Agrees (zone : MmZone) : Prop :=
  ∀ ndx < zone.descriptors, (zone.pages ndx).state = .free ↔ zone.buddym.bit 0 ndx = false

theorem Sound.managed (sound : zone.Sound) (described : ndx < zone.descriptors) :
    ndx < zone.count := by
  have count := sound.described
  omega

/-- A new zone uses the pages under its bookkeeping and no others. -/
theorem Sound.agrees (sound : zone.Sound)
    (used : ∀ ndx < zone.count, zone.buddym.bit 0 ndx = true → ndx < zone.infoPages) :
    zone.Agrees := by
  intro ndx described
  refine ⟨fun free => ?_, sound.clearFree ndx described⟩
  by_contra set
  have early := used ndx (sound.managed described) (by simpa using set)
  simp [(sound.reserved ndx early).2] at free

theorem Agrees.occupy (agrees : zone.Agrees) (sound : zone.Sound)
    (bits : ∀ other < zone.count,
      buddym.bit 0 other = (decide (other = ndx) || zone.buddym.bit 0 other)) :
    (zone.occupy buddym ndx).Agrees := by
  intro other described
  show ((Function.update zone.pages ndx _) other).state = .free ↔ buddym.bit 0 other = false
  rw [bits other (sound.managed described)]
  by_cases same : other = ndx
  · subst same
    simp
  · rw [Function.update_of_ne same, decide_eq_false same, Bool.false_or]
    exact agrees other described

theorem Agrees.release (agrees : zone.Agrees)
    (bits : ∀ other, buddym.bit 0 other = (!decide (other = ndx) && zone.buddym.bit 0 other)) :
    (zone.release buddym ndx).Agrees := by
  intro other described
  show ((Function.update zone.pages ndx _) other).state = .free ↔ buddym.bit 0 other = false
  rw [bits other]
  by_cases same : other = ndx
  · subst same
    simp
  · rw [Function.update_of_ne same, decide_eq_false same, Bool.not_false, Bool.true_and]
    exact agrees other described

theorem SameFrame.trans (one : SameFrame zone after) (two : SameFrame after last) :
    SameFrame zone last := by
  obtain ⟨address, start, length, descriptors, pagesCount, infoArea⟩ := one
  obtain ⟨address', start', length', descriptors', pagesCount', infoArea'⟩ := two
  exact ⟨address'.trans address, start'.trans start, length'.trans length,
    descriptors'.trans descriptors, pagesCount'.trans pagesCount, infoArea'.trans infoArea⟩

end MmZone

namespace MmSystem

/-- A page that was taken has a descriptor. -/
def TakesDescribed (zones : List MmZone) : Outcome (List MmZone × Option PagePtr) → Prop
  | .ok (_, some p) => ∃ zone ∈ zones, zone.address = p.zone ∧ p.ndx < zone.descriptors
  | _ => True

instance (zones : List MmZone) :
    (outcome : Outcome (List MmZone × Option PagePtr)) → Decidable (TakesDescribed zones outcome)
  | .ok (_, some _) => inferInstanceAs (Decidable (∃ _ ∈ zones, _ ∧ _))
  | .ok (_, none) => .isTrue trivial
  | .error _ => .isTrue trivial

/-- The calls of the runs: a page that is taken has a descriptor, an address that is
freed lies in a live page. -/
def OnDescribed (system : MmSystem) : MmCall → Prop
  | .zoneCreate .. => True
  | .allocPageFrom _ => False
  | .allocPage => TakesDescribed system.zones (mmAllocPage system.zones)
  | .freePage addr => ∃ page ∈ system.live, some page.ptr = pageAt system.zones addr

instance (system : MmSystem) : (call : MmCall) → Decidable (system.OnDescribed call)
  | .zoneCreate .. => .isTrue trivial
  | .allocPageFrom _ => .isFalse id
  | .allocPage => inferInstanceAs (Decidable (TakesDescribed _ _))
  | .freePage _ => inferInstanceAs (Decidable (∃ _ ∈ system.live, _))

end MmSystem

/-- The runs over zones that use only descriptors that were initialised. -/
def mmPageMachine : Machine MmSystem MmCall := mmMachine.guard MmSystem.OnDescribed

namespace MmSystem

variable {system next final : MmSystem} {calls : List MmCall}

structure Consistent (system : MmSystem) : Prop where
  holds : system.Holds
  agrees : ∀ zone ∈ system.zones, zone.Agrees
  distinct : (system.live.map LivePage.ptr).Nodup

/-- Every zone is still there, with the same pages under its bookkeeping. -/
def Keeps (system next : MmSystem) : Prop :=
  ∀ zone ∈ system.zones, ∃ after ∈ next.zones, MmZone.SameFrame zone after

theorem Keeps.refl (system : MmSystem) : system.Keeps system :=
  fun zone member => ⟨zone, member, .refl zone⟩

theorem Keeps.trans (one : system.Keeps next) (two : next.Keeps final) : system.Keeps final := by
  intro zone member
  obtain ⟨after, afterMember, same⟩ := one zone member
  obtain ⟨last, lastMember, sameLast⟩ := two after afterMember
  exact ⟨last, lastMember, same.trans sameLast⟩

/-- One zone is replaced. -/
theorem keeps_replace {before rest : List MmZone} {zone after : MmZone} {space : VmSpace}
    {live nextLive : List LivePage} (same : MmZone.SameFrame zone after) :
    Keeps ⟨before ++ zone :: rest, space, live⟩ ⟨before ++ after :: rest, space, nextLive⟩ := by
  intro other member
  rcases List.mem_append.mp member with front | back
  · exact ⟨other, by simp [front], .refl other⟩
  · rcases List.mem_cons.mp back with rfl | back
    · exact ⟨after, by simp, same⟩
    · exact ⟨other, by simp [back], .refl other⟩

theorem agrees_replace {before rest : List MmZone} {zone after : MmZone}
    (agrees : ∀ other ∈ before ++ zone :: rest, other.Agrees) (afterAgrees : after.Agrees) :
    ∀ other ∈ before ++ after :: rest, other.Agrees := by
  intro other member
  rcases List.mem_append.mp member with front | back
  · exact agrees other (by simp [front])
  · rcases List.mem_cons.mp back with rfl | back
    · exact afterAgrees
    · exact agrees other (by simp [back])

/-- No live page is one whose bit is clear. -/
theorem Holds.not_live (holds : system.Holds) {zone : MmZone} (member : zone ∈ system.zones)
    {ndx : Nat} (clear : zone.buddym.bit 0 ndx = false) :
    ∀ page ∈ system.live, page.ptr ≠ ⟨zone.address, ndx⟩ := by
  intro page live same
  obtain ⟨other, listed, outstanding⟩ := holds.outstanding page live
  have address : other.address = zone.address := by
    rw [← outstanding.address, same]
  obtain rfl := holds.ready.unique listed member address
  have used := outstanding.used
  rw [same, clear] at used
  cases used

theorem Consistent.zoneCreate (consistent : system.Consistent)
    {rounds tmpArea physStart length : Nat} {memory : Nat → BitVec 32} {stalePages : Nat → MmPage}
    (legal : system.Legal (.zoneCreate rounds memory stalePages tmpArea physStart length))
    (called : system.call (.zoneCreate rounds memory stalePages tmpArea physStart length) = .ok next) :
    next.Consistent ∧ system.Keeps next := by
  have holds := consistent.holds.zoneCreate legal called
  obtain ⟨startInside, lengthInside, -⟩ := legal
  simp only [call, Outcome.bind_eq_ok, Except.ok.injEq] at called
  obtain ⟨⟨zones, space⟩, created, rfl⟩ := called
  obtain ⟨zone, rfl, sound, -, -, -, -, used⟩ := mmZoneCreate_sound startInside lengthInside created
  refine ⟨⟨holds, fun other member => ?_, consistent.distinct⟩, fun other member =>
    ⟨other, List.mem_cons_of_mem _ member, .refl other⟩⟩
  rcases List.mem_cons.mp member with rfl | member
  · exact sound.agrees used
  · exact consistent.agrees other member

theorem Consistent.allocPage (consistent : system.Consistent)
    (called : system.call .allocPage = .ok next) : next.Consistent ∧ system.Keeps next := by
  have nextHolds := consistent.holds.allocPage called
  obtain ⟨holds, agrees, distinct⟩ := consistent
  simp only [call, Outcome.bind_eq_ok] at called
  obtain ⟨⟨zones, p⟩, taken, called⟩ := called
  obtain ⟨oldZones, space, live⟩ := system
  rcases mmAllocPage_cases holds.ready.sound with
    ⟨before, zone, rest, ndx, buddym, rfl, managed, clear, took, sound, bits⟩ | ⟨-, nothing⟩
  · rw [took] at taken
    cases taken
    cases called
    have member : zone ∈ before ++ zone :: rest := by simp
    have zoneSound := holds.ready.sound zone member
    refine ⟨⟨nextHolds, agrees_replace agrees ((agrees zone member).occupy zoneSound bits), ?_⟩,
      keeps_replace (.refl zone)⟩
    refine List.nodup_cons.mpr ⟨fun live => ?_, distinct⟩
    obtain ⟨page, listed, same⟩ := List.mem_map.mp live
    exact holds.not_live member clear page listed same
  · rw [nothing] at taken
    cases taken
    cases called
    exact ⟨⟨holds, agrees, distinct⟩, .refl _⟩

theorem Consistent.freePage (consistent : system.Consistent) {addr : Nat}
    (called : system.call (.freePage addr) = .ok next) : next.Consistent ∧ system.Keeps next := by
  have nextHolds := consistent.holds.freePage called
  obtain ⟨holds, agrees, distinct⟩ := consistent
  simp only [call, Outcome.bind_eq_ok, Except.ok.injEq] at called
  obtain ⟨zones, freed, rfl⟩ := called
  obtain ⟨oldZones, space, live⟩ := system
  obtain ⟨before, zone, rest, rfl, contains, returnable⟩ := holds.ready.freePage_cases freed
  obtain ⟨buddym, released, sound, bits⟩ := holds.ready.freePage_split contains returnable
  rw [released] at freed
  cases freed
  refine ⟨⟨nextHolds, agrees_replace agrees ((agrees zone (by simp)).release bits), ?_⟩,
    keeps_replace (.refl zone)⟩
  exact distinct.sublist (List.filter_sublist.map _)

theorem Consistent.step {action : MmCall} (consistent : system.Consistent)
    (stepped : mmPageMachine.step system action next) : next.Consistent ∧ system.Keeps next := by
  obtain ⟨onDescribed, legal, called⟩ := stepped
  cases action with
  | zoneCreate => exact consistent.zoneCreate legal called
  | allocPageFrom => exact onDescribed.elim
  | allocPage => exact consistent.allocPage called
  | freePage => exact consistent.freePage called

theorem consistent_of_reachable (reached : mmPageMachine.Reachable system) :
    system.Consistent := by
  refine reached.invariant (fun system initial => ?_) fun system action next consistent stepped =>
    (consistent.step stepped).1
  obtain ⟨noZones, nothingLive⟩ := initial
  exact ⟨⟨⟨by simp [noZones], by simp [noZones], by simp [noZones]⟩, by simp [nothingLive]⟩,
    by simp [noZones], by simp [nothingLive]⟩

theorem Consistent.trace (consistent : system.Consistent)
    (trace : mmPageMachine.Trace system calls final) :
    final.Consistent ∧ system.Keeps final := by
  induction trace with
  | nil => exact ⟨consistent, .refl system⟩
  | snoc _ stepped inductionHypothesis =>
      obtain ⟨before, kept⟩ := inductionHypothesis
      obtain ⟨after, keptLast⟩ := before.step stepped
      exact ⟨after, kept.trans keptLast⟩

/-- In every reachable state the two records of a page agree, the pages under the
bookkeeping are fixed and set and stay so, live pages are different, and the next call
of `mm_alloc_page` returns a page that is not live, or `NULL` exactly when every
page of every zone is set. -/
theorem pages_of_reachable (reached : mmPageMachine.Reachable system) :
    (∀ zone ∈ system.zones, ∀ ndx < zone.descriptors,
      (zone.pages ndx).state = .free ↔ zone.buddym.bit 0 ndx = false) ∧
    (∀ calls final, mmPageMachine.Trace system calls final → ∀ zone ∈ system.zones,
      ∃ after ∈ final.zones, after.address = zone.address ∧ ∀ ndx < zone.infoPages,
        after.buddym.bit 0 ndx = true ∧ (after.pages ndx).state = .fixed) ∧
    (system.live.map LivePage.ptr).Nodup ∧
    ∃ zones p, mmAllocPage system.zones = .ok (zones, p) ∧
      (∀ page ∈ system.live, p ≠ some page.ptr) ∧
      (p = none ↔ ¬∃ zone ∈ system.zones, ∃ ndx < zone.count, zone.buddym.bit 0 ndx = false) := by
  have consistent := consistent_of_reachable reached
  have holds := consistent.holds
  refine ⟨consistent.agrees, fun calls final trace zone member => ?_, consistent.distinct, ?_⟩
  · obtain ⟨after, kept⟩ := consistent.trace trace
    obtain ⟨last, listed, same⟩ := kept zone member
    refine ⟨last, listed, same.1, fun ndx early => ?_⟩
    exact (after.holds.ready.sound last listed).reserved ndx (same.infoPages_eq.symm ▸ early)
  · rcases mmAllocPage_cases holds.ready.sound with
      ⟨before, zone, rest, ndx, buddym, split, managed, clear, took, -, -⟩ | ⟨full, nothing⟩
    · have member : zone ∈ system.zones := by simp [split]
      refine ⟨_, _, took, fun page live same => ?_, nofun, fun none_ => ?_⟩
      · exact holds.not_live member clear page live (Option.some.inj same).symm
      · exact absurd ⟨zone, member, ndx, managed, clear⟩ none_
    · refine ⟨_, _, nothing, fun _ _ => nofun, fun _ => ?_, fun _ => rfl⟩
      rintro ⟨zone, member, ndx, managed, clear⟩
      rw [full zone member ndx managed] at clear
      cases clear

/-- Two zones of four pages, where two pages were taken and one was given back. -/
theorem pages_of_reachable_two : ∃ system page, mmPageMachine.Reachable system ∧
    system.live = [page] ∧ system.zones.length = 2 ∧
    ∃ zones p, mmAllocPage system.zones = .ok (zones, p) ∧ p ≠ some page.ptr := by
  have result : (Machine.execute (fun system call => system.OnDescribed call ∧ system.Legal call)
      call [zoned 4096 4, zoned 65536 4, .allocPage, .allocPage, .freePage 69632] boot).map
        (fun system => (system.live.map fun _ => (), system.zones.map fun _ => ())) =
      some ([()], [(), ()]) := by decide +kernel
  obtain ⟨⟨zones, space, live⟩, executed, seen⟩ := Option.map_eq_some_iff.mp result
  simp only [Prod.mk.injEq, List.map_eq_cons_iff, List.map_eq_nil_iff] at seen
  obtain ⟨⟨page, _, rfl, -, rfl⟩, first, _, rfl, -, second, _, rfl, -, rfl⟩ := seen
  have start : mmPageMachine.Reachable boot := .initial ⟨rfl, rfl⟩
  have reached : mmPageMachine.Reachable ⟨[first, second], space, [page]⟩ := by
    refine start.execute ?_ executed
    exact fun _ _ _ allowed called => ⟨allowed.1, allowed.2, called⟩
  obtain ⟨-, -, -, after, p, taken, fresh, -⟩ := pages_of_reachable reached
  exact ⟨_, page, reached, rfl, rfl, after, p, taken, fresh page (by simp)⟩

end MmSystem

end Yaeos
