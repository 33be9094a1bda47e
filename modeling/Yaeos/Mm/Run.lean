import Yaeos.Machine.Run
import Yaeos.Mm.Calls

/-!
# Runs over zones

A state is the list of zones, the kernel space they are created in and a record
of every page that `mm_alloc_page` handed out and nobody freed: where it lies,
and how its bit and its descriptor were just before.  A page leaves the record
when an address in it is freed.
-/

namespace Yaeos

/-- The buddy bit of a page and its descriptor. -/
def pageStatus (zones : List MmZone) (p : PagePtr) : Option (Bool × MmPage) :=
  (zoneAt zones p.zone).map fun zone => (zone.buddym.bit 0 p.ndx, zone.pages p.ndx)

structure LivePage where
  ptr : PagePtr
  before : Option (Bool × MmPage)

structure MmSystem where
  zones : List MmZone
  space : VmSpace
  live : List LivePage

inductive MmCall where
  | zoneCreate (rounds : Nat) (memory : Nat → BitVec 32) (stalePages : Nat → MmPage)
      (tmpArea physStart length : Nat)
  | allocPageFrom (zone : Nat)
  | allocPage
  | freePage (addr : Nat)

namespace MmSystem

/-- The page an address lies in. -/
def pageAt (zones : List MmZone) (addr : Nat) : Option PagePtr :=
  (findZone zones addr).map fun zone => ⟨zone.address, zone.pageOf addr⟩

def call (system : MmSystem) : MmCall → Outcome MmSystem
  | .zoneCreate rounds memory stalePages tmpArea physStart length => do
      let (zones, space) ←
        mmZoneCreate rounds memory stalePages tmpArea physStart length system.zones system.space
      .ok { system with zones := zones, space := space }
  | .allocPageFrom zone => do
      let (zone, _) ← mmAllocPageFrom (← deref (zoneAt system.zones zone))
      .ok { system with zones := setZone system.zones zone }
  | .allocPage => do
      let (zones, p) ← mmAllocPage system.zones
      match p with
      | none => .ok { system with zones := zones }
      | some p =>
          let page := { ptr := p, before := pageStatus system.zones p }
          .ok { system with zones := zones, live := page :: system.live }
  | .freePage addr => do
      let zones ← mmFreePage system.zones addr
      let live := system.live.filter fun page => some page.ptr ≠ pageAt system.zones addr
      .ok { system with zones := zones, live := live }

/-- Zones are created over memory no other zone has; arguments are machine
words. -/
def Legal (system : MmSystem) : MmCall → Prop
  | .zoneCreate _ _ _ _ physStart length => physStart < addressSpace ∧ length < addressSpace ∧
      ∀ zone ∈ system.zones,
        physStart + length ≤ zone.start ∨ zone.start + zone.length ≤ physStart
  | .freePage addr => addr < addressSpace
  | _ => True

instance (system : MmSystem) (call : MmCall) : Decidable (system.Legal call) := by
  cases call <;> unfold Legal <;> infer_instance

end MmSystem

/-- The runs over zones created one by one in a kernel space. -/
def mmMachine : Machine MmSystem MmCall :=
  (Machine.ofOutcome (fun system => system.zones = [] ∧ system.live = []) MmSystem.call).guard
    MmSystem.Legal

namespace MmSystem

variable {system next : MmSystem} {zone after : MmZone} {page : LivePage}

/-- A handed out page as its zone has it. -/
structure Outstanding (zone : MmZone) (page : LivePage) : Prop where
  address : page.ptr.zone = zone.address
  usable : zone.infoPages ≤ page.ptr.ndx
  managed : page.ptr.ndx < zone.count
  used : zone.buddym.bit 0 page.ptr.ndx = true
  occupied : page.ptr.ndx < zone.descriptors → (zone.pages page.ptr.ndx).state = .occupied
  before : page.ptr.ndx < zone.descriptors → page.before = some (false,
    { paddr := zone.start + page.ptr.ndx * platformPageSize, state := .free })

structure Holds (system : MmSystem) : Prop where
  ready : Ready system.space.offset system.zones
  outstanding : ∀ page ∈ system.live, ∃ zone ∈ system.zones, Outstanding zone page

/-- A page stays handed out while its bit and the state of its descriptor stay. -/
theorem Outstanding.frame (outstanding : Outstanding zone page)
    (same : MmZone.SameFrame zone after)
    (used : after.buddym.bit 0 page.ptr.ndx = true)
    (pages : after.pages page.ptr.ndx = zone.pages page.ptr.ndx) : Outstanding after page where
  address := outstanding.address.trans same.1.symm
  usable := same.infoPages_eq ▸ outstanding.usable
  managed := same.count_eq ▸ outstanding.managed
  used := used
  occupied below := by
    rw [pages]
    exact outstanding.occupied (same.2.2.2.1 ▸ below)
  before below := by
    rw [same.2.1]
    exact outstanding.before (same.2.2.2.1 ▸ below)

/-- One zone of the list is replaced; the pages of the others are as before. -/
theorem outstanding_replace {front rest : List MmZone} {pages : List LivePage}
    (outstanding : ∀ page ∈ pages, ∃ other ∈ front ++ zone :: rest, Outstanding other page)
    (kept : ∀ page ∈ pages, Outstanding zone page → Outstanding after page) :
    ∀ page ∈ pages, ∃ other ∈ front ++ after :: rest, Outstanding other page := by
  intro page member
  obtain ⟨other, listed, holds⟩ := outstanding page member
  simp only [List.mem_append, List.mem_cons] at listed
  rcases listed with inFront | rfl | inRest
  · exact ⟨other, by simp [inFront], holds⟩
  · exact ⟨after, by simp, kept page member holds⟩
  · exact ⟨other, by simp [inRest], holds⟩

theorem zoneAt_mem {zones : List MmZone} {address : Nat}
    (found : zoneAt zones address = some zone) : ∃ before rest, zones = before ++ zone :: rest :=
  List.append_of_mem (List.mem_of_find?_eq_some found)

theorem Holds.zoneCreate (holds : system.Holds) {rounds tmpArea physStart length : Nat}
    {memory : Nat → BitVec 32} {stalePages : Nat → MmPage}
    (legal : system.Legal (.zoneCreate rounds memory stalePages tmpArea physStart length))
    (called : system.call (.zoneCreate rounds memory stalePages tmpArea physStart length) = .ok next) :
    next.Holds := by
  obtain ⟨startInside, lengthInside, apart⟩ := legal
  simp only [call, Outcome.bind_eq_ok, Except.ok.injEq] at called
  obtain ⟨⟨zones, space⟩, created, rfl⟩ := called
  obtain ⟨zone, rfl, sound, start, length, address, offset, -⟩ :=
    mmZoneCreate_sound startInside lengthInside created
  refine ⟨⟨?_, ?_, ?_⟩, fun page member => ?_⟩
  · simpa using ⟨sound, holds.ready.sound⟩
  · simpa [offset, address, start] using holds.ready.placed
  · refine List.pairwise_cons.mpr ⟨fun other member => ?_, holds.ready.disjoint⟩
    simpa [MmZone.Disjoint, start, length] using apart other member
  · obtain ⟨other, listed, outstanding⟩ := holds.outstanding page member
    exact ⟨other, List.mem_cons_of_mem _ listed, outstanding⟩

theorem Holds.allocPageFrom (holds : system.Holds) {address : Nat}
    (called : system.call (.allocPageFrom address) = .ok next) : next.Holds := by
  simp only [call, Outcome.bind_eq_ok, deref_eq_ok, Except.ok.injEq] at called
  obtain ⟨zone, found, ⟨after, p⟩, taken, rfl⟩ := called
  obtain ⟨zones, space, live⟩ := system
  obtain ⟨before, rest, rfl⟩ := zoneAt_mem found
  have ready := holds.ready
  rcases (ready.sound zone (by simp)).allocPageFrom with
    ⟨ndx, managed, clear, -, buddym, took, sound, bits⟩ | ⟨-, nothing⟩
  · rw [took] at taken
    cases taken
    have same : MmZone.SameFrame zone { zone with buddym := buddym } := .refl zone
    rw [ready.setZone_split same.1]
    refine ⟨ready.replace sound same, outstanding_replace holds.outstanding
      fun page _ outstanding => outstanding.frame same ?_ rfl⟩
    simp [bits _ outstanding.managed, outstanding.used]
  · rw [nothing] at taken
    cases taken
    rw [ready.setZone_split rfl]
    exact holds

theorem Holds.allocPage (holds : system.Holds) (called : system.call .allocPage = .ok next) :
    next.Holds := by
  simp only [call, Outcome.bind_eq_ok] at called
  obtain ⟨⟨zones, p⟩, taken, called⟩ := called
  obtain ⟨oldZones, space, live⟩ := system
  have ready := holds.ready
  rcases mmAllocPage_cases ready.sound with
    ⟨before, zone, rest, ndx, buddym, rfl, managed, clear, took, sound, bits⟩ | ⟨-, nothing⟩
  · rw [took] at taken
    cases taken
    cases called
    have zoneSound := ready.sound zone (by simp)
    have same : MmZone.SameFrame zone (zone.occupy buddym ndx) := .refl zone
    refine ⟨ready.replace sound same, fun page member => ?_⟩
    rcases List.mem_cons.mp member with rfl | member
    · refine ⟨zone.occupy buddym ndx, by simp, rfl, zoneSound.usable_of_clear clear, managed,
        (bits ndx managed).trans (by simp), fun _ => ?_, fun below => ?_⟩
      · simp [MmZone.occupy, MmZone.setState]
      · have free : zone.pages ndx =
            { paddr := zone.start + ndx * platformPageSize, state := .free } := by
          rw [← zoneSound.paddrs ndx below, ← zoneSound.clearFree ndx below clear]
        exact (congrArg (Option.map _) ready.zoneAt_split).trans
          (by simp [clear, free, MmZone.occupy, MmZone.setState])
    · refine outstanding_replace holds.outstanding (fun page _ outstanding => ?_) page member
      have differs : page.ptr.ndx ≠ ndx := fun same => by
        simp [← same, outstanding.used] at clear
      exact outstanding.frame same ((bits _ outstanding.managed).trans (by simp [outstanding.used]))
        (Function.update_of_ne differs _ _)
  · rw [nothing] at taken
    cases taken
    cases called
    exact holds

theorem Holds.freePage (holds : system.Holds) {addr : Nat}
    (called : system.call (.freePage addr) = .ok next) : next.Holds := by
  simp only [call, Outcome.bind_eq_ok, Except.ok.injEq] at called
  obtain ⟨zones, freed, rfl⟩ := called
  obtain ⟨oldZones, space, live⟩ := system
  have ready := holds.ready
  obtain ⟨before, zone, rest, rfl, contains, returnable⟩ := ready.freePage_cases freed
  obtain ⟨buddym, released, sound, bits⟩ := ready.freePage_split contains returnable
  rw [released] at freed
  cases freed
  have same : MmZone.SameFrame zone (zone.release buddym (zone.pageOf addr)) := .refl zone
  refine ⟨ready.replace sound same, outstanding_replace
    (fun page member => holds.outstanding page (List.mem_filter.mp member).1)
    fun page member outstanding => ?_⟩
  have differs : page.ptr.ndx ≠ zone.pageOf addr := by
    intro atPage
    have other := (List.mem_filter.mp member).2
    simp [pageAt, ready.findZone_split contains, ← outstanding.address, ← atPage] at other
  exact outstanding.frame same ((bits _).trans (by simp [outstanding.used, differs]))
    (Function.update_of_ne differs _ _)

theorem holds_of_reachable (reached : mmMachine.Reachable system) : system.Holds := by
  refine reached.invariant (fun system initial => ?_) fun system action next holds stepped => ?_
  · obtain ⟨noZones, nothingLive⟩ := initial
    exact ⟨⟨by simp [noZones], by simp [noZones], by simp [noZones]⟩, by simp [nothingLive]⟩
  · obtain ⟨legal, called⟩ := stepped
    cases action with
    | zoneCreate => exact holds.zoneCreate legal called
    | allocPageFrom => exact holds.allocPageFrom called
    | allocPage => exact holds.allocPage called
    | freePage => exact holds.freePage called

end MmSystem

/-- What a page descriptor that `mm_alloc_page_from` returns must be: an element
of the array that was allocated and initialised, with the address of its page,
and not of a page under the bookkeeping of the zone. -/
structure Described (zone : MmZone) (page : PagePtr) : Prop where
  ofZone : page.zone = zone.address
  inArray : page.ndx < zone.descriptors
  paddr : (zone.pages page.ndx).paddr = zone.start + page.ndx * platformPageSize
  outside : ¬page.ndx < zone.infoPages

/-- What giving a live page back must do: its physical address leads to its
descriptor, and the free returns, puts bit and descriptor back to what they were
before the page was handed out, and changes no other page. -/
def Restores (zones : List MmZone) (page : LivePage) : Prop :=
  ∃ status, pageStatus zones page.ptr = some status ∧
    mmGetPageByPaddr zones status.2.paddr = .ok (some page.ptr) ∧
    ∃ next, mmFreePage zones status.2.paddr = .ok next ∧
      pageStatus next page.ptr = page.before ∧
      ∀ other, other ≠ page.ptr → pageStatus next other = pageStatus zones other

namespace MmSystem

/-- In every reachable state, the descriptor that a zone hands out is a
descriptor of the array exactly when, before the call, a page that has one was
free: the last page of a zone has none. -/
theorem described_iff {system : MmSystem} {zone after : MmZone} {page : PagePtr}
    (reached : mmMachine.Reachable system) (member : zone ∈ system.zones)
    (taken : mmAllocPageFrom zone = .ok (after, some page)) :
    Described zone page ↔ ∃ ndx, ndx + 1 < zone.count ∧ zone.buddym.bit 0 ndx = false := by
  have sound := (holds_of_reachable reached).ready.sound zone member
  have described := sound.described
  rcases sound.allocPageFrom with ⟨ndx, managed, clear, lowerSet, buddym, took, -⟩ | ⟨-, nothing⟩
  · rw [took] at taken
    cases taken
    constructor
    · intro returned
      have inArray : ndx < zone.descriptors := returned.inArray
      exact ⟨ndx, by omega, clear⟩
    · rintro ⟨free, hasDescriptor, free_clear⟩
      have first : ndx ≤ free := Nat.le_of_not_lt fun below => by
        simp [lowerSet free below] at free_clear
      have inArray : ndx < zone.descriptors := by omega
      exact ⟨rfl, inArray, sound.paddrs ndx inArray,
        Nat.not_lt.mpr (sound.usable_of_clear clear)⟩
  · rw [nothing] at taken
    cases taken

/-- A kernel space 3 GiB up, without areas, and no zone yet. -/
def boot : MmSystem where
  zones := []
  space := {
    offset := 0xC0000000
    rbAreas := rbtreeInitTree ⟨none, fun _ => ⟨0, none, none, none, .red⟩⟩
    sortedAreas := []
    areas := fun _ => ⟨0, 0⟩ }
  live := []

/-- A zone of so many pages in zeroed memory, from an address on. -/
def zoned (physStart pages : Nat) : MmCall :=
  .zoneCreate 8 (fun _ => 0) (fun _ => ⟨0, .free⟩) 8 physStart (pages * platformPageSize)

theorem reachable_boot {calls : List MmCall} {system : MmSystem}
    (executed : Machine.execute Legal call calls boot = some system) :
    mmMachine.Reachable system := by
  have start : mmMachine.Reachable boot := .initial ⟨rfl, rfl⟩
  refine start.execute ?_ executed
  exact fun _ _ _ legal called => ⟨legal, called⟩

/-- The first zone of a run and what it hands out next. -/
def nextPage (calls : List MmCall) : Option (MmSystem × MmZone × MmZone × PagePtr) := do
  let system ← Machine.execute Legal call calls boot
  let zone ← system.zones.head?
  let (after, page) ← (mmAllocPageFrom zone).toOption
  some (system, zone, after, ← page)

theorem nextPage_eq {calls : List MmCall} {system : MmSystem} {zone after : MmZone}
    {page : PagePtr} (result : nextPage calls = some (system, zone, after, page)) :
    mmMachine.Reachable system ∧ zone ∈ system.zones ∧
      mmAllocPageFrom zone = .ok (after, some page) := by
  simp only [nextPage, Option.bind_eq_bind, Option.bind_eq_some_iff, Option.some.injEq,
    Prod.mk.injEq] at result
  obtain ⟨_, executed, first, isFirst, ⟨_, _⟩, taken, _, rfl, rfl, rfl, rfl, rfl⟩ := result
  refine ⟨reachable_boot executed, List.mem_of_mem_head? isFirst, ?_⟩
  cases outcome : mmAllocPageFrom first <;> simp_all [Except.toOption]

/-- A zone of three pages first hands out its middle page, which is described. -/
theorem middle_page_described : ∃ system zone after page, mmMachine.Reachable system ∧
    zone ∈ system.zones ∧ mmAllocPageFrom zone = .ok (after, some page) ∧
    Described zone page := by
  have result : (nextPage [zoned 4096 3]).map (fun (_, zone, _) =>
      (zone.count, zone.buddym.bit 0 1)) = some (3, false) := by decide +kernel
  obtain ⟨⟨system, zone, after, page⟩, executed, seen⟩ := Option.map_eq_some_iff.mp result
  obtain ⟨reached, member, taken⟩ := nextPage_eq executed
  simp only [Prod.mk.injEq] at seen
  exact ⟨system, zone, after, page, reached, member, taken,
    (described_iff reached member taken).mpr ⟨1, by omega, seen.2⟩⟩

/-- A zone of two pages hands out its second page, behind the one descriptor. -/
theorem last_page_undescribed : ∃ system zone after page, mmMachine.Reachable system ∧
    zone ∈ system.zones ∧ mmAllocPageFrom zone = .ok (after, some page) ∧
    ¬Described zone page := by
  have result : (nextPage [zoned 4096 2]).map (fun (_, zone, _, page) =>
      (zone.descriptors, page.ndx)) = some (1, 1) := by decide +kernel
  obtain ⟨⟨system, zone, after, page⟩, executed, seen⟩ := Option.map_eq_some_iff.mp result
  obtain ⟨reached, member, taken⟩ := nextPage_eq executed
  simp only [Prod.mk.injEq] at seen
  refine ⟨system, zone, after, page, reached, member, taken, fun described => ?_⟩
  have inArray := described.inArray
  omega

theorem Outstanding.pagesCount_iff (outstanding : Outstanding zone page) (sound : zone.Sound) :
    page.ptr.ndx < zone.pagesCount ↔ page.ptr.ndx + zone.infoPages + 1 < zone.count := by
  have managed := outstanding.managed
  rw [sound.pagesCount_eq outstanding.usable managed]
  have usable := outstanding.usable
  omega

/-- A live page below `pages_count` is restored. -/
theorem Outstanding.restores {before rest : List MmZone} {offset : Nat}
    (outstanding : Outstanding zone page) (ready : Ready offset (before ++ zone :: rest))
    (counted : page.ptr.ndx < zone.pagesCount) : Restores (before ++ zone :: rest) page := by
  obtain ⟨⟨address, ndx⟩, original⟩ := page
  obtain ⟨rfl, usable, managed, used, occupied, restored⟩ := outstanding
  have sound := ready.sound zone (by simp)
  have described : ndx < zone.descriptors := by
    have described := sound.described
    have below : ndx < zone.pagesCount := counted
    rw [sound.pagesCount_eq usable managed] at below
    omega
  have paddr := sound.paddrs ndx described
  have lookup := ready.getPageByPaddr_split described
  rw [if_pos counted] at lookup
  have contains := MmZone.contains_page managed
  have atPage := zone.pageOf_page ndx
  obtain ⟨buddym, freed, released, bits⟩ := ready.freePage_split contains
    (atPage.symm ▸ ⟨counted, managed, used, occupied described⟩)
  rw [atPage] at freed bits
  refine ⟨(true, zone.pages ndx), ?_, ?_, before ++ zone.release buddym ndx :: rest, ?_, ?_,
    fun other differs => ?_⟩
  · simpa [pageStatus, ready.zoneAt_split] using used
  · rw [paddr]
    exact lookup
  · rw [paddr]
    exact freed
  · have replaced := @Ready.zoneAt_replace offset _ _ _ (zone.release buddym ndx) ready rfl zone.address
    rw [restored described, pageStatus, replaced, if_pos rfl]
    simp [MmZone.release, MmZone.setState, bits, paddr]
  · have replaced := @Ready.zoneAt_replace offset _ _ _ (zone.release buddym ndx) ready rfl other.zone
    rw [pageStatus, replaced]
    split
    · next sameZone =>
        have otherNdx : other.ndx ≠ ndx := fun sameNdx =>
          differs (by cases other; simp_all)
        simp [pageStatus, sameZone, ready.zoneAt_split, MmZone.release, MmZone.setState, bits,
          otherNdx]
    · rfl

/-- In every reachable state, a page that `mm_alloc_page` handed out is found and
restored through its physical address exactly when its index keeps below the
number of pages by one more than the number of bookkeeping pages. -/
theorem restores_iff {system : MmSystem} {page : LivePage} (reached : mmMachine.Reachable system)
    (member : page ∈ system.live) :
    Restores system.zones page ↔ ∃ zone ∈ system.zones, zone.address = page.ptr.zone ∧
      page.ptr.ndx + zone.infoPages + 1 < zone.count := by
  have holds := holds_of_reachable reached
  have ready := holds.ready
  obtain ⟨zone, listed, outstanding⟩ := holds.outstanding page member
  constructor
  · rintro ⟨status, -, lookup, -⟩
    obtain ⟨found, foundListed, sameAddress, counted⟩ := ready.getPageByPaddr_counted lookup
    obtain rfl := ready.unique foundListed listed (sameAddress.trans outstanding.address)
    exact ⟨found, foundListed, sameAddress,
      (outstanding.pagesCount_iff (ready.sound found foundListed)).mp counted⟩
  · rintro ⟨other, otherListed, sameAddress, below⟩
    obtain rfl := ready.unique otherListed listed (sameAddress.trans outstanding.address)
    obtain ⟨before, rest, split⟩ := List.append_of_mem listed
    rw [split] at ready ⊢
    have sound := ready.sound other (by simp)
    exact outstanding.restores ready ((outstanding.pagesCount_iff sound).mpr below)

/-- In two zones of four pages, after a page was taken and given back and one was
taken again, that page is restored. -/
theorem first_page_restored : ∃ system page, mmMachine.Reachable system ∧ page ∈ system.live ∧
    page.ptr.ndx = 1 ∧ Restores system.zones page := by
  have result : (Machine.execute Legal call
      [zoned 4096 4, zoned 65536 4, .allocPage, .freePage 69632, .allocPage] boot).map
        (fun system => (system.live.map fun page => (page.ptr.zone, page.ptr.ndx),
          system.zones.map fun zone => (zone.address, zone.infoPages, zone.count))) =
      some ([(0xC001000C, 1)], [(0xC001000C, 1, 4), (0xC000100C, 1, 4)]) := by decide +kernel
  obtain ⟨⟨zones, space, live⟩, executed, seen⟩ := Option.map_eq_some_iff.mp result
  simp only [Prod.mk.injEq, List.map_eq_cons_iff, List.map_eq_nil_iff] at seen
  obtain ⟨⟨page, _, rfl, ⟨inZone, ndx⟩, rfl⟩, zone, _, rfl, ⟨address, info, count⟩, -⟩ := seen
  have reached := reachable_boot executed
  refine ⟨_, page, reached, by simp, ndx, ?_⟩
  exact (restores_iff reached (by simp)).mpr
    ⟨zone, by simp, by rw [address, inZone], by rw [ndx, info, count]; decide⟩

/-- The first page a zone of three pages hands out cannot be given back. -/
theorem first_page_lost : ∃ system page, mmMachine.Reachable system ∧ page ∈ system.live ∧
    page.ptr.ndx = 1 ∧ ¬Restores system.zones page := by
  have result : (Machine.execute Legal call [zoned 4096 3, .allocPage] boot).map
        (fun system => (system.live.map (·.ptr),
          system.zones.map fun zone => mmGetPageByPaddr system.zones (zone.pages 1).paddr)) =
      some ([⟨0xC000100C, 1⟩], [.error .kassert]) := by decide +kernel
  obtain ⟨⟨zones, space, live⟩, executed, seen⟩ := Option.map_eq_some_iff.mp result
  simp only [Prod.mk.injEq, List.map_eq_cons_iff, List.map_eq_nil_iff] at seen
  obtain ⟨⟨page, _, rfl, ptr, rfl⟩, zone, _, rfl, lookup, rfl⟩ := seen
  have reached := reachable_boot executed
  refine ⟨_, page, reached, by simp, by rw [ptr], ?_⟩
  rintro ⟨status, seen, found, -⟩
  simp only [pageStatus, ptr, Option.map_eq_some_iff] at seen
  obtain ⟨other, located, rfl⟩ := seen
  have same : other = zone := by
    have member := List.mem_of_find?_eq_some located
    simpa using member
  rw [same] at found
  simp only [lookup] at found
  cases found

end MmSystem

end Yaeos
