import Yaeos.Mm.Zone

/-!
# Calls on the list of zones

`Ready` is the invariant of `MM_ZONES`: sound zones without common pages, each
with its structure at the virtual address of its first page.  The calls replace
one zone of the list by a sound zone with the same frame.
-/

namespace Yaeos

namespace MmZone

variable {zone after : MmZone} {ndx : Nat}

/-- Marking the descriptor of a page that is set in the bitmap or stays free. -/
theorem Sound.setState (sound : zone.Sound) {state : PageState} (usable : zone.infoPages ≤ ndx)
    (agrees : zone.buddym.bit 0 ndx = false → state = .free) :
    (zone.setState ndx state).Sound where
  startAligned := sound.startAligned
  lengthAligned := sound.lengthAligned
  inside := sound.inside
  tracks := sound.tracks
  described := sound.described
  counted := sound.counted
  fits := sound.fits
  paddrs other below := by
    have paddr := sound.paddrs other below
    by_cases same : other = ndx
    · subst same
      simpa [MmZone.setState] using paddr
    · simpa [MmZone.setState, Function.update_of_ne same] using paddr
  reserved other below := by
    have differs : other ≠ ndx := Nat.ne_of_lt (Nat.lt_of_lt_of_le below usable)
    simpa [MmZone.setState, Function.update_of_ne differs] using sound.reserved other below
  clearFree other below clear := by
    by_cases same : other = ndx
    · subst same
      simpa [MmZone.setState] using agrees clear
    · simpa [MmZone.setState, Function.update_of_ne same] using sound.clearFree other below clear

/-- The manager changes at one page, whose bit tells whether it is free. -/
theorem Sound.setBuddym (sound : zone.Sound) {buddym : BuddyManager}
    (tracks : buddym.Tracks zone.count) (usable : zone.infoPages ≤ ndx)
    (free : (zone.pages ndx).state = .free ∨ buddym.bit 0 ndx = true)
    (others : ∀ other < zone.count, other ≠ ndx → buddym.bit 0 other = zone.buddym.bit 0 other) :
    ({ zone with buddym := buddym } : MmZone).Sound where
  startAligned := sound.startAligned
  lengthAligned := sound.lengthAligned
  inside := sound.inside
  tracks := tracks
  described := sound.described
  counted := sound.counted
  fits := sound.fits
  paddrs := sound.paddrs
  reserved other below := by
    have differs : other ≠ ndx := Nat.ne_of_lt (Nat.lt_of_lt_of_le below usable)
    have managed : other < zone.count := Nat.lt_of_lt_of_le below sound.fits
    exact (others other managed differs).symm ▸ sound.reserved other below
  clearFree other below clear := by
    by_cases same : other = ndx
    · subst same
      exact free.resolve_right (by simpa using clear)
    · have managed : other < zone.count := by
        have described := sound.described
        have below : other < zone.descriptors := below
        omega
      exact sound.clearFree other below ((others other managed same).symm.trans clear)

theorem SameFrame.refl (zone : MmZone) : SameFrame zone zone := ⟨rfl, rfl, rfl, rfl, rfl, rfl⟩

theorem SameFrame.count_eq (same : SameFrame zone after) : after.count = zone.count := by
  rw [count, count, same.2.2.1]

theorem SameFrame.infoPages_eq (same : SameFrame zone after) :
    after.infoPages = zone.infoPages := by
  rw [infoPages, infoPages, same.2.2.2.2.2]

/-- A zone gives its lowest free page, or has none. -/
theorem Sound.allocPageFrom (sound : zone.Sound) :
    (∃ ndx < zone.count, zone.buddym.bit 0 ndx = false ∧
      (∀ lower < ndx, zone.buddym.bit 0 lower = true) ∧
      ∃ buddym, mmAllocPageFrom zone = .ok ({ zone with buddym := buddym }, some ⟨zone.address, ndx⟩) ∧
        ({ zone with buddym := buddym } : MmZone).Sound ∧
        ∀ other < zone.count,
          buddym.bit 0 other = (decide (other = ndx) || zone.buddym.bit 0 other)) ∨
    ((∀ ndx < zone.count, zone.buddym.bit 0 ndx = true) ∧ mmAllocPageFrom zone = .ok (zone, none)) := by
  rcases sound.tracks.alloc with ⟨ndx, managed, clear, lowerSet, buddym, taken, tracks, bits⟩ |
    ⟨full, nothing⟩
  · refine .inl ⟨ndx, managed, clear, lowerSet, buddym, by simp [mmAllocPageFrom, taken], ?_, bits⟩
    have usable : zone.infoPages ≤ ndx := Nat.le_of_not_lt fun early => by
      simp [(sound.reserved ndx early).1] at clear
    exact sound.setBuddym tracks usable (.inr (by simp [bits ndx managed]))
      fun other inside differs => by simp [bits other inside, differs]
  · exact .inr ⟨full, by simp [mmAllocPageFrom, nothing]⟩

theorem Sound.usable_of_clear (sound : zone.Sound) (clear : zone.buddym.bit 0 ndx = false) :
    zone.infoPages ≤ ndx :=
  Nat.le_of_not_lt fun early => by simp [(sound.reserved ndx early).1] at clear

end MmZone

/-- The invariant of `MM_ZONES` under a kernel space with the given offset. -/
structure Ready (offset : Nat) (zones : List MmZone) : Prop where
  sound : ∀ zone ∈ zones, zone.Sound
  placed : ∀ zone ∈ zones, zone.address = zone.start + offset + sizeofLinearAlloc
  disjoint : zones.Pairwise MmZone.Disjoint

/-- The registered zone whose structure lies at an address. -/
def zoneAt (zones : List MmZone) (address : Nat) : Option MmZone :=
  zones.find? fun zone => zone.address = address

namespace Ready

variable {offset ndx addr : Nat} {zones before rest : List MmZone} {zone after : MmZone}

theorem split_disjoint (ready : Ready offset (before ++ zone :: rest)) :
    ∀ other ∈ before ++ rest, MmZone.Disjoint zone other := by
  have disjoint := ready.disjoint
  simp only [List.pairwise_append, List.pairwise_cons, List.mem_cons] at disjoint
  obtain ⟨-, ⟨behind, -⟩, across⟩ := disjoint
  intro other member
  rcases List.mem_append.mp member with front | back
  · exact (across other front zone (.inl rfl)).symm
  · exact behind other back

/-- Zones without a common page have different structures. -/
theorem split_address (ready : Ready offset (before ++ zone :: rest)) :
    ∀ other ∈ before ++ rest, other.address ≠ zone.address := by
  intro other member same
  have listed : other ∈ before ++ zone :: rest := by
    simp only [List.mem_append, List.mem_cons] at member ⊢
    tauto
  have otherSound := ready.sound other listed
  have zoneSound := ready.sound zone (by simp)
  have otherPositive := otherSound.tracks.manages.positive
  have zonePositive := zoneSound.tracks.manages.positive
  rw [ready.placed other listed, ready.placed zone (by simp)] at same
  have disjoint := ready.split_disjoint other member
  unfold MmZone.Disjoint MmZone.count platformPageSize at *
  omega

theorem zoneAt_split (ready : Ready offset (before ++ zone :: rest)) :
    zoneAt (before ++ zone :: rest) zone.address = some zone := by
  rw [zoneAt, List.find?_eq_some_iff_append]
  refine ⟨by simp, before, rest, rfl, fun other member => ?_⟩
  simpa using ready.split_address other (by simp [member])

theorem zoneAt_of_mem (ready : Ready offset zones) (member : zone ∈ zones) :
    zoneAt zones zone.address = some zone := by
  obtain ⟨before, rest, rfl⟩ := List.append_of_mem member
  exact ready.zoneAt_split

/-- A zone is known by the address of its structure. -/
theorem unique (ready : Ready offset zones) {other : MmZone} (member : zone ∈ zones)
    (otherMember : other ∈ zones) (same : zone.address = other.address) : zone = other := by
  have found := ready.zoneAt_of_mem member
  rw [same, ready.zoneAt_of_mem otherMember] at found
  exact (Option.some.inj found).symm

/-- A zone of the list may be replaced by a sound one with the same frame. -/
theorem replace (ready : Ready offset (before ++ zone :: rest)) (sound : after.Sound)
    (same : MmZone.SameFrame zone after) : Ready offset (before ++ after :: rest) := by
  obtain ⟨address, start, length, -⟩ := same
  refine ⟨fun other member => ?_, fun other member => ?_, ?_⟩
  · rcases List.mem_append.mp member with front | back
    · exact ready.sound other (by simp [front])
    · rcases List.mem_cons.mp back with rfl | back
      · exact sound
      · exact ready.sound other (by simp [back])
  · rcases List.mem_append.mp member with front | back
    · exact ready.placed other (by simp [front])
    · rcases List.mem_cons.mp back with rfl | back
      · rw [address, start]
        exact ready.placed zone (by simp)
      · exact ready.placed other (by simp [back])
  · have disjoint := ready.disjoint
    simp only [List.pairwise_append, List.pairwise_cons, List.mem_cons, forall_eq_or_imp,
      MmZone.Disjoint, start, length] at disjoint ⊢
    exact disjoint

theorem setZone_split (ready : Ready offset (before ++ zone :: rest))
    (address : after.address = zone.address) :
    setZone (before ++ zone :: rest) after = before ++ after :: rest := by
  have others := ready.split_address
  have unchanged : ∀ list : List MmZone, (∀ other ∈ list, other.address ≠ zone.address) →
      list.map (fun other => if other.address = zone.address then after else other) = list := by
    intro list differ
    conv_rhs => rw [← List.map_id list]
    exact List.map_congr_left fun other member => if_neg (differ other member)
  simp only [setZone, List.map_append, List.map_cons, address, if_true]
  rw [unchanged before fun other member => others other (by simp [member]),
    unchanged rest fun other member => others other (by simp [member])]

/-- What a zone looks like at an address after one zone of the list was replaced. -/
theorem zoneAt_replace (ready : Ready offset (before ++ zone :: rest))
    (address : after.address = zone.address) (other : Nat) :
    zoneAt (before ++ after :: rest) other =
      if other = zone.address then some after else zoneAt (before ++ zone :: rest) other := by
  split
  · next same =>
      subst same
      rw [zoneAt, List.find?_eq_some_iff_append]
      refine ⟨by simp [address], before, rest, rfl, fun element member => ?_⟩
      simpa using ready.split_address element (by simp [member])
  · next differs =>
      have skipped : ¬zone.address = other := Ne.symm differs
      simp [zoneAt, List.find?_append, address, skipped]

end Ready

/-- The address lies in one of the pages of the zone. -/
def MmZone.Contains (zone : MmZone) (addr : Nat) : Prop :=
  zone.start ≤ addr ∧ addr < zone.start + zone.length

/-- The number of the page of the zone that an address of the zone lies in. -/
def MmZone.pageOf (zone : MmZone) (addr : Nat) : Nat := (addr - zone.start) / platformPageSize

namespace MmZone

variable {zone : MmZone} {ndx addr : Nat}

theorem Sound.pageOf_lt (sound : zone.Sound) (contains : zone.Contains addr) :
    zone.pageOf addr < zone.count := by
  have aligned := sound.lengthAligned
  unfold Contains pageOf count platformPageSize at *
  omega

theorem pageOf_page (zone : MmZone) (ndx : Nat) :
    zone.pageOf (zone.start + ndx * platformPageSize) = ndx := by
  unfold pageOf platformPageSize
  omega

theorem contains_page (below : ndx < zone.count) :
    zone.Contains (zone.start + ndx * platformPageSize) := by
  unfold Contains count platformPageSize at *
  omega

/-- Masking an address with its own page address gives the page address. -/
theorem and_alignRounddown (inside : addr < addressSpace) :
    addr &&& alignRounddown addr platformPageSize = addr / platformPageSize * platformPageSize := by
  have mask : alignRounddown addr platformPageSize = addr &&& alignMask platformPageSize := rfl
  rw [← alignRounddown_page inside, mask, ← Nat.land_assoc, Nat.and_self]

/-- `get_page_ndx` computes the number of the page and compares it with
`pages_count`. -/
theorem Sound.getPageNdx_eq (sound : zone.Sound) (contains : zone.Contains addr) :
    getPageNdx zone addr =
      if zone.pageOf addr < zone.pagesCount then .ok (zone.pageOf addr) else .error .kassert := by
  have zoneInside := sound.inside
  have startAligned := sound.startAligned
  obtain ⟨low, high⟩ := contains
  have inside : addr < addressSpace := by omega
  have page : wrapSub (addr / platformPageSize * platformPageSize) zone.start / platformPageSize =
      zone.pageOf addr := by
    rw [wrapSub_of_le] <;> unfold pageOf platformPageSize addressSpace at * <;> omega
  simp only [getPageNdx, and_alignRounddown inside, page, kassert]
  split <;> rfl

/-- A page that `mm_free_page` takes back. -/
structure Returnable (zone : MmZone) (ndx : Nat) : Prop where
  counted : ndx < zone.pagesCount
  managed : ndx < zone.count
  used : zone.buddym.bit 0 ndx = true
  occupied : (zone.pages ndx).state = .occupied

theorem Sound.usable_of_occupied (sound : zone.Sound)
    (occupied : (zone.pages ndx).state = .occupied) : zone.infoPages ≤ ndx :=
  Nat.le_of_not_lt fun early => by simp [(sound.reserved ndx early).2] at occupied

/-- For pages behind the bookkeeping the stored count is the plain difference. -/
theorem Sound.pagesCount_eq (sound : zone.Sound) (usable : zone.infoPages ≤ ndx)
    (managed : ndx < zone.count) : zone.pagesCount = zone.count - 1 - zone.infoPages := by
  have inside := sound.inside
  have counted := sound.counted
  have described := sound.described
  have small : zone.count < addressSpace := by
    unfold count platformPageSize addressSpace at *
    omega
  rw [counted, described, wrapSub_of_le (by omega) (by omega)]

theorem Sound.sibling (sound : zone.Sound) (returnable : zone.Returnable ndx) :
    ndx >>> 1 <<< 1 + 1 < zone.count := by
  have usable := sound.usable_of_occupied returnable.occupied
  have counted := returnable.counted
  have managed := returnable.managed
  rw [sound.pagesCount_eq usable managed] at counted
  simp only [Nat.shiftRight_eq_div_pow, Nat.shiftLeft_eq]
  omega

/-- The zone after its page was given back. -/
def release (zone : MmZone) (buddym : BuddyManager) (ndx : Nat) : MmZone :=
  ({ zone with buddym := buddym } : MmZone).setState ndx .free

theorem Sound.release (sound : zone.Sound) (returnable : zone.Returnable ndx) :
    ∃ buddym, buddyFree zone.buddym ndx 0 = .ok buddym ∧ (zone.release buddym ndx).Sound ∧
      ∀ other, buddym.bit 0 other = (!decide (other = ndx) && zone.buddym.bit 0 other) := by
  obtain ⟨buddym, freed, tracks, bits⟩ :=
    sound.tracks.free (sound.sibling returnable) returnable.managed
  have usable := sound.usable_of_occupied returnable.occupied
  refine ⟨buddym, freed, ?_, bits⟩
  -- the descriptor is marked first, so that both steps keep the zone sound
  have marked : (zone.setState ndx .free).Sound := sound.setState usable fun _ => rfl
  exact marked.setBuddym tracks usable (.inl (by simp [MmZone.setState])) fun other _ differs =>
    by simp [MmZone.setState, bits other, differs]

end MmZone

namespace Ready

variable {offset ndx addr : Nat} {zones next before rest : List MmZone} {zone : MmZone}

theorem contains_iff (ready : Ready offset zones) (member : zone ∈ zones) :
    (zone.start ≤ addr ∧ addr < wrap (zone.start + zone.length)) ↔ zone.Contains addr := by
  rw [wrap_of_lt (ready.sound zone member).inside]
  rfl

theorem findZone_split (ready : Ready offset (before ++ zone :: rest))
    (contains : zone.Contains addr) : findZone (before ++ zone :: rest) addr = some zone := by
  rw [findZone, List.find?_eq_some_iff_append]
  refine ⟨decide_eq_true ((ready.contains_iff (by simp)).mpr contains), before, rest, rfl,
    fun other member => ?_⟩
  simp only [Bool.not_eq_true', decide_eq_false_iff_not,
    ready.contains_iff (show other ∈ before ++ zone :: rest by simp [member])]
  have disjoint := ready.split_disjoint other (by simp [member])
  unfold MmZone.Contains MmZone.Disjoint at *
  omega

theorem findZone_cases (ready : Ready offset zones) (found : findZone zones addr = some zone) :
    zone.Contains addr ∧ ∃ before rest, zones = before ++ zone :: rest := by
  have member := List.mem_of_find?_eq_some found
  have inside := List.find?_some found
  exact ⟨(ready.contains_iff member).mp (by simpa using inside), List.append_of_mem member⟩

/-- The address of a page leads back to its descriptor exactly when the index of
the page is below `pages_count`. -/
theorem getPageByPaddr_split (ready : Ready offset (before ++ zone :: rest))
    (described : ndx < zone.descriptors) :
    mmGetPageByPaddr (before ++ zone :: rest) (zone.start + ndx * platformPageSize) =
      if ndx < zone.pagesCount then .ok (some ⟨zone.address, ndx⟩) else .error .kassert := by
  have sound := ready.sound zone (by simp)
  have managed : ndx < zone.count := by have := sound.described; omega
  have contains := MmZone.contains_page managed
  have inside : zone.start + ndx * platformPageSize < addressSpace :=
    Nat.lt_trans contains.2 sound.inside
  have masked : (zone.start + ndx * platformPageSize) &&& alignMask platformPageSize =
      zone.start + ndx * platformPageSize := by
    have aligned := sound.startAligned
    have rounded := alignRounddown_page inside
    rw [alignRounddown, if_neg (by decide)] at rounded
    rw [rounded]
    unfold platformPageSize at *
    omega
  simp only [mmGetPageByPaddr, ready.findZone_split contains, sound.getPageNdx_eq contains,
    MmZone.pageOf_page]
  split
  · simp [masked, sound.paddrs ndx described, kassert]
  · rfl

/-- Every answer of the lookup is an index below `pages_count`. -/
theorem getPageByPaddr_counted (ready : Ready offset zones) {p : PagePtr}
    (found : mmGetPageByPaddr zones addr = .ok (some p)) :
    ∃ zone ∈ zones, zone.address = p.zone ∧ p.ndx < zone.pagesCount := by
  simp only [mmGetPageByPaddr] at found
  split at found
  · cases found
  · next zone located =>
      obtain ⟨contains, -⟩ := ready.findZone_cases located
      have member := List.mem_of_find?_eq_some located
      rw [(ready.sound zone member).getPageNdx_eq contains] at found
      split at found
      · next counted =>
          simp only [Outcome.ok_bind, Outcome.bind_eq_ok, kassert_eq_ok, Except.ok.injEq,
            Option.some.injEq] at found
          obtain ⟨_, _, rfl⟩ := found
          exact ⟨zone, member, rfl, counted⟩
      · cases found

/-- A returnable page is taken back. -/
theorem freePage_split (ready : Ready offset (before ++ zone :: rest))
    (contains : zone.Contains addr) (returnable : zone.Returnable (zone.pageOf addr)) :
    ∃ buddym, mmFreePage (before ++ zone :: rest) addr =
        .ok (before ++ zone.release buddym (zone.pageOf addr) :: rest) ∧
      (zone.release buddym (zone.pageOf addr)).Sound ∧
      ∀ other, buddym.bit 0 other =
        (!decide (other = zone.pageOf addr) && zone.buddym.bit 0 other) := by
  have sound := ready.sound zone (by simp)
  obtain ⟨buddym, freed, released, bits⟩ := sound.release returnable
  refine ⟨buddym, ?_, released, bits⟩
  have found := ready.findZone_split contains
  have counted := sound.getPageNdx_eq contains
  rw [if_pos returnable.counted] at counted
  have used := sound.tracks.isFree returnable.managed
  rw [returnable.used] at used
  simp only [mmFreePage, Outcome.bind_eq_ok, kassert_eq_ok, deref_eq_ok, Except.ok.injEq]
  exact ⟨(), by rw [found]; rfl, zone, found, _, counted, _, used, (), rfl, (),
    returnable.occupied, buddym, freed, ready.setZone_split rfl⟩

/-- Nothing else is taken back. -/
theorem freePage_cases (ready : Ready offset zones) (freed : mmFreePage zones addr = .ok next) :
    ∃ before zone rest, zones = before ++ zone :: rest ∧ zone.Contains addr ∧
      zone.Returnable (zone.pageOf addr) := by
  simp only [mmFreePage, Outcome.bind_eq_ok, kassert_eq_ok, deref_eq_ok] at freed
  obtain ⟨_, _, zone, found, ndx, counted, isFree, checked, _, used, _, occupied, -⟩ := freed
  obtain ⟨contains, before, rest, rfl⟩ := ready.findZone_cases found
  have sound := ready.sound zone (by simp)
  have managed := sound.pageOf_lt contains
  rw [sound.getPageNdx_eq contains] at counted
  split at counted
  · next below =>
      cases counted
      rw [sound.tracks.isFree managed, used, Except.ok.injEq] at checked
      exact ⟨before, zone, rest, rfl, contains, below, managed, by simpa using checked, occupied⟩
  · cases counted

end Ready

/-- The zone after `mm_alloc_page` took a page of it. -/
def MmZone.occupy (zone : MmZone) (buddym : BuddyManager) (ndx : Nat) : MmZone :=
  ({ zone with buddym := buddym } : MmZone).setState ndx .occupied

/-- `mm_alloc_page` takes a clear page of one zone, or finds every zone full. -/
theorem mmAllocPage_cases {zones : List MmZone} (sound : ∀ zone ∈ zones, zone.Sound) :
    (∃ before zone rest ndx buddym, zones = before ++ zone :: rest ∧ ndx < zone.count ∧
      zone.buddym.bit 0 ndx = false ∧
      mmAllocPage zones =
        .ok (before ++ zone.occupy buddym ndx :: rest, some ⟨zone.address, ndx⟩) ∧
      (zone.occupy buddym ndx).Sound ∧
      ∀ other < zone.count,
        buddym.bit 0 other = (decide (other = ndx) || zone.buddym.bit 0 other)) ∨
    ((∀ zone ∈ zones, ∀ ndx < zone.count, zone.buddym.bit 0 ndx = true) ∧
      mmAllocPage zones = .ok (zones, none)) := by
  induction zones with
  | nil => exact .inr ⟨nofun, rfl⟩
  | cons zone rest inductionHypothesis =>
      have zoneSound := sound zone (by simp)
      rcases zoneSound.allocPageFrom with
        ⟨ndx, managed, clear, -, buddym, taken, takenSound, bits⟩ | ⟨full, nothing⟩
      · refine .inl ⟨[], zone, rest, ndx, buddym, rfl, managed, clear, ?_, ?_, bits⟩
        · simp [mmAllocPage, taken, MmZone.occupy]
        · exact takenSound.setState (zoneSound.usable_of_clear clear) fun stillClear => by
            simp [bits ndx managed] at stillClear
      · rcases inductionHypothesis fun other member => sound other (by simp [member]) with
          ⟨before, other, after, ndx, buddym, rfl, managed, clear, taken, rest⟩ |
            ⟨fullRest, nothingElse⟩
        · exact .inl ⟨zone :: before, other, after, ndx, buddym, rfl, managed, clear,
            by simp [mmAllocPage, nothing, taken], rest⟩
        · refine .inr ⟨fun other member => ?_, by simp [mmAllocPage, nothing, nothingElse]⟩
          rcases List.mem_cons.mp member with rfl | member
          · exact full
          · exact fullRest other member

end Yaeos
