import Yaeos.Dev.Regions

/-!
# Registering resources

A call of `register_resource` that returns an address has taken a free region, cut
off what it does not need and mapped the rest: `DevArea.Registered`.  It returns where
the first region that fits exists and its cell can be allocated.
-/

namespace Yaeos

namespace DevArea

variable {area next : DevArea} {cells before after extra : List Nat} {r len rounds res : Nat}
  {cell : Option Nat} {resource : Resource}

/-- `new_region` takes the first region that is free and long enough. -/
theorem Laid.newRegion_eq (laid : area.Laid cells) (enough : cells.length ≤ rounds)
    (cell : Option Nat) (len : Nat) :
    newRegion rounds area cell len =
      match cells.find? (area.fits len) with
      | none => .ok (area, none)
      | some r => .ok (takeRegion area cell len r) := by
  cases found : cells.find? (area.fits len) with
  | none =>
      have failed : ∀ member ∈ cells, area.fits len member = false := by
        simpa using List.find?_eq_none.mp found
      rw [newRegion, laid.listed.forEachUntil_none enough none failed]
      rfl
  | some r =>
      obtain ⟨passed, before, after, rfl, failed⟩ := List.find?_eq_some_iff_append.mp found
      rw [newRegion, laid.listed.forEachUntil_some enough none (by simpa using failed) passed]
      rfl

theorem fits_iff : area.fits len r = true ↔
    area.isFree r = true ∧ len ≤ (area.regions r).length := by
  simp [fits]

/-- The region that `new_region` returns is the first one that fits. -/
theorem Laid.of_newRegion (laid : area.Laid cells)
    (found : newRegion rounds area cell len = .ok (next, some r)) :
    cells.find? (area.fits len) = some r := by
  obtain ⟨hit, looked, taken⟩ := Outcome.bind_eq_ok.mp found
  rcases hit with _ | ⟨last, other⟩
  · cases taken
  · obtain ⟨before, after, rfl, failed, fit, -⟩ := laid.listed.of_forEachUntil looked
    have same : other = r := by
      have result := congrArg Prod.snd (Except.ok.inj taken)
      dsimp only at result
      unfold takeRegion at result
      split at result
      · cases cell with
        | none => cases result
        | some new => exact Option.some.inj result
      · exact Option.some.inj result
    rw [← same]
    exact List.find?_eq_some_iff_append.mpr ⟨fit, before, after, rfl, by simpa using failed⟩

/-- What `new_region` leaves: the region it returns has the length that was asked for,
and what is left of it is a free region behind it. -/
structure Chosen (area next : DevArea) (cell : Option Nat) (before : List Nat) (r : Nat)
    (extra after : List Nat) (len : Nat) : Prop where
  laid : next.Laid (before ++ r :: (extra ++ after))
  pageVaddr : (next.regions r).pageVaddr = (area.regions r).pageVaddr
  length : (next.regions r).length = len
  others : ∀ other ∈ before ++ after, next.regions other = area.regions other
  rest : (extra = [] ∧ len = (area.regions r).length) ∨
    ∃ new, extra = [new] ∧ cell = some new ∧ len < (area.regions r).length ∧
      (next.regions new).pageVaddr = (area.regions r).pageVaddr + len ∧
      (next.regions new).length = (area.regions r).length - len ∧ next.isFree new = true
  live : next.live = extra ++ area.live

theorem Chosen.extra_free (chosen : Chosen area next cell before r extra after len) :
    ∀ new ∈ extra, 0 < (next.regions new).length ∧ next.isFree new = true := by
  intro new member
  rcases chosen.rest with ⟨rfl, -⟩ | ⟨only, rfl, -, shorter, -, length, free⟩
  · cases member
  · cases List.mem_singleton.mp member
    exact ⟨by rw [length]; exact Nat.sub_pos_of_lt shorter, free⟩

theorem Laid.chosen {found : Nat} (laid : area.Laid (before ++ r :: after))
    (fit : area.fits len r = true) (whole : platformPageSize ∣ len)
    (fresh : ∀ new, cell = some new → new ∉ before ++ r :: after)
    (taken : takeRegion area cell len r = (next, some found)) :
    found = r ∧ next.translation = area.translation ∧
      ∃ extra, Chosen area next cell before r extra after len := by
  obtain ⟨-, long⟩ := fits_iff.mp fit
  have notR := ne_of_listed laid.nodup
  by_cases longer : (area.regions r).length > len
  · cases cell with
    | none =>
        have nothing : takeRegion area none len r = (area, none) := if_pos longer
        rw [nothing] at taken
        cases taken
    | some new =>
        have unlisted := fresh new rfl
        have apart : new ≠ r := fun same => unlisted (by simp [same])
        have bounded := (laid.tiles.bounds.2 r (by simp)).2
        have inside := laid.inside
        have below : (area.regions r).pageVaddr + len < addressSpace := by omega
        rw [takeRegion_split apart longer] at taken
        cases taken
        refine ⟨rfl, rfl, [new], laid.split unlisted long whole below, ?_, ?_,
          fun other member => ?_,
          .inr ⟨new, rfl, rfl, longer, ?_, ?_, isFree_split_new apart⟩, rfl⟩
        · rw [split_self]
        · rw [split_self]
        · refine split_of_ne (notR other member) fun same => unlisted ?_
          rw [← same]
          exact mem_listed_iff.mpr (.inr member)
        · rw [split_new apart, wrap_of_lt below]
        · rw [split_new apart]
  · have exact : len = (area.regions r).length := Nat.le_antisymm long (Nat.le_of_not_lt longer)
    rw [takeRegion_whole longer] at taken
    cases taken
    exact ⟨rfl, rfl, [], laid.setState r _, setState_pageVaddr ..,
      (setState_length ..).trans exact.symm, fun other member => setState_of_ne (notR other member), .inl ⟨rfl, exact⟩, rfl⟩

/-- The word of the region and the translation are free to change. -/
theorem Chosen.congr {final : DevArea} (chosen : Chosen area next cell before r extra after len)
    (base : final.base = next.base) (length : final.length = next.length)
    (data : final.data = next.data) (links : final.links = next.links)
    (live : final.live = next.live) (atR : (final.regions r).pageVaddr = (next.regions r).pageVaddr ∧
      (final.regions r).length = (next.regions r).length)
    (others : ∀ other ≠ r, final.regions other = next.regions other) :
    Chosen area final cell before r extra after len := by
  have apart := ne_of_listed chosen.laid.nodup
  refine ⟨chosen.laid.congr base length data links fun other _ => ?_,
    atR.1.trans chosen.pageVaddr, atR.2.trans chosen.length, fun other member => ?_, ?_,
    live.trans chosen.live⟩
  · by_cases isR : other = r
    · rw [isR]
      exact atR
    · rw [others other isR]
      exact ⟨rfl, rfl⟩
  · exact (others other (apart other (mem_extended member))).trans (chosen.others other member)
  · rcases chosen.rest with whole | ⟨new, rfl, supplied, shorter, page, length, free⟩
    · exact .inl whole
    · have same := others new (apart new (by simp))
      exact .inr ⟨new, rfl, supplied, shorter, by rw [same, page], by rw [same, length],
        by rw [isFree, same]; exact free⟩

/-- What `register_resource` leaves. -/
structure Registered (area next : DevArea) (cell : Option Nat) (before : List Nat) (r : Nat)
    (extra after : List Nat) (res : Nat) (buffer : ResourceData) : Prop where
  chosen : Chosen area next cell before r extra after (devBufferPages buffer * platformPageSize)
  holds : (next.regions r).resource = res
  mapped : ∀ first, (area.regions r).pageVaddr = first * platformPageSize →
    ChangedIn area.translation next.translation first (devBufferPages buffer)
      (FrameOf (alignRounddown buffer.base platformPageSize) first)
  unmapped : ∀ first, (area.regions r).pageVaddr = first * platformPageSize → ∀ page, first ≤ page →
    page < first + devBufferPages buffer → area.translation page = none

/-- A resource of another type is left alone, and for a buffer an address is returned. -/
theorem registerResource_cases {result : Option Nat}
    (returned : registerResource rounds cell area res resource = .ok (next, result)) :
    (resource.type ≠ .devBuffer ∧ next = area ∧ result = none) ∨
      resource.type = .devBuffer ∧ ∃ pageVaddr, result = some pageVaddr := by
  by_cases wrong : resource.type ≠ .devBuffer
  · rw [registerResource, if_pos wrong] at returned
    cases returned
    exact .inl ⟨wrong, rfl, rfl⟩
  · rw [registerResource, if_neg wrong] at returned
    obtain ⟨⟨mid, new⟩, -, returned⟩ := Outcome.bind_eq_ok.mp returned
    obtain ⟨found, -, returned⟩ := Outcome.bind_eq_ok.mp returned
    obtain ⟨translation, -, result⟩ := Outcome.bind_eq_ok.mp returned
    cases result
    exact .inr ⟨not_not.mp wrong, _, rfl⟩

/-- The number of pages that fit into a region. -/
theorem Laid.fewer (laid : area.Laid cells) (member : r ∈ cells) {pages : Nat}
    (long : pages * platformPageSize ≤ (area.regions r).length) {first : Nat}
    (atFirst : (area.regions r).pageVaddr = first * platformPageSize) :
    (first + pages) * platformPageSize ≤ addressSpace := by
  have bounded := (laid.tiles.bounds.2 r member).2
  have inside := laid.inside
  rw [Nat.add_mul, ← atFirst]
  omega

/-- A call that returned an address. -/
theorem Laid.registered {pageVaddr : Nat} (laid : area.Laid cells)
    (fresh : ∀ new, cell = some new → new ∉ cells)
    (returned : registerResource rounds cell area res resource = .ok (next, some pageVaddr)) :
    ∃ before r extra after, cells = before ++ r :: after ∧
      cells.find? (area.fits (devBufferPages resource.data * platformPageSize)) = some r ∧
      pageVaddr = (area.regions r).pageVaddr ∧
      Registered area next cell before r extra after res resource.data := by
  have buffer : ¬resource.type ≠ .devBuffer := by
    rcases registerResource_cases returned with ⟨-, -, nothing⟩ | ⟨buffer, -⟩
    · cases nothing
    · exact not_not.mpr buffer
  rw [registerResource, if_neg buffer] at returned
  obtain ⟨⟨mid, new⟩, searched, returned⟩ := Outcome.bind_eq_ok.mp returned
  obtain ⟨found, isFound, returned⟩ := Outcome.bind_eq_ok.mp returned
  obtain ⟨translation, looped, result⟩ := Outcome.bind_eq_ok.mp returned
  cases deref_eq_ok.mp isFound
  cases result
  obtain ⟨hit, looked, searched⟩ := Outcome.bind_eq_ok.mp searched
  rcases hit with _ | ⟨last, r⟩
  · cases searched
  · obtain ⟨before, after, rfl, failed, fit, -⟩ := laid.listed.of_forEachUntil looked
    have member : r ∈ before ++ r :: after := by simp
    have first : (before ++ r :: after).find?
        (area.fits (devBufferPages resource.data * platformPageSize)) = some r :=
      List.find?_eq_some_iff_append.mpr ⟨fit, before, after, rfl, by simpa using failed⟩
    obtain ⟨rfl, sameTranslation, extra, chosen⟩ :=
      laid.chosen fit (Nat.dvd_mul_left ..) fresh (Except.ok.inj searched)
    have samePage : ((mid.setRegion found { mid.regions found with resource := res }).regions
        found).pageVaddr = (area.regions found).pageVaddr := by
      rw [setRegion]
      dsimp only
      rw [Function.update_self]
      exact chosen.pageVaddr
    have long := (fits_iff.mp fit).2
    have loops : ∀ first, (area.regions found).pageVaddr = first * platformPageSize →
        ChangedIn area.translation translation first (devBufferPages resource.data)
            (FrameOf (alignRounddown resource.data.base platformPageSize) first) ∧
          ∀ page, first ≤ page → page < first + devBufferPages resource.data →
            area.translation page = none := by
      intro first atFirst
      have sameStart :
          (mid.setRegion found { mid.regions found with resource := res }).translation =
            area.translation := sameTranslation
      rw [samePage, sameStart] at looped
      rcases Nat.eq_zero_or_pos (devBufferPages resource.data) with none_needed | positive
      · rw [none_needed] at looped ⊢
        cases looped
        exact ⟨changedIn_zero, fun page low high => by omega⟩
      · have below : (area.regions found).pageVaddr < addressSpace := by
          have bounded := (laid.tiles.bounds.2 found member).2
          have inside := laid.inside
          have some_there : 0 < devBufferPages resource.data * platformPageSize :=
            Nat.mul_pos positive (by decide)
          omega
        rw [alignRounddown_page below, atFirst, Nat.mul_div_cancel _ (by decide)] at looped
        exact mapPages_of_ok (laid.fewer member long atFirst) looped
    refine ⟨before, found, extra, after, rfl, first, samePage,
      chosen.congr rfl rfl rfl rfl rfl ⟨?_, ?_⟩ fun other differs => Function.update_of_ne differs .., ?_, fun first atFirst =>
        (loops first atFirst).1, fun first atFirst => (loops first atFirst).2⟩
    · simp [setRegion]
    · simp [setRegion]
    · simp [setRegion]

theorem exists_takeRegion (supplied : (area.regions r).length = len ∨ cell ≠ none) :
    ∃ mid, takeRegion area cell len r = (mid, some r) := by
  by_cases longer : (area.regions r).length > len
  · obtain ⟨new, rfl⟩ := Option.ne_none_iff_exists'.mp
      (supplied.resolve_left (Nat.ne_of_gt longer))
    exact ⟨_, if_pos longer⟩
  · exact ⟨_, takeRegion_whole longer⟩

/-- A buffer is registered where it fits. -/
theorem Laid.register_returns (laid : area.Laid cells) (enough : cells.length ≤ rounds)
    (buffer : resource.type = .devBuffer) (fresh : ∀ new, cell = some new → new ∉ cells)
    (found : cells.find? (area.fits (devBufferPages resource.data * platformPageSize)) = some r)
    (supplied : (area.regions r).length = devBufferPages resource.data * platformPageSize ∨
      cell ≠ none)
    (unmapped : ∀ page, (area.regions r).pageVaddr ≤ page * platformPageSize →
      page * platformPageSize < (area.regions r).pageVaddr + (area.regions r).length →
      area.translation page = none) :
    ∃ next, registerResource rounds cell area res resource =
      .ok (next, some (area.regions r).pageVaddr) := by
  have searched := laid.newRegion_eq enough cell (devBufferPages resource.data * platformPageSize)
  rw [found] at searched
  obtain ⟨fit, before, after, rfl, -⟩ := List.find?_eq_some_iff_append.mp found
  have member : r ∈ before ++ r :: after := by simp
  have long := (fits_iff.mp fit).2
  obtain ⟨mid, taken⟩ := exists_takeRegion supplied
  obtain ⟨-, sameTranslation, extra, chosen⟩ := laid.chosen fit (Nat.dvd_mul_left ..) fresh taken
  have samePage : ((mid.setRegion r { mid.regions r with resource := res }).regions r).pageVaddr =
      (area.regions r).pageVaddr := by
    rw [setRegion]
    dsimp only
    rw [Function.update_self]
    exact chosen.pageVaddr
  obtain ⟨first, pages, atFirst, ofPages, -⟩ := laid.pages member
  have looped : ∃ translation, (List.range (devBufferPages resource.data)).foldlM
      (fun translation i => ptMap translation
        (wrap (alignRounddown resource.data.base platformPageSize + i * platformPageSize))
        (wrap (alignRounddown (area.regions r).pageVaddr platformPageSize + i * platformPageSize)))
      area.translation = .ok translation := by
    rcases Nat.eq_zero_or_pos (devBufferPages resource.data) with none_needed | positive
    · rw [none_needed]
      exact ⟨area.translation, rfl⟩
    · have below : (area.regions r).pageVaddr < addressSpace := by
        have bounded := (laid.tiles.bounds.2 r member).2
        have inside := laid.inside
        have some_there : 0 < devBufferPages resource.data * platformPageSize :=
          Nat.mul_pos positive (by decide)
        omega
      rw [alignRounddown_page below, atFirst, Nat.mul_div_cancel _ (by decide)]
      obtain ⟨translation, returned, -⟩ := mapPages
        (alignRounddown resource.data.base platformPageSize) (laid.fewer member long atFirst)
        fun page low high => unmapped page (by rw [atFirst]; exact Nat.mul_le_mul_right _ low) (by
          rw [atFirst]
          refine Nat.lt_of_lt_of_le (Nat.mul_lt_mul_of_pos_right high (by decide)) ?_
          rw [Nat.add_mul]
          exact Nat.add_le_add_left long _)
      exact ⟨translation, returned⟩
  obtain ⟨translation, looped⟩ := looped
  have sameStart : (mid.setRegion r { mid.regions r with resource := res }).translation =
      area.translation := sameTranslation
  refine ⟨{ mid.setRegion r { mid.regions r with resource := res } with
    translation := translation }, ?_⟩
  rw [registerResource, if_neg (not_not.mpr buffer)]
  dsimp only
  rw [searched, Outcome.ok_bind, taken]
  dsimp only
  rw [deref_some, Outcome.ok_bind, samePage, sameStart, looped, Outcome.ok_bind]

/-- Without a region to return, the result of `new_region` is followed all the same. -/
theorem register_noRegion (buffer : resource.type = .devBuffer)
    (searched : newRegion rounds area cell (devBufferPages resource.data * platformPageSize) =
      .ok (area, none)) :
    registerResource rounds cell area res resource = .error .nullDeref := by
  rw [registerResource, if_neg (by simp [buffer])]
  dsimp only
  rw [searched, Outcome.ok_bind]
  rfl

section Registered

variable (registered : Registered area next cell before r extra after res resource.data)
include registered

theorem Registered.places : ∀ other ∈ before ++ r :: (extra ++ after),
    other = r ∨ other ∈ extra ∨
      other ∈ before ++ after ∧ next.regions other = area.regions other := by
  intro other member
  by_cases old : other ∈ before ++ after
  · exact .inr (.inr ⟨old, registered.chosen.others other old⟩)
  · simp only [List.mem_append, List.mem_cons] at member old ⊢
    tauto

/-- What is left of the old region is not mapped, and the others are as they were. -/
theorem Registered.shows_others (laid : area.Laid (before ++ r :: after))
    (shown : area.Shows (before ++ r :: after) area.translation) (rFree : area.isFree r = true) :
    next.Shows (before ++ (extra ++ after)) next.translation := by
  have listed : r ∈ before ++ r :: after := by simp
  obtain ⟨first, pages, atFirst, ofPages, -⟩ := laid.pages listed
  have changed := registered.mapped first atFirst
  have chosen := registered.chosen
  have notR := ne_of_listed chosen.laid.nodup
  intro other member page low high
  rcases registered.places other (mem_listed_iff.mpr (.inr member)) with
    isR | inExtra | ⟨inOld, same⟩
  · exact absurd isR (notR other member)
  · rcases chosen.rest with ⟨rfl, -⟩ | ⟨new, rfl, -, shorter, newPage, newLength, newFree⟩
    · cases inExtra
    · cases List.mem_singleton.mp inExtra
      rw [newPage, atFirst] at low high
      rw [newLength, ofPages] at high
      rw [ofPages] at shorter
      have outside : next.translation page = area.translation page := by
        apply changed.outside
        unfold platformPageSize at low
        omega
      have inRegion := shown r listed page
      rw [rFree, atFirst, ofPages] at inRegion
      rw [newFree, outside]
      exact inRegion (by omega) (by omega)
  · rw [same] at low high
    have long : devBufferPages resource.data ≤ pages := by
      have shorter :
          devBufferPages resource.data * platformPageSize ≤ pages * platformPageSize := by
        rcases chosen.rest with ⟨-, exact⟩ | ⟨new, -, -, shorter, -⟩
        · rw [← ofPages, exact]
        · rw [← ofPages]
          exact Nat.le_of_lt shorter
      exact Nat.le_of_mul_le_mul_right shorter (by decide)
    rw [isFree, same, laid.outside atFirst ofPages long changed inOld low high]
    exact shown other (mem_listed_iff.mpr (.inr inOld)) page low high

/-- The pages of the new region are mapped. -/
theorem Registered.shows (laid : area.Laid (before ++ r :: after))
    (shown : area.Shows (before ++ r :: after) area.translation)
    (rFree : area.isFree r = true) (marked : resourceState res ≠ regionResStateFree) :
    next.Shows (before ++ r :: (extra ++ after)) next.translation := by
  have others := registered.shows_others laid shown rFree
  have chosen := registered.chosen
  obtain ⟨first, -, atFirst, -⟩ := laid.pages (r := r) (by simp)
  have rOccupied : next.isFree r = false := by simp [isFree, registered.holds, marked]
  intro other member page low high
  by_cases isR : other = r
  · rw [isR] at low high ⊢
    rw [chosen.pageVaddr, atFirst] at low high
    rw [chosen.length] at high
    have framed := (registered.mapped first atFirst).inside page
      (by unfold platformPageSize at low; omega) (by unfold platformPageSize at high; omega)
    rw [framed, rOccupied]
    rfl
  · exact others other ((mem_listed_iff.mp member).resolve_left isR) page low high

end Registered

/-- A free entry that becomes occupied, whole or in part. -/
theorem separated_take {before after : List Bool}
    (separated : (before ++ true :: after).IsChain fun left right => (left && right) = false) :
    (before ++ false :: true :: after).IsChain (fun left right => (left && right) = false) ∧
      (before ++ false :: after).IsChain fun left right => (left && right) = false := by
  simp only [List.isChain_append, List.isChain_cons] at separated ⊢
  simp only [List.head?_cons, Option.mem_def, Option.some.injEq, forall_eq', Bool.and_true,
    Bool.true_and, Bool.false_and, Bool.and_false] at separated ⊢
  tauto

/-- The regions of an area in order are in order behind a register. -/
theorem Ok.registered (ok : area.Ok (before ++ r :: after))
    (registered : Registered area next cell before r extra after res resource.data)
    (positive : 0 < devBufferPages resource.data) (marked : resourceState res ≠ regionResStateFree)
    (fresh : ∀ new, cell = some new → new ∉ area.live) (rFree : area.isFree r = true) :
    next.Ok (before ++ r :: (extra ++ after)) := by
  have chosen := registered.chosen
  have rOccupied : next.isFree r = false := by simp [isFree, registered.holds, marked]
  have same : ∀ other ∈ before ++ after, next.isFree other = area.isFree other := by
    intro other member
    rw [isFree, chosen.others other member]
    rfl
  have old : ∀ other ∈ before ++ after, other ∈ before ++ r :: after := fun other member =>
    mem_listed_iff.mpr (.inr member)
  have extraFresh : ∀ new ∈ extra, new ∉ area.live := by
    rcases chosen.rest with ⟨rfl, -⟩ | ⟨new, rfl, supplied, -⟩
    · exact List.forall_mem_nil _
    · exact List.forall_mem_singleton.mpr (fresh new supplied)
  refine ⟨⟨chosen.laid, fun other member => ?_, fun other member => ?_, ?_⟩, ?_,
    registered.shows ok.tiled.toLaid ok.mapped rFree marked⟩
  · rcases registered.places other member with rfl | inExtra | ⟨inOld, sameRegion⟩
    · rw [chosen.length]
      exact Nat.mul_pos positive (by decide)
    · exact (chosen.extra_free other inExtra).1
    · rw [sameRegion]
      exact ok.tiled.positive other (old other inOld)
  · rw [chosen.live]
    rcases registered.places other member with rfl | inExtra | ⟨inOld, -⟩
    · exact List.mem_append_right _ (ok.tiled.live other (by simp))
    · exact List.mem_append_left _ inExtra
    · exact List.mem_append_right _ (ok.tiled.live other (old other inOld))
  · rw [chosen.live]
    rcases chosen.rest with ⟨rfl, -⟩ | ⟨new, rfl, -⟩
    · exact ok.tiled.liveNodup
    · exact List.nodup_cons.mpr ⟨extraFresh new (by simp), ok.tiled.liveNodup⟩
  · -- The rest of the region is free, and what comes behind it is not.
    have separated := ok.separated
    unfold Separated at separated ⊢
    rw [List.map_append, List.map_cons, rFree] at separated
    obtain ⟨cut, whole⟩ := separated_take separated
    rw [List.map_append, List.map_cons, List.map_append, rOccupied,
      List.map_congr_left fun other member => same other (List.mem_append_left _ member),
      List.map_congr_left fun other member => same other (List.mem_append_right _ member)]
    rcases chosen.rest with ⟨rfl, -⟩ | ⟨new, rfl, -, -, -, -, newFree⟩
    · exact whole
    · simpa [newFree] using cut

/-- Registering a resource where it fits. -/
theorem Ok.register (ok : area.Ok cells) (enough : cells.length ≤ rounds)
    (buffer : resource.type = .devBuffer) (positive : 0 < devBufferPages resource.data)
    (marked : resourceState res ≠ regionResStateFree)
    (fresh : ∀ new, cell = some new → new ∉ area.live)
    (found : cells.find? (area.fits (devBufferPages resource.data * platformPageSize)) = some r)
    (supplied : (area.regions r).length = devBufferPages resource.data * platformPageSize ∨
      cell ≠ none) :
    ∃ next cells', registerResource rounds cell area res resource =
        .ok (next, some (area.regions r).pageVaddr) ∧ next.Ok cells' := by
  have unlisted : ∀ new, cell = some new → new ∉ cells := fun new same member =>
    fresh new same (ok.tiled.live new member)
  have rListed := List.mem_of_find?_eq_some found
  have rFree := (fits_iff.mp (List.find?_some found)).1
  have unmapped : ∀ page, (area.regions r).pageVaddr ≤ page * platformPageSize →
      page * platformPageSize < (area.regions r).pageVaddr + (area.regions r).length →
      area.translation page = none := by
    intro page low high
    have shown := ok.mapped r rListed page low high
    rw [rFree] at shown
    exact Option.not_isSome_iff_eq_none.mp (by simp [shown])
  obtain ⟨next, returned⟩ : ∃ next, registerResource rounds cell area res resource =
      .ok (next, some (area.regions r).pageVaddr) :=
    ok.tiled.register_returns enough buffer unlisted found supplied unmapped
  obtain ⟨before, holder, extra, after, rfl, fit, -, registered⟩ :=
    ok.tiled.registered unlisted returned
  exact ⟨next, _, returned,
    ok.registered registered positive marked fresh (fits_iff.mp (List.find?_some fit)).1⟩

end DevArea

end Yaeos
