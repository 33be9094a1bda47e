import Yaeos.Dev.Run

/-!
# Regions that hold a resource

Whether a region is free is read from the lowest byte of what it holds.  Where this byte
of the address of a resource is not zero, no call for another resource touches its region;
where it is, the next `new_region` of that length returns the region again.
-/

namespace Yaeos

/-- `kmm_cache_alloc` hands out no cell of a listed region. -/
def DevCall.Unlisted (cells : List Nat) : DevCall → Prop
  | .register cell _ _ => ∀ new, cell = some new → new ∉ cells
  | .unregister _ => True

/-- The runs of calls that return.  A cell that `free_region_for` freed may stay listed; it
is not handed out again. -/
def unlistedMachine : Machine DevArea DevCall :=
  devAreaMachine.guard fun area call =>
    ∀ cells, area.links.Listed (some area.data) cells → call.Unlisted cells

namespace DevArea

variable {area next : DevArea} {cells cells' before after extra : List Nat}
  {left r rounds res len : Nat} {cell : Option Nat} {resource : Resource} {action : DevCall}

/-- A listed region and what it holds. -/
def Holds (area : DevArea) (cells : List Nat) (r res : Nat) : Prop :=
  r ∈ cells ∧ (area.regions r).resource = res

theorem isFree_of_holds (holds : (area.regions r).resource = res)
    (marked : resourceState res ≠ regionResStateFree) : area.isFree r = false := by
  simp [isFree, holds, marked]

/-- What a call leaves of the regions of other resources. -/
structure Steps (area next : DevArea) (cells cells' : List Nat) (action : DevCall) : Prop where
  laid : next.Laid cells'
  shows : action.Marked → area.Shows cells area.translation → next.Shows cells' next.translation
  kept : ∀ res, resourceState res ≠ regionResStateFree → res ≠ action.res → ∀ r,
    area.Holds cells r res → r ∈ cells' ∧ next.regions r = area.regions r

theorem Laid.steps_same (laid : area.Laid cells) : Steps area area cells cells action :=
  ⟨laid, fun _ shown => shown, fun _ _ _ _ holding => ⟨holding.1, rfl⟩⟩

theorem Steps.holds (steps : Steps area next cells cells' action)
    (marked : resourceState res ≠ regionResStateFree) (differs : action.res ≠ res)
    (holding : area.Holds cells r res) :
    next.Holds cells' r res ∧ next.regions r = area.regions r := by
  obtain ⟨member, same⟩ := steps.kept res marked differs.symm r holding
  exact ⟨⟨member, same ▸ holding.2⟩, same⟩

theorem Registered.steps
    (registered : Registered area next cell before r extra after res resource.data)
    (laid : area.Laid (before ++ r :: after)) (rFree : area.isFree r = true) :
    Steps area next (before ++ r :: after) (before ++ r :: (extra ++ after))
      (.register cell res resource) := by
  have chosen := registered.chosen
  refine ⟨chosen.laid, fun marked shown => registered.shows laid shown rFree marked, ?_⟩
  rintro held marked - other ⟨member, holds⟩
  have notR : other ≠ r := by
    rintro rfl
    rw [isFree_of_holds holds marked] at rFree
    cases rFree
  have around := (mem_listed_iff.mp member).resolve_left notR
  exact ⟨mem_listed_iff.mpr (.inr (mem_extended around)), chosen.others other around⟩

theorem Unregistered.steps (laid : area.Laid (before ++ left :: r :: after))
    (done : Unregistered area next before left r after cells')
    (holds : (area.regions r).resource = res) :
    Steps area next (before ++ left :: r :: after) cells' (.unregister res) := by
  have coalesced := done.coalesced
  refine ⟨coalesced.laid.congr rfl rfl rfl rfl fun _ _ => ⟨rfl, rfl⟩,
    fun _ shown => (done.shows laid shown).2, ?_⟩
  rintro held marked differs other ⟨member, holding⟩
  have notR : other ≠ r := by
    rintro rfl
    exact differs (holding.symm.trans holds)
  have occupied : (area.released r).isFree other = false := by
    rw [released_isFree_of_ne notR]
    exact isFree_of_holds holding marked
  obtain ⟨listed, same⟩ := coalesced.kept other member occupied
  exact ⟨listed, same.trans (setState_of_ne notR)⟩

/-- Every call that returns. -/
theorem Laid.steps (laid : area.Laid cells) (unlisted : action.Unlisted cells)
    (called : area.call rounds action = .ok next) :
    ∃ cells', Steps area next cells cells' action := by
  cases action with
  | register cell res resource =>
      obtain ⟨⟨after, result⟩, returned, same⟩ := Outcome.bind_eq_ok.mp called
      cases same
      rcases registerResource_cases returned with ⟨-, rfl, -⟩ | ⟨-, pageVaddr, rfl⟩
      · exact ⟨cells, laid.steps_same⟩
      · obtain ⟨before, r, extra, after, rfl, found, -, registered⟩ :=
          laid.registered unlisted returned
        exact ⟨_, registered.steps laid (fits_iff.mp (List.find?_some found)).1⟩
  | unregister res =>
      obtain ⟨before, left, r, after, cells', rfl, -, holds, done⟩ := laid.of_unregister called
      exact ⟨cells', done.steps laid holds⟩

theorem unlisted_steps (laid : area.Laid cells) (stepped : unlistedMachine.step area action next) :
    ∃ cells', Steps area next cells cells' action := by
  obtain ⟨unlisted, -, rounds, -, called⟩ := stepped
  exact laid.steps (unlisted cells laid.listed) called

theorem laid_of_reachable (reached : unlistedMachine.Reachable area) :
    ∃ cells, area.Laid cells := by
  induction reached with
  | initial start =>
      obtain ⟨cells, ok⟩ := ok_of_initial start
      exact ⟨cells, ok.tiled.toLaid⟩
  | step _ stepped inductionHypothesis =>
      obtain ⟨cells, laid⟩ := inductionHypothesis
      obtain ⟨cells', steps⟩ := unlisted_steps laid stepped
      exact ⟨cells', steps.laid⟩

/-- The region of a resource is passed over: `new_region` does not return it, and it is
listed as it was when another resource has been unregistered. -/
structure Bound (area : DevArea) (r : Nat) (region : Region) : Prop where
  listed : ∃ cells, area.links.Listed (some area.data) cells ∧ r ∈ cells
  same : area.regions r = region
  occupied : area.isFree r = false
  notReturned : ∀ rounds cell len next, newRegion rounds area cell len ≠ .ok (next, some r)
  notMerged : ∀ rounds other, other ≠ region.resource → ∀ next regionBase regionLen,
    freeRegionFor rounds area other = .ok (next, regionBase, regionLen) →
    next.regions r = region ∧ ∃ cells, next.links.Listed (some next.data) cells ∧ r ∈ cells

theorem Laid.bound (laid : area.Laid cells) (holding : area.Holds cells r res)
    (marked : resourceState res ≠ regionResStateFree) : area.Bound r (area.regions r) := by
  obtain ⟨member, holds⟩ := holding
  have occupied := isFree_of_holds holds marked
  refine ⟨⟨cells, laid.listed, member⟩, rfl, occupied, fun rounds cell len next found => ?_,
    fun rounds other differs next regionBase regionLen freed => ?_⟩
  · have free := (fits_iff.mp (List.find?_some (laid.of_newRegion found))).1
    exact absurd (free.symm.trans occupied) (by decide)
  · obtain ⟨before, left, holder, after, cells', rfl, -, isOther, -, coalesced⟩ :=
      laid.of_freeRegionFor freed
    have notHolder : r ≠ holder := by
      rintro rfl
      exact differs isOther.symm
    obtain ⟨listed, same⟩ := coalesced.kept r member
      ((released_isFree_of_ne notHolder).trans occupied)
    exact ⟨same.trans (setState_of_ne notHolder), cells', coalesced.laid.listed, listed⟩

/-- A region that looks free is returned once more. -/
theorem Registered.returned_again
    (registered : Registered area next cell before r extra after res resource.data)
    (found : (before ++ r :: after).find?
      (area.fits (devBufferPages resource.data * platformPageSize)) = some r)
    (laid : area.Laid (before ++ r :: after)) (unmarked : resourceState res = regionResStateFree) :
    ∃ rounds again, newRegion rounds next none (devBufferPages resource.data * platformPageSize) =
      .ok (again, some r) := by
  have chosen := registered.chosen
  have fit : next.fits (devBufferPages resource.data * platformPageSize) r = true := by
    rw [fits_iff, chosen.length]
    exact ⟨by simp [isFree, registered.holds, unmarked], Nat.le_refl _⟩
  have passedOver : ∀ other ∈ before,
      ¬area.fits (devBufferPages resource.data * platformPageSize) other := by
    refine List.find?_eq_none.mp ?_
    by_contra some_fits
    obtain ⟨other, isOther⟩ := Option.ne_none_iff_exists'.mp some_fits
    rw [List.find?_append, isOther, Option.some_or] at found
    cases found
    exact ne_of_listed laid.nodup r (List.mem_append_left _ (List.mem_of_find?_eq_some isOther)) rfl
  have foundAgain : (before ++ r :: (extra ++ after)).find?
      (next.fits (devBufferPages resource.data * platformPageSize)) = some r := by
    refine List.find?_eq_some_iff_append.mpr
      ⟨fit, before, extra ++ after, rfl, fun other member => ?_⟩
    have same : next.fits (devBufferPages resource.data * platformPageSize) other =
        area.fits (devBufferPages resource.data * platformPageSize) other := by
      rw [fits, isFree, chosen.others other (List.mem_append_left _ member), fits, isFree]
    rw [same]
    simpa using passedOver other member
  have searched := chosen.laid.newRegion_eq (Nat.le_refl _) none
    (devBufferPages resource.data * platformPageSize)
  rw [foundAgain] at searched
  dsimp only at searched
  rw [takeRegion_whole (by rw [chosen.length]; exact Nat.lt_irrefl _)] at searched
  exact ⟨_, _, searched⟩

/-- A region that holds a resource as another state had it. -/
def HoldsAs (area : DevArea) (r res : Nat) (region : Region) : Prop :=
  ∃ cells, area.Laid cells ∧ area.Holds cells r res ∧ area.regions r = region

theorem HoldsAs.step {region : Region} (marked : resourceState res ≠ regionResStateFree)
    (differs : action.res ≠ res) (held : area.HoldsAs r res region)
    (stepped : unlistedMachine.step area action next) : next.HoldsAs r res region := by
  obtain ⟨cells, laid, holding, same⟩ := held
  obtain ⟨cells', steps⟩ := unlisted_steps laid stepped
  obtain ⟨stillHolding, sameRegion⟩ := steps.holds marked differs holding
  exact ⟨cells', steps.laid, stillHolding, sameRegion.trans same⟩

/-- In every run a region stays bound to its resource if and only if the lowest byte of the
address of the resource is not zero. -/
theorem bound_iff {mid : DevArea} {pageVaddr : Nat} (reached : unlistedMachine.Reachable area)
    (unlisted : ∀ cells, area.links.Listed (some area.data) cells →
      (DevCall.register cell res resource).Unlisted cells)
    (found : newRegion rounds area cell (devBufferPages resource.data * platformPageSize) =
      .ok (mid, some r))
    (returned : registerResource rounds cell area res resource = .ok (next, some pageVaddr)) :
    (∀ calls final, unlistedMachine.Trace next calls final → (∀ call ∈ calls, call.res ≠ res) →
      final.Bound r (next.regions r)) ↔ resourceState res ≠ regionResStateFree := by
  obtain ⟨cells, laid⟩ := laid_of_reachable reached
  obtain ⟨before, holder, extra, after, rfl, first, -, registered⟩ :=
    laid.registered (unlisted cells laid.listed) returned
  have isHolder := laid.of_newRegion found
  rw [first] at isHolder
  cases isHolder
  have chosen := registered.chosen
  constructor
  · intro stays unmarked
    obtain ⟨rounds, again, taken⟩ := registered.returned_again first laid unmarked
    exact (stays [] next .nil nofun).notReturned rounds none _ again taken
  · intro marked calls final trace others
    have kept : final.HoldsAs r res (next.regions r) :=
      trace.invariant (fun _ _ _ => HoldsAs.step marked) others
        ⟨_, chosen.laid, ⟨by simp, registered.holds⟩, rfl⟩
    obtain ⟨cells, laidNow, holding, same⟩ := kept
    exact same ▸ laidNow.bound holding marked

theorem kdevStart_unlisted (res : Nat) :
    ∀ cells, kdevStart.links.Listed (some kdevStart.data) cells →
      (DevCall.register (some 2) res videoBuffer).Unlisted cells := by
  rintro cells listed _ ⟨⟩
  rw [listed.unique kdevStart_listed]
  decide

theorem kdevStart_newRegion : ∃ mid,
    newRegion 8 kdevStart (some 2) (devBufferPages videoBuffer.data * platformPageSize) =
      .ok (mid, some 1) := by
  have shown : (newRegion 8 kdevStart (some 2)
      (devBufferPages videoBuffer.data * platformPageSize)).map Prod.snd = .ok (some 1) := by
    decide +kernel
  obtain ⟨⟨mid, r⟩, found, rfl⟩ := Outcome.map_eq_ok shown
  exact ⟨mid, found⟩

theorem kdevStart_registerResource (res : Nat) : ∃ next,
    registerResource 8 (some 2) kdevStart res videoBuffer = .ok (next, some 0xC1000000) := by
  obtain ⟨cells, ok⟩ := ok_of_initial kdevStart_initial
  rw [ok.tiled.listed.unique kdevStart_listed] at ok
  have unlisted : ∀ new, some 2 = some new → new ∉ [kdevStart.data] := by
    rintro _ ⟨⟩
    decide
  have enough : [kdevStart.data].length ≤ 8 := by decide
  have found : [kdevStart.data].find?
      (kdevStart.fits (devBufferPages videoBuffer.data * platformPageSize)) = some 1 := by decide
  exact ok.tiled.toLaid.register_returns enough rfl unlisted found (.inr nofun) fun _ _ _ => rfl

theorem videoBuffer_bound : ∃ mid next pageVaddr,
    newRegion 8 kdevStart (some 2) (devBufferPages videoBuffer.data * platformPageSize) =
        .ok (mid, some 1) ∧
      registerResource 8 (some 2) kdevStart 0xC0105004 videoBuffer = .ok (next, some pageVaddr) ∧
      ((∀ calls final, unlistedMachine.Trace next calls final →
          (∀ call ∈ calls, call.res ≠ 0xC0105004) → final.Bound 1 (next.regions 1)) ↔
        resourceState 0xC0105004 ≠ regionResStateFree) := by
  obtain ⟨mid, found⟩ := kdevStart_newRegion
  obtain ⟨next, returned⟩ := kdevStart_registerResource 0xC0105004
  exact ⟨mid, next, _, found, returned,
    bound_iff (.initial kdevStart_initial) (kdevStart_unlisted 0xC0105004) found returned⟩

/-- The address of the resource ends in two zeroes, and its region is returned for the next
buffer of the same length. -/
theorem alignedBuffer_not_bound : ∃ next pageVaddr,
    registerResource 8 (some 2) kdevStart 0xC0105200 videoBuffer = .ok (next, some pageVaddr) ∧
      ¬∀ calls final, unlistedMachine.Trace next calls final →
        (∀ call ∈ calls, call.res ≠ 0xC0105200) → final.Bound 1 (next.regions 1) := by
  obtain ⟨next, returned⟩ := kdevStart_registerResource 0xC0105200
  have again : (registerResource 8 (some 2) kdevStart 0xC0105200 videoBuffer >>= fun result =>
      (newRegion 8 result.1 none 0x8000).map Prod.snd) = .ok (some 1) := by decide +kernel
  rw [returned, Outcome.ok_bind] at again
  obtain ⟨⟨taken, r⟩, found, rfl⟩ := Outcome.map_eq_ok again
  exact ⟨next, _, returned, fun stays =>
    (stays [] next .nil nofun).notReturned 8 none 0x8000 taken found⟩

end DevArea

end Yaeos
