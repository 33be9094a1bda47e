import Yaeos.Dev.Bound

/-!
# What is mapped and unmapped

The pages that `register_resource` maps are unmapped by `unregister_resource`, whatever
happens in between, unless the region before the one of the resource is free: then this one
is taken for mapped as well.  A first region is never unmapped.
-/

namespace Yaeos

/-- The runs of calls for resources that are not taken for free regions. -/
def markedMachine : Machine DevArea DevCall := unlistedMachine.guard fun _ call => call.Marked

/-- The pages that are mapped or unmapped between two states. -/
def Changed (translation next : Translation) (page : Nat) : Prop :=
  next page ≠ translation page

/-- A page that is mapped throughout a range was changed there. -/
theorem ChangedIn.changed_iff {translation next : Translation} {first pages page : Nat}
    {Holds : Nat → Option Nat → Prop} (changed : ChangedIn translation next first pages Holds)
    (differs : ∀ page, first ≤ page → page < first + pages → next page ≠ translation page) :
    Changed translation next page ↔ first ≤ page ∧ page < first + pages := by
  constructor
  · intro isChanged
    by_contra outside
    exact isChanged (changed.outside page (by omega))
  · rintro ⟨low, high⟩
    exact differs page low high

namespace DevArea

variable {area next final : DevArea} {cells cells' before after extra : List Nat}
  {left r rounds res : Nat} {cell : Option Nat} {resource : Resource} {action : DevCall}

/-- The first region of the resource lies behind one that is not free, or has no addresses,
and is the given one, unless neither of the two has addresses. -/
def Clear (area : DevArea) (r res : Nat) : Prop :=
  ∃ before left holder after,
    area.links.Listed (some area.data) (before ++ left :: holder :: after) ∧
    (∀ other ∈ before ++ [left], (area.regions other).resource ≠ res) ∧
    (area.regions holder).resource = res ∧
    (area.isFree left = true → (area.regions left).length = 0) ∧
    (holder = r ∨ (area.regions holder).length = 0 ∧ (area.regions r).length = 0)

theorem shows_of_reachable (reached : markedMachine.Reachable area) :
    ∃ cells, area.Laid cells ∧ area.Shows cells area.translation := by
  induction reached with
  | initial start =>
      obtain ⟨cells, ok⟩ := ok_of_initial start
      exact ⟨cells, ok.tiled.toLaid, ok.mapped⟩
  | step _ stepped inductionHypothesis =>
      obtain ⟨marked, stepped⟩ := stepped
      obtain ⟨cells, laid, shown⟩ := inductionHypothesis
      obtain ⟨cells', steps⟩ := unlisted_steps laid stepped
      exact ⟨cells', steps.laid, steps.shows marked shown⟩

/-- A region that holds a resource as another state had it, in an area in step with the
pages. -/
def HoldsMapped (area : DevArea) (r res : Nat) (region : Region) : Prop :=
  ∃ cells, area.Laid cells ∧ area.Shows cells area.translation ∧ area.Holds cells r res ∧
    area.regions r = region

theorem HoldsMapped.step {region : Region} (marked : resourceState res ≠ regionResStateFree)
    (differs : action.res ≠ res) (held : area.HoldsMapped r res region)
    (stepped : markedMachine.step area action next) : next.HoldsMapped r res region := by
  obtain ⟨cells, laid, shown, holding, same⟩ := held
  obtain ⟨actionMarked, stepped⟩ := stepped
  obtain ⟨cells', steps⟩ := unlisted_steps laid stepped
  obtain ⟨stillHolding, sameRegion⟩ := steps.holds marked differs holding
  exact ⟨cells', steps.laid, steps.shows actionMarked shown, stillHolding, sameRegion.trans same⟩

/-- Two regions with the same pages are one, unless they have none. -/
theorem Laid.same_pages {other first pages first' pages' : Nat} (laid : area.Laid cells)
    (member : r ∈ cells) (atFirst : (area.regions r).pageVaddr = first * platformPageSize)
    (ofPages : (area.regions r).length = pages * platformPageSize) (otherMember : other ∈ cells)
    (otherFirst : (area.regions other).pageVaddr = first' * platformPageSize)
    (otherPages : (area.regions other).length = pages' * platformPageSize)
    (same : ∀ page, (first' ≤ page ∧ page < first' + pages') ↔
      (first ≤ page ∧ page < first + pages)) :
    other = r ∨ (area.regions other).length = 0 ∧ (area.regions r).length = 0 := by
  by_cases isR : other = r
  · exact .inl isR
  · obtain ⟨before, after, rfl⟩ := List.append_of_mem member
    obtain ⟨left, right⟩ := laid.tiles.around
    have apart : (first' + pages') ≤ first ∨ (first + pages) ≤ first' := by
      rcases List.mem_append.mp ((mem_listed_iff.mp otherMember).resolve_left isR) with
        inBefore | inAfter
      · have bounded := left other inBefore
        rw [otherFirst, otherPages, atFirst, ← Nat.add_mul] at bounded
        exact .inl (Nat.le_of_mul_le_mul_right bounded (by decide))
      · have bounded := right other inAfter
        rw [otherFirst, ofPages, atFirst, ← Nat.add_mul] at bounded
        exact .inr (Nat.le_of_mul_le_mul_right bounded (by decide))
    have own := same first
    have others := same first'
    have zero : pages = 0 ∧ pages' = 0 := by omega
    rw [otherPages, ofPages, zero.1, zero.2]
    exact .inr ⟨Nat.zero_mul _, Nat.zero_mul _⟩

/-- What an unregister changes that returns: the pages of the first region of the resource,
which is clear. -/
theorem Laid.unregister_changed (laid : area.Laid cells)
    (shown : area.Shows cells area.translation) (marked : resourceState res ≠ regionResStateFree)
    {before after : List Nat} {left holder : Nat}
    (split : cells = before ++ left :: holder :: after)
    (earlier : ∀ other ∈ before ++ [left], (area.regions other).resource ≠ res)
    (holds : (area.regions holder).resource = res)
    (clear : area.isFree left = true → (area.regions left).length = 0)
    (enough : cells.length ≤ rounds) {first pages : Nat}
    (atFirst : (area.regions holder).pageVaddr = first * platformPageSize)
    (ofPages : (area.regions holder).length = pages * platformPageSize) :
    ∃ done, unregisterResource rounds area res = .ok done ∧
      ∀ page, Changed area.translation done.translation page ↔
        first ≤ page ∧ page < first + pages := by
  subst split
  have occupied : area.isFree holder = false := isFree_of_holds holds marked
  have reported := laid.reported_eq clear
  rw [atFirst, ofPages] at reported
  have mapped := shown.occupied (by simp) occupied atFirst ofPages
  obtain ⟨done, returned⟩ := laid.unregister_returns enough earlier holds reported mapped
  obtain ⟨cells', unregistered⟩ := laid.unregistered enough earlier holds returned
  have changed := (unregistered.unmapped first pages reported).1
  refine ⟨done, returned, fun page => changed.changed_iff fun page low high => ?_⟩
  rw [changed.inside page low high]
  exact (Option.isSome_iff_ne_none.mp (mapped page low high)).symm

/-- Unregistering a resource that a region holds. -/
theorem HoldsMapped.unregister_iff {region : Region} (held : area.HoldsMapped r res region)
    (marked : resourceState res ≠ regionResStateFree) {first pages : Nat}
    (atFirst : region.pageVaddr = first * platformPageSize)
    (ofPages : region.length = pages * platformPageSize)
    (enough : ∀ cells, area.links.Listed (some area.data) cells → cells.length ≤ rounds) :
    (∃ done, unregisterResource rounds area res = .ok done ∧
      ∀ page, Changed area.translation done.translation page ↔
        first ≤ page ∧ page < first + pages) ↔ area.Clear r res := by
  obtain ⟨cells, laid, shown, ⟨member, holds⟩, rfl⟩ := held
  constructor
  · rintro ⟨done, returned, exactly⟩
    obtain ⟨before, left, holder, after, cells', rfl, earlier, isHolder, unregistered⟩ :=
      laid.of_unregister returned
    have clear := unregistered.clear laid shown
    obtain ⟨first', pages', otherFirst, otherPages, -⟩ := laid.pages (r := holder) (by simp)
    obtain ⟨again, returnedAgain, changed⟩ := laid.unregister_changed shown marked rfl earlier
      isHolder clear (enough _ laid.listed) otherFirst otherPages
    cases returnedAgain.symm.trans returned
    have own := laid.same_pages member atFirst ofPages (by simp) otherFirst otherPages
      fun page => (changed page).symm.trans (exactly page)
    exact ⟨before, left, holder, after, laid.listed, earlier, isHolder, clear, own⟩
  · rintro ⟨before, left, holder, after, listed, earlier, isHolder, clear, own⟩
    have split := listed.unique laid.listed
    obtain ⟨first', pages', otherFirst, otherPages, -⟩ := laid.pages (r := holder) (by simp [← split])
    obtain ⟨done, returned, changed⟩ := laid.unregister_changed shown marked split.symm earlier
      isHolder clear (enough _ laid.listed) otherFirst otherPages
    refine ⟨done, returned, fun page => (changed page).trans ?_⟩
    rcases own with rfl | ⟨noneOther, noneOwn⟩
    · rw [Nat.eq_of_mul_eq_mul_right (by decide) (otherFirst.symm.trans atFirst),
        Nat.eq_of_mul_eq_mul_right (by decide) (otherPages.symm.trans ofPages)]
    · rw [otherPages] at noneOther
      rw [ofPages] at noneOwn
      unfold platformPageSize at noneOther noneOwn
      omega

/-- After any run of calls for other resources a resource is unregistered by unmapping the
pages that were mapped for it, if and only if its region is clear of free pages before it. -/
theorem unregister_exact_iff {mid : DevArea} {pageVaddr rounds' : Nat} {calls : List DevCall}
    (reached : markedMachine.Reachable area)
    (unlisted : ∀ cells, area.links.Listed (some area.data) cells →
      (DevCall.register cell res resource).Unlisted cells)
    (marked : resourceState res ≠ regionResStateFree)
    (found : newRegion rounds' area cell (devBufferPages resource.data * platformPageSize) =
      .ok (mid, some r))
    (returned : registerResource rounds' cell area res resource = .ok (next, some pageVaddr))
    (trace : markedMachine.Trace next calls final) (others : ∀ call ∈ calls, call.res ≠ res)
    (enough : ∀ cells, final.links.Listed (some final.data) cells → cells.length ≤ rounds) :
    (∃ done, unregisterResource rounds final res = .ok done ∧
      ∀ page, Changed final.translation done.translation page ↔
        Changed area.translation next.translation page) ↔ final.Clear r res := by
  obtain ⟨cells, laid, shown⟩ := shows_of_reachable reached
  obtain ⟨before, holder, extra, after, rfl, isFirst, -, registered⟩ :=
    laid.registered (unlisted cells laid.listed) returned
  have isHolder := laid.of_newRegion found
  rw [isFirst] at isHolder
  cases isHolder
  have rFree := (fits_iff.mp (List.find?_some isFirst)).1
  have chosen := registered.chosen
  have held : final.HoldsMapped r res (next.regions r) :=
    trace.invariant (fun _ _ _ => HoldsMapped.step marked) others
      ⟨_, chosen.laid, registered.shows laid shown rFree marked, ⟨by simp, registered.holds⟩, rfl⟩
  obtain ⟨first, -, atFirst, -⟩ := laid.pages (r := r) (by simp)
  have changed := registered.mapped first atFirst
  have mapped : ∀ page, Changed area.translation next.translation page ↔
      first ≤ page ∧ page < first + devBufferPages resource.data := by
    refine fun page => changed.changed_iff fun page low high => ?_
    rw [changed.inside page low high, registered.unmapped first atFirst page low high]
    exact Option.some_ne_none _
  simp only [mapped]
  exact held.unregister_iff marked (chosen.pageVaddr.trans atFirst) chosen.length enough


theorem videoBuffer_exact : ∃ mid next pageVaddr,
    newRegion 8 kdevStart (some 2) (devBufferPages videoBuffer.data * platformPageSize) =
        .ok (mid, some 1) ∧
      registerResource 8 (some 2) kdevStart 0xC0105004 videoBuffer = .ok (next, some pageVaddr) ∧
      ((∃ done, unregisterResource 8 next 0xC0105004 = .ok done ∧
        ∀ page, Changed next.translation done.translation page ↔
          Changed kdevStart.translation next.translation page) ↔ next.Clear 1 0xC0105004) := by
  have shown : (registerResource 8 (some 2) kdevStart 0xC0105004 videoBuffer).map (fun result =>
      (result.2, result.1.data, result.1.links 1, result.1.links 2)) =
        .ok (some 0xC1000000, 1, some 2, none) := by decide +kernel
  obtain ⟨mid, found⟩ := kdevStart_newRegion
  obtain ⟨⟨next, _⟩, returned, known⟩ := Outcome.map_eq_ok shown
  simp only [Prod.mk.injEq] at known
  obtain ⟨rfl, data, second, none_behind⟩ := known
  have listed : next.links.Listed (some next.data) [1, 2] :=
    ⟨congrArg some data, second, none_behind⟩
  refine ⟨mid, next, _, found, returned, unregister_exact_iff (.initial kdevStart_initial)
    (kdevStart_unlisted 0xC0105004) (by decide) found returned .nil nofun fun cells isListed => ?_⟩
  rw [isListed.unique listed]
  decide

/-- The buffer takes the first region of the area. -/
theorem videoBuffer_not_exact : ∃ next pageVaddr,
    registerResource 8 (some 2) kdevStart 0xC0105004 videoBuffer = .ok (next, some pageVaddr) ∧
      ¬∃ done, unregisterResource 8 next 0xC0105004 = .ok done ∧
        ∀ page, Changed next.translation done.translation page ↔
          Changed kdevStart.translation next.translation page := by
  obtain ⟨next, returned⟩ := kdevStart_registerResource 0xC0105004
  have faulted : (registerResource 8 (some 2) kdevStart 0xC0105004 videoBuffer >>= fun result =>
      (unregisterResource 8 result.1 0xC0105004).map DevArea.data) = .error .nullDeref := by
    decide +kernel
  rw [returned, Outcome.ok_bind] at faulted
  refine ⟨next, _, returned, ?_⟩
  rintro ⟨done, unmapped, -⟩
  exact nomatch (Outcome.map_eq_error faulted).symm.trans unmapped

end DevArea

end Yaeos
