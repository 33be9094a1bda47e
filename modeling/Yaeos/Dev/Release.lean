import Yaeos.Dev.Calls

/-!
# Unregistering resources

`free_region_for` merges what it frees with free neighbours, and the pages of what it
reports are unmapped.  With an occupied region before it this is the region of the
resource; a free one before it is reported as well, and there must be one.
-/

namespace Yaeos

namespace DevArea

variable {area next : DevArea} {cells before after : List Nat} {left r rounds res : Nat}

/-- The area when `free_region_for` has marked a region. -/
def released (area : DevArea) (r : Nat) : DevArea := area.setState r regionResStateFree

theorem released_isFree : (area.released r).isFree r = true := by
  rw [released, isFree_setState (by decide)]
  rfl

theorem released_isFree_of_ne {other : Nat} (differs : other ≠ r) :
    (area.released r).isFree other = area.isFree other := by
  rw [isFree, released, setState_of_ne differs, isFree]

theorem released_region :
    ((area.released r).regions r).pageVaddr = (area.regions r).pageVaddr ∧
      ((area.released r).regions r).length = (area.regions r).length :=
  ⟨setState_pageVaddr .., setState_length ..⟩

/-- What `free_region_for` does with the first region that holds the resource. -/
theorem Laid.freeRegionFor_eq (laid : area.Laid (before ++ r :: after))
    (enough : (before ++ r :: after).length ≤ rounds)
    (earlier : ∀ other ∈ before, (area.regions other).resource ≠ res)
    (holds : (area.regions r).resource = res) :
    freeRegionFor rounds area res = (do
      let last ← deref before.getLast?
      let (area, r) ← coalesceLast (area.released r) last r
      let regionBase := (area.regions r).pageVaddr
      let regionLen := (area.regions r).length
      let area ← coalesceNext area r
      .ok (area, regionBase, regionLen)) := by
  have failed : ∀ other ∈ before, ((area.regions other).resource == res) = false :=
    fun other member => by simpa using earlier other member
  have passed : ((area.regions r).resource == res) = true := by simpa using holds
  have searched := laid.listed.forEachUntil_some enough none failed passed
  rw [freeRegionFor, searched, Option.or_none]
  rfl

theorem coalesceLast_occupied (leftOccupied : area.isFree left = false) :
    coalesceLast area left r = .ok (area, r) := if_neg (by simp [leftOccupied])

theorem Merged.freeCell {right : Nat} (merged : Merged area next before left right after)
    (cell : Nat) : Merged area (next.freeCell cell) before left right after :=
  ⟨merged.laid.congr rfl rfl rfl rfl fun _ _ => ⟨rfl, rfl⟩, merged.merged, merged.others,
    merged.translation⟩

theorem Laid.coalesceLast_free (laid : area.Laid (before ++ left :: r :: after))
    (leftFree : area.isFree left = true) :
    ∃ next, coalesceLast area left r = .ok (next, left) ∧ Merged area next before left r after := by
  obtain ⟨links, removed, merged⟩ := laid.merge
  refine ⟨_, ?_, merged.freeCell r⟩
  rw [coalesceLast, if_pos leftFree]
  exact congrArg (· >>= _) removed

/-- The region behind is merged if it is free. -/
theorem Laid.coalesceNext_cases (laid : area.Laid (before ++ r :: after)) :
    ((∀ right ∈ after.head?, area.isFree right = false) ∧ coalesceNext area r = .ok area) ∨
      ∃ right rest next, after = right :: rest ∧ area.isFree right = true ∧
        coalesceNext area r = .ok next ∧ Merged area next before r right rest ∧
          next.live = area.live.erase r := by
  have link := laid.listed.next
  cases after with
  | nil =>
      have noLink : area.links r = none := link
      exact .inl ⟨nofun, by simp only [coalesceNext, noLink]⟩
  | cons right rest =>
      have toRight : area.links r = some right := link
      by_cases rightFree : area.isFree right = true
      · obtain ⟨links, removed, merged⟩ := laid.merge
        refine .inr ⟨right, rest, _, rfl, rightFree, ?_, merged.freeCell r, rfl⟩
        simp only [coalesceNext, toRight, rightFree, if_true]
        exact congrArg (· >>= _) removed
      · refine .inl ⟨?_, by simp only [coalesceNext, toRight, rightFree]; rfl⟩
        rintro _ ⟨⟩
        simpa using rightFree

/-- What `free_region_for` reports for a region behind another one. -/
def reported (area : DevArea) (left r : Nat) : Nat × Nat :=
  if area.isFree left then ((area.regions left).pageVaddr,
    (area.regions left).length + (area.regions r).length)
  else ((area.regions r).pageVaddr, (area.regions r).length)

/-- What `free_region_for` leaves and reports. -/
theorem Laid.freed (laid : area.Laid (before ++ left :: r :: after))
    (enough : (before ++ left :: r :: after).length ≤ rounds)
    (earlier : ∀ other ∈ before ++ [left], (area.regions other).resource ≠ res)
    (holds : (area.regions r).resource = res) :
    ∃ next cells', freeRegionFor rounds area res = .ok (next, area.reported left r) ∧
      Coalesced (area.released r) next (before ++ left :: r :: after) cells' := by
  have split : before ++ left :: r :: after = (before ++ [left]) ++ r :: after := by simp
  have leftNotR := ne_of_listed (split ▸ laid.nodup) left (by simp)
  have freedLaid : (area.released r).Laid (before ++ left :: r :: after) := laid.setState r _
  have sameLeft : (area.released r).regions left = area.regions left := setState_of_ne leftNotR
  have found := Laid.freeRegionFor_eq (split ▸ laid) (split ▸ enough) earlier holds
  rw [List.getLast?_concat, deref_some, Outcome.ok_bind] at found
  by_cases leftFree : area.isFree left = true
  · obtain ⟨middle, last, merged⟩ := freedLaid.coalesceLast_free
      ((released_isFree_of_ne leftNotR).trans leftFree)
    have first := merged.coalesced freedLaid ((released_isFree_of_ne leftNotR).trans leftFree)
      released_isFree
    have middleFree : middle.isFree left = true := by
      rw [isFree, merged.merged, sameLeft]
      exact leftFree
    have result : area.reported left r =
        ((middle.regions left).pageVaddr, (middle.regions left).length) := by
      rw [reported, if_pos leftFree, merged.merged, sameLeft, released_region.2]
    rw [last, Outcome.ok_bind] at found
    dsimp only at found
    rcases merged.laid.coalesceNext_cases with ⟨-, behind⟩ |
      ⟨right, rest, next, rfl, rightFree, behind, mergedNext, -⟩
    · rw [behind, Outcome.ok_bind] at found
      exact ⟨middle, _, by rw [found, result], first⟩
    · rw [behind, Outcome.ok_bind] at found
      exact ⟨next, _, by rw [found, result],
        first.trans (mergedNext.coalesced merged.laid middleFree rightFree)⟩
  · have leftOccupied : area.isFree left = false := by simpa using leftFree
    have result : area.reported left r =
        (((area.released r).regions r).pageVaddr, ((area.released r).regions r).length) := by
      rw [reported, if_neg leftFree, released_region.1, released_region.2]
    rw [coalesceLast_occupied ((released_isFree_of_ne leftNotR).trans leftOccupied),
      Outcome.ok_bind] at found
    dsimp only at found
    rcases Laid.coalesceNext_cases (split ▸ freedLaid) with ⟨-, behind⟩ |
      ⟨right, rest, next, rfl, rightFree, behind, mergedNext, -⟩
    · rw [behind, Outcome.ok_bind] at found
      exact ⟨area.released r, _, by rw [found, result], freedLaid.coalesced⟩
    · rw [behind, Outcome.ok_bind] at found
      have whole := mergedNext.coalesced (split ▸ freedLaid) released_isFree rightFree
      rw [← split] at whole
      exact ⟨next, _, by rw [found, result], whole⟩

/-- The first region has none before it. -/
theorem Laid.freeRegionFor_first (laid : area.Laid (r :: after))
    (enough : (r :: after).length ≤ rounds) (holds : (area.regions r).resource = res) :
    freeRegionFor rounds area res = .error .nullDeref := by
  have split : r :: after = [] ++ r :: after := rfl
  rw [split] at laid enough
  rw [laid.freeRegionFor_eq enough nofun holds]
  rfl

theorem Laid.unregister_first (laid : area.Laid (r :: after))
    (enough : (r :: after).length ≤ rounds) (holds : (area.regions r).resource = res) :
    unregisterResource rounds area res = .error .nullDeref := by
  rw [unregisterResource, laid.freeRegionFor_first enough holds]
  rfl

/-- A call that returns has found the first region that holds the resource, and this one is
not the first of the list. -/
theorem Laid.of_freeRegionFor {result : DevArea × Nat × Nat} (laid : area.Laid cells)
    (returned : freeRegionFor rounds area res = .ok result) :
    ∃ before left r after cells', cells = before ++ left :: r :: after ∧
      (∀ other ∈ before ++ [left], (area.regions other).resource ≠ res) ∧
      (area.regions r).resource = res ∧ result.2 = area.reported left r ∧
      Coalesced (area.released r) result.1 (before ++ left :: r :: after) cells' := by
  obtain ⟨hit, looked, found⟩ := Outcome.bind_eq_ok.mp returned
  rcases hit with _ | ⟨last, r⟩
  · cases found
  · obtain ⟨before, after, rfl, failed, passed, rfl⟩ := laid.listed.of_forEachUntil looked
    have enough : freeRegionFor (before ++ r :: after).length area res = .ok result := by
      rw [freeRegionFor, laid.listed.forEachUntil_some (Nat.le_refl _) none failed passed]
      exact found
    have holds : (area.regions r).resource = res := by simpa using passed
    rcases List.eq_nil_or_concat' before with rfl | ⟨init, left, rfl⟩
    · have rejected := Laid.freeRegionFor_first laid (Nat.le_refl _) holds
      exact nomatch rejected.symm.trans enough
    · have split : (init ++ [left]) ++ r :: after = init ++ left :: r :: after := by simp
      rw [split] at laid enough ⊢
      have earlier : ∀ other ∈ init ++ [left], (area.regions other).resource ≠ res := by
        simpa using failed
      obtain ⟨freed, cells', same, coalesced⟩ := laid.freed (Nat.le_refl _) earlier holds
      rw [same] at enough
      cases enough
      exact ⟨init, left, r, after, cells', rfl, earlier, holds, rfl, coalesced⟩

theorem divCeil_page (pages : Nat) :
    divCeil (pages * platformPageSize) platformPageSize = pages := by
  unfold divCeil platformPageSize
  omega

/-- The pages that are reported. -/
theorem Laid.reported_pages (laid : area.Laid (before ++ left :: r :: after)) : ∃ first pages,
    area.reported left r = (first * platformPageSize, pages * platformPageSize) ∧
      (first + pages) * platformPageSize ≤ addressSpace := by
  obtain ⟨first, pages, atFirst, ofPages, fits⟩ := laid.pages (r := r) (by simp)
  obtain ⟨leftFirst, leftPages, atLeft, ofLeft, -⟩ := laid.pages (r := left) (by simp)
  have adjacent := laid.tiles.adjacent
  by_cases leftFree : area.isFree left = true
  · refine ⟨leftFirst, leftPages + pages, ?_, ?_⟩
    · rw [reported, if_pos leftFree, atLeft, ofLeft, ofPages, Nat.add_mul]
    · rw [atFirst, atLeft, ofLeft, ← Nat.add_mul] at adjacent
      have same : first = leftFirst + leftPages := Nat.eq_of_mul_eq_mul_right (by decide) adjacent
      rw [← Nat.add_assoc, ← same]
      exact fits
  · exact ⟨first, pages, by rw [reported, if_neg leftFree, atFirst, ofPages], fits⟩

/-- What an unregister leaves that returns: the pages that are reported were all mapped and
are not any more. -/
structure Unregistered (area next : DevArea) (before : List Nat) (left r : Nat)
    (after cells' : List Nat) : Prop where
  coalesced : Coalesced (area.released r) { next with translation := area.translation }
    (before ++ left :: r :: after) cells'
  unmapped : ∀ first pages,
    area.reported left r = (first * platformPageSize, pages * platformPageSize) →
    ChangedIn area.translation next.translation first pages (fun _ frame => frame = none) ∧
      ∀ page, first ≤ page → page < first + pages → area.translation page ≠ none

theorem Laid.unregistered_of_freed {freed : DevArea} {cells' : List Nat}
    (laid : area.Laid (before ++ left :: r :: after))
    (found : freeRegionFor rounds area res = .ok (freed, area.reported left r))
    (coalesced : Coalesced (area.released r) freed (before ++ left :: r :: after) cells')
    (returned : unregisterResource rounds area res = .ok next) :
    Unregistered area next before left r after cells' := by
  rw [unregisterResource, found, Outcome.ok_bind] at returned
  obtain ⟨first, pages, reported, fits⟩ := laid.reported_pages
  rw [reported] at returned
  dsimp only at returned
  obtain ⟨translation, looped, result⟩ := Outcome.bind_eq_ok.mp returned
  cases result
  have sameStart : freed.translation = area.translation := coalesced.translation
  rw [divCeil_page, sameStart] at looped
  refine ⟨?_, fun first' pages' reported' => ?_⟩
  · rw [← sameStart]
    exact coalesced
  · rw [reported'] at reported
    injection reported with sameFirst samePages
    rw [Nat.eq_of_mul_eq_mul_right (by decide) sameFirst,
      Nat.eq_of_mul_eq_mul_right (by decide) samePages]
    exact unmapPages_of_ok fits looped

theorem Laid.of_unregister (laid : area.Laid cells)
    (returned : unregisterResource rounds area res = .ok next) :
    ∃ before left r after cells', cells = before ++ left :: r :: after ∧
      (∀ other ∈ before ++ [left], (area.regions other).resource ≠ res) ∧
      (area.regions r).resource = res ∧ Unregistered area next before left r after cells' := by
  obtain ⟨⟨freed, pages⟩, found, -⟩ := Outcome.bind_eq_ok.mp returned
  obtain ⟨before, left, r, after, cells', rfl, earlier, holds, rfl, coalesced⟩ :=
    laid.of_freeRegionFor found
  exact ⟨before, left, r, after, cells', rfl, earlier, holds,
    laid.unregistered_of_freed found coalesced returned⟩

section Unregister

variable (laid : area.Laid (before ++ left :: r :: after))
  (enough : (before ++ left :: r :: after).length ≤ rounds)
  (earlier : ∀ other ∈ before ++ [left], (area.regions other).resource ≠ res)
  (holds : (area.regions r).resource = res)
include laid enough earlier holds

theorem Laid.unregistered (returned : unregisterResource rounds area res = .ok next) :
    ∃ cells', Unregistered area next before left r after cells' := by
  obtain ⟨freed, cells', found, coalesced⟩ := laid.freed enough earlier holds
  exact ⟨cells', laid.unregistered_of_freed found coalesced returned⟩

/-- An unregister returns if all pages that are reported are mapped. -/
theorem Laid.unregister_returns {first pages : Nat}
    (reported : area.reported left r = (first * platformPageSize, pages * platformPageSize))
    (mapped : ∀ page, first ≤ page → page < first + pages → (area.translation page).isSome = true) :
    ∃ next, unregisterResource rounds area res = .ok next := by
  obtain ⟨freed, cells', found, coalesced⟩ := laid.freed enough earlier holds
  obtain ⟨first', pages', reported', fits⟩ := laid.reported_pages
  rw [reported] at reported'
  injection reported' with sameFirst samePages
  rw [← Nat.eq_of_mul_eq_mul_right (by decide) sameFirst,
    ← Nat.eq_of_mul_eq_mul_right (by decide) samePages] at fits
  have sameStart : freed.translation = area.translation := coalesced.translation
  obtain ⟨translation, looped, -⟩ := unmapPages fits mapped
  refine ⟨{ freed with translation := translation }, ?_⟩
  rw [unregisterResource, found, Outcome.ok_bind, reported]
  dsimp only
  rw [divCeil_page, sameStart, looped, Outcome.ok_bind]

end Unregister

/-- The pages of the region of the resource are among those that were unmapped. -/
theorem Unregistered.own {cells' : List Nat} (laid : area.Laid (before ++ left :: r :: after))
    (done : Unregistered area next before left r after cells') {page : Nat}
    (low : (area.regions r).pageVaddr ≤ page * platformPageSize)
    (high : page * platformPageSize < (area.regions r).pageVaddr + (area.regions r).length) :
    area.translation page ≠ none := by
  obtain ⟨first, pages, result, -⟩ := laid.reported_pages
  have adjacent := laid.tiles.adjacent
  refine (done.unmapped first pages result).2 page ?_ ?_
  all_goals
    rw [reported] at result
    split at result <;> injection result with samePage sameLength <;>
      unfold platformPageSize at low high samePage sameLength <;> omega

/-- Behind an occupied region, or a free one without addresses, the region of the resource
is what is reported. -/
theorem Laid.reported_eq (laid : area.Laid (before ++ left :: r :: after))
    (clear : area.isFree left = true → (area.regions left).length = 0) :
    area.reported left r = ((area.regions r).pageVaddr, (area.regions r).length) := by
  by_cases leftFree : area.isFree left = true
  · have adjacent := laid.tiles.adjacent
    have nothing := clear leftFree
    rw [nothing, Nat.add_zero] at adjacent
    rw [reported, if_pos leftFree, nothing, Nat.zero_add, adjacent]
  · exact if_neg leftFree

/-- A region whose pages were unmapped is free. -/
theorem Laid.shows_released (laid : area.Laid (before ++ r :: after))
    (shown : area.Shows (before ++ r :: after) area.translation) {first pages : Nat}
    (atFirst : (area.regions r).pageVaddr = first * platformPageSize)
    (ofPages : (area.regions r).length = pages * platformPageSize) {translation : Translation}
    (changed : ChangedIn area.translation translation first pages fun _ frame => frame = none) :
    (area.released r).Shows (before ++ r :: after) translation := by
  intro other member page low high
  by_cases isR : other = r
  · rw [isR] at low high ⊢
    rw [released_region.1, atFirst] at low high
    rw [released_region.2, ofPages] at high
    have unmapped : translation page = none := by
      apply changed.inside <;> unfold platformPageSize at low high <;> omega
    rw [released_isFree, unmapped]
    rfl
  · have inOld := (mem_listed_iff.mp member).resolve_left isR
    have same : (area.released r).regions other = area.regions other := setState_of_ne isR
    rw [same] at low high
    rw [released_isFree_of_ne isR,
      laid.outside atFirst ofPages (Nat.le_refl _) changed inOld low high]
    exact shown other member page low high

/-- No pages are reported that are not mapped. -/
theorem Unregistered.clear {cells' : List Nat} (laid : area.Laid (before ++ left :: r :: after))
    (shown : area.Shows (before ++ left :: r :: after) area.translation)
    (done : Unregistered area next before left r after cells') :
    area.isFree left = true → (area.regions left).length = 0 := by
  intro leftFree
  by_contra positive
  obtain ⟨first, pages, reported, -⟩ := laid.reported_pages
  have mapped := (done.unmapped first pages reported).2
  rw [DevArea.reported, if_pos leftFree] at reported
  injection reported with samePage sameLength
  have some_there : 0 < pages := by
    refine Nat.pos_of_ne_zero fun zero => ?_
    rw [zero, Nat.zero_mul] at sameLength
    omega
  have atFirst := shown left (by simp) first
  rw [leftFree, samePage] at atFirst
  have absent : (area.translation first).isSome = false := atFirst (Nat.le_refl _) (by omega)
  have unmapped := Option.not_isSome_iff_eq_none.mp (ne_true_of_eq_false absent)
  exact mapped first (Nat.le_refl _) (by omega) unmapped

/-- An unregister that returns keeps the area in step with the pages. -/
theorem Unregistered.shows {cells' : List Nat} (laid : area.Laid (before ++ left :: r :: after))
    (shown : area.Shows (before ++ left :: r :: after) area.translation)
    (done : Unregistered area next before left r after cells') :
    next.Laid cells' ∧ next.Shows cells' next.translation := by
  have split : before ++ left :: r :: after = (before ++ [left]) ++ r :: after := by simp
  obtain ⟨first, pages, atFirst, ofPages, -⟩ := laid.pages (r := r) (by simp)
  have reported := laid.reported_eq (done.clear laid shown)
  rw [atFirst, ofPages] at reported
  have changed := (done.unmapped first pages reported).1
  rw [split] at laid shown
  have released := laid.shows_released shown atFirst ofPages changed
  rw [← split] at released
  exact ⟨done.coalesced.laid.congr rfl rfl rfl rfl fun _ _ => ⟨rfl, rfl⟩,
    done.coalesced.shows next.translation released⟩

/-- An occupied entry that becomes free between occupied ones. -/
theorem separated_release {before after : List Bool}
    (separated : (before ++ false :: false :: after).IsChain fun left right =>
      (left && right) = false) (occupied : ∀ right ∈ after.head?, right = false) :
    (before ++ false :: true :: after).IsChain fun left right => (left && right) = false := by
  simp only [List.isChain_append, List.isChain_cons] at separated ⊢
  simp only [List.head?_cons, Option.mem_def, Option.some.injEq, forall_eq', Bool.true_and,
    Bool.false_and, Bool.and_false] at separated occupied ⊢
  tauto

/-- Between occupied regions a region can become free. -/
theorem Ok.separated_released (ok : area.Ok (before ++ left :: r :: after))
    (rOccupied : area.isFree r = false) (leftOccupied : area.isFree left = false)
    (rightOccupied : ∀ right ∈ after.head?, area.isFree right = false) :
    (area.released r).Separated (before ++ left :: r :: after) := by
  have split : before ++ left :: r :: after = (before ++ [left]) ++ r :: after := by simp
  have notR := ne_of_listed (split ▸ ok.tiled.nodup)
  have same : ∀ other ∈ (before ++ [left]) ++ after,
      (area.released r).isFree other = area.isFree other := fun other member =>
    released_isFree_of_ne (notR other member)
  have old := ok.separated
  rw [split] at old ⊢
  unfold Separated at old ⊢
  have free : ((before ++ [left]) ++ r :: after).map (area.released r).isFree =
      before.map area.isFree ++ false :: true :: after.map area.isFree := by
    rw [List.map_append, List.map_cons, released_isFree,
      List.map_congr_left fun other member => same other (List.mem_append_left _ member),
      List.map_congr_left fun other member => same other (List.mem_append_right _ member)]
    simp [leftOccupied]
  have before_eq : ((before ++ [left]) ++ r :: after).map area.isFree =
      before.map area.isFree ++ false :: false :: after.map area.isFree := by
    simp [leftOccupied, rOccupied]
  rw [free]
  rw [before_eq] at old
  refine separated_release old fun right isHead => ?_
  rw [List.head?_map] at isHead
  obtain ⟨cell, isRight, rfl⟩ := Option.map_eq_some_iff.mp isHead
  exact rightOccupied cell isRight

section Between

variable (enough : (before ++ left :: r :: after).length ≤ rounds)
  (earlier : ∀ other ∈ before ++ [left], (area.regions other).resource ≠ res)
  (holds : (area.regions r).resource = res) (leftOccupied : area.isFree left = false)
include enough earlier holds leftOccupied

/-- Behind an occupied region only the region behind may be merged. -/
theorem Laid.freeRegionFor_occupied (laid : area.Laid (before ++ left :: r :: after)) :
    freeRegionFor rounds area res = (do
      let next ← coalesceNext (area.released r) r
      .ok (next, (area.regions r).pageVaddr, (area.regions r).length)) := by
  have split : before ++ left :: r :: after = (before ++ [left]) ++ r :: after := by simp
  have leftNotR := ne_of_listed (split ▸ laid.nodup) left (by simp)
  have found := Laid.freeRegionFor_eq (split ▸ laid) (split ▸ enough) earlier holds
  rw [List.getLast?_concat, deref_some, Outcome.ok_bind,
    coalesceLast_occupied ((released_isFree_of_ne leftNotR).trans leftOccupied),
    Outcome.ok_bind] at found
  dsimp only at found
  rw [found, released_region.1, released_region.2]

/-- Unregistering a resource whose neighbours are occupied. -/
theorem Ok.unregister (ok : area.Ok (before ++ left :: r :: after))
    (marked : resourceState res ≠ regionResStateFree)
    (rightOccupied : ∀ right ∈ after.head?, area.isFree right = false) :
    ∃ next, unregisterResource rounds area res = .ok next ∧
      next.Ok (before ++ left :: r :: after) := by
  have split : before ++ left :: r :: after = (before ++ [left]) ++ r :: after := by simp
  have laid := ok.tiled.toLaid
  have rListed : r ∈ before ++ left :: r :: after := by simp
  have notR := ne_of_listed (split ▸ laid.nodup)
  have rOccupied : area.isFree r = false := by simp [isFree, holds, marked]
  have reported := laid.reported_eq fun leftFree => by simp [leftOccupied] at leftFree
  obtain ⟨first, pages, atFirst, ofPages, -⟩ := laid.pages rListed
  rw [atFirst, ofPages] at reported
  have mapped := ok.mapped.occupied rListed rOccupied atFirst ofPages
  obtain ⟨next, returned⟩ := laid.unregister_returns enough earlier holds reported mapped
  refine ⟨next, returned, ?_⟩
  have noNext : coalesceNext (area.released r) r = .ok (area.released r) := by
    rcases Laid.coalesceNext_cases (split ▸ laid.setState r regionResStateFree) with ⟨-, same⟩ |
      ⟨right, rest, -, rfl, rightFree, -⟩
    · exact same
    · have occupied := rightOccupied right rfl
      have sameFree : (area.released r).isFree right = area.isFree right :=
        released_isFree_of_ne (notR right (by simp))
      rw [← sameFree] at occupied
      exact absurd rightFree (by simp [released] at occupied ⊢; simp [occupied])
  have kept : ∃ translation, next = { area.released r with translation := translation } := by
    rw [unregisterResource, laid.freeRegionFor_occupied enough earlier holds leftOccupied, noNext,
      Outcome.ok_bind, Outcome.ok_bind] at returned
    obtain ⟨translation, -, result⟩ := Outcome.bind_eq_ok.mp returned
    exact ⟨translation, (Except.ok.inj result).symm⟩
  obtain ⟨translation, rfl⟩ := kept
  obtain ⟨cells', done⟩ := laid.unregistered enough earlier holds returned
  have changed := (done.unmapped first pages reported).1
  have shown := ok.mapped
  rw [split] at shown laid
  have released := laid.shows_released shown atFirst ofPages changed
  rw [← split] at released
  refine ⟨⟨(ok.tiled.toLaid.setState r _).congr rfl rfl rfl rfl fun _ _ => ⟨rfl, rfl⟩,
    fun cell member => ?_, ok.tiled.live, ok.tiled.liveNodup⟩, ?_, released⟩
  · have same : ((area.released r).regions cell).length = (area.regions cell).length :=
      setState_length ..
    exact same ▸ ok.tiled.positive cell member
  · exact ok.separated_released rOccupied leftOccupied rightOccupied

end Between

end DevArea

end Yaeos
