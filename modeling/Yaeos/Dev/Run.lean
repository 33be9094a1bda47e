import Yaeos.Dev.Release
import Yaeos.VmSpace.Run

/-!
# Runs over a device area

A run registers and unregisters resources in an area of `dev_area_new`.  As long
as every call is one of those that keep the region list in order, the list is a
partition of the area; any other call breaks it or does not return.
-/

namespace Yaeos

/-- `cell` is what `kmm_cache_alloc` returns if it is called. -/
inductive DevCall where
  | register (cell : Option Nat) (res : Nat) (resource : Resource)
  | unregister (res : Nat)
  deriving DecidableEq, Repr

/-- The address of the resource. -/
def DevCall.res : DevCall → Nat
  | .register _ res _ => res
  | .unregister res => res

/-- A region that holds the resource is not taken for a free one. -/
def DevCall.Marked (call : DevCall) : Prop := resourceState call.res ≠ regionResStateFree

instance (call : DevCall) : Decidable call.Marked :=
  inferInstanceAs (Decidable (resourceState call.res ≠ regionResStateFree))

namespace DevArea

def call (rounds : Nat) (area : DevArea) : DevCall → Outcome DevArea
  | .register cell res resource => do
      let (area, _) ← registerResource rounds cell area res resource
      .ok area
  | .unregister res => unregisterResource rounds area res

/-- A new cell is not in use; a resource that is unregistered is registered. -/
def Legal (area : DevArea) (cells : List Nat) : DevCall → Prop
  | .register cell res _ => res ≠ 0 ∧ ∀ new, cell = some new → new ∉ area.live
  | .unregister res => res ≠ 0 ∧ ∃ r ∈ cells, (area.regions r).resource = res

/-- A register asks for a page at least and finds a region, and a cell if this has to be
cut; the region of an unregister lies between two occupied ones, or is the last one
behind an occupied one. -/
def Sound (area : DevArea) (cells : List Nat) : DevCall → Prop
  | .register cell _ resource =>
      let len := devBufferPages resource.data * platformPageSize
      resource.type ≠ .devBuffer ∨ 0 < devBufferPages resource.data ∧
        ∃ r, cells.find? (area.fits len) = some r ∧ ((area.regions r).length = len ∨ cell ≠ none)
  | .unregister res => ∃ before left r after, cells = before ++ left :: r :: after ∧
      (∀ other ∈ before ++ [left], (area.regions other).resource ≠ res) ∧
      (area.regions r).resource = res ∧ area.isFree left = false ∧
      ∀ right ∈ after.head?, area.isFree right = false

/-- The region list as a partition of the area. -/
structure Partition (area : DevArea) (cells : List Nat) : Prop where
  listed : area.links.Listed (some area.data) cells
  contiguous : Tiles area.regions area.base cells (area.base + area.length)
  positive : ∀ cell ∈ cells, 0 < (area.regions cell).length
  total : (cells.map fun cell => (area.regions cell).length).sum = area.length
  /-- No listed cell has been returned to `REGIONS_CACHE`. -/
  kept : ∀ cell ∈ cells, cell ∈ area.live
  separated : area.Separated cells

/-- What a call should do: it returns and leaves a partition, and without a region that
fits it returns `NULL` and leaves the area as it was. -/
def Meets (rounds : Nat) (area : DevArea) (cells : List Nat) : DevCall → Prop
  | .register cell res resource => ∃ next result,
      registerResource rounds cell area res resource = .ok (next, result) ∧
      (∃ cells', next.Partition cells') ∧
      ((∀ r ∈ cells, area.fits (devBufferPages resource.data * platformPageSize) r = false) →
        result = none ∧ next = area)
  | .unregister res => ∃ next, unregisterResource rounds area res = .ok next ∧
      ∃ cells', next.Partition cells'

end DevArea

/-- The runs of an area from `dev_area_new` on.  Its addresses are not mapped at first.  A
search that is given more rounds than there are cells in use has as many as it needs. -/
def devAreaMachine : Machine DevArea DevCall where
  initial area := ∃ (memory : DevArea) (vmArea : VmArea) (cell : Nat),
    vmArea.Proper ∧ vmArea.length < addressSpace ∧
    platformPageSize ∣ vmArea.base ∧ platformPageSize ∣ vmArea.length ∧
    (∀ page, vmArea.base ≤ page * platformPageSize →
      page * platformPageSize < vmArea.base + vmArea.length → memory.translation page = none) ∧
    (cell :: memory.live).Nodup ∧ devAreaNew memory (some vmArea) (some cell) = some area
  step area call next := (∃ cells, area.links.Listed (some area.data) cells ∧
      area.Legal cells call) ∧
    ∃ rounds, area.live.length < rounds ∧ area.call rounds call = .ok next

namespace DevArea

variable {area next : DevArea} {cells before after : List Nat} {left r rounds res : Nat}
  {cell : Option Nat} {resource : Resource}

theorem Ok.partition (ok : area.Ok cells) : area.Partition cells := by
  have total := ok.tiled.tiles.sum
  exact ⟨ok.tiled.listed, ok.tiled.tiles, ok.tiled.positive, by omega, ok.tiled.live, ok.separated⟩

/-- The one region of a new area. -/
theorem ok_of_initial (start : devAreaMachine.initial area) : ∃ cells, area.Ok cells := by
  obtain ⟨memory, vmArea, cell, ⟨positive, inside⟩, fits, baseAligned, whole, unmapped, nodup,
    created⟩ := start
  cases created
  have free : resourceState (writeState (memory.regions cell).resource regionResStateFree) =
      regionResStateFree := resourceState_writeState _ (by decide)
  refine ⟨[cell], ⟨⟨⟨⟨rfl, ?_⟩, by simp, ⟨?_, ?_⟩, baseAligned, ?_, inside, fits⟩, ?_, by simp,
    nodup⟩, List.isChain_singleton _, ?_⟩⟩
  · exact Function.update_self ..
  · simp
  · simp [Tiles]
  · simpa using whole
  · simpa using positive
  · intro other member page low high
    cases List.mem_singleton.mp member
    simp only [Function.update_self] at low high
    simp [isFree, unmapped page low high, free]

/-- With a free region before it, pages would be unmapped that were never mapped. -/
theorem Ok.unregister_freeLeft (ok : area.Ok (before ++ left :: r :: after))
    (enough : (before ++ left :: r :: after).length ≤ rounds)
    (earlier : ∀ other ∈ before ++ [left], (area.regions other).resource ≠ res)
    (holds : (area.regions r).resource = res)
    (returned : unregisterResource rounds area res = .ok next) : area.isFree left = false := by
  obtain ⟨cells', done⟩ := ok.tiled.unregistered enough earlier holds returned
  have positive := ok.tiled.positive left (by simp)
  by_contra leftFree
  have nothing := done.clear ok.tiled.toLaid ok.mapped (by simpa using leftFree)
  omega

/-- With a free region behind it, the cell that is freed is one that stays listed. -/
theorem Ok.unregister_freeRight {right : Nat}
    (ok : area.Ok (before ++ left :: r :: right :: after))
    (enough : (before ++ left :: r :: right :: after).length ≤ rounds)
    (earlier : ∀ other ∈ before ++ [left], (area.regions other).resource ≠ res)
    (holds : (area.regions r).resource = res) (leftOccupied : area.isFree left = false)
    (rightFree : area.isFree right = true)
    (returned : unregisterResource rounds area res = .ok next) :
    ¬next.Partition cells := by
  intro partition
  have split :
      before ++ left :: r :: right :: after = (before ++ [left]) ++ r :: right :: after := by simp
  have laid := ok.tiled.toLaid
  have rightNotR := ne_of_listed (split ▸ laid.nodup) right (by simp)
  have found := laid.freeRegionFor_occupied enough earlier holds leftOccupied
  have released := laid.setState r regionResStateFree
  rw [split] at released
  rcases released.coalesceNext_cases with
    ⟨occupied, -⟩ | ⟨other, rest, freed, same, -, behind, merged, live⟩
  · have sameFree : (area.released r).isFree right = area.isFree right :=
      released_isFree_of_ne rightNotR
    have notFree : (area.released r).isFree right = false := occupied right rfl
    rw [sameFree, rightFree] at notFree
    cases notFree
  · rw [unregisterResource, found, show coalesceNext (area.released r) r = .ok freed from behind,
      Outcome.ok_bind, Outcome.ok_bind] at returned
    obtain ⟨translation, -, result⟩ := Outcome.bind_eq_ok.mp returned
    cases result
    have rKept : r ∈ freed.live := by
      refine partition.kept r ?_
      rw [partition.listed.unique merged.laid.listed]
      simp
    rw [live] at rKept
    exact ok.tiled.liveNodup.not_mem_erase rKept

/-- No pages make a region without addresses. -/
theorem Ok.register_noPages (ok : area.Ok cells) (buffer : resource.type = .devBuffer)
    (none_needed : devBufferPages resource.data = 0)
    (fresh : ∀ new, cell = some new → new ∉ area.live) {result : Option Nat}
    (returned : registerResource rounds cell area res resource = .ok (next, result)) :
    ∀ cells', ¬next.Partition cells' := by
  intro cells' partition
  rcases registerResource_cases returned with ⟨wrong, -⟩ | ⟨-, pageVaddr, rfl⟩
  · exact wrong buffer
  · obtain ⟨before, r, extra, after, rfl, -, -, registered⟩ := ok.tiled.registered
      (fun new same member => fresh new same (ok.tiled.live new member)) returned
    have chosen := registered.chosen
    have rListed : r ∈ cells' := by
      rw [partition.listed.unique chosen.laid.listed]
      simp
    have positive := partition.positive r rListed
    rw [chosen.length, none_needed, Nat.zero_mul] at positive
    cases positive

theorem Ok.register_meets_iff (ok : area.Ok cells)
    (marked : (DevCall.register cell res resource).Marked)
    (legal : area.Legal cells (.register cell res resource)) (enough : cells.length ≤ rounds) :
    area.Meets rounds cells (.register cell res resource) ↔
      area.Sound cells (.register cell res resource) := by
  obtain ⟨-, fresh⟩ := legal
  by_cases buffer : resource.type = .devBuffer
  · have searched := ok.tiled.newRegion_eq enough cell
      (devBufferPages resource.data * platformPageSize)
    constructor
    · rintro ⟨next, result, returned, ⟨cells', partition⟩, -⟩
      refine .inr ⟨Nat.pos_of_ne_zero fun zero => ?_, ?_⟩
      · exact ok.register_noPages buffer zero fresh returned cells' partition
      · cases found : cells.find? (area.fits (devBufferPages resource.data * platformPageSize)) with
        | none =>
            rw [found] at searched
            rw [register_noRegion buffer searched] at returned
            cases returned
        | some r =>
            refine ⟨r, rfl, ?_⟩
            by_contra neither
            obtain ⟨inexact, noCell⟩ := not_or.mp neither
            have long := (fits_iff.mp (List.find?_some found)).2
            have longer :
                (area.regions r).length > devBufferPages resource.data * platformPageSize :=
              Nat.lt_of_le_of_ne long (Ne.symm inexact)
            rw [not_not.mp noCell, found] at searched
            have nothing :
                takeRegion area none (devBufferPages resource.data * platformPageSize) r =
                  (area, none) := if_pos longer
            dsimp only at searched
            rw [nothing] at searched
            rw [not_not.mp noCell, register_noRegion buffer searched] at returned
            cases returned
    · rintro (wrong | ⟨positive, r, found, supplied⟩)
      · exact absurd buffer wrong
      · obtain ⟨next, cells', returned, okNext⟩ :=
          ok.register enough buffer positive marked fresh found supplied
        refine ⟨next, _, returned, ⟨cells', okNext.partition⟩, fun nothing => ?_⟩
        have fit := List.find?_some found
        rw [nothing r (List.mem_of_find?_eq_some found)] at fit
        cases fit
  · exact iff_of_true ⟨area, none, if_pos buffer, ⟨cells, ok.partition⟩, fun _ => ⟨rfl, rfl⟩⟩
      (.inl buffer)

/-- The first region that holds a resource. -/
theorem exists_holder (holds : ∃ r ∈ cells, (area.regions r).resource = res) :
    ∃ before r after, cells = before ++ r :: after ∧ (area.regions r).resource = res ∧
      ∀ other ∈ before, (area.regions other).resource ≠ res := by
  have some_holder : (cells.find? fun r => (area.regions r).resource == res).isSome := by
    rw [List.find?_isSome]
    simpa using holds
  obtain ⟨r, found⟩ := Option.isSome_iff_exists.mp some_holder
  obtain ⟨passed, before, after, rfl, failed⟩ := List.find?_eq_some_iff_append.mp found
  exact ⟨before, r, after, rfl, by simpa using passed, by simpa using failed⟩

theorem Ok.unregister_meets_iff (ok : area.Ok cells) (marked : (DevCall.unregister res).Marked)
    (legal : area.Legal cells (.unregister res)) (enough : cells.length ≤ rounds) :
    area.Meets rounds cells (.unregister res) ↔ area.Sound cells (.unregister res) := by
  constructor
  · rintro ⟨next, returned, cells', partition⟩
    obtain ⟨before, r, after, rfl, isRes, earlier⟩ := exists_holder legal.2
    rcases List.eq_nil_or_concat' before with rfl | ⟨init, left, rfl⟩
    · rw [Laid.unregister_first ok.tiled.toLaid enough isRes] at returned
      cases returned
    · have split : (init ++ [left]) ++ r :: after = init ++ left :: r :: after := by simp
      rw [split] at ok enough ⊢
      have leftOccupied := ok.unregister_freeLeft enough earlier isRes returned
      refine ⟨init, left, r, after, rfl, earlier, isRes, leftOccupied, fun right isHead => ?_⟩
      by_contra rightFree
      obtain ⟨rest, rfl⟩ := List.head?_eq_some_iff.mp isHead
      exact ok.unregister_freeRight enough earlier isRes leftOccupied (by simpa using rightFree)
        returned partition
  · rintro ⟨before, left, r, after, rfl, earlier, isRes, leftOccupied, rightOccupied⟩
    obtain ⟨next, returned, okNext⟩ :=
      ok.unregister enough earlier isRes leftOccupied marked rightOccupied
    exact ⟨next, returned, _, okNext.partition⟩

/-- A sound call keeps the area in order. -/
theorem Ok.step (ok : area.Ok cells) {action : DevCall} (marked : action.Marked)
    (legal : area.Legal cells action) (sound : area.Sound cells action)
    (enough : cells.length ≤ rounds) (called : area.call rounds action = .ok next) :
    ∃ cells', next.Ok cells' := by
  cases action with
  | register cell res resource =>
      obtain ⟨-, fresh⟩ := legal
      obtain ⟨⟨after, result⟩, returned, same⟩ := Outcome.bind_eq_ok.mp called
      cases same
      rcases registerResource_cases returned with ⟨-, rfl, -⟩ | ⟨buffer, -⟩
      · exact ⟨cells, ok⟩
      · rcases sound with wrong | ⟨positive, r, found, supplied⟩
        · exact absurd buffer wrong
        · obtain ⟨next', cells', returned', okNext⟩ :=
            ok.register enough buffer positive marked fresh found supplied
          have same : next' = next := by
            have known := returned.symm.trans returned'
            exact (congrArg Prod.fst (Except.ok.inj known)).symm
          exact ⟨cells', same ▸ okNext⟩
  | unregister res =>
      obtain ⟨before, left, r, after, rfl, earlier, isRes, leftOccupied, rightOccupied⟩ := sound
      obtain ⟨next', returned, okNext⟩ :=
        ok.unregister enough earlier isRes leftOccupied marked rightOccupied
      have called' : unregisterResource rounds area res = .ok next := called
      rw [returned] at called'
      cases called'
      exact ⟨_, okNext⟩

/-- The runs of sound calls for resources that are not taken for free regions. -/
def soundMachine : Machine DevArea DevCall :=
  devAreaMachine.guard fun area call => call.Marked ∧
    ∀ cells, area.links.Listed (some area.data) cells → area.Sound cells call

theorem ok_of_reachable (reached : soundMachine.Reachable area) : ∃ cells, area.Ok cells := by
  induction reached with
  | initial start => exact ok_of_initial start
  | step _ stepped inductionHypothesis =>
      obtain ⟨cells, ok⟩ := inductionHypothesis
      obtain ⟨⟨marked, sound⟩, ⟨listed, isListed, legal⟩, rounds, enough, called⟩ := stepped
      rw [isListed.unique ok.tiled.listed] at legal
      have long := Nat.le_trans ok.tiled.length_le (Nat.le_of_lt enough)
      exact ok.step marked legal (sound cells ok.tiled.listed) long called

/-- In every state of every run of sound calls the regions partition the area, and the
next call does what it should if and only if it is sound. -/
theorem partition_of_reachable (reached : soundMachine.Reachable area) :
    ∃ cells, area.Partition cells ∧ ∀ call : DevCall, call.Marked → area.Legal cells call →
      ∀ rounds, area.live.length < rounds →
        (area.Meets rounds cells call ↔ area.Sound cells call) := by
  obtain ⟨cells, ok⟩ := ok_of_reachable reached
  refine ⟨cells, ok.partition, fun call marked legal rounds enough => ?_⟩
  have long := Nat.le_trans ok.tiled.length_le (Nat.le_of_lt enough)
  cases call with
  | register cell res resource => exact ok.register_meets_iff marked legal long
  | unregister res => exact ok.unregister_meets_iff marked legal long

/-- The device area of the kernel, with one free region. -/
def kdevStart : DevArea where
  base := 0xC1000000
  length := 0x2000000
  data := 1
  regions := Function.update (fun _ => ⟨0, 0, 0⟩) 1 ⟨0xC1000000, 0x2000000, regionResStateFree⟩
  links := SlistLinks.init (fun _ => none) 1
  live := [1]
  translation := fun _ => none

theorem kdevStart_initial : devAreaMachine.initial kdevStart := by
  refine ⟨⟨0, 0, 0, fun _ => ⟨0, 0, 0⟩, fun _ => none, [], fun _ => none⟩,
    ⟨0xC1000000, 0x2000000⟩, 1, ?_⟩
  exact ⟨⟨by decide, by decide⟩, by decide, by decide, by decide, fun _ _ _ => rfl, by decide, rfl⟩

theorem kdevStart_reachable : soundMachine.Reachable kdevStart := .initial kdevStart_initial

theorem kdevStart_listed : kdevStart.links.Listed (some kdevStart.data) [1] := ⟨rfl, rfl⟩

/-- The buffer of the screen, eight pages long. -/
def videoBuffer : Resource where
  deviceId := none
  resourceId := none
  owner := resOwnerKernel
  type := .devBuffer
  data := { base := 0xB8000, len := 0x8000 }

theorem kdevStart_register : kdevStart.Sound [1] (.register (some 2) 3 videoBuffer) :=
  .inr ⟨by decide, 1, by decide, .inr (by decide)⟩

/-- The buffer takes the first region of the area, and unregistering it follows the region
before the first one. -/
theorem videoBuffer_unregister : ∃ area, soundMachine.Reachable area ∧
    area.Legal [1, 2] (.unregister 3) ∧ area.Partition [1, 2] ∧
    ¬area.Meets 8 [1, 2] (.unregister 3) := by
  have shown : (kdevStart.call 8 (.register (some 2) 3 videoBuffer)).map (fun area =>
      (area.data, area.links 1, area.links 2, (area.regions 1).resource)) =
        .ok (1, some 2, none, 3) := by decide +kernel
  have faulted : (kdevStart.call 8 (.register (some 2) 3 videoBuffer) >>= fun area =>
      (area.call 8 (.unregister 3)).map DevArea.data) = .error .nullDeref := by decide +kernel
  cases called : kdevStart.call 8 (.register (some 2) 3 videoBuffer) with
  | error fault =>
      rw [called] at shown
      cases shown
  | ok area =>
      rw [called] at shown faulted
      injection shown with known
      simp only [Prod.mk.injEq] at known
      obtain ⟨data, second, none_behind, holds⟩ := known
      have legal : kdevStart.Legal [1] (.register (some 2) 3 videoBuffer) := by
        refine ⟨by decide, fun new same => ?_⟩
        cases same
        decide
      have stepped : soundMachine.step kdevStart (.register (some 2) 3 videoBuffer) area := by
        refine ⟨⟨by decide, fun cells listed => ?_⟩, ⟨[1], kdevStart_listed, legal⟩, 8,
          by decide, called⟩
        rw [listed.unique kdevStart_listed]
        exact kdevStart_register
      have reached := kdevStart_reachable.step stepped
      have listed : area.links.Listed (some area.data) [1, 2] := by
        refine ⟨congrArg some data, second, none_behind⟩
      obtain ⟨cells, ok⟩ := ok_of_reachable reached
      rw [ok.tiled.listed.unique listed] at ok
      refine ⟨area, reached, ⟨by decide, 1, by simp, holds⟩, ok.partition, ?_⟩
      rintro ⟨next, returned, -⟩
      have called' : area.call 8 (.unregister 3) = .ok next := returned
      rw [Outcome.ok_bind, called'] at faulted
      cases faulted

theorem videoBuffer_partition : ∃ area cells, soundMachine.Reachable area ∧
    area.Partition cells ∧ cells ≠ [] := by
  obtain ⟨cells, partition, -⟩ := partition_of_reachable kdevStart_reachable
  refine ⟨kdevStart, cells, kdevStart_reachable, partition, ?_⟩
  rintro rfl
  cases partition.listed

end DevArea

end Yaeos
