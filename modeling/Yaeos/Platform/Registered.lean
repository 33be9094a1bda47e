import Yaeos.Platform.Entries
import Yaeos.Platform.Pieces

/-!
# The memory that is registered

The regions of the memory map become resources, as long as there are slots for them.  The free
list is a stack, so that they are claimed in the opposite order.
-/

namespace Yaeos

namespace Resources

variable {resources next : Resources} {free claimed : List Nat}

/-- What `register_mem_zones` looks for. -/
def memoryRequest : ResourceRequest := .byId platformId memoryId

/-- The data of the free resources it gets, in order. -/
def memoryData (resources : Resources) (free : List Nat) : List ResourceData :=
  (free.filter (resources.matchesAt memoryRequest)).filterMap resources.dataAt

/-- Of a slot that was not taken before everything is known. -/
theorem storage_of_register {deviceId resourceId : CString} {type : ResourceType}
    {data : ResourceData} (room : resources.nextFreeNdx < resources.storage.length)
    (registered : resourcesRegister resources deviceId resourceId type data = .ok next) :
    next.nextFreeNdx = resources.nextFreeNdx + 1 ∧
      next.storage = resources.storage.set resources.nextFreeNdx
        { deviceId := some deviceId, resourceId := some resourceId, owner := resOwnerNone,
          type := type, data := data } := by
  have available : ¬resources.nextFreeNdx > resources.storage.length - 1 := by omega
  simp only [resourcesRegister, resourcesGetNew, if_neg available, Outcome.ok_bind,
    writeSlot_ok room, Except.ok.injEq] at registered
  subst registered
  exact ⟨rfl, rfl⟩

/-- Without a slot left nothing is registered. -/
theorem Ok.register_full (ok : resources.Ok free claimed)
    (full : resources.nextFreeNdx = maxResources) (deviceId resourceId : CString)
    (type : ResourceType) (data : ResourceData) :
    resourcesRegister resources deviceId resourceId type data = .error .kassert := by
  have unavailable : resources.nextFreeNdx > resources.storage.length - 1 := by
    rw [full, ok.size]
    decide
  simp only [resourcesRegister, resourcesGetNew, if_pos unavailable, Outcome.error_bind]

/-- A new resource goes to the front of the free list; the others are as before. -/
theorem Ok.memoryData_register (ok : resources.Ok free claimed)
    (room : resources.nextFreeNdx < maxResources) {deviceId resourceId : CString}
    {type : ResourceType} {data : ResourceData}
    (registered : resourcesRegister resources deviceId resourceId type data = .ok next) :
    next.memoryData (resources.nextFreeNdx :: free) =
      if deviceId = platformId ∧ resourceId = memoryId then data :: resources.memoryData free
      else resources.memoryData free := by
  have inside : resources.nextFreeNdx < resources.storage.length := ok.size.symm ▸ room
  obtain ⟨-, stored⟩ := storage_of_register inside registered
  have new : next.storage[resources.nextFreeNdx]? = some
      { deviceId := some deviceId, resourceId := some resourceId, owner := resOwnerNone,
        type := type, data := data } := by
    rw [stored]
    exact List.getElem?_set_self inside
  have old : ∀ ndx ∈ free, next.storage[ndx]? = resources.storage[ndx]? := by
    intro ndx member
    have below := ok.lt_of_mem (List.mem_append_left claimed member)
    rw [stored]
    exact List.getElem?_set_ne (Nat.ne_of_gt below)
  have rest : next.memoryData free = resources.memoryData free := by
    have matched : free.filter (next.matchesAt memoryRequest) =
        free.filter (resources.matchesAt memoryRequest) :=
      List.filter_congr fun ndx member => by simp only [matchesAt, old ndx member]
    rw [memoryData, matched]
    refine List.filterMap_congr fun ndx member => ?_
    simp only [dataAt, old ndx (List.mem_of_mem_filter member)]
  have isMatch : next.matchesAt memoryRequest resources.nextFreeNdx =
      decide (deviceId = platformId ∧ resourceId = memoryId) := by
    simp only [matchesAt, new, Option.any_some, memoryRequest, ResourceRequest.Matches,
      Option.some.injEq]
  have isData : next.dataAt resources.nextFreeNdx = some data := by
    rw [dataAt, new]
    rfl
  rw [← rest]
  split_ifs with memory
  · rw [memoryData, List.filter_cons_of_pos (by rw [isMatch]; exact decide_eq_true memory),
      List.filterMap_cons_some isData]
    rfl
  · rw [memoryData, List.filter_cons_of_neg (by rw [isMatch]; simpa using memory)]
    rfl

/-- What is registered of a region. -/
def regionData (region : MemRegion) : ResourceData :=
  { base := region.start, len := region.stop - region.start }

/-- The resources after these regions: every one that is longer than a page has a slot. -/
structure Registered (resources : Resources) (free claimed : List Nat)
    (regions : List MemRegion) (next : Resources) (nextFree : List Nat) : Prop where
  ok : next.Ok nextFree claimed
  taken : next.nextFreeNdx = resources.nextFreeNdx + (regions.filter fun region =>
    platformPageSize < region.stop - region.start).length
  data : next.memoryData nextFree = ((regions.filter fun region =>
    platformPageSize < region.stop - region.start).map regionData).reverse ++
      resources.memoryData free

/-- Regions are registered exactly as long as there are slots. -/
theorem Ok.registerRegions (ok : resources.Ok free claimed) {regions : List MemRegion}
    (ordered : ∀ region ∈ regions, region.start ≤ region.stop ∧ region.stop < addressSpace) :
    (resources.nextFreeNdx + (regions.filter fun region =>
        platformPageSize < region.stop - region.start).length ≤ maxResources ↔
      ∃ next, regions.foldlM registerMemRegion resources = .ok next) ∧
    ∀ next, regions.foldlM registerMemRegion resources = .ok next →
      ∃ nextFree, resources.Registered free claimed regions next nextFree := by
  induction regions generalizing resources free with
  | nil =>
      refine ⟨iff_of_true ok.bound ⟨resources, rfl⟩, fun next returned => ?_⟩
      cases returned
      exact ⟨free, ok, rfl, rfl⟩
  | cons region rest inductionHypothesis =>
      obtain ⟨upward, word⟩ := ordered region List.mem_cons_self
      have ordered := fun other member => ordered other (List.mem_cons_of_mem _ member)
      have length : wrapSub region.stop region.start = region.stop - region.start :=
        wrapSub_of_le upward word
      rw [List.foldlM_cons, registerMemRegion, length]
      by_cases short : region.stop - region.start ≤ platformPageSize
      · have dropped : (region :: rest).filter (fun region =>
            decide (platformPageSize < region.stop - region.start)) =
            rest.filter fun region => decide (platformPageSize < region.stop - region.start) :=
          List.filter_cons_of_neg (by simpa using short)
        rw [if_pos short, Outcome.ok_bind, dropped]
        obtain ⟨returns, registered⟩ := inductionHypothesis ok ordered
        refine ⟨returns, fun next returned => ?_⟩
        obtain ⟨nextFree, nextOk, taken, data⟩ := registered next returned
        exact ⟨nextFree, nextOk, dropped ▸ taken, dropped ▸ data⟩
      · have long : platformPageSize < region.stop - region.start := Nat.lt_of_not_le short
        have kept : (region :: rest).filter (fun region =>
            decide (platformPageSize < region.stop - region.start)) =
            region :: rest.filter fun region =>
              decide (platformPageSize < region.stop - region.start) :=
          List.filter_cons_of_pos (by simpa using long)
        have whole : min (region.stop - region.start) (wrapSub maxAddr region.start) =
            region.stop - region.start := by
          have limit : wrapSub maxAddr region.start = maxAddr - region.start :=
            wrapSub_of_le (by unfold maxAddr; omega) (by decide)
          rw [limit]
          unfold maxAddr
          omega
        rw [if_neg short, kept, whole, List.length_cons]
        by_cases room : resources.nextFreeNdx < maxResources
        · obtain ⟨after, returned, afterOk⟩ := ok.register room platformId memoryId .memory
            (regionData region)
          have inside : resources.nextFreeNdx < resources.storage.length := ok.size.symm ▸ room
          have taken := (storage_of_register inside returned).1
          have newData := ok.memoryData_register room returned
          rw [if_pos ⟨rfl, rfl⟩] at newData
          have same : resourcesRegister resources platformId memoryId .memory
              { base := region.start, len := region.stop - region.start } = .ok after := returned
          rw [same, Outcome.ok_bind]
          obtain ⟨returns, registered⟩ := inductionHypothesis afterOk ordered
          rw [taken] at returns
          refine ⟨by rw [← returns]; omega, fun next stepped => ?_⟩
          obtain ⟨nextFree, nextOk, nextTaken, data⟩ := registered next stepped
          refine ⟨nextFree, nextOk, ?_, ?_⟩
          · rw [kept, nextTaken, taken, List.length_cons]
            omega
          · rw [kept, data, newData, List.map_cons, List.reverse_cons, List.append_assoc]
            rfl
        · have full : resources.nextFreeNdx = maxResources :=
            Nat.le_antisymm ok.bound (Nat.le_of_not_lt room)
          rw [ok.register_full full, Outcome.error_bind]
          exact ⟨iff_of_false (by omega) (by simp), by simp⟩

end Resources

/-! ## The whole map -/

section Map

variable {map : List MultibootMmapEntry} {kstart kend : Nat} {resources : Resources}

/-- The entries of a map register their regions one after the other. -/
theorem RamMap.registerEntries (ram : RamMap map kstart kend) (image : kstart < kend)
    (resources : Resources) : map.foldlM (registerEntry kstart kend) resources =
      (map.flatMap (regionsOf kstart kend)).foldlM registerMemRegion resources := by
  have each : ∀ mmap ∈ map, ∀ resources, registerEntry kstart kend resources mmap =
      (regionsOf kstart kend mmap).foldlM registerMemRegion resources := by
    intro mmap member resources
    rw [registerEntry, (ram.regionsOf_pieces image member).1, Outcome.ok_bind]
  clear ram
  induction map generalizing resources with
  | nil => rfl
  | cons mmap rest inductionHypothesis =>
      rw [List.foldlM_cons, List.flatMap_cons, List.foldlM_append, each mmap List.mem_cons_self]
      exact congrArg _ (funext fun resources =>
        inductionHypothesis resources fun other member =>
          each other (List.mem_cons_of_mem _ member))

theorem RamMap.regions_ordered (ram : RamMap map kstart kend) (image : kstart < kend) :
    ∀ region ∈ map.flatMap (regionsOf kstart kend),
      region.start ≤ region.stop ∧ region.stop < addressSpace := by
  intro region member
  obtain ⟨mmap, isEntry, isRegion⟩ := List.mem_flatMap.mp member
  obtain ⟨-, ordered, word, -⟩ := ram.region_inside image isEntry isRegion
  exact ⟨ordered, word⟩

end Map

end Yaeos
