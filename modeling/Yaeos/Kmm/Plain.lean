import Yaeos.Kmm.Release

/-!
# Caches of small objects (`kernel/mm/kmm.c`)

A cache with several small objects in a slab never stops its callers: an allocation
returns an object or `NULL`, and an object can always be freed.  The caches that other
files set up for their records are of this kind.
-/

namespace Yaeos

namespace Kmm

variable {kmm next : Kmm} {view : KmmView} {ref : KmmCacheRef} {storage users : List Nat}
  {live : List KmmEntry} {object : KmmEntry}

/-- The control blocks lie in the slab, and there is more than one. -/
structure Plain (kmm : Kmm) (ref : KmmCacheRef) : Prop where
  small : (kmm.layout ref).large = false
  several : 1 < (kmm.layout ref).slabCapacity

/-- The page is in use or will be the answer of `ALLOC_PAGE_FN`. -/
def MayUse (kmm : Kmm) (page : Nat) : Prop := kmm.InUse page ∨ some page ∈ kmm.supply

/-- What an allocation takes from `ALLOC_PAGE_FN`: nothing, or the next answer. -/
structure Draws (kmm next : Kmm) : Prop where
  layout : next.layout = kmm.layout
  registered : next.allocatedCaches = kmm.allocatedCaches
  released : next.released = kmm.released
  pages : (next.supply = kmm.supply ∧ next.obtained = kmm.obtained) ∨
    (next.supply = kmm.supply.tail ∧
      next.obtained = kmm.supply.head?.join.toList ++ kmm.obtained)

theorem Draws.known (draws : kmm.Draws next) : next.known storage = kmm.known storage := by
  unfold Kmm.known
  rw [draws.registered]

theorem Draws.plain (draws : kmm.Draws next) (plain : kmm.Plain ref) : next.Plain ref := by
  constructor
  · rw [draws.layout]
    exact plain.small
  · rw [draws.layout]
    exact plain.several

theorem Draws.fresh (draws : kmm.Draws next) (fresh : kmm.SupplyFresh) : next.SupplyFresh := by
  rcases draws.pages with ⟨supply, obtained⟩ | ⟨supply, obtained⟩
  · exact fresh.same supply obtained draws.released
  · exact fresh.step supply obtained draws.released

theorem Draws.mayUse (draws : kmm.Draws next) {page : Nat} (uses : next.MayUse page) :
    kmm.MayUse page := by
  rcases draws.pages with ⟨supply, obtained⟩ | ⟨supply, obtained⟩
  · unfold MayUse InUse at *
    rwa [supply, obtained, draws.released] at uses
  · unfold MayUse InUse at uses
    rw [supply, obtained, draws.released, List.count_append] at uses
    rcases uses with inUse | later
    · by_cases answered : page ∈ kmm.supply.head?.join.toList
      · right
        cases isSupply : kmm.supply with
        | nil => simp [isSupply] at answered
        | cons first rest =>
            simp only [isSupply, List.head?_cons, Option.join_some, Option.mem_toList] at answered
            exact answered ▸ List.mem_cons_self ..
      · left
        rw [List.count_eq_zero.mpr answered, Nat.zero_add] at inUse
        exact inUse
    · exact .inr (List.mem_of_mem_tail later)

/-- The page of a live object is in use. -/
theorem Ok.live_inUse (ok : Ok kmm storage users view live) (isLive : object ∈ live) :
    kmm.InUse (pageOf object.2) := by
  obtain ⟨slab, isSlab, samePage⟩ := ok.accounted.laidOut.home _ (ok.accounted.live_held isLive)
  refine ok.accounted.laidOut.inUse (List.mem_append_left _ ?_)
  rw [samePage]
  exact List.mem_map_of_mem isSlab

theorem Ok.live_nodup (ok : Ok kmm storage users view live) : live.Nodup := by
  have nodup := ok.accounted.held.nodup_iff.mp ok.accounted.laidOut.held_nodup
  exact (List.nodup_append.mp (List.nodup_append.mp nodup).1).1

theorem CacheOk.draws (ok : CacheOk kmm view ref kmm.inuse) (laidOut : kmm.LaidOut view)
    (fresh : kmm.SupplyFresh) (plain : kmm.Plain ref) (calls : KmmCalls) :
    ∃ next object, cacheAlloc calls kmm ref = .ok (next, object) ∧ kmm.Draws next := by
  have unstuck : (kmm.cache ref).slabCapacity = 1 → (kmm.cache ref).slabsPartial = [] := by
    intro one
    have several : 1 < (kmm.cache ref).slabCapacity := plain.several
    omega
  by_cases exhausted : kmm.freeObjects ref = 0
  · cases answer : kmm.supply.head?.join with
    | none =>
        refine ⟨_, _, cacheAlloc_refused ok plain.small unstuck exhausted
          (fresh.nextPageFresh laidOut) answer calls, (@refused_touches kmm view ref).layout, rfl,
          rfl, .inr ⟨rfl, rfl⟩⟩
    | some page =>
        obtain ⟨next, obj, allocated, spec, supply, obtained, -⟩ := cacheAlloc_grown laidOut ok
          plain.small unstuck exhausted (fresh.nextPageFresh laidOut) answer calls
        refine ⟨next, _, allocated, spec.touches.layout, spec.touches.registered, spec.released,
          .inr ⟨supply, ?_⟩⟩
        rw [obtained, answer]
        rfl
  · obtain ⟨next, obj, allocated, spec, supply, obtained, -⟩ :=
      cacheAlloc_existing laidOut ok plain.small unstuck exhausted calls
    exact ⟨next, _, allocated, spec.touches.layout, spec.touches.registered, spec.released,
      .inl ⟨supply, obtained⟩⟩

/-- An allocation returns an object that was not live, or `NULL`. -/
theorem Ok.alloc_plain (ok : Ok kmm storage users view live) (member : ref ∈ kmm.known storage)
    (fresh : kmm.SupplyFresh) (plain : kmm.Plain ref) :
    ∃ next object view', kmmCacheAlloc kmm ref = .ok (next, object) ∧ kmm.Draws next ∧
      Ok next storage users view' (object.toList.map (Prod.mk ref) ++ live) ∧
      ∀ mem, object = some mem → mem ≠ 0 := by
  obtain ⟨next, object, allocated, draws⟩ :=
    (ok.caches ref member).draws ok.accounted.laidOut fresh plain (kmmCalls 1)
  have unstuck : ¬kmm.Stuck ref := by
    rintro ⟨one, -⟩
    have several : 1 < (kmm.cache ref).slabCapacity := plain.several
    omega
  have result := ok.alloc_small member fresh unstuck plain.small (kmmCalls 1)
  rw [allocated] at result
  cases result with
  | object nextOk logged =>
      refine ⟨next, _, _, allocated, draws, nextOk, fun mem isMem => ?_⟩
      cases isMem
      obtain ⟨⟨_, slab⟩, -, rest⟩ := Outcome.bind_eq_ok.mp allocated
      cases slab with
      | none => cases rest
      | some slab =>
          obtain ⟨⟨_, _⟩, -, rest⟩ := Outcome.bind_eq_ok.mp rest
          obtain ⟨_, nonNull, isNext⟩ := Outcome.bind_eq_ok.mp rest
          cases isNext
          exact kassert_eq_ok.mp nonNull
  | null nextOk isCache logged => exact ⟨next, _, _, allocated, draws, nextOk, nofun⟩

/-- An object is freed without a page. -/
theorem Ok.free_plain (ok : Ok kmm storage users view live) (member : ref ∈ kmm.known storage)
    (plain : kmm.Plain ref) {mem : Nat} (isLive : (ref, mem) ∈ live) :
    ∃ next view', kmmCacheFree kmm ref mem = .ok next ∧
      Ok next storage users view' (live.erase (ref, mem)) ∧ next.layout = kmm.layout ∧
      next.allocatedCaches = kmm.allocatedCaches := by
  have onFull : kmm.OnFull ref mem := by
    intro one
    have several : 1 < (kmm.cache ref).slabCapacity := plain.several
    omega
  obtain ⟨next, view', freed, nextOk, logged, -⟩ :=
    ok.free_small member isLive onFull plain.small (kmmCalls 1)
  exact ⟨next, view', freed, nextOk, logged.layout, logged.registered⟩

end Kmm

end Yaeos
