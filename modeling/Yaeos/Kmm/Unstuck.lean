import Yaeos.Kmm.Run
import Yaeos.Machine.Loop

/-!
# Calls that leave no cache stuck (`kernel/mm/kmm.c`)

`find_existing_slab` puts an empty slab on the list of partial slabs, also a slab
with one buffer, which is full then.  All other moves of a slab with one buffer
are between the lists of the empty and the full slabs.
-/

namespace Yaeos

/-- If the slabs of a cache have one buffer, none becomes a partial slab. -/
structure KmmCache.StaysUnstuck (cache moved : KmmCache) : Prop where
  layout : moved.toKmmCacheLayout = cache.toKmmCacheLayout
  noPartial : cache.slabCapacity = 1 → cache.slabsPartial = [] → moved.slabsPartial = []

namespace KmmCache.StaysUnstuck

variable {cache moved final : KmmCache} {slab objectsInuse : Nat}

theorem capacity (stays : cache.StaysUnstuck moved) : moved.slabCapacity = cache.slabCapacity :=
  congrArg KmmCacheLayout.slabCapacity stays.layout

theorem refl (cache : KmmCache) : cache.StaysUnstuck cache := ⟨rfl, fun _ none_ => none_⟩

theorem trans (first : cache.StaysUnstuck moved) (second : moved.StaysUnstuck final) :
    cache.StaysUnstuck final := by
  refine ⟨second.layout.trans first.layout, fun one none_ => ?_⟩
  exact second.noPartial (first.capacity.trans one) (first.noPartial one none_)

theorem nextColour (cache : KmmCache) : cache.StaysUnstuck cache.nextColour :=
  ⟨rfl, fun _ none_ => none_⟩

theorem addNewSlab (cache : KmmCache) (slab : Nat) : cache.StaysUnstuck (cache.addNewSlab slab) := by
  unfold KmmCache.addNewSlab
  split
  · exact ⟨rfl, fun _ none_ => none_⟩
  · next more => exact ⟨rfl, fun one => absurd one more⟩

/-- A removal from the list of partial slabs returns only if it is not empty. -/
theorem leaveList (returned : Yaeos.leaveList cache slab objectsInuse = .ok moved) :
    cache.StaysUnstuck moved := by
  unfold Yaeos.leaveList at returned
  split at returned
  · obtain ⟨slabsFull, -, isMoved⟩ := Outcome.bind_eq_ok.mp returned
    cases isMoved
    exact ⟨rfl, fun _ none_ => none_⟩
  · split at returned
    · obtain ⟨_, asserted, removed⟩ := Outcome.bind_eq_ok.mp returned
      obtain ⟨slabsPartial, -, isMoved⟩ := Outcome.bind_eq_ok.mp removed
      cases isMoved
      exact ⟨rfl, fun one => absurd one (Nat.ne_of_gt (kassert_eq_ok.mp asserted))⟩
    · cases returned
      exact refl cache

theorem enterList (cache : KmmCache) (slab objectsInuse : Nat) :
    cache.StaysUnstuck (Yaeos.enterList cache slab objectsInuse) := by
  unfold Yaeos.enterList
  split
  · exact ⟨rfl, fun _ none_ => none_⟩
  · next notOne =>
      split
      · next full => exact ⟨rfl, fun one => absurd (full.trans one) notOne⟩
      · exact refl cache

theorem dropSlab (returned : Yaeos.dropSlab cache slab objectsInuse = .ok moved) :
    cache.StaysUnstuck moved := by
  unfold Yaeos.dropSlab at returned
  split at returned
  · obtain ⟨slabsEmpty, -, isMoved⟩ := Outcome.bind_eq_ok.mp returned
    cases isMoved
    exact ⟨rfl, fun _ none_ => none_⟩
  · split at returned
    · obtain ⟨slabsFull, -, isMoved⟩ := Outcome.bind_eq_ok.mp returned
      cases isMoved
      exact ⟨rfl, fun _ none_ => none_⟩
    · obtain ⟨slabsPartial, removed, isMoved⟩ := Outcome.bind_eq_ok.mp returned
      cases isMoved
      refine ⟨rfl, fun _ none_ => ?_⟩
      have member := (slistRemove_eq_ok.mp removed).1
      rw [none_] at member
      exact (List.not_mem_nil member).elim

end KmmCache.StaysUnstuck

namespace Kmm

/-- No cache gets stuck, and the same caches are registered. -/
structure StaysUnstuck (kmm next : Kmm) : Prop where
  caches : ∀ ref, (kmm.cache ref).StaysUnstuck (next.cache ref)
  registered : next.allocatedCaches = kmm.allocatedCaches

/-- The next object comes from an empty slab with one buffer. -/
def ReusesSingle (kmm : Kmm) (ref : KmmCacheRef) : Prop :=
  (kmm.cache ref).slabCapacity = 1 ∧ (kmm.cache ref).slabsEmpty ≠ []

instance (kmm : Kmm) (ref : KmmCacheRef) : Decidable (kmm.ReusesSingle ref) :=
  inferInstanceAs (Decidable (_ ∧ _))

/-- The slabs of the internal caches have more than one buffer. -/
structure InternalWide (kmm : Kmm) : Prop where
  slabs : (kmm.cache .slabs).slabCapacity ≠ 1
  largeBufctls : (kmm.cache .largeBufctls).slabCapacity ≠ 1

variable {kmm next final : Kmm} {ref : KmmCacheRef} {cache : KmmCache} {slab : Nat}
  {object : Option Nat}

namespace StaysUnstuck

theorem of_cache (cache : next.cache = kmm.cache)
    (registered : next.allocatedCaches = kmm.allocatedCaches) : kmm.StaysUnstuck next := by
  refine ⟨fun ref => ?_, registered⟩
  rw [cache]
  exact .refl _

theorem refl (kmm : Kmm) : kmm.StaysUnstuck kmm := of_cache rfl rfl

theorem trans (first : kmm.StaysUnstuck next) (second : next.StaysUnstuck final) :
    kmm.StaysUnstuck final :=
  ⟨fun ref => (first.caches ref).trans (second.caches ref),
    second.registered.trans first.registered⟩

theorem setCache (moved : (kmm.cache ref).StaysUnstuck cache) :
    kmm.StaysUnstuck (kmm.setCache ref cache) := by
  refine ⟨fun other => ?_, rfl⟩
  by_cases same : other = ref
  · rw [same, setCache_cache_self]
    exact moved
  · rw [setCache_cache_of_ne kmm cache same]
    exact .refl _

theorem wide (stays : kmm.StaysUnstuck next) (wide : kmm.InternalWide) : next.InternalWide := by
  refine ⟨?_, ?_⟩
  · rw [(stays.caches .slabs).capacity]
    exact wide.slabs
  · rw [(stays.caches .largeBufctls).capacity]
    exact wide.largeBufctls

theorem not_stuck (stays : kmm.StaysUnstuck next) (free : ¬kmm.Stuck ref) : ¬next.Stuck ref := by
  rintro ⟨one, some_⟩
  rw [(stays.caches ref).capacity] at one
  exact some_ ((stays.caches ref).noPartial one (unstuck_of_not free one))

end StaysUnstuck

end Kmm

/-- No call leaves a cache stuck that was not. -/
structure KmmCalls.StayUnstuck (calls : KmmCalls) : Prop where
  alloc : ∀ {kmm next : Kmm} {ref : KmmCacheRef} {object : Option Nat}, kmm.InternalWide →
    ¬kmm.ReusesSingle ref → calls.alloc kmm ref = .ok (next, object) → kmm.StaysUnstuck next
  free : ∀ {kmm next : Kmm} {ref : KmmCacheRef} {mem : Nat}, kmm.InternalWide →
    calls.free kmm ref mem = .ok next → kmm.StaysUnstuck next

namespace Kmm

variable {kmm next : Kmm} {ref : KmmCacheRef} {slab page colour mem : Nat} {object : Option Nat}
  {calls : KmmCalls}

theorem InternalWide.slabs_fresh (wide : kmm.InternalWide) : ¬kmm.ReusesSingle .slabs :=
  fun ⟨one, _⟩ => wide.slabs one

theorem InternalWide.largeBufctls_fresh (wide : kmm.InternalWide) :
    ¬kmm.ReusesSingle .largeBufctls := fun ⟨one, _⟩ => wide.largeBufctls one

namespace StaysUnstuck

theorem pageAlloc (returned : Yaeos.pageAlloc kmm = .ok (next, object)) :
    kmm.StaysUnstuck next := by
  obtain ⟨_, -, isNext⟩ := Outcome.bind_eq_ok.mp returned
  cases isNext
  exact of_cache rfl rfl

theorem slabCreateSmall (returned : Yaeos.slabCreateSmall kmm ref colour = .ok (next, object)) :
    kmm.StaysUnstuck next := by
  obtain ⟨⟨middle, page⟩, answered, rest⟩ := Outcome.bind_eq_ok.mp returned
  have first := pageAlloc answered
  cases page with
  | none =>
      cases rest
      exact first
  | some page =>
      obtain ⟨⟨final, slab⟩, filled, isNext⟩ := Outcome.bind_eq_ok.mp rest
      cases isNext
      obtain ⟨_, -, filled⟩ := Outcome.bind_eq_ok.mp filled
      obtain ⟨_, -, filled⟩ := Outcome.bind_eq_ok.mp filled
      obtain ⟨⟨freeBuffers, objectCalls⟩, -, isFinal⟩ := Outcome.bind_eq_ok.mp filled
      cases isFinal
      exact first.trans (of_cache rfl rfl)

theorem addBufferLarge (stay : calls.StayUnstuck) (wide : kmm.InternalWide) {start index : Nat}
    (returned : Yaeos.addBufferLarge calls ref slab start kmm index = .ok next) :
    kmm.StaysUnstuck next := by
  obtain ⟨⟨middle, ctl⟩, allocated, rest⟩ := Outcome.bind_eq_ok.mp returned
  obtain ⟨_, -, rest⟩ := Outcome.bind_eq_ok.mp rest
  obtain ⟨ctl, -, isNext⟩ := Outcome.bind_eq_ok.mp rest
  cases isNext
  exact (stay.alloc wide wide.largeBufctls_fresh allocated).trans (of_cache rfl rfl)

theorem slabInitLarge (stay : calls.StayUnstuck) (wide : kmm.InternalWide)
    (returned : Yaeos.slabInitLarge calls kmm ref slab page colour = .ok next) :
    kmm.StaysUnstuck next := by
  refine Loop.list_of_ok kmm.StaysUnstuck ?_ returned (of_cache rfl rfl)
  intro index state after before added
  exact before.trans (addBufferLarge stay (before.wide wide) added)

theorem slabCreateLarge (stay : calls.StayUnstuck) (wide : kmm.InternalWide)
    (returned : Yaeos.slabCreateLarge calls kmm ref colour = .ok (next, object)) :
    kmm.StaysUnstuck next := by
  obtain ⟨⟨middle, slab⟩, allocated, rest⟩ := Outcome.bind_eq_ok.mp returned
  have first := stay.alloc wide wide.slabs_fresh allocated
  cases slab with
  | none =>
      cases rest
      exact first
  | some slab =>
      obtain ⟨⟨after, page⟩, answered, rest⟩ := Outcome.bind_eq_ok.mp rest
      have second := first.trans (pageAlloc answered)
      cases page with
      | none =>
          obtain ⟨final, freed, isNext⟩ := Outcome.bind_eq_ok.mp rest
          cases isNext
          exact second.trans (stay.free (second.wide wide) freed)
      | some page =>
          obtain ⟨final, filled, isNext⟩ := Outcome.bind_eq_ok.mp rest
          cases isNext
          exact second.trans (slabInitLarge stay (second.wide wide) filled)

theorem getNewSlab (stay : calls.StayUnstuck) (wide : kmm.InternalWide)
    (returned : Yaeos.getNewSlab calls kmm ref = .ok (next, object)) : kmm.StaysUnstuck next := by
  unfold Yaeos.getNewSlab at returned
  dsimp only at returned
  split at returned
  all_goals
    obtain ⟨⟨middle, slab⟩, created, rest⟩ := Outcome.bind_eq_ok.mp returned
    have grown : kmm.StaysUnstuck middle := by
      first
        | exact slabCreateLarge stay wide created
        | exact slabCreateSmall created
    cases slab with
    | none =>
        cases rest
        exact grown.trans (setCache (.nextColour _))
    | some slab =>
        cases rest
        exact grown.trans (setCache ((KmmCache.StaysUnstuck.nextColour _).trans (.addNewSlab _ slab)))

theorem findExistingSlab (fresh : ¬kmm.ReusesSingle ref)
    (returned : Yaeos.findExistingSlab kmm ref = .ok (next, object)) : kmm.StaysUnstuck next := by
  unfold Yaeos.findExistingSlab at returned
  dsimp only at returned
  split at returned
  · next slab rest isPartial =>
      split at returned
      · obtain ⟨slabsPartial, removed, isNext⟩ := Outcome.bind_eq_ok.mp returned
        cases isNext
        refine setCache ⟨rfl, fun _ none_ => ?_⟩
        rw [none_] at isPartial
        cases isPartial
      · cases returned
        exact refl kmm
  · next slab rest _ isEmpty =>
      obtain ⟨slabsEmpty, removed, isNext⟩ := Outcome.bind_eq_ok.mp returned
      cases isNext
      refine setCache ⟨rfl, fun one _ => absurd ⟨one, ?_⟩ fresh⟩
      rw [isEmpty]
      exact List.cons_ne_nil slab rest
  · cases returned
    exact refl kmm

theorem objectAlloc (stay : calls.StayUnstuck) (wide : kmm.InternalWide)
    (returned : Yaeos.objectAlloc calls kmm slab ref = .ok (next, mem)) :
    kmm.StaysUnstuck next := by
  obtain ⟨_, -, rest⟩ := Outcome.bind_eq_ok.mp returned
  obtain ⟨freeCtl, -, rest⟩ := Outcome.bind_eq_ok.mp rest
  obtain ⟨freeBuffers, -, rest⟩ := Outcome.bind_eq_ok.mp rest
  have lowered : kmm.StaysUnstuck
      (kmm.setSlab slab { kmm.slab slab with freeBuffers := freeBuffers }) := of_cache rfl rfl
  dsimp only at rest
  split at rest
  · obtain ⟨middle, freed, isNext⟩ := Outcome.bind_eq_ok.mp rest
    cases isNext
    exact (lowered.trans (stay.free (lowered.wide wide) freed)).trans (of_cache rfl rfl)
  · cases rest
    exact lowered.trans (of_cache rfl rfl)

theorem cacheAlloc (stay : calls.StayUnstuck) (wide : kmm.InternalWide)
    (fresh : ¬kmm.ReusesSingle ref)
    (returned : Yaeos.cacheAlloc calls kmm ref = .ok (next, object)) : kmm.StaysUnstuck next := by
  obtain ⟨⟨middle, slab⟩, chosen, rest⟩ := Outcome.bind_eq_ok.mp returned
  have first : kmm.StaysUnstuck middle := by
    obtain ⟨⟨found, existing⟩, looked, chosen⟩ := Outcome.bind_eq_ok.mp chosen
    have look := findExistingSlab fresh looked
    cases existing with
    | some slab =>
        cases chosen
        exact look
    | none => exact look.trans (getNewSlab stay (look.wide wide) chosen)
  cases slab with
  | none =>
      cases rest
      exact first
  | some slab =>
      obtain ⟨⟨final, obj⟩, taken, rest⟩ := Outcome.bind_eq_ok.mp rest
      obtain ⟨_, -, isNext⟩ := Outcome.bind_eq_ok.mp rest
      cases isNext
      exact first.trans (objectAlloc stay (first.wide wide) taken)

theorem objectFree (stay : calls.StayUnstuck) (wide : kmm.InternalWide)
    (returned : Yaeos.objectFree calls kmm mem slab ref = .ok next) : kmm.StaysUnstuck next := by
  obtain ⟨_, -, rest⟩ := Outcome.bind_eq_ok.mp returned
  obtain ⟨⟨middle, ctl⟩, found, rest⟩ := Outcome.bind_eq_ok.mp rest
  obtain ⟨_, -, isNext⟩ := Outcome.bind_eq_ok.mp rest
  cases isNext
  have lowered : kmm.StaysUnstuck (kmm.setSlab slab
      { kmm.slab slab with objectsInuse := wrapSub (kmm.slab slab).objectsInuse 1 }) :=
    of_cache rfl rfl
  have second : kmm.StaysUnstuck middle := by
    unfold objectFreeCtl at found
    split at found
    · obtain ⟨⟨after, ctl'⟩, allocated, found⟩ := Outcome.bind_eq_ok.mp found
      obtain ⟨_, -, isMiddle⟩ := Outcome.bind_eq_ok.mp found
      cases isMiddle
      have later := lowered.wide wide
      exact lowered.trans (stay.alloc later later.largeBufctls_fresh allocated)
    · obtain ⟨_, -, isMiddle⟩ := Outcome.bind_eq_ok.mp found
      cases isMiddle
      exact lowered
  exact second.trans (of_cache rfl rfl)

/-- A release moves the slab to its list and gives the object back. -/
theorem cacheFree_cases (returned : Yaeos.cacheFree calls kmm ref mem = .ok next) :
    ∃ slab cache, leaveList (kmm.cache ref) slab (kmm.slab slab).objectsInuse = .ok cache ∧
      Yaeos.objectFree calls (kmm.setCache ref
        (Yaeos.enterList cache slab (kmm.slab slab).objectsInuse)) mem slab ref = .ok next := by
  obtain ⟨_, -, rest⟩ := Outcome.bind_eq_ok.mp returned
  obtain ⟨_, -, rest⟩ := Outcome.bind_eq_ok.mp rest
  obtain ⟨_, -, rest⟩ := Outcome.bind_eq_ok.mp rest
  obtain ⟨slab, -, rest⟩ := Outcome.bind_eq_ok.mp rest
  obtain ⟨cache, left, freed⟩ := Outcome.bind_eq_ok.mp rest
  exact ⟨slab, cache, left, freed⟩

theorem cacheFree (stay : calls.StayUnstuck) (wide : kmm.InternalWide)
    (returned : Yaeos.cacheFree calls kmm ref mem = .ok next) : kmm.StaysUnstuck next := by
  obtain ⟨slab, cache, left, freed⟩ := cacheFree_cases returned
  have moved : kmm.StaysUnstuck
      (kmm.setCache ref (Yaeos.enterList cache slab (kmm.slab slab).objectsInuse)) :=
    setCache ((KmmCache.StaysUnstuck.leaveList left).trans (.enterList _ slab _))
  exact moved.trans (objectFree stay (moved.wide wide) freed)

theorem freeBuffers (stay : calls.StayUnstuck) (wide : kmm.InternalWide)
    (returned : Yaeos.freeBuffers calls kmm ref slab = .ok next) : kmm.StaysUnstuck next := by
  unfold Yaeos.freeBuffers at returned
  dsimp only at returned
  split at returned
  · obtain ⟨middle, freed, last⟩ := Outcome.bind_eq_ok.mp returned
    have first : kmm.StaysUnstuck middle := by
      refine Loop.list_of_ok kmm.StaysUnstuck ?_ freed (refl kmm)
      intro ctl state after before given
      let dtor := destructorCalls ref (state.cache ref).toKmmCacheLayout ctl.memory
      let called : Kmm := { state with objectCalls := dtor ++ state.objectCalls }
      have isCalled : kmm.StaysUnstuck called := before.trans (of_cache rfl rfl)
      exact isCalled.trans (stay.free (isCalled.wide wide) given)
    exact first.trans (stay.free (first.wide wide) last)
  · cases returned
    apply List.foldlRecOn (motive := kmm.StaysUnstuck)
    · exact refl kmm
    · intro state before ctl _
      exact before.trans (of_cache rfl rfl)

theorem slabDestroy (stay : calls.StayUnstuck) (wide : kmm.InternalWide)
    (returned : Yaeos.slabDestroy calls ref kmm slab = .ok next) : kmm.StaysUnstuck next := by
  obtain ⟨middle, freed, rest⟩ := Outcome.bind_eq_ok.mp returned
  obtain ⟨cache, dropped, rest⟩ := Outcome.bind_eq_ok.mp rest
  obtain ⟨_, -, isNext⟩ := Outcome.bind_eq_ok.mp rest
  cases isNext
  have first := (freeBuffers stay wide freed).trans (setCache (.dropSlab dropped))
  exact first.trans (of_cache rfl rfl)

theorem freeSlabsList (stay : calls.StayUnstuck) (wide : kmm.InternalWide) {list : List Nat}
    (returned : Yaeos.freeSlabsList calls kmm list ref = .ok next) : kmm.StaysUnstuck next := by
  refine Loop.list_of_ok kmm.StaysUnstuck ?_ returned (refl kmm)
  intro slab state after before destroyed
  exact before.trans (slabDestroy stay (before.wide wide) destroyed)

end StaysUnstuck

end Kmm

theorem KmmCalls.StayUnstuck.nested {calls : KmmCalls} (stay : calls.StayUnstuck) :
    calls.nested.StayUnstuck where
  alloc wide fresh returned := .cacheAlloc stay wide fresh returned
  free wide returned := .cacheFree stay wide returned

theorem kmmCalls_stayUnstuck (depth : Nat) : (kmmCalls depth).StayUnstuck := by
  induction depth with
  | zero => exact ⟨fun _ _ impossible => (nomatch impossible), fun _ impossible => (nomatch impossible)⟩
  | succ depth inductionHypothesis => exact inductionHypothesis.nested

namespace Kmm.StaysUnstuck

variable {kmm next : Kmm} {ref : KmmCacheRef}

theorem kmmCacheTrim (wide : kmm.InternalWide) (returned : Yaeos.kmmCacheTrim kmm ref = .ok next) :
    kmm.StaysUnstuck next := freeSlabsList (kmmCalls_stayUnstuck kmmDepth) wide returned

theorem kmmCacheTrimAll (wide : kmm.InternalWide) (returned : Yaeos.kmmCacheTrimAll kmm = .ok next) :
    kmm.StaysUnstuck next := by
  refine Loop.list_of_ok kmm.StaysUnstuck ?_ returned (refl kmm)
  intro ref state after before trimmed
  exact before.trans (kmmCacheTrim (before.wide wide) trimmed)

end Kmm.StaysUnstuck

end Yaeos
