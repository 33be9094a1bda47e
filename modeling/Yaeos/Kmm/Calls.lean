import Yaeos.Kmm.Large

/-!
# Allocation (`kmm_cache_alloc` of `kernel/mm/kmm.c`)

What an allocation does in a state with the invariant, for small and large caches
together, and when it stops the kernel.
-/

namespace Yaeos

namespace Kmm

variable {kmm next : Kmm} {view view' : KmmView} {ref : KmmCacheRef} {slab : Nat}
  {storage users : List Nat} {live : List KmmEntry}

/-- A slab with one buffer is on the list of partial slabs although it is full: the
next call on the cache trips over it. -/
def Stuck (kmm : Kmm) (ref : KmmCacheRef) : Prop :=
  (kmm.cache ref).slabCapacity = 1 ∧ (kmm.cache ref).slabsPartial ≠ []

instance (kmm : Kmm) (ref : KmmCacheRef) : Decidable (kmm.Stuck ref) :=
  inferInstanceAs (Decidable (_ ∧ _))

/-- The cache has no slab with a free buffer. -/
def NoFreeSlab (kmm : Kmm) (ref : KmmCacheRef) : Prop :=
  (kmm.cache ref).slabsPartial = [] ∧ (kmm.cache ref).slabsEmpty = []

instance (kmm : Kmm) (ref : KmmCacheRef) : Decidable (kmm.NoFreeSlab ref) :=
  inferInstanceAs (Decidable (_ ∧ _))

theorem unstuck_of_not (free : ¬kmm.Stuck ref) :
    (kmm.cache ref).slabCapacity = 1 → (kmm.cache ref).slabsPartial = [] := by
  intro one
  by_contra some_
  exact free ⟨one, some_⟩

theorem CacheOk.noFreeSlab (ok : CacheOk kmm view ref kmm.inuse) (free : ¬kmm.Stuck ref) :
    kmm.NoFreeSlab ref ↔ kmm.freeObjects ref = 0 :=
  (freeObjects_eq_zero ok (unstuck_of_not free)).symm

/-- A full slab on the list of partial slabs has no buffer to take. -/
theorem cacheAlloc_stuck (ok : CacheOk kmm view ref kmm.inuse) (stuck : kmm.Stuck ref)
    (calls : KmmCalls) : cacheAlloc calls kmm ref = .error .kassert := by
  obtain ⟨one, some_⟩ := stuck
  obtain ⟨slab, rest, isPartial⟩ := List.exists_cons_of_ne_nil some_
  have member : slab ∈ (kmm.cache ref).slabsPartial := isPartial ▸ List.mem_cons_self ..
  have used := (ok.sorted.inPartial slab member).1
  have counted := ok.counts slab (KmmCache.mem_allSlabs.mpr (.inr (.inl member)))
  have capacity : (kmm.layout ref).slabCapacity = 1 := one
  have full : kmm.inuse slab = 1 := by omega
  have noFree : (kmm.slab slab).freeBuffers = [] := List.length_eq_zero_iff.mp (by omega)
  have sum : ¬wrap ((kmm.slab slab).objectsInuse + 1) = (kmm.cache ref).slabCapacity := by
    rw [show (kmm.slab slab).objectsInuse = 1 from full, one]
    decide
  have found : findExistingSlab kmm ref = .ok (kmm, some slab) := by
    unfold findExistingSlab
    simp only [isPartial, if_neg sum]
  simp only [cacheAlloc, chooseSlab, found, objectAlloc, noFree, slistIsEmpty, List.isEmpty_nil,
    Outcome.ok_bind]
  exact (congrArg (· >>= _) (congrArg (· >>= _) (kassert_error (by simp)))).trans rfl

/-- What may be relied on after an allocation. -/
inductive AllocResult (kmm : Kmm) (storage users : List Nat) (live : List KmmEntry)
    (ref : KmmCacheRef) : Outcome (Kmm × Option Nat) → Prop where
  /-- An object: it was not live before. -/
  | object {next : Kmm} {obj : Nat} {view : KmmView} :
      Ok next storage users view ((ref, obj) :: live) →
      Logged kmm storage live next ((ref, obj) :: live) →
      AllocResult kmm storage users live ref (.ok (next, some obj))
  /-- `NULL`: the live objects are as before, and the lists of the cache. -/
  | null {next : Kmm} {view : KmmView} :
      Ok next storage users view live → next.cache ref = (kmm.cache ref).nextColour →
      Logged kmm storage live next live →
      AllocResult kmm storage users live ref (.ok (next, none))

theorem Ok.alloc_small (ok : Ok kmm storage users view live) (member : ref ∈ kmm.known storage)
    (fresh : kmm.SupplyFresh) (free : ¬kmm.Stuck ref) (small : (kmm.layout ref).large = false)
    (calls : KmmCalls) : AllocResult kmm storage users live ref (cacheAlloc calls kmm ref) := by
  have cacheOk := ok.caches ref member
  have laidOut := ok.accounted.laidOut
  have unstuck := unstuck_of_not free
  have grows {next : Kmm} {view' : KmmView} {obj : Nat}
      (allocated : Allocated kmm view next view' ref obj) :
      AllocResult kmm storage users live ref (.ok (next, some obj)) := by
    have inner : Inner [ref] kmm view next view' :=
      allocated.inner small (List.mem_singleton_self ref)
    have nextOk : Ok next storage users view' ((ref, obj) :: live) := by
      refine ok.inner inner allocated.laidOut allocated.loose ?_ ?_
      · intro other isRef
        rw [List.mem_singleton.mp isRef]
        exact member
      · rw [allocated.held]
        exact ok.accounted.held.cons (ref, obj)
    exact .object nextOk
      (allocated.grows.logged ok nextOk inner.layout inner.registered inner.buffers)
  by_cases exhausted : kmm.freeObjects ref = 0
  · cases answer : kmm.supply.head?.join with
    | none =>
        rw [cacheAlloc_refused cacheOk small unstuck exhausted (fresh.nextPageFresh laidOut) answer
          calls]
        have refusedOk := @refused_laidOut kmm view ref laidOut answer
        have buffers (entry : KmmEntry) (_ : entry ∈ view.slabs) :=
          (@refused_sameSlab kmm ref entry).buffers (List.Perm.refl (onPage view.held _))
        have inner : Inner [ref] kmm view _ view :=
          refused_touches.inner small refusedOk (.inl rfl) (refused_cacheOk cacheOk) rfl buffers
            (List.mem_singleton_self ref)
        have nextOk : Ok (kmm.answered.setCache ref (kmm.cache ref).nextColour) storage users
            view live := by
          refine ok.inner inner refusedOk rfl ?_ ok.accounted.held
          intro other isRef
          rw [List.mem_singleton.mp isRef]
          exact member
        exact .null nextOk (setCache_cache_self ..) (.of_buffers ok.accounted (fun _ => ok.listed)
          nextOk inner.layout inner.registered (fun _ _ _ => Iff.rfl) buffers rfl)
    | some page =>
        obtain ⟨next, obj, returned, allocated, -⟩ := cacheAlloc_grown laidOut cacheOk small unstuck
          exhausted (fresh.nextPageFresh laidOut) answer calls
        rw [returned]
        exact grows allocated
  · obtain ⟨next, obj, returned, allocated, -⟩ :=
      cacheAlloc_existing laidOut cacheOk small unstuck exhausted calls
    rw [returned]
    exact grows allocated

theorem Taking.cacheAlloc (taking : Taking next storage users view' live ref slab)
    (logged : Logged kmm storage live next live) (large : (next.layout ref).large = true)
    {calls : KmmCalls}
    (choice : chooseSlab calls.nested kmm ref = .ok (next, some slab)) :
    AllocResult kmm storage users live ref (cacheAlloc calls.nested kmm ref) := by
  obtain ⟨final, finalView, obj, nonNull, allocated, ok, objectLogged⟩ :=
    taking.objectAlloc_large large calls
  have returned : Yaeos.cacheAlloc calls.nested kmm ref = .ok (final, some obj) := by
    simp only [Yaeos.cacheAlloc, choice, allocated, kassert_ok nonNull, Outcome.ok_bind]
  rw [returned]
  exact .object ok (logged.trans objectLogged)

/-- A large cache that need not grow, or gets everything it needs, or no slab. -/
theorem Ok.alloc_large (ok : Ok kmm storage users view live) (member : ref ∈ kmm.known storage)
    (fresh : kmm.SupplyFresh) (free : ¬kmm.Stuck ref) (large : (kmm.layout ref).large = true)
    (enough : kmm.NoFreeSlab ref → kmm.NoSlab ∨
      (kmm.cache ref).slabCapacity ≤ kmm.bufctlsLeft) (calls : KmmCalls) :
    AllocResult kmm storage users live ref (cacheAlloc calls.nested kmm ref) := by
  have cacheOk := ok.caches ref member
  have unstuck := unstuck_of_not free
  by_cases exhausted : kmm.freeObjects ref = 0
  · have new := chooseSlab_new cacheOk unstuck exhausted calls.nested
    by_cases noSlab : kmm.NoSlab
    · obtain ⟨next, slabs, returned, nextOk, isCache, logged⟩ :=
        ok.getNewSlab_noSlab member large fresh noSlab calls
      have result : cacheAlloc calls.nested kmm ref = .ok (next, none) := by
        simp only [cacheAlloc, new, returned, Outcome.ok_bind]
      rw [result]
      exact .null nextOk isCache logged
    · have bufctls :=
        (enough ((cacheOk.noFreeSlab free).mpr exhausted)).resolve_left noSlab
      obtain ⟨next, view', slab, returned, layout, taking, logged⟩ :=
        ok.taking_grown member large fresh noSlab bufctls calls
      exact taking.cacheAlloc logged (by rw [layout]; exact large) (new.trans returned)
  · obtain ⟨next, slab, choice, layout, taking, logged⟩ :=
      ok.taking_existing member unstuck exhausted calls.nested
    exact taking.cacheAlloc logged (by rw [layout]; exact large) choice

/-- Where an allocation does not do what it should, it stops the kernel. -/
theorem Ok.alloc_fails (ok : Ok kmm storage users view live) (member : ref ∈ kmm.known storage)
    (fresh : kmm.SupplyFresh)
    (fails : kmm.Stuck ref ∨ (kmm.cache ref).large = true ∧ kmm.NoFreeSlab ref ∧ ¬kmm.NoSlab ∧
      kmm.bufctlsLeft < (kmm.cache ref).slabCapacity) (calls : KmmCalls) :
    cacheAlloc calls.nested kmm ref = .error .kassert := by
  have cacheOk := ok.caches ref member
  by_cases stuck : kmm.Stuck ref
  · exact cacheAlloc_stuck cacheOk stuck calls.nested
  · obtain ⟨large, noFree, exists_slab, short⟩ := fails.resolve_left stuck
    have exhausted := (cacheOk.noFreeSlab stuck).mp noFree
    have noNew := ok.getNewSlab_fails member large fresh exists_slab short calls
    simp only [cacheAlloc, chooseSlab_new cacheOk (unstuck_of_not stuck) exhausted calls.nested,
      noNew, Outcome.error_bind]

/-- An allocation does what it should exactly when the cache is not stuck and a new
slab of a large cache gets all its control blocks. -/
theorem Ok.alloc_iff (ok : Ok kmm storage users view live) (member : ref ∈ kmm.known storage)
    (fresh : kmm.SupplyFresh) (calls : KmmCalls) :
    AllocResult kmm storage users live ref (cacheAlloc calls.nested kmm ref) ↔
      ¬kmm.Stuck ref ∧ ((kmm.cache ref).large = true → kmm.NoFreeSlab ref →
        kmm.NoSlab ∨ (kmm.cache ref).slabCapacity ≤ kmm.bufctlsLeft) := by
  constructor
  · intro result
    by_contra missing
    have fails : kmm.Stuck ref ∨ (kmm.cache ref).large = true ∧ kmm.NoFreeSlab ref ∧ ¬kmm.NoSlab ∧
        kmm.bufctlsLeft < (kmm.cache ref).slabCapacity := by
      by_cases stuck : kmm.Stuck ref
      · exact .inl stuck
      · right
        by_contra enough
        refine missing ⟨stuck, fun large noFree => ?_⟩
        by_contra short
        obtain ⟨exists_slab, less⟩ := not_or.mp short
        exact enough ⟨large, noFree, exists_slab, Nat.lt_of_not_le less⟩
    rw [ok.alloc_fails member fresh fails calls] at result
    cases result
  · rintro ⟨free, enough⟩
    cases large : (kmm.layout ref).large with
    | false => exact ok.alloc_small member fresh free large calls.nested
    | true => exact ok.alloc_large member fresh free large (enough large) calls

/-- An allocation that returns does what it should. -/
theorem Ok.alloc_returned (ok : Ok kmm storage users view live) (member : ref ∈ kmm.known storage)
    (fresh : kmm.SupplyFresh) {calls : KmmCalls} {result : Kmm × Option Nat}
    (returned : cacheAlloc calls.nested kmm ref = .ok result) :
    AllocResult kmm storage users live ref (cacheAlloc calls.nested kmm ref) := by
  refine (ok.alloc_iff member fresh calls).mpr ⟨fun stuck => ?_, fun large noFree => ?_⟩
  · rw [ok.alloc_fails member fresh (.inl stuck) calls] at returned
    cases returned
  · by_contra short
    obtain ⟨exists_slab, less⟩ := not_or.mp short
    rw [ok.alloc_fails member fresh
      (.inr ⟨large, noFree, exists_slab, Nat.lt_of_not_le less⟩) calls] at returned
    cases returned

end Kmm

end Yaeos
