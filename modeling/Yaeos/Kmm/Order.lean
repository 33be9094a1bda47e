import Yaeos.Kmm.Unstuck

/-!
# Slabs on their lists

The lists of a cache are in order when each slab is on the list its count asks
for.  The runs that keep them so are those in which no empty slab with one
buffer is taken again.
-/

namespace Yaeos

namespace Kmm

/-- Each slab of a cache is on one list, that for the number of its objects, and its
other buffers are free. -/
structure InOrder (kmm : Kmm) (ref : KmmCacheRef) : Prop where
  once : (kmm.cache ref).allSlabs.Nodup
  inEmpty : ∀ slab ∈ (kmm.cache ref).allSlabs,
    slab ∈ (kmm.cache ref).slabsEmpty ↔ kmm.inuse slab = 0
  inFull : ∀ slab ∈ (kmm.cache ref).allSlabs,
    slab ∈ (kmm.cache ref).slabsFull ↔ kmm.inuse slab = (kmm.cache ref).slabCapacity
  inPartial : ∀ slab ∈ (kmm.cache ref).allSlabs, slab ∈ (kmm.cache ref).slabsPartial ↔
    kmm.inuse slab ≠ 0 ∧ kmm.inuse slab ≠ (kmm.cache ref).slabCapacity
  free : ∀ slab ∈ (kmm.cache ref).allSlabs,
    (kmm.slab slab).freeBuffers.length + kmm.inuse slab = (kmm.cache ref).slabCapacity

variable {kmm next : Kmm} {view : KmmView} {ref other : KmmCacheRef} {slab mem : Nat}
  {storage users : List Nat} {live : List KmmEntry} {object : Option Nat} {calls : KmmCalls}

theorem CacheOk.inOrder (ok : CacheOk kmm view ref kmm.inuse) (free : ¬kmm.Stuck ref) :
    kmm.InOrder ref := by
  obtain ⟨-, -, -, emptyPartial, emptyFull, partialFull⟩ := KmmCache.allSlabs_nodup.mp ok.nodup
  have capacityPos : 0 < (kmm.cache ref).slabCapacity := ok.sound.capacity_pos
  have counts : ∀ slab ∈ (kmm.cache ref).allSlabs,
      kmm.inuse slab + (kmm.slab slab).freeBuffers.length = (kmm.cache ref).slabCapacity := ok.counts
  have empty : ∀ slab ∈ (kmm.cache ref).slabsEmpty, kmm.inuse slab = 0 := ok.sorted.inEmpty
  have full : ∀ slab ∈ (kmm.cache ref).slabsFull,
      kmm.inuse slab = (kmm.cache ref).slabCapacity := ok.sorted.inFull
  have some_ : ∀ slab ∈ (kmm.cache ref).slabsPartial,
      kmm.inuse slab ≠ 0 ∧ kmm.inuse slab ≠ (kmm.cache ref).slabCapacity := by
    intro slab isPartial
    obtain ⟨used, below | one⟩ := ok.sorted.inPartial slab isPartial
    · exact ⟨Nat.ne_of_gt used, Nat.ne_of_lt below⟩
    · rw [unstuck_of_not free one] at isPartial
      exact (List.not_mem_nil isPartial).elim
  refine ⟨ok.nodup, fun slab member => ?_, fun slab member => ?_, fun slab member => ?_,
    fun slab member => (Nat.add_comm ..).trans (counts slab member)⟩
  all_goals rcases KmmCache.mem_allSlabs.mp member with isEmpty | isPartial | isFull
  · exact iff_of_true isEmpty (empty slab isEmpty)
  · exact iff_of_false (fun isEmpty => emptyPartial slab isEmpty isPartial) (some_ slab isPartial).1
  · refine iff_of_false (fun isEmpty => emptyFull slab isEmpty isFull) ?_
    rw [full slab isFull]
    exact Nat.ne_of_gt capacityPos
  · refine iff_of_false (emptyFull slab isEmpty) ?_
    rw [empty slab isEmpty]
    exact Nat.ne_of_lt capacityPos
  · exact iff_of_false (partialFull slab isPartial) (some_ slab isPartial).2
  · exact iff_of_true isFull (full slab isFull)
  · exact iff_of_false (emptyPartial slab isEmpty) fun ⟨used, _⟩ => used (empty slab isEmpty)
  · exact iff_of_true isPartial (some_ slab isPartial)
  · refine iff_of_false (fun isPartial => partialFull slab isPartial isFull) ?_
    exact fun ⟨_, notFull⟩ => notFull (full slab isFull)

/-- A slab with one buffer is empty or full. -/
theorem InOrder.not_stuck (inOrder : kmm.InOrder ref) : ¬kmm.Stuck ref := by
  rintro ⟨one, some_⟩
  obtain ⟨slab, rest, isPartial⟩ := List.exists_cons_of_ne_nil some_
  have isListed : slab ∈ (kmm.cache ref).slabsPartial := isPartial ▸ List.mem_cons_self ..
  have member := KmmCache.mem_allSlabs.mpr (.inr (.inl isListed))
  obtain ⟨used, notFull⟩ := (inOrder.inPartial slab member).mp isListed
  have counted := inOrder.free slab member
  omega

/-- Without partial slabs the slab of the only object is full. -/
theorem CacheOk.onFull (ok : CacheOk kmm view ref kmm.inuse) (laidOut : kmm.LaidOut view)
    (free : ¬kmm.Stuck ref) (isHeld : (ref, mem) ∈ view.held) : kmm.OnFull ref mem := by
  intro one slab owned
  obtain ⟨home, isSlab, isHome⟩ := laidOut.home _ isHeld
  have laid := (laidOut.slab _ isSlab).owned
  rw [← isHome, owned] at laid
  have same : slab = home := Option.some.inj laid
  subst same
  have used := ok.used laidOut isSlab isHeld isHome
  rcases KmmCache.mem_allSlabs.mp ((ok.listed slab).mpr isSlab) with isEmpty | isPartial | isFull
  · exact absurd (ok.sorted.inEmpty slab isEmpty) (Nat.ne_of_gt used)
  · rw [unstuck_of_not free one] at isPartial
    exact (List.not_mem_nil isPartial).elim
  · exact isFull

/-! ## An empty slab with one buffer -/

/-- A release to a small cache changes no other cache. -/
theorem cacheFree_cache (returned : cacheFree calls kmm ref mem = .ok next)
    (small : (kmm.cache ref).large = false) (different : other ≠ ref) :
    next.cache other = kmm.cache other := by
  obtain ⟨slab, cache, left, freed⟩ := StaysUnstuck.cacheFree_cases returned
  obtain ⟨_, -, rest⟩ := Outcome.bind_eq_ok.mp freed
  obtain ⟨⟨middle, ctl⟩, found, rest⟩ := Outcome.bind_eq_ok.mp rest
  obtain ⟨_, -, isNext⟩ := Outcome.bind_eq_ok.mp rest
  cases isNext
  have stays := (KmmCache.StaysUnstuck.leaveList left).trans
    (.enterList cache slab (kmm.slab slab).objectsInuse)
  have notLarge := (congrArg KmmCacheLayout.large stays.layout).trans small
  unfold objectFreeCtl at found
  simp only [setSlab_cache, setCache_cache_self, notLarge, Bool.false_eq_true, if_false] at found
  obtain ⟨ctl', -, isMiddle⟩ := Outcome.bind_eq_ok.mp found
  cases isMiddle
  exact setCache_cache_of_ne _ _ different

theorem objectAlloc_cache (small : (kmm.cache .largeBufctls).large = false)
    (different : ref ≠ .largeBufctls)
    (returned : objectAlloc calls.nested kmm slab ref = .ok (next, mem)) :
    next.cache ref = kmm.cache ref := by
  obtain ⟨_, -, rest⟩ := Outcome.bind_eq_ok.mp returned
  obtain ⟨freeCtl, -, rest⟩ := Outcome.bind_eq_ok.mp rest
  obtain ⟨freeBuffers, -, rest⟩ := Outcome.bind_eq_ok.mp rest
  dsimp only at rest
  split at rest
  · obtain ⟨middle, freed, isNext⟩ := Outcome.bind_eq_ok.mp rest
    cases isNext
    have stays := cacheFree_cache freed small different
    exact stays
  · cases rest
    rfl

/-- The slab that is taken is full, and stays on the list of partial slabs. -/
theorem cacheAlloc_reuse (free : ¬kmm.Stuck ref) (reuses : kmm.ReusesSingle ref)
    (small : (kmm.cache .largeBufctls).large = false) (different : ref ≠ .largeBufctls)
    (returned : cacheAlloc calls.nested kmm ref = .ok (next, object)) : next.Stuck ref := by
  obtain ⟨one, some_⟩ := reuses
  have none_ := unstuck_of_not free one
  obtain ⟨slab, rest, isEmpty⟩ := List.exists_cons_of_ne_nil some_
  have found : findExistingSlab kmm ref = .ok (kmm.setCache ref { kmm.cache ref with
      slabsEmpty := rest, slabsPartial := [slab] }, some slab) := by
    unfold findExistingSlab
    simp only [none_, isEmpty, slistRemove, slistInsert, if_true, Outcome.ok_bind]
  simp only [cacheAlloc, chooseSlab, found, Outcome.ok_bind] at returned
  obtain ⟨⟨middle, obj⟩, taken, returned⟩ := Outcome.bind_eq_ok.mp returned
  obtain ⟨_, -, isNext⟩ := Outcome.bind_eq_ok.mp returned
  cases isNext
  have stays := objectAlloc_cache (by rwa [setCache_cache_of_ne _ _ different.symm]) different taken
  rw [setCache_cache_self] at stays
  unfold Stuck
  rw [stays]
  exact ⟨one, List.cons_ne_nil slab []⟩

/-- No cache is stuck. -/
def Unstuck (kmm : Kmm) (storage : List Nat) : Prop :=
  ∀ ref ∈ kmm.known storage, ¬kmm.Stuck ref

theorem StaysUnstuck.unstuck (stays : kmm.StaysUnstuck next) (unstuck : kmm.Unstuck storage) :
    next.Unstuck storage := by
  intro ref isKnown
  rw [known, stays.registered] at isKnown
  exact stays.not_stuck (unstuck ref isKnown)

/-- A cache that is set up has no slabs. -/
theorem not_stuck_init {params : KmmCacheParams} {cache : KmmCache} (valid : params.Valid)
    (returned : kmmCacheInit params = .ok cache) : ¬(kmm.setCache ref cache).Stuck ref := by
  rintro ⟨-, some_⟩
  rw [setCache_cache_self] at some_
  exact some_ (kmmCacheInit_spec valid returned).2.2.2.1

theorem not_stuck_setCache {cache : KmmCache} (different : other ≠ ref) (free : ¬kmm.Stuck other) :
    ¬(kmm.setCache ref cache).Stuck other := by
  unfold Stuck
  rwa [setCache_cache_of_ne _ _ different]

theorem Unstuck.create (unstuck : kmm.Unstuck storage) (wide : kmm.InternalWide)
    (more : ¬kmm.ReusesSingle .caches) {params : KmmCacheParams} (valid : params.Valid)
    (returned : kmmCacheCreate kmm params = .ok (next, object)) : next.Unstuck storage := by
  obtain ⟨⟨middle, address⟩, allocated, rest⟩ := Outcome.bind_eq_ok.mp returned
  have stays := (kmmCalls_stayUnstuck kmmDepth).alloc wide more allocated
  have before := stays.unstuck unstuck
  cases address with
  | none =>
      cases rest
      exact before
  | some address =>
      obtain ⟨cache, isCache, isNext⟩ := Outcome.bind_eq_ok.mp rest
      cases isNext
      intro ref isKnown
      by_cases same : ref = .created address
      · rw [same]
        exact @not_stuck_init middle _ params cache valid isCache
      · refine @not_stuck_setCache middle _ _ cache same (before ref ?_)
        exact (List.mem_cons.mp isKnown).resolve_left same

theorem Unstuck.destroy (unstuck : kmm.Unstuck storage) (wide : kmm.InternalWide) {address : Nat}
    (returned : kmmCacheDestroy kmm address = .ok next) : next.Unstuck storage := by
  have stay := kmmCalls_stayUnstuck kmmDepth
  obtain ⟨first, freedFull, rest⟩ := Outcome.bind_eq_ok.mp returned
  obtain ⟨second, freedPartial, rest⟩ := Outcome.bind_eq_ok.mp rest
  obtain ⟨third, freedEmpty, rest⟩ := Outcome.bind_eq_ok.mp rest
  obtain ⟨allocatedCaches, removed, freed⟩ := Outcome.bind_eq_ok.mp rest
  have one := StaysUnstuck.freeSlabsList stay wide freedFull
  have two := one.trans (.freeSlabsList stay (one.wide wide) freedPartial)
  have three := two.trans (.freeSlabsList stay (two.wide wide) freedEmpty)
  have before := three.unstuck unstuck
  let fewer : Kmm := { third with allocatedCaches := allocatedCaches }
  have fewerUnstuck : fewer.Unstuck storage := by
    intro ref isKnown
    refine before ref ?_
    rcases List.mem_append.mp isKnown with isListed | isStorage
    · have isErased : allocatedCaches = third.allocatedCaches.erase (.created address) :=
        (slistRemove_eq_ok.mp removed).2
      have isErased' : ref ∈ allocatedCaches := isListed
      rw [isErased] at isErased'
      exact List.mem_append_left _ (List.mem_of_mem_erase isErased')
    · exact List.mem_append_right _ isStorage
  have fewerWide : fewer.InternalWide := ⟨(three.wide wide).slabs, (three.wide wide).largeBufctls⟩
  exact (stay.free fewerWide freed).unstuck fewerUnstuck

end Kmm

/-- The calls that allocate, free and trim. -/
def KmmAction.OnObjects : KmmAction → Prop
  | .alloc _ | .free _ _ | .trim _ | .trimAll => True
  | _ => False

namespace KmmSystem

/-- The lists of all caches are in order, and no slab is lost. -/
structure InOrder (system : KmmSystem) : Prop where
  caches : ∀ ref ∈ system.kmm.known system.storage, system.kmm.InOrder ref
  /-- A page that was obtained and not released is that of one slab on one list. -/
  pages : system.kmm.obtained.Perm (system.kmm.slabPages system.storage ++ system.kmm.released)
  /-- The slab of an object is on a list of its cache. -/
  live : ∀ object ∈ system.live, ∃ slab ∈ (system.kmm.cache object.1).allSlabs,
    system.kmm.owner (pageOf object.2) = some slab

/-- The call takes an empty slab with one buffer. -/
def TakesSingle (system : KmmSystem) : KmmAction → Prop
  | .alloc ref => system.kmm.ReusesSingle ref
  | _ => False

instance (system : KmmSystem) : (action : KmmAction) → Decidable (system.TakesSingle action)
  | .alloc ref => inferInstanceAs (Decidable (system.kmm.ReusesSingle ref))
  | .initStorage .. => instDecidableFalse
  | .create .. => instDecidableFalse
  | .destroy .. => instDecidableFalse
  | .free .. => instDecidableFalse
  | .trim .. => instDecidableFalse
  | .trimAll => instDecidableFalse

def KeepsOrder (system : KmmSystem) (call : KmmCall) : Prop := ¬system.TakesSingle call.action

instance (system : KmmSystem) (call : KmmCall) : Decidable (system.KeepsOrder call) :=
  inferInstanceAs (Decidable (¬_))

/-- `ALLOC_PAGE_FN` has a page for each slab that the call needs: one for a cache without
a free buffer, and for a large cache also those of the descriptor and the control blocks. -/
def PagesSupplied (kmm : Kmm) : KmmAction → Prop
  | .alloc ref => kmm.NoFreeSlab ref →
      if (kmm.cache ref).large then ¬kmm.NoSlab ∧ (kmm.cache ref).slabCapacity ≤ kmm.bufctlsLeft
      else kmm.supply.head?.join ≠ none
  | .free ref _ => (kmm.cache ref).large = true → kmm.available .largeBufctls ≠ 0
  | _ => True

variable {system next : KmmSystem} {ref : KmmCacheRef}

theorem Consistent.inOrder (consistent : system.Consistent)
    (unstuck : system.kmm.Unstuck system.storage) : system.InOrder := by
  obtain ⟨users, view, ok⟩ := consistent
  refine ⟨fun ref isKnown => (ok.caches ref isKnown).inOrder (unstuck ref isKnown), ok.pages_balance,
    fun object isLive => ?_⟩
  obtain ⟨slab, isSlab, home⟩ := ok.accounted.laidOut.home _ (ok.accounted.live_held isLive)
  have isKnown := ok.accounted.slabs _ isSlab
  refine ⟨slab, ((ok.caches _ isKnown).listed slab).mpr isSlab, ?_⟩
  rw [home]
  exact (ok.accounted.laidOut.slab _ isSlab).owned

theorem Consistent.wide (consistent : system.Consistent) : system.kmm.InternalWide := by
  obtain ⟨users, view, ok⟩ := consistent
  have slabs := congrArg KmmCacheLayout.slabCapacity ok.accounted.slabsIs
  have largeBufctls := congrArg KmmCacheLayout.slabCapacity ok.accounted.largeBufctlsIs
  refine ⟨fun one => ?_, fun one => ?_⟩
  · exact absurd (slabs.symm.trans one) (by decide)
  · exact absurd (largeBufctls.symm.trans one) (by decide)

theorem Consistent.unstuck_perform (consistent : system.Consistent)
    (unstuck : system.kmm.Unstuck system.storage) {action : KmmAction}
    (permitted : system.Permitted action)
    (keeps : ¬system.TakesSingle action)
    (returned : system.perform action = .ok next) : next.kmm.Unstuck next.storage := by
  have wide := consistent.wide
  cases action with
  | initStorage index params =>
      obtain ⟨cache, isCache, isNext⟩ := Outcome.bind_eq_ok.mp returned
      cases isNext
      intro ref isKnown
      by_cases same : ref = .storage index
      · rw [same]
        exact Kmm.not_stuck_init permitted.2 isCache
      · refine Kmm.not_stuck_setCache same (unstuck ref ?_)
        rcases List.mem_append.mp isKnown with isListed | isStorage
        · exact List.mem_append_left _ isListed
        · exact List.mem_append_right _ ((List.mem_cons.mp isStorage).resolve_left same)
  | create params =>
      obtain ⟨⟨kmm, answer⟩, created, isNext⟩ := Outcome.bind_eq_ok.mp returned
      cases isNext
      obtain ⟨users, view, ok⟩ := consistent
      have capacity := congrArg KmmCacheLayout.slabCapacity ok.accounted.cachesIs
      refine unstuck.create wide (fun ⟨one, _⟩ => ?_) permitted created
      exact absurd (capacity.symm.trans one) (by decide)
  | destroy address =>
      obtain ⟨kmm, destroyed, isNext⟩ := Outcome.bind_eq_ok.mp returned
      cases isNext
      exact unstuck.destroy wide destroyed
  | alloc ref =>
      obtain ⟨⟨kmm, object⟩, allocated, isNext⟩ := Outcome.bind_eq_ok.mp returned
      cases isNext
      exact ((kmmCalls_stayUnstuck kmmDepth).alloc wide keeps allocated).unstuck unstuck
  | free ref mem =>
      obtain ⟨kmm, freed, isNext⟩ := Outcome.bind_eq_ok.mp returned
      cases isNext
      exact ((kmmCalls_stayUnstuck kmmDepth).free wide freed).unstuck unstuck
  | trim ref =>
      obtain ⟨kmm, trims, isNext⟩ := Outcome.bind_eq_ok.mp returned
      cases isNext
      exact (Kmm.StaysUnstuck.kmmCacheTrim wide trims).unstuck unstuck
  | trimAll =>
      obtain ⟨kmm, trims, isNext⟩ := Outcome.bind_eq_ok.mp returned
      cases isNext
      exact (Kmm.StaysUnstuck.kmmCacheTrimAll wide trims).unstuck unstuck

/-- A call on objects returns when it gets the pages it needs. -/
theorem Consistent.returns (consistent : system.Consistent)
    (unstuck : system.kmm.Unstuck system.storage) (fresh : system.kmm.SupplyFresh)
    {action : KmmAction} (permitted : system.Permitted action) (onObjects : action.OnObjects)
    (pages : PagesSupplied system.kmm action) : ∃ next, system.perform action = .ok next := by
  obtain ⟨users, view, ok⟩ := consistent
  cases action with
  | initStorage | create | destroy => exact onObjects.elim
  | alloc ref =>
      have iff := ok.alloc_iff permitted fresh (kmmCalls 0)
      have result := iff.mpr ⟨unstuck ref permitted, fun large noFree => .inr ?_⟩
      · have isAlloc : kmmCacheAlloc system.kmm ref = cacheAlloc (kmmCalls 0).nested system.kmm ref :=
          rfl
        rw [← isAlloc] at result
        simp only [KmmSystem.perform]
        cases returned : kmmCacheAlloc system.kmm ref with
        | error fault =>
            rw [returned] at result
            cases result
        | ok final => exact ⟨_, rfl⟩
      · have enough := pages noFree
        rw [if_pos large] at enough
        exact enough.2
  | free ref mem =>
      have isHeld := ok.accounted.live_held permitted
      obtain ⟨slab, isSlab, -⟩ := ok.accounted.laidOut.home _ isHeld
      have isKnown := ok.accounted.slabs _ isSlab
      have onFull :=
        (ok.caches ref isKnown).onFull ok.accounted.laidOut (unstuck ref isKnown) isHeld
      have freed : ∃ final, kmmCacheFree system.kmm ref mem = .ok final := by
        cases large : (system.kmm.layout ref).large with
        | false =>
            obtain ⟨final, -, returned, -⟩ :=
              ok.free_small isKnown permitted onFull large (kmmCalls 1)
            exact ⟨final, returned⟩
        | true =>
            obtain ⟨final, -, returned, -⟩ :=
              ok.free_large isKnown permitted onFull large fresh (pages large) (kmmCalls 0)
            exact ⟨final, returned⟩
      obtain ⟨final, returned⟩ := freed
      simp only [KmmSystem.perform, returned, Outcome.ok_bind]
      exact ⟨_, rfl⟩
  | trim ref =>
      obtain ⟨final, -, returned, -⟩ := ok.trim permitted
      simp only [KmmSystem.perform, returned, Outcome.ok_bind]
      exact ⟨_, rfl⟩
  | trimAll =>
      obtain ⟨final, -, returned, -⟩ := ok.trimAll
      simp only [KmmSystem.perform, returned, Outcome.ok_bind]
      exact ⟨_, rfl⟩

theorem Initial.unstuck (initial : system.Initial) : system.kmm.Unstuck system.storage := by
  obtain ⟨noStorage, -, before, obtained, released, returned⟩ := initial
  have ok := Kmm.Ok.init obtained released returned
  intro ref isKnown
  rw [noStorage, Kmm.known, ok.accounted.registered] at isKnown
  simp only [List.map_nil, List.nil_append, List.append_nil, List.mem_cons, List.not_mem_nil,
    or_false] at isKnown
  rintro ⟨one, -⟩
  have capacity : (system.kmm.layout ref).slabCapacity = 1 := one
  rcases isKnown with rfl | rfl | rfl
  · rw [ok.accounted.largeBufctlsIs] at capacity
    exact absurd capacity (by decide)
  · rw [ok.accounted.slabsIs] at capacity
    exact absurd capacity (by decide)
  · rw [ok.accounted.cachesIs] at capacity
    exact absurd capacity (by decide)

/-- What holds in every run that takes no empty slab with one buffer. -/
theorem unstuck_of_reachable (reached : (kmmMachine.guard KeepsOrder).Reachable system) :
    system.Consistent ∧ system.kmm.Unstuck system.storage := by
  have base : ∀ state, (kmmMachine.guard KeepsOrder).initial state →
      state.Consistent ∧ state.kmm.Unstuck state.storage :=
    fun state initial => ⟨@Initial.consistent state initial, @Initial.unstuck state initial⟩
  have preserved : ∀ state call next,
      state.Consistent ∧ state.kmm.Unstuck state.storage →
      (kmmMachine.guard KeepsOrder).step state call next →
      next.Consistent ∧ next.kmm.Unstuck next.storage := by
    rintro state ⟨action, supply⟩ next ⟨⟨users, view, ok⟩, unstuck⟩
      ⟨keeps, ⟨fresh, permitted⟩, returned⟩
    have supplied : Consistent { state with kmm := state.kmm.supplied supply } :=
      ⟨users, view, ok.supplied supply⟩
    exact ⟨supplied.perform fresh permitted returned,
      supplied.unstuck_perform unstuck permitted keeps returned⟩
  exact reached.invariant base preserved

/-- As long as no empty slab with one buffer is taken, the lists are in order; the next
call, with the pages it needs, returns with the lists in order exactly if it does not
take one either. -/
theorem inOrder_of_reachable (reached : (kmmMachine.guard KeepsOrder).Reachable system) :
    system.InOrder ∧ ∀ call, system.Legal call → call.action.OnObjects →
      PagesSupplied (system.kmm.supplied call.supply) call.action →
      ((∃ next, system.call call = .ok next ∧ next.InOrder) ↔ system.KeepsOrder call) := by
  obtain ⟨⟨users, view, ok⟩, unstuck⟩ := unstuck_of_reachable reached
  refine ⟨Consistent.inOrder ⟨users, view, ok⟩ unstuck, ?_⟩
  rintro ⟨action, supply⟩ ⟨fresh, permitted⟩ onObjects pages
  have supplied : Consistent { system with kmm := system.kmm.supplied supply } :=
    ⟨users, view, ok.supplied supply⟩
  constructor
  · rintro ⟨next, returned, inOrder⟩ takes
    obtain ⟨ref, rfl, reuses⟩ : ∃ ref, action = .alloc ref ∧ system.kmm.ReusesSingle ref := by
      cases action with
      | alloc ref => exact ⟨ref, rfl, takes⟩
      | _ => exact takes.elim
    obtain ⟨⟨kmm, object⟩, allocated, isNext⟩ := Outcome.bind_eq_ok.mp returned
    cases isNext
    have isAlloc : cacheAlloc (kmmCalls 0).nested (system.kmm.supplied supply) ref =
      .ok (kmm, object) := allocated
    have small := congrArg KmmCacheLayout.large ok.accounted.largeBufctlsIs
    have different : ref ≠ .largeBufctls := by
      rintro rfl
      exact supplied.wide.largeBufctls reuses.1
    have free : ¬(system.kmm.supplied supply).Stuck ref := unstuck ref permitted
    have stuck : kmm.Stuck ref := Kmm.cacheAlloc_reuse free reuses small different isAlloc
    have result := (ok.supplied supply).alloc_returned permitted fresh isAlloc
    rw [isAlloc] at result
    have registered : kmm.allocatedCaches = system.kmm.allocatedCaches := by
      cases result with
      | object nextOk => exact nextOk.accounted.registered.trans ok.accounted.registered.symm
      | null nextOk _ => exact nextOk.accounted.registered.trans ok.accounted.registered.symm
    have isKnown : ref ∈ kmm.known system.storage := by
      rw [Kmm.known, registered]
      exact permitted
    exact (inOrder.caches ref isKnown).not_stuck stuck
  · intro keeps
    obtain ⟨next, returned⟩ := supplied.returns unstuck fresh permitted onObjects pages
    have nextUnstuck := supplied.unstuck_perform unstuck permitted keeps returned
    exact ⟨next, returned, (supplied.perform fresh permitted returned).inOrder nextUnstuck⟩

theorem alloc_stops (reached : kmmMachine.Reachable system)
    (isKnown : ref ∈ system.kmm.known system.storage) (stuck : system.kmm.Stuck ref)
    (supply : List (Option Nat)) : system.call ⟨.alloc ref, supply⟩ = .error .kassert := by
  obtain ⟨users, view, ok⟩ := consistent_of_reachable reached
  have stops : kmmCacheAlloc (system.kmm.supplied supply) ref = .error .kassert :=
    Kmm.cacheAlloc_stuck ((ok.supplied supply).caches ref isKnown) stuck (kmmCalls 1)
  simp only [call, perform, stops, Outcome.error_bind]

/-- The object of a slab with one buffer was freed, and the slab is taken again. -/
def singleReused : KmmSystem :=
  (after [⟨.initStorage 0 { size := 2048, align := 0 }, []⟩,
    ⟨.alloc (.storage 0), [some 4096, some 8192, some 12288]⟩,
    ⟨.free (.storage 0) 8196, []⟩, ⟨.alloc (.storage 0), []⟩]).get (by decide +kernel)

/-- The slab is full, but on the list of partial slabs; the next allocation stops. -/
theorem singleReused_notInOrder : kmmMachine.Reachable singleReused ∧ ¬singleReused.InOrder ∧
    singleReused.call ⟨.alloc (.storage 0), [some 16384, some 20480, some 24576]⟩ =
      .error .kassert := by
  have reached : kmmMachine.Reachable singleReused := reachable_after (Option.some_get _).symm
  have isKnown : KmmCacheRef.storage 0 ∈ singleReused.kmm.known singleReused.storage := by
    decide +kernel
  have stuck : singleReused.kmm.Stuck (.storage 0) := by decide +kernel
  exact ⟨reached, fun inOrder => (inOrder.caches _ isKnown).not_stuck stuck,
    alloc_stops reached isKnown stuck _⟩

/-- The object of a slab with one buffer is live. -/
def singleLive : KmmSystem :=
  (Machine.execute (fun state call => state.Legal call ∧ state.KeepsOrder call) KmmSystem.call
    [⟨.initStorage 0 { size := 2048, align := 0 }, []⟩,
      ⟨.alloc (.storage 0), [some 4096, some 8192, some 12288]⟩] booted).get (by decide +kernel)

theorem singleLive_inOrder : singleLive.InOrder ∧
    ∃ next, singleLive.call ⟨.free (.storage 0) 8196, []⟩ = .ok next ∧ next.InOrder := by
  have enabled (state : KmmSystem) (call : KmmCall) (next : KmmSystem)
      (legal : state.Legal call ∧ state.KeepsOrder call) (returned : state.call call = .ok next) :
      (kmmMachine.guard KeepsOrder).step state call next := ⟨legal.2, legal.1, returned⟩
  have reached : (kmmMachine.guard KeepsOrder).Reachable singleLive :=
    .execute enabled (.initial booted_initial) (Option.some_get _).symm
  obtain ⟨inOrder, calls⟩ := inOrder_of_reachable reached
  refine ⟨inOrder, (calls ⟨.free (.storage 0) 8196, []⟩ ?_ trivial ?_).mpr id⟩
  · decide +kernel
  · intro _
    decide +kernel

end KmmSystem

end Yaeos
