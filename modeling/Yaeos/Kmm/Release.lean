import Yaeos.Kmm.Calls

/-!
# Release (`kmm_cache_free` of `kernel/mm/kmm.c`)

A large cache needs a control block for the buffer that it takes back, and takes
it from the cache `large_bufctls` as any other object.
-/

namespace Yaeos

namespace Kmm

variable {kmm next : Kmm} {view view' : KmmView} {ref : KmmCacheRef} {slab : Nat}
  {storage users : List Nat} {live : List KmmEntry}

/-- A live object is no part of a slab. -/
theorem Accounted.unneeded (accounted : Accounted kmm storage users view live) {object : KmmEntry}
    (isLive : object ∈ live) : Unneeded kmm view object := by
  intro entry isSlab large same
  have nodup := accounted.held.nodup_iff.mp accounted.laidOut.held_nodup
  have needed : object ∈ view.slabs.flatMap kmm.needs := by
    refine List.mem_flatMap.mpr ⟨entry, isSlab, ?_⟩
    rw [needs_of_large large, same]
    exact List.mem_cons_self ..
  exact (List.nodup_append.mp (List.nodup_append.mp nodup).1).2.2 object isLive object needed rfl

/-- The slab of an object is on the list of full slabs if it has one buffer only. -/
def OnFull (kmm : Kmm) (ref : KmmCacheRef) (mem : Nat) : Prop :=
  (kmm.cache ref).slabCapacity = 1 → ∀ slab, kmm.owner (pageOf mem) = some slab →
    slab ∈ (kmm.cache ref).slabsFull

instance (kmm : Kmm) (ref : KmmCacheRef) (mem : Nat) : Decidable (kmm.OnFull ref mem) :=
  inferInstanceAs (Decidable ((kmm.cache ref).slabCapacity = 1 →
    ∀ slab ∈ kmm.owner (pageOf mem), slab ∈ (kmm.cache ref).slabsFull))

/-- Without an object the rest is accounted for. -/
theorem Accounted.erase (accounted : Accounted kmm storage users view live) {object : KmmEntry}
    (isLive : object ∈ live) {held : List KmmEntry} (objects : view.held.Perm (object :: held)) :
    held.Perm (live.erase object ++ view.slabs.flatMap kmm.needs ++
      users.map (Prod.mk KmmCacheRef.caches)) := by
  apply List.Perm.cons_inv (a := object)
  refine objects.symm.trans (accounted.held.trans ?_)
  exact ((List.perm_cons_erase isLive).append_right _).append_right _

theorem Ok.free_small (ok : Ok kmm storage users view live) (member : ref ∈ kmm.known storage)
    {mem : Nat} (isLive : (ref, mem) ∈ live) (onFull : kmm.OnFull ref mem)
    (small : (kmm.layout ref).large = false) (calls : KmmCalls) :
    ∃ next view', cacheFree calls kmm ref mem = .ok next ∧
      Ok next storage users view' (live.erase (ref, mem)) ∧
      Logged kmm storage live next (live.erase (ref, mem)) ∧
      next.objectCalls = kmm.objectCalls := by
  have objects := List.perm_cons_erase (ok.accounted.live_held isLive)
  obtain ⟨next, returned, freed, -⟩ := cacheFree_small ok.accounted.laidOut (ok.caches ref member)
    small objects (ok.accounted.unneeded isLive) onFull calls
  have inner : Inner [ref] kmm view next _ := freed.inner small (List.mem_singleton_self ref)
  have nextOk : Ok next storage users { view with held := view.held.erase (ref, mem) }
      (live.erase (ref, mem)) := by
    refine ok.inner inner freed.laidOut freed.loose ?_ (ok.accounted.erase isLive objects)
    intro other isRef
    rw [List.mem_singleton.mp isRef]
    exact member
  exact ⟨next, _, returned, nextOk, .of_buffers ok.accounted (fun _ => ok.listed) nextOk
    inner.layout inner.registered (fun _ _ _ => Iff.rfl) inner.buffers freed.objectCalls,
    freed.objectCalls⟩

/-- The state of `object_free` before it asks for a control block. -/
theorem Ok.free_lowered (ok : Ok kmm storage users view live) (member : ref ∈ kmm.known storage)
    {mem : Nat} (isLive : (ref, mem) ∈ live) (onFull : kmm.OnFull ref mem)
    (large : (kmm.layout ref).large = true) (calls : KmmCalls) :
    ∃ slab moved lowered, cacheFree calls kmm ref mem = (do
        let (kmm, ctl) ← objectFreeCtl calls lowered ref mem
        kassert (ctl.address ≠ 0)
        let descriptor := kmm.slab slab
        .ok (kmm.setSlab slab
          { descriptor with freeBuffers := slistInsert descriptor.freeBuffers ctl })) ∧
      lowered = (kmm.setCache ref moved).setSlab slab
        ⟨(kmm.slab slab).freeBuffers, (kmm.slab slab).page, kmm.inuse slab - 1⟩ ∧
      pageOf mem = kmm.page (ref, slab) ∧
      Returning (kmm.setCache ref moved) view ref slab ∧
      lowered.layout = kmm.layout ∧
      Accounted lowered storage users view live ∧
      (∀ other ∈ kmm.known storage, other ≠ ref → CacheOk lowered view other lowered.inuse) ∧
      lowered.available .largeBufctls = kmm.available .largeBufctls := by
  have laidOut := ok.accounted.laidOut
  have isHeld := ok.accounted.live_held isLive
  obtain ⟨slab, moved, starts, layouts, perm, nonNull, home, returning⟩ :=
    cacheFree_moved laidOut (ok.caches ref member) isHeld onFull calls
  obtain ⟨-, refBufctls, -⟩ := ok.accounted.slabs_ne large
  have notIn (other : KmmCacheRef) (different : other ≠ ref) : (other, slab) ∉ view.slabs := by
    intro shared
    have equal : (other, slab) = (ref, slab) :=
      laidOut.eq_of_address shared returning.isSlab rfl
    exact different (congrArg Prod.fst equal)
  let lowered : Kmm := (kmm.setCache ref moved).setSlab slab
    ⟨(kmm.slab slab).freeBuffers, (kmm.slab slab).page, kmm.inuse slab - 1⟩
  have others (other : Nat) (different : other ≠ slab) : lowered.slab other = kmm.slab other :=
    setSlab_slab_of_ne _ _ different
  have this : lowered.slab slab =
      ⟨(kmm.slab slab).freeBuffers, (kmm.slab slab).page, kmm.inuse slab - 1⟩ :=
    Function.update_self ..
  have wrapped : wrapSub (kmm.slab slab).objectsInuse 1 = kmm.inuse slab - 1 :=
    wrapSub_of_le returning.used returning.inuse_lt
  refine ⟨slab, moved, lowered, ?_, rfl, home, returning, layouts, ?_, ?_, ?_⟩
  · rw [starts]
    simp only [objectFree, kassert_ok nonNull, setCache_slab, wrapped, Outcome.ok_bind]
    rfl
  · have free (other : Nat) : (lowered.slab other).freeBuffers = (kmm.slab other).freeBuffers := by
      by_cases same : other = slab
      · rw [same, this]
      · rw [others other same]
    have page (other : Nat) : (lowered.slab other).page = (kmm.slab other).page := by
      by_cases same : other = slab
      · rw [same, this]
      · rw [others other same]
    have needs : lowered.needs = kmm.needs := by
      funext entry
      exact @needs_congr kmm lowered entry layouts (free entry.2)
    refine ok.accounted.transport layouts rfl ?_ ok.accounted.loose ok.accounted.slabs ?_
    · exact laidOut.congr (fun entry _ => ⟨congrFun layouts _, free _, page _, rfl⟩) rfl rfl
    · rw [needs]
      exact ok.accounted.held
  · intro other isKnown different
    have before := (ok.caches other isKnown).setCache different moved
    exact before.otherSlab rfl others (notIn other different)
  · have bufctlsOk := ok.caches .largeBufctls (ok.accounted.mem_known (by decide))
    have same : lowered.freeObjects .largeBufctls = kmm.freeObjects .largeBufctls := by
      unfold freeObjects
      rw [show lowered.cache .largeBufctls = kmm.cache .largeBufctls from
        setCache_cache_of_ne _ _ refBufctls.symm]
      refine congrArg List.sum (List.map_congr_left fun other isSlab => ?_)
      have different : other ≠ slab := by
        rintro rfl
        exact notIn _ refBufctls.symm ((bufctlsOk.listed _).mp isSlab)
      exact congrArg (fun record => record.freeBuffers.length) (others other different)
    unfold available
    rw [same, show lowered.layout = kmm.layout from layouts]
    rfl

/-- A large cache takes an object back with a new control block. -/
theorem Ok.free_large (ok : Ok kmm storage users view live) (member : ref ∈ kmm.known storage)
    {mem : Nat} (isLive : (ref, mem) ∈ live) (onFull : kmm.OnFull ref mem)
    (large : (kmm.layout ref).large = true) (fresh : kmm.SupplyFresh)
    (some_ : kmm.available .largeBufctls ≠ 0) (calls : KmmCalls) :
    ∃ next view', cacheFree calls.nested kmm ref mem = .ok next ∧
      Ok next storage users view' (live.erase (ref, mem)) ∧
      Logged kmm storage live next (live.erase (ref, mem)) := by
  obtain ⟨slab, moved, lowered, starts, isLowered, home, returning, layouts, accounted, others,
      available⟩ := ok.free_lowered member isLive onFull large calls.nested
  have isLarge : (lowered.layout ref).large = true := by
    rw [layouts]
    exact large
  obtain ⟨refSlabs, refBufctls, -⟩ := accounted.slabs_ne isLarge
  have isHeld := accounted.live_held isLive
  have loweredRecord : lowered.slab slab =
      ⟨(kmm.slab slab).freeBuffers, (kmm.slab slab).page, kmm.inuse slab - 1⟩ := by
    rw [isLowered]
    exact setSlab_slab_self ..
  have loweredOthers (other : Nat) (different : other ≠ slab) :
      lowered.slab other = kmm.slab other := by
    rw [isLowered]
    exact setSlab_slab_of_ne _ _ different
  have isSame (entry : KmmEntry) : SameSlab kmm lowered entry := by
    refine ⟨congrFun layouts _, ?_, ?_, by rw [isLowered]; rfl⟩
    · by_cases same : entry.2 = slab
      · rw [same, loweredRecord]
      · rw [loweredOthers _ same]
    · by_cases same : entry.2 = slab
      · rw [same, loweredRecord]
      · rw [loweredOthers _ same]
  have registered : lowered.allocatedCaches = kmm.allocatedCaches := by
    rw [isLowered]
    rfl
  have known : lowered.known storage = kmm.known storage := congrArg (· ++ _) registered
  have internal := accounted.internal (by decide)
    (others _ (ok.accounted.mem_known (by decide)) refBufctls.symm)
  have loweredFresh : lowered.SupplyFresh := by
    rw [isLowered]
    exact fresh.same rfl rfl rfl
  obtain ⟨middle, view', ctl, allocated, spec, -⟩ :=
    internal.alloc accounted.laidOut loweredFresh (available ▸ some_) calls
  have inner : Inner [.largeBufctls] lowered view middle view' :=
    spec.inner internal.small (List.mem_singleton_self _)
  have record : middle.slab slab =
      ⟨(kmm.slab slab).freeBuffers, (kmm.slab slab).page, kmm.inuse slab - 1⟩ :=
    (inner.record ref slab isLarge returning.isSlab).trans loweredRecord
  have isSlab : (ref, slab) ∈ view'.slabs :=
    (inner.mem_slabs_of_large isLarge).mpr returning.isSlab
  have middleLarge : (middle.layout ref).large = true := by
    rw [inner.layout]
    exact isLarge
  let final : Kmm := middle.setSlab slab
    ⟨⟨ctl, mem⟩ :: (kmm.slab slab).freeBuffers, (kmm.slab slab).page, kmm.inuse slab - 1⟩
  have finalOthers (other : Nat) (different : other ≠ slab) : final.slab other = middle.slab other :=
    setSlab_slab_of_ne _ _ different
  have finalRecord : final.slab slab =
      ⟨⟨ctl, mem⟩ :: (kmm.slab slab).freeBuffers, (kmm.slab slab).page, kmm.inuse slab - 1⟩ :=
    Function.update_self ..
  let finalView : KmmView :=
    { view' with held := (KmmCacheRef.largeBufctls, ctl) :: view.held.erase (ref, mem) }
  have objects : view'.held.Perm ((ref, mem) :: finalView.held) := by
    rw [spec.held]
    exact ((List.perm_cons_erase isHeld).cons _).trans (List.Perm.swap ..)
  have allowed : ∀ other ∈ [KmmCacheRef.largeBufctls], other ∈ lowered.known storage := by
    intro other isBufctls
    rw [List.mem_singleton.mp isBufctls]
    exact accounted.mem_known (by decide)
  have isMem : mem = bufctlMem ⟨ctl, mem⟩ (middle.layout ref) := by
    rw [bufctlMem, middleLarge, if_pos rfl]
  have lies : pageOf mem = middle.page (ref, slab) :=
    home.trans (congrArg KmmSlab.page record).symm
  have changes : ChangesSlab middle final slab := by
    refine ⟨fun _ => rfl, ?_, finalOthers, rfl, rfl, rfl⟩
    rw [finalRecord, record]
  have nextFree : (final.slab slab).freeBuffers = ⟨ctl, mem⟩ :: (middle.slab slab).freeBuffers := by
    rw [finalRecord, record]
  have finalOk : Ok final storage users finalView (live.erase (ref, mem)) := by
    refine ⟨accounted.transport inner.layout inner.registered ?_ (spec.loose.trans ok.accounted.loose)
      (inner.slabs_known accounted allowed) ?_, ?_⟩
    · refine spec.laidOut.give isSlab ⟨ctl, mem⟩ isMem ?_ objects lies ?_ changes nextFree
      · dsimp only
        rw [middleLarge]
        exact fun impossible => absurd impossible.symm Bool.false_ne_true
      · exact fun other _ _ same => refSlabs (congrArg Prod.fst same).symm
    · have finalLarge : (final.layout ref).large = true := middleLarge
      obtain ⟨rest, before, after⟩ := @needs_change _ final _ _ _ spec.laidOut isSlab rfl
        fun other _ _ different => finalOthers _ different
      rw [needs_of_large middleLarge, record, inner.needs] at before
      rw [needs_of_large finalLarge, finalRecord] at after
      have more : (view'.slabs.flatMap final.needs).Perm
          ((KmmCacheRef.largeBufctls, ctl) :: view.slabs.flatMap lowered.needs) :=
        after.trans ((List.Perm.swap ..).trans (before.symm.cons _))
      refine ((accounted.erase isLive (List.perm_cons_erase isHeld)).cons _).trans ?_
      exact (perm_insert [_] (live.erase (ref, mem)) _ _).trans
        ((more.symm.append_left _).append_right _)
    · intro other isKnown
      have isKnown' : other ∈ kmm.known storage := by
        have finalKnown : final.known storage = lowered.known storage := inner.known
        rw [← known, ← finalKnown]
        exact isKnown
      by_cases self : other = ref
      · subst self
        refine returning.counted ?_ (fun _ => inner.mem_slabs_of_large isLarge) finalRecord
          fun address inCache different => ?_
        · exact (inner.cache other isLarge).trans (by rw [isLowered]; rfl)
        · have isOther := (returning.cache.listed address).mp inCache
          exact (finalOthers _ different).trans
            ((inner.record other address isLarge isOther).trans (loweredOthers _ different))
      · have middleOk := inner.caches other (others other isKnown' self)
        have notIn : (other, slab) ∉ view'.slabs := by
          intro shared
          have equal : (other, slab) = (ref, slab) := spec.laidOut.eq_of_address shared isSlab rfl
          exact self (congrArg Prod.fst equal)
        have finalOk : CacheOk final view' other final.inuse :=
          middleOk.otherSlab rfl finalOthers notIn
        exact finalOk.sameSlabs rfl
  have buffers (entry : KmmEntry) (isOld : entry ∈ view.slabs) :
      SameBuffers kmm view.held final finalView.held entry := by
    have before := (isSame entry).buffers (List.Perm.refl (onPage view.held _))
    have given := spec.laidOut.give_buffers isSlab ⟨ctl, mem⟩ isMem objects lies changes nextFree
      (spec.grows.mem_slabs isOld)
    exact (before.trans (inner.buffers entry isOld)).trans given
  refine ⟨final, finalView, ?_, finalOk, .of_buffers ok.accounted (fun _ => ok.listed) finalOk
    (inner.layout.trans layouts) (inner.registered.trans registered) (fun other managed _ => ?_)
    buffers ?_⟩
  · have nonNullCtl : ctl ≠ 0 := spec.laidOut.held_ne_zero
      (by rw [spec.held]; exact List.mem_cons_self ..)
    have isAlloc : calls.nested.alloc lowered .largeBufctls = .ok (middle, some ctl) := allocated
    have isCtl : objectFreeCtl calls.nested lowered ref mem = .ok (middle, ⟨ctl, mem⟩) := by
      have isLarge' : (lowered.cache ref).large = true := isLarge
      simp only [objectFreeCtl, isLarge', if_true, isAlloc, deref_some, Outcome.ok_bind]
    simp only [starts, isCtl, kassert_ok nonNullCtl, record, slistInsert, Outcome.ok_bind]
    rfl
  · refine inner.mem_slabs fun isBufctls => managed.external ?_
    rw [List.mem_singleton.mp isBufctls]
    decide
  · exact (spec.grows.quiet internal.noCtor).trans (by rw [isLowered]; rfl)

/-- A full slab that is not on its list cannot be moved. -/
theorem Ok.free_notOnFull (ok : Ok kmm storage users view live) (member : ref ∈ kmm.known storage)
    {mem : Nat} (isLive : (ref, mem) ∈ live) (misplaced : ¬kmm.OnFull ref mem) (calls : KmmCalls)
    (next : Kmm) : cacheFree calls kmm ref mem ≠ .ok next := by
  unfold OnFull at misplaced
  push Not at misplaced
  obtain ⟨one, slab, owned, notFull⟩ := misplaced
  have cacheOk := ok.caches ref member
  have laidOut := ok.accounted.laidOut
  have isHeld := ok.accounted.live_held isLive
  obtain ⟨found, isSlab, home, nonNull, found_is⟩ := laidOut.slabGetByAddr isHeld
  have same : found = slab := by
    have laid := (laidOut.slab _ isSlab).owned
    rw [← home, owned] at laid
    exact (Option.some.inj laid).symm
  subst same
  have used := cacheOk.used laidOut isSlab isHeld home
  have counted := cacheOk.counts found ((cacheOk.listed found).mpr isSlab)
  have capacity : (kmm.layout ref).slabCapacity = 1 := one
  have full : (kmm.slab found).objectsInuse = (kmm.cache ref).slabCapacity := by
    rw [one]
    exact Nat.le_antisymm (by unfold inuse at counted; omega) used
  intro returned
  simp only [cacheFree, kassert_ok nonNull, found_is, Option.isSome_some, kassert_true, deref_some,
    Outcome.ok_bind, leaveList, if_pos full, Outcome.bind_eq_ok, slistRemove_eq_ok] at returned
  obtain ⟨_, ⟨_, ⟨isFull, _⟩, _⟩, _⟩ := returned
  exact notFull isFull

/-- Without a control block `NULL` is dereferenced. -/
theorem Ok.free_noBufctl (ok : Ok kmm storage users view live) (member : ref ∈ kmm.known storage)
    {mem : Nat} (isLive : (ref, mem) ∈ live) (onFull : kmm.OnFull ref mem)
    (large : (kmm.layout ref).large = true) (fresh : kmm.SupplyFresh)
    (none_ : kmm.available .largeBufctls = 0) (calls : KmmCalls) :
    cacheFree calls.nested kmm ref mem = .error .nullDeref := by
  obtain ⟨slab, moved, lowered, starts, isLowered, -, -, layouts, accounted, others, available⟩ :=
    ok.free_lowered member isLive onFull large calls.nested
  have isLarge : (lowered.cache ref).large = true := by
    show (lowered.layout ref).large = true
    rw [layouts]
    exact large
  obtain ⟨-, refBufctls, -⟩ := accounted.slabs_ne isLarge
  have internal := accounted.internal (by decide)
    (others _ (ok.accounted.mem_known (by decide)) refBufctls.symm)
  have loweredFresh : lowered.SupplyFresh := by
    rw [isLowered]
    exact fresh.same rfl rfl rfl
  obtain ⟨middle, refused, -⟩ :=
    internal.alloc_none accounted.laidOut loweredFresh (available.trans none_) calls
  have isAlloc : calls.nested.alloc lowered .largeBufctls = .ok (middle, none) := refused
  have noCtl : objectFreeCtl calls.nested lowered ref mem = .error .nullDeref := by
    simp only [objectFreeCtl, isLarge, if_true, isAlloc, deref_none, Outcome.ok_bind,
      Outcome.error_bind]
  rw [starts, noCtl, Outcome.error_bind]

/-- A release that returns does what it should. -/
theorem Ok.free_returned (ok : Ok kmm storage users view live) (member : ref ∈ kmm.known storage)
    {mem : Nat} (isLive : (ref, mem) ∈ live) (fresh : kmm.SupplyFresh) {calls : KmmCalls}
    (returned : cacheFree calls.nested kmm ref mem = .ok next) :
    ∃ view', Ok next storage users view' (live.erase (ref, mem)) ∧
      Logged kmm storage live next (live.erase (ref, mem)) := by
  have onFull : kmm.OnFull ref mem := by
    by_contra misplaced
    exact ok.free_notOnFull member isLive misplaced _ next returned
  cases large : (kmm.layout ref).large with
  | false =>
      obtain ⟨final, view', freed, finalOk, logged, -⟩ :=
        ok.free_small member isLive onFull large calls.nested
      cases freed.symm.trans returned
      exact ⟨view', finalOk, logged⟩
  | true =>
      have some_ : kmm.available .largeBufctls ≠ 0 := by
        intro none_
        rw [ok.free_noBufctl member isLive onFull large fresh none_ calls] at returned
        cases returned
      obtain ⟨final, view', freed, finalOk⟩ :=
        ok.free_large member isLive onFull large fresh some_ calls
      cases freed.symm.trans returned
      exact ⟨view', finalOk⟩

/-- A release when `ALLOC_PAGE_FN` answers with `NULL`. -/
theorem Ok.free_iff (ok : Ok kmm storage users view live) (member : ref ∈ kmm.known storage)
    {mem : Nat} (isLive : (ref, mem) ∈ live) (calls : KmmCalls) :
    (∃ next, cacheFree calls.nested { kmm with supply := [] } ref mem = .ok next) ↔
      ((kmm.cache ref).large = true → ¬kmm.NoFreeSlab .largeBufctls) ∧ kmm.OnFull ref mem := by
  have dryOk : Ok { kmm with supply := [] } storage users view live :=
    ok.congr rfl rfl rfl rfl rfl rfl
  have fresh : Kmm.SupplyFresh { kmm with supply := [] } :=
    ⟨List.nodup_nil, fun _ member => (List.not_mem_nil member).elim⟩
  have bufctls : kmm.NoFreeSlab .largeBufctls ↔
      Kmm.available { kmm with supply := [] } .largeBufctls = 0 := by
    have internal : Internal kmm view .largeBufctls := ok.internal (by decide)
    exact (freeObjects_eq_zero internal.ok internal.unstuck).symm
  constructor
  · rintro ⟨next, returned⟩
    have onFull : kmm.OnFull ref mem := by
      by_contra misplaced
      exact dryOk.free_notOnFull member isLive misplaced _ next returned
    refine ⟨fun large noFree => ?_, onFull⟩
    rw [dryOk.free_noBufctl member isLive onFull large fresh (bufctls.mp noFree) calls] at returned
    cases returned
  · rintro ⟨enough, onFull⟩
    cases large : (kmm.layout ref).large with
    | false =>
        obtain ⟨next, -, returned, -⟩ := dryOk.free_small member isLive onFull large calls.nested
        exact ⟨next, returned⟩
    | true =>
        have some_ := fun none_ => enough large (bufctls.mpr none_)
        obtain ⟨next, -, returned, -⟩ :=
          dryOk.free_large member isLive onFull large fresh some_ calls
        exact ⟨next, returned⟩

end Kmm

end Yaeos
