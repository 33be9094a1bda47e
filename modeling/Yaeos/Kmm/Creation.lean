import Yaeos.Kmm.Trim

/-!
# Caches come and go (`kernel/mm/kmm.c`)

`kmm_cache_init` sets up a cache with empty lists; `kmm_cache_create` does it in
an object of `CACHES.caches` and registers the cache, `kmm_cache_destroy` takes
the slabs of the cache apart and frees the object.
-/

namespace Yaeos

/-- What a caller of `kmm_cache_init` may ask for. -/
structure KmmCacheParams.Valid (params : KmmCacheParams) : Prop where
  size : params.size < addressSpace
  align : params.align = 0 ∨ ∃ power < 32, params.align = 2 ^ power

instance (params : KmmCacheParams) : Decidable params.Valid :=
  decidable_of_iff (params.size < addressSpace ∧
    (params.align = 0 ∨ ∃ power < 32, params.align = 2 ^ power))
    ⟨fun ⟨size, align⟩ => ⟨size, align⟩, fun ⟨size, align⟩ => ⟨size, align⟩⟩

/-- The distance of two objects, when the sum does not overflow. -/
theorem stride_spec {cache : KmmCacheLayout} {objSpace : Nat} (bounded : objSpace < addressSpace)
    (align : cache.alignment = 0 ∨ ∃ power < 32, cache.alignment = 2 ^ power)
    (stride : cache.stride =
      if cache.alignment ≠ 0 then alignRoundup objSpace cache.alignment else objSpace)
    (positive : 0 < cache.stride) :
    (∃ power < 32, cache.grain = 2 ^ power) ∧ cache.grain ∣ cache.stride ∧
      objSpace ≤ cache.stride := by
  rcases align with zero | ⟨power, fits, isPower⟩
  · rw [if_neg (not_not.mpr zero)] at stride
    have grain : cache.grain = 1 := if_pos zero
    rw [grain, stride]
    exact ⟨⟨0, by decide, rfl⟩, Nat.one_dvd _, Nat.le_refl _⟩
  · have nonzero : cache.alignment ≠ 0 := isPower ▸ (Nat.two_pow_pos power).ne'
    rw [if_pos nonzero, isPower] at stride
    have grain : cache.grain = 2 ^ power := (if_neg nonzero).trans isPower
    have inside : objSpace + (2 ^ power - 1) < addressSpace := by
      by_contra beyond
      rw [alignRoundup_overflow bounded fits (Nat.le_of_not_lt beyond)] at stride
      omega
    have rounded := alignRoundup_spec fits inside
    rw [grain, stride]
    exact ⟨⟨power, fits, rfl⟩, rounded.aligned, rounded.ge⟩

/-- The alignment of a small cache leaves room for control blocks. -/
theorem KmmCacheParams.Valid.maxAlign {params : KmmCacheParams} (valid : params.Valid) :
    ∃ power < 32, 2 ≤ power ∧ max sizeofBufctlSmall params.align = 2 ^ power := by
  rcases valid.align with zero | ⟨power, fits, isPower⟩
  · rw [zero]
    exact ⟨2, by decide, by decide, by decide⟩
  · rw [isPower]
    rcases Nat.le_total power 2 with below | above
    · have less : 2 ^ power ≤ sizeofBufctlSmall := Nat.pow_le_pow_right Nat.zero_lt_two below
      exact ⟨2, by decide, Nat.le_refl 2, max_eq_left less⟩
    · have more : sizeofBufctlSmall ≤ 2 ^ power := Nat.pow_le_pow_right Nat.zero_lt_two above
      exact ⟨power, fits, above, max_eq_right more⟩

theorem cacheGetAvailSpace_eq (cache : KmmCacheLayout) :
    cacheGetAvailSpace cache = platformPageSize - cache.header := by
  unfold cacheGetAvailSpace KmmCacheLayout.header
  split <;> rfl

/-- What `kmm_cache_init` knows before it computes the capacity. -/
structure KmmCacheLayout.Strided (cache : KmmCacheLayout) : Prop where
  power : ∃ power < 32, cache.grain = 2 ^ power
  aligned : cache.grain ∣ cache.stride
  size : cache.size ≤ cache.stride
  ctlAligned : cache.large = false → sizeofBufctlSmall ∣ cache.grain
  ctlRoom : cache.large = false → cache.size + sizeofBufctlSmall ≤ cache.stride

theorem kmmCacheLayout_strided {params : KmmCacheParams} (valid : params.Valid)
    (positive : 0 < (kmmCacheLayout params).stride) : (kmmCacheLayout params).Strided := by
  by_cases big : params.size ≥ platformPageSize / 8
  · have alignment : (kmmCacheLayout params).alignment = params.align := if_pos big
    have isLarge : (kmmCacheLayout params).large = true := by simp [kmmCacheLayout, big]
    obtain ⟨power, aligned, room⟩ := @stride_spec (kmmCacheLayout params) params.size valid.size
      (alignment ▸ valid.align) (by simp [kmmCacheLayout, big]) positive
    refine ⟨power, aligned, room, ?_, ?_⟩
    all_goals
      rw [isLarge]
      exact fun impossible => absurd impossible.symm Bool.false_ne_true
  · obtain ⟨power, fits, atLeast, isMax⟩ := valid.maxAlign
    have alignment : (kmmCacheLayout params).alignment = 2 ^ power := by
      simp only [kmmCacheLayout, if_neg big]
      exact isMax
    have small : params.size < 512 := Nat.lt_of_not_le big
    have sum : wrap (params.size + sizeofBufctlSmall) = params.size + sizeofBufctlSmall :=
      wrap_of_lt (Nat.lt_trans (Nat.add_lt_add_right small _) (by decide))
    have bounded : params.size + sizeofBufctlSmall < addressSpace :=
      Nat.lt_trans (Nat.add_lt_add_right small _) (by decide)
    obtain ⟨isPower, aligned, room⟩ := @stride_spec (kmmCacheLayout params)
      (params.size + sizeofBufctlSmall) bounded (.inr ⟨power, fits, alignment⟩)
      (by simp only [kmmCacheLayout, if_neg big, sum]) positive
    have grain : (kmmCacheLayout params).grain = 2 ^ power := by
      rw [KmmCacheLayout.grain, alignment, if_neg (Nat.two_pow_pos power).ne']
    refine ⟨isPower, aligned, Nat.le_trans (Nat.le_add_right ..) room, fun _ => ?_, fun _ => room⟩
    rw [grain]
    exact Nat.pow_dvd_pow 2 atLeast

theorem kmmCacheInit_spec {params : KmmCacheParams} {cache : KmmCache} (valid : params.Valid)
    (returned : kmmCacheInit params = .ok cache) :
    cache.Sound ∧ cache.Coloured ∧ cache.slabsEmpty = [] ∧ cache.slabsPartial = [] ∧
      cache.slabsFull = [] := by
  simp only [kmmCacheInit, Outcome.bind_eq_ok, kassert_eq_ok, Except.ok.injEq] at returned
  obtain ⟨-, stridePos, -, capacityPos, rfl⟩ := returned
  obtain ⟨power, aligned, size, ctlAligned, ctlRoom⟩ := kmmCacheLayout_strided valid stridePos
  rw [cacheGetAvailSpace_eq] at capacityPos ⊢
  exact ⟨⟨capacityPos, stridePos, rfl, power, aligned, size, ctlAligned, ctlRoom⟩, ⟨rfl, .inl rfl⟩,
    rfl, rfl, rfl⟩

namespace Kmm

variable {kmm next : Kmm} {view : KmmView} {ref : KmmCacheRef}
  {storage users storage' users' : List Nat} {live live' : List KmmEntry}

/-- Caches without slabs come or go. -/
theorem Ok.reregister (ok : Ok kmm storage users view live)
    (same : ∀ ref ∈ next.known storage', ref ∈ kmm.known storage → next.cache ref = kmm.cache ref)
    (slab : next.slab = kmm.slab) (owner : next.owner = kmm.owner)
    (obtained : next.obtained = kmm.obtained) (released : next.released = kmm.released)
    (nodup : (next.known storage').Nodup)
    (slabs : ∀ entry ∈ view.slabs, entry.1 ∈ next.known storage')
    (fresh : ∀ ref ∈ next.known storage', ref ∉ kmm.known storage → CacheOk next view ref next.inuse)
    (registered : next.allocatedCaches =
      users'.map KmmCacheRef.created ++ [.largeBufctls, .slabs, .caches])
    (objects : ∀ needed : List KmmEntry,
      (live ++ needed ++ users.map (Prod.mk KmmCacheRef.caches)).Perm
        (live' ++ needed ++ users'.map (Prod.mk KmmCacheRef.caches))) :
    Ok next storage' users' view live' := by
  obtain ⟨accounted, caches⟩ := ok
  have internal (ref : KmmCacheRef) (isInternal : ref ∈ [KmmCacheRef.largeBufctls, .slabs, .caches]) :
      next.layout ref = kmm.layout ref := by
    refine congrArg KmmCache.toKmmCacheLayout (same ref ?_ (accounted.mem_known isInternal))
    unfold known
    rw [registered]
    exact List.mem_append_left _ (List.mem_append_right _ isInternal)
  have layout (entry : KmmEntry) (isSlab : entry ∈ view.slabs) :
      next.layout entry.1 = kmm.layout entry.1 :=
    congrArg KmmCache.toKmmCacheLayout
      (same entry.1 (slabs entry isSlab) (accounted.slabs entry isSlab))
  refine ⟨⟨?_, accounted.loose, nodup, slabs, registered, ?_, ?_, ?_, ?_⟩, ?_⟩
  · refine accounted.laidOut.congr (fun entry isSlab => ?_) obtained released
    exact ⟨layout entry isSlab, by rw [slab], by rw [slab], by rw [owner]⟩
  · have needs : view.slabs.flatMap next.needs = view.slabs.flatMap kmm.needs := by
      refine List.flatMap_congr fun entry isSlab => ?_
      unfold Kmm.needs
      rw [layout entry isSlab, slab]
    rw [needs]
    exact accounted.held.trans (objects _)
  · rw [internal _ (by decide)]
    exact accounted.cachesIs
  · rw [internal _ (by decide)]
    exact accounted.slabsIs
  · rw [internal _ (by decide)]
    exact accounted.largeBufctlsIs
  · intro ref isKnown
    by_cases before : ref ∈ kmm.known storage
    · have cacheOk := caches ref before
      refine cacheOk.congr (same ref isKnown before) (fun _ => Iff.rfl) ?_ ?_
      · intro other member
        rw [inuse, slab]
        exact cacheOk.counts other member
      · intro other _
        rw [inuse, slab]
        rfl
    · exact fresh ref isKnown before

/-- A cache that was just set up has no slabs. -/
theorem CacheOk.initialized {params : KmmCacheParams} {cache : KmmCache} (valid : params.Valid)
    (returned : kmmCacheInit params = .ok cache) (isCache : next.cache ref = cache)
    (noSlab : ∀ slab, (ref, slab) ∉ view.slabs) : CacheOk next view ref next.inuse := by
  obtain ⟨sound, coloured, noEmpty, noPartial, noFull⟩ := kmmCacheInit_spec valid returned
  have noSlabs : cache.allSlabs = [] := by
    rw [KmmCache.allSlabs, noEmpty, noPartial, noFull]
    rfl
  constructor
  · rw [layout, isCache]
    exact sound
  · rw [isCache, noSlabs]
    exact List.nodup_nil
  · intro slab
    rw [isCache, noSlabs]
    exact iff_of_false List.not_mem_nil (noSlab slab)
  · rw [isCache, noSlabs]
    exact fun _ member => (List.not_mem_nil member).elim
  · rw [isCache]
    exact ⟨by simp [noEmpty], by simp [noPartial], by simp [noFull]⟩
  · rw [isCache]
    exact coloured

/-- A static cache is set up. -/
theorem Ok.initStorage (ok : Ok kmm storage users view live) {index : Nat}
    (unused : index ∉ storage) {params : KmmCacheParams} {cache : KmmCache} (valid : params.Valid)
    (returned : kmmCacheInit params = .ok cache) :
    Ok (kmm.setCache (.storage index) cache) (index :: storage) users view live ∧
      ∀ ref, Keeps kmm storage live (kmm.setCache (.storage index) cache) (index :: storage) live
        ref := by
  have notKnown : KmmCacheRef.storage index ∉ kmm.known storage := by
    unfold known
    rw [ok.accounted.registered]
    simp [unused]
  have known : ((kmm.setCache (.storage index) cache).known (index :: storage)).Perm
      (.storage index :: kmm.known storage) := List.perm_middle
  have same (ref : KmmCacheRef) (before : ref ∈ kmm.known storage) :
      (kmm.setCache (.storage index) cache).cache ref = kmm.cache ref := by
    refine setCache_cache_of_ne _ _ ?_
    rintro rfl
    exact notKnown before
  refine ⟨ok.reregister (fun ref _ => same ref) rfl rfl rfl rfl ?_ ?_ ?_ ok.accounted.registered
    fun _ => List.Perm.refl _, fun ref => .of_cache (same ref)
      (fun before => known.mem_iff.mpr (List.mem_cons_of_mem _ before)) rfl rfl
      fun _ _ => Iff.rfl⟩
  · exact known.nodup_iff.mpr (List.nodup_cons.mpr ⟨notKnown, ok.accounted.nodup⟩)
  · intro entry isSlab
    exact known.mem_iff.mpr (List.mem_cons_of_mem _ (ok.accounted.slabs entry isSlab))
  · intro ref isKnown notBefore
    have isNew := (List.mem_cons.mp (known.mem_iff.mp isKnown)).resolve_right notBefore
    subst isNew
    exact CacheOk.initialized valid returned (setCache_cache_self ..) fun slab isSlab =>
      notKnown (ok.accounted.slabs _ isSlab)

/-- A live object of `CACHES.caches` is no cache in use. -/
theorem Ok.created_notKnown {address : Nat}
    (ok : Ok kmm storage users view ((KmmCacheRef.caches, address) :: live)) :
    KmmCacheRef.created address ∉ kmm.known storage := by
  have notUser : address ∉ users := by
    intro isUser
    have nodup := ok.accounted.held.nodup_iff.mp ok.accounted.laidOut.held_nodup
    exact (List.nodup_append.mp nodup).2.2 (KmmCacheRef.caches, address)
      (List.mem_append_left _ (List.mem_cons_self ..)) _ (List.mem_map_of_mem isUser) rfl
  unfold known
  rw [ok.accounted.registered]
  simp [notUser]

/-- An object of `CACHES.caches` becomes a registered cache. -/
theorem Ok.register {address : Nat}
    (ok : Ok kmm storage users view ((KmmCacheRef.caches, address) :: live))
    {params : KmmCacheParams} {cache : KmmCache} (valid : params.Valid)
    (returned : kmmCacheInit params = .ok cache) :
    Ok { kmm.setCache (.created address) cache with
      allocatedCaches := .created address :: kmm.allocatedCaches }
      storage (address :: users) view live := by
  have notKnown := ok.created_notKnown
  let next : Kmm := { kmm.setCache (.created address) cache with
    allocatedCaches := .created address :: kmm.allocatedCaches }
  have known : next.known storage = .created address :: kmm.known storage := rfl
  have isNext : Ok next storage (address :: users) view live := by
    refine ok.reregister ?_ rfl rfl rfl rfl ?_ ?_ ?_ ?_ fun needed => ?_
    · intro ref _ before
      refine setCache_cache_of_ne _ _ ?_
      rintro rfl
      exact notKnown before
    · exact known ▸ List.nodup_cons.mpr ⟨notKnown, ok.accounted.nodup⟩
    · intro entry isSlab
      exact known ▸ List.mem_cons_of_mem _ (ok.accounted.slabs entry isSlab)
    · intro ref isKnown notBefore
      have isNew := (List.mem_cons.mp (known ▸ isKnown)).resolve_right notBefore
      subst isNew
      exact CacheOk.initialized valid returned (setCache_cache_self ..) fun slab isSlab =>
        notKnown (ok.accounted.slabs _ isSlab)
    · exact congrArg (List.cons _) ok.accounted.registered
    · exact List.perm_middle.symm
  exact isNext

/-- What `kmm_cache_create` leaves at the address it returns. -/
theorem kmmCacheCreate_new {params : KmmCacheParams} {address : Nat}
    (returned : kmmCacheCreate kmm params = .ok (next, some address)) :
    kmmCacheInit params = .ok (next.cache (.created address)) ∧
      .created address ∈ next.allocatedCaches := by
  obtain ⟨⟨middle, object⟩, -, rest⟩ := Outcome.bind_eq_ok.mp returned
  cases object with
  | none => cases rest
  | some object =>
      obtain ⟨cache, initialized, isNext⟩ := Outcome.bind_eq_ok.mp rest
      cases isNext
      exact ⟨initialized.trans (congrArg _ (setCache_cache_self ..).symm), List.mem_cons_self ..⟩

/-- `kmm_cache_create` ends with a registered cache or with `NULL`. -/
theorem Ok.create (ok : Ok kmm storage users view live) (fresh : kmm.SupplyFresh)
    {params : KmmCacheParams} (valid : params.Valid) {answer : Option Nat}
    (returned : kmmCacheCreate kmm params = .ok (next, answer)) :
    ∃ users' view', Ok next storage users' view' live ∧
      ∀ ref, Keeps kmm storage live next storage live ref := by
  have member : KmmCacheRef.caches ∈ kmm.known storage := ok.accounted.mem_known (by decide)
  have internal : Internal kmm view .caches := ok.internal (by decide)
  have unstuck : ¬kmm.Stuck .caches := fun stuck => Nat.ne_of_gt internal.several stuck.1
  have allocated := ok.alloc_small member fresh unstuck internal.small (kmmCalls 1)
  obtain ⟨⟨middle, object⟩, isAlloc, rest⟩ := Outcome.bind_eq_ok.mp returned
  have isAlloc' : cacheAlloc (kmmCalls 1) kmm .caches = .ok (middle, object) := isAlloc
  rw [isAlloc'] at allocated
  cases allocated with
  | null middleOk isCache logged =>
      cases rest
      exact ⟨users, _, middleOk, fun ref => logged.keeps⟩
  | @object _ address _ middleOk logged =>
      obtain ⟨cache, isCache, isNext⟩ := Outcome.bind_eq_ok.mp rest
      cases isNext
      have registered := middleOk.register valid isCache
      refine ⟨_, _, registered, fun ref => logged.keeps.trans (.of_cache (fun isKnown => ?_)
        (List.mem_cons_of_mem _) rfl rfl fun external mem => ?_)⟩
      · refine setCache_cache_of_ne _ _ ?_
        rintro rfl
        exact middleOk.created_notKnown isKnown
      · rw [List.mem_cons, Prod.mk.injEq]
        refine (or_iff_right fun equal => external ?_).symm
        rw [equal.1]
        decide

/-- The answers of `ALLOC_PAGE_FN` after a `kmm_cache_create` are pages not in use. -/
theorem Ok.create_fresh (ok : Ok kmm storage users view live) (fresh : kmm.SupplyFresh)
    {params : KmmCacheParams} {answer : Option Nat}
    (returned : kmmCacheCreate kmm params = .ok (next, answer)) : next.SupplyFresh := by
  have internal : Internal kmm view .caches := ok.internal (by decide)
  have laidOut := ok.accounted.laidOut
  obtain ⟨⟨middle, object⟩, isAlloc, rest⟩ := Outcome.bind_eq_ok.mp returned
  have isAlloc' : cacheAlloc (kmmCalls 1) kmm .caches = .ok (middle, object) := isAlloc
  have middleFresh : middle.SupplyFresh := by
    by_cases none_ : kmm.available .caches = 0
    · obtain ⟨_, refused, -, -, isFresh, -⟩ := internal.alloc_none laidOut fresh none_ (kmmCalls 1)
      cases refused.symm.trans isAlloc'
      exact isFresh
    · obtain ⟨_, _, _, allocated, -, isFresh, -⟩ :=
        internal.alloc laidOut fresh none_ (kmmCalls 1)
      cases allocated.symm.trans isAlloc'
      exact isFresh
  cases object with
  | none =>
      cases rest
      exact middleFresh
  | some address =>
      obtain ⟨cache, -, isNext⟩ := Outcome.bind_eq_ok.mp rest
      cases isNext
      exact middleFresh.same rfl rfl rfl

/-- A cache without live objects has empty slabs only. -/
theorem Ok.objectFree (ok : Ok kmm storage users view live) (member : ref ∈ kmm.known storage)
    (external : ref ∉ [KmmCacheRef.largeBufctls, .slabs, .caches])
    (free : ∀ mem, (ref, mem) ∉ live) :
    (kmm.cache ref).slabsFull = [] ∧ (kmm.cache ref).slabsPartial = [] := by
  have cacheOk := ok.caches ref member
  have laidOut := ok.accounted.laidOut
  have noObject (mem : Nat) : (ref, mem) ∉ view.held :=
    fun isHeld => free mem (ok.accounted.live_of_held external isHeld)
  have unused (slab : Nat) (isSlab : slab ∈ (kmm.cache ref).allSlabs) : kmm.inuse slab = 0 := by
    have isEntry := (cacheOk.listed slab).mp isSlab
    rw [cacheOk.inuse_eq laidOut isEntry, List.length_eq_zero_iff, List.eq_nil_iff_forall_not_mem]
    rintro ⟨owner, mem⟩ lies
    have isRef : owner = ref := laidOut.fst_of_onPage isEntry lies
    exact noObject mem (isRef ▸ (mem_onPage.mp lies).1)
  constructor
  · rw [List.eq_nil_iff_forall_not_mem]
    intro slab isFull
    have counted := cacheOk.sorted.inFull slab isFull
    rw [unused slab (KmmCache.mem_allSlabs.mpr (.inr (.inr isFull)))] at counted
    exact Nat.ne_of_gt cacheOk.sound.capacity_pos counted.symm
  · rw [List.eq_nil_iff_forall_not_mem]
    intro slab isPartial
    have counted := (cacheOk.sorted.inPartial slab isPartial).1
    rw [unused slab (KmmCache.mem_allSlabs.mpr (.inr (.inl isPartial)))] at counted
    exact Nat.lt_irrefl 0 counted

theorem unregister_known (isRegistered : ref ∈ kmm.allocatedCaches) :
    Kmm.known { kmm with allocatedCaches := kmm.allocatedCaches.erase ref } storage =
      (kmm.known storage).erase ref := (List.erase_append_left _ isRegistered).symm

/-- A cache without slabs is taken off the list; its object is live again. -/
theorem Ok.unregister {address : Nat} (ok : Ok kmm storage users view live)
    (isUser : address ∈ users) (noSlab : (kmm.cache (.created address)).allSlabs = []) :
    Ok { kmm with allocatedCaches := kmm.allocatedCaches.erase (.created address) }
      storage (users.erase address) view ((KmmCacheRef.caches, address) :: live) := by
  let next : Kmm := { kmm with allocatedCaches := kmm.allocatedCaches.erase (.created address) }
  have inUsers : KmmCacheRef.created address ∈ users.map KmmCacheRef.created :=
    List.mem_map_of_mem isUser
  have isRegistered : KmmCacheRef.created address ∈ kmm.allocatedCaches := by
    rw [ok.accounted.registered]
    exact List.mem_append_left _ inUsers
  have known : next.known storage = (kmm.known storage).erase (.created address) :=
    unregister_known isRegistered
  have mem_known (ref : KmmCacheRef) :
      ref ∈ next.known storage ↔ ref ≠ .created address ∧ ref ∈ kmm.known storage := by
    rw [known]
    exact ok.accounted.nodup.mem_erase_iff
  have isNext : Ok next storage (users.erase address) view
      ((KmmCacheRef.caches, address) :: live) := by
    refine ok.reregister (fun _ _ _ => rfl) rfl rfl rfl rfl ?_ ?_ ?_ ?_ fun needed => ?_
    · rw [known]
      exact ok.accounted.nodup.erase _
    · intro entry isSlab
      refine (mem_known _).mpr ⟨fun same => ?_, ok.accounted.slabs entry isSlab⟩
      have listed := ((ok.caches _ (ok.accounted.slabs entry isSlab)).listed entry.2).mpr isSlab
      rw [same, noSlab] at listed
      exact List.not_mem_nil listed
    · intro ref isKnown notBefore
      exact absurd ((mem_known ref).mp isKnown).2 notBefore
    · show kmm.allocatedCaches.erase _ = _
      rw [ok.accounted.registered, List.erase_append_left _ inUsers,
        List.map_erase (fun _ _ same => KmmCacheRef.created.inj same)]
    · refine (((List.perm_cons_erase isUser).map _).append_left _).trans ?_
      exact List.perm_middle
  exact isNext

theorem freeSlabsList_nil (calls : KmmCalls) (kmm : Kmm) (ref : KmmCacheRef) :
    freeSlabsList calls kmm [] ref = .ok kmm := rfl

/-- `kmm_cache_destroy` of a cache without live objects. -/
theorem Ok.destroy {address : Nat} (ok : Ok kmm storage users view live) (isUser : address ∈ users)
    (free : ∀ mem, (KmmCacheRef.created address, mem) ∉ live) :
    ∃ next view', kmmCacheDestroy kmm address = .ok next ∧
      Ok next storage (users.erase address) view' live ∧
      (∀ ref ≠ .created address, Keeps kmm storage live next storage live ref) ∧
      (kmm.Managed storage (.created address) → ∀ before,
        kmm.Tracked live (.created address) before → next.Paired (.created address) before) := by
  have member : KmmCacheRef.created address ∈ kmm.known storage := by
    unfold known
    rw [ok.accounted.registered]
    exact List.mem_append_left _ (List.mem_append_left _ (List.mem_map_of_mem isUser))
  obtain ⟨noFull, noPartial⟩ := ok.objectFree member (by simp) free
  obtain ⟨middle, middleView, trims, trimmed, own, -⟩ := ok.freeEmptySlabs member (kmmCalls 1)
  have noSlab : (middle.cache (.created address)).allSlabs = [] := by
    rw [own]
    simp [KmmCache.allSlabs, noFull, noPartial]
  have unregistered := trimmed.ok.unregister isUser noSlab
  have isRegistered : KmmCacheRef.created address ∈ middle.allocatedCaches := by
    rw [trimmed.ok.accounted.registered]
    exact List.mem_append_left _ (List.mem_map_of_mem isUser)
  have single : Kmm.OnFull { middle with
      allocatedCaches := middle.allocatedCaches.erase (.created address) } .caches address := by
    intro one
    have capacity : (middle.layout .caches).slabCapacity = 1 := one
    rw [trimmed.ok.accounted.cachesIs] at capacity
    exact absurd capacity (by decide)
  have small : (middle.layout .caches).large = false := by
    rw [trimmed.ok.accounted.cachesIs]
    rfl
  obtain ⟨next, view', returned, nextOk, logged, quiet⟩ := unregistered.free_small
    (unregistered.accounted.mem_known (by decide)) (List.mem_cons_self ..) single small (kmmCalls 1)
  rw [List.erase_cons_head] at nextOk logged
  refine ⟨next, view', ?_, nextOk, fun ref different => ?_, fun managed before tracked => ?_⟩
  · have isTrim : freeSlabsList (kmmCalls kmmDepth) kmm (kmm.cache (.created address)).slabsEmpty
        (.created address) = .ok middle := trims
    have isFree : kmmCacheFree { middle with
        allocatedCaches := middle.allocatedCaches.erase (.created address) } .caches address =
        .ok next := returned
    simp only [kmmCacheDestroy, noFull, noPartial, freeSlabsList_nil, isTrim,
      slistRemove_eq_ok.mpr ⟨isRegistered, rfl⟩, isFree, Outcome.ok_bind]
  · have without : Keeps middle storage live { middle with
        allocatedCaches := middle.allocatedCaches.erase (.created address) } storage
        ((KmmCacheRef.caches, address) :: live) ref := by
      refine .of_cache (fun _ => rfl) (fun isKnown => ?_) rfl rfl fun external mem => ?_
      · rw [unregister_known isRegistered]
        exact (List.mem_erase_of_ne different).mpr isKnown
      · rw [List.mem_cons, Prod.mk.injEq]
        refine or_iff_right fun equal => external ?_
        rw [equal.1]
        decide
    exact trimmed.logged.keeps.trans (without.trans logged.keeps)
  · refine (trimmed.follows _ managed before tracked).paired (fun mem => ?_) quiet
    rintro (isLive | ⟨slab, isSlab, -⟩)
    · exact free mem isLive
    · rw [noSlab] at isSlab
      exact List.not_mem_nil isSlab

/-- The internal caches after `kmm_init`. -/
theorem kmmInit_caches :
    kmmCacheInit { size := sizeofKmmCache, align := 0 } = .ok ⟨cachesLayout, 44, 4, 0, [], [], []⟩ ∧
    kmmCacheInit { size := sizeofKmmSlab, align := 0 } = .ok ⟨slabsLayout, 16, 4, 0, [], [], []⟩ ∧
    kmmCacheInit { size := sizeofBufctlLarge, align := 0 } =
      .ok ⟨largeBufctlsLayout, 8, 4, 0, [], [], []⟩ := by
  refine ⟨?_, ?_, ?_⟩ <;> rfl

/-- The invariant holds after `kmm_init`. -/
theorem Ok.init {before : Kmm} (obtained : before.obtained = []) (released : before.released = [])
    (returned : kmmInit before = .ok kmm) : Ok kmm [] [] ⟨[], [], []⟩ [] := by
  obtain ⟨cachesInit, slabsInit, bufctlsInit⟩ := kmmInit_caches
  simp only [kmmInit, cachesInit, slabsInit, bufctlsInit, Outcome.ok_bind, Except.ok.injEq]
    at returned
  have registered : kmm.allocatedCaches = [.largeBufctls, .slabs, .caches] := by
    rw [← returned]
    rfl
  have isCaches : kmm.cache .caches = ⟨cachesLayout, 44, 4, 0, [], [], []⟩ := by
    rw [← returned]
    simp [setCache, Function.update]
  have isSlabs : kmm.cache .slabs = ⟨slabsLayout, 16, 4, 0, [], [], []⟩ := by
    rw [← returned]
    simp [setCache, Function.update]
  have isBufctls : kmm.cache .largeBufctls = ⟨largeBufctlsLayout, 8, 4, 0, [], [], []⟩ := by
    rw [← returned]
    simp [setCache, Function.update]
  have noObtained : kmm.obtained = [] := by
    rw [← returned]
    exact obtained
  have noReleased : kmm.released = [] := by
    rw [← returned]
    exact released
  have known : kmm.known [] = [.largeBufctls, .slabs, .caches] := by
    unfold Kmm.known
    rw [registered]
    rfl
  have none_ {Item : Type} {item : Item} : item ∉ ([] : List Item) := List.not_mem_nil
  have valid (size : Nat) (bounded : size < addressSpace) :
      KmmCacheParams.Valid { size := size, align := 0 } := ⟨bounded, .inl rfl⟩
  refine ⟨⟨⟨fun _ member => (none_ member).elim, fun _ member => (none_ member).elim,
    List.nodup_nil, fun _ member => (none_ member).elim, fun _ member => (none_ member).elim, ?_⟩,
    rfl, ?_, fun _ member => (none_ member).elim, ?_, List.Perm.refl _, ?_, ?_, ?_⟩, ?_⟩
  · rw [noObtained, noReleased]
    exact List.Perm.refl _
  · rw [known]
    decide
  · exact registered
  · exact congrArg KmmCache.toKmmCacheLayout isCaches
  · exact congrArg KmmCache.toKmmCacheLayout isSlabs
  · exact congrArg KmmCache.toKmmCacheLayout isBufctls
  · intro ref isKnown
    rw [known] at isKnown
    simp only [List.mem_cons, List.not_mem_nil, or_false] at isKnown
    rcases isKnown with rfl | rfl | rfl
    · exact .initialized (valid _ (by decide)) bufctlsInit isBufctls fun _ => none_
    · exact .initialized (valid _ (by decide)) slabsInit isSlabs fun _ => none_
    · exact .initialized (valid _ (by decide)) cachesInit isCaches fun _ => none_

end Kmm

end Yaeos
