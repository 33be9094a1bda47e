import Yaeos.Kmm.Release

/-!
# Trimming (`kmm_cache_trim` and `kmm_cache_trim_all` of `kernel/mm/kmm.c`)

A slab without objects is taken apart: a large one gives its control blocks and
its descriptor back, and its page is released.  The descriptor is read after it
was freed; nothing has written to it by then.
-/

namespace Yaeos

namespace Kmm

variable {kmm next freed : Kmm} {view view' : KmmView} {ref : KmmCacheRef} {slab : Nat}
  {storage users : List Nat} {live : List KmmEntry} {refs : List KmmCacheRef}

/-- A slab without objects has none on its page. -/
theorem CacheOk.unused (ok : CacheOk kmm view ref kmm.inuse) (laidOut : kmm.LaidOut view)
    (inEmpty : slab ∈ (kmm.cache ref).slabsEmpty) :
    onPage view.held (kmm.page (ref, slab)) = [] := by
  have isSlab := (ok.listed slab).mp (KmmCache.mem_allSlabs.mpr (.inl inEmpty))
  have counted := ok.inuse_eq laidOut isSlab
  rw [ok.sorted.inEmpty slab inEmpty] at counted
  exact List.length_eq_zero_iff.mp counted.symm

/-- The slab is off its list, and its page released. -/
def dropped (kmm : Kmm) (ref : KmmCacheRef) (slab : Nat) : Kmm :=
  let cache := kmm.cache ref
  { kmm.setCache ref { cache with slabsEmpty := cache.slabsEmpty.erase slab } with
    released := (kmm.slab slab).page :: kmm.released }

theorem dropped_layout : (kmm.dropped ref slab).layout = kmm.layout := layout_setCache rfl

theorem dropped_buffers (held : List KmmEntry) (entry : KmmEntry) :
    SameBuffers kmm held (kmm.dropped ref slab) held entry :=
  .of_record (congrFun dropped_layout _) rfl rfl (List.Perm.refl _)

/-- What is left of `slab_destroy` when the buffers are freed. -/
theorem slabDestroy_of_freed {calls : KmmCalls}
    (buffers : freeBuffers calls kmm ref slab = .ok freed)
    (inEmpty : slab ∈ (freed.cache ref).slabsEmpty) (unused : freed.inuse slab = 0)
    (page : (freed.slab slab).page ≠ 0) :
    slabDestroy calls ref kmm slab = .ok (freed.dropped ref slab) := by
  have unused' : (freed.slab slab).objectsInuse = 0 := unused
  simp only [slabDestroy, buffers, dropSlab, unused', if_true, Outcome.ok_bind,
    slistRemove_eq_ok.mpr ⟨inEmpty, rfl⟩, pageFree, setCache_slab, kassert_ok page]
  rfl

/-- A cache without one of its empty slabs. -/
theorem CacheOk.dropped (ok : CacheOk kmm view ref kmm.inuse)
    (inEmpty : slab ∈ (kmm.cache ref).slabsEmpty) (cache : freed.cache ref = kmm.cache ref)
    (records : ∀ other ∈ (kmm.cache ref).allSlabs, other ≠ slab → freed.slab other = kmm.slab other)
    (slabs : ∀ other, (ref, other) ∈ view'.slabs ↔ (ref, other) ∈ view.slabs ∧ other ≠ slab) :
    CacheOk (freed.dropped ref slab) view' ref (freed.dropped ref slab).inuse := by
  have layout : (freed.dropped ref slab).layout ref = kmm.layout ref := by
    rw [dropped_layout]
    exact congrArg KmmCache.toKmmCacheLayout cache
  have own : (freed.dropped ref slab).cache ref =
      { kmm.cache ref with slabsEmpty := (kmm.cache ref).slabsEmpty.erase slab } := by
    rw [← cache]
    exact setCache_cache_self ..
  have all : ((freed.dropped ref slab).cache ref).allSlabs = (kmm.cache ref).allSlabs.erase slab := by
    rw [own]
    simp only [KmmCache.allSlabs, List.append_assoc]
    exact (List.erase_append_left _ inEmpty).symm
  have left (other : Nat) : other ∈ ((freed.dropped ref slab).cache ref).allSlabs ↔
      other ∈ (kmm.cache ref).allSlabs ∧ other ≠ slab := by
    rw [all, ok.nodup.mem_erase_iff]
    exact and_comm
  have sorted : ((freed.dropped ref slab).cache ref).Sorted kmm.inuse := by
    rw [own]
    exact ⟨fun other member => ok.sorted.inEmpty other (List.mem_of_mem_erase member),
      ok.sorted.inPartial, ok.sorted.inFull⟩
  have record (other : Nat) (member : other ∈ ((freed.dropped ref slab).cache ref).allSlabs) :
      (freed.dropped ref slab).slab other = kmm.slab other := by
    obtain ⟨before, different⟩ := (left other).mp member
    exact records other before different
  constructor
  · rw [layout]
    exact ok.sound
  · rw [all]
    exact ok.nodup.erase slab
  · intro other
    rw [left, slabs, ok.listed]
  · intro other member
    rw [inuse, record other member, layout]
    exact ok.counts other ((left other).mp member).1
  · refine sorted.congr fun other member => ?_
    rw [inuse, record other member]
    rfl
  · rw [own]
    exact ⟨ok.coloured.max, ok.coloured.next⟩

/-- The other caches do not miss a slab. -/
theorem CacheOk.removed {other : KmmCacheRef} (ok : CacheOk kmm view other kmm.inuse)
    {slabs : List KmmEntry} (isSlab : view.slabs.Perm ((ref, slab) :: slabs))
    (different : other ≠ ref) : CacheOk kmm { view with slabs := slabs } other kmm.inuse := by
  refine ok.congr rfl (fun entry => ?_) ok.counts fun _ _ => rfl
  rw [isSlab.mem_iff, List.mem_cons, Prod.mk.injEq]
  exact ⟨.inr, fun either => either.resolve_left fun equal => different equal.1⟩

/-- The slab leaves its cache when its buffers are freed. -/
theorem Ok.dropped (ok : Ok kmm storage users view live) (member : ref ∈ kmm.known storage)
    (inEmpty : slab ∈ (kmm.cache ref).slabsEmpty) {slabs held : List KmmEntry}
    (isSlab : view.slabs.Perm ((ref, slab) :: slabs))
    (laidOut : freed.LaidOut ⟨slabs, held, [kmm.page (ref, slab)]⟩)
    (inner : Inner refs kmm ⟨slabs, view.held, [kmm.page (ref, slab)]⟩ freed
      ⟨slabs, held, [kmm.page (ref, slab)]⟩)
    (cache : freed.cache ref = kmm.cache ref) (record : freed.slab slab = kmm.slab slab)
    (records : ∀ other ∈ (kmm.cache ref).allSlabs, other ≠ slab → freed.slab other = kmm.slab other)
    (objects : held.Perm
      (live ++ slabs.flatMap kmm.needs ++ users.map (Prod.mk KmmCacheRef.caches))) :
    Ok (freed.dropped ref slab) storage users ⟨slabs, held, []⟩ live := by
  have layout : (freed.dropped ref slab).layout = kmm.layout := dropped_layout.trans inner.layout
  have registered : (freed.dropped ref slab).allocatedCaches = kmm.allocatedCaches := inner.registered
  have nodup := isSlab.nodup_iff.mp ok.accounted.laidOut.slabs_nodup
  refine ⟨ok.accounted.transport layout registered ?_ rfl ?_ ?_, ?_⟩
  · refine laidOut.release rfl (fun entry _ => ⟨congrFun dropped_layout _, rfl, rfl, rfl⟩) rfl ?_
    exact congrArg (fun slab => slab.page :: freed.released) record
  · intro entry isOther
    exact ok.accounted.slabs entry (isSlab.mem_iff.mpr (List.mem_cons_of_mem _ isOther))
  · have needs : (freed.dropped ref slab).needs = freed.needs := by
      funext entry
      exact @needs_congr freed (freed.dropped ref slab) entry dropped_layout rfl
    rw [needs, inner.needs]
    exact objects
  · intro other isKnown
    have isKnown' : other ∈ kmm.known storage := by
      have known : (freed.dropped ref slab).known storage = kmm.known storage :=
        congrArg (· ++ _) registered
      exact known ▸ isKnown
    by_cases self : other = ref
    · subst self
      refine (ok.caches other member).dropped inEmpty cache records fun address => ?_
      rw [isSlab.mem_iff, List.mem_cons, Prod.mk.injEq]
      constructor
      · intro isOther
        refine ⟨.inr isOther, ?_⟩
        rintro rfl
        exact (List.nodup_cons.mp nodup).1 isOther
      · rintro ⟨either, different⟩
        exact either.resolve_left fun equal => different equal.2
    · have removed := (ok.caches other isKnown').removed isSlab self
      have after := inner.caches other (removed.sameSlabs rfl)
      have stays : (freed.dropped ref slab).cache other = freed.cache other :=
        setCache_cache_of_ne _ _ self
      refine after.congr stays ?_ after.counts ?_
      · exact fun _ => Iff.rfl
      · exact fun _ _ => rfl

/-- What `slab_destroy` does to an empty slab. -/
structure Destroyed (kmm : Kmm) (view : KmmView) (ref : KmmCacheRef) (slab : Nat) (next : Kmm)
    (view' : KmmView) : Prop where
  slabs : view.slabs.Perm ((ref, slab) :: view'.slabs)
  own : next.cache ref =
    { kmm.cache ref with slabsEmpty := (kmm.cache ref).slabsEmpty.erase slab }
  /-- A large slab gives objects back to the internal caches. -/
  others : ∀ other ≠ ref, other ∉ internalPair ∨ (kmm.layout ref).large = false →
    next.cache other = kmm.cache other
  layout : next.layout = kmm.layout
  registered : next.allocatedCaches = kmm.allocatedCaches
  obtained : next.obtained = kmm.obtained
  released : next.released = kmm.page (ref, slab) :: kmm.released
  objectCalls : next.objectCalls =
    destructed ref (kmm.layout ref) (kmm.freeMems (ref, slab)) ++ kmm.objectCalls
  unused : onPage view.held (kmm.page (ref, slab)) = []
  buffers : ∀ entry ∈ view'.slabs, SameBuffers kmm view.held next view'.held entry

theorem destructSmall_foldl (ref : KmmCacheRef) (kmm : Kmm) (ctls : List Bufctl)
    (small : (kmm.layout ref).large = false) :
    ctls.foldl (destructSmall ref) kmm = { kmm with
      objectCalls := destructed ref (kmm.layout ref)
        (ctls.map fun ctl => bufctlMem ctl (kmm.layout ref)) ++ kmm.objectCalls } := by
  induction ctls generalizing kmm with
  | nil => rfl
  | cons ctl rest inductionHypothesis =>
      have rounds := inductionHypothesis (destructSmall ref kmm ctl) small
      rw [List.foldl_cons, rounds, List.map_cons, destructed_cons]
      have mem : bufctlMem ctl (kmm.layout ref) =
          bufctlSmallGetMem ctl.address (kmm.cache ref).toKmmCacheLayout := by
        rw [bufctlMem, small, if_neg Bool.false_ne_true]
        rfl
      rw [mem, List.append_assoc]
      rfl

theorem Ok.page_ne_zero (ok : Ok kmm storage users view live) {entry : KmmEntry}
    (isSlab : entry ∈ view.slabs) : (kmm.slab entry.2).page ≠ 0 :=
  Nat.ne_of_gt (ok.accounted.laidOut.slab entry isSlab).valid.positive

/-- `slab_destroy` on an empty slab of a small cache. -/
theorem Ok.slabDestroy_small (ok : Ok kmm storage users view live)
    (member : ref ∈ kmm.known storage) (small : (kmm.layout ref).large = false)
    (inEmpty : slab ∈ (kmm.cache ref).slabsEmpty) (calls : KmmCalls) :
    ∃ next view', slabDestroy calls ref kmm slab = .ok next ∧
      Ok next storage users view' live ∧ Destroyed kmm view ref slab next view' := by
  have cacheOk := ok.caches ref member
  have isSlab := (cacheOk.listed slab).mp (KmmCache.mem_allSlabs.mpr (.inl inEmpty))
  have split := List.perm_cons_erase isSlab
  let freed : Kmm := { kmm with
    objectCalls := destructed ref (kmm.layout ref) (kmm.freeMems (ref, slab)) ++ kmm.objectCalls }
  have buffers : freeBuffers calls kmm ref slab = .ok freed := by
    have isSmall : (kmm.cache ref).large = false := small
    simp only [freeBuffers, isSmall, Bool.false_eq_true, if_false,
      destructSmall_foldl ref kmm _ small]
    rfl
  have laidOut := ok.accounted.laidOut.removeSlab split
    (cacheOk.unused ok.accounted.laidOut inEmpty)
  rw [ok.accounted.loose] at laidOut
  have laidOut' : freed.LaidOut ⟨view.slabs.erase (ref, slab), view.held, [kmm.page (ref, slab)]⟩ :=
    laidOut.congr (fun entry _ => ⟨rfl, rfl, rfl, rfl⟩) rfl rfl
  have apart (entry : KmmEntry) (isOther : entry ∈ view.slabs.erase (ref, slab)) : entry.2 ≠ slab :=
    ok.accounted.laidOut.erase_ne isSlab isOther
  have inner : Inner [] kmm ⟨view.slabs.erase (ref, slab), view.held, [kmm.page (ref, slab)]⟩ freed
      ⟨view.slabs.erase (ref, slab), view.held, [kmm.page (ref, slab)]⟩ :=
    @Inner.otherSlab kmm freed ⟨_, view.held, _⟩ ⟨_, view.held, _⟩ slab rfl (fun _ _ => rfl) apart
      rfl (List.Perm.refl _) rfl rfl _
  have objects : view.held.Perm (live ++ (view.slabs.erase (ref, slab)).flatMap kmm.needs ++
      users.map (Prod.mk KmmCacheRef.caches)) := by
    have needs : (view.slabs.flatMap kmm.needs).Perm
        ((view.slabs.erase (ref, slab)).flatMap kmm.needs) := by
      refine (split.flatMap_right _).trans ?_
      rw [List.flatMap_cons, @needs_of_small kmm (ref, slab) small, List.nil_append]
    exact ok.accounted.held.trans ((needs.append_left _).append_right _)
  refine ⟨_, _, slabDestroy_of_freed buffers inEmpty (cacheOk.sorted.inEmpty slab inEmpty)
    (ok.page_ne_zero isSlab), ok.dropped member inEmpty split laidOut' inner rfl rfl
    (fun _ _ _ => rfl) objects, split, setCache_cache_self .., ?_, dropped_layout, rfl, rfl, rfl,
    rfl, cacheOk.unused ok.accounted.laidOut inEmpty, ?_⟩
  · exact fun other different _ => setCache_cache_of_ne _ _ different
  · exact fun entry isOther => (inner.buffers entry isOther).trans (dropped_buffers _ entry)

/-- The view of a large slab that is taken apart: `ctls` are the control blocks that
are not freed yet. -/
def shrinkingView (view : KmmView) (others : List KmmEntry) (ctls : List Bufctl) : KmmView :=
  { view with held := ctls.map (fun ctl => (KmmCacheRef.largeBufctls, ctl.address)) ++ others }

/-- The loop of `free_large_buffers`, seen from its start. -/
structure Shrinking (base : Kmm) (view : KmmView) (ref : KmmCacheRef) (slab : Nat)
    (others : List KmmEntry) (objectCalls : List ObjectCall) (ctls : List Bufctl) (kmm : Kmm) :
    Prop where
  laidOut : kmm.LaidOut (shrinkingView view others ctls)
  inner : Inner [.largeBufctls] base view kmm (shrinkingView view others ctls)
  record : kmm.slab slab = base.slab slab
  caches : ∀ other ≠ KmmCacheRef.largeBufctls, kmm.cache other = base.cache other
  obtained : kmm.obtained = base.obtained
  objectCalls : destructed ref (base.layout ref) (ctls.map Bufctl.memory) ++ kmm.objectCalls =
    objectCalls

theorem Shrinking.round {base : Kmm} {others : List KmmEntry} {objectCalls : List ObjectCall}
    (internal : Internal base view .largeBufctls) (apart : ∀ entry ∈ view.slabs, entry.2 ≠ slab)
    (calls : KmmCalls) (ctl : Bufctl) (rest : List Bufctl) (kmm : Kmm)
    (shrinking : Shrinking base view ref slab others objectCalls (ctl :: rest) kmm) :
    ∃ next, freeLargeBuffer calls.nested ref kmm ctl = .ok next ∧
      Shrinking base view ref slab others objectCalls rest next := by
  obtain ⟨laidOut, inner, record, caches, obtained, total⟩ := shrinking
  let called : Kmm := { kmm with
    objectCalls := destructorCalls ref (kmm.layout ref) ctl.memory ++ kmm.objectCalls }
  let current := shrinkingView view others (ctl :: rest)
  have step : Inner [.largeBufctls] kmm current called current :=
    @Inner.otherSlab kmm called current current slab rfl (fun _ _ => rfl) apart rfl
      (List.Perm.refl _) rfl rfl _
  have calledLaidOut : called.LaidOut current :=
    laidOut.congr (fun _ _ => ⟨rfl, rfl, rfl, rfl⟩) rfl rfl
  have unneeded : Unneeded called current (.largeBufctls, ctl.address) :=
    fun _ _ _ same => KmmCacheRef.noConfusion (congrArg Prod.fst same)
  have internal' := internal.inner (inner.trans step)
  obtain ⟨next, freed, spec⟩ :=
    internal'.free calledLaidOut (List.Perm.refl _) unneeded calls
  refine ⟨next, freed, spec.laidOut, (inner.trans step).trans
    (spec.inner internal'.small (List.mem_singleton_self _)), ?_, ?_, ?_, ?_⟩
  · rw [spec.touches.slab slab fun member => apart _ member rfl]
    exact record
  · intro other different
    rw [spec.touches.cache other different]
    exact caches other different
  · exact spec.obtained.trans obtained
  · rw [spec.objectCalls, ← total, List.map_cons, destructed_cons, List.append_assoc,
      ← inner.layout]

/-- `slab_destroy` on an empty slab of a large cache. -/
theorem Ok.slabDestroy_large (ok : Ok kmm storage users view live)
    (member : ref ∈ kmm.known storage) (large : (kmm.layout ref).large = true)
    (inEmpty : slab ∈ (kmm.cache ref).slabsEmpty) (calls : KmmCalls) :
    ∃ next view', slabDestroy calls.nested ref kmm slab = .ok next ∧
      Ok next storage users view' live ∧ Destroyed kmm view ref slab next view' := by
  have cacheOk := ok.caches ref member
  have isSlab := (cacheOk.listed slab).mp (KmmCache.mem_allSlabs.mpr (.inl inEmpty))
  obtain ⟨refSlabs, refBufctls, -⟩ := ok.accounted.slabs_ne large
  have split := List.perm_cons_erase isSlab
  let slabs := view.slabs.erase (ref, slab)
  let ctls := (kmm.slab slab).freeBuffers
  let remaining := live ++ slabs.flatMap kmm.needs ++ users.map (Prod.mk KmmCacheRef.caches)
  let others := (KmmCacheRef.slabs, slab) :: remaining
  let start := shrinkingView ⟨slabs, view.held, [kmm.page (ref, slab)]⟩ others ctls
  have apart (entry : KmmEntry) (isOther : entry ∈ slabs) : entry.2 ≠ slab :=
    ok.accounted.laidOut.erase_ne isSlab isOther
  have unused := cacheOk.unused ok.accounted.laidOut inEmpty
  have objects : view.held.Perm start.held := by
    refine ok.accounted.held.trans ?_
    have needs : (view.slabs.flatMap kmm.needs).Perm
        (kmm.needs (ref, slab) ++ slabs.flatMap kmm.needs) :=
      (split.flatMap_right _).trans (by rw [List.flatMap_cons])
    rw [@needs_of_large kmm (ref, slab) large] at needs
    refine ((needs.append_left live).append_right _).trans ?_
    exact (perm_insert _ live _ _).symm.trans List.perm_middle.symm
  have laidOut : kmm.LaidOut start := by
    have removed := ok.accounted.laidOut.removeSlab split unused
    rw [ok.accounted.loose] at removed
    exact removed.perm (List.Perm.refl _) objects
  have internal (other : KmmCacheRef) (different : other ≠ ref)
      (isInternal : other ∈ [KmmCacheRef.largeBufctls, .slabs, .caches]) :
      CacheOk kmm start other kmm.inuse :=
    ((ok.caches other (ok.accounted.mem_known isInternal)).removed split different).sameSlabs rfl
  have bufctls : Internal kmm view .largeBufctls := ok.internal (by decide)
  have bufctls' : Internal kmm start .largeBufctls :=
    ⟨internal _ refBufctls.symm (by decide), bufctls.small, bufctls.several, bufctls.noCtor⟩
  obtain ⟨middle, looped, shrinking⟩ := Loop.list_ok
    (Shrinking kmm start ref slab others
      (destructed ref (kmm.layout ref) (ctls.map Bufctl.memory) ++ kmm.objectCalls))
    (Shrinking.round bufctls' apart calls)
    ⟨laidOut, Inner.refl _ kmm start, rfl, fun _ _ => rfl, rfl, rfl⟩
  have descriptors : Internal kmm view .slabs := ok.internal (by decide)
  have descriptors' : Internal kmm start .slabs :=
    ⟨internal _ refSlabs.symm (by decide), descriptors.small, descriptors.several,
      descriptors.noCtor⟩
  have unneeded : Unneeded middle (shrinkingView start others []) (.slabs, slab) :=
    fun entry isOther _ same => apart entry isOther (congrArg Prod.snd same)
  obtain ⟨freed, released, spec⟩ := (descriptors'.inner shrinking.inner).free shrinking.laidOut
    (List.Perm.refl _) unneeded calls
  have inner : Inner internalPair kmm ⟨slabs, view.held, [kmm.page (ref, slab)]⟩ freed
      ⟨slabs, remaining, [kmm.page (ref, slab)]⟩ := by
    have here : Inner internalPair kmm ⟨slabs, view.held, [kmm.page (ref, slab)]⟩ kmm start :=
      @Inner.otherSlab kmm kmm ⟨slabs, view.held, _⟩ start slab rfl (fun _ _ => rfl) apart rfl
        objects.symm rfl rfl _
    have looping : Inner internalPair kmm start middle (shrinkingView start others []) :=
      shrinking.inner.mono (by decide)
    have small := (descriptors'.inner shrinking.inner).small
    exact (here.trans looping).trans (spec.inner small (by decide))
  have cache : freed.cache ref = kmm.cache ref :=
    (spec.touches.cache ref refSlabs).trans (shrinking.caches ref refBufctls)
  have record : freed.slab slab = kmm.slab slab :=
    (spec.touches.slab slab fun shared => apart _ shared rfl).trans shrinking.record
  have buffers : freeBuffers calls.nested kmm ref slab = .ok freed := by
    have isLarge : (kmm.cache ref).large = true := large
    have isFree : calls.nested.free middle .slabs slab = .ok freed := released
    have isLoop : (kmm.slab slab).freeBuffers.foldlM (freeLargeBuffer calls.nested ref) kmm =
        .ok middle := looped
    simp only [freeBuffers, isLarge, if_true, isLoop, isFree, Outcome.ok_bind]
  refine ⟨_, _, slabDestroy_of_freed buffers ?_ ?_ ?_, ok.dropped member inEmpty split
    spec.laidOut inner cache record ?_ (List.Perm.refl _), split, ?_, ?_,
    dropped_layout.trans inner.layout, inner.registered, spec.obtained.trans shrinking.obtained,
    ?_, ?_, unused, ?_⟩
  · rw [cache]
    exact inEmpty
  · rw [inuse, record]
    exact cacheOk.sorted.inEmpty slab inEmpty
  · rw [record]
    exact ok.page_ne_zero isSlab
  · intro other isOther different
    refine inner.record ref other large (ok.accounted.laidOut.slabs_nodup.mem_erase_iff.mpr ?_)
    exact ⟨fun same => different (congrArg Prod.snd same), (cacheOk.listed other).mp isOther⟩
  · rw [← cache]
    exact setCache_cache_self ..
  · rintro other different (external | small)
    · have notSlabs : other ≠ .slabs := fun same => external (by rw [same]; decide)
      have notBufctls : other ≠ .largeBufctls := fun same => external (by rw [same]; decide)
      exact (setCache_cache_of_ne _ _ different).trans
        ((spec.touches.cache other notSlabs).trans (shrinking.caches other notBufctls))
    · rw [small] at large
      exact absurd large Bool.false_ne_true
  · show (freed.slab slab).page :: freed.released = _
    rw [record, inner.released]
    rfl
  · have mems : kmm.freeMems (ref, slab) = ctls.map Bufctl.memory := by
      refine List.map_congr_left fun ctl _ => ?_
      rw [bufctlMem, large, if_pos rfl]
    rw [mems, ← shrinking.objectCalls]
    exact spec.objectCalls
  · exact fun entry isOther => (inner.buffers entry isOther).trans (dropped_buffers _ entry)

/-- What holds after a call that takes empty slabs apart and does nothing else. -/
structure Trimmed (kmm : Kmm) (storage users : List Nat) (live : List KmmEntry) (next : Kmm)
    (view : KmmView) : Prop where
  ok : Ok next storage users view live
  layout : next.layout = kmm.layout
  registered : next.allocatedCaches = kmm.allocatedCaches
  obtained : next.obtained = kmm.obtained
  released : ∃ pages, next.released = pages ++ kmm.released
  /-- The destructors are called on buffers that are not live. -/
  objectCalls : ∃ calls, next.objectCalls = calls ++ kmm.objectCalls ∧
    ∀ call ∈ calls, ∃ ref mem, call = .dtor ref mem ∧ (ref, mem) ∉ live
  follows : ∀ ref, kmm.Managed storage ref → Follows kmm live next live ref

theorem Trimmed.refl (ok : Ok kmm storage users view live) :
    Trimmed kmm storage users live kmm view :=
  ⟨ok, rfl, rfl, rfl, ⟨[], rfl⟩, ⟨[], rfl, fun _ member => (List.not_mem_nil member).elim⟩,
    fun _ _ => .refl⟩

theorem Trimmed.logged (trimmed : Trimmed kmm storage users live next view) :
    Logged kmm storage live next live := ⟨trimmed.layout, trimmed.registered, trimmed.follows⟩

theorem Trimmed.trans {final : Kmm} (first : Trimmed kmm storage users live next view)
    (second : Trimmed next storage users live final view') :
    Trimmed kmm storage users live final view' := by
  obtain ⟨early, earlyReleased⟩ := first.released
  obtain ⟨late, lateReleased⟩ := second.released
  obtain ⟨earlyCalls, earlyIs, earlyDead⟩ := first.objectCalls
  obtain ⟨lateCalls, lateIs, lateDead⟩ := second.objectCalls
  refine ⟨second.ok, second.layout.trans first.layout, second.registered.trans first.registered,
    second.obtained.trans first.obtained, ⟨late ++ early, ?_⟩, ⟨lateCalls ++ earlyCalls, ?_, ?_⟩,
    (first.logged.trans second.logged).follows⟩
  · rw [lateReleased, earlyReleased, List.append_assoc]
  · rw [lateIs, earlyIs, List.append_assoc]
  · intro call member
    rcases List.mem_append.mp member with isLate | isEarly
    · exact lateDead call isLate
    · exact earlyDead call isEarly

/-- The destructor of the cache is called on each buffer of the slab. -/
theorem Destroyed.follows (destroyed : Destroyed kmm view ref slab next view')
    (before : Ok kmm storage users view live) (after : Ok next storage users view' live)
    {other : KmmCacheRef} (managed : kmm.Managed storage other) :
    Follows kmm live next live other := by
  have listed := before.listed managed
  have nextListed := after.listed (managed.congr destroyed.layout destroyed.registered)
  have slabs (address : Nat) : (other, address) ∈ view.slabs ↔
      (other, address) = (ref, slab) ∨ (other, address) ∈ view'.slabs := by
    rw [destroyed.slabs.mem_iff, List.mem_cons]
  have nodup := destroyed.slabs.nodup_iff.mp before.accounted.laidOut.slabs_nodup
  have isOther (entry : KmmEntry) (isSlab : entry ∈ view.slabs) (different : entry ≠ (ref, slab)) :
      entry ∈ view'.slabs :=
    (List.mem_cons.mp (destroyed.slabs.mem_iff.mp isSlab)).resolve_left different
  by_cases self : other = ref
  · subst self
    have all : kmm.bufferMems view.held (other, slab) = kmm.freeMems (other, slab) := by
      rw [bufferMems, destroyed.unused, List.map_nil, List.append_nil]
    refine .of_gone before.accounted after.accounted listed nextListed (fun address => ?_)
      (List.nodup_cons.mp nodup).1 (fun entry isSlab different => destroyed.buffers entry
        (isOther entry isSlab different)) (.of_eq all) managed.hasDtor destroyed.objectCalls
    rw [slabs, Prod.mk.injEq]
    simp only [true_and]
  · have remain (address : Nat) : (other, address) ∈ view'.slabs ↔
        (other, address) ∈ view.slabs := by
      rw [slabs, Prod.mk.injEq]
      exact (or_iff_right fun equal => self equal.1).symm
    refine .of_buffers before.accounted after.accounted listed nextListed remain
      (fun address isSlab => destroyed.buffers _ (isOther _ isSlab fun same => ?_))
      (.destructed destroyed.objectCalls self)
    exact self (congrArg Prod.fst same)

/-- The destructors of a slab that is taken apart are called on free buffers. -/
theorem Destroyed.trimmed (destroyed : Destroyed kmm view ref slab next view')
    (before : Ok kmm storage users view live) (after : Ok next storage users view' live) :
    Trimmed kmm storage users live next view' := by
  refine ⟨after, destroyed.layout, destroyed.registered, destroyed.obtained,
    ⟨[_], destroyed.released⟩, ⟨_, destroyed.objectCalls, ?_⟩,
    fun other managed => destroyed.follows before after managed⟩
  intro call member
  obtain ⟨mem, isFree, isCall⟩ := List.mem_flatMap.mp member
  unfold destructorCalls at isCall
  split at isCall
  · refine ⟨ref, mem, List.mem_singleton.mp isCall, fun isLive => ?_⟩
    have isSlab : (ref, slab) ∈ view.slabs :=
      destroyed.slabs.mem_iff.mpr (List.mem_cons_self ..)
    have laidOut := before.accounted.laidOut.slab _ isSlab
    have lies := (laidOut.placed (.inl (List.mem_reverse.mp isFree))).pageOf laidOut.sound
      laidOut.valid.aligned
    refine (List.nodup_append.mp laidOut.nodup).2.2 (ref, mem)
      (List.mem_map_of_mem (List.mem_reverse.mp isFree)) (ref, mem) ?_ rfl
    exact mem_onPage.mpr ⟨before.accounted.live_held isLive, lies⟩
  · exact (List.not_mem_nil isCall).elim

/-- `slab_destroy` on an empty slab. -/
theorem Ok.slabDestroy (ok : Ok kmm storage users view live) (member : ref ∈ kmm.known storage)
    (inEmpty : slab ∈ (kmm.cache ref).slabsEmpty) (calls : KmmCalls) :
    ∃ next view', slabDestroy calls.nested ref kmm slab = .ok next ∧
      Ok next storage users view' live ∧ Destroyed kmm view ref slab next view' := by
  cases large : (kmm.layout ref).large with
  | false => exact ok.slabDestroy_small member large inEmpty calls.nested
  | true => exact ok.slabDestroy_large member large inEmpty calls

/-- The empty slabs of one cache are taken apart. -/
structure TrimsCache (kmm : Kmm) (ref : KmmCacheRef) (next : Kmm) : Prop where
  own : next.cache ref = { kmm.cache ref with slabsEmpty := [] }
  others : ∀ other ≠ ref, other ∉ internalPair ∨ (kmm.layout ref).large = false →
    next.cache other = kmm.cache other

/-- `free_slabs_list` on the empty slabs of a cache. -/
theorem Ok.freeEmptySlabs (ok : Ok kmm storage users view live) (member : ref ∈ kmm.known storage)
    (calls : KmmCalls) :
    ∃ next view', freeSlabsList calls.nested kmm (kmm.cache ref).slabsEmpty ref = .ok next ∧
      Trimmed kmm storage users live next view' ∧ TrimsCache kmm ref next := by
  obtain ⟨next, returned, ⟨view', trimmed⟩, own, others⟩ := Loop.list_ok
    (fun left state => (∃ view', Trimmed kmm storage users live state view') ∧
      state.cache ref = { kmm.cache ref with slabsEmpty := left } ∧
      ∀ other ≠ ref, other ∉ internalPair ∨ (kmm.layout ref).large = false →
        state.cache other = kmm.cache other)
    (fun slab rest state invariant => by
      obtain ⟨⟨view', trimmed⟩, own, others⟩ := invariant
      have known : state.known storage = kmm.known storage :=
        congrArg (· ++ _) trimmed.registered
      have inEmpty : slab ∈ (state.cache ref).slabsEmpty := by
        rw [own]
        exact List.mem_cons_self ..
      obtain ⟨next, nextView, destroys, nextOk, destroyed⟩ :=
        trimmed.ok.slabDestroy (known ▸ member) inEmpty calls
      refine ⟨next, destroys, ⟨nextView, trimmed.trans (destroyed.trimmed trimmed.ok nextOk)⟩,
        ?_, ?_⟩
      · rw [destroyed.own, own, List.erase_cons_head]
      · intro other different allowed
        rw [destroyed.others other different (by rw [trimmed.layout]; exact allowed)]
        exact others other different allowed)
    ⟨⟨view, Trimmed.refl ok⟩, rfl, fun _ _ _ => rfl⟩
  exact ⟨next, view', returned, trimmed, own, others⟩

theorem Ok.trim (ok : Ok kmm storage users view live) (member : ref ∈ kmm.known storage) :
    ∃ next view', kmmCacheTrim kmm ref = .ok next ∧
      Trimmed kmm storage users live next view' ∧ TrimsCache kmm ref next :=
  ok.freeEmptySlabs member (kmmCalls 1)

/-- A round of `kmm_cache_trim_all`. -/
theorem Trimmed.round (trimmed : Trimmed kmm storage users live next view)
    (member : ref ∈ kmm.known storage) :
    ∃ final view', kmmCacheTrim next ref = .ok final ∧
      Trimmed kmm storage users live final view' ∧ TrimsCache next ref final := by
  have known : next.known storage = kmm.known storage := congrArg (· ++ _) trimmed.registered
  obtain ⟨final, view', returned, more, trims⟩ := trimmed.ok.trim (known ▸ member)
  exact ⟨final, view', returned, trimmed.trans more, trims⟩

/-- The caches of `kmm_cache_create` are trimmed one after another. -/
theorem Ok.trimUsers (ok : Ok kmm storage users view live) :
    ∃ next view', (users.map KmmCacheRef.created).foldlM kmmCacheTrim kmm = .ok next ∧
      Trimmed kmm storage users live next view' ∧
      ∀ address ∈ users, (next.cache (.created address)).slabsEmpty = [] := by
  obtain ⟨next, returned, -, ⟨view', trimmed⟩, emptied⟩ := Loop.list_ok
    (fun left state => (∀ ref ∈ left, ref ∈ users.map KmmCacheRef.created) ∧
      (∃ view', Trimmed kmm storage users live state view') ∧
      ∀ address ∈ users, .created address ∉ left →
        (state.cache (.created address)).slabsEmpty = [])
    (fun ref rest state invariant => by
      obtain ⟨registered, ⟨view', trimmed⟩, emptied⟩ := invariant
      obtain ⟨registeredRef, registeredRest⟩ := List.forall_mem_cons.mp registered
      have member : ref ∈ kmm.known storage := by
        unfold known
        rw [ok.accounted.registered]
        exact List.mem_append_left _ (List.mem_append_left _ registeredRef)
      obtain ⟨next, nextView, returned, more, trims⟩ := trimmed.round member
      refine ⟨next, returned, registeredRest, ⟨nextView, more⟩, fun address isUser done => ?_⟩
      by_cases self : .created address = ref
      · rw [self, trims.own]
      · rw [trims.others _ self (.inl (by simp [internalPair]))]
        refine emptied address isUser fun isLeft => ?_
        exact (List.mem_cons.mp isLeft).elim self done)
    ⟨fun _ member => member, ⟨view, Trimmed.refl ok⟩, fun address isUser done =>
      absurd (List.mem_map_of_mem isUser) done⟩
  exact ⟨next, view', returned, trimmed, fun address isUser =>
    emptied address isUser List.not_mem_nil⟩

/-- The internal caches are registered behind the others, so that the objects they
get back are given up by the same pass. -/
theorem Ok.trimAll (ok : Ok kmm storage users view live) :
    ∃ next view', kmmCacheTrimAll kmm = .ok next ∧ Trimmed kmm storage users live next view' ∧
      ∀ ref ∈ kmm.allocatedCaches, (next.cache ref).slabsEmpty = [] := by
  obtain ⟨first, firstView, firstTrims, firstOk, emptied⟩ := ok.trimUsers
  have internal (ref : KmmCacheRef) (isInternal : ref ∈ [KmmCacheRef.largeBufctls, .slabs, .caches])
      {state : Kmm} {stateView : KmmView}
      (trimmed : Trimmed kmm storage users live state stateView) :
      (state.layout ref).large = false := by
    rw [trimmed.layout]
    simp only [List.mem_cons, List.not_mem_nil, or_false] at isInternal
    rcases isInternal with rfl | rfl | rfl
    · rw [ok.accounted.largeBufctlsIs]
      rfl
    · rw [ok.accounted.slabsIs]
      rfl
    · rw [ok.accounted.cachesIs]
      rfl
  obtain ⟨second, secondView, secondTrims, secondOk, bufctls⟩ :=
    firstOk.round (ok.accounted.mem_known (List.mem_cons_self ..))
  obtain ⟨third, thirdView, thirdTrims, thirdOk, slabs⟩ :=
    secondOk.round (ok.accounted.mem_known (show KmmCacheRef.slabs ∈ _ by decide))
  obtain ⟨final, finalView, finalTrims, finalOk, caches⟩ :=
    thirdOk.round (ok.accounted.mem_known (show KmmCacheRef.caches ∈ _ by decide))
  refine ⟨final, finalView, ?_, finalOk, ?_⟩
  · rw [kmmCacheTrimAll, ok.accounted.registered, List.foldlM_append, firstTrims]
    simp only [Outcome.ok_bind, List.foldlM_cons, List.foldlM_nil, secondTrims, thirdTrims,
      finalTrims, Outcome.pure_eq_ok]
  · have afterBufctls (ref : KmmCacheRef) (different : ref ≠ .largeBufctls) :=
      bufctls.others ref different (.inr (internal _ (by decide) firstOk))
    have afterSlabs (ref : KmmCacheRef) (different : ref ≠ .slabs) :=
      slabs.others ref different (.inr (internal _ (by decide) secondOk))
    have afterCaches (ref : KmmCacheRef) (different : ref ≠ .caches) :=
      caches.others ref different (.inr (internal _ (by decide) thirdOk))
    intro ref member
    rw [ok.accounted.registered] at member
    rcases List.mem_append.mp member with isCreated | isInternal
    · obtain ⟨address, isUser, rfl⟩ := List.mem_map.mp isCreated
      rw [afterCaches (.created address) (by simp), afterSlabs (.created address) (by simp),
        afterBufctls (.created address) (by simp)]
      exact emptied address isUser
    · simp only [List.mem_cons, List.not_mem_nil, or_false] at isInternal
      rcases isInternal with rfl | rfl | rfl
      · rw [afterCaches _ (by decide), afterSlabs _ (by decide), bufctls.own]
      · rw [afterCaches _ (by decide), slabs.own]
      · rw [caches.own]

end Kmm

end Yaeos
