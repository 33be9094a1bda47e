import Yaeos.Kmm.Log

/-!
# Calls on large caches (`kernel/mm/kmm.c`)

An allocation that needs a new slab returns `NULL` without a descriptor or a
page, and stops the kernel when the control blocks run out.  A release needs one
control block.
-/

namespace Yaeos

namespace Kmm

variable {kmm next : Kmm} {view view' : KmmView} {ref : KmmCacheRef} {slab : Nat}
  {storage users : List Nat} {live : List KmmEntry}

/-- What `ALLOC_PAGE_FN` answers after the descriptor of a new slab was allocated. -/
def afterDescriptor (kmm : Kmm) : List (Option Nat) :=
  if kmm.freeObjects .slabs = 0 then kmm.supply.tail else kmm.supply

/-- The control blocks that can be allocated after the descriptor and the page of a
new slab. -/
def bufctlsLeft (kmm : Kmm) : Nat :=
  kmm.freeObjects .largeBufctls +
    (kmm.layout .largeBufctls).slabCapacity * leadingPages kmm.afterDescriptor.tail

/-- There is no descriptor for a new slab, or no page. -/
def NoSlab (kmm : Kmm) : Prop :=
  kmm.available .slabs = 0 ∨ kmm.afterDescriptor.head?.join = none

instance (kmm : Kmm) : Decidable kmm.NoSlab := inferInstanceAs (Decidable (_ ∨ _))

theorem freeObjects_touches (ok : CacheOk kmm view ref kmm.inuse) {other : KmmCacheRef}
    (touches : Touches kmm next other view') (laidOut : next.LaidOut view') (different : ref ≠ other)
    (slabs : ∀ slab, (ref, slab) ∈ view.slabs → (ref, slab) ∈ view'.slabs) :
    next.freeObjects ref = kmm.freeObjects ref := by
  unfold freeObjects
  rw [touches.cache ref different]
  congr 1
  apply List.map_congr_left
  intro slab member
  rw [touches.slab slab]
  intro shared
  have equal : (ref, slab) = (other, slab) :=
    laidOut.eq_of_address (slabs slab ((ok.listed slab).mp member)) shared rfl
  exact different (congrArg Prod.fst equal)

theorem Allocated.slabs_sub {obj : Nat} (allocated : Allocated kmm view next view' ref obj)
    (entry : KmmEntry) (member : entry ∈ view.slabs) : entry ∈ view'.slabs := by
  rcases allocated.slabs with same | ⟨_, same⟩
  · rw [same]
    exact member
  · rw [same]
    exact List.mem_cons_of_mem _ member

/-- A new descriptor is not the address of a slab. -/
theorem Allocated.ne_slab {obj : Nat} (allocated : Allocated kmm view next view' .slabs obj)
    (laidOut : kmm.LaidOut view) (small : (kmm.layout .slabs).large = false) :
    ∀ entry ∈ view'.slabs, entry.2 ≠ obj := by
  intro entry member
  refine allocated.laidOut.ne_descriptor (by rw [allocated.held]; exact List.mem_cons_self ..) ?_ ?_
    member
  · rw [allocated.touches.layout]
    exact small
  · intro other isOther large
    have nodup := allocated.laidOut.held_nodup
    rw [allocated.held] at nodup
    rintro rfl
    refine (List.nodup_cons.mp nodup).1 (laidOut.descriptor other ?_ ?_)
    · rcases allocated.slabs with same | ⟨_, same⟩
      · exact same ▸ isOther
      · rw [same] at isOther
        rcases List.mem_cons.mp isOther with rfl | old
        · rw [allocated.touches.layout, small] at large
          exact absurd large Bool.false_ne_true
        · exact old
    · rw [← allocated.touches.layout]
      exact large

/-- The descriptor and the page of a new slab. -/
theorem Internal.growBase (slabs : Internal kmm view .slabs)
    (largeBufctls : Internal kmm view .largeBufctls) (laidOut : kmm.LaidOut view)
    (sound : (kmm.layout ref).Sound) {colour : Nat}
    (room : colour = 0 ∨ colour + (kmm.layout ref).slabCapacity * (kmm.layout ref).stride <
      platformPageSize - (kmm.layout ref).header)
    (large : (kmm.layout ref).large = true) (fresh : kmm.SupplyFresh)
    (exists_slab : ¬kmm.NoSlab) (calls : KmmCalls) :
    ∃ base baseView slab page start,
      slabCreateLarge calls.nested kmm ref colour = (do
        let kmm ← (List.range (base.layout ref).slabCapacity).foldlM
          (addBufferLarge calls.nested ref slab start) base
        .ok (kmm, some slab)) ∧
      GrowBase base baseView ref slab page start ∧ base.owner page = some slab ∧
      Inner internalPair kmm view base baseView ∧
      baseView.held = (KmmCacheRef.slabs, slab) :: view.held ∧
      baseView.loose = page :: view.loose ∧
      base.available .largeBufctls = kmm.bufctlsLeft ∧
      start = alignRoundup (page + (kmm.layout ref).header + colour)
        (kmm.layout ref).alignment ∧
      base.objectCalls = kmm.objectCalls := by
  unfold NoSlab at exists_slab
  obtain ⟨some_, answer⟩ := not_or.mp exists_slab
  obtain ⟨middle, after, slab, allocated, spec, middleFresh, -, supply⟩ :=
    slabs.alloc laidOut fresh some_ calls
  have isSupply : middle.supply = kmm.afterDescriptor := supply
  obtain ⟨page, isPage⟩ := Option.ne_none_iff_exists'.mp answer
  have isAnswer : middle.supply.head?.join = some page := isSupply ▸ isPage
  obtain ⟨valid, notUsed⟩ := middleFresh.nextPageFresh spec.laidOut page isAnswer
  have step : Inner internalPair kmm view middle after := spec.inner slabs.small (by decide)
  have apart := spec.ne_slab laidOut slabs.small
  let start := alignRoundup (page + sizeofPage + colour) (kmm.layout ref).alignment
  let base : Kmm := (middle.answered.setOwner page slab).setSlab slab ⟨[], page, 0⟩
  let baseView : KmmView := { after with loose := page :: after.loose }
  have others (other : Nat) (different : other ≠ slab) : base.slab other = middle.slab other :=
    setSlab_slab_of_ne _ _ different
  have stored : Inner internalPair middle after base baseView :=
    @Inner.otherSlab middle base after baseView slab rfl others apart rfl (List.Perm.refl _) rfl
      rfl _
  have toBase := step.trans stored
  have baseLaidOut : base.LaidOut baseView := by
    refine spec.laidOut.obtain valid notUsed (fun entry member => ?_) ?_ rfl
    · have same := others entry.2 (apart entry member)
      refine ⟨rfl, congrArg KmmSlab.freeBuffers same, congrArg KmmSlab.page same, ?_⟩
      refine Function.update_of_ne ?_ ..
      rintro rfl
      exact notUsed (List.mem_append_left _ (List.mem_map_of_mem member))
    · show middle.supply.head?.join.toList ++ middle.obtained = page :: middle.obtained
      rw [isAnswer]
      rfl
  have header : (kmm.layout ref).header = sizeofPage := if_pos large
  have isCache : middle.cache ref = kmm.cache ref := step.cache ref large
  have fits : (kmm.layout ref).Fits page start := by
    have fits := sound.fits valid room
    rw [header] at fits
    exact fits
  have sumFits : page + sizeofPage + colour < addressSpace := by
    have pageInside := valid.inside
    have four : sizeofPage = 4 := rfl
    have size : platformPageSize = 4096 := rfl
    omega
  have middleOk := step.caches _ largeBufctls.ok
  refine ⟨base, baseView, slab, page, start, ?_, ⟨baseLaidOut, ?_, ?_, slabs.inner toBase,
    largeBufctls.inner toBase, ?_, ?_, apart, List.mem_cons_self .., Function.update_self .., ?_⟩,
    Function.update_self .., toBase, spec.held, by rw [← spec.loose], ?_, by rw [header],
    spec.grows.quiet slabs.noCtor⟩
  · have isAlloc : calls.nested.alloc kmm .slabs = .ok (middle, some slab) := allocated
    have isLayout : (middle.answered.cache ref).toKmmCacheLayout = kmm.layout ref :=
      congrArg KmmCache.toKmmCacheLayout isCache
    have baseLayout : base.layout ref = kmm.layout ref := congrFun toBase.layout ref
    simp only [slabCreateLarge, isAlloc, pageAlloc_eq (middleFresh.nextPageFresh spec.laidOut),
      isAnswer, slabInitLarge, isLayout, wrap_of_lt sumFits, Outcome.ok_bind, baseLayout]
    rfl
  · rw [toBase.layout]
    exact sound
  · rw [toBase.layout]
    exact large
  · have obtained : base.obtained = middle.supply.head?.join.toList ++ middle.obtained := rfl
    exact middleFresh.step rfl obtained rfl
  · show (KmmCacheRef.slabs, slab) ∈ after.held
    rw [spec.held]
    exact List.mem_cons_self ..
  · rw [toBase.layout]
    exact fits
  · have stays : base.freeObjects .largeBufctls = middle.freeObjects .largeBufctls :=
      freeObjects_otherSlab middleOk rfl others apart
    have free := freeObjects_touches largeBufctls.ok spec.touches spec.laidOut (by decide)
      fun other => spec.slabs_sub _
    unfold available bufctlsLeft
    rw [stays, free, toBase.layout, ← isSupply]
    rfl

/-- Without a descriptor or a page the call returns `NULL`, and the descriptor is freed. -/
theorem Internal.noSlab (slabs : Internal kmm view .slabs) (laidOut : kmm.LaidOut view)
    (fresh : kmm.SupplyFresh) (noSlab : kmm.NoSlab) (calls : KmmCalls) (ref : KmmCacheRef)
    (colour : Nat) : ∃ next slabs, slabCreateLarge calls.nested kmm ref colour = .ok (next, none) ∧
      Inner internalPair kmm view next { view with slabs := slabs } ∧
      next.LaidOut { view with slabs := slabs } ∧ next.objectCalls = kmm.objectCalls := by
  by_cases none_ : kmm.available .slabs = 0
  · obtain ⟨next, refused, nextLaidOut, inner, -, -, quiet⟩ :=
      slabs.alloc_none laidOut fresh none_ calls
    have isAlloc : calls.nested.alloc kmm .slabs = .ok (next, none) := refused
    refine ⟨next, view.slabs, ?_, inner.mono (by decide), nextLaidOut, quiet⟩
    simp only [slabCreateLarge, isAlloc, Outcome.ok_bind]
  · have refused := noSlab.resolve_left none_
    obtain ⟨middle, after, slab, allocated, spec, middleFresh, -, supply⟩ :=
      slabs.alloc laidOut fresh none_ calls
    have isSupply : middle.supply = kmm.afterDescriptor := supply
    have isAnswer : middle.supply.head?.join = none := isSupply ▸ refused
    have step : Inner internalPair kmm view middle after := spec.inner slabs.small (by decide)
    have answeredLaidOut : middle.answered.LaidOut after := by
      refine spec.laidOut.congr (fun entry _ => answered_sameSlab entry) ?_ rfl
      show middle.supply.head?.join.toList ++ middle.obtained = middle.obtained
      rw [isAnswer]
      rfl
    have apart := spec.ne_slab laidOut slabs.small
    have answeredInner : Inner internalPair middle after middle.answered after :=
      @Inner.otherSlab middle middle.answered after after slab rfl (fun _ _ => rfl) apart rfl
        (List.Perm.refl _) rfl rfl _
    have toAnswered := step.trans answeredInner
    have objects : after.held.Perm ((KmmCacheRef.slabs, slab) :: view.held) := by
      rw [spec.held]
    have unneeded : Unneeded middle.answered after (KmmCacheRef.slabs, slab) :=
      fun entry member _ same => apart entry member (congrArg Prod.snd same)
    obtain ⟨next, freed, freedSpec⟩ :=
      (slabs.inner toAnswered).free answeredLaidOut objects unneeded calls
    have isAlloc : calls.nested.alloc kmm .slabs = .ok (middle, some slab) := allocated
    have isFree : calls.nested.free middle.answered .slabs slab = .ok next := freed
    have loose : ({ after with held := view.held } : KmmView) = { view with slabs := after.slabs } := by
      rw [spec.loose]
    have small := (slabs.inner toAnswered).small
    rw [loose] at freedSpec
    refine ⟨next, after.slabs, ?_, toAnswered.trans (freedSpec.inner small (by decide)),
      freedSpec.laidOut, freedSpec.objectCalls.trans (spec.grows.quiet slabs.noCtor)⟩
    simp only [slabCreateLarge, isAlloc, pageAlloc_eq (middleFresh.nextPageFresh spec.laidOut),
      isAnswer, isFree, Outcome.ok_bind]

/-- A cache gets another record of the same layout. -/
theorem Accounted.setCache (accounted : Accounted kmm storage users view live) {cache : KmmCache}
    (same : cache.toKmmCacheLayout = kmm.layout ref) :
    Accounted (kmm.setCache ref cache) storage users view live := by
  have layout : (kmm.setCache ref cache).layout = kmm.layout := layout_setCache same
  have needs : (kmm.setCache ref cache).needs = kmm.needs := by
    funext entry
    unfold Kmm.needs
    rw [layout]
    rfl
  refine accounted.transport layout rfl ?_ accounted.loose accounted.slabs ?_
  · exact accounted.laidOut.congr (fun entry _ => ⟨congrFun layout _, rfl, rfl, rfl⟩) rfl rfl
  · rw [needs]
    exact accounted.held

theorem CacheOk.setCache {other : KmmCacheRef} {count : Nat → Nat}
    (ok : CacheOk kmm view other count) (different : other ≠ ref) (cache : KmmCache) :
    CacheOk (kmm.setCache ref cache) view other count :=
  ok.congr (setCache_cache_of_ne _ _ different) (fun _ => Iff.rfl)
    (fun slab member => ok.counts slab member) fun _ _ => rfl

/-- The state between the choice of a slab and the removal of a buffer from it, with
the rest of the system. -/
structure Taking (kmm : Kmm) (storage users : List Nat) (view : KmmView) (live : List KmmEntry)
    (ref : KmmCacheRef) (slab : Nat) : Prop where
  chosen : Chosen kmm view ref slab
  accounted : Accounted kmm storage users view live
  others : ∀ other ∈ kmm.known storage, other ≠ ref → CacheOk kmm view other kmm.inuse

theorem Taking.listed (taking : Taking kmm storage users view live ref slab) {other : KmmCacheRef}
    (managed : kmm.Managed storage other) : kmm.Listed view other := by
  by_cases self : other = ref
  · subst self
    exact ⟨managed.external, taking.chosen.cache.listed⟩
  · exact managed.listed (taking.others other managed.known self)

theorem Ok.taking_existing (ok : Ok kmm storage users view live) (member : ref ∈ kmm.known storage)
    (unstuck : (kmm.cache ref).slabCapacity = 1 → (kmm.cache ref).slabsPartial = [])
    (available : kmm.freeObjects ref ≠ 0) (calls : KmmCalls) :
    ∃ next slab, chooseSlab calls kmm ref = .ok (next, some slab) ∧ next.layout = kmm.layout ∧
      Taking next storage users view live ref slab ∧ Logged kmm storage live next live := by
  obtain ⟨slab, moved, choice, layout, perm, chosen⟩ :=
    chooseSlab_existing ok.accounted.laidOut (ok.caches ref member) unstuck available calls
  have layouts : (kmm.setCache ref moved).layout = kmm.layout := layout_setCache layout
  refine ⟨_, slab, choice, layouts, ⟨chosen, ok.accounted.setCache layout, ?_⟩, layouts, rfl, ?_⟩
  · intro other isOther different
    exact (ok.caches other isOther).setCache different moved
  · refine fun other _ => .quiet (.of_eq rfl) fun mem => ?_
    refine hasBuffer_congr (fun slab => ?_) fun slab => by rw [freeMems, layouts]; rfl
    by_cases self : other = ref
    · rw [self, setCache_cache_self, perm.mem_iff]
    · rw [setCache_cache_of_ne _ _ self]

/-- The growth of a large cache that cannot get a slab. -/
theorem Ok.getNewSlab_noSlab (ok : Ok kmm storage users view live)
    (member : ref ∈ kmm.known storage) (large : (kmm.layout ref).large = true)
    (fresh : kmm.SupplyFresh) (noSlab : kmm.NoSlab) (calls : KmmCalls) :
    ∃ next slabs, getNewSlab calls.nested kmm ref = .ok (next, none) ∧
      Ok next storage users { view with slabs := slabs } live ∧
      next.cache ref = (kmm.cache ref).nextColour ∧ Logged kmm storage live next live := by
  have slabsInternal : Internal kmm view .slabs := ok.internal (by decide)
  obtain ⟨middle, slabs, returned, inner, laidOut, quiet⟩ :=
    slabsInternal.noSlab ok.accounted.laidOut fresh noSlab calls ref (kmm.cache ref).colourNext
  have allowed : ∀ ref ∈ internalPair, ref ∈ kmm.known storage := by
    intro ref isInternal
    apply ok.accounted.mem_known
    rcases List.mem_pair.mp isInternal with rfl | rfl
    · decide
    · decide
  have middleOk : Ok middle storage users { view with slabs := slabs } live :=
    ok.inner inner laidOut rfl allowed ok.accounted.held
  have isCache : middle.cache ref = kmm.cache ref := inner.cache ref large
  have sameLayout : (kmm.cache ref).nextColour.toKmmCacheLayout = middle.layout ref := by
    unfold layout
    rw [isCache]
    rfl
  let next : Kmm := middle.setCache ref (kmm.cache ref).nextColour
  have nextOk : Ok next storage users { view with slabs := slabs } live := by
    refine ⟨middleOk.accounted.setCache sameLayout, fun other isOther => ?_⟩
    by_cases self : other = ref
    · subst self
      unfold next
      rw [← isCache]
      exact (middleOk.caches other isOther).nextColour
    · exact (middleOk.caches other isOther).setCache self _
  have isNext : next.layout = kmm.layout := (layout_setCache sameLayout).trans inner.layout
  refine ⟨next, slabs, ?_, nextOk, setCache_cache_self .., ?_⟩
  · have isLarge : (kmm.cache ref).large = true := large
    simp only [getNewSlab, isLarge, if_true, returned, isCache, Outcome.ok_bind]
    rfl
  · refine .of_buffers ok.accounted (fun _ => ok.listed) nextOk isNext inner.registered
      (fun _ managed _ => inner.mem_slabs managed.notInternal) (fun entry isSlab => ?_) quiet
    exact (inner.buffers entry isSlab).trans (setCache_buffers sameLayout _ entry)

/-- Without enough control blocks the growth of a large cache stops the kernel. -/
theorem Ok.getNewSlab_fails (ok : Ok kmm storage users view live) (member : ref ∈ kmm.known storage)
    (large : (kmm.layout ref).large = true) (fresh : kmm.SupplyFresh)
    (exists_slab : ¬kmm.NoSlab) (short : kmm.bufctlsLeft < (kmm.layout ref).slabCapacity)
    (calls : KmmCalls) : getNewSlab calls.nested kmm ref = .error .kassert := by
  have slabsInternal : Internal kmm view .slabs := ok.internal (by decide)
  have bufctlsInternal : Internal kmm view .largeBufctls := ok.internal (by decide)
  have cacheOk := ok.caches ref member
  obtain ⟨base, baseView, slab, page, start, returned, grow, -, inner, -, -, available, -⟩ :=
    slabsInternal.growBase bufctlsInternal ok.accounted.laidOut cacheOk.sound cacheOk.coloured.room
      large fresh exists_slab calls
  have fails := grow.fails (by rw [available, inner.layout]; exact short) calls
  have isLarge : (kmm.cache ref).large = true := large
  simp only [getNewSlab, isLarge, if_true, returned, fails, Outcome.error_bind]

theorem perm_insert (more left middle right : List KmmEntry) :
    (more ++ (left ++ middle ++ right)).Perm (left ++ (more ++ middle) ++ right) := by
  simp only [← List.append_assoc]
  exact (List.perm_append_comm.append_right _).append_right _

theorem needs_of_large {entry : KmmEntry} (large : (kmm.layout entry.1).large = true) :
    kmm.needs entry = (KmmCacheRef.slabs, entry.2) :: (kmm.slab entry.2).freeBuffers.map
      fun ctl => (KmmCacheRef.largeBufctls, ctl.address) := by
  unfold needs
  rw [large, if_pos rfl]

/-- What a slab is made of depends on the layouts and its record only. -/
theorem needs_congr {entry : KmmEntry} (layout : next.layout = kmm.layout)
    (free : (next.slab entry.2).freeBuffers = (kmm.slab entry.2).freeBuffers) :
    next.needs entry = kmm.needs entry := by
  unfold needs
  rw [layout, free]

/-- The growth of a large cache that gets everything it asks for. -/
theorem Ok.taking_grown (ok : Ok kmm storage users view live) (member : ref ∈ kmm.known storage)
    (large : (kmm.layout ref).large = true) (fresh : kmm.SupplyFresh)
    (exists_slab : ¬kmm.NoSlab) (enough : (kmm.layout ref).slabCapacity ≤ kmm.bufctlsLeft)
    (calls : KmmCalls) :
    ∃ next view' slab, getNewSlab calls.nested kmm ref = .ok (next, some slab) ∧
      next.layout = kmm.layout ∧ Taking next storage users view' live ref slab ∧
      Logged kmm storage live next live := by
  have slabsInternal : Internal kmm view .slabs := ok.internal (by decide)
  have bufctlsInternal : Internal kmm view .largeBufctls := ok.internal (by decide)
  obtain ⟨base, baseView, slab, page, start, returned, grow, owner, toBase, baseHeld, baseLoose,
      available, -, baseQuiet⟩ :=
    slabsInternal.growBase bufctlsInternal ok.accounted.laidOut (ok.caches ref member).sound
      (ok.caches ref member).coloured.room large fresh exists_slab calls
  obtain ⟨middle, created, growing⟩ :=
    grow.rounds (Nat.le_refl _) (by rw [available, toBase.layout]; exact enough) calls
  obtain ⟨after, fromBase, loose, laidOut, notIn, held, slabLaidOut, isPage, unused, free,
      objectCalls, all⟩ := growing.slabLaidOut grow owner
  have inner := toBase.trans fromBase
  have isLarge : (middle.layout ref).large = true := by
    rw [inner.layout]
    exact large
  have complete : middle.LaidOut
      { after with slabs := (ref, slab) :: after.slabs, loose := view.loose } := by
    refine laidOut.addSlab (loose.trans baseLoose) slabLaidOut isPage (fun _ => ?_)
      (fun _ _ => ⟨rfl, rfl, rfl, rfl⟩) rfl rfl
    rw [held, baseHeld]
    exact List.mem_append_right _ (List.mem_cons_self ..)
  have chosen := Chosen.new complete rfl (inner.caches ref (ok.caches ref member)) unused free
  have stored : (middle.setCache ref ((middle.cache ref).nextColour.addNewSlab slab)).layout =
      middle.layout := layout_setCache KmmCache.addNewSlab_layout
  have layout := stored.trans inner.layout
  have taking : Taking (middle.setCache ref ((middle.cache ref).nextColour.addNewSlab slab))
      storage users { after with slabs := (ref, slab) :: after.slabs, loose := view.loose } live ref
      slab := by
    refine ⟨chosen, ?_, ?_⟩
    · refine ok.accounted.transport layout inner.registered chosen.laidOut ok.accounted.loose ?_ ?_
      · intro entry isSlab
        rcases List.mem_cons.mp isSlab with rfl | old
        · exact member
        · refine inner.slabs_known ok.accounted ?_ entry old
          intro other isInternal
          apply ok.accounted.mem_known
          rcases List.mem_pair.mp isInternal with rfl | rfl
          · decide
          · decide
      · have needs : ((ref, slab) :: after.slabs).flatMap
            (middle.setCache ref ((middle.cache ref).nextColour.addNewSlab slab)).needs =
            middle.needs (ref, slab) ++ view.slabs.flatMap kmm.needs := by
          rw [← inner.needs, ← List.flatMap_cons]
          exact List.flatMap_congr fun entry _ => needs_congr stored rfl
        show after.held.Perm _
        rw [needs, needs_of_large isLarge, held, baseHeld]
        refine List.perm_middle.trans (List.Perm.trans ?_ (perm_insert _ live _ _))
        exact (ok.accounted.held.append_left _).cons _
    · intro other isOther different
      have known : middle.known storage = kmm.known storage := inner.known
      have before := inner.caches other (ok.caches other (known ▸ isOther))
      refine CacheOk.setCache (before.congr rfl (fun entry => ?_) before.counts fun _ _ => rfl)
        different _
      rw [List.mem_cons, Prod.mk.injEq]
      exact ⟨fun either => either.resolve_left fun equal => different equal.1, .inr⟩
  refine ⟨_, _, slab, ?_, layout, taking, ?_⟩
  · have isCache : (kmm.cache ref).large = true := large
    simp only [getNewSlab, isCache, if_true, returned, created, Outcome.ok_bind]
  · have same (entry : KmmEntry) : SameBuffers middle after.held
        (middle.setCache ref ((middle.cache ref).nextColour.addNewSlab slab)) after.held entry :=
      .of_record (congrFun stored _) rfl rfl (List.Perm.refl _)
    have buffers (entry : KmmEntry) (isSlab : entry ∈ view.slabs) :=
      (inner.buffers entry isSlab).trans (same entry)
    have calls : middle.objectCalls = KmmCacheLayout.constructed ref (kmm.layout ref)
        ((base.layout ref).buffers start) ++ kmm.objectCalls := by
      rw [objectCalls, baseQuiet, toBase.layout]
    refine .of_new ok.accounted taking.accounted layout inner.registered (fun other managed =>
      ⟨ok.listed managed, taking.listed (managed.congr layout inner.registered)⟩)
      (fun other managed address => ?_)
      (fun isOld => notIn (ref, slab) ((inner.mem_slabs_of_large large).mpr isOld) rfl) buffers
      (List.Perm.trans (same _) all) calls
    rw [List.mem_cons, inner.mem_slabs managed.notInternal]

/-- What one slab is made of changes. -/
theorem needs_change (laidOut : kmm.LaidOut view) (isSlab : (ref, slab) ∈ view.slabs)
    (layout : next.layout = kmm.layout)
    (others : ∀ entry ∈ view.slabs, (kmm.layout entry.1).large = true → entry.2 ≠ slab →
      next.slab entry.2 = kmm.slab entry.2) :
    ∃ rest, (view.slabs.flatMap kmm.needs).Perm (kmm.needs (ref, slab) ++ rest) ∧
      (view.slabs.flatMap next.needs).Perm (next.needs (ref, slab) ++ rest) := by
  have split := List.perm_cons_erase isSlab
  refine ⟨(view.slabs.erase (ref, slab)).flatMap kmm.needs, ?_, ?_⟩
  · exact (split.flatMap_right _).trans (by rw [List.flatMap_cons])
  · refine (split.flatMap_right _).trans ?_
    rw [List.flatMap_cons]
    apply List.Perm.append_left
    rw [List.flatMap_congr fun entry member => ?_]
    obtain ⟨different, isOther⟩ := laidOut.slabs_nodup.mem_erase_iff.mp member
    cases large : (kmm.layout entry.1).large with
    | false => rw [needs_of_small large, needs_of_small (by rw [layout]; exact large)]
    | true =>
        apply needs_congr layout
        rw [others entry isOther large fun same =>
          different (laidOut.eq_of_address isOther isSlab same)]

/-- The first free buffer of a slab is handed out, and its control block freed. -/
theorem Taking.objectAlloc_large (taking : Taking kmm storage users view live ref slab)
    (large : (kmm.layout ref).large = true) (calls : KmmCalls) :
    ∃ next view' obj, obj ≠ 0 ∧ objectAlloc calls.nested kmm slab ref = .ok (next, obj) ∧
      Ok next storage users view' ((ref, obj) :: live) ∧
      Logged kmm storage live next ((ref, obj) :: live) := by
  have listed {other : KmmCacheRef} (managed : kmm.Managed storage other) := taking.listed managed
  obtain ⟨chosen, accounted, others⟩ := taking
  obtain ⟨ctl, rest, free⟩ := chosen.free
  have slabLaidOut : kmm.SlabLaidOut view.held (ref, slab) := chosen.laidOut.slab _ chosen.isSlab
  have mem_is : bufctlMem ctl (kmm.layout ref) = ctl.memory := by
    rw [bufctlMem, large, if_pos rfl]
  have isFree : ctl.memory ∈ kmm.freeMems (ref, slab) := by
    unfold freeMems
    rw [free, List.map_cons, mem_is]
    exact List.mem_cons_self ..
  have placed : (kmm.layout ref).Placed (kmm.page (ref, slab)) ctl.memory :=
    slabLaidOut.placed (.inl isFree)
  obtain ⟨refSlabs, refBufctls, -⟩ := accounted.slabs_ne large
  let popped : Kmm := kmm.setSlab slab ⟨rest, (kmm.slab slab).page, kmm.inuse slab⟩
  let poppedView : KmmView := { view with held := (ref, ctl.memory) :: view.held }
  have poppedLaidOut : popped.LaidOut poppedView := by
    have taken := @Chosen.taken _ _ _ _ chosen _ _ free (kmm.inuse slab)
    rw [mem_is] at taken
    exact taken
  have poppedOthers (other : Nat) (different : other ≠ slab) : popped.slab other = kmm.slab other :=
    setSlab_slab_of_ne _ _ different
  have notIn (other : KmmCacheRef) (different : other ≠ ref) : (other, slab) ∉ view.slabs := by
    intro shared
    have equal : (other, slab) = (ref, slab) :=
      chosen.laidOut.eq_of_address shared chosen.isSlab rfl
    exact different (congrArg Prod.fst equal)
  have poppedCaches (other : KmmCacheRef) (isKnown : other ∈ kmm.known storage)
      (different : other ≠ ref) : CacheOk popped poppedView other popped.inuse := by
    have moved : CacheOk popped view other popped.inuse :=
      (others other isKnown different).otherSlab rfl poppedOthers (notIn other different)
    exact moved.sameSlabs rfl
  have internal : Internal popped poppedView .largeBufctls := by
    refine ⟨poppedCaches _ (accounted.mem_known (by decide)) refBufctls.symm, ?_, ?_, ?_⟩
    · show (kmm.layout .largeBufctls).large = false
      rw [accounted.largeBufctlsIs]
      rfl
    · show 1 < (kmm.layout .largeBufctls).slabCapacity
      rw [accounted.largeBufctlsIs]
      decide
    · show (kmm.layout .largeBufctls).ctor = false
      rw [accounted.largeBufctlsIs]
      rfl
  have isHeld : (KmmCacheRef.largeBufctls, ctl.address) ∈ poppedView.held := by
    apply List.mem_cons_of_mem
    refine accounted.held.mem_iff.mpr (List.mem_append_left _ (List.mem_append_right _ ?_))
    refine List.mem_flatMap.mpr ⟨(ref, slab), chosen.isSlab, ?_⟩
    rw [needs_of_large large, free]
    exact List.mem_cons_of_mem _ (List.mem_cons_self ..)
  have objects := List.perm_cons_erase isHeld
  obtain ⟨middle, freed, spec⟩ := internal.free poppedLaidOut objects
    (fun _ _ _ same => KmmCacheRef.noConfusion (congrArg Prod.fst same)) calls
  have inner : Inner [.largeBufctls] popped poppedView middle _ :=
    spec.inner internal.small (List.mem_singleton_self _)
  have record : middle.slab slab = ⟨rest, (kmm.slab slab).page, kmm.inuse slab⟩ :=
    (inner.record ref slab large chosen.isSlab).trans (Function.update_self ..)
  let final : Kmm := middle.setSlab slab ⟨rest, (kmm.slab slab).page, kmm.inuse slab + 1⟩
  have finalOthers (other : Nat) (different : other ≠ slab) : final.slab other = middle.slab other :=
    setSlab_slab_of_ne _ _ different
  have finalRecord : final.slab slab = ⟨rest, (kmm.slab slab).page, kmm.inuse slab + 1⟩ :=
    Function.update_self ..
  have layout : final.layout = kmm.layout := spec.touches.layout
  have kept (entry : KmmEntry) (isSlab : entry ∈ view.slabs)
      (isLarge : (kmm.layout entry.1).large = true) (different : entry.2 ≠ slab) :
      final.slab entry.2 = kmm.slab entry.2 :=
    (finalOthers _ different).trans
      ((inner.record entry.1 entry.2 isLarge isSlab).trans (poppedOthers _ different))
  let finalView : KmmView :=
    { poppedView with held := poppedView.held.erase (.largeBufctls, ctl.address) }
  have finalSame (entry : KmmEntry) : SameSlab middle final entry := by
    refine ⟨rfl, ?_, ?_, rfl⟩
    · by_cases same : entry.2 = slab
      · rw [same, record, finalRecord]
      · rw [finalOthers _ same]
    · by_cases same : entry.2 = slab
      · rw [same, record, finalRecord]
      · rw [finalOthers _ same]
  have finalOk : Ok final storage users finalView ((ref, ctl.memory) :: live) := by
    refine ⟨accounted.transport layout spec.touches.registered ?_ accounted.loose accounted.slabs ?_,
      ?_⟩
    · exact spec.laidOut.congr (fun entry _ => finalSame entry) rfl rfl
    · obtain ⟨more, before, after⟩ := needs_change chosen.laidOut chosen.isSlab layout kept
      have isLarge : (final.layout ref).large = true := by
        rw [layout]
        exact large
      rw [needs_of_large large, free] at before
      rw [needs_of_large isLarge, finalRecord] at after
      apply List.Perm.cons_inv (a := (KmmCacheRef.largeBufctls, ctl.address))
      refine objects.symm.trans ((accounted.held.cons (ref, ctl.memory)).trans ?_)
      have drop : (view.slabs.flatMap kmm.needs).Perm
          ((KmmCacheRef.largeBufctls, ctl.address) :: view.slabs.flatMap final.needs) :=
        before.trans ((List.Perm.swap ..).trans (after.symm.cons _))
      exact ((drop.append_left ((ref, ctl.memory) :: live)).append_right _).trans
        (perm_insert [_] ((ref, ctl.memory) :: live) _ _).symm
    · intro other isKnown
      have isKnown' : other ∈ kmm.known storage := by
        have known : final.known storage = kmm.known storage :=
          congrArg (· ++ _) spec.touches.registered
        exact known ▸ isKnown
      by_cases self : other = ref
      · subst self
        refine chosen.counted free (spec.touches.cache other refBufctls) (fun _ => Iff.rfl)
          finalRecord fun address member different => ?_
        exact kept (other, address) ((chosen.cache.listed address).mp member) large different
      · have middleOk := inner.caches other (poppedCaches other isKnown' self)
        have finalOk : CacheOk final _ other final.inuse :=
          middleOk.otherSlab rfl finalOthers (notIn other self)
        exact finalOk.sameSlabs rfl
  have buffers (entry : KmmEntry) (isSlab : entry ∈ view.slabs) :
      SameBuffers kmm view.held final finalView.held entry := by
    have taken := chosen.laidOut.take_buffers chosen.isSlab free rfl
      (chosen.changes rest (kmm.inuse slab)) (by rw [setSlab_slab_self]) isSlab
    rw [mem_is] at taken
    exact (taken.trans (inner.buffers entry isSlab)).trans
      ((finalSame entry).buffers (List.Perm.refl _))
  refine ⟨final, finalView, ctl.memory, ?_, ?_, finalOk, ?_⟩
  · have positive := slabLaidOut.valid.positive
    have header := placed.header
    omega
  · have isCache : (kmm.cache ref).large = true := large
    have isRelease : calls.nested.free (kmm.setSlab slab
        ⟨rest, (kmm.slab slab).page, (kmm.slab slab).objectsInuse⟩) .largeBufctls ctl.address =
        .ok middle := freed
    have mem_is' : bufctlMem ctl (kmm.cache ref).toKmmCacheLayout = ctl.memory := mem_is
    have sum : wrap (kmm.inuse slab + 1) = kmm.inuse slab + 1 :=
      wrap_of_lt (Nat.lt_of_le_of_lt chosen.below chosen.cache.capacity_lt)
    simp only [objectAlloc, free, slistIsEmpty, List.isEmpty_cons, kassert_true, List.head?_cons,
      deref_some, slistRemove, if_true, Outcome.ok_bind, setSlab_cache, isCache, isRelease, record,
      mem_is', sum]
    rfl
  · exact .of_buffers accounted (fun _ => listed) finalOk layout spec.touches.registered
      (fun _ _ _ => Iff.rfl) buffers spec.objectCalls

end Kmm

end Yaeos
