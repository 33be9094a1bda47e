import Yaeos.Kmm.Internal

/-!
# Growing a large cache (`slab_create_large` of `kernel/mm/kmm.c`)

A new slab of a large cache takes a descriptor, a page and a control block for
each buffer.  The failures of the first two are handled; the control blocks are
used as they come.
-/

namespace Yaeos

namespace Kmm

variable {kmm next : Kmm} {view view' : KmmView} {ref : KmmCacheRef} {slab page start : Nat}

/-- Only a record that is no slab's is different. -/
theorem Inner.otherSlab (cache : next.cache = kmm.cache)
    (others : ∀ other ≠ slab, next.slab other = kmm.slab other)
    (notIn : ∀ entry ∈ view.slabs, entry.2 ≠ slab) (slabs : view'.slabs = view.slabs)
    (held : view'.held.Perm view.held)
    (registered : next.allocatedCaches = kmm.allocatedCaches)
    (released : next.released = kmm.released) (refs : List KmmCacheRef) :
    Inner refs kmm view next view' := by
  constructor
  · intro ref ok
    exact (ok.otherSlab (congrFun cache ref) others fun member => notIn _ member rfl).sameSlabs slabs
  · funext ref
    exact congrArg KmmCache.toKmmCacheLayout (congrFun cache ref)
  · exact fun ref _ => congrFun cache ref
  · exact fun ref other _ member => others other (notIn _ member)
  · exact ⟨[], fun _ member => (List.not_mem_nil member).elim, slabs⟩
  · intro entry member
    have record := others _ (notIn entry member)
    exact .of_record (congrArg KmmCache.toKmmCacheLayout (congrFun cache entry.1))
      (congrArg KmmSlab.freeBuffers record) (congrArg KmmSlab.page record) (held.filter _)
  · exact registered
  · exact released

/-- The free objects of a cache do not depend on records that are no slab's. -/
theorem freeObjects_otherSlab (ok : CacheOk kmm view ref kmm.inuse)
    (cache : next.cache = kmm.cache)
    (others : ∀ other ≠ slab, next.slab other = kmm.slab other)
    (notIn : ∀ entry ∈ view.slabs, entry.2 ≠ slab) :
    next.freeObjects ref = kmm.freeObjects ref := by
  unfold freeObjects
  rw [cache]
  congr 1
  apply List.map_congr_left
  intro other member
  rw [others other (notIn _ ((ok.listed other).mp member))]

/-- The caches that large slabs are made of. -/
def internalPair : List KmmCacheRef := [.slabs, .largeBufctls]

/-- The loop of `slab_create_large` after some rounds, seen from its start: the
buffers so far have their control blocks. -/
structure Growing (base : Kmm) (baseView : KmmView) (ref : KmmCacheRef) (slab page start : Nat)
    (rounds : Nat) (kmm : Kmm) : Prop where
  exists_view : ∃ view ctls, kmm.LaidOut view ∧ Inner internalPair base baseView kmm view ∧
    (∀ entry ∈ view.slabs, entry.2 ≠ slab) ∧
    kmm.slab slab = ⟨ctls, page, 0⟩ ∧
    ctls.map Bufctl.memory =
      ((List.range rounds).map fun i => start + i * (base.layout ref).stride).reverse ∧
    view.held = ctls.map (fun ctl => (KmmCacheRef.largeBufctls, ctl.address)) ++ baseView.held ∧
    view.loose = baseView.loose
  fresh : kmm.SupplyFresh
  owner : kmm.owner page = base.owner page
  available : kmm.available .largeBufctls + rounds = base.available .largeBufctls
  objectCalls : kmm.objectCalls = KmmCacheLayout.constructed ref (base.layout ref)
    ((List.range rounds).map fun i => start + i * (base.layout ref).stride) ++ base.objectCalls

/-- What the loop of `slab_create_large` starts from. -/
structure GrowBase (base : Kmm) (view : KmmView) (ref : KmmCacheRef) (slab page start : Nat) :
    Prop where
  laidOut : base.LaidOut view
  sound : (base.layout ref).Sound
  large : (base.layout ref).large = true
  slabs : Internal base view .slabs
  largeBufctls : Internal base view .largeBufctls
  fresh : base.SupplyFresh
  descriptor : (KmmCacheRef.slabs, slab) ∈ view.held
  notIn : ∀ entry ∈ view.slabs, entry.2 ≠ slab
  isLoose : page ∈ view.loose
  record : base.slab slab = ⟨[], page, 0⟩
  fits : (base.layout ref).Fits page start

theorem GrowBase.growing_zero {base : Kmm} (grow : GrowBase base view ref slab page start) :
    Growing base view ref slab page start 0 base :=
  ⟨⟨view, [], grow.laidOut, Inner.refl _ base view, grow.notIn, grow.record, rfl, rfl, rfl⟩,
    grow.fresh, rfl, rfl, rfl⟩

/-- A round of the loop with a control block available. -/
theorem GrowBase.round {base : Kmm} (grow : GrowBase base view ref slab page start) {rounds : Nat}
    (below : rounds < (base.layout ref).slabCapacity)
    (enough : rounds < base.available .largeBufctls) (calls : KmmCalls)
    (growing : Growing base view ref slab page start rounds kmm) :
    ∃ next, addBufferLarge calls.nested ref slab start kmm rounds = .ok next ∧
      Growing base view ref slab page start (rounds + 1) next := by
  obtain ⟨before, ctls, laidOut, inner, notIn, record, mems, held, loose⟩ := growing.exists_view
  have internal := grow.largeBufctls.inner inner
  have balance := growing.available
  obtain ⟨middle, after, ctl, allocated, spec, fresh, left, -⟩ :=
    internal.alloc laidOut growing.fresh (by omega) calls
  have step : Inner internalPair kmm before middle after :=
    spec.inner internal.small (by decide)
  have layout : middle.layout = base.layout := step.layout.trans inner.layout
  have isHeld : (KmmCacheRef.slabs, slab) ∈ after.held := by
    rw [spec.held, held]
    exact List.mem_cons_of_mem _ (List.mem_append_right _ grow.descriptor)
  have notIn' : ∀ entry ∈ after.slabs, entry.2 ≠ slab := by
    intro entry member
    refine spec.laidOut.ne_descriptor isHeld ?_ ?_ member
    · rw [layout]
      exact grow.slabs.small
    · intro other isOther large
      obtain ⟨more, small, slabs⟩ := step.slabs
      rw [slabs] at isOther
      rcases List.mem_append.mp isOther with new | old
      · rw [step.layout, (small other new).2] at large
        exact absurd large Bool.false_ne_true
      · exact notIn other old
  have sameRecord : middle.slab slab = kmm.slab slab :=
    spec.touches.slab slab fun member => notIn' _ member rfl
  have obj : wrap (start + rounds * (base.layout ref).stride) =
      start + rounds * (base.layout ref).stride := by
    have placed := grow.fits.placed grow.sound
      (KmmCacheLayout.mem_buffers.mpr ⟨rounds, below, rfl⟩)
    have valid := grow.laidOut.loose page grow.isLoose
    have inside := placed.inside
    have pageInside := valid.inside
    exact wrap_of_lt (by omega)
  let result : Kmm :=
    { middle.setSlab slab ⟨⟨ctl, start + rounds * (base.layout ref).stride⟩ :: ctls, page, 0⟩ with
      objectCalls := constructorCalls ref (base.layout ref)
        (start + rounds * (base.layout ref).stride) ++ middle.objectCalls }
  have others (other : Nat) (different : other ≠ slab) : result.slab other = middle.slab other :=
    setSlab_slab_of_ne _ _ different
  have stored : Inner internalPair middle after result after :=
    @Inner.otherSlab middle result after after slab rfl others notIn' rfl (List.Perm.refl _) rfl rfl _
  refine ⟨result, ?_, ⟨after, ⟨ctl, start + rounds * (base.layout ref).stride⟩ :: ctls,
    ?_, ?_, notIn', ?_, ?_, ?_, ?_⟩, ?_, ?_, ?_, ?_⟩
  · have isAlloc : calls.nested.alloc kmm .largeBufctls = .ok (middle, some ctl) := allocated
    have isLayout : (middle.cache ref).toKmmCacheLayout = base.layout ref := congrFun layout ref
    have descriptor : middle.slab slab = ⟨ctls, page, 0⟩ := sameRecord.trans record
    simp only [addBufferLarge, isAlloc, Option.isSome_some, kassert_true, deref_some, isLayout,
      obj, descriptor, slistInsert, Outcome.ok_bind]
    rfl
  · refine spec.laidOut.congr (fun entry member => ?_) rfl rfl
    have same := others entry.2 (notIn' entry member)
    exact ⟨rfl, congrArg KmmSlab.freeBuffers same, congrArg KmmSlab.page same, rfl⟩
  · exact (inner.trans step).trans stored
  · exact Function.update_self ..
  · rw [List.map_cons, mems, List.range_succ, List.map_append, List.reverse_append]
    rfl
  · rw [spec.held, held]
    rfl
  · rw [spec.loose, loose]
  · exact fresh.same rfl rfl rfl
  · have isLoose : page ∈ after.loose := by
      rw [spec.loose, loose]
      exact grow.isLoose
    exact (spec.touches.owner page isLoose).trans growing.owner
  · have same : result.freeObjects .largeBufctls = middle.freeObjects .largeBufctls :=
      freeObjects_otherSlab spec.cache rfl others notIn'
    have sameAvailable : result.available .largeBufctls = middle.available .largeBufctls := by
      unfold available
      rw [same]
      rfl
    omega
  · show constructorCalls ref (base.layout ref) _ ++ middle.objectCalls = _
    rw [spec.grows.quiet internal.noCtor, growing.objectCalls, List.range_succ, List.map_append,
      List.map_singleton, KmmCacheLayout.constructed_append, List.append_assoc]

theorem GrowBase.rounds {base : Kmm} (grow : GrowBase base view ref slab page start) {rounds : Nat}
    (below : rounds ≤ (base.layout ref).slabCapacity)
    (enough : rounds ≤ base.available .largeBufctls) (calls : KmmCalls) :
    ∃ next, (List.range rounds).foldlM (addBufferLarge calls.nested ref slab start) base =
        .ok next ∧ Growing base view ref slab page start rounds next :=
  Loop.range_ok (Growing base view ref slab page start) grow.growing_zero
    fun _ small _ growing => grow.round (Nat.lt_of_lt_of_le small below)
      (Nat.lt_of_lt_of_le small enough) calls growing

/-- Without enough control blocks the first that is missing stops the kernel: `NULL`
is handed to `slist_init`. -/
theorem GrowBase.fails {base : Kmm} (grow : GrowBase base view ref slab page start)
    (short : base.available .largeBufctls < (base.layout ref).slabCapacity) (calls : KmmCalls) :
    (List.range (base.layout ref).slabCapacity).foldlM
      (addBufferLarge calls.nested ref slab start) base = .error .kassert := by
  obtain ⟨state, before, growing⟩ := grow.rounds (Nat.le_of_lt short) (Nat.le_refl _) calls
  refine Loop.range_error short before ?_
  obtain ⟨view', -, laidOut, inner, -⟩ := growing.exists_view
  have balance := growing.available
  obtain ⟨next, refused, -⟩ := (grow.largeBufctls.inner inner).alloc_none laidOut growing.fresh
    (by omega) calls
  have isAlloc : calls.nested.alloc state .largeBufctls = .ok (next, none) := refused
  simp only [addBufferLarge, isAlloc, Outcome.ok_bind]
  exact (congrArg (· >>= _) (kassert_error (by simp))).trans rfl

/-- The slab is complete: all its buffers are free. -/
theorem Growing.slabLaidOut {base : Kmm} (grow : GrowBase base view ref slab page start)
    (owner : base.owner page = some slab)
    (growing : Growing base view ref slab page start (base.layout ref).slabCapacity kmm) :
    ∃ view', Inner internalPair base view kmm view' ∧ view'.loose = view.loose ∧ kmm.LaidOut view' ∧
      (∀ entry ∈ view'.slabs, entry.2 ≠ slab) ∧
      view'.held = (kmm.slab slab).freeBuffers.map
        (fun ctl => (KmmCacheRef.largeBufctls, ctl.address)) ++ view.held ∧
      kmm.SlabLaidOut view'.held (ref, slab) ∧ kmm.page (ref, slab) = page ∧
      kmm.inuse slab = 0 ∧
      (kmm.slab slab).freeBuffers.length = (kmm.layout ref).slabCapacity ∧
      kmm.objectCalls = KmmCacheLayout.constructed ref (base.layout ref)
        ((base.layout ref).buffers start) ++ base.objectCalls ∧
      (kmm.bufferMems view'.held (ref, slab)).Perm ((base.layout ref).buffers start) := by
  obtain ⟨view', ctls, laidOut, inner, notIn, record, mems, held, loose⟩ := growing.exists_view
  have isLoose : page ∈ view'.loose := loose ▸ grow.isLoose
  have isPage : kmm.page (ref, slab) = page := congrArg KmmSlab.page record
  have large : (kmm.layout ref).large = true := by
    rw [inner.layout]
    exact grow.large
  have free : kmm.freeMems (ref, slab) = ((base.layout ref).buffers start).reverse := by
    unfold freeMems
    rw [record, KmmCacheLayout.buffers, ← mems]
    apply List.map_congr_left
    intro ctl _
    rw [bufctlMem, large, if_pos rfl]
  refine ⟨view', inner, loose, laidOut, notIn, by rw [record, held], ?_, isPage,
    congrArg KmmSlab.objectsInuse record, ?_, growing.objectCalls, ?_⟩
  · constructor
    · rw [inner.layout]
      exact grow.sound
    · rw [isPage]
      exact grow.laidOut.loose page grow.isLoose
    · rw [isPage, growing.owner, owner]
    · rw [large]
      exact fun impossible => absurd impossible.symm Bool.false_ne_true
    · rw [isPage, inner.layout, free, laidOut.onPage_loose isLoose, List.append_nil]
      exact ⟨start, grow.fits, (List.reverse_perm _).map _⟩
    · rw [large]
      exact fun impossible => absurd impossible.symm Bool.false_ne_true
  · have lengths := congrArg List.length mems
    rw [List.length_map, List.length_reverse, List.length_map, List.length_range] at lengths
    rw [record, inner.layout]
    exact lengths
  · unfold bufferMems
    rw [free, isPage, laidOut.onPage_loose isLoose, List.map_nil, List.append_nil]
    exact List.reverse_perm _

end Kmm

end Yaeos
