import Yaeos.Kmm.Grow

/-!
# The caches together (`kernel/mm/kmm.c`)

`Kmm.Ok` is the invariant of the whole system: every object that is handed out
is live for a user, the descriptor of a large slab, the control block of a free
buffer of a large slab, or a cache that `kmm_cache_create` made.
-/

namespace Yaeos

namespace Kmm

variable {kmm next : Kmm} {view view' : KmmView} {ref : KmmCacheRef} {slab : Nat}
  {storage users : List Nat} {live live' : List KmmEntry} {refs : List KmmCacheRef}

/-- The caches in use; `storage` are the static ones outside `kmm.c`. -/
def known (kmm : Kmm) (storage : List Nat) : List KmmCacheRef :=
  kmm.allocatedCaches ++ storage.map KmmCacheRef.storage

/-- The objects of the internal caches that a slab is made of. -/
def needs (kmm : Kmm) (entry : KmmEntry) : List KmmEntry :=
  if (kmm.layout entry.1).large then
    (KmmCacheRef.slabs, entry.2) :: (kmm.slab entry.2).freeBuffers.map
      fun ctl => (KmmCacheRef.largeBufctls, ctl.address)
  else []

/-- What `kmm_init` makes of `CACHES.caches`. -/
def cachesLayout : KmmCacheLayout := ⟨60, 4, 63, 64, false, false, false⟩

/-- What `kmm_init` makes of `CACHES.slabs`. -/
def slabsLayout : KmmCacheLayout := ⟨16, 4, 203, 20, false, false, false⟩

/-- What `kmm_init` makes of `CACHES.large_bufctls`. -/
def largeBufctlsLayout : KmmCacheLayout := ⟨8, 4, 339, 12, false, false, false⟩

/-- The objects that are handed out are accounted for, and the caches registered. -/
structure Accounted (kmm : Kmm) (storage users : List Nat) (view : KmmView)
    (live : List KmmEntry) : Prop where
  laidOut : kmm.LaidOut view
  loose : view.loose = []
  nodup : (kmm.known storage).Nodup
  slabs : ∀ entry ∈ view.slabs, entry.1 ∈ kmm.known storage
  registered : kmm.allocatedCaches =
    users.map KmmCacheRef.created ++ [.largeBufctls, .slabs, .caches]
  held : view.held.Perm
    (live ++ view.slabs.flatMap kmm.needs ++ users.map (Prod.mk KmmCacheRef.caches))
  cachesIs : kmm.layout .caches = cachesLayout
  slabsIs : kmm.layout .slabs = slabsLayout
  largeBufctlsIs : kmm.layout .largeBufctls = largeBufctlsLayout

/-- The invariant of the system. -/
structure Ok (kmm : Kmm) (storage users : List Nat) (view : KmmView) (live : List KmmEntry) :
    Prop where
  accounted : Accounted kmm storage users view live
  caches : ∀ ref ∈ kmm.known storage, CacheOk kmm view ref kmm.inuse

theorem Accounted.mem_known (accounted : Accounted kmm storage users view live)
    (internal : ref ∈ [KmmCacheRef.largeBufctls, .slabs, .caches]) : ref ∈ kmm.known storage := by
  unfold known
  rw [accounted.registered]
  exact List.mem_append_left _ (List.mem_append_right _ internal)

/-- The internal caches are small ones, with more than one object in a slab. -/
theorem Accounted.internal_shape (accounted : Accounted kmm storage users view live)
    (internal : ref ∈ [KmmCacheRef.largeBufctls, .slabs, .caches]) :
    (kmm.layout ref).large = false ∧ 1 < (kmm.layout ref).slabCapacity ∧
      (kmm.layout ref).ctor = false := by
  simp only [List.mem_cons, List.not_mem_nil, or_false] at internal
  rcases internal with rfl | rfl | rfl
  · rw [accounted.largeBufctlsIs]
    decide
  · rw [accounted.slabsIs]
    decide
  · rw [accounted.cachesIs]
    decide

theorem Accounted.slabs_ne (accounted : Accounted kmm storage users view live)
    (large : (kmm.layout ref).large = true) :
    ref ≠ .slabs ∧ ref ≠ .largeBufctls ∧ ref ≠ .caches := by
  refine ⟨?_, ?_, ?_⟩
  all_goals
    rintro rfl
    rw [(accounted.internal_shape (by decide)).1] at large
    exact Bool.false_ne_true large

theorem Accounted.internal (accounted : Accounted kmm storage users view live)
    (internal : ref ∈ [KmmCacheRef.largeBufctls, .slabs, .caches])
    (ok : CacheOk kmm view ref kmm.inuse) : Internal kmm view ref := by
  obtain ⟨small, several, noCtor⟩ := accounted.internal_shape internal
  exact ⟨ok, small, several, noCtor⟩

theorem Ok.internal (ok : Ok kmm storage users view live)
    (internal : ref ∈ [KmmCacheRef.largeBufctls, .slabs, .caches]) : Internal kmm view ref :=
  ok.accounted.internal internal (ok.caches ref (ok.accounted.mem_known internal))

/-- Layouts and registrations stay; the objects are accounted for again. -/
theorem Accounted.transport (accounted : Accounted kmm storage users view live)
    (layout : next.layout = kmm.layout) (registered : next.allocatedCaches = kmm.allocatedCaches)
    (laidOut : next.LaidOut view') (loose : view'.loose = [])
    (slabs : ∀ entry ∈ view'.slabs, entry.1 ∈ kmm.known storage)
    (held : view'.held.Perm
      (live' ++ view'.slabs.flatMap next.needs ++ users.map (Prod.mk KmmCacheRef.caches))) :
    Accounted next storage users view' live' := by
  have known : next.known storage = kmm.known storage := by
    unfold Kmm.known
    rw [registered]
  constructor
  · exact laidOut
  · exact loose
  · exact known ▸ accounted.nodup
  · exact known ▸ slabs
  · exact registered.trans accounted.registered
  · exact held
  · rw [layout]
    exact accounted.cachesIs
  · rw [layout]
    exact accounted.slabsIs
  · rw [layout]
    exact accounted.largeBufctlsIs

theorem needs_of_small {entry : KmmEntry} (small : (kmm.layout entry.1).large = false) :
    kmm.needs entry = [] := by
  unfold needs
  rw [small, if_neg Bool.false_ne_true]

theorem mem_needs {object entry : KmmEntry} (member : object ∈ kmm.needs entry) :
    object.1 = .slabs ∨ object.1 = .largeBufctls := by
  unfold needs at member
  split at member
  · rcases List.mem_cons.mp member with rfl | isCtl
    · exact .inl rfl
    · obtain ⟨_, _, rfl⟩ := List.mem_map.mp isCtl
      exact .inr rfl
  · exact (List.not_mem_nil member).elim

/-- Calls on small caches do not change what the slabs are made of. -/
theorem Inner.needs (inner : Inner refs kmm view next view') :
    view'.slabs.flatMap next.needs = view.slabs.flatMap kmm.needs := by
  obtain ⟨more, small, slabs⟩ := inner.slabs
  have noMore : more.flatMap next.needs = [] := by
    rw [List.flatMap_eq_nil_iff]
    intro entry member
    apply needs_of_small
    rw [inner.layout]
    exact (small entry member).2
  rw [slabs, List.flatMap_append, noMore, List.nil_append]
  apply List.flatMap_congr
  intro entry member
  unfold Kmm.needs
  rw [inner.layout]
  cases large : (kmm.layout entry.1).large with
  | false => rfl
  | true => rw [inner.record entry.1 entry.2 large member]

/-- The slabs of a large cache stay the same. -/
theorem Inner.mem_slabs_of_large (inner : Inner refs kmm view next view')
    (large : (kmm.layout ref).large = true) :
    (ref, slab) ∈ view'.slabs ↔ (ref, slab) ∈ view.slabs := by
  obtain ⟨more, small, slabs⟩ := inner.slabs
  rw [slabs, List.mem_append]
  refine ⟨fun member => member.resolve_left fun new => ?_, .inr⟩
  rw [(small _ new).2] at large
  exact Bool.false_ne_true large

theorem Inner.known (inner : Inner refs kmm view next view') :
    next.known storage = kmm.known storage := by
  unfold Kmm.known
  rw [inner.registered]

theorem Inner.slabs_known (inner : Inner refs kmm view next view')
    (accounted : Accounted kmm storage users view live)
    (allowed : ∀ ref ∈ refs, ref ∈ kmm.known storage) :
    ∀ entry ∈ view'.slabs, entry.1 ∈ kmm.known storage := by
  obtain ⟨more, small, slabs⟩ := inner.slabs
  intro entry member
  rw [slabs] at member
  rcases List.mem_append.mp member with new | old
  · exact allowed entry.1 (small entry new).1
  · exact accounted.slabs entry old

theorem Ok.inner (ok : Ok kmm storage users view live) (inner : Inner refs kmm view next view')
    (laidOut : next.LaidOut view') (loose : view'.loose = view.loose)
    (allowed : ∀ ref ∈ refs, ref ∈ kmm.known storage)
    (held : view'.held.Perm
      (live' ++ view.slabs.flatMap kmm.needs ++ users.map (Prod.mk KmmCacheRef.caches))) :
    Ok next storage users view' live' := by
  refine ⟨ok.accounted.transport inner.layout inner.registered laidOut
    (loose.trans ok.accounted.loose) (inner.slabs_known ok.accounted allowed) ?_, ?_⟩
  · rw [inner.needs]
    exact held
  · intro ref member
    rw [inner.known] at member
    exact inner.caches ref (ok.caches ref member)

/-- The answers of `ALLOC_PAGE_FN` and the object calls do not matter. -/
theorem Ok.congr (ok : Ok kmm storage users view live) (cache : next.cache = kmm.cache)
    (slab : next.slab = kmm.slab) (owner : next.owner = kmm.owner)
    (registered : next.allocatedCaches = kmm.allocatedCaches)
    (obtained : next.obtained = kmm.obtained) (released : next.released = kmm.released) :
    Ok next storage users view live := by
  have layout : next.layout = kmm.layout := by
    funext ref
    exact congrArg KmmCache.toKmmCacheLayout (congrFun cache ref)
  have same (entry : KmmEntry) : SameSlab kmm next entry :=
    ⟨congrFun layout _, congrArg _ (congrFun slab _), congrArg _ (congrFun slab _),
      congrFun owner _⟩
  have inner : Inner [] kmm view next view := by
    refine ⟨fun ref before => ?_, layout, fun ref _ => congrFun cache ref,
      fun _ other _ _ => congrFun slab other,
      ⟨[], fun _ member => (List.not_mem_nil member).elim, rfl⟩,
      fun entry _ => (same entry).buffers (List.Perm.refl _), registered, released⟩
    refine before.congr (congrFun cache ref) (fun _ => Iff.rfl) ?_ ?_
    · intro other member
      rw [inuse, slab]
      exact before.counts other member
    · intro other _
      rw [inuse, slab]
      rfl
  exact ok.inner inner (ok.accounted.laidOut.congr (fun entry _ => same entry) obtained released) rfl
    (fun _ member => (List.not_mem_nil member).elim) ok.accounted.held

end Kmm

end Yaeos
