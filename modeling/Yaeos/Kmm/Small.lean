import Yaeos.Kmm.Buffers
import Yaeos.Kmm.Lists

/-!
# Calls on small caches (`kernel/mm/kmm.c`)

What `kmm_cache_alloc` and `kmm_cache_free` do on a small cache.  Calls on large
caches contain calls on the small internal ones, so the statements leave the
rest of the system open: the other caches may be in the middle of a call.
-/

namespace Yaeos

namespace Kmm

variable {kmm next : Kmm} {view view' : KmmView} {ref other : KmmCacheRef} {slab : Nat}
  {count : Nat → Nat}

/-- The lists, the counters and the colour of a cache fit the view. -/
structure CacheOk (kmm : Kmm) (view : KmmView) (ref : KmmCacheRef) (count : Nat → Nat) : Prop where
  sound : (kmm.layout ref).Sound
  nodup : (kmm.cache ref).allSlabs.Nodup
  listed : ∀ slab, slab ∈ (kmm.cache ref).allSlabs ↔ (ref, slab) ∈ view.slabs
  counts : ∀ slab ∈ (kmm.cache ref).allSlabs,
    kmm.inuse slab + (kmm.slab slab).freeBuffers.length = (kmm.layout ref).slabCapacity
  sorted : (kmm.cache ref).Sorted count
  coloured : (kmm.cache ref).Coloured

/-- A call on a cache leaves the rest of the system alone. -/
structure Touches (kmm next : Kmm) (ref : KmmCacheRef) (view : KmmView) : Prop where
  layout : next.layout = kmm.layout
  cache : ∀ other ≠ ref, next.cache other = kmm.cache other
  slab : ∀ slab, (ref, slab) ∉ view.slabs → next.slab slab = kmm.slab slab
  owner : ∀ page ∈ view.loose, next.owner page = kmm.owner page
  registered : next.allocatedCaches = kmm.allocatedCaches

theorem layout_setCache {cache : KmmCache} (same : cache.toKmmCacheLayout = kmm.layout ref) :
    (kmm.setCache ref cache).layout = kmm.layout := by
  funext other
  by_cases self : other = ref
  · subst self
    simpa [layout] using same
  · simp [layout, setCache_cache_of_ne _ _ self]

theorem setCache_sameSlab {cache : KmmCache} (same : cache.toKmmCacheLayout = kmm.layout ref)
    (entry : KmmEntry) : SameSlab kmm (kmm.setCache ref cache) entry :=
  ⟨congrFun (layout_setCache same) _, rfl, rfl, rfl⟩

theorem setCache_buffers {cache : KmmCache} (same : cache.toKmmCacheLayout = kmm.layout ref)
    (held : List KmmEntry) (entry : KmmEntry) :
    SameBuffers kmm held (kmm.setCache ref cache) held entry :=
  (setCache_sameSlab same entry).buffers (List.Perm.refl _)

theorem CacheOk.capacity_lt (ok : CacheOk kmm view ref count) :
    (kmm.cache ref).slabCapacity < addressSpace := by
  have capacity := ok.sound.capacity
  have bound := Nat.div_le_self (platformPageSize - (kmm.layout ref).header)
    (kmm.layout ref).stride
  rw [← capacity] at bound
  have page : platformPageSize < addressSpace := by decide
  exact Nat.lt_of_le_of_lt (Nat.le_trans bound (Nat.sub_le ..)) page

theorem CacheOk.congr (ok : CacheOk kmm view ref count) (cache : next.cache ref = kmm.cache ref)
    (slabs : ∀ slab, (ref, slab) ∈ view'.slabs ↔ (ref, slab) ∈ view.slabs)
    {count' : Nat → Nat} (counts : ∀ slab ∈ (kmm.cache ref).allSlabs,
      next.inuse slab + (next.slab slab).freeBuffers.length = (kmm.layout ref).slabCapacity)
    (same : ∀ slab ∈ (kmm.cache ref).allSlabs, count' slab = count slab) :
    CacheOk next view' ref count' := by
  have layout : next.layout ref = kmm.layout ref := congrArg KmmCache.toKmmCacheLayout cache
  constructor
  · rw [layout]
    exact ok.sound
  · rw [cache]
    exact ok.nodup
  · intro slab
    rw [cache, slabs slab]
    exact ok.listed slab
  · rw [cache, layout]
    exact counts
  · rw [cache]
    exact ok.sorted.congr same
  · rw [cache]
    exact ok.coloured

theorem CacheOk.sameSlabs (ok : CacheOk kmm view ref count) (slabs : view'.slabs = view.slabs) :
    CacheOk kmm view' ref count := by
  obtain ⟨sound, nodup, listed, counts, sorted, coloured⟩ := ok
  exact ⟨sound, nodup, slabs ▸ listed, counts, sorted, coloured⟩

/-- The slabs of a cache are put on other lists. -/
theorem CacheOk.rearranged (ok : CacheOk kmm view ref count) {moved : KmmCache}
    {count' : Nat → Nat} (rearranged : (kmm.cache ref).Rearranged moved count') :
    CacheOk (kmm.setCache ref moved) view ref count' := by
  have layout : (kmm.setCache ref moved).layout = kmm.layout := layout_setCache rearranged.layout
  constructor
  · rw [layout]
    exact ok.sound
  · rw [setCache_cache_self]
    exact rearranged.slabs.nodup_iff.mpr ok.nodup
  · intro slab
    rw [setCache_cache_self, rearranged.slabs.mem_iff]
    exact ok.listed slab
  · intro slab member
    rw [setCache_cache_self, rearranged.slabs.mem_iff] at member
    rw [layout]
    exact ok.counts slab member
  · rw [setCache_cache_self]
    exact rearranged.sorted
  · rw [setCache_cache_self]
    exact ok.coloured.rearranged rearranged

/-- A cache that a call leaves alone. -/
theorem CacheOk.touches (ok : CacheOk kmm view other count) (touches : Touches kmm next ref view')
    (laidOut : next.LaidOut view') (different : other ≠ ref)
    (slabs : ∀ slab, (other, slab) ∈ view'.slabs ↔ (other, slab) ∈ view.slabs)
    {count' : Nat → Nat} (same : ∀ slab, next.slab slab = kmm.slab slab → count' slab = count slab) :
    CacheOk next view' other count' := by
  have record (slab : Nat) (member : slab ∈ (kmm.cache other).allSlabs) :
      next.slab slab = kmm.slab slab := by
    apply touches.slab
    intro shared
    have isSlab := (slabs slab).mpr ((ok.listed slab).mp member)
    have equal : (other, slab) = (ref, slab) := laidOut.eq_of_address isSlab shared rfl
    exact different (congrArg Prod.fst equal)
  refine ok.congr (touches.cache other different) slabs ?_ fun slab member =>
    same slab (record slab member)
  intro slab member
  rw [inuse, record slab member]
  exact ok.counts slab member

/-! ## Taking an object -/

/-- The state between the choice of a slab and the removal of a buffer from it:
the slab is on the list for one object more. -/
structure Chosen (kmm : Kmm) (view : KmmView) (ref : KmmCacheRef) (slab : Nat) : Prop where
  laidOut : kmm.LaidOut view
  member : slab ∈ (kmm.cache ref).allSlabs
  below : kmm.inuse slab < (kmm.layout ref).slabCapacity
  cache : CacheOk kmm view ref (Function.update kmm.inuse slab (kmm.inuse slab + 1))

theorem Chosen.isSlab (chosen : Chosen kmm view ref slab) : (ref, slab) ∈ view.slabs :=
  (chosen.cache.listed slab).mp chosen.member

theorem Chosen.free (chosen : Chosen kmm view ref slab) :
    ∃ ctl rest, (kmm.slab slab).freeBuffers = ctl :: rest := by
  apply List.exists_cons_of_ne_nil
  intro empty
  have counted := chosen.cache.counts slab chosen.member
  rw [empty, List.length_nil] at counted
  exact Nat.ne_of_lt chosen.below counted

theorem Chosen.changes (_ : Chosen kmm view ref slab) (rest : List Bufctl) (objects : Nat) :
    ChangesSlab kmm (kmm.setSlab slab ⟨rest, (kmm.slab slab).page, objects⟩) slab := by
  refine ⟨fun _ => rfl, ?_, ?_, rfl, rfl, rfl⟩
  · rw [setSlab_slab_self]
  · intro other different
    exact setSlab_slab_of_ne _ _ different

/-- The first free buffer leaves the list of its slab. -/
theorem Chosen.taken (chosen : Chosen kmm view ref slab) {ctl : Bufctl} {rest : List Bufctl}
    (free : (kmm.slab slab).freeBuffers = ctl :: rest) {objects : Nat} :
    (kmm.setSlab slab ⟨rest, (kmm.slab slab).page, objects⟩).LaidOut
      { view with held := (ref, bufctlMem ctl (kmm.layout ref)) :: view.held } := by
  refine chosen.laidOut.take chosen.isSlab free rfl (chosen.changes rest objects) ?_
  rw [setSlab_slab_self]

/-- The lists match the counters once the counter of the slab is the expected one and its
buffers are in use or free as before. -/
theorem CacheOk.recounted {value : Nat}
    (ok : CacheOk kmm view ref (Function.update kmm.inuse slab value))
    (member : slab ∈ (kmm.cache ref).allSlabs) (cache : next.cache ref = kmm.cache ref)
    (slabs : ∀ slab, (ref, slab) ∈ view'.slabs ↔ (ref, slab) ∈ view.slabs)
    (this : next.inuse slab = value)
    (total : next.inuse slab + (next.slab slab).freeBuffers.length =
      kmm.inuse slab + (kmm.slab slab).freeBuffers.length)
    (others : ∀ other ∈ (kmm.cache ref).allSlabs, other ≠ slab →
      next.slab other = kmm.slab other) :
    CacheOk next view' ref next.inuse := by
  refine ok.congr cache slabs ?_ ?_
  · intro other inCache
    by_cases self : other = slab
    · rw [self, total]
      exact ok.counts slab member
    · rw [inuse, others other inCache self]
      exact ok.counts other inCache
  · intro other inCache
    by_cases self : other = slab
    · rw [self, Function.update_self, this]
    · rw [Function.update_of_ne self, inuse, others other inCache self]
      rfl

/-- When the counter is raised, the lists match the counters. -/
theorem Chosen.counted (chosen : Chosen kmm view ref slab) {ctl : Bufctl} {rest : List Bufctl}
    (free : (kmm.slab slab).freeBuffers = ctl :: rest)
    (cache : next.cache ref = kmm.cache ref)
    (slabs : ∀ slab, (ref, slab) ∈ view'.slabs ↔ (ref, slab) ∈ view.slabs)
    (this : next.slab slab = ⟨rest, (kmm.slab slab).page, kmm.inuse slab + 1⟩)
    (others : ∀ other ∈ (kmm.cache ref).allSlabs, other ≠ slab →
      next.slab other = kmm.slab other) :
    CacheOk next view' ref next.inuse := by
  refine chosen.cache.recounted chosen.member cache slabs (by rw [inuse, this]) ?_ others
  rw [inuse, this, free, List.length_cons]
  show kmm.inuse slab + 1 + rest.length = _
  omega

/-! ## Choosing a slab -/

theorem Chosen.existing (laidOut : kmm.LaidOut view) (ok : CacheOk kmm view ref kmm.inuse)
    {moved : KmmCache}
    (member : slab ∈ (kmm.cache ref).slabsPartial ∨ slab ∈ (kmm.cache ref).slabsEmpty)
    (below : kmm.inuse slab < (kmm.cache ref).slabCapacity)
    (rearranged : (kmm.cache ref).Rearranged moved
      (Function.update kmm.inuse slab (kmm.inuse slab + 1))) :
    Chosen (kmm.setCache ref moved) view ref slab := by
  have layout : (kmm.setCache ref moved).layout = kmm.layout := layout_setCache rearranged.layout
  have isSlab : slab ∈ (kmm.cache ref).allSlabs := by
    rw [KmmCache.mem_allSlabs]
    rcases member with isPartial | isEmpty
    · exact .inr (.inl isPartial)
    · exact .inl isEmpty
  refine ⟨laidOut.congr (fun entry _ => ⟨congrFun layout _, rfl, rfl, rfl⟩) rfl rfl, ?_, ?_,
    ok.rearranged rearranged⟩
  · rw [setCache_cache_self]
    exact rearranged.slabs.mem_iff.mpr isSlab
  · rw [layout]
    exact below

/-- A new slab is put on the list for its first object. -/
theorem Chosen.new (laidOut : kmm.LaidOut view')
    (slabs : view'.slabs = (ref, slab) :: view.slabs) (ok : CacheOk kmm view ref kmm.inuse)
    (unused : kmm.inuse slab = 0)
    (free : (kmm.slab slab).freeBuffers.length = (kmm.layout ref).slabCapacity) :
    Chosen (kmm.setCache ref ((kmm.cache ref).nextColour.addNewSlab slab)) view' ref slab := by
  have layout : (kmm.setCache ref ((kmm.cache ref).nextColour.addNewSlab slab)).layout =
      kmm.layout := layout_setCache KmmCache.addNewSlab_layout
  have perm : ((kmm.cache ref).nextColour.addNewSlab slab).allSlabs.Perm
      (slab :: (kmm.cache ref).allSlabs) := KmmCache.addNewSlab_allSlabs
  have fresh : slab ∉ (kmm.cache ref).allSlabs := by
    intro member
    have nodup := laidOut.slabs_nodup
    rw [slabs] at nodup
    exact (List.nodup_cons.mp nodup).1 ((ok.listed slab).mp member)
  have sorted : (kmm.cache ref).nextColour.Sorted kmm.inuse :=
    ⟨ok.sorted.inEmpty, ok.sorted.inPartial, ok.sorted.inFull⟩
  refine ⟨laidOut.congr (fun entry _ => ⟨congrFun layout _, rfl, rfl, rfl⟩) rfl rfl, ?_, ?_, ?_⟩
  · rw [setCache_cache_self]
    exact perm.mem_iff.mpr (List.mem_cons_self ..)
  · rw [layout]
    show kmm.inuse slab < _
    rw [unused]
    exact ok.sound.capacity_pos
  · constructor
    · rw [layout]
      exact ok.sound
    · rw [setCache_cache_self]
      exact perm.nodup_iff.mpr (List.nodup_cons.mpr ⟨fresh, ok.nodup⟩)
    · intro other
      rw [setCache_cache_self, perm.mem_iff, slabs, List.mem_cons, List.mem_cons, ok.listed other,
        Prod.mk.injEq]
      simp
    · intro other member
      rw [setCache_cache_self] at member
      rw [layout]
      rcases List.mem_cons.mp (perm.mem_iff.mp member) with rfl | before
      · show kmm.inuse other + (kmm.slab other).freeBuffers.length = _
        rw [unused, free, Nat.zero_add]
      · exact ok.counts other before
    · rw [setCache_cache_self]
      show KmmCache.Sorted _ (Function.update kmm.inuse slab (kmm.inuse slab + 1))
      rw [unused]
      exact sorted.addNewSlab fresh ok.sound.capacity_pos
    · rw [setCache_cache_self]
      exact ok.coloured.nextColour.addNewSlab

/-! ## New small slabs -/

/-- What a call may rely on: the next page of the supply is a page that is not in use. -/
def NextPageFresh (kmm : Kmm) (view : KmmView) : Prop :=
  ∀ page, kmm.supply.head?.join = some page →
    ValidPage page ∧ page ∉ view.slabs.map kmm.page ++ view.loose

/-- The state after `ALLOC_PAGE_FN` has answered. -/
def answered (kmm : Kmm) : Kmm :=
  { kmm with
    supply := kmm.supply.tail
    obtained := kmm.supply.head?.join.toList ++ kmm.obtained }

theorem pageAlloc_eq (fresh : NextPageFresh kmm view) :
    pageAlloc kmm = .ok (kmm.answered, kmm.supply.head?.join) := by
  have aligned : checkAlign (kmm.supply.head?.join.getD 0) platformPageSize := by
    cases answer : kmm.supply.head?.join with
    | none => exact (show checkAlign 0 platformPageSize by decide)
    | some page =>
        obtain ⟨valid, -⟩ := fresh page answer
        exact (checkAlign_page (Nat.lt_trans (Nat.lt_add_of_pos_right (by decide)) valid.inside)).mpr
          valid.aligned
  unfold pageAlloc
  simp only [kassert_ok aligned, Outcome.ok_bind]
  rfl

theorem answered_sameSlab (entry : KmmEntry) : SameSlab kmm kmm.answered entry :=
  ⟨rfl, rfl, rfl, rfl⟩

/-- A record at an address that is no slab's does not matter to a cache. -/
theorem CacheOk.otherSlab (ok : CacheOk kmm view ref kmm.inuse)
    (cache : next.cache ref = kmm.cache ref)
    (others : ∀ other ≠ slab, next.slab other = kmm.slab other) (notIn : (ref, slab) ∉ view.slabs) :
    CacheOk next view ref next.inuse := by
  have record (other : Nat) (member : other ∈ (kmm.cache ref).allSlabs) :
      next.slab other = kmm.slab other := by
    apply others
    rintro rfl
    exact notIn ((ok.listed other).mp member)
  refine ok.congr cache (fun _ => Iff.rfl) ?_ ?_
  · intro other member
    rw [inuse, record other member]
    exact ok.counts other member
  · intro other member
    rw [inuse, record other member]
    rfl

/-- A page becomes a slab of a small cache, with all its buffers free. -/
theorem slabInitSmall_spec (laidOut : kmm.LaidOut view) (ok : CacheOk kmm view ref kmm.inuse)
    (small : (kmm.layout ref).large = false) {page : Nat} {loose : List Nat}
    (isLoose : view.loose = page :: loose) :
    ∃ next, slabInitSmall kmm ref page (kmm.cache ref).colourNext =
        .ok (next, page + sizeofPage) ∧
      next.LaidOut { view with slabs := (ref, page + sizeofPage) :: view.slabs, loose := loose } ∧
      CacheOk next view ref next.inuse ∧
      Touches kmm next ref
        { view with slabs := (ref, page + sizeofPage) :: view.slabs, loose := loose } ∧
      next.cache = kmm.cache ∧
      (∀ other ≠ page + sizeofPage, next.slab other = kmm.slab other) ∧
      next.inuse (page + sizeofPage) = 0 ∧
      (next.slab (page + sizeofPage)).freeBuffers.length = (kmm.layout ref).slabCapacity ∧
      next.supply = kmm.supply ∧ next.obtained = kmm.obtained ∧ next.released = kmm.released ∧
      (∃ mems, next.objectCalls =
          KmmCacheLayout.constructed ref (kmm.layout ref) mems ++ kmm.objectCalls ∧
        (next.bufferMems view.held (ref, page + sizeofPage)).Perm mems) ∧
      ∀ entry ∈ view.slabs, SameSlab kmm next entry := by
  have isMember : page ∈ view.loose := isLoose ▸ List.mem_cons_self ..
  have valid := laidOut.loose page isMember
  have pagesNodup := laidOut.pages
  have fresh : page ∉ view.slabs.map kmm.page := fun shared =>
    (List.nodup_append.mp pagesNodup).2.2 page shared page isMember rfl
  have apart (entry : KmmEntry) (member : entry ∈ view.slabs) : entry.2 ≠ page + sizeofPage :=
    laidOut.ne_newSlab valid fresh member
  have notIn : (ref, page + sizeofPage) ∉ view.slabs := fun member => apart _ member rfl
  obtain ⟨start, next, -, fits, returned, new, objectCalls⟩ :=
    slabInitSmall_ok rfl ok.sound small valid ok.coloured.room
  have layout : next.layout = kmm.layout := by
    funext other
    exact congrArg KmmCache.toKmmCacheLayout (congrFun new.cache other)
  have this : next.slab (page + sizeofPage) =
      ⟨(((kmm.layout ref).buffers start).map (kmm.layout ref).smallCtl).reverse, page, 0⟩ := by
    rw [new.slab, Function.update_self]
    rfl
  have others (other : Nat) (different : other ≠ page + sizeofPage) :
      next.slab other = kmm.slab other := by
    rw [new.slab, Function.update_of_ne different]
  have mems : next.freeMems (ref, page + sizeofPage) =
      ((kmm.layout ref).buffers start).reverse := by
    unfold freeMems
    rw [this, layout, List.map_reverse, List.map_map]
    congr 1
    refine (List.map_congr_left (g := id) fun mem member => ?_).trans (List.map_id _)
    have placed := fits.placed ok.sound member
    simp only [Function.comp_apply, bufctlMem, small, Bool.false_eq_true, if_false]
    exact placed.bufctlSmallGetMem ok.sound valid small
  have isPage : next.page (ref, page + sizeofPage) = page := congrArg KmmSlab.page this
  have slabLaidOut : next.SlabLaidOut view.held (ref, page + sizeofPage) := by
    constructor
    · rw [layout]
      exact ok.sound
    · rw [isPage]
      exact valid
    · rw [isPage, new.owner, Function.update_self]
    · rw [isPage]
      exact fun _ => rfl
    · rw [layout, isPage, mems, laidOut.onPage_loose isMember, List.append_nil]
      exact ⟨start, fits, (List.reverse_perm _).map _⟩
    · rw [layout, mems, this, List.map_reverse]
      exact fun _ => rfl
  have sameSlab (entry : KmmEntry) (member : entry ∈ view.slabs) : SameSlab kmm next entry := by
    have record := others _ (apart entry member)
    refine ⟨congrFun layout _, congrArg KmmSlab.freeBuffers record, congrArg KmmSlab.page record, ?_⟩
    rw [new.owner, Function.update_of_ne]
    exact fun same => fresh (List.mem_map.mpr ⟨entry, member, same⟩)
  refine ⟨next, returned, ?_, ?_, ?_, new.cache, others, congrArg KmmSlab.objectsInuse this, ?_,
    new.supply, new.obtained, new.released, ⟨_, objectCalls, ?_⟩, sameSlab⟩
  · refine laidOut.addSlab isLoose slabLaidOut isPage ?_ sameSlab new.obtained new.released
    rw [layout, small]
    exact fun large => absurd large Bool.false_ne_true
  · exact ok.otherSlab (congrFun new.cache ref) others notIn
  · refine ⟨layout, fun other _ => congrFun new.cache other, ?_, ?_, new.registered⟩
    · intro other notSlab
      exact others other fun same => notSlab (same ▸ List.mem_cons_self ..)
    · intro other isOther
      rw [new.owner, Function.update_of_ne]
      rintro rfl
      rw [isLoose] at pagesNodup
      exact (List.nodup_cons.mp (List.nodup_append.mp pagesNodup).2.1).1 isOther
  · rw [this, List.length_reverse, List.length_map, KmmCacheLayout.length_buffers]
  · unfold bufferMems
    rw [isPage, mems, laidOut.onPage_loose isMember, List.map_nil, List.append_nil]
    exact List.reverse_perm _

/-! ## The free objects of a cache -/

/-- The number of free buffers in the slabs of a cache. -/
def freeObjects (kmm : Kmm) (ref : KmmCacheRef) : Nat :=
  ((kmm.cache ref).allSlabs.map fun slab => (kmm.slab slab).freeBuffers.length).sum

/-- The free objects change with the free buffers of the one slab that changes. -/
theorem freeObjects_change (slabs : (next.cache ref).allSlabs.Perm (kmm.cache ref).allSlabs)
    (nodup : (kmm.cache ref).allSlabs.Nodup) (member : slab ∈ (kmm.cache ref).allSlabs)
    (others : ∀ other ∈ (kmm.cache ref).allSlabs, other ≠ slab →
      next.slab other = kmm.slab other) :
    next.freeObjects ref + (kmm.slab slab).freeBuffers.length =
      kmm.freeObjects ref + (next.slab slab).freeBuffers.length := by
  have split := List.perm_cons_erase member
  have rest : ((kmm.cache ref).allSlabs.erase slab).map
        (fun slab => (next.slab slab).freeBuffers.length) =
      ((kmm.cache ref).allSlabs.erase slab).map fun slab => (kmm.slab slab).freeBuffers.length := by
    apply List.map_congr_left
    intro other isOther
    obtain ⟨different, before⟩ := nodup.mem_erase_iff.mp isOther
    rw [others other before different]
  unfold freeObjects
  rw [((slabs.trans split).map _).sum_nat, (split.map _).sum_nat, List.map_cons, List.map_cons,
    List.sum_cons, List.sum_cons, rest]
  omega

theorem freeObjects_eq_zero (ok : CacheOk kmm view ref kmm.inuse)
    (unstuck : (kmm.cache ref).slabCapacity = 1 → (kmm.cache ref).slabsPartial = []) :
    kmm.freeObjects ref = 0 ↔
      (kmm.cache ref).slabsPartial = [] ∧ (kmm.cache ref).slabsEmpty = [] := by
  have counted (slab : Nat) (member : slab ∈ (kmm.cache ref).allSlabs) :
      kmm.inuse slab + (kmm.slab slab).freeBuffers.length = (kmm.cache ref).slabCapacity :=
    ok.counts slab member
  have positive : 0 < (kmm.cache ref).slabCapacity := ok.sound.capacity_pos
  unfold freeObjects
  rw [List.sum_eq_zero_iff_forall_eq_nat]
  constructor
  · intro zero
    have noFree (slab : Nat) (member : slab ∈ (kmm.cache ref).allSlabs) :
        (kmm.slab slab).freeBuffers.length = 0 := zero _ (List.mem_map.mpr ⟨slab, member, rfl⟩)
    constructor
    · rw [List.eq_nil_iff_forall_not_mem]
      intro slab isPartial
      have member := KmmCache.mem_allSlabs.mpr (.inr (.inl isPartial))
      have full := counted slab member
      rw [noFree slab member] at full
      rcases (ok.sorted.inPartial slab isPartial).2 with below | one
      · omega
      · rw [unstuck one] at isPartial
        cases isPartial
    · rw [List.eq_nil_iff_forall_not_mem]
      intro slab isEmpty
      have member := KmmCache.mem_allSlabs.mpr (.inl isEmpty)
      have full := counted slab member
      rw [noFree slab member, ok.sorted.inEmpty slab isEmpty] at full
      omega
  · rintro ⟨noPartial, noEmpty⟩ length isLength
    obtain ⟨slab, member, rfl⟩ := List.mem_map.mp isLength
    have full := counted slab member
    rw [KmmCache.mem_allSlabs, noPartial, noEmpty] at member
    simp only [List.not_mem_nil, false_or] at member
    rw [ok.sorted.inFull slab member] at full
    omega

/-! ## Allocation -/

/-- An object of a cache has been handed out; the view afterwards. -/
structure Allocated (kmm : Kmm) (view : KmmView) (next : Kmm) (view' : KmmView)
    (ref : KmmCacheRef) (obj : Nat) : Prop where
  laidOut : next.LaidOut view'
  cache : CacheOk next view' ref next.inuse
  touches : Touches kmm next ref view'
  held : view'.held = (ref, obj) :: view.held
  loose : view'.loose = view.loose
  released : next.released = kmm.released
  buffers : ∀ entry ∈ view.slabs, SameBuffers kmm view.held next view'.held entry
  grows : Grows kmm view next view' ref

theorem Allocated.slabs {obj : Nat} (allocated : Allocated kmm view next view' ref obj) :
    view'.slabs = view.slabs ∨ ∃ slab, view'.slabs = (ref, slab) :: view.slabs :=
  allocated.grows.slabs

theorem Chosen.objectAlloc_small (chosen : Chosen kmm view ref slab)
    (small : (kmm.layout ref).large = false) (calls : KmmCalls) :
    ∃ obj rest, obj ≠ 0 ∧
      objectAlloc calls kmm slab ref =
        .ok (kmm.setSlab slab ⟨rest, (kmm.slab slab).page, kmm.inuse slab + 1⟩, obj) ∧
      rest.length + 1 = (kmm.slab slab).freeBuffers.length ∧
      (kmm.setSlab slab ⟨rest, (kmm.slab slab).page, kmm.inuse slab + 1⟩).LaidOut
        { view with held := (ref, obj) :: view.held } ∧
      CacheOk (kmm.setSlab slab ⟨rest, (kmm.slab slab).page, kmm.inuse slab + 1⟩) view ref
        (kmm.setSlab slab ⟨rest, (kmm.slab slab).page, kmm.inuse slab + 1⟩).inuse ∧
      ∀ entry ∈ view.slabs, SameBuffers kmm view.held
        (kmm.setSlab slab ⟨rest, (kmm.slab slab).page, kmm.inuse slab + 1⟩)
        ((ref, obj) :: view.held) entry := by
  obtain ⟨ctl, rest, free⟩ := chosen.free
  have slabLaidOut := chosen.laidOut.slab _ chosen.isSlab
  have isFree : bufctlMem ctl (kmm.layout ref) ∈ kmm.freeMems (ref, slab) := by
    unfold freeMems
    rw [free]
    exact List.mem_cons_self ..
  have placed := slabLaidOut.placed (.inl isFree)
  have sum : wrap (kmm.inuse slab + 1) = kmm.inuse slab + 1 :=
    wrap_of_lt (Nat.lt_of_le_of_lt chosen.below chosen.cache.capacity_lt)
  refine ⟨bufctlMem ctl (kmm.layout ref), rest, ?_, ?_, by rw [free]; rfl, chosen.taken free,
    chosen.counted free rfl (fun _ => Iff.rfl) (setSlab_slab_self ..)
      (fun other _ different => setSlab_slab_of_ne _ _ different), fun entry isSlab =>
        chosen.laidOut.take_buffers chosen.isSlab free rfl
          (chosen.changes rest (kmm.inuse slab + 1)) (by rw [setSlab_slab_self]) isSlab⟩
  · have positive := slabLaidOut.valid.positive
    have header := placed.header
    omega
  · have isSmall : (kmm.cache ref).large = false := small
    simp only [objectAlloc, free, slistIsEmpty, List.isEmpty_cons, kassert_true, List.head?_cons,
      deref_some, slistRemove, if_true, Outcome.ok_bind, setSlab_cache, isSmall,
      Bool.false_eq_true, if_false, setSlab_slab_self, setSlab_setSlab]
    rw [← inuse, sum]
    rfl

theorem chooseSlab_existing (laidOut : kmm.LaidOut view) (ok : CacheOk kmm view ref kmm.inuse)
    (unstuck : (kmm.cache ref).slabCapacity = 1 → (kmm.cache ref).slabsPartial = [])
    (available : kmm.freeObjects ref ≠ 0) (calls : KmmCalls) :
    ∃ slab moved, chooseSlab calls kmm ref = .ok (kmm.setCache ref moved, some slab) ∧
      moved.toKmmCacheLayout = kmm.layout ref ∧ moved.allSlabs.Perm (kmm.cache ref).allSlabs ∧
      Chosen (kmm.setCache ref moved) view ref slab := by
  rcases findExistingSlab_cases rfl ok.nodup ok.sorted ok.sound.capacity_pos ok.capacity_lt
    unstuck with ⟨noPartial, noEmpty, -⟩ | ⟨slab, moved, found, member, below, rearranged⟩
  · exact absurd ((freeObjects_eq_zero ok unstuck).mpr ⟨noPartial, noEmpty⟩) available
  · refine ⟨slab, moved, ?_, rearranged.layout, rearranged.slabs,
      Chosen.existing laidOut ok member below rearranged⟩
    simp only [chooseSlab, found, Outcome.ok_bind]

theorem chooseSlab_new (ok : CacheOk kmm view ref kmm.inuse)
    (unstuck : (kmm.cache ref).slabCapacity = 1 → (kmm.cache ref).slabsPartial = [])
    (exhausted : kmm.freeObjects ref = 0) (calls : KmmCalls) :
    chooseSlab calls kmm ref = getNewSlab calls kmm ref := by
  obtain ⟨noPartial, noEmpty⟩ := (freeObjects_eq_zero ok unstuck).mp exhausted
  rcases findExistingSlab_cases rfl ok.nodup ok.sorted ok.sound.capacity_pos ok.capacity_lt
    unstuck with ⟨-, -, found⟩ | ⟨slab, moved, -, member, -⟩
  · simp only [chooseSlab, found, Outcome.ok_bind]
  · rw [noPartial, noEmpty] at member
    simp at member

/-- An object of a slab that was chosen in a state that differs in one cache only. -/
theorem Chosen.cacheAlloc_small (chosen : Chosen next view' ref slab) (view : KmmView)
    (small : (next.layout ref).large = false) {calls : KmmCalls}
    (choice : chooseSlab calls kmm ref = .ok (next, some slab))
    (touches : Touches kmm next ref view') (grows : Grows kmm view next view' ref)
    (buffers : ∀ entry ∈ view.slabs, SameBuffers kmm view.held next view'.held entry)
    (held : view'.held = view.held) (loose : view'.loose = view.loose)
    (released : next.released = kmm.released) :
    ∃ final obj, cacheAlloc calls kmm ref = .ok (final, some obj) ∧
      Allocated kmm view final { view' with held := (ref, obj) :: view.held } ref obj ∧
      final.supply = next.supply ∧ final.obtained = next.obtained ∧
      final.freeObjects ref + 1 = next.freeObjects ref := by
  obtain ⟨obj, rest, nonNull, allocated, shorter, laidOut, ok, kept⟩ :=
    chosen.objectAlloc_small small calls
  rw [held] at laidOut kept
  refine ⟨next.setSlab slab ⟨rest, (next.slab slab).page, next.inuse slab + 1⟩, obj, ?_,
    ⟨laidOut, ?_, ?_, rfl, loose, released, fun entry isSlab => (buffers entry isSlab).trans ?_,
      grows.trans rfl (fun entry isSlab => ?_) rfl⟩, rfl, rfl, ?_⟩
  · simp only [cacheAlloc, choice, allocated, kassert_ok nonNull, Outcome.ok_bind]
  · exact ok.sameSlabs rfl
  · refine ⟨touches.layout, touches.cache, ?_, touches.owner, touches.registered⟩
    intro other notSlab
    have different : other ≠ slab := by
      rintro rfl
      exact notSlab chosen.isSlab
    rw [setSlab_slab_of_ne _ _ different]
    exact touches.slab other notSlab
  · rw [held]
    exact kept entry (grows.mem_slabs isSlab)
  · rw [held]
    exact kept entry isSlab
  · have change := @freeObjects_change next
      (next.setSlab slab ⟨rest, (next.slab slab).page, next.inuse slab + 1⟩) ref slab
      (List.Perm.refl _) chosen.cache.nodup chosen.member
      fun other _ different => setSlab_slab_of_ne _ _ different
    rw [setSlab_slab_self] at change
    dsimp only at change
    omega

/-- An allocation from a slab that has a free buffer. -/
theorem cacheAlloc_existing (laidOut : kmm.LaidOut view) (ok : CacheOk kmm view ref kmm.inuse)
    (small : (kmm.layout ref).large = false)
    (unstuck : (kmm.cache ref).slabCapacity = 1 → (kmm.cache ref).slabsPartial = [])
    (available : kmm.freeObjects ref ≠ 0) (calls : KmmCalls) :
    ∃ next obj, cacheAlloc calls kmm ref = .ok (next, some obj) ∧
      Allocated kmm view next { view with held := (ref, obj) :: view.held } ref obj ∧
      next.supply = kmm.supply ∧ next.obtained = kmm.obtained ∧
      next.freeObjects ref + 1 = kmm.freeObjects ref := by
  obtain ⟨slab, moved, choice, layout, perm, chosen⟩ :=
    chooseSlab_existing laidOut ok unstuck available calls
  have layouts : (kmm.setCache ref moved).layout = kmm.layout := layout_setCache layout
  obtain ⟨next, obj, allocated, spec, supply, obtained, free⟩ :=
    chosen.cacheAlloc_small view (by rw [layouts]; exact small) choice
      ⟨layouts, fun other different => setCache_cache_of_ne _ _ different, fun _ _ => rfl,
        fun _ _ => rfl, rfl⟩ (.inl ⟨rfl, rfl⟩)
      (fun entry _ => setCache_buffers layout view.held entry) rfl rfl rfl
  refine ⟨next, obj, allocated, spec, supply, obtained, free.trans ?_⟩
  unfold freeObjects
  rw [setCache_cache_self]
  exact (perm.map _).sum_nat

theorem getNewSlab_none (fresh : NextPageFresh kmm view)
    (small : (kmm.layout ref).large = false) (refused : kmm.supply.head?.join = none)
    (calls : KmmCalls) :
    getNewSlab calls kmm ref =
      .ok (kmm.answered.setCache ref (kmm.cache ref).nextColour, none) := by
  have isSmall : (kmm.cache ref).large = false := small
  simp only [getNewSlab, isSmall, Bool.false_eq_true, if_false, slabCreateSmall,
    pageAlloc_eq fresh, refused, Outcome.ok_bind]
  rfl

/-- Nothing is free and `ALLOC_PAGE_FN` returns `NULL`. -/
theorem cacheAlloc_refused (ok : CacheOk kmm view ref kmm.inuse)
    (small : (kmm.layout ref).large = false)
    (unstuck : (kmm.cache ref).slabCapacity = 1 → (kmm.cache ref).slabsPartial = [])
    (exhausted : kmm.freeObjects ref = 0) (fresh : NextPageFresh kmm view)
    (refused : kmm.supply.head?.join = none) (calls : KmmCalls) :
    cacheAlloc calls kmm ref =
      .ok (kmm.answered.setCache ref (kmm.cache ref).nextColour, none) := by
  simp only [cacheAlloc, chooseSlab_new ok unstuck exhausted calls,
    getNewSlab_none fresh small refused calls, Outcome.ok_bind]

theorem getNewSlab_small (laidOut : kmm.LaidOut view) (ok : CacheOk kmm view ref kmm.inuse)
    (small : (kmm.layout ref).large = false) (fresh : NextPageFresh kmm view) {page : Nat}
    (answer : kmm.supply.head?.join = some page) (calls : KmmCalls) :
    ∃ next, getNewSlab calls kmm ref = .ok (next, some (page + sizeofPage)) ∧
      Chosen next { view with slabs := (ref, page + sizeofPage) :: view.slabs } ref
        (page + sizeofPage) ∧
      Touches kmm next ref { view with slabs := (ref, page + sizeofPage) :: view.slabs } ∧
      next.supply = kmm.supply.tail ∧ next.obtained = page :: kmm.obtained ∧
      next.released = kmm.released ∧
      next.freeObjects ref = kmm.freeObjects ref + (kmm.layout ref).slabCapacity ∧
      Grows kmm view next { view with slabs := (ref, page + sizeofPage) :: view.slabs } ref ∧
      ∀ entry ∈ view.slabs, SameBuffers kmm view.held next view.held entry := by
  obtain ⟨valid, notUsed⟩ := fresh page answer
  have obtained : kmm.answered.obtained = page :: kmm.obtained := by
    unfold answered
    rw [answer]
    rfl
  have withPage : kmm.answered.LaidOut { view with loose := page :: view.loose } :=
    laidOut.obtain valid notUsed (fun entry _ => answered_sameSlab entry) obtained rfl
  have answeredOk : CacheOk kmm.answered { view with loose := page :: view.loose } ref
      kmm.answered.inuse := ⟨ok.sound, ok.nodup, ok.listed, ok.counts, ok.sorted, ok.coloured⟩
  obtain ⟨next, created, nextLaidOut, nextOk, touches, cache, others, unused, free, supply,
    nextObtained, released, ⟨mems, objectCalls, all⟩, same⟩ :=
      slabInitSmall_spec withPage answeredOk small rfl
  have length : (next.slab (page + sizeofPage)).freeBuffers.length =
      (next.layout ref).slabCapacity := by
    rw [touches.layout]
    exact free
  have chosen := Chosen.new nextLaidOut rfl nextOk unused length
  have isSmall : (kmm.cache ref).large = false := small
  have layouts : (next.setCache ref ((next.cache ref).nextColour.addNewSlab
      (page + sizeofPage))).layout = next.layout := layout_setCache KmmCache.addNewSlab_layout
  have stored (entry : KmmEntry) : SameBuffers next view.held (next.setCache ref
      ((next.cache ref).nextColour.addNewSlab (page + sizeofPage))) view.held entry :=
    .of_record (congrFun layouts _) rfl rfl (List.Perm.refl _)
  refine ⟨_, ?_, chosen, ⟨?_, ?_, touches.slab, touches.owner, touches.registered⟩, supply,
    nextObtained.trans obtained, released, ?_, .inr ⟨_, mems, rfl, objectCalls,
      List.Perm.trans (stored _) all⟩, fun entry isSlab => ?_⟩
  · have made : slabInitSmall kmm.answered ref page (kmm.cache ref).colourNext =
        .ok (next, page + sizeofPage) := created
    simp only [getNewSlab, isSmall, Bool.false_eq_true, if_false, slabCreateSmall,
      pageAlloc_eq fresh, answer, made, Outcome.ok_bind]
  · exact layouts.trans touches.layout
  · intro other different
    rw [setCache_cache_of_ne _ _ different]
    exact touches.cache other different
  · have perm : ((next.cache ref).nextColour.addNewSlab (page + sizeofPage)).allSlabs.Perm
        ((page + sizeofPage) :: (kmm.cache ref).allSlabs) := by
      rw [cache]
      exact KmmCache.addNewSlab_allSlabs
    have records : (kmm.cache ref).allSlabs.map (fun slab => (next.slab slab).freeBuffers.length) =
        (kmm.cache ref).allSlabs.map fun slab => (kmm.slab slab).freeBuffers.length := by
      apply List.map_congr_left
      intro other member
      have different : other ≠ page + sizeofPage :=
        laidOut.ne_newSlab valid (fun shared => notUsed (List.mem_append_left _ shared))
          ((ok.listed other).mp member)
      rw [others other different]
      rfl
    unfold freeObjects
    rw [setCache_cache_self, (perm.map _).sum_nat, List.map_cons, List.sum_cons]
    show (next.slab (page + sizeofPage)).freeBuffers.length + List.sum (List.map
      (fun slab => (next.slab slab).freeBuffers.length) (kmm.cache ref).allSlabs) = _
    rw [records, free, Nat.add_comm]
    rfl
  · have created := SameSlab.buffers (same entry isSlab) (List.Perm.refl (onPage view.held _))
    exact created.trans (stored entry)

/-- Nothing is free and `ALLOC_PAGE_FN` returns a page. -/
theorem cacheAlloc_grown (laidOut : kmm.LaidOut view) (ok : CacheOk kmm view ref kmm.inuse)
    (small : (kmm.layout ref).large = false)
    (unstuck : (kmm.cache ref).slabCapacity = 1 → (kmm.cache ref).slabsPartial = [])
    (exhausted : kmm.freeObjects ref = 0) (fresh : NextPageFresh kmm view) {page : Nat}
    (answer : kmm.supply.head?.join = some page) (calls : KmmCalls) :
    ∃ next obj, cacheAlloc calls kmm ref = .ok (next, some obj) ∧
      Allocated kmm view next ⟨(ref, page + sizeofPage) :: view.slabs, (ref, obj) :: view.held,
        view.loose⟩ ref obj ∧
      next.supply = kmm.supply.tail ∧ next.obtained = page :: kmm.obtained ∧
      next.freeObjects ref + 1 = (kmm.layout ref).slabCapacity := by
  obtain ⟨grown, created, chosen, touches, supply, obtained, released, free, grows, buffers⟩ :=
    getNewSlab_small laidOut ok small fresh answer calls
  obtain ⟨next, obj, allocated, spec, nextSupply, nextObtained, nextFree⟩ :=
    chosen.cacheAlloc_small view (by rw [touches.layout]; exact small)
      ((chooseSlab_new ok unstuck exhausted calls).trans created) touches grows buffers rfl rfl
      released
  refine ⟨next, obj, allocated, spec, nextSupply.trans supply, nextObtained.trans obtained, ?_⟩
  rw [nextFree, free, exhausted, Nat.zero_add]

theorem refused_sameSlab (entry : KmmEntry) :
    SameSlab kmm (kmm.answered.setCache ref (kmm.cache ref).nextColour) entry :=
  ⟨congrFun (@layout_setCache kmm.answered ref (kmm.cache ref).nextColour rfl) _, rfl, rfl, rfl⟩

/-- After a refusal everything is as before, but for the colour of the next slab. -/
theorem refused_laidOut (laidOut : kmm.LaidOut view) (refused : kmm.supply.head?.join = none) :
    (kmm.answered.setCache ref (kmm.cache ref).nextColour).LaidOut view := by
  refine laidOut.congr (fun entry _ => refused_sameSlab entry) ?_ rfl
  show kmm.supply.head?.join.toList ++ kmm.obtained = kmm.obtained
  rw [refused]
  rfl

/-- The colour of the next slab does not matter. -/
theorem CacheOk.nextColour (ok : CacheOk kmm view ref count) :
    CacheOk (kmm.setCache ref (kmm.cache ref).nextColour) view ref count := by
  have layout : (kmm.setCache ref (kmm.cache ref).nextColour).layout = kmm.layout :=
    layout_setCache rfl
  obtain ⟨sound, nodup, listed, counts, sorted, coloured⟩ := ok
  constructor
  · rw [layout]
    exact sound
  · rw [setCache_cache_self]
    exact nodup
  · rw [setCache_cache_self]
    exact listed
  · rw [setCache_cache_self, layout]
    exact counts
  · rw [setCache_cache_self]
    exact ⟨sorted.inEmpty, sorted.inPartial, sorted.inFull⟩
  · rw [setCache_cache_self]
    exact coloured.nextColour

theorem refused_cacheOk (ok : CacheOk kmm view ref kmm.inuse) :
    CacheOk (kmm.answered.setCache ref (kmm.cache ref).nextColour) view ref
      (kmm.answered.setCache ref (kmm.cache ref).nextColour).inuse := by
  have answeredOk : CacheOk kmm.answered view ref kmm.inuse :=
    ⟨ok.sound, ok.nodup, ok.listed, ok.counts, ok.sorted, ok.coloured⟩
  exact answeredOk.nextColour

theorem refused_touches :
    Touches kmm (kmm.answered.setCache ref (kmm.cache ref).nextColour) ref view :=
  ⟨@layout_setCache kmm.answered ref _ rfl, fun _ different =>
    setCache_cache_of_ne _ _ different, fun _ _ => rfl, fun _ _ => rfl, rfl⟩

/-! ## Release -/

/-- The slab of an object is found through the owner of its page. -/
theorem LaidOut.slabGetByAddr (laidOut : kmm.LaidOut view) {mem : Nat}
    (member : (ref, mem) ∈ view.held) :
    ∃ slab, (ref, slab) ∈ view.slabs ∧ pageOf mem = kmm.page (ref, slab) ∧ mem ≠ 0 ∧
      slabGetByAddr kmm mem = .ok (some slab) := by
  obtain ⟨slab, isSlab, home⟩ := laidOut.home _ member
  have slabLaidOut : kmm.SlabLaidOut view.held (ref, slab) := laidOut.slab _ isSlab
  have placed : (kmm.layout ref).Placed (kmm.page (ref, slab)) mem :=
    slabLaidOut.placed (.inr (mem_onPage.mpr ⟨member, home⟩))
  have valid := slabLaidOut.valid
  have positive := valid.positive
  have pageInside := valid.inside
  have header := placed.header
  have inside := placed.inside
  have masked : mem &&& alignMask platformPageSize = kmm.page (ref, slab) :=
    (@and_alignMask mem 12 (by omega) (by decide)).trans home
  have aligned : checkAlign (kmm.page (ref, slab)) 4 :=
    (checkAlign_two_pow (by omega) (show 2 < 32 by decide)).mpr
      (Nat.dvd_trans (by decide) valid.aligned)
  refine ⟨slab, isSlab, home, by omega, ?_⟩
  unfold Yaeos.slabGetByAddr pageGetByAddr
  simp only [masked, kassert_ok aligned, Outcome.ok_bind, if_neg (Nat.ne_of_gt positive),
    slabLaidOut.owned]

/-- The counter of a slab is the number of the objects on its page. -/
theorem CacheOk.inuse_eq (ok : CacheOk kmm view ref count) (laidOut : kmm.LaidOut view)
    (isSlab : (ref, slab) ∈ view.slabs) :
    kmm.inuse slab = (onPage view.held (kmm.page (ref, slab))).length := by
  obtain ⟨start, -, buffers⟩ := (laidOut.slab _ isSlab).buffers
  have lengths := buffers.length_eq
  have counted := ok.counts slab ((ok.listed slab).mpr isSlab)
  rw [List.length_append, List.length_map, List.length_map, KmmCacheLayout.length_buffers,
    freeMems, List.length_map] at lengths
  dsimp only at lengths
  omega

theorem CacheOk.used (ok : CacheOk kmm view ref count) (laidOut : kmm.LaidOut view) {mem : Nat}
    (isSlab : (ref, slab) ∈ view.slabs) (member : (ref, mem) ∈ view.held)
    (home : pageOf mem = kmm.page (ref, slab)) : 0 < kmm.inuse slab := by
  rw [ok.inuse_eq laidOut isSlab]
  exact List.length_pos_of_mem (mem_onPage.mpr ⟨member, home⟩)

/-- The state between the moving of a slab and the return of a buffer to it: the
slab is on the list for one object less. -/
structure Returning (kmm : Kmm) (view : KmmView) (ref : KmmCacheRef) (slab : Nat) : Prop where
  laidOut : kmm.LaidOut view
  member : slab ∈ (kmm.cache ref).allSlabs
  used : 0 < kmm.inuse slab
  cache : CacheOk kmm view ref (Function.update kmm.inuse slab (kmm.inuse slab - 1))

theorem Returning.isSlab (returning : Returning kmm view ref slab) : (ref, slab) ∈ view.slabs :=
  (returning.cache.listed slab).mp returning.member

/-- What `kmm_cache_free` does before `object_free`. -/
theorem cacheFree_moved (laidOut : kmm.LaidOut view) (ok : CacheOk kmm view ref kmm.inuse)
    {mem : Nat} (member : (ref, mem) ∈ view.held)
    (single : (kmm.cache ref).slabCapacity = 1 → ∀ slab, kmm.owner (pageOf mem) = some slab →
      slab ∈ (kmm.cache ref).slabsFull) (calls : KmmCalls) :
    ∃ slab moved, cacheFree calls kmm ref mem =
        objectFree calls (kmm.setCache ref moved) mem slab ref ∧
      (kmm.setCache ref moved).layout = kmm.layout ∧
      moved.allSlabs.Perm (kmm.cache ref).allSlabs ∧
      mem ≠ 0 ∧ pageOf mem = kmm.page (ref, slab) ∧
      Returning (kmm.setCache ref moved) view ref slab := by
  obtain ⟨slab, isSlab, home, nonNull, found⟩ := laidOut.slabGetByAddr member
  have inCache := (ok.listed slab).mpr isSlab
  have used := ok.used laidOut isSlab member home
  have owned : kmm.owner (pageOf mem) = some slab := by
    rw [home]
    exact (laidOut.slab _ isSlab).owned
  obtain ⟨left, leaves, rearranged⟩ := KmmCache.leaveList_enterList ok.nodup ok.sorted
    ok.sound.capacity_pos inCache used fun one => single one slab owned
  have layouts : (kmm.setCache ref (enterList left slab (kmm.inuse slab))).layout = kmm.layout :=
    layout_setCache rearranged.layout
  refine ⟨slab, enterList left slab (kmm.inuse slab), ?_, layouts, rearranged.slabs, nonNull, home,
    laidOut.congr (fun entry _ => ⟨congrFun layouts _, rfl, rfl, rfl⟩) rfl rfl, ?_, used,
    ok.rearranged rearranged⟩
  · have leaves' : leaveList (kmm.cache ref) slab (kmm.slab slab).objectsInuse = .ok left := leaves
    simp only [cacheFree, kassert_ok nonNull, found, Option.isSome_some, kassert_true, deref_some,
      leaves', Outcome.ok_bind]
    rfl
  · rw [setCache_cache_self]
    exact rearranged.slabs.mem_iff.mpr inCache

/-- When the counter is lowered and the buffer is on the free list, the lists match
the counters. -/
theorem Returning.counted (returning : Returning kmm view ref slab) {ctl : Bufctl}
    (cache : next.cache ref = kmm.cache ref)
    (slabs : ∀ slab, (ref, slab) ∈ view'.slabs ↔ (ref, slab) ∈ view.slabs)
    (this : next.slab slab =
      ⟨ctl :: (kmm.slab slab).freeBuffers, (kmm.slab slab).page, kmm.inuse slab - 1⟩)
    (others : ∀ other ∈ (kmm.cache ref).allSlabs, other ≠ slab →
      next.slab other = kmm.slab other) :
    CacheOk next view' ref next.inuse := by
  have used := returning.used
  refine returning.cache.recounted returning.member cache slabs (by rw [inuse, this]) ?_ others
  rw [inuse, this, List.length_cons]
  show kmm.inuse slab - 1 + ((kmm.slab slab).freeBuffers.length + 1) = _
  omega

theorem Returning.inuse_lt (returning : Returning kmm view ref slab) :
    kmm.inuse slab < addressSpace := by
  have counted := returning.cache.counts slab returning.member
  have bounded := returning.cache.capacity_lt
  have capacity : (kmm.layout ref).slabCapacity = (kmm.cache ref).slabCapacity := rfl
  omega

/-- An object that is no descriptor of a slab. -/
def Unneeded (kmm : Kmm) (view : KmmView) (object : KmmEntry) : Prop :=
  ∀ entry ∈ view.slabs, (kmm.layout entry.1).large = true →
    (KmmCacheRef.slabs, entry.2) ≠ object

/-- An object of a cache has been taken back; the view afterwards. -/
structure Freed (kmm : Kmm) (view : KmmView) (next : Kmm) (view' : KmmView)
    (ref : KmmCacheRef) : Prop where
  laidOut : next.LaidOut view'
  cache : CacheOk next view' ref next.inuse
  touches : Touches kmm next ref view'
  slabs : view'.slabs = view.slabs
  loose : view'.loose = view.loose
  supply : next.supply = kmm.supply
  obtained : next.obtained = kmm.obtained
  released : next.released = kmm.released
  objectCalls : next.objectCalls = kmm.objectCalls
  buffers : ∀ entry ∈ view.slabs, SameBuffers kmm view.held next view'.held entry

theorem objectFree_small (small : (kmm.layout ref).large = false) {mem ctl : Nat}
    (nonNull : mem ≠ 0) (isCtl : getBufctlSmall mem (kmm.layout ref) = .ok ctl)
    (ctlNonNull : ctl ≠ 0) (calls : KmmCalls) :
    objectFree calls kmm mem slab ref =
      .ok (kmm.setSlab slab ⟨⟨ctl, 0⟩ :: (kmm.slab slab).freeBuffers, (kmm.slab slab).page,
        wrapSub (kmm.inuse slab) 1⟩) := by
  have block (descriptor : KmmSlab) : objectFreeCtl calls (kmm.setSlab slab descriptor) ref mem =
      .ok (kmm.setSlab slab descriptor, ⟨ctl, 0⟩) := by
    have isSmall : (kmm.cache ref).large = false := small
    unfold objectFreeCtl
    rw [setSlab_cache, isSmall, if_neg Bool.false_ne_true]
    have isCtl' : getBufctlSmall mem (kmm.cache ref).toKmmCacheLayout = .ok ctl := isCtl
    rw [isCtl', Outcome.ok_bind]
  unfold objectFree
  simp only [kassert_ok nonNull, block, kassert_ok ctlNonNull, Outcome.ok_bind, setSlab_slab_self,
    setSlab_setSlab]
  rfl

/-- A small cache takes an object back; no page is asked for. -/
theorem cacheFree_small (laidOut : kmm.LaidOut view) (ok : CacheOk kmm view ref kmm.inuse)
    (small : (kmm.layout ref).large = false) {mem : Nat} {held : List KmmEntry}
    (objects : view.held.Perm ((ref, mem) :: held)) (unneeded : Unneeded kmm view (ref, mem))
    (single : (kmm.cache ref).slabCapacity = 1 → ∀ slab, kmm.owner (pageOf mem) = some slab →
      slab ∈ (kmm.cache ref).slabsFull) (calls : KmmCalls) :
    ∃ next, cacheFree calls kmm ref mem = .ok next ∧
      Freed kmm view next { view with held := held } ref ∧
      next.freeObjects ref = kmm.freeObjects ref + 1 := by
  have member : (ref, mem) ∈ view.held := objects.mem_iff.mpr (List.mem_cons_self ..)
  obtain ⟨slab, moved, starts, layouts, perm, nonNull, home, returning⟩ :=
    cacheFree_moved laidOut ok member single calls
  have slabLaidOut : kmm.SlabLaidOut view.held (ref, slab) := laidOut.slab _ returning.isSlab
  have placed : (kmm.layout ref).Placed (kmm.page (ref, slab)) mem :=
    slabLaidOut.placed (.inr (mem_onPage.mpr ⟨member, home⟩))
  have recovered := placed.bufctlSmallGetMem ok.sound slabLaidOut.valid small
  have rounded := (placed.smallCtl ok.sound slabLaidOut.valid small).1.ge
  have ctlNonNull : ((kmm.layout ref).smallCtl mem).address ≠ 0 := by omega
  have lowered : wrapSub (kmm.inuse slab) 1 = kmm.inuse slab - 1 :=
    wrapSub_of_le returning.used returning.inuse_lt
  let final : Kmm := (kmm.setCache ref moved).setSlab slab ⟨(kmm.layout ref).smallCtl mem ::
    (kmm.slab slab).freeBuffers, (kmm.slab slab).page, kmm.inuse slab - 1⟩
  have record : final.slab slab = ⟨(kmm.layout ref).smallCtl mem :: (kmm.slab slab).freeBuffers,
      (kmm.slab slab).page, kmm.inuse slab - 1⟩ := setSlab_slab_self ..
  have changes : ChangesSlab (kmm.setCache ref moved) final slab := by
    refine ⟨fun _ => rfl, ?_, ?_, rfl, rfl, rfl⟩
    · rw [record]
      rfl
    · intro other different
      exact setSlab_slab_of_ne _ _ different
  have isMem : mem = bufctlMem ((kmm.layout ref).smallCtl mem)
      ((kmm.setCache ref moved).layout ref) := by
    rw [layouts, bufctlMem, small, if_neg Bool.false_ne_true]
    exact recovered.symm
  have nextFree : (final.slab slab).freeBuffers =
      (kmm.layout ref).smallCtl mem :: (kmm.slab slab).freeBuffers := by rw [record]
  refine ⟨final, ?_, ⟨?_, ?_, ?_, rfl, rfl, rfl, rfl, rfl, rfl, fun entry isSlab => ?_⟩, ?_⟩
  · have isCtl : getBufctlSmall mem ((kmm.setCache ref moved).layout ref) =
        .ok ((kmm.layout ref).smallCtl mem).address := by
      rw [layouts]
      exact placed.getBufctlSmall ok.sound slabLaidOut.valid small
    rw [starts, objectFree_small (by rw [layouts]; exact small) nonNull isCtl ctlNonNull calls]
    have isInuse : (kmm.setCache ref moved).inuse slab = kmm.inuse slab := rfl
    rw [isInuse, lowered, setCache_slab, KmmCacheLayout.smallCtl_eta]
  · refine returning.laidOut.give returning.isSlab ((kmm.layout ref).smallCtl mem) isMem ?_ objects
      home ?_ changes nextFree
    · dsimp only
      rw [layouts]
      exact fun _ => rfl
    · intro other isSlab isLarge
      rw [layouts] at isLarge
      exact unneeded other isSlab isLarge
  · refine returning.counted rfl (fun _ => Iff.rfl) (setSlab_slab_self ..) ?_
    intro other _ different
    exact setSlab_slab_of_ne _ _ different
  · refine ⟨layouts, fun other different => setCache_cache_of_ne _ _ different, ?_, fun _ _ => rfl,
      rfl⟩
    intro other notSlab
    apply setSlab_slab_of_ne
    rintro rfl
    exact notSlab returning.isSlab
  · have moves : SameBuffers kmm view.held (kmm.setCache ref moved) view.held entry :=
      .of_record (congrFun layouts _) rfl rfl (List.Perm.refl _)
    exact moves.trans (returning.laidOut.give_buffers returning.isSlab
      ((kmm.layout ref).smallCtl mem) isMem objects home changes nextFree isSlab)
  · have sameSlabs : (final.cache ref).allSlabs.Perm (kmm.cache ref).allSlabs := by
      rw [setSlab_cache, setCache_cache_self]
      exact perm
    have change := @freeObjects_change kmm final ref slab sameSlabs ok.nodup
      ((ok.listed slab).mpr returning.isSlab) fun other _ different =>
        setSlab_slab_of_ne _ _ different
    rw [record, List.length_cons] at change
    omega

end Kmm

end Yaeos
