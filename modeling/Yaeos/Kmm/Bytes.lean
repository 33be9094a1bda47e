import Yaeos.Kmm.Run
import Yaeos.Machine.Extent

/-!
# The bytes of the objects (`kernel/mm/kmm.c`)

An object lies in the room of its buffer, and two buffers have no byte in common:
those of a slab follow each other, and two slabs are on different pages.  Headers
and control blocks lie outside the buffers, in the room behind the object of a
small cache, or they are objects of the internal caches.
-/

namespace Yaeos

namespace Kmm

/-- The room of a buffer. -/
def slot (kmm : Kmm) (buffer : KmmEntry) : Extent := ⟨buffer.2, (kmm.layout buffer.1).stride⟩

/-- The bytes of an object. -/
def objectExtent (kmm : Kmm) (object : KmmEntry) : Extent :=
  ⟨object.2, (kmm.layout object.1).size⟩

/-- `struct page` at the start of the page of a slab. -/
def pageHeader (kmm : Kmm) (slab : Nat) : Extent := ⟨(kmm.slab slab).page, sizeofPage⟩

/-- `struct kmm_slab`. -/
def slabHeader (slab : Nat) : Extent := ⟨slab, sizeofKmmSlab⟩

/-- `union bufctl` of a cache. -/
def ctlExtent (kmm : Kmm) (ref : KmmCacheRef) (address : Nat) : Extent :=
  ⟨address, if (kmm.layout ref).large then sizeofBufctlLarge else sizeofBufctlSmall⟩

/-- The whole page of a slab. -/
def pageExtent (kmm : Kmm) (entry : KmmEntry) : Extent := ⟨kmm.page entry, platformPageSize⟩

/-- A buffer of a slab, free or handed out. -/
def IsBuffer (kmm : Kmm) (held : List KmmEntry) (entry : KmmEntry) (mem : Nat) : Prop :=
  mem ∈ kmm.freeMems entry ∨ (entry.1, mem) ∈ onPage held (kmm.page entry)

variable {kmm : Kmm} {view : KmmView} {storage users : List Nat} {live held : List KmmEntry}
  {entry other object : KmmEntry} {mem otherMem : Nat}

theorem LaidOut.pages_apart (ok : kmm.LaidOut view) (member : entry ∈ view.slabs)
    (otherMember : other ∈ view.slabs) (different : entry ≠ other) :
    (kmm.pageExtent entry).Apart (kmm.pageExtent other) := by
  obtain ⟨index, isPage⟩ := (ok.slab entry member).valid.aligned
  obtain ⟨otherIndex, isOther⟩ := (ok.slab other otherMember).valid.aligned
  have pages : kmm.page entry ≠ kmm.page other := fun same =>
    different (ok.eq_of_page member otherMember same)
  unfold pageExtent Extent.Apart
  dsimp only
  rw [isPage, isOther] at pages ⊢
  unfold platformPageSize at pages ⊢
  omega

theorem SlabLaidOut.slot_within (slab : kmm.SlabLaidOut held entry)
    (buffer : kmm.IsBuffer held entry mem) :
    (kmm.slot (entry.1, mem)).Within (kmm.pageExtent entry) := by
  have placed := slab.placed buffer
  have header := placed.header
  exact ⟨by unfold slot pageExtent; dsimp only; omega, placed.inside⟩

/-- Two buffers have no byte in common. -/
theorem LaidOut.slots_apart (ok : kmm.LaidOut view) (member : entry ∈ view.slabs)
    (otherMember : other ∈ view.slabs) (buffer : kmm.IsBuffer view.held entry mem)
    (otherBuffer : kmm.IsBuffer view.held other otherMem) (different : entry = other → mem ≠ otherMem) :
    (kmm.slot (entry.1, mem)).Apart (kmm.slot (other.1, otherMem)) := by
  by_cases same : entry = other
  · subst same
    obtain ⟨start, fits, buffers⟩ := (ok.slab entry member).buffers
    have indexed : ∀ {mem}, kmm.IsBuffer view.held entry mem →
        ∃ i < (kmm.layout entry.1).slabCapacity, mem = start + i * (kmm.layout entry.1).stride := by
      intro mem buffer
      have isBuffer : (entry.1, mem) ∈ ((kmm.layout entry.1).buffers start).map (Prod.mk entry.1) := by
        refine buffers.mem_iff.mp (List.mem_append.mpr ?_)
        exact buffer.imp (fun free => List.mem_map_of_mem free) id
      obtain ⟨_, isBuffer, isMem⟩ := List.mem_map.mp isBuffer
      cases isMem
      exact KmmCacheLayout.mem_buffers.mp isBuffer
    obtain ⟨i, -, rfl⟩ := indexed buffer
    obtain ⟨j, -, rfl⟩ := indexed otherBuffer
    exact Extent.apart_of_index_ne fun equal => different rfl (by rw [equal])
  · exact ((ok.pages_apart member otherMember same).left
      ((ok.slab entry member).slot_within buffer)).right
      ((ok.slab other otherMember).slot_within otherBuffer)

theorem SlabLaidOut.object_within (slab : kmm.SlabLaidOut held entry) (mem : Nat) :
    (kmm.objectExtent (entry.1, mem)).Within (kmm.slot (entry.1, mem)) :=
  ⟨Nat.le_refl _, Nat.add_le_add_left slab.sound.size _⟩

/-- The control block of a buffer of a small cache lies in the room of the buffer, behind
the object. -/
theorem SlabLaidOut.smallCtl_within (slab : kmm.SlabLaidOut held entry)
    (small : (kmm.layout entry.1).large = false) (buffer : kmm.IsBuffer held entry mem) :
    (kmm.ctlExtent entry.1 ((kmm.layout entry.1).smallCtl mem).address).Within
        (kmm.slot (entry.1, mem)) ∧
      (kmm.objectExtent (entry.1, mem)).Apart
        (kmm.ctlExtent entry.1 ((kmm.layout entry.1).smallCtl mem).address) := by
  obtain ⟨rounded, before⟩ := (slab.placed buffer).smallCtl slab.sound slab.valid small
  have behind : mem + (kmm.layout entry.1).size ≤ ((kmm.layout entry.1).smallCtl mem).address :=
    rounded.ge
  unfold ctlExtent
  rw [small, if_neg Bool.false_ne_true]
  exact ⟨⟨Nat.le_trans (Nat.le_add_right ..) behind, before⟩, .inl behind⟩

/-- An object that is handed out is a buffer of a slab. -/
theorem LaidOut.buffer_of_held (ok : kmm.LaidOut view) (isHeld : object ∈ view.held) :
    ∃ slab, (object.1, slab) ∈ view.slabs ∧ kmm.IsBuffer view.held (object.1, slab) object.2 := by
  obtain ⟨slab, isSlab, home⟩ := ok.home object isHeld
  exact ⟨slab, isSlab, .inr (mem_onPage.mpr ⟨isHeld, home⟩)⟩

theorem LaidOut.held_slots_apart (ok : kmm.LaidOut view) (isHeld : object ∈ view.held)
    (otherHeld : other ∈ view.held) (different : object ≠ other) :
    (kmm.slot object).Apart (kmm.slot other) := by
  obtain ⟨slab, isSlab, buffer⟩ := ok.buffer_of_held isHeld
  obtain ⟨otherSlab, otherIsSlab, otherBuffer⟩ := ok.buffer_of_held otherHeld
  exact @LaidOut.slots_apart kmm view (object.1, slab) (other.1, otherSlab) object.2 other.2 ok
    isSlab otherIsSlab buffer otherBuffer fun same mems =>
      different (Prod.ext (Prod.mk.inj same).1 mems)

/-- A free buffer is not handed out. -/
theorem LaidOut.not_held_of_free (ok : kmm.LaidOut view) (member : entry ∈ view.slabs)
    (isFree : mem ∈ kmm.freeMems entry) : (entry.1, mem) ∉ view.held := by
  intro isHeld
  have slab := ok.slab entry member
  have lies := (slab.placed (.inl isFree)).pageOf slab.sound slab.valid.aligned
  exact (List.nodup_append'.mp slab.nodup).2.2 (List.mem_map_of_mem isFree)
    (mem_onPage.mpr ⟨isHeld, lies⟩)

theorem LaidOut.held_object_within (ok : kmm.LaidOut view) (isHeld : object ∈ view.held) :
    (kmm.objectExtent object).Within (kmm.slot object) := by
  obtain ⟨slab, isSlab, -⟩ := ok.buffer_of_held isHeld
  exact (ok.slab _ isSlab).object_within object.2

/-- Objects that are handed out have no byte in common. -/
theorem LaidOut.held_apart (ok : kmm.LaidOut view) (isHeld : object ∈ view.held)
    (otherHeld : other ∈ view.held) (different : object ≠ other) :
    (kmm.objectExtent object).Apart (kmm.objectExtent other) :=
  ((ok.held_slots_apart isHeld otherHeld different).left (ok.held_object_within isHeld)).right
    (ok.held_object_within otherHeld)

/-- The headers of a page lie in front of its buffers. -/
theorem LaidOut.header_apart (ok : kmm.LaidOut view) (isHeld : object ∈ view.held)
    (member : entry ∈ view.slabs) {header : Extent}
    (within : Extent.Within header ⟨kmm.page entry, (kmm.layout entry.1).header⟩) :
    (kmm.objectExtent object).Apart header := by
  obtain ⟨slab, isSlab, buffer⟩ := ok.buffer_of_held isHeld
  have inSlot := ok.held_object_within isHeld
  by_cases same : (object.1, slab) = entry
  · have placed := (ok.slab _ isSlab).placed buffer
    rw [same] at placed
    refine Extent.Apart.left (.inr ?_) inSlot
    exact Nat.le_trans within.below placed.header
  · have inPage : header.Within (kmm.pageExtent entry) := by
      have short := (kmm.layout entry.1).header_le
      refine ⟨within.above, Nat.le_trans within.below (Nat.add_le_add_left ?_ _)⟩
      exact Nat.le_trans short (show 20 ≤ platformPageSize by decide)
    exact (((ok.pages_apart isSlab member same).left
      ((ok.slab _ isSlab).slot_within buffer)).left inSlot).right inPage

/-- The object a cache lies in. -/
def cacheObject : KmmCacheRef → List KmmEntry
  | .created address => [(KmmCacheRef.caches, address)]
  | _ => []

/-- The objects that `kmm` itself uses: descriptors and control blocks of large slabs, and
the caches it made. -/
def ownObjects (kmm : Kmm) (storage : List Nat) : List KmmEntry :=
  ((kmm.known storage).flatMap fun ref =>
    (kmm.cache ref).allSlabs.flatMap fun slab => kmm.needs (ref, slab)) ++
  kmm.allocatedCaches.flatMap cacheObject

end Kmm

/-- The objects that are handed out, to callers or to `kmm` itself. -/
def KmmSystem.inUse (system : KmmSystem) : List KmmEntry :=
  system.live ++ system.kmm.ownObjects system.storage

/-- The objects handed out and the memory of the caches. -/
structure KmmSystem.Separate (system : KmmSystem) : Prop where
  /-- No address is in use twice. -/
  distinct : (system.inUse.map Prod.snd).Nodup
  objects : ∀ object ∈ system.inUse, ∀ other ∈ system.inUse, object ≠ other →
    (system.kmm.objectExtent object).Apart (system.kmm.objectExtent other)
  headers : ∀ object ∈ system.live, ∀ ref ∈ system.kmm.known system.storage,
    ∀ slab ∈ (system.kmm.cache ref).allSlabs,
      (system.kmm.objectExtent object).Apart (system.kmm.pageHeader slab) ∧
      (system.kmm.objectExtent object).Apart (Kmm.slabHeader slab)
  bufctls : ∀ object ∈ system.live, ∀ ref ∈ system.kmm.known system.storage,
    ∀ slab ∈ (system.kmm.cache ref).allSlabs, ∀ ctl ∈ (system.kmm.slab slab).freeBuffers,
      (system.kmm.objectExtent object).Apart (system.kmm.ctlExtent ref ctl.address)
  /-- The places of the control blocks that small objects get when they are freed. -/
  spare : ∀ object ∈ system.live, ∀ other ∈ system.live,
    (system.kmm.layout other.1).large = false →
      (system.kmm.objectExtent object).Apart (system.kmm.ctlExtent other.1
        ((system.kmm.layout other.1).smallCtl other.2).address)
  /-- Each buffer of a slab is in use, or free once. -/
  buffers : ∀ ref ∈ system.kmm.known system.storage, ∀ slab ∈ (system.kmm.cache ref).allSlabs,
    ∃ start, (system.kmm.layout ref).Fits (system.kmm.slab slab).page start ∧
      ∀ mem ∈ (system.kmm.layout ref).buffers start,
        (system.kmm.freeMems (ref, slab)).count mem =
          if (ref, mem) ∈ system.inUse then 0 else 1
  /-- No buffer is on two lists. -/
  elsewhere : ∀ ref ∈ system.kmm.known system.storage, ∀ slab ∈ (system.kmm.cache ref).allSlabs,
    ∀ other ∈ system.kmm.known system.storage, ∀ otherSlab ∈ (system.kmm.cache other).allSlabs,
      ∀ mem ∈ system.kmm.freeMems (ref, slab), mem ∈ system.kmm.freeMems (other, otherSlab) →
        (ref, slab) = (other, otherSlab)

namespace Kmm

variable {kmm : Kmm} {view : KmmView} {storage users : List Nat} {live held : List KmmEntry}
  {entry other object : KmmEntry} {mem otherMem : Nat}

/-- What is handed out is live or used by `kmm`. -/
theorem Ok.held_perm (ok : Ok kmm storage users view live) :
    view.held.Perm (live ++ kmm.ownObjects storage) := by
  refine ok.accounted.held.trans ?_
  rw [List.append_assoc]
  refine (List.Perm.append ?_ (List.Perm.of_eq ?_)).append_left live
  · have listed := (ok.listed_perm.flatMap_right kmm.needs).symm
    rw [List.flatMap_assoc] at listed
    refine listed.trans (List.Perm.of_eq (List.flatMap_congr fun ref _ => ?_))
    rw [List.flatMap_map]
  · rw [ok.accounted.registered, List.flatMap_append, List.flatMap_map]
    simp only [cacheObject, List.flatMap_cons, List.flatMap_nil, List.append_nil]
    exact List.map_eq_flatMap

theorem Ok.live_isHeld (ok : Ok kmm storage users view live) (isLive : object ∈ live) :
    object ∈ view.held := ok.held_perm.mem_iff.mpr (List.mem_append_left _ isLive)

/-- A live object lies on a page, aligned as its cache asks. -/
theorem Ok.live_placed (ok : Ok kmm storage users view live) (isLive : object ∈ live) :
    ∃ page, ValidPage page ∧ (kmm.layout object.1).Sound ∧
      (kmm.layout object.1).Placed page object.2 := by
  have laidOut := ok.accounted.laidOut
  obtain ⟨slab, isSlab, buffer⟩ := laidOut.buffer_of_held (ok.live_isHeld isLive)
  have slabOk := laidOut.slab _ isSlab
  exact ⟨_, slabOk.valid, slabOk.sound, slabOk.placed buffer⟩

/-- An object that is live is not one that `kmm` uses. -/
theorem Ok.live_ne_own (ok : Ok kmm storage users view live) (isLive : object ∈ live)
    (isOwn : other ∈ kmm.ownObjects storage) : object ≠ other := by
  rintro rfl
  have nodup := ok.held_perm.nodup_iff.mp ok.accounted.laidOut.held_nodup
  exact (List.nodup_append'.mp nodup).2.2 isLive isOwn

theorem Ok.isSlab (ok : Ok kmm storage users view live) {ref : KmmCacheRef} {slab : Nat}
    (isKnown : ref ∈ kmm.known storage) (isListed : slab ∈ (kmm.cache ref).allSlabs) :
    (ref, slab) ∈ view.slabs := ((ok.caches ref isKnown).listed slab).mp isListed

theorem mem_ownObjects {ref : KmmCacheRef} {slab : Nat} (isKnown : ref ∈ kmm.known storage)
    (isListed : slab ∈ (kmm.cache ref).allSlabs) (isNeeded : object ∈ kmm.needs (ref, slab)) :
    object ∈ kmm.ownObjects storage :=
  List.mem_append_left _ (List.mem_flatMap.mpr ⟨ref, isKnown, List.mem_flatMap.mpr
    ⟨slab, isListed, isNeeded⟩⟩)

/-- A live object and one that `kmm` uses. -/
theorem Ok.own_apart (ok : Ok kmm storage users view live) (isLive : object ∈ live)
    (isOwn : other ∈ kmm.ownObjects storage) :
    (kmm.objectExtent object).Apart (kmm.objectExtent other) :=
  ok.accounted.laidOut.held_apart (ok.live_isHeld isLive)
    (ok.held_perm.mem_iff.mpr (List.mem_append_right _ isOwn)) (ok.live_ne_own isLive isOwn)

theorem Ok.headers_apart (ok : Ok kmm storage users view live) (isLive : object ∈ live)
    {ref : KmmCacheRef} {slab : Nat} (isKnown : ref ∈ kmm.known storage)
    (isListed : slab ∈ (kmm.cache ref).allSlabs) :
    (kmm.objectExtent object).Apart (kmm.pageHeader slab) ∧
      (kmm.objectExtent object).Apart (slabHeader slab) := by
  have laidOut := ok.accounted.laidOut
  have isSlab := ok.isSlab isKnown isListed
  have isHeld := ok.live_isHeld isLive
  refine ⟨laidOut.header_apart isHeld isSlab ⟨Nat.le_refl _, ?_⟩, ?_⟩
  · exact Nat.add_le_add_left (kmm.layout ref).le_header _
  · cases large : (kmm.layout ref).large with
    | false =>
        have place := (laidOut.slab _ isSlab).place large
        refine laidOut.header_apart isHeld isSlab ⟨?_, ?_⟩
        · exact Nat.le_trans (Nat.le_add_right ..) (Nat.le_of_eq place.symm)
        · have header : (kmm.layout ref).header = sizeofPage + sizeofKmmSlab := by
            unfold KmmCacheLayout.header
            rw [large, if_neg Bool.false_ne_true]
          rw [header, ← Nat.add_assoc]
          exact Nat.le_of_eq (congrArg (· + sizeofKmmSlab) place)
    | true =>
        have needed : (KmmCacheRef.slabs, slab) ∈ kmm.needs (ref, slab) := by
          unfold needs
          rw [large, if_pos rfl]
          exact List.mem_cons_self
        have apart := ok.own_apart isLive (mem_ownObjects isKnown isListed needed)
        unfold objectExtent at apart
        rw [ok.accounted.slabsIs] at apart
        exact apart

theorem Ok.bufctl_apart (ok : Ok kmm storage users view live) (isLive : object ∈ live)
    {ref : KmmCacheRef} {slab : Nat} (isKnown : ref ∈ kmm.known storage)
    (isListed : slab ∈ (kmm.cache ref).allSlabs) {ctl : Bufctl}
    (isFree : ctl ∈ (kmm.slab slab).freeBuffers) :
    (kmm.objectExtent object).Apart (kmm.ctlExtent ref ctl.address) := by
  have laidOut := ok.accounted.laidOut
  have isSlab := ok.isSlab isKnown isListed
  have isHeld := ok.live_isHeld isLive
  cases large : (kmm.layout ref).large with
  | false =>
      have slabOk := laidOut.slab _ isSlab
      have isCtl := slabOk.ctls large
      dsimp only at isCtl
      rw [isCtl] at isFree
      obtain ⟨mem, free, rfl⟩ := List.mem_map.mp isFree
      obtain ⟨home, homeIsSlab, buffer⟩ := laidOut.buffer_of_held isHeld
      have apart := @LaidOut.slots_apart kmm view (object.1, home) (ref, slab) object.2 mem laidOut
        homeIsSlab isSlab buffer (.inl free) ?_
      · exact (apart.left (laidOut.held_object_within isHeld)).right
          (slabOk.smallCtl_within large (.inl free)).1
      · intro same equal
        obtain ⟨rfl, -⟩ := Prod.mk.inj same
        exact laidOut.not_held_of_free isSlab free (equal ▸ isHeld)
  | true =>
      have needed : (KmmCacheRef.largeBufctls, ctl.address) ∈ kmm.needs (ref, slab) := by
        unfold needs
        rw [large, if_pos rfl]
        exact List.mem_cons_of_mem _ (List.mem_map_of_mem isFree)
      have apart := ok.own_apart isLive (mem_ownObjects isKnown isListed needed)
      unfold objectExtent at apart
      rw [ok.accounted.largeBufctlsIs] at apart
      unfold ctlExtent
      rw [large, if_pos rfl]
      exact apart

/-- A buffer of a slab is handed out, or free once. -/
theorem LaidOut.free_count (ok : kmm.LaidOut view) (member : entry ∈ view.slabs) {start : Nat}
    (buffers : ((kmm.freeMems entry).map (Prod.mk entry.1) ++
      onPage view.held (kmm.page entry)).Perm
        (((kmm.layout entry.1).buffers start).map (Prod.mk entry.1)))
    (isBuffer : mem ∈ (kmm.layout entry.1).buffers start) :
    (kmm.freeMems entry).count mem = if (entry.1, mem) ∈ view.held then 0 else 1 := by
  have slab := ok.slab entry member
  by_cases isHeld : (entry.1, mem) ∈ view.held
  · rw [if_pos isHeld, List.count_eq_zero]
    exact fun isFree => ok.not_held_of_free member isFree isHeld
  · rw [if_neg isHeld]
    have either := buffers.mem_iff.mpr (List.mem_map_of_mem (f := Prod.mk entry.1) isBuffer)
    rcases List.mem_append.mp either with isFree | lies
    · obtain ⟨_, isFree, same⟩ := List.mem_map.mp isFree
      cases same
      exact List.count_eq_one_of_mem (List.nodup_append'.mp slab.nodup).1.of_map isFree
    · exact absurd (mem_onPage.mp lies).1 isHeld

theorem Ok.separate {system : KmmSystem} {users : List Nat} {view : KmmView}
    (ok : Ok system.kmm system.storage users view system.live) : system.Separate := by
  have laidOut := ok.accounted.laidOut
  have perm : view.held.Perm system.inUse := ok.held_perm
  constructor
  · refine List.Nodup.map_on (fun object isUsed other otherUsed same => ?_)
      (perm.nodup_iff.mp laidOut.held_nodup)
    have stride : ∀ object ∈ view.held, 0 < (system.kmm.layout object.1).stride := by
      intro object isHeld
      obtain ⟨slab, isSlab, -⟩ := laidOut.home object isHeld
      exact (laidOut.slab _ isSlab).sound.stride_pos
    rw [← perm.mem_iff] at isUsed otherUsed
    by_contra different
    have apart := laidOut.held_slots_apart isUsed otherUsed different
    exact apart.start_ne (stride object isUsed) (stride other otherUsed) same
  · intro object isUsed other otherUsed different
    exact laidOut.held_apart (perm.mem_iff.mpr isUsed) (perm.mem_iff.mpr otherUsed) different
  · exact fun object isLive ref isKnown slab isListed => ok.headers_apart isLive isKnown isListed
  · exact fun object isLive ref isKnown slab isListed ctl isFree =>
      ok.bufctl_apart isLive isKnown isListed isFree
  · intro object isLive other otherLive small
    have isHeld := ok.live_isHeld isLive
    have otherHeld := ok.live_isHeld otherLive
    obtain ⟨slab, isSlab, buffer⟩ := laidOut.buffer_of_held otherHeld
    obtain ⟨within, own⟩ := (laidOut.slab _ isSlab).smallCtl_within small buffer
    by_cases same : object = other
    · rw [same]
      exact own
    · exact ((laidOut.held_slots_apart isHeld otherHeld same).left
        (laidOut.held_object_within isHeld)).right within
  · intro ref isKnown slab isListed
    have isSlab := ok.isSlab isKnown isListed
    obtain ⟨start, fits, buffers⟩ := (laidOut.slab _ isSlab).buffers
    refine ⟨start, fits, fun mem isBuffer => ?_⟩
    rw [laidOut.free_count isSlab buffers isBuffer]
    simp only [perm.mem_iff]
  · intro ref isKnown slab isListed other otherKnown otherSlab otherListed mem isFree otherFree
    have isSlab := ok.isSlab isKnown isListed
    have otherIsSlab := ok.isSlab otherKnown otherListed
    have lies := ((laidOut.slab _ isSlab).placed (.inl isFree)).pageOf (laidOut.slab _ isSlab).sound
      (laidOut.slab _ isSlab).valid.aligned
    have otherLies := ((laidOut.slab _ otherIsSlab).placed (.inl otherFree)).pageOf
      (laidOut.slab _ otherIsSlab).sound (laidOut.slab _ otherIsSlab).valid.aligned
    exact laidOut.eq_of_page isSlab otherIsSlab (lies.symm.trans otherLies)

end Kmm

namespace KmmSystem

variable {system : KmmSystem}

/-- In every state of every run live objects overlap nothing, every buffer is live or free
once, and an object that is returned next was not live and overlaps nothing. -/
theorem separate_of_reachable (reached : kmmMachine.Reachable system) :
    system.Separate ∧ ∀ ref supply kmm obj, system.Legal ⟨.alloc ref, supply⟩ →
      kmmCacheAlloc (system.kmm.supplied supply) ref = .ok (kmm, some obj) →
        obj ∉ system.live.map Prod.snd ∧
          Separate { system with kmm := kmm, live := (ref, obj) :: system.live } := by
  have here : ∀ system, kmmMachine.Reachable system → system.Separate := by
    intro system reached
    obtain ⟨users, view, ok⟩ := consistent_of_reachable reached
    exact ok.separate
  refine ⟨here system reached, fun ref supply kmm obj legal allocated => ?_⟩
  have stepped : kmmMachine.step system ⟨.alloc ref, supply⟩
      { system with kmm := kmm, live := (ref, obj) :: system.live } := by
    refine ⟨legal, ?_⟩
    show KmmSystem.call system ⟨.alloc ref, supply⟩ = _
    unfold KmmSystem.call KmmSystem.perform
    dsimp only
    rw [allocated, Outcome.ok_bind]
    rfl
  have next := here _ (reached.step stepped)
  refine ⟨fun isLive => (List.nodup_cons.mp next.distinct).1 ?_, next⟩
  obtain ⟨object, member, same⟩ := List.mem_map.mp isLive
  exact List.mem_map.mpr ⟨object, List.mem_append_left _ member, same⟩

/-- An object of a large cache is live. -/
theorem largeLive_separate : largeLive.Separate ∧ largeLive.live ≠ [] :=
  ⟨(separate_of_reachable largeLive_reachable).1, by decide +kernel⟩

end KmmSystem

end Yaeos
