import Yaeos.Kmm.Bytes

/-!
# Where the buffers of a new slab lie (`kernel/mm/kmm.c`)

`kmm_cache_init` computes the capacity of a slab from the space behind the
headers, as if the buffers started there; they start behind the colour of the
slab, rounded up.  The colours that `get_new_slab` takes leave the room for this,
since the page, the distance of two buffers and what is left over behave alike
under the alignment.
-/

namespace Yaeos

namespace KmmCacheLayout

/-- What a buffer takes up: the object, and in a small cache its control block. -/
def blocks (cache : KmmCacheLayout) (ctl : Bufctl) : List Extent :=
  ⟨bufctlMem ctl cache, cache.size⟩ ::
    if cache.large then [] else [⟨ctl.address, sizeofBufctlSmall⟩]

/-- The buffers of a new slab with the first at `start`, and their control blocks. -/
structure Geometry (cache : KmmCacheLayout) (page start : Nat) (free : List Bufctl) : Prop where
  buffers : free.map (fun ctl => bufctlMem ctl cache) = (cache.buffers start).reverse
  inside : ∀ ctl ∈ free, ∀ block ∈ cache.blocks ctl,
    block.Within ⟨page + cache.header, platformPageSize - cache.header⟩
  apart : (free.flatMap cache.blocks).Pairwise Extent.Apart
  aligned : ∀ mem ∈ cache.buffers start, cache.alignment ≠ 0 → cache.alignment ∣ mem
  /-- The control block of a buffer is found from it, and the buffer from the control
  block. -/
  inverse : cache.large = false → ∀ mem ∈ cache.buffers start, ∃ ctl ∈ free,
    getBufctlSmall mem cache = .ok ctl.address ∧ bufctlSmallGetMem ctl.address cache = mem

variable {cache : KmmCacheLayout} {page start : Nat} {free : List Bufctl}

/-- A control block of the list belongs to a buffer of the slab; in a small cache it is
the one behind the buffer. -/
structure Belongs (cache : KmmCacheLayout) (start : Nat) (ctl : Bufctl) : Prop where
  buffer : bufctlMem ctl cache ∈ cache.buffers start
  small : cache.large = false → ctl = cache.smallCtl (bufctlMem ctl cache)

/-- The blocks of a buffer lie in its room, one behind the other. -/
theorem blocks_within (sound : cache.Sound) (valid : ValidPage page)
    (fits : cache.Fits page start) {ctl : Bufctl} (belongs : cache.Belongs start ctl) :
    (∀ block ∈ cache.blocks ctl, block.Within ⟨bufctlMem ctl cache, cache.stride⟩) ∧
      (cache.blocks ctl).Pairwise Extent.Apart := by
  have placed := fits.placed sound belongs.buffer
  have whole : Extent.Within ⟨bufctlMem ctl cache, cache.size⟩
      ⟨bufctlMem ctl cache, cache.stride⟩ := ⟨Nat.le_refl _, Nat.add_le_add_left sound.size _⟩
  unfold blocks
  cases isLarge : cache.large with
  | true => exact ⟨by simpa using whole, List.pairwise_singleton ..⟩
  | false =>
      obtain ⟨rounded, before⟩ := placed.smallCtl sound valid isLarge
      rw [← belongs.small isLarge] at rounded before
      have behind := rounded.ge
      have ctlWithin : Extent.Within ⟨ctl.address, sizeofBufctlSmall⟩
          ⟨bufctlMem ctl cache, cache.stride⟩ :=
        ⟨Nat.le_trans (Nat.le_add_right ..) behind, before⟩
      have clear : Extent.Apart ⟨bufctlMem ctl cache, cache.size⟩
          ⟨ctl.address, sizeofBufctlSmall⟩ := .inl behind
      exact ⟨by simpa using ⟨whole, ctlWithin⟩, by simpa using clear⟩

theorem Fits.geometry (fits : cache.Fits page start) (sound : cache.Sound)
    (valid : ValidPage page)
    (buffers : free.map (fun ctl => bufctlMem ctl cache) = (cache.buffers start).reverse)
    (small : cache.large = false →
      free = ((cache.buffers start).map cache.smallCtl).reverse) :
    cache.Geometry page start free := by
  have belongs (ctl : Bufctl) (member : ctl ∈ free) : cache.Belongs start ctl := by
    constructor
    · rw [← List.mem_reverse, ← buffers]
      exact List.mem_map_of_mem member
    · intro isSmall
      rw [small isSmall] at member
      obtain ⟨mem, isMem, rfl⟩ := List.mem_map.mp (List.mem_reverse.mp member)
      have found := (fits.placed sound isMem).bufctlSmallGetMem sound valid isSmall
      rw [bufctlMem, isSmall, if_neg Bool.false_ne_true, found]
  refine ⟨buffers, ?_, ?_, ?_, ?_⟩
  · intro ctl member block isBlock
    have placed := fits.placed sound (belongs ctl member).buffer
    obtain ⟨above, below⟩ := (blocks_within sound valid fits (belongs ctl member)).1 block isBlock
    have header := placed.header
    have inside := placed.inside
    have short := cache.header_le
    have size : platformPageSize = 4096 := rfl
    dsimp only at above below
    exact ⟨by dsimp only; omega, by dsimp only; omega⟩
  · refine List.pairwise_flatMap.mpr ⟨fun ctl member =>
      (blocks_within sound valid fits (belongs ctl member)).2, ?_⟩
    have nodup : (free.map fun ctl => bufctlMem ctl cache).Nodup := by
      rw [buffers]
      exact List.nodup_reverse.mpr (sound.nodup_buffers start)
    refine (List.pairwise_map.mp nodup).imp_of_mem ?_
    intro first second isFirst isSecond different block isBlock other isOther
    obtain ⟨i, -, firstMem⟩ := mem_buffers.mp (belongs first isFirst).buffer
    obtain ⟨j, -, secondMem⟩ := mem_buffers.mp (belongs second isSecond).buffer
    have indices : i ≠ j := by
      rintro rfl
      exact different (firstMem.trans secondMem.symm)
    have rooms : Extent.Apart ⟨bufctlMem first cache, cache.stride⟩
        ⟨bufctlMem second cache, cache.stride⟩ := by
      rw [firstMem, secondMem]
      exact Extent.apart_of_index_ne indices
    have firstWithin := (blocks_within sound valid fits (belongs first isFirst)).1 block isBlock
    have secondWithin := (blocks_within sound valid fits (belongs second isSecond)).1 other isOther
    exact (rooms.left firstWithin).right secondWithin
  · intro mem member nonzero
    have aligned := (fits.placed sound member).aligned
    rw [grain, if_neg nonzero] at aligned
    exact aligned
  · intro isSmall mem member
    have placed := fits.placed sound member
    refine ⟨cache.smallCtl mem, ?_, placed.getBufctlSmall sound valid isSmall,
      placed.bufctlSmallGetMem sound valid isSmall⟩
    rw [small isSmall]
    exact List.mem_reverse.mpr (List.mem_map_of_mem member)

end KmmCacheLayout

namespace KmmCache

theorem Coloured.iterate {cache : KmmCache} (coloured : cache.Coloured) (rounds : Nat) :
    (KmmCache.nextColour^[rounds] cache).Coloured ∧
      (KmmCache.nextColour^[rounds] cache).toKmmCacheLayout = cache.toKmmCacheLayout := by
  induction rounds with
  | zero => exact ⟨coloured, rfl⟩
  | succ rounds inductionHypothesis =>
      obtain ⟨before, layout⟩ := inductionHypothesis
      rw [Function.iterate_succ_apply']
      exact ⟨before.nextColour, layout⟩

theorem addNewSlab_colourNext {cache : KmmCache} {slab : Nat} :
    (cache.addNewSlab slab).colourNext = cache.colourNext := by
  unfold addNewSlab
  split <;> rfl

end KmmCache

namespace Kmm

variable {kmm next : Kmm} {view : KmmView} {ref : KmmCacheRef} {slab : Nat}
  {storage users : List Nat} {live : List KmmEntry}

/-- A new slab of a large cache: the objects follow each other in its page. -/
theorem Ok.slabCreateLarge_geometry (ok : Ok kmm storage users view live)
    (fresh : kmm.SupplyFresh) (sound : (kmm.layout ref).Sound) {colour : Nat}
    (room : colour = 0 ∨ colour + (kmm.layout ref).slabCapacity * (kmm.layout ref).stride <
      platformPageSize - (kmm.layout ref).header)
    (large : (kmm.layout ref).large = true) {calls : KmmCalls}
    (returned : slabCreateLarge calls.nested kmm ref colour = .ok (next, some slab)) :
    (kmm.layout ref).Geometry (next.slab slab).page
        (alignRoundup ((next.slab slab).page + (kmm.layout ref).header + colour)
          (kmm.layout ref).alignment) (next.slab slab).freeBuffers ∧
      next.cache ref = kmm.cache ref := by
  have laidOut := ok.accounted.laidOut
  have slabsInternal : Internal kmm view .slabs := ok.internal (by decide)
  have bufctlsInternal : Internal kmm view .largeBufctls := ok.internal (by decide)
  have exists_slab : ¬kmm.NoSlab := by
    intro noSlab
    obtain ⟨_, _, refused, -⟩ := slabsInternal.noSlab laidOut fresh noSlab calls ref colour
    cases refused.symm.trans returned
  obtain ⟨base, baseView, new, page, start, starts, grow, -, toBase, -, -, available, isStart, -⟩ :=
    slabsInternal.growBase bufctlsInternal laidOut sound room large fresh exists_slab calls
  rw [starts] at returned
  have layout : base.layout ref = kmm.layout ref := congrFun toBase.layout ref
  have enough : (base.layout ref).slabCapacity ≤ base.available .largeBufctls := by
    by_contra short
    rw [grow.fails (Nat.lt_of_not_le short) calls] at returned
    cases returned
  obtain ⟨final, created, growing⟩ := grow.rounds (Nat.le_refl _) enough calls
  simp only [created, Outcome.ok_bind] at returned
  cases returned
  obtain ⟨after, ctls, -, inner, -, record, mems, -, -⟩ := growing.exists_view
  have valid := grow.laidOut.loose page grow.isLoose
  have fits := grow.fits
  rw [layout] at fits mems
  rw [record, ← isStart]
  refine ⟨fits.geometry sound valid ?_ ?_, ?_⟩
  · have isMemory : (fun ctl : Bufctl => bufctlMem ctl (kmm.layout ref)) = Bufctl.memory := by
      funext ctl
      rw [bufctlMem, large, if_pos rfl]
    rw [isMemory, mems]
    rfl
  · rw [large]
    exact fun impossible => absurd impossible.symm Bool.false_ne_true
  · exact (inner.cache ref grow.large).trans (toBase.cache ref large)

/-- Without a slab only internal caches are different. -/
theorem Ok.slabCreateLarge_none (ok : Ok kmm storage users view live)
    (fresh : kmm.SupplyFresh) (sound : (kmm.layout ref).Sound) {colour : Nat}
    (room : colour = 0 ∨ colour + (kmm.layout ref).slabCapacity * (kmm.layout ref).stride <
      platformPageSize - (kmm.layout ref).header)
    (large : (kmm.layout ref).large = true) {calls : KmmCalls}
    (returned : slabCreateLarge calls.nested kmm ref colour = .ok (next, none)) :
    next.cache ref = kmm.cache ref := by
  have laidOut := ok.accounted.laidOut
  have slabsInternal : Internal kmm view .slabs := ok.internal (by decide)
  by_cases noSlab : kmm.NoSlab
  · obtain ⟨_, _, refused, inner, -⟩ := slabsInternal.noSlab laidOut fresh noSlab calls ref colour
    cases refused.symm.trans returned
    exact inner.cache ref large
  · have bufctlsInternal : Internal kmm view .largeBufctls := ok.internal (by decide)
    obtain ⟨_, _, _, _, _, starts, -⟩ :=
      slabsInternal.growBase bufctlsInternal laidOut sound room large fresh noSlab calls
    rw [starts] at returned
    obtain ⟨_, -, impossible⟩ := Outcome.bind_eq_ok.mp returned
    cases impossible

theorem slabCreateSmall_cache {colour : Nat} {slab : Option Nat}
    (returned : slabCreateSmall kmm ref colour = .ok (next, slab)) : next.cache = kmm.cache := by
  obtain ⟨⟨middle, page⟩, allocated, created⟩ := Outcome.bind_eq_ok.mp returned
  have isMiddle : middle.cache = kmm.cache := by
    obtain ⟨_, -, isResult⟩ := Outcome.bind_eq_ok.mp allocated
    cases isResult
    rfl
  cases page with
  | none =>
      cases created
      exact isMiddle
  | some page =>
      obtain ⟨⟨final, descriptor⟩, initialized, isNext⟩ := Outcome.bind_eq_ok.mp created
      cases isNext
      obtain ⟨_, -, rest⟩ := Outcome.bind_eq_ok.mp initialized
      obtain ⟨_, -, rest⟩ := Outcome.bind_eq_ok.mp rest
      obtain ⟨_, -, isFinal⟩ := Outcome.bind_eq_ok.mp rest
      cases isFinal
      exact isMiddle

/-- `get_new_slab` moves the colour of the cache on. -/
theorem Ok.getNewSlab_colour (ok : Ok kmm storage users view live)
    (member : ref ∈ kmm.known storage) (fresh : kmm.SupplyFresh) {calls : KmmCalls}
    {slab : Option Nat} (returned : getNewSlab calls.nested kmm ref = .ok (next, slab)) :
    (next.cache ref).colourNext = (kmm.cache ref).nextColour.colourNext := by
  have cacheOk := ok.caches ref member
  have stored : ∃ middle : Kmm, middle.cache ref = kmm.cache ref ∧
      (next.cache ref = (middle.cache ref).nextColour ∨
        ∃ slab, next.cache ref = (middle.cache ref).nextColour.addNewSlab slab) := by
    unfold getNewSlab at returned
    cases large : (kmm.cache ref).large with
    | false =>
        simp only [large, if_neg Bool.false_ne_true] at returned
        obtain ⟨⟨middle, answer⟩, created, isNext⟩ := Outcome.bind_eq_ok.mp returned
        refine ⟨middle, congrFun (slabCreateSmall_cache created) ref, ?_⟩
        cases answer with
        | none => cases isNext; exact .inl (setCache_cache_self ..)
        | some slab => cases isNext; exact .inr ⟨slab, setCache_cache_self ..⟩
    | true =>
        simp only [large, if_true] at returned
        obtain ⟨⟨middle, answer⟩, created, isNext⟩ := Outcome.bind_eq_ok.mp returned
        cases answer with
        | none =>
            refine ⟨middle, ok.slabCreateLarge_none fresh cacheOk.sound cacheOk.coloured.room
              large created, ?_⟩
            cases isNext
            exact .inl (setCache_cache_self ..)
        | some slab =>
            refine ⟨middle, (ok.slabCreateLarge_geometry fresh cacheOk.sound
              cacheOk.coloured.room large created).2, ?_⟩
            cases isNext
            exact .inr ⟨slab, setCache_cache_self ..⟩
  obtain ⟨middle, same, isNext | ⟨slab, isNext⟩⟩ := stored
  · rw [isNext, same]
  · rw [isNext, same, KmmCache.addNewSlab_colourNext]

end Kmm

namespace KmmSystem

/-- The buffers of a new slab lie in its page, apart from each other and from the
headers, in every cache `kmm_cache_init` sets up and with every colour that
`get_new_slab` comes to. -/
theorem newSlab_geometry {params : KmmCacheParams} (valid : params.Valid) {initial : KmmCache}
    (initialized : kmmCacheInit params = .ok initial) (rounds : Nat) :
    let cache := initial.toKmmCacheLayout
    let colour := (KmmCache.nextColour^[rounds] initial).colourNext
    let start (page : Nat) := alignRoundup (page + cache.header + colour) cache.alignment
    (cache.large = false → ∀ (kmm : Kmm) (ref : KmmCacheRef) (page : Nat),
      kmm.layout ref = cache → ValidPage page →
      ∃ next, slabInitSmall kmm ref page colour = .ok (next, page + sizeofPage) ∧
        cache.Geometry page (start page) (next.slab (page + sizeofPage)).freeBuffers) ∧
    (cache.large = true → ∀ (system : KmmSystem) (ref : KmmCacheRef) (supply : List (Option Nat)),
      kmmMachine.Reachable system → system.kmm.layout ref = cache →
      (system.kmm.supplied supply).SupplyFresh → ∀ (next : Kmm) (slab : Nat),
      slabCreateLarge (kmmCalls 1) (system.kmm.supplied supply) ref colour =
        .ok (next, some slab) →
      cache.Geometry (next.slab slab).page (start (next.slab slab).page)
        (next.slab slab).freeBuffers) := by
  obtain ⟨sound, coloured, -⟩ := kmmCacheInit_spec valid initialized
  obtain ⟨isColoured, layout⟩ := coloured.iterate rounds
  have room := isColoured.room
  rw [layout] at room
  refine ⟨fun small kmm ref page isCache validPage => ?_,
    fun large system ref supply reached isCache fresh next slab returned => ?_⟩
  · obtain ⟨start, next, isStart, fits, returned, new, -⟩ :=
      slabInitSmall_ok isCache sound small validPage room
    refine ⟨next, returned, ?_⟩
    subst isStart
    rw [new.slab, Function.update_self]
    refine fits.geometry sound validPage ?_ fun _ => rfl
    rw [List.map_reverse, List.map_map, List.map_congr_left (g := id), List.map_id]
    intro mem member
    have found := (fits.placed sound member).bufctlSmallGetMem sound validPage small
    show bufctlMem (initial.smallCtl mem) initial.toKmmCacheLayout = mem
    rw [bufctlMem, small, if_neg Bool.false_ne_true, found]
  · obtain ⟨users, view, consistent⟩ := consistent_of_reachable reached
    have isLayout : (system.kmm.supplied supply).layout ref = initial.toKmmCacheLayout := isCache
    have geometry := @Kmm.Ok.slabCreateLarge_geometry _ _ _ ref slab _ _ _
      (consistent.supplied supply) fresh (isLayout ▸ sound) _ (isLayout ▸ room)
      (isLayout ▸ large) (kmmCalls 0) returned
    rw [isLayout] at geometry
    exact geometry.1

/-- Objects of 24 bytes: four colours fit into what the objects leave over. -/
def smallObjects : KmmCache := ⟨⟨24, 4, 145, 28, false, false, false⟩, 16, 4, 0, [], [], []⟩

/-- A third slab of these objects, and a slab of `largeTriple` behind a descriptor, a
page and the control blocks. -/
theorem newSlabs_geometry :
    (∃ next, slabInitSmall (blank.setCache .caches smallObjects) .caches 4096 8 =
        .ok (next, 4100) ∧
      smallObjects.Geometry 4096 4124 (next.slab 4100).freeBuffers) ∧
    ∃ next slab, slabCreateLarge (kmmCalls 1)
        (largeTriple.kmm.supplied [some 4096, some 8192, some 12288]) (.storage 0) 0 =
          .ok (next, some slab) ∧
      (largeTriple.kmm.layout (.storage 0)).Geometry (next.slab slab).page
        (alignRoundup ((next.slab slab).page + 4) 0) (next.slab slab).freeBuffers := by
  have small : kmmCacheInit { size := 24, align := 0 } = .ok smallObjects := rfl
  have isLayout : (blank.setCache .caches smallObjects).layout .caches =
      smallObjects.toKmmCacheLayout :=
    congrArg KmmCache.toKmmCacheLayout (Kmm.setCache_cache_self ..)
  have large : kmmCacheInit { size := 1300, align := 0 } =
      .ok (largeTriple.kmm.cache (.storage 0)) := by decide +kernel
  have created : ((slabCreateLarge (kmmCalls 1)
      (largeTriple.kmm.supplied [some 4096, some 8192, some 12288]) (.storage 0)
      0).toOption.bind Prod.snd).isSome = true := by decide +kernel
  refine ⟨(newSlab_geometry (by decide) small 2).1 rfl _ _ _ isLayout (by decide), ?_⟩
  cases returned : slabCreateLarge (kmmCalls 1)
      (largeTriple.kmm.supplied [some 4096, some 8192, some 12288]) (.storage 0) 0 with
  | error fault =>
      rw [returned] at created
      cases created
  | ok result =>
      obtain ⟨next, answer⟩ := result
      rw [returned] at created
      obtain ⟨slab, rfl⟩ := Option.isSome_iff_exists.mp created
      exact ⟨next, slab, rfl, (newSlab_geometry (by decide) large 0).2 (by decide +kernel) _ _ _
        largeTriple_reachable rfl (by decide +kernel) next slab returned⟩

end KmmSystem

end Yaeos
