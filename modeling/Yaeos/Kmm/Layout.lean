import Mathlib.Data.List.Nodup
import Mathlib.Data.List.Range
import Yaeos.Kmm.Basic
import Yaeos.Machine.Loop

/-!
# The layout of a slab (`kernel/mm/kmm.c`)

The buffers of a slab start behind the headers and the colour of the slab,
rounded up to the alignment of the cache, and end inside the page.  Each has
room for an object, and in a small cache for its control block behind it.
-/

namespace Yaeos

/-- The page an address lies in. -/
def pageOf (address : Nat) : Nat := address / platformPageSize * platformPageSize

/-- A page `ALLOC_PAGE_FN` may return: it is not the last page of the addresses. -/
structure ValidPage (page : Nat) : Prop where
  aligned : platformPageSize ∣ page
  positive : 0 < page
  inside : page + platformPageSize < addressSpace

instance (page : Nat) : Decidable (ValidPage page) :=
  decidable_of_iff (platformPageSize ∣ page ∧ 0 < page ∧ page + platformPageSize < addressSpace)
    ⟨fun ⟨aligned, positive, inside⟩ => ⟨aligned, positive, inside⟩,
      fun ⟨aligned, positive, inside⟩ => ⟨aligned, positive, inside⟩⟩

theorem pageOf_eq {page address : Nat} (aligned : platformPageSize ∣ page) (above : page ≤ address)
    (below : address < page + platformPageSize) : pageOf address = page := by
  obtain ⟨index, rfl⟩ := aligned
  unfold pageOf platformPageSize at *
  omega

namespace KmmCacheLayout

/-- The bytes in front of the buffers of a slab. -/
def header (cache : KmmCacheLayout) : Nat :=
  if cache.large then sizeofPage else sizeofPage + sizeofKmmSlab

/-- The alignment of the buffers; 0 stands for none. -/
def grain (cache : KmmCacheLayout) : Nat := if cache.alignment = 0 then 1 else cache.alignment

/-- What `kmm_cache_init` guarantees. -/
structure Sound (cache : KmmCacheLayout) : Prop where
  capacity_pos : 0 < cache.slabCapacity
  stride_pos : 0 < cache.stride
  capacity : cache.slabCapacity = (platformPageSize - cache.header) / cache.stride
  power : ∃ power < 32, cache.grain = 2 ^ power
  strideAligned : cache.grain ∣ cache.stride
  size : cache.size ≤ cache.stride
  ctlAligned : cache.large = false → sizeofBufctlSmall ∣ cache.grain
  ctlRoom : cache.large = false → cache.size + sizeofBufctlSmall ≤ cache.stride

/-- The addresses of the buffers of a slab. -/
def buffers (cache : KmmCacheLayout) (start : Nat) : List Nat :=
  (List.range cache.slabCapacity).map fun i => start + i * cache.stride

/-- Buffers from `start` on lie in the page, behind the headers. -/
structure Fits (cache : KmmCacheLayout) (page start : Nat) : Prop where
  header : page + cache.header ≤ start
  inside : start + cache.slabCapacity * cache.stride ≤ page + platformPageSize
  aligned : cache.grain ∣ start

/-- The control block behind a buffer. -/
def smallCtl (cache : KmmCacheLayout) (mem : Nat) : Bufctl :=
  ⟨alignRoundup (mem + cache.size) sizeofBufctlSmall, 0⟩

theorem smallCtl_eta (cache : KmmCacheLayout) (mem : Nat) :
    (⟨(cache.smallCtl mem).address, 0⟩ : Bufctl) = cache.smallCtl mem := by
  unfold smallCtl
  rfl

variable {cache : KmmCacheLayout} {page start mem : Nat}

theorem header_le (cache : KmmCacheLayout) : cache.header ≤ 20 := by
  unfold header
  split <;> decide

theorem le_header (cache : KmmCacheLayout) : 4 ≤ cache.header := by
  unfold header
  split <;> decide

theorem mem_buffers : mem ∈ cache.buffers start ↔
    ∃ i < cache.slabCapacity, mem = start + i * cache.stride := by
  simp [buffers, eq_comm]

theorem length_buffers : (cache.buffers start).length = cache.slabCapacity := by
  simp [buffers]

namespace Sound

theorem nodup_buffers (sound : cache.Sound) (start : Nat) : (cache.buffers start).Nodup := by
  refine List.Nodup.map (fun first second same => ?_) List.nodup_range
  exact Nat.eq_of_mul_eq_mul_right sound.stride_pos (Nat.add_left_cancel same)

theorem stride_le (sound : cache.Sound) : cache.stride ≤ platformPageSize - cache.header := by
  have filled : cache.slabCapacity * cache.stride ≤ platformPageSize - cache.header := by
    rw [sound.capacity]
    exact Nat.div_mul_le_self ..
  exact Nat.le_trans (Nat.le_mul_of_pos_left _ sound.capacity_pos) filled

theorem grain_dvd_page (sound : cache.Sound) : cache.grain ∣ platformPageSize := by
  obtain ⟨power, -, isPower⟩ := sound.power
  have small : 2 ^ power < 2 ^ 12 := by
    rw [← isPower]
    have bound := sound.stride_le
    have header := cache.le_header
    have divides := Nat.le_of_dvd sound.stride_pos sound.strideAligned
    unfold platformPageSize at bound
    omega
  rw [isPower]
  exact Nat.pow_dvd_pow 2 (Nat.le_of_lt ((Nat.pow_lt_pow_iff_right (by decide)).mp small))

theorem grain_pos (sound : cache.Sound) : 0 < cache.grain := by
  obtain ⟨power, -, isPower⟩ := sound.power
  rw [isPower]
  exact Nat.two_pow_pos power

theorem roundup (sound : cache.Sound) (address : Nat)
    (inside : address + (cache.grain - 1) < addressSpace) :
    RoundedUp address cache.grain (alignRoundup address cache.alignment) := by
  obtain ⟨power, fits, isPower⟩ := sound.power
  by_cases zero : cache.alignment = 0
  · rw [zero, alignRoundup_zero]
    refine ⟨?_, Nat.le_refl _, fun _ _ atLeast => atLeast⟩
    simp [grain, zero]
  · have same : cache.grain = cache.alignment := if_neg zero
    rw [← same, isPower]
    exact alignRoundup_spec fits (isPower ▸ inside)

/-- The place `slab_create_small` and `slab_create_large` compute for the first buffer. -/
theorem fits (sound : cache.Sound) (valid : ValidPage page) {colour : Nat}
    (room : colour = 0 ∨ colour + cache.slabCapacity * cache.stride <
      platformPageSize - cache.header) :
    cache.Fits page (alignRoundup (page + cache.header + colour) cache.alignment) := by
  have filled : cache.slabCapacity * cache.stride ≤ platformPageSize - cache.header := by
    rw [sound.capacity]
    exact Nat.div_mul_le_self ..
  have header := cache.header_le
  have grainBound := Nat.le_of_dvd (by decide) sound.grain_dvd_page
  have inside := valid.inside
  have size : platformPageSize = 4096 := rfl
  have rounded := sound.roundup (page + cache.header + colour) (by
    have strideBound := sound.stride_le
    have grainStride := Nat.le_of_dvd sound.stride_pos sound.strideAligned
    have one := Nat.le_mul_of_pos_left cache.stride sound.capacity_pos
    omega)
  refine ⟨Nat.le_trans (Nat.le_add_right ..) rounded.ge, ?_, rounded.aligned⟩
  have least := rounded.least
    (page + (platformPageSize - cache.slabCapacity * cache.stride)) ?_ (by omega)
  · omega
  · exact Nat.dvd_add (Nat.dvd_trans sound.grain_dvd_page valid.aligned)
      (Nat.dvd_sub sound.grain_dvd_page (Nat.dvd_mul_left_of_dvd sound.strideAligned _))

end Sound

/-- A buffer of a slab lies in the page, behind the headers. -/
structure Placed (cache : KmmCacheLayout) (page mem : Nat) : Prop where
  header : page + cache.header ≤ mem
  inside : mem + cache.stride ≤ page + platformPageSize
  aligned : cache.grain ∣ mem

theorem Fits.placed (fits : cache.Fits page start) (sound : cache.Sound)
    (member : mem ∈ cache.buffers start) : cache.Placed page mem := by
  obtain ⟨i, below, rfl⟩ := mem_buffers.mp member
  have upTo : i * cache.stride + cache.stride ≤ cache.slabCapacity * cache.stride := by
    rw [← Nat.succ_mul]
    exact Nat.mul_le_mul_right _ below
  have header := fits.header
  have inside := fits.inside
  refine ⟨by omega, by omega, ?_⟩
  exact Nat.dvd_add fits.aligned (Nat.dvd_mul_left_of_dvd sound.strideAligned _)

namespace Placed

theorem pageOf (placed : cache.Placed page mem) (sound : cache.Sound)
    (aligned : platformPageSize ∣ page) : pageOf mem = page := by
  have header := placed.header
  have inside := placed.inside
  have positive := sound.stride_pos
  exact pageOf_eq aligned (by omega) (by omega)

/-- The control block lies behind the object, before the next buffer. -/
theorem smallCtl (placed : cache.Placed page mem) (sound : cache.Sound) (valid : ValidPage page)
    (small : cache.large = false) :
    RoundedUp (mem + cache.size) sizeofBufctlSmall (cache.smallCtl mem).address ∧
    (cache.smallCtl mem).address + sizeofBufctlSmall ≤ mem + cache.stride := by
  have room := sound.ctlRoom small
  have inside := placed.inside
  have pageInside := valid.inside
  have ctlAligned := sound.ctlAligned small
  have four : sizeofBufctlSmall = 4 := rfl
  have rounded : RoundedUp (mem + cache.size) sizeofBufctlSmall (cache.smallCtl mem).address :=
    alignRoundup_spec (show 2 < 32 by decide) (by omega)
  have strideAligned := Nat.dvd_trans ctlAligned sound.strideAligned
  have least := rounded.least (mem + (cache.stride - sizeofBufctlSmall))
    (Nat.dvd_add (Nat.dvd_trans ctlAligned placed.aligned)
      (Nat.dvd_sub strideAligned (Nat.dvd_refl _))) (by omega)
  exact ⟨rounded, by omega⟩

theorem bufctlSmallGetMem (placed : cache.Placed page mem) (sound : cache.Sound)
    (valid : ValidPage page) (small : cache.large = false) :
    bufctlSmallGetMem (cache.smallCtl mem).address cache = mem := by
  obtain ⟨rounded, before⟩ := placed.smallCtl sound valid small
  have inside := placed.inside
  have pageInside := valid.inside
  have ge := rounded.ge
  have near := rounded.lt (by decide)
  have four : sizeofBufctlSmall = 4 := rfl
  obtain ⟨power, fits, isPower⟩ := sound.power
  have wide : sizeofBufctlSmall ≤ cache.grain :=
    Nat.le_of_dvd sound.grain_pos (sound.ctlAligned small)
  have alignment : cache.alignment = cache.grain := by
    unfold grain at wide ⊢
    split at wide
    · omega
    · next nonzero => rw [if_neg nonzero]
  rw [Yaeos.bufctlSmallGetMem, wrapSub_of_le (by omega) (by omega), alignment, isPower,
    alignRounddown_two_pow (by omega) fits, ← isPower]
  obtain ⟨index, isMultiple⟩ := placed.aligned
  have quotient : ((cache.smallCtl mem).address - cache.size) / cache.grain = index := by
    rw [Nat.div_eq_iff sound.grain_pos, Nat.mul_comm]
    omega
  rw [quotient, Nat.mul_comm]
  exact isMultiple.symm

theorem getBufctlSmall (placed : cache.Placed page mem) (sound : cache.Sound)
    (valid : ValidPage page) (small : cache.large = false) :
    getBufctlSmall mem cache = .ok (cache.smallCtl mem).address := by
  obtain ⟨rounded, before⟩ := placed.smallCtl sound valid small
  have inside := placed.inside
  have pageInside := valid.inside
  have ge := rounded.ge
  have sum : wrap (mem + cache.size) = mem + cache.size := wrap_of_lt (by omega)
  have checked : checkAlign (cache.smallCtl mem).address 4 :=
    (checkAlign_two_pow (by omega) (show 2 < 32 by decide)).mpr rounded.aligned
  unfold Yaeos.getBufctlSmall
  rw [sum]
  exact (congrArg (· >>= _) (kassert_ok checked)).trans rfl

end Placed

/-- The constructor calls for new buffers, the latest first. -/
def constructed (ref : KmmCacheRef) (cache : KmmCacheLayout) (mems : List Nat) : List ObjectCall :=
  mems.reverse.flatMap (constructorCalls ref cache)

theorem constructed_append (ref : KmmCacheRef) (cache : KmmCacheLayout) (mems : List Nat)
    (mem : Nat) :
    constructed ref cache (mems ++ [mem]) =
      constructorCalls ref cache mem ++ constructed ref cache mems := by
  simp [constructed]

end KmmCacheLayout

open KmmCacheLayout

variable {kmm : Kmm} {ref : KmmCacheRef} {page colour : Nat}

theorem addBufferSmall_ok {cache : KmmCacheLayout} {start mem i : Nat} (sound : cache.Sound)
    (small : cache.large = false) (valid : ValidPage page) (placed : cache.Placed page mem)
    (isMem : mem = start + i * cache.stride) (slab : List Bufctl × List ObjectCall) :
    addBufferSmall ref cache start slab i =
      .ok (cache.smallCtl mem :: slab.1, constructorCalls ref cache mem ++ slab.2) := by
  obtain ⟨rounded, before⟩ := placed.smallCtl sound valid small
  have inside := placed.inside
  have pageInside := valid.inside
  have four : sizeofBufctlSmall = 4 := rfl
  have header := placed.header
  have ge := rounded.ge
  have positive := valid.positive
  have cursor : wrap (start + i * cache.stride) = mem := isMem ▸ wrap_of_lt (by omega)
  have next : wrap (mem + cache.stride) = mem + cache.stride := wrap_of_lt (by omega)
  have least := cache.le_header
  unfold addBufferSmall
  simp only [cursor, placed.getBufctlSmall sound valid small, next, Outcome.ok_bind,
    kassert_ok (show (cache.smallCtl mem).address < mem + cache.stride by omega),
    kassert_ok (show (cache.smallCtl mem).address ≠ 0 by omega),
    placed.bufctlSmallGetMem sound valid small]
  rfl

/-- The loop of `slab_create_small`. -/
theorem addBuffersSmall_ok {cache : KmmCacheLayout} {start : Nat} (sound : cache.Sound)
    (small : cache.large = false) (valid : ValidPage page) (fits : cache.Fits page start)
    (calls : List ObjectCall) :
    (List.range cache.slabCapacity).foldlM (addBufferSmall ref cache start) ([], calls) =
      .ok (((cache.buffers start).map cache.smallCtl).reverse,
        constructed ref cache (cache.buffers start) ++ calls) := by
  let first (count : Nat) : List Nat := (List.range count).map fun i => start + i * cache.stride
  have next (count : Nat) : first (count + 1) = first count ++ [start + count * cache.stride] := by
    simp [first, List.range_succ]
  obtain ⟨_, returned, rfl⟩ := @Loop.range_ok _ (addBufferSmall ref cache start)
    (fun count slab => slab = (((first count).map cache.smallCtl).reverse,
      constructed ref cache (first count) ++ calls))
    ([], calls) cache.slabCapacity (by simp [first, constructed]) (by
      rintro count below _ rfl
      refine ⟨_, addBufferSmall_ok sound small valid
        (fits.placed sound (mem_buffers.mpr ⟨count, below, rfl⟩)) rfl _, ?_⟩
      rw [next, constructed_append]
      simp)
  exact returned

/-- A page has become a slab; nothing else is different, the object calls aside. -/
structure NewSlab (kmm next : Kmm) (address page : Nat) (free : List Bufctl) : Prop where
  slab : next.slab = Function.update kmm.slab address ⟨free, page, 0⟩
  owner : next.owner = Function.update kmm.owner page (some address)
  cache : next.cache = kmm.cache
  registered : next.allocatedCaches = kmm.allocatedCaches
  supply : next.supply = kmm.supply
  obtained : next.obtained = kmm.obtained
  released : next.released = kmm.released

/-- A new small slab: its buffers are free, and behind the headers. -/
theorem slabInitSmall_ok {cache : KmmCacheLayout} (layout : (kmm.cache ref).toKmmCacheLayout = cache)
    (sound : cache.Sound) (small : cache.large = false) (valid : ValidPage page)
    (room : colour = 0 ∨ colour + cache.slabCapacity * cache.stride <
      platformPageSize - cache.header) :
    ∃ start next, start = alignRoundup (page + cache.header + colour) cache.alignment ∧
      cache.Fits page start ∧
      slabInitSmall kmm ref page colour = .ok (next, page + sizeofPage) ∧
      NewSlab kmm next (page + sizeofPage) page
        ((cache.buffers start).map cache.smallCtl).reverse ∧
      next.objectCalls = constructed ref cache (cache.buffers start) ++ kmm.objectCalls := by
  have fits := sound.fits valid room
  have pageInside := valid.inside
  have size : platformPageSize = 4096 := rfl
  have headerIs : cache.header = sizeofPage + sizeofKmmSlab := by
    unfold header
    rw [small]
    rfl
  have headers : sizeofPage + sizeofKmmSlab = 20 := rfl
  have colourBound : page + sizeofPage + sizeofKmmSlab + colour < addressSpace := by omega
  have slabAddress : wrap (page + sizeofPage) = page + sizeofPage := wrap_of_lt (by omega)
  have aligned : checkAlign (page + sizeofPage) 4 :=
    (checkAlign_two_pow (by omega) (show 2 < 32 by decide)).mpr
      (Nat.dvd_add (Nat.dvd_trans (by decide) valid.aligned) (by decide))
  rw [headerIs, ← Nat.add_assoc] at fits ⊢
  generalize isStart : alignRoundup (page + sizeofPage + sizeofKmmSlab + colour) cache.alignment =
    start at fits ⊢
  have slabEnd := fits.inside
  have slabStart := fits.header
  have leftover : wrapSub (wrap (page + platformPageSize))
      (wrap (start + cache.slabCapacity * cache.stride)) < cache.stride := by
    have more := Nat.lt_mul_div_succ (platformPageSize - cache.header) sound.stride_pos
    rw [← sound.capacity, Nat.mul_succ, Nat.mul_comm] at more
    rw [wrap_of_lt (by omega), wrap_of_lt (by omega), wrapSub_of_le (by omega) (by omega)]
    omega
  have returned : slabInitSmall kmm ref page colour =
      .ok ({ (kmm.setOwner page (page + sizeofPage)).setSlab (page + sizeofPage)
              ⟨((cache.buffers start).map cache.smallCtl).reverse, page, 0⟩ with
            objectCalls := constructed ref cache (cache.buffers start) ++ kmm.objectCalls },
        page + sizeofPage) := by
    unfold slabInitSmall
    rw [layout]
    simp only [slabAddress, wrap_of_lt colourBound, kassert_ok aligned, isStart,
      kassert_ok leftover, addBuffersSmall_ok sound small valid fits, Outcome.ok_bind]
  exact ⟨start, _, rfl, fits, returned, ⟨rfl, rfl, rfl, rfl, rfl, rfl, rfl⟩, rfl⟩

end Yaeos
