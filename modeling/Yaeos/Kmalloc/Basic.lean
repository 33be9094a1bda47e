import Mathlib.Data.Nat.Log
import Mathlib.Order.Bounds.Basic
import Yaeos.Buddy.Basic
import Yaeos.Kmm.Layout
import Yaeos.Machine.Slots

/-!
# Memory of any size (`kernel/mm/kmalloc.c`)

There is a cache for each power of two from `LOW_POW` to `MAX_POW`.  Its objects
are longer than the power by the alignment of `max_align_t`: the first byte of an
object is the index of its cache, and the caller gets the next aligned address.

`memory` holds the bytes of the objects; headers and control blocks of `kmm.c`
are in the state of `kmm`.  Messages are left out.
-/

namespace Yaeos

/-- `alignof(max_align_t)`. -/
def alignofMaxAlign : Nat := 16

/-- `sizeof(struct kmalloc_ident_info)`. -/
def sizeofIdentInfo : Nat := 1

/-- `KMALLOC_MAX_CACHES`. -/
def kmallocMaxCaches : Nat := 7

/-- `log2_ceil`. -/
def log2Ceil (value : Nat) : Outcome Nat := do
  if value ≤ 1 then .ok 0
  else .ok ((← log2Floor (value - 1)) + 1)

structure Kmalloc where
  kmm : Kmm
  lowPow : Nat
  maxPow : Nat
  /-- `KMALLOC_CACHES`: the addresses of the caches, or `NULL`. -/
  caches : List (Option Nat)
  memory : Nat → Nat

/-- `POWERS`. -/
def Kmalloc.powers (state : Kmalloc) : Nat := state.maxPow - state.lowPow + 1

def heapNames : List String :=
  ["kmalloc_1", "kmalloc_2", "kmalloc_4", "kmalloc_8",
    "kmalloc_16", "kmalloc_32", "kmalloc_64", "kmalloc_128",
    "kmalloc_256", "kmalloc_512", "kmalloc_1024", "kmalloc_2048"]

/-- The objects of the cache for a power. -/
def kmallocParams (pow : Nat) : KmmCacheParams :=
  { size := wrap (alignRoundup sizeofIdentInfo alignofMaxAlign + 2 ^ pow)
    align := alignofMaxAlign }

/-- A round of the loop of `kmalloc_init`. -/
def kmallocInitCache (state : Kmalloc) (i : Nat) : Outcome Kmalloc := do
  let _ ← readSlot heapNames (i + state.lowPow)
  let (kmm, cache) ← kmmCacheCreate state.kmm (kmallocParams (i + state.lowPow))
  let caches ← writeSlot state.caches i cache
  .ok { state with kmm := kmm, caches := caches }

/-- `kmalloc_init` with the powers as `uint8_t`. -/
def kmallocInit (state : Kmalloc) (lowestPow2Size maxPow2Size : Nat) : Outcome Kmalloc := do
  let state := { state with lowPow := lowestPow2Size, maxPow := maxPow2Size }
  kassert (maxPow2Size > lowestPow2Size)
  kassert (state.powers ≤ kmallocMaxCaches)
  kassert (heapNames.length ≥ maxPow2Size)
  (List.range state.powers).foldlM kmallocInitCache state

/-- An object of a cache with its index in front of the block. -/
def kmallocObject (state : Kmalloc) (cacheIndex : Nat) : Outcome (Kmalloc × Option Nat) := do
  let c ← readSlot state.caches cacheIndex
  kassert (c ≠ none)
  let address ← deref c
  let (kmm, object) ← kmmCacheAlloc state.kmm (.created address)
  kassert (checkAlign (object.getD 0) alignofMaxAlign)
  let info ← deref object
  let memory := Function.update state.memory info cacheIndex
  .ok ({ state with kmm := kmm, memory := memory },
    some (alignRoundup (wrap (info + sizeofIdentInfo)) alignofMaxAlign))

/-- `kmalloc`; `size` is a `size_t`, the power and the index are `uint8_t`. -/
def kmalloc (state : Kmalloc) (size : Nat) : Outcome (Kmalloc × Option Nat) := do
  let reqSpace := wrap (size + sizeofIdentInfo)
  let pow := (← log2Ceil reqSpace) % 256
  let pow := max pow state.lowPow
  let cacheIndex := (pow - state.lowPow) % 256
  if cacheIndex ≥ state.powers then .ok (state, none)
  else kmallocObject state cacheIndex

def kfree (state : Kmalloc) (mem : Nat) : Outcome Kmalloc := do
  kassert (mem ≠ 0)
  kassert (checkAlign mem alignofMaxAlign)
  let info := alignRounddown (mem - 1) alignofMaxAlign
  let cacheIndex := state.memory info
  kassert (cacheIndex < state.powers)
  let address ← deref (← readSlot state.caches cacheIndex)
  let kmm ← kmmCacheFree state.kmm (.created address) info
  .ok { state with kmm := kmm }

/-! ## Size classes -/

theorem log2Ceil_eq (value : Nat) : log2Ceil value = .ok (Nat.clog 2 value) := by
  unfold log2Ceil
  split
  · next small => rw [Nat.clog_of_right_le_one small]
  · next large =>
      have nonzero : 0 ≠ value - 1 := by omega
      have isClog : Nat.clog 2 value = Nat.log2 (value - 1) + 1 := by
        apply Nat.le_antisymm
        · rw [Nat.clog_le_iff_le_pow Nat.one_lt_two]
          have below : value - 1 < 2 ^ (Nat.log2 (value - 1) + 1) := Nat.lt_log2_self
          omega
        · rw [Nat.succ_le_iff, Nat.lt_clog_iff_pow_lt Nat.one_lt_two]
          have above := Nat.log2_self_le nonzero.symm
          omega
      rw [isClog]
      simp only [log2Floor, kassert_ok nonzero, Outcome.ok_bind]

/-- The power of the cache that a request of `size` bytes goes to. -/
def sizeClass (lowPow size : Nat) : Nat := max (Nat.clog 2 (wrap (size + sizeofIdentInfo))) lowPow

/-- What `kmalloc_init` checks, with the names it reads. -/
structure Kmalloc.Accepted (state : Kmalloc) : Prop where
  ordered : state.lowPow < state.maxPow
  powers : state.powers ≤ kmallocMaxCaches
  named : state.maxPow < heapNames.length

theorem kmalloc_eq {state : Kmalloc} (accepted : state.Accepted) (size : Nat) :
    kmalloc state size = if state.maxPow < sizeClass state.lowPow size then .ok (state, none)
      else kmallocObject state (sizeClass state.lowPow size - state.lowPow) := by
  have named : state.maxPow < 12 := accepted.named
  have ordered := accepted.ordered
  have bits : Nat.clog 2 (wrap (size + sizeofIdentInfo)) ≤ 32 := by
    rw [Nat.clog_le_iff_le_pow Nat.one_lt_two]
    exact Nat.le_of_lt (wrap_lt _)
  have pow : Nat.clog 2 (wrap (size + sizeofIdentInfo)) % 256 =
      Nat.clog 2 (wrap (size + sizeofIdentInfo)) := Nat.mod_eq_of_lt (by omega)
  have above : state.lowPow ≤ sizeClass state.lowPow size := le_max_right ..
  have index : (sizeClass state.lowPow size - state.lowPow) % 256 =
      sizeClass state.lowPow size - state.lowPow := by
    refine Nat.mod_eq_of_lt ?_
    unfold sizeClass
    omega
  have tooLarge : sizeClass state.lowPow size - state.lowPow ≥ state.powers ↔
      state.maxPow < sizeClass state.lowPow size := by
    unfold Kmalloc.powers
    omega
  unfold kmalloc
  simp only [log2Ceil_eq, Outcome.ok_bind, pow]
  rw [← sizeClass, index]
  simp only [tooLarge]

/-- The class is the least power that has room for the request and the index. -/
theorem sizeClass_isLeast (lowPow : Nat) {size : Nat} (noOverflow : size + 1 < addressSpace) :
    IsLeast {pow | lowPow ≤ pow ∧ size + 1 ≤ 2 ^ pow} (sizeClass lowPow size) := by
  have sum : wrap (size + sizeofIdentInfo) = size + 1 := wrap_of_lt noOverflow
  unfold sizeClass
  rw [sum]
  constructor
  · refine ⟨le_max_right .., ?_⟩
    rw [← Nat.clog_le_iff_le_pow Nat.one_lt_two]
    exact le_max_left ..
  · rintro pow ⟨above, room⟩
    exact max_le ((Nat.clog_le_iff_le_pow Nat.one_lt_two).mpr room) above

/-- `kmalloc` returns `NULL` for the size alone. -/
def Kmalloc.Refuses (state : Kmalloc) (size : Nat) : Prop :=
  kmalloc state size = .ok (state, none)

/-- The largest size overflows with the index, and the smallest class is taken. -/
theorem sizeClass_overflow (lowPow : Nat) : sizeClass lowPow (addressSpace - 1) = lowPow := by
  have zero : wrap (addressSpace - 1 + sizeofIdentInfo) = 0 := by decide
  unfold sizeClass
  rw [zero, Nat.clog_zero_right]
  exact Nat.max_eq_right (Nat.zero_le _)

/-! ## Blocks and their objects -/

/-- The block of an aligned object starts behind the alignment. -/
theorem alignRoundup_info {info : Nat} (aligned : alignofMaxAlign ∣ info)
    (inside : info + alignofMaxAlign < addressSpace) :
    alignRoundup (wrap (info + sizeofIdentInfo)) alignofMaxAlign = info + alignofMaxAlign := by
  unfold alignofMaxAlign sizeofIdentInfo at *
  rw [wrap_of_lt (by omega), show 16 = 2 ^ 4 by decide, alignRoundup_two_pow (by decide) (by omega)]
  omega

theorem alignRounddown_mem {info : Nat} (aligned : alignofMaxAlign ∣ info)
    (inside : info + alignofMaxAlign < addressSpace) :
    alignRounddown (info + alignofMaxAlign - 1) alignofMaxAlign = info := by
  unfold alignofMaxAlign at *
  rw [show 16 = 2 ^ 4 by decide, alignRounddown_two_pow (by omega) (by decide)]
  omega

theorem checkAlign_maxAlign {address : Nat} (inside : address < addressSpace) :
    checkAlign address alignofMaxAlign ↔ alignofMaxAlign ∣ address :=
  checkAlign_two_pow inside (show 4 < 32 by decide)

/-- A class whose cache supplies an object. -/
theorem kmallocObject_ok {state : Kmalloc} {cacheIndex address info : Nat} {kmm : Kmm}
    (isCache : state.caches[cacheIndex]? = some (some address))
    (allocated : kmmCacheAlloc state.kmm (.created address) = .ok (kmm, some info))
    (aligned : alignofMaxAlign ∣ info) (inside : info + alignofMaxAlign < addressSpace) :
    kmallocObject state cacheIndex = .ok ({ state with
        kmm := kmm, memory := Function.update state.memory info cacheIndex },
      some (info + alignofMaxAlign)) := by
  have nonNull : some address ≠ none := Option.some_ne_none _
  have isAligned : checkAlign ((some info).getD 0) alignofMaxAlign :=
    (checkAlign_maxAlign (Nat.lt_of_le_of_lt (Nat.le_add_right ..) inside)).mpr aligned
  simp only [kmallocObject, readSlot_eq_ok.mpr isCache, kassert_ok nonNull, deref_some, allocated,
    kassert_ok isAligned, alignRoundup_info aligned inside, Outcome.ok_bind]

theorem kmallocObject_returned {state next : Kmalloc} {cacheIndex : Nat} {answer : Option Nat}
    (returned : kmallocObject state cacheIndex = .ok (next, answer)) :
    ∃ address kmm info, state.caches[cacheIndex]? = some (some address) ∧
      kmmCacheAlloc state.kmm (.created address) = .ok (kmm, some info) ∧ answer ≠ none := by
  obtain ⟨cache, isCache, rest⟩ := Outcome.bind_eq_ok.mp returned
  obtain ⟨_, -, rest⟩ := Outcome.bind_eq_ok.mp rest
  obtain ⟨address, nonNull, rest⟩ := Outcome.bind_eq_ok.mp rest
  obtain ⟨⟨kmm, object⟩, allocated, rest⟩ := Outcome.bind_eq_ok.mp rest
  obtain ⟨_, -, rest⟩ := Outcome.bind_eq_ok.mp rest
  obtain ⟨info, isObject, rest⟩ := Outcome.bind_eq_ok.mp rest
  cases rest
  cases deref_eq_ok.mp nonNull
  cases deref_eq_ok.mp isObject
  exact ⟨address, kmm, info, readSlot_eq_ok.mp isCache, allocated, Option.some_ne_none _⟩

/-- Where `kmalloc` returns `NULL`, nothing changed. -/
theorem kmalloc_null {state next : Kmalloc} {size : Nat}
    (returned : kmalloc state size = .ok (next, none)) : next = state := by
  unfold kmalloc at returned
  simp only [log2Ceil_eq, Outcome.ok_bind] at returned
  split at returned
  · cases returned
    rfl
  · obtain ⟨_, _, _, -, -, isSome⟩ := kmallocObject_returned returned
    exact absurd rfl isSome

/-- A request is refused from the largest class on. -/
theorem Kmalloc.Accepted.refuses_iff {state : Kmalloc} {size : Nat} (accepted : state.Accepted)
    (noOverflow : size + 1 < addressSpace) : state.Refuses size ↔ 2 ^ state.maxPow ≤ size := by
  obtain ⟨⟨-, room⟩, least⟩ := sizeClass_isLeast state.lowPow noOverflow
  unfold Refuses
  rw [kmalloc_eq accepted]
  constructor
  · intro refused
    split at refused
    · next tooLarge =>
        by_contra small
        have served : sizeClass state.lowPow size ≤ state.maxPow :=
          least ⟨Nat.le_of_lt accepted.ordered, Nat.lt_of_not_le small⟩
        omega
    · obtain ⟨_, _, _, -, -, some_⟩ := kmallocObject_returned refused
      exact absurd rfl some_
  · intro large
    have tooLarge : state.maxPow < sizeClass state.lowPow size := by
      by_contra served
      have less : 2 ^ sizeClass state.lowPow size ≤ 2 ^ state.maxPow :=
        Nat.pow_le_pow_right Nat.zero_lt_two (Nat.le_of_not_lt served)
      have enough : size + 1 ≤ 2 ^ sizeClass state.lowPow size := room
      omega
    rw [if_pos tooLarge]

/-- `kfree` finds the object of a block and its cache by the byte in front of it. -/
theorem kfree_eq {state : Kmalloc} {cacheIndex address info : Nat}
    (isCache : state.caches[cacheIndex]? = some (some address)) (below : cacheIndex < state.powers)
    (isByte : state.memory info = cacheIndex) (aligned : alignofMaxAlign ∣ info)
    (inside : info + alignofMaxAlign < addressSpace) :
    kfree state (info + alignofMaxAlign) = (do
      let kmm ← kmmCacheFree state.kmm (.created address) info
      .ok { state with kmm := kmm }) := by
  have nonNull : info + alignofMaxAlign ≠ 0 := by
    unfold alignofMaxAlign
    omega
  have isAligned : checkAlign (info + alignofMaxAlign) alignofMaxAlign :=
    (checkAlign_maxAlign inside).mpr (Nat.dvd_add aligned (Nat.dvd_refl _))
  simp only [kfree, kassert_ok nonNull, kassert_ok isAligned, alignRounddown_mem aligned inside,
    isByte, kassert_ok below, readSlot_eq_ok.mpr isCache, deref_some, Outcome.ok_bind]

/-- The layout of the cache for a power. -/
structure KmmCacheLayout.IsClass (cache : KmmCacheLayout) (pow : Nat) : Prop where
  size : cache.size = alignofMaxAlign + 2 ^ pow
  grain : cache.grain = alignofMaxAlign

theorem kmallocParams_size {pow : Nat} (small : pow < heapNames.length) :
    (kmallocParams pow).size = alignofMaxAlign + 2 ^ pow := by
  have power : 2 ^ pow < 2 ^ 12 := Nat.pow_lt_pow_right Nat.one_lt_two small
  have first : alignRoundup sizeofIdentInfo alignofMaxAlign = alignofMaxAlign := by decide
  unfold kmallocParams
  dsimp only
  rw [first, wrap_of_lt]
  unfold alignofMaxAlign addressSpace
  omega

theorem kmallocParams_isClass {pow : Nat} (small : pow < heapNames.length) {cache : KmmCache}
    (initialized : kmmCacheInit (kmallocParams pow) = .ok cache) :
    cache.toKmmCacheLayout.IsClass pow := by
  simp only [kmmCacheInit, Outcome.bind_eq_ok, kassert_eq_ok, Except.ok.injEq] at initialized
  obtain ⟨-, -, -, -, rfl⟩ := initialized
  refine ⟨kmallocParams_size small, ?_⟩
  have alignment : (kmmCacheLayout (kmallocParams pow)).alignment = alignofMaxAlign := by
    unfold kmmCacheLayout
    dsimp only
    split
    · rfl
    · show max sizeofBufctlSmall alignofMaxAlign = alignofMaxAlign
      decide
  unfold KmmCacheLayout.grain
  dsimp only
  rw [alignment]
  decide

end Yaeos
