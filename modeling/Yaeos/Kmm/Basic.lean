import Mathlib.Logic.Function.Basic
import Yaeos.Machine.Address
import Yaeos.Machine.Outcome
import Yaeos.Slist.Basic

/-!
# Object caches (`kernel/mm/kmm.c`)

A cache hands out buffers of one size.  The buffers lie in slabs, a slab takes
one page.  In a small cache the descriptor of a slab and the control blocks of
its buffers lie in the page; in a large one they are objects of the internal
caches `slabs` and `large_bufctls`, so an allocation contains others.

Slabs, control blocks and objects are named by their addresses.  What
`ALLOC_PAGE_FN` answers is a list in the state, with `NULL` from its end on.
Constructors and destructors do not call `kmm`; the state records their calls.
Names of caches and messages are left out.
-/

namespace Yaeos

/-- `sizeof(struct page)`. -/
def sizeofPage : Nat := 4

/-- `sizeof(struct kmm_slab)`. -/
def sizeofKmmSlab : Nat := 16

/-- `sizeof(struct bufctl_small)`. -/
def sizeofBufctlSmall : Nat := 4

/-- `sizeof(struct bufctl_large)`. -/
def sizeofBufctlLarge : Nat := 8

/-- `sizeof(struct kmm_cache)`. -/
def sizeofKmmCache : Nat := 60

/-- The static caches of `kmm.c`, static caches of other files, and the caches
that `kmm_cache_create` made, which are objects of `CACHES.caches`. -/
inductive KmmCacheRef where
  | caches
  | largeBufctls
  | slabs
  | storage (index : Nat)
  | created (address : Nat)
  deriving DecidableEq, Repr

/-- The fields of `struct kmm_cache` that stay as `kmm_cache_init` sets them. -/
structure KmmCacheLayout where
  size : Nat
  alignment : Nat
  slabCapacity : Nat
  stride : Nat
  /-- `KMM_CACHE_LARGE` in `flags`. -/
  large : Bool
  /-- There is a constructor. -/
  ctor : Bool
  /-- There is a destructor. -/
  dtor : Bool
  deriving DecidableEq, Repr

structure KmmCache extends KmmCacheLayout where
  colourMax : Nat
  colourOff : Nat
  colourNext : Nat
  slabsEmpty : List Nat
  slabsPartial : List Nat
  slabsFull : List Nat
  deriving DecidableEq, Repr

/-- `union bufctl`: only a large one has the field `memory`, and nothing reads
it in a small one. -/
structure Bufctl where
  address : Nat
  memory : Nat
  deriving DecidableEq, Repr

structure KmmSlab where
  freeBuffers : List Bufctl
  page : Nat
  objectsInuse : Nat
  deriving DecidableEq, Repr

/-- A call of a constructor or a destructor on an object of a cache. -/
inductive ObjectCall where
  | ctor (cache : KmmCacheRef) (mem : Nat)
  | dtor (cache : KmmCacheRef) (mem : Nat)
  deriving DecidableEq, Repr

structure Kmm where
  cache : KmmCacheRef → KmmCache
  slab : Nat → KmmSlab
  /-- The `owner` of the page at an address. -/
  owner : Nat → Option Nat
  /-- The caches behind `ALLOCATED_CACHES_HEAD`. -/
  allocatedCaches : List KmmCacheRef
  /-- The next answers of `ALLOC_PAGE_FN`. -/
  supply : List (Option Nat)
  /-- The pages `ALLOC_PAGE_FN` returned, the latest first. -/
  obtained : List Nat
  /-- The pages `FREE_PAGE_FN` was called with, the latest first. -/
  released : List Nat
  objectCalls : List ObjectCall

def Kmm.setCache (kmm : Kmm) (ref : KmmCacheRef) (cache : KmmCache) : Kmm :=
  { kmm with cache := Function.update kmm.cache ref cache }

def Kmm.setSlab (kmm : Kmm) (address : Nat) (slab : KmmSlab) : Kmm :=
  { kmm with slab := Function.update kmm.slab address slab }

def Kmm.setOwner (kmm : Kmm) (page slab : Nat) : Kmm :=
  { kmm with owner := Function.update kmm.owner page (some slab) }

namespace Kmm

variable (kmm : Kmm) (ref other : KmmCacheRef) (cache : KmmCache) (address page : Nat)
  (descriptor : KmmSlab)

@[simp] theorem setCache_cache_self : (kmm.setCache ref cache).cache ref = cache :=
  Function.update_self ..

theorem setCache_cache_of_ne {ref other : KmmCacheRef} (different : other ≠ ref) :
    (kmm.setCache ref cache).cache other = kmm.cache other :=
  Function.update_of_ne different ..

@[simp] theorem setCache_slab : (kmm.setCache ref cache).slab = kmm.slab := rfl

@[simp] theorem setCache_owner : (kmm.setCache ref cache).owner = kmm.owner := rfl

@[simp] theorem setCache_supply : (kmm.setCache ref cache).supply = kmm.supply := rfl

@[simp] theorem setCache_obtained : (kmm.setCache ref cache).obtained = kmm.obtained := rfl

@[simp] theorem setCache_released : (kmm.setCache ref cache).released = kmm.released := rfl

@[simp] theorem setCache_allocatedCaches :
    (kmm.setCache ref cache).allocatedCaches = kmm.allocatedCaches := rfl

@[simp] theorem setSlab_slab_self : (kmm.setSlab address descriptor).slab address = descriptor :=
  Function.update_self ..

theorem setSlab_slab_of_ne {address other : Nat} (different : other ≠ address) :
    (kmm.setSlab address descriptor).slab other = kmm.slab other :=
  Function.update_of_ne different ..

@[simp] theorem setSlab_setSlab (other : KmmSlab) :
    (kmm.setSlab address descriptor).setSlab address other = kmm.setSlab address other := by
  unfold setSlab
  rw [Function.update_idem]

@[simp] theorem setSlab_cache : (kmm.setSlab address descriptor).cache = kmm.cache := rfl

@[simp] theorem setSlab_owner : (kmm.setSlab address descriptor).owner = kmm.owner := rfl

@[simp] theorem setSlab_supply : (kmm.setSlab address descriptor).supply = kmm.supply := rfl

@[simp] theorem setSlab_obtained : (kmm.setSlab address descriptor).obtained = kmm.obtained := rfl

@[simp] theorem setSlab_released : (kmm.setSlab address descriptor).released = kmm.released := rfl

@[simp] theorem setSlab_allocatedCaches :
    (kmm.setSlab address descriptor).allocatedCaches = kmm.allocatedCaches := rfl

end Kmm

/-! ## Control blocks -/

def bufctlSmallGetMem (ctl : Nat) (cache : KmmCacheLayout) : Nat :=
  alignRounddown (wrapSub ctl cache.size) cache.alignment

def bufctlMem (ctl : Bufctl) (cache : KmmCacheLayout) : Nat :=
  if cache.large then ctl.memory else bufctlSmallGetMem ctl.address cache

def getBufctlSmall (buffer : Nat) (cache : KmmCacheLayout) : Outcome Nat := do
  let s := alignRoundup (wrap (buffer + cache.size)) sizeofBufctlSmall
  kassert (checkAlign s 4)
  .ok s

/-! ## Pages -/

def pageFree (kmm : Kmm) (page : Nat) : Outcome Kmm := do
  kassert (page ≠ 0)
  .ok { kmm with released := page :: kmm.released }

def pageAlloc (kmm : Kmm) : Outcome (Kmm × Option Nat) := do
  let page := kmm.supply.head?.join
  kassert (checkAlign (page.getD 0) platformPageSize)
  .ok ({ kmm with supply := kmm.supply.tail, obtained := page.toList ++ kmm.obtained }, page)

def pageGetByAddr (addr : Nat) : Outcome Nat := do
  let page := addr &&& alignMask platformPageSize
  kassert (checkAlign page 4)
  .ok page

def slabGetByAddr (kmm : Kmm) (addr : Nat) : Outcome (Option Nat) := do
  let page ← pageGetByAddr addr
  if page = 0 then .error .nullDeref else .ok (kmm.owner page)

/-! ## New slabs

The calls of `kmm_cache_alloc` and `kmm_cache_free` on the internal caches are
arguments. -/

structure KmmCalls where
  alloc : Kmm → KmmCacheRef → Outcome (Kmm × Option Nat)
  free : Kmm → KmmCacheRef → Nat → Outcome Kmm

/-- The constructor is called if there is one. -/
def constructorCalls (ref : KmmCacheRef) (cache : KmmCacheLayout) (mem : Nat) : List ObjectCall :=
  if cache.ctor then [.ctor ref mem] else []

/-- The destructor is called if there is one. -/
def destructorCalls (ref : KmmCacheRef) (cache : KmmCacheLayout) (mem : Nat) : List ObjectCall :=
  if cache.dtor then [.dtor ref mem] else []

/-- A round of the loop of `slab_create_small`, over the free buffers of the slab
and the constructor calls. -/
def addBufferSmall (ref : KmmCacheRef) (cache : KmmCacheLayout) (start : Nat)
    (slab : List Bufctl × List ObjectCall) (i : Nat) :
    Outcome (List Bufctl × List ObjectCall) := do
  let cursor := wrap (start + i * cache.stride)
  let ctl ← getBufctlSmall cursor cache
  kassert (ctl < wrap (cursor + cache.stride))
  kassert (ctl ≠ 0)
  let mem := bufctlSmallGetMem ctl cache
  .ok (slistInsert slab.1 ⟨ctl, 0⟩, constructorCalls ref cache mem ++ slab.2)

/-- What `slab_create_small` does with the page it gets. -/
def slabInitSmall (kmm : Kmm) (ref : KmmCacheRef) (page colour : Nat) : Outcome (Kmm × Nat) := do
  let cache := (kmm.cache ref).toKmmCacheLayout
  let slab := wrap (page + sizeofPage)
  kassert (checkAlign slab 4)
  let cursor := alignRoundup (wrap (slab + sizeofKmmSlab + colour)) cache.alignment
  let pageEnd := wrap (page + platformPageSize)
  let slabElemsEnd := wrap (cursor + cache.slabCapacity * cache.stride)
  kassert (wrapSub pageEnd slabElemsEnd < cache.stride)
  let (freeBuffers, objectCalls) ←
    (List.range cache.slabCapacity).foldlM (addBufferSmall ref cache cursor) ([], kmm.objectCalls)
  let kmm := (kmm.setOwner page slab).setSlab slab ⟨freeBuffers, page, 0⟩
  .ok ({ kmm with objectCalls := objectCalls }, slab)

def slabCreateSmall (kmm : Kmm) (ref : KmmCacheRef) (colour : Nat) :
    Outcome (Kmm × Option Nat) := do
  let (kmm, page) ← pageAlloc kmm
  match page with
  | none => .ok (kmm, none)
  | some page => do
      let (kmm, slab) ← slabInitSmall kmm ref page colour
      .ok (kmm, some slab)

/-- A round of the loop of `slab_create_large`.  The control block is used
without a test; `slist_init` is the first to look at the pointer. -/
def addBufferLarge (calls : KmmCalls) (ref : KmmCacheRef) (slab start : Nat) (kmm : Kmm)
    (i : Nat) : Outcome Kmm := do
  let (kmm, ctl) ← calls.alloc kmm .largeBufctls
  kassert (ctl.isSome = true)
  let ctl ← deref ctl
  let cache := (kmm.cache ref).toKmmCacheLayout
  let obj := wrap (start + i * cache.stride)
  let descriptor := kmm.slab slab
  let kmm := kmm.setSlab slab
    { descriptor with freeBuffers := slistInsert descriptor.freeBuffers ⟨ctl, obj⟩ }
  .ok { kmm with objectCalls := constructorCalls ref cache obj ++ kmm.objectCalls }

/-- What `slab_create_large` does with the descriptor and the page it gets. -/
def slabInitLarge (calls : KmmCalls) (kmm : Kmm) (ref : KmmCacheRef) (slab page colour : Nat) :
    Outcome Kmm := do
  let cache := (kmm.cache ref).toKmmCacheLayout
  let objAddr := alignRoundup (wrap (page + sizeofPage + colour)) cache.alignment
  let kmm := (kmm.setOwner page slab).setSlab slab ⟨[], page, 0⟩
  (List.range cache.slabCapacity).foldlM (addBufferLarge calls ref slab objAddr) kmm

def slabCreateLarge (calls : KmmCalls) (kmm : Kmm) (ref : KmmCacheRef) (colour : Nat) :
    Outcome (Kmm × Option Nat) := do
  let (kmm, slab) ← calls.alloc kmm .slabs
  match slab with
  | none => .ok (kmm, none)
  | some slab => do
      let (kmm, page) ← pageAlloc kmm
      match page with
      | none => do
          let kmm ← calls.free kmm .slabs slab
          .ok (kmm, none)
      | some page => do
          let kmm ← slabInitLarge calls kmm ref slab page colour
          .ok (kmm, some slab)

/-! ## Objects of a slab -/

/-- The control block that `object_free` puts on the list: `memory` is written
without a test of the pointer. -/
def objectFreeCtl (calls : KmmCalls) (kmm : Kmm) (ref : KmmCacheRef) (mem : Nat) :
    Outcome (Kmm × Bufctl) :=
  if (kmm.cache ref).large then do
    let (kmm, ctl) ← calls.alloc kmm .largeBufctls
    let ctl ← deref ctl
    .ok (kmm, ⟨ctl, mem⟩)
  else do
    let ctl ← getBufctlSmall mem (kmm.cache ref).toKmmCacheLayout
    .ok (kmm, ⟨ctl, 0⟩)

def objectFree (calls : KmmCalls) (kmm : Kmm) (mem slab : Nat) (ref : KmmCacheRef) :
    Outcome Kmm := do
  kassert (mem ≠ 0)
  let descriptor := kmm.slab slab
  let kmm := kmm.setSlab slab
    { descriptor with objectsInuse := wrapSub descriptor.objectsInuse 1 }
  let (kmm, ctl) ← objectFreeCtl calls kmm ref mem
  kassert (ctl.address ≠ 0)
  let descriptor := kmm.slab slab
  .ok (kmm.setSlab slab
    { descriptor with freeBuffers := slistInsert descriptor.freeBuffers ctl })

def objectAlloc (calls : KmmCalls) (kmm : Kmm) (slab : Nat) (ref : KmmCacheRef) :
    Outcome (Kmm × Nat) := do
  let descriptor := kmm.slab slab
  kassert (slistIsEmpty descriptor.freeBuffers = false)
  let freeCtl ← deref descriptor.freeBuffers.head?
  let freeBuffers ← slistRemove descriptor.freeBuffers freeCtl
  let kmm := kmm.setSlab slab { descriptor with freeBuffers := freeBuffers }
  let cache := (kmm.cache ref).toKmmCacheLayout
  let mem := bufctlMem freeCtl cache
  let kmm ← if cache.large then calls.free kmm .largeBufctls freeCtl.address else .ok kmm
  let descriptor := kmm.slab slab
  .ok (kmm.setSlab slab
    { descriptor with objectsInuse := wrap (descriptor.objectsInuse + 1) }, mem)

/-! ## Allocation -/

def findExistingSlab (kmm : Kmm) (ref : KmmCacheRef) : Outcome (Kmm × Option Nat) :=
  let cache := kmm.cache ref
  match cache.slabsPartial, cache.slabsEmpty with
  | slab :: _, _ =>
      if wrap ((kmm.slab slab).objectsInuse + 1) = cache.slabCapacity then do
        let slabsPartial ← slistRemove cache.slabsPartial slab
        .ok (kmm.setCache ref { cache with
          slabsPartial := slabsPartial, slabsFull := slistInsert cache.slabsFull slab }, some slab)
      else .ok (kmm, some slab)
  | [], slab :: _ => do
      let slabsEmpty ← slistRemove cache.slabsEmpty slab
      .ok (kmm.setCache ref { cache with
        slabsEmpty := slabsEmpty, slabsPartial := slistInsert cache.slabsPartial slab }, some slab)
  | [], [] => .ok (kmm, none)

/-- The next colour of a cache. -/
def KmmCache.nextColour (cache : KmmCache) : KmmCache :=
  let colour := wrap (cache.colourNext + cache.colourOff)
  { cache with colourNext := if colour ≥ cache.colourMax then 0 else colour }

/-- The list `get_new_slab` puts a slab on. -/
def KmmCache.addNewSlab (cache : KmmCache) (slab : Nat) : KmmCache :=
  if cache.slabCapacity = 1 then
    { cache with slabsFull := slistInsert cache.slabsFull slab }
  else { cache with slabsPartial := slistInsert cache.slabsPartial slab }

def getNewSlab (calls : KmmCalls) (kmm : Kmm) (ref : KmmCacheRef) :
    Outcome (Kmm × Option Nat) := do
  let colour := (kmm.cache ref).colourNext
  let (kmm, slab) ← if (kmm.cache ref).large then slabCreateLarge calls kmm ref colour
    else slabCreateSmall kmm ref colour
  let cache := (kmm.cache ref).nextColour
  match slab with
  | none => .ok (kmm.setCache ref cache, none)
  | some slab => .ok (kmm.setCache ref (cache.addNewSlab slab), some slab)

/-- The slab an object is taken from. -/
def chooseSlab (calls : KmmCalls) (kmm : Kmm) (ref : KmmCacheRef) :
    Outcome (Kmm × Option Nat) := do
  let (kmm, slab) ← findExistingSlab kmm ref
  match slab with
  | some slab => .ok (kmm, some slab)
  | none => getNewSlab calls kmm ref

/-- `kmm_cache_alloc`. -/
def cacheAlloc (calls : KmmCalls) (kmm : Kmm) (ref : KmmCacheRef) :
    Outcome (Kmm × Option Nat) := do
  let (kmm, slab) ← chooseSlab calls kmm ref
  match slab with
  | none => .ok (kmm, none)
  | some slab => do
      let (kmm, obj) ← objectAlloc calls kmm slab ref
      kassert (obj ≠ 0)
      .ok (kmm, some obj)

/-! ## Release -/

/-- The slab leaves the list it will not belong to any more. -/
def leaveList (cache : KmmCache) (slab objectsInuse : Nat) : Outcome KmmCache :=
  if objectsInuse = cache.slabCapacity then do
    let slabsFull ← slistRemove cache.slabsFull slab
    .ok { cache with slabsFull := slabsFull }
  else if objectsInuse = 1 then do
    kassert (cache.slabCapacity > 1)
    let slabsPartial ← slistRemove cache.slabsPartial slab
    .ok { cache with slabsPartial := slabsPartial }
  else .ok cache

/-- The slab enters the list for one object less. -/
def enterList (cache : KmmCache) (slab objectsInuse : Nat) : KmmCache :=
  if objectsInuse = 1 then { cache with slabsEmpty := slistInsert cache.slabsEmpty slab }
  else if objectsInuse = cache.slabCapacity then
    { cache with slabsPartial := slistInsert cache.slabsPartial slab }
  else cache

/-- `kmm_cache_free`. -/
def cacheFree (calls : KmmCalls) (kmm : Kmm) (ref : KmmCacheRef) (mem : Nat) : Outcome Kmm := do
  kassert (mem ≠ 0)
  let slab ← slabGetByAddr kmm mem
  kassert (slab.isSome = true)
  let slab ← deref slab
  let objectsInuse := (kmm.slab slab).objectsInuse
  let cache ← leaveList (kmm.cache ref) slab objectsInuse
  let kmm := kmm.setCache ref (enterList cache slab objectsInuse)
  objectFree calls kmm mem slab ref

/-! ## Trimming -/

/-- A round of the loop of `free_large_buffers`. -/
def freeLargeBuffer (calls : KmmCalls) (ref : KmmCacheRef) (kmm : Kmm) (ctl : Bufctl) :
    Outcome Kmm :=
  let calledDtor := destructorCalls ref (kmm.cache ref).toKmmCacheLayout ctl.memory
  calls.free { kmm with objectCalls := calledDtor ++ kmm.objectCalls } .largeBufctls ctl.address

/-- The destructor calls of `slab_destroy` on a small slab. -/
def destructSmall (ref : KmmCacheRef) (kmm : Kmm) (ctl : Bufctl) : Kmm :=
  let cache := (kmm.cache ref).toKmmCacheLayout
  let mem := bufctlSmallGetMem ctl.address cache
  { kmm with objectCalls := destructorCalls ref cache mem ++ kmm.objectCalls }

/-- The buffers of a slab are given up, and its descriptor if it is an object. -/
def freeBuffers (calls : KmmCalls) (kmm : Kmm) (ref : KmmCacheRef) (slab : Nat) : Outcome Kmm :=
  let buffers := (kmm.slab slab).freeBuffers
  if (kmm.cache ref).large then do
    let kmm ← buffers.foldlM (freeLargeBuffer calls ref) kmm
    calls.free kmm .slabs slab
  else .ok (buffers.foldl (destructSmall ref) kmm)

/-- A slab leaves the list its count says it is on. -/
def dropSlab (cache : KmmCache) (slab objectsInuse : Nat) : Outcome KmmCache :=
  if objectsInuse = 0 then do
    let slabsEmpty ← slistRemove cache.slabsEmpty slab
    .ok { cache with slabsEmpty := slabsEmpty }
  else if objectsInuse = cache.slabCapacity then do
    let slabsFull ← slistRemove cache.slabsFull slab
    .ok { cache with slabsFull := slabsFull }
  else do
    let slabsPartial ← slistRemove cache.slabsPartial slab
    .ok { cache with slabsPartial := slabsPartial }

/-- A descriptor that is an object is read again after it was freed. -/
def slabDestroy (calls : KmmCalls) (ref : KmmCacheRef) (kmm : Kmm) (slab : Nat) : Outcome Kmm := do
  let kmm ← freeBuffers calls kmm ref slab
  let cache ← dropSlab (kmm.cache ref) slab (kmm.slab slab).objectsInuse
  pageFree (kmm.setCache ref cache) (kmm.slab slab).page

/-- `next` is read before a slab is destroyed: the slabs are those of the list
as it was at the call. -/
def freeSlabsList (calls : KmmCalls) (kmm : Kmm) (list : List Nat) (ref : KmmCacheRef) :
    Outcome Kmm :=
  list.foldlM (slabDestroy calls ref) kmm

/-! ## The interface -/

/-- The two functions with their calls on internal caches. -/
def KmmCalls.nested (calls : KmmCalls) : KmmCalls := ⟨cacheAlloc calls, cacheFree calls⟩

/-- The functions call each other as deep as `depth`. -/
def kmmCalls : (depth : Nat) → KmmCalls
  | 0 => ⟨fun _ _ => .error .unfinished, fun _ _ _ => .error .unfinished⟩
  | depth + 1 => (kmmCalls depth).nested

/-- A call on a large cache contains calls on the internal caches, which are
small and contain no more. -/
def kmmDepth : Nat := 2

def kmmCacheAlloc (kmm : Kmm) (ref : KmmCacheRef) : Outcome (Kmm × Option Nat) :=
  (kmmCalls kmmDepth).alloc kmm ref

def kmmCacheFree (kmm : Kmm) (ref : KmmCacheRef) (mem : Nat) : Outcome Kmm :=
  (kmmCalls kmmDepth).free kmm ref mem

def kmmCacheTrim (kmm : Kmm) (ref : KmmCacheRef) : Outcome Kmm :=
  freeSlabsList (kmmCalls kmmDepth) kmm (kmm.cache ref).slabsEmpty ref

def kmmCacheTrimAll (kmm : Kmm) : Outcome Kmm :=
  kmm.allocatedCaches.foldlM kmmCacheTrim kmm

def cacheGetAvailSpace (cache : KmmCacheLayout) : Nat :=
  platformPageSize - sizeofPage - if cache.large then 0 else sizeofKmmSlab

/-- What a caller of `kmm_cache_init` asks for; `large` is `KMM_CACHE_LARGE`. -/
structure KmmCacheParams where
  size : Nat
  align : Nat
  large : Bool := false
  ctor : Bool := false
  dtor : Bool := false
  deriving DecidableEq, Repr

/-- The layout of a cache, up to `slab_capacity`. -/
def kmmCacheLayout (params : KmmCacheParams) : KmmCacheLayout :=
  let large := params.size ≥ platformPageSize / 8
  let objSpace := if large then params.size else wrap (params.size + sizeofBufctlSmall)
  let alignment := if large then params.align else max sizeofBufctlSmall params.align
  { size := params.size
    alignment := alignment
    slabCapacity := 0
    stride := if alignment ≠ 0 then alignRoundup objSpace alignment else objSpace
    large := params.large || large
    ctor := params.ctor
    dtor := params.dtor }

def kmmCacheInit (params : KmmCacheParams) : Outcome KmmCache := do
  let cache := kmmCacheLayout params
  kassert (cache.stride > 0)
  let slabCapacity := cacheGetAvailSpace cache / cache.stride
  kassert (slabCapacity > 0)
  .ok {
    toKmmCacheLayout := { cache with slabCapacity := slabCapacity }
    colourMax := cacheGetAvailSpace cache - slabCapacity * cache.stride
    colourOff := cache.alignment
    colourNext := 0
    slabsEmpty := []
    slabsPartial := []
    slabsFull := [] }

/-- `kmm_init`; the arguments are the functions behind `supply` and `released`. -/
def kmmInit (kmm : Kmm) : Outcome Kmm := do
  let caches ← kmmCacheInit { size := sizeofKmmCache, align := 0 }
  let slabs ← kmmCacheInit { size := sizeofKmmSlab, align := 0 }
  let largeBufctls ← kmmCacheInit { size := sizeofBufctlLarge, align := 0 }
  let kmm := ((kmm.setCache .caches caches).setCache .slabs slabs).setCache .largeBufctls largeBufctls
  .ok { kmm with
    allocatedCaches := slistInsert (slistInsert (slistInsert [] .caches) .slabs) .largeBufctls }

def kmmCacheCreate (kmm : Kmm) (params : KmmCacheParams) : Outcome (Kmm × Option Nat) := do
  let (kmm, address) ← kmmCacheAlloc kmm .caches
  match address with
  | none => .ok (kmm, none)
  | some address => do
      let cache ← kmmCacheInit params
      let kmm := kmm.setCache (.created address) cache
      .ok ({ kmm with
        allocatedCaches := slistInsert kmm.allocatedCaches (.created address) }, some address)

/-- `kmm_cache_destroy` of the cache at an address. -/
def kmmCacheDestroy (kmm : Kmm) (address : Nat) : Outcome Kmm := do
  let ref := KmmCacheRef.created address
  let kmm ← freeSlabsList (kmmCalls kmmDepth) kmm (kmm.cache ref).slabsFull ref
  let kmm ← freeSlabsList (kmmCalls kmmDepth) kmm (kmm.cache ref).slabsPartial ref
  let kmm ← freeSlabsList (kmmCalls kmmDepth) kmm (kmm.cache ref).slabsEmpty ref
  let allocatedCaches ← slistRemove kmm.allocatedCaches ref
  kmmCacheFree { kmm with allocatedCaches := allocatedCaches } .caches address

end Yaeos
