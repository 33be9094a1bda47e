import Yaeos.Kmm.Basic

/-!
# Caches inside the kernel (`kernel/mm/kmm.c`)

`ALLOC_PAGE_FN` is `kheap_alloc_page`, which may itself allocate from caches before
it returns.  A host is a state that the caches are a part of, with such a function.
The functions here are those of `kmm.c` on a host; what asks for no page is taken
over from there.  On a host that answers from a list they are the functions on the
caches alone.
-/

namespace Yaeos

universe u

/-- A state around the caches, with the function behind `ALLOC_PAGE_FN`. -/
structure KmmHost (State : Type) where
  kmm : State → Kmm
  setKmm : State → Kmm → State
  allocPageFn : State → Outcome (State × Option Nat)
  kmm_setKmm : ∀ state next, kmm (setKmm state next) = next
  setKmm_setKmm : ∀ state first next, setKmm (setKmm state first) next = setKmm state next
  setKmm_kmm : ∀ state, setKmm state (kmm state) = state

attribute [simp] KmmHost.kmm_setKmm KmmHost.setKmm_setKmm KmmHost.setKmm_kmm

/-- The calls on the internal caches. -/
structure HostCalls (State : Type) where
  alloc : State → KmmCacheRef → Outcome (State × Option Nat)
  free : State → KmmCacheRef → Nat → Outcome State

namespace KmmHost

variable {State : Type} (host : KmmHost State)

/-- What a function on the caches makes of the state. -/
def lift {Result : Type u} (state : State) (outcome : Outcome (Kmm × Result)) :
    Outcome (State × Result) :=
  outcome.map fun answer => (host.setKmm state answer.1, answer.2)

def pageAlloc (state : State) : Outcome (State × Option Nat) := do
  let (state, page) ← host.allocPageFn state
  kassert (checkAlign (page.getD 0) platformPageSize)
  let kmm := host.kmm state
  .ok (host.setKmm state { kmm with obtained := page.toList ++ kmm.obtained }, page)

def slabCreateSmall (state : State) (ref : KmmCacheRef) (colour : Nat) :
    Outcome (State × Option Nat) := do
  let (state, page) ← host.pageAlloc state
  match page with
  | none => .ok (state, none)
  | some page => do
      let (state, slab) ← host.lift state (slabInitSmall (host.kmm state) ref page colour)
      .ok (state, some slab)

/-- A round of the loop of `slab_create_large`. -/
def addBufferLarge (calls : HostCalls State) (ref : KmmCacheRef) (slab start : Nat)
    (state : State) (i : Nat) : Outcome State := do
  let (state, ctl) ← calls.alloc state .largeBufctls
  kassert (ctl.isSome = true)
  let ctl ← deref ctl
  let kmm := host.kmm state
  let cache := (kmm.cache ref).toKmmCacheLayout
  let obj := wrap (start + i * cache.stride)
  let descriptor := kmm.slab slab
  let kmm := kmm.setSlab slab
    { descriptor with freeBuffers := slistInsert descriptor.freeBuffers ⟨ctl, obj⟩ }
  .ok (host.setKmm state
    { kmm with objectCalls := constructorCalls ref cache obj ++ kmm.objectCalls })

def slabInitLarge (calls : HostCalls State) (state : State) (ref : KmmCacheRef)
    (slab page colour : Nat) : Outcome State := do
  let kmm := host.kmm state
  let cache := (kmm.cache ref).toKmmCacheLayout
  let objAddr := alignRoundup (wrap (page + sizeofPage + colour)) cache.alignment
  let kmm := (kmm.setOwner page slab).setSlab slab ⟨[], page, 0⟩
  (List.range cache.slabCapacity).foldlM (host.addBufferLarge calls ref slab objAddr)
    (host.setKmm state kmm)

def slabCreateLarge (calls : HostCalls State) (state : State) (ref : KmmCacheRef)
    (colour : Nat) : Outcome (State × Option Nat) := do
  let (state, slab) ← calls.alloc state .slabs
  match slab with
  | none => .ok (state, none)
  | some slab => do
      let (state, page) ← host.pageAlloc state
      match page with
      | none => do
          let state ← calls.free state .slabs slab
          .ok (state, none)
      | some page => do
          let state ← host.slabInitLarge calls state ref slab page colour
          .ok (state, some slab)

def objectFreeCtl (calls : HostCalls State) (state : State) (ref : KmmCacheRef) (mem : Nat) :
    Outcome (State × Bufctl) :=
  if ((host.kmm state).cache ref).large then do
    let (state, ctl) ← calls.alloc state .largeBufctls
    let ctl ← deref ctl
    .ok (state, ⟨ctl, mem⟩)
  else do
    let ctl ← getBufctlSmall mem ((host.kmm state).cache ref).toKmmCacheLayout
    .ok (state, ⟨ctl, 0⟩)

def objectFree (calls : HostCalls State) (state : State) (mem slab : Nat) (ref : KmmCacheRef) :
    Outcome State := do
  kassert (mem ≠ 0)
  let kmm := host.kmm state
  let descriptor := kmm.slab slab
  let kmm := kmm.setSlab slab
    { descriptor with objectsInuse := wrapSub descriptor.objectsInuse 1 }
  let (state, ctl) ← host.objectFreeCtl calls (host.setKmm state kmm) ref mem
  kassert (ctl.address ≠ 0)
  let kmm := host.kmm state
  let descriptor := kmm.slab slab
  .ok (host.setKmm state (kmm.setSlab slab
    { descriptor with freeBuffers := slistInsert descriptor.freeBuffers ctl }))

def objectAlloc (calls : HostCalls State) (state : State) (slab : Nat) (ref : KmmCacheRef) :
    Outcome (State × Nat) := do
  let kmm := host.kmm state
  let descriptor := kmm.slab slab
  kassert (slistIsEmpty descriptor.freeBuffers = false)
  let freeCtl ← deref descriptor.freeBuffers.head?
  let freeBuffers ← slistRemove descriptor.freeBuffers freeCtl
  let kmm := kmm.setSlab slab { descriptor with freeBuffers := freeBuffers }
  let cache := (kmm.cache ref).toKmmCacheLayout
  let mem := bufctlMem freeCtl cache
  let state := host.setKmm state kmm
  let state ← if cache.large then calls.free state .largeBufctls freeCtl.address else .ok state
  let kmm := host.kmm state
  let descriptor := kmm.slab slab
  .ok (host.setKmm state (kmm.setSlab slab
    { descriptor with objectsInuse := wrap (descriptor.objectsInuse + 1) }), mem)

def getNewSlab (calls : HostCalls State) (state : State) (ref : KmmCacheRef) :
    Outcome (State × Option Nat) := do
  let colour := ((host.kmm state).cache ref).colourNext
  let (state, slab) ← if ((host.kmm state).cache ref).large
    then host.slabCreateLarge calls state ref colour else host.slabCreateSmall state ref colour
  let kmm := host.kmm state
  let cache := (kmm.cache ref).nextColour
  match slab with
  | none => .ok (host.setKmm state (kmm.setCache ref cache), none)
  | some slab => .ok (host.setKmm state (kmm.setCache ref (cache.addNewSlab slab)), some slab)

def chooseSlab (calls : HostCalls State) (state : State) (ref : KmmCacheRef) :
    Outcome (State × Option Nat) := do
  let (state, slab) ← host.lift state (findExistingSlab (host.kmm state) ref)
  match slab with
  | some slab => .ok (state, some slab)
  | none => host.getNewSlab calls state ref

def cacheAlloc (calls : HostCalls State) (state : State) (ref : KmmCacheRef) :
    Outcome (State × Option Nat) := do
  let (state, slab) ← host.chooseSlab calls state ref
  match slab with
  | none => .ok (state, none)
  | some slab => do
      let (state, obj) ← host.objectAlloc calls state slab ref
      kassert (obj ≠ 0)
      .ok (state, some obj)

def cacheFree (calls : HostCalls State) (state : State) (ref : KmmCacheRef) (mem : Nat) :
    Outcome State := do
  kassert (mem ≠ 0)
  let kmm := host.kmm state
  let slab ← slabGetByAddr kmm mem
  kassert (slab.isSome = true)
  let slab ← deref slab
  let objectsInuse := (kmm.slab slab).objectsInuse
  let cache ← leaveList (kmm.cache ref) slab objectsInuse
  let kmm := kmm.setCache ref (enterList cache slab objectsInuse)
  host.objectFree calls (host.setKmm state kmm) mem slab ref

/-- The functions call each other as deep as `depth`. -/
def calls : (depth : Nat) → HostCalls State
  | 0 => ⟨fun _ _ => .error .unfinished, fun _ _ _ => .error .unfinished⟩
  | depth + 1 => ⟨host.cacheAlloc (calls depth), host.cacheFree (calls depth)⟩

def kmmCacheAlloc (state : State) (ref : KmmCacheRef) : Outcome (State × Option Nat) :=
  (host.calls kmmDepth).alloc state ref

def kmmCacheFree (state : State) (ref : KmmCacheRef) (mem : Nat) : Outcome State :=
  (host.calls kmmDepth).free state ref mem

/-! ## A host that answers from a list -/

/-- The next answer of `ALLOC_PAGE_FN` is that of the caches. -/
def Supplied : Prop := ∀ state, host.allocPageFn state =
  .ok (host.setKmm state { host.kmm state with supply := (host.kmm state).supply.tail },
    (host.kmm state).supply.head?.join)

/-- What a function on the caches without a result makes of the state. -/
def liftState (state : State) (outcome : Outcome Kmm) : Outcome State :=
  outcome.map (host.setKmm state)

variable {host} {state : State}

@[simp]
theorem lift_ok {Result : Type u} (answer : Kmm × Result) :
    host.lift state (.ok answer) = .ok (host.setKmm state answer.1, answer.2) := rfl

@[simp]
theorem lift_error {Result : Type u} (fault : Fault) :
    host.lift state (.error fault : Outcome (Kmm × Result)) = .error fault := rfl

@[simp]
theorem liftState_ok (kmm : Kmm) : host.liftState state (.ok kmm) = .ok (host.setKmm state kmm) :=
  rfl

@[simp]
theorem liftState_error (fault : Fault) :
    host.liftState state (.error fault) = .error fault := rfl

@[simp]
theorem lift_setKmm {Result : Type u} (kmm : Kmm) (outcome : Outcome (Kmm × Result)) :
    host.lift (host.setKmm state kmm) outcome = host.lift state outcome := by
  cases outcome <;> simp

@[simp]
theorem liftState_setKmm (kmm : Kmm) (outcome : Outcome Kmm) :
    host.liftState (host.setKmm state kmm) outcome = host.liftState state outcome := by
  cases outcome <;> simp

theorem lift_bind {Middle Result : Type} (first : Outcome Middle)
    (rest : Middle → Outcome (Kmm × Result)) :
    host.lift state (first >>= rest) = first >>= fun value => host.lift state (rest value) := by
  cases first <;> rfl

theorem liftState_bind {Middle : Type} (first : Outcome Middle) (rest : Middle → Outcome Kmm) :
    host.liftState state (first >>= rest) =
      first >>= fun value => host.liftState state (rest value) := by
  cases first <;> rfl

/-- What goes on after a function on the caches. -/
theorem bind_lift {Middle Result : Type} (first : Outcome (Kmm × Middle))
    (rest : State × Middle → Outcome Result) :
    (host.lift state first >>= rest) =
      first >>= fun value => rest (host.setKmm state value.1, value.2) := by
  cases first <;> rfl

theorem bind_liftState {Result : Type} (first : Outcome Kmm) (rest : State → Outcome Result) :
    (host.liftState state first >>= rest) = first >>= fun kmm => rest (host.setKmm state kmm) := by
  cases first <;> rfl

/-- The calls on the internal caches are those on the caches alone. -/
structure Lifts (host : KmmHost State) (calls : HostCalls State) (kmmCalls : KmmCalls) : Prop where
  alloc : ∀ state ref, calls.alloc state ref = host.lift state (kmmCalls.alloc (host.kmm state) ref)
  free : ∀ state ref mem,
    calls.free state ref mem = host.liftState state (kmmCalls.free (host.kmm state) ref mem)

variable {calls : HostCalls State} {kmmCalls : KmmCalls} {ref : KmmCacheRef} {slab : Nat}

theorem Supplied.pageAlloc (supplied : host.Supplied) (state : State) :
    host.pageAlloc state = host.lift state (Yaeos.pageAlloc (host.kmm state)) := by
  simp only [KmmHost.pageAlloc, Yaeos.pageAlloc, supplied state, Outcome.ok_bind, kmm_setKmm,
    setKmm_setKmm, lift_bind, lift_ok]

theorem Supplied.slabCreateSmall (supplied : host.Supplied) (state : State) (colour : Nat) :
    host.slabCreateSmall state ref colour =
      host.lift state (Yaeos.slabCreateSmall (host.kmm state) ref colour) := by
  simp only [KmmHost.slabCreateSmall, Yaeos.slabCreateSmall, supplied.pageAlloc, bind_lift,
    lift_bind]
  refine bind_congr fun answer => ?_
  obtain ⟨kmm, page⟩ := answer
  cases page with
  | none => rfl
  | some page => simp only [kmm_setKmm, setKmm_setKmm, lift_bind, lift_ok]

theorem Lifts.addBufferLarge (lifts : host.Lifts calls kmmCalls) (start : Nat) (state : State)
    (i : Nat) : host.addBufferLarge calls ref slab start state i =
      host.liftState state (Yaeos.addBufferLarge kmmCalls ref slab start (host.kmm state) i) := by
  simp only [KmmHost.addBufferLarge, Yaeos.addBufferLarge, lifts.alloc, bind_lift, liftState_bind,
    kmm_setKmm, setKmm_setKmm, liftState_ok]

/-- A loop whose rounds are those of a loop on the caches. -/
theorem foldlM_liftState {Item : Type} {round : State → Item → Outcome State}
    {kmmRound : Kmm → Item → Outcome Kmm}
    (same : ∀ state item, round state item = host.liftState state (kmmRound (host.kmm state) item))
    (items : List Item) (state : State) :
    items.foldlM round state = host.liftState state (items.foldlM kmmRound (host.kmm state)) := by
  induction items generalizing state with
  | nil => exact congrArg Except.ok (host.setKmm_kmm state).symm
  | cons item rest inductionHypothesis =>
      simp only [List.foldlM_cons, same, bind_liftState, liftState_bind, inductionHypothesis,
        kmm_setKmm, liftState_setKmm]

theorem Lifts.slabInitLarge (lifts : host.Lifts calls kmmCalls) (state : State)
    (page colour : Nat) : host.slabInitLarge calls state ref slab page colour =
      host.liftState state
        (Yaeos.slabInitLarge kmmCalls (host.kmm state) ref slab page colour) := by
  simp only [KmmHost.slabInitLarge, Yaeos.slabInitLarge,
    foldlM_liftState (lifts.addBufferLarge _), kmm_setKmm, liftState_setKmm]

theorem Lifts.slabCreateLarge (lifts : host.Lifts calls kmmCalls) (supplied : host.Supplied)
    (state : State) (colour : Nat) : host.slabCreateLarge calls state ref colour =
      host.lift state (Yaeos.slabCreateLarge kmmCalls (host.kmm state) ref colour) := by
  simp only [KmmHost.slabCreateLarge, Yaeos.slabCreateLarge, lifts.alloc, bind_lift, lift_bind]
  refine bind_congr fun answer => ?_
  obtain ⟨kmm, descriptor⟩ := answer
  cases descriptor with
  | none => rfl
  | some descriptor =>
      simp only [supplied.pageAlloc, kmm_setKmm, lift_setKmm, bind_lift, lift_bind]
      refine bind_congr fun answer => ?_
      obtain ⟨kmm, page⟩ := answer
      cases page with
      | none =>
          simp only [lifts.free, kmm_setKmm, liftState_setKmm, bind_liftState, lift_bind, lift_ok]
      | some page =>
          simp only [lifts.slabInitLarge, kmm_setKmm, liftState_setKmm, bind_liftState, lift_bind,
            lift_ok]

theorem Lifts.objectAlloc (lifts : host.Lifts calls kmmCalls) (state : State) :
    host.objectAlloc calls state slab ref =
      host.lift state (Yaeos.objectAlloc kmmCalls (host.kmm state) slab ref) := by
  simp only [KmmHost.objectAlloc, Yaeos.objectAlloc, lift_bind]
  refine bind_congr fun _ => bind_congr fun freeCtl => bind_congr fun freeBuffers => ?_
  split
  · simp only [lifts.free, kmm_setKmm, setKmm_setKmm, liftState_setKmm, bind_liftState, lift_bind,
      lift_ok]
  · simp only [Outcome.ok_bind, kmm_setKmm, setKmm_setKmm, lift_ok]

theorem Lifts.getNewSlab (lifts : host.Lifts calls kmmCalls) (supplied : host.Supplied)
    (state : State) : host.getNewSlab calls state ref =
      host.lift state (Yaeos.getNewSlab kmmCalls (host.kmm state) ref) := by
  have put (answer : Kmm × Option Nat) : (match answer.2 with
      | none => .ok (host.setKmm (host.setKmm state answer.1)
          (answer.1.setCache ref (answer.1.cache ref).nextColour), none)
      | some slab => .ok (host.setKmm (host.setKmm state answer.1)
          (answer.1.setCache ref ((answer.1.cache ref).nextColour.addNewSlab slab)), some slab)) =
      host.lift state (match answer.2 with
        | none => .ok (answer.1.setCache ref (answer.1.cache ref).nextColour, none)
        | some slab =>
            .ok (answer.1.setCache ref ((answer.1.cache ref).nextColour.addNewSlab slab),
              some slab)) := by
    obtain ⟨kmm, _ | slab⟩ := answer <;> simp
  unfold KmmHost.getNewSlab Yaeos.getNewSlab
  split
  · simp only [lifts.slabCreateLarge supplied, bind_lift, lift_bind, kmm_setKmm]
    exact bind_congr put
  · simp only [supplied.slabCreateSmall, bind_lift, lift_bind, kmm_setKmm]
    exact bind_congr put

theorem Lifts.chooseSlab (lifts : host.Lifts calls kmmCalls) (supplied : host.Supplied)
    (state : State) : host.chooseSlab calls state ref =
      host.lift state (Yaeos.chooseSlab kmmCalls (host.kmm state) ref) := by
  simp only [KmmHost.chooseSlab, Yaeos.chooseSlab, bind_lift, lift_bind]
  refine bind_congr fun answer => ?_
  obtain ⟨kmm, slab⟩ := answer
  cases slab with
  | none => simp only [lifts.getNewSlab supplied, kmm_setKmm, lift_setKmm]
  | some slab => rfl

theorem Lifts.cacheAlloc (lifts : host.Lifts calls kmmCalls) (supplied : host.Supplied)
    (state : State) (ref : KmmCacheRef) : host.cacheAlloc calls state ref =
      host.lift state (Yaeos.cacheAlloc kmmCalls (host.kmm state) ref) := by
  simp only [KmmHost.cacheAlloc, Yaeos.cacheAlloc, lifts.chooseSlab supplied, bind_lift, lift_bind]
  refine bind_congr fun answer => ?_
  obtain ⟨kmm, slab⟩ := answer
  cases slab with
  | none => rfl
  | some slab =>
      simp only [lifts.objectAlloc, kmm_setKmm, lift_setKmm, bind_lift, lift_bind, lift_ok]

theorem Lifts.objectFreeCtl (lifts : host.Lifts calls kmmCalls) (state : State)
    (ref : KmmCacheRef) (mem : Nat) : host.objectFreeCtl calls state ref mem =
      host.lift state (Yaeos.objectFreeCtl kmmCalls (host.kmm state) ref mem) := by
  unfold KmmHost.objectFreeCtl Yaeos.objectFreeCtl
  split
  · simp only [lifts.alloc, bind_lift, lift_bind, lift_ok]
  · simp only [lift_bind, lift_ok, setKmm_kmm]

theorem Lifts.objectFree (lifts : host.Lifts calls kmmCalls) (state : State) (mem : Nat) :
    host.objectFree calls state mem slab ref =
      host.liftState state (Yaeos.objectFree kmmCalls (host.kmm state) mem slab ref) := by
  simp only [KmmHost.objectFree, Yaeos.objectFree, lifts.objectFreeCtl, kmm_setKmm, setKmm_setKmm,
    lift_setKmm, bind_lift, liftState_bind, liftState_ok]

theorem Lifts.cacheFree (lifts : host.Lifts calls kmmCalls) (state : State) (ref : KmmCacheRef)
    (mem : Nat) : host.cacheFree calls state ref mem =
      host.liftState state (Yaeos.cacheFree kmmCalls (host.kmm state) ref mem) := by
  simp only [KmmHost.cacheFree, Yaeos.cacheFree, lifts.objectFree, kmm_setKmm, liftState_setKmm,
    liftState_bind]

/-- On a host that answers from a list the functions are those on the caches. -/
theorem Supplied.lifts (supplied : host.Supplied) (depth : Nat) :
    host.Lifts (host.calls depth) (Yaeos.kmmCalls depth) := by
  induction depth with
  | zero => exact ⟨fun _ _ => rfl, fun _ _ _ => rfl⟩
  | succ depth lifts => exact ⟨lifts.cacheAlloc supplied, lifts.cacheFree⟩

theorem Supplied.kmmCacheAlloc (supplied : host.Supplied) (state : State) (ref : KmmCacheRef) :
    host.kmmCacheAlloc state ref = host.lift state (Yaeos.kmmCacheAlloc (host.kmm state) ref) :=
  (supplied.lifts kmmDepth).alloc state ref

theorem Supplied.kmmCacheFree (supplied : host.Supplied) (state : State) (ref : KmmCacheRef)
    (mem : Nat) : host.kmmCacheFree state ref mem =
      host.liftState state (Yaeos.kmmCacheFree (host.kmm state) ref mem) :=
  (supplied.lifts kmmDepth).free state ref mem

end KmmHost

end Yaeos
