import Yaeos.Kmalloc.Basic
import Yaeos.Kmm.Bytes

/-!
# Runs over blocks of any size (`kernel/mm/kmalloc.c`)

A state is that of `kmalloc.c` on the caches of `kmm.c`, with the objects and the
blocks that are handed out.  The callers write into their blocks, and the rest of the
kernel uses other caches and other memory.  The invariant says that the byte in front
of every block is the index of the cache the block comes from.
-/

namespace Yaeos

namespace Kmalloc

/-- The cache is one of `KMALLOC_CACHES`. -/
def Owns (state : Kmalloc) : KmmCacheRef → Prop
  | .created address => some address ∈ state.caches
  | _ => False

instance (state : Kmalloc) : (ref : KmmCacheRef) → Decidable (state.Owns ref)
  | .created address => inferInstanceAs (Decidable (some address ∈ state.caches))
  | .caches => instDecidableFalse
  | .largeBufctls => instDecidableFalse
  | .slabs => instDecidableFalse
  | .storage _ => instDecidableFalse

/-- The object that `kfree` finds for a block. -/
def objectOf (state : Kmalloc) (mem : Nat) : Option KmmEntry :=
  let info := alignRounddown (mem - 1) alignofMaxAlign
  state.caches[state.memory info]?.join.map fun address => (.created address, info)

/-- The state for the next call. -/
def supplied (state : Kmalloc) (supply : List (Option Nat)) : Kmalloc :=
  { state with kmm := state.kmm.supplied supply }

end Kmalloc

structure KmallocSystem where
  state : Kmalloc
  storage : List Nat
  /-- The objects of all caches that are handed out. -/
  live : List KmmEntry
  /-- The blocks that are handed out. -/
  blocks : List Extent

inductive KmallocAction where
  | kmalloc (size : Nat)
  | kfree (mem : Nat)
  /-- A byte of memory is written. -/
  | write (address value : Nat)
  /-- Another part of the kernel uses its caches. -/
  | kmm (action : KmmAction)
  deriving DecidableEq, Repr

/-- A call and what `ALLOC_PAGE_FN` answers in it. -/
structure KmallocCall where
  action : KmallocAction
  supply : List (Option Nat) := []
  deriving DecidableEq, Repr

namespace KmallocSystem

/-- The caches and their objects. -/
def objects (system : KmallocSystem) : KmmSystem :=
  ⟨system.state.kmm, system.storage, system.live⟩

def perform (system : KmallocSystem) : KmallocAction → Outcome KmallocSystem
  | .kmalloc size => do
      let (next, mem) ← kmalloc system.state size
      .ok { system with
        state := next
        live := (mem.bind next.objectOf).toList ++ system.live
        blocks := mem.toList.map (Extent.mk · size) ++ system.blocks }
  | .kfree mem => do
      let next ← kfree system.state mem
      .ok { system with
        state := next
        live := (system.state.objectOf mem).elim system.live system.live.erase
        blocks := system.blocks.filter fun block => block.start ≠ mem }
  | .write address value =>
      .ok { system with
        state := { system.state with
          memory := Function.update system.state.memory address value } }
  | .kmm action => do
      let objects ← system.objects.perform action
      .ok { system with
        state := { system.state with kmm := objects.kmm }
        storage := objects.storage
        live := objects.live }

def supplied (system : KmallocSystem) (supply : List (Option Nat)) : KmallocSystem :=
  { system with state := system.state.supplied supply }

def call (system : KmallocSystem) (call : KmallocCall) : Outcome KmallocSystem :=
  (system.supplied call.supply).perform call.action

/-- Only `kmalloc.c` frees objects to its caches, and the caches stay. -/
def Foreign (system : KmallocSystem) : KmmAction → Prop
  | .free ref _ => ¬system.state.Owns ref
  | .destroy address => ¬system.state.Owns (.created address)
  | _ => True

instance (system : KmallocSystem) : (action : KmmAction) → Decidable (system.Foreign action)
  | .free _ _ => instDecidableNot
  | .destroy _ => instDecidableNot
  | .initStorage _ _ => instDecidableTrue
  | .create _ => instDecidableTrue
  | .alloc _ => instDecidableTrue
  | .trim _ => instDecidableTrue
  | .trimAll => instDecidableTrue

/-- The objects of `KMALLOC_CACHES` are written by those who hold a block of them. -/
def MayWrite (system : KmallocSystem) (address : Nat) : Prop :=
  ∀ object ∈ system.live, system.state.Owns object.1 →
    (system.state.kmm.objectExtent object).Contains address →
    ∃ block ∈ system.blocks, block.Contains address

instance (system : KmallocSystem) (address : Nat) : Decidable (system.MayWrite address) :=
  inferInstanceAs (Decidable (∀ object ∈ system.live, _))

/-- A request for `SIZE_MAX` bytes is left out: its block is shorter. -/
def Permitted (system : KmallocSystem) : KmallocAction → Prop
  | .kmalloc size => size + 1 < addressSpace
  | .kfree mem => mem ∈ system.blocks.map Extent.start
  | .write address _ => system.MayWrite address
  | .kmm action => system.objects.Permitted action ∧ system.Foreign action

instance (system : KmallocSystem) : (action : KmallocAction) → Decidable (system.Permitted action)
  | .kmalloc size => inferInstanceAs (Decidable (size + 1 < addressSpace))
  | .kfree mem => inferInstanceAs (Decidable (mem ∈ system.blocks.map Extent.start))
  | .write address _ => inferInstanceAs (Decidable (system.MayWrite address))
  | .kmm action => inferInstanceAs (Decidable (system.objects.Permitted action ∧ _))

def Legal (system : KmallocSystem) (call : KmallocCall) : Prop :=
  (system.state.kmm.supplied call.supply).SupplyFresh ∧ system.Permitted call.action

instance (system : KmallocSystem) (call : KmallocCall) : Decidable (system.Legal call) :=
  inferInstanceAs (Decidable (_ ∧ _))

/-- The state after `kmalloc_init`, which may be called in any state of the caches. -/
def Initial (system : KmallocSystem) : Prop :=
  ∃ (objects : KmmSystem) (supply : List (Option Nat)) (before : Kmalloc) (lowestPow2Size
    maxPow2Size : Nat), kmmMachine.Reachable objects ∧
    before.kmm = objects.kmm.supplied supply ∧ before.kmm.SupplyFresh ∧
    before.caches = List.replicate kmallocMaxCaches none ∧
    kmallocInit before lowestPow2Size maxPow2Size = .ok system.state ∧
    system.storage = objects.storage ∧ system.live = objects.live ∧ system.blocks = []

end KmallocSystem

/-- The runs over blocks of any size. -/
def kmallocMachine : Machine KmallocSystem KmallocCall :=
  (Machine.ofOutcome KmallocSystem.Initial KmallocSystem.call).guard KmallocSystem.Legal

namespace KmallocSystem

/-- A block and the object it lies in. -/
structure Tagged (system : KmallocSystem) (block : Extent) (cacheIndex address info : Nat) :
    Prop where
  cache : system.state.caches[cacheIndex]? = some (some address)
  isLive : (.created address, info) ∈ system.live
  start : block.start = info + alignofMaxAlign
  room : block.length ≤ 2 ^ (cacheIndex + system.state.lowPow)
  byte : system.state.memory info = cacheIndex

/-- What holds in every state. -/
structure Sound (system : KmallocSystem) : Prop where
  accepted : system.state.Accepted
  consistent : system.objects.Consistent
  caches : ∀ cacheIndex address, system.state.caches[cacheIndex]? = some (some address) →
    cacheIndex < system.state.powers ∧
    .created address ∈ system.state.kmm.known system.storage ∧
    (system.state.kmm.layout (.created address)).IsClass (cacheIndex + system.state.lowPow)
  blocks : ∀ block ∈ system.blocks, ∃ cacheIndex address info,
    system.Tagged block cacheIndex address info

variable {system next : KmallocSystem} {block : Extent} {cacheIndex address info : Nat}
  {supply : List (Option Nat)}

theorem Tagged.supplied (tagged : system.Tagged block cacheIndex address info) :
    (system.supplied supply).Tagged block cacheIndex address info :=
  ⟨tagged.cache, tagged.isLive, tagged.start, tagged.room, tagged.byte⟩

theorem Sound.supplied (sound : system.Sound) : (system.supplied supply).Sound := by
  obtain ⟨users, view, ok⟩ := sound.consistent
  refine ⟨⟨sound.accepted.ordered, sound.accepted.powers, sound.accepted.named⟩,
    ⟨users, view, ok.supplied supply⟩, sound.caches, fun block member => ?_⟩
  obtain ⟨cacheIndex, address, info, tagged⟩ := sound.blocks block member
  exact ⟨cacheIndex, address, info, tagged.supplied⟩

theorem Tagged.owns (tagged : system.Tagged block cacheIndex address info) :
    system.state.Owns (.created address) := List.mem_of_getElem? tagged.cache

/-- An object of one of the caches is aligned and does not reach the last page. -/
theorem Sound.placed (sound : system.Sound)
    (isCache : system.state.caches[cacheIndex]? = some (some address))
    (isLive : (.created address, info) ∈ system.live) :
    alignofMaxAlign ∣ info ∧ info + alignofMaxAlign < addressSpace := by
  obtain ⟨-, -, size, grain⟩ := sound.caches cacheIndex address isCache
  obtain ⟨users, view, ok⟩ := sound.consistent
  obtain ⟨page, valid, layoutSound, placed⟩ := ok.live_placed isLive
  have aligned := placed.aligned
  have inside := placed.inside
  have pageInside := valid.inside
  have enough : (system.state.kmm.layout (.created address)).size ≤
      (system.state.kmm.layout (.created address)).stride := layoutSound.size
  have isGrain : (system.objects.kmm.layout (.created address)).grain = alignofMaxAlign := grain
  dsimp only at aligned inside
  rw [isGrain] at aligned
  refine ⟨aligned, ?_⟩
  have positive := Nat.two_pow_pos (cacheIndex + system.state.lowPow)
  have same : (system.objects.kmm.layout (.created address)).stride =
      (system.state.kmm.layout (.created address)).stride := rfl
  omega

/-- A block lies in its object, behind the first byte. -/
theorem Sound.block_within (sound : system.Sound)
    (tagged : system.Tagged block cacheIndex address info) :
    block.Within (system.state.kmm.objectExtent (.created address, info)) := by
  have size := (sound.caches _ _ tagged.cache).2.2.size
  have start := tagged.start
  have room := tagged.room
  refine ⟨by unfold Kmm.objectExtent; dsimp only; omega, ?_⟩
  unfold Kmm.objectExtent
  dsimp only
  rw [size]
  omega

/-- Nobody may write the byte in front of a block. -/
theorem Sound.info_kept (sound : system.Sound)
    (tagged : system.Tagged block cacheIndex address info) {written : Nat}
    (mayWrite : system.MayWrite written) : written ≠ info := by
  rintro rfl
  have inObject : (system.state.kmm.objectExtent (.created address, written)).Contains written := by
    have size := (sound.caches _ _ tagged.cache).2.2.size
    refine ⟨Nat.le_refl _, ?_⟩
    unfold Kmm.objectExtent
    dsimp only
    rw [size]
    exact Nat.lt_add_of_pos_right (Nat.add_pos_left (by decide) _)
  obtain ⟨other, member, contains⟩ := mayWrite _ tagged.isLive tagged.owns inObject
  obtain ⟨otherIndex, otherAddress, otherInfo, otherTagged⟩ := sound.blocks other member
  obtain ⟨users, view, ok⟩ := sound.consistent
  by_cases same : (KmmCacheRef.created otherAddress, otherInfo) = (.created address, written)
  · have sameInfo : otherInfo = written := congrArg Prod.snd same
    have start := otherTagged.start
    have from_ := contains.1
    unfold alignofMaxAlign at start
    omega
  · have apart := ok.accounted.laidOut.held_apart (ok.live_isHeld otherTagged.isLive)
      (ok.live_isHeld tagged.isLive) same
    exact apart.not_contains (contains.within (sound.block_within otherTagged)) inObject

end KmallocSystem

end Yaeos
