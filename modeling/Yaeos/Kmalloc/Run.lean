import Yaeos.Kmalloc.System

/-!
# Blocks of any size (`kernel/mm/kmalloc.c`)

A block is handed out from the smallest class that has room for it, and the byte in
front of it is kept until `kfree` reads it.
-/

namespace Yaeos

namespace KmallocSystem

variable {system next : KmallocSystem} {block : Extent} {cacheIndex address info size : Nat}
  {supply : List (Option Nat)} {kmm : Kmm}

/-- The caches of `kmalloc.c` are as before. -/
structure Carries (system next : KmallocSystem) : Prop where
  caches : next.state.caches = system.state.caches
  lowPow : next.state.lowPow = system.state.lowPow
  maxPow : next.state.maxPow = system.state.maxPow
  consistent : next.objects.Consistent
  kept : ∀ address, system.state.Owns (.created address) →
    .created address ∈ system.state.kmm.known system.storage →
    .created address ∈ next.state.kmm.known next.storage ∧
      next.state.kmm.layout (.created address) = system.state.kmm.layout (.created address)

theorem Tagged.carry (tagged : system.Tagged block cacheIndex address info)
    (carries : system.Carries next) (byte : next.state.memory info = system.state.memory info)
    (isLive : (.created address, info) ∈ next.live) :
    next.Tagged block cacheIndex address info := by
  obtain ⟨cache, -, start, room, isByte⟩ := tagged
  exact ⟨carries.caches ▸ cache, isLive, start, carries.lowPow ▸ room, byte.trans isByte⟩

theorem Sound.carry (sound : system.Sound) (carries : system.Carries next)
    (blocks : ∀ block ∈ next.blocks, ∃ cacheIndex address info,
      next.Tagged block cacheIndex address info) : next.Sound := by
  obtain ⟨caches, lowPow, maxPow, consistent, kept⟩ := carries
  have powers : next.state.powers = system.state.powers := by
    unfold Kmalloc.powers
    rw [lowPow, maxPow]
  refine ⟨⟨?_, ?_, ?_⟩, consistent, fun cacheIndex address isCache => ?_, blocks⟩
  · rw [lowPow, maxPow]
    exact sound.accepted.ordered
  · rw [powers]
    exact sound.accepted.powers
  · rw [maxPow]
    exact sound.accepted.named
  · rw [caches] at isCache
    obtain ⟨below, known, isClass⟩ := sound.caches cacheIndex address isCache
    obtain ⟨nextKnown, layout⟩ := kept address (List.mem_of_getElem? isCache) known
    rw [powers, layout, lowPow]
    exact ⟨below, nextKnown, isClass⟩

/-- The caches of `kmalloc.c` are spared by a call of another part of the kernel. -/
theorem Carries.of_objects {objects : KmmSystem} {memory : Nat → Nat} {blocks : List Extent}
    (consistent : objects.Consistent)
    (keeps : ∀ ref, system.state.Owns ref → system.objects.Keeps objects ref) :
    system.Carries ⟨{ system.state with kmm := objects.kmm, memory := memory }, objects.storage,
      objects.live, blocks⟩ :=
  ⟨rfl, rfl, rfl, consistent, fun _ owns isKnown => (keeps _ owns).known isKnown⟩

/-- The system with a new block. -/
def handed (system : KmallocSystem) (kmm : Kmm) (cacheIndex address info size : Nat) :
    KmallocSystem :=
  ⟨{ system.state with kmm := kmm, memory := Function.update system.state.memory info cacheIndex },
    system.storage, (.created address, info) :: system.live,
    ⟨info + alignofMaxAlign, size⟩ :: system.blocks⟩

/-- An object that a cache of `kmalloc.c` supplies was not live. -/
theorem Sound.allocated (sound : system.Sound) (fresh : system.state.kmm.SupplyFresh)
    (isCache : system.state.caches[cacheIndex]? = some (some address))
    (allocated : kmmCacheAlloc system.state.kmm (.created address) = .ok (kmm, some info)) :
    info ∉ system.live.map Prod.snd ∧
      system.Carries (system.handed kmm cacheIndex address info size) := by
  have returned : system.objects.perform (.alloc (.created address)) =
      .ok ⟨kmm, system.storage, (.created address, info) :: system.live⟩ := by
    have isAlloc : kmmCacheAlloc system.objects.kmm (.created address) = .ok (kmm, some info) :=
      allocated
    simp only [KmmSystem.perform, isAlloc, Outcome.ok_bind]
    rfl
  have permitted : system.objects.Permitted (.alloc (.created address)) :=
    (sound.caches cacheIndex address isCache).2.1
  obtain ⟨consistent, keeps⟩ := sound.consistent.performs fresh permitted returned
  refine ⟨fun isLive => ?_, Carries.of_objects consistent fun ref _ => keeps ref ?_⟩
  · obtain ⟨users, view, ok⟩ := consistent
    obtain ⟨object, member, same⟩ := List.mem_map.mp isLive
    refine (List.nodup_cons.mp ok.separate.distinct).1 ?_
    exact List.mem_map.mpr ⟨object, List.mem_append_left _ member, same⟩
  · exact fun _ impossible => KmmAction.noConfusion impossible

/-- A class whose cache supplies an object hands out a block in it. -/
theorem Sound.handed (sound : system.Sound) (fresh : system.state.kmm.SupplyFresh)
    (isCache : system.state.caches[cacheIndex]? = some (some address))
    (allocated : kmmCacheAlloc system.state.kmm (.created address) = .ok (kmm, some info))
    (room : size ≤ 2 ^ (cacheIndex + system.state.lowPow)) :
    kmallocObject system.state cacheIndex =
        .ok ((system.handed kmm cacheIndex address info size).state, some (info + alignofMaxAlign)) ∧
      (system.handed kmm cacheIndex address info size).state.objectOf (info + alignofMaxAlign) =
        some (.created address, info) ∧
      (system.handed kmm cacheIndex address info size).Sound ∧
      (system.handed kmm cacheIndex address info size).Tagged ⟨info + alignofMaxAlign, size⟩
        cacheIndex address info ∧
      ∀ block otherIndex otherAddress otherInfo,
        system.Tagged block otherIndex otherAddress otherInfo →
        (system.handed kmm cacheIndex address info size).Tagged block otherIndex otherAddress
          otherInfo := by
  obtain ⟨notLive, carries⟩ := @Sound.allocated system cacheIndex address info size kmm sound fresh
    isCache allocated
  let next := system.handed kmm cacheIndex address info size
  have tagged : next.Tagged ⟨info + alignofMaxAlign, size⟩ cacheIndex address info :=
    ⟨isCache, List.mem_cons_self .., rfl, room, Function.update_self ..⟩
  have others (block : Extent) (otherIndex otherAddress otherInfo : Nat)
      (other : system.Tagged block otherIndex otherAddress otherInfo) :
      next.Tagged block otherIndex otherAddress otherInfo := by
    refine other.carry carries (Function.update_of_ne ?_ ..) (List.mem_cons_of_mem _ other.isLive)
    rintro rfl
    exact notLive (List.mem_map_of_mem other.isLive)
  have nextSound : next.Sound := by
    refine sound.carry carries fun block member => ?_
    rcases List.mem_cons.mp member with rfl | isOld
    · exact ⟨_, _, _, tagged⟩
    · obtain ⟨otherIndex, otherAddress, otherInfo, other⟩ := sound.blocks block isOld
      exact ⟨_, _, _, others _ _ _ _ other⟩
  obtain ⟨aligned, inside⟩ := nextSound.placed isCache (List.mem_cons_self ..)
  refine ⟨kmallocObject_ok isCache allocated aligned inside, ?_, nextSound, tagged, others⟩
  have isByte : next.state.memory info = cacheIndex := Function.update_self ..
  have isCache' : next.state.caches[cacheIndex]? = some (some address) := isCache
  show next.state.objectOf (info + alignofMaxAlign) = _
  unfold Kmalloc.objectOf
  rw [alignRounddown_mem aligned inside]
  dsimp only
  rw [isByte, isCache']
  rfl

/-- The class of a request has room for it and the index. -/
theorem sizeClass_room (lowPow : Nat) (noOverflow : size + 1 < addressSpace) :
    size + 1 ≤ 2 ^ (sizeClass lowPow size - lowPow + lowPow) := by
  obtain ⟨⟨above, room⟩, -⟩ := sizeClass_isLeast lowPow noOverflow
  rw [Nat.sub_add_cancel above]
  exact room

/-- The invariant after a call, and the blocks that were not freed by it. -/
structure Steps (system : KmallocSystem) (action : KmallocAction) (next : KmallocSystem) :
    Prop where
  sound : next.Sound
  stays : ∀ block ∈ system.blocks, action ≠ .kfree block.start → block ∈ next.blocks
  tagged : ∀ block ∈ system.blocks, action ≠ .kfree block.start →
    ∀ cacheIndex address info, system.Tagged block cacheIndex address info →
      next.Tagged block cacheIndex address info

/-- A call that hands out no block. -/
theorem Sound.steps_of_kept (sound : system.Sound) (carries : system.Carries next)
    {action : KmallocAction}
    (blocks : ∀ block, block ∈ next.blocks ↔
      block ∈ system.blocks ∧ action ≠ .kfree block.start)
    (kept : ∀ block ∈ next.blocks, ∀ cacheIndex address info,
      system.Tagged block cacheIndex address info → next.Tagged block cacheIndex address info) :
    system.Steps action next := by
  refine ⟨sound.carry carries fun block member => ?_,
    fun block member stays => (blocks block).mpr ⟨member, stays⟩,
    fun block member stays => kept block ((blocks block).mpr ⟨member, stays⟩)⟩
  obtain ⟨cacheIndex, address, info, tagged⟩ := sound.blocks block ((blocks block).mp member).1
  exact ⟨_, _, _, kept block member _ _ _ tagged⟩

theorem Sound.kmalloc (sound : system.Sound) (fresh : system.state.kmm.SupplyFresh)
    (noOverflow : size + 1 < addressSpace)
    (returned : system.perform (.kmalloc size) = .ok next) :
    system.Steps (.kmalloc size) next := by
  obtain ⟨⟨state, answer⟩, called, isNext⟩ := Outcome.bind_eq_ok.mp returned
  rw [kmalloc_eq sound.accepted] at called
  split at called
  · cases called
    cases isNext
    exact ⟨sound, fun _ member _ => member, fun _ _ _ _ _ _ tagged => tagged⟩
  · obtain ⟨address, kmm, info, isCache, allocated, -⟩ := kmallocObject_returned called
    obtain ⟨isHanded, isObject, nextSound, -, others⟩ := sound.handed fresh isCache allocated
      (Nat.le_of_succ_le (sizeClass_room _ noOverflow))
    cases isHanded.symm.trans called
    dsimp only [Option.bind_some] at isNext
    rw [isObject] at isNext
    cases isNext
    exact ⟨nextSound, fun _ member _ => List.mem_cons_of_mem _ member,
      fun _ _ _ _ _ _ tagged => others _ _ _ _ tagged⟩

theorem Sound.kfree (sound : system.Sound) (fresh : system.state.kmm.SupplyFresh) {mem : Nat}
    (isBlock : mem ∈ system.blocks.map Extent.start)
    (returned : system.perform (.kfree mem) = .ok next) : system.Steps (.kfree mem) next := by
  obtain ⟨block, member, rfl⟩ := List.mem_map.mp isBlock
  obtain ⟨cacheIndex, address, info, tagged⟩ := sound.blocks block member
  obtain ⟨below, known, -⟩ := sound.caches _ _ tagged.cache
  obtain ⟨aligned, inside⟩ := sound.placed tagged.cache tagged.isLive
  have isObject : system.state.objectOf block.start = some (.created address, info) := by
    unfold Kmalloc.objectOf
    rw [tagged.start, alignRounddown_mem aligned inside]
    dsimp only
    rw [tagged.byte, tagged.cache]
    rfl
  obtain ⟨state, freed, isNext⟩ := Outcome.bind_eq_ok.mp returned
  rw [tagged.start, kfree_eq tagged.cache below tagged.byte aligned inside] at freed
  obtain ⟨kmm, freedObject, isState⟩ := Outcome.bind_eq_ok.mp freed
  cases isState
  have isFree : system.objects.perform (.free (.created address) info) =
      .ok ⟨kmm, system.storage, system.live.erase (.created address, info)⟩ := by
    have isFree' : kmmCacheFree system.objects.kmm (.created address) info = .ok kmm := freedObject
    simp only [KmmSystem.perform, isFree', Outcome.ok_bind]
    rfl
  have permitted : system.objects.Permitted (.free (.created address) info) := tagged.isLive
  obtain ⟨consistent, keeps⟩ := sound.consistent.performs fresh permitted isFree
  rw [isObject] at isNext
  have carries := @Carries.of_objects system _ system.state.memory
    (system.blocks.filter fun other => other.start ≠ block.start) consistent
    fun ref _ => keeps ref fun _ impossible => KmmAction.noConfusion impossible
  cases isNext
  have remain (other : Extent) : other ∈ system.blocks.filter
      (fun other => other.start ≠ block.start) ↔
        other ∈ system.blocks ∧ KmallocAction.kfree block.start ≠ .kfree other.start := by
    rw [List.mem_filter, decide_eq_true_iff]
    refine and_congr_right fun _ => not_congr ?_
    rw [KmallocAction.kfree.injEq]
    exact eq_comm
  refine sound.steps_of_kept carries remain fun other isOther _ _ _ otherTagged => ?_
  refine otherTagged.carry carries rfl ((List.mem_erase_of_ne fun same => ?_).mpr
    otherTagged.isLive)
  apply ((remain other).mp isOther).2
  rw [otherTagged.start, tagged.start, (Prod.mk.inj same).2]

theorem Sound.write (sound : system.Sound) {written value : Nat}
    (mayWrite : system.MayWrite written)
    (returned : system.perform (.write written value) = .ok next) :
    system.Steps (.write written value) next := by
  cases returned
  have carries := @Carries.of_objects system system.objects
    (Function.update system.state.memory written value) system.blocks sound.consistent
    fun _ _ => ⟨fun isKnown => ⟨isKnown, rfl⟩, fun _ => .refl⟩
  refine sound.steps_of_kept carries (fun _ => (and_iff_left ?_).symm) fun _ _ _ _ _ tagged => ?_
  · exact fun impossible => KmallocAction.noConfusion impossible
  · exact tagged.carry carries
      (Function.update_of_ne (sound.info_kept tagged mayWrite).symm ..) tagged.isLive

theorem Sound.foreign (sound : system.Sound) (fresh : system.state.kmm.SupplyFresh)
    {action : KmmAction} (permitted : system.objects.Permitted action)
    (foreign : system.Foreign action) (returned : system.perform (.kmm action) = .ok next) :
    system.Steps (.kmm action) next := by
  obtain ⟨objects, performed, isNext⟩ := Outcome.bind_eq_ok.mp returned
  obtain ⟨consistent, keeps⟩ := sound.consistent.performs fresh permitted performed
  have carries := @Carries.of_objects system objects system.state.memory system.blocks consistent
    fun ref owns => keeps ref fun address isDestroy same => by
      rw [isDestroy] at foreign
      exact foreign (same ▸ owns)
  cases isNext
  refine sound.steps_of_kept carries (fun _ => (and_iff_left ?_).symm) fun _ _ _ _ _ tagged => ?_
  · exact fun impossible => KmallocAction.noConfusion impossible
  · refine tagged.carry carries rfl (KmmSystem.live_of_perform performed tagged.isLive ?_)
    rintro rfl
    exact foreign tagged.owns

/-- The invariant is kept by every call, and every block but the one it frees. -/
theorem Sound.step (sound : system.Sound) {call : KmallocCall}
    (stepped : kmallocMachine.step system call next) : system.Steps call.action next := by
  obtain ⟨⟨fresh, permitted⟩, returned⟩ := stepped
  obtain ⟨action, supply⟩ := call
  have supplied : (system.supplied supply).Sound := sound.supplied
  have steps : (system.supplied supply).Steps action next := by
    cases action with
    | kmalloc size => exact supplied.kmalloc fresh permitted returned
    | kfree mem => exact supplied.kfree fresh permitted returned
    | write address value => exact supplied.write permitted returned
    | kmm action => exact supplied.foreign fresh permitted.1 permitted.2 returned
  exact ⟨steps.sound, steps.stays, fun block member stays cacheIndex address info tagged =>
    steps.tagged block member stays cacheIndex address info tagged.supplied⟩

/-! ## `kmalloc_init` -/

/-- The loop of `kmalloc_init` after some rounds. -/
structure Starting (objects : KmmSystem) (lowPow maxPow : Nat) (rounds : Nat) (state : Kmalloc) :
    Prop where
  isLow : state.lowPow = lowPow
  isMax : state.maxPow = maxPow
  named : ∀ i < rounds, i + lowPow < heapNames.length
  fresh : state.kmm.SupplyFresh
  consistent : KmmSystem.Consistent ⟨state.kmm, objects.storage, objects.live⟩
  caches : ∀ cacheIndex address, state.caches[cacheIndex]? = some (some address) →
    cacheIndex < rounds ∧ .created address ∈ state.kmm.known objects.storage ∧
    (state.kmm.layout (.created address)).IsClass (cacheIndex + lowPow)

theorem kmallocParams_valid {pow : Nat} (small : pow < heapNames.length) :
    (kmallocParams pow).Valid := by
  refine ⟨?_, .inr ⟨4, by decide, rfl⟩⟩
  have power : 2 ^ pow < 2 ^ 12 := Nat.pow_lt_pow_right Nat.one_lt_two small
  rw [kmallocParams_size small]
  unfold alignofMaxAlign addressSpace
  omega

theorem Starting.round {objects : KmmSystem} {lowPow maxPow rounds : Nat} {state after : Kmalloc}
    (starting : Starting objects lowPow maxPow rounds state)
    (returned : kmallocInitCache state rounds = .ok after) :
    Starting objects lowPow maxPow (rounds + 1) after := by
  obtain ⟨isLow, isMax, named, fresh, ⟨users, view, ok⟩, caches⟩ := starting
  obtain ⟨_, isName, rest⟩ := Outcome.bind_eq_ok.mp returned
  obtain ⟨⟨kmm, cache⟩, created, rest⟩ := Outcome.bind_eq_ok.mp rest
  obtain ⟨stored, isStored, isAfter⟩ := Outcome.bind_eq_ok.mp rest
  cases isAfter
  have isRound : rounds + lowPow < heapNames.length := by
    rw [← isLow]
    exact (List.getElem?_eq_some_iff.mp (readSlot_eq_ok.mp isName)).1
  rw [isLow] at created
  obtain ⟨users', view', nextOk, keeps⟩ := ok.create fresh (kmallocParams_valid isRound) created
  refine ⟨isLow, isMax, fun i below => ?_, ok.create_fresh fresh created, ⟨users', view', nextOk⟩,
    fun cacheIndex address isCache => ?_⟩
  · rcases Nat.lt_succ_iff_lt_or_eq.mp below with earlier | rfl
    · exact named i earlier
    · exact isRound
  · have isSet : stored = state.caches.set rounds cache := by
      unfold writeSlot at isStored
      split at isStored
      · exact (Except.ok.inj isStored).symm
      · cases isStored
    rw [isSet, List.getElem?_set] at isCache
    split at isCache
    · next same =>
        subst same
        split at isCache
        · cases isCache
          obtain ⟨initialized, registered⟩ := Kmm.kmmCacheCreate_new created
          exact ⟨Nat.lt_succ_self _, List.mem_append_left _ registered,
            kmallocParams_isClass isRound initialized⟩
        · cases isCache
    · obtain ⟨below, known, isClass⟩ := caches cacheIndex address isCache
      obtain ⟨nextKnown, layout⟩ := (keeps _).known known
      refine ⟨Nat.lt_succ_of_lt below, nextKnown, ?_⟩
      rw [layout]
      exact isClass

theorem Initial.sound (initial : system.Initial) : system.Sound := by
  obtain ⟨objects, supply, before, lowPow, maxPow, reached, isKmm, fresh, noCaches, returned,
    isStorage, isLive, noBlocks⟩ := initial
  obtain ⟨_, ordered, rest⟩ := Outcome.bind_eq_ok.mp returned
  obtain ⟨_, powers, rest⟩ := Outcome.bind_eq_ok.mp rest
  obtain ⟨_, -, looped⟩ := Outcome.bind_eq_ok.mp rest
  have order : maxPow > lowPow := kassert_eq_ok.mp ordered
  obtain ⟨users, view, ok⟩ := KmmSystem.consistent_of_reachable reached
  have start : Starting objects lowPow maxPow 0 { before with lowPow := lowPow, maxPow := maxPow } := by
    refine ⟨rfl, rfl, fun _ below => absurd below (Nat.not_lt_zero _), fresh,
      ⟨users, view, ?_⟩, fun cacheIndex address isCache => ?_⟩
    · show before.kmm.Ok objects.storage users view objects.live
      rw [isKmm]
      exact ok.supplied supply
    · have inArray := List.mem_of_getElem? isCache
      dsimp only at inArray
      rw [noCaches] at inArray
      cases (List.mem_replicate.mp inArray).2
  obtain ⟨isLow, isMax, named, -, consistent, caches⟩ := Loop.range_of_ok
    (Starting objects lowPow maxPow) looped start fun _ _ _ _ starting stepped =>
      starting.round stepped
  have isPowers : system.state.powers = maxPow - lowPow + 1 := by
    unfold Kmalloc.powers
    rw [isLow, isMax]
  refine ⟨⟨?_, ?_, ?_⟩, ?_, fun cacheIndex address isCache => ?_, fun block member => ?_⟩
  · rw [isLow, isMax]
    exact order
  · rw [isPowers]
    exact kassert_eq_ok.mp powers
  · have last := named (maxPow - lowPow) (Nat.lt_succ_self _)
    rw [isMax]
    omega
  · unfold KmallocSystem.objects
    rw [isStorage, isLive]
    exact consistent
  · rw [isPowers, isStorage, isLow]
    exact caches cacheIndex address isCache
  · rw [noBlocks] at member
    exact (List.not_mem_nil member).elim

/-- The invariant holds in every state of every run. -/
theorem sound_of_reachable (reached : kmallocMachine.Reachable system) : system.Sound :=
  reached.invariant (fun state initial => @Initial.sound state initial)
    fun state _ _ sound stepped => (@Sound.step state _ sound _ stepped).sound

/-- A block keeps the byte in front of it until it is freed. -/
theorem Sound.trace (sound : system.Sound) (member : block ∈ system.blocks)
    (tagged : system.Tagged block cacheIndex address info) {calls : List KmallocCall}
    {final : KmallocSystem} (run : kmallocMachine.Trace system calls final)
    (stays : ∀ call ∈ calls, call.action ≠ .kfree block.start) :
    final.Sound ∧ final.Tagged block cacheIndex address info := by
  have preserved (state : KmallocSystem) (call : KmallocCall) (after : KmallocSystem)
      (stays : call.action ≠ .kfree block.start)
      (holds : state.Sound ∧ block ∈ state.blocks ∧ state.Tagged block cacheIndex address info)
      (stepped : kmallocMachine.step state call after) :
      after.Sound ∧ block ∈ after.blocks ∧ after.Tagged block cacheIndex address info := by
    obtain ⟨stateSound, isBlock, isTagged⟩ := holds
    have steps := stateSound.step stepped
    exact ⟨steps.sound, steps.stays block isBlock stays,
      steps.tagged block isBlock stays _ _ _ isTagged⟩
  obtain ⟨finalSound, -, finalTagged⟩ := run.invariant preserved stays ⟨sound, member, tagged⟩
  exact ⟨finalSound, finalTagged⟩

/-- `kfree` of a block gives its object back to its cache. -/
theorem Sound.kfree_tagged (sound : system.Sound)
    (tagged : system.Tagged block cacheIndex address info) (supply : List (Option Nat)) :
    Yaeos.kfree (system.state.supplied supply) block.start = (do
      let kmm ← kmmCacheFree (system.state.kmm.supplied supply) (.created address) info
      .ok { system.state with kmm := kmm }) := by
  obtain ⟨aligned, inside⟩ := sound.placed tagged.cache tagged.isLive
  have below := (sound.caches _ _ tagged.cache).1
  rw [tagged.start]
  exact @kfree_eq (system.state.supplied supply) _ _ _ tagged.cache below tagged.byte aligned inside

theorem Sound.noOverflow (sound : system.Sound) (below : size < 2 ^ system.state.maxPow) :
    size + 1 < addressSpace := by
  have named : system.state.maxPow < 12 := sound.accepted.named
  have small : 2 ^ system.state.maxPow < 2 ^ 12 := Nat.pow_lt_pow_right Nat.one_lt_two named
  unfold addressSpace
  omega

/-- A request below the largest class goes to the smallest class that has room for it and
the index.  If its cache supplies an object, the block lies in the object, aligned and
behind the index; and as long as the block is not freed, whatever is written into it and
into other memory, `kfree` gives this object back to this cache. -/
theorem block_of_reachable (reached : kmallocMachine.Reachable system)
    (below : size < 2 ^ system.state.maxPow)
    (fresh : (system.state.kmm.supplied supply).SupplyFresh) :
    ∃ pow, IsLeast {pow | system.state.lowPow ≤ pow ∧ pow ≤ system.state.maxPow ∧
        size + 1 ≤ 2 ^ pow} pow ∧
      ∀ address kmm info,
        system.state.caches[pow - system.state.lowPow]? = some (some address) →
        kmmCacheAlloc (system.state.kmm.supplied supply) (.created address) =
          .ok (kmm, some info) →
        ∃ mem next, kmalloc (system.state.supplied supply) size = .ok (next.state, some mem) ∧
          system.call ⟨.kmalloc size, supply⟩ = .ok next ∧ next.state.kmm = kmm ∧
          Extent.Within ⟨mem, size⟩ (kmm.objectExtent (.created address, info)) ∧
          alignofMaxAlign ∣ mem ∧ Extent.Apart ⟨mem, size⟩ ⟨info, sizeofIdentInfo⟩ ∧
          ∀ calls final, kmallocMachine.Trace next calls final →
            (∀ call ∈ calls, call.action ≠ .kfree mem) →
            (.created address, info) ∈ final.live ∧ ∀ supply,
              kfree (final.state.supplied supply) mem = (do
                let kmm ← kmmCacheFree (final.state.kmm.supplied supply) (.created address) info
                .ok { final.state with kmm := kmm }) := by
  have sound := sound_of_reachable reached
  have noOverflow := sound.noOverflow below
  obtain ⟨⟨above, room⟩, least⟩ := sizeClass_isLeast system.state.lowPow noOverflow
  have served : sizeClass system.state.lowPow size ≤ system.state.maxPow :=
    least ⟨Nat.le_of_lt sound.accepted.ordered, below⟩
  refine ⟨sizeClass system.state.lowPow size, ⟨⟨above, served, room⟩, fun pow isClass =>
    least ⟨isClass.1, isClass.2.2⟩⟩, fun address kmm info isCache allocated => ?_⟩
  obtain ⟨isHanded, isObject, nextSound, tagged, -⟩ := @Sound.handed (system.supplied supply) _ _ _
    _ _ sound.supplied fresh isCache allocated
    (Nat.le_of_succ_le (sizeClass_room system.state.lowPow noOverflow))
  have returned : kmalloc (system.state.supplied supply) size =
      .ok (((system.supplied supply).handed kmm (sizeClass system.state.lowPow size -
        system.state.lowPow) address info size).state, some (info + alignofMaxAlign)) := by
    have isCall := kmalloc_eq (@Sound.supplied system supply sound).accepted size
    exact isCall.trans ((if_neg (Nat.not_lt_of_le served)).trans isHanded)
  obtain ⟨aligned, inside⟩ := nextSound.placed tagged.cache tagged.isLive
  refine ⟨info + alignofMaxAlign, _, returned, ?_, rfl, nextSound.block_within tagged,
    Nat.dvd_add aligned (Nat.dvd_refl _), .inr ?_, fun calls final run stays => ?_⟩
  · have called : kmalloc (system.supplied supply).state size = _ := returned
    simp only [call, perform, called, Outcome.ok_bind, Option.bind_some, isObject]
    rfl
  · exact Nat.add_le_add_left (show sizeofIdentInfo ≤ alignofMaxAlign by decide) info
  · obtain ⟨finalSound, finalTagged⟩ :=
      nextSound.trace (List.mem_cons_self ..) tagged run stays
    exact ⟨finalTagged.isLive, finalSound.kfree_tagged finalTagged⟩

/-- Before `kmalloc_init`; there is a page for the caches. -/
def unstarted : Kmalloc :=
  { kmm := KmmSystem.booted.kmm.supplied [some 4096], lowPow := 0, maxPow := 0,
    caches := List.replicate kmallocMaxCaches none, memory := fun _ => 0 }

/-- The classes from 32 to 2048 bytes. -/
def classes : Kmalloc := (kmallocInit unstarted 5 11).toOption.get (by decide +kernel)

def started : KmallocSystem := ⟨classes, [], [], []⟩

theorem started_reachable : kmallocMachine.Reachable started := by
  have returned : (kmallocInit unstarted 5 11).toOption = some classes :=
    (Option.some_get _).symm
  exact .initial ⟨KmmSystem.booted, [some 4096], unstarted, 5, 11,
    .initial KmmSystem.booted_initial, rfl, by decide +kernel, rfl,
    Outcome.toOption_eq_some.mp returned, rfl, rfl, rfl⟩

/-- A block of 100 bytes comes from the objects of 144 bytes. -/
theorem started_block : ∃ next, started.call ⟨.kmalloc 100, [some 8192]⟩ = .ok next ∧
    ∀ supply, kfree (next.state.supplied supply) 12080 = (do
      let kmm ← kmmCacheFree (next.state.kmm.supplied supply) (.created 7956) 12064
      .ok { next.state with kmm := kmm }) := by
  obtain ⟨pow, isLeast, serves⟩ := @block_of_reachable started 100 [some 8192] started_reachable
    (by decide +kernel) (by decide +kernel)
  have isSeven : pow = 7 := by
    refine isLeast.unique ⟨⟨by decide +kernel, by decide +kernel, by decide⟩, ?_⟩
    rintro other ⟨-, -, room⟩
    by_contra less
    have small : 2 ^ other ≤ 2 ^ 6 := Nat.pow_le_pow_right (by decide) (by omega)
    omega
  subst isSeven
  have allocated : (kmmCacheAlloc (started.state.kmm.supplied [some 8192])
      (.created 7956)).toOption.map Prod.snd = some (some 12064) := by decide +kernel
  obtain ⟨⟨kmm, answer⟩, isAlloc, rfl⟩ := Option.map_eq_some_iff.mp allocated
  obtain ⟨mem, next, returned, called, -, -, -, -, freed⟩ :=
    serves 7956 kmm 12064 (by decide +kernel) (Outcome.toOption_eq_some.mp isAlloc)
  have isMem : (kmalloc (started.state.supplied [some 8192]) 100).toOption.map Prod.snd =
      some (some 12080) := by decide +kernel
  rw [returned] at isMem
  cases isMem
  have noCalls {call : KmallocCall} (member : call ∈ []) : call.action ≠ .kfree 12080 :=
    (List.not_mem_nil member).elim
  exact ⟨next, called, (freed [] next .nil fun _ => noCalls).2⟩

/-- What a caller relies on: a block has as many bytes as were asked for, and a request
from the largest class on gets `NULL`. -/
def SizeMeets (state : Kmalloc) (size : Nat) : Prop :=
  (∀ next mem, kmalloc state size = .ok (next, some mem) → ∃ address info,
    kmmCacheAlloc state.kmm (.created address) = .ok (next.kmm, some info) ∧
    Extent.Within ⟨mem, size⟩ (next.kmm.objectExtent (.created address, info))) ∧
  (2 ^ state.maxPow ≤ size → ∃ next, kmalloc state size = .ok (next, none))

/-- Only for `SIZE_MAX` the sum with the index overflows. -/
theorem sizeMeets_iff (reached : kmallocMachine.Reachable system) (bounded : size < addressSpace)
    (fresh : (system.state.kmm.supplied supply).SupplyFresh) :
    SizeMeets (system.state.supplied supply) size ↔ size ≠ addressSpace - 1 := by
  have sound : (system.supplied supply).Sound := (sound_of_reachable reached).supplied
  have isCall := kmalloc_eq sound.accepted size
  constructor
  · rintro ⟨-, refused⟩ rfl
    have named : system.state.maxPow < 12 := sound.accepted.named
    have small : 2 ^ system.state.maxPow ≤ addressSpace - 1 :=
      Nat.le_trans (Nat.pow_le_pow_right (by decide) (Nat.le_of_lt named)) (by decide)
    obtain ⟨next, returned⟩ := refused small
    rw [sizeClass_overflow, if_neg (Nat.not_lt_of_lt sound.accepted.ordered)] at isCall
    obtain ⟨_, _, _, -, -, some_⟩ := kmallocObject_returned (isCall.symm.trans returned)
    exact some_ rfl
  · intro notMax
    have noOverflow : size + 1 < addressSpace := by
      unfold addressSpace at *
      omega
    refine ⟨fun next mem returned => ?_, fun large => ?_⟩
    · rw [show kmalloc (system.state.supplied supply) size = _ from isCall] at returned
      split at returned
      · cases returned
      · obtain ⟨address, kmm, info, isCache, allocated, -⟩ := kmallocObject_returned returned
        obtain ⟨isHanded, -, nextSound, tagged, -⟩ := sound.handed fresh isCache allocated
          (Nat.le_of_succ_le (sizeClass_room _ noOverflow))
        cases isHanded.symm.trans returned
        exact ⟨address, info, allocated, nextSound.block_within tagged⟩
    · exact ⟨_, (sound.accepted.refuses_iff noOverflow).mpr large⟩

theorem started_sizeMeets : SizeMeets (started.state.supplied [some 8192]) 2048 :=
  (sizeMeets_iff started_reachable (by decide) (by decide +kernel)).mpr (by decide)

/-- A request for `SIZE_MAX` bytes gets a block of 32 bytes. -/
theorem started_overflow :
    (kmalloc (started.state.supplied [some 8192]) (addressSpace - 1)).toOption.map Prod.snd =
        some (some 12208) ∧
      ¬SizeMeets (started.state.supplied [some 8192]) (addressSpace - 1) := by
  have block : (kmalloc (started.state.supplied [some 8192]) (addressSpace - 1)).toOption.map
      Prod.snd = some (some 12208) := by decide +kernel
  refine ⟨block, fun meets => ?_⟩
  obtain ⟨next, returned⟩ := meets.2 (by decide +kernel)
  rw [returned] at block
  cases block

end KmallocSystem

end Yaeos
