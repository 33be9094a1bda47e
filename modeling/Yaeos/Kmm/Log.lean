import Yaeos.Kmm.System

/-!
# Constructor and destructor calls (`kernel/mm/kmm.c`)

A cache with a constructor and a destructor calls them on a buffer by turns.  The
buffer is constructed as long as it belongs to a slab of the cache, free or handed
out.  `Follows` says that a call on the caches keeps this, whatever was called
before.
-/

namespace Yaeos

/-- The calls on one object of a cache. -/
def callsOn (ref : KmmCacheRef) (mem : Nat) (calls : List ObjectCall) : List ObjectCall :=
  calls.filter fun call => call = .ctor ref mem ∨ call = .dtor ref mem

/-- So many calls on an object, the constructor first and then by turns; the latest call
comes first. -/
def turns (ref : KmmCacheRef) (mem : Nat) : (count : Nat) → List ObjectCall
  | 0 => []
  | count + 1 =>
      (if count % 2 = 0 then ObjectCall.ctor ref mem else .dtor ref mem) :: turns ref mem count

/-- The destructor calls for the free buffers of a slab, the latest first. -/
def destructed (ref : KmmCacheRef) (cache : KmmCacheLayout) (mems : List Nat) : List ObjectCall :=
  mems.reverse.flatMap (destructorCalls ref cache)

theorem destructed_cons (ref : KmmCacheRef) (cache : KmmCacheLayout) (mem : Nat)
    (mems : List Nat) : destructed ref cache (mem :: mems) =
      destructed ref cache mems ++ destructorCalls ref cache mem := by
  simp [destructed]

section Calls

variable {ref other : KmmCacheRef} {mem : Nat} {mems : List Nat} {cache : KmmCacheLayout}

theorem callsOn_append (first second : List ObjectCall) :
    callsOn ref mem (first ++ second) = callsOn ref mem first ++ callsOn ref mem second :=
  List.filter_append ..

/-- A call on each of some objects. -/
theorem callsOn_map (call : Nat → ObjectCall)
    (isCall : ∀ address, (call address = .ctor ref mem ∨ call address = .dtor ref mem) ↔
      address = mem) (nodup : mems.Nodup) :
    callsOn ref mem (mems.map call) = if mem ∈ mems then [call mem] else [] := by
  have isMem : ((fun other => decide (other = .ctor ref mem ∨ other = .dtor ref mem)) ∘ call) =
      fun address => decide (address = mem) := by
    funext address
    exact decide_eq_decide.mpr (isCall address)
  unfold callsOn
  rw [List.filter_map, isMem, List.filter_eq]
  split
  · next member => rw [List.count_eq_one_of_mem nodup member, List.replicate_one, List.map_singleton]
  · next absent => rw [List.count_eq_zero_of_not_mem absent, List.replicate_zero, List.map_nil]

theorem callsOn_map_of_ne (call : Nat → ObjectCall)
    (others : ∀ address, ¬(call address = .ctor ref mem ∨ call address = .dtor ref mem)) :
    callsOn ref mem (mems.map call) = [] := by
  unfold callsOn
  rw [List.filter_eq_nil_iff]
  intro _ member
  obtain ⟨address, -, rfl⟩ := List.mem_map.mp member
  simpa using others address

theorem constructed_eq : KmmCacheLayout.constructed ref cache mems =
    if cache.ctor then mems.reverse.map (ObjectCall.ctor ref) else [] := by
  unfold KmmCacheLayout.constructed constructorCalls
  split
  · exact List.flatMap_pure_eq_map ..
  · simp

theorem destructed_eq : destructed ref cache mems =
    if cache.dtor then mems.reverse.map (ObjectCall.dtor ref) else [] := by
  unfold destructed destructorCalls
  split
  · exact List.flatMap_pure_eq_map ..
  · simp

/-- A constructor is called once on each of the new buffers. -/
theorem callsOn_constructed (hasCtor : cache.ctor = true) (nodup : mems.Nodup) :
    callsOn ref mem (KmmCacheLayout.constructed ref cache mems) =
      if mem ∈ mems then [.ctor ref mem] else [] := by
  rw [constructed_eq, if_pos hasCtor, callsOn_map _ (by simp) (List.nodup_reverse.mpr nodup)]
  simp only [List.mem_reverse]

theorem callsOn_constructed_of_ne (different : other ≠ ref) :
    callsOn other mem (KmmCacheLayout.constructed ref cache mems) = [] := by
  rw [constructed_eq]
  split
  · exact callsOn_map_of_ne _ (by simp [different.symm])
  · rfl

/-- A destructor is called once on each of the buffers of a slab. -/
theorem callsOn_destructed (hasDtor : cache.dtor = true) (nodup : mems.Nodup) :
    callsOn ref mem (destructed ref cache mems) =
      if mem ∈ mems then [.dtor ref mem] else [] := by
  rw [destructed_eq, if_pos hasDtor, callsOn_map _ (by simp) (List.nodup_reverse.mpr nodup)]
  simp only [List.mem_reverse]

theorem callsOn_destructed_of_ne (different : other ≠ ref) :
    callsOn other mem (destructed ref cache mems) = [] := by
  rw [destructed_eq]
  split
  · exact callsOn_map_of_ne _ (by simp [different.symm])
  · rfl

end Calls

namespace Kmm

/-- A buffer of a slab of a cache: an object that was handed out or a free one. -/
def HasBuffer (kmm : Kmm) (live : List KmmEntry) (ref : KmmCacheRef) (mem : Nat) : Prop :=
  (ref, mem) ∈ live ∨ ∃ slab ∈ (kmm.cache ref).allSlabs, mem ∈ kmm.freeMems (ref, slab)

/-- After the calls `before`, constructor and destructor were called on each buffer of a
cache by turns, and those buffers are constructed that a slab has. -/
def Tracked (kmm : Kmm) (live : List KmmEntry) (ref : KmmCacheRef) (before : List ObjectCall) :
    Prop :=
  ∃ calls, kmm.objectCalls = calls ++ before ∧ ∀ mem, ∃ count,
    callsOn ref mem calls = turns ref mem count ∧ (count % 2 = 1 ↔ kmm.HasBuffer live ref mem)

/-- After the calls `before`, every constructor call was followed by the destructor call on
the same object. -/
def Paired (kmm : Kmm) (ref : KmmCacheRef) (before : List ObjectCall) : Prop :=
  ∃ calls, kmm.objectCalls = calls ++ before ∧ ∀ mem, ∃ pairs,
    callsOn ref mem calls = turns ref mem (2 * pairs)

/-- A cache that is kept so from one state to the other. -/
def Follows (kmm : Kmm) (live : List KmmEntry) (next : Kmm) (live' : List KmmEntry)
    (ref : KmmCacheRef) : Prop :=
  ∀ before, kmm.Tracked live ref before → next.Tracked live' ref before

variable {kmm next final : Kmm} {live live' live'' : List KmmEntry} {ref other : KmmCacheRef}

theorem Follows.refl : Follows kmm live kmm live ref := fun _ tracked => tracked

theorem Follows.trans (first : Follows kmm live next live' ref)
    (second : Follows next live' final live'' ref) : Follows kmm live final live'' ref :=
  fun before tracked => second before (first before tracked)

/-- Without buffers nothing is constructed. -/
theorem Tracked.paired {before : List ObjectCall} (tracked : kmm.Tracked live ref before)
    (noBuffer : ∀ mem, ¬kmm.HasBuffer live ref mem)
    (objectCalls : next.objectCalls = kmm.objectCalls) : next.Paired ref before := by
  obtain ⟨calls, isLog, byTurns⟩ := tracked
  refine ⟨calls, objectCalls.trans isLog, fun mem => ?_⟩
  obtain ⟨count, isTurns, constructed⟩ := byTurns mem
  have notOdd : ¬count % 2 = 1 := fun odd => noBuffer mem (constructed.mp odd)
  exact ⟨count / 2, by rw [isTurns, show 2 * (count / 2) = count by omega]⟩

/-- On each buffer there is no call, or the one that is due. -/
theorem Follows.of_calls {more : List ObjectCall}
    (objectCalls : next.objectCalls = more ++ kmm.objectCalls)
    (due : ∀ mem,
      callsOn ref mem more = [] ∧ (next.HasBuffer live' ref mem ↔ kmm.HasBuffer live ref mem) ∨
      callsOn ref mem more = [.ctor ref mem] ∧ ¬kmm.HasBuffer live ref mem ∧
        next.HasBuffer live' ref mem ∨
      callsOn ref mem more = [.dtor ref mem] ∧ kmm.HasBuffer live ref mem ∧
        ¬next.HasBuffer live' ref mem) : Follows kmm live next live' ref := by
  rintro before ⟨calls, isLog, byTurns⟩
  refine ⟨more ++ calls, by rw [objectCalls, isLog, List.append_assoc], fun mem => ?_⟩
  obtain ⟨count, isTurns, constructed⟩ := byTurns mem
  rw [callsOn_append, isTurns]
  rcases due mem with ⟨none_, same⟩ | ⟨called, notBefore, after⟩ | ⟨called, hadIt, notAfter⟩
  · refine ⟨count, by rw [none_, List.nil_append], constructed.trans same.symm⟩
  · have even : count % 2 = 0 := by
      have notOdd : ¬count % 2 = 1 := fun odd => notBefore (constructed.mp odd)
      omega
    refine ⟨count + 1, ?_, iff_of_true (by omega) after⟩
    rw [called, turns, if_pos even]
    rfl
  · have odd := constructed.mpr hadIt
    refine ⟨count + 1, ?_, iff_of_false (by omega) notAfter⟩
    rw [called, turns, if_neg (by omega)]
    rfl

/-- There was no call on a cache in between. -/
def NoCalls (kmm next : Kmm) (ref : KmmCacheRef) : Prop :=
  ∃ more, next.objectCalls = more ++ kmm.objectCalls ∧ ∀ mem, callsOn ref mem more = []

theorem NoCalls.of_eq (same : next.objectCalls = kmm.objectCalls) : NoCalls kmm next ref :=
  ⟨[], same, fun _ => rfl⟩

theorem NoCalls.constructed {mems : List Nat} {cache : KmmCacheLayout}
    (objectCalls : next.objectCalls =
      KmmCacheLayout.constructed other cache mems ++ kmm.objectCalls) (different : ref ≠ other) :
    NoCalls kmm next ref :=
  ⟨_, objectCalls, fun _ => callsOn_constructed_of_ne different⟩

theorem NoCalls.destructed {mems : List Nat} {cache : KmmCacheLayout}
    (objectCalls : next.objectCalls = Yaeos.destructed other cache mems ++ kmm.objectCalls)
    (different : ref ≠ other) : NoCalls kmm next ref :=
  ⟨_, objectCalls, fun _ => callsOn_destructed_of_ne different⟩

/-- Nothing was called on the cache, and it has the same buffers. -/
theorem Follows.quiet (noCalls : NoCalls kmm next ref)
    (same : ∀ mem, next.HasBuffer live' ref mem ↔ kmm.HasBuffer live ref mem) :
    Follows kmm live next live' ref := by
  obtain ⟨more, objectCalls, none_⟩ := noCalls
  exact .of_calls objectCalls fun mem => .inl ⟨none_ mem, same mem⟩

/-! ## Buffers and slabs -/

variable {view view' : KmmView} {storage users users' : List Nat} {mem slab : Nat}

theorem Accounted.live_held (accounted : Accounted kmm storage users view live) {object : KmmEntry}
    (isLive : object ∈ live) : object ∈ view.held :=
  accounted.held.mem_iff.mpr (List.mem_append_left _ (List.mem_append_left _ isLive))

/-- What a cache outside `kmm.c` handed out is live. -/
theorem Accounted.live_of_held (accounted : Accounted kmm storage users view live)
    (external : ref ∉ [KmmCacheRef.largeBufctls, .slabs, .caches])
    (isHeld : (ref, mem) ∈ view.held) : (ref, mem) ∈ live := by
  rcases List.mem_append.mp (accounted.held.mem_iff.mp isHeld) with either | isCache
  · refine (List.mem_append.mp either).resolve_right fun isNeeded => external ?_
    obtain ⟨entry, -, isNeeded⟩ := List.mem_flatMap.mp isNeeded
    rcases mem_needs isNeeded with isSlabs | isBufctls
    · exact List.mem_of_mem_tail (isSlabs ▸ List.mem_cons_self ..)
    · exact isBufctls ▸ List.mem_cons_self ..
  · obtain ⟨_, _, same⟩ := List.mem_map.mp isCache
    have isCaches : ref = .caches := (congrArg Prod.fst same).symm
    exact absurd (by rw [isCaches]; decide) external

/-- A cache outside `kmm.c` whose lists hold the slabs of the view. -/
structure Listed (kmm : Kmm) (view : KmmView) (ref : KmmCacheRef) : Prop where
  external : ref ∉ [KmmCacheRef.largeBufctls, .slabs, .caches]
  slabs : ∀ slab, slab ∈ (kmm.cache ref).allSlabs ↔ (ref, slab) ∈ view.slabs

theorem Accounted.hasBuffer_iff (accounted : Accounted kmm storage users view live)
    (listed : kmm.Listed view ref) : kmm.HasBuffer live ref mem ↔
      ∃ slab, (ref, slab) ∈ view.slabs ∧ mem ∈ kmm.bufferMems view.held (ref, slab) := by
  have laidOut := accounted.laidOut
  constructor
  · rintro (isLive | ⟨slab, isListed, isFree⟩)
    · obtain ⟨slab, isSlab, home⟩ := laidOut.home _ (accounted.live_held isLive)
      refine ⟨slab, isSlab, (laidOut.mem_bufferMems isSlab).mpr (.inr ?_)⟩
      exact mem_onPage.mpr ⟨accounted.live_held isLive, home⟩
    · exact ⟨slab, (listed.slabs slab).mp isListed, List.mem_append_left _ isFree⟩
  · rintro ⟨slab, isSlab, isBuffer⟩
    rcases (laidOut.mem_bufferMems isSlab).mp isBuffer with isFree | lies
    · exact .inr ⟨slab, (listed.slabs slab).mpr isSlab, isFree⟩
    · exact .inl (accounted.live_of_held listed.external (mem_onPage.mp lies).1)

/-- A cache outside `kmm.c` that is in use, with a constructor and a destructor. -/
structure Managed (kmm : Kmm) (storage : List Nat) (ref : KmmCacheRef) : Prop where
  known : ref ∈ kmm.known storage
  external : ref ∉ [KmmCacheRef.largeBufctls, .slabs, .caches]
  hasCtor : (kmm.layout ref).ctor = true
  hasDtor : (kmm.layout ref).dtor = true

theorem Managed.notInternal (managed : kmm.Managed storage ref) : ref ∉ internalPair := by
  intro isInternal
  apply managed.external
  rcases List.mem_pair.mp isInternal with rfl | rfl
  · decide
  · decide

/-- The caches are as before, and the calls keep every one with a constructor and a
destructor. -/
structure Logged (kmm : Kmm) (storage : List Nat) (live : List KmmEntry) (next : Kmm)
    (live' : List KmmEntry) : Prop where
  layout : next.layout = kmm.layout
  registered : next.allocatedCaches = kmm.allocatedCaches
  follows : ∀ ref, kmm.Managed storage ref → Follows kmm live next live' ref

theorem Managed.congr (managed : kmm.Managed storage ref) (layout : next.layout = kmm.layout)
    (registered : next.allocatedCaches = kmm.allocatedCaches) : next.Managed storage ref := by
  obtain ⟨known, external, hasCtor, hasDtor⟩ := managed
  refine ⟨?_, external, layout ▸ hasCtor, layout ▸ hasDtor⟩
  unfold Kmm.known
  rw [registered]
  exact known

theorem Managed.logged (managed : kmm.Managed storage ref)
    (logged : Logged kmm storage live next live') : next.Managed storage ref :=
  managed.congr logged.layout logged.registered

theorem Logged.trans (first : Logged kmm storage live next live')
    (second : Logged next storage live' final live'') : Logged kmm storage live final live'' :=
  ⟨second.layout.trans first.layout, second.registered.trans first.registered, fun ref managed =>
    (first.follows ref managed).trans (second.follows ref (managed.logged first))⟩

theorem Managed.listed (managed : kmm.Managed storage ref)
    (ok : CacheOk kmm view ref kmm.inuse) : kmm.Listed view ref := ⟨managed.external, ok.listed⟩

/-- The slabs and their free buffers decide about the buffers. -/
theorem hasBuffer_congr
    (slabs : ∀ slab, slab ∈ (next.cache ref).allSlabs ↔ slab ∈ (kmm.cache ref).allSlabs)
    (free : ∀ slab, next.freeMems (ref, slab) = kmm.freeMems (ref, slab)) :
    next.HasBuffer live ref mem ↔ kmm.HasBuffer live ref mem := by
  unfold HasBuffer
  simp only [slabs, free]

/-- A cache that is there afterwards as it was, and whose calls stay in order. -/
structure Keeps (kmm : Kmm) (storage : List Nat) (live : List KmmEntry) (next : Kmm)
    (storage' : List Nat) (live' : List KmmEntry) (ref : KmmCacheRef) : Prop where
  known : ref ∈ kmm.known storage → ref ∈ next.known storage' ∧ next.layout ref = kmm.layout ref
  follows : kmm.Managed storage ref → Follows kmm live next live' ref

theorem Keeps.managed {storage' : List Nat}
    (keeps : Keeps kmm storage live next storage' live' ref) (managed : kmm.Managed storage ref) :
    next.Managed storage' ref := by
  obtain ⟨isKnown, external, hasCtor, hasDtor⟩ := managed
  obtain ⟨nextKnown, layout⟩ := keeps.known isKnown
  exact ⟨nextKnown, external, layout ▸ hasCtor, layout ▸ hasDtor⟩

theorem Logged.keeps (logged : Logged kmm storage live next live') :
    Keeps kmm storage live next storage live' ref := by
  refine ⟨fun isKnown => ⟨?_, congrFun logged.layout ref⟩, logged.follows ref⟩
  unfold Kmm.known
  rw [logged.registered]
  exact isKnown

theorem Keeps.trans {storage' storage'' : List Nat}
    (first : Keeps kmm storage live next storage' live' ref)
    (second : Keeps next storage' live' final storage'' live'' ref) :
    Keeps kmm storage live final storage'' live'' ref := by
  constructor
  · intro isKnown
    obtain ⟨nextKnown, layout⟩ := first.known isKnown
    obtain ⟨finalKnown, finalLayout⟩ := second.known nextKnown
    exact ⟨finalKnown, finalLayout.trans layout⟩
  · intro managed
    exact (first.follows managed).trans (second.follows (first.managed managed))

/-- Other caches come and go. -/
theorem Keeps.of_cache {storage' : List Nat}
    (cache : ref ∈ kmm.known storage → next.cache ref = kmm.cache ref)
    (known : ref ∈ kmm.known storage → ref ∈ next.known storage') (slab : next.slab = kmm.slab)
    (objectCalls : next.objectCalls = kmm.objectCalls)
    (sameLive : ref ∉ [KmmCacheRef.largeBufctls, .slabs, .caches] →
      ∀ mem, (ref, mem) ∈ live' ↔ (ref, mem) ∈ live) :
    Keeps kmm storage live next storage' live' ref := by
  have layout (isKnown : ref ∈ kmm.known storage) : next.layout ref = kmm.layout ref :=
    congrArg KmmCache.toKmmCacheLayout (cache isKnown)
  refine ⟨fun isKnown => ⟨known isKnown, layout isKnown⟩, fun managed => ?_⟩
  refine .quiet (.of_eq objectCalls) fun mem => or_congr (sameLive managed.external mem) ?_
  have free (address : Nat) : next.freeMems (ref, address) = kmm.freeMems (ref, address) := by
    unfold freeMems
    rw [slab]
    exact List.map_congr_left fun ctl _ => congrArg (bufctlMem ctl) (layout managed.known)
  simp only [cache managed.known, free]

/-- The slabs of a cache have the same buffers as before. -/
theorem Follows.of_buffers (before : Accounted kmm storage users view live)
    (after : Accounted next storage users' view' live') (listed : kmm.Listed view ref)
    (nextListed : next.Listed view' ref)
    (slabs : ∀ slab, (ref, slab) ∈ view'.slabs ↔ (ref, slab) ∈ view.slabs)
    (buffers : ∀ slab, (ref, slab) ∈ view.slabs →
      SameBuffers kmm view.held next view'.held (ref, slab))
    (noCalls : NoCalls kmm next ref) : Follows kmm live next live' ref := by
  refine .quiet noCalls fun mem => ?_
  rw [after.hasBuffer_iff nextListed, before.hasBuffer_iff listed]
  refine exists_congr fun slab => ?_
  rw [slabs slab]
  exact and_congr_right fun isSlab => (buffers slab isSlab).mem_iff

/-- The caches are listed in a state with the invariant. -/
theorem Ok.listed (ok : Ok kmm storage users view live) (managed : kmm.Managed storage ref) :
    kmm.Listed view ref := managed.listed (ok.caches ref managed.known)

theorem Logged.of_buffers (before : Accounted kmm storage users view live)
    (listed : ∀ ref, kmm.Managed storage ref → kmm.Listed view ref)
    (after : Ok next storage users' view' live') (layout : next.layout = kmm.layout)
    (registered : next.allocatedCaches = kmm.allocatedCaches)
    (slabs : ∀ ref, kmm.Managed storage ref → ∀ slab,
      (ref, slab) ∈ view'.slabs ↔ (ref, slab) ∈ view.slabs)
    (buffers : ∀ entry ∈ view.slabs, SameBuffers kmm view.held next view'.held entry)
    (objectCalls : next.objectCalls = kmm.objectCalls) : Logged kmm storage live next live' :=
  ⟨layout, registered, fun ref managed => .of_buffers before after.accounted (listed ref managed)
    (after.listed (managed.congr layout registered)) (slabs ref managed) (fun _ => buffers _)
    (.of_eq objectCalls)⟩

/-- A cache has got a slab, and its constructor was called on each buffer. -/
theorem Follows.of_new (before : Accounted kmm storage users view live)
    (after : Accounted next storage users' view' live') (listed : kmm.Listed view ref)
    (nextListed : next.Listed view' ref)
    (slabs : ∀ other, (ref, other) ∈ view'.slabs ↔ other = slab ∨ (ref, other) ∈ view.slabs)
    (fresh : (ref, slab) ∉ view.slabs)
    (buffers : ∀ entry ∈ view.slabs, SameBuffers kmm view.held next view'.held entry)
    {mems : List Nat} (all : (next.bufferMems view'.held (ref, slab)).Perm mems)
    (hasCtor : (kmm.layout ref).ctor = true)
    (objectCalls : next.objectCalls =
      KmmCacheLayout.constructed ref (kmm.layout ref) mems ++ kmm.objectCalls) :
    Follows kmm live next live' ref := by
  have isNew : (ref, slab) ∈ view'.slabs := (slabs slab).mpr (.inl rfl)
  have nodup : mems.Nodup := all.nodup_iff.mp (after.laidOut.bufferMems_nodup isNew)
  have buffersAfter (mem : Nat) :
      next.HasBuffer live' ref mem ↔ mem ∈ mems ∨ kmm.HasBuffer live ref mem := by
    rw [after.hasBuffer_iff nextListed, before.hasBuffer_iff listed, ← all.mem_iff]
    constructor
    · rintro ⟨other, isSlab, isBuffer⟩
      rcases (slabs other).mp isSlab with rfl | isOld
      · exact .inl isBuffer
      · exact .inr ⟨other, isOld, (buffers _ isOld).mem_iff.mp isBuffer⟩
    · rintro (isBuffer | ⟨other, isOld, isBuffer⟩)
      · exact ⟨slab, isNew, isBuffer⟩
      · exact ⟨other, (slabs other).mpr (.inr isOld), (buffers _ isOld).mem_iff.mpr isBuffer⟩
  have apart (mem : Nat) (isMem : mem ∈ mems) : ¬kmm.HasBuffer live ref mem := by
    rw [before.hasBuffer_iff listed]
    rintro ⟨other, isOld, isBuffer⟩
    have same := after.laidOut.eq_of_bufferMem isNew ((slabs other).mpr (.inr isOld))
      (all.mem_iff.mpr isMem) ((buffers _ isOld).mem_iff.mpr isBuffer)
    exact fresh (same ▸ isOld)
  refine .of_calls objectCalls fun mem => ?_
  rw [callsOn_constructed hasCtor nodup, buffersAfter mem]
  by_cases isMem : mem ∈ mems
  · exact .inr (.inl ⟨if_pos isMem, apart mem isMem, .inl isMem⟩)
  · exact .inl ⟨if_neg isMem, or_iff_right isMem⟩

/-- One cache has got a slab, with a constructor call on each buffer if it has a
constructor. -/
theorem Logged.of_new (before : Accounted kmm storage users view live)
    (after : Accounted next storage users' view' live') (layout : next.layout = kmm.layout)
    (registered : next.allocatedCaches = kmm.allocatedCaches)
    (listed : ∀ ref, kmm.Managed storage ref → kmm.Listed view ref ∧ next.Listed view' ref)
    (slabs : ∀ ref, kmm.Managed storage ref → ∀ address, (ref, address) ∈ view'.slabs ↔
      (ref, address) = (other, slab) ∨ (ref, address) ∈ view.slabs)
    (fresh : (other, slab) ∉ view.slabs)
    (buffers : ∀ entry ∈ view.slabs, SameBuffers kmm view.held next view'.held entry)
    {mems : List Nat} (all : (next.bufferMems view'.held (other, slab)).Perm mems)
    (called : next.objectCalls =
      KmmCacheLayout.constructed other (kmm.layout other) mems ++ kmm.objectCalls) :
    Logged kmm storage live next live' := by
  refine ⟨layout, registered, fun ref managed => ?_⟩
  obtain ⟨isListed, nextListed⟩ := listed ref managed
  have isNew := slabs ref managed
  by_cases self : ref = other
  · subst self
    refine .of_new before after isListed nextListed (fun address => ?_) fresh buffers all
      managed.hasCtor called
    rw [isNew, Prod.mk.injEq]
    simp only [true_and]
  · refine .of_buffers before after isListed nextListed (fun address => ?_) (fun _ => buffers _)
      (.constructed called self)
    rw [isNew, Prod.mk.injEq]
    exact or_iff_right fun equal => self equal.1

/-- A call on a small cache with its constructor calls. -/
theorem Grows.logged (grows : Grows kmm view next view' other)
    (before : Ok kmm storage users view live) (after : Ok next storage users' view' live')
    (layout : next.layout = kmm.layout) (registered : next.allocatedCaches = kmm.allocatedCaches)
    (buffers : ∀ entry ∈ view.slabs, SameBuffers kmm view.held next view'.held entry) :
    Logged kmm storage live next live' := by
  rcases grows with ⟨slabs, quiet⟩ | ⟨slab, mems, slabs, called, all⟩
  · exact .of_buffers before.accounted (fun _ => before.listed) after layout registered
      (fun _ _ _ => by rw [slabs]) buffers quiet
  · have nodup := after.accounted.laidOut.slabs_nodup
    rw [slabs] at nodup
    refine .of_new before.accounted after.accounted layout registered (fun ref managed =>
      ⟨before.listed managed, after.listed (managed.congr layout registered)⟩)
      (fun ref _ address => ?_) (List.nodup_cons.mp nodup).1 buffers all called
    rw [slabs, List.mem_cons]

/-- A cache has lost a slab without objects, and its destructor was called on each
buffer. -/
theorem Follows.of_gone (before : Accounted kmm storage users view live)
    (after : Accounted next storage users' view' live') (listed : kmm.Listed view ref)
    (nextListed : next.Listed view' ref)
    (slabs : ∀ other, (ref, other) ∈ view.slabs ↔ other = slab ∨ (ref, other) ∈ view'.slabs)
    (gone : (ref, slab) ∉ view'.slabs)
    (buffers : ∀ entry ∈ view.slabs, entry ≠ (ref, slab) →
      SameBuffers kmm view.held next view'.held entry)
    {mems : List Nat} (all : (kmm.bufferMems view.held (ref, slab)).Perm mems)
    (hasDtor : (kmm.layout ref).dtor = true)
    (objectCalls : next.objectCalls =
      destructed ref (kmm.layout ref) mems ++ kmm.objectCalls) :
    Follows kmm live next live' ref := by
  have isSlab : (ref, slab) ∈ view.slabs := (slabs slab).mpr (.inl rfl)
  have nodup : mems.Nodup := all.nodup_iff.mp (before.laidOut.bufferMems_nodup isSlab)
  have stays (other : Nat) (isOther : (ref, other) ∈ view'.slabs) :
      (ref, other) ∈ view.slabs ∧ (ref, other) ≠ (ref, slab) :=
    ⟨(slabs other).mpr (.inr isOther), fun same => gone (same ▸ isOther)⟩
  have buffersAfter (mem : Nat) :
      next.HasBuffer live' ref mem ↔ kmm.HasBuffer live ref mem ∧ mem ∉ mems := by
    rw [after.hasBuffer_iff nextListed, before.hasBuffer_iff listed, ← all.mem_iff]
    constructor
    · rintro ⟨other, isOther, isBuffer⟩
      obtain ⟨isOld, different⟩ := stays other isOther
      have wasBuffer := (buffers _ isOld different).mem_iff.mp isBuffer
      exact ⟨⟨other, isOld, wasBuffer⟩, fun isMem =>
        different (before.laidOut.eq_of_bufferMem isOld isSlab wasBuffer isMem)⟩
    · rintro ⟨⟨other, isOld, isBuffer⟩, notMem⟩
      rcases (slabs other).mp isOld with rfl | isOther
      · exact absurd isBuffer notMem
      · exact ⟨other, isOther, (buffers _ isOld (stays other isOther).2).mem_iff.mpr isBuffer⟩
  refine .of_calls objectCalls fun mem => ?_
  rw [callsOn_destructed hasDtor nodup, buffersAfter mem]
  by_cases isMem : mem ∈ mems
  · refine .inr (.inr ⟨if_pos isMem, ?_, fun both => both.2 isMem⟩)
    exact (before.hasBuffer_iff listed).mpr ⟨slab, isSlab, all.mem_iff.mpr isMem⟩
  · exact .inl ⟨if_neg isMem, and_iff_left isMem⟩

end Kmm

end Yaeos
