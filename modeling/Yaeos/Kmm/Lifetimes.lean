import Yaeos.Kmm.Run

/-!
# The lives of objects (`kernel/mm/kmm.c`)

From its creation on a cache with a constructor and a destructor calls them on each
buffer by turns, whatever happens to it and the other caches.  A buffer that is handed
out was constructed last, and after `kmm_cache_destroy` every constructor call has had
its destructor call.
-/

namespace Yaeos

theorem kmmCacheInit_callbacks {params : KmmCacheParams} {cache : KmmCache}
    (returned : kmmCacheInit params = .ok cache) :
    cache.ctor = params.ctor ∧ cache.dtor = params.dtor := by
  simp only [kmmCacheInit, Outcome.bind_eq_ok, kassert_eq_ok, Except.ok.injEq] at returned
  obtain ⟨-, -, -, -, rfl⟩ := returned
  exact ⟨rfl, rfl⟩

theorem turns_odd (ref : KmmCacheRef) (mem : Nat) {count : Nat} (odd : count % 2 = 1) :
    (turns ref mem count).head? = some (.ctor ref mem) := by
  cases count with
  | zero => exact absurd odd (by decide)
  | succ before =>
      have even : before % 2 = 0 := by omega
      rw [turns, if_pos even]
      rfl

namespace Kmm

variable {kmm next : Kmm} {view : KmmView} {ref : KmmCacheRef} {storage users : List Nat}
  {live : List KmmEntry}

/-- A cache without slabs has no buffers. -/
theorem Ok.noBuffer (ok : Ok kmm storage users view live) (managed : kmm.Managed storage ref)
    (noSlab : (kmm.cache ref).allSlabs = []) (mem : Nat) : ¬kmm.HasBuffer live ref mem := by
  rw [ok.accounted.hasBuffer_iff (ok.listed managed)]
  rintro ⟨slab, isSlab, -⟩
  have listed := ((ok.listed managed).slabs slab).mpr isSlab
  rw [noSlab] at listed
  exact List.not_mem_nil listed

/-- Nothing was called on the objects of a new cache. -/
theorem Ok.created (ok : Ok next storage users view live) {params : KmmCacheParams}
    (valid : params.Valid) (hasCtor : params.ctor = true) (hasDtor : params.dtor = true)
    {address : Nat} (returned : kmmCacheCreate kmm params = .ok (next, some address)) :
    next.Managed storage (.created address) ∧
      next.Tracked live (.created address) next.objectCalls := by
  obtain ⟨initialized, registered⟩ := kmmCacheCreate_new returned
  obtain ⟨isCtor, isDtor⟩ := kmmCacheInit_callbacks initialized
  obtain ⟨-, -, noEmpty, noPartial, noFull⟩ := kmmCacheInit_spec valid initialized
  have managed : next.Managed storage (.created address) :=
    ⟨List.mem_append_left _ registered, by simp, isCtor.trans hasCtor, isDtor.trans hasDtor⟩
  have noSlab : (next.cache (.created address)).allSlabs = [] := by
    rw [KmmCache.allSlabs, noEmpty, noPartial, noFull]
    rfl
  refine ⟨managed, [], rfl, fun mem => ⟨0, rfl, ?_⟩⟩
  exact iff_of_false (by decide) (ok.noBuffer managed noSlab mem)

end Kmm

namespace KmmSystem

variable {system next : KmmSystem} {ref : KmmCacheRef} {before : List ObjectCall}

/-- A cache with a constructor and a destructor that were called by turns since the calls
`before`. -/
structure InTurns (system : KmmSystem) (ref : KmmCacheRef) (before : List ObjectCall) : Prop where
  consistent : system.Consistent
  managed : system.kmm.Managed system.storage ref
  tracked : system.kmm.Tracked system.live ref before

theorem InTurns.step (inTurns : system.InTurns ref before) {call : KmmCall}
    (spares : Spares call.action ref) (stepped : kmmMachine.step system call next) :
    next.InTurns ref before := by
  obtain ⟨⟨users, view, ok⟩, managed, tracked⟩ := inTurns
  obtain ⟨⟨fresh, permitted⟩, returned⟩ := stepped
  have supplied : Consistent { system with kmm := system.kmm.supplied call.supply } :=
    ⟨users, view, ok.supplied call.supply⟩
  obtain ⟨consistent, keeps⟩ := supplied.performs fresh permitted returned
  have kept := keeps ref spares
  have isManaged : Kmm.Managed (system.kmm.supplied call.supply) system.storage ref :=
    managed.congr rfl rfl
  exact ⟨consistent, kept.managed isManaged, kept.follows isManaged _ tracked⟩

/-- The calls of a cache on its objects alternate in every run from its creation on.  A
buffer that a slab of the cache has is constructed, above all if it is handed out, and
no other is; `kmm_cache_destroy` leaves nothing constructed. -/
theorem callbacks_alternate {params : KmmCacheParams} {supply : List (Option Nat)} {kmm : Kmm}
    {address : Nat} (reached : kmmMachine.Reachable system)
    (legal : system.Legal ⟨.create params, supply⟩) (hasCtor : params.ctor = true)
    (hasDtor : params.dtor = true)
    (created : kmmCacheCreate (system.kmm.supplied supply) params = .ok (kmm, some address))
    {calls : List KmmCall} (run : kmmMachine.Trace { system with kmm := kmm } calls next)
    (stays : ∀ call ∈ calls, call.action ≠ .destroy address) :
    (∃ objectCalls, next.kmm.objectCalls = objectCalls ++ kmm.objectCalls ∧ ∀ mem,
      (∃ count, callsOn (.created address) mem objectCalls = turns (.created address) mem count ∧
        (count % 2 = 1 ↔ next.kmm.HasBuffer next.live (.created address) mem)) ∧
      ((KmmCacheRef.created address, mem) ∈ next.live →
        (callsOn (.created address) mem objectCalls).head? = some (.ctor (.created address) mem))) ∧
    ((∀ mem, (KmmCacheRef.created address, mem) ∉ next.live) → ∀ supply,
      ∃ final, kmmCacheDestroy (next.kmm.supplied supply) address = .ok final ∧
        final.Paired (.created address) kmm.objectCalls) := by
  obtain ⟨users, view, ok⟩ := consistent_of_reachable reached
  obtain ⟨users', view', createdOk, -⟩ :=
    (ok.supplied supply).create legal.1 legal.2 created
  obtain ⟨managed, tracked⟩ := createdOk.created legal.2 hasCtor hasDtor created
  have start : InTurns { system with kmm := kmm } (.created address) kmm.objectCalls :=
    ⟨⟨users', view', createdOk⟩, managed, tracked⟩
  have preserved (state : KmmSystem) (call : KmmCall) (after : KmmSystem)
      (spares : Spares call.action (.created address))
      (inTurns : state.InTurns (.created address) kmm.objectCalls)
      (stepped : kmmMachine.step state call after) :
      after.InTurns (.created address) kmm.objectCalls := inTurns.step spares stepped
  have spares (call : KmmCall) (member : call ∈ calls) :
      Spares call.action (.created address) := by
    rintro other isDestroy same
    cases same
    exact stays call member isDestroy
  obtain ⟨⟨nextUsers, nextView, nextOk⟩, nextManaged, nextTracked⟩ :=
    run.invariant preserved spares start
  constructor
  · obtain ⟨objectCalls, isLog, byTurns⟩ := nextTracked
    refine ⟨objectCalls, isLog, fun mem => ⟨byTurns mem, fun isLive => ?_⟩⟩
    obtain ⟨count, isTurns, constructed⟩ := byTurns mem
    rw [isTurns]
    exact turns_odd _ _ (constructed.mpr (.inl isLive))
  · intro free supply
    have isUser : address ∈ nextUsers := by
      have known := nextManaged.known
      unfold Kmm.known at known
      rw [nextOk.accounted.registered] at known
      simpa using known
    obtain ⟨final, finalView, destroyed, -, -, paired⟩ :=
      (nextOk.supplied supply).destroy isUser free
    exact ⟨final, destroyed, paired (nextManaged.congr rfl rfl) _ nextTracked⟩

/-- Objects of 512 bytes with a constructor and a destructor: the cache is large. -/
def resources : KmmCacheParams := { size := 512, align := 0, ctor := true, dtor := true }

def resourceCache : Kmm × Option Nat :=
  (kmmCacheCreate (booted.kmm.supplied [some 4096]) resources).toOption.get (by decide +kernel)

/-- An object is handed out and freed, its slab is given up, and the page comes back with
the next slab. -/
def resourceCalls : List KmmCall :=
  [⟨.alloc (.created 8084), [some 8192, some 12288, some 16384]⟩, ⟨.free (.created 8084) 15364, []⟩,
    ⟨.trim (.created 8084), []⟩, ⟨.alloc (.created 8084), [some 12288]⟩,
    ⟨.free (.created 8084) 15364, []⟩]

def resourceRun : KmmSystem :=
  (Machine.execute Legal KmmSystem.call resourceCalls { booted with kmm := resourceCache.1 }).get
    (by decide +kernel)

/-- The destructor was called on the object, and the last one by `kmm_cache_destroy`. -/
theorem resources_alternate :
    callsOn (.created 8084) 15364 resourceRun.kmm.objectCalls =
        turns (.created 8084) 15364 3 ∧
      ∃ final, kmmCacheDestroy (resourceRun.kmm.supplied []) 8084 = .ok final ∧
        final.Paired (.created 8084) resourceCache.1.objectCalls := by
  have created : kmmCacheCreate (booted.kmm.supplied [some 4096]) resources =
      .ok (resourceCache.1, some 8084) := by
    have returned : (kmmCacheCreate (booted.kmm.supplied [some 4096]) resources).toOption =
        some resourceCache := (Option.some_get _).symm
    have isCache : resourceCache.2 = some 8084 := by decide +kernel
    rw [← isCache]
    exact Outcome.toOption_eq_some.mp returned
  have run : kmmMachine.Trace { booted with kmm := resourceCache.1 } resourceCalls resourceRun :=
    .execute Machine.guard_step (Option.some_get _).symm
  have destroyed := (callbacks_alternate (.initial booted_initial) (by decide +kernel) rfl rfl
    created run (by decide)).2
  refine ⟨by decide +kernel, destroyed (fun mem => ?_) []⟩
  have noLive : resourceRun.live = [] := by decide +kernel
  rw [noLive]
  exact List.not_mem_nil

end KmmSystem

end Yaeos
