import Yaeos.Kmm.Creation
import Yaeos.Machine.Run

/-!
# Runs over object caches

A state is that of `kmm` with the static caches that are set up and the objects
that are handed out and were not freed.  Each call comes with what
`ALLOC_PAGE_FN` answers during it: pages that are not in use, or `NULL`.
-/

namespace Yaeos

structure KmmSystem where
  kmm : Kmm
  /-- The static caches outside `kmm.c`. -/
  storage : List Nat
  live : List KmmEntry

inductive KmmAction where
  | initStorage (index : Nat) (params : KmmCacheParams)
  | create (params : KmmCacheParams)
  | destroy (address : Nat)
  | alloc (ref : KmmCacheRef)
  | free (ref : KmmCacheRef) (mem : Nat)
  | trim (ref : KmmCacheRef)
  | trimAll
  deriving DecidableEq, Repr

/-- A call and what `ALLOC_PAGE_FN` answers in it. -/
structure KmmCall where
  action : KmmAction
  supply : List (Option Nat) := []
  deriving DecidableEq, Repr

namespace Kmm

/-- The state for the next call. -/
def supplied (kmm : Kmm) (supply : List (Option Nat)) : Kmm := { kmm with supply := supply }

end Kmm

namespace KmmSystem

def perform (system : KmmSystem) : KmmAction → Outcome KmmSystem
  | .initStorage index params => do
      let cache ← kmmCacheInit params
      .ok { system with
        kmm := system.kmm.setCache (.storage index) cache, storage := index :: system.storage }
  | .create params => do
      let (kmm, _) ← kmmCacheCreate system.kmm params
      .ok { system with kmm := kmm }
  | .destroy address => do
      let kmm ← kmmCacheDestroy system.kmm address
      .ok { system with kmm := kmm }
  | .alloc ref => do
      let (kmm, object) ← kmmCacheAlloc system.kmm ref
      .ok { system with kmm := kmm, live := object.toList.map (Prod.mk ref) ++ system.live }
  | .free ref mem => do
      let kmm ← kmmCacheFree system.kmm ref mem
      .ok { system with kmm := kmm, live := system.live.erase (ref, mem) }
  | .trim ref => do
      let kmm ← kmmCacheTrim system.kmm ref
      .ok { system with kmm := kmm }
  | .trimAll => do
      let kmm ← kmmCacheTrimAll system.kmm
      .ok { system with kmm := kmm }

def call (system : KmmSystem) (call : KmmCall) : Outcome KmmSystem :=
  { system with kmm := system.kmm.supplied call.supply }.perform call.action

/-- A static cache is set up once; an object is freed to its cache, once; a cache is
destroyed without objects. -/
def Permitted (system : KmmSystem) : KmmAction → Prop
  | .initStorage index params => index ∉ system.storage ∧ params.Valid
  | .create params => params.Valid
  | .destroy address => .created address ∈ system.kmm.allocatedCaches ∧
      ∀ object ∈ system.live, object.1 ≠ .created address
  | .alloc ref => ref ∈ system.kmm.known system.storage
  | .free ref mem => (ref, mem) ∈ system.live
  | .trim ref => ref ∈ system.kmm.known system.storage
  | .trimAll => True

instance (system : KmmSystem) (action : KmmAction) : Decidable (system.Permitted action) := by
  cases action <;> unfold Permitted <;> infer_instance

def Legal (system : KmmSystem) (call : KmmCall) : Prop :=
  (system.kmm.supplied call.supply).SupplyFresh ∧ system.Permitted call.action

instance (system : KmmSystem) (call : KmmCall) : Decidable (system.Legal call) :=
  inferInstanceAs (Decidable (_ ∧ _))

/-- The state after `kmm_init`. -/
def Initial (system : KmmSystem) : Prop :=
  system.storage = [] ∧ system.live = [] ∧
    ∃ before, before.obtained = [] ∧ before.released = [] ∧ kmmInit before = .ok system.kmm

end KmmSystem

/-- The runs over object caches. -/
def kmmMachine : Machine KmmSystem KmmCall :=
  (Machine.ofOutcome KmmSystem.Initial KmmSystem.call).guard KmmSystem.Legal

namespace KmmSystem

/-- A state before `kmm_init`. -/
def blank : Kmm :=
  { cache := fun _ => ⟨⟨0, 0, 0, 0, false, false, false⟩, 0, 0, 0, [], [], []⟩
    slab := fun _ => ⟨[], 0, 0⟩
    owner := fun _ => none
    allocatedCaches := []
    supply := []
    obtained := []
    released := []
    objectCalls := [] }

/-- The state that `kmm_init` makes of it. -/
def booted : KmmSystem := ⟨(kmmInit blank).toOption.getD blank, [], []⟩

/-- A list of calls from there on. -/
def after (calls : List KmmCall) : Option KmmSystem :=
  Machine.execute Legal KmmSystem.call calls booted

theorem booted_initial : booted.Initial := by
  refine ⟨rfl, rfl, blank, rfl, rfl, ?_⟩
  obtain ⟨caches, slabs, bufctls⟩ := Kmm.kmmInit_caches
  simp only [booted, kmmInit, caches, slabs, bufctls, Outcome.ok_bind, Except.toOption,
    Option.getD_some]

theorem reachable_after {calls : List KmmCall} {system : KmmSystem}
    (executed : after calls = some system) : kmmMachine.Reachable system :=
  Machine.Reachable.execute Machine.guard_step (.initial booted_initial) executed

end KmmSystem

namespace Kmm

theorem Ok.supplied {kmm : Kmm} {storage users : List Nat} {view : KmmView} {live : List KmmEntry}
    (ok : Ok kmm storage users view live) (supply : List (Option Nat)) :
    Ok (kmm.supplied supply) storage users view live := ok.congr rfl rfl rfl rfl rfl rfl

end Kmm

namespace KmmSystem

variable {system next : KmmSystem} {ref : KmmCacheRef} {supply : List (Option Nat)}

/-- The objects handed out are live, and the rest of the state fits them. -/
def Consistent (system : KmmSystem) : Prop :=
  ∃ users view, Kmm.Ok system.kmm system.storage users view system.live

theorem Initial.consistent (initial : system.Initial) : system.Consistent := by
  obtain ⟨storage, live, before, obtained, released, returned⟩ := initial
  unfold Consistent
  rw [storage, live]
  exact ⟨[], _, .init obtained released returned⟩

/-- The call does not destroy the cache. -/
def Spares (action : KmmAction) (ref : KmmCacheRef) : Prop :=
  ∀ address, action = .destroy address → ref ≠ .created address

/-- A cache is kept by a call. -/
def Keeps (system next : KmmSystem) (ref : KmmCacheRef) : Prop :=
  Kmm.Keeps system.kmm system.storage system.live next.kmm next.storage next.live ref

theorem Consistent.performs (consistent : system.Consistent) (fresh : system.kmm.SupplyFresh)
    {action : KmmAction} (permitted : system.Permitted action)
    (returned : system.perform action = .ok next) :
    next.Consistent ∧ ∀ ref, Spares action ref → system.Keeps next ref := by
  obtain ⟨users, view, ok⟩ := consistent
  cases action with
  | initStorage index params =>
      obtain ⟨cache, isCache, isNext⟩ := Outcome.bind_eq_ok.mp returned
      cases isNext
      obtain ⟨nextOk, keeps⟩ := ok.initStorage permitted.1 permitted.2 isCache
      exact ⟨⟨users, view, nextOk⟩, fun ref _ => keeps ref⟩
  | create params =>
      obtain ⟨⟨kmm, answer⟩, created, isNext⟩ := Outcome.bind_eq_ok.mp returned
      cases isNext
      obtain ⟨users', view', nextOk, keeps⟩ := ok.create fresh permitted created
      exact ⟨⟨users', view', nextOk⟩, fun ref _ => keeps ref⟩
  | destroy address =>
      obtain ⟨kmm, destroyed, isNext⟩ := Outcome.bind_eq_ok.mp returned
      cases isNext
      obtain ⟨registered, objectFree⟩ := permitted
      rw [ok.accounted.registered] at registered
      have isUser : address ∈ users := by simpa using registered
      obtain ⟨final, view', isFinal, finalOk, keeps, -⟩ := ok.destroy isUser fun mem isLive =>
        objectFree _ isLive rfl
      cases isFinal.symm.trans destroyed
      exact ⟨⟨_, view', finalOk⟩, fun ref spares => keeps ref (spares address rfl)⟩
  | alloc ref =>
      obtain ⟨⟨kmm, object⟩, allocated, isNext⟩ := Outcome.bind_eq_ok.mp returned
      cases isNext
      have isAlloc : cacheAlloc (kmmCalls 1) system.kmm ref = .ok (kmm, object) := allocated
      have result := ok.alloc_returned permitted fresh isAlloc
      rw [show cacheAlloc (kmmCalls 0).nested = cacheAlloc (kmmCalls 1) from rfl, isAlloc] at result
      cases result with
      | object nextOk logged => exact ⟨⟨users, _, nextOk⟩, fun _ _ => logged.keeps⟩
      | null nextOk isCache logged => exact ⟨⟨users, _, nextOk⟩, fun _ _ => logged.keeps⟩
  | free ref mem =>
      obtain ⟨kmm, freed, isNext⟩ := Outcome.bind_eq_ok.mp returned
      cases isNext
      have isFree : cacheFree (kmmCalls 1) system.kmm ref mem = .ok kmm := freed
      obtain ⟨slab, isSlab, -⟩ := ok.accounted.laidOut.home _ (ok.accounted.live_held permitted)
      have member := ok.accounted.slabs _ isSlab
      obtain ⟨view', nextOk, logged⟩ := ok.free_returned member permitted fresh isFree
      exact ⟨⟨users, view', nextOk⟩, fun _ _ => logged.keeps⟩
  | trim ref =>
      obtain ⟨kmm, trims, isNext⟩ := Outcome.bind_eq_ok.mp returned
      cases isNext
      obtain ⟨final, view', isFinal, trimmed, -⟩ := ok.trim permitted
      cases isFinal.symm.trans trims
      exact ⟨⟨users, view', trimmed.ok⟩, fun _ _ => trimmed.logged.keeps⟩
  | trimAll =>
      obtain ⟨kmm, trims, isNext⟩ := Outcome.bind_eq_ok.mp returned
      cases isNext
      obtain ⟨final, view', isFinal, trimmed, -⟩ := ok.trimAll
      cases isFinal.symm.trans trims
      exact ⟨⟨users, view', trimmed.ok⟩, fun _ _ => trimmed.logged.keeps⟩

theorem Consistent.perform (consistent : system.Consistent) (fresh : system.kmm.SupplyFresh)
    {action : KmmAction} (permitted : system.Permitted action)
    (returned : system.perform action = .ok next) : next.Consistent :=
  (consistent.performs fresh permitted returned).1

/-- An object stays live until it is freed. -/
theorem live_of_perform {action : KmmAction} (returned : system.perform action = .ok next)
    {object : KmmEntry} (isLive : object ∈ system.live)
    (stays : action ≠ .free object.1 object.2) : object ∈ next.live := by
  cases action with
  | alloc ref =>
      obtain ⟨⟨kmm, answer⟩, -, isNext⟩ := Outcome.bind_eq_ok.mp returned
      cases isNext
      exact List.mem_append_right _ isLive
  | free ref mem =>
      obtain ⟨kmm, -, isNext⟩ := Outcome.bind_eq_ok.mp returned
      cases isNext
      refine (List.mem_erase_of_ne ?_).mpr isLive
      rintro rfl
      exact stays rfl
  | initStorage | create | destroy | trim | trimAll =>
      obtain ⟨_, -, isNext⟩ := Outcome.bind_eq_ok.mp returned
      cases isNext
      exact isLive

/-- The invariant holds in every state of every run. -/
theorem consistent_of_reachable (reached : kmmMachine.Reachable system) : system.Consistent := by
  have base : ∀ state, kmmMachine.initial state → state.Consistent :=
    fun state initial => @Initial.consistent state initial
  have preserved : ∀ state call next, state.Consistent → kmmMachine.step state call next →
      next.Consistent := by
    rintro state ⟨action, supply⟩ next ⟨users, view, ok⟩ ⟨⟨fresh, permitted⟩, returned⟩
    have supplied : Consistent { state with kmm := state.kmm.supplied supply } :=
      ⟨users, view, ok.supplied supply⟩
    exact supplied.perform fresh permitted returned
  exact reached.invariant base preserved

/-- What a caller of `kmm_cache_alloc` may rely on: an object that was not live, or
`NULL` with the lists of the cache as before. -/
def AllocMeets (system : KmmSystem) (ref : KmmCacheRef) : Outcome (Kmm × Option Nat) → Prop
  | .ok (kmm, some obj) => (ref, obj) ∉ system.live ∧
      Consistent { system with kmm := kmm, live := (ref, obj) :: system.live }
  | .ok (kmm, none) => Consistent { system with kmm := kmm } ∧
      (kmm.cache ref).slabsEmpty = (system.kmm.cache ref).slabsEmpty ∧
      (kmm.cache ref).slabsPartial = (system.kmm.cache ref).slabsPartial ∧
      (kmm.cache ref).slabsFull = (system.kmm.cache ref).slabsFull
  | .error _ => False

theorem allocMeets_of_result {users : List Nat} {outcome : Outcome (Kmm × Option Nat)}
    (result : Kmm.AllocResult (system.kmm.supplied supply) system.storage users system.live ref
      outcome) : system.AllocMeets ref outcome := by
  cases result with
  | object nextOk =>
      refine ⟨fun isLive => ?_, users, _, nextOk⟩
      have nodup := nextOk.accounted.held.nodup_iff.mp nextOk.accounted.laidOut.held_nodup
      have once := (List.nodup_append.mp (List.nodup_append.mp nodup).1).1
      exact (List.nodup_cons.mp once).1 isLive
  | null nextOk isCache =>
      refine ⟨⟨users, _, nextOk⟩, ?_, ?_, ?_⟩
      all_goals
        rw [isCache]
        rfl

/-- An allocation meets what its caller relies on, whenever `ALLOC_PAGE_FN` returns
`NULL`, exactly when the cache is not stuck and a large cache that grows gets a control
block for each buffer after it got a descriptor and a page. -/
theorem alloc_meets_iff (reached : kmmMachine.Reachable system)
    (member : ref ∈ system.kmm.known system.storage)
    (fresh : (system.kmm.supplied supply).SupplyFresh) :
    system.AllocMeets ref (kmmCacheAlloc (system.kmm.supplied supply) ref) ↔
      ¬system.kmm.Stuck ref ∧
      ((system.kmm.cache ref).large = true → system.kmm.NoFreeSlab ref →
        (system.kmm.supplied supply).NoSlab ∨
          (system.kmm.cache ref).slabCapacity ≤ (system.kmm.supplied supply).bufctlsLeft) := by
  obtain ⟨users, view, consistent⟩ := consistent_of_reachable reached
  have ok := consistent.supplied supply
  have iff := ok.alloc_iff member fresh (kmmCalls 0)
  refine Iff.trans ⟨fun meets => ?_, fun result => ?_⟩ iff
  · cases returned : cacheAlloc (kmmCalls 0).nested (system.kmm.supplied supply) ref with
    | error fault =>
        have isAlloc : kmmCacheAlloc (system.kmm.supplied supply) ref = .error fault := returned
        rw [isAlloc] at meets
        exact meets.elim
    | ok result =>
        rw [← returned]
        exact ok.alloc_returned member fresh returned
  · exact allocMeets_of_result result

/-- A static cache of three large objects a slab. -/
def largeTriple : KmmSystem :=
  (after [⟨.initStorage 0 { size := 1300, align := 0 }, []⟩]).get (by decide +kernel)

theorem largeTriple_reachable : kmmMachine.Reachable largeTriple :=
  reachable_after (Option.some_get _).symm

/-- A descriptor and a page are there, but no page for the control blocks. -/
theorem alloc_without_bufctl : ¬largeTriple.AllocMeets (.storage 0)
    (kmmCacheAlloc (largeTriple.kmm.supplied [some 4096, some 8192, none]) (.storage 0)) := by
  obtain ⟨users, view, consistent⟩ := consistent_of_reachable largeTriple_reachable
  have ok := consistent.supplied [some 4096, some 8192, none]
  have stops : kmmCacheAlloc (largeTriple.kmm.supplied [some 4096, some 8192, none])
      (.storage 0) = .error .kassert :=
    ok.alloc_fails (by decide +kernel) (by decide +kernel) (by decide +kernel) (kmmCalls 0)
  rw [stops]
  exact id

theorem alloc_with_bufctls : largeTriple.AllocMeets (.storage 0)
    (kmmCacheAlloc (largeTriple.kmm.supplied [some 4096, some 8192, some 12288]) (.storage 0)) := by
  have isKnown : KmmCacheRef.storage 0 ∈ largeTriple.kmm.known largeTriple.storage := by
    decide +kernel
  have fresh : (largeTriple.kmm.supplied [some 4096, some 8192, some 12288]).SupplyFresh := by
    decide +kernel
  have iff := alloc_meets_iff largeTriple_reachable isKnown fresh
  rw [iff]
  decide +kernel

/-- A release returns without a page from `ALLOC_PAGE_FN` exactly when a large cache
finds a control block, and the only object of a slab is on the list of full slabs. -/
theorem free_without_page_iff (reached : kmmMachine.Reachable system) {mem : Nat}
    (isLive : (ref, mem) ∈ system.live) :
    (∃ next, kmmCacheFree (system.kmm.supplied []) ref mem = .ok next) ↔
      ((system.kmm.cache ref).large = true → ¬system.kmm.NoFreeSlab .largeBufctls) ∧
        system.kmm.OnFull ref mem := by
  obtain ⟨users, view, ok⟩ := consistent_of_reachable reached
  obtain ⟨slab, isSlab, -⟩ := ok.accounted.laidOut.home _ (ok.accounted.live_held isLive)
  exact ok.free_iff (ok.accounted.slabs _ isSlab) isLive (kmmCalls 0)

/-- An object of a large cache is live. -/
def largeLive : KmmSystem :=
  (after [⟨.initStorage 0 { size := 2048, align := 0 }, []⟩,
    ⟨.alloc (.storage 0), [some 4096, some 8192, some 12288]⟩]).get (by decide +kernel)

theorem largeLive_reachable : kmmMachine.Reachable largeLive :=
  reachable_after (Option.some_get _).symm

theorem free_with_bufctl :
    ∃ next, kmmCacheFree (largeLive.kmm.supplied []) (.storage 0) 8196 = .ok next :=
  (free_without_page_iff largeLive_reachable (by decide +kernel)).mpr (by decide +kernel)

/-- The same after `kmm_cache_trim_all` gave the page of the control blocks away. -/
def largeTrimmed : KmmSystem :=
  (after [⟨.initStorage 0 { size := 2048, align := 0 }, []⟩,
    ⟨.alloc (.storage 0), [some 4096, some 8192, some 12288]⟩, ⟨.trimAll, []⟩]).get
    (by decide +kernel)

theorem largeTrimmed_reachable : kmmMachine.Reachable largeTrimmed :=
  reachable_after (Option.some_get _).symm

/-- `NULL` is written to. -/
theorem free_after_trimAll : (KmmCacheRef.storage 0, 8196) ∈ largeTrimmed.live ∧
    ¬∃ next, kmmCacheFree (largeTrimmed.kmm.supplied []) (.storage 0) 8196 = .ok next := by
  obtain ⟨users, view, ok⟩ := consistent_of_reachable largeTrimmed_reachable
  have isLive : (KmmCacheRef.storage 0, 8196) ∈ largeTrimmed.live := by decide +kernel
  refine ⟨isLive, fun returns => ?_⟩
  have needed := ((ok.free_iff (by decide +kernel) isLive (kmmCalls 0)).mp returns).1
  exact needed (by decide +kernel) (by decide +kernel)

end KmmSystem

namespace Kmm

/-- The pages of the slabs of all caches. -/
def slabPages (kmm : Kmm) (storage : List Nat) : List Nat :=
  (kmm.known storage).flatMap fun ref =>
    (kmm.cache ref).allSlabs.map fun slab => (kmm.slab slab).page

variable {kmm : Kmm} {storage users : List Nat} {view : KmmView} {live : List KmmEntry}

/-- The slabs on the lists of the caches are those of the view. -/
theorem Ok.listed_perm (ok : Ok kmm storage users view live) :
    ((kmm.known storage).flatMap fun ref => (kmm.cache ref).allSlabs.map (Prod.mk ref)).Perm
      view.slabs := by
  refine (List.perm_ext_iff_of_nodup ?_ ok.accounted.laidOut.slabs_nodup).mpr fun entry => ?_
  · refine List.nodup_flatMap.mpr ⟨fun ref isKnown => ?_, ?_⟩
    · exact (ok.caches ref isKnown).nodup.map fun _ _ same => congrArg Prod.snd same
    · refine ok.accounted.nodup.imp fun different => ?_
      rintro ⟨ref, slab⟩ isFirst isSecond
      obtain ⟨_, -, first⟩ := List.mem_map.mp isFirst
      obtain ⟨_, -, second⟩ := List.mem_map.mp isSecond
      exact different ((congrArg Prod.fst first).trans (congrArg Prod.fst second).symm)
  · constructor
    · intro isListed
      obtain ⟨ref, isKnown, member⟩ := List.mem_flatMap.mp isListed
      obtain ⟨slab, isSlab, rfl⟩ := List.mem_map.mp member
      exact ((ok.caches ref isKnown).listed slab).mp isSlab
    · intro isSlab
      have isKnown := ok.accounted.slabs entry isSlab
      refine List.mem_flatMap.mpr ⟨entry.1, isKnown, List.mem_map.mpr ⟨entry.2, ?_, rfl⟩⟩
      exact ((ok.caches entry.1 isKnown).listed entry.2).mpr isSlab

theorem Ok.slabPages_perm (ok : Ok kmm storage users view live) :
    (kmm.slabPages storage).Perm (view.slabs.map kmm.page) := by
  have pages := ok.listed_perm.map kmm.page
  rw [List.map_flatMap] at pages
  simp only [List.map_map] at pages
  exact pages

/-- Every page that was obtained is the page of a slab or was released. -/
theorem Ok.pages_balance (ok : Ok kmm storage users view live) :
    kmm.obtained.Perm (kmm.slabPages storage ++ kmm.released) := by
  have balance := ok.accounted.laidOut.balance
  rw [ok.accounted.loose, List.append_nil] at balance
  exact balance.trans (ok.slabPages_perm.symm.append_right _)

end Kmm

namespace KmmSystem

variable {system next : KmmSystem} {ref : KmmCacheRef} {supply : List (Option Nat)}

/-- What one pass of `kmm_cache_trim_all` leaves behind. -/
structure TrimmedAll (system : KmmSystem) (next : Kmm) : Prop where
  registered : next.allocatedCaches = system.kmm.allocatedCaches
  /-- No slab without objects is left. -/
  used : ∀ ref ∈ next.allocatedCaches, ∀ slab ∈ (next.cache ref).allSlabs, next.inuse slab ≠ 0
  /-- Each page of a slab that is gone was released, once. -/
  released : ∃ pages, next.released = pages ++ system.kmm.released ∧ pages.Nodup ∧
    (system.kmm.slabPages system.storage).Perm (pages ++ next.slabPages system.storage)
  balance : (next.obtained.length : Int) - next.released.length =
    (next.slabPages system.storage).length
  live : Consistent { system with kmm := next }
  /-- Destructors are called on objects that are not live. -/
  objectCalls : ∃ calls, next.objectCalls = calls ++ system.kmm.objectCalls ∧
    ∀ call ∈ calls, ∃ ref mem, call = .dtor ref mem ∧ (ref, mem) ∉ system.live

/-- One pass over the registered caches gives every empty slab up. -/
theorem trimAll_of_reachable (reached : kmmMachine.Reachable system) :
    ∃ next, kmmCacheTrimAll (system.kmm.supplied supply) = .ok next ∧ system.TrimmedAll next := by
  obtain ⟨users, view, consistent⟩ := consistent_of_reachable reached
  have ok := consistent.supplied supply
  obtain ⟨next, view', returned, trimmed, emptied⟩ := ok.trimAll
  obtain ⟨pages, isReleased⟩ := trimmed.released
  have before := ok.pages_balance
  have after := trimmed.ok.pages_balance
  rw [trimmed.obtained] at after
  have split : (system.kmm.slabPages system.storage).Perm
      (pages ++ next.slabPages system.storage) := by
    apply (List.perm_append_right_iff system.kmm.released).mp
    refine before.symm.trans (after.trans ?_)
    rw [isReleased, ← List.append_assoc]
    exact List.perm_append_comm.append_right _
  refine ⟨next, returned, trimmed.registered, ?_, ⟨pages, isReleased, ?_, split⟩, ?_,
    ⟨users, view', trimmed.ok⟩, trimmed.objectCalls⟩
  · intro ref isRegistered slab isSlab
    rw [trimmed.registered] at isRegistered
    have member : ref ∈ next.known system.storage := by
      unfold Kmm.known
      rw [trimmed.registered]
      exact List.mem_append_left _ isRegistered
    have cacheOk := trimmed.ok.caches ref member
    rw [KmmCache.mem_allSlabs, emptied ref isRegistered] at isSlab
    rcases isSlab with isEmpty | isPartial | isFull
    · exact (List.not_mem_nil isEmpty).elim
    · exact Nat.ne_of_gt (cacheOk.sorted.inPartial slab isPartial).1
    · rw [cacheOk.sorted.inFull slab isFull]
      exact Nat.ne_of_gt cacheOk.sound.capacity_pos
  · have nodup := ok.slabPages_perm.nodup_iff.mpr
      (List.nodup_append.mp ok.accounted.laidOut.pages).1
    exact (List.nodup_append.mp (split.nodup_iff.mp nodup)).1
  · rw [trimmed.ok.pages_balance.length_eq, List.length_append]
    omega

/-- The pass after which the control blocks of `largeTrimmed` are gone. -/
theorem trimAll_largeLive : ∃ next, kmmCacheTrimAll (largeLive.kmm.supplied []) = .ok next ∧
    largeLive.TrimmedAll next := trimAll_of_reachable largeLive_reachable

end KmmSystem

end Yaeos
