import Yaeos.I686.Run
import Yaeos.Kheap.Growth
import Yaeos.Kmm.Plain
import Yaeos.VmSpace.Occupy

/-!
# Chunks that cannot be created

`create_new_chunk` unwinds what it acquired when a later acquisition returns `NULL`.
Two acquisitions stop the kernel instead: an area for which there is no range, and a
block for which the cache of `kmalloc` has no object.

The function behind `ALLOC_PAGE_FN` is one that answers from a list.  A page that it
takes from a chunk of the heap changes neither `head_list` nor `heap_free_space`.
-/

namespace Yaeos

namespace HeapKernel

variable {Mm : Type}

/-- `ALLOC_PAGE_FN` returns the next answer of the list. -/
def answered (kernel : HeapKernel Mm) : Outcome (HeapKernel Mm × Option Nat) :=
  let kmm := kernel.kmalloc.kmm
  .ok (kernel.setKmm { kmm with supply := kmm.supply.tail }, kmm.supply.head?.join)

/-- The kernel whose pages come from a list. -/
def supplied : KmmHost (HeapKernel Mm) := host answered

/-- What `create_new_chunk` acquires, in the order in which it does. -/
inductive Acquisition where
  /-- The object for the area. -/
  | area
  /-- The range of virtual addresses. -/
  | range
  /-- The object for the chunk data. -/
  | data
  /-- A size of the memory of the manager that `kmalloc` serves. -/
  | size
  /-- An object of the cache that `kmalloc` takes the memory from. -/
  | block
  deriving DecidableEq, Repr

/-- The range the search returns for a chunk. -/
def chunkGap (space : VmSpace) : VmRange :=
  match vmSpaceFindGap space findWithLenAndOffset
    { offset := space.offset, len := chunkAreaMinSpace } with
  | .ok (gap, _) => gap
  | .error _ => { base := 0, len := 0 }

/-- The size of the memory of the manager for a chunk in that range. -/
def chunkBuddySpace (space : VmSpace) : Nat :=
  buddySpace (newChunkLength (chunkGap space).len / platformPageSize)

/-- The first acquisition that fails. -/
def missing (kernel : HeapKernel Mm) : Option Acquisition :=
  match kmmCacheAlloc kernel.kmalloc.kmm areasCache with
  | .ok (kmm, some _) =>
      if kernel.space.Takes chunkAreaMinSpace confHeapMaxChunkSize then
        match kmmCacheAlloc kmm chunkDataCache with
        | .ok (kmm, some _) =>
            match Yaeos.kmalloc { kernel.kmalloc with kmm := kmm }
                (chunkBuddySpace kernel.space) with
            | .ok (_, some _) => none
            | .ok (_, none) => some .size
            | .error _ => some .block
        | _ => some .data
      else some .range
  | _ => some .area

/-- The caches are in order, the areas of the space are apart, and each is a live
object of `AREAS_CACHE` or lies outside the pages of the caches. -/
structure Ready (kernel : HeapKernel Mm) (storage : List Nat) (live : List KmmEntry) : Prop where
  consistent : KmmSystem.Consistent ⟨kernel.kmalloc.kmm, storage, live⟩
  fresh : kernel.kmalloc.kmm.SupplyFresh
  areasKnown : areasCache ∈ kernel.kmalloc.kmm.known storage
  dataKnown : chunkDataCache ∈ kernel.kmalloc.kmm.known storage
  areasIs : kernel.kmalloc.kmm.layout areasCache = areasLayout
  dataIs : kernel.kmalloc.kmm.layout chunkDataCache = chunkDataLayout
  synced : ∃ tree, kernel.space.Synced tree
  paged : kernel.space.Paged
  offset : 0 < kernel.space.offset
  named : ∀ area ∈ kernel.space.sortedAreas,
    (areasCache, area) ∈ live ∨ ¬kernel.kmalloc.kmm.MayUse (pageOf area)

/-- The list of areas, the sequence of the tree, the live objects and `GLOBAL_DATA` are
those of before. -/
structure Restored (kernel next : HeapKernel Mm) (storage : List Nat) (live : List KmmEntry) :
    Prop where
  heap : next.heap = kernel.heap
  areas : next.space.sortedAreas = kernel.space.sortedAreas
  records : ∀ area ∈ kernel.space.sortedAreas, next.space.areas area = kernel.space.areas area
  tree : ∃ tree, next.space.Synced tree
  objects : KmmSystem.Consistent ⟨next.kmalloc.kmm, storage, live⟩

/-- If an acquisition fails, `create_new_chunk` returns `NULL` and leaves everything as
it was. -/
def Unwinds (kernel : HeapKernel Mm) (storage : List Nat) (live : List KmmEntry) (rounds : Nat)
    (memory : Nat → BitVec 32) : Prop :=
  kernel.missing ≠ none → ∃ next,
    createNewChunk supplied rounds memory kernel = .ok (next, none) ∧
      kernel.Restored next storage live

variable {kernel : HeapKernel Mm} {storage users : List Nat} {live : List KmmEntry}
  {rounds : Nat} {memory : Nat → BitVec 32}

theorem isSupplied : (@supplied Mm).Supplied := fun _ => rfl

theorem supplied_alloc (kernel : HeapKernel Mm) (ref : KmmCacheRef) :
    supplied.kmmCacheAlloc kernel ref =
      (kmmCacheAlloc kernel.kmalloc.kmm ref).map fun answer =>
        (kernel.setKmm answer.1, answer.2) := isSupplied.kmmCacheAlloc kernel ref

theorem supplied_free (kernel : HeapKernel Mm) (ref : KmmCacheRef) (mem : Nat) :
    supplied.kmmCacheFree kernel ref mem =
      (kmmCacheFree kernel.kmalloc.kmm ref mem).map kernel.setKmm :=
  isSupplied.kmmCacheFree kernel ref mem

theorem supplied_kmallocObject (kernel : HeapKernel Mm) (cacheIndex : Nat) :
    kmallocObject supplied kernel cacheIndex =
      (Yaeos.kmallocObject kernel.kmalloc cacheIndex).map fun answer =>
        ({ kernel with kmalloc := answer.1 }, answer.2) := by
  unfold kmallocObject Yaeos.kmallocObject
  cases readSlot kernel.kmalloc.caches cacheIndex with
  | error fault => rfl
  | ok cache =>
      cases cache with
      | none => rfl
      | some address =>
          have nonNull : some address ≠ none := Option.some_ne_none _
          simp only [Outcome.ok_bind, kassert_ok nonNull, deref_some, supplied_alloc]
          cases kmmCacheAlloc kernel.kmalloc.kmm (.created address) with
          | error fault => rfl
          | ok answer =>
              obtain ⟨kmm, object⟩ := answer
              simp only [Except.map, Outcome.ok_bind]
              by_cases aligned : checkAlign (object.getD 0) alignofMaxAlign
              · simp only [kassert_ok aligned, Outcome.ok_bind]
                cases object <;> rfl
              · simp only [kassert_error aligned, Outcome.error_bind]

theorem supplied_kmalloc (kernel : HeapKernel Mm) (size : Nat) :
    kmallocBlock supplied kernel size = (Yaeos.kmalloc kernel.kmalloc size).map fun answer =>
      ({ kernel with kmalloc := answer.1 }, answer.2) := by
  unfold kmallocBlock Yaeos.kmalloc
  simp only [log2Ceil_eq, Outcome.ok_bind, supplied_kmallocObject]
  split <;> rfl

theorem plain_of_layout {kmm : Kmm} {ref : KmmCacheRef} {layout : KmmCacheLayout}
    (isLayout : kmm.layout ref = layout) (small : layout.large = false)
    (several : 1 < layout.slabCapacity) : kmm.Plain ref := by
  constructor
  · rw [isLayout]
    exact small
  · rw [isLayout]
    exact several

theorem Ready.areasPlain (ready : kernel.Ready storage live) :
    kernel.kmalloc.kmm.Plain areasCache := plain_of_layout ready.areasIs rfl (by decide)

theorem Ready.dataPlain (ready : kernel.Ready storage live) :
    kernel.kmalloc.kmm.Plain chunkDataCache := plain_of_layout ready.dataIs rfl (by decide)

/-- A new object for an area is not the name of another one. -/
theorem Ready.unnamed (ready : kernel.Ready storage live) {kmm : Kmm} {view : KmmView} {area : Nat}
    (ok : kmm.Ok storage users view ((areasCache, area) :: live))
    (draws : kernel.kmalloc.kmm.Draws kmm) : area ∉ kernel.space.sortedAreas := by
  intro listed
  rcases ready.named area listed with isLive | outside
  · exact (List.nodup_cons.mp ok.live_nodup).1 isLive
  · have isLive : (areasCache, area) ∈ (areasCache, area) :: live := List.mem_cons_self ..
    have inUse := ok.live_inUse isLive
    exact outside (draws.mayUse (.inl inUse))

/-! ## What follows each acquisition -/

/-- A kernel in which the chunk has got its area. -/
structure HasArea (start kernel : HeapKernel Mm) (storage users : List Nat) (live : List KmmEntry)
    (area : Nat) (record : VmArea) : Prop where
  occupied : start.space.Occupied area record kernel.space
  fresh : area ∉ start.space.sortedAreas
  named : area ≠ 0
  objects : ∃ view, kernel.kmalloc.kmm.Ok storage users view ((areasCache, area) :: live)
  areasKnown : areasCache ∈ kernel.kmalloc.kmm.known storage
  dataKnown : chunkDataCache ∈ kernel.kmalloc.kmm.known storage
  areasPlain : kernel.kmalloc.kmm.Plain areasCache
  dataPlain : kernel.kmalloc.kmm.Plain chunkDataCache
  sameHeap : kernel.heap = start.heap

section

variable {start : HeapKernel Mm} {area : Nat} {record : VmArea} {tree : Tree Nat} {view : KmmView}

/-- The release of the area restores the space. -/
theorem HasArea.vmFreeArea (hasArea : start.HasArea kernel storage users live area record)
    (synced : start.space.Synced tree)
    (enough : 2 * start.space.sortedAreas.length + 2 < rounds) :
    ∃ next, vmFreeArea supplied rounds kernel area = .ok next ∧
      start.Restored next storage live := by
  obtain ⟨view, ok⟩ := hasArea.objects
  obtain ⟨space, result, removed, spaceSynced, listed, records⟩ :=
    hasArea.occupied.freed synced hasArea.fresh enough
  obtain ⟨kmm, view', freed, kmmOk, -, -⟩ :=
    ok.free_plain hasArea.areasKnown hasArea.areasPlain (List.mem_cons_self ..)
  rw [List.erase_cons_head] at kmmOk
  refine ⟨{ kernel with space := space }.setKmm kmm, ?_, hasArea.sameHeap, listed, records,
    ⟨result, spaceSynced⟩, users, view', kmmOk⟩
  simp only [HeapKernel.vmFreeArea, kassert_ok hasArea.named, removed, supplied_free, freed,
    Outcome.ok_bind]
  rfl

/-- The chunk data is asked for: the kernel after that, with the object or without. -/
theorem HasArea.data (hasArea : start.HasArea kernel storage users live area record)
    (fresh : kernel.kmalloc.kmm.SupplyFresh) :
    ∃ kmm data, kmmCacheAlloc kernel.kmalloc.kmm chunkDataCache = .ok (kmm, data) ∧
      kernel.kmalloc.kmm.Draws kmm ∧
      ∃ view, kmm.Ok storage users view
        (data.toList.map (Prod.mk chunkDataCache) ++ (areasCache, area) :: live) := by
  obtain ⟨view, ok⟩ := hasArea.objects
  obtain ⟨kmm, data, view', alloc, draws, kmmOk, -⟩ :=
    ok.alloc_plain hasArea.dataKnown fresh hasArea.dataPlain
  exact ⟨kmm, data, alloc, draws, view', kmmOk⟩

/-- The caches change, and the objects are those of before. -/
theorem HasArea.setKmm (hasArea : start.HasArea kernel storage users live area record) {kmm : Kmm}
    (ok : kmm.Ok storage users view ((areasCache, area) :: live))
    (layout : kmm.layout = kernel.kmalloc.kmm.layout)
    (registered : kmm.allocatedCaches = kernel.kmalloc.kmm.allocatedCaches) :
    start.HasArea (kernel.setKmm kmm) storage users live area record := by
  have known : kmm.known storage = kernel.kmalloc.kmm.known storage := by
    unfold Kmm.known
    rw [registered]
  have plain {ref : KmmCacheRef} (before : kernel.kmalloc.kmm.Plain ref) : kmm.Plain ref :=
    ⟨by rw [layout]; exact before.small, by rw [layout]; exact before.several⟩
  refine ⟨hasArea.occupied, hasArea.fresh, hasArea.named, ⟨view, ok⟩, ?_, ?_,
    plain hasArea.areasPlain, plain hasArea.dataPlain, hasArea.sameHeap⟩
  · exact known ▸ hasArea.areasKnown
  · exact known ▸ hasArea.dataKnown

/-- Without the chunk data the area is given back. -/
theorem HasArea.noData (hasArea : start.HasArea kernel storage users live area record)
    (synced : start.space.Synced tree) (fresh : kernel.kmalloc.kmm.SupplyFresh)
    (enough : 2 * start.space.sortedAreas.length + 2 < rounds) {kmm : Kmm}
    (refused : kmmCacheAlloc kernel.kmalloc.kmm chunkDataCache = .ok (kmm, none)) :
    ∃ next, createChunkData supplied rounds memory kernel area = .ok (next, none) ∧
      start.Restored next storage live := by
  obtain ⟨_, _, alloc, draws, view, ok⟩ := hasArea.data fresh
  cases refused.symm.trans alloc
  have after := hasArea.setKmm ok draws.layout draws.registered
  obtain ⟨next, freed, restored⟩ := after.vmFreeArea synced enough
  refine ⟨next, ?_, restored⟩
  simp only [createChunkData, supplied_alloc, refused, Except.map, freed, Outcome.ok_bind]

/-- Without a size that `kmalloc` serves, the chunk data and the area are given back. -/
theorem HasArea.noSize (hasArea : start.HasArea kernel storage users live area record)
    (synced : start.space.Synced tree) (fresh : kernel.kmalloc.kmm.SupplyFresh)
    (enough : 2 * start.space.sortedAreas.length + 2 < rounds) {kmm : Kmm} {data size : Nat}
    (allocated : kmmCacheAlloc kernel.kmalloc.kmm chunkDataCache = .ok (kmm, some data))
    (predicted : buddyPredictReqSpace (record.length / platformPageSize) = .ok size)
    {answered : Kmalloc}
    (refused : Yaeos.kmalloc { kernel.kmalloc with kmm := kmm } size = .ok (answered, none)) :
    ∃ next, createChunkData supplied rounds memory kernel area = .ok (next, none) ∧
      start.Restored next storage live := by
  obtain ⟨_, _, alloc, draws, view, ok⟩ := hasArea.data fresh
  cases allocated.symm.trans alloc
  obtain rfl := kmalloc_null refused
  obtain ⟨freedKmm, view', freed, freedOk, layout, registered⟩ :=
    ok.free_plain (draws.known ▸ hasArea.dataKnown) (draws.plain hasArea.dataPlain)
      (List.mem_cons_self ..)
  rw [Option.toList_some, List.map_singleton, List.singleton_append,
    List.erase_cons_head] at freedOk
  have after := hasArea.setKmm freedOk (layout.trans draws.layout)
    (registered.trans draws.registered)
  obtain ⟨next, released, restored⟩ := after.vmFreeArea synced enough
  refine ⟨next, ?_, restored⟩
  have isRecord : kernel.space.areas area = record := hasArea.occupied.recorded
  simp only [createChunkData, supplied_alloc, allocated, Except.map, Outcome.ok_bind,
    createChunkBuddy]
  simp only [HeapKernel.setKmm] at released ⊢
  simp only [isRecord, predicted, supplied_kmalloc, refused, Except.map, Outcome.ok_bind,
    supplied_free, freed, HeapKernel.setKmm, released]

/-- Without an object for the block nothing is given back. -/
theorem HasArea.noBlock (hasArea : start.HasArea kernel storage users live area record) {kmm : Kmm}
    {data size : Nat}
    (allocated : kmmCacheAlloc kernel.kmalloc.kmm chunkDataCache = .ok (kmm, some data))
    (predicted : buddyPredictReqSpace (record.length / platformPageSize) = .ok size) {fault : Fault}
    (failed : Yaeos.kmalloc { kernel.kmalloc with kmm := kmm } size = .error fault) :
    createChunkData supplied rounds memory kernel area = .error fault := by
  have isRecord : kernel.space.areas area = record := hasArea.occupied.recorded
  simp only [createChunkData, supplied_alloc, allocated, Except.map, Outcome.ok_bind,
    createChunkBuddy, HeapKernel.setKmm, isRecord, predicted, supplied_kmalloc, failed,
    Outcome.error_bind]

end

/-! ## The area -/

theorem chunkAreaMinSpace_le : chunkAreaMinSpace ≤ confHeapMaxChunkSize := by decide

theorem Ready.found (ready : kernel.Ready storage live) :
    vmSpaceFindGap kernel.space findWithLenAndOffset
      { offset := kernel.space.offset, len := chunkAreaMinSpace } =
        .ok (chunkGap kernel.space, { offset := kernel.space.offset, len := chunkAreaMinSpace }) := by
  obtain ⟨range, found, -⟩ := ready.paged.findGap_first chunkAreaMinSpace
  unfold chunkGap
  rw [found]

theorem Ready.noArea (ready : kernel.Ready storage live) {kmm : Kmm}
    (refused : kmmCacheAlloc kernel.kmalloc.kmm areasCache = .ok (kmm, none)) :
    ∃ next, createNewChunk supplied rounds memory kernel = .ok (next, none) ∧
      kernel.Restored next storage live := by
  obtain ⟨users, view, ok⟩ := ready.consistent
  obtain ⟨_, _, view', alloc, -, kmmOk, -⟩ :=
    ok.alloc_plain ready.areasKnown ready.fresh ready.areasPlain
  cases refused.symm.trans alloc
  refine ⟨kernel.setKmm kmm, ?_, rfl, rfl, fun _ _ => rfl, ready.synced, users, view', kmmOk⟩
  simp only [createNewChunk, vmNewAreaWithinSpace, kassert_ok chunkAreaMinSpace_le, ready.found,
    supplied_alloc, refused, Except.map, Outcome.ok_bind]

theorem Ready.noRange (ready : kernel.Ready storage live) {kmm : Kmm} {area : Nat}
    (allocated : kmmCacheAlloc kernel.kmalloc.kmm areasCache = .ok (kmm, some area))
    (misses : ¬kernel.space.Takes chunkAreaMinSpace confHeapMaxChunkSize) :
    createNewChunk supplied rounds memory kernel = .error .kassert := by
  obtain ⟨users, view, ok⟩ := ready.consistent
  obtain ⟨_, _, view', alloc, draws, kmmOk, named⟩ :=
    ok.alloc_plain ready.areasKnown ready.fresh ready.areasPlain
  cases allocated.symm.trans alloc
  obtain ⟨tree, synced⟩ := ready.synced
  simp only [createNewChunk, vmNewAreaWithinSpace, kassert_ok chunkAreaMinSpace_le, ready.found,
    supplied_alloc, allocated, Except.map, Outcome.ok_bind, HeapKernel.setKmm]
  simp only [← bind_assoc]
  rw [synced.occupy_fails ready.paged (named area rfl) (ready.unnamed kmmOk draws) ready.offset
    ready.found misses]
  rfl

theorem Ready.hasArea (ready : kernel.Ready storage live) {kmm : Kmm} {area : Nat}
    (allocated : kmmCacheAlloc kernel.kmalloc.kmm areasCache = .ok (kmm, some area))
    (takes : kernel.space.Takes chunkAreaMinSpace confHeapMaxChunkSize)
    (enough : 2 * kernel.space.sortedAreas.length < rounds) :
    chunkAreaMinSpace ≤ (chunkGap kernel.space).len ∧ kmm.SupplyFresh ∧ ∃ space users,
      createNewChunk supplied rounds memory kernel =
        createChunkData supplied rounds memory { kernel.setKmm kmm with space := space } area ∧
      kernel.HasArea { kernel.setKmm kmm with space := space } storage users live area
        ⟨(chunkGap kernel.space).base, newChunkLength (chunkGap kernel.space).len⟩ := by
  obtain ⟨users, view, ok⟩ := ready.consistent
  obtain ⟨_, _, view', alloc, draws, kmmOk, named⟩ :=
    ok.alloc_plain ready.areasKnown ready.fresh ready.areasPlain
  cases allocated.symm.trans alloc
  obtain ⟨tree, synced⟩ := ready.synced
  have unnamed := ready.unnamed kmmOk draws
  obtain ⟨large, prepared, space, initialised, inserted, occupied⟩ :=
    synced.occupy_of_takes ready.paged (named area rfl) unnamed (by decide) chunkAreaMinSpace_le
      (by decide) (by decide) ready.found takes enough
  refine ⟨large, draws.fresh ready.fresh, space, users, ?_, occupied, unnamed, named area rfl,
    ⟨view', kmmOk⟩, draws.known ▸ ready.areasKnown, draws.known ▸ ready.dataKnown,
    draws.plain ready.areasPlain, draws.plain ready.dataPlain, rfl⟩
  simp only [createNewChunk, vmNewAreaWithinSpace, kassert_ok chunkAreaMinSpace_le, ready.found,
    supplied_alloc, allocated, Except.map, Outcome.ok_bind, HeapKernel.setKmm, initialised,
    inserted]

/-! ## The call -/

theorem chunkBuddySpace_predicted {space : VmSpace}
    (minimal : chunkAreaMinSpace ≤ (chunkGap space).len) :
    buddyPredictReqSpace (newChunkLength (chunkGap space).len / platformPageSize) =
      .ok (chunkBuddySpace space) :=
  buddyPredictReqSpace_eq (Kmalloc.newChunkPages_pos minimal) (Kmalloc.newChunkPages_sizable _)

/-- A failure that stops the kernel. -/
theorem not_unwinds_of_error {fault : Fault} (fails : kernel.missing ≠ none)
    (stopped : createNewChunk supplied rounds memory kernel = .error fault) :
    ¬kernel.Unwinds storage live rounds memory := by
  intro unwinds
  obtain ⟨next, returned, -⟩ := unwinds fails
  cases stopped.symm.trans returned

/-- `create_new_chunk` unwinds exactly if the acquisition that fails is neither the range
nor the block. -/
theorem unwinds_iff (ready : kernel.Ready storage live)
    (enough : 2 * kernel.space.sortedAreas.length + 2 < rounds) (memory : Nat → BitVec 32) :
    kernel.Unwinds storage live rounds memory ↔
      kernel.missing ≠ some .range ∧ kernel.missing ≠ some .block := by
  obtain ⟨tree, synced⟩ := ready.synced
  obtain ⟨_, _, ok⟩ := ready.consistent
  obtain ⟨kmm, object, _, asked, -⟩ :=
    ok.alloc_plain ready.areasKnown ready.fresh ready.areasPlain
  cases object with
  | none =>
      have isMissing : kernel.missing = some .area := by simp only [missing, asked]
      have unwinds : kernel.Unwinds storage live rounds memory := fun _ => ready.noArea asked
      simp [isMissing, unwinds]
  | some area =>
      by_cases takes : kernel.space.Takes chunkAreaMinSpace confHeapMaxChunkSize
      case neg =>
        have isMissing : kernel.missing = some .range := by simp only [missing, asked, if_neg takes]
        have stopped : ¬kernel.Unwinds storage live rounds memory :=
          not_unwinds_of_error (by simp [isMissing]) (ready.noRange asked takes)
        simp [isMissing, stopped]
      obtain ⟨large, fresh, space, users, called, hasArea⟩ :=
        ready.hasArea asked takes (show 2 * kernel.space.sortedAreas.length < rounds by omega)
      obtain ⟨dataKmm, data, dataAsked, -⟩ := hasArea.data fresh
      have dataAsked : kmmCacheAlloc kmm chunkDataCache = .ok (dataKmm, data) := dataAsked
      have predicted := chunkBuddySpace_predicted large
      cases data with
      | none =>
          have isMissing : kernel.missing = some .data := by
            simp only [missing, asked, if_pos takes, dataAsked]
          have unwinds : kernel.Unwinds storage live rounds memory := fun _ =>
            called ▸ hasArea.noData synced fresh enough dataAsked
          simp [isMissing, unwinds]
      | some data =>
          cases served : Yaeos.kmalloc { kernel.kmalloc with kmm := dataKmm }
              (chunkBuddySpace kernel.space) with
          | error fault =>
              have isMissing : kernel.missing = some .block := by
                simp only [missing, asked, if_pos takes, dataAsked, served]
              have stopped : ¬kernel.Unwinds storage live rounds memory :=
                not_unwinds_of_error (by simp [isMissing])
                  (called.trans (hasArea.noBlock dataAsked predicted served))
              simp [isMissing, stopped]
          | ok answer =>
              obtain ⟨answered, block⟩ := answer
              cases block with
              | none =>
                  have isMissing : kernel.missing = some .size := by
                    simp only [missing, asked, if_pos takes, dataAsked, served]
                  have unwinds : kernel.Unwinds storage live rounds memory := fun _ =>
                    called ▸ hasArea.noSize synced fresh enough dataAsked predicted served
                  simp [isMissing, unwinds]
              | some block =>
                  have isMissing : kernel.missing = none := by
                    simp only [missing, asked, if_pos takes, dataAsked, served]
                  simp [Unwinds, isMissing]

/-- The caches for areas and chunk data beside those of `kmalloc.c`, each with free objects. -/
def recordCaches : Option KmallocSystem :=
  Machine.execute KmallocSystem.Legal KmallocSystem.call
    [⟨.kmm (.initStorage 0 { size := sizeofVmArea, align := 0 }), []⟩,
      ⟨.kmm (.initStorage 1 { size := sizeofChunkData, align := 0 }), []⟩,
      ⟨.kmm (.alloc areasCache), [some 8192]⟩, ⟨.kmm (.free areasCache 12172), []⟩,
      ⟨.kmm (.alloc chunkDataCache), [some 12288]⟩, ⟨.kmm (.free chunkDataCache 16308), []⟩]
    KmallocSystem.started

def recorded : KmallocSystem := recordCaches.get (by decide +kernel)

theorem recorded_consistent : recorded.objects.Consistent := by
  have executed : recordCaches = some recorded := (Option.some_get _).symm
  have reached : kmallocMachine.Reachable recorded :=
    .execute Machine.guard_step KmallocSystem.started_reachable executed
  exact (KmallocSystem.sound_of_reachable reached).consistent

theorem recorded_shape : recorded.live = [] ∧ (recorded.state.kmm.supplied []).SupplyFresh ∧
    areasCache ∈ recorded.state.kmm.known recorded.storage ∧
    chunkDataCache ∈ recorded.state.kmm.known recorded.storage ∧
    recorded.state.kmm.layout areasCache = areasLayout ∧
    recorded.state.kmm.layout chunkDataCache = chunkDataLayout ∧
    ¬recorded.state.kmm.InUse (pageOf 1) := by
  decide +kernel

/-- The area behind a gap of some pages. -/
def wall (pages : Nat) : VmArea :=
  { base := (pages + 1) * platformPageSize
    length := addressSpace - (pages + 1) * platformPageSize }

/-- A space with a gap of some pages and nothing else. -/
def walled (pages : Nat) : Option VmSpace :=
  Machine.execute VmSpace.Legal (VmSpace.call 4) [.insert 1 (wall pages)]
    (vmSpaceInit VmSpace.noAreas platformPageSize)

/-- A kernel with that space; `ALLOC_PAGE_FN` returns `NULL`. -/
def walledKernel (pages : Nat) : HeapKernel Unit where
  heap := { chunks := [], heapFreeSpace := 0, rootDir := 1, frames := PageTableCall.firstDirectory,
            mm := () }
  space := (walled pages).getD VmSpace.noAreas
  kmalloc := recorded.state.supplied []

theorem walledKernel_ready {pages : Nat}
    (shape : (walled pages).map (fun space => (space.offset, space.sortedAreas,
      decide space.Paged)) = some (platformPageSize, [1], true)) :
    (walledKernel pages).Ready recorded.storage [] := by
  obtain ⟨space, built, isShape⟩ := Option.map_eq_some_iff.mp shape
  simp only [Prod.mk.injEq, decide_eq_true_eq] at isShape
  obtain ⟨offset, listed, paged⟩ := isShape
  have isSpace : (walledKernel pages).space = space := by
    simp only [walledKernel, built, Option.getD_some]
  obtain ⟨users, view, ok⟩ := recorded_consistent
  obtain ⟨noLive, fresh, areasKnown, dataKnown, areasIs, dataIs, notInUse⟩ := recorded_shape
  constructor
  · rw [← noLive]
    exact ⟨users, view, ok.supplied []⟩
  · exact fresh
  · exact areasKnown
  · exact dataKnown
  · exact areasIs
  · exact dataIs
  · rw [isSpace]
    exact VmSpace.synced_of_reachable (VmSpace.reachable_of_execute built)
  · rw [isSpace]
    exact paged
  · rw [isSpace, offset]
    decide
  · rw [isSpace, listed]
    intro area member
    obtain rfl := List.mem_singleton.mp member
    refine .inr ?_
    rintro (inUse | later)
    · exact notInUse inUse
    · exact List.not_mem_nil later

/-- In a gap of 7432 pages the manager is too large, and what was acquired is given back. -/
theorem tooLarge_unwinds : (walledKernel 7432).missing = some .size ∧
    (walledKernel 7432).Unwinds recorded.storage [] 16 fun _ => 0 := by
  have isMissing : (walledKernel 7432).missing = some .size := by decide +kernel
  have ready : (walledKernel 7432).Ready recorded.storage [] :=
    walledKernel_ready (by decide +kernel)
  refine ⟨isMissing, (unwinds_iff ready (by decide +kernel) fun _ => 0).mpr ?_⟩
  rw [isMissing]
  exact ⟨by decide, by decide⟩

/-- In a gap of one page there is no range; with two pages and no page for the cache of
`kmalloc` there is no block. -/
theorem not_unwinds :
    ((walledKernel 1).Ready recorded.storage [] ∧
      ¬(walledKernel 1).Unwinds recorded.storage [] 16 fun _ => 0) ∧
    (walledKernel 2).Ready recorded.storage [] ∧
      ¬(walledKernel 2).Unwinds recorded.storage [] 16 fun _ => 0 := by
  have noRange : (createNewChunk supplied 16 (fun _ => 0) (walledKernel 1)).map
      (fun answer => answer.2.isSome) = .error .kassert := by decide +kernel
  have noBlock : (createNewChunk supplied 16 (fun _ => 0) (walledKernel 2)).map
      (fun answer => answer.2.isSome) = .error .nullDeref := by decide +kernel
  refine ⟨⟨walledKernel_ready (by decide +kernel),
    not_unwinds_of_error (by decide +kernel) (Outcome.map_eq_error noRange)⟩,
    walledKernel_ready (by decide +kernel),
    not_unwinds_of_error (by decide +kernel) (Outcome.map_eq_error noBlock)⟩

end HeapKernel

end Yaeos
