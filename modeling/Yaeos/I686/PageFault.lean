import Yaeos.Kheap.Mapping
import Yaeos.Mm.Addr
import Yaeos.VmSpace.Run

/-!
# Page faults (`arch/i686/vm.c`)

The handler looks for the area around the fault address and leaves the rest to the area: a page
of a zone is mapped to its low counterpart, a page of a heap chunk to a free frame, and the
other areas of the kernel take no faults.
-/

namespace Yaeos

variable {Mm : Type} {ops : MmOps Mm} {occupied : Mm → Nat → Prop}

/-- What `ops.handle_pg_fault` of an area is set to. -/
inductive PgFaultHandler where
  /-- `addr_pgfault_handler_maplow`. -/
  | maplow
  /-- `chunk_pgfault_handler`. -/
  | chunk
  /-- `vm_pgfault_handle_panic`. -/
  | panic
  deriving DecidableEq, Repr

/-- `CURRENT_KERNEL` with the handlers of its areas, and the offset of the high memory. -/
structure KernelSpace where
  addr : AddrOffset
  space : VmSpace
  handlePgFault : Nat → Option PgFaultHandler

/-- `addr_pgfault_handler_maplow` for the area of a zone, which has the flags `VM_WRITE`, with
the page for the table. -/
def zonePgfaultHandler (ops : MmOps Mm) (addr : AddrOffset) (heap : Kheap Mm)
    (area faultAddr : Nat) : Outcome (Kheap Mm) := do
  let (mm, page) ← tablePage ops heap (alignRounddown faultAddr platformPageSize)
  let frames ← addrPgfaultHandlerMaplow addr heap.frames page area heap.rootDir vmWrite faultAddr
  .ok { heap with frames := frames, mm := mm }

/-- `CURRENT_USER` is `NULL`, nothing sets it.  `trimmed` is the heap after `kmm_cache_trim_all`,
if the handler gets there. -/
def i686VmPgFaultHandler (ops : MmOps Mm) (rounds : Nat) (kernel : KernelSpace) (heap : Kheap Mm)
    (trimmed : Outcome (Kheap Mm)) (faultAt : Nat) : Outcome (Kheap Mm) := do
  let isHigh ← addrIsHigh kernel.addr faultAt
  kassert (isHigh = true)
  match ← vmFaultArea rounds kernel.space faultAt with
  | none => .error .panic
  | some area =>
      match kernel.handlePgFault area with
      | some .maplow => zonePgfaultHandler ops kernel.addr heap area faultAt
      | some .chunk =>
          match heap.chunks.find? fun chunk => chunk.base = (kernel.space.areas area).base with
          | none => .error .kassert
          | some chunk => chunkPgfaultHandler ops heap chunk faultAt trimmed
      | some .panic => .error .panic
      | none => .error .panic

/-- An access to memory: without a translation the handler runs first. -/
def accessMemory (ops : MmOps Mm) (rounds : Nat) (kernel : KernelSpace) (heap : Kheap Mm)
    (trimmed : Outcome (Kheap Mm)) (addr : Nat) : Outcome (Kheap Mm) :=
  if (walk heap.frames heap.rootDir addr).isSome then .ok heap
  else i686VmPgFaultHandler ops rounds kernel heap trimmed addr

/-! ## The area of a fault -/

theorem rbtreeSearchLoop_extends {Addr Data : Type} {rounds more : Nat} (fewer : rounds ≤ more)
    (rbt : Rbtree Addr Data) (value : Data) (cmpf : RbtreeCmpFn Data) (node : Option Addr) :
    Outcome.Extends (rbtreeSearchLoop rbt value cmpf rounds node)
      (rbtreeSearchLoop rbt value cmpf more node) := by
  induction rounds generalizing more node with
  | zero =>
      cases node with
      | none => simp [rbtreeSearchLoop, Outcome.Extends]
      | some => simp [rbtreeSearchLoop, Outcome.Extends]
  | succ rounds inductionHypothesis =>
      obtain ⟨more, rfl⟩ := Nat.exists_eq_succ_of_ne_zero (Nat.ne_zero_of_lt fewer)
      have later := inductionHypothesis (Nat.le_of_succ_le_succ fewer)
      cases node with
      | none => simp [rbtreeSearchLoop, Outcome.Extends]
      | some node =>
          unfold rbtreeSearchLoop
          exact .seq _ fun _ => .ite (.refl _) (.ite (later _) (.seq _ fun _ => later _))

namespace VmSpace

variable {space : VmSpace} {tree : Tree Nat} {rounds faultAt : Nat}

theorem position_eq_zero {areas : Nat → VmArea} {area : Nat} (proper : (areas area).Proper) :
    position areas faultAt area = 0 ↔ (areas area).Contains faultAt := by
  have last := proper.last_eq
  unfold VmArea.Contains VmArea.Proper position at *
  split_ifs
  · omega
  · omega
  · exact ⟨False.elim, fun both => by omega⟩

theorem Synced.position_monotone (synced : space.Synced tree) (faultAt : Nat) :
    Rbtree.Monotone (position space.areas faultAt) tree.inorder := by
  refine synced.apart.imp_of_mem fun {first second} firstMember secondMember before => ?_
  have firstProper := (synced.named first firstMember).2.2
  have firstLast := firstProper.last_eq
  have secondLast := (synced.named second secondMember).2.2.last_eq
  unfold VmArea.Before VmArea.Proper position at *
  split_ifs <;> omega

/-- Areas that share an address are the same. -/
theorem Synced.area_unique (synced : space.Synced tree) {first second : Nat}
    (firstMember : first ∈ tree.inorder) (secondMember : second ∈ tree.inorder)
    (inFirst : (space.areas first).Contains faultAt)
    (inSecond : (space.areas second).Contains faultAt) : first = second := by
  by_contra different
  have firstProper := (synced.named first firstMember).2.2.1
  have secondProper := (synced.named second secondMember).2.2.1
  have apart := synced.separated firstMember secondMember different
  unfold VmArea.Contains VmArea.Disjoint VmArea.Before at *
  omega

/-- The search finds the area around the address, if there is one. -/
theorem Synced.faultArea (synced : space.Synced tree) (faultAt : Nat) :
    ∃ found, (∀ rounds ≥ tree.inorder.length, vmFaultArea rounds space faultAt = .ok found) ∧
      ∀ area, found = some area ↔
        area ∈ tree.inorder ∧ (space.areas area).Contains faultAt := by
  have compared : Rbtree.Compares space.rbAreas (vmAreaRbtcmpfnAreaToAddr space.areas) faultAt
      (position space.areas faultAt) tree.inorder := by
    intro area member
    obtain ⟨named, data, -⟩ := synced.named area member
    simp only [data, vmAreaRbtcmpfnAreaToAddr, kassert_ok named, Outcome.ok_bind, position]
    split_ifs <;> rfl
  obtain ⟨found, searched, isFound, nothing⟩ := synced.focus.holds.searchLoop compared
    (synced.position_monotone faultAt) (Nat.le_refl tree.inorder.length)
  have contains : ∀ area ∈ tree.inorder,
      position space.areas faultAt area = 0 ↔ (space.areas area).Contains faultAt :=
    fun area member => position_eq_zero (synced.named area member).2.2
  refine ⟨found, fun rounds enough => ?_, fun area => ⟨fun isArea => ?_, fun both => ?_⟩⟩
  · have looked := rbtreeSearchLoop_extends enough _ _ _ _ _ searched
    rw [vmFaultArea, rbtreeSearch, synced.focus.root_eq, looked, Outcome.ok_bind]
    cases found with
    | none => rfl
    | some area =>
        obtain ⟨-, data, -⟩ := synced.named area (isFound area rfl).1
        exact congrArg (fun data => Except.ok (some data)) data
  · obtain ⟨member, here⟩ := isFound area isArea
    exact ⟨member, (contains area member).mp here⟩
  · obtain ⟨member, inArea⟩ := both
    cases found with
    | none => exact absurd ((contains area member).mpr inArea) (nothing rfl area member)
    | some other =>
        obtain ⟨otherMember, here⟩ := isFound other rfl
        rw [synced.area_unique otherMember member ((contains other otherMember).mp here) inArea]

/-- A search that returns has found the area around the address or there is none, however many
rounds it took. -/
theorem Synced.faultArea_eq_some (synced : space.Synced tree) {found : Option Nat}
    (returned : vmFaultArea rounds space faultAt = .ok found) (area : Nat) :
    found = some area ↔ area ∈ space.sortedAreas ∧ (space.areas area).Contains faultAt := by
  obtain ⟨found', always, isFound⟩ := synced.faultArea faultAt
  have more : Outcome.Extends (vmFaultArea rounds space faultAt)
      (vmFaultArea (max rounds tree.inorder.length) space faultAt) :=
    (rbtreeSearchLoop_extends (Nat.le_max_left ..) _ _ _ _).bind fun _ => .refl _
  cases (more found returned).symm.trans (always _ (Nat.le_max_right ..))
  rw [isFound, synced.sorted]

end VmSpace

/-! ## What a fault does -/

section Handler

variable {kernel : KernelSpace} {heap heapNext : Kheap Mm} {mm : Mm} {frames : I686VmFrames}
  {treeRoot vaddr physAddr faultAt rounds : Nat}

/-- A page can be mapped: it is not behind the emergency entry, has no translation yet, and its
table exists or gets a page. -/
def Mappable (ops : MmOps Mm) (heap : Kheap Mm) (mm : Mm) (vaddr : Nat) : Prop :=
  getPdeNdx vaddr ≠ emergencyNdx ∧ walk heap.frames heap.rootDir vaddr = none ∧
    ((heap.frames heap.rootDir (getPdeNdx vaddr)).isPresent = true ∨
      ∃ next paddr, ops.allocPage mm = .ok (next, some paddr))

theorem HandsOutFree.grows (spec : HandsOutFree ops occupied) {before after : Mm}
    {page : Option Nat} (allocated : ops.allocPage before = .ok (after, page)) {frame : Nat}
    (used : occupied before frame) : occupied after frame := by
  cases page with
  | none => exact (spec.null _ _ allocated frame).mpr used
  | some paddr => exact ((spec.page _ _ _ allocated).2.2.2 frame).mpr (.inr used)

/-- A directory whose frames are occupied stays one. -/
theorem Owned.mono {used more : Nat → Prop} (owned : Owned used frames treeRoot)
    (grows : ∀ frame, used frame → more frame) : Owned more frames treeRoot :=
  ⟨owned.tables, grows _ owned.root,
    fun ndx below present => grows _ (owned.table ndx below present)⟩

/-- Exactly the pages that can be mapped are mapped. -/
theorem heapPtMap_iff (spec : HandsOutFree ops occupied)
    (owned : Owned (occupied heap.mm) heap.frames heap.rootDir)
    (below : getPdeNdx vaddr < recursiveNdx) :
    (∃ next, heapPtMap ops heap physAddr vaddr = .ok next) ↔ Mappable ops heap heap.mm vaddr := by
  constructor
  · rintro ⟨next, mapped⟩
    have unmapped := (heapPtMap_spec spec owned below mapped).1
    simp only [heapPtMap, Outcome.bind_eq_ok, Except.ok.injEq] at mapped
    obtain ⟨⟨mm, page⟩, ready, frames, returned, -⟩ := mapped
    refine ⟨fun window => owned.tables.vmArchPtMap_emergency window returned, unmapped, ?_⟩
    by_cases present : (heap.frames heap.rootDir (getPdeNdx vaddr)).isPresent = true
    · exact .inl present
    · rw [tablePage, i686VmGetPge, if_neg present] at ready
      cases page with
      | none =>
          rw [vmArchPtMap, ensureTable, i686VmGetPge, if_neg present] at returned
          cases returned
      | some paddr => exact .inr ⟨mm, paddr, ready⟩
  · rintro ⟨notEmergency, unmapped, table⟩
    have inTables : getPdeNdx vaddr < emergencyNdx := by
      unfold emergencyNdx recursiveNdx at *
      omega
    by_cases present : (heap.frames heap.rootDir (getPdeNdx vaddr)).isPresent = true
    · have noTable : (heap.frames heap.rootDir (getPdeNdx vaddr)).isPresent = false →
          ∃ paddr, none = some paddr ∧ FreshFrame heap.frames heap.rootDir paddr := by
        intro absent
        rw [absent] at present
        cases present
      obtain ⟨next, mapped, -⟩ :=
        owned.tables.vmArchPtMap_ok physAddr inTables unmapped heapVmFlags noTable
      refine ⟨{ heap with frames := next }, ?_⟩
      rw [heapPtMap, tablePage, i686VmGetPge, if_pos present, Outcome.ok_bind]
      dsimp only
      rw [mapped, Outcome.ok_bind]
    · obtain ⟨mm, paddr, allocated⟩ := table.resolve_left present
      obtain ⟨aligned, -, unused, -⟩ := spec.page _ _ _ allocated
      have newTable : (heap.frames heap.rootDir (getPdeNdx vaddr)).isPresent = false →
          ∃ page, some paddr = some page ∧ FreshFrame heap.frames heap.rootDir page :=
        fun _ => ⟨paddr, rfl, fresh_of_unused owned aligned unused⟩
      obtain ⟨next, mapped, -⟩ :=
        owned.tables.vmArchPtMap_ok physAddr inTables unmapped heapVmFlags newTable
      refine ⟨{ heap with frames := next, mm := mm }, ?_⟩
      rw [heapPtMap, tablePage, i686VmGetPge, if_neg present, allocated, Outcome.ok_bind]
      dsimp only
      rw [mapped, Outcome.ok_bind]

/-- The handler of a zone maps the page to the low page under it. -/
theorem zonePgfaultHandler_eq {area : Nat} (placed : area ≠ 0) (ready : kernel.addr.ready = true)
    (fits : faultAt < addressSpace)
    (above : kernel.addr.offset < alignRounddown faultAt platformPageSize) :
    zonePgfaultHandler ops kernel.addr heap area faultAt =
      heapPtMap ops heap (alignRounddown faultAt platformPageSize - kernel.addr.offset)
        (alignRounddown faultAt platformPageSize) := by
  simp only [zonePgfaultHandler, AddrOffset.maplow_eq ready placed fits above, heapPtMap,
    heapVmFlags]

/-- It never maps the first page of the high memory. -/
theorem zonePgfaultHandler_above {area : Nat} (placed : area ≠ 0)
    (ready : kernel.addr.ready = true)
    (returned : zonePgfaultHandler ops kernel.addr heap area faultAt = .ok heapNext) :
    kernel.addr.offset < alignRounddown faultAt platformPageSize := by
  by_contra notAbove
  simp only [zonePgfaultHandler, addrPgfaultHandlerMaplow, kassert_ok placed, Outcome.ok_bind,
    AddrOffset.toLow_refused ready (Nat.not_lt.mp notAbove), Outcome.error_bind,
    Outcome.bind_eq_ok, reduceCtorEq, and_false, exists_false] at returned

namespace KernelSpace

/-- The areas of the kernel are whole pages between the offset, which is set to a page, and the
recursive window. -/
structure Ok (kernel : KernelSpace) : Prop where
  reached : vmSpaceMachine.Reachable kernel.space
  ready : kernel.addr.ready = true
  offset : platformPageSize ∣ kernel.addr.offset
  pages : ∀ area ∈ kernel.space.sortedAreas, platformPageSize ∣ (kernel.space.areas area).base ∧
    platformPageSize ∣ (kernel.space.areas area).length
  above : ∀ area ∈ kernel.space.sortedAreas, kernel.addr.offset ≤ (kernel.space.areas area).base
  low : ∀ area ∈ kernel.space.sortedAreas,
    (kernel.space.areas area).base + (kernel.space.areas area).length ≤ recursiveAddr

/-- The chunk that an area of the heap belongs to. -/
def chunkOf (kernel : KernelSpace) (heap : Kheap Mm) (area : Nat) : Option HeapChunk :=
  heap.chunks.find? fun chunk => chunk.base = (kernel.space.areas area).base

/-- What a fault needs to be served without a trim: an area around it that takes faults, a page
that can be mapped, for a zone a page behind the first one of the high memory, for a chunk a page
that was allocated and a free frame. -/
def Serves (ops : MmOps Mm) (kernel : KernelSpace) (heap : Kheap Mm) (faultAt : Nat) : Prop :=
  let page := alignRounddown faultAt platformPageSize
  kernel.addr.offset ≤ faultAt ∧
    ∃ area ∈ kernel.space.sortedAreas, (kernel.space.areas area).Contains faultAt ∧
      ((kernel.handlePgFault area = some .maplow ∧ kernel.addr.offset < page ∧
          Mappable ops heap heap.mm page) ∨
        (kernel.handlePgFault area = some .chunk ∧
          ∃ chunk, kernel.chunkOf heap area = some chunk ∧
            isRegisteredPage chunk page = .ok false ∧
            ∃ mm paddr, ops.allocPage heap.mm = .ok (mm, some paddr) ∧
              Mappable ops heap mm page))

variable {kernel : KernelSpace} {heap heapNext : Kheap Mm} {faultAt rounds : Nat} {fault : Fault}

/-- A page of an area is in the area, and below the recursive window. -/
theorem Ok.page_below (ok : kernel.Ok) {area : Nat} (member : area ∈ kernel.space.sortedAreas)
    (contains : (kernel.space.areas area).Contains faultAt) :
    faultAt < addressSpace ∧
      (kernel.space.areas area).Contains (alignRounddown faultAt platformPageSize) ∧
      getPdeNdx (alignRounddown faultAt platformPageSize) < recursiveNdx := by
  obtain ⟨tree, synced⟩ := VmSpace.synced_of_reachable ok.reached
  have proper := (synced.named area (synced.sorted ▸ member)).2.2
  have below := ok.low area member
  have recursiveFits : recursiveAddr < addressSpace := by decide
  have fits : faultAt < addressSpace := by
    unfold VmArea.Contains VmArea.Proper at *
    omega
  have rounded := alignRounddown_page fits
  obtain ⟨baseCount, isBase⟩ := (ok.pages area member).1
  have inside : (kernel.space.areas area).Contains (alignRounddown faultAt platformPageSize) := by
    rw [rounded]
    unfold VmArea.Contains platformPageSize at *
    omega
  refine ⟨fits, inside, getPdeNdx_lt_recursive ?_⟩
  unfold VmArea.Contains VmArea.Proper at *
  omega

/-- The handler as it goes on when it has found an area. -/
theorem Ok.handler_eq (ok : kernel.Ok) (high : kernel.addr.offset ≤ faultAt) {area : Nat}
    (member : area ∈ kernel.space.sortedAreas)
    (contains : (kernel.space.areas area).Contains faultAt) (heap : Kheap Mm)
    (trimmed : Outcome (Kheap Mm)) :
    ∃ rounds, i686VmPgFaultHandler ops rounds kernel heap trimmed faultAt =
      match kernel.handlePgFault area with
      | some .maplow => zonePgfaultHandler ops kernel.addr heap area faultAt
      | some .chunk =>
          match kernel.chunkOf heap area with
          | none => .error .kassert
          | some chunk => chunkPgfaultHandler ops heap chunk faultAt trimmed
      | some .panic => .error .panic
      | none => .error .panic := by
  obtain ⟨tree, synced⟩ := VmSpace.synced_of_reachable ok.reached
  obtain ⟨found, always, isFound⟩ := synced.faultArea faultAt
  have isArea := (isFound area).mpr ⟨synced.sorted ▸ member, contains⟩
  refine ⟨tree.inorder.length, ?_⟩
  have isHigh : addrIsHigh kernel.addr faultAt = .ok true := by
    rw [AddrOffset.isHigh_eq ok.ready, decide_eq_true high]
  rw [i686VmPgFaultHandler, isHigh, Outcome.ok_bind, kassert_ok rfl, Outcome.ok_bind,
    always _ (Nat.le_refl _), Outcome.ok_bind, isArea]
  rfl

/-- A handler that returns was called at a high address, for the area around it. -/
theorem Ok.handler_returned (ok : kernel.Ok) {trimmed : Outcome (Kheap Mm)}
    (returned : i686VmPgFaultHandler ops rounds kernel heap trimmed faultAt = .ok heapNext) :
    kernel.addr.offset ≤ faultAt ∧
      ∃ area ∈ kernel.space.sortedAreas, (kernel.space.areas area).Contains faultAt ∧
        ((kernel.handlePgFault area = some .maplow ∧
            zonePgfaultHandler ops kernel.addr heap area faultAt = .ok heapNext) ∨
          (kernel.handlePgFault area = some .chunk ∧
            ∃ chunk, kernel.chunkOf heap area = some chunk ∧
              chunkPgfaultHandler ops heap chunk faultAt trimmed = .ok heapNext)) := by
  obtain ⟨tree, synced⟩ := VmSpace.synced_of_reachable ok.reached
  simp only [i686VmPgFaultHandler, AddrOffset.isHigh_eq ok.ready, Outcome.ok_bind,
    Outcome.bind_eq_ok, kassert_eq_ok, decide_eq_true_eq] at returned
  obtain ⟨_, high, found, searched, returned⟩ := returned
  refine ⟨high, ?_⟩
  cases found with
  | none => cases returned
  | some area =>
      obtain ⟨member, contains⟩ := (synced.faultArea_eq_some searched area).mp rfl
      refine ⟨area, member, contains, ?_⟩
      cases handler : kernel.handlePgFault area with
      | none =>
          simp only [handler] at returned
          cases returned
      | some kind =>
          simp only [handler] at returned
          cases kind with
          | maplow => exact .inl ⟨rfl, returned⟩
          | panic => cases returned
          | chunk =>
              refine .inr ⟨rfl, ?_⟩
              cases chunk : kernel.chunkOf heap area with
              | none =>
                  rw [chunkOf] at chunk
                  simp only [chunk] at returned
                  cases returned
              | some chunk' =>
                  rw [chunkOf] at chunk
                  simp only [chunk] at returned
                  exact ⟨chunk', rfl, returned⟩

/-- One page got a frame, and everything else below the recursive window is as it was. -/
structure Maps (occupied : Mm → Nat → Prop) (heap next : Kheap Mm) (page frame : Nat) : Prop where
  sameChunks : SameChunks next heap
  fresh : walk heap.frames heap.rootDir page = none
  found : walk next.frames heap.rootDir page = some frame
  others : ∀ other, getPdeNdx other < recursiveNdx →
    ¬(getPdeNdx other = getPdeNdx page ∧ getPteNdx other = getPteNdx page) →
    walk next.frames heap.rootDir other = walk heap.frames heap.rootDir other
  owned : Owned (occupied next.mm) next.frames heap.rootDir
  grows : ∀ frame, occupied heap.mm frame → occupied next.mm frame

theorem maps_of_heapPtMap (spec : HandsOutFree ops occupied)
    (owned : Owned (occupied heap.mm) heap.frames heap.rootDir) {physAddr page : Nat}
    (below : getPdeNdx page < recursiveNdx)
    (mapped : heapPtMap ops heap physAddr page = .ok heapNext) :
    Maps occupied heap heapNext page (physAddr / platformPageSize) := by
  obtain ⟨fresh, ownedNext, grows, found, others⟩ := heapPtMap_spec spec owned below mapped
  rw [show physAddr >>> 12 = physAddr / platformPageSize from Nat.shiftRight_eq_div_pow physAddr 12]
    at found
  exact ⟨heapPtMap_sameChunks mapped, fresh, found, others, ownedNext, grows⟩

/-- A page that was allocated for a fault is a frame that nobody had. -/
theorem maps_of_chunk (spec : HandsOutFree ops occupied)
    (owned : Owned (occupied heap.mm) heap.frames heap.rootDir) {page paddr : Nat} {mm : Mm}
    (below : getPdeNdx page < recursiveNdx)
    (allocated : ops.allocPage heap.mm = .ok (mm, some paddr))
    (mapped : heapPtMap ops { heap with mm := mm } paddr page = .ok heapNext) :
    platformPageSize ∣ paddr ∧ ¬occupied heap.mm paddr ∧ occupied heapNext.mm paddr ∧
      Maps occupied heap heapNext page (paddr / platformPageSize) := by
  obtain ⟨aligned, -, unused, marks⟩ := spec.page _ _ _ allocated
  have grown : Owned (occupied mm) heap.frames heap.rootDir :=
    owned.mono fun frame used => spec.grows allocated used
  obtain ⟨sameChunks, fresh, found, others, ownedNext, grows⟩ :=
    maps_of_heapPtMap spec grown below mapped
  exact ⟨aligned, unused, grows _ ((marks paddr).mpr (.inl rfl)), sameChunks, fresh, found,
    others, ownedNext, fun frame used => grows frame (spec.grows allocated used)⟩

theorem Ok.named (ok : kernel.Ok) {area : Nat} (member : area ∈ kernel.space.sortedAreas) :
    area ≠ 0 := by
  obtain ⟨tree, synced⟩ := VmSpace.synced_of_reachable ok.reached
  exact (synced.named area (synced.sorted ▸ member)).1

/-- What a fault came to: a mapping of the low page, or of a new one. -/
theorem Ok.mapped (ok : kernel.Ok)
    (returned : i686VmPgFaultHandler ops rounds kernel heap (.error fault) faultAt =
      .ok heapNext) :
    let page := alignRounddown faultAt platformPageSize
    ∃ area ∈ kernel.space.sortedAreas, (kernel.space.areas area).Contains faultAt ∧
      ((kernel.handlePgFault area = some .maplow ∧
          heapPtMap ops heap (page - kernel.addr.offset) page = .ok heapNext) ∨
        (kernel.handlePgFault area = some .chunk ∧ ∃ mm paddr,
          ops.allocPage heap.mm = .ok (mm, some paddr) ∧
          heapPtMap ops { heap with mm := mm } paddr page = .ok heapNext)) := by
  intro page
  obtain ⟨-, area, member, contains, ⟨isZone, handled⟩ | ⟨isChunk, chunk, found, handled⟩⟩ :=
    ok.handler_returned returned
  · have fits := (ok.page_below member contains).1
    have above := zonePgfaultHandler_above (ok.named member) ok.ready handled
    rw [zonePgfaultHandler_eq (ok.named member) ok.ready fits above] at handled
    exact ⟨area, member, contains, .inl ⟨isZone, handled⟩⟩
  · obtain ⟨-, mm, paddr, allocated, mapped⟩ := chunkPgfaultHandler_touched handled
    exact ⟨area, member, contains, .inr ⟨isChunk, mm, paddr, allocated, mapped⟩⟩

/-- What a fault did that returned. -/
theorem Ok.maps (ok : kernel.Ok) (spec : HandsOutFree ops occupied)
    (owned : Owned (occupied heap.mm) heap.frames heap.rootDir)
    (returned : i686VmPgFaultHandler ops rounds kernel heap (.error fault) faultAt =
      .ok heapNext) :
    let page := alignRounddown faultAt platformPageSize
    ∃ area ∈ kernel.space.sortedAreas, (kernel.space.areas area).Contains faultAt ∧
      ((kernel.handlePgFault area = some .maplow ∧
          Maps occupied heap heapNext page ((page - kernel.addr.offset) / platformPageSize)) ∨
        (kernel.handlePgFault area = some .chunk ∧ ∃ paddr, platformPageSize ∣ paddr ∧
          ¬occupied heap.mm paddr ∧ occupied heapNext.mm paddr ∧
          Maps occupied heap heapNext page (paddr / platformPageSize))) := by
  intro page
  obtain ⟨area, member, contains, mapped⟩ := ok.mapped returned
  have below := (ok.page_below member contains).2.2
  refine ⟨area, member, contains, ?_⟩
  rcases mapped with ⟨isZone, mapped⟩ | ⟨isChunk, mm, paddr, allocated, mapped⟩
  · exact .inl ⟨isZone, maps_of_heapPtMap spec owned below mapped⟩
  · exact .inr ⟨isChunk, paddr, maps_of_chunk spec owned below allocated mapped⟩

/-- The address lies in an area with a handler. -/
def InArea (kernel : KernelSpace) (handler : PgFaultHandler) (addr : Nat) : Prop :=
  ∃ area ∈ kernel.space.sortedAreas, kernel.handlePgFault area = some handler ∧
    (kernel.space.areas area).Contains addr

/-- The low page that a zone maps at an address. -/
def lowFrame (kernel : KernelSpace) (addr : Nat) : Nat :=
  (addr - kernel.addr.offset) / platformPageSize

/-- What the page tables hold of the areas that take faults: pages of zones have the low pages
under them, which are occupied, and pages of chunks have occupied frames of their own that are
under no zone. -/
structure Paged (occupied : Mm → Nat → Prop) (kernel : KernelSpace) (heap : Kheap Mm) :
    Prop where
  owned : Owned (occupied heap.mm) heap.frames heap.rootDir
  reserved : ∀ addr, kernel.InArea .maplow addr →
    occupied heap.mm (kernel.lowFrame addr * platformPageSize)
  zone : ∀ addr frame, kernel.InArea .maplow addr →
    walk heap.frames heap.rootDir addr = some frame → frame = kernel.lowFrame addr
  chunk : ∀ addr frame, kernel.InArea .chunk addr →
    walk heap.frames heap.rootDir addr = some frame → occupied heap.mm (frame * platformPageSize) ∧
      ∀ low, kernel.InArea .maplow low → kernel.lowFrame low ≠ frame
  apart : ∀ first second frame, kernel.InArea .chunk first → kernel.InArea .chunk second →
    walk heap.frames heap.rootDir first = some frame →
    walk heap.frames heap.rootDir second = some frame →
    first / platformPageSize = second / platformPageSize

/-- Addresses of one page lie in one area, which has one handler. -/
theorem Ok.handler_unique (ok : kernel.Ok) {first second : PgFaultHandler} {addr other : Nat}
    (inFirst : kernel.InArea first addr) (inSecond : kernel.InArea second other)
    (samePage : addr / platformPageSize = other / platformPageSize) : first = second := by
  obtain ⟨area, member, handler, contains⟩ := inFirst
  obtain ⟨otherArea, otherMember, otherHandler, otherContains⟩ := inSecond
  obtain ⟨tree, synced⟩ := VmSpace.synced_of_reachable ok.reached
  obtain ⟨baseCount, isBase⟩ := (ok.pages area member).1
  obtain ⟨lengthCount, isLength⟩ := (ok.pages area member).2
  have alsoContains : (kernel.space.areas area).Contains other := by
    have positive := (synced.named area (synced.sorted ▸ member)).2.2.1
    unfold VmArea.Contains platformPageSize at *
    omega
  have same := synced.area_unique (synced.sorted ▸ member) (synced.sorted ▸ otherMember)
    alsoContains otherContains
  rw [same, otherHandler] at handler
  exact (Option.some.inj handler).symm

theorem Ok.inArea_below (ok : kernel.Ok) {handler : PgFaultHandler} {addr : Nat}
    (inArea : kernel.InArea handler addr) :
    addr < addressSpace ∧ getPdeNdx addr < recursiveNdx := by
  obtain ⟨area, member, -, contains⟩ := inArea
  obtain ⟨fits, -, -⟩ := ok.page_below member contains
  obtain ⟨tree, synced⟩ := VmSpace.synced_of_reachable ok.reached
  have proper := (synced.named area (synced.sorted ▸ member)).2.2
  have low := ok.low area member
  refine ⟨fits, getPdeNdx_lt_recursive ?_⟩
  unfold VmArea.Contains VmArea.Proper at *
  omega

/-- A page of an area has its translation afterwards from the fault or from before. -/
theorem Maps.cases {page frame addr found : Nat} {handler : PgFaultHandler} (ok : kernel.Ok)
    (maps : Maps occupied heap heapNext page frame) (pageFits : page < addressSpace)
    (inArea : kernel.InArea handler addr)
    (walked : walk heapNext.frames heapNext.rootDir addr = some found) :
    (addr / platformPageSize = page / platformPageSize ∧ found = frame) ∨
      walk heap.frames heap.rootDir addr = some found := by
  obtain ⟨fits, below⟩ := ok.inArea_below inArea
  rw [maps.sameChunks.2.2] at walked
  by_cases same : getPdeNdx addr = getPdeNdx page ∧ getPteNdx addr = getPteNdx page
  · refine .inl ⟨(page_eq_iff pageFits fits).mpr same, ?_⟩
    rw [walk_congr same.1 same.2, maps.found] at walked
    exact (Option.some.inj walked).symm
  · exact .inr ((maps.others addr below same).symm.trans walked)

theorem pageOf_alignRounddown {addr : Nat} (fits : addr < addressSpace) :
    alignRounddown addr platformPageSize < addressSpace ∧
      alignRounddown addr platformPageSize / platformPageSize = addr / platformPageSize := by
  have rounded := alignRounddown_page fits
  unfold platformPageSize at *
  omega

/-- Two addresses of one page have the same low page under them. -/
theorem Ok.lowFrame_congr (ok : kernel.Ok) {first second : Nat}
    (samePage : first / platformPageSize = second / platformPageSize) :
    kernel.lowFrame first = kernel.lowFrame second := by
  obtain ⟨count, isOffset⟩ := ok.offset
  unfold lowFrame platformPageSize at *
  omega

/-- A fault in a zone keeps the page tables in order: the page gets the low page under it. -/
theorem Paged.zoneFault (paged : Paged occupied kernel heap) (ok : kernel.Ok)
    (fits : faultAt < addressSpace) (inZone : kernel.InArea .maplow faultAt)
    (maps : Maps occupied heap heapNext (alignRounddown faultAt platformPageSize)
      (kernel.lowFrame (alignRounddown faultAt platformPageSize))) :
    Paged occupied kernel heapNext := by
  obtain ⟨pageFits, pageOf⟩ := pageOf_alignRounddown fits
  -- pages of chunks are not affected
  have old : ∀ addr frame, kernel.InArea .chunk addr →
      walk heapNext.frames heapNext.rootDir addr = some frame →
      walk heap.frames heap.rootDir addr = some frame := by
    intro addr frame inChunk walked
    rcases maps.cases ok pageFits inChunk walked with ⟨samePage, -⟩ | before
    · cases ok.handler_unique inZone inChunk (pageOf.symm.trans samePage.symm)
    · exact before
  refine ⟨maps.sameChunks.2.2 ▸ maps.owned,
    fun addr inArea => maps.grows _ (paged.reserved addr inArea),
    fun addr frame inArea walked => ?_, fun addr frame inChunk walked => ?_,
    fun first second frame inFirst inSecond walkedFirst walkedSecond => ?_⟩
  · rcases maps.cases ok pageFits inArea walked with ⟨samePage, isFrame⟩ | before
    · rw [isFrame, ok.lowFrame_congr samePage]
    · exact paged.zone addr frame inArea before
  · obtain ⟨used, notLow⟩ := paged.chunk addr frame inChunk (old addr frame inChunk walked)
    exact ⟨maps.grows _ used, notLow⟩
  · exact paged.apart first second frame inFirst inSecond (old _ _ inFirst walkedFirst)
      (old _ _ inSecond walkedSecond)

/-- So does a fault in a chunk: nobody has the frame that the page gets. -/
theorem Paged.chunkFault (paged : Paged occupied kernel heap) (ok : kernel.Ok)
    (fits : faultAt < addressSpace) (inChunk : kernel.InArea .chunk faultAt) {paddr : Nat}
    (aligned : platformPageSize ∣ paddr) (unused : ¬occupied heap.mm paddr)
    (used : occupied heapNext.mm paddr)
    (maps : Maps occupied heap heapNext (alignRounddown faultAt platformPageSize)
      (paddr / platformPageSize)) : Paged occupied kernel heapNext := by
  obtain ⟨pageFits, pageOf⟩ := pageOf_alignRounddown fits
  have frameOf : paddr / platformPageSize * platformPageSize = paddr := Nat.div_mul_cancel aligned
  -- the new frame was not mapped anywhere in a chunk
  have notOld : ∀ addr, kernel.InArea .chunk addr →
      walk heap.frames heap.rootDir addr ≠ some (paddr / platformPageSize) := by
    intro addr inArea before
    exact unused (frameOf ▸ (paged.chunk addr _ inArea before).1)
  refine ⟨maps.sameChunks.2.2 ▸ maps.owned,
    fun addr inArea => maps.grows _ (paged.reserved addr inArea),
    fun addr frame inArea walked => ?_, fun addr frame inArea walked => ?_,
    fun first second frame inFirst inSecond walkedFirst walkedSecond => ?_⟩
  · rcases maps.cases ok pageFits inArea walked with ⟨samePage, -⟩ | before
    · cases ok.handler_unique inChunk inArea (pageOf.symm.trans samePage.symm)
    · exact paged.zone addr frame inArea before
  · rcases maps.cases ok pageFits inArea walked with ⟨-, rfl⟩ | before
    · rw [frameOf]
      refine ⟨used, fun low inZone isLow => unused ?_⟩
      rw [← frameOf, ← isLow]
      exact paged.reserved low inZone
    · obtain ⟨before, notLow⟩ := paged.chunk addr frame inArea before
      exact ⟨maps.grows _ before, notLow⟩
  · rcases maps.cases ok pageFits inFirst walkedFirst with ⟨firstPage, isNew⟩ | firstBefore
    · rcases maps.cases ok pageFits inSecond walkedSecond with ⟨secondPage, -⟩ | secondBefore
      · exact firstPage.trans secondPage.symm
      · rw [isNew] at secondBefore
        exact absurd secondBefore (notOld second inSecond)
    · rcases maps.cases ok pageFits inSecond walkedSecond with ⟨-, isNew⟩ | secondBefore
      · rw [isNew] at firstBefore
        exact absurd firstBefore (notOld first inFirst)
      · exact paged.apart first second frame inFirst inSecond firstBefore secondBefore

/-- An access keeps the page tables in order, and every page that was mapped keeps its frame. -/
theorem Paged.access (paged : Paged occupied kernel heap) (ok : kernel.Ok)
    (spec : HandsOutFree ops occupied) {addr : Nat}
    (returned : accessMemory ops rounds kernel heap (.error fault) addr = .ok heapNext) :
    Paged occupied kernel heapNext ∧
      ∀ handler other frame, kernel.InArea handler other →
        walk heap.frames heap.rootDir other = some frame →
        walk heapNext.frames heapNext.rootDir other = some frame := by
  unfold accessMemory at returned
  split at returned
  · cases returned
    exact ⟨paged, fun _ _ _ _ mapped => mapped⟩
  · obtain ⟨area, member, contains, served⟩ := ok.maps spec paged.owned returned
    have fits := (ok.page_below member contains).1
    have kept : ∀ {page new}, Maps occupied heap heapNext page new →
        ∀ handler other frame, kernel.InArea handler other →
          walk heap.frames heap.rootDir other = some frame →
          walk heapNext.frames heapNext.rootDir other = some frame := by
      intro page new maps handler other frame inArea mapped
      rw [maps.sameChunks.2.2, maps.others other (ok.inArea_below inArea).2, mapped]
      intro same
      rw [walk_congr same.1 same.2, maps.fresh] at mapped
      cases mapped
    rcases served with ⟨isZone, maps⟩ | ⟨isChunk, paddr, aligned, unused, used, maps⟩
    · exact ⟨paged.zoneFault ok fits ⟨area, member, isZone, contains⟩ maps, kept maps⟩
    · exact ⟨paged.chunkFault ok fits ⟨area, member, isChunk, contains⟩ aligned unused used maps,
        kept maps⟩

/-- The address lies in an area that takes faults. -/
def TakesFaults (kernel : KernelSpace) (addr : Nat) : Prop :=
  kernel.InArea .maplow addr ∨ kernel.InArea .chunk addr

/-- No page of a zone has the low page of another one under it. -/
theorem Ok.lowFrame_injective (ok : kernel.Ok) {first second : Nat}
    (inFirst : kernel.InArea .maplow first) (inSecond : kernel.InArea .maplow second)
    (same : kernel.lowFrame first = kernel.lowFrame second) :
    first / platformPageSize = second / platformPageSize := by
  obtain ⟨area, member, -, contains⟩ := inFirst
  obtain ⟨otherArea, otherMember, -, otherContains⟩ := inSecond
  have above := ok.above area member
  have otherAbove := ok.above otherArea otherMember
  obtain ⟨count, isOffset⟩ := ok.offset
  unfold lowFrame VmArea.Contains platformPageSize at *
  omega

end KernelSpace

end Handler

/-- `kheap_alloc_page` takes a page of a chunk; it gets its frame when it is accessed. -/
inductive KernelAccess where
  | access (addr : Nat)
  | alloc
  deriving DecidableEq, Repr

/-- The runs of accesses of the kernel: at the start the zones have at most the low pages under
them, which are occupied, and no page of a chunk has a frame. -/
def accessMachine (ops : MmOps Mm) (occupied : Mm → Nat → Prop) (kernel : KernelSpace) :
    Machine (Kheap Mm) KernelAccess where
  initial heap := Owned (occupied heap.mm) heap.frames heap.rootDir ∧
    (∀ addr, kernel.InArea .maplow addr →
      occupied heap.mm (kernel.lowFrame addr * platformPageSize) ∧
        ∀ frame, walk heap.frames heap.rootDir addr = some frame → frame = kernel.lowFrame addr) ∧
    ∀ addr, kernel.InArea .chunk addr → walk heap.frames heap.rootDir addr = none
  step heap action next := match action with
    | .access addr => ∃ rounds, accessMemory ops rounds kernel heap (.error .unfinished) addr =
        .ok next
    | .alloc => ∃ page, TakesPage heap page next

namespace KernelSpace

variable {kernel : KernelSpace} {heap heapNext : Kheap Mm}

theorem paged_of_initial (start : (accessMachine ops occupied kernel).initial heap) :
    Paged occupied kernel heap := by
  obtain ⟨owned, zones, chunks⟩ := start
  have unmapped : ∀ addr frame, kernel.InArea .chunk addr →
      walk heap.frames heap.rootDir addr ≠ some frame := by
    intro addr frame inChunk mapped
    rw [chunks addr inChunk] at mapped
    cases mapped
  exact ⟨owned, fun addr inZone => (zones addr inZone).1,
    fun addr frame inZone => (zones addr inZone).2 frame,
    fun addr frame inChunk mapped => absurd mapped (unmapped addr frame inChunk),
    fun first _ frame inFirst _ mapped _ => absurd mapped (unmapped first frame inFirst)⟩

/-- One step keeps the page tables in order and every page that is mapped. -/
theorem Paged.step (paged : Paged occupied kernel heap) (ok : kernel.Ok)
    (spec : HandsOutFree ops occupied) {action : KernelAccess}
    (stepped : (accessMachine ops occupied kernel).step heap action heapNext) :
    Paged occupied kernel heapNext ∧
      ∀ handler addr frame, kernel.InArea handler addr →
        walk heap.frames heap.rootDir addr = some frame →
        walk heapNext.frames heapNext.rootDir addr = some frame := by
  cases action with
  | access addr =>
      obtain ⟨rounds, returned⟩ := stepped
      exact paged.access ok spec returned
  | alloc =>
      obtain ⟨page, chunk, -, -, registered, -, rfl⟩ := stepped
      exact ⟨⟨paged.owned, paged.reserved, paged.zone, paged.chunk, paged.apart⟩,
        fun _ _ _ _ mapped => mapped⟩

theorem paged_of_reachable (ok : kernel.Ok) (spec : HandsOutFree ops occupied)
    (reached : (accessMachine ops occupied kernel).Reachable heap) :
    Paged occupied kernel heap :=
  reached.invariant (fun _ start => paged_of_initial start)
    fun _ _ _ paged stepped => (paged.step ok spec stepped).1

/-- A fault that can be served returns. -/
theorem Ok.served (ok : kernel.Ok) (spec : HandsOutFree ops occupied)
    (owned : Owned (occupied heap.mm) heap.frames heap.rootDir)
    (serves : kernel.Serves ops heap faultAt) :
    ∃ rounds next, i686VmPgFaultHandler ops rounds kernel heap (.error .unfinished) faultAt =
      .ok next := by
  obtain ⟨high, area, member, contains, ⟨isZone, above, mappable⟩ |
    ⟨isChunk, chunk, found, registered, mm, paddr, allocated, mappable⟩⟩ := serves
  · obtain ⟨fits, -, below⟩ := ok.page_below member contains
    obtain ⟨rounds, handler⟩ := ok.handler_eq high member contains heap (.error .unfinished)
    obtain ⟨next, mapped⟩ := (heapPtMap_iff spec owned below).mpr mappable
    refine ⟨rounds, next, handler.trans ?_⟩
    simp only [isZone, zonePgfaultHandler_eq (ok.named member) ok.ready fits above]
    exact mapped
  · obtain ⟨-, -, below⟩ := ok.page_below member contains
    obtain ⟨rounds, handler⟩ := ok.handler_eq high member contains heap (.error .unfinished)
    have grown : Owned (occupied mm) heap.frames heap.rootDir :=
      owned.mono fun frame used => spec.grows allocated used
    have canMap : ∃ next, heapPtMap ops { heap with mm := mm } paddr
        (alignRounddown faultAt platformPageSize) = .ok next :=
      (heapPtMap_iff spec grown below).mpr mappable
    obtain ⟨next, mapped⟩ := canMap
    refine ⟨rounds, next, handler.trans ?_⟩
    simp only [isChunk, found]
    simp only [chunkPgfaultHandler, registered, Outcome.ok_bind, Bool.false_eq_true, if_false,
      allocated, mapped]

/-- The kernel's space with one zone, of one page. -/
def zoneSpace : Option VmSpace :=
  Machine.execute VmSpace.Legal (VmSpace.call 16) [.insert 1 ⟨0xC0003000, 4096⟩]
    (vmSpaceInit VmSpace.noAreas 0xC0000000)

def zoneKernel (space : VmSpace) : KernelSpace where
  addr := { ready := true, offset := 0xC0000000 }
  space := space
  handlePgFault area := if area = 1 then some .maplow else none

theorem zoneSpace_ok : ∃ space, zoneSpace = some space ∧ (zoneKernel space).Ok ∧
    space.sortedAreas = [1] ∧ space.areas 1 = ⟨0xC0003000, 4096⟩ := by
  have result : zoneSpace.map (fun space => (space.sortedAreas, space.areas 1)) =
      some ([1], ⟨0xC0003000, 4096⟩) := by decide
  obtain ⟨space, executed, shape⟩ := Option.map_eq_some_iff.mp result
  simp only [Prod.mk.injEq] at shape
  obtain ⟨listed, record⟩ := shape
  have offset : platformPageSize ∣ 0xC0000000 := ⟨0xC0000, rfl⟩
  refine ⟨space, executed, ⟨VmSpace.reachable_of_execute executed, rfl, offset, ?_, ?_, ?_⟩,
    listed, record⟩ <;>
  · intro area member
    have isZone : area = 1 := by simpa [zoneKernel, listed] using member
    subst isZone
    simp only [zoneKernel, record]
    decide

theorem directoryHeap_page : walk directoryHeap.frames directoryHeap.rootDir 0xC0003000 = none :=
  directoryHeap_unmapped (by decide)

/-- The first access to the zone can be served. -/
theorem zoneSpace_serves {space : VmSpace} (listed : space.sortedAreas = [1])
    (record : space.areas 1 = ⟨0xC0003000, 4096⟩) :
    (zoneKernel space).Serves countingOps directoryHeap 0xC0003123 := by
  have page : alignRounddown 0xC0003123 platformPageSize = 0xC0003000 := by decide
  refine ⟨(by decide : 0xC0000000 ≤ 0xC0003123), 1, by simp [zoneKernel, listed], ?_,
    .inl ⟨rfl, ?_⟩⟩
  · simp only [zoneKernel, record]
    exact ⟨by decide, by decide⟩
  · have frames : countingOps.allocPage 16 = .ok (17, some (16 * platformPageSize)) := by
      simp [countingOps, platformPageSize, addressSpace]
    rw [page]
    exact ⟨(by decide : 0xC0000000 < 0xC0003000), by decide, directoryHeap_page,
      .inr ⟨_, _, frames⟩⟩

end KernelSpace

end Yaeos
