import Yaeos.I686.Run

/-!
# The rights of a page (`arch/i686/vm.c`)

The processor takes the rights to write and to user access from both entries of
a page, and whether it is cached from its table entry.  A directory entry gets
the flags of the first page that is mapped through it and keeps them, and
neither translation of the flags knows `VM_CACHE_OFF`.
-/

namespace Yaeos

/-- `VM_CACHE_OFF`. -/
def vmCacheOff : Nat := 4

/-- `I686VM_TABLE_FLAG_CACHE_OFF`. -/
def i686VmFlagCacheOff : Nat := 8

def hasFlag (flags flag : Nat) : Bool := decide (flags &&& flag ≠ 0)

/-- What an access to a page may do, and whether it goes past the cache. -/
@[ext]
structure PageRights where
  write : Bool
  user : Bool
  cacheOff : Bool
  deriving DecidableEq, Repr

/-- What `enum vm_flags` asks for. -/
def requestedRights (flags : Nat) : PageRights where
  write := hasFlag flags vmWrite
  user := hasFlag flags vmUser
  cacheOff := hasFlag flags vmCacheOff

/-- The rights under two entries. -/
def rightsOf (pde pte : I686VmPge) : PageRights where
  write := hasFlag pde.flags i686VmFlagRw && hasFlag pte.flags i686VmFlagRw
  user := hasFlag pde.flags i686VmFlagUser && hasFlag pte.flags i686VmFlagUser
  cacheOff := hasFlag pte.flags i686VmFlagCacheOff

/-- What the processor grants at an address under a directory. -/
def effectiveRights (frames : I686VmFrames) (treeRoot vaddr : Nat) : PageRights :=
  rightsOf (frames treeRoot (getPdeNdx vaddr)) (pteOf frames treeRoot vaddr)

/-- The flags can be granted: they leave the cache on, and a directory entry that
exists already has the rights that they ask for. -/
def Grantable (frames : I686VmFrames) (treeRoot vaddr flags : Nat) : Prop :=
  hasFlag flags vmCacheOff = false ∧
    ((frames treeRoot (getPdeNdx vaddr)).isPresent = true →
      (hasFlag flags vmWrite = true →
        hasFlag (frames treeRoot (getPdeNdx vaddr)).flags i686VmFlagRw = true) ∧
      (hasFlag flags vmUser = true →
        hasFlag (frames treeRoot (getPdeNdx vaddr)).flags i686VmFlagUser = true))

instance (frames : I686VmFrames) (treeRoot vaddr flags : Nat) :
    Decidable (Grantable frames treeRoot vaddr flags) :=
  inferInstanceAs (Decidable (_ ∧ (_ → (_ → _) ∧ (_ → _))))

@[simp]
theorem hasFlag_table_rw (flags : Nat) :
    hasFlag (i686VmToTableFlags flags) i686VmFlagRw = hasFlag flags vmWrite := by
  unfold hasFlag i686VmToTableFlags
  split <;> split <;> simp_all [i686VmFlagRw, i686VmFlagUser]

@[simp]
theorem hasFlag_table_user (flags : Nat) :
    hasFlag (i686VmToTableFlags flags) i686VmFlagUser = hasFlag flags vmUser := by
  unfold hasFlag i686VmToTableFlags
  split <;> split <;> simp_all [i686VmFlagRw, i686VmFlagUser]

/-- The cache is never turned off. -/
@[simp]
theorem hasFlag_table_cacheOff (flags : Nat) :
    hasFlag (i686VmToTableFlags flags) i686VmFlagCacheOff = false := by
  unfold hasFlag i686VmToTableFlags
  split <;> split <;> rfl

/-- Both levels get the same translation. -/
theorem i686VmToDirFlags_eq (flags : Nat) : i686VmToDirFlags flags = i686VmToTableFlags flags :=
  rfl

variable {frames next base : I686VmFrames} {treeRoot vaddr flags : Nat} {page : Option Nat}

/-- The entries of a page below the windows are not touched by what two sets of
frames may differ in. -/
theorem Agree.effectiveRights_eq (agree : Agree treeRoot next base) (tables : Tables base treeRoot)
    (below : getPdeNdx vaddr < emergencyNdx)
    (present : (base treeRoot (getPdeNdx vaddr)).isPresent = true) :
    effectiveRights next treeRoot vaddr = effectiveRights base treeRoot vaddr := by
  have pde : next treeRoot (getPdeNdx vaddr) = base treeRoot (getPdeNdx vaddr) :=
    agree _ _ fun both => Nat.ne_of_lt below both.2
  have pte : pteOf next treeRoot vaddr = pteOf base treeRoot vaddr := by
    rw [pteOf, pde]
    exact agree _ _ fun both => tables.apart _ below present both.1
  rw [effectiveRights, pde, pte, effectiveRights]

/-- A page that was mapped before the table was made keeps its entries. -/
theorem TableFor.effectiveRights_eq (table : TableFor frames treeRoot page vaddr flags base)
    (tables : Tables frames treeRoot) {other : Nat} (below : getPdeNdx other < emergencyNdx)
    (present : (frames treeRoot (getPdeNdx other)).isPresent = true) :
    (base treeRoot (getPdeNdx other)).isPresent = true ∧
      pteOf base treeRoot other = pteOf frames treeRoot other ∧
      effectiveRights base treeRoot other = effectiveRights frames treeRoot other := by
  obtain ⟨-, -, ⟨-, rfl⟩ | ⟨absent, paddr, -, ⟨-, notRoot, notTable⟩, rfl⟩⟩ := table
  · exact ⟨present, rfl, rfl⟩
  · have different : getPdeNdx other ≠ getPdeNdx vaddr := by
      intro same
      rw [same, absent] at present
      cases present
    have pde : addTable frames treeRoot (paddr / platformPageSize) (i686VmToDirFlags flags) vaddr
        treeRoot (getPdeNdx other) = frames treeRoot (getPdeNdx other) := by
      rw [addTable, I686VmFrames.set_apply, if_neg fun both => different both.2,
        Function.update_of_ne (Ne.symm notRoot)]
    have pte : pteOf (addTable frames treeRoot (paddr / platformPageSize)
        (i686VmToDirFlags flags) vaddr) treeRoot other = pteOf frames treeRoot other := by
      rw [pteOf, pde, addTable, I686VmFrames.set_apply,
        if_neg fun both => tables.apart _ below present both.1,
        Function.update_of_ne (notTable _ below present)]
      rfl
    exact ⟨pde ▸ present, pte, by rw [effectiveRights, pde, pte, effectiveRights]⟩

/-- The write of a table entry is the write of the rights of one page. -/
theorem Tables.effectiveRights_setPte (tables : Tables frames treeRoot)
    (below : getPdeNdx vaddr < emergencyNdx)
    (present : (frames treeRoot (getPdeNdx vaddr)).isPresent = true) (entry : I686VmPge) :
    effectiveRights (setPte frames treeRoot vaddr entry) treeRoot vaddr =
        rightsOf (frames treeRoot (getPdeNdx vaddr)) entry ∧
      ∀ other, getPdeNdx other < emergencyNdx →
        (frames treeRoot (getPdeNdx other)).isPresent = true →
        ¬(getPdeNdx other = getPdeNdx vaddr ∧ getPteNdx other = getPteNdx vaddr) →
        effectiveRights (setPte frames treeRoot vaddr entry) treeRoot other =
          effectiveRights frames treeRoot other := by
  have root : ∀ ndx, setPte frames treeRoot vaddr entry treeRoot ndx =
      frames treeRoot ndx := fun ndx => by
    rw [setPte, I686VmFrames.set_apply,
      if_neg fun both => tables.apart _ below present both.1.symm]
  refine ⟨?_, fun other otherBelow otherPresent different => ?_⟩
  · simp only [effectiveRights, pteOf, root]
    simp [setPte]
  · have pte : pteOf (setPte frames treeRoot vaddr entry) treeRoot other =
        pteOf frames treeRoot other := by
      rw [pteOf, root, setPte, I686VmFrames.set_apply, if_neg]
      · rfl
      · rintro ⟨sameTable, samePte⟩
        exact different
          ⟨tables.distinct _ otherBelow _ below otherPresent present sameTable, samePte⟩
    rw [effectiveRights, root, pte, effectiveRights]

/-- A page gets the rights it is mapped with exactly if they can be granted, and
every page that is mapped already keeps its own. -/
theorem Tables.vmArchPtMap_rights (tables : Tables frames treeRoot) (physAddr : Nat)
    (below : getPdeNdx vaddr < emergencyNdx) (unmapped : walk frames treeRoot vaddr = none)
    (flags : Nat)
    (fresh : (frames treeRoot (getPdeNdx vaddr)).isPresent = false →
      ∃ paddr, page = some paddr ∧ FreshFrame frames treeRoot paddr)
    (mapped : vmArchPtMap frames treeRoot page physAddr vaddr flags = .ok next) :
    (effectiveRights next treeRoot vaddr = requestedRights flags ↔
        Grantable frames treeRoot vaddr flags) ∧
      ∀ other, getPdeNdx other < emergencyNdx → walk frames treeRoot other ≠ none →
        effectiveRights next treeRoot other = effectiveRights frames treeRoot other := by
  obtain ⟨next', base, mapped', table, agree, idle⟩ :=
    tables.vmArchPtMap_agree physAddr below unmapped flags fresh
  rw [mapped] at mapped'
  cases mapped'
  let entry : I686VmPge :=
    { isPresent := true, flags := i686VmToTableFlags flags, paddr := physAddr >>> 12 }
  have tablesSet := (table.tables.set_pte below table.present entry).1
  obtain ⟨own, others⟩ := table.tables.effectiveRights_setPte below table.present entry
  have root : ∀ ndx, setPte base treeRoot vaddr entry treeRoot ndx = base treeRoot ndx :=
    fun ndx => by
      rw [setPte, I686VmFrames.set_apply,
        if_neg fun both => table.tables.apart _ below table.present both.1.symm]
  refine ⟨?_, fun other otherBelow otherMapped => ?_⟩
  · rw [agree.effectiveRights_eq tablesSet below (by rw [root]; exact table.present), own]
    obtain ⟨-, -, ⟨present, rfl⟩ | ⟨absent, paddr, -, -, rfl⟩⟩ := table
    · simp only [rightsOf, requestedRights, Grantable, entry, PageRights.mk.injEq, present,
        hasFlag_table_rw, hasFlag_table_user, hasFlag_table_cacheOff, forall_const,
        Bool.and_eq_right_iff_imp]
      tauto
    · have pde : addTable frames treeRoot (paddr / platformPageSize) (i686VmToDirFlags flags) vaddr
          treeRoot (getPdeNdx vaddr) =
            { isPresent := true, flags := i686VmToTableFlags flags,
              paddr := paddr / platformPageSize } := I686VmFrames.set_same
      simp only [pde, rightsOf, requestedRights, Grantable, entry, PageRights.mk.injEq, absent,
        hasFlag_table_rw, hasFlag_table_user, hasFlag_table_cacheOff, Bool.and_self, true_and]
      exact ⟨fun cached => ⟨cached.symm, fun present => absurd present (by decide)⟩,
        fun grantable => grantable.1.symm⟩
  · obtain ⟨frame, found⟩ := Option.ne_none_iff_exists'.mp otherMapped
    obtain ⟨otherPresent, ptePresent, -⟩ := walk_eq_some.mp found
    obtain ⟨basePresent, basePte, kept⟩ :=
      table.effectiveRights_eq tables otherBelow otherPresent
    have different :
        ¬(getPdeNdx other = getPdeNdx vaddr ∧ getPteNdx other = getPteNdx vaddr) := by
      rintro ⟨samePde, samePte⟩
      apply otherMapped
      rw [walk, samePde, samePte]
      exact unmapped
    rw [agree.effectiveRights_eq tablesSet otherBelow (by rw [root]; exact basePresent),
      others other otherBelow basePresent different, kept]

/-- A call of `vm_arch_pt_map`; `page` is what `mm_alloc_page` returns if it is called. -/
structure MapCall where
  page : Option Nat
  physAddr : Nat
  virtAddr : Nat
  flags : Nat
  deriving DecidableEq, Repr

namespace MapCall

/-- The same call among the calls of a directory. -/
def toPageTableCall (call : MapCall) : PageTableCall :=
  .map call.page call.physAddr call.virtAddr call.flags

end MapCall

/-- A page that was mapped, with the frames it was mapped in. -/
structure MappedPage where
  before : I686VmFrames
  virtAddr : Nat
  flags : Nat

/-- A directory with the pages that were mapped in it, the last one first. -/
structure MappingLog where
  frames : I686VmFrames
  mapped : List MappedPage

namespace MappingLog

def map (treeRoot : Nat) (log : MappingLog) (call : MapCall) : Outcome MappingLog := do
  let frames ← vmArchPtMap log.frames treeRoot call.page call.physAddr call.virtAddr call.flags
  .ok { frames, mapped :=
    { before := log.frames, virtAddr := call.virtAddr, flags := call.flags } :: log.mapped }

end MappingLog

/-- The runs that only map, from any directory that is well formed. -/
def mappingMachine (treeRoot : Nat) : Machine MappingLog MapCall where
  initial log := Tables log.frames treeRoot ∧ log.mapped = []
  step log call next :=
    call.toPageTableCall.Legal log.frames treeRoot ∧ log.map treeRoot call = .ok next

namespace MappingLog

variable {log : MappingLog}

/-- What holds of a log at every moment. -/
structure Invariant (treeRoot : Nat) (log : MappingLog) : Prop where
  tables : Tables log.frames treeRoot
  below : ∀ page ∈ log.mapped, getPdeNdx page.virtAddr < emergencyNdx
  mapped : ∀ page ∈ log.mapped, walk log.frames treeRoot page.virtAddr ≠ none
  rights : ∀ page ∈ log.mapped,
    effectiveRights log.frames treeRoot page.virtAddr = requestedRights page.flags ↔
      Grantable page.before treeRoot page.virtAddr page.flags

theorem Invariant.map {next : MappingLog} {call : MapCall} (invariant : Invariant treeRoot log)
    (legal : call.toPageTableCall.Legal log.frames treeRoot)
    (called : log.map treeRoot call = .ok next) : Invariant treeRoot next := by
  obtain ⟨frames, mapped, returned⟩ := Outcome.bind_eq_ok.mp called
  cases returned
  obtain ⟨-, ⟨-, below⟩, unmapped, fresh⟩ := legal
  obtain ⟨frames', mapped', tablesNext, walkNext, others⟩ :=
    invariant.tables.vmArchPtMap_ok call.physAddr below unmapped call.flags fresh
  rw [mapped] at mapped'
  cases mapped'
  obtain ⟨own, kept⟩ := invariant.tables.vmArchPtMap_rights call.physAddr below unmapped
    call.flags fresh mapped
  refine ⟨tablesNext, fun page member => ?_, fun page member => ?_, fun page member => ?_⟩
  · rcases List.mem_cons.mp member with rfl | earlier
    · exact below
    · exact invariant.below page earlier
  · rcases List.mem_cons.mp member with rfl | earlier
    · simp [walkNext]
    · have pageMapped := invariant.mapped page earlier
      have different : ¬(getPdeNdx page.virtAddr = getPdeNdx call.virtAddr ∧
          getPteNdx page.virtAddr = getPteNdx call.virtAddr) := by
        rintro ⟨samePde, samePte⟩
        apply pageMapped
        rw [walk, samePde, samePte]
        exact unmapped
      have notShown : getPdeNdx page.virtAddr ≠ recursiveNdx := by
        have pageBelow := invariant.below page earlier
        unfold emergencyNdx at pageBelow
        unfold recursiveNdx
        omega
      rw [others page.virtAddr different, if_neg fun both => notShown both.2.1]
      exact pageMapped
  · rcases List.mem_cons.mp member with rfl | earlier
    · exact own
    · rw [kept page.virtAddr (invariant.below page earlier) (invariant.mapped page earlier)]
      exact invariant.rights page earlier

theorem invariant_of_reachable (reached : (mappingMachine treeRoot).Reachable log) :
    Invariant treeRoot log := by
  apply reached.invariant
  · intro log ⟨tables, none_mapped⟩
    have nothing : ∀ page, page ∉ log.mapped := by simp [none_mapped]
    exact ⟨tables, fun page member => absurd member (nothing page),
      fun page member => absurd member (nothing page),
      fun page member => absurd member (nothing page)⟩
  · intro log call next invariant ⟨legal, called⟩
    exact invariant.map legal called

/-- In every run, a page has the rights it was mapped with exactly if these could
be granted when it was mapped, whatever was mapped afterwards. -/
theorem rights_iff_grantable (reached : (mappingMachine treeRoot).Reachable log) :
    ∀ page ∈ log.mapped,
      effectiveRights log.frames treeRoot page.virtAddr = requestedRights page.flags ↔
        Grantable page.before treeRoot page.virtAddr page.flags :=
  (invariant_of_reachable reached).rights

/-- An empty directory before anything is mapped in it. -/
def start : MappingLog := { frames := PageTableCall.firstDirectory, mapped := [] }

theorem start_reachable : (mappingMachine 1).Reachable start :=
  .initial ⟨PageTableCall.tables_of_reachable PageTableCall.firstDirectory_reachable, rfl⟩

/-- A page without the cache, and a writable page that shares its table. -/
def sharedWindow : Outcome MappingLog := do
  let log ← start.map 1
    { page := some 8192, physAddr := 12288, virtAddr := 0, flags := vmCacheOff }
  log.map 1 { page := none, physAddr := 16384, virtAddr := 4096, flags := vmWrite }

theorem sharedWindow_reachable :
    ∃ log, sharedWindow = .ok log ∧ (mappingMachine 1).Reachable log ∧
      log.mapped.map (fun page =>
        (page.virtAddr, page.flags, effectiveRights log.frames 1 page.virtAddr)) =
          [(4096, vmWrite, ⟨false, false, false⟩), (0, vmCacheOff, ⟨false, false, false⟩)] := by
  let call : MapCall :=
    { page := some 8192, physAddr := 12288, virtAddr := 0, flags := vmCacheOff }
  have firstDone : (start.map 1 call).map (fun log =>
      (walk log.frames 1 4096, (log.frames 1 0).isPresent)) = .ok (none, true) := by
    decide +kernel
  have bothDone : sharedWindow.map (fun log => log.mapped.map fun page =>
      (page.virtAddr, page.flags, effectiveRights log.frames 1 page.virtAddr)) =
        .ok [(4096, vmWrite, ⟨false, false, false⟩), (0, vmCacheOff, ⟨false, false, false⟩)] := by
    decide +kernel
  cases one : start.map 1 call with
  | error fault =>
      rw [one] at firstDone
      cases firstDone
  | ok first =>
      rw [one] at firstDone
      have legal : call.toPageTableCall.Legal start.frames 1 := PageTableCall.firstDirectory_legal
      have reached := start_reachable.step ⟨legal, one⟩
      cases two : sharedWindow with
      | error fault =>
          rw [two] at bothDone
          cases bothDone
      | ok log =>
          rw [two] at bothDone
          injection firstDone with known
          injection known with unmapped present
          have last : first.map 1
              { page := none, physAddr := 16384, virtAddr := 4096, flags := vmWrite } =
                .ok log := (congrArg (· >>= _) one).symm.trans two
          refine ⟨log, rfl, reached.step ⟨?_, last⟩, Except.ok.inj bothDone⟩
          refine ⟨by decide, ⟨by decide, by decide⟩, unmapped, fun absent => ?_⟩
          rw [show getPdeNdx 4096 = 0 by decide, present] at absent
          cases absent

/-- The writable page is not writable, because the read-only page came first;
the page without the cache is cached. -/
theorem rights_lost : ¬∀ log, (mappingMachine 1).Reachable log → ∀ page ∈ log.mapped,
    effectiveRights log.frames 1 page.virtAddr = requestedRights page.flags := by
  intro exact
  obtain ⟨log, -, reached, shown⟩ := sharedWindow_reachable
  have rights := exact log reached
  rcases log with ⟨frames, _ | ⟨page, rest⟩⟩
  · cases shown
  · simp only [List.map_cons, List.cons.injEq, Prod.mk.injEq] at shown
    obtain ⟨⟨-, flags, found⟩, -⟩ := shown
    have asked := rights page (List.mem_cons_self ..)
    rw [found, flags] at asked
    exact absurd asked (by decide)

/-- Neither page of the shared window could be granted its rights. -/
theorem rights_iff_grantable_shared : ∃ log, (mappingMachine 1).Reachable log ∧
    log.mapped.length = 2 ∧
    ∀ page ∈ log.mapped,
      effectiveRights log.frames 1 page.virtAddr = requestedRights page.flags ↔
        Grantable page.before 1 page.virtAddr page.flags := by
  obtain ⟨log, -, reached, shown⟩ := sharedWindow_reachable
  exact ⟨log, reached, by simpa using congrArg List.length shown, rights_iff_grantable reached⟩

end MappingLog

end Yaeos
