import Yaeos.I686.EarlyPaging

/-!
# The page table calls after the boot (`arch/i686/vm.c`)

The first directory has one table already, and this table holds the kernel.  A call keeps the
entries of every page that is mapped, up to the one page it unmaps; so the kernel stays where
it is as long as nobody unmaps it, and its part of the address space is never handed to users.
-/

namespace Yaeos

variable {frames next base : I686VmFrames} {treeRoot vaddr other flags ndx : Nat}
  {page : Option Nat} {entry : I686VmPge}

/-- The two entries of a page are the same. -/
structure SameEntries (frames next : I686VmFrames) (treeRoot vaddr : Nat) : Prop where
  pde : next treeRoot (getPdeNdx vaddr) = frames treeRoot (getPdeNdx vaddr)
  pte : pteOf next treeRoot vaddr = pteOf frames treeRoot vaddr

namespace SameEntries

theorem trans {last : I686VmFrames} (first : SameEntries frames next treeRoot vaddr)
    (second : SameEntries next last treeRoot vaddr) : SameEntries frames last treeRoot vaddr :=
  ⟨second.pde.trans first.pde, second.pte.trans first.pte⟩

theorem walk_eq (same : SameEntries frames next treeRoot vaddr) :
    walk next treeRoot vaddr = walk frames treeRoot vaddr := by
  have pte := same.pte
  unfold pteOf at pte
  simp only [walk, pte]
  rw [same.pde]

theorem effectiveRights_eq (same : SameEntries frames next treeRoot vaddr) :
    effectiveRights next treeRoot vaddr = effectiveRights frames treeRoot vaddr := by
  rw [effectiveRights, same.pde, same.pte, effectiveRights]

end SameEntries

/-- What a call leaves in the closed emergency entry is not an entry of any page below. -/
theorem Agree.sameEntries (agree : Agree treeRoot next base) (tables : Tables base treeRoot)
    (below : getPdeNdx vaddr < emergencyNdx)
    (present : (base treeRoot (getPdeNdx vaddr)).isPresent = true) :
    SameEntries base next treeRoot vaddr := by
  have pde : next treeRoot (getPdeNdx vaddr) = base treeRoot (getPdeNdx vaddr) :=
    agree _ _ fun both => Nat.ne_of_lt below both.2
  refine ⟨pde, ?_⟩
  rw [pteOf, pde]
  exact agree _ _ fun both => tables.apart _ below present both.1

/-- The write of a table entry leaves the directory alone. -/
theorem Tables.setPte_root (tables : Tables frames treeRoot)
    (below : getPdeNdx vaddr < emergencyNdx)
    (present : (frames treeRoot (getPdeNdx vaddr)).isPresent = true) (entry : I686VmPge)
    (ndx : Nat) : setPte frames treeRoot vaddr entry treeRoot ndx = frames treeRoot ndx := by
  rw [setPte, I686VmFrames.set_apply,
    if_neg fun both => tables.apart _ below present both.1.symm]

theorem Tables.setPte_sameEntries (tables : Tables frames treeRoot)
    (below : getPdeNdx vaddr < emergencyNdx)
    (present : (frames treeRoot (getPdeNdx vaddr)).isPresent = true) (entry : I686VmPge)
    (otherBelow : getPdeNdx other < emergencyNdx)
    (otherPresent : (frames treeRoot (getPdeNdx other)).isPresent = true)
    (different : ¬(getPdeNdx other = getPdeNdx vaddr ∧ getPteNdx other = getPteNdx vaddr)) :
    SameEntries frames (setPte frames treeRoot vaddr entry) treeRoot other := by
  have root := tables.setPte_root below present entry
  refine ⟨root _, ?_⟩
  rw [pteOf, root, setPte, I686VmFrames.set_apply, if_neg]
  · rfl
  · rintro ⟨sameTable, samePte⟩
    exact different
      ⟨tables.distinct _ otherBelow _ below otherPresent present sameTable, samePte⟩

/-- A table that is made for one page changes no directory entry that is present. -/
theorem TableFor.root_eq (table : TableFor frames treeRoot page vaddr flags base)
    (present : (frames treeRoot ndx).isPresent = true) :
    base treeRoot ndx = frames treeRoot ndx := by
  obtain ⟨-, -, ⟨-, rfl⟩ | ⟨absent, paddr, -, ⟨-, notRoot, -⟩, rfl⟩⟩ := table
  · rfl
  · have different : ndx ≠ getPdeNdx vaddr := by
      rintro rfl
      rw [absent] at present
      cases present
    rw [addTable, I686VmFrames.set_apply, if_neg fun both => different both.2,
      Function.update_of_ne (Ne.symm notRoot)]

theorem TableFor.sameEntries (table : TableFor frames treeRoot page vaddr flags base)
    (tables : Tables frames treeRoot) (below : getPdeNdx other < emergencyNdx)
    (present : (frames treeRoot (getPdeNdx other)).isPresent = true) :
    SameEntries frames base treeRoot other :=
  ⟨table.root_eq present, (table.effectiveRights_eq tables below present).2.1⟩

/-- `vm_arch_pt_unmap` is a write to the table of the address, too. -/
theorem Tables.vmArchPtUnmap_agree (tables : Tables frames treeRoot)
    (below : getPdeNdx vaddr < emergencyNdx) {frame : Nat}
    (mapped : walk frames treeRoot vaddr = some frame)
    (returned : vmArchPtUnmap frames treeRoot vaddr = .ok next) :
    Agree treeRoot next (setPte frames treeRoot vaddr
      { pteOf frames treeRoot vaddr with isPresent := false }) := by
  obtain ⟨present, ptePresent, -⟩ := walk_eq_some.mp mapped
  obtain ⟨written, done, agree, -⟩ := write_window frames (tables.apart _ below present)
    (getPteNdx vaddr) { pteOf frames treeRoot vaddr with isPresent := false }
  rw [tables.vmArchPtUnmap_eq below present, kassert_ok ptePresent, Outcome.ok_bind] at returned
  cases done.symm.trans returned
  exact agree

/-- `vm_arch_resolve_phys_page` opens the window and closes it again. -/
theorem Tables.vmArchResolvePhysPage_agree (tables : Tables frames treeRoot) {resolved : Nat}
    (below : getPdeNdx vaddr < emergencyNdx) (mapped : walk frames treeRoot vaddr ≠ none)
    (returned : vmArchResolvePhysPage frames treeRoot vaddr = .ok (next, resolved)) :
    Agree treeRoot next frames := by
  obtain ⟨frame, found⟩ := Option.ne_none_iff_exists'.mp mapped
  obtain ⟨present, ptePresent, -⟩ := walk_eq_some.mp found
  have got := tables.getPgeForVaddr_eq present
  have window := tables.emergencyFrame_opened (frames treeRoot (getPdeNdx vaddr)).paddr
  obtain ⟨closed, freed, agree, -⟩ := freeEmergencyEntry_ok
    (opened_emergency frames treeRoot (frames treeRoot (getPdeNdx vaddr)).paddr).1
  simp only [vmArchResolvePhysPage, got, Outcome.ok_bind] at returned
  rw [window, Outcome.ok_bind, tables.opened_pte below present, i686VmPgeGetAddr_ok ptePresent,
    Outcome.ok_bind, freed, Outcome.ok_bind] at returned
  cases returned
  exact agree.trans (agree_set_emergency frames _)

namespace PageTableCall

/-- The call takes the page of an address out of the tables. -/
def Unmaps (call : PageTableCall) (addr : Nat) : Prop :=
  match call with
  | .unmap virtAddr => virtAddr / platformPageSize = addr / platformPageSize
  | _ => False

/-- A call keeps the directory entries that are present. -/
theorem run_pde (tables : Tables frames treeRoot) {call : PageTableCall}
    (legal : call.Legal frames treeRoot) (returned : call.run treeRoot frames = .ok next)
    (below : ndx < emergencyNdx) (present : (frames treeRoot ndx).isPresent = true) :
    next treeRoot ndx = frames treeRoot ndx := by
  cases call with
  | map page physAddr virtAddr flags =>
      obtain ⟨-, ⟨-, virtBelow⟩, unmapped, fresh⟩ := legal
      obtain ⟨next', base, mapped, table, agree, -⟩ :=
        tables.vmArchPtMap_agree physAddr virtBelow unmapped flags fresh
      cases mapped.symm.trans returned
      rw [agree _ _ fun both => Nat.ne_of_lt below both.2,
        table.tables.setPte_root virtBelow table.present, table.root_eq present]
  | unmap virtAddr =>
      obtain ⟨⟨-, virtBelow⟩, mapped⟩ := legal
      obtain ⟨frame, found⟩ := Option.ne_none_iff_exists'.mp mapped
      have agree := tables.vmArchPtUnmap_agree virtBelow found returned
      rw [agree _ _ fun both => Nat.ne_of_lt below both.2,
        tables.setPte_root virtBelow (walk_eq_some.mp found).1]
  | resolve virtPage =>
      obtain ⟨⟨-, virtBelow⟩, mapped⟩ := legal
      obtain ⟨⟨_, resolved⟩, resolves, done⟩ := Outcome.bind_eq_ok.mp returned
      cases done
      exact tables.vmArchResolvePhysPage_agree virtBelow mapped resolves _ _
        fun both => Nat.ne_of_lt below both.2

/-- A call keeps the entries of every page that is mapped, but for the one that it unmaps. -/
theorem run_sameEntries (tables : Tables frames treeRoot) {call : PageTableCall}
    (legal : call.Legal frames treeRoot) (returned : call.run treeRoot frames = .ok next)
    (otherFits : other < addressSpace) (below : getPdeNdx other < emergencyNdx)
    (otherMapped : walk frames treeRoot other ≠ none) (kept : ¬call.Unmaps other) :
    SameEntries frames next treeRoot other := by
  obtain ⟨otherFrame, otherFound⟩ := Option.ne_none_iff_exists'.mp otherMapped
  have otherPresent := (walk_eq_some.mp otherFound).1
  cases call with
  | map page physAddr virtAddr flags =>
      obtain ⟨-, ⟨-, virtBelow⟩, unmapped, fresh⟩ := legal
      obtain ⟨next', base, mapped, table, agree, -⟩ :=
        tables.vmArchPtMap_agree physAddr virtBelow unmapped flags fresh
      cases mapped.symm.trans returned
      have toBase := table.sameEntries tables below otherPresent
      have basePresent : (base treeRoot (getPdeNdx other)).isPresent = true := by
        rw [toBase.pde]
        exact otherPresent
      have different :
          ¬(getPdeNdx other = getPdeNdx virtAddr ∧ getPteNdx other = getPteNdx virtAddr) := by
        rintro ⟨samePde, samePte⟩
        apply otherMapped
        rw [walk, samePde, samePte]
        exact unmapped
      have toSet := table.tables.setPte_sameEntries virtBelow table.present
        { isPresent := true, flags := i686VmToTableFlags flags, paddr := physAddr >>> 12 }
        below basePresent different
      refine (toBase.trans toSet).trans (agree.sameEntries
        (table.tables.set_pte virtBelow table.present _).1 below ?_)
      rw [toSet.pde]
      exact basePresent
  | unmap virtAddr =>
      obtain ⟨⟨virtFits, virtBelow⟩, mapped⟩ := legal
      obtain ⟨frame, found⟩ := Option.ne_none_iff_exists'.mp mapped
      have present := (walk_eq_some.mp found).1
      have agree := tables.vmArchPtUnmap_agree virtBelow found returned
      have toSet := tables.setPte_sameEntries virtBelow present
        { pteOf frames treeRoot virtAddr with isPresent := false } below otherPresent
        fun same => kept ((page_eq_iff otherFits virtFits).mpr ⟨same.1.symm, same.2.symm⟩)
      refine toSet.trans (agree.sameEntries (tables.set_pte virtBelow present _).1 below ?_)
      rw [toSet.pde]
      exact otherPresent
  | resolve virtPage =>
      obtain ⟨⟨-, virtBelow⟩, mapped⟩ := legal
      obtain ⟨⟨_, resolved⟩, resolves, done⟩ := Outcome.bind_eq_ok.mp returned
      cases done
      exact (tables.vmArchResolvePhysPage_agree virtBelow mapped resolves).sameEntries tables
        below otherPresent

section Runs

variable {start final : I686VmFrames} {calls : List PageTableCall}

/-- The tables are well formed in every state of a run that starts with such tables. -/
theorem tables_of_trace (tables : Tables start treeRoot)
    (trace : (pageTableMachine treeRoot).Trace start calls final) : Tables final treeRoot := by
  induction trace with
  | nil => exact tables
  | snoc _ stepped inductionHypothesis =>
    obtain ⟨legal, returned⟩ := stepped
    obtain ⟨next, returned', tablesNext⟩ := tables_run inductionHypothesis legal
    cases returned'.symm.trans returned
    exact tablesNext

/-- A page that nobody unmaps keeps its entries in a whole run. -/
theorem sameEntries_of_trace (tables : Tables start treeRoot) (otherFits : other < addressSpace)
    (below : getPdeNdx other < emergencyNdx) (otherMapped : walk start treeRoot other ≠ none)
    (trace : (pageTableMachine treeRoot).Trace start calls final)
    (kept : ∀ call ∈ calls, ¬call.Unmaps other) : SameEntries start final treeRoot other := by
  induction trace with
  | nil => exact ⟨rfl, rfl⟩
  | snoc before stepped inductionHypothesis =>
    obtain ⟨keptBefore, keptLast⟩ := List.forall_mem_append.mp kept
    obtain ⟨legal, returned⟩ := stepped
    have same := inductionHypothesis keptBefore
    exact same.trans (run_sameEntries (tables_of_trace tables before) legal returned otherFits
      below (same.walk_eq ▸ otherMapped) (keptLast _ (List.mem_singleton_self _)))

/-- A directory entry that is present at the start stays as it is in a whole run. -/
theorem pde_of_trace (tables : Tables start treeRoot) (below : ndx < emergencyNdx)
    (present : (start treeRoot ndx).isPresent = true)
    (trace : (pageTableMachine treeRoot).Trace start calls final) :
    final treeRoot ndx = start treeRoot ndx := by
  induction trace with
  | nil => rfl
  | snoc before stepped inductionHypothesis =>
    obtain ⟨legal, returned⟩ := stepped
    exact (run_pde (tables_of_trace tables before) legal returned below
      (inductionHypothesis ▸ present)).trans inductionHypothesis

end Runs

end PageTableCall

theorem getPdeNdx_high {low : Nat} (inside : low < 1024 * platformPageSize) :
    getPdeNdx (kernelVmOffset + low) = highNdx := by
  have high : highNdx = 768 := by decide
  rw [getPdeNdx_eq, high]
  unfold platformPageSize kernelVmOffset at *
  omega

/-- After the boot the page table calls may come in any order: the first 4 MiB of the kernel are
never open to users, and every segment stays where the boot put it, with the same rights, unless
a call unmaps a page of it. -/
theorem booted_run {image : KernelImage} {frames start final : I686VmFrames}
    {calls : List PageTableCall}
    (blankDirectory : ∀ ndx, (frames image.pd ndx).isPresent = false)
    (blankTable : ∀ ndx, (frames image.pt ndx).isPresent = false)
    (fits : image.bssEnd ≤ recursiveNdx <<< 22) (booted : setupBootPaging image frames = .ok start)
    (trace : (pageTableMachine image.pd).Trace start calls final) :
    Tables final image.pd ∧
      (∀ low < 1024 * platformPageSize,
        (effectiveRights final image.pd (kernelVmOffset + low)).user = false) ∧
      ∀ seg addr, (kernelArchGetSegment image seg).1 ≤ addr →
        addr < (kernelArchGetSegment image seg).2 → (∀ call ∈ calls, ¬call.Unmaps addr) →
        walk final image.pd addr = some ((addr - kernelVmOffset) / platformPageSize) ∧
          effectiveRights final image.pd addr =
            { write := decide (seg = .data ∨ seg = .bss), user := false, cacheOff := false } := by
  have inside : image.bssEnd ≤ kernelVmOffset + 1024 * platformPageSize := by
    by_contra beyond
    rw [setupBootPaging, bootPagingTables_error blankDirectory (by omega) fits,
      Outcome.error_bind] at booted
    cases booted
  rw [setupBootPaging, bootPagingTables_ok blankDirectory inside, Outcome.ok_bind,
    Except.ok.injEq] at booted
  subst booted
  have tables := booted_tables blankDirectory
  have translation := booted_translation inside blankDirectory blankTable
  obtain ⟨high, -⟩ := undoIdentityMapping_pd image blankDirectory
  have highBelow : highNdx < emergencyNdx := by decide
  refine ⟨PageTableCall.tables_of_trace tables trace, fun low inTable => ?_,
    fun seg addr above below kept => ?_⟩
  · have pde := PageTableCall.pde_of_trace tables highBelow (by rw [high]) trace
    rw [effectiveRights, getPdeNdx_high inTable, pde, high, rightsOf]
    have notUser : hasFlag i686VmFlagRw i686VmFlagUser = false := by decide
    simp [notUser]
  · obtain ⟨found, rights⟩ := translation.segment seg addr above below
    have first := (image.segment_bounds seg).1
    have last := (image.segment_bounds seg).2.2.1
    have offset : kernelVmOffset + (addr - kernelVmOffset) = addr := by
      unfold kernelVmOffset
      omega
    have pde := getPdeNdx_high (show addr - kernelVmOffset < 1024 * platformPageSize by omega)
    rw [offset] at pde
    have same := PageTableCall.sameEntries_of_trace tables
      (by unfold kernelVmOffset platformPageSize addressSpace at *; omega)
      (by rw [pde]; exact highBelow) (by rw [found]; exact Option.some_ne_none _) trace kept
    exact ⟨same.walk_eq.trans found, same.effectiveRights_eq.trans rights⟩

/-- The first tables of the small image. -/
def smallTables : I686VmFrames :=
  undoIdentityMapping smallImage (bootTables smallImage fun _ _ => .zero)

/-- A page for users, behind the image. -/
def userPage : PageTableCall := .map none 0x200000 0xC0200000 (vmWrite ||| vmUser)

theorem userPage_legal : userPage.Legal smallTables smallImage.pd := by
  have translation : BootTranslation smallImage smallTables :=
    booted_translation (by decide) (fun _ => rfl) fun _ => rfl
  refine ⟨by decide, ⟨by decide, by decide⟩, ?_, fun absent => ?_⟩
  · refine translation.behind 0x200000 (by decide) (by decide) fun seg => ?_
    cases seg <;> decide
  · have pde : getPdeNdx 0xC0200000 = highNdx := by decide
    obtain ⟨present, -⟩ := @undoIdentityMapping_pd (fun _ _ => .zero) smallImage fun _ => rfl
    rw [pde, smallTables, present] at absent
    cases absent

theorem booted_run_userPage : ∃ final,
    (pageTableMachine smallImage.pd).Trace smallTables [userPage] final ∧
      (effectiveRights final smallImage.pd 0xC0200000).user = false ∧
      walk final smallImage.pd 0xC0100000 = some 0x100 := by
  have booted : setupBootPaging smallImage (fun _ _ => .zero) = .ok smallTables := by
    rw [setupBootPaging, bootPagingTables_ok (fun _ => rfl) (by decide), Outcome.ok_bind]
    rfl
  have tables : Tables smallTables smallImage.pd := booted_tables fun _ => rfl
  obtain ⟨final, returned, -⟩ := PageTableCall.tables_run tables userPage_legal
  have trace : (pageTableMachine smallImage.pd).Trace smallTables [userPage] final :=
    .snoc .nil ⟨userPage_legal, returned⟩
  obtain ⟨-, notUser, kept⟩ :=
    booted_run (fun _ => rfl) (fun _ => rfl) (by decide) booted trace
  refine ⟨final, trace, notUser 0x200000 (by decide), ?_⟩
  exact (kept .text 0xC0100000 (by decide) (by decide) (by simp [userPage,
    PageTableCall.Unmaps])).1

end Yaeos
