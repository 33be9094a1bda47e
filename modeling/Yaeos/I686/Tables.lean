import Yaeos.I686.Vm
import Yaeos.Machine.Run

/-!
# The emergency window

Between calls a directory has its recursive entry, no emergency entry, and a
table of its own for every other present entry: this is `Tables`.  Then the
window shows the table it was opened for, and every call is a write to one
table, up to what it leaves in the closed emergency entry (`Agree`).
-/

namespace Yaeos

variable {frames next : I686VmFrames} {treeRoot vaddr other : Nat}

/-- What holds of a directory between calls. -/
structure Tables (frames : I686VmFrames) (treeRoot : Nat) : Prop where
  idle : (frames treeRoot emergencyNdx).isPresent = false
  recursive : (frames treeRoot recursiveNdx).isPresent = true ∧
    (frames treeRoot recursiveNdx).paddr = treeRoot
  apart : ∀ ndx < emergencyNdx, (frames treeRoot ndx).isPresent = true →
    (frames treeRoot ndx).paddr ≠ treeRoot
  distinct : ∀ first < emergencyNdx, ∀ second < emergencyNdx,
    (frames treeRoot first).isPresent = true → (frames treeRoot second).isPresent = true →
    (frames treeRoot first).paddr = (frames treeRoot second).paddr → first = second

/-- The same frames, up to the emergency entry of a directory. -/
def Agree (treeRoot : Nat) (frames next : I686VmFrames) : Prop :=
  ∀ frame ndx, ¬(frame = treeRoot ∧ ndx = emergencyNdx) → frames frame ndx = next frame ndx

/-- The window is open on a table. -/
def opened (frames : I686VmFrames) (treeRoot table : Nat) : I686VmFrames :=
  frames.set treeRoot emergencyNdx
    { isPresent := true, flags := (frames treeRoot emergencyNdx).flags ||| i686VmFlagRw,
      paddr := table }

theorem getPdeNdx_lt (vaddr : Nat) : getPdeNdx vaddr < 1024 := by
  rw [getPdeNdx_eq]
  exact Nat.mod_lt _ (by decide)

/-- The two indices and the offset make up an address. -/
theorem page_eq_iff (vaddrFits : vaddr < addressSpace) (otherFits : other < addressSpace) :
    other / platformPageSize = vaddr / platformPageSize ↔
      getPdeNdx other = getPdeNdx vaddr ∧ getPteNdx other = getPteNdx vaddr := by
  simp only [getPdeNdx_eq, getPteNdx_eq]
  unfold addressSpace platformPageSize at *
  omega

theorem Agree.refl (treeRoot : Nat) (frames : I686VmFrames) : Agree treeRoot frames frames :=
  fun _ _ _ => rfl

theorem Agree.symm (agree : Agree treeRoot frames next) : Agree treeRoot next frames :=
  fun frame ndx elsewhere => (agree frame ndx elsewhere).symm

theorem Agree.trans {last : I686VmFrames} (first : Agree treeRoot frames next)
    (second : Agree treeRoot next last) : Agree treeRoot frames last :=
  fun frame ndx elsewhere => (first frame ndx elsewhere).trans (second frame ndx elsewhere)

theorem Agree.set (agree : Agree treeRoot frames next) (frame ndx : Nat) (entry : I686VmPge) :
    Agree treeRoot (frames.set frame ndx entry) (next.set frame ndx entry) := by
  intro other otherNdx elsewhere
  simp only [I686VmFrames.set_apply, agree other otherNdx elsewhere]

/-- A write to the emergency entry is not seen by `Agree`. -/
theorem agree_set_emergency (frames : I686VmFrames) (entry : I686VmPge) :
    Agree treeRoot (frames.set treeRoot emergencyNdx entry) frames := by
  intro frame ndx elsewhere
  rw [I686VmFrames.set_apply, if_neg elsewhere]

/-- The closed emergency entry has no part in any translation. -/
theorem Agree.walk_eq (agree : Agree treeRoot frames next)
    (idle : (frames treeRoot emergencyNdx).isPresent = false)
    (nextIdle : (next treeRoot emergencyNdx).isPresent = false) (vaddr : Nat) :
    walk frames treeRoot vaddr = walk next treeRoot vaddr := by
  simp only [walk]
  by_cases window : getPdeNdx vaddr = emergencyNdx
  · simp [window, idle, nextIdle]
  · rw [agree treeRoot (getPdeNdx vaddr) fun both => window both.2]
    by_cases emergency :
        (next treeRoot (getPdeNdx vaddr)).paddr = treeRoot ∧ getPteNdx vaddr = emergencyNdx
    · rw [emergency.1, emergency.2]
      simp [idle, nextIdle]
    · rw [agree _ _ emergency]

theorem Tables.agree (tables : Tables frames treeRoot) (agree : Agree treeRoot next frames)
    (idle : (next treeRoot emergencyNdx).isPresent = false) : Tables next treeRoot := by
  have same : ∀ ndx, ndx ≠ emergencyNdx → next treeRoot ndx = frames treeRoot ndx :=
    fun ndx different => agree treeRoot ndx fun both => different both.2
  refine ⟨idle, ?_, fun ndx below => ?_, fun first firstBelow second secondBelow => ?_⟩
  · rw [same recursiveNdx (by decide)]
    exact tables.recursive
  · rw [same ndx (Nat.ne_of_lt below)]
    exact tables.apart ndx below
  · rw [same first (Nat.ne_of_lt firstBelow), same second (Nat.ne_of_lt secondBelow)]
    exact tables.distinct first firstBelow second secondBelow

/-- Through the recursive entry the window shows the frame of the emergency entry. -/
theorem emergencyFrame_eq (recursive : (frames treeRoot recursiveNdx).isPresent = true ∧
      (frames treeRoot recursiveNdx).paddr = treeRoot)
    (open_ : (frames treeRoot emergencyNdx).isPresent = true) :
    emergencyFrame frames treeRoot = .ok (frames treeRoot emergencyNdx).paddr := by
  have pde : getPdeNdx emergencyDir = recursiveNdx := by decide
  have pte : getPteNdx emergencyDir = emergencyNdx := by decide
  have found : walk frames treeRoot emergencyDir = some (frames treeRoot emergencyNdx).paddr := by
    rw [walk, pde, pte, recursive.1, recursive.2, open_]
    rfl
  rw [emergencyFrame, found]

theorem Tables.opened_recursive (tables : Tables frames treeRoot) (table : Nat) :
    (opened frames treeRoot table treeRoot recursiveNdx).isPresent = true ∧
      (opened frames treeRoot table treeRoot recursiveNdx).paddr = treeRoot := by
  rw [opened, I686VmFrames.set_apply, if_neg fun both => absurd both.2 (by decide)]
  exact tables.recursive

@[simp]
theorem opened_emergency (frames : I686VmFrames) (treeRoot table : Nat) :
    (opened frames treeRoot table treeRoot emergencyNdx).isPresent = true ∧
      (opened frames treeRoot table treeRoot emergencyNdx).paddr = table := by
  simp [opened]

theorem Tables.emergencyFrame_opened (tables : Tables frames treeRoot) (table : Nat) :
    emergencyFrame (opened frames treeRoot table) treeRoot = .ok table := by
  rw [emergencyFrame_eq (tables.opened_recursive table) (opened_emergency _ _ _).1,
    (opened_emergency _ _ _).2]

theorem i686VmPgeGetAddr_ok {entry : I686VmPge} (present : entry.isPresent = true) :
    i686VmPgeGetAddr entry = .ok (entry.paddr <<< 12) := by
  rw [i686VmPgeGetAddr, kassert_ok present, Outcome.ok_bind]

theorem Tables.getPgeForVaddr_eq (tables : Tables frames treeRoot)
    (present : (frames treeRoot (getPdeNdx vaddr)).isPresent = true) :
    getPgeForVaddr frames treeRoot vaddr =
      .ok (opened frames treeRoot (frames treeRoot (getPdeNdx vaddr)).paddr, getPteNdx vaddr) := by
  have tableAddr := i686VmPgeGetAddr_ok present
  simp only [getPgeForVaddr, kassert_ok tables.idle, i686VmGetPge, tableAddr, Outcome.ok_bind,
    i686VmPgeSetAddr, Nat.shiftLeft_shiftRight, opened]

/-- Closing the window. -/
theorem freeEmergencyEntry_ok (open_ : (frames treeRoot emergencyNdx).isPresent = true) :
    ∃ next, freeEmergencyEntry frames treeRoot = .ok next ∧ Agree treeRoot next frames ∧
      (next treeRoot emergencyNdx).isPresent = false := by
  refine ⟨_, ?_, agree_set_emergency frames
    { frames treeRoot emergencyNdx with isPresent := false }, by simp⟩
  rw [freeEmergencyEntry, kassert_ok open_, Outcome.ok_bind]

/-- The write of one entry through the window. -/
theorem write_window (frames : I686VmFrames) {treeRoot table : Nat} (apart : table ≠ treeRoot)
    (ndx : Nat) (entry : I686VmPge) :
    ∃ next, freeEmergencyEntry ((opened frames treeRoot table).set table ndx entry) treeRoot =
        .ok next ∧
      Agree treeRoot next (frames.set table ndx entry) ∧
      (next treeRoot emergencyNdx).isPresent = false := by
  have open_ : ((opened frames treeRoot table).set table ndx entry treeRoot
      emergencyNdx).isPresent = true := by
    rw [I686VmFrames.set_apply, if_neg fun both => apart both.1.symm]
    exact (opened_emergency _ _ _).1
  obtain ⟨next, freed, agree, idle⟩ := freeEmergencyEntry_ok open_
  exact ⟨next, freed, agree.trans ((agree_set_emergency _ _).set _ _ _), idle⟩

/-- The entry of an address in the table of an address. -/
def pteOf (frames : I686VmFrames) (treeRoot vaddr : Nat) : I686VmPge :=
  frames (frames treeRoot (getPdeNdx vaddr)).paddr (getPteNdx vaddr)

theorem walk_eq_some {frame : Nat} : walk frames treeRoot vaddr = some frame ↔
    (frames treeRoot (getPdeNdx vaddr)).isPresent = true ∧
      (pteOf frames treeRoot vaddr).isPresent = true ∧
      (pteOf frames treeRoot vaddr).paddr = frame := by
  simp only [walk, pteOf]
  split <;> simp_all

theorem walk_eq_none : walk frames treeRoot vaddr = none ↔
    ((frames treeRoot (getPdeNdx vaddr)).isPresent = true →
      (pteOf frames treeRoot vaddr).isPresent = false) := by
  simp only [walk, pteOf]
  split <;> simp_all

/-- The window on the table of an address shows the entry of the address. -/
theorem Tables.opened_pte (tables : Tables frames treeRoot)
    (below : getPdeNdx vaddr < emergencyNdx)
    (present : (frames treeRoot (getPdeNdx vaddr)).isPresent = true) :
    let table := (frames treeRoot (getPdeNdx vaddr)).paddr
    opened frames treeRoot table table (getPteNdx vaddr) = pteOf frames treeRoot vaddr :=
  agree_set_emergency frames _ _ (getPteNdx vaddr) fun both => tables.apart _ below present both.1

/-- The direct write of the entry of an address. -/
def setPte (frames : I686VmFrames) (treeRoot vaddr : Nat) (entry : I686VmPge) : I686VmFrames :=
  frames.set (frames treeRoot (getPdeNdx vaddr)).paddr (getPteNdx vaddr) entry

/-- Where the table is not the directory, the tables stay apart, and only the
translation of the page of the address is another one afterwards. -/
theorem Tables.set_pte (tables : Tables frames treeRoot) (below : getPdeNdx vaddr < emergencyNdx)
    (present : (frames treeRoot (getPdeNdx vaddr)).isPresent = true) (entry : I686VmPge) :
    Tables (setPte frames treeRoot vaddr entry) treeRoot ∧
      walk (setPte frames treeRoot vaddr entry) treeRoot vaddr =
        (if entry.isPresent then some entry.paddr else none) ∧
      ∀ other, ¬(getPdeNdx other = getPdeNdx vaddr ∧ getPteNdx other = getPteNdx vaddr) →
        walk (setPte frames treeRoot vaddr entry) treeRoot other =
          walk frames treeRoot other := by
  have apart := tables.apart _ below present
  have root : ∀ ndx, setPte frames treeRoot vaddr entry treeRoot ndx =
      frames treeRoot ndx := fun ndx => by
    rw [setPte, I686VmFrames.set_apply, if_neg fun both => apart both.1.symm]
  refine ⟨⟨?_, ?_, ?_, ?_⟩, ?_, fun other different => ?_⟩
  · rw [root]
    exact tables.idle
  · rw [root]
    exact tables.recursive
  · simp only [root]
    exact tables.apart
  · simp only [root]
    exact tables.distinct
  · simp only [walk, root, present]
    simp [setPte]
  · simp only [walk, root]
    by_cases otherPresent : (frames treeRoot (getPdeNdx other)).isPresent = true
    · have elsewhere : ¬((frames treeRoot (getPdeNdx other)).paddr =
          (frames treeRoot (getPdeNdx vaddr)).paddr ∧ getPteNdx other = getPteNdx vaddr) := by
        rintro ⟨sameTable, samePte⟩
        by_cases otherBelow : getPdeNdx other < emergencyNdx
        · exact different
            ⟨tables.distinct _ otherBelow _ below otherPresent present sameTable, samePte⟩
        · have bound := getPdeNdx_lt other
          rcases (show getPdeNdx other = emergencyNdx ∨ getPdeNdx other = recursiveNdx by
            unfold emergencyNdx recursiveNdx at *; omega) with window | window
          · rw [window, tables.idle] at otherPresent
            cases otherPresent
          · rw [window, tables.recursive.2] at sameTable
            exact apart sameTable.symm
      rw [setPte, I686VmFrames.set_apply, if_neg elsewhere]
    · simp [otherPresent]

/-- `mm_alloc_page` returns a page that is neither the directory nor one of its tables. -/
def FreshFrame (frames : I686VmFrames) (treeRoot paddr : Nat) : Prop :=
  platformPageSize ∣ paddr ∧ paddr / platformPageSize ≠ treeRoot ∧
    ∀ ndx < emergencyNdx, (frames treeRoot ndx).isPresent = true →
      (frames treeRoot ndx).paddr ≠ paddr / platformPageSize

/-- A new table: the frame is cleared, and the directory gets the entry. -/
def addTable (frames : I686VmFrames) (treeRoot frame flags vaddr : Nat) : I686VmFrames :=
  I686VmFrames.set (Function.update frames frame fun _ => .zero) treeRoot (getPdeNdx vaddr)
    { isPresent := true, flags := flags, paddr := frame }

/-- A new table translates nothing; it is seen through the recursive entry. -/
theorem Tables.add_table (tables : Tables frames treeRoot) (below : getPdeNdx vaddr < emergencyNdx)
    (absent : (frames treeRoot (getPdeNdx vaddr)).isPresent = false) {paddr : Nat}
    (fresh : FreshFrame frames treeRoot paddr) (flags : Nat) :
    let frame := paddr / platformPageSize
    Tables (addTable frames treeRoot frame flags vaddr) treeRoot ∧
      ∀ other, walk (addTable frames treeRoot frame flags vaddr) treeRoot other =
        if getPdeNdx other = recursiveNdx ∧ getPteNdx other = getPdeNdx vaddr then some frame
        else walk frames treeRoot other := by
  intro frame
  obtain ⟨-, notRoot, notTable⟩ := fresh
  have new : addTable frames treeRoot frame flags vaddr treeRoot (getPdeNdx vaddr) =
      { isPresent := true, flags := flags, paddr := frame } := by simp [addTable]
  have root : ∀ ndx ≠ getPdeNdx vaddr,
      addTable frames treeRoot frame flags vaddr treeRoot ndx = frames treeRoot ndx := by
    intro ndx different
    rw [addTable, I686VmFrames.set_apply, if_neg fun both => different both.2,
      Function.update_of_ne (Ne.symm notRoot)]
  have table : ∀ ndx < emergencyNdx, (frames treeRoot ndx).isPresent = true → ∀ pteNdx,
      addTable frames treeRoot frame flags vaddr (frames treeRoot ndx).paddr pteNdx =
        frames (frames treeRoot ndx).paddr pteNdx := by
    intro ndx ndxBelow present pteNdx
    rw [addTable, I686VmFrames.set_apply,
      if_neg fun both => tables.apart ndx ndxBelow present both.1,
      Function.update_of_ne (notTable ndx ndxBelow present)]
  have idleNdx : emergencyNdx ≠ getPdeNdx vaddr := Nat.ne_of_gt below
  have recursiveOther : recursiveNdx ≠ getPdeNdx vaddr := by
    unfold recursiveNdx
    unfold emergencyNdx at below
    omega
  refine ⟨⟨?_, ?_, fun ndx ndxBelow => ?_, fun first firstBelow second secondBelow => ?_⟩,
    fun other => ?_⟩
  · rw [root _ idleNdx]
    exact tables.idle
  · rw [root _ recursiveOther]
    exact tables.recursive
  · by_cases same : ndx = getPdeNdx vaddr
    · rw [same, new]
      exact fun _ => notRoot
    · rw [root ndx same]
      exact tables.apart ndx ndxBelow
  · by_cases firstNew : first = getPdeNdx vaddr
    · by_cases secondNew : second = getPdeNdx vaddr
      · exact fun _ _ _ => firstNew.trans secondNew.symm
      · rw [firstNew, new, root second secondNew]
        exact fun _ present same => absurd same.symm (notTable second secondBelow present)
    · by_cases secondNew : second = getPdeNdx vaddr
      · rw [secondNew, new, root first firstNew]
        exact fun present _ same => absurd same (notTable first firstBelow present)
      · rw [root first firstNew, root second secondNew]
        exact tables.distinct first firstBelow second secondBelow
  · by_cases inTable : getPdeNdx other = getPdeNdx vaddr
    · have cleared : (addTable frames treeRoot frame flags vaddr frame
          (getPteNdx other)).isPresent = false := by
        rw [addTable, I686VmFrames.set_apply, if_neg fun both => notRoot both.1]
        simp [I686VmPge.zero]
      rw [if_neg fun both => recursiveOther (both.1.symm.trans inTable)]
      simp [walk, inTable, new, absent, cleared]
    · simp only [walk, root _ inTable]
      by_cases recursive : getPdeNdx other = recursiveNdx
      · simp only [recursive, tables.recursive, true_and]
        by_cases shown : getPteNdx other = getPdeNdx vaddr
        · simp [shown, new]
        · simp [shown, root _ shown]
      · simp only [recursive, false_and, if_false]
        by_cases present : (frames treeRoot (getPdeNdx other)).isPresent = true
        · by_cases otherBelow : getPdeNdx other < emergencyNdx
          · rw [table _ otherBelow present]
          · have bound := getPdeNdx_lt other
            have window : getPdeNdx other = emergencyNdx := by
              unfold emergencyNdx recursiveNdx at *
              omega
            rw [window, tables.idle] at present
            cases present
        · simp [present]

theorem Tables.createNewDir_ok (tables : Tables frames treeRoot) {paddr : Nat}
    (fresh : FreshFrame frames treeRoot paddr) :
    ∃ next, createNewDir frames treeRoot (some paddr) = .ok (next, paddr) ∧
      Agree treeRoot next
        (Function.update frames (paddr / platformPageSize) fun _ => .zero) ∧
      (next treeRoot emergencyNdx).isPresent = false := by
  obtain ⟨-, notRoot, -⟩ := fresh
  have shifted : paddr >>> 12 = paddr / platformPageSize := Nat.shiftRight_eq_div_pow paddr 12
  have windowFrame := tables.emergencyFrame_opened (paddr >>> 12)
  let cleared : I686VmFrames :=
    Function.update (opened frames treeRoot (paddr >>> 12)) (paddr >>> 12) fun _ => .zero
  refine ⟨cleared.set treeRoot emergencyNdx
    { cleared treeRoot emergencyNdx with isPresent := false }, ?_, ?_, by simp⟩
  · rw [createNewDir, kassert_ok tables.idle, Outcome.ok_bind]
    exact Outcome.bind_eq_ok.mpr ⟨paddr >>> 12, windowFrame, rfl⟩
  · refine (agree_set_emergency cleared _).trans fun other ndx elsewhere => ?_
    rw [← shifted]
    by_cases isNew : other = paddr >>> 12
    · simp [cleared, isNew]
    · simp only [cleared, Function.update_of_ne isNew]
      exact agree_set_emergency frames _ other ndx elsewhere

/-- The frames in which the address has a table: the ones before, or those with a
new table in the page that was allocated. -/
structure TableFor (frames : I686VmFrames) (treeRoot : Nat) (page : Option Nat)
    (vaddr flags : Nat) (base : I686VmFrames) : Prop where
  tables : Tables base treeRoot
  present : (base treeRoot (getPdeNdx vaddr)).isPresent = true
  origin : ((frames treeRoot (getPdeNdx vaddr)).isPresent = true ∧ base = frames) ∨
    ((frames treeRoot (getPdeNdx vaddr)).isPresent = false ∧
      ∃ paddr, page = some paddr ∧ FreshFrame frames treeRoot paddr ∧
        base = addTable frames treeRoot (paddr / platformPageSize) (i686VmToDirFlags flags) vaddr)

/-- After the first part of `vm_arch_pt_map` the address has a table. -/
theorem Tables.ensureTable_agree (tables : Tables frames treeRoot)
    (below : getPdeNdx vaddr < emergencyNdx) {page : Option Nat} (flags : Nat)
    (fresh : (frames treeRoot (getPdeNdx vaddr)).isPresent = false →
      ∃ paddr, page = some paddr ∧ FreshFrame frames treeRoot paddr) :
    ∃ next base, ensureTable frames treeRoot page vaddr flags = .ok next ∧
      Agree treeRoot next base ∧ (next treeRoot emergencyNdx).isPresent = false ∧
      TableFor frames treeRoot page vaddr flags base := by
  by_cases present : (frames treeRoot (getPdeNdx vaddr)).isPresent = true
  · exact ⟨frames, frames, if_pos present, .refl _ _, tables.idle, tables, present,
      Or.inl ⟨present, rfl⟩⟩
  · have absent : (frames treeRoot (getPdeNdx vaddr)).isPresent = false := by simpa using present
    obtain ⟨paddr, rfl, freshFrame⟩ := fresh absent
    obtain ⟨created, returned, agree, idle⟩ := tables.createNewDir_ok freshFrame
    obtain ⟨tablesNew, -⟩ := tables.add_table below absent freshFrame (i686VmToDirFlags flags)
    have different : getPdeNdx vaddr ≠ emergencyNdx := Nat.ne_of_lt below
    let pde : I686VmPge :=
      { isPresent := true, flags := i686VmToDirFlags flags, paddr := paddr / platformPageSize }
    refine ⟨I686VmFrames.set created treeRoot (getPdeNdx vaddr) pde,
      addTable frames treeRoot (paddr / platformPageSize) (i686VmToDirFlags flags) vaddr, ?_,
      agree.set treeRoot (getPdeNdx vaddr) pde, ?_, tablesNew, by simp [addTable],
      Or.inr ⟨absent, paddr, rfl, freshFrame, rfl⟩⟩
    · have shifted : paddr >>> 12 = paddr / platformPageSize := Nat.shiftRight_eq_div_pow paddr 12
      simp [ensureTable, i686VmGetPge, absent, returned, i686VmPgeSetAddr, shifted, pde]
    · rw [I686VmFrames.set_apply, if_neg fun both => different both.2.symm]
      exact idle

theorem TableFor.walk_eq {page : Option Nat} {flags : Nat} {base : I686VmFrames}
    (table : TableFor frames treeRoot page vaddr flags base) (tables : Tables frames treeRoot)
    (below : getPdeNdx vaddr < emergencyNdx) (other : Nat) :
    walk base treeRoot other =
      if (frames treeRoot (getPdeNdx vaddr)).isPresent = false ∧
          getPdeNdx other = recursiveNdx ∧ getPteNdx other = getPdeNdx vaddr
      then page.map (· / platformPageSize)
      else walk frames treeRoot other := by
  obtain ⟨-, -, ⟨present, rfl⟩ | ⟨absent, paddr, rfl, fresh, rfl⟩⟩ := table
  · simp [present]
  · rw [(tables.add_table below absent fresh (i686VmToDirFlags flags)).2]
    simp [absent]

/-- Once the address has a table, `vm_arch_pt_map` asserts that its entry is free and
writes it through the window. -/
theorem Tables.vmArchPtMap_eq {ready : I686VmFrames} (tables : Tables ready treeRoot)
    (below : getPdeNdx vaddr < emergencyNdx) {page : Option Nat} {physAddr flags : Nat}
    (ensured : ensureTable frames treeRoot page vaddr flags = .ok ready)
    (present : (ready treeRoot (getPdeNdx vaddr)).isPresent = true) :
    vmArchPtMap frames treeRoot page physAddr vaddr flags = (do
      let table := (ready treeRoot (getPdeNdx vaddr)).paddr
      kassert ((pteOf ready treeRoot vaddr).isPresent = false)
      freeEmergencyEntry ((opened ready treeRoot table).set table (getPteNdx vaddr)
        { isPresent := true, flags := i686VmToTableFlags flags, paddr := physAddr >>> 12 })
        treeRoot) := by
  have window := tables.emergencyFrame_opened (ready treeRoot (getPdeNdx vaddr)).paddr
  simp only [vmArchPtMap, ensured, tables.getPgeForVaddr_eq present, Outcome.ok_bind]
  rw [window, Outcome.ok_bind]
  simp only [tables.opened_pte below present]
  rfl

/-- `vm_arch_pt_map` is a write to the table of the address. -/
theorem Tables.vmArchPtMap_agree (tables : Tables frames treeRoot) (physAddr : Nat)
    (below : getPdeNdx vaddr < emergencyNdx) (unmapped : walk frames treeRoot vaddr = none)
    {page : Option Nat} (flags : Nat)
    (fresh : (frames treeRoot (getPdeNdx vaddr)).isPresent = false →
      ∃ paddr, page = some paddr ∧ FreshFrame frames treeRoot paddr) :
    ∃ next base, vmArchPtMap frames treeRoot page physAddr vaddr flags = .ok next ∧
      TableFor frames treeRoot page vaddr flags base ∧
      Agree treeRoot next (setPte base treeRoot vaddr
        { isPresent := true, flags := i686VmToTableFlags flags, paddr := physAddr >>> 12 }) ∧
      (next treeRoot emergencyNdx).isPresent = false := by
  obtain ⟨ready, base, ensured, agreeReady, idleReady, tableFor⟩ :=
    tables.ensureTable_agree below flags fresh
  have tablesReady := tableFor.tables.agree agreeReady idleReady
  have same : ready treeRoot (getPdeNdx vaddr) = base treeRoot (getPdeNdx vaddr) :=
    agreeReady _ _ fun both => Nat.ne_of_lt below both.2
  have present : (ready treeRoot (getPdeNdx vaddr)).isPresent = true :=
    same ▸ tableFor.present
  have notShown : getPdeNdx vaddr ≠ recursiveNdx := by
    unfold emergencyNdx at below
    unfold recursiveNdx
    omega
  have stillUnmapped : (pteOf ready treeRoot vaddr).isPresent = false := by
    apply walk_eq_none.mp _ present
    rw [agreeReady.walk_eq idleReady tableFor.tables.idle, tableFor.walk_eq tables below,
      if_neg fun both => notShown both.2.1]
    exact unmapped
  have apart := tablesReady.apart _ below present
  let entry : I686VmPge :=
    { isPresent := true, flags := i686VmToTableFlags flags, paddr := physAddr >>> 12 }
  obtain ⟨next, written, agree, idle⟩ := write_window ready apart (getPteNdx vaddr) entry
  refine ⟨next, base, ?_, tableFor, ?_, idle⟩
  · rw [tablesReady.vmArchPtMap_eq below ensured present, kassert_ok stillUnmapped, Outcome.ok_bind]
    exact written
  · rw [same] at agree
    exact agree.trans (agreeReady.set _ _ entry)

theorem Tables.vmArchPtMap_ok (tables : Tables frames treeRoot) (physAddr : Nat)
    (below : getPdeNdx vaddr < emergencyNdx) (unmapped : walk frames treeRoot vaddr = none)
    {page : Option Nat} (flags : Nat)
    (fresh : (frames treeRoot (getPdeNdx vaddr)).isPresent = false →
      ∃ paddr, page = some paddr ∧ FreshFrame frames treeRoot paddr) :
    ∃ next, vmArchPtMap frames treeRoot page physAddr vaddr flags = .ok next ∧
      Tables next treeRoot ∧ walk next treeRoot vaddr = some (physAddr >>> 12) ∧
      ∀ other, ¬(getPdeNdx other = getPdeNdx vaddr ∧ getPteNdx other = getPteNdx vaddr) →
        walk next treeRoot other =
          if (frames treeRoot (getPdeNdx vaddr)).isPresent = false ∧
              getPdeNdx other = recursiveNdx ∧ getPteNdx other = getPdeNdx vaddr
          then page.map (· / platformPageSize)
          else walk frames treeRoot other := by
  obtain ⟨next, base, mapped, table, agree, idle⟩ :=
    tables.vmArchPtMap_agree physAddr below unmapped flags fresh
  obtain ⟨tablesSet, walkSet, others⟩ := table.tables.set_pte below table.present
    { isPresent := true, flags := i686VmToTableFlags flags, paddr := physAddr >>> 12 }
  refine ⟨next, mapped, tablesSet.agree agree idle, ?_, fun other different => ?_⟩
  · rw [agree.walk_eq idle tablesSet.idle]
    exact walkSet
  · rw [agree.walk_eq idle tablesSet.idle, others other different]
    exact table.walk_eq tables below other

/-- A page that is mapped already fails the assertion on its entry. -/
theorem Tables.unmapped_of_vmArchPtMap (tables : Tables frames treeRoot) {physAddr flags : Nat}
    {page : Option Nat} (below : getPdeNdx vaddr < emergencyNdx)
    (returned : vmArchPtMap frames treeRoot page physAddr vaddr flags = .ok next) :
    walk frames treeRoot vaddr = none := by
  by_contra mapped
  obtain ⟨frame, found⟩ := Option.ne_none_iff_exists'.mp mapped
  obtain ⟨present, ptePresent, -⟩ := walk_eq_some.mp found
  have ensured : ensureTable frames treeRoot page vaddr flags = .ok frames := if_pos present
  rw [tables.vmArchPtMap_eq below ensured present, kassert_error (by rw [ptePresent]; decide),
    Outcome.error_bind] at returned
  cases returned

/-- In the emergency window nothing can be mapped: its entry is in use as soon as
it names a table. -/
theorem Tables.vmArchPtMap_emergency (tables : Tables frames treeRoot) {physAddr flags : Nat}
    {page : Option Nat} (window : getPdeNdx vaddr = emergencyNdx) :
    vmArchPtMap frames treeRoot page physAddr vaddr flags ≠ .ok next := by
  intro returned
  have absent : ¬(frames treeRoot (i686VmGetPge .dir vaddr)).isPresent = true := by
    simp [i686VmGetPge, window, tables.idle]
  simp only [vmArchPtMap, ensureTable, if_neg absent, Outcome.bind_eq_ok, Except.ok.injEq]
    at returned
  obtain ⟨_, ⟨⟨created, paddr⟩, _, rfl⟩, ⟨_, _⟩, got, _⟩ := returned
  simp only [getPgeForVaddr, i686VmGetPge, window, I686VmFrames.set_same, Outcome.bind_eq_ok,
    kassert_eq_ok] at got
  obtain ⟨_, impossible, _⟩ := got
  cases impossible

/-- Where the address has a table, `vm_arch_pt_unmap` asserts that its entry is in use and
clears it through the window. -/
theorem Tables.vmArchPtUnmap_eq (tables : Tables frames treeRoot)
    (below : getPdeNdx vaddr < emergencyNdx)
    (present : (frames treeRoot (getPdeNdx vaddr)).isPresent = true) :
    vmArchPtUnmap frames treeRoot vaddr = (do
      let table := (frames treeRoot (getPdeNdx vaddr)).paddr
      kassert ((pteOf frames treeRoot vaddr).isPresent = true)
      freeEmergencyEntry ((opened frames treeRoot table).set table (getPteNdx vaddr)
        { pteOf frames treeRoot vaddr with isPresent := false }) treeRoot) := by
  have window := tables.emergencyFrame_opened (frames treeRoot (getPdeNdx vaddr)).paddr
  simp only [vmArchPtUnmap, tables.getPgeForVaddr_eq present, Outcome.ok_bind]
  rw [window, Outcome.ok_bind]
  simp only [tables.opened_pte below present]

theorem Tables.vmArchPtUnmap_ok (tables : Tables frames treeRoot)
    (below : getPdeNdx vaddr < emergencyNdx) {frame : Nat}
    (mapped : walk frames treeRoot vaddr = some frame) :
    ∃ next, vmArchPtUnmap frames treeRoot vaddr = .ok next ∧ Tables next treeRoot ∧
      walk next treeRoot vaddr = none ∧
      ∀ other, ¬(getPdeNdx other = getPdeNdx vaddr ∧ getPteNdx other = getPteNdx vaddr) →
        walk next treeRoot other = walk frames treeRoot other := by
  obtain ⟨present, ptePresent, -⟩ := walk_eq_some.mp mapped
  have apart := tables.apart _ below present
  let entry : I686VmPge := { pteOf frames treeRoot vaddr with isPresent := false }
  obtain ⟨next, written, agree, idle⟩ := write_window frames apart (getPteNdx vaddr) entry
  obtain ⟨tablesSet, walkSet, others⟩ := tables.set_pte below present entry
  refine ⟨next, ?_, tablesSet.agree agree idle, ?_, fun other different => ?_⟩
  · rw [tables.vmArchPtUnmap_eq below present, kassert_ok ptePresent, Outcome.ok_bind]
    exact written
  · rw [agree.walk_eq idle tablesSet.idle]
    exact walkSet
  · rw [agree.walk_eq idle tablesSet.idle]
    exact others other different

/-- A page that is not mapped fails the assertion on one of its entries. -/
theorem Tables.mapped_of_vmArchPtUnmap (tables : Tables frames treeRoot)
    (below : getPdeNdx vaddr < emergencyNdx)
    (returned : vmArchPtUnmap frames treeRoot vaddr = .ok next) :
    walk frames treeRoot vaddr ≠ none := by
  intro unmapped
  by_cases present : (frames treeRoot (getPdeNdx vaddr)).isPresent = true
  · have absent := walk_eq_none.mp unmapped present
    rw [tables.vmArchPtUnmap_eq below present, kassert_error (by rw [absent]; decide),
      Outcome.error_bind] at returned
    cases returned
  · have noTable : i686VmPgeGetAddr (frames treeRoot (i686VmGetPge .dir vaddr)) =
        .error .kassert := by
      rw [i686VmPgeGetAddr, i686VmGetPge, kassert_error present, Outcome.error_bind]
    simp only [vmArchPtUnmap, getPgeForVaddr, kassert_ok tables.idle, Outcome.ok_bind, noTable,
      Outcome.error_bind] at returned
    cases returned

theorem Tables.vmArchResolvePhysPage_ok (tables : Tables frames treeRoot)
    (below : getPdeNdx vaddr < emergencyNdx) {frame : Nat}
    (mapped : walk frames treeRoot vaddr = some frame) :
    ∃ next, vmArchResolvePhysPage frames treeRoot vaddr = .ok (next, frame <<< 12) ∧
      Tables next treeRoot ∧
      ∀ other, walk next treeRoot other = walk frames treeRoot other := by
  obtain ⟨present, ptePresent, pteFrame⟩ := walk_eq_some.mp mapped
  have got := tables.getPgeForVaddr_eq present
  let table := (frames treeRoot (getPdeNdx vaddr)).paddr
  have window := tables.emergencyFrame_opened table
  obtain ⟨next, freed, agree, idle⟩ :=
    freeEmergencyEntry_ok (opened_emergency frames treeRoot table).1
  have agreeFrames := agree.trans (agree_set_emergency frames _)
  refine ⟨next, ?_, tables.agree agreeFrames idle,
    fun other => agreeFrames.walk_eq idle tables.idle other⟩
  simp only [vmArchResolvePhysPage, got, Outcome.ok_bind]
  rw [window, Outcome.ok_bind, tables.opened_pte below present, i686VmPgeGetAddr_ok ptePresent,
    Outcome.ok_bind, freed, Outcome.ok_bind, pteFrame]

end Yaeos
