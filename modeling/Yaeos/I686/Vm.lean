import Yaeos.Machine.Address
import Yaeos.Machine.Outcome
import Mathlib.Logic.Function.Basic

/-!
# Page tables (`arch/i686/vm.c`)

Directories and tables are page frames of 1024 entries, named by frame number.
A directory is read and written directly; a table only through the emergency
window, at an address that the processor translates like every other one.  The
flags of an entry are kept, its `global` bit and `kernel_data` are not: no
modelled function reads or writes them.
-/

namespace Yaeos

/-- `VM_WRITE`. -/
def vmWrite : Nat := 1

/-- `VM_USER`. -/
def vmUser : Nat := 2

/-- `I686VM_TABLE_FLAG_RW` and `I686VM_DIR_FLAG_RW`. -/
def i686VmFlagRw : Nat := 1

/-- `I686VM_TABLE_FLAG_USER` and `I686VM_DIR_FLAG_USER`. -/
def i686VmFlagUser : Nat := 2

def i686VmToTableFlags (areaFlags : Nat) : Nat :=
  (if areaFlags &&& vmWrite ≠ 0 then i686VmFlagRw else 0) |||
    (if areaFlags &&& vmUser ≠ 0 then i686VmFlagUser else 0)

def i686VmToDirFlags (areaFlags : Nat) : Nat :=
  (if areaFlags &&& vmWrite ≠ 0 then i686VmFlagRw else 0) |||
    (if areaFlags &&& vmUser ≠ 0 then i686VmFlagUser else 0)

/-- `struct i686_vm_pge`. -/
structure I686VmPge where
  isPresent : Bool
  flags : Nat
  paddr : Nat
  deriving DecidableEq, Repr

/-- What `kmemset` leaves of an entry. -/
def I686VmPge.zero : I686VmPge := { isPresent := false, flags := 0, paddr := 0 }

/-- The physical frames, each seen as a directory or a table. -/
abbrev I686VmFrames : Type := Nat → Nat → I686VmPge

def I686VmFrames.set (frames : I686VmFrames) (frame ndx : Nat) (entry : I686VmPge) :
    I686VmFrames :=
  Function.update frames frame (Function.update (frames frame) ndx entry)

/-- `I686VM_PD_EMERGENCY_NDX`. -/
def emergencyNdx : Nat := 1022

/-- `I686VM_PD_RECURSIVE_NDX`. -/
def recursiveNdx : Nat := 1023

/-- `EMERGENCY_DIR`. -/
def emergencyDir : Nat := recursiveNdx <<< 22 ||| emergencyNdx <<< 12

def getPteNdx (vaddr : Nat) : Nat := (vaddr &&& (1023 <<< 12)) >>> 12

def getPdeNdx (vaddr : Nat) : Nat := (vaddr &&& (1023 <<< 22)) >>> 22

inductive I686VmPgLvl where
  | dir
  | table
  deriving DecidableEq, Repr

/-- The index of the entry `i686_vm_get_pge` returns the address of. -/
def i686VmGetPge : (lvl : I686VmPgLvl) → (vaddr : Nat) → Nat
  | .dir, vaddr => getPdeNdx vaddr
  | .table, vaddr => getPteNdx vaddr

def i686VmPgeSetAddr (entry : I686VmPge) (physAddr : Nat) : I686VmPge :=
  { entry with paddr := physAddr >>> 12 }

def i686VmPgeGetAddr (entry : I686VmPge) : Outcome Nat := do
  kassert (entry.isPresent = true)
  .ok (entry.paddr <<< 12)

/-- The frame the processor finds for an address under a directory. -/
def walk (frames : I686VmFrames) (treeRoot vaddr : Nat) : Option Nat :=
  let pde := frames treeRoot (getPdeNdx vaddr)
  let pte := frames pde.paddr (getPteNdx vaddr)
  if pde.isPresent ∧ pte.isPresent then some pte.paddr else none

/-- The frame behind the emergency window; without one the access is a page fault
outside of every area. -/
def emergencyFrame (frames : I686VmFrames) (treeRoot : Nat) : Outcome Nat :=
  match walk frames treeRoot emergencyDir with
  | some frame => .ok frame
  | none => .error .panic

def i686VmSetupRecursiveMapping (frames : I686VmFrames) (dirActual dirPaddr : Nat) :
    Outcome I686VmFrames := do
  let e := frames dirActual recursiveNdx
  kassert (e.isPresent = false)
  .ok (I686VmFrames.set frames dirActual recursiveNdx
    { i686VmPgeSetAddr e dirPaddr with isPresent := true, flags := e.flags ||| i686VmFlagRw })

/-- The index of the entry of the table that is behind the emergency window afterwards. -/
def getPgeForVaddr (frames : I686VmFrames) (treeRoot vaddr : Nat) :
    Outcome (I686VmFrames × Nat) := do
  let emergency := frames treeRoot emergencyNdx
  kassert (emergency.isPresent = false)
  let pgeRoot := frames treeRoot (i686VmGetPge .dir vaddr)
  let tableAddr ← i686VmPgeGetAddr pgeRoot
  let frames := I686VmFrames.set frames treeRoot emergencyNdx
    { i686VmPgeSetAddr emergency tableAddr with
      isPresent := true, flags := emergency.flags ||| i686VmFlagRw }
  .ok (frames, i686VmGetPge .table vaddr)

def freeEmergencyEntry (frames : I686VmFrames) (treeRoot : Nat) : Outcome I686VmFrames := do
  let emergency := frames treeRoot emergencyNdx
  kassert (emergency.isPresent = true)
  .ok (I686VmFrames.set frames treeRoot emergencyNdx { emergency with isPresent := false })

def vmArchResolvePhysPage (frames : I686VmFrames) (treeRoot virtPage : Nat) :
    Outcome (I686VmFrames × Nat) := do
  let (frames, ndx) ← getPgeForVaddr frames treeRoot virtPage
  let table ← emergencyFrame frames treeRoot
  let physAddr ← i686VmPgeGetAddr (frames table ndx)
  let frames ← freeEmergencyEntry frames treeRoot
  .ok (frames, physAddr)

/-- `page` is the address of the page `mm_alloc_page` returns. -/
def createNewDir (frames : I686VmFrames) (rootPd : Nat) (page : Option Nat) :
    Outcome (I686VmFrames × Nat) :=
  match page with
  | none => .error .panic
  | some paddr => do
      let e := frames rootPd emergencyNdx
      kassert (e.isPresent = false)
      let frames := I686VmFrames.set frames rootPd emergencyNdx
        { i686VmPgeSetAddr e paddr with isPresent := true, flags := e.flags ||| i686VmFlagRw }
      let window ← emergencyFrame frames rootPd
      let frames := Function.update frames window fun _ => .zero
      let e := frames rootPd emergencyNdx
      .ok (I686VmFrames.set frames rootPd emergencyNdx { e with isPresent := false }, paddr)

/-- The first part of `vm_arch_pt_map`: the table of the address exists afterwards. -/
def ensureTable (frames : I686VmFrames) (treeRoot : Nat) (page : Option Nat)
    (atVirtAddr flags : Nat) : Outcome I686VmFrames :=
  let pdeNdx := i686VmGetPge .dir atVirtAddr
  if (frames treeRoot pdeNdx).isPresent then .ok frames
  else do
    let (frames, newPdPaddr) ← createNewDir frames treeRoot page
    let pde := i686VmPgeSetAddr (frames treeRoot pdeNdx) newPdPaddr
    .ok (I686VmFrames.set frames treeRoot pdeNdx
      { pde with isPresent := true, flags := i686VmToDirFlags flags })

def vmArchPtMap (frames : I686VmFrames) (treeRoot : Nat) (page : Option Nat)
    (physAddr atVirtAddr flags : Nat) : Outcome I686VmFrames := do
  let frames ← ensureTable frames treeRoot page atVirtAddr flags
  let (frames, ndx) ← getPgeForVaddr frames treeRoot atVirtAddr
  let table ← emergencyFrame frames treeRoot
  let pte := frames table ndx
  kassert (pte.isPresent = false)
  let frames := I686VmFrames.set frames table ndx
    { i686VmPgeSetAddr pte physAddr with isPresent := true, flags := i686VmToTableFlags flags }
  freeEmergencyEntry frames treeRoot

def vmArchPtUnmap (frames : I686VmFrames) (treeRoot virtAddr : Nat) : Outcome I686VmFrames := do
  let (frames, ndx) ← getPgeForVaddr frames treeRoot virtAddr
  let table ← emergencyFrame frames treeRoot
  let pte := frames table ndx
  kassert (pte.isPresent = true)
  let frames := I686VmFrames.set frames table ndx { pte with isPresent := false }
  freeEmergencyEntry frames treeRoot

theorem getPteNdx_eq (vaddr : Nat) : getPteNdx vaddr = vaddr / 4096 % 1024 := by
  rw [getPteNdx, Nat.shiftRight_and_distrib, Nat.shiftLeft_shiftRight, Nat.shiftRight_eq_div_pow]
  exact Nat.and_two_pow_sub_one_eq_mod _ 10

theorem getPdeNdx_eq (vaddr : Nat) : getPdeNdx vaddr = vaddr / 4096 / 1024 % 1024 := by
  rw [getPdeNdx, Nat.shiftRight_and_distrib, Nat.shiftLeft_shiftRight, Nat.shiftRight_eq_div_pow,
    Nat.div_div_eq_div_mul]
  exact Nat.and_two_pow_sub_one_eq_mod _ 10

namespace I686VmFrames

variable {frames : I686VmFrames} {frame other ndx otherNdx : Nat} {entry : I686VmPge}

theorem set_apply : frames.set frame ndx entry other otherNdx =
    if other = frame ∧ otherNdx = ndx then entry else frames other otherNdx := by
  unfold set
  by_cases sameFrame : other = frame
  · subst sameFrame
    by_cases sameNdx : otherNdx = ndx
    · subst sameNdx
      simp
    · simp [sameNdx]
  · simp [sameFrame]

@[simp]
theorem set_same : frames.set frame ndx entry frame ndx = entry := by simp [set_apply]

end I686VmFrames

end Yaeos
