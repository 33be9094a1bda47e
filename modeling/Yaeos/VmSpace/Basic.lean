import Yaeos.Machine.Address
import Yaeos.Rbtree.Basic
import Yaeos.Slist.Basic

/-!
# Address spaces (`kernel/mm/vm_space.c`, `kernel/mm/vm_area.c`)

An area is a record in memory and is named by its address.  Its node of the
tree `rb_areas` lies in the record, so the node is named by the same address,
and the data of a node is the address of an area again.

`vm_area_init` also prints a message when the area lies over addresses that are
not available; the message changes nothing.
-/

namespace Yaeos

structure VmArea where
  base : Nat
  length : Nat
  deriving DecidableEq, Repr

structure VmSpace where
  offset : Nat
  rbAreas : Rbtree Nat Nat
  sortedAreas : List Nat
  /-- The records of the areas, by address. -/
  areas : Nat → VmArea

/-- Write the record of an area. -/
def VmSpace.setArea (space : VmSpace) (address : Nat) (area : VmArea) : VmSpace :=
  { space with areas := Function.update space.areas address area }

/-- The last address of an area. -/
def VmArea.last (area : VmArea) : Nat := wrapSub (wrap (area.base + area.length)) 1

def vmAreaRbtcmpfn (areas : Nat → VmArea) : RbtreeCmpFn Nat := fun areaX areaY => do
  kassert (areaX ≠ 0)
  kassert (areaY ≠ 0)
  let x := areas areaX
  let y := areas areaY
  if x.base < y.base then
    kassert (x.last < y.base)
    .ok (-1)
  else if x.base > y.base then
    kassert (y.last < x.base)
    .ok 1
  else .ok 0

/-- A fault address is compared with the bounds of an area. -/
def vmAreaRbtcmpfnAreaToAddr (areas : Nat → VmArea) : RbtreeCmpFn Nat := fun area addr => do
  kassert (area ≠ 0)
  let a := areas area
  if addr < a.base then .ok 1
  else if addr ≤ a.last then .ok 0
  else .ok (-1)

def vmAreaInit (space : VmSpace) (area base length : Nat) : Outcome VmSpace := do
  kassert (area ≠ 0)
  kassert (checkAlign base platformPageSize)
  kassert (checkAlign length platformPageSize)
  let space := space.setArea area { base := base, length := length }
  let rbAreas ← rbtreeInitNode space.rbAreas (some area)
  .ok { space with rbAreas := rbAreas.modify area fun node => { node with data := area } }

/-- `vm_space_init`; the page directory is not part of the model. -/
def vmSpaceInit (space : VmSpace) (offset : Nat) : VmSpace :=
  { space with sortedAreas := [], rbAreas := rbtreeInitTree space.rbAreas, offset := offset }

/-- The last part of `vm_space_insert_area`: the area goes behind its left
neighbour, or to the front when it has none. -/
def insertBehind (sortedAreas : List Nat) (leftNeigh : Option Nat) (area : Nat) : List Nat :=
  match leftNeigh with
  | none => slistInsert sortedAreas area
  | some leftNeigh => slistInsertAfter sortedAreas leftNeigh area

def vmSpaceInsertArea (rounds : Nat) (space : VmSpace) (area : Nat) : Outcome VmSpace := do
  kassert (space.offset ≤ (space.areas area).base)
  let cmpf := vmAreaRbtcmpfn space.areas
  let leftNeighNode ← rbtreeSearchMax rounds space.rbAreas area cmpf
  let leftNeigh := leftNeighNode.map fun node => (space.rbAreas.nodes node).data
  let rbAreas ← rbtreeInsert rounds space.rbAreas (some area) cmpf
  let sortedAreas := insertBehind space.sortedAreas leftNeigh area
  .ok { space with rbAreas := rbAreas, sortedAreas := sortedAreas }

def vmSpaceRemoveArea (rounds : Nat) (space : VmSpace) (area : Nat) : Outcome VmSpace := do
  kassert (area ≠ 0)
  let rbAreas ← rbtreeDelete rounds space.rbAreas (some area)
  let sortedAreas ← slistRemove space.sortedAreas area
  .ok { space with rbAreas := rbAreas, sortedAreas := sortedAreas }

/-- The area the page fault handler looks up for a fault address. -/
def vmFaultArea (rounds : Nat) (space : VmSpace) (faultAt : Nat) : Outcome (Option Nat) := do
  let rbtnode ← rbtreeSearch rounds space.rbAreas faultAt (vmAreaRbtcmpfnAreaToAddr space.areas)
  .ok (rbtnode.map fun node => (space.rbAreas.nodes node).data)

namespace VmSpace

variable {rounds : Nat} {space next : VmSpace} {area : Nat}

/-- Only areas at or above the offset of the space get in. -/
theorem insertArea_inside (inserted : vmSpaceInsertArea rounds space area = .ok next) :
    space.offset ≤ (space.areas area).base ∧ next.offset = space.offset := by
  simp only [vmSpaceInsertArea, Outcome.bind_eq_ok, kassert_eq_ok, Except.ok.injEq] at inserted
  obtain ⟨_, inside, _, _, _, _, rfl⟩ := inserted
  exact ⟨inside, rfl⟩

theorem removeArea_offset (removed : vmSpaceRemoveArea rounds space area = .ok next) :
    next.offset = space.offset := by
  simp only [vmSpaceRemoveArea, Outcome.bind_eq_ok, Except.ok.injEq] at removed
  obtain ⟨_, _, _, _, _, _, rfl⟩ := removed
  rfl

theorem areaInit_eq {base length : Nat} (initialised : vmAreaInit space area base length = .ok next) :
    checkAlign base platformPageSize ∧ checkAlign length platformPageSize ∧
      next.offset = space.offset ∧ next.areas area = { base := base, length := length } := by
  simp only [vmAreaInit, Outcome.bind_eq_ok, kassert_eq_ok, Except.ok.injEq] at initialised
  obtain ⟨_, _, _, baseAligned, _, lengthAligned, _, _, rfl⟩ := initialised
  exact ⟨baseAligned, lengthAligned, rfl, by simp [setArea]⟩

end VmSpace

end Yaeos
