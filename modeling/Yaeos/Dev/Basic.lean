import Yaeos.I686.Tables
import Yaeos.Resources.Basic
import Yaeos.VmSpace.Basic

/-!
# Device areas (`kernel/mm/dev.c`)

A device area is cut into regions.  A region is a cell of `REGIONS_CACHE` and is
named by its address, which is also the address of its link.  `-fshort-enums` makes
`state` the lowest byte of a `union region_resource`: who writes it leaves the other
bytes of `ptr` as they are, and whether a region is free is read from this byte alone.

Of the page tables only the translation of the pages is kept, as a function of
the page number; `Tables.ptMap_refines` and `Tables.ptUnmap_refines` relate it to
`vm_arch_pt_map` and `vm_arch_pt_unmap`.
-/

namespace Yaeos

/-- The frame of a page, by number. -/
abbrev Translation : Type := Nat → Option Nat

/-- `vm_arch_pt_map`, on translations. -/
def ptMap (translation : Translation) (physAddr atVirtAddr : Nat) : Outcome Translation := do
  kassert (translation (atVirtAddr / platformPageSize) = none)
  .ok (Function.update translation (atVirtAddr / platformPageSize)
    (some (physAddr / platformPageSize)))

/-- `vm_arch_pt_unmap`, on translations. -/
def ptUnmap (translation : Translation) (virtAddr : Nat) : Outcome Translation := do
  kassert (translation (virtAddr / platformPageSize) ≠ none)
  .ok (Function.update translation (virtAddr / platformPageSize) none)

/-- `REGION_RES_STATE_FREE`. -/
def regionResStateFree : Nat := 0

/-- `REGION_RES_STATE_UNKNOWN`. -/
def regionResStateUnknown : Nat := 1

/-- `state` of a `union region_resource`, its lowest byte. -/
def resourceState (resource : Nat) : Nat := resource % 256

/-- A write to `state`. -/
def writeState (resource state : Nat) : Nat := resource / 256 * 256 + state

/-- `struct region` without its link. -/
structure Region where
  pageVaddr : Nat
  length : Nat
  /-- `union region_resource`. -/
  resource : Nat
  deriving DecidableEq, Repr

/-- An area of device memory. -/
structure DevArea where
  base : Nat
  length : Nat
  /-- The first region. -/
  data : Nat
  regions : Nat → Region
  links : SlistLinks Nat
  /-- The cells of `REGIONS_CACHE` that are handed out. -/
  live : List Nat
  translation : Translation

namespace DevArea

/-- Write a region. -/
def setRegion (area : DevArea) (cell : Nat) (region : Region) : DevArea :=
  { area with regions := Function.update area.regions cell region }

/-- `r->length += more`. -/
def grow (area : DevArea) (r more : Nat) : DevArea :=
  area.setRegion r { area.regions r with length := wrap ((area.regions r).length + more) }

/-- `r->resource.state = state`. -/
def setState (area : DevArea) (r state : Nat) : DevArea :=
  area.setRegion r { area.regions r with resource := writeState (area.regions r).resource state }

/-- `kmm_cache_free` for `REGIONS_CACHE`. -/
def freeCell (area : DevArea) (cell : Nat) : DevArea :=
  { area with live := area.live.erase cell }

def isFree (area : DevArea) (r : Nat) : Bool :=
  resourceState (area.regions r).resource == regionResStateFree

/-- The region is not passed over by `new_region`. -/
def fits (area : DevArea) (len r : Nat) : Bool :=
  area.isFree r && !decide ((area.regions r).length < len)

end DevArea

/-- `area` is what `vm_new_area_within_space` returns, `cell` is what
`kmm_cache_alloc` returns.  A new cell keeps what was in it. -/
def devAreaNew (memory : DevArea) (area : Option VmArea) (cell : Option Nat) : Option DevArea :=
  match area, cell with
  | some area, some m =>
      some { memory with
        base := area.base, length := area.length, data := m
        regions := Function.update memory.regions m
          { pageVaddr := area.base, length := area.length
            resource := writeState (memory.regions m).resource regionResStateFree }
        links := memory.links.init m
        live := m :: memory.live }
  | _, _ => none

/-- What `new_region` does with a region that is free and long enough; `cell` is what
`kmm_cache_alloc` returns if it is called. -/
def takeRegion (area : DevArea) (cell : Option Nat) (len r : Nat) : DevArea × Option Nat :=
  if (area.regions r).length > len then
    match cell with
    | none => (area, none)
    | some new =>
        let area := area.setRegion new { area.regions new with
          pageVaddr := wrap ((area.regions r).pageVaddr + len)
          length := (area.regions r).length - len }
        let area := { area with
          live := new :: area.live, links := (area.links.init new).insert r new }
        let area := area.setState new regionResStateFree
        let area := area.setRegion r { area.regions r with length := len }
        (area.setState r regionResStateUnknown, some r)
  else (area.setState r regionResStateUnknown, some r)

def newRegion (rounds : Nat) (area : DevArea) (cell : Option Nat) (len : Nat) :
    Outcome (DevArea × Option Nat) := do
  let found ← area.links.forEachUntil (area.fits len) rounds none (some area.data)
  match found with
  | none => .ok (area, none)
  | some (_, r) => .ok (takeRegion area cell len r)

/-- The part of `free_region_for` about the region before. -/
def coalesceLast (area : DevArea) (last r : Nat) : Outcome (DevArea × Nat) :=
  if area.isFree last then do
    let area := area.grow last (area.regions r).length
    let links ← area.links.removeNext last
    .ok ({ area with links := links }.freeCell r, last)
  else .ok (area, r)

/-- The part of `free_region_for` about the region behind; it is `r` that is freed. -/
def coalesceNext (area : DevArea) (r : Nat) : Outcome DevArea :=
  match area.links r with
  | none => .ok area
  | some next =>
      if area.isFree next then do
        let area := area.grow r (area.regions next).length
        let links ← area.links.removeNext r
        .ok ({ area with links := links }.freeCell r)
      else .ok area

/-- The base and the length of what is free now are returned as well. -/
def freeRegionFor (rounds : Nat) (area : DevArea) (res : Nat) :
    Outcome (DevArea × Nat × Nat) := do
  let found ← area.links.forEachUntil (fun r => (area.regions r).resource == res) rounds none
    (some area.data)
  match found with
  | none => .error .panic
  | some (last, r) => do
      let area := area.setState r regionResStateFree
      let last ← deref last
      let (area, r) ← coalesceLast area last r
      let regionBase := (area.regions r).pageVaddr
      let regionLen := (area.regions r).length
      let area ← coalesceNext area r
      .ok (area, regionBase, regionLen)

/-- The number of pages that `register_resource` maps. -/
def devBufferPages (devBuffer : ResourceData) : Nat :=
  let resStart := devBuffer.base
  let resEnd := wrapSub (wrap (resStart + devBuffer.len)) 1
  wrapSub (alignRoundup resEnd platformPageSize) (alignRounddown resStart platformPageSize) /
    platformPageSize

/-- `res` is the address of the resource. -/
def registerResource (rounds : Nat) (cell : Option Nat) (area : DevArea) (res : Nat)
    (resource : Resource) : Outcome (DevArea × Option Nat) :=
  if resource.type ≠ .devBuffer then .ok (area, none)
  else do
    let pages := devBufferPages resource.data
    let (area, new) ← newRegion rounds area cell (pages * platformPageSize)
    let new ← deref new
    let area := area.setRegion new { area.regions new with resource := res }
    let pbase := alignRounddown resource.data.base platformPageSize
    let vbase := alignRounddown (area.regions new).pageVaddr platformPageSize
    let translation ← (List.range pages).foldlM (fun translation i =>
      ptMap translation (wrap (pbase + i * platformPageSize))
        (wrap (vbase + i * platformPageSize))) area.translation
    .ok ({ area with translation := translation }, some (area.regions new).pageVaddr)

def unregisterResource (rounds : Nat) (area : DevArea) (res : Nat) : Outcome DevArea := do
  let (area, regBase, regLen) ← freeRegionFor rounds area res
  let pages := divCeil regLen platformPageSize
  let translation ← (List.range pages).foldlM (fun translation i =>
    ptUnmap translation (wrap (regBase + i * platformPageSize))) area.translation
  .ok { area with translation := translation }

/-- `vm_area_register_map` finds `register_resource` in `DEV_AREA_OPS`. -/
def kdevMapResource (rounds : Nat) (cell : Option Nat) (kdevArea : DevArea) (res : Nat)
    (resource : Resource) : Outcome (DevArea × Option Nat) := do
  kassert (res ≠ 0)
  registerResource rounds cell kdevArea res resource

/-- `vm_area_unregister_map` finds `unregister_resource`, which takes the argument for
a resource. -/
def kdevUnmapResource (rounds : Nat) (kdevArea : DevArea) (pageVaddr : Nat) : Outcome DevArea :=
  unregisterResource rounds kdevArea pageVaddr

@[simp]
theorem resourceState_writeState (resource : Nat) {state : Nat} (small : state < 256) :
    resourceState (writeState resource state) = state := by
  unfold resourceState writeState
  omega

namespace DevArea

variable (area : DevArea) (r state cell : Nat)

@[simp]
theorem setState_pageVaddr :
    ((area.setState r state).regions cell).pageVaddr = (area.regions cell).pageVaddr := by
  by_cases same : cell = r
  · simp [setState, setRegion, same]
  · simp [setState, setRegion, Function.update_of_ne same]

@[simp]
theorem setState_length :
    ((area.setState r state).regions cell).length = (area.regions cell).length := by
  by_cases same : cell = r
  · simp [setState, setRegion, same]
  · simp [setState, setRegion, Function.update_of_ne same]

variable {area r state cell}

theorem setState_of_ne (differs : cell ≠ r) :
    (area.setState r state).regions cell = area.regions cell := Function.update_of_ne differs ..

theorem isFree_setState (small : state < 256) :
    (area.setState r state).isFree r = (state == regionResStateFree) := by
  rw [isFree, setState, setRegion]
  dsimp only
  rw [Function.update_self, resourceState_writeState _ small]

end DevArea

/-- What the processor finds for every page under a directory. -/
def translationOf (frames : I686VmFrames) (treeRoot : Nat) : Translation :=
  fun page => walk frames treeRoot (page * platformPageSize)

variable {frames : I686VmFrames} {treeRoot vaddr : Nat}

theorem translationOf_page (fits : vaddr < addressSpace) :
    translationOf frames treeRoot (vaddr / platformPageSize) = walk frames treeRoot vaddr := by
  have start : vaddr / platformPageSize * platformPageSize ≤ vaddr := Nat.div_mul_le_self ..
  have samePage : vaddr / platformPageSize * platformPageSize / platformPageSize =
      vaddr / platformPageSize := Nat.mul_div_cancel _ (by decide)
  obtain ⟨pde, pte⟩ := (page_eq_iff fits (Nat.lt_of_le_of_lt start fits)).mp samePage
  rw [translationOf, walk, pde, pte]
  rfl

/-- Frames in which the walk of one page is another one show the update of the translations. -/
theorem translationOf_update {next : I686VmFrames} {entry : Option Nat}
    (fits : vaddr < addressSpace) (own : walk next treeRoot vaddr = entry) {other : Nat}
    (otherFits : other < addressSpace)
    (others : ¬(getPdeNdx other = getPdeNdx vaddr ∧ getPteNdx other = getPteNdx vaddr) →
      walk next treeRoot other = walk frames treeRoot other) :
    translationOf next treeRoot (other / platformPageSize) =
      Function.update (translationOf frames treeRoot) (vaddr / platformPageSize) entry
        (other / platformPageSize) := by
  rw [translationOf_page otherFits]
  by_cases same : other / platformPageSize = vaddr / platformPageSize
  · obtain ⟨pde, pte⟩ := (page_eq_iff fits otherFits).mp same
    rw [same, Function.update_self, walk, pde, pte]
    exact own
  · rw [Function.update_of_ne same, translationOf_page otherFits]
    exact others fun indices => same ((page_eq_iff fits otherFits).mpr indices)

/-- Below the windows `vm_arch_pt_map` returns where `ptMap` does, and the
translations stay the same. -/
theorem Tables.ptMap_refines (tables : Tables frames treeRoot) (physAddr : Nat)
    (fits : vaddr < addressSpace) (below : getPdeNdx vaddr < emergencyNdx) {page : Option Nat}
    (flags : Nat) (fresh : (frames treeRoot (getPdeNdx vaddr)).isPresent = false →
      ∃ paddr, page = some paddr ∧ FreshFrame frames treeRoot paddr) :
    (∃ translation, ptMap (translationOf frames treeRoot) physAddr vaddr = .ok translation) ∨
        (∃ next, vmArchPtMap frames treeRoot page physAddr vaddr flags = .ok next) →
    ∃ translation next, ptMap (translationOf frames treeRoot) physAddr vaddr = .ok translation ∧
      vmArchPtMap frames treeRoot page physAddr vaddr flags = .ok next ∧
      ∀ other < addressSpace, getPdeNdx other < emergencyNdx →
        translationOf next treeRoot (other / platformPageSize) =
          translation (other / platformPageSize) := by
  intro returns
  have unmapped : walk frames treeRoot vaddr = none := by
    rcases returns with ⟨translation, mapped⟩ | ⟨next, mapped⟩
    · obtain ⟨_, checked, -⟩ := Outcome.bind_eq_ok.mp mapped
      rw [← translationOf_page fits]
      exact kassert_eq_ok.mp checked
    · exact tables.unmapped_of_vmArchPtMap below mapped
  obtain ⟨next, mapped, -, own, others⟩ := tables.vmArchPtMap_ok physAddr below unmapped flags fresh
  have checked : translationOf frames treeRoot (vaddr / platformPageSize) = none := by
    rw [translationOf_page fits]
    exact unmapped
  refine ⟨_, next, by rw [ptMap, kassert_ok checked, Outcome.ok_bind], mapped,
    fun other otherFits otherBelow => ?_⟩
  refine translationOf_update fits (own.trans (congrArg some (Nat.shiftRight_eq_div_pow physAddr 12)))
    otherFits fun different => ?_
  have notShown : getPdeNdx other ≠ recursiveNdx := by
    unfold emergencyNdx at otherBelow
    unfold recursiveNdx
    omega
  rw [others other different, if_neg fun both => notShown both.2.1]

/-- Below the windows `vm_arch_pt_unmap` returns where `ptUnmap` does, and the
translations stay the same. -/
theorem Tables.ptUnmap_refines (tables : Tables frames treeRoot) (fits : vaddr < addressSpace)
    (below : getPdeNdx vaddr < emergencyNdx) :
    (∃ translation, ptUnmap (translationOf frames treeRoot) vaddr = .ok translation) ∨
        (∃ next, vmArchPtUnmap frames treeRoot vaddr = .ok next) →
    ∃ translation next, ptUnmap (translationOf frames treeRoot) vaddr = .ok translation ∧
      vmArchPtUnmap frames treeRoot vaddr = .ok next ∧
      ∀ other < addressSpace, getPdeNdx other < emergencyNdx →
        translationOf next treeRoot (other / platformPageSize) =
          translation (other / platformPageSize) := by
  intro returns
  have mapped : walk frames treeRoot vaddr ≠ none := by
    rcases returns with ⟨translation, unmapped⟩ | ⟨next, unmapped⟩
    · obtain ⟨_, checked, -⟩ := Outcome.bind_eq_ok.mp unmapped
      rw [← translationOf_page fits]
      exact kassert_eq_ok.mp checked
    · exact tables.mapped_of_vmArchPtUnmap below unmapped
  obtain ⟨frame, found⟩ := Option.ne_none_iff_exists'.mp mapped
  obtain ⟨next, returned, -, own, others⟩ := tables.vmArchPtUnmap_ok below found
  have checked : translationOf frames treeRoot (vaddr / platformPageSize) ≠ none := by
    rw [translationOf_page fits]
    exact mapped
  exact ⟨_, next, by rw [ptUnmap, kassert_ok checked, Outcome.ok_bind], returned,
    fun other otherFits _ => translationOf_update fits own otherFits (others other)⟩

end Yaeos
