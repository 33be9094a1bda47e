import Yaeos.Buddy.Basic
import Yaeos.VmSpace.Basic

/-!
# Physical memory zones (`kernel/mm/mm.c`)

A zone keeps its own bookkeeping in its first pages: the linear allocator, the
zone structure, the buddy manager with its bitmaps and the array of page
descriptors.  Zones are named by the address of their structure, a descriptor
by its zone and its index in the array of the zone.

Of the area over the bookkeeping, flags and page fault handler are left out:
nothing here reads them.
-/

namespace Yaeos

inductive PageState where
  | free
  | occupied
  | fixed
  deriving DecidableEq, Repr

structure MmPage where
  paddr : Nat
  state : PageState
  deriving DecidableEq, Repr

structure MmZone where
  /-- Where the structure lies. -/
  address : Nat
  start : Nat
  length : Nat
  /-- The memory from `zone->pages` on, read as page descriptors. -/
  pages : Nat → MmPage
  /-- The number of descriptors the array was allocated for. -/
  descriptors : Nat
  pagesCount : Nat
  alloc : LinearAlloc
  buddym : BuddyManager
  infoArea : VmArea

/-- `&zone->pages[ndx]`. -/
structure PagePtr where
  zone : Nat
  ndx : Nat
  deriving DecidableEq, Repr

/-- `sizeof(struct linear_alloc)`. -/
def sizeofLinearAlloc : Nat := 12

/-- `sizeof(struct mm_zone)`. -/
def sizeofMmZone : Nat := 84

/-- `offsetof(struct mm_zone, info_area)`. -/
def infoAreaOffset : Nat := 24

/-- `sizeof(struct buddy_manager)`. -/
def sizeofBuddyManager : Nat := 12

/-- `sizeof(struct mm_page)`. -/
def sizeofMmPage : Nat := 8

/-- The allocator is moved into its own first allocation. -/
def bootstrapZoneAlloc (virtStart length : Nat) : Outcome LinearAlloc := do
  let bootstrapAlloc ← linearAllocInit virtStart length
  let (bootstrapAlloc, zoneAlloc) := linearAllocAlloc bootstrapAlloc sizeofLinearAlloc
  let _ ← deref zoneAlloc
  .ok bootstrapAlloc

/-- `kmemcpy(&zone->info_area, &tmp_area, …)`, and the data of the copied node. -/
def VmSpace.copyArea (space : VmSpace) (source target : Nat) : VmSpace :=
  let node := { space.rbAreas.nodes source with data := target }
  { space.setArea target (space.areas source) with
    rbAreas := space.rbAreas.modify target fun _ => node }

/-- The first half of `mm_zone_create`: the zone structure and the buddy manager
are taken from the zone itself, and the area over the zone is moved into the
structure.  Returns the address of the structure with the allocator. -/
def mmZoneBootstrap (rounds tmpArea areaStart length : Nat) (kernelVmspace : VmSpace) :
    Outcome (VmSpace × LinearAlloc × Nat) := do
  let space ← vmAreaInit kernelVmspace tmpArea areaStart length
  let space ← vmSpaceInsertArea rounds space tmpArea
  let alloc ← bootstrapZoneAlloc areaStart length
  let (alloc, zone) := linearAllocAlloc alloc sizeofMmZone
  let zone ← deref zone
  let (alloc, buddym) := linearAllocAlloc alloc sizeofBuddyManager
  let infoArea := zone + infoAreaOffset
  let space := space.copyArea tmpArea infoArea
  let space ← vmSpaceRemoveArea rounds space tmpArea
  let space ← vmSpaceInsertArea rounds space infoArea
  let _ ← deref buddym
  .ok (space, alloc, zone)

/-- `mm_page_init_free` on one descriptor of the array at `pagesAddress`. -/
def mmPageInit (pagesAddress : Option Nat) (start length : Nat) (pages : Nat → MmPage) (i : Nat) :
    Outcome (Nat → MmPage) := do
  kassert (i * platformPageSize ≤ length)
  kassert (pagesAddress ≠ none)
  .ok (Function.update pages i
    { paddr := wrap (start + i * platformPageSize), state := .free })

/-- One round of the loop that takes the bookkeeping pages out of use. -/
def mmPageFix (state : (Nat → MmPage) × BuddyManager) (i : Nat) :
    Outcome ((Nat → MmPage) × BuddyManager) := do
  let pages := Function.update state.1 i { state.1 i with state := .fixed }
  let (buddym, success) ← buddyTryAlloc state.2 0 i
  if success then .ok (pages, buddym) else .error .panic

/-- `memory` and `stalePages` are what the memory of the zone holds before the
call, as words and as descriptors; `tmpArea` is where the temporary area lies. -/
def mmZoneCreate (rounds : Nat) (memory : Nat → BitVec 32) (stalePages : Nat → MmPage)
    (tmpArea physStart length : Nat) (zones : List MmZone) (kernelVmspace : VmSpace) :
    Outcome (List MmZone × VmSpace) := do
  kassert (checkAlign physStart platformPageSize)
  kassert (checkAlign length platformPageSize)
  let areaStart := wrap (physStart + kernelVmspace.offset)
  kassert (checkAlign areaStart platformPageSize)
  let (space, alloc, zone) ← mmZoneBootstrap rounds tmpArea areaStart length kernelVmspace
  let (buddym, alloc, freePages) ← buddyInit memory (length / platformPageSize) alloc
  let (alloc, pagesAddress) := linearAllocAlloc alloc (wrap (freePages * sizeofMmPage))
  let alloc := linearForbidFurtherAlloc alloc
  let zoneAreaLen := alignRoundup (linearAllocOccupied alloc) platformPageSize
  let infoArea := { base := areaStart, length := zoneAreaLen }
  let space := space.setArea (zone + infoAreaOffset) infoArea
  let pages ← (List.range freePages).foldlM (mmPageInit pagesAddress physStart length) stalePages
  let usedPages := zoneAreaLen / platformPageSize
  let (pages, buddym) ← (List.range usedPages).foldlM mmPageFix (pages, buddym)
  let zone := {
    address := zone, start := physStart, length := length, pages := pages,
    descriptors := freePages, pagesCount := wrapSub freePages usedPages, alloc := alloc,
    buddym := buddym, infoArea := infoArea }
  .ok (slistInsert zones zone, space)

def mmAllocPageFrom (zone : MmZone) : Outcome (MmZone × Option PagePtr) := do
  let (buddym, pageNdx) ← buddyAlloc zone.buddym 0
  .ok ({ zone with buddym := buddym }, pageNdx.map fun ndx => { zone := zone.address, ndx := ndx })

/-- Write to the descriptor `ndx` of a zone. -/
def MmZone.setState (zone : MmZone) (ndx : Nat) (state : PageState) : MmZone :=
  { zone with pages := Function.update zone.pages ndx { zone.pages ndx with state := state } }

/-- `mm_alloc_page`: the first zone that has a page, whose descriptor is then
marked. -/
def mmAllocPage : List MmZone → Outcome (List MmZone × Option PagePtr)
  | [] => .ok ([], none)
  | zone :: rest => do
      let (zone, p) ← mmAllocPageFrom zone
      match p with
      | some p => .ok (zone.setState p.ndx .occupied :: rest, some p)
      | none =>
          let (rest, p) ← mmAllocPage rest
          .ok (zone :: rest, p)

def findZone (zones : List MmZone) (addr : Nat) : Option MmZone :=
  zones.find? fun zone => zone.start ≤ addr ∧ addr < wrap (zone.start + zone.length)

def getPageNdx (zone : MmZone) (addr : Nat) : Outcome Nat := do
  let p := addr &&& alignRounddown addr platformPageSize
  let p := wrapSub p zone.start
  let p := p / platformPageSize
  kassert (p < zone.pagesCount)
  .ok p

def mmGetPageByPaddr (zones : List MmZone) (physAddr : Nat) : Outcome (Option PagePtr) :=
  match findZone zones physAddr with
  | none => .ok none
  | some zone => do
      let pageNdx ← getPageNdx zone physAddr
      kassert ((zone.pages pageNdx).paddr = physAddr &&& alignMask platformPageSize)
      .ok (some { zone := zone.address, ndx := pageNdx })

/-- Write the structure of a zone back. -/
def setZone (zones : List MmZone) (zone : MmZone) : List MmZone :=
  zones.map fun other => if other.address = zone.address then zone else other

def mmFreePage (zones : List MmZone) (addr : Nat) : Outcome (List MmZone) := do
  kassert ((findZone zones addr).isSome)
  let zone ← deref (findZone zones addr)
  let pageNdx ← getPageNdx zone addr
  kassert ((← buddyIsFree zone.buddym pageNdx) = false)
  kassert ((zone.pages pageNdx).state = .occupied)
  let buddym ← buddyFree zone.buddym pageNdx 0
  .ok (setZone zones ({ zone with buddym := buddym }.setState pageNdx .free))

end Yaeos
