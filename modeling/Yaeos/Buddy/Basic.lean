import Yaeos.Bitmap.Basic
import Yaeos.Linear.Basic

/-!
# The buddy allocator (`lib/mm/buddy.c`)

Level `lvl` has one bit for each whole run of `2 ^ lvl` pages.  The definitions
follow the source statement by statement, including the levels at which
`occupy_buddy` marks the ancestors and the test on which `free_buddys_ancestors`
gives up.
-/

namespace Yaeos

structure BuddyManager where
  /-- The array `lvl_bitmaps`, one bitmap a level. -/
  lvlBitmaps : List Bitmap
  lvls : Nat

/-- `sizeof(struct bitmap)`. -/
def sizeofBitmap : Nat := 12

/-- `log2_floor`. -/
def log2Floor (value : Nat) : Outcome Nat := do
  kassert (0 ≠ value)
  .ok (Nat.log2 value)

def getMaxIndex (pages lvl : Nat) : Outcome Nat := do
  kassert (pages >>> lvl > 0)
  .ok (pages >>> lvl - 1)

def buddyPredictReqSpace (pages : Nat) : Outcome Nat := do
  let lvls := (← log2Floor pages) + 1
  let lvlsArray := lvls * sizeofBitmap
  let bitmaps ← (List.range lvls).foldlM (fun bitmaps i => do
    let bitsReq := (← getMaxIndex pages i) + 1
    .ok (bitmaps + (← bitmapPredictSize bitsReq))) 0
  .ok (bitmaps + lvlsArray)

/-- The words in memory from an address on. -/
def wordsAt (memory : Nat → BitVec 32) (address bytes : Nat) : List (BitVec 32) :=
  (List.range (bytes / 4)).map fun word => memory (address + 4 * word)

/-- One round of the loop of `buddy_init`: take space for the bitmap of a level
and store the bitmap in the array at `lvlBitmaps`. -/
def buddyInitLvl (memory : Nat → BitVec 32) (lvlBitmaps : Option Nat) (pages : Nat)
    (state : LinearAlloc × List Bitmap) (lvl : Nat) : Outcome (LinearAlloc × List Bitmap) := do
  let bitsReq := (← getMaxIndex pages lvl) + 1
  let size ← bitmapPredictSize bitsReq
  let (alloc, space) := linearAllocAlloc state.1 size
  kassert (space ≠ none)
  let address ← deref space
  let _ ← deref lvlBitmaps
  let bitmap ← bitmapInit address (wordsAt memory address size) bitsReq
  .ok (alloc, state.2 ++ [bitmap])

/-- `memory` is what the words of the machine hold before the call; the last
result is the return value of the source. -/
def buddyInit (memory : Nat → BitVec 32) (pages : Nat) (alloc : LinearAlloc) :
    Outcome (BuddyManager × LinearAlloc × Nat) := do
  let allocSpaceBefore := linearAllocOccupied alloc
  let lvls := (← log2Floor pages) + 1
  let (alloc, lvlBitmaps) := linearAllocAlloc alloc (lvls * sizeofBitmap)
  let (alloc, bitmaps) ←
    (List.range lvls).foldlM (buddyInitLvl memory lvlBitmaps pages) (alloc, [])
  let predicted ← buddyPredictReqSpace pages
  kassert (wrapSub (linearAllocOccupied alloc) allocSpaceBefore = predicted)
  let maxIndex ← getMaxIndex pages 0
  .ok ({ lvlBitmaps := bitmaps, lvls := lvls }, alloc, maxIndex)

namespace BuddyManager

/-- `lvl_bitmaps[lvl]`. -/
def lvlBitmap (manager : BuddyManager) (lvl : Nat) : Outcome Bitmap :=
  match manager.lvlBitmaps[lvl]? with
  | some bitmap => .ok bitmap
  | none => .error .outOfBounds

def setLvlBitmap (manager : BuddyManager) (lvl : Nat) (bitmap : Bitmap) : BuddyManager :=
  { manager with lvlBitmaps := manager.lvlBitmaps.set lvl bitmap }

/-- `bitmap_get(&bmgr->lvl_bitmaps[lvl], bit)`. -/
def getBit (manager : BuddyManager) (lvl bit : Nat) : Outcome Bool := do
  bitmapGet (← manager.lvlBitmap lvl) bit

/-- `bitmap_set_true(&bmgr->lvl_bitmaps[lvl], bit)`. -/
def setTrue (manager : BuddyManager) (lvl bit : Nat) : Outcome BuddyManager := do
  .ok (manager.setLvlBitmap lvl (← bitmapSetTrue (← manager.lvlBitmap lvl) bit))

/-- `bitmap_set_false(&bmgr->lvl_bitmaps[lvl], bit)`. -/
def setFalse (manager : BuddyManager) (lvl bit : Nat) : Outcome BuddyManager := do
  .ok (manager.setLvlBitmap lvl (← bitmapSetFalse (← manager.lvlBitmap lvl) bit))

end BuddyManager

def occupyBuddysDescendants (manager : BuddyManager) : (lvl bit : Nat) → Outcome BuddyManager
  | 0, _ => .ok manager
  | lvl + 1, bit => do
      let bit := bit <<< 1
      let manager ← manager.setTrue lvl bit
      let manager ← manager.setTrue lvl (bit + 1)
      let manager ← occupyBuddysDescendants manager lvl bit
      occupyBuddysDescendants manager lvl (bit + 1)

/-- One round of the loop of `occupy_buddy`; the test guards against the trailing
bit of a level of odd length. -/
def occupyBuddyLvl (bit : Nat) (manager : BuddyManager) (i : Nat) : Outcome BuddyManager := do
  if bit >>> i < (← manager.lvlBitmap i).length then manager.setTrue i (bit >>> i)
  else .ok manager

/-- The loop starts at level 0 whatever the level of the buddy is. -/
def occupyBuddy (manager : BuddyManager) (lvl bit : Nat) : Outcome BuddyManager := do
  let manager ← occupyBuddysDescendants manager lvl bit
  (List.range manager.lvls).foldlM (occupyBuddyLvl bit) manager

/-- The loop of `free_buddys_ancestors`: `rounds` bounds the values of `lvl` the
loop condition `lvl <= bmgr->lvls` still lets through. -/
def freeBuddysAncestorsLoop (manager : BuddyManager) :
    (rounds lvl bit : Nat) → Outcome BuddyManager
  | 0, _, _ => .ok manager
  | rounds + 1, lvl, bit => do
      let lvl := lvl + 1
      let bit := bit >>> 1
      let leftChildFree ← manager.getBit (lvl - 1) (bit <<< 1)
      let rightChildFree ← manager.getBit (lvl - 1) (bit <<< 1 + 1)
      if !leftChildFree || !rightChildFree then .ok manager
      else
        let manager ← manager.setFalse lvl bit
        freeBuddysAncestorsLoop manager rounds lvl bit

def freeBuddysAncestors (manager : BuddyManager) (lvl bit : Nat) : Outcome BuddyManager :=
  freeBuddysAncestorsLoop manager (manager.lvls + 1 - lvl) lvl bit

def freeBuddysChildren (manager : BuddyManager) : (lvl bit : Nat) → Outcome BuddyManager
  | 0, _ => .ok manager
  | lvl + 1, bit => do
      let bit := bit <<< 1
      let manager ← manager.setFalse lvl bit
      let manager ← manager.setFalse lvl (bit + 1)
      let manager ← freeBuddysChildren manager lvl bit
      freeBuddysChildren manager lvl (bit + 1)

def freeBuddy (manager : BuddyManager) (lvl bit : Nat) : Outcome BuddyManager := do
  let manager ← manager.setFalse lvl bit
  let manager ← freeBuddysChildren manager lvl bit
  freeBuddysAncestors manager lvl bit

def buddyTryAlloc (manager : BuddyManager) (order pageNdx : Nat) :
    Outcome (BuddyManager × Bool) := do
  if ← manager.getBit order pageNdx then .ok (manager, false)
  else .ok (← occupyBuddy manager order pageNdx, true)

/-- `none` is the return value `false`, `some ndx` is `true` with `*result = ndx`. -/
def buddyAlloc (manager : BuddyManager) (order : Nat) : Outcome (BuddyManager × Option Nat) := do
  if order > manager.lvls then .ok (manager, none)
  else
    match bitmapSearchFalse (← manager.lvlBitmap order) with
    | none => .ok (manager, none)
    | some ndx => .ok (← occupyBuddy manager order ndx, some ndx)

def buddyFree (manager : BuddyManager) (pageNdx order : Nat) : Outcome BuddyManager :=
  freeBuddy manager order pageNdx

def buddyIsFree (manager : BuddyManager) (pageNdx : Nat) : Outcome Bool := do
  .ok (!(← manager.getBit 0 pageNdx))

end Yaeos
