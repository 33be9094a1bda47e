import Yaeos.Buddy.Block
import Yaeos.Buddy.Levels

/-!
# Pages in use

`BuddyManager.Represents` relates a manager to the set of pages in use: level 0
is that set, and on every higher level the bits above a page in use are set.
The loop of `occupy_buddy` counts its levels from 0, so it marks the right bits
for a single page and for block 0 of any order; the two lemmas below are about
these blocks.
-/

namespace Yaeos

namespace BuddyManager

variable {manager : BuddyManager} {pages : Nat} {used : Nat → Prop} {block : Block}

structure Represents (manager : BuddyManager) (pages : Nat) (used : Nat → Prop) : Prop where
  manages : manager.Manages pages
  pageBits : ∀ page < pages, manager.bit 0 page = true ↔ used page
  ancestors : ∀ page < pages, used page → ∀ lvl, page >>> lvl < pages >>> lvl →
    manager.bit lvl (page >>> lvl) = true

/-- The blocks for which the loop of `occupy_buddy` visits the right levels. -/
def OnItsLevel (block : Block) : Prop := block.order = 0 ∨ block.index = 0

/-- The bits `occupy_buddy` marks for such a block are the block itself, what is
below it and what is above it. -/
theorem marked_iff (onLevel : OnItsLevel block) {level position : Nat}
    (inside : position < pages >>> level) :
    (Below block.order block.index level position ∨
        OnPath pages block.index level position) ↔
      if level ≤ block.order then position >>> (block.order - level) = block.index
      else position = block.index >>> (level - block.order) := by
  rcases block with ⟨index, order⟩
  simp only [Below, OnPath]
  rcases onLevel with single | first
  · simp only at single
    subst single
    rcases Nat.eq_zero_or_pos level with zero | positive
    · subst zero
      simp only [Nat.shiftRight_zero] at inside
      simpa using fun same : position = index => same ▸ inside
    · simp [Nat.not_le.mpr positive, inside]
  · simp only at first
    subst first
    rcases Nat.lt_trichotomy level order with lower | same | higher
    · simp only [lower, Nat.le_of_lt lower, true_and, if_true, Nat.zero_shiftRight]
      constructor
      · rintro (below | ⟨rfl, _⟩)
        · exact below
        · exact Nat.zero_shiftRight _
      · exact .inl
    · subst same
      simp [inside]
    · simp [Nat.not_lt.mpr (Nat.le_of_lt higher), Nat.not_le.mpr higher, inside]

theorem shiftRight_sub_of_le {page level order : Nat} (ordered : level ≤ order) :
    page >>> level >>> (order - level) = page >>> order := by
  rw [← Nat.shiftRight_add, Nat.add_sub_cancel' ordered]

/-- Every bit on the path of a page of the block is marked. -/
theorem marked_of_covers (onLevel : OnItsLevel block) {page lvl : Nat}
    (inside : page >>> lvl < pages >>> lvl) (inBlock : block.Covers page) :
    Below block.order block.index lvl (page >>> lvl) ∨
      OnPath pages block.index lvl (page >>> lvl) := by
  rw [Block.covers_iff] at inBlock
  rw [marked_iff onLevel inside]
  split
  · next low => rw [shiftRight_sub_of_le low, inBlock]
  · next high => rw [← inBlock, shiftRight_sub_of_le (Nat.le_of_not_le high)]

/-- A block whose own bit is clear has no page in use. -/
theorem unused_of_clear (represents : manager.Represents pages used)
    (inside : block.index < pages >>> block.order)
    (clear : manager.bit block.order block.index = false) {page : Nat} (inPages : page < pages)
    (inBlock : block.Covers page) : ¬used page := by
  intro inUse
  rw [Block.covers_iff] at inBlock
  have set := represents.ancestors page inPages inUse block.order (inBlock ▸ inside)
  rw [inBlock, clear] at set
  cases set

theorem occupyBuddy_represents (represents : manager.Represents pages used)
    (inside : block.index < pages >>> block.order) (onLevel : OnItsLevel block) :
    ∃ next, occupyBuddy manager block.order block.index = .ok next ∧
      next.Represents pages (fun page => block.Covers page ∨ used page) ∧
      ∀ level position, position < pages >>> level → (next.bit level position = true ↔
        (if level ≤ block.order then position >>> (block.order - level) = block.index
          else position = block.index >>> (level - block.order)) ∨
        manager.bit level position = true) := by
  obtain ⟨next, occupied, marks⟩ := occupyBuddy_spec represents.manages inside
  have bits : ∀ level position, position < pages >>> level → (next.bit level position = true ↔
      (if level ≤ block.order then position >>> (block.order - level) = block.index
        else position = block.index >>> (level - block.order)) ∨
      manager.bit level position = true) := by
    intro level position inLevel
    rw [marks.bit_iff, marked_iff onLevel inLevel]
  refine ⟨next, occupied, ⟨marks.manages, fun page inPages => ?_, ?_⟩, bits⟩
  · rw [bits 0 page (by simpa using inPages), represents.pageBits page inPages, Block.covers_iff]
    simp
  · rintro page inPages inUse lvl inLevel
    rw [marks.bit_iff]
    rcases inUse with inBlock | before
    · exact .inl (marked_of_covers onLevel inLevel inBlock)
    · exact .inr (represents.ancestors page inPages before lvl inLevel)

/-- The bits cleared on a free are those whose pages all lie in the block. -/
theorem cleared_iff {level position : Nat} :
    (level = block.order ∧ position = block.index) ∨
        Below block.order block.index level position ↔
      level ≤ block.order ∧ position >>> (block.order - level) = block.index := by
  unfold Below
  rcases Nat.lt_trichotomy level block.order with lower | same | higher
  · simp [lower, Nat.ne_of_lt lower, Nat.le_of_lt lower]
  · subst same; simp
  · simp [Nat.not_lt.mpr (Nat.le_of_lt higher), Nat.not_le.mpr higher, Nat.ne_of_gt higher]

/-- The other half of the parent of a block exists. -/
def HasSibling (pages : Nat) (block : Block) : Prop :=
  block.index >>> 1 <<< 1 + 1 < pages >>> block.order

instance (pages : Nat) (block : Block) : Decidable (HasSibling pages block) :=
  inferInstanceAs (Decidable (_ < _))

/-- A free returns exactly when the sibling exists, and then takes the pages of
the block out of the set; the bits above the block stay as they were. -/
theorem freeBuddy_represents (represents : manager.Represents pages used)
    (inside : block.index < pages >>> block.order) :
    if HasSibling pages block then
      ∃ next, freeBuddy manager block.order block.index = .ok next ∧
        next.Represents pages (fun page => used page ∧ ¬block.Covers page) ∧
        ∀ level position, next.bit level position = true ↔
          ¬(level ≤ block.order ∧ position >>> (block.order - level) = block.index) ∧
            manager.bit level position = true
    else freeBuddy manager block.order block.index = .error .kassert := by
  have spec := freeBuddy_spec represents.manages inside
  by_cases sibling : HasSibling pages block
  · rw [if_pos sibling]
    rw [if_pos (show block.index >>> 1 <<< 1 + 1 < _ from sibling)] at spec
    obtain ⟨next, freed, clears⟩ := spec
    have bits : ∀ level position, next.bit level position = true ↔
        ¬(level ≤ block.order ∧ position >>> (block.order - level) = block.index) ∧
          manager.bit level position = true := by
      intro level position
      rw [clears.bit_iff, cleared_iff]
    refine ⟨next, freed, ⟨clears.manages, fun page inPages => ?_, ?_⟩, bits⟩
    · rw [bits, represents.pageBits page inPages, Block.covers_iff]
      simp [and_comm]
    · rintro page inPages ⟨inUse, outside⟩ lvl inLevel
      rw [bits]
      refine ⟨?_, represents.ancestors page inPages inUse lvl inLevel⟩
      rintro ⟨low, below⟩
      rw [shiftRight_sub_of_le low] at below
      exact outside (Block.covers_iff.mpr below)
  · rw [if_neg sibling]
    rwa [if_neg (show ¬block.index >>> 1 <<< 1 + 1 < _ from sibling)] at spec

/-- An allocation takes the first block whose bit is clear, or none. -/
theorem buddyAlloc_cases (manages : manager.Manages pages) {order : Nat}
    (exists_ : order < manager.lvls) :
    (∃ index < pages >>> order, manager.bit order index = false ∧
      (∀ lower < index, manager.bit order lower = true) ∧
      buddyAlloc manager order = (do .ok (← occupyBuddy manager order index, some index))) ∨
    ((∀ index < pages >>> order, manager.bit order index = true) ∧
      buddyAlloc manager order = .ok (manager, none)) := by
  obtain ⟨bitmap, found, length, bits⟩ := lvlBitmap_eq manages exists_
  have search := Bitmap.searchFalse_spec bitmap
  have notAbove : ¬order > manager.lvls := by omega
  cases result : bitmapSearchFalse bitmap with
  | none =>
      rw [result] at search
      refine .inr ⟨fun index inside => ?_, by simp [buddyAlloc, notAbove, found, result]⟩
      rw [bits]
      exact search index (length ▸ inside)
  | some index =>
      rw [result] at search
      obtain ⟨inside, clear, lowerSet⟩ := search
      refine .inl ⟨index, length ▸ inside, (bits index).trans clear, fun lower below => ?_, ?_⟩
      · rw [bits]; exact lowerSet lower below
      · simp [buddyAlloc, notAbove, found, result]

theorem buddyTryAlloc_eq (manages : manager.Manages pages) {order index : Nat}
    (inside : index < pages >>> order) :
    buddyTryAlloc manager order index =
      if manager.bit order index = true then .ok (manager, false)
      else (do .ok (← occupyBuddy manager order index, true)) := by
  simp [buddyTryAlloc, getBit_eq manages inside]

/-- An index past the end of its level fails the bounds assertion. -/
theorem buddyTryAlloc_error (manages : manager.Manages pages) {order index : Nat}
    (exists_ : order < manager.lvls) (outside : ¬index < pages >>> order) :
    buddyTryAlloc manager order index = .error .kassert := by
  simp [buddyTryAlloc, getBit_error manages exists_ outside]

theorem Represents.congr {other : Nat → Prop} (represents : manager.Represents pages used)
    (same : ∀ page < pages, other page ↔ used page) : manager.Represents pages other where
  manages := represents.manages
  pageBits page inPages := (represents.pageBits page inPages).trans (same page inPages).symm
  ancestors page inPages inUse := represents.ancestors page inPages ((same page inPages).mp inUse)

/-- A fresh manager has no page in use. -/
theorem buddyInit_represents {memory : Nat → BitVec 32} {alloc rest : LinearAlloc}
    {maxIndex : Nat} (initialised : buddyInit memory pages alloc = .ok (manager, rest, maxIndex)) :
    manager.Represents pages fun _ => False := by
  obtain ⟨manages, -, clear⟩ := buddyInit_spec initialised
  refine ⟨manages, fun page inPages => ?_, fun _ _ inUse => inUse.elim⟩
  simp [clear 0 page (by simpa using inPages)]

/-- The manager that `buddy_init` builds in 60 KiB of zeroed memory. -/
def boot (pages : Nat) : Option BuddyManager :=
  (buddyInit (fun _ => 0) pages ⟨4096, 4096, 65536⟩).toOption.map (·.1)

theorem boot_eq (booted : boot pages = some manager) : ∃ memory alloc rest maxIndex,
    buddyInit memory pages alloc = .ok (manager, rest, maxIndex) := by
  obtain ⟨⟨found, rest, maxIndex⟩, initialised, rfl⟩ := Option.map_eq_some_iff.mp booted
  refine ⟨fun _ => 0, ⟨4096, 4096, 65536⟩, rest, maxIndex, ?_⟩
  cases outcome : buddyInit (fun _ => 0) pages ⟨4096, 4096, 65536⟩ <;>
    simp_all [Except.toOption]

/-- The set of pages in use is level 0 itself. -/
def Tracks (manager : BuddyManager) (pages : Nat) : Prop :=
  manager.Represents pages fun page => manager.bit 0 page = true

theorem Represents.tracks (represents : manager.Represents pages used) : manager.Tracks pages :=
  represents.congr fun page inPages => represents.pageBits page inPages

theorem Tracks.occupy {page : Nat} (tracks : manager.Tracks pages) (inPages : page < pages) :
    ∃ next, occupyBuddy manager 0 page = .ok next ∧ next.Tracks pages ∧
      ∀ other < pages, next.bit 0 other = (decide (other = page) || manager.bit 0 other) := by
  obtain ⟨next, occupied, represents, bits⟩ := @occupyBuddy_represents manager pages _ ⟨page, 0⟩ tracks
    (by simpa using inPages) (.inl rfl)
  refine ⟨next, occupied, represents.tracks, fun other inside => ?_⟩
  rw [Bool.eq_iff_iff, bits 0 other (by simpa using inside)]
  simp

/-- A single page is taken from the lowest clear bit. -/
theorem Tracks.alloc (tracks : manager.Tracks pages) :
    (∃ page < pages, manager.bit 0 page = false ∧ (∀ lower < page, manager.bit 0 lower = true) ∧
      ∃ next, buddyAlloc manager 0 = .ok (next, some page) ∧ next.Tracks pages ∧
        ∀ other < pages, next.bit 0 other = (decide (other = page) || manager.bit 0 other)) ∨
    ((∀ page < pages, manager.bit 0 page = true) ∧ buddyAlloc manager 0 = .ok (manager, none)) := by
  have exists_ : 0 < manager.lvls := by rw [tracks.manages.lvls_eq]; exact Nat.succ_pos _
  rcases buddyAlloc_cases tracks.manages exists_ with
    ⟨page, inLevel, clear, lowerSet, result⟩ | ⟨full, result⟩
  · have inPages : page < pages := by simpa using inLevel
    obtain ⟨next, occupied, nextTracks, bits⟩ := tracks.occupy inPages
    exact .inl ⟨page, inPages, clear, lowerSet, next, by rw [result, occupied]; rfl, nextTracks, bits⟩
  · exact .inr ⟨fun page inPages => full page (by simpa using inPages), result⟩

theorem Tracks.tryAlloc {page : Nat} {next : BuddyManager} (tracks : manager.Tracks pages)
    (taken : buddyTryAlloc manager 0 page = .ok (next, true)) :
    page < pages ∧ next.Tracks pages ∧
      ∀ other < pages, next.bit 0 other = (decide (other = page) || manager.bit 0 other) := by
  have exists_ : 0 < manager.lvls := by rw [tracks.manages.lvls_eq]; exact Nat.succ_pos _
  by_cases inPages : page < pages
  · rw [buddyTryAlloc_eq tracks.manages (by simpa using inPages)] at taken
    split at taken
    · cases taken
    · obtain ⟨occupiedNext, occupied, nextTracks, bits⟩ := tracks.occupy inPages
      rw [occupied] at taken
      cases taken
      exact ⟨inPages, nextTracks, bits⟩
  · rw [buddyTryAlloc_error tracks.manages exists_ (by simpa using inPages)] at taken
    cases taken

/-- A page is given back when it has a neighbour to form a pair with. -/
theorem Tracks.free {page : Nat} (tracks : manager.Tracks pages)
    (sibling : page >>> 1 <<< 1 + 1 < pages) (inPages : page < pages) :
    ∃ next, buddyFree manager page 0 = .ok next ∧ next.Tracks pages ∧
      ∀ other, next.bit 0 other = (!decide (other = page) && manager.bit 0 other) := by
  have spec := @freeBuddy_represents manager pages _ ⟨page, 0⟩ tracks (by simpa using inPages)
  rw [if_pos (show HasSibling pages ⟨page, 0⟩ by simpa [HasSibling] using sibling)] at spec
  obtain ⟨next, freed, represents, bits⟩ := spec
  refine ⟨next, freed, represents.tracks, fun other => ?_⟩
  rw [Bool.eq_iff_iff, bits 0 other]
  simp

theorem Tracks.isFree {page : Nat} (tracks : manager.Tracks pages) (inPages : page < pages) :
    buddyIsFree manager page = .ok (!manager.bit 0 page) := by
  rw [buddyIsFree, getBit_eq tracks.manages (by simpa using inPages)]
  rfl

end BuddyManager

end Yaeos
