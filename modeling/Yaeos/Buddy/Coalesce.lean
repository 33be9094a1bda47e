import Yaeos.Buddy.Overlap

/-!
# Coalescing

`free_buddys_ancestors` gives up as soon as one of the two children it reads is
clear, and the one just freed always is.  So the bits above a freed block stay
set.  That is right while the sibling of the block still has a page in use; when
the sibling is free as well, the parent is lost for its order.  In the runs
that keep clear of this, and of the blocks `occupy_buddy` marks on the wrong
levels, a bit is set exactly when one of its pages is in use.
-/

namespace Yaeos

/-- The other half of the parent. -/
def Block.siblingIndex (index : Nat) : Nat := if index % 2 = 0 then index + 1 else index - 1

theorem Block.siblingIndex_spec (index : Nat) :
    siblingIndex index ≠ index ∧ siblingIndex index >>> 1 = index >>> 1 ∧
      siblingIndex index ≤ index >>> 1 <<< 1 + 1 := by
  simp only [siblingIndex, Nat.shiftRight_one, Nat.shiftLeft_eq]
  split <;> omega

theorem shiftRight_sub_of_lt {page order level : Nat} (ordered : order ≤ level) :
    page >>> order >>> (level - order) = page >>> level := by
  rw [← Nat.shiftRight_add, Nat.add_sub_cancel' ordered]

/-- Indices with the same parent agree on every level above. -/
theorem shiftRight_eq_of_parent {first second distance : Nat} (positive : 0 < distance)
    (parent : first >>> 1 = second >>> 1) : first >>> distance = second >>> distance := by
  obtain ⟨rest, rfl⟩ := Nat.exists_eq_add_of_lt positive
  rw [Nat.zero_add, Nat.add_comm rest 1, Nat.shiftRight_add, Nat.shiftRight_add, parent]

namespace BuddySystem

variable {system next : BuddySystem} {pages : Nat}

/-- No free clears the last page in use of the parent, and no allocation hands
out a block that is marked on the wrong levels. -/
def KeepsParentInUse (pages : Nat) (system : BuddySystem) : BuddyCall → Prop
  | .free index order => system.manager.bit order (Block.siblingIndex index) = true
  | action => system.HandsOutOnItsLevel pages action

instance (pages : Nat) (system : BuddySystem) :
    ∀ call, Decidable (KeepsParentInUse pages system call)
  | .alloc order =>
      inferInstanceAs (Decidable (system.HandsOutOnItsLevel pages (.alloc order)))
  | .tryAlloc order index =>
      inferInstanceAs (Decidable (system.HandsOutOnItsLevel pages (.tryAlloc order index)))
  | .free _ _ => instDecidableEqBool _ true

/-- Every set bit has a page in use. -/
def NoStaleBit (pages : Nat) (system : BuddySystem) : Prop :=
  ∀ level position, position < pages >>> level → system.manager.bit level position = true →
    ∃ page, Block.Covered system.live page ∧ page >>> level = position

theorem NoStaleBit.occupy (exact_ : system.NoStaleBit pages)
    (sound : system.Disjointly pages) {block : Block}
    (inside : block.index < pages >>> block.order) (onLevel : BuddyManager.OnItsLevel block)
    {manager : BuddyManager}
    (occupied : occupyBuddy system.manager block.order block.index = .ok manager) :
    NoStaleBit pages ⟨manager, block :: system.live⟩ := by
  obtain ⟨next, result, -, bits⟩ :=
    BuddyManager.occupyBuddy_represents sound.represents inside onLevel
  rw [result] at occupied
  cases occupied
  intro level position inLevel set
  rw [bits level position inLevel] at set
  rcases set with marked | before
  · split at marked
    · next low =>
        refine ⟨position <<< level, .inl ?_ |> Block.covered_cons.mpr, Nat.shiftLeft_shiftRight _ _⟩
        rw [Block.covers_iff, ← shiftRight_sub_of_lt low, Nat.shiftLeft_shiftRight, marked]
    · next high =>
        refine ⟨block.index <<< block.order, Block.covered_cons.mpr (.inl block.covers_first), ?_⟩
        rw [← shiftRight_sub_of_lt (Nat.le_of_not_le high), Nat.shiftLeft_shiftRight, marked]
  · obtain ⟨page, inUse, above⟩ := exact_ level position inLevel before
    exact ⟨page, Block.covered_cons.mpr (.inr inUse), above⟩

theorem NoStaleBit.free (exact_ : system.NoStaleBit pages) (sound : system.Disjointly pages)
    {block : Block} (member : block ∈ system.live)
    (siblingInUse : system.manager.bit block.order (Block.siblingIndex block.index) = true)
    {manager : BuddyManager}
    (freed : freeBuddy system.manager block.order block.index = .ok manager) :
    NoStaleBit pages ⟨manager, system.live.erase block⟩ := by
  have spec := BuddyManager.freeBuddy_represents sound.represents (sound.inside block member)
  obtain ⟨-, covered⟩ := Block.erase_spec member sound.disjoint
  obtain ⟨differs, parent, bound⟩ := Block.siblingIndex_spec block.index
  split at spec
  · next sibling =>
      obtain ⟨next, result, -, bits⟩ := spec
      rw [result] at freed
      cases freed
      intro level position inLevel set
      rw [bits] at set
      obtain ⟨notBelow, before⟩ := set
      obtain ⟨page, inUse, above⟩ := exact_ level position inLevel before
      by_cases inBlock : block.Covers page
      · -- the page goes, but then the bit is above the block, and so above its sibling
        rw [Block.covers_iff] at inBlock
        have higher : block.order < level := by
          by_contra low
          apply notBelow
          refine ⟨Nat.le_of_not_lt low, ?_⟩
          rw [← above, BuddyManager.shiftRight_sub_of_le (Nat.le_of_not_lt low), inBlock]
        obtain ⟨other, otherInUse, otherAbove⟩ :=
          exact_ block.order _ (Nat.lt_of_le_of_lt bound sibling) siblingInUse
        refine ⟨other, (covered other).mpr ⟨otherInUse, fun otherInBlock => ?_⟩, ?_⟩
        · rw [Block.covers_iff, otherAbove] at otherInBlock
          exact differs otherInBlock
        · rw [← above, ← shiftRight_sub_of_lt (Nat.le_of_lt higher), otherAbove,
            shiftRight_eq_of_parent (Nat.sub_pos_of_lt higher) parent, ← inBlock,
            shiftRight_sub_of_lt (Nat.le_of_lt higher)]
      · exact ⟨page, (covered page).mpr ⟨inUse, inBlock⟩, above⟩
  · rw [spec] at freed
    cases freed

theorem KeepsParentInUse.handsOutOnItsLevel {action : BuddyCall}
    (allowed : system.KeepsParentInUse pages action) : system.HandsOutOnItsLevel pages action := by
  cases action with
  | alloc order => exact allowed
  | tryAlloc order index => exact allowed
  | free index order => trivial

theorem NoStaleBit.call (exact_ : system.NoStaleBit pages) (sound : system.Disjointly pages)
    {action : BuddyCall} (legal : system.Legal action)
    (allowed : system.KeepsParentInUse pages action) (called : system.call action = .ok next) :
    next.NoStaleBit pages := by
  rcases call_cases sound legal allowed.handsOutOnItsLevel called with
    ⟨block, manager, inside, onLevel, -, occupied, rfl⟩ | ⟨block, manager, rfl, member, freed, rfl⟩ |
      rfl
  · exact exact_.occupy sound inside onLevel occupied
  · exact exact_.free sound member allowed freed
  · exact exact_

theorem Fresh.noStaleBit (fresh : system.Fresh pages) : system.NoStaleBit pages := by
  obtain ⟨⟨memory, alloc, rest, maxIndex, initialised⟩, -⟩ := fresh
  intro level position inLevel set
  rw [(BuddyManager.buddyInit_spec initialised).2.2 level position inLevel] at set
  cases set

/-- The invariant of the runs that keep clear of both defects. -/
structure Coalesced (pages : Nat) (system : BuddySystem) : Prop where
  sound : system.Disjointly pages
  noStale : system.NoStaleBit pages

theorem Fresh.coalesced (fresh : system.Fresh pages) : system.Coalesced pages :=
  ⟨fresh.disjointly, fresh.noStaleBit⟩

theorem Coalesced.call (coalesced : system.Coalesced pages) {action : BuddyCall}
    (legal : system.Legal action) (allowed : system.KeepsParentInUse pages action)
    (called : system.call action = .ok next) : next.Coalesced pages :=
  ⟨coalesced.sound.call legal allowed.handsOutOnItsLevel called,
    coalesced.noStale.call coalesced.sound legal allowed called⟩

/-- An allocation of an order with a clear bit returns the first such block. -/
theorem buddyAlloc_of_clear (sound : system.Disjointly pages) {order index : Nat}
    (inside : index < pages >>> order) (clear : system.manager.bit order index = false) :
    ∃ manager found, buddyAlloc system.manager order = .ok (manager, some found) ∧
      found ≤ index := by
  have manages := sound.represents.manages
  rcases BuddyManager.buddyAlloc_cases manages (BuddyManager.lt_lvls manages inside) with
    ⟨found, foundInside, -, lowerSet, result⟩ | ⟨full, -⟩
  · obtain ⟨manager, occupied, -⟩ := BuddyManager.occupyBuddy_spec manages foundInside
    refine ⟨manager, found, by rw [result, occupied]; rfl, Nat.le_of_not_lt fun past => ?_⟩
    rw [lowerSet index past] at clear
    cases clear
  · rw [full index inside] at clear
    cases clear

/-- Whole runs: as long as every free leaves a page of the parent in use and
every block handed out is marked on its levels, an order with a free block can
be allocated; and with nothing live every order is allocated as from a fresh
manager. -/
theorem alloc_of_free_block {pages : Nat} {system : BuddySystem}
    (reached : ((buddyMachine pages).guard (KeepsParentInUse pages)).Reachable system) :
    (∀ order index, (index + 1) * 2 ^ order ≤ pages →
      (∀ page, (Block.mk index order).Covers page → ¬Block.Covered system.live page) →
      ∃ manager found, buddyAlloc system.manager order = .ok (manager, some found)) ∧
    (system.live = [] → ∀ fresh, Fresh pages fresh → ∀ order < system.manager.lvls,
      Prod.snd <$> buddyAlloc system.manager order = Prod.snd <$> buddyAlloc fresh.manager order)
    := by
  have both : system.Coalesced pages := reached.invariant (fun _ => Fresh.coalesced)
    fun _ _ _ both ⟨allowed, legal, called⟩ => both.call legal allowed called
  obtain ⟨sound, noStale⟩ := both
  constructor
  · intro order index whole free
    have inside : index < pages >>> order := by
      rw [Nat.shiftRight_eq_div_pow]
      exact (Nat.le_div_iff_mul_le (Nat.two_pow_pos order)).mpr whole
    have clear : system.manager.bit order index = false := by
      refine Bool.eq_false_iff.mpr fun set => ?_
      obtain ⟨page, inUse, above⟩ := noStale order index inside set
      exact free page (Block.covers_iff.mpr above) inUse
    obtain ⟨manager, found, result, -⟩ := buddyAlloc_of_clear sound inside clear
    exact ⟨manager, found, result⟩
  · intro nothingLive fresh isFresh order exists_
    have clearWhenEmpty : ∀ other : BuddySystem, other.Disjointly pages →
        other.NoStaleBit pages → other.live = [] →
        Prod.snd <$> buddyAlloc other.manager order = .ok (some 0) := by
      intro other otherSound otherNoStale otherEmpty
      have manages := sound.represents.manages
      have inside := BuddyManager.shiftRight_pos manages exists_
      have clear : other.manager.bit order 0 = false := by
        refine Bool.eq_false_iff.mpr fun set => ?_
        obtain ⟨page, inUse, -⟩ := otherNoStale order 0 inside set
        exact Block.covered_nil (otherEmpty ▸ inUse)
      obtain ⟨manager, found, result, first⟩ := buddyAlloc_of_clear otherSound inside clear
      rw [result, Outcome.map_ok, Nat.le_zero.mp first]
    rw [clearWhenEmpty system sound noStale nothingLive,
      clearWhenEmpty fresh isFresh.disjointly isFresh.noStaleBit isFresh.2]

/-- A run with a free in it that leaves the parent in use. -/
theorem alloc_of_free_block_five : ∃ system,
    ((buddyMachine 5).guard (KeepsParentInUse 5)).Reachable system ∧
      system.live = [⟨1, 0⟩] ∧
      ∃ manager found, buddyAlloc system.manager 1 = .ok (manager, some found) := by
  have result : (runFresh 5 (fun system call => KeepsParentInUse 5 system call ∧
      system.Legal call) [.alloc 0, .alloc 0, .free 0 0]).map live = some [⟨1, 0⟩] := by decide
  obtain ⟨system, executed, blocks⟩ := Option.map_eq_some_iff.mp result
  have reached := runFresh_reachable ((buddyMachine 5).guard (KeepsParentInUse 5))
    (fun _ fresh => fresh) (fun _ _ _ permitted called => ⟨permitted.1, permitted.2, called⟩)
    executed
  refine ⟨system, reached, blocks, (alloc_of_free_block reached).1 1 1 (by decide) ?_⟩
  intro page inBlock
  simp only [blocks, Block.covered_cons, Block.covered_nil, Block.covers_zero, or_false]
  have bounds : 2 ≤ page ∧ page < 4 := by simpa [Block.Covers] using inBlock
  omega

/-- One page taken and given back: all four pages are free, and the block of
four pages cannot be allocated any more, while a fresh manager hands it out. -/
theorem page_returned_block_lost : ∃ system fresh,
    (buddyMachine 4).Reachable system ∧ Fresh 4 fresh ∧ system.live = [] ∧
      2 < system.manager.lvls ∧
      Prod.snd <$> buddyAlloc system.manager 2 = .ok none ∧
      Prod.snd <$> buddyAlloc fresh.manager 2 = .ok (some 0) := by
  have lost : (runFresh 4 Legal [.alloc 0, .free 0 0]).map (fun system =>
      (system.live, system.manager.lvls, Prod.snd <$> buddyAlloc system.manager 2)) =
      some ([], 3, .ok none) := by decide
  have found : (runFresh 4 Legal []).map (fun system =>
      Prod.snd <$> buddyAlloc system.manager 2) = some (.ok (some 0)) := by decide
  obtain ⟨system, executed, state⟩ := Option.map_eq_some_iff.mp lost
  obtain ⟨fresh, booted, first⟩ := Option.map_eq_some_iff.mp found
  simp only [Prod.mk.injEq] at state
  obtain ⟨nothingLive, levels, lostBlock⟩ := state
  have reached := runFresh_reachable (buddyMachine 4) (fun _ fresh => fresh)
    (fun _ _ _ legal called => ⟨legal, called⟩) executed
  exact ⟨system, fresh, reached, runFresh_nil booted, nothingLive, by omega, lostBlock, first⟩

end BuddySystem

end Yaeos
