import Yaeos.Buddy.Pages
import Yaeos.Machine.Run

/-!
# Runs of the buddy allocator

A run starts from `buddy_init` and makes allocations of any order and frees of
live blocks.  `occupy_buddy` marks the levels from 0 on, so for a block of a
higher order that is not the first one it marks bits of other blocks and leaves
its own bit clear.  As long as no such block is handed out, live blocks are
disjoint and level 0 is the set of their pages.
-/

namespace Yaeos

/-- The manager together with the blocks its clients hold. -/
structure BuddySystem where
  manager : BuddyManager
  live : List Block

inductive BuddyCall where
  | alloc (order : Nat)
  | tryAlloc (order index : Nat)
  | free (index order : Nat)
  deriving DecidableEq, Repr

namespace BuddySystem

def call (system : BuddySystem) : BuddyCall → Outcome BuddySystem
  | .alloc order => do
      match ← buddyAlloc system.manager order with
      | (manager, some ndx) => .ok ⟨manager, ⟨ndx, order⟩ :: system.live⟩
      | (manager, none) => .ok ⟨manager, system.live⟩
  | .tryAlloc order index => do
      match ← buddyTryAlloc system.manager order index with
      | (manager, true) => .ok ⟨manager, ⟨index, order⟩ :: system.live⟩
      | (manager, false) => .ok ⟨manager, system.live⟩
  | .free index order => do
      .ok ⟨← buddyFree system.manager index order, system.live.erase ⟨index, order⟩⟩

/-- Orders are below the number of levels and a free names a live block. -/
def Legal (system : BuddySystem) : BuddyCall → Prop
  | .alloc order => order < system.manager.lvls
  | .tryAlloc order _ => order < system.manager.lvls
  | .free index order => ⟨index, order⟩ ∈ system.live

instance (system : BuddySystem) (call : BuddyCall) : Decidable (system.Legal call) := by
  cases call <;> unfold Legal <;> infer_instance

/-- A manager of `pages` pages as `buddy_init` leaves it, with nothing handed out. -/
def Fresh (pages : Nat) (system : BuddySystem) : Prop :=
  (∃ memory alloc rest maxIndex,
    buddyInit memory pages alloc = .ok (system.manager, rest, maxIndex)) ∧ system.live = []

end BuddySystem

/-- The legal runs of a manager of `pages` pages. -/
def buddyMachine (pages : Nat) : Machine BuddySystem BuddyCall :=
  (Machine.ofOutcome (BuddySystem.Fresh pages) BuddySystem.call).guard BuddySystem.Legal

namespace BuddySystem

variable {system next : BuddySystem} {pages : Nat}

/-- The call hands out no block of a higher order but the first one: the order
is 0, or block 0 is the one it finds, or it finds nothing. -/
def HandsOutOnItsLevel (pages : Nat) (system : BuddySystem) : BuddyCall → Prop
  | .alloc order => order = 0 ∨ system.manager.bit order 0 = false ∨
      ∀ index < pages >>> order, system.manager.bit order index = true
  | .tryAlloc order index => order = 0 ∨ index = 0 ∨ system.manager.bit order index = true
  | .free _ _ => True

/-- Live blocks are whole blocks of the managed pages, they are disjoint, and
the bitmaps represent the set of their pages. -/
structure Disjointly (pages : Nat) (system : BuddySystem) : Prop where
  represents : system.manager.Represents pages (Block.Covered system.live)
  inside : ∀ block ∈ system.live, block.index < pages >>> block.order
  disjoint : Block.PairwiseDisjoint system.live

/-- What handing out the block does to the system. -/
theorem Disjointly.occupy (sound : system.Disjointly pages) {block : Block}
    (inside : block.index < pages >>> block.order) (onLevel : BuddyManager.OnItsLevel block)
    (clear : system.manager.bit block.order block.index = false) :
    ∃ manager, occupyBuddy system.manager block.order block.index = .ok manager ∧
      Disjointly pages ⟨manager, block :: system.live⟩ := by
  obtain ⟨manager, occupied, represents, -⟩ :=
    BuddyManager.occupyBuddy_represents sound.represents inside onLevel
  refine ⟨manager, occupied, represents.congr fun page _ => Block.covered_cons, ?_, ?_⟩
  · simpa [inside] using sound.inside
  · refine Block.pairwiseDisjoint_cons.mpr ⟨fun page inBlock => ?_, sound.disjoint⟩
    -- a page of the new block is a managed page, so its bit would have been found set
    have inPages : page < pages := by
      rw [Block.covers_iff] at inBlock
      rw [← inBlock, Nat.shiftRight_eq_div_pow, Nat.shiftRight_eq_div_pow] at inside
      exact Nat.lt_of_div_lt_div inside
    exact BuddyManager.unused_of_clear sound.represents inside clear inPages inBlock

theorem Disjointly.free (sound : system.Disjointly pages) {block : Block}
    (member : block ∈ system.live) {manager : BuddyManager}
    (freed : freeBuddy system.manager block.order block.index = .ok manager) :
    Disjointly pages ⟨manager, system.live.erase block⟩ := by
  have spec := BuddyManager.freeBuddy_represents sound.represents (sound.inside block member)
  obtain ⟨disjoint, covered⟩ := Block.erase_spec member sound.disjoint
  split at spec
  · obtain ⟨next, result, represents, -⟩ := spec
    rw [result] at freed
    cases freed
    exact ⟨represents.congr fun page _ => covered page,
      fun other listed => sound.inside other (List.mem_of_mem_erase listed), disjoint⟩
  · rw [spec] at freed
    cases freed

/-- What a legal call that hands out blocks on their levels can do: take one
block whose bit is clear, free a live block, or change nothing. -/
theorem call_cases (sound : system.Disjointly pages) {action : BuddyCall}
    (legal : system.Legal action) (allowed : system.HandsOutOnItsLevel pages action)
    (called : system.call action = .ok next) :
    (∃ block manager, block.index < pages >>> block.order ∧ BuddyManager.OnItsLevel block ∧
        system.manager.bit block.order block.index = false ∧
        occupyBuddy system.manager block.order block.index = .ok manager ∧
        next = ⟨manager, block :: system.live⟩) ∨
      (∃ block manager, action = .free block.index block.order ∧ block ∈ system.live ∧
        freeBuddy system.manager block.order block.index = .ok manager ∧
        next = ⟨manager, system.live.erase block⟩) ∨
      next = system := by
  cases action with
  | alloc order =>
      simp only [BuddySystem.call] at called
      rcases BuddyManager.buddyAlloc_cases sound.represents.manages legal with
        ⟨index, inside, clear, lowerSet, result⟩ | ⟨full, result⟩
      · have onLevel : BuddyManager.OnItsLevel ⟨index, order⟩ := by
          rcases allowed with single | first | full
          · exact .inl single
          · refine .inr (Nat.eq_zero_of_not_pos fun positive => ?_)
            rw [lowerSet 0 positive] at first
            cases first
          · rw [full index inside] at clear
            cases clear
        simp only [result, Outcome.bind_eq_ok, Except.ok.injEq] at called
        obtain ⟨_, ⟨manager, occupied, rfl⟩, returned⟩ := called
        cases returned
        exact .inl ⟨⟨index, order⟩, manager, inside, onLevel, clear, occupied, rfl⟩
      · simp only [result, Outcome.ok_bind, Except.ok.injEq] at called
        exact .inr (.inr called.symm)
  | tryAlloc order index =>
      simp only [BuddySystem.call] at called
      by_cases inside : index < pages >>> order
      · rw [BuddyManager.buddyTryAlloc_eq sound.represents.manages inside] at called
        split at called
        · simp only [Outcome.ok_bind, Except.ok.injEq] at called
          exact .inr (.inr called.symm)
        · next clear =>
          have onLevel : BuddyManager.OnItsLevel ⟨index, order⟩ := by
            rcases allowed with single | first | set
            · exact .inl single
            · exact .inr first
            · exact absurd set clear
          simp only [Outcome.bind_eq_ok, Except.ok.injEq] at called
          obtain ⟨_, ⟨manager, occupied, rfl⟩, returned⟩ := called
          cases returned
          exact .inl ⟨⟨index, order⟩, manager, inside, onLevel, Bool.eq_false_iff.mpr clear,
            occupied, rfl⟩
      · rw [BuddyManager.buddyTryAlloc_error sound.represents.manages legal inside] at called
        cases called
  | free index order =>
      simp only [BuddySystem.call, buddyFree, Outcome.bind_eq_ok, Except.ok.injEq] at called
      obtain ⟨manager, freed, rfl⟩ := called
      exact .inr (.inl ⟨⟨index, order⟩, manager, rfl, legal, freed, rfl⟩)

theorem Disjointly.call (sound : system.Disjointly pages) {action : BuddyCall}
    (legal : system.Legal action) (allowed : system.HandsOutOnItsLevel pages action)
    (called : system.call action = .ok next) : next.Disjointly pages := by
  rcases call_cases sound legal allowed called with
    ⟨block, manager, inside, onLevel, clear, occupied, rfl⟩ |
      ⟨block, manager, -, member, freed, rfl⟩ | rfl
  · obtain ⟨result, occupied', sound'⟩ := sound.occupy inside onLevel clear
    rw [occupied] at occupied'
    cases occupied'
    exact sound'
  · exact sound.free member freed
  · exact sound

theorem Fresh.disjointly (fresh : system.Fresh pages) : system.Disjointly pages := by
  obtain ⟨⟨memory, alloc, rest, maxIndex, initialised⟩, nothingLive⟩ := fresh
  refine ⟨(BuddyManager.buddyInit_represents initialised).congr fun page _ => ?_, ?_, ?_⟩ <;>
    simp [nothingLive, Block.PairwiseDisjoint]

/-- In every run that hands out no block of a higher order but the first one,
live blocks never overlap and level 0 is exactly the set of their pages. -/
theorem live_disjoint {pages : Nat} {system : BuddySystem}
    (reached : ((buddyMachine pages).guard (HandsOutOnItsLevel pages)).Reachable system) :
    Block.PairwiseDisjoint system.live ∧
      ∀ page < pages, system.manager.bit 0 page = true ↔ Block.Covered system.live page := by
  have sound : system.Disjointly pages := reached.invariant (fun _ => Fresh.disjointly)
    fun _ _ _ sound ⟨allowed, legal, called⟩ => sound.call legal allowed called
  exact ⟨sound.disjoint, sound.represents.pageBits⟩

/-- The state a list of allowed calls leads to from the booted manager. -/
def runFresh (pages : Nat) (allowed : BuddySystem → BuddyCall → Prop)
    [∀ system call, Decidable (allowed system call)] (calls : List BuddyCall) :
    Option BuddySystem := do
  let manager ← BuddyManager.boot pages
  Machine.execute allowed BuddySystem.call calls ⟨manager, []⟩

theorem runFresh_reachable (machine : Machine BuddySystem BuddyCall)
    {allowed : BuddySystem → BuddyCall → Prop} [∀ system call, Decidable (allowed system call)]
    {calls : List BuddyCall} (starts : ∀ system, Fresh pages system → machine.initial system)
    (enabled : ∀ system call next, allowed system call → BuddySystem.call system call = .ok next →
      machine.step system call next)
    (executed : runFresh pages allowed calls = some system) : machine.Reachable system := by
  obtain ⟨manager, booted, executed⟩ := Option.bind_eq_some_iff.mp executed
  have fresh : Fresh pages ⟨manager, []⟩ := ⟨BuddyManager.boot_eq booted, rfl⟩
  exact (Machine.Reachable.initial (starts _ fresh)).execute enabled executed

/-- Before the first call the manager is fresh. -/
theorem runFresh_nil {allowed : BuddySystem → BuddyCall → Prop}
    [∀ system call, Decidable (allowed system call)]
    (booted : runFresh pages allowed [] = some system) : system.Fresh pages := by
  obtain ⟨manager, managerBooted, executed⟩ := Option.bind_eq_some_iff.mp booted
  cases executed
  exact ⟨BuddyManager.boot_eq managerBooted, rfl⟩

instance (pages : Nat) (system : BuddySystem) (call : BuddyCall) :
    Decidable (HandsOutOnItsLevel pages system call) := by
  cases call <;> unfold HandsOutOnItsLevel <;> infer_instance

/-- Two pages, a pair of pages and a single page again, with a free in between. -/
def mixedOrders : List BuddyCall :=
  [.alloc 1, .alloc 0, .alloc 0, .free 0 1, .tryAlloc 0 1, .tryAlloc 0 2]

theorem mixedOrders_disjoint : ∃ system,
    ((buddyMachine 6).guard (HandsOutOnItsLevel 6)).Reachable system ∧
      system.live = [⟨1, 0⟩, ⟨3, 0⟩, ⟨2, 0⟩] ∧ Block.PairwiseDisjoint system.live := by
  have result : (runFresh 6 (fun system call => HandsOutOnItsLevel 6 system call ∧
      system.Legal call) mixedOrders).map live = some [⟨1, 0⟩, ⟨3, 0⟩, ⟨2, 0⟩] := by decide
  obtain ⟨system, executed, blocks⟩ := Option.map_eq_some_iff.mp result
  have reached := runFresh_reachable ((buddyMachine 6).guard (HandsOutOnItsLevel 6))
    (fun _ fresh => fresh) (fun _ _ _ permitted called => ⟨permitted.1, permitted.2, called⟩)
    executed
  exact ⟨system, reached, blocks, (live_disjoint reached).1⟩

/-- Three pairs out of four pages: the third one is the second one again. -/
theorem pairs_overlap : ∃ system, (buddyMachine 4).Reachable system ∧
    system.live = [⟨1, 1⟩, ⟨1, 1⟩, ⟨0, 1⟩] ∧ ¬Block.PairwiseDisjoint system.live := by
  have result : (runFresh 4 Legal [.alloc 1, .alloc 1, .alloc 1]).map live =
      some [⟨1, 1⟩, ⟨1, 1⟩, ⟨0, 1⟩] := by decide
  obtain ⟨system, executed, blocks⟩ := Option.map_eq_some_iff.mp result
  have reached := runFresh_reachable (buddyMachine 4) (fun _ fresh => fresh)
    (fun _ _ _ legal called => ⟨legal, called⟩) executed
  refine ⟨system, reached, blocks, fun disjoint => ?_⟩
  rw [blocks, Block.pairwiseDisjoint_cons] at disjoint
  exact disjoint.1 2 (by decide) (by simp [Block.Covers])

end BuddySystem

end Yaeos
