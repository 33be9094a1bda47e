import Yaeos.Buddy.Overlap

/-!
# Accesses to the bitmaps

The calls of a buddy manager with the arguments its interface allows: any order
for `buddy_alloc`, an existing bit for `buddy_try_alloc`, a live block for
`buddy_free`.  Two kinds of calls leave the bitmaps.  `buddy_alloc` takes the
number of levels for an order there is a bitmap for, and `buddy_free` reads both
children of the parent of the block, of which an odd level lacks the last one and
the top level always one.
-/

namespace Yaeos

namespace BuddySystem

variable {system next : BuddySystem} {pages : Nat} {action : BuddyCall}

/-- The arguments a client may pass. -/
def Valid (pages : Nat) (system : BuddySystem) : BuddyCall → Prop
  | .alloc order => order < addressSpace
  | .tryAlloc order index => order < system.manager.lvls ∧ index < pages >>> order
  | .free index order => ⟨index, order⟩ ∈ system.live

instance (pages : Nat) (system : BuddySystem) :
    (call : BuddyCall) → Decidable (system.Valid pages call)
  | .alloc order => Nat.decLt order addressSpace
  | .tryAlloc _ _ => inferInstanceAs (Decidable (_ < _ ∧ _ < _))
  | .free _ _ => inferInstanceAs (Decidable (_ ∈ system.live))

/-- Every access of the call lies inside a bitmap, and no block is found on a
level that does not exist. -/
def StaysInside (system : BuddySystem) (action : BuddyCall) : Prop :=
  (∃ next, system.call action = .ok next) ∧
    ∀ order, action = .alloc order → system.manager.lvls ≤ order →
      buddyAlloc system.manager order = .ok (system.manager, none)

/-- The order is not the number of levels, or the other half of the parent of the
block exists. -/
def FindsBits (pages : Nat) (system : BuddySystem) : BuddyCall → Prop
  | .alloc order => order ≠ system.manager.lvls
  | .tryAlloc _ _ => True
  | .free index order => BuddyManager.HasSibling pages ⟨index, order⟩

/-- What every run keeps, whether its blocks overlap or not. -/
structure Bounded (pages : Nat) (system : BuddySystem) : Prop where
  manages : system.manager.Manages pages
  inside : ∀ block ∈ system.live, block.index < pages >>> block.order

end BuddySystem

/-- The runs of a manager of `pages` pages with valid calls. -/
def validBuddyMachine (pages : Nat) : Machine BuddySystem BuddyCall :=
  (Machine.ofOutcome (BuddySystem.Fresh pages) BuddySystem.call).guard (BuddySystem.Valid pages)

namespace BuddySystem

variable {system next : BuddySystem} {pages order index : Nat} {action : BuddyCall}

/-- A block is handed out: its bit exists, so all the bits that are marked do. -/
theorem Bounded.occupy (bounded : system.Bounded pages) (inside : index < pages >>> order) :
    ∃ manager, occupyBuddy system.manager order index = .ok manager ∧
      Bounded pages ⟨manager, ⟨index, order⟩ :: system.live⟩ := by
  obtain ⟨manager, occupied, marks⟩ := BuddyManager.occupyBuddy_spec bounded.manages inside
  exact ⟨manager, occupied, marks.manages, List.forall_mem_cons.mpr ⟨inside, bounded.inside⟩⟩

/-- An order above the number of levels is refused before the array is read. -/
theorem buddyAlloc_above (above : system.manager.lvls < order) :
    buddyAlloc system.manager order = .ok (system.manager, none) := by
  rw [buddyAlloc, if_pos above]

/-- The order behind the last one gets past the test. -/
theorem buddyAlloc_lvls (bounded : system.Bounded pages) :
    buddyAlloc system.manager system.manager.lvls = .error .outOfBounds := by
  have missing : system.manager.lvlBitmaps[system.manager.lvls]? = none :=
    List.getElem?_eq_none (Nat.le_of_eq bounded.manages.count)
  rw [buddyAlloc, if_neg (Nat.lt_irrefl _), BuddyManager.lvlBitmap, missing]
  rfl

theorem Bounded.alloc (bounded : system.Bounded pages) (different : order ≠ system.manager.lvls) :
    ∃ next, system.call (.alloc order) = .ok next ∧ next.Bounded pages := by
  rcases Nat.lt_or_gt_of_ne different with exists_ | above
  · rcases BuddyManager.buddyAlloc_cases bounded.manages exists_ with
      ⟨index, inside, -, -, result⟩ | ⟨-, result⟩
    · obtain ⟨manager, occupied, next⟩ := bounded.occupy inside
      exact ⟨_, by simp only [BuddySystem.call, result, occupied, Outcome.ok_bind], next⟩
    · exact ⟨system, by simp only [BuddySystem.call, result, Outcome.ok_bind], bounded⟩
  · exact ⟨system, by simp only [BuddySystem.call, buddyAlloc_above above, Outcome.ok_bind], bounded⟩

theorem Bounded.tryAlloc (bounded : system.Bounded pages) (inside : index < pages >>> order) :
    ∃ next, system.call (.tryAlloc order index) = .ok next ∧ next.Bounded pages := by
  have result := BuddyManager.buddyTryAlloc_eq bounded.manages inside
  split at result
  · exact ⟨system, by simp only [BuddySystem.call, result, Outcome.ok_bind], bounded⟩
  · obtain ⟨manager, occupied, next⟩ := bounded.occupy inside
    exact ⟨_, by simp only [BuddySystem.call, result, occupied, Outcome.ok_bind], next⟩

/-- A free returns exactly when the sibling of the block exists. -/
theorem Bounded.free (bounded : system.Bounded pages) (member : ⟨index, order⟩ ∈ system.live) :
    if BuddyManager.HasSibling pages ⟨index, order⟩ then
      ∃ next, system.call (.free index order) = .ok next ∧ next.Bounded pages
    else system.call (.free index order) = .error .kassert := by
  have spec := BuddyManager.freeBuddy_spec bounded.manages (bounded.inside _ member)
  split
  · next sibling =>
      rw [if_pos (show index >>> 1 <<< 1 + 1 < pages >>> order from sibling)] at spec
      obtain ⟨manager, freed, clears⟩ := spec
      refine ⟨⟨manager, system.live.erase ⟨index, order⟩⟩, ?_, clears.manages,
        fun block listed => bounded.inside block (List.mem_of_mem_erase listed)⟩
      simp only [BuddySystem.call, buddyFree, freed, Outcome.ok_bind]
  · next alone =>
      rw [if_neg (show ¬index >>> 1 <<< 1 + 1 < pages >>> order from alone)] at spec
      simp only [BuddySystem.call, buddyFree, spec, Outcome.error_bind]

/-- A valid call returns exactly when it finds all the bits it reads. -/
theorem Bounded.returns_iff (bounded : system.Bounded pages) (valid : system.Valid pages action) :
    (∃ next, system.call action = .ok next) ↔ system.FindsBits pages action := by
  cases action with
  | alloc order =>
      constructor
      · rintro ⟨next, called⟩ rfl
        rw [BuddySystem.call, buddyAlloc_lvls bounded] at called
        cases called
      · intro different
        obtain ⟨next, called, -⟩ := bounded.alloc different
        exact ⟨next, called⟩
  | tryAlloc order index =>
      obtain ⟨next, called, -⟩ := bounded.tryAlloc valid.2
      exact ⟨fun _ => trivial, fun _ => ⟨next, called⟩⟩
  | free index order =>
      have spec := bounded.free valid
      split at spec
      · next sibling =>
          obtain ⟨next, called, -⟩ := spec
          exact ⟨fun _ => sibling, fun _ => ⟨next, called⟩⟩
      · next alone =>
          refine ⟨fun returns => ?_, fun sibling => absurd sibling alone⟩
          obtain ⟨next, called⟩ := returns
          rw [spec] at called
          cases called

theorem Bounded.call (bounded : system.Bounded pages) (valid : system.Valid pages action)
    (called : system.call action = .ok next) : next.Bounded pages := by
  have finds := (bounded.returns_iff valid).mp ⟨next, called⟩
  have spec : ∃ next, system.call action = .ok next ∧ next.Bounded pages := by
    cases action with
    | alloc order => exact bounded.alloc finds
    | tryAlloc order index => exact bounded.tryAlloc valid.2
    | free index order =>
        have spec := bounded.free valid
        rwa [if_pos (show BuddyManager.HasSibling pages ⟨index, order⟩ from finds)] at spec
  obtain ⟨other, result, nextBounded⟩ := spec
  rw [called] at result
  cases result
  exact nextBounded

theorem Fresh.bounded (fresh : system.Fresh pages) : system.Bounded pages := by
  obtain ⟨⟨memory, alloc, rest, maxIndex, initialised⟩, nothingLive⟩ := fresh
  exact ⟨(BuddyManager.buddyInit_spec initialised).1, by simp [nothingLive]⟩

theorem bounded_of_reachable (reached : (validBuddyMachine pages).Reachable system) :
    system.Bounded pages :=
  reached.invariant (fun _ => Fresh.bounded)
    fun _ _ _ bounded ⟨valid, called⟩ => bounded.call valid called

/-- In every state of every run of valid calls, a valid call stays inside the
bitmaps, and is refused on a level that does not exist, exactly when its order is
not the number of levels and the sibling of the block it frees exists. -/
theorem staysInside_iff {pages : Nat} {system : BuddySystem} {action : BuddyCall}
    (reached : (validBuddyMachine pages).Reachable system) (valid : system.Valid pages action) :
    system.StaysInside action ↔ system.FindsBits pages action := by
  have bounded := bounded_of_reachable reached
  rw [StaysInside, bounded.returns_iff valid]
  refine ⟨And.left, fun finds => ⟨finds, ?_⟩⟩
  rintro order rfl notBelow
  exact buddyAlloc_above (Nat.lt_of_le_of_ne notBelow (Ne.symm finds))

/-- Five pages: the first page is given back, and it has a sibling. -/
theorem fivePages_staysInside : ∃ system, (validBuddyMachine 5).Reachable system ∧
    system.live = [⟨0, 0⟩] ∧ system.StaysInside (.free 0 0) := by
  have result : (runFresh 5 (Valid 5) [.alloc 0]).map live = some [⟨0, 0⟩] := by decide
  obtain ⟨system, executed, blocks⟩ := Option.map_eq_some_iff.mp result
  have reached := runFresh_reachable (validBuddyMachine 5) (fun _ fresh => fresh)
    (fun _ _ _ valid called => ⟨valid, called⟩) executed
  have valid : system.Valid 5 (.free 0 0) := by simp [Valid, blocks]
  have sibling : BuddyManager.HasSibling 5 ⟨0, 0⟩ := by decide
  exact ⟨system, reached, blocks, (staysInside_iff reached valid).mpr sibling⟩

/-- Five pages again: the last one has no sibling, so giving it back fails the
bounds assertion, and order 3 is taken for a level of the array. -/
theorem fivePages_outside : ∃ system, (validBuddyMachine 5).Reachable system ∧
    system.Valid 5 (.free 4 0) ∧ system.call (.free 4 0) = .error .kassert ∧
    system.Valid 5 (.alloc 3) ∧ system.manager.lvls ≤ 3 ∧
    system.call (.alloc 3) = .error .outOfBounds := by
  have result : (runFresh 5 (Valid 5) [.tryAlloc 0 4]).map (fun system =>
      (system.live, system.manager.lvls)) = some ([⟨4, 0⟩], 3) := by decide
  obtain ⟨system, executed, state⟩ := Option.map_eq_some_iff.mp result
  simp only [Prod.mk.injEq] at state
  obtain ⟨blocks, lvls⟩ := state
  have reached := runFresh_reachable (validBuddyMachine 5) (fun _ fresh => fresh)
    (fun _ _ _ valid called => ⟨valid, called⟩) executed
  have bounded := bounded_of_reachable reached
  have member : ⟨4, 0⟩ ∈ system.live := by simp [blocks]
  have freed := bounded.free member
  rw [if_neg (by decide)] at freed
  have allocated := buddyAlloc_lvls bounded
  rw [lvls] at allocated
  exact ⟨system, reached, member, freed, by simp [Valid, addressSpace], Nat.le_of_eq lvls,
    by rw [BuddySystem.call, allocated]; rfl⟩

end BuddySystem

end Yaeos
