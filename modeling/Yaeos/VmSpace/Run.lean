import Yaeos.Machine.Run
import Yaeos.Rbtree.Run
import Yaeos.Rbtree.Search
import Yaeos.VmSpace.Basic
import Mathlib.Data.List.Pairwise

/-!
# Runs over an address space

The tree and the sorted list are two representations of one set of areas.
`Synced` says that the list is the sequence of the tree and that each area ends
before the next one starts; insertions of disjoint areas and removals keep it.
In such a tree the lookup of a fault address finds the area around it.
-/

namespace Yaeos

namespace VmArea

/-- Not empty, and without a wrap; the last byte may be the last address. -/
def Proper (area : VmArea) : Prop := 0 < area.length ∧ area.base + area.length ≤ addressSpace

def Contains (area : VmArea) (addr : Nat) : Prop :=
  area.base ≤ addr ∧ addr ≤ area.base + area.length - 1

def Before (first second : VmArea) : Prop := first.base + first.length ≤ second.base

def Disjoint (first second : VmArea) : Prop := first.Before second ∨ second.Before first

/-- What the comparison asks of an area that is there and one that is not: only the
lower one is checked for its end. -/
def Clear (other area : VmArea) : Prop := other.Before area ∨ area.Proper ∧ area.Before other

instance (area : VmArea) : Decidable area.Proper := inferInstanceAs (Decidable (_ ∧ _))

instance (first second : VmArea) : Decidable (first.Disjoint second) :=
  inferInstanceAs (Decidable (_ ≤ _ ∨ _ ≤ _))

variable {area first second : VmArea} {addr : Nat}

theorem Proper.last_eq (proper : area.Proper) : area.last = area.base + area.length - 1 := by
  obtain ⟨positive, inside⟩ := proper
  unfold last wrapSub wrap addressSpace at *
  omega

end VmArea

namespace VmSpace

/-- The record of an area and the data of its node are filled in. -/
def prepare (space : VmSpace) (area : Nat) (record : VmArea) : VmSpace :=
  { space.setArea area record with
    rbAreas := space.rbAreas.modify area fun node => { node with data := area } }

end VmSpace

inductive VmSpaceCall where
  | insert (area : Nat) (record : VmArea)
  | remove (area : Nat)
  deriving DecidableEq, Repr

namespace VmSpace

def call (rounds : Nat) (space : VmSpace) : VmSpaceCall → Outcome VmSpace
  | .insert area record => vmSpaceInsertArea rounds (space.prepare area record) area
  | .remove area => vmSpaceRemoveArea rounds space area

/-- An inserted area is new, proper, at or above the offset and disjoint from the
areas present; a removed one is present. -/
def Legal (space : VmSpace) : VmSpaceCall → Prop
  | .insert area record => area ≠ 0 ∧ area ∉ space.sortedAreas ∧ record.Proper ∧
      space.offset ≤ record.base ∧ ∀ other ∈ space.sortedAreas, (space.areas other).Disjoint record
  | .remove area => area ∈ space.sortedAreas

instance (space : VmSpace) : (call : VmSpaceCall) → Decidable (space.Legal call)
  | .insert _ _ => inferInstanceAs (Decidable (_ ∧ _ ∧ _ ∧ _ ∧ ∀ _ ∈ _, _))
  | .remove _ => inferInstanceAs (Decidable (_ ∈ _))

end VmSpace

/-- The runs from `vm_space_init` on, over any memory and with any offset. -/
def vmSpaceMachine : Machine VmSpace VmSpaceCall where
  initial space := ∃ memory offset, space = vmSpaceInit memory offset
  step space call next := space.Legal call ∧ ∃ rounds, space.call rounds call = .ok next

namespace VmSpace

variable {space next : VmSpace} {tree : Tree Nat} {area rounds : Nat} {record : VmArea}

/-- The list is the sequence of the tree, and each node names its area. -/
structure Linked (space : VmSpace) (tree : Tree Nat) : Prop where
  focus : space.rbAreas.Focus .top tree
  balanced : ∃ total, tree.Balanced .black total
  sorted : space.sortedAreas = tree.inorder
  named : ∀ area ∈ tree.inorder, area ≠ 0 ∧ (space.rbAreas.nodes area).data = area

structure Synced (space : VmSpace) (tree : Tree Nat) : Prop where
  focus : space.rbAreas.Focus .top tree
  balanced : ∃ total, tree.Balanced .black total
  sorted : space.sortedAreas = tree.inorder
  named : ∀ area ∈ tree.inorder,
    area ≠ 0 ∧ (space.rbAreas.nodes area).data = area ∧ (space.areas area).Proper
  apart : tree.inorder.Pairwise fun x y => (space.areas x).Before (space.areas y)

/-- The areas present after a call, in some order. -/
def presentAfter (sortedAreas : List Nat) : VmSpaceCall → List Nat
  | .insert area _ => area :: sortedAreas
  | .remove area => sortedAreas.erase area

/-- How an area compares with a disjoint one. -/
def side (areas : Nat → VmArea) (record : VmArea) (other : Nat) : Int :=
  if (areas other).base < record.base then -1 else 1

theorem vmAreaRbtcmpfn_clear (areas : Nat → VmArea) {area other : Nat} (otherNamed : other ≠ 0)
    (named : area ≠ 0) (otherProper : (areas other).Proper)
    (clear : (areas other).Clear (areas area)) :
    vmAreaRbtcmpfn areas other area = .ok (side areas (areas area) other) := by
  have lasts := otherProper.last_eq
  obtain ⟨otherPositive, -⟩ := otherProper
  simp only [vmAreaRbtcmpfn, kassert_ok otherNamed, kassert_ok named, Outcome.ok_bind, side]
  rcases clear with before | ⟨proper, after⟩
  · unfold VmArea.Before at before
    rw [if_pos (by omega), if_pos (by omega), kassert_ok (by omega), Outcome.ok_bind]
  · have last := proper.last_eq
    obtain ⟨positive, -⟩ := proper
    unfold VmArea.Before at after
    rw [if_neg (by omega), if_pos (by omega), if_neg (by omega), kassert_ok (by omega),
      Outcome.ok_bind]

/-- The left neighbour found in the tree splits the sequence where the new area
belongs: the tree and the list put it at the same place. -/
theorem place_eq (area : Nat) {result : Nat → Int} {sequence : List Nat} {found : Option Nat}
    (nodup : sequence.Nodup) (nonzero : ∀ other ∈ sequence, result other ≠ 0)
    (monotone : Rbtree.Monotone result sequence)
    (last : Rbtree.LastNotGreater result sequence found) :
    ∃ before after, sequence = before ++ after ∧ (∀ other ∈ before, result other < 0) ∧
      (∀ other ∈ after, 0 < result other) ∧
      insertBehind sequence found area = before ++ area :: after := by
  cases found with
  | none => exact ⟨[], sequence, rfl, by simp, last, rfl⟩
  | some leftNeigh =>
      obtain ⟨before, after, rfl, equal | ⟨smaller, greater⟩⟩ := last
      · exact absurd equal (nonzero leftNeigh (by simp))
      · have first : leftNeigh ∉ before := fun inBefore =>
          (List.nodup_append'.mp nodup).2.2 inBefore (by simp)
        refine ⟨before ++ [leftNeigh], after, by simp, fun other member => ?_, greater,
          by simpa [insertBehind] using slistInsertAfter_split first⟩
        rcases List.mem_append.mp member with inBefore | isLast
        · exact monotone.split.2 smaller other inBefore
        · rw [List.mem_singleton.mp isLast]
          exact smaller

/-- An area that lies between two runs of areas keeps them apart. -/
theorem apart_insert {areas : Nat → VmArea} {before after : List Nat}
    (apart : (before ++ after).Pairwise fun x y => (areas x).Before (areas y))
    (low : ∀ other ∈ before, (areas other).Before (areas area))
    (high : ∀ other ∈ after, (areas area).Before (areas other)) :
    (before ++ area :: after).Pairwise fun x y => (areas x).Before (areas y) := by
  obtain ⟨beforeApart, afterApart, across⟩ := List.pairwise_append.mp apart
  refine List.pairwise_append.mpr ⟨beforeApart, List.pairwise_cons.mpr ⟨high, afterApart⟩,
    fun other member later laterMember => ?_⟩
  rcases List.mem_cons.mp laterMember with rfl | inAfter
  · exact low other member
  · exact across other member later inAfter

theorem Synced.linked (synced : space.Synced tree) : space.Linked tree :=
  ⟨synced.focus, synced.balanced, synced.sorted, fun area member =>
    ⟨(synced.named area member).1, (synced.named area member).2.1⟩⟩

/-- The record of a new area goes to memory no present area uses. -/
theorem Linked.prepare (record : VmArea) (linked : space.Linked tree) (fresh : area ∉ tree.inorder) :
    (space.prepare area record).rbAreas.Focus .top tree ∧
      (∀ other ∈ tree.inorder, (space.prepare area record).areas other = space.areas other ∧
        ((space.prepare area record).rbAreas.nodes other).data = other) ∧
      (space.prepare area record).areas area = record ∧
      ((space.prepare area record).rbAreas.nodes area).data = area := by
  have ne_area : ∀ other ∈ tree.inorder, other ≠ area := fun other member same =>
    fresh (same ▸ member)
  have unchanged : ∀ other ∈ tree.inorder,
      (space.prepare area record).rbAreas.nodes other = space.rbAreas.nodes other :=
    fun other member => by
      simp only [VmSpace.prepare, Rbtree.nodes_modify, if_neg (ne_area other member)]
  refine ⟨linked.focus.frame rfl unchanged, fun other member => ⟨?_, ?_⟩, ?_, ?_⟩
  · simp [VmSpace.prepare, setArea, Function.update_of_ne (ne_area other member)]
  · rw [unchanged other member]
    exact (linked.named other member).2
  · simp [VmSpace.prepare, setArea]
  · simp [VmSpace.prepare, Rbtree.nodes_modify]

/-- An area goes to the same place of the tree and of the list, where the comparisons
turn from smaller to greater. -/
theorem Linked.insert (linked : space.Linked tree) (named : area ≠ 0)
    (fresh : area ∉ tree.inorder) (inside : space.offset ≤ record.base) {result : Nat → Int}
    (compared : Rbtree.Compares (space.prepare area record).rbAreas
      (vmAreaRbtcmpfn (space.prepare area record).areas) area result tree.inorder)
    (monotone : Rbtree.Monotone result tree.inorder)
    (nonzero : ∀ other ∈ tree.inorder, result other ≠ 0)
    (enough : 2 * tree.inorder.length < rounds) :
    ∃ next grown before after, space.call rounds (.insert area record) = .ok next ∧
      next.Linked grown ∧ tree.inorder = before ++ after ∧
      next.sortedAreas = before ++ area :: after ∧ (∀ other ∈ before, result other < 0) ∧
      (∀ other ∈ after, 0 < result other) ∧
      next.areas = (space.prepare area record).areas := by
  obtain ⟨focus, old, recorded, nodeNamed⟩ := linked.prepare record fresh
  obtain ⟨total, balanced⟩ := linked.balanced
  obtain ⟨found, searched, last⟩ := focus.searchMax compared monotone (Nat.le_of_lt enough)
  have nodup : tree.inorder.Nodup := focus.nodup
  obtain ⟨before, after, sequence, low, high, placed⟩ := place_eq area nodup nonzero monotone last
  obtain ⟨rbAreas, inserted, grown, focusGrown, grownSequence, grownBalanced, sameData⟩ :=
    focus.insert (vmAreaRbtcmpfn (space.prepare area record).areas) result balanced fresh
      (by rw [nodeNamed]; exact compared) (monotone.imp fun turn => turn.1)
      (show tree.inorder.length < rounds by omega)
  have foundNamed : found.map (fun node => ((space.prepare area record).rbAreas.nodes node).data) =
      found := by
    cases found with
    | none => rfl
    | some leftNeigh =>
        obtain ⟨_, _, split, -⟩ := last
        exact congrArg some (old leftNeigh (by simp [split])).2
  have grownPlaced : grown.inorder = before ++ area :: after := by
    rw [grownSequence, sequence, Rbtree.placeBefore_append low fun other member =>
      Int.le_of_lt (high other member)]
  have listPlaced : insertBehind space.sortedAreas found area = before ++ area :: after := by
    rw [linked.sorted]
    exact placed
  refine ⟨{ space.prepare area record with
    rbAreas := rbAreas, sortedAreas := before ++ area :: after }, grown, before, after, ?_,
    ⟨focusGrown, grownBalanced, grownPlaced.symm, fun other member => ?_⟩, sequence, rfl, low,
    high, rfl⟩
  · simp only [call, vmSpaceInsertArea, recorded]
    rw [kassert_ok (show (space.prepare area record).offset ≤ record.base from inside),
      Outcome.ok_bind, searched, Outcome.ok_bind, foundNamed, inserted, Outcome.ok_bind]
    exact congrArg (fun list => Except.ok { space.prepare area record with
        rbAreas := rbAreas, sortedAreas := list }) listPlaced
  · show other ≠ 0 ∧ (rbAreas.nodes other).data = other
    rw [sameData]
    rw [grownPlaced, List.mem_append, List.mem_cons] at member
    rcases or_left_comm.mp member with rfl | present
    · exact ⟨named, nodeNamed⟩
    · rw [← List.mem_append, ← sequence] at present
      exact ⟨(linked.named other present).1, (old other present).2⟩

theorem Linked.remove (linked : space.Linked tree) (present : area ∈ tree.inorder)
    (enough : 2 * tree.inorder.length < rounds) :
    ∃ next shrunk, vmSpaceRemoveArea rounds space area = .ok next ∧ next.Linked shrunk ∧
      next.sortedAreas = space.sortedAreas.erase area ∧ next.areas = space.areas ∧
      Rbtree.SameData space.rbAreas next.rbAreas := by
  obtain ⟨total, balanced⟩ := linked.balanced
  obtain ⟨rbAreas, deleted, shrunk, focusShrunk, shrunkSequence, shrunkBalanced, sameData⟩ :=
    linked.focus.delete balanced present (show tree.inorder.length < rounds by omega)
  have unlisted : slistRemove space.sortedAreas area = .ok (space.sortedAreas.erase area) :=
    slistRemove_eq_ok.mpr ⟨linked.sorted ▸ present, rfl⟩
  refine ⟨{ space with rbAreas := rbAreas, sortedAreas := space.sortedAreas.erase area }, shrunk,
    ?_, ⟨focusShrunk, shrunkBalanced, ?_, fun other member => ?_⟩, rfl, rfl, sameData⟩
  · simp [vmSpaceRemoveArea, kassert_ok (linked.named area present).1, deleted, unlisted]
  · rw [shrunkSequence, ← linked.sorted]
  · show other ≠ 0 ∧ (rbAreas.nodes other).data = other
    rw [sameData]
    exact linked.named other (List.mem_of_mem_erase (shrunkSequence ▸ member))

/-- What is compared when an area is inserted: every area present lies on one side
of it, and the sides turn once along the sequence. -/
theorem Synced.compares (synced : space.Synced tree) (named : area ≠ 0)
    (fresh : area ∉ tree.inorder)
    (clear : ∀ other ∈ tree.inorder, (space.areas other).Clear record) :
    Rbtree.Compares (space.prepare area record).rbAreas
        (vmAreaRbtcmpfn (space.prepare area record).areas) area (side space.areas record)
        tree.inorder ∧
      Rbtree.Monotone (side space.areas record) tree.inorder ∧
      ∀ other ∈ tree.inorder,
        (side space.areas record other < 0 → (space.areas other).Before record) ∧
        (0 < side space.areas record other → record.Before (space.areas other)) := by
  obtain ⟨-, old, recorded, -⟩ := synced.linked.prepare record fresh
  refine ⟨fun other member => ?_, synced.apart.imp fun {x y} before => ?_, fun other member => ?_⟩
  · obtain ⟨sameRecord, sameName⟩ := old other member
    rw [sameName]
    have ordered := vmAreaRbtcmpfn_clear (space.prepare area record).areas
      (synced.named other member).1 named (sameRecord ▸ (synced.named other member).2.2)
      (by rw [sameRecord, recorded]; exact clear other member)
    rwa [side, recorded, sameRecord] at ordered
  · unfold VmArea.Before at before
    simp only [side]
    split <;> split <;> omega
  · have otherProper := (synced.named other member).2.2
    have apart := clear other member
    unfold VmArea.Clear VmArea.Before VmArea.Proper side at *
    split <;> omega

/-- A legal insertion keeps the areas apart. -/
theorem Synced.insert (synced : space.Synced tree)
    (legal : space.Legal (.insert area record)) (enough : 2 * tree.inorder.length < rounds) :
    ∃ next result, space.call rounds (.insert area record) = .ok next ∧ next.Synced result ∧
      next.sortedAreas.Perm (area :: space.sortedAreas) := by
  obtain ⟨named, notListed, proper, inside, disjoint⟩ := legal
  rw [synced.sorted] at notListed disjoint
  obtain ⟨compared, monotone, sides⟩ := synced.compares named notListed fun other member =>
    (disjoint other member).imp_right (And.intro proper)
  obtain ⟨-, old, recorded, -⟩ := synced.linked.prepare record notListed
  obtain ⟨next, grown, before, after, called, linked, sequence, listed, low, high, records⟩ :=
    synced.linked.insert named notListed inside compared monotone
      (fun other _ => by simp only [side]; split <;> omega) enough
  have grownPlaced : grown.inorder = before ++ area :: after := linked.sorted.symm.trans listed
  refine ⟨next, grown, called, ⟨linked.focus, linked.balanced, linked.sorted,
    fun other member => ?_, ?_⟩, ?_⟩
  · obtain ⟨otherNamed, otherData⟩ := linked.named other member
    refine ⟨otherNamed, otherData, ?_⟩
    rw [grownPlaced, List.mem_append, List.mem_cons] at member
    rw [records]
    rcases or_left_comm.mp member with rfl | present
    · exact recorded.symm ▸ proper
    · rw [← List.mem_append, ← sequence] at present
      rw [(old other present).1]
      exact (synced.named other present).2.2
  · rw [grownPlaced, records]
    refine apart_insert ?_ (fun other member => ?_) (fun other member => ?_)
    · rw [← sequence]
      exact synced.apart.imp_of_mem fun xMember yMember ordered => by
        rw [(old _ xMember).1, (old _ yMember).1]
        exact ordered
    · have present : other ∈ tree.inorder := by simp [sequence, member]
      rw [(old other present).1, recorded]
      exact (sides other present).1 (low other member)
    · have present : other ∈ tree.inorder := by simp [sequence, member]
      rw [(old other present).1, recorded]
      exact (sides other present).2 (high other member)
  · rw [listed, synced.sorted, sequence]
    exact List.perm_middle

theorem Synced.remove (synced : space.Synced tree) (legal : space.Legal (.remove area))
    (enough : 2 * tree.inorder.length < rounds) :
    ∃ next result, space.call rounds (.remove area) = .ok next ∧ next.Synced result ∧
      next.sortedAreas.Perm (space.sortedAreas.erase area) ∧ next.areas = space.areas ∧
      Rbtree.SameData space.rbAreas next.rbAreas := by
  have present : area ∈ tree.inorder := synced.sorted ▸ legal
  obtain ⟨next, shrunk, removed, linked, listed, records, sameData⟩ :=
    synced.linked.remove present enough
  have shrunkSequence : shrunk.inorder = tree.inorder.erase area := by
    rw [← linked.sorted, listed, synced.sorted]
  refine ⟨next, shrunk, removed, ⟨linked.focus, linked.balanced, linked.sorted,
    fun other member => ?_, ?_⟩, .of_eq listed, records, sameData⟩
  · obtain ⟨otherNamed, otherData⟩ := linked.named other member
    refine ⟨otherNamed, otherData, ?_⟩
    rw [records]
    exact (synced.named other (List.mem_of_mem_erase (shrunkSequence ▸ member))).2.2
  · rw [shrunkSequence, records]
    exact synced.apart.sublist List.erase_sublist

theorem Synced.call_returns (synced : space.Synced tree) {action : VmSpaceCall}
    (legal : space.Legal action) (enough : 2 * tree.inorder.length < rounds) :
    ∃ next result, space.call rounds action = .ok next ∧ next.Synced result ∧
      next.sortedAreas.Perm (presentAfter space.sortedAreas action) := by
  cases action with
  | insert area record => exact synced.insert legal enough
  | remove area =>
      obtain ⟨next, result, called, syncedNext, present, -⟩ := synced.remove legal enough
      exact ⟨next, result, called, syncedNext, present⟩

/-- A call that returns would return the same with more rounds for its loops. -/
theorem call_extends {more : Nat} (fewer : rounds ≤ more) (action : VmSpaceCall) :
    Outcome.Extends (space.call rounds action) (space.call more action) := by
  cases action with
  | insert area record =>
      exact .seq _ fun _ => .bind (rbtreeSearchMax_extends _ _ _ fewer) fun _ =>
        .bind (rbtreeInsert_extends fewer _ _ _) fun _ => .refl _
  | remove area =>
      exact .seq _ fun _ => .bind (rbtreeDelete_extends fewer _ _) fun _ => .refl _

theorem Synced.step (synced : space.Synced tree) {action : VmSpaceCall}
    (stepped : vmSpaceMachine.step space action next) :
    ∃ result, next.Synced result ∧
      next.sortedAreas.Perm (presentAfter space.sortedAreas action) := by
  obtain ⟨legal, rounds, called⟩ := stepped
  obtain ⟨next', result, called', syncedNext, present⟩ := synced.call_returns legal
    (show 2 * tree.inorder.length < rounds + 2 * tree.inorder.length + 1 by omega)
  rw [call_extends (show rounds ≤ rounds + 2 * tree.inorder.length + 1 by omega) action next called]
    at called'
  cases called'
  exact ⟨result, syncedNext, present⟩

/-- An address space without areas. -/
theorem synced_init (memory : VmSpace) (offset : Nat) : (vmSpaceInit memory offset).Synced .nil :=
  ⟨⟨rfl, trivial, .nil⟩, ⟨0, .nil⟩, rfl, by simp [Tree.inorder], .nil⟩

theorem synced_of_reachable (reached : vmSpaceMachine.Reachable space) :
    ∃ tree, space.Synced tree := by
  induction reached with
  | initial start =>
      obtain ⟨memory, offset, rfl⟩ := start
      exact ⟨.nil, synced_init memory offset⟩
  | step _ stepped inductionHypothesis =>
      obtain ⟨tree, synced⟩ := inductionHypothesis
      obtain ⟨result, syncedNext, -⟩ := synced.step stepped
      exact ⟨result, syncedNext⟩

/-- In every state of every run the list is the sequence of the tree, without
repetitions and strictly ascending; every legal call returns, and every call
inserts or removes exactly its area. -/
theorem sortedAreas_of_reachable (reached : vmSpaceMachine.Reachable space) :
    space.rbAreas.InOrder space.rbAreas.root space.sortedAreas ∧ space.sortedAreas.Nodup ∧
      space.sortedAreas.Pairwise (fun x y => (space.areas x).base < (space.areas y).base) ∧
      (∀ action, space.Legal action → ∃ enough, ∀ rounds ≥ enough,
        ∃ next, space.call rounds action = .ok next) ∧
      ∀ action next, vmSpaceMachine.step space action next →
        next.sortedAreas.Perm (presentAfter space.sortedAreas action) := by
  obtain ⟨tree, synced⟩ := synced_of_reachable reached
  refine ⟨?_, synced.sorted ▸ synced.focus.nodup, ?_, fun action legal =>
    ⟨2 * tree.inorder.length + 1, fun rounds enough => ?_⟩, fun action next stepped => ?_⟩
  · rw [synced.focus.root_eq, synced.sorted]
    exact synced.focus.holds.inOrder
  · rw [synced.sorted]
    refine synced.apart.imp_of_mem fun {x y} xMember _ before => ?_
    have positive := (synced.named x xMember).2.2.1
    unfold VmArea.Before at before
    omega
  · obtain ⟨next, -, called, -⟩ := synced.call_returns legal enough
    exact ⟨next, called⟩
  · obtain ⟨-, -, present⟩ := synced.step stepped
    exact present

theorem reachable_of_execute {calls : List VmSpaceCall} {memory final : VmSpace} {offset : Nat}
    (executed : Machine.execute Legal (call rounds) calls (vmSpaceInit memory offset) =
      some final) : vmSpaceMachine.Reachable final := by
  have start : vmSpaceMachine.Reachable (vmSpaceInit memory offset) := .initial ⟨_, _, rfl⟩
  refine start.execute ?_ executed
  exact fun _ _ _ legal called => ⟨legal, rounds, called⟩

/-- Memory without areas. -/
def noAreas : VmSpace :=
  { areas := fun _ => { base := 0, length := 0 }, sortedAreas := []
    rbAreas := ⟨none, fun _ => ⟨0, none, none, none, .red⟩⟩, offset := 0 }

/-- The second area ends at the last address, and the first one is removed again. -/
def topmostCalls : List VmSpaceCall :=
  [.insert 1 ⟨8192, 4096⟩, .insert 2 ⟨0xfffff000, 4096⟩, .insert 3 ⟨4096, 4096⟩,
    .insert 4 ⟨16384, 4096⟩, .remove 1]

def topmostSpace : Option VmSpace :=
  Machine.execute Legal (call 16) topmostCalls (vmSpaceInit noAreas 4096)

theorem topmostSpace_reachable {final : VmSpace} (executed : topmostSpace = some final) :
    vmSpaceMachine.Reachable final := reachable_of_execute executed

theorem topmostSpace_sortedAreas : ∃ final, topmostSpace = some final ∧
    final.sortedAreas = [3, 4, 2] ∧
    final.rbAreas.InOrder final.rbAreas.root final.sortedAreas := by
  have result : topmostSpace.map (fun final => final.sortedAreas) = some [3, 4, 2] := by decide
  obtain ⟨final, executed, sequence⟩ := Option.map_eq_some_iff.mp result
  exact ⟨final, executed, sequence,
    (sortedAreas_of_reachable (topmostSpace_reachable executed)).1⟩

/-- Two different areas of an address space are disjoint. -/
theorem Synced.separated (synced : space.Synced tree) {first second : Nat}
    (firstMember : first ∈ tree.inorder) (secondMember : second ∈ tree.inorder)
    (different : first ≠ second) : (space.areas first).Disjoint (space.areas second) := by
  have symmetric : Std.Symm fun x y => (space.areas x).Disjoint (space.areas y) :=
    ⟨fun _ _ => Or.symm⟩
  have disjoint : tree.inorder.Pairwise fun x y => (space.areas x).Disjoint (space.areas y) :=
    synced.apart.imp Or.inl
  exact disjoint.forall firstMember secondMember different

/-- Where an address lies relative to an area. -/
def position (areas : Nat → VmArea) (addr area : Nat) : Int :=
  if addr < (areas area).base then 1 else if addr ≤ (areas area).last then 0 else -1

/-- In every state of every run the lookup of a fault address returns the one area
around it, and `NULL` when there is none. -/
theorem vmFaultArea_of_reachable (reached : vmSpaceMachine.Reachable space) (addr : Nat) :
    ∃ enough, ∀ rounds ≥ enough, ∃ found, vmFaultArea rounds space addr = .ok found ∧
      (∀ area, found = some area → area ∈ space.sortedAreas ∧ (space.areas area).Contains addr ∧
        ∀ other ∈ space.sortedAreas, (space.areas other).Contains addr → other = area) ∧
      (found = none → ∀ area ∈ space.sortedAreas, ¬(space.areas area).Contains addr) := by
  obtain ⟨tree, synced⟩ := synced_of_reachable reached
  refine ⟨tree.inorder.length, fun rounds enough => ?_⟩
  have compared : Rbtree.Compares space.rbAreas (vmAreaRbtcmpfnAreaToAddr space.areas) addr
      (position space.areas addr) tree.inorder := by
    intro area member
    obtain ⟨named, data, -⟩ := synced.named area member
    rw [data]
    simp only [vmAreaRbtcmpfnAreaToAddr, kassert_ok named, Outcome.ok_bind, position]
    split
    · rfl
    · split <;> rfl
  have around : ∀ area ∈ tree.inorder,
      position space.areas addr area = 0 ↔ (space.areas area).Contains addr := by
    intro area member
    have proper := (synced.named area member).2.2
    have last := proper.last_eq
    unfold VmArea.Contains VmArea.Proper position at *
    split_ifs with low high
    · omega
    · omega
    · exact ⟨False.elim, fun both => by omega⟩
  have monotone : Rbtree.Monotone (position space.areas addr) tree.inorder :=
    synced.apart.imp_of_mem fun {x y} xMember yMember before => by
      have xLast := (synced.named x xMember).2.2.last_eq
      have yLast := (synced.named y yMember).2.2.last_eq
      have xProper := (synced.named x xMember).2.2
      unfold VmArea.Before VmArea.Proper position at *
      split_ifs <;> omega
  obtain ⟨found, searched, isFound, nothing⟩ :=
    synced.focus.holds.searchLoop compared monotone enough
  have sameName : found.map (fun node => (space.rbAreas.nodes node).data) = found := by
    cases found with
    | none => rfl
    | some area => exact congrArg some (synced.named area (isFound area rfl).1).2.1
  have looked : vmFaultArea rounds space addr = .ok found := by
    rw [vmFaultArea, rbtreeSearch, synced.focus.root_eq, searched, Outcome.ok_bind, sameName]
  refine ⟨found, looked, fun area isArea => ?_, fun isNone area listed contains => ?_⟩
  · obtain ⟨member, here⟩ := isFound area isArea
    have contains := (around area member).mp here
    refine ⟨synced.sorted ▸ member, contains, fun other listed alsoContains => ?_⟩
    rw [synced.sorted] at listed
    by_contra different
    rcases synced.separated listed member different with before | after
    · have proper := (synced.named other listed).2.2.1
      unfold VmArea.Contains VmArea.Before at *
      omega
    · have proper := (synced.named area member).2.2.1
      unfold VmArea.Contains VmArea.Before at *
      omega
  · rw [synced.sorted] at listed
    exact nothing isNone area listed ((around area listed).mpr contains)

theorem topmostSpace_lookup : ∃ final found, topmostSpace = some final ∧
    (∃ rounds, vmFaultArea rounds final 0xffffffff = .ok found) ∧
    found.isSome ∧ final.sortedAreas = [3, 4, 2] := by
  have result : topmostSpace.map (fun final => (final.sortedAreas,
      (final.areas 2).base, (final.areas 2).length)) =
        some ([3, 4, 2], 0xfffff000, 4096) := by decide
  obtain ⟨final, executed, shape⟩ := Option.map_eq_some_iff.mp result
  simp only [Prod.mk.injEq] at shape
  obtain ⟨listed, base, length⟩ := shape
  obtain ⟨enough, returns⟩ :=
    vmFaultArea_of_reachable (topmostSpace_reachable executed) 0xffffffff
  obtain ⟨found, looked, -, nothing⟩ := returns enough (Nat.le_refl _)
  refine ⟨final, found, executed, ⟨enough, looked⟩, Option.isSome_iff_ne_none.mpr fun isNone => ?_,
    listed⟩
  apply nothing isNone 2 (by simp [listed])
  unfold VmArea.Contains
  omega

end VmSpace

end Yaeos
