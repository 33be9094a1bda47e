import Yaeos.Rbtree.Release
import Yaeos.Rbtree.Rounds

/-!
# One caller over two builds

The debug build and the release build make the same calls, over memories that share
nothing but the data the caller writes.  What was initialised is the same in both
from then on.
-/

namespace Yaeos

open Outcome

variable {Data : Type}

/-- The calls of a caller, and its own writes to the data of a node. -/
inductive BuildCall (Data : Type) where
  | initNode (node : NodeAddr)
  | setData (node : NodeAddr) (data : Data)
  | insert (new : NodeAddr)
  | delete (deletee : NodeAddr)

/-- A memory of each build, and the nodes initialised so far. -/
structure BothBuilds (Data : Type) where
  known : Set NodeAddr
  debug : Rbtree NodeAddr Data
  packed : PackedRbtree Data

namespace BuildCall

def callDebug (cmpf : RbtreeCmpFn Data) (rounds : Nat) (rbt : Rbtree NodeAddr Data) :
    BuildCall Data → Outcome (Rbtree NodeAddr Data)
  | initNode node => rbtreeInitNode rbt (some node)
  | setData node data => .ok (rbt.setData node data)
  | insert new => rbtreeInsert rounds rbt (some new) cmpf
  | delete deletee => rbtreeDelete rounds rbt (some deletee)

def callPacked (cmpf : RbtreeCmpFn Data) (rounds : Nat) (rbt : PackedRbtree Data) :
    BuildCall Data → Outcome (PackedRbtree Data)
  | initNode node => RbtreeBuild.rbtreeInitNode rbt (some node)
  | setData node data => .ok (rbt.setData node data)
  | insert new => RbtreeBuild.rbtreeInsert rounds rbt (some new) cmpf
  | delete deletee => RbtreeBuild.rbtreeDelete rounds rbt (some deletee)

def knownAfter (known : Set NodeAddr) : BuildCall Data → Set NodeAddr
  | initNode node => Insert.insert node known
  | setData _ _ => known
  | insert new => Insert.insert new known
  | delete _ => known

/-- A node to be deleted has been initialised. -/
def Allowed (known : Set NodeAddr) : BuildCall Data → Prop
  | delete deletee => deletee ∈ known
  | _ => True

end BuildCall

/-- The runs from `rbtree_init_tree` on. -/
def bothBuilds (cmpf : RbtreeCmpFn Data) : Machine (BothBuilds Data) (BuildCall Data) where
  initial both := both.known = ∅ ∧
    (∃ memory, both.debug = rbtreeInitTree memory) ∧
    (∃ memory : PackedRbtree Data, both.packed = RbtreeBuild.rbtreeInitTree memory) ∧
    ∀ addr, (both.packed.nodes addr).data = (both.debug.nodes addr).data
  step both action next := action.Allowed both.known ∧
    next.known = action.knownAfter both.known ∧
    ∃ rounds, action.callDebug cmpf rounds both.debug = .ok next.debug ∧
      action.callPacked cmpf rounds both.packed = .ok next.packed

/-- What holds of the two builds between two calls. -/
structure BuildsAgree (cmpf : RbtreeCmpFn Data) (both : BothBuilds Data) : Prop where
  /-- The same root, and the same links, parents, colours and data in every known node. -/
  related : Related both.known both.debug both.packed
  member : ∀ addr, both.debug.Member addr → addr ∈ both.known
  /-- A call that returns in the debug build returns in the release build. -/
  call : ∀ action : BuildCall Data, action.Allowed both.known → ∀ rounds,
    Simulates (Related (action.knownAfter both.known)) (action.callDebug cmpf rounds both.debug)
      (action.callPacked cmpf rounds both.packed)
  /-- From a red-black tree every insertion and every deletion returns in both. -/
  insertReturns : ∀ tree total, both.debug.Focus .top tree → tree.Balanced .black total →
    ∀ new ∉ tree.inorder, (∀ addr ∈ tree.inorder, ∃ result,
        cmpf (both.debug.nodes addr).data (both.debug.nodes new).data = .ok result) →
      ∃ enough, ∀ rounds ≥ enough, ∃ next image,
        rbtreeInsert rounds both.debug (some new) cmpf = .ok next ∧
          RbtreeBuild.rbtreeInsert rounds both.packed (some new) cmpf = .ok image
  deleteReturns : ∀ tree total, both.debug.Focus .top tree → tree.Balanced .black total →
    ∀ deletee ∈ tree.inorder, ∃ enough, ∀ rounds ≥ enough, ∃ next image,
      rbtreeDelete rounds both.debug (some deletee) = .ok next ∧
        RbtreeBuild.rbtreeDelete rounds both.packed (some deletee) = .ok image

namespace Related

variable {known : Set NodeAddr} {debug : Rbtree NodeAddr Data} {packed : PackedRbtree Data}

theorem call (related : Related known debug packed) (cmpf : RbtreeCmpFn Data)
    (action : BuildCall Data) (allowed : action.Allowed known) (rounds : Nat) :
    Simulates (Related (action.knownAfter known)) (action.callDebug cmpf rounds debug)
      (action.callPacked cmpf rounds packed) := by
  cases action with
  | initNode node =>
      rw [BuildCall.callDebug, ← RbtreeBuild.debug_initNode]
      exact related.rbtreeInitNode node
  | setData node data => exact .ok (related.setData node data)
  | insert new =>
      rw [BuildCall.callDebug, ← RbtreeBuild.debug_insert]
      exact related.rbtreeInsert new cmpf
  | delete deletee =>
      rw [BuildCall.callDebug, ← RbtreeBuild.debug_delete]
      refine related.rbtreeDelete ?_
      rintro _ ⟨⟩
      exact allowed

theorem meets_known (related : Related known debug packed) {pointer : Option NodeAddr}
    {addr : NodeAddr} (within : Within known pointer) (met : debug.Meets pointer addr) :
    addr ∈ known := by
  have child : ∀ {above : NodeAddr}, Within known (some above) → ∀ side,
      Within known ((debug.nodes above).child side) := by
    intro above within side
    obtain ⟨view, children, -⟩ := related.nodes above (within above rfl)
    rw [← view, PackedNode.view_child]
    exact children side
  induction met with
  | here => exact within _ rfl
  | left _ inductionHypothesis => exact inductionHypothesis (child within .left)
  | right _ inductionHypothesis => exact inductionHypothesis (child within .right)

end Related

/-- In every state of every run. -/
theorem related_of_reachable {cmpf : RbtreeCmpFn Data} {both : BothBuilds Data}
    (reached : (bothBuilds cmpf).Reachable both) :
    Related both.known both.debug both.packed := by
  induction reached with
  | @initial both start =>
      obtain ⟨known, debug, packed⟩ := both
      obtain ⟨rfl, ⟨memory, rfl⟩, ⟨memory', rfl⟩, data⟩ := start
      exact ⟨rfl, .none, data, fun addr member => member.elim⟩
  | @step both action next _ stepped related =>
      obtain ⟨known, debug, packed⟩ := next
      obtain ⟨allowed, rfl, rounds, called, called'⟩ := stepped
      obtain ⟨image, isImage, next⟩ := related.call cmpf action allowed rounds debug called
      cases isImage.symm.trans called'
      exact next

/-- In every state of every run the two builds agree, since no accessor touches the
half of the word that belongs to the others. -/
theorem buildsAgree_of_reachable {cmpf : RbtreeCmpFn Data} {both : BothBuilds Data}
    (reached : (bothBuilds cmpf).Reachable both) :
    (∀ (node : PackedNode Data) pointer colour,
      (node.setParent pointer).getParent = pointer ∧
        (node.setParent pointer).getColour = node.getColour ∧
        (node.setColour colour).getColour = colour ∧
        (node.setColour colour).getParent = node.getParent) ∧
    BuildsAgree cmpf both := by
  have related := related_of_reachable reached
  refine ⟨fun node pointer colour => ⟨node.getParent_setParent pointer,
    node.getColour_setParent pointer, node.getColour_setColour colour,
    node.getParent_setColour colour⟩, ?_⟩
  exact {
    related := related
    member := fun addr member => related.meets_known related.rootWithin member
    call := related.call cmpf
    insertReturns := by
      intro tree total focus balanced new fresh compares
      obtain ⟨enough, next, inserted⟩ :=
        (Rbtree.calls_return focus balanced).1 cmpf new fresh compares
      refine ⟨enough, fun rounds isEnough => ?_⟩
      have called := inserted rounds isEnough
      obtain ⟨image, isImage, -⟩ :=
        related.call cmpf (.insert new) trivial rounds next called
      exact ⟨next, image, called, isImage⟩
    deleteReturns := by
      intro tree total focus balanced deletee member
      obtain ⟨enough, next, deleted⟩ := ((Rbtree.calls_return focus balanced).2 deletee member).1
      refine ⟨enough, fun rounds isEnough => ?_⟩
      have called := deleted rounds isEnough
      have isKnown := related.meets_known related.rootWithin (focus.member_iff.mpr member)
      obtain ⟨image, isImage, -⟩ :=
        related.call cmpf (.delete deletee) isKnown rounds next called
      exact ⟨next, image, called, isImage⟩ }

/-- Two nodes of one size, next to each other. -/
def lowNode : NodeAddr := ⟨0x1000, by decide, by decide⟩
def highNode : NodeAddr := ⟨0x1014, by decide, by decide⟩

/-- Memories with other rubbish in the nodes of each build, after `rbtree_init_tree`. -/
def rubbish : BothBuilds Int where
  known := ∅
  debug := rbtreeInitTree ⟨some lowNode, fun addr =>
    ⟨addr.word.toNat, some highNode, none, some lowNode, .black⟩⟩
  packed := RbtreeBuild.rbtreeInitTree (PackedRbtree.mk (some highNode) fun addr =>
    ⟨addr.word.toNat, none, some lowNode, 0xffffffff⟩)

/-- An insertion in both builds. -/
def BothBuilds.insert (both : BothBuilds Int) (new : NodeAddr) : Outcome (BothBuilds Int) := do
  let debug ← BuildCall.callDebug (fun x y => .ok (x - y)) 4 both.debug (.insert new)
  let packed ← BuildCall.callPacked (fun x y => .ok (x - y)) 4 both.packed (.insert new)
  .ok ⟨Insert.insert new both.known, debug, packed⟩

theorem BothBuilds.reachable_insert {both next : BothBuilds Int} {new : NodeAddr}
    (reached : (bothBuilds fun x y : Int => .ok (x - y)).Reachable both)
    (inserted : both.insert new = .ok next) :
    (bothBuilds fun x y : Int => .ok (x - y)).Reachable next := by
  obtain ⟨debug, called, rest⟩ := bind_eq_ok.mp inserted
  obtain ⟨packed, called', returned⟩ := bind_eq_ok.mp rest
  cases returned
  have allowed : (BuildCall.insert new : BuildCall Int).Allowed both.known := trivial
  exact .step reached ⟨allowed, rfl, 4, called, called'⟩

/-- The two builds after two insertions into these memories. -/
theorem rubbish_buildsAgree : ∃ both : BothBuilds Int,
    both.debug.root = some lowNode ∧ (both.debug.nodes lowNode).right = some highNode ∧
    (both.packed.nodes highNode).parent = 0x1001 ∧
    (∀ (node : PackedNode Int) pointer colour,
      (node.setParent pointer).getParent = pointer ∧
        (node.setParent pointer).getColour = node.getColour ∧
        (node.setColour colour).getColour = colour ∧
        (node.setColour colour).getParent = node.getParent) ∧
    BuildsAgree (fun x y => .ok (x - y)) both := by
  have start : (bothBuilds fun x y : Int => .ok (x - y)).Reachable rubbish :=
    .initial ⟨rfl, ⟨_, rfl⟩, ⟨_, rfl⟩, fun _ => rfl⟩
  have result : (do
      let middle ← rubbish.insert lowNode
      let both ← middle.insert highNode
      kassert (both.debug.root = some lowNode ∧
        (both.debug.nodes lowNode).right = some highNode ∧
        (both.packed.nodes highNode).parent = 0x1001)) = .ok () := by decide
  obtain ⟨middle, first, rest⟩ := bind_eq_ok.mp result
  obtain ⟨both, second, seen⟩ := bind_eq_ok.mp rest
  obtain ⟨root, right, word⟩ := kassert_eq_ok.mp seen
  refine ⟨both, root, right, word, buildsAgree_of_reachable ?_⟩
  exact BothBuilds.reachable_insert (BothBuilds.reachable_insert start first) second

end Yaeos
