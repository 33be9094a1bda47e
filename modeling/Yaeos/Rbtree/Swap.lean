import Yaeos.Rbtree.Focus
import Mathlib.Logic.Equiv.Basic

/-!
# Swapping two nodes

Deletion of a node with two children first exchanges it with the last node of
its left subtree: the nodes trade places, and with them links and colours, while
the data stay in their nodes.  In the tree that memory holds this renames the
one node to the other and back.
-/

namespace Yaeos

/-- The links of `new` are those of `old` with every node renamed. -/
structure RbtreeNode.Renamed {Addr Data : Type} (rename : Addr → Addr)
    (old new : RbtreeNode Addr Data) : Prop where
  child : ∀ side, new.child side = (old.child side).map rename
  parent : new.parent = old.parent.map rename
  colour : new.colour = old.colour

namespace Rbtree

variable {Addr Data : Type} {rbt next : Rbtree Addr Data} {ctx : Ctx Addr} {tree : Tree Addr}
  {side : Side} {addr other x y : Addr} {rounds : Nat}

theorem Holds.rename {parent : Option Addr} (rename : Addr → Addr)
    (holds : rbt.Holds parent tree)
    (renamed : ∀ addr ∈ tree.inorder,
      RbtreeNode.Renamed rename (rbt.nodes addr) (next.nodes (rename addr))) :
    next.Holds (parent.map rename) (tree.map rename) := by
  induction tree generalizing parent with
  | nil => trivial
  | node colour left key right leftHypothesis rightHypothesis =>
      obtain ⟨⟨leftLink, rightLink, parentLink, sameColour⟩, leftHolds, rightHolds⟩ := holds
      have here := renamed key (by simp [Tree.inorder])
      refine ⟨⟨?_, ?_, ?_, ?_⟩, leftHypothesis leftHolds fun addr member => renamed addr ?_,
        rightHypothesis rightHolds fun addr member => renamed addr ?_⟩
      · rw [Tree.root_map, ← leftLink]
        exact here.child .left
      · rw [Tree.root_map, ← rightLink]
        exact here.child .right
      · rw [← parentLink]
        exact here.parent
      · rw [← sameColour]
        exact here.colour
      · simp [Tree.inorder, member]
      · simp [Tree.inorder, member]

/-- A child names its parent. -/
theorem Focus.child_parent (side : Side) (focus : rbt.Focus .top tree) (member : addr ∈ tree.inorder)
    (link : (rbt.nodes addr).child side = some other) :
    (rbt.nodes other).parent = some addr ∧ other ∈ tree.inorder ∧ other ≠ addr := by
  obtain ⟨inner, colour, near, far, here, samePlug⟩ := focus.at_branch side member
  have rooted := here.near_eq.symm.trans link
  have down := focus_frame.mpr here
  have inside : other ∈ (inner.plug (.branch side colour near addr far)).inorder :=
    Ctx.mem_plug.mpr (.inl (by simp [Tree.mem_of_root rooted]))
  refine ⟨?_, samePlug ▸ inside, fun equal => ?_⟩
  · obtain ⟨otherColour, otherLeft, otherRight, rfl⟩ := Tree.exists_branch .left rooted
    exact down.parent_eq
  · exact here.distinct.1.1.1 (equal ▸ Tree.mem_of_root rooted)

/-- A parent has the child on exactly one side. -/
theorem Focus.parent_child (focus : rbt.Focus .top tree) (member : addr ∈ tree.inorder)
    (link : (rbt.nodes addr).parent = some other) :
    other ∈ tree.inorder ∧ other ≠ addr ∧ ∃ side, (rbt.nodes other).child side = some addr ∧
      (rbt.nodes other).child side.other ≠ some addr := by
  obtain ⟨inner, colour, left, right, here, samePlug⟩ := focus.at_key member
  have above : inner.parent = some other :=
    here.node_parent_eq.symm.trans link
  cases inner with
  | top => cases above
  | frame side frameColour key sibling outer =>
      obtain rfl : key = other := Option.some.inj above
      have up := focus_frame.mp here
      have inside : key ∈ (outer.plug (.branch side frameColour (.node colour left addr right)
          key sibling)).inorder := Ctx.mem_plug.mpr (.inl (by simp))
      have whole : outer.plug (.branch side frameColour (.node colour left addr right)
          key sibling) = tree := samePlug
      refine ⟨whole ▸ inside, fun equal => ?_, side, up.near_eq, up.far_ne rfl⟩
      exact up.distinct.1.1.1 (by simp [Tree.inorder, equal])

theorem Focus.parent_none_iff (focus : rbt.Focus .top tree) (member : addr ∈ tree.inorder) :
    (rbt.nodes addr).parent = none ↔ rbt.root = some addr := by
  constructor
  · intro orphan
    obtain ⟨inner, colour, left, right, here, -⟩ := focus.at_key member
    have above : inner.parent = none := here.node_parent_eq.symm.trans orphan
    cases inner with
    | top => exact here.around
    | frame => cases above
  · intro isRoot
    have rooted : tree.root = some addr := (show rbt.root = tree.root from focus.around) ▸ isRoot
    obtain ⟨colour, left, right, rfl⟩ := Tree.exists_branch .left rooted
    exact focus.parent_eq

/-- The nodes that have `addr` as their parent are its children. -/
theorem Focus.parent_iff (focus : rbt.Focus .top tree) (member : addr ∈ tree.inorder)
    (otherMember : other ∈ tree.inorder) : (rbt.nodes other).parent = some addr ↔
      (rbt.nodes addr).left = some other ∨ (rbt.nodes addr).right = some other := by
  constructor
  · intro link
    obtain ⟨-, -, side, here, -⟩ := focus.parent_child otherMember link
    cases side
    · exact .inl here
    · exact .inr here
  · rintro (left | right)
    · exact (focus.child_parent .left member left).1
    · exact (focus.child_parent .right member right).1

variable [DecidableEq Addr]

/-- The assertions of `rbt_swap_nodes` hold of every node of a tree. -/
theorem Focus.swapNodesCheck (focus : rbt.Focus .top tree) (member : addr ∈ tree.inorder) :
    rbtSwapNodesCheck rbt (some addr) = .ok () := by
  have below : ∀ side, (rbt.nodes addr).child side ≠ none →
      rbtGetParent rbt ((rbt.nodes addr).child side) = .ok (some addr) := by
    intro side present
    obtain ⟨child, link⟩ := Option.ne_none_iff_exists'.mp present
    rw [link, rbtGetParent_some, (focus.child_parent side member link).1]
  have left := below .left
  have right := below .right
  simp only [RbtreeNode.child_left, RbtreeNode.child_right] at left right
  have above : ∀ parent, (rbt.nodes addr).parent = some parent →
      (rbt.nodes parent).left = some addr ∨ (rbt.nodes parent).right = some addr := by
    intro parent link
    exact (focus.parent_iff (focus.parent_child member link).1 member).mp link
  cases parentCase : (rbt.nodes addr).parent with
  | none =>
      by_cases noLeft : (rbt.nodes addr).left = none <;>
        by_cases noRight : (rbt.nodes addr).right = none <;>
          simp_all [rbtSwapNodesCheck]
  | some parent =>
      have linked := above parent parentCase
      by_cases noLeft : (rbt.nodes addr).left = none <;>
        by_cases noRight : (rbt.nodes addr).right = none <;>
          simp_all [rbtSwapNodesCheck]

/-- Links to `x` are turned to `y`. -/
def redirect (x y addr : Addr) : Addr := if addr = x then y else addr

theorem map_redirect (x y : Addr) (pointer : Option Addr) :
    pointer.map (redirect x y) = if pointer = some x then some y else pointer := by
  cases pointer with
  | none => rfl
  | some addr =>
      simp only [Option.map_some, redirect, Option.some.injEq]
      split <;> rfl

theorem map_swap (x y : Addr) (pointer : Option Addr) : pointer.map (Equiv.swap x y) =
    if pointer = some x then some y else if pointer = some y then some x else pointer := by
  cases pointer with
  | none => rfl
  | some addr =>
      simp only [Option.map_some, Equiv.swap_apply_def, Option.some.injEq]
      split_ifs <;> rfl

/-- How `rbt_swap_nodes` chooses a child for `y`. -/
theorem choose_child {pointer : Option Addr} [Decidable (pointer ≠ some y)]
    (noLoop : pointer ≠ some x) :
    (if pointer ≠ some y then pointer else some x) = pointer.map (Equiv.swap x y) := by
  rw [map_swap, if_neg noLoop]
  split <;> simp_all

/-- The link down to `node` is turned to `heir`, and `heir` gets the parent. -/
theorem swapNodesParent_spec (rbt : Rbtree Addr Data) (node heir : Addr) (parent : Option Addr)
    (linked : match parent with
      | none => rbt.root = some node
      | some key => ∃ side, (rbt.nodes key).child side = some node ∧
          (rbt.nodes key).child side.other ≠ some node) :
    ∃ next, rbtSwapNodesParent rbt (some node) (some heir) parent = .ok next ∧
      next.root = (if parent = none then some heir else rbt.root) ∧
      (∀ addr side, (next.nodes addr).child side =
        if parent = some addr ∧ (rbt.nodes addr).child side = some node then some heir
        else (rbt.nodes addr).child side) ∧
      (∀ addr, (next.nodes addr).parent = if addr = heir then parent else (rbt.nodes addr).parent) ∧
      (∀ addr, (next.nodes addr).colour = (rbt.nodes addr).colour) ∧ SameData rbt next := by
  cases parent with
  | none =>
      refine ⟨{ rbt.reparent (some heir) none with root := some heir }, ?_, rfl, ?_, ?_, ?_, ?_⟩
      · simp only at linked
        simp [rbtSwapNodesParent, linked, modify_parent_eq]
      · intro addr side
        simp
      all_goals
        intro addr
        simp only [nodes_reparent, Option.some.injEq, eq_comm (a := addr)]
        split <;> simp_all
  | some key =>
      obtain ⟨side, here, there⟩ := linked
      refine ⟨(rbt.modify key fun node => node.setChild side (some heir)).reparent (some heir)
        (some key), ?_, by simp, ?_, ?_, ?_, ?_⟩
      · simp [rbtSwapNodesParent, replaceChild_eq here there, modify_parent_eq]
      · intro addr other
        rw [child_reparent, nodes_modify]
        by_cases same : addr = key
        · subst same
          rcases Side.eq_or_eq_other other side with rfl | rfl
          · simp [RbtreeNode.child_setChild, here]
          · simp [RbtreeNode.child_setChild, there]
        · simp [same, Ne.symm same]
      all_goals
        intro addr
        simp only [nodes_reparent, nodes_modify, Option.some.injEq, eq_comm (a := addr)]
        split <;> split <;> simp_all

/-- The last three writes of each half: the children and the colour of a node. -/
def install (rbt : Rbtree Addr Data) (addr : Addr) (left right : Option Addr)
    (colour : RbtreeColour) : Rbtree Addr Data :=
  ((rbt.modify addr fun node => node.setChild .left left).modify addr
    fun node => node.setChild .right right).modify addr fun node => node.setColour colour

theorem nodes_install (rbt : Rbtree Addr Data) (addr : Addr) (left right : Option Addr)
    (colour : RbtreeColour) (other : Addr) : (rbt.install addr left right colour).nodes other =
      if other = addr then
        ⟨(rbt.nodes addr).data, left, right, (rbt.nodes addr).parent, colour⟩
      else rbt.nodes other := by
  simp only [install, nodes_modify, if_pos]
  split <;> rfl

/-- After the first half `y` has the links of `x`, and the rest of the tree links
to `y` where it linked to `x`. -/
theorem Focus.swapNodesPlaceY (focus : rbt.Focus .top tree) (xMember : x ∈ tree.inorder)
    (different : x ≠ y) (notAbove : (rbt.nodes x).parent ≠ some y) :
    ∃ next, rbtSwapNodesPlaceY rbt (some x) (some y) = .ok next ∧
      next.root = rbt.root.map (redirect x y) ∧
      (∀ addr ∈ tree.inorder, addr ≠ y →
        RbtreeNode.Renamed (redirect x y) (rbt.nodes addr) (next.nodes addr)) ∧
      RbtreeNode.Renamed (Equiv.swap x y) (rbt.nodes x) (next.nodes y) ∧ SameData rbt next := by
  have noLoop : ∀ side, (rbt.nodes x).child side ≠ some x := fun side link =>
    (focus.child_parent side xMember link).2.2 rfl
  have noLoopParent : (rbt.nodes x).parent ≠ some x := fun link =>
    (focus.parent_child xMember link).2.1 rfl
  let adopted := (rbt.reparent (rbt.nodes x).left (some y)).reparent (rbt.nodes x).right (some y)
  have adoptedChild : ∀ addr side, (adopted.nodes addr).child side = (rbt.nodes addr).child side :=
    fun addr side => by simp [adopted]
  have adoptedX : (adopted.nodes x).parent = (rbt.nodes x).parent := by
    have left : (rbt.nodes x).left ≠ some x := noLoop .left
    have right : (rbt.nodes x).right ≠ some x := noLoop .right
    simp [adopted, nodes_reparent, left, right]
  have adoptedParent : ∀ addr ∈ tree.inorder,
      (adopted.nodes addr).parent = (rbt.nodes addr).parent.map (redirect x y) := by
    intro addr member
    rw [map_redirect]
    simp only [focus.parent_iff xMember member, adopted, nodes_reparent]
    split_ifs <;> simp_all
  have adoptedColour : ∀ addr, (adopted.nodes addr).colour = (rbt.nodes addr).colour := by
    intro addr
    simp only [adopted, nodes_reparent]
    split_ifs <;> rfl
  have adoptedData : SameData rbt adopted := by
    intro addr
    simp only [adopted, nodes_reparent]
    split_ifs <;> rfl
  obtain ⟨raised, raise, raisedRoot, raisedChild, raisedParent, raisedColour, raisedData⟩ :=
    swapNodesParent_spec adopted x y (rbt.nodes x).parent (by
      split
      · next orphan => exact (focus.parent_none_iff xMember).mp orphan
      · next key link =>
          obtain ⟨-, -, side, here, there⟩ := focus.parent_child xMember link
          exact ⟨side, (adoptedChild ..).trans here, by rwa [adoptedChild]⟩)
  have raisedX : ∀ side, (raised.nodes x).child side = (rbt.nodes x).child side := fun side => by
    rw [raisedChild, adoptedChild, if_neg fun both => noLoop side both.2]
  have raisedLeft : (raised.nodes x).left = (rbt.nodes x).left := raisedX .left
  have raisedRight : (raised.nodes x).right = (rbt.nodes x).right := raisedX .right
  refine ⟨raised.install y ((rbt.nodes x).left.map (Equiv.swap x y))
    ((rbt.nodes x).right.map (Equiv.swap x y)) (rbt.nodes x).colour, ?_, ?_, ?_, ?_, ?_⟩
  · have noLoopLeft : (rbt.nodes x).left ≠ some x := noLoop .left
    have noLoopRight : (rbt.nodes x).right ≠ some x := noLoop .right
    have raise' : rbtSwapNodesParent ((rbt.reparent (rbt.nodes x).left (some y)).reparent
        (rbt.nodes x).right (some y)) (some x) (some y) (rbt.nodes x).parent = .ok raised := raise
    have adoptedX' : (((rbt.reparent (rbt.nodes x).left (some y)).reparent
        (rbt.nodes x).right (some y)).nodes x).parent = (rbt.nodes x).parent := adoptedX
    have firstRight : ((rbt.reparent (rbt.nodes x).left (some y)).nodes x).right =
        (rbt.nodes x).right := child_reparent rbt _ _ x .right
    simp only [rbtSwapNodesPlaceY, node_some, Outcome.ok_bind, trySetParent_eq, firstRight,
      rbtGetParent_some, adoptedX', raise', raisedLeft, choose_child noLoopLeft, setChild_some, nodes_modify,
      if_neg different, raisedRight, choose_child noLoopRight, rbtGetColour, rbtSetColour_some, raisedColour,
      adoptedColour, install]
  · show raised.root = _
    rw [raisedRoot, map_redirect]
    simp only [focus.parent_none_iff xMember]
    rfl
  · intro addr member notY
    have same : (raised.install y ((rbt.nodes x).left.map (Equiv.swap x y))
        ((rbt.nodes x).right.map (Equiv.swap x y)) (rbt.nodes x).colour).nodes addr =
        raised.nodes addr := by rw [nodes_install, if_neg notY]
    rw [same]
    refine ⟨fun side => ?_, ?_, ?_⟩
    · rw [raisedChild, adoptedChild, map_redirect]
      by_cases link : (rbt.nodes addr).child side = some x
      · simp [link, (focus.child_parent side member link).1]
      · simp [link]
    · rw [raisedParent, if_neg notY, adoptedParent addr member]
    · rw [raisedColour, adoptedColour]
  · rw [nodes_install, if_pos rfl]
    refine ⟨fun side => by cases side <;> rfl, ?_, rfl⟩
    simp only [raisedParent, if_pos]
    rw [map_swap, if_neg noLoopParent, if_neg notAbove]
  · intro addr
    rw [nodes_install]
    split
    · next same => rw [same, raisedData, adoptedData]
    · rw [raisedData, adoptedData]

/-- After the second half the two nodes have traded places. -/
theorem Focus.swapNodesPlaceX {middle : Rbtree Addr Data} {above : Addr}
    (focus : rbt.Focus .top tree) (xMember : x ∈ tree.inorder) (yMember : y ∈ tree.inorder)
    (different : x ≠ y) (notAbove : (rbt.nodes x).parent ≠ some y)
    (yParent : (rbt.nodes y).parent = some above)
    (notSiblings : (rbt.nodes x).parent ≠ (rbt.nodes y).parent)
    (root : middle.root = rbt.root.map (redirect x y))
    (renamed : ∀ addr ∈ tree.inorder, addr ≠ y →
      RbtreeNode.Renamed (redirect x y) (rbt.nodes addr) (middle.nodes addr))
    (placed : RbtreeNode.Renamed (Equiv.swap x y) (rbt.nodes x) (middle.nodes y)) :
    ∃ next, rbtSwapNodesPlaceX middle (some x) (some y) (rbt.nodes y) = .ok next ∧
      next.root = rbt.root.map (Equiv.swap x y) ∧
      (∀ addr ∈ tree.inorder, RbtreeNode.Renamed (Equiv.swap x y) (rbt.nodes addr)
        (next.nodes (Equiv.swap x y addr))) ∧ SameData middle next := by
  obtain ⟨aboveMember, above_ne, linkSide, here, there⟩ := focus.parent_child yMember yParent
  have rootNotY : rbt.root ≠ some y := fun isRoot => by
    rw [(focus.parent_none_iff yMember).mpr isRoot] at yParent
    cases yParent
  have noLoop : ∀ side, (rbt.nodes y).child side ≠ some y := fun side link =>
    (focus.child_parent side yMember link).2.2 rfl
  have notBelow : ∀ side, (rbt.nodes y).child side ≠ some x := fun side link =>
    notAbove (focus.child_parent side yMember link).1
  have notBelowX : ∀ side, (rbt.nodes above).child side = some x → False := fun side link =>
    notSiblings ((focus.child_parent side aboveMember link).1.trans yParent.symm)
  let adopted := (middle.reparent (rbt.nodes y).left (some x)).reparent (rbt.nodes y).right (some x)
  have adoptedChild : ∀ addr side,
      (adopted.nodes addr).child side = (middle.nodes addr).child side :=
    fun addr side => by simp [adopted]
  have adoptedParent : ∀ addr ∈ tree.inorder, addr ≠ y →
      (adopted.nodes addr).parent = (rbt.nodes addr).parent.map (Equiv.swap x y) := by
    intro addr member notY
    have before := (renamed addr member notY).parent
    have iff := focus.parent_iff yMember member
    rw [map_redirect] at before
    rw [map_swap]
    simp only [adopted, nodes_reparent]
    split_ifs <;> simp_all
  have adoptedY : (adopted.nodes y).parent = (middle.nodes y).parent := by
    have left : (rbt.nodes y).left ≠ some y := noLoop .left
    have right : (rbt.nodes y).right ≠ some y := noLoop .right
    simp [adopted, nodes_reparent, left, right]
  have adoptedColour : ∀ addr, (adopted.nodes addr).colour = (middle.nodes addr).colour := by
    intro addr
    simp only [adopted, nodes_reparent]
    split_ifs <;> rfl
  have adoptedData : SameData middle adopted := by
    intro addr
    simp only [adopted, nodes_reparent]
    split_ifs <;> rfl
  -- the link down to `y`, unless it came from `x` itself
  obtain ⟨raised, raise, raisedRoot, raisedChild, raisedParent, raisedColour, raisedData⟩ :
      ∃ raised, (if (rbt.nodes y).parent ≠ some x then
          rbtSwapNodesParent adopted (some y) (some x) (rbt.nodes y).parent
        else rbtSetParent adopted (some x) (some y)) = .ok raised ∧
      raised.root = middle.root ∧
      (∀ addr, addr ≠ x → ∀ side, (raised.nodes addr).child side =
        if above = addr ∧ (middle.nodes addr).child side = some y then some x
        else (middle.nodes addr).child side) ∧
      (∀ addr, (raised.nodes addr).parent = if addr = x
        then (rbt.nodes y).parent.map (Equiv.swap x y) else (adopted.nodes addr).parent) ∧
      (∀ addr, (raised.nodes addr).colour = (middle.nodes addr).colour) ∧
      SameData middle raised := by
    by_cases child : above = x
    · subst child
      refine ⟨adopted.modify above fun node => node.setParent (some y), ?_, rfl, ?_, ?_, ?_, ?_⟩
      · simp [yParent]
      · intro addr notX side
        rw [nodes_modify, if_neg notX, adoptedChild, if_neg fun both => notX both.1.symm]
      · intro addr
        rw [nodes_modify, yParent, map_swap, if_pos rfl]
        split <;> rfl
      · intro addr
        rw [nodes_modify, ← adoptedColour]
        split <;> simp_all
      · intro addr
        rw [nodes_modify, ← adoptedData addr]
        split <;> simp_all
    · have aboveRenamed := (renamed above aboveMember above_ne).child
      obtain ⟨raised, raise, raisedRoot, raisedChild, raisedParent, raisedColour, raisedData⟩ :=
        swapNodesParent_spec adopted y x (some above)
          ⟨linkSide, by
            rw [adoptedChild, aboveRenamed, map_redirect, here]
            simp [Ne.symm different], by
            rw [adoptedChild, aboveRenamed, map_redirect, if_neg fun link => notBelowX _ link]
            exact there⟩
      refine ⟨raised, ?_, by rw [raisedRoot, if_neg (by simp)]; rfl, ?_, ?_, ?_, ?_⟩
      · simp [yParent, child, raise]
      · intro addr _ side
        simp [raisedChild, adoptedChild]
      · intro addr
        rw [raisedParent, yParent, Option.map_some, Equiv.swap_apply_of_ne_of_ne child above_ne]
      · exact fun addr => (raisedColour addr).trans (adoptedColour addr)
      · exact adoptedData.trans raisedData
  refine ⟨raised.install x (rbt.nodes y).left (rbt.nodes y).right (rbt.nodes y).colour, ?_, ?_, ?_,
    ?_⟩
  · have raise' : (if (rbt.nodes y).parent ≠ some x then
          rbtSwapNodesParent ((middle.reparent (rbt.nodes y).left (some x)).reparent
            (rbt.nodes y).right (some x)) (some y) (some x) (rbt.nodes y).parent
        else rbtSetParent ((middle.reparent (rbt.nodes y).left (some x)).reparent
            (rbt.nodes y).right (some x)) (some x) (some y)) = .ok raised := raise
    simp only [rbtSwapNodesPlaceX, trySetParent_eq, Outcome.ok_bind, raise', setChild_some,
      rbtSetColour_some, install]
  · show raised.root = _
    rw [raisedRoot, root, map_redirect, map_swap, if_neg rootNotY]
  · intro addr member
    by_cases isX : addr = x
    · -- what was `x` is `y` now, untouched by the second half
      subst isX
      rw [Equiv.swap_apply_left, nodes_install, if_neg (Ne.symm different)]
      refine ⟨fun side => ?_, ?_, ?_⟩
      · rw [raisedChild y (Ne.symm different), if_neg fun both => above_ne both.1]
        exact placed.child side
      · rw [raisedParent, if_neg (Ne.symm different), adoptedY]
        exact placed.parent
      · rw [raisedColour]
        exact placed.colour
    · by_cases isY : addr = y
      · subst isY
        rw [Equiv.swap_apply_right, nodes_install, if_pos rfl]
        refine ⟨fun side => ?_, ?_, rfl⟩
        · rw [map_swap, if_neg (notBelow side), if_neg (noLoop side)]
          cases side <;> rfl
        · simp [raisedParent]
      · rw [Equiv.swap_apply_of_ne_of_ne isX isY, nodes_install, if_neg isX]
        have before := renamed addr member isY
        refine ⟨fun side => ?_, ?_, ?_⟩
        · rw [raisedChild addr isX, before.child, map_redirect, map_swap]
          by_cases toX : (rbt.nodes addr).child side = some x
          · have apart : above ≠ addr := fun same => notBelowX side (same ▸ toX)
            simp [toX, apart]
          · by_cases toY : (rbt.nodes addr).child side = some y
            · have same : above = addr := by
                have link := (focus.child_parent side member toY).1
                rw [yParent] at link
                exact Option.some.inj link
              simp [toY, same, Ne.symm different]
            · simp [toX, toY]
        · rw [raisedParent, if_neg isX, adoptedParent addr member isY]
        · rw [raisedColour]
          exact before.colour
  · intro addr
    rw [nodes_install]
    split
    · next same => rw [same, raisedData]
    · rw [raisedData]

/-- `rbt_swap_nodes` renames the two nodes in the tree that memory holds. -/
theorem Focus.swapNodes {above : Addr} (focus : rbt.Focus .top tree) (xMember : x ∈ tree.inorder)
    (yMember : y ∈ tree.inorder) (different : x ≠ y) (notAbove : (rbt.nodes x).parent ≠ some y)
    (yParent : (rbt.nodes y).parent = some above)
    (notSiblings : (rbt.nodes x).parent ≠ (rbt.nodes y).parent) :
    ∃ next, rbtSwapNodes rbt (some x) (some y) = .ok next ∧
      next.Focus .top (tree.map (Equiv.swap x y)) ∧ SameData rbt next := by
  obtain ⟨middle, first, root, renamed, placed, dataFirst⟩ :=
    focus.swapNodesPlaceY xMember different notAbove
  obtain ⟨next, second, rootNext, renamedNext, dataSecond⟩ :=
    focus.swapNodesPlaceX xMember yMember different notAbove yParent notSiblings root renamed placed
  have swapped : next.Focus .top (tree.map (Equiv.swap x y)) := by
    refine ⟨?_, focus.holds.rename _ renamedNext, ?_⟩
    · show next.root = _
      rw [rootNext, Tree.root_map]
      exact congrArg _ focus.around
    · show (tree.map _).inorder.Nodup
      rw [Tree.inorder_map]
      exact focus.nodup.map (Equiv.swap x y).injective
  have xPlace : x ∈ (tree.map (Equiv.swap x y)).inorder := by
    rw [Tree.inorder_map, List.mem_map]
    exact ⟨y, yMember, Equiv.swap_apply_right x y⟩
  have yPlace : y ∈ (tree.map (Equiv.swap x y)).inorder := by
    rw [Tree.inorder_map, List.mem_map]
    exact ⟨x, xMember, Equiv.swap_apply_left x y⟩
  have checkX := swapped.swapNodesCheck xPlace
  have checkY := swapped.swapNodesCheck yPlace
  refine ⟨next, ?_, swapped, dataFirst.trans dataSecond⟩
  simp [rbtSwapNodes, notAbove, first, second, checkX, checkY]

end Rbtree

end Yaeos
