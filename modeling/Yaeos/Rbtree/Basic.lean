import Yaeos.Machine.Outcome
import Yaeos.Tree.Basic
import Mathlib.Logic.Function.Basic

/-!
# The red-black tree (`lib/ds/rbtree.c`)

Nodes are records in memory that name each other by address; `none` is `NULL`.
The definitions follow the debug build, where a node has a field of its own for
its colour.  Loops take a number of rounds they may use.
-/

namespace Yaeos

abbrev RbtreeColour := Colour

structure RbtreeNode (Addr Data : Type) where
  data : Data
  left : Option Addr
  right : Option Addr
  parent : Option Addr
  colour : RbtreeColour

/-- A tree together with the memory its nodes lie in. -/
structure Rbtree (Addr Data : Type) where
  root : Option Addr
  nodes : Addr → RbtreeNode Addr Data

/-- `int (*rbtree_cmp_fn)(const void *tree_val, const void *external_val)`. -/
abbrev RbtreeCmpFn (Data : Type) := Data → Data → Outcome Int

namespace RbtreeNode

variable {Addr Data : Type}

def child (node : RbtreeNode Addr Data) : Side → Option Addr
  | .left => node.left
  | .right => node.right

def setChild (node : RbtreeNode Addr Data) (side : Side) (pointer : Option Addr) :
    RbtreeNode Addr Data :=
  match side with
  | .left => { node with left := pointer }
  | .right => { node with right := pointer }

def setParent (node : RbtreeNode Addr Data) (pointer : Option Addr) : RbtreeNode Addr Data :=
  { node with parent := pointer }

def setColour (node : RbtreeNode Addr Data) (colour : RbtreeColour) : RbtreeNode Addr Data :=
  { node with colour := colour }

@[simp]
theorem child_left (node : RbtreeNode Addr Data) : node.child .left = node.left := rfl

@[simp]
theorem child_right (node : RbtreeNode Addr Data) : node.child .right = node.right := rfl

theorem child_setChild (node : RbtreeNode Addr Data) (side other : Side)
    (pointer : Option Addr) : (node.setChild side pointer).child other =
      if other = side then pointer else node.child other := by
  cases side <;> cases other <;> rfl

@[simp]
theorem parent_setChild (node : RbtreeNode Addr Data) (side : Side) (pointer : Option Addr) :
    (node.setChild side pointer).parent = node.parent := by cases side <;> rfl

@[simp]
theorem colour_setChild (node : RbtreeNode Addr Data) (side : Side) (pointer : Option Addr) :
    (node.setChild side pointer).colour = node.colour := by cases side <;> rfl

@[simp]
theorem data_setChild (node : RbtreeNode Addr Data) (side : Side) (pointer : Option Addr) :
    (node.setChild side pointer).data = node.data := by cases side <;> rfl

@[simp]
theorem child_setParent (node : RbtreeNode Addr Data) (side : Side) (pointer : Option Addr) :
    (node.setParent pointer).child side = node.child side := by cases side <;> rfl

@[simp]
theorem parent_setParent (node : RbtreeNode Addr Data) (pointer : Option Addr) :
    (node.setParent pointer).parent = pointer := rfl

@[simp]
theorem colour_setParent (node : RbtreeNode Addr Data) (pointer : Option Addr) :
    (node.setParent pointer).colour = node.colour := rfl

@[simp]
theorem data_setParent (node : RbtreeNode Addr Data) (pointer : Option Addr) :
    (node.setParent pointer).data = node.data := rfl

@[simp]
theorem child_setColour (node : RbtreeNode Addr Data) (side : Side) (colour : RbtreeColour) :
    (node.setColour colour).child side = node.child side := by cases side <;> rfl

@[simp]
theorem parent_setColour (node : RbtreeNode Addr Data) (colour : RbtreeColour) :
    (node.setColour colour).parent = node.parent := rfl

@[simp]
theorem colour_setColour (node : RbtreeNode Addr Data) (colour : RbtreeColour) :
    (node.setColour colour).colour = colour := rfl

@[simp]
theorem data_setColour (node : RbtreeNode Addr Data) (colour : RbtreeColour) :
    (node.setColour colour).data = node.data := rfl

end RbtreeNode

namespace Rbtree

variable {Addr Data : Type} [DecidableEq Addr]

/-- Change one node. -/
def modify (rbt : Rbtree Addr Data) (addr : Addr)
    (change : RbtreeNode Addr Data → RbtreeNode Addr Data) : Rbtree Addr Data :=
  { rbt with nodes := Function.update rbt.nodes addr (change (rbt.nodes addr)) }

theorem nodes_modify (rbt : Rbtree Addr Data) (addr : Addr)
    (change : RbtreeNode Addr Data → RbtreeNode Addr Data) (other : Addr) :
    (rbt.modify addr change).nodes other =
      if other = addr then change (rbt.nodes addr) else rbt.nodes other := by
  simp [modify, Function.update_apply]

@[simp]
theorem root_modify (rbt : Rbtree Addr Data) (addr : Addr)
    (change : RbtreeNode Addr Data → RbtreeNode Addr Data) :
    (rbt.modify addr change).root = rbt.root := rfl

omit [DecidableEq Addr] in
/-- The node behind a pointer. -/
def node (rbt : Rbtree Addr Data) (pointer : Option Addr) : Outcome (RbtreeNode Addr Data) := do
  .ok (rbt.nodes (← deref pointer))

/-- `pointer->left = child` and `pointer->right = child`. -/
def setChild (rbt : Rbtree Addr Data) (pointer : Option Addr) (side : Side)
    (child : Option Addr) : Outcome (Rbtree Addr Data) := do
  .ok (rbt.modify (← deref pointer) fun node => node.setChild side child)

end Rbtree

variable {Addr Data : Type} [DecidableEq Addr]

def rbtSetColour (rbt : Rbtree Addr Data) (node : Option Addr) (colour : RbtreeColour) :
    Outcome (Rbtree Addr Data) := do
  kassert (node ≠ none)
  .ok (rbt.modify (← deref node) fun node => node.setColour colour)

def rbtGetColour (rbt : Rbtree Addr Data) : Option Addr → RbtreeColour
  | none => .black
  | some node => (rbt.nodes node).colour

def rbtSetParent (rbt : Rbtree Addr Data) (node parent : Option Addr) :
    Outcome (Rbtree Addr Data) := do
  kassert (node ≠ none)
  .ok (rbt.modify (← deref node) fun node => node.setParent parent)

def rbtGetParent (rbt : Rbtree Addr Data) (node : Option Addr) : Outcome (Option Addr) := do
  kassert (node ≠ none)
  .ok (← rbt.node node).parent

def rbtGetGrandparent (rbt : Rbtree Addr Data) (node : Option Addr) : Outcome (Option Addr) := do
  kassert (node ≠ none)
  let parent ← rbtGetParent rbt node
  kassert (parent ≠ none)
  let grandparent ← rbtGetParent rbt parent
  kassert (grandparent ≠ none)
  .ok grandparent

def rbtGetSibling (rbt : Rbtree Addr Data) (node : Option Addr) : Outcome (Option Addr) := do
  kassert (node ≠ none)
  let parent ← rbtGetParent rbt node
  kassert (parent ≠ none)
  let parent ← rbt.node parent
  if parent.left = node then .ok parent.right else .ok parent.left

def rbtGetUncle (rbt : Rbtree Addr Data) (node : Option Addr) : Outcome (Option Addr) := do
  kassert (node ≠ none)
  let parent ← rbtGetParent rbt node
  kassert (parent ≠ none)
  kassert ((← rbtGetParent rbt parent) ≠ none)
  rbtGetSibling rbt parent

/-- `TRY_SET_PARENT`, and the same test written out elsewhere. -/
def trySetParent (rbt : Rbtree Addr Data) (node parent : Option Addr) :
    Outcome (Rbtree Addr Data) :=
  if node ≠ none then rbtSetParent rbt node parent else .ok rbt

/-- `if (parent->left == from) parent->left = to; else parent->right = to;`. -/
def replaceChild (rbt : Rbtree Addr Data) (parent replacee replacement : Option Addr) :
    Outcome (Rbtree Addr Data) := do
  if (← rbt.node parent).left = replacee then rbt.setChild parent .left replacement
  else rbt.setChild parent .right replacement

def rbtReplaceSubtree (rbt : Rbtree Addr Data) (replacee replacement : Option Addr) :
    Outcome (Rbtree Addr Data) := do
  let replaceeParent ← rbtGetParent rbt replacee
  let rbt ← (if replaceeParent ≠ none then replaceChild rbt replaceeParent replacee replacement
    else .ok { rbt with root := replacement })
  trySetParent rbt replacement replaceeParent

/-- What `rbt_swap_nodes` does, once for each node, to put the other node
under the parent of the one. -/
def rbtSwapNodesParent (rbt : Rbtree Addr Data) (node replacement parent : Option Addr) :
    Outcome (Rbtree Addr Data) :=
  if parent ≠ none then do
    let rbt ← replaceChild rbt parent node replacement
    rbtSetParent rbt replacement parent
  else do
    kassert (rbt.root = node)
    let rbt ← rbtSetParent rbt replacement none
    .ok { rbt with root := replacement }

/-- The first half of `rbt_swap_nodes`: `y` takes the place of `x`. -/
def rbtSwapNodesPlaceY (rbt : Rbtree Addr Data) (x y : Option Addr) :
    Outcome (Rbtree Addr Data) := do
  let rbt ← trySetParent rbt (← rbt.node x).left y
  let rbt ← trySetParent rbt (← rbt.node x).right y
  let rbt ← rbtSwapNodesParent rbt x y (← rbtGetParent rbt x)
  let left := (← rbt.node x).left
  let rbt ← rbt.setChild y .left (if left ≠ y then left else x)
  let right := (← rbt.node x).right
  let rbt ← rbt.setChild y .right (if right ≠ y then right else x)
  rbtSetColour rbt y (rbtGetColour rbt x)

/-- The second half: `x` takes the place of `y`, which was as in `yCopy`. -/
def rbtSwapNodesPlaceX (rbt : Rbtree Addr Data) (x y : Option Addr)
    (yCopy : RbtreeNode Addr Data) : Outcome (Rbtree Addr Data) := do
  let rbt ← trySetParent rbt yCopy.left x
  let rbt ← trySetParent rbt yCopy.right x
  -- when `y` was the child of `x`, the link down to `x` is there already
  let rbt ← (if yCopy.parent ≠ x then rbtSwapNodesParent rbt y x yCopy.parent
    else rbtSetParent rbt x y)
  let rbt ← rbt.setChild x .left yCopy.left
  let rbt ← rbt.setChild x .right yCopy.right
  rbtSetColour rbt x yCopy.colour

/-- The assertions at the end, for one of the two nodes. -/
def rbtSwapNodesCheck (rbt : Rbtree Addr Data) (x : Option Addr) : Outcome Unit := do
  let node ← rbt.node x
  if node.left ≠ none then kassert ((← rbtGetParent rbt node.left) = x)
  if node.right ≠ none then kassert ((← rbtGetParent rbt node.right) = x)
  let parent ← rbtGetParent rbt x
  if parent ≠ none then
    kassert ((← rbt.node parent).left = x ∨ (← rbt.node parent).right = x)

def rbtSwapNodes (rbt : Rbtree Addr Data) (x y : Option Addr) : Outcome (Rbtree Addr Data) := do
  kassert (x ≠ none)
  kassert (y ≠ none)
  let (x, y) := if (← rbtGetParent rbt x) = y then (y, x) else (x, y)
  let yCopy ← rbt.node y
  let rbt ← rbtSwapNodesPlaceY rbt x y
  let rbt ← rbtSwapNodesPlaceX rbt x y yCopy
  rbtSwapNodesCheck rbt x
  rbtSwapNodesCheck rbt y
  .ok rbt

omit [DecidableEq Addr] in
def rbtreeInitTree (rbt : Rbtree Addr Data) : Rbtree Addr Data := { rbt with root := none }

def rbtreeInitNode (rbt : Rbtree Addr Data) (node : Option Addr) : Outcome (Rbtree Addr Data) := do
  kassert (node ≠ none)
  let rbt := rbt.modify (← deref node) fun node =>
    { node with left := none, right := none, parent := none }
  rbtSetColour rbt node .red

/-- The common body of `rbt_rotate_left` and `rbt_rotate_right`: the old root
moves down to `side`. -/
def rbtRotate (side : Side) (rbt : Rbtree Addr Data) (oldRoot : Option Addr) :
    Outcome (Rbtree Addr Data) := do
  kassert (oldRoot ≠ none)
  let newRoot := (← rbt.node oldRoot).child side.other
  let rbt ← rbtReplaceSubtree rbt oldRoot newRoot
  let rbt ← rbt.setChild oldRoot side.other ((← rbt.node newRoot).child side)
  let rbt ← trySetParent rbt ((← rbt.node oldRoot).child side.other) oldRoot
  let rbt ← rbt.setChild newRoot side oldRoot
  rbtSetParent rbt oldRoot newRoot

def rbtRotateLeft (rbt : Rbtree Addr Data) (oldRoot : Option Addr) : Outcome (Rbtree Addr Data) :=
  rbtRotate .left rbt oldRoot

def rbtRotateRight (rbt : Rbtree Addr Data) (oldRoot : Option Addr) : Outcome (Rbtree Addr Data) :=
  rbtRotate .right rbt oldRoot

/-- The part of `rbt_insert_fix` for a red parent and a black uncle, up to the
second lookup of the parent: a triangle becomes a line.  Returns the lower node
of the two. -/
def rbtInsertFixTriangle (rbt : Rbtree Addr Data) (node parent : Option Addr) :
    Outcome (Rbtree Addr Data × Option Addr) := do
  let grandparent ← rbtGetGrandparent rbt node
  kassert (grandparent ≠ none)
  if node = (← rbt.node parent).right ∧ parent = (← rbt.node grandparent).left then
    let rbt ← rbtRotateLeft rbt parent
    .ok (rbt, (← rbt.node node).left)
  else if node = (← rbt.node parent).left ∧ parent = (← rbt.node grandparent).right then
    let rbt ← rbtRotateRight rbt parent
    .ok (rbt, (← rbt.node node).right)
  else .ok (rbt, node)

/-- The last part of `rbt_insert_fix`: node, parent and grandparent form a line. -/
def rbtInsertFixLine (rbt : Rbtree Addr Data) (node : Option Addr) : Outcome (Rbtree Addr Data) := do
  let parent ← rbtGetParent rbt node
  let grandparent ← rbtGetGrandparent rbt node
  kassert (parent ≠ none)
  kassert (grandparent ≠ none)
  let parentNode ← rbt.node parent
  let grandparentNode ← rbt.node grandparent
  let rbt ← (
    if node = parentNode.left ∧ parent = grandparentNode.left then rbtRotateRight rbt grandparent
    else if node = parentNode.right ∧ parent = grandparentNode.right then
      rbtRotateLeft rbt grandparent
    else .error .kassert)
  let rbt ← rbtSetColour rbt parent .black
  rbtSetColour rbt grandparent .red

/-- The loop of `rbt_insert_fix`. -/
def rbtInsertFix : (rounds : Nat) → Rbtree Addr Data → Option Addr → Outcome (Rbtree Addr Data)
  | 0, _, _ => .error .unfinished
  | rounds + 1, rbt, node => do
      let parent ← rbtGetParent rbt node
      if parent = none then rbtSetColour rbt node .black
      else if rbtGetColour rbt parent = .black then .ok rbt
      else
        let uncle ← rbtGetUncle rbt node
        if rbtGetColour rbt uncle = .red then
          let grandparent ← rbtGetGrandparent rbt node
          kassert (grandparent ≠ none)
          let rbt ← rbtSetColour rbt parent .black
          let rbt ← rbtSetColour rbt uncle .black
          let rbt ← rbtSetColour rbt grandparent .red
          rbtInsertFix rounds rbt grandparent
        else
          let (rbt, node) ← rbtInsertFixTriangle rbt node parent
          rbtInsertFixLine rbt node

omit [DecidableEq Addr] in
/-- The search of `rbtree_insert` for the place of a new node: the last node
passed, and the result of the last comparison. -/
def rbtreeInsertSearch (rbt : Rbtree Addr Data) (data : Data) (cmpf : RbtreeCmpFn Data) :
    (rounds : Nat) → (parent cursor : Option Addr) → (cmpResult : Int) →
      Outcome (Option Addr × Int)
  | _, parent, none, cmpResult => .ok (parent, cmpResult)
  | 0, _, some _, _ => .error .unfinished
  | rounds + 1, _, some cursor, _ => do
      let cmpResult ← cmpf (rbt.nodes cursor).data data
      let next := if cmpResult ≥ 0 then (rbt.nodes cursor).left else (rbt.nodes cursor).right
      rbtreeInsertSearch rbt data cmpf rounds (some cursor) next cmpResult

/-- The part of `rbtree_insert` that links the new node in. -/
def rbtreeInsertLink (rbt : Rbtree Addr Data) (new parent : Option Addr) (cmpResult : Int) :
    Outcome (Rbtree Addr Data) := do
  let rbt ← rbtSetParent rbt new parent
  if parent ≠ none then
    if cmpResult ≥ 0 then rbt.setChild parent .left new else rbt.setChild parent .right new
  else
    kassert (rbt.root = none)
    .ok { rbt with root := new }

def rbtreeInsert (rounds : Nat) (rbt : Rbtree Addr Data) (new : Option Addr)
    (cmpf : RbtreeCmpFn Data) : Outcome (Rbtree Addr Data) := do
  kassert (new ≠ none)
  let rbt ← rbtreeInitNode rbt new
  let (parent, cmpResult) ←
    rbtreeInsertSearch rbt (← rbt.node new).data cmpf rounds none rbt.root 0
  let rbt ← rbtreeInsertLink rbt new parent cmpResult
  rbtInsertFix rounds rbt new

omit [DecidableEq Addr] in
/-- The loop of `rbt_find_successor`. -/
def rbtFindSuccessorLoop (rbt : Rbtree Addr Data) : (rounds : Nat) → Option Addr →
    Outcome (Option Addr)
  | 0, _ => .error .unfinished
  | rounds + 1, n => do
      let right := (← rbt.node n).right
      if right = none then .ok n else rbtFindSuccessorLoop rbt rounds right

/-- The last node before `subtree` in the order of the tree. -/
def rbtFindSuccessor (rounds : Nat) (rbt : Rbtree Addr Data) (subtree : Option Addr) :
    Outcome (Option Addr) := do
  rbtFindSuccessorLoop rbt rounds (← rbt.node subtree).left

/-- The part of `rbt_delete_fix` for a red sibling. -/
def rbtDeleteFixRed (rbt : Rbtree Addr Data) (parent sibling : Option Addr) :
    Outcome (Rbtree Addr Data) := do
  kassert (rbtGetColour rbt parent = .black)
  let rbt ← (do
    if (← rbt.node parent).right = sibling then rbtRotateLeft rbt parent
    else rbtRotateRight rbt parent)
  let rbt ← rbtSetColour rbt sibling .black
  rbtSetColour rbt parent .red

/-- The part of `rbt_delete_fix` for a black sibling with a red child, up to the
second lookup of the sibling: the red child comes to lie away from the node. -/
def rbtDeleteFixTurn (rbt : Rbtree Addr Data) (node parent sibling : Option Addr) :
    Outcome (Rbtree Addr Data) := do
  let left := (← rbt.node sibling).left
  let right := (← rbt.node sibling).right
  if (← rbt.node parent).right = node ∧ rbtGetColour rbt left = .black ∧
      rbtGetColour rbt right = .red then
    let rbt ← rbtSetColour rbt sibling .red
    let rbt ← rbtSetColour rbt (← rbt.node sibling).right .black
    rbtRotateLeft rbt sibling
  else if (← rbt.node parent).left = node ∧ rbtGetColour rbt left = .red ∧
      rbtGetColour rbt right = .black then
    let rbt ← rbtSetColour rbt sibling .red
    let rbt ← rbtSetColour rbt (← rbt.node sibling).left .black
    rbtRotateRight rbt sibling
  else .ok rbt

/-- The last part of `rbt_delete_fix`, from the assertions on. -/
def rbtDeleteFixLast (rbt : Rbtree Addr Data) (node parent sibling : Option Addr) :
    Outcome (Rbtree Addr Data) := do
  kassert (rbtGetColour rbt sibling = .black)
  let siblingNode ← rbt.node sibling
  let parentNode ← rbt.node parent
  kassert ((rbtGetColour rbt siblingNode.left = .red ∧ node = parentNode.right) ∨
    (rbtGetColour rbt siblingNode.right = .red ∧ node = parentNode.left))
  let rbt ← rbtSetColour rbt sibling (rbtGetColour rbt parent)
  let rbt ← rbtSetColour rbt parent .black
  if (← rbt.node parent).right = node then
    kassert (rbtGetColour rbt (← rbt.node sibling).left = .red)
    let rbt ← rbtSetColour rbt (← rbt.node sibling).left .black
    rbtRotateRight rbt parent
  else
    kassert (rbtGetColour rbt (← rbt.node sibling).right = .red)
    let rbt ← rbtSetColour rbt (← rbt.node sibling).right .black
    rbtRotateLeft rbt parent

/-- The part of the loop body of `rbt_delete_fix` from the test of the sibling's
children on.  With the memory it returns the node to continue with, if any. -/
def rbtDeleteFixBlack (rbt : Rbtree Addr Data) (node parent sibling : Option Addr) :
    Outcome (Rbtree Addr Data × Option (Option Addr)) := do
  let siblingNode ← rbt.node sibling
  if rbtGetColour rbt sibling = .black ∧ rbtGetColour rbt siblingNode.left = .black ∧
      rbtGetColour rbt siblingNode.right = .black then
    if rbtGetColour rbt parent = .black then
      let rbt ← rbtSetColour rbt sibling .red
      .ok (rbt, some (← rbtGetParent rbt node))
    else
      let rbt ← rbtSetColour rbt sibling .red
      let rbt ← rbtSetColour rbt parent .black
      .ok (rbt, none)
  else
    let (rbt, parent, sibling) ← (if rbtGetColour rbt sibling = .black then do
        let rbt ← rbtDeleteFixTurn rbt node parent sibling
        let sibling ← rbtGetSibling rbt node
        .ok (rbt, ← rbtGetParent rbt node, sibling)
      else .ok (rbt, parent, sibling))
    let rbt ← rbtDeleteFixLast rbt node parent sibling
    .ok (rbt, none)

/-- The loop of `rbt_delete_fix`. -/
def rbtDeleteFix : (rounds : Nat) → Rbtree Addr Data → Option Addr → Outcome (Rbtree Addr Data)
  | 0, _, _ => .error .unfinished
  | rounds + 1, rbt, node => do
      let parent ← rbtGetParent rbt node
      if parent = none then .ok rbt
      else
        let sibling ← rbtGetSibling rbt node
        let (rbt, parent, sibling) ← (if rbtGetColour rbt sibling = .red then do
            let rbt ← rbtDeleteFixRed rbt parent sibling
            let parent ← rbtGetParent rbt node
            .ok (rbt, parent, ← rbtGetSibling rbt node)
          else .ok (rbt, parent, sibling))
        match ← rbtDeleteFixBlack rbt node parent sibling with
        | (rbt, none) => .ok rbt
        | (rbt, some node) => rbtDeleteFix rounds rbt node

/-- The part of `rbtree_delete` from the assertion on: the node has at most one
child. -/
def rbtreeDeleteUnlink (rounds : Nat) (rbt : Rbtree Addr Data) (deletee : Option Addr) :
    Outcome (Rbtree Addr Data) := do
  let node ← rbt.node deletee
  kassert (node.left = none ∨ node.right = none)
  let child := if node.right ≠ none then node.right else node.left
  let rbt ← (if rbtGetColour rbt deletee = .black then
      if rbtGetColour rbt child = .red then rbtSetColour rbt child .black
      else rbtDeleteFix rounds rbt deletee
    else .ok rbt)
  rbtReplaceSubtree rbt deletee child

def rbtreeDelete (rounds : Nat) (rbt : Rbtree Addr Data) (deletee : Option Addr) :
    Outcome (Rbtree Addr Data) := do
  let node ← rbt.node deletee
  let rbt ← (if node.left ≠ none ∧ node.right ≠ none then do
      let successor ← rbtFindSuccessor rounds rbt deletee
      rbtSwapNodes rbt deletee successor
    else .ok rbt)
  rbtreeDeleteUnlink rounds rbt deletee

omit [DecidableEq Addr] in
/-- The loop of `rbtree_search`. -/
def rbtreeSearchLoop (rbt : Rbtree Addr Data) (value : Data) (cmpf : RbtreeCmpFn Data) :
    (rounds : Nat) → (node : Option Addr) → Outcome (Option Addr)
  | _, none => .ok none
  | 0, some _ => .error .unfinished
  | rounds + 1, some node => do
      let c ← cmpf (rbt.nodes node).data value
      if c = 0 then .ok (some node)
      else if c > 0 then rbtreeSearchLoop rbt value cmpf rounds (rbt.nodes node).left
      else
        kassert (c < 0)
        rbtreeSearchLoop rbt value cmpf rounds (rbt.nodes node).right

omit [DecidableEq Addr] in
def rbtreeSearch (rounds : Nat) (rbt : Rbtree Addr Data) (value : Data)
    (cmpf : RbtreeCmpFn Data) : Outcome (Option Addr) :=
  rbtreeSearchLoop rbt value cmpf rounds rbt.root

omit [DecidableEq Addr] in
/-- A loop `while (keep(cmp_result) && next != NULL)` of the bounded searches: go
to the next node and compare it with the limit. -/
def rbtreeSearchWalk (rbt : Rbtree Addr Data) (limit : Data) (cmpf : RbtreeCmpFn Data)
    (keep : Int → Bool) (next : RbtreeNode Addr Data → Option Addr) :
    (rounds : Nat) → (cursor : Addr) → (cmpResult : Int) → Outcome (Addr × Int)
  | 0, _, _ => .error .unfinished
  | rounds + 1, cursor, cmpResult =>
      if keep cmpResult then
        match next (rbt.nodes cursor) with
        | none => .ok (cursor, cmpResult)
        | some cursor => do
            let cmpResult ← cmpf (rbt.nodes cursor).data limit
            rbtreeSearchWalk rbt limit cmpf keep next rounds cursor cmpResult
      else .ok (cursor, cmpResult)

omit [DecidableEq Addr] in
/-- The loop of `rbtree_search_min` that goes back up; it does not look for the
root. -/
def rbtreeSearchMinClimb (rbt : Rbtree Addr Data) (limit : Data) (cmpf : RbtreeCmpFn Data) :
    (rounds : Nat) → (cursor : Addr) → (cmpResult : Int) → Outcome Addr
  | 0, _, _ => .error .unfinished
  | rounds + 1, cursor, cmpResult =>
      if cmpResult < 0 then do
        let cursor ← deref (rbt.nodes cursor).parent
        let cmpResult ← cmpf (rbt.nodes cursor).data limit
        rbtreeSearchMinClimb rbt limit cmpf rounds cursor cmpResult
      else .ok cursor

omit [DecidableEq Addr] in
/-- The outer loop of `rbtree_search_min`. -/
def rbtreeSearchMinLoop (rbt : Rbtree Addr Data) (limit : Data) (cmpf : RbtreeCmpFn Data) :
    (rounds : Nat) → (cursor : Option Addr) → Outcome (Option Addr)
  | _, none => .ok none
  | 0, some _ => .error .unfinished
  | rounds + 1, some cursor => do
      let cmpResult ← cmpf (rbt.nodes cursor).data limit
      let (cursor, cmpResult) ←
        rbtreeSearchWalk rbt limit cmpf (· > 0) (·.left) (rounds + 1) cursor cmpResult
      let (cursor, cmpResult) ←
        rbtreeSearchWalk rbt limit cmpf (· < 0) (·.right) (rounds + 1) cursor cmpResult
      if cmpResult = 0 then .ok (some cursor)
      else if cmpResult < 0 ∧ (rbt.nodes cursor).right = none then do
        let cursor ← rbtreeSearchMinClimb rbt limit cmpf (rounds + 1) cursor cmpResult
        .ok (some cursor)
      else if cmpResult > 0 ∧ (rbt.nodes cursor).left = none then .ok (some cursor)
      else rbtreeSearchMinLoop rbt limit cmpf rounds (some cursor)

omit [DecidableEq Addr] in
def rbtreeSearchMin (rounds : Nat) (rbt : Rbtree Addr Data) (limit : Data)
    (cmpf : RbtreeCmpFn Data) : Outcome (Option Addr) :=
  rbtreeSearchMinLoop rbt limit cmpf rounds rbt.root

omit [DecidableEq Addr] in
/-- The outer loop of `rbtree_search_max`. -/
def rbtreeSearchMaxLoop (rbt : Rbtree Addr Data) (limit : Data) (cmpf : RbtreeCmpFn Data) :
    (rounds : Nat) → (cursor : Option Addr) → (cmpResult : Int) → Outcome (Option Addr × Int)
  | _, none, cmpResult => .ok (none, cmpResult)
  | 0, some _, _ => .error .unfinished
  | rounds + 1, some cursor, _ => do
      let cmpResult ← cmpf (rbt.nodes cursor).data limit
      let (cursor, cmpResult) ←
        rbtreeSearchWalk rbt limit cmpf (· < 0) (·.right) (rounds + 1) cursor cmpResult
      let (cursor, cmpResult) ←
        rbtreeSearchWalk rbt limit cmpf (· > 0) (·.left) (rounds + 1) cursor cmpResult
      if cmpResult = 0 then .ok (some cursor, cmpResult)
      else if cmpResult > 0 ∧ (rbt.nodes cursor).left = none then
        let (cursor, cmpResult) ←
          rbtreeSearchWalk rbt limit cmpf (· > 0) (·.parent) (rounds + 1) cursor cmpResult
        .ok (some cursor, cmpResult)
      else if cmpResult < 0 ∧ (rbt.nodes cursor).right = none then .ok (some cursor, cmpResult)
      else rbtreeSearchMaxLoop rbt limit cmpf rounds (some cursor) cmpResult

omit [DecidableEq Addr] in
def rbtreeSearchMax (rounds : Nat) (rbt : Rbtree Addr Data) (limit : Data)
    (cmpf : RbtreeCmpFn Data) : Outcome (Option Addr) := do
  let (cursor, cmpResult) ← rbtreeSearchMaxLoop rbt limit cmpf rounds rbt.root 0
  if cmpResult > 0 then .ok none else .ok cursor

/-- `bool (*fn)(void *elem, void *data)`: what it returns after its earlier calls. -/
abbrev RbtreeIterFn (Data : Type) := (calls : List Data) → (elem : Data) → Bool

/-- The loop of `rbtree_iter_range`.  It returns the nodes the function was called
with. -/
def rbtreeIterRangeLoop (rbt : Rbtree Addr Data) (valueTo : Data) (cmpf : RbtreeCmpFn Data)
    (fn : RbtreeIterFn Data) : (rounds : Nat) → (cursor prev : Option Addr) → (calls : List Addr) →
      Outcome (List Addr)
  | _, none, _, calls => .ok calls
  | 0, some _, _, _ => .error .unfinished
  | rounds + 1, some cursor, prev, calls => do
      let node := rbt.nodes cursor
      if prev = node.left then
        let c ← cmpf node.data valueTo
        if c > 0 then .ok calls
        else if fn (calls.map fun call => (rbt.nodes call).data) node.data = false then
          .ok (calls ++ [cursor])
        else
          let next := if node.right ≠ none then node.right else node.parent
          rbtreeIterRangeLoop rbt valueTo cmpf fn rounds next (some cursor) (calls ++ [cursor])
      else if prev = node.right then
        rbtreeIterRangeLoop rbt valueTo cmpf fn rounds node.parent (some cursor) calls
      else if node.left ≠ none then
        rbtreeIterRangeLoop rbt valueTo cmpf fn rounds node.left (some cursor) calls
      else rbtreeIterRangeLoop rbt valueTo cmpf fn rounds (some cursor) node.left calls

def rbtreeIterRange (rounds : Nat) (rbt : Rbtree Addr Data) (valueFrom valueTo : Data)
    (cmpf : RbtreeCmpFn Data) (fn : RbtreeIterFn Data) : Outcome (List Addr) := do
  kassert ((← cmpf valueFrom valueTo) < 0)
  let cursor ← rbtreeSearchMin rounds rbt valueFrom cmpf
  let prev := (← rbt.node cursor).left
  rbtreeIterRangeLoop rbt valueTo cmpf fn rounds cursor prev []

end Yaeos
