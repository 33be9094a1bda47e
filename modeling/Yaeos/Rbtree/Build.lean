import Yaeos.Rbtree.Basic

/-!
# The code of the red-black tree in an arbitrary build (`lib/ds/rbtree.c`)

`NDEBUG` selects how a node keeps its parent and its colour, and whether a
`kassert` does anything.  `RbtreeNodeBuild` has the four accessors and the plain
fields of a node, `RbtreeBuild` the memory and the assertions; the code above
them is the same text in every build.
-/

namespace Yaeos

class RbtreeNodeBuild (Node : Type) (Addr Data : outParam Type) where
  data : Node → Data
  child : Node → Side → Option Addr
  setChild : Node → Side → Option Addr → Node
  /-- `left`, `right` and `parent` are set to `NULL`, the last one as a plain field. -/
  clearLinks : Node → Node
  setColour : Node → RbtreeColour → Node
  getColour : Node → RbtreeColour
  setParent : Node → Option Addr → Node
  getParent : Node → Option Addr

class RbtreeBuild (Memory : Type) (Node Addr : outParam Type) where
  root : Memory → Option Addr
  setRoot : Memory → Option Addr → Memory
  nodes : Memory → Addr → Node
  modify : Memory → Addr → (Node → Node) → Memory
  /-- What is left of a `kassert` with this condition in the build of the memory. -/
  assertion : Memory → Outcome Unit → Outcome Unit

namespace RbtreeBuild

open RbtreeNodeBuild

variable {Memory Node Addr Data : Type} [RbtreeBuild Memory Node Addr]
  [RbtreeNodeBuild Node Addr Data]

omit [RbtreeNodeBuild Node Addr Data] in
/-- The node behind a pointer. -/
def node (rbt : Memory) (pointer : Option Addr) : Outcome Node := do
  .ok (nodes rbt (← deref pointer))

omit [RbtreeNodeBuild Node Addr Data] in
/-- A change of the node behind a pointer. -/
def update (rbt : Memory) (pointer : Option Addr) (change : Node → Node) : Outcome Memory := do
  .ok (modify rbt (← deref pointer) change)

def storeChild (rbt : Memory) (pointer : Option Addr) (side : Side)
    (target : Option Addr) : Outcome Memory :=
  update rbt pointer fun node => setChild node side target

def rbtSetColour (rbt : Memory) (n : Option Addr) (c : RbtreeColour) : Outcome Memory := do
  assertion rbt (kassert (n ≠ none))
  update rbt n fun node => setColour node c

def rbtGetColour (rbt : Memory) : Option Addr → RbtreeColour
  | none => .black
  | some n => getColour (nodes rbt n)

def rbtSetParent (rbt : Memory) (node parent : Option Addr) : Outcome Memory := do
  assertion rbt (kassert (node ≠ none))
  update rbt node fun node => setParent node parent

def rbtGetParent (rbt : Memory) (pointer : Option Addr) : Outcome (Option Addr) := do
  assertion rbt (kassert (pointer ≠ none))
  .ok (getParent (← node rbt pointer))

def rbtGetGrandparent (rbt : Memory) (pointer : Option Addr) : Outcome (Option Addr) := do
  assertion rbt (kassert (pointer ≠ none))
  let parent ← rbtGetParent rbt pointer
  assertion rbt (kassert (parent ≠ none))
  let grandparent ← rbtGetParent rbt parent
  assertion rbt (kassert (grandparent ≠ none))
  .ok grandparent

variable [DecidableEq Addr]

def rbtGetSibling (rbt : Memory) (pointer : Option Addr) : Outcome (Option Addr) := do
  assertion rbt (kassert (pointer ≠ none))
  let parent ← rbtGetParent rbt pointer
  assertion rbt (kassert (parent ≠ none))
  let parent ← node rbt parent
  if child parent .left = pointer then .ok (child parent .right) else .ok (child parent .left)

def rbtGetUncle (rbt : Memory) (node : Option Addr) : Outcome (Option Addr) := do
  assertion rbt (kassert (node ≠ none))
  let parent ← rbtGetParent rbt node
  assertion rbt (kassert (parent ≠ none))
  assertion rbt (do kassert ((← rbtGetParent rbt parent) ≠ none))
  rbtGetSibling rbt parent

omit [DecidableEq Addr] in
def trySetParent (rbt : Memory) (node parent : Option Addr) : Outcome Memory :=
  if node ≠ none then rbtSetParent rbt node parent else .ok rbt

def replaceChild (rbt : Memory) (parent replacee replacement : Option Addr) : Outcome Memory := do
  if child (← node rbt parent) .left = replacee then storeChild rbt parent .left replacement
  else storeChild rbt parent .right replacement

def rbtReplaceSubtree (rbt : Memory) (replacee replacement : Option Addr) : Outcome Memory := do
  let replaceeParent ← rbtGetParent rbt replacee
  let rbt ← (if replaceeParent ≠ none then replaceChild rbt replaceeParent replacee replacement
    else .ok (setRoot rbt replacement))
  trySetParent rbt replacement replaceeParent

def rbtSwapNodesParent (rbt : Memory) (node replacement parent : Option Addr) : Outcome Memory :=
  if parent ≠ none then do
    let rbt ← replaceChild rbt parent node replacement
    rbtSetParent rbt replacement parent
  else do
    assertion rbt (kassert (root rbt = node))
    let rbt ← rbtSetParent rbt replacement none
    .ok (setRoot rbt replacement)

def rbtSwapNodesPlaceY (rbt : Memory) (x y : Option Addr) : Outcome Memory := do
  let rbt ← trySetParent rbt (child (← node rbt x) .left) y
  let rbt ← trySetParent rbt (child (← node rbt x) .right) y
  let rbt ← rbtSwapNodesParent rbt x y (← rbtGetParent rbt x)
  let left := child (← node rbt x) .left
  let rbt ← storeChild rbt y .left (if left ≠ y then left else x)
  let right := child (← node rbt x) .right
  let rbt ← storeChild rbt y .right (if right ≠ y then right else x)
  rbtSetColour rbt y (rbtGetColour rbt x)

def rbtSwapNodesPlaceX (rbt : Memory) (x y : Option Addr) (yCopy : Node) : Outcome Memory := do
  let rbt ← trySetParent rbt (child yCopy .left) x
  let rbt ← trySetParent rbt (child yCopy .right) x
  let rbt ← (if getParent yCopy ≠ x then rbtSwapNodesParent rbt y x (getParent yCopy)
    else rbtSetParent rbt x y)
  let rbt ← storeChild rbt x .left (child yCopy .left)
  let rbt ← storeChild rbt x .right (child yCopy .right)
  rbtSetColour rbt x (getColour yCopy)

/-- The assertions at the end of `rbt_swap_nodes`, for one of the two nodes. -/
def rbtSwapNodesCheck (rbt : Memory) (x : Option Addr) : Outcome Unit :=
  assertion rbt (do
    let xNode ← node rbt x
    if child xNode .left ≠ none then kassert ((← rbtGetParent rbt (child xNode .left)) = x)
    if child xNode .right ≠ none then kassert ((← rbtGetParent rbt (child xNode .right)) = x)
    let parent ← rbtGetParent rbt x
    if parent ≠ none then
      kassert (child (← node rbt parent) .left = x ∨ child (← node rbt parent) .right = x))

def rbtSwapNodes (rbt : Memory) (x y : Option Addr) : Outcome Memory := do
  assertion rbt (kassert (x ≠ none))
  assertion rbt (kassert (y ≠ none))
  let (x, y) := if (← rbtGetParent rbt x) = y then (y, x) else (x, y)
  let yCopy ← node rbt y
  let rbt ← rbtSwapNodesPlaceY rbt x y
  let rbt ← rbtSwapNodesPlaceX rbt x y yCopy
  rbtSwapNodesCheck rbt x
  rbtSwapNodesCheck rbt y
  .ok rbt

omit [RbtreeNodeBuild Node Addr Data] [DecidableEq Addr] in
def rbtreeInitTree (rbt : Memory) : Memory := setRoot rbt none

omit [DecidableEq Addr] in
def rbtreeInitNode (rbt : Memory) (node : Option Addr) : Outcome Memory := do
  assertion rbt (kassert (node ≠ none))
  let rbt ← update rbt node clearLinks
  rbtSetColour rbt node .red

def rbtRotate (side : Side) (rbt : Memory) (oldRoot : Option Addr) : Outcome Memory := do
  assertion rbt (kassert (oldRoot ≠ none))
  let newRoot := child (← node rbt oldRoot) side.other
  let rbt ← rbtReplaceSubtree rbt oldRoot newRoot
  let rbt ← storeChild rbt oldRoot side.other (child (← node rbt newRoot) side)
  let rbt ← trySetParent rbt (child (← node rbt oldRoot) side.other) oldRoot
  let rbt ← storeChild rbt newRoot side oldRoot
  rbtSetParent rbt oldRoot newRoot

def rbtRotateLeft (rbt : Memory) (oldRoot : Option Addr) : Outcome Memory :=
  rbtRotate .left rbt oldRoot

def rbtRotateRight (rbt : Memory) (oldRoot : Option Addr) : Outcome Memory :=
  rbtRotate .right rbt oldRoot

def rbtInsertFixTriangle (rbt : Memory) (new parent : Option Addr) :
    Outcome (Memory × Option Addr) := do
  let grandparent ← rbtGetGrandparent rbt new
  assertion rbt (kassert (grandparent ≠ none))
  if new = child (← node rbt parent) .right ∧ parent = child (← node rbt grandparent) .left then
    let rbt ← rbtRotateLeft rbt parent
    .ok (rbt, child (← node rbt new) .left)
  else if new = child (← node rbt parent) .left ∧
      parent = child (← node rbt grandparent) .right then
    let rbt ← rbtRotateRight rbt parent
    .ok (rbt, child (← node rbt new) .right)
  else .ok (rbt, new)

def rbtInsertFixLine (rbt : Memory) (new : Option Addr) : Outcome Memory := do
  let parent ← rbtGetParent rbt new
  let grandparent ← rbtGetGrandparent rbt new
  assertion rbt (kassert (parent ≠ none))
  assertion rbt (kassert (grandparent ≠ none))
  let parentNode ← node rbt parent
  let grandparentNode ← node rbt grandparent
  let rbt ← (
    if new = child parentNode .left ∧ parent = child grandparentNode .left then
      rbtRotateRight rbt grandparent
    else if new = child parentNode .right ∧ parent = child grandparentNode .right then
      rbtRotateLeft rbt grandparent
    else do
      assertion rbt (.error .kassert)
      .ok rbt)
  let rbt ← rbtSetColour rbt parent .black
  rbtSetColour rbt grandparent .red

def rbtInsertFix : (rounds : Nat) → Memory → Option Addr → Outcome Memory
  | 0, _, _ => .error .unfinished
  | rounds + 1, rbt, node => do
      let parent ← rbtGetParent rbt node
      if parent = none then rbtSetColour rbt node .black
      else if rbtGetColour rbt parent = .black then .ok rbt
      else
        let uncle ← rbtGetUncle rbt node
        if rbtGetColour rbt uncle = .red then
          let grandparent ← rbtGetGrandparent rbt node
          assertion rbt (kassert (grandparent ≠ none))
          let rbt ← rbtSetColour rbt parent .black
          let rbt ← rbtSetColour rbt uncle .black
          let rbt ← rbtSetColour rbt grandparent .red
          rbtInsertFix rounds rbt grandparent
        else
          let (rbt, node) ← rbtInsertFixTriangle rbt node parent
          rbtInsertFixLine rbt node

omit [DecidableEq Addr] in
def rbtreeInsertSearch (rbt : Memory) (external : Data) (cmpf : RbtreeCmpFn Data) :
    (rounds : Nat) → (parent cursor : Option Addr) → (cmpResult : Int) →
      Outcome (Option Addr × Int)
  | _, parent, none, cmpResult => .ok (parent, cmpResult)
  | 0, _, some _, _ => .error .unfinished
  | rounds + 1, _, some cursor, _ => do
      let cmpResult ← cmpf (data (nodes rbt cursor)) external
      let next := if cmpResult ≥ 0 then child (nodes rbt cursor) .left
        else child (nodes rbt cursor) .right
      rbtreeInsertSearch rbt external cmpf rounds (some cursor) next cmpResult

def rbtreeInsertLink (rbt : Memory) (new parent : Option Addr) (cmpResult : Int) :
    Outcome Memory := do
  let rbt ← rbtSetParent rbt new parent
  if parent ≠ none then
    if cmpResult ≥ 0 then storeChild rbt parent .left new else storeChild rbt parent .right new
  else
    assertion rbt (kassert (root rbt = none))
    .ok (setRoot rbt new)

def rbtreeInsert (rounds : Nat) (rbt : Memory) (new : Option Addr) (cmpf : RbtreeCmpFn Data) :
    Outcome Memory := do
  assertion rbt (kassert (new ≠ none))
  let rbt ← rbtreeInitNode rbt new
  let newNode ← node rbt new
  let (parent, cmpResult) ←
    rbtreeInsertSearch rbt (data newNode) cmpf rounds none (root rbt) 0
  let rbt ← rbtreeInsertLink rbt new parent cmpResult
  rbtInsertFix rounds rbt new

omit [DecidableEq Addr] in
def rbtFindSuccessorLoop (rbt : Memory) : (rounds : Nat) → Option Addr → Outcome (Option Addr)
  | 0, _ => .error .unfinished
  | rounds + 1, n => do
      let right := child (← node rbt n) .right
      if right = none then .ok n else rbtFindSuccessorLoop rbt rounds right

omit [DecidableEq Addr] in
def rbtFindSuccessor (rounds : Nat) (rbt : Memory) (subtree : Option Addr) :
    Outcome (Option Addr) := do
  rbtFindSuccessorLoop rbt rounds (child (← node rbt subtree) .left)

def rbtDeleteFixRed (rbt : Memory) (parent sibling : Option Addr) : Outcome Memory := do
  assertion rbt (kassert (rbtGetColour rbt parent = .black))
  let rbt ← (do
    if child (← node rbt parent) .right = sibling then rbtRotateLeft rbt parent
    else rbtRotateRight rbt parent)
  let rbt ← rbtSetColour rbt sibling .black
  rbtSetColour rbt parent .red

def rbtDeleteFixTurn (rbt : Memory) (n parent sibling : Option Addr) : Outcome Memory := do
  let left := child (← node rbt sibling) .left
  let right := child (← node rbt sibling) .right
  if child (← node rbt parent) .right = n ∧ rbtGetColour rbt left = .black ∧
      rbtGetColour rbt right = .red then
    let rbt ← rbtSetColour rbt sibling .red
    let rbt ← rbtSetColour rbt (child (← node rbt sibling) .right) .black
    rbtRotateLeft rbt sibling
  else if child (← node rbt parent) .left = n ∧ rbtGetColour rbt left = .red ∧
      rbtGetColour rbt right = .black then
    let rbt ← rbtSetColour rbt sibling .red
    let rbt ← rbtSetColour rbt (child (← node rbt sibling) .left) .black
    rbtRotateRight rbt sibling
  else .ok rbt

def rbtDeleteFixLast (rbt : Memory) (n parent sibling : Option Addr) : Outcome Memory := do
  assertion rbt (kassert (rbtGetColour rbt sibling = .black))
  assertion rbt (do
    let siblingNode ← node rbt sibling
    let parentNode ← node rbt parent
    kassert ((rbtGetColour rbt (child siblingNode .left) = .red ∧ n = child parentNode .right) ∨
      (rbtGetColour rbt (child siblingNode .right) = .red ∧ n = child parentNode .left)))
  let rbt ← rbtSetColour rbt sibling (rbtGetColour rbt parent)
  let rbt ← rbtSetColour rbt parent .black
  if child (← node rbt parent) .right = n then
    assertion rbt (do kassert (rbtGetColour rbt (child (← node rbt sibling) .left) = .red))
    let rbt ← rbtSetColour rbt (child (← node rbt sibling) .left) .black
    rbtRotateRight rbt parent
  else
    assertion rbt (do kassert (rbtGetColour rbt (child (← node rbt sibling) .right) = .red))
    let rbt ← rbtSetColour rbt (child (← node rbt sibling) .right) .black
    rbtRotateLeft rbt parent

def rbtDeleteFixBlack (rbt : Memory) (n parent sibling : Option Addr) :
    Outcome (Memory × Option (Option Addr)) := do
  let siblingNode ← node rbt sibling
  if rbtGetColour rbt sibling = .black ∧ rbtGetColour rbt (child siblingNode .left) = .black ∧
      rbtGetColour rbt (child siblingNode .right) = .black then
    if rbtGetColour rbt parent = .black then
      let rbt ← rbtSetColour rbt sibling .red
      .ok (rbt, some (← rbtGetParent rbt n))
    else
      let rbt ← rbtSetColour rbt sibling .red
      let rbt ← rbtSetColour rbt parent .black
      .ok (rbt, none)
  else
    let (rbt, parent, sibling) ← (if rbtGetColour rbt sibling = .black then do
        let rbt ← rbtDeleteFixTurn rbt n parent sibling
        let sibling ← rbtGetSibling rbt n
        .ok (rbt, ← rbtGetParent rbt n, sibling)
      else .ok (rbt, parent, sibling))
    let rbt ← rbtDeleteFixLast rbt n parent sibling
    .ok (rbt, none)

def rbtDeleteFix : (rounds : Nat) → Memory → Option Addr → Outcome Memory
  | 0, _, _ => .error .unfinished
  | rounds + 1, rbt, node => do
      let parent ← rbtGetParent rbt node
      if parent = none then .ok rbt
      else
        let sibling ← rbtGetSibling rbt node
        let (rbt, parent, sibling) ← (if rbtGetColour rbt sibling = .red then do
            let rbt ← rbtDeleteFixRed rbt parent sibling
            let parent ← rbtGetParent rbt node
            .ok (rbt, parent, ← rbtGetSibling rbt node)
          else .ok (rbt, parent, sibling))
        match ← rbtDeleteFixBlack rbt node parent sibling with
        | (rbt, none) => .ok rbt
        | (rbt, some node) => rbtDeleteFix rounds rbt node

def rbtreeDeleteUnlink (rounds : Nat) (rbt : Memory) (deletee : Option Addr) :
    Outcome Memory := do
  let deleteeNode ← node rbt deletee
  assertion rbt (kassert (child deleteeNode .left = none ∨ child deleteeNode .right = none))
  let heir := if child deleteeNode .right ≠ none then child deleteeNode .right
    else child deleteeNode .left
  let rbt ← (if rbtGetColour rbt deletee = .black then
      if rbtGetColour rbt heir = .red then rbtSetColour rbt heir .black
      else rbtDeleteFix rounds rbt deletee
    else .ok rbt)
  rbtReplaceSubtree rbt deletee heir

def rbtreeDelete (rounds : Nat) (rbt : Memory) (deletee : Option Addr) : Outcome Memory := do
  let deleteeNode ← node rbt deletee
  let rbt ← (if child deleteeNode .left ≠ none ∧ child deleteeNode .right ≠ none then do
      let successor ← rbtFindSuccessor rounds rbt deletee
      rbtSwapNodes rbt deletee successor
    else .ok rbt)
  rbtreeDeleteUnlink rounds rbt deletee

end RbtreeBuild

/-! ## The debug build -/

instance (Addr Data : Type) : RbtreeNodeBuild (RbtreeNode Addr Data) Addr Data where
  data := RbtreeNode.data
  child := RbtreeNode.child
  setChild := RbtreeNode.setChild
  clearLinks node := { node with left := none, right := none, parent := none }
  setColour := RbtreeNode.setColour
  getColour := RbtreeNode.colour
  setParent := RbtreeNode.setParent
  getParent := RbtreeNode.parent

instance (Addr Data : Type) [DecidableEq Addr] :
    RbtreeBuild (Rbtree Addr Data) (RbtreeNode Addr Data) Addr where
  root := Rbtree.root
  setRoot rbt root := { rbt with root := root }
  nodes := Rbtree.nodes
  modify := Rbtree.modify
  assertion _ condition := condition

namespace RbtreeBuild

variable {Addr Data : Type} [DecidableEq Addr] (rounds : Nat) (rbt : Rbtree Addr Data)
  (x y z : Option Addr)

theorem debug_initNode : rbtreeInitNode rbt x = Yaeos.rbtreeInitNode rbt x := by
  cases x <;> rfl

theorem debug_getUncle : rbtGetUncle rbt x = Yaeos.rbtGetUncle rbt x := by
  simp only [rbtGetUncle, Yaeos.rbtGetUncle, assertion, bind_assoc]
  rfl

theorem debug_insertFix : rbtInsertFix rounds rbt x = Yaeos.rbtInsertFix rounds rbt x := by
  induction rounds generalizing rbt x with
  | zero => rfl
  | succ rounds inductionHypothesis =>
      rw [rbtInsertFix, Yaeos.rbtInsertFix]
      simp only [inductionHypothesis, debug_getUncle]
      rfl

theorem debug_insertSearch (external : Data) (cmpf : RbtreeCmpFn Data) (cmpResult : Int) :
    rbtreeInsertSearch rbt external cmpf rounds x y cmpResult =
      Yaeos.rbtreeInsertSearch rbt external cmpf rounds x y cmpResult := by
  induction rounds generalizing x y cmpResult with
  | zero => cases y <;> rfl
  | succ rounds inductionHypothesis =>
      cases y with
      | none => rfl
      | some cursor =>
          rw [rbtreeInsertSearch, Yaeos.rbtreeInsertSearch]
          simp only [inductionHypothesis]
          rfl

theorem debug_insert (cmpf : RbtreeCmpFn Data) :
    rbtreeInsert rounds rbt x cmpf = Yaeos.rbtreeInsert rounds rbt x cmpf := by
  simp only [rbtreeInsert, Yaeos.rbtreeInsert, debug_initNode, debug_insertSearch,
    debug_insertFix]
  rfl

theorem debug_findSuccessorLoop :
    rbtFindSuccessorLoop rbt rounds x = Yaeos.rbtFindSuccessorLoop rbt rounds x := by
  induction rounds generalizing x with
  | zero => rfl
  | succ rounds inductionHypothesis =>
      rw [rbtFindSuccessorLoop, Yaeos.rbtFindSuccessorLoop]
      simp only [inductionHypothesis]
      rfl

theorem debug_deleteFixLast : rbtDeleteFixLast rbt x y z = Yaeos.rbtDeleteFixLast rbt x y z := by
  simp only [rbtDeleteFixLast, Yaeos.rbtDeleteFixLast, assertion, bind_assoc]
  rfl

theorem debug_deleteFixBlack : rbtDeleteFixBlack rbt x y z = Yaeos.rbtDeleteFixBlack rbt x y z := by
  simp only [rbtDeleteFixBlack, Yaeos.rbtDeleteFixBlack, debug_deleteFixLast]
  rfl

theorem debug_deleteFix : rbtDeleteFix rounds rbt x = Yaeos.rbtDeleteFix rounds rbt x := by
  induction rounds generalizing rbt x with
  | zero => rfl
  | succ rounds inductionHypothesis =>
      rw [rbtDeleteFix, Yaeos.rbtDeleteFix]
      simp only [inductionHypothesis, debug_deleteFixBlack]
      refine bind_congr fun parent => if_congr Iff.rfl rfl ?_
      refine bind_congr fun sibling => bind_congr fun found => bind_congr fun result => ?_
      obtain ⟨next, _ | above⟩ := result <;> rfl

theorem debug_delete : rbtreeDelete rounds rbt x = Yaeos.rbtreeDelete rounds rbt x := by
  simp only [rbtreeDelete, rbtreeDeleteUnlink, Yaeos.rbtreeDelete, Yaeos.rbtreeDeleteUnlink,
    rbtFindSuccessor, Yaeos.rbtFindSuccessor, debug_findSuccessorLoop, debug_deleteFix]
  rfl

end RbtreeBuild

end Yaeos
