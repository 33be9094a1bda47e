import Yaeos.Rbtree.Swap
import Yaeos.Rbtree.Insert

/-!
# Deletion

The fix-up runs while the node to be deleted is still in the tree: the paths
through it are going to be short of one black node, and it climbs until the
context makes up for it.  What changes is the context of the node only.
-/

namespace Yaeos

namespace Ctx

variable {Key : Type} {first second : Ctx Key}

/-- The same keys on either side of the hole. -/
structure SameKeys (first second : Ctx Key) : Prop where
  before : second.before = first.before
  after : second.after = first.after

theorem SameKeys.refl (ctx : Ctx Key) : SameKeys ctx ctx := ⟨rfl, rfl⟩

theorem SameKeys.trans {third : Ctx Key} (one : SameKeys first second)
    (two : SameKeys second third) : SameKeys first third :=
  ⟨two.before.trans one.before, two.after.trans one.after⟩

theorem SameKeys.frame (outer : SameKeys first second) {side : Side} {old new : Colour} {key : Key}
    {sibling sibling' : Tree Key} (inner : sibling'.inorder = sibling.inorder) :
    SameKeys (frame side old key sibling first) (frame side new key sibling' second) := by
  cases side
  · exact ⟨outer.before, by simp [Ctx.after, inner, outer.after]⟩
  · exact ⟨by simp [Ctx.before, inner, outer.before], outer.after⟩

/-- A rotation above the hole keeps what is on either side of it. -/
theorem sameKeys_rotate (side : Side) (old lower upper new : Colour) (key pivot : Key)
    (near far far' : Tree Key) (outer : Ctx Key) (same : far'.inorder = far.inorder) :
    SameKeys (frame side old key (.branch side lower near pivot far) outer)
      (frame side upper key near (frame side new pivot far' outer)) := by
  cases side <;> exact ⟨by simp [before, Tree.branch, Tree.inorder, same],
    by simp [after, Tree.branch, Tree.inorder, same]⟩

end Ctx

namespace Rbtree

variable {Addr Data : Type} [DecidableEq Addr] {rbt next : Rbtree Addr Data} {ctx outer : Ctx Addr}
  {tree near far sibling : Tree Addr} {side : Side} {colour : Colour} {key parent pivot : Addr}
  {height rounds : Nat}

/-- A red sibling goes above the parent. -/
theorem Focus.deleteFixRed
    (focus : rbt.Focus (.frame side .black parent (.branch side .red near pivot far) outer) tree)
    (rooted : tree.root = some key) :
    ∃ next, rbtDeleteFixRed rbt (some parent) (some pivot) = .ok next ∧
      next.Focus (.frame side .red parent near (.frame side .black pivot far outer)) tree ∧
      SameData rbt next := by
  have up := focus_frame.mp focus
  have parentHere := up.near_eq
  have parentThere := up.far_eq
  have differ := up.far_ne rooted
  rw [Tree.root_branch] at parentThere
  rw [rooted] at parentHere
  obtain ⟨rotated, rotate, focusRotated, dataRotated⟩ := up.rotate
  obtain ⟨first, paintPivot, focusPivot, dataPivot⟩ := focusRotated.setColour .black
  obtain ⟨next, paintParent, focusParent, dataParent⟩ :=
    (focus_frame.mpr focusPivot).setColour .red
  refine ⟨next, ?_, focus_frame.mpr focusParent, (dataRotated.trans dataPivot).trans dataParent⟩
  have parentRead : rbtGetColour rbt (some parent) = .black := up.colour_eq
  cases side
  · have right : (rbt.nodes parent).right = some pivot := parentThere
    have turn : rbtRotateLeft rbt (some parent) = .ok rotated := rotate
    simp [rbtDeleteFixRed, parentRead, right, turn, paintPivot, paintParent]
  · have right : (rbt.nodes parent).right = some key := parentHere
    have left : (rbt.nodes parent).left = some pivot := parentThere
    have notPivot : key ≠ pivot := fun same => differ (same ▸ parentThere)
    have turn : rbtRotateRight rbt (some parent) = .ok rotated := rotate
    simp [rbtDeleteFixRed, parentRead, right, notPivot, turn, paintPivot, paintParent]

/-- A red child of the sibling that lies next to the node is turned outwards. -/
theorem Focus.deleteFixTurn {nearColour farColour : Colour}
    (focus : rbt.Focus (.frame side colour parent (.branch side .black near pivot far) outer) tree)
    (rooted : tree.root = some key) (nearBalanced : near.Balanced nearColour height)
    (farBalanced : far.Balanced farColour height)
    (someRed : nearColour = .red ∨ farColour = .red) :
    ∃ next near' pivot' far' nearColour',
      rbtDeleteFixTurn rbt (some key) (some parent) (some pivot) = .ok next ∧
      next.Focus (.frame side colour parent (.branch side .black near' pivot' far') outer) tree ∧
      near'.Balanced nearColour' height ∧ far'.Balanced .red height ∧
      (Tree.branch side .black near' pivot' far').inorder =
        (Tree.branch side .black near pivot far).inorder ∧ SameData rbt next := by
  have up := focus_frame.mp focus
  have parentHere := up.near_eq
  have differ := up.far_ne rooted
  rw [rooted] at parentHere
  have focusSibling := focus_sibling.mp focus
  obtain ⟨⟨nearLink, farLink, -⟩, nearHolds, farHolds⟩ := holds_branch.mp focusSibling.holds
  have nearRead := rbtGetColour_root nearHolds
  have farRead := rbtGetColour_root farHolds
  rw [nearBalanced.colour_eq] at nearRead
  rw [farBalanced.colour_eq] at farRead
  cases farColour with
  | red =>
      refine ⟨rbt, near, pivot, far, nearColour, ?_, focus, nearBalanced, farBalanced, rfl,
        .refl rbt⟩
      cases side
      · have notRight : (rbt.nodes parent).right ≠ some key := differ
        have right : (rbt.nodes pivot).right = far.root := farLink
        simp [rbtDeleteFixTurn, notRight, right, farRead]
      · have notLeft : (rbt.nodes parent).left ≠ some key := differ
        have left : (rbt.nodes pivot).left = far.root := farLink
        simp [rbtDeleteFixTurn, notLeft, left, farRead]
  | black =>
      obtain rfl : nearColour = .red := by simpa using someRed
      obtain ⟨inner, turned, middle, rfl, innerBlack, middleBlack⟩ := nearBalanced.exists_red side
      obtain ⟨first, paintPivot, focusPivot, dataPivot⟩ := focusSibling.setColour .red
      obtain ⟨second, paintTurned, focusTurned, dataTurned⟩ :=
        (focus_frame.mpr focusPivot).setColour .black
      have lower := focus_frame.mp focusTurned
      rw [← Tree.branch_other, ← Tree.branch_other side .black] at lower
      obtain ⟨next, rotate, focusNext, dataNext⟩ := lower.rotate
      rw [Tree.branch_other, Tree.branch_other] at focusNext
      refine ⟨next, inner, turned, _, .black, ?_, focus_sibling.mpr focusNext, innerBlack,
        middleBlack.branchRed farBalanced, ?_, (dataPivot.trans dataTurned).trans dataNext⟩
      · have turnedLink := focusPivot.near_eq
        rw [Tree.root_branch] at nearLink nearRead turnedLink
        cases side
        · have notRight : (rbt.nodes parent).right ≠ some key := differ
          have left : (rbt.nodes parent).left = some key := parentHere
          have pivotLeft : (rbt.nodes pivot).left = some turned := nearLink
          have pivotRight : (rbt.nodes pivot).right = far.root := farLink
          have firstLeft : (first.nodes pivot).left = some turned := turnedLink
          have turn : rbtRotateRight second (some pivot) = .ok next := rotate
          simp [rbtDeleteFixTurn, notRight, left, pivotLeft, pivotRight, nearRead, farRead,
            paintPivot, firstLeft, paintTurned, turn]
        · have right : (rbt.nodes parent).right = some key := parentHere
          have pivotRight : (rbt.nodes pivot).right = some turned := nearLink
          have pivotLeft : (rbt.nodes pivot).left = far.root := farLink
          have firstRight : (first.nodes pivot).right = some turned := turnedLink
          have turn : rbtRotateLeft second (some pivot) = .ok next := rotate
          simp [rbtDeleteFixTurn, right, pivotLeft, pivotRight, nearRead, farRead,
            paintPivot, firstRight, paintTurned, turn]
      · cases side <;> simp [Tree.branch, Tree.inorder]

/-- With a red child away from the node, the sibling goes above the parent and
the paths through the node gain a black node. -/
theorem Focus.deleteFixLast
    (focus : rbt.Focus (.frame side colour parent (.branch side .black near pivot far) outer) tree)
    (rooted : tree.root = some key) (farBalanced : far.Balanced .red height) :
    ∃ next far', rbtDeleteFixLast rbt (some key) (some parent) (some pivot) = .ok next ∧
      next.Focus (.frame side .black parent near (.frame side colour pivot far' outer)) tree ∧
      far'.Balanced .black (height + 1) ∧ far'.inorder = far.inorder ∧ SameData rbt next := by
  have up := focus_frame.mp focus
  have parentHere := up.near_eq
  have differ := up.far_ne rooted
  rw [rooted] at parentHere
  have focusSibling := focus_sibling.mp focus
  obtain ⟨⟨-, farLink, -, pivotColour⟩, -, farHolds⟩ := holds_branch.mp focusSibling.holds
  have farRead := rbtGetColour_root farHolds
  rw [farBalanced.colour_eq] at farRead
  obtain ⟨farNear, farKey, farFar, rfl, farNearBlack, farFarBlack⟩ := farBalanced.exists_red .left
  -- sibling, parent and far child are recoloured, one after the other
  obtain ⟨first, paintPivot, focusPivot, dataPivot⟩ := focusSibling.setColour colour
  obtain ⟨second, paintParent, focusParent, dataParent⟩ :=
    (focus_frame.mp (focus_sibling.mpr focusPivot)).setColour .black
  have focusFar := focus_sibling.mp (focus_frame.mpr (focus_sibling.mp (focus_frame.mpr focusParent)))
  have secondHere := focusParent.near_eq
  have secondDiffer := focusParent.far_ne rooted
  rw [rooted] at secondHere
  have secondFar := (focus_frame.mp (focus_sibling.mpr focusFar)).far_eq
  have secondFarRead := rbtGetColour_root focusFar.holds
  obtain ⟨third, paintFar, focusPainted, dataFar⟩ := focusFar.setColour .black
  obtain ⟨next, rotate, focusNext, dataNext⟩ :=
    (focus_frame.mp (focus_sibling.mpr (focus_frame.mp (focus_sibling.mpr focusPainted)))).rotate
  refine ⟨next, _, ?_, focus_frame.mpr (focus_frame.mpr focusNext),
    farNearBlack.branchBlack farFarBlack, Tree.inorder_recolour .., ?_⟩
  · have pivotRead : rbtGetColour rbt (some pivot) = .black := pivotColour
    have parentRead : rbtGetColour rbt (some parent) = colour := up.colour_eq
    rw [Tree.root_branch] at farLink farRead secondFar secondFarRead
    rw [Tree.colour_branch] at secondFarRead
    cases side
    · have left : (rbt.nodes parent).left = some key := parentHere
      have pivotRight : (rbt.nodes pivot).right = some farKey := farLink
      have notRight : (second.nodes parent).right ≠ some key := secondDiffer
      have secondRight : (second.nodes pivot).right = some farKey := secondFar
      have turn : rbtRotateLeft third (some parent) = .ok next := rotate
      simp [rbtDeleteFixLast, pivotRead, left, pivotRight, farRead, parentRead, paintPivot,
        paintParent, notRight, secondRight, secondFarRead, paintFar, turn]
    · have right : (rbt.nodes parent).right = some key := parentHere
      have pivotLeft : (rbt.nodes pivot).left = some farKey := farLink
      have secondRight : (second.nodes parent).right = some key := secondHere
      have secondLeft : (second.nodes pivot).left = some farKey := secondFar
      have turn : rbtRotateRight third (some parent) = .ok next := rotate
      simp [rbtDeleteFixLast, pivotRead, right, pivotLeft, farRead, parentRead, paintPivot,
        paintParent, secondRight, secondLeft, secondFarRead, paintFar, turn]
  · exact ((dataPivot.trans dataParent).trans dataFar).trans dataNext

/-- What the test of the sibling's children leads to: either the context makes up
for the black node, or the sibling turns red and the parent is one short. -/
theorem Focus.deleteFixBlack
    (focus : rbt.Focus (.frame side colour parent sibling outer) tree) (rooted : tree.root = some key)
    (around : (Ctx.frame side colour parent sibling outer).Balanced (height + 1))
    (siblingBlack : sibling.colour = .black) :
    ∃ next, (rbtDeleteFixBlack rbt (some key) (some parent) sibling.root = .ok (next, none) ∧
        ∃ inner, next.Focus inner tree ∧ inner.Balanced height ∧
          Ctx.SameKeys (.frame side colour parent sibling outer) inner ∧ SameData rbt next) ∨
      (rbtDeleteFixBlack rbt (some key) (some parent) sibling.root =
          .ok (next, some (some parent)) ∧ colour = .black ∧
        ∃ reddened, next.Focus (.frame side .black parent reddened outer) tree ∧
          reddened.Balanced .red height ∧ outer.Balanced (height + 2) ∧
          reddened.inorder = sibling.inorder ∧ SameData rbt next) := by
  have siblingBalanced : sibling.Balanced .black (height + 1) := by
    cases around with
    | red balanced => exact balanced
    | black balanced => rwa [← siblingBlack, balanced.colour_eq]
  obtain ⟨near, pivot, far, nearColour, farColour, rfl, nearBalanced, farBalanced⟩ :=
    siblingBalanced.exists_black side
  obtain ⟨keyColour, keyNear, keyFar, rfl⟩ := Tree.exists_branch .left rooted
  have parentLink := focus.parent_eq
  simp only [Ctx.parent] at parentLink
  have focusSibling := focus_sibling.mp focus
  obtain ⟨⟨nearLink, farLink, -, pivotColour⟩, nearHolds, farHolds⟩ :=
    holds_branch.mp focusSibling.holds
  have pivotRead : rbtGetColour rbt (some pivot) = .black := pivotColour
  have parentRead : rbtGetColour rbt (some parent) = colour := (focus_frame.mp focus).colour_eq
  have nearRead := rbtGetColour_root nearHolds
  have farRead := rbtGetColour_root farHolds
  rw [nearBalanced.colour_eq] at nearRead
  rw [farBalanced.colour_eq] at farRead
  have bothBlack : (rbtGetColour rbt (rbt.nodes pivot).left = .black ∧
      rbtGetColour rbt (rbt.nodes pivot).right = .black) ↔
      nearColour = .black ∧ farColour = .black := by
    cases side
    · have left : (rbt.nodes pivot).left = near.root := nearLink
      have right : (rbt.nodes pivot).right = far.root := farLink
      rw [left, right, nearRead, farRead]
    · have right : (rbt.nodes pivot).right = near.root := nearLink
      have left : (rbt.nodes pivot).left = far.root := farLink
      rw [left, right, nearRead, farRead, and_comm]
  rw [Tree.root_branch]
  by_cases black : nearColour = .black ∧ farColour = .black
  · obtain ⟨rfl, rfl⟩ := black
    obtain ⟨first, paintPivot, focusPivot, dataPivot⟩ := focusSibling.setColour .red
    have down := focus_sibling.mpr focusPivot
    have same : (Tree.branch side .red near pivot far).inorder =
        (Tree.branch side .black near pivot far).inorder := Tree.inorder_recolour ..
    have reddened : (Tree.branch side .red near pivot far).Balanced .red height :=
      nearBalanced.branchRed farBalanced
    cases around with
    | black _ above =>
        refine ⟨first, .inr ⟨?_, rfl, _, down, reddened, above, same, dataPivot⟩⟩
        have firstLink : (first.nodes key).parent = some parent := down.parent_eq
        simp [rbtDeleteFixBlack, pivotRead, bothBlack.mpr ⟨rfl, rfl⟩, parentRead, paintPivot,
          firstLink]
    | red _ above blackAbove =>
        obtain ⟨next, paintParent, focusParent, dataParent⟩ :=
          (focus_frame.mp down).setColour .black
        refine ⟨next, .inl ⟨?_, _, focus_frame.mpr focusParent, .black reddened above,
          .frame (.refl outer) same, dataPivot.trans dataParent⟩⟩
        simp [rbtDeleteFixBlack, pivotRead, bothBlack.mpr ⟨rfl, rfl⟩, parentRead, paintPivot,
          paintParent]
  · have someRed : nearColour = .red ∨ farColour = .red := by
      cases nearColour <;> cases farColour <;> simp_all
    obtain ⟨turned, near', pivot', far', nearColour', turn, focusTurned, nearBalanced', farRed,
      sameTurned, dataTurned⟩ :=
      focus.deleteFixTurn rooted nearBalanced farBalanced someRed
    have turnedSibling := focusTurned.sibling_eq rooted
    have turnedParent : (turned.nodes key).parent = some parent := focusTurned.parent_eq
    obtain ⟨next, farBlack, last, focusNext, farBalanced', sameFar, dataNext⟩ :=
      focusTurned.deleteFixLast rooted farRed
    refine ⟨next, .inl ⟨?_, _, focusNext, ?_, ?_, dataTurned.trans dataNext⟩⟩
    · rw [Tree.root_branch] at turnedSibling
      simp [rbtDeleteFixBlack, pivotRead, bothBlack, black, turn, turnedSibling, turnedParent, last]
    · refine .black nearBalanced' ?_
      cases around with
      | black _ above => exact .black farBalanced' above
      | red _ above blackAbove => exact .red farBalanced' above blackAbove
    · exact (Ctx.SameKeys.frame (.refl outer) sameTurned).trans
        (Ctx.sameKeys_rotate side colour .black .black colour parent pivot' near' far' farBlack
          outer sameFar)

end Rbtree

section

variable {Addr Data : Type} [DecidableEq Addr]

/-- The part of the loop body of `rbt_delete_fix` up to the test of the sibling's
children: the parent and the sibling after it. -/
def rbtDeleteFixSibling (rbt : Rbtree Addr Data) (node parent : Option Addr) :
    Outcome (Rbtree Addr Data × Option Addr × Option Addr) := do
  let sibling ← rbtGetSibling rbt node
  if rbtGetColour rbt sibling = .red then
    let rbt ← rbtDeleteFixRed rbt parent sibling
    let parent ← rbtGetParent rbt node
    .ok (rbt, parent, ← rbtGetSibling rbt node)
  else .ok (rbt, parent, sibling)

/-- The loop body of `rbt_delete_fix` for a node that is not the root. -/
def rbtDeleteFixRound (rbt : Rbtree Addr Data) (node parent : Option Addr) :
    Outcome (Rbtree Addr Data × Option (Option Addr)) := do
  let found ← rbtDeleteFixSibling rbt node parent
  rbtDeleteFixBlack found.1 node found.2.1 found.2.2

/-- The first part of `rbtree_delete`: a node with two children trades places with
the last node of its left subtree. -/
def rbtreeDeleteSwap (rounds : Nat) (rbt : Rbtree Addr Data) (deletee : Option Addr) :
    Outcome (Rbtree Addr Data) := do
  let node ← rbt.node deletee
  if node.left ≠ none ∧ node.right ≠ none then
    let successor ← rbtFindSuccessor rounds rbt deletee
    rbtSwapNodes rbt deletee successor
  else .ok rbt

theorem rbtDeleteFix_succ (rounds : Nat) (rbt : Rbtree Addr Data) (node : Option Addr) :
    rbtDeleteFix (rounds + 1) rbt node = (do
      let parent ← rbtGetParent rbt node
      if parent = none then .ok rbt
      else
        let result ← rbtDeleteFixRound rbt node parent
        result.2.elim (.ok result.1) (rbtDeleteFix rounds result.1)) := by
  rw [rbtDeleteFix]
  refine congrArg _ (funext fun parent => ?_)
  split
  · rfl
  · simp only [rbtDeleteFixRound, rbtDeleteFixSibling, bind_assoc]
    congr! 4 with sibling found
    refine congrArg _ (funext fun ⟨next, above⟩ => ?_)
    cases above <;> rfl

theorem rbtreeDelete_eq (rounds : Nat) (rbt : Rbtree Addr Data) (deletee : Option Addr) :
    rbtreeDelete rounds rbt deletee = (do
      let rbt ← rbtreeDeleteSwap rounds rbt deletee
      rbtreeDeleteUnlink rounds rbt deletee) := by
  cases deletee with
  | none => rfl
  | some deletee => rfl

end

namespace Rbtree

variable {Addr Data : Type} [DecidableEq Addr] {rbt next : Rbtree Addr Data} {ctx outer : Ctx Addr}
  {tree near far sibling : Tree Addr} {side : Side} {colour : Colour} {key parent pivot : Addr}
  {height rounds : Nat}

/-- After the test of the sibling's colour the sibling is black. -/
theorem Focus.deleteFixSibling
    (focus : rbt.Focus (.frame side colour parent sibling outer) tree) (rooted : tree.root = some key)
    (around : (Ctx.frame side colour parent sibling outer).Balanced (height + 1)) :
    ∃ next newColour near above,
      rbtDeleteFixSibling rbt (some key) (some parent) = .ok (next, some parent, near.root) ∧
      next.Focus (.frame side newColour parent near above) tree ∧
      (Ctx.frame side newColour parent near above).Balanced (height + 1) ∧ near.colour = .black ∧
      Ctx.SameKeys (.frame side colour parent sibling outer)
        (.frame side newColour parent near above) ∧ SameData rbt next ∧
      (newColour = .black → near = sibling ∧ above = outer) := by
  have siblingEq := focus.sibling_eq rooted
  have siblingRead := rbtGetColour_root (focus_sibling.mp focus).holds
  cases siblingColour : sibling.colour with
  | red =>
      -- the parent is black, and red after the rotation
      rw [siblingColour] at siblingRead
      obtain ⟨rfl, above, siblingRed⟩ : colour = .black ∧ outer.Balanced (height + 2) ∧
          sibling.Balanced .red (height + 1) := by
        cases around with
        | red balanced => rw [balanced.colour_eq] at siblingColour; cases siblingColour
        | black balanced above =>
            rw [balanced.colour_eq] at siblingColour
            exact ⟨rfl, above, siblingColour ▸ balanced⟩
      obtain ⟨near, pivot, far, rfl, nearBlack, farBlack⟩ := siblingRed.exists_red side
      obtain ⟨next, turn, focusNext, data⟩ := focus.deleteFixRed rooted
      have nextSibling := focusNext.sibling_eq rooted
      obtain ⟨keyColour, keyNear, keyFar, rfl⟩ := Tree.exists_branch .left rooted
      have nextParent : (next.nodes key).parent = some parent := focusNext.parent_eq
      refine ⟨next, .red, near, .frame side .black pivot far outer, ?_, focusNext,
        .red nearBlack (.black farBlack above) rfl, nearBlack.colour_eq,
        Ctx.sameKeys_rotate side .black .red .red .black parent pivot near far far outer rfl, data,
        nofun⟩
      rw [Tree.root_branch] at siblingEq siblingRead
      simp [rbtDeleteFixSibling, siblingEq, siblingRead, turn, nextParent, nextSibling]
  | black =>
      rw [siblingColour] at siblingRead
      refine ⟨rbt, colour, sibling, outer, ?_, focus, around, siblingColour, .refl _, .refl _,
        fun _ => ⟨rfl, rfl⟩⟩
      simp [rbtDeleteFixSibling, siblingEq, siblingRead]

/-- One round either makes the context accept one black node less, or climbs to the
parent, which then is one short. -/
theorem Focus.deleteFixRound
    (focus : rbt.Focus (.frame side colour parent sibling outer) tree) (rooted : tree.root = some key)
    (around : (Ctx.frame side colour parent sibling outer).Balanced (height + 1)) :
    ∃ next, (rbtDeleteFixRound rbt (some key) (some parent) = .ok (next, none) ∧
        ∃ inner, next.Focus inner tree ∧ inner.Balanced height ∧
          Ctx.SameKeys (.frame side colour parent sibling outer) inner ∧ SameData rbt next) ∨
      (rbtDeleteFixRound rbt (some key) (some parent) = .ok (next, some (some parent)) ∧
        ∃ reddened, next.Focus (.frame side .black parent reddened outer) tree ∧
          reddened.Balanced .red height ∧ outer.Balanced (height + 2) ∧
          reddened.inorder = sibling.inorder ∧ SameData rbt next) := by
  obtain ⟨first, newColour, near, above, found, focusFirst, aroundFirst, nearBlack, sameFirst,
    dataFirst, kept⟩ := focus.deleteFixSibling rooted around
  obtain ⟨next, result⟩ := focusFirst.deleteFixBlack rooted aroundFirst nearBlack
  refine ⟨next, ?_⟩
  rcases result with ⟨black, inner, focusNext, balanced, same, data⟩ |
    ⟨black, isBlack, reddened, focusNext, redBalanced, aboveBalanced, sameSibling, data⟩
  · refine .inl ⟨?_, inner, focusNext, balanced, sameFirst.trans same, dataFirst.trans data⟩
    simp [rbtDeleteFixRound, found, black]
  · obtain ⟨rfl, rfl⟩ := kept isBlack
    refine .inr ⟨?_, reddened, focusNext, redBalanced, aboveBalanced, sameSibling,
      dataFirst.trans data⟩
    simp [rbtDeleteFixRound, found, black]

/-- The fix-up ends; it keeps the tree below the node and the sequence around it,
and the context now accepts one black node less. -/
theorem Focus.deleteFix (focus : rbt.Focus ctx tree) (rooted : tree.root = some key)
    (around : ctx.Balanced (height + 1)) (enough : ctx.depth < rounds) :
    ∃ next inner, rbtDeleteFix rounds rbt (some key) = .ok next ∧ next.Focus inner tree ∧
      inner.Balanced height ∧ Ctx.SameKeys ctx inner ∧ SameData rbt next := by
  induction rounds generalizing rbt ctx tree key height with
  | zero => cases enough
  | succ rounds inductionHypothesis =>
      obtain ⟨keyColour, keyNear, keyFar, rfl⟩ := Tree.exists_branch .left rooted
      have parentLink := focus.parent_eq
      cases ctx with
      | top =>
          simp only [Ctx.parent] at parentLink
          exact ⟨rbt, .top, by simp [rbtDeleteFix_succ, parentLink], focus, .top, .refl _, .refl _⟩
      | frame side colour parent sibling outer =>
          simp only [Ctx.parent] at parentLink
          obtain ⟨next, result⟩ := focus.deleteFixRound rooted around
          rcases result with ⟨round, inner, focusNext, balanced, same, data⟩ |
            ⟨round, reddened, focusNext, redBalanced, above, sameSibling, data⟩
          · refine ⟨next, inner, ?_, focusNext, balanced, same, data⟩
            simp [rbtDeleteFix_succ, parentLink, round]
          · obtain ⟨final, inner, fixed, focusFinal, balanced, same, dataFinal⟩ :=
              inductionHypothesis (focus_frame.mp focusNext) (Tree.root_branch ..) above
                (by simp only [Ctx.depth] at enough; omega)
            refine ⟨final, .frame side .black parent reddened inner, ?_,
              focus_frame.mpr focusFinal, .black redBalanced balanced,
              .frame same sameSibling, data.trans dataFinal⟩
            simp [rbtDeleteFix_succ, parentLink, round, fixed]

omit [DecidableEq Addr] in
/-- The last node of a subtree, by its right links. -/
theorem Focus.findSuccessorLoop (focus : rbt.Focus ctx tree) (rooted : tree.root = some key)
    (enough : tree.inorder.length ≤ rounds) :
    ∃ last colour left inner, rbtFindSuccessorLoop rbt rounds (some key) = .ok (some last) ∧
      rbt.Focus inner (.node colour left last .nil) ∧
      inner.plug (.node colour left last .nil) = ctx.plug tree ∧ inner.after = ctx.after ∧
      last ∈ tree.inorder ∧
      (inner.parent = ctx.parent ∨ ∃ above ∈ tree.inorder, inner.parent = some above) := by
  induction rounds generalizing ctx tree key with
  | zero =>
      have member := Tree.mem_of_root rooted
      rw [List.length_eq_zero_iff.mp (Nat.le_zero.mp enough)] at member
      cases member
  | succ rounds inductionHypothesis =>
      obtain ⟨colour, left, right, rfl⟩ := Tree.exists_branch .left rooted
      have rightLink : (rbt.nodes key).right = right.root := focus.far_eq
      cases rightCase : right.root with
      | none =>
          obtain rfl := Tree.root_eq_none.mp rightCase
          rw [rightCase] at rightLink
          refine ⟨key, colour, left, ctx, ?_, focus, rfl, rfl, by simp, .inl rfl⟩
          simp [rbtFindSuccessorLoop, rightLink]
      | some child =>
          rw [rightCase] at rightLink
          have down : rbt.Focus (.frame .right colour key left ctx) right := focus_frame.mpr focus
          have shorter : right.inorder.length ≤ rounds := by
            simp only [Tree.branch, Tree.inorder, List.length_append, List.length_cons] at enough
            omega
          obtain ⟨last, lastColour, lastLeft, inner, found, focusLast, samePlug, sameAfter,
            member, above⟩ := inductionHypothesis down rightCase shorter
          refine ⟨last, lastColour, lastLeft, inner, ?_, focusLast, samePlug, sameAfter,
            by simp [member], .inr ?_⟩
          · simpa [rbtFindSuccessorLoop, rightLink] using found
          · rcases above with same | ⟨other, otherMember, same⟩
            · exact ⟨key, by simp, same⟩
            · exact ⟨other, by simp [otherMember], same⟩

/-- A node without a far child is replaced by its near subtree. -/
theorem Focus.splice {subtree : Tree Addr}
    (focus : rbt.Focus ctx (.branch side colour subtree key .nil)) :
    ∃ next, rbtReplaceSubtree rbt (some key) subtree.root = .ok next ∧ next.Focus ctx subtree ∧
      SameData rbt next := by
  obtain ⟨-, subtreeHolds, -⟩ := holds_branch.mp focus.holds
  obtain ⟨inside, above, apart⟩ := Ctx.nodup_plug.mp focus.nodup
  obtain ⟨⟨⟨notBelow, -⟩, subtreeNodup, -⟩, -, subtreeApart, -⟩ := focus.distinct
  obtain ⟨next, replace, around, nodes, data⟩ := focus.replaceSubtree (Tree.root_branch ..)
    subtree.root fun addr rooted => subtreeApart (Tree.mem_of_root rooted)
  refine ⟨next, replace, ⟨around, ?_, Ctx.nodup_plug.mpr ⟨subtreeNodup, above, subtreeApart⟩⟩, data⟩
  exact subtreeHolds.reparent subtreeNodup fun addr member => nodes addr (subtreeApart member)

/-- Which child takes the place of a node without a far child. -/
theorem Focus.deleteUnlink_eq {subtree : Tree Addr}
    (focus : rbt.Focus ctx (.branch side colour subtree key .nil)) :
    rbtreeDeleteUnlink rounds rbt (some key) = (do
      let rbt ← (if colour = .black then
          if subtree.colour = .red then rbtSetColour rbt subtree.root .black
          else rbtDeleteFix rounds rbt (some key)
        else .ok rbt)
      rbtReplaceSubtree rbt (some key) subtree.root) := by
  obtain ⟨⟨nearLink, farLink, -, sameColour⟩, subtreeHolds, -⟩ := holds_branch.mp focus.holds
  have keyRead : rbtGetColour rbt (some key) = colour := sameColour
  have subtreeRead := rbtGetColour_root subtreeHolds
  cases side
  · have left : (rbt.nodes key).left = subtree.root := nearLink
    have right : (rbt.nodes key).right = none := farLink
    simp [rbtreeDeleteUnlink, left, right, keyRead, subtreeRead]
  · have right : (rbt.nodes key).right = subtree.root := nearLink
    have left : (rbt.nodes key).left = none := farLink
    cases rooted : subtree.root with
    | none =>
        rw [rooted] at right subtreeRead
        simp [rbtreeDeleteUnlink, left, right, keyRead, subtreeRead]
    | some child =>
        rw [rooted] at right subtreeRead
        simp [rbtreeDeleteUnlink, left, right, keyRead, subtreeRead]

/-- A node with at most one child is unlinked: its child takes its place, after
the fix-up if no other node can make up for it. -/
theorem Focus.unlink {subtree : Tree Addr}
    (focus : rbt.Focus ctx (.branch side colour subtree key .nil)) {total : Nat}
    (balanced : (ctx.plug (.branch side colour subtree key .nil)).Balanced .black total)
    (enough : ctx.depth < rounds) :
    ∃ next, rbtreeDeleteUnlink rounds rbt (some key) = .ok next ∧
      Restored rbt next (ctx.before ++ subtree.inorder ++ ctx.after) := by
  rw [focus.deleteUnlink_eq]
  obtain ⟨height, nodeColour, around, node, compatible⟩ := Ctx.balanced_of_plug balanced
  cases colour with
  | red =>
      rw [Tree.balanced_branch_red] at node
      obtain ⟨rfl, nearBalanced, farBalanced⟩ := node
      cases farBalanced
      obtain ⟨next, splice, focusNext, data⟩ := focus.splice
      obtain ⟨_, whole⟩ := around.plug nearBalanced nofun
      refine ⟨next, by simp [splice], ?_⟩
      rw [← Ctx.inorder_plug]
      exact focusNext.restored data whole
  | black =>
      rw [Tree.balanced_branch_black] at node
      obtain ⟨rfl, lower, nearColour, farColour, rfl, nearBalanced, farBalanced⟩ := node
      cases farBalanced
      rw [nearBalanced.colour_eq]
      cases nearColour with
      | red =>
          -- the red child takes over the black colour
          obtain ⟨near, childKey, far, rfl, nearBlack, farBlack⟩ := nearBalanced.exists_red .left
          obtain ⟨painted, paint, focusPainted, dataPainted⟩ :=
            (focus_frame.mpr focus).setColour .black
          obtain ⟨next, splice, focusNext, data⟩ := (focus_frame.mp focusPainted).splice
          have childBlack : (Tree.branch .left .black near childKey far).Balanced .black 1 :=
            nearBlack.branchBlack farBlack
          obtain ⟨_, whole⟩ := around.plug childBlack nofun
          rw [Tree.root_branch] at splice
          refine ⟨next, ?_, ?_⟩
          · simp [paint, splice]
          · rw [Tree.inorder_recolour .left .red .black, ← Ctx.inorder_plug]
            exact focusNext.restored (dataPainted.trans data) whole
      | black =>
          cases nearBalanced
          obtain ⟨fixed, inner, fix, focusFixed, aroundFixed, same, dataFixed⟩ :=
            focus.deleteFix (Tree.root_branch ..) around enough
          obtain ⟨next, splice, focusNext, data⟩ := focusFixed.splice
          obtain ⟨_, whole⟩ := aroundFixed.plug .nil nofun
          refine ⟨next, ?_, ?_⟩
          · simp [fix, splice]
          · rw [← same.before, ← same.after, ← Ctx.inorder_plug]
            exact focusNext.restored (dataFixed.trans data) whole

/-- Swapping neighbours and then dropping the first of the two places drops the
second of the two elements. -/
theorem map_swap_neighbours {x y : Addr} {before after : List Addr}
    (nodup : (before ++ y :: x :: after).Nodup) :
    (before ++ x :: after).map (Equiv.swap x y) = (before ++ y :: x :: after).erase x := by
  simp only [List.nodup_append, List.nodup_cons, List.mem_cons] at nodup
  obtain ⟨-, ⟨yNot, xNotAfter, -⟩, apart⟩ := nodup
  have fixed : ∀ list : List Addr, (∀ addr ∈ list, addr ≠ x ∧ addr ≠ y) →
      list.map (Equiv.swap x y) = list := by
    intro list outside
    rw [List.map_congr_left fun addr member =>
      Equiv.swap_apply_of_ne_of_ne (outside addr member).1 (outside addr member).2]
    exact List.map_id' list
  have beforeFixed := fixed before fun addr member =>
    ⟨apart addr member x (by simp), apart addr member y (by simp)⟩
  have afterFixed := fixed after fun addr member =>
    ⟨fun same => xNotAfter (same ▸ member), fun same => yNot (.inr (same ▸ member))⟩
  have notBefore : x ∉ before := fun member => apart x member x (by simp) rfl
  have different : (y == x) = false := beq_eq_false_iff_ne.mpr fun same => yNot (.inl same)
  rw [List.map_append, List.map_cons, beforeFixed, afterFixed, Equiv.swap_apply_left,
    List.erase_append_right _ notBefore, List.erase_cons_tail (by simp [different]),
    List.erase_cons_head]

/-- After the first part of `rbtree_delete` the node has at most one child; its place
in the tree and the place of the node it may have traded with are next to each other. -/
theorem Focus.deleteSwap (focus : rbt.Focus .top tree) (member : key ∈ tree.inorder)
    (enough : tree.inorder.length < rounds) :
    ∃ next ctx side colour subtree, rbtreeDeleteSwap rounds rbt (some key) = .ok next ∧
      next.Focus ctx (.branch side colour subtree key .nil) ∧ SameData rbt next ∧
      ctx.depth < rounds ∧
      ctx.before ++ subtree.inorder ++ ctx.after = tree.inorder.erase key ∧
      ∀ total, tree.Balanced .black total →
        (ctx.plug (.branch side colour subtree key .nil)).Balanced .black total := by
  obtain ⟨ctx, colour, left, right, here, samePlug⟩ := focus.at_key member
  obtain ⟨⟨leftLink, rightLink, parentLink, -⟩, -⟩ := here.holds
  have nodup : tree.inorder.Nodup := focus.nodup
  have sequence : tree.inorder = (ctx.before ++ left.inorder) ++ key ::
      (right.inorder ++ ctx.after) := by
    rw [← samePlug]
    exact ctx.inorder_plug_node ..
  have shallow : ∀ inner : Ctx Addr, ∀ subtree, inner.plug subtree = tree → inner.depth < rounds := by
    intro inner subtree same
    have deep := inner.depth_add_le subtree
    rw [same] at deep
    omega
  by_cases both : left.root ≠ none ∧ right.root ≠ none
  · -- the node trades places with the last node of its left subtree
    obtain ⟨leftRoot, leftRooted⟩ := Option.ne_none_iff_exists'.mp both.1
    have down : rbt.Focus (.frame .left colour key right ctx) left := focus_frame.mpr here
    obtain ⟨⟨⟨keyNotLeft, -⟩, -⟩, keyNotAbove, leftApart, -⟩ :=
      (focus_frame.mp down).distinct
    have shortLeft : left.inorder.length ≤ rounds := by
      rw [sequence] at enough
      simp only [List.length_append] at enough
      omega
    obtain ⟨last, lastColour, lastLeft, inner, found, focusLast, sameWhole, sameAfter, lastMember,
      above⟩ := down.findSuccessorLoop leftRooted shortLeft
    have whole : inner.plug (.node lastColour lastLeft last .nil) = tree := sameWhole.trans samePlug
    have different : key ≠ last := fun same => keyNotLeft (same ▸ lastMember)
    have lastParent : ∃ other, (rbt.nodes last).parent = some other ∧ other ∉ ctx.keys := by
      have link : (rbt.nodes last).parent = inner.parent := focusLast.holds.1.2.2.1
      rcases above with same | ⟨other, otherMember, same⟩
      · exact ⟨key, link.trans same, keyNotAbove⟩
      · exact ⟨other, link.trans same, leftApart otherMember⟩
    obtain ⟨other, otherParent, otherNotAbove⟩ := lastParent
    have lastInTree : last ∈ tree.inorder :=
      whole ▸ Ctx.mem_plug.mpr (.inl (by simp [Tree.inorder]))
    obtain ⟨swapped, swap, focusSwapped, dataSwapped⟩ := focus.swapNodes member lastInTree different
      (fun link => leftApart lastMember (Ctx.parent_mem (parentLink.symm.trans link)))
      otherParent
      (fun same => otherNotAbove (Ctx.parent_mem (parentLink.symm.trans (same.trans otherParent))))
    have place : tree.map (Equiv.swap key last) = (inner.map (Equiv.swap key last)).plug
        (.branch .left lastColour (lastLeft.map (Equiv.swap key last)) key .nil) := by
      rw [← whole, Ctx.map_plug, Tree.map, Equiv.swap_apply_right]
      rfl
    rw [place, ← focus_plug] at focusSwapped
    refine ⟨swapped, _, .left, _, _, ?_, focusSwapped, dataSwapped, ?_, ?_, fun total balanced =>
      place ▸ balanced.map _⟩
    · have present : (rbt.nodes key).left ≠ none ∧ (rbt.nodes key).right ≠ none := by
        rw [leftLink, rightLink]
        exact both
      have successor : rbtFindSuccessor rounds rbt (some key) = .ok (some last) := by
        simp [rbtFindSuccessor, leftLink, leftRooted, found]
      simp [rbtreeDeleteSwap, present, successor, swap]
    · rw [Ctx.depth_map]
      exact shallow inner _ whole
    · have split : tree.inorder = (inner.before ++ lastLeft.inorder) ++ last :: key ::
          (right.inorder ++ ctx.after) := by
        rw [← whole, Ctx.inorder_plug, sameAfter]
        simp [Tree.inorder, Ctx.after]
      rw [Ctx.before_map, Ctx.after_map, Tree.inorder_map, ← List.map_append, ← List.map_append,
        sameAfter]
      rw [split] at nodup ⊢
      rw [← map_swap_neighbours nodup]
      simp [Ctx.after]
  · have absent : ¬((rbt.nodes key).left ≠ none ∧ (rbt.nodes key).right ≠ none) := by
      rw [leftLink, rightLink]
      exact both
    have skipped : rbtreeDeleteSwap rounds rbt (some key) = .ok rbt := by
      simp only [rbtreeDeleteSwap, node_some, Outcome.ok_bind, if_neg absent]
    have erased : ctx.before ++ (left.inorder ++ right.inorder) ++ ctx.after =
        tree.inorder.erase key := by
      rw [sequence] at nodup ⊢
      have notBefore : key ∉ ctx.before ++ left.inorder := fun inBefore =>
        (List.nodup_append'.mp nodup).2.2 inBefore (by simp)
      rw [List.erase_append_right _ notBefore, List.erase_cons_head]
      simp
    by_cases noRight : right.root = none
    · obtain rfl := Tree.root_eq_none.mp noRight
      exact ⟨rbt, ctx, .left, colour, left, skipped, here, .refl rbt, shallow ctx _ samePlug,
        by simpa [Tree.inorder] using erased, fun total balanced => samePlug ▸ balanced⟩
    · have noLeft : left.root = none := by
        by_contra present
        exact both ⟨present, noRight⟩
      obtain rfl := Tree.root_eq_none.mp noLeft
      exact ⟨rbt, ctx, .right, colour, right, skipped, here, .refl rbt, shallow ctx _ samePlug,
        by simpa [Tree.inorder] using erased, fun total balanced => samePlug ▸ balanced⟩

/-- `rbtree_delete` of a node of the tree. -/
theorem Focus.delete (focus : rbt.Focus .top tree) {total : Nat}
    (balanced : tree.Balanced .black total) (member : key ∈ tree.inorder)
    (enough : tree.inorder.length < rounds) :
    ∃ next, rbtreeDelete rounds rbt (some key) = .ok next ∧
      Restored rbt next (tree.inorder.erase key) := by
  obtain ⟨swapped, ctx, side, colour, subtree, swap, here, dataSwapped, shallow, sequence,
    stillBalanced⟩ := focus.deleteSwap member enough
  obtain ⟨next, unlinked, restored⟩ := here.unlink (stillBalanced total balanced) shallow
  rw [sequence] at restored
  refine ⟨next, ?_, Restored.trans dataSwapped restored⟩
  rw [rbtreeDelete_eq, swap, Outcome.ok_bind, unlinked]

end Rbtree

end Yaeos
