import Yaeos.Rbtree.Focus
import Yaeos.Tree.Balance

/-!
# Insertion

The fix-up climbs with a red node whose parent may be red as well.  Everything
else is balanced: the subtrees of the node, and the context, which would accept
a black subtree of the same height.
-/

namespace Yaeos

namespace Rbtree

variable {Addr Data : Type} {rbt next : Rbtree Addr Data} {ctx outer : Ctx Addr}
  {tree near far other uncle : Tree Addr} {side frameSide outerSide : Side} {colour : Colour}
  {key parent grandparent : Addr} {height rounds : Nat}

/-- Memory holds a balanced tree with this sequence of nodes, and the data are
where they were. -/
def Restored (rbt next : Rbtree Addr Data) (sequence : List Addr) : Prop :=
  ∃ tree, next.Focus .top tree ∧ tree.inorder = sequence ∧
    (∃ total, tree.Balanced .black total) ∧ SameData rbt next

theorem Restored.trans {sequence : List Addr} {middle : Rbtree Addr Data}
    (data : SameData rbt middle) (restored : Restored middle next sequence) :
    Restored rbt next sequence := by
  obtain ⟨tree, focus, same, balanced, after⟩ := restored
  exact ⟨tree, focus, same, balanced, data.trans after⟩

theorem Focus.restored (focus : next.Focus ctx tree) (data : SameData rbt next)
    {total : Nat} (balanced : (ctx.plug tree).Balanced .black total) :
    Restored rbt next (ctx.plug tree).inorder :=
  ⟨_, focus_plug.mp focus, rfl, ⟨total, balanced⟩, data⟩

theorem Focus.grandparent_eq (focus : rbt.Focus (.frame frameSide colour parent other
      (.frame outerSide .black grandparent uncle outer)) tree)
    (rooted : tree.root = some key) :
    rbtGetGrandparent rbt (some key) = .ok (some grandparent) := by
  obtain ⟨keyColour, near, far, rfl⟩ := Tree.exists_branch .left rooted
  have parentLink := focus.parent_eq
  have grandparentLink := (focus_frame.mp focus).parent_eq
  simp_all [rbtGetGrandparent, Ctx.parent]

variable [DecidableEq Addr]

theorem Focus.uncle_eq (focus : rbt.Focus (.frame frameSide colour parent other
      (.frame outerSide .black grandparent uncle outer)) tree)
    (rooted : tree.root = some key) : rbtGetUncle rbt (some key) = .ok uncle.root := by
  obtain ⟨keyColour, near, far, rfl⟩ := Tree.exists_branch .left rooted
  have parentLink := focus.parent_eq
  have up := focus_frame.mp focus
  have grandparentLink := up.parent_eq
  have sibling := up.sibling_eq (Tree.root_branch ..)
  simp_all [rbtGetUncle, Ctx.parent]

/-- A node that is not on the same side as its parent goes above it. -/
theorem Focus.insertFixTriangle
    (focus : rbt.Focus (.frame frameSide .red parent other
      (.frame outerSide .black grandparent uncle outer)) tree) (rooted : tree.root = some key)
    (red : tree.Balanced .red height) (otherBlack : other.Balanced .black height) :
    ∃ next lower lowerKey inner innerKey, rbtInsertFixTriangle rbt (some key) (some parent) =
        .ok (next, some lowerKey) ∧ lower.root = some lowerKey ∧
      next.Focus (.frame outerSide .red innerKey inner
        (.frame outerSide .black grandparent uncle outer)) lower ∧
      lower.Balanced .red height ∧ inner.Balanced .black height ∧
      (Tree.branch outerSide .red lower innerKey inner).inorder =
        (Tree.branch frameSide .red tree parent other).inorder ∧ SameData rbt next := by
  have up := focus_frame.mp focus
  have grandparentEq := focus.grandparent_eq rooted
  have parentHere := up.near_eq
  have parentThere := up.far_ne rooted
  have outerUp := focus_frame.mp up
  have grandparentHere := outerUp.near_eq
  have grandparentThere := outerUp.far_ne (Tree.root_branch ..)
  rw [rooted] at parentHere
  rw [Tree.root_branch] at grandparentHere
  rcases Side.eq_or_eq_other frameSide outerSide with rfl | rfl
  · refine ⟨rbt, tree, key, other, parent, ?_, rooted, focus, red, otherBlack, rfl, .refl rbt⟩
    cases frameSide
    · have notRight : (rbt.nodes parent).right ≠ some key := parentThere
      have notRight' : (rbt.nodes grandparent).right ≠ some parent := grandparentThere
      simp [rbtInsertFixTriangle, grandparentEq, Ne.symm notRight, Ne.symm notRight']
    · have notLeft : (rbt.nodes parent).left ≠ some key := parentThere
      have notLeft' : (rbt.nodes grandparent).left ≠ some parent := grandparentThere
      simp [rbtInsertFixTriangle, grandparentEq, Ne.symm notLeft, Ne.symm notLeft']
  · obtain ⟨near, other', far, rfl, nearBlack, farBlack⟩ := red.exists_red outerSide
    obtain rfl : other' = key := by simpa using rooted
    rw [Tree.branch_other] at up
    obtain ⟨next, rotate, rotated, data⟩ := up.rotate
    have moved := (focus_frame.mpr rotated).holds
    have keyHere := rotated.near_eq
    rw [Tree.root_branch] at keyHere
    refine ⟨next, _, parent, far, other', ?_, Tree.root_branch .., focus_frame.mpr rotated,
      otherBlack.branchRed nearBlack, farBlack, ?_, data⟩
    · cases outerSide
      · have parentRight : (rbt.nodes parent).right = some other' := parentHere
        have grandparentLeft : (rbt.nodes grandparent).left = some parent := grandparentHere
        have keyLeft : (next.nodes other').left = some parent := keyHere
        simp [rbtInsertFixTriangle, grandparentEq, parentRight, grandparentLeft, rbtRotateLeft,
          rotate, keyLeft]
      · have parentLeft : (rbt.nodes parent).left = some other' := parentHere
        have notRight : (rbt.nodes parent).right ≠ some other' := parentThere
        have grandparentRight : (rbt.nodes grandparent).right = some parent := grandparentHere
        have keyRight : (next.nodes other').right = some parent := keyHere
        simp [rbtInsertFixTriangle, grandparentEq, parentLeft, Ne.symm notRight,
          grandparentRight, rbtRotateRight, rotate, keyRight]
    · rw [Tree.branch_other, ← Tree.inorder_rotate outerSide .red .red]

/-- A line of node, parent and grandparent is turned around the parent, which
takes over the black colour. -/
theorem Focus.insertFixLine {inner : Tree Addr}
    (focus : rbt.Focus (.frame outerSide .red parent inner
      (.frame outerSide .black grandparent uncle outer)) tree) (rooted : tree.root = some key) :
    ∃ next, rbtInsertFixLine rbt (some key) = .ok next ∧
      next.Focus outer (.branch outerSide.other .black
        (.branch outerSide.other .red uncle grandparent inner) parent tree) ∧
      SameData rbt next := by
  obtain ⟨keyColour, near, far, rfl⟩ := Tree.exists_branch .left rooted
  have parentLink := focus.parent_eq
  have grandparentEq := focus.grandparent_eq rooted
  have up := focus_frame.mp focus
  have parentHere := up.near_eq
  have parentThere := up.far_ne rooted
  have outerUp := focus_frame.mp up
  have grandparentHere := outerUp.near_eq
  rw [rooted] at parentHere
  rw [Tree.root_branch] at grandparentHere
  rw [← Tree.branch_other, ← Tree.branch_other outerSide .red] at outerUp
  obtain ⟨rotated, rotate, focusRotated, dataRotated⟩ := outerUp.rotate
  obtain ⟨painted, paint, focusPainted, dataPainted⟩ := focusRotated.setColour .black
  obtain ⟨next, paint', focusNext, dataNext⟩ := (focus_frame.mpr focusPainted).setColour .red
  refine ⟨next, ?_, focus_frame.mp focusNext, (dataRotated.trans dataPainted).trans dataNext⟩
  simp only [Ctx.parent] at parentLink
  cases outerSide
  · have parentLeft : (rbt.nodes parent).left = some key := parentHere
    have grandparentLeft : (rbt.nodes grandparent).left = some parent := grandparentHere
    have turn : rbtRotateRight rbt (some grandparent) = .ok rotated := rotate
    simp [rbtInsertFixLine, parentLink, grandparentEq, parentLeft, grandparentLeft, turn, paint,
      paint']
  · have parentRight : (rbt.nodes parent).right = some key := parentHere
    have notLeft : (rbt.nodes parent).left ≠ some key := parentThere
    have grandparentRight : (rbt.nodes grandparent).right = some parent := grandparentHere
    have turn : rbtRotateLeft rbt (some grandparent) = .ok rotated := rotate
    simp [rbtInsertFixLine, parentLink, grandparentEq, parentRight, Ne.symm notLeft,
      grandparentRight, turn, paint, paint']

/-- With a red uncle the grandparent becomes the red node. -/
theorem Focus.insertFixRecolour (rounds : Nat)
    (focus : rbt.Focus (.frame frameSide .red parent other
      (.frame outerSide .black grandparent uncle outer)) (.branch side .red near key far))
    (uncleRed : uncle.Balanced .red height) :
    ∃ next blackUncle, rbtInsertFix (rounds + 1) rbt (some key) =
        rbtInsertFix rounds next (some grandparent) ∧
      next.Focus outer (.branch outerSide .red
        (.branch frameSide .black (.branch side .red near key far) parent other) grandparent
        blackUncle) ∧
      blackUncle.Balanced .black (height + 1) ∧ blackUncle.inorder = uncle.inorder ∧
      SameData rbt next := by
  have parentLink := focus.parent_eq
  have up := focus_frame.mp focus
  have parentColour := up.colour_eq
  have uncleEq := focus.uncle_eq (Tree.root_branch ..)
  have grandparentEq := focus.grandparent_eq (Tree.root_branch ..)
  have uncleRead := rbtGetColour_root (focus_sibling.mp up).holds
  rw [uncleRed.colour_eq] at uncleRead
  obtain ⟨uncleNear, uncleKey, uncleFar, rfl, uncleNearBlack, uncleFarBlack⟩ :=
    uncleRed.exists_red .left
  obtain ⟨first, paintParent, focusParent, dataParent⟩ := up.setColour .black
  obtain ⟨second, paintUncle, focusUncle, dataUncle⟩ :=
    (focus_sibling.mp focusParent).setColour .black
  obtain ⟨third, paintGrandparent, focusGrandparent, dataGrandparent⟩ :=
    (focus_frame.mp (focus_sibling.mpr focusUncle)).setColour .red
  refine ⟨third, _, ?_, focusGrandparent, uncleNearBlack.branchBlack uncleFarBlack,
    Tree.inorder_recolour .., (dataParent.trans dataUncle).trans dataGrandparent⟩
  simp only [Ctx.parent, Tree.root_branch] at parentLink uncleEq uncleRead
  have parentRead : rbtGetColour rbt (some parent) = .red := parentColour
  simp [rbtInsertFix, parentLink, parentRead, uncleEq, uncleRead, grandparentEq, paintParent,
    paintUncle, paintGrandparent]

/-- With a black uncle two rotations at most end the fix-up. -/
theorem Focus.insertFixRotate (rounds : Nat)
    (focus : rbt.Focus (.frame frameSide .red parent other
      (.frame outerSide .black grandparent uncle outer)) (.branch side .red near key far))
    (nearBlack : near.Balanced .black height) (farBlack : far.Balanced .black height)
    (otherBlack : other.Balanced .black height) (uncleBlack : uncle.Balanced .black height) :
    ∃ next subtree, rbtInsertFix (rounds + 1) rbt (some key) = .ok next ∧
      next.Focus outer subtree ∧ subtree.Balanced .black (height + 1) ∧
      subtree.inorder = (Tree.branch outerSide .black (.branch frameSide .red
        (.branch side .red near key far) parent other) grandparent uncle).inorder ∧
      SameData rbt next := by
  have parentLink := focus.parent_eq
  have up := focus_frame.mp focus
  have parentColour := up.colour_eq
  have uncleEq := focus.uncle_eq (Tree.root_branch ..)
  have uncleRead := rbtGetColour_root (focus_sibling.mp up).holds
  rw [uncleBlack.colour_eq] at uncleRead
  obtain ⟨turned, lower, lowerKey, inner, innerKey, triangle, lowerRooted, focusLower, lowerRed,
    innerBlack, sameBelow, dataTurned⟩ :=
    focus.insertFixTriangle (Tree.root_branch ..) (nearBlack.branchRed farBlack) otherBlack
  obtain ⟨next, line, focusNext, dataNext⟩ := focusLower.insertFixLine lowerRooted
  refine ⟨next, _, ?_, focusNext, (uncleBlack.branchRed innerBlack).branchBlack lowerRed, ?_,
    dataTurned.trans dataNext⟩
  · simp only [Ctx.parent] at parentLink
    have parentRead : rbtGetColour rbt (some parent) = .red := parentColour
    simp [rbtInsertFix, parentLink, parentRead, uncleEq, uncleRead, triangle, line]
  · rw [← Tree.inorder_rotate outerSide.other .black .red, Tree.branch_other, Tree.branch_other]
    cases outerSide <;> simp only [Tree.branch, Tree.inorder] at sameBelow ⊢ <;> rw [sameBelow]

/-- The fix-up ends, and what it leaves is balanced. -/
theorem Focus.insertFix (focus : rbt.Focus ctx (.branch side .red near key far))
    (nearBlack : near.Balanced .black height) (farBlack : far.Balanced .black height)
    (around : ctx.Balanced height) (enough : ctx.depth < rounds) :
    ∃ next, rbtInsertFix rounds rbt (some key) = .ok next ∧
      Restored rbt next (ctx.plug (.branch side .red near key far)).inorder := by
  induction rounds generalizing rbt ctx side near key far height with
  | zero => cases enough
  | succ rounds inductionHypothesis =>
      have parentLink := focus.parent_eq
      cases around with
      | top =>
          obtain ⟨next, paint, painted, data⟩ := focus.setColour .black
          refine ⟨next, ?_, ?_⟩
          · simp only [Ctx.parent] at parentLink
            simpa [rbtInsertFix, parentLink] using paint
          · rw [Ctx.inorder_plug_congr (Tree.inorder_recolour side .red .black near key far)]
            exact painted.restored data (nearBlack.branchBlack farBlack)
      | @black frameSide parent other otherColour outer _ otherBalanced above =>
          obtain ⟨total, balanced⟩ := Ctx.Balanced.plug (.black otherBalanced above)
            (nearBlack.branchRed farBlack) fun _ => rfl
          refine ⟨rbt, ?_, focus.restored (.refl rbt) balanced⟩
          simp only [Ctx.parent] at parentLink
          have parentRead : rbtGetColour rbt (some parent) = .black :=
            (focus_frame.mp focus).colour_eq
          simp [rbtInsertFix, parentLink, parentRead]
      | @red frameSide parent other outer _ otherBlack above blackAbove =>
          -- a red parent is not the root, and its own parent is black
          cases above with
          | top => cases blackAbove
          | red => cases blackAbove
          | @black outerSide grandparent uncle uncleColour outer _ uncleBalanced above =>
              cases uncleColour with
              | red =>
                  obtain ⟨middle, blackUncle, step, focusGrandparent, uncleBlack, sameUncle,
                    data⟩ := focus.insertFixRecolour rounds uncleBalanced
                  obtain ⟨next, fixed, restored⟩ := inductionHypothesis focusGrandparent
                    ((nearBlack.branchRed farBlack).branchBlack otherBlack) uncleBlack above
                    (by simp only [Ctx.depth] at enough; omega)
                  refine ⟨next, step.trans fixed, ?_⟩
                  have same : (Tree.branch outerSide .red (.branch frameSide .black
                      (.branch side .red near key far) parent other) grandparent
                      blackUncle).inorder = (Tree.branch outerSide .black (.branch frameSide .red
                      (.branch side .red near key far) parent other) grandparent uncle).inorder := by
                    cases outerSide <;> cases frameSide <;>
                      simp [Tree.branch, Tree.inorder, sameUncle]
                  rw [Ctx.inorder_plug_congr same] at restored
                  exact Restored.trans data restored
              | black =>
                  obtain ⟨next, subtree, fixed, focusNext, balanced, same, data⟩ :=
                    focus.insertFixRotate rounds nearBlack farBlack otherBlack
                      uncleBalanced
                  obtain ⟨total, whole⟩ := above.plug balanced fun isRed => by cases isRed
                  refine ⟨next, fixed, ?_⟩
                  have restored := focusNext.restored data whole
                  rwa [Ctx.inorder_plug_congr same] at restored

omit [DecidableEq Addr] in
/-- The search ends at an empty place, whatever the comparisons give.  It goes left
at a node from which on every comparison is non-negative, and right at one up to
which every comparison is negative. -/
theorem Focus.insertSearch {cmpf : RbtreeCmpFn Data} {data : Data} {result : Addr → Int}
    (cmpResult : Int) (focus : rbt.Focus ctx tree)
    (compared : ∀ addr ∈ tree.inorder, cmpf (rbt.nodes addr).data data = .ok (result addr))
    (last : ∀ side, ctx.side = some side → (0 ≤ cmpResult ↔ side = .left))
    (enough : tree.inorder.length ≤ rounds) :
    ∃ inner final, rbtreeInsertSearch rbt data cmpf rounds ctx.parent tree.root cmpResult =
        .ok (inner.parent, final) ∧ rbt.Focus inner .nil ∧ inner.plug .nil = ctx.plug tree ∧
      (∀ side, inner.side = some side → (0 ≤ final ↔ side = .left)) ∧
      ((ctx.plug tree).inorder.Pairwise (fun x y => 0 ≤ result x → 0 ≤ result y) →
        (∀ addr ∈ ctx.before, result addr < 0) → (∀ addr ∈ ctx.after, 0 ≤ result addr) →
        (∀ addr ∈ inner.before, result addr < 0) ∧ ∀ addr ∈ inner.after, 0 ≤ result addr) := by
  induction rounds generalizing ctx tree cmpResult with
  | zero =>
      cases tree with
      | nil => exact ⟨ctx, cmpResult, rfl, focus, rfl, last, fun _ low high => ⟨low, high⟩⟩
      | node => simp [Tree.inorder] at enough
  | succ rounds inductionHypothesis =>
      cases tree with
      | nil => exact ⟨ctx, cmpResult, rfl, focus, rfl, last, fun _ low high => ⟨low, high⟩⟩
      | node colour left key right =>
          have here := compared key (by simp [Tree.inorder])
          have split : (ctx.plug (.node colour left key right)).inorder =
              (ctx.before ++ left.inorder) ++ key :: (right.inorder ++ ctx.after) :=
            ctx.inorder_plug_node ..
          simp only [Tree.inorder, List.length_append, List.length_cons] at enough
          have search : rbtreeInsertSearch rbt data cmpf (rounds + 1) ctx.parent (some key)
              cmpResult = rbtreeInsertSearch rbt data cmpf rounds (some key)
                (if result key ≥ 0 then (rbt.nodes key).left else (rbt.nodes key).right)
                (result key) := by
            rw [rbtreeInsertSearch, here, Outcome.ok_bind]
          rw [Tree.root, search]
          by_cases nonneg : 0 ≤ result key
          · have focusLeft : rbt.Focus (.frame .left colour key right ctx) left :=
              focus_frame.mpr focus
            rw [if_pos nonneg, focus.holds.1.1]
            obtain ⟨inner, final, searched, focusInner, samePlug, lastInner, turns⟩ :=
              inductionHypothesis (result key) focusLeft
                (fun addr member => compared addr (by simp [Tree.inorder, member]))
                (by simp [Ctx.side, nonneg, eq_comm]) (by omega)
            refine ⟨inner, final, searched, focusInner, samePlug, lastInner,
              fun monotone low high => turns monotone low fun addr member => ?_⟩
            rw [split, List.pairwise_append, List.pairwise_cons] at monotone
            simp only [Ctx.after, List.cons_append, List.mem_cons] at member
            rcases member with rfl | later
            · exact nonneg
            · exact monotone.2.1.1 addr later nonneg
          · have focusRight : rbt.Focus (.frame .right colour key left ctx) right :=
              focus_frame.mpr focus
            rw [if_neg nonneg, focus.holds.1.2.1]
            obtain ⟨inner, final, searched, focusInner, samePlug, lastInner, turns⟩ :=
              inductionHypothesis (result key) focusRight
                (fun addr member => compared addr (by simp [Tree.inorder, member]))
                (by simp [Ctx.side, nonneg]) (by omega)
            refine ⟨inner, final, searched, focusInner, samePlug, lastInner,
              fun monotone low high => turns monotone (fun addr member => ?_) high⟩
            rw [split, List.pairwise_append] at monotone
            by_contra notLow
            simp only [Ctx.before, List.mem_append, List.mem_singleton] at member
            rcases member with earlier | inLeft | rfl
            · exact notLow (low addr earlier)
            · exact nonneg (monotone.2.2 addr (by simp [inLeft]) key (by simp) (by omega))
            · exact notLow (by omega)

/-- A node with no children is linked in at an empty place. -/
theorem Focus.insertLink {new : Addr} {cmpResult : Int} (focus : rbt.Focus ctx .nil)
    (fresh : new ∉ ctx.keys) (noLeft : (rbt.nodes new).left = none)
    (noRight : (rbt.nodes new).right = none) (red : (rbt.nodes new).colour = .red)
    (last : ∀ side, ctx.side = some side → (0 ≤ cmpResult ↔ side = .left)) :
    ∃ next, rbtreeInsertLink rbt (some new) ctx.parent cmpResult = .ok next ∧
      next.Focus ctx (.branch .left .red .nil new .nil) ∧ SameData rbt next := by
  have nodup : (ctx.plug (.branch .left .red .nil new .nil)).inorder.Nodup := by
    refine Ctx.nodup_plug.mpr ⟨?_, (Ctx.nodup_plug.mp focus.nodup).2.1, ?_⟩
    · simp [Tree.branch, Tree.inorder]
    · simpa [Tree.branch, Tree.inorder] using fresh
  let parented := rbt.reparent (some new) ctx.parent
  have parentedNew : parented.nodes new = (rbt.nodes new).setParent ctx.parent := by
    simp [parented, nodes_reparent]
  cases ctx with
  | top =>
      have empty : rbt.root = none := focus.around
      refine ⟨{ parented with root := some new }, ?_, ⟨rfl, ?_, nodup⟩, fun addr => ?_⟩
      · simp [rbtreeInsertLink, modify_parent_eq, Ctx.parent, empty, parented]
      · exact ⟨by simpa [parentedNew, RbtreeNode.setParent, Tree.root] using
          ⟨noLeft, noRight, red⟩, trivial, trivial⟩
      · simp only [parented, nodes_reparent]
        split <;> rfl
  | frame side colour key other outer =>
      have around : parented.Around (.frame side colour key other outer) none :=
        focus.around.frame rfl fun addr member => by
          have differs : new ≠ addr := fun same => fresh (same ▸ member)
          simp [parented, nodes_reparent, differs]
      obtain ⟨⟨⟨-, keyNotOther⟩, -⟩, keyNotOuter, -⟩ := (focus_frame.mp focus).distinct
      have new_ne : new ≠ key := fun same => fresh (by simp [same])
      refine ⟨parented.modify key fun node => node.setChild side (some new), ?_,
        ⟨around.relink keyNotOther keyNotOuter _, ?_, nodup⟩, fun addr => ?_⟩
      · cases side
        · have nonneg : 0 ≤ cmpResult := (last .left rfl).mpr rfl
          simp [rbtreeInsertLink, modify_parent_eq, Ctx.parent, nonneg, parented]
        · have negative : ¬0 ≤ cmpResult := fun nonneg => by
            cases (last .right rfl).mp nonneg
          simp [rbtreeInsertLink, modify_parent_eq, Ctx.parent, negative, parented]
      · refine ⟨?_, trivial, trivial⟩
        rw [nodes_modify, if_neg new_ne, parentedNew]
        exact ⟨noLeft, noRight, rfl, red⟩
      · simp only [parented, nodes_reparent, nodes_modify]
        split_ifs <;> simp_all

/-- Where a new node belongs: before the first one that is not smaller. -/
def placeBefore (result : Addr → Int) (sequence : List Addr) (new : Addr) : List Addr :=
  sequence.takeWhile (fun addr => result addr < 0) ++
    new :: sequence.dropWhile fun addr => result addr < 0

omit [DecidableEq Addr] in
theorem placeBefore_append {result : Addr → Int} {before after : List Addr} {new : Addr}
    (low : ∀ addr ∈ before, result addr < 0) (high : ∀ addr ∈ after, 0 ≤ result addr) :
    placeBefore result (before ++ after) new = before ++ new :: after := by
  have lowAll : ∀ addr ∈ before, decide (result addr < 0) = true := by simpa using low
  have stop : after.takeWhile (fun addr => result addr < 0) = [] ∧
      after.dropWhile (fun addr => result addr < 0) = after := by
    cases after with
    | nil => exact ⟨rfl, rfl⟩
    | cons first rest => simp [high first (by simp)]
  rw [placeBefore, List.takeWhile_append_of_pos lowAll, List.dropWhile_append_of_pos lowAll,
    stop.1, stop.2, List.append_nil]

/-- `rbtree_insert` of a node that is not in the tree puts it somewhere in the
sequence, and where it belongs if the comparisons turn their sign once. -/
theorem Focus.insertAt (cmpf : RbtreeCmpFn Data) (result : Addr → Int) {new : Addr}
    (focus : rbt.Focus .top tree) {total : Nat} (balanced : tree.Balanced .black total)
    (fresh : new ∉ tree.inorder)
    (compared : ∀ addr ∈ tree.inorder,
      cmpf (rbt.nodes addr).data (rbt.nodes new).data = .ok (result addr))
    (enough : tree.inorder.length < rounds) :
    ∃ next before after, rbtreeInsert rounds rbt (some new) cmpf = .ok next ∧
      tree.inorder = before ++ after ∧ Restored rbt next (before ++ new :: after) ∧
      (tree.inorder.Pairwise (fun x y => 0 ≤ result x → 0 ≤ result y) →
        (∀ addr ∈ before, result addr < 0) ∧ ∀ addr ∈ after, 0 ≤ result addr) := by
  let blank := (rbt.modify new fun node =>
    { node with left := none, right := none, parent := none }).modify new
      fun node => node.setColour .red
  have blankOther : ∀ addr ≠ new, blank.nodes addr = rbt.nodes addr := fun addr differs => by
    simp [blank, nodes_modify, differs]
  have blankNew : blank.nodes new = ⟨(rbt.nodes new).data, none, none, none, .red⟩ := by
    simp [blank, nodes_modify, RbtreeNode.setColour]
  have blankData : SameData rbt blank := fun addr => by
    by_cases same : addr = new
    · rw [same, blankNew]
    · rw [blankOther addr same]
  have ne_new : ∀ addr ∈ tree.inorder, addr ≠ new := fun addr member same => fresh (same ▸ member)
  have focusBlank : blank.Focus .top tree :=
    focus.frame rfl fun addr member => blankOther addr (ne_new addr member)
  obtain ⟨inner, cmpResult, search, focusInner, samePlug, last, turns⟩ :=
    focusBlank.insertSearch 0 (fun addr member => by
      rw [blankOther addr (ne_new addr member)]; exact compared addr member)
      (by simp [Ctx.side]) (Nat.le_of_lt enough)
  have sequence : tree.inorder = inner.before ++ inner.after := by
    have same := congrArg Tree.inorder samePlug
    rw [Ctx.inorder_plug] at same
    simpa [Tree.inorder, Ctx.plug] using same.symm
  have freshInner : new ∉ inner.keys := by rwa [Ctx.keys, ← sequence]
  obtain ⟨linked, link, focusLinked, dataLinked⟩ := focusInner.insertLink freshInner
    (by rw [blankNew]) (by rw [blankNew]) (by rw [blankNew]) last
  obtain ⟨height, colour, around, emptyBalanced, -⟩ := Ctx.balanced_of_plug
    (show (inner.plug .nil).Balanced .black total from samePlug ▸ balanced)
  cases emptyBalanced
  have shallow : inner.depth < rounds := by
    refine Nat.lt_of_le_of_lt inner.depth_le (Nat.lt_of_le_of_lt (Nat.le_of_eq ?_) enough)
    rw [sequence, Ctx.keys]
  obtain ⟨next, fixed, restored⟩ := focusLinked.insertFix .nil .nil around shallow
  refine ⟨next, inner.before, inner.after, ?_, sequence, ?_, fun monotone =>
    turns monotone (by simp [Ctx.before]) (by simp [Ctx.after])⟩
  · have blankRead : (blank.nodes new).data = (rbt.nodes new).data := by rw [blankNew]
    have initialised : rbtreeInitNode rbt (some new) = .ok blank := rfl
    have search' : rbtreeInsertSearch blank (rbt.nodes new).data cmpf rounds none blank.root 0 =
        .ok (inner.parent, cmpResult) := by
      rw [show blank.root = tree.root from focusBlank.around]
      exact search
    simp [rbtreeInsert, initialised, blankRead, search', link, fixed]
  · have placed : (inner.plug (.branch .left .red .nil new .nil)).inorder =
        inner.before ++ new :: inner.after := by
      rw [Ctx.inorder_plug]
      simp [Tree.branch, Tree.inorder]
    rw [placed] at restored
    exact Restored.trans (blankData.trans dataLinked) restored

theorem Focus.insert (cmpf : RbtreeCmpFn Data) (result : Addr → Int) {new : Addr}
    (focus : rbt.Focus .top tree) {total : Nat} (balanced : tree.Balanced .black total)
    (fresh : new ∉ tree.inorder)
    (compared : ∀ addr ∈ tree.inorder,
      cmpf (rbt.nodes addr).data (rbt.nodes new).data = .ok (result addr))
    (monotone : tree.inorder.Pairwise fun x y => 0 ≤ result x → 0 ≤ result y)
    (enough : tree.inorder.length < rounds) :
    ∃ next, rbtreeInsert rounds rbt (some new) cmpf = .ok next ∧
      Restored rbt next (placeBefore result tree.inorder new) := by
  obtain ⟨next, before, after, inserted, sequence, restored, turns⟩ :=
    focus.insertAt cmpf result balanced fresh compared enough
  obtain ⟨low, high⟩ := turns monotone
  refine ⟨next, inserted, ?_⟩
  rwa [sequence, placeBefore_append low high]

end Rbtree

end Yaeos
