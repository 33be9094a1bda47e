import Yaeos.Rbtree.Bounds
import Yaeos.Rbtree.Run

/-!
# Calls on any red-black tree

Insertion and deletion return on every red-black tree in memory, whether its
sequence is sorted or not.  `DeleteFixReached` are the states in which the loop of
`rbt_delete_fix` begins a round; the loop's node is one black node short in each
of them, which is what its assertions rest on.
-/

namespace Yaeos

namespace Rbtree

variable {Addr Data : Type}

/-- The number of parents above a node. -/
inductive AtDepth (rbt : Rbtree Addr Data) : Option Addr → Nat → Prop where
  | root {addr : Addr} : (rbt.nodes addr).parent = none → AtDepth rbt (some addr) 0
  | under {addr : Addr} {depth : Nat} : AtDepth rbt (rbt.nodes addr).parent depth →
      AtDepth rbt (some addr) (depth + 1)

variable {rbt next : Rbtree Addr Data} {ctx outer : Ctx Addr} {tree sibling : Tree Addr}
  {side : Side} {colour : Colour} {key parent deletee : Addr} {height rounds : Nat}

theorem Focus.atDepth (focus : rbt.Focus ctx tree) (rooted : tree.root = some key) :
    rbt.AtDepth (some key) ctx.depth := by
  induction ctx generalizing tree key with
  | top =>
      obtain ⟨keyColour, near, far, rfl⟩ := Tree.exists_branch .left rooted
      exact .root focus.parent_eq
  | frame frameSide frameColour above other outer inductionHypothesis =>
      obtain ⟨keyColour, near, far, rfl⟩ := Tree.exists_branch .left rooted
      have link := focus.parent_eq
      refine .under ?_
      rw [link]
      exact inductionHypothesis (focus_frame.mp focus) (Tree.root_branch ..)

variable [DecidableEq Addr]

/-- What a round of `rbt_delete_fix` rests on, for a node under a parent. -/
structure SoundRound (rbt : Rbtree Addr Data) (node parent : Addr) : Prop where
  sibling : ∃ sibling, rbtGetSibling rbt (some node) = .ok (some sibling)
  /-- After the rotation for a red sibling the sibling is black.  Unless its children are
  black as well, it is black after the second rotation, with a red child away from the node. -/
  rotated : ∃ first sibling,
    rbtDeleteFixSibling rbt (some node) (some parent) = .ok (first, some parent, some sibling) ∧
      (first.nodes sibling).colour = .black ∧
      ((rbtGetColour first (first.nodes sibling).left = .black ∧
          rbtGetColour first (first.nodes sibling).right = .black) ∨
        ∃ second last side,
          rbtDeleteFixTurn first (some node) (some parent) (some sibling) = .ok second ∧
            rbtGetSibling second (some node) = .ok (some last) ∧
            (second.nodes last).colour = .black ∧
            (second.nodes parent).child side = some node ∧
            rbtGetColour second ((second.nodes last).child side.other) = .red)
  /-- The round returns, and a node it continues with is closer to the root. -/
  returns : ∃ next result, rbtDeleteFixRound rbt (some node) (some parent) = .ok (next, result) ∧
    ∀ above, result = some above →
      ∃ depth lower, rbt.AtDepth (some node) lower ∧ next.AtDepth above depth ∧ depth < lower

/-- The states in which `rbt_delete_fix` begins a round in the deletion of a node. -/
inductive DeleteFixReached (rounds : Nat) (rbt : Rbtree Addr Data) (deletee : Addr) :
    Rbtree Addr Data → Option Addr → Prop where
  /-- The node is black and has no red child. -/
  | called {start : Rbtree Addr Data} : rbtreeDeleteSwap rounds rbt (some deletee) = .ok start →
      rbtGetColour start (some deletee) = .black →
      rbtGetColour start (if (start.nodes deletee).right ≠ none then (start.nodes deletee).right
        else (start.nodes deletee).left) = .black →
      DeleteFixReached rounds rbt deletee start (some deletee)
  | climbed {before after : Rbtree Addr Data} {node parent above : Option Addr} :
      DeleteFixReached rounds rbt deletee before node → rbtGetParent before node = .ok parent →
      parent ≠ none → rbtDeleteFixRound before node parent = .ok (after, some above) →
      DeleteFixReached rounds rbt deletee after above

omit [DecidableEq Addr] in
/-- The loop's node in its context, which has to make up for one black node. -/
def OneShort (rbt : Rbtree Addr Data) (node : Option Addr) : Prop :=
  ∃ ctx tree height, rbt.Focus ctx tree ∧ tree.root = node ∧ node ≠ none ∧
    ctx.Balanced (height + 1)

omit [DecidableEq Addr] in
theorem OneShort.node_ne {node : Option Addr} (short : rbt.OneShort node) : node ≠ none := by
  obtain ⟨-, -, -, -, -, isNode, -⟩ := short
  exact isNode

theorem Focus.soundRound (focus : rbt.Focus (.frame side colour parent sibling outer) tree)
    (rooted : tree.root = some key)
    (around : (Ctx.frame side colour parent sibling outer).Balanced (height + 1)) :
    rbt.SoundRound key parent where
  sibling := by
    have siblingEq := focus.sibling_eq rooted
    cases siblingRoot : sibling.root with
    | some addr => exact ⟨addr, siblingEq.trans (by rw [siblingRoot])⟩
    | none =>
        -- an empty sibling has no black nodes
        obtain rfl := Tree.root_eq_none.mp siblingRoot
        cases around with
        | red balanced => cases balanced
        | black balanced => cases balanced
  rotated := by
    obtain ⟨first, newColour, near, above, found, focusFirst, aroundFirst, nearBlack, -⟩ :=
      focus.deleteFixSibling rooted around
    have nearBalanced : near.Balanced .black (height + 1) := by
      cases aroundFirst with
      | red balanced => exact balanced
      | black balanced => rwa [← nearBlack, balanced.colour_eq]
    obtain ⟨inside, pivot, outside, insideColour, outsideColour, rfl, insideBalanced,
      outsideBalanced⟩ := nearBalanced.exists_black side
    have focusSibling := focus_sibling.mp focusFirst
    rw [Tree.root_branch] at found
    refine ⟨first, pivot, found, focusSibling.colour_eq, ?_⟩
    obtain ⟨⟨insideLink, outsideLink, -⟩, insideHolds, outsideHolds⟩ :=
      holds_branch.mp focusSibling.holds
    have insideRead := rbtGetColour_root insideHolds
    have outsideRead := rbtGetColour_root outsideHolds
    rw [insideBalanced.colour_eq, ← insideLink] at insideRead
    rw [outsideBalanced.colour_eq, ← outsideLink] at outsideRead
    by_cases black : insideColour = .black ∧ outsideColour = .black
    · obtain ⟨rfl, rfl⟩ := black
      cases side with
      | left => exact .inl ⟨insideRead, outsideRead⟩
      | right => exact .inl ⟨outsideRead, insideRead⟩
    · have someRed : insideColour = .red ∨ outsideColour = .red := by
        cases insideColour <;> cases outsideColour <;> simp_all
      obtain ⟨second, near', last, far', nearColour', turn, focusSecond, -, farRed, -⟩ :=
        focusFirst.deleteFixTurn rooted insideBalanced outsideBalanced someRed
      have lastSibling := focusSecond.sibling_eq rooted
      have focusLast := focus_sibling.mp focusSecond
      obtain ⟨⟨-, farLink, -⟩, -, farHolds⟩ := holds_branch.mp focusLast.holds
      have farRead := rbtGetColour_root farHolds
      rw [farRed.colour_eq, ← farLink] at farRead
      rw [Tree.root_branch] at lastSibling
      refine .inr ⟨second, last, side, turn, lastSibling, focusLast.colour_eq, ?_, farRead⟩
      exact (focus_frame.mp focusSecond).near_eq.trans rooted
  returns := by
    obtain ⟨next, result⟩ := focus.deleteFixRound rooted around
    rcases result with ⟨round, -⟩ | ⟨round, reddened, focusNext, -⟩
    · exact ⟨next, none, round, nofun⟩
    · refine ⟨next, _, round, ?_⟩
      rintro _ ⟨⟩
      exact ⟨outer.depth, outer.depth + 1, focus.atDepth rooted,
        (focus_frame.mp focusNext).atDepth (Tree.root_branch ..), Nat.lt_succ_self _⟩

/-- A round that continues leaves its node one black node short again. -/
theorem OneShort.climb {node parent above : Option Addr} (short : rbt.OneShort node)
    (parentEq : rbtGetParent rbt node = .ok parent) (inside : parent ≠ none)
    (round : rbtDeleteFixRound rbt node parent = .ok (next, some above)) : next.OneShort above := by
  obtain ⟨ctx, tree, height, focus, rooted, isNode, around⟩ := short
  obtain ⟨key, rfl⟩ := Option.ne_none_iff_exists'.mp isNode
  obtain ⟨keyColour, near, far, rfl⟩ := Tree.exists_branch .left rooted
  have link := focus.parent_eq
  rw [rbtGetParent_some, link] at parentEq
  cases ctx with
  | top => exact absurd (Except.ok.inj parentEq).symm inside
  | frame side colour key' sibling outer =>
      cases parentEq
      obtain ⟨next', result⟩ := focus.deleteFixRound rooted around
      rcases result with ⟨ended, -⟩ | ⟨continued, reddened, focusNext, -, aboveBalanced, -⟩
      · cases ended.symm.trans round
      · cases continued.symm.trans round
        exact ⟨outer, _, height + 1, focus_frame.mp focusNext, Tree.root_branch ..,
          Option.some_ne_none _, aboveBalanced⟩

omit [DecidableEq Addr] in
/-- A black node without a red child that is about to be unlinked leaves its place one
black node short. -/
theorem Focus.oneShort {subtree : Tree Addr}
    (focus : rbt.Focus ctx (.branch side colour subtree key .nil)) {total : Nat}
    (balanced : (ctx.plug (.branch side colour subtree key .nil)).Balanced .black total)
    (black : rbtGetColour rbt (some key) = .black) : rbt.OneShort (some key) := by
  obtain ⟨height, nodeColour, around, node, -⟩ := Ctx.balanced_of_plug balanced
  obtain rfl : colour = .black := focus.colour_eq.symm.trans black
  rw [Tree.balanced_branch_black] at node
  obtain ⟨rfl, lower, nearColour, farColour, rfl, -, farBalanced⟩ := node
  exact ⟨ctx, _, lower, focus, Tree.root_branch .., Option.some_ne_none _, around⟩

theorem OneShort.of_reached (focus : rbt.Focus .top tree) {total : Nat}
    (balanced : tree.Balanced .black total) (member : deletee ∈ tree.inorder) {node : Option Addr}
    (reached : DeleteFixReached rounds rbt deletee next node) : next.OneShort node := by
  induction reached with
  | called swapped black _ =>
      obtain ⟨start, ctx, side, colour, subtree, swap, here, -, -, -, stillBalanced⟩ :=
        @Focus.deleteSwap _ _ _ _ _ _ (rounds + tree.inorder.length + 1) focus member (by omega)
      have more := rbtreeDeleteSwap_extends
        (show rounds ≤ rounds + tree.inorder.length + 1 by omega) rbt (some deletee) _ swapped
      cases more.symm.trans swap
      exact here.oneShort (stillBalanced total balanced) black
  | climbed _ parentEq inside round inductionHypothesis =>
      exact inductionHypothesis.climb parentEq inside round

theorem OneShort.soundRound {node parent : Addr} (short : rbt.OneShort (some node))
    (link : (rbt.nodes node).parent = some parent) : rbt.SoundRound node parent := by
  obtain ⟨ctx, tree, height, focus, rooted, -, around⟩ := short
  obtain ⟨keyColour, near, far, rfl⟩ := Tree.exists_branch .left rooted
  have parentEq := focus.parent_eq
  cases ctx with
  | top => cases link.symm.trans parentEq
  | frame side colour above sibling outer =>
      cases link.symm.trans parentEq
      exact focus.soundRound rooted around

/-- On every red-black tree in memory, sorted or not, every insertion of a new node and
every deletion of a node returns, and every round of the deletion fix-up finds what
it relies on. -/
theorem calls_return (focus : rbt.Focus .top tree) {total : Nat}
    (balanced : tree.Balanced .black total) :
    (∀ cmpf new, new ∉ tree.inorder →
      (∀ addr ∈ tree.inorder, ∃ result,
        cmpf (rbt.nodes addr).data (rbt.nodes new).data = .ok result) →
      ∃ enough next, ∀ rounds ≥ enough, rbtreeInsert rounds rbt (some new) cmpf = .ok next) ∧
    ∀ deletee ∈ tree.inorder,
      (∃ enough next, ∀ rounds ≥ enough, rbtreeDelete rounds rbt (some deletee) = .ok next) ∧
      ∀ rounds memory node, DeleteFixReached rounds rbt deletee memory node →
        ∃ addr, node = some addr ∧
          ∀ parent, (memory.nodes addr).parent = some parent → memory.SoundRound addr parent := by
  refine ⟨fun cmpf new fresh compares => ?_, fun deletee member => ⟨?_, ?_⟩⟩
  · have chosen : ∃ result : Addr → Int, ∀ addr ∈ tree.inorder,
        cmpf (rbt.nodes addr).data (rbt.nodes new).data = .ok (result addr) := by
      choose! result compared using compares
      exact ⟨result, compared⟩
    obtain ⟨result, compared⟩ := chosen
    obtain ⟨next, before, after, inserted, -⟩ :=
      focus.insertAt cmpf result balanced fresh compared (Nat.lt_succ_self _)
    exact ⟨_, next, fun rounds enough => rbtreeInsert_extends enough _ _ _ next inserted⟩
  · obtain ⟨next, deleted, -⟩ := focus.delete balanced member (Nat.lt_succ_self _)
    exact ⟨_, next, fun rounds enough => rbtreeDelete_extends enough _ _ next deleted⟩
  · intro rounds memory node reached
    have short := OneShort.of_reached focus balanced member reached
    obtain ⟨addr, rfl⟩ := Option.ne_none_iff_exists'.mp short.node_ne
    exact ⟨addr, rfl, fun parent link => short.soundRound link⟩

/-- Insertions into the tree of three nodes, and deletions from it. -/
theorem threeNodes_calls_return :
    (∀ cmpf new, new ∉ threeTree.inorder →
      (∀ addr ∈ threeTree.inorder, ∃ result,
        cmpf (threeNodes.nodes addr).data (threeNodes.nodes new).data = .ok result) →
      ∃ enough next, ∀ rounds ≥ enough,
        rbtreeInsert rounds threeNodes (some new) cmpf = .ok next) ∧
    ∀ deletee ∈ threeTree.inorder,
      (∃ enough next, ∀ rounds ≥ enough,
        rbtreeDelete rounds threeNodes (some deletee) = .ok next) ∧
      ∀ rounds memory node, DeleteFixReached rounds threeNodes deletee memory node →
        ∃ addr, node = some addr ∧
          ∀ parent, (memory.nodes addr).parent = some parent → memory.SoundRound addr parent :=
  calls_return threeNodes_focus (.black 1 (.red 0 .nil .nil) (.red 2 .nil .nil))

end Rbtree

end Yaeos
