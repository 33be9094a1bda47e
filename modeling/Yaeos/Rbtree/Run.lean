import Yaeos.Rbtree.Delete
import Yaeos.Machine.Run

/-!
# Runs of the red-black tree

The properties of the tree are stated of memory itself: what a walk along the
links meets.  Every insertion of a new node and every deletion of a node of the
tree keeps them, for any comparison that is a total preorder.
-/

namespace Yaeos

variable {Addr Data : Type}

section Rounds

variable [DecidableEq Addr]

theorem rbtInsertFix_extends {rounds more : Nat} (fewer : rounds ≤ more)
    (rbt : Rbtree Addr Data) (node : Option Addr) :
    Outcome.Extends (rbtInsertFix rounds rbt node) (rbtInsertFix more rbt node) := by
  induction rounds generalizing more rbt node with
  | zero => exact Outcome.Extends.error _ _
  | succ rounds inductionHypothesis =>
      obtain ⟨more, rfl⟩ := Nat.exists_eq_succ_of_ne_zero (Nat.ne_zero_of_lt fewer)
      unfold rbtInsertFix
      refine .seq _ fun parent => .ite (.refl _) (.ite (.refl _) (.seq _ fun uncle => .ite ?_
        (.refl _)))
      exact .seq _ fun grandparent => .seq _ fun _ => .seq _ fun _ => .seq _ fun _ =>
        .seq _ fun _ => inductionHypothesis (Nat.le_of_succ_le_succ fewer) _ _

omit [DecidableEq Addr] in
theorem rbtreeInsertSearch_extends {rounds more : Nat} (fewer : rounds ≤ more)
    (rbt : Rbtree Addr Data) (data : Data) (cmpf : RbtreeCmpFn Data)
    (parent cursor : Option Addr) (cmpResult : Int) :
    Outcome.Extends (rbtreeInsertSearch rbt data cmpf rounds parent cursor cmpResult)
      (rbtreeInsertSearch rbt data cmpf more parent cursor cmpResult) := by
  induction rounds generalizing more parent cursor cmpResult with
  | zero =>
      cases cursor with
      | none => simp [rbtreeInsertSearch, Outcome.Extends]
      | some => simp [rbtreeInsertSearch, Outcome.Extends]
  | succ rounds inductionHypothesis =>
      obtain ⟨more, rfl⟩ := Nat.exists_eq_succ_of_ne_zero (Nat.ne_zero_of_lt fewer)
      cases cursor with
      | none => simp [rbtreeInsertSearch, Outcome.Extends]
      | some cursor =>
          unfold rbtreeInsertSearch
          exact .seq _ fun _ => inductionHypothesis (Nat.le_of_succ_le_succ fewer) _ _ _

/-- A call that returns would return the same with more rounds for its loops. -/
theorem rbtreeInsert_extends {rounds more : Nat} (fewer : rounds ≤ more)
    (rbt : Rbtree Addr Data) (new : Option Addr) (cmpf : RbtreeCmpFn Data) :
    Outcome.Extends (rbtreeInsert rounds rbt new cmpf) (rbtreeInsert more rbt new cmpf) :=
  .seq _ fun _ => .seq _ fun _ => .seq _ fun _ =>
    .bind (rbtreeInsertSearch_extends fewer _ _ _ _ _ _) fun _ => .seq _ fun _ =>
      rbtInsertFix_extends fewer _ _

omit [DecidableEq Addr] in
theorem rbtFindSuccessorLoop_extends {rounds more : Nat} (fewer : rounds ≤ more)
    (rbt : Rbtree Addr Data) (node : Option Addr) :
    Outcome.Extends (rbtFindSuccessorLoop rbt rounds node)
      (rbtFindSuccessorLoop rbt more node) := by
  induction rounds generalizing more node with
  | zero => exact Outcome.Extends.error _ _
  | succ rounds inductionHypothesis =>
      obtain ⟨more, rfl⟩ := Nat.exists_eq_succ_of_ne_zero (Nat.ne_zero_of_lt fewer)
      unfold rbtFindSuccessorLoop
      exact .seq _ fun _ => .ite (.refl _)
        (inductionHypothesis (Nat.le_of_succ_le_succ fewer) _)

theorem rbtDeleteFix_extends {rounds more : Nat} (fewer : rounds ≤ more)
    (rbt : Rbtree Addr Data) (node : Option Addr) :
    Outcome.Extends (rbtDeleteFix rounds rbt node) (rbtDeleteFix more rbt node) := by
  induction rounds generalizing more rbt node with
  | zero => exact Outcome.Extends.error _ _
  | succ rounds inductionHypothesis =>
      obtain ⟨more, rfl⟩ := Nat.exists_eq_succ_of_ne_zero (Nat.ne_zero_of_lt fewer)
      unfold rbtDeleteFix
      refine .seq _ fun parent => .ite (.refl _) (.seq _ fun sibling => .seq _ fun _ =>
        .seq _ fun next => ?_)
      obtain ⟨next, done | again⟩ := next
      · exact .refl _
      · exact inductionHypothesis (Nat.le_of_succ_le_succ fewer) _ _

theorem rbtreeDeleteSwap_extends {rounds more : Nat} (fewer : rounds ≤ more)
    (rbt : Rbtree Addr Data) (deletee : Option Addr) :
    Outcome.Extends (rbtreeDeleteSwap rounds rbt deletee) (rbtreeDeleteSwap more rbt deletee) :=
  .seq _ fun _ => .ite (.bind (.seq _ fun _ => rbtFindSuccessorLoop_extends fewer _ _)
    fun _ => .refl _) (.refl _)

theorem rbtreeDelete_extends {rounds more : Nat} (fewer : rounds ≤ more)
    (rbt : Rbtree Addr Data) (deletee : Option Addr) :
    Outcome.Extends (rbtreeDelete rounds rbt deletee) (rbtreeDelete more rbt deletee) := by
  rw [rbtreeDelete_eq, rbtreeDelete_eq]
  refine .bind (rbtreeDeleteSwap_extends fewer rbt deletee) fun _ => .seq _ fun _ => .seq _ fun _ =>
    .bind ?_ fun _ => .refl _
  exact .ite (.ite (.refl _) (rbtDeleteFix_extends fewer _ _)) (.refl _)

end Rounds

namespace Rbtree

variable {rbt next : Rbtree Addr Data} {pointer parent : Option Addr} {addr : Addr}
  {tree : Tree Addr}

/-- A walk down from `pointer` meets `addr`. -/
inductive Meets (rbt : Rbtree Addr Data) : Option Addr → Addr → Prop where
  | here {addr : Addr} : Meets rbt (some addr) addr
  | left {above addr : Addr} : Meets rbt (rbt.nodes above).left addr → Meets rbt (some above) addr
  | right {above addr : Addr} : Meets rbt (rbt.nodes above).right addr → Meets rbt (some above) addr

/-- The nodes of the tree. -/
def Member (rbt : Rbtree Addr Data) (addr : Addr) : Prop := rbt.Meets rbt.root addr

/-- Some path down from `pointer` to `NULL` has `count` black nodes. -/
inductive BlackPath (rbt : Rbtree Addr Data) : Option Addr → Nat → Prop where
  | null : BlackPath rbt none 0
  | left {addr : Addr} {count : Nat} : BlackPath rbt (rbt.nodes addr).left count →
      BlackPath rbt (some addr) (count + if (rbt.nodes addr).colour = .black then 1 else 0)
  | right {addr : Addr} {count : Nat} : BlackPath rbt (rbt.nodes addr).right count →
      BlackPath rbt (some addr) (count + if (rbt.nodes addr).colour = .black then 1 else 0)

/-- The nodes below `pointer` in order. -/
inductive InOrder (rbt : Rbtree Addr Data) : Option Addr → List Addr → Prop where
  | null : InOrder rbt none []
  | node {addr : Addr} {before after : List Addr} : InOrder rbt (rbt.nodes addr).left before →
      InOrder rbt (rbt.nodes addr).right after →
      InOrder rbt (some addr) (before ++ addr :: after)

theorem Holds.meets_iff (holds : rbt.Holds parent tree) :
    rbt.Meets tree.root addr ↔ addr ∈ tree.inorder := by
  induction tree generalizing parent with
  | nil => exact ⟨nofun, nofun⟩
  | node colour left key right leftHypothesis rightHypothesis =>
      obtain ⟨⟨leftLink, rightLink, -⟩, leftHolds, rightHolds⟩ := holds
      simp only [Tree.inorder, List.mem_append, List.mem_cons, ← leftHypothesis leftHolds,
        ← rightHypothesis rightHolds, ← leftLink, ← rightLink]
      constructor
      · intro met
        cases met with
        | here => exact .inr (.inl rfl)
        | left inLeft => exact .inl inLeft
        | right inRight => exact .inr (.inr inRight)
      · rintro (inLeft | rfl | inRight)
        · exact .left inLeft
        · exact .here
        · exact .right inRight

theorem Holds.blackPath_eq (holds : rbt.Holds parent tree) {colour : Colour} {height count : Nat}
    (balanced : tree.Balanced colour height) (path : rbt.BlackPath tree.root count) :
    count = height := by
  induction balanced generalizing parent count with
  | nil => cases path; rfl
  | red key _ _ leftHypothesis rightHypothesis =>
      obtain ⟨⟨leftLink, rightLink, -, red⟩, leftHolds, rightHolds⟩ := holds
      cases path with
      | left below =>
          rw [leftLink] at below
          simp [red, leftHypothesis leftHolds below]
      | right below =>
          rw [rightLink] at below
          simp [red, rightHypothesis rightHolds below]
  | black key _ _ leftHypothesis rightHypothesis =>
      obtain ⟨⟨leftLink, rightLink, -, black⟩, leftHolds, rightHolds⟩ := holds
      cases path with
      | left below =>
          rw [leftLink] at below
          simp [black, leftHypothesis leftHolds below]
      | right below =>
          rw [rightLink] at below
          simp [black, rightHypothesis rightHolds below]

theorem Holds.inOrder (holds : rbt.Holds parent tree) : rbt.InOrder tree.root tree.inorder := by
  induction tree generalizing parent with
  | nil => exact .null
  | node colour left key right leftHypothesis rightHypothesis =>
      obtain ⟨⟨leftLink, rightLink, -⟩, leftHolds, rightHolds⟩ := holds
      exact .node (leftLink ▸ leftHypothesis leftHolds) (rightLink ▸ rightHypothesis rightHolds)

theorem Focus.root_eq (focus : rbt.Focus .top tree) : rbt.root = tree.root := focus.around

theorem Focus.member_iff (focus : rbt.Focus .top tree) : rbt.Member addr ↔ addr ∈ tree.inorder := by
  rw [Member, focus.root_eq, focus.holds.meets_iff]

/-- In a balanced tree a child of a red node is black. -/
theorem Focus.child_black (side : Side) (focus : rbt.Focus .top tree) {total : Nat}
    (balanced : tree.Balanced .black total) (member : addr ∈ tree.inorder)
    (red : (rbt.nodes addr).colour = .red) {child : Addr}
    (link : (rbt.nodes addr).child side = some child) : (rbt.nodes child).colour = .black := by
  obtain ⟨inner, colour, near, far, here, samePlug⟩ := focus.at_branch side member
  obtain rfl : colour = .red := here.colour_eq.symm.trans red
  obtain ⟨height, nodeColour, -, node, -⟩ := Ctx.balanced_of_plug (samePlug ▸ balanced)
  obtain ⟨-, nearBlack, -⟩ := Tree.balanced_branch_red.mp node
  have rooted := here.near_eq.symm.trans link
  have read := rbtGetColour_root (focus_frame.mpr here).holds
  rwa [rooted, nearBlack.colour_eq] at read

end Rbtree

inductive RbtreeCall (Addr Data : Type) where
  | insert (new : Addr) (data : Data)
  | delete (deletee : Addr)

/-- A comparison of data that orders them, possibly with ties. -/
structure TotalPreorder (compare : Data → Data → Int) : Prop where
  swap : ∀ first second, 0 ≤ compare first second ↔ compare second first ≤ 0
  trans : ∀ first second third,
    compare first second ≤ 0 → compare second third ≤ 0 → compare first third ≤ 0

namespace Rbtree

variable [DecidableEq Addr]

/-- Store the data in a node. -/
def setData (rbt : Rbtree Addr Data) (addr : Addr) (data : Data) : Rbtree Addr Data :=
  rbt.modify addr fun node => { node with data := data }

/-- A call: an insertion is of a node that has its data already. -/
def call (compare : Data → Data → Int) (rounds : Nat) (rbt : Rbtree Addr Data) :
    RbtreeCall Addr Data → Outcome (Rbtree Addr Data)
  | .insert new data => rbtreeInsert rounds (rbt.setData new data) (some new)
      fun treeVal externalVal => .ok (compare treeVal externalVal)
  | .delete deletee => rbtreeDelete rounds rbt (some deletee)

omit [DecidableEq Addr] in
/-- A new node is not in the tree, a deleted one is. -/
def Legal (rbt : Rbtree Addr Data) : RbtreeCall Addr Data → Prop
  | .insert new _ => ¬rbt.Member new
  | .delete deletee => rbt.Member deletee

end Rbtree

/-- The runs from `rbtree_init_tree` on, over any memory. -/
def rbtreeMachine [DecidableEq Addr] (compare : Data → Data → Int) :
    Machine (Rbtree Addr Data) (RbtreeCall Addr Data) where
  initial rbt := ∃ memory, rbt = rbtreeInitTree memory
  step rbt call next := rbt.Legal call ∧ ∃ rounds, rbt.call compare rounds call = .ok next

namespace Rbtree

variable [DecidableEq Addr] {compare : Data → Data → Int} {rbt next : Rbtree Addr Data}

omit [DecidableEq Addr] in
/-- Memory holds a balanced tree whose sequence is sorted. -/
def Valid (compare : Data → Data → Int) (rbt : Rbtree Addr Data) (tree : Tree Addr) : Prop :=
  rbt.Focus .top tree ∧ (∃ total, tree.Balanced .black total) ∧
    tree.inorder.Pairwise fun x y => compare (rbt.nodes x).data (rbt.nodes y).data ≤ 0

/-- The in-order sequence after a call. -/
def sequenceAfter (compare : Data → Data → Int) (rbt : Rbtree Addr Data) (sequence : List Addr) :
    RbtreeCall Addr Data → List Addr
  | .insert new data => placeBefore (fun addr => compare (rbt.nodes addr).data data) sequence new
  | .delete deletee => sequence.erase deletee

/-- The data of a node after a call. -/
def dataAfter (rbt : Rbtree Addr Data) : RbtreeCall Addr Data → Addr → Data
  | .insert new data => fun addr => if addr = new then data else (rbt.nodes addr).data
  | .delete _ => fun addr => (rbt.nodes addr).data

omit [DecidableEq Addr] in
/-- A sequence along which a sign turns once, split at the turn. -/
theorem exists_turn {result : Addr → Int} {sequence : List Addr}
    (monotone : sequence.Pairwise fun x y => 0 ≤ result x → 0 ≤ result y) :
    ∃ before after, sequence = before ++ after ∧ (∀ addr ∈ before, result addr < 0) ∧
      ∀ addr ∈ after, 0 ≤ result addr := by
  induction sequence with
  | nil => exact ⟨[], [], rfl, nofun, nofun⟩
  | cons first rest inductionHypothesis =>
      obtain ⟨afterFirst, restMonotone⟩ := List.pairwise_cons.mp monotone
      by_cases nonneg : 0 ≤ result first
      · refine ⟨[], first :: rest, rfl, nofun, fun addr member => ?_⟩
        rcases List.mem_cons.mp member with rfl | later
        · exact nonneg
        · exact afterFirst addr later nonneg
      · obtain ⟨before, after, rfl, low, high⟩ := inductionHypothesis restMonotone
        refine ⟨first :: before, after, rfl, fun addr member => ?_, high⟩
        rcases List.mem_cons.mp member with rfl | later
        · exact Int.not_le.mp nonneg
        · exact low addr later

omit [DecidableEq Addr] in
/-- In a sorted sequence the comparison with a fixed datum turns its sign once. -/
theorem monotone_of_sorted (preorder : TotalPreorder compare) {data : Addr → Data}
    {sequence : List Addr}
    (sorted : sequence.Pairwise fun x y => compare (data x) (data y) ≤ 0) (reference : Data) :
    sequence.Pairwise fun x y =>
      0 ≤ compare (data x) reference → 0 ≤ compare (data y) reference := by
  refine sorted.imp fun {x y} ordered notBelow => ?_
  rw [preorder.swap] at notBelow ⊢
  exact preorder.trans _ _ _ notBelow ordered

omit [DecidableEq Addr] in
/-- Placing a new node keeps a sequence sorted. -/
theorem sorted_placeBefore (preorder : TotalPreorder compare) (data next : Addr → Data)
    {sequence : List Addr} (new : Addr)
    (sorted : sequence.Pairwise fun x y => compare (data x) (data y) ≤ 0)
    (same : ∀ addr ∈ sequence, next addr = data addr) :
    (placeBefore (fun addr => compare (data addr) (next new)) sequence new).Pairwise
      fun x y => compare (next x) (next y) ≤ 0 := by
  obtain ⟨before, after, rfl, low, high⟩ :=
    exists_turn (monotone_of_sorted preorder sorted (next new))
  rw [placeBefore_append low high]
  have moved : (before ++ after).Pairwise fun x y => compare (next x) (next y) ≤ 0 :=
    sorted.imp_of_mem fun xMember yMember ordered => by
      rwa [same _ xMember, same _ yMember]
  obtain ⟨beforeSorted, afterSorted, across⟩ := List.pairwise_append.mp moved
  refine List.pairwise_append.mpr ⟨beforeSorted, List.pairwise_cons.mpr
    ⟨fun addr member => ?_, afterSorted⟩, fun addr member other otherMember => ?_⟩
  · rw [← preorder.swap, same addr (by simp [member])]
    exact high addr member
  · rcases List.mem_cons.mp otherMember with rfl | later
    · rw [same addr (by simp [member])]
      exact Int.le_of_lt (low addr member)
    · exact across addr member other later

theorem Valid.call_returns (preorder : TotalPreorder compare) {tree : Tree Addr}
    (valid : rbt.Valid compare tree) {action : RbtreeCall Addr Data} (legal : rbt.Legal action)
    {rounds : Nat} (enough : tree.inorder.length < rounds) :
    ∃ next result, rbt.call compare rounds action = .ok next ∧ next.Valid compare result ∧
      result.inorder = sequenceAfter compare rbt tree.inorder action ∧
      ∀ addr, (next.nodes addr).data = dataAfter rbt action addr := by
  obtain ⟨focus, ⟨total, balanced⟩, sorted⟩ := valid
  cases action with
  | insert new data =>
      have fresh : new ∉ tree.inorder := fun member => legal (focus.member_iff.mpr member)
      have ne_new : ∀ addr ∈ tree.inorder, addr ≠ new := fun addr member same =>
        fresh (same ▸ member)
      have stored : ∀ addr, ((rbt.setData new data).nodes addr).data =
          dataAfter rbt (.insert new data) addr := by
        intro addr
        simp only [setData, nodes_modify, dataAfter]
        split <;> rfl
      have storedOld : ∀ addr ∈ tree.inorder,
          ((rbt.setData new data).nodes addr).data = (rbt.nodes addr).data := by
        intro addr member
        rw [stored]
        exact if_neg (ne_new addr member)
      have storedNew : ((rbt.setData new data).nodes new).data = data := by
        rw [stored]
        exact if_pos rfl
      have focusStored : (rbt.setData new data).Focus .top tree :=
        focus.frame rfl fun addr member => by rw [setData, nodes_modify, if_neg (ne_new addr member)]
      obtain ⟨next, inserted, result, focusNext, placed, balancedNext, same⟩ :=
        focusStored.insert (fun treeVal externalVal => .ok (compare treeVal externalVal))
          (fun addr => compare (rbt.nodes addr).data data) balanced fresh
          (fun addr member => by rw [storedOld addr member, storedNew])
          (monotone_of_sorted preorder sorted data) enough
      refine ⟨next, result, inserted, ⟨focusNext, balancedNext, ?_⟩, placed,
        fun addr => (same addr).trans (stored addr)⟩
      rw [placed]
      have nextNew : (next.nodes new).data = data := (same new).trans storedNew
      have sortedNext := sorted_placeBefore preorder (fun addr => (rbt.nodes addr).data)
        (fun addr => (next.nodes addr).data) new sorted fun addr member => (same addr).trans (storedOld addr member)
      rwa [nextNew] at sortedNext
  | delete deletee =>
      obtain ⟨next, deleted, result, focusNext, erased, balancedNext, same⟩ :=
        focus.delete balanced (focus.member_iff.mp legal) enough
      refine ⟨next, result, deleted, ⟨focusNext, balancedNext, ?_⟩, erased, same⟩
      rw [erased]
      refine (sorted.sublist List.erase_sublist).imp fun {x y} ordered => ?_
      rwa [same, same]

/-- A step of the machine is a call with enough rounds. -/
theorem Valid.step (preorder : TotalPreorder compare) {tree : Tree Addr}
    (valid : rbt.Valid compare tree) {action : RbtreeCall Addr Data} {rounds : Nat}
    (legal : rbt.Legal action) (called : rbt.call compare rounds action = .ok next) :
    ∃ result, next.Valid compare result ∧
      result.inorder = sequenceAfter compare rbt tree.inorder action ∧
      ∀ addr, (next.nodes addr).data = dataAfter rbt action addr := by
  obtain ⟨next', result, called', validNext, sequence, data⟩ := valid.call_returns preorder legal
    (show tree.inorder.length < rounds + tree.inorder.length + 1 by omega)
  have fewer : rounds ≤ rounds + tree.inorder.length + 1 := by omega
  have more : Outcome.Extends (rbt.call compare rounds action)
      (rbt.call compare (rounds + tree.inorder.length + 1) action) := by
    cases action with
    | insert new data => exact rbtreeInsert_extends fewer _ _ _
    | delete deletee => exact rbtreeDelete_extends fewer _ _
  rw [more next called] at called'
  cases called'
  exact ⟨result, validNext, sequence, data⟩

theorem valid_of_reachable (preorder : TotalPreorder compare)
    (reached : (rbtreeMachine compare).Reachable rbt) : ∃ tree, rbt.Valid compare tree := by
  induction reached with
  | initial start =>
      obtain ⟨memory, rfl⟩ := start
      exact ⟨.nil, ⟨rfl, trivial, .nil⟩, ⟨0, .nil⟩, .nil⟩
  | step _ stepped inductionHypothesis =>
      obtain ⟨tree, valid⟩ := inductionHypothesis
      obtain ⟨legal, rounds, called⟩ := stepped
      obtain ⟨result, validNext, -⟩ := valid.step preorder legal called
      exact ⟨result, validNext⟩

/-- After every call of every run the tree is a red-black tree, and the next call
returns. -/
theorem balanced_of_reachable (preorder : TotalPreorder compare)
    (reached : (rbtreeMachine compare).Reachable rbt) :
    (∀ addr, rbt.root = some addr →
      (rbt.nodes addr).colour = .black ∧ (rbt.nodes addr).parent = none) ∧
    (∀ addr, rbt.Member addr → (rbt.nodes addr).colour = .red → ∀ child,
      (rbt.nodes addr).left = some child ∨ (rbt.nodes addr).right = some child →
        (rbt.nodes child).colour = .black) ∧
    (∃ height, ∀ count, rbt.BlackPath rbt.root count → count = height) ∧
    (∀ addr, rbt.Member addr → ∀ child,
      (rbt.nodes addr).left = some child ∨ (rbt.nodes addr).right = some child →
        (rbt.nodes child).parent = some addr) ∧
    (∀ action, rbt.Legal action → ∃ enough, ∀ rounds ≥ enough,
      ∃ next, rbt.call compare rounds action = .ok next) := by
  obtain ⟨tree, valid⟩ := valid_of_reachable preorder reached
  obtain ⟨focus, ⟨total, balanced⟩, -⟩ := id valid
  refine ⟨fun addr isRoot => ?_, fun addr member red child link => ?_, ⟨total, fun count path => ?_⟩,
    fun addr member child link => ?_, fun action legal => ⟨tree.inorder.length + 1, ?_⟩⟩
  · have rooted := focus.root_eq.symm.trans isRoot
    obtain ⟨colour, near, far, rfl⟩ := Tree.exists_branch .left rooted
    rw [focus.colour_eq]
    exact ⟨(Tree.colour_branch ..).symm.trans balanced.colour_eq, focus.parent_eq⟩
  · have inTree := focus.member_iff.mp member
    rcases link with left | right
    · exact focus.child_black .left balanced inTree red left
    · exact focus.child_black .right balanced inTree red right
  · rw [focus.root_eq] at path
    exact focus.holds.blackPath_eq balanced path
  · have inTree := focus.member_iff.mp member
    rcases link with left | right
    · exact (focus.child_parent .left inTree left).1
    · exact (focus.child_parent .right inTree right).1
  · intro rounds enough
    obtain ⟨next, -, called, -⟩ := valid.call_returns preorder legal enough
    exact ⟨next, called⟩

/-- In every state of every run the nodes form one sorted sequence; an insertion
puts the new node before the first one that is not smaller, a deletion takes its
node out, and no call moves data between nodes. -/
theorem sequence_of_reachable (preorder : TotalPreorder compare)
    (reached : (rbtreeMachine compare).Reachable rbt) :
    ∃ sequence, rbt.InOrder rbt.root sequence ∧ sequence.Nodup ∧
      sequence.Pairwise (fun x y => compare (rbt.nodes x).data (rbt.nodes y).data ≤ 0) ∧
      (∀ action, rbt.Legal action → ∃ enough, ∀ rounds ≥ enough,
        ∃ next, rbt.call compare rounds action = .ok next) ∧
      ∀ action next, (rbtreeMachine compare).step rbt action next →
        next.InOrder next.root (sequenceAfter compare rbt sequence action) ∧
        ∀ addr, (next.nodes addr).data = dataAfter rbt action addr := by
  obtain ⟨tree, valid⟩ := valid_of_reachable preorder reached
  obtain ⟨focus, -, sorted⟩ := id valid
  refine ⟨tree.inorder, focus.root_eq ▸ focus.holds.inOrder, focus.nodup, sorted,
    fun action legal => ⟨tree.inorder.length + 1, fun rounds enough => ?_⟩, ?_⟩
  · obtain ⟨next, -, called, -⟩ := valid.call_returns preorder legal enough
    exact ⟨next, called⟩
  · rintro action next ⟨legal, rounds, called⟩
    obtain ⟨result, ⟨focusNext, -⟩, sequence, data⟩ := valid.step preorder legal called
    refine ⟨?_, data⟩
    rw [focusNext.root_eq, ← sequence]
    exact focusNext.holds.inOrder

omit [DecidableEq Addr] in
/-- An in-order walk of at most `depth` levels. -/
def walk (rbt : Rbtree Addr Data) : (depth : Nat) → Option Addr → Option (List Addr)
  | _, none => some []
  | 0, some _ => none
  | depth + 1, some addr => do
      let before ← rbt.walk depth (rbt.nodes addr).left
      let after ← rbt.walk depth (rbt.nodes addr).right
      some (before ++ addr :: after)

omit [DecidableEq Addr] in
theorem meets_of_walk {depth : Nat} {pointer : Option Addr} {sequence : List Addr} {addr : Addr}
    (walked : rbt.walk depth pointer = some sequence) :
    rbt.Meets pointer addr ↔ addr ∈ sequence := by
  induction depth generalizing pointer sequence with
  | zero =>
      cases pointer with
      | none => cases walked; exact ⟨nofun, nofun⟩
      | some => cases walked
  | succ depth inductionHypothesis =>
      cases pointer with
      | none => cases walked; exact ⟨nofun, nofun⟩
      | some above =>
          simp only [walk, Option.bind_eq_bind, Option.bind_eq_some_iff] at walked
          obtain ⟨before, walkedBefore, after, walkedAfter, same⟩ := walked
          cases same
          rw [List.mem_append, List.mem_cons, ← inductionHypothesis walkedBefore,
            ← inductionHypothesis walkedAfter]
          constructor
          · intro met
            cases met with
            | here => exact .inr (.inl rfl)
            | left inLeft => exact .inl inLeft
            | right inRight => exact .inr (.inr inRight)
          · rintro (inLeft | rfl | inRight)
            · exact .left inLeft
            · exact .here
            · exact .right inRight

omit [DecidableEq Addr] in
theorem inOrder_of_walk {depth : Nat} {pointer : Option Addr} {sequence : List Addr}
    (walked : rbt.walk depth pointer = some sequence) : rbt.InOrder pointer sequence := by
  induction depth generalizing pointer sequence with
  | zero =>
      cases pointer with
      | none => cases walked; exact .null
      | some => cases walked
  | succ depth inductionHypothesis =>
      cases pointer with
      | none => cases walked; exact .null
      | some above =>
          simp only [walk, Option.bind_eq_bind, Option.bind_eq_some_iff] at walked
          obtain ⟨before, walkedBefore, after, walkedAfter, same⟩ := walked
          cases same
          exact .node (inductionHypothesis walkedBefore) (inductionHypothesis walkedAfter)

/-- A walk of eight levels finds the call legal. -/
def SeenLegal (rbt : Rbtree Addr Data) (call : RbtreeCall Addr Data) : Prop :=
  match rbt.walk 8 rbt.root, call with
  | some sequence, .insert new _ => new ∉ sequence
  | some sequence, .delete deletee => deletee ∈ sequence
  | none, _ => False

instance (rbt : Rbtree Addr Data) (call : RbtreeCall Addr Data) : Decidable (rbt.SeenLegal call) := by
  unfold SeenLegal
  split <;> infer_instance

omit [DecidableEq Addr] in
theorem SeenLegal.legal {call : RbtreeCall Addr Data} (seen : rbt.SeenLegal call) :
    rbt.Legal call := by
  unfold SeenLegal at seen
  split at seen
  · next sequence new data walked => exact fun member => seen ((meets_of_walk walked).mp member)
  · next sequence deletee walked => exact (meets_of_walk walked).mpr seen
  · exact seen.elim

/-- Seven insertions, two of them of equal keys, and the deletions of the root
with two children and of a leaf. -/
def mixedCalls : List (RbtreeCall Nat Int) :=
  [.insert 0 40, .insert 1 20, .insert 2 60, .insert 3 20, .insert 4 50, .insert 5 70,
    .delete 0, .insert 6 10, .delete 5]

/-- Memory before the first call. -/
def blankMemory : Rbtree Nat Int := rbtreeInitTree ⟨none, fun _ => ⟨0, none, none, none, .red⟩⟩

/-- The memory after these calls. -/
def mixedRun : Option (Rbtree Nat Int) :=
  Machine.execute SeenLegal (Rbtree.call (fun x y => x - y) 16) mixedCalls blankMemory

theorem reachable_of_execute {calls : List (RbtreeCall Nat Int)} {final : Rbtree Nat Int}
    (executed : Machine.execute SeenLegal (Rbtree.call (fun x y => x - y) 16) calls blankMemory =
      some final) : (rbtreeMachine fun x y => x - y).Reachable final := by
  have start : (rbtreeMachine fun x y => x - y).Reachable blankMemory := .initial ⟨_, rfl⟩
  refine start.execute ?_ executed
  exact fun _ _ _ seen called => ⟨SeenLegal.legal seen, 16, called⟩

theorem mixedRun_reachable {final : Rbtree Nat Int} (executed : mixedRun = some final) :
    (rbtreeMachine fun x y => x - y).Reachable final := reachable_of_execute executed

theorem subtraction_totalPreorder : TotalPreorder fun x y : Int => x - y where
  swap first second := by omega
  trans first second third := by omega

theorem mixedRun_balanced : ∃ final, mixedRun = some final ∧
    final.walk 8 final.root = some [6, 3, 1, 4, 2] ∧
    ∃ height, ∀ count, final.BlackPath final.root count → count = height := by
  have result : mixedRun.map (fun final => final.walk 8 final.root) =
      some (some [6, 3, 1, 4, 2]) := by decide
  obtain ⟨final, executed, walked⟩ := Option.map_eq_some_iff.mp result
  exact ⟨final, executed, walked,
    (balanced_of_reachable subtraction_totalPreorder (mixedRun_reachable executed)).2.2.1⟩

theorem mixedRun_sequence : ∃ final, mixedRun = some final ∧
    ∃ sequence, final.InOrder final.root sequence ∧ sequence.Nodup := by
  have result : mixedRun.isSome = true := by decide
  obtain ⟨final, executed⟩ := Option.isSome_iff_exists.mp result
  obtain ⟨sequence, ordered, nodup, -⟩ :=
    sequence_of_reachable subtraction_totalPreorder (mixedRun_reachable executed)
  exact ⟨final, executed, sequence, ordered, nodup⟩

end Rbtree

end Yaeos
