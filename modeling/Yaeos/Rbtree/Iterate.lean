import Yaeos.Rbtree.Bounds
import Yaeos.Rbtree.Run

/-!
# Iteration over a range of the red-black tree

From a node whose left subtree is passed over, the loop of `rbtree_iter_range`
calls its function on this node and on all nodes behind it in order.  The first
node of the range is found by `rbtree_search_min`, which may return any of the
equal ones.
-/

namespace Yaeos

namespace Rbtree

variable {Addr Data : Type}

/-- The calls of a function that is handed the nodes of a list until it returns false. -/
def callsUntilFalse (data : Addr → Data) (fn : RbtreeIterFn Data) :
    (calls : List Addr) → List Addr → List Addr
  | calls, [] => calls
  | calls, addr :: rest =>
      if fn (calls.map data) (data addr) = false then calls ++ [addr]
      else callsUntilFalse data fn (calls ++ [addr]) rest

theorem callsUntilFalse_append (data : Addr → Data) (fn : RbtreeIterFn Data) (nodes : List Addr)
    (calls : List Addr) : ∃ more, callsUntilFalse data fn calls nodes = calls ++ more := by
  induction nodes generalizing calls with
  | nil => exact ⟨[], (List.append_nil calls).symm⟩
  | cons addr rest inductionHypothesis =>
      rw [callsUntilFalse]
      split
      · exact ⟨[addr], rfl⟩
      · obtain ⟨more, same⟩ := inductionHypothesis (calls ++ [addr])
        exact ⟨addr :: more, by rw [same, List.append_assoc, List.singleton_append]⟩

theorem callsUntilFalse_isInit (data : Addr → Data) (fn : RbtreeIterFn Data) (nodes : List Addr)
    (calls : List Addr) : callsUntilFalse data fn calls nodes <+: calls ++ nodes := by
  induction nodes generalizing calls with
  | nil => simp [callsUntilFalse]
  | cons addr rest inductionHypothesis =>
      have split : calls ++ addr :: rest = calls ++ [addr] ++ rest := by simp
      rw [callsUntilFalse, split]
      by_cases stops : fn (calls.map data) (data addr) = false
      · rw [if_pos stops]
        exact List.prefix_append ..
      · rw [if_neg stops]
        exact inductionHypothesis (calls ++ [addr])

/-- The first call is with the first node. -/
theorem callsUntilFalse_head (data : Addr → Data) (fn : RbtreeIterFn Data) (nodes : List Addr) :
    (callsUntilFalse data fn [] nodes).head? = nodes.head? := by
  cases nodes with
  | nil => rfl
  | cons addr rest =>
      rw [callsUntilFalse]
      split
      · rfl
      · obtain ⟨more, same⟩ := callsUntilFalse_append data fn rest ([] ++ [addr])
        rw [same]
        rfl

/-- The loop ends with these calls. -/
def IterEnds [DecidableEq Addr] (rbt : Rbtree Addr Data) (valueTo : Data) (cmpf : RbtreeCmpFn Data)
    (fn : RbtreeIterFn Data) (cursor prev : Option Addr) (calls final : List Addr) : Prop :=
  ∃ rounds, rbtreeIterRangeLoop rbt valueTo cmpf fn rounds cursor prev calls = .ok final

/-- The calls from a state in which the nodes of a list come next. -/
def callsTo (rbt : Rbtree Addr Data) (fn : RbtreeIterFn Data) (above : Addr → Int)
    (calls nodes : List Addr) : List Addr :=
  callsUntilFalse (fun addr => (rbt.nodes addr).data) fn calls
    (nodes.takeWhile fun addr => decide (above addr ≤ 0))

variable [DecidableEq Addr] {rbt : Rbtree Addr Data} {valueTo : Data} {cmpf : RbtreeCmpFn Data}
  {fn : RbtreeIterFn Data} {above : Addr → Int} {ctx : Ctx Addr} {tree left right : Tree Addr}
  {colour : Colour} {key : Addr} {rest calls : List Addr}

/-- The left subtree of a node was passed. -/
theorem IterEnds.visit (compared : cmpf (rbt.nodes key).data valueTo = .ok (above key))
    (next : ∀ calls, rbt.IterEnds valueTo cmpf fn
      (if (rbt.nodes key).right ≠ none then (rbt.nodes key).right else (rbt.nodes key).parent)
      (some key) calls (rbt.callsTo fn above calls rest)) :
    rbt.IterEnds valueTo cmpf fn (some key) (rbt.nodes key).left calls
      (rbt.callsTo fn above calls (key :: rest)) := by
  by_cases within : above key ≤ 0
  · have kept : (key :: rest).takeWhile (fun addr => decide (above addr ≤ 0)) =
        key :: rest.takeWhile fun addr => decide (above addr ≤ 0) :=
      List.takeWhile_cons_of_pos (decide_eq_true within)
    have notAbove : ¬above key > 0 := Int.not_lt.mpr within
    unfold callsTo
    rw [kept, callsUntilFalse]
    by_cases stops : fn (calls.map fun addr => (rbt.nodes addr).data) (rbt.nodes key).data = false
    · refine ⟨1, ?_⟩
      simp only [rbtreeIterRangeLoop, if_true, compared, Outcome.ok_bind, if_neg notAbove,
        if_pos stops]
    · obtain ⟨rounds, ended⟩ := next (calls ++ [key])
      refine ⟨rounds + 1, ?_⟩
      simp only [rbtreeIterRangeLoop, if_true, compared, Outcome.ok_bind, if_neg notAbove,
        if_neg stops]
      exact ended
  · have dropped : (key :: rest).takeWhile (fun addr => decide (above addr ≤ 0)) = [] :=
      List.takeWhile_cons_of_neg (by simpa using within)
    refine ⟨1, ?_⟩
    unfold callsTo
    rw [dropped]
    simp only [rbtreeIterRangeLoop, if_true, compared, Outcome.ok_bind,
      if_pos (Int.not_le.mp within), callsUntilFalse]

/-- The right subtree of a node was passed. -/
theorem Focus.iterBack (focus : rbt.Focus ctx (.node colour left key right)) {child : Addr}
    (rooted : right.root = some child) {final : List Addr}
    (next : rbt.IterEnds valueTo cmpf fn ctx.parent (some key) calls final) :
    rbt.IterEnds valueTo cmpf fn (some key) (some child) calls final := by
  obtain ⟨⟨leftLink, rightLink, parentLink, -⟩, -⟩ := focus.holds
  have branch : rbt.Focus ctx (.branch .right colour right key left) := focus
  have notLeft : some child ≠ (rbt.nodes key).left := (branch.far_ne rooted).symm
  have isRight : some child = (rbt.nodes key).right := (rightLink.trans rooted).symm
  obtain ⟨rounds, ended⟩ := next
  refine ⟨rounds + 1, ?_⟩
  simp only [rbtreeIterRangeLoop, if_neg notLeft, if_pos isRight, parentLink]
  exact ended

/-- From a node on, with its left subtree passed. -/
theorem Focus.iterNode (focus : rbt.Focus ctx (.node colour left key right))
    (compared : cmpf (rbt.nodes key).data valueTo = .ok (above key))
    (enterRight : ∀ child, right.root = some child →
      (∀ calls, rbt.IterEnds valueTo cmpf fn (some key) (some child) calls
        (rbt.callsTo fn above calls rest)) →
      ∀ calls, rbt.IterEnds valueTo cmpf fn (some child) (some key) calls
        (rbt.callsTo fn above calls (right.inorder ++ rest)))
    (after : ∀ calls, rbt.IterEnds valueTo cmpf fn ctx.parent (some key) calls
      (rbt.callsTo fn above calls rest)) (calls : List Addr) :
    rbt.IterEnds valueTo cmpf fn (some key) left.root calls
      (rbt.callsTo fn above calls (key :: (right.inorder ++ rest))) := by
  obtain ⟨⟨leftLink, rightLink, parentLink, -⟩, -⟩ := focus.holds
  rw [← leftLink]
  refine IterEnds.visit compared fun calls => ?_
  rw [rightLink, parentLink]
  cases rooted : right.root with
  | none =>
      rw [if_neg (fun some_ => some_ rfl), Tree.root_eq_none.mp rooted]
      exact after calls
  | some child =>
      rw [if_pos (Option.some_ne_none child)]
      exact enterRight child rooted (fun calls => focus.iterBack rooted (after calls)) calls

/-- Into a subtree from the node above it. -/
theorem Focus.iterEnter {key parent : Addr} (focus : rbt.Focus ctx tree)
    (rooted : tree.root = some key) (inside : ctx.parent = some parent)
    (compared : Compares rbt cmpf valueTo above tree.inorder)
    (after : ∀ calls, rbt.IterEnds valueTo cmpf fn ctx.parent (some key) calls
      (rbt.callsTo fn above calls rest)) (calls : List Addr) :
    rbt.IterEnds valueTo cmpf fn (some key) ctx.parent calls
      (rbt.callsTo fn above calls (tree.inorder ++ rest)) := by
  induction tree generalizing ctx key parent rest calls with
  | nil => cases rooted
  | node colour left root right leftHypothesis rightHypothesis =>
      cases rooted
      obtain ⟨⟨leftLink, rightLink, parentLink, -⟩, -⟩ := focus.holds
      have comparedLeft : Compares rbt cmpf valueTo above left.inorder :=
        fun addr member => compared addr (by simp [Tree.inorder, member])
      have comparedRight : Compares rbt cmpf valueTo above right.inorder :=
        fun addr member => compared addr (by simp [Tree.inorder, member])
      have down : rbt.Focus (.frame .left colour root right ctx) left := focus_frame.mpr focus
      have downRight : rbt.Focus (.frame .right colour root left ctx) right := focus_frame.mpr focus
      have here := focus.iterNode (compared root (by simp [Tree.inorder]))
        (fun child isChild next => rightHypothesis downRight isChild rfl comparedRight next) after
      obtain ⟨-, -, apart⟩ := Ctx.nodup_plug.mp focus.nodup
      have outside : ∀ child, (child = left.root ∨ child = right.root) → some parent ≠ child := by
        rintro child isChild rfl
        refine apart ?_ (Ctx.parent_mem inside)
        rcases isChild with isLeft | isRight
        · simp [Tree.inorder, Tree.mem_of_root isLeft.symm]
        · simp [Tree.inorder, Tree.mem_of_root isRight.symm]
      have notLeft : some parent ≠ left.root := outside _ (.inl rfl)
      have notRight : some parent ≠ (rbt.nodes root).right := by
        rw [rightLink]
        exact outside _ (.inr rfl)
      have whole : (Tree.node colour left root right).inorder ++ rest =
          left.inorder ++ root :: (right.inorder ++ rest) := by simp [Tree.inorder]
      rw [whole, inside]
      cases leftRooted : left.root with
      | none =>
          obtain ⟨rounds, ended⟩ := here calls
          refine ⟨rounds + 1, ?_⟩
          rw [leftRooted] at leftLink ended
          simp only [rbtreeIterRangeLoop, if_neg notRight, leftLink, ne_eq, reduceCtorEq,
            not_true_eq_false, if_false, Tree.root_eq_none.mp leftRooted, Tree.inorder,
            List.nil_append]
          exact ended
      | some child =>
          have entered := leftHypothesis down leftRooted rfl comparedLeft
            (fun calls => by simpa only [Ctx.parent, leftRooted] using here calls) calls
          obtain ⟨rounds, ended⟩ := entered
          refine ⟨rounds + 1, ?_⟩
          rw [leftRooted] at leftLink notLeft
          simp only [rbtreeIterRangeLoop, leftLink, if_neg notLeft, if_neg notRight, ne_eq,
            reduceCtorEq, not_false_eq_true, if_true]
          exact ended

/-- Out of a subtree: the nodes after it come next. -/
theorem Focus.iterOut {key : Addr} (focus : rbt.Focus ctx tree) (rooted : tree.root = some key)
    (compared : Compares rbt cmpf valueTo above (ctx.plug tree).inorder) (calls : List Addr) :
    rbt.IterEnds valueTo cmpf fn ctx.parent (some key) calls
      (rbt.callsTo fn above calls ctx.after) := by
  induction ctx generalizing tree key calls with
  | top => exact ⟨0, rfl⟩
  | frame side colour other sibling outer inductionHypothesis =>
      have upper := focus_frame.mp focus
      have after := fun calls => inductionHypothesis upper (Tree.root_branch ..) compared calls
      have comparedAt : ∀ addr ∈ (Tree.branch side colour tree other sibling).inorder,
          cmpf (rbt.nodes addr).data valueTo = .ok (above addr) :=
        fun addr member => compared addr
          (show addr ∈ (outer.plug _).inorder from Ctx.mem_plug.mpr (.inl member))
      cases side with
      | left =>
          have focusSibling : rbt.Focus (.frame .right colour other tree outer) sibling :=
            focus_frame.mpr upper
          have here := Focus.iterNode upper (comparedAt other (by simp))
            (fun child isChild next => focusSibling.iterEnter isChild rfl
              (fun addr member => comparedAt addr (by simp [member])) next) after calls
          rw [rooted] at here
          exact here
      | right => exact Focus.iterBack upper rooted (after calls)

end Rbtree

theorem rbtreeIterRangeLoop_extends {Addr Data : Type} [DecidableEq Addr] {rounds more : Nat}
    (fewer : rounds ≤ more) (rbt : Rbtree Addr Data) (valueTo : Data) (cmpf : RbtreeCmpFn Data)
    (fn : RbtreeIterFn Data) (cursor prev : Option Addr) (calls : List Addr) :
    Outcome.Extends (rbtreeIterRangeLoop rbt valueTo cmpf fn rounds cursor prev calls)
      (rbtreeIterRangeLoop rbt valueTo cmpf fn more cursor prev calls) := by
  induction rounds generalizing more cursor prev calls with
  | zero =>
      cases cursor with
      | none => simp [rbtreeIterRangeLoop, Outcome.Extends]
      | some => simp [rbtreeIterRangeLoop, Outcome.Extends]
  | succ rounds inductionHypothesis =>
      obtain ⟨more, rfl⟩ := Nat.exists_eq_succ_of_ne_zero (Nat.ne_zero_of_lt fewer)
      have again := fun cursor prev calls =>
        inductionHypothesis (Nat.le_of_succ_le_succ fewer) cursor prev calls
      cases cursor with
      | none => simp [rbtreeIterRangeLoop, Outcome.Extends]
      | some cursor =>
          unfold rbtreeIterRangeLoop
          refine .ite (.seq _ fun _ => .ite (.refl _) (.ite (.refl _) (again _ _ _))) ?_
          exact .ite (again _ _ _) (.ite (again _ _ _) (again _ _ _))

theorem rbtreeIterRange_extends {Addr Data : Type} [DecidableEq Addr] {rounds more : Nat}
    (fewer : rounds ≤ more) (rbt : Rbtree Addr Data) (valueFrom valueTo : Data)
    (cmpf : RbtreeCmpFn Data) (fn : RbtreeIterFn Data) :
    Outcome.Extends (rbtreeIterRange rounds rbt valueFrom valueTo cmpf fn)
      (rbtreeIterRange more rbt valueFrom valueTo cmpf fn) :=
  .seq _ fun _ => .seq _ fun _ => .bind (rbtreeSearchMin_extends rbt valueFrom cmpf fewer)
    fun _ => .seq _ fun _ => rbtreeIterRangeLoop_extends fewer rbt valueTo cmpf fn _ _ _

/-- In a list without repetitions an element has one place. -/
theorem split_unique {Item : Type} {item : Item} {before after before' after' : List Item}
    (nodup : (before ++ item :: after).Nodup)
    (same : before ++ item :: after = before' ++ item :: after') :
    before = before' ∧ after = after' := by
  induction before generalizing before' with
  | nil =>
      cases before' with
      | nil => exact ⟨rfl, (List.cons.inj same).2⟩
      | cons first rest =>
          obtain ⟨rfl, isAfter⟩ := List.cons.inj same
          rw [isAfter] at nodup
          exact absurd (by simp) (List.nodup_cons.mp nodup).1
  | cons first rest inductionHypothesis =>
      cases before' with
      | nil =>
          obtain ⟨rfl, -⟩ := List.cons.inj same
          exact absurd (by simp) (List.nodup_cons.mp nodup).1
      | cons first' rest' =>
          obtain ⟨rfl, isRest⟩ := List.cons.inj same
          obtain ⟨rfl, isAfter⟩ := inductionHypothesis (List.nodup_cons.mp nodup).2 isRest
          exact ⟨rfl, isAfter⟩

/-- Along a list on which a condition does not come back, the items that meet it are
those up to the first one that does not. -/
theorem filter_eq_takeWhile {Item : Type} {condition : Item → Bool} {list : List Item}
    (once : list.Pairwise fun x y => condition y = true → condition x = true) :
    list.filter condition = list.takeWhile condition := by
  induction list with
  | nil => rfl
  | cons first rest inductionHypothesis =>
      obtain ⟨fromFirst, onceRest⟩ := List.pairwise_cons.mp once
      cases holds : condition first with
      | true =>
          rw [List.filter_cons_of_pos holds, List.takeWhile_cons_of_pos holds,
            inductionHypothesis onceRest]
      | false =>
          have fails : ¬condition first = true := by simp [holds]
          rw [List.filter_cons_of_neg fails, List.takeWhile_cons_of_neg fails,
            List.filter_eq_nil_iff]
          exact fun item member meets => fails (fromFirst item member meets)

namespace Rbtree

variable {Addr Data : Type} [DecidableEq Addr] {compare : Data → Data → Int}
  {rbt : Rbtree Addr Data} {tree : Tree Addr} {valueFrom valueTo : Data} {fn : RbtreeIterFn Data}

omit [DecidableEq Addr] in
/-- The nodes of a range, in order. -/
def nodesInRange (compare : Data → Data → Int) (rbt : Rbtree Addr Data) (valueFrom valueTo : Data)
    (sequence : List Addr) : List Addr :=
  sequence.filter fun addr => decide (0 ≤ compare (rbt.nodes addr).data valueFrom ∧
    compare (rbt.nodes addr).data valueTo ≤ 0)

/-- `rbtree_iter_range` calls the function on the nodes of the range in order, until it
returns false. -/
def IteratesRange (compare : Data → Data → Int) (rbt : Rbtree Addr Data) (valueFrom valueTo : Data)
    (fn : RbtreeIterFn Data) (sequence : List Addr) : Prop :=
  ∃ enough, ∀ rounds ≥ enough, rbtreeIterRange rounds rbt valueFrom valueTo
      (fun treeVal externalVal => .ok (compare treeVal externalVal)) fn =
    .ok (callsUntilFalse (fun addr => (rbt.nodes addr).data) fn []
      (rbt.nodesInRange compare valueFrom valueTo sequence))

omit [DecidableEq Addr] in
/-- Of the nodes that meet a condition the one above all others is the first. -/
def TopmostFirst (rbt : Rbtree Addr Data) (condition : Addr → Prop) : Prop :=
  ∀ top, rbt.Member top → condition top →
    (∀ above, rbt.Member above → condition above → rbt.Meets (some above) top → above = top) →
    ∀ addr, rbt.Meets (rbt.nodes top).left addr → ¬condition addr

omit [DecidableEq Addr] in
theorem Valid.monotone (valid : rbt.Valid compare tree) (preorder : TotalPreorder compare)
    (reference : Data) :
    Monotone (fun addr => compare (rbt.nodes addr).data reference) tree.inorder := by
  refine List.Pairwise.and (monotone_of_sorted preorder valid.2.2 reference) ?_
  refine valid.2.2.imp fun {x y} ordered above => ?_
  by_contra notAbove
  have within := preorder.trans _ _ _ ordered (Int.not_lt.mp notAbove)
  exact absurd above (Int.not_lt.mpr within)

/-- The loop from any node of the tree, with its left subtree passed. -/
theorem Focus.iterFrom {cmpf : RbtreeCmpFn Data} {above : Addr → Int} {before after : List Addr}
    {start : Addr} (focus : rbt.Focus .top tree) (split : tree.inorder = before ++ start :: after)
    (compared : Compares rbt cmpf valueTo above tree.inorder) (fn : RbtreeIterFn Data) :
    rbt.IterEnds valueTo cmpf fn (some start) (rbt.nodes start).left []
      (rbt.callsTo fn above [] (start :: after)) := by
  have member : start ∈ tree.inorder := by simp [split]
  obtain ⟨inner, colour, left, right, here, samePlug⟩ := focus.at_key member
  have sequence : tree.inorder = (inner.before ++ left.inorder) ++ start ::
      (right.inorder ++ inner.after) := by
    rw [← samePlug]
    exact inner.inorder_plug_node ..
  have nodup : tree.inorder.Nodup := focus.nodup
  have inRight : ∀ addr ∈ right.inorder, addr ∈ tree.inorder := fun addr isRight => by
    rw [sequence]
    simp [isRight]
  rw [split] at nodup sequence
  obtain ⟨-, isAfter⟩ := split_unique nodup sequence
  obtain ⟨⟨leftLink, -⟩, -⟩ := here.holds
  have down : rbt.Focus (.frame .right colour start left inner) right := focus_frame.mpr here
  have plugged : Compares rbt cmpf valueTo above
      (inner.plug (.node colour left start right)).inorder := samePlug.symm ▸ compared
  rw [leftLink, isAfter]
  exact here.iterNode (compared start member)
    (fun child isChild next => down.iterEnter isChild rfl
      (fun addr isRight => compared addr (inRight addr isRight)) next)
    (fun calls => here.iterOut rfl plugged calls) []

/-- From the node that `rbtree_search_min` returns on. -/
theorem Focus.iterRange {before after : List Addr} {start : Addr} (focus : rbt.Focus .top tree)
    (split : tree.inorder = before ++ start :: after) (ordered : compare valueFrom valueTo < 0)
    {enough : Nat} (searched : ∀ rounds ≥ enough, rbtreeSearchMin rounds rbt valueFrom
      (fun treeVal externalVal => .ok (compare treeVal externalVal)) = .ok (some start)) :
    ∃ enough, ∀ rounds ≥ enough, rbtreeIterRange rounds rbt valueFrom valueTo
        (fun treeVal externalVal => .ok (compare treeVal externalVal)) fn =
      .ok (rbt.callsTo fn (fun addr => compare (rbt.nodes addr).data valueTo) []
        (start :: after)) := by
  have compared : Compares rbt (fun treeVal externalVal => .ok (compare treeVal externalVal))
      valueTo (fun addr => compare (rbt.nodes addr).data valueTo) tree.inorder := fun _ _ => rfl
  obtain ⟨rounds, ended⟩ := focus.iterFrom split compared fn
  refine ⟨enough + rounds, fun more isMore => ?_⟩
  have looped := rbtreeIterRangeLoop_extends (by omega : rounds ≤ more) rbt valueTo _ fn _ _ _ _ ended
  have found := searched more (by omega)
  have reads : rbt.node (some start) = .ok (rbt.nodes start) := rfl
  simp only [rbtreeIterRange, Outcome.ok_bind, kassert_ok ordered, found, reads]
  exact looped

/-- The loop ends, whatever the comparison and the function are, after calls with the nodes
from the start on that are not above the end, up to the first result that is false. -/
theorem iterRangeLoop_from {cmpf : RbtreeCmpFn Data} {above : Addr → Int}
    {before after : List Addr} {start : Addr} (focus : rbt.Focus .top tree)
    (split : tree.inorder = before ++ start :: after)
    (compared : Compares rbt cmpf valueTo above tree.inorder) (fn : RbtreeIterFn Data) :
    ∃ enough, ∀ rounds ≥ enough, ∃ calls,
      rbtreeIterRangeLoop rbt valueTo cmpf fn rounds (some start) (rbt.nodes start).left [] =
        .ok calls ∧
      calls = callsUntilFalse (fun addr => (rbt.nodes addr).data) fn []
        ((start :: after).takeWhile fun addr => decide (above addr ≤ 0)) ∧
      calls <+: start :: after ∧ calls.Nodup := by
  obtain ⟨enough, ended⟩ := focus.iterFrom split compared fn
  refine ⟨enough, fun rounds isMore =>
    ⟨_, rbtreeIterRangeLoop_extends isMore rbt valueTo cmpf fn _ _ _ _ ended, rfl, ?_⟩⟩
  have isPrefix := (callsUntilFalse_isInit (fun addr => (rbt.nodes addr).data) fn _ []).trans
    (List.takeWhile_prefix (l := start :: after) fun addr => decide (above addr ≤ 0))
  have nodup : (before ++ start :: after).Nodup := split ▸ focus.nodup
  exact ⟨isPrefix, (List.nodup_append.mp nodup).2.1.sublist isPrefix.sublist⟩

/-- From the root of three nodes to the end, of which the last is too great. -/
theorem threeNodes_iterFrom : ∃ enough, ∀ rounds ≥ enough, ∃ calls,
    rbtreeIterRangeLoop threeNodes 25 (fun x y => .ok (x - y)) (fun _ _ => true) rounds (some 1)
      (some 0) [] = .ok calls ∧ calls = [1] ∧ calls <+: [1, 2] ∧ calls.Nodup :=
  iterRangeLoop_from threeNodes_focus (show threeTree.inorder = [0] ++ 1 :: [2] from rfl)
    (threeNodes_compared 25) fun _ _ => true

omit [DecidableEq Addr] in
/-- Below a node of a subtree there is the subtree only. -/
theorem Holds.meets_below {parent : Option Addr} {above addr : Addr} (holds : rbt.Holds parent tree)
    (member : above ∈ tree.inorder) (met : rbt.Meets (some above) addr) : addr ∈ tree.inorder := by
  induction tree generalizing parent with
  | nil => cases member
  | node colour left key right leftHypothesis rightHypothesis =>
      obtain ⟨links, leftHolds, rightHolds⟩ := id holds
      simp only [Tree.inorder, List.mem_append, List.mem_cons] at member ⊢
      rcases member with inLeft | rfl | inRight
      · exact .inl (leftHypothesis leftHolds inLeft)
      · simpa [Tree.inorder] using (holds.meets_iff).mp met
      · exact .inr (.inr (rightHypothesis rightHolds inRight))

omit [DecidableEq Addr] in
/-- The range starts where the nodes stop being smaller than its lower bound. -/
theorem nodesInRange_split {before after : List Addr} (valid : rbt.Valid compare tree)
    (preorder : TotalPreorder compare) (split : tree.inorder = before ++ after)
    (smaller : ∀ addr ∈ before, compare (rbt.nodes addr).data valueFrom < 0)
    (notSmaller : ∀ addr ∈ after, 0 ≤ compare (rbt.nodes addr).data valueFrom) :
    rbt.nodesInRange compare valueFrom valueTo tree.inorder =
      after.takeWhile fun addr => decide (compare (rbt.nodes addr).data valueTo ≤ 0) := by
  have monotone := valid.monotone preorder valueTo
  unfold nodesInRange
  rw [split, List.filter_append]
  have none_ : before.filter (fun addr => decide (0 ≤ compare (rbt.nodes addr).data valueFrom ∧
      compare (rbt.nodes addr).data valueTo ≤ 0)) = [] := by
    rw [List.filter_eq_nil_iff]
    intro addr member
    have isSmaller := smaller addr member
    simp only [decide_eq_true_eq, not_and]
    omega
  rw [none_, List.nil_append]
  have upper : after.filter (fun addr => decide (0 ≤ compare (rbt.nodes addr).data valueFrom ∧
      compare (rbt.nodes addr).data valueTo ≤ 0)) =
      after.filter fun addr => decide (compare (rbt.nodes addr).data valueTo ≤ 0) := by
    refine List.filter_congr fun addr member => ?_
    simp only [notSmaller addr member, true_and]
  rw [upper]
  refine filter_eq_takeWhile ?_
  rw [split] at monotone
  refine (List.pairwise_append.mp monotone).2.1.imp fun {x y} turns within => ?_
  simp only [decide_eq_true_eq] at within ⊢
  by_contra above
  exact absurd (turns.2 (Int.not_le.mp above)) (Int.not_lt.mpr within)

/-- When no node that compares equal lies to the left of the start, the calls are those
of the range. -/
theorem Valid.iterates {before after : List Addr} {start : Addr} (valid : rbt.Valid compare tree)
    (preorder : TotalPreorder compare) (ordered : compare valueFrom valueTo < 0)
    (split : tree.inorder = before ++ start :: after)
    (smaller : ∀ addr ∈ before, compare (rbt.nodes addr).data valueFrom < 0)
    (notSmaller : 0 ≤ compare (rbt.nodes start).data valueFrom) {enough : Nat}
    (searched : ∀ rounds ≥ enough, rbtreeSearchMin rounds rbt valueFrom
      (fun treeVal externalVal => .ok (compare treeVal externalVal)) = .ok (some start)) :
    rbt.IteratesRange compare valueFrom valueTo fn tree.inorder := by
  obtain ⟨more, iterated⟩ := @Focus.iterRange _ _ _ compare rbt tree valueFrom valueTo fn _ _ _
    valid.1 split ordered _ searched
  have monotone := valid.monotone preorder valueFrom
  rw [split] at monotone
  have fromStart := (List.pairwise_cons.mp (List.pairwise_append.mp monotone).2.1).1
  refine ⟨more, fun rounds isMore => ?_⟩
  rw [iterated rounds isMore, nodesInRange_split valid preorder split smaller]
  · rfl
  · intro addr member
    rcases List.mem_cons.mp member with rfl | later
    · exact notSmaller
    · exact (fromStart addr later).1 notSmaller

/-- When a node that compares equal lies to the left of the start, the first call is not
the first of the range. -/
theorem Valid.iterates_late {before after : List Addr} {start addr : Addr}
    (valid : rbt.Valid compare tree) (preorder : TotalPreorder compare)
    (ordered : compare valueFrom valueTo < 0) (split : tree.inorder = before ++ start :: after)
    (startEqual : compare (rbt.nodes start).data valueFrom = 0) (member : addr ∈ before)
    (equal : compare (rbt.nodes addr).data valueFrom = 0) {enough : Nat}
    (searched : ∀ rounds ≥ enough, rbtreeSearchMin rounds rbt valueFrom
      (fun treeVal externalVal => .ok (compare treeVal externalVal)) = .ok (some start)) :
    ¬rbt.IteratesRange compare valueFrom valueTo fn tree.inorder := by
  have within : ∀ addr, compare (rbt.nodes addr).data valueFrom = 0 →
      compare (rbt.nodes addr).data valueTo ≤ 0 := fun addr isEqual =>
    preorder.trans _ _ _ (Int.le_of_eq isEqual) (Int.le_of_lt ordered)
  rintro ⟨enough', claimed⟩
  obtain ⟨more, iterated⟩ := @Focus.iterRange _ _ _ compare rbt tree valueFrom valueTo fn _ _ _
    valid.1 split ordered _ searched
  have same := (claimed (enough' + more) (Nat.le_add_right ..)).symm.trans
    (iterated (enough' + more) (Nat.le_add_left ..))
  have heads := congrArg List.head? (Except.ok.inj same)
  have called : (start :: after).takeWhile
      (fun addr => decide (compare (rbt.nodes addr).data valueTo ≤ 0)) = start :: after.takeWhile
        fun addr => decide (compare (rbt.nodes addr).data valueTo ≤ 0) :=
    List.takeWhile_cons_of_pos (decide_eq_true (within start startEqual))
  rw [callsTo, callsUntilFalse_head, callsUntilFalse_head, called] at heads
  have first : start ∈ rbt.nodesInRange compare valueFrom valueTo before := by
    unfold nodesInRange at heads ⊢
    rw [split, List.filter_append, List.head?_append] at heads
    have kept : addr ∈ before.filter fun addr => decide
        (0 ≤ compare (rbt.nodes addr).data valueFrom ∧
          compare (rbt.nodes addr).data valueTo ≤ 0) := by
      refine List.mem_filter.mpr ⟨member, decide_eq_true ⟨Int.le_of_eq equal.symm, within addr equal⟩⟩
    obtain ⟨head, tail, isCons⟩ := List.exists_cons_of_ne_nil (List.ne_nil_of_mem kept)
    rw [isCons] at heads ⊢
    cases heads
    exact List.mem_cons_self ..
  have isBefore : start ∈ before := List.mem_of_mem_filter first
  have nodup : tree.inorder.Nodup := valid.1.nodup
  rw [split] at nodup
  exact (List.nodup_append.mp nodup).2.2 start isBefore start (List.mem_cons_self ..) rfl

omit [DecidableEq Addr] in
/-- A node that compares equal, with all others below it, is above all others. -/
theorem Focus.topmostFirst_iff {inner : Ctx Addr} {colour : Colour} {left right : Tree Addr}
    {found : Addr} {result : Addr → Int} (focus : rbt.Focus inner (.node colour left found right))
    (bracketed : Bracketed result inner) (equal : result found = 0) :
    rbt.TopmostFirst (fun addr => result addr = 0) ↔ ∀ addr ∈ left.inorder, result addr ≠ 0 := by
  have whole : rbt.Focus .top (inner.plug (.node colour left found right)) := focus_plug.mp focus
  have holds := focus.holds
  obtain ⟨⟨leftLink, -⟩, leftHolds, rightHolds⟩ := id holds
  have inside : ∀ addr, rbt.Member addr → result addr = 0 →
      addr ∈ (Tree.node colour left found right).inorder := by
    intro addr member isEqual
    rcases Ctx.mem_plug.mp (whole.member_iff.mp member) with here | outside
    · exact here
    · rcases List.mem_append.mp outside with isBefore | isAfter
      · exact absurd isEqual (Int.ne_of_lt (bracketed.low addr isBefore))
      · exact absurd isEqual (Int.ne_of_gt (bracketed.high addr isAfter))
  have isMember : rbt.Member found :=
    whole.member_iff.mpr (Ctx.mem_plug.mpr (.inl (by simp [Tree.inorder])))
  have nodup := (Tree.nodup_branch .left colour left found right).mp
    (Ctx.nodup_plug.mp focus.nodup).1
  have leftMeets : ∀ addr, rbt.Meets (rbt.nodes found).left addr ↔ addr ∈ left.inorder := by
    intro addr
    rw [leftLink]
    exact leftHolds.meets_iff
  constructor
  · intro first addr member
    refine first found isMember equal (fun above aboveMember aboveEqual met => ?_) addr
      ((leftMeets addr).mpr member)
    have below := inside above aboveMember aboveEqual
    simp only [Tree.inorder, List.mem_append, List.mem_cons] at below
    rcases below with inLeft | same | inRight
    · exact absurd (leftHolds.meets_below inLeft met) nodup.1.1
    · exact same
    · exact absurd (rightHolds.meets_below inRight met) nodup.1.2
  · intro leftDiffers top topMember topEqual unique addr met
    have same := unique found isMember equal ((holds.meets_iff).mpr (inside top topMember topEqual))
    subst same
    exact leftDiffers addr ((leftMeets addr).mp met)

/-- `rbtree_iter_range` does its work exactly if some node is not smaller than the lower
bound and the topmost of the nodes equal to this bound is the first of them. -/
theorem Valid.iterRange_iff (valid : rbt.Valid compare tree) (preorder : TotalPreorder compare)
    (ordered : compare valueFrom valueTo < 0) :
    rbt.IteratesRange compare valueFrom valueTo fn tree.inorder ↔
      (∃ addr ∈ tree.inorder, 0 ≤ compare (rbt.nodes addr).data valueFrom) ∧
        rbt.TopmostFirst fun addr => compare (rbt.nodes addr).data valueFrom = 0 := by
  have monotone := valid.monotone preorder valueFrom
  have compared : Compares rbt (fun treeVal externalVal => .ok (compare treeVal externalVal))
      valueFrom (fun addr => compare (rbt.nodes addr).data valueFrom) tree.inorder :=
    fun _ _ => rfl
  by_cases none_ : tree = .nil
  · subst none_
    have isEmpty : rbt.root = none := valid.1.around
    refine iff_of_false ?_ fun ⟨⟨addr, member, _⟩, _⟩ => List.not_mem_nil member
    rintro ⟨enough, claimed⟩
    have returned := claimed enough (Nat.le_refl _)
    have searched : rbtreeSearchMin enough rbt valueFrom
        (fun treeVal externalVal => .ok (compare treeVal externalVal)) = .ok none := by
      rw [rbtreeSearchMin, isEmpty]
      cases enough <;> rfl
    have reads : rbt.node none = .error .nullDeref := rfl
    simp only [rbtreeIterRange, Outcome.ok_bind, kassert_ok ordered, searched, reads,
      Outcome.error_bind, reduceCtorEq] at returned
  · have ended := fun rounds enough => @Focus.searchMin _ _ _ _ _ _ _ rounds valid.1 compared
      monotone none_ enough
    have extend {found : Option Addr} (searched : rbtreeSearchMin (2 * tree.inorder.length) rbt
        valueFrom (fun treeVal externalVal => .ok (compare treeVal externalVal)) = .ok found) :
        ∀ rounds ≥ 2 * tree.inorder.length, rbtreeSearchMin rounds rbt valueFrom
          (fun treeVal externalVal => .ok (compare treeVal externalVal)) = .ok found :=
      fun rounds enough => rbtreeSearchMin_extends rbt valueFrom _ enough found searched
    have atEnd := ended _ (Nat.le_refl _)
    generalize isOutcome : rbtreeSearchMin (2 * tree.inorder.length) rbt valueFrom
      (fun treeVal externalVal => .ok (compare treeVal externalVal)) = outcome at atEnd
    cases atEnd with
    | @equal inner colour left right found here samePlug bracketed equal =>
        have split : tree.inorder = (inner.before ++ left.inorder) ++ found ::
            (right.inorder ++ inner.after) := by
          rw [← samePlug]
          exact inner.inorder_plug_node ..
        have member : found ∈ tree.inorder := by simp [split]
        rw [here.topmostFirst_iff bracketed equal]
        constructor
        · intro iterates
          refine ⟨⟨found, member, Int.le_of_eq equal.symm⟩, fun addr isLeft isEqual => ?_⟩
          exact valid.iterates_late preorder ordered split equal (List.mem_append_right _ isLeft)
            isEqual (extend isOutcome) iterates
        · rintro ⟨-, leftDiffers⟩
          refine valid.iterates preorder ordered split (fun addr isBefore => ?_)
            (Int.le_of_eq equal.symm) (extend isOutcome)
          rcases List.mem_append.mp isBefore with outside | isLeft
          · exact bracketed.low addr outside
          · rw [split] at monotone
            have upTo := (List.pairwise_append.mp monotone).2.2 addr isBefore found
              (List.mem_cons_self ..)
            by_contra notSmaller
            have differs := leftDiffers addr isLeft
            have greater : 0 < compare (rbt.nodes addr).data valueFrom := by omega
            exact absurd equal (Int.ne_of_gt (upTo.2 greater))
    | @between before after split smaller greater =>
        have noEqual : rbt.TopmostFirst fun addr => compare (rbt.nodes addr).data valueFrom = 0 := by
          intro top topMember topEqual
          have member := valid.1.member_iff.mp topMember
          rw [split] at member
          rcases List.mem_append.mp member with isBefore | isAfter
          · exact absurd topEqual (Int.ne_of_lt (smaller top isBefore))
          · exact absurd topEqual (Int.ne_of_gt (greater top isAfter))
        cases after with
        | nil =>
            rw [List.append_nil] at split
            refine iff_of_false ?_ ?_
            · rintro ⟨enough, claimed⟩
              have returned := claimed (enough + 2 * tree.inorder.length) (Nat.le_add_right ..)
              have stops := (ended (enough + 2 * tree.inorder.length) (Nat.le_add_left ..)).past
                (fun addr member => smaller addr (split ▸ member))
              simp only [rbtreeIterRange, Outcome.ok_bind, kassert_ok ordered, stops,
                Outcome.error_bind, reduceCtorEq] at returned
            · rintro ⟨⟨addr, member, notSmaller⟩, -⟩
              exact absurd (smaller addr (split ▸ member)) (Int.not_lt.mpr notSmaller)
        | cons found rest =>
            have isGreater := greater found (List.mem_cons_self ..)
            refine iff_of_true ?_ ⟨⟨found, by simp [split], Int.le_of_lt isGreater⟩, noEqual⟩
            exact valid.iterates preorder ordered split smaller (Int.le_of_lt isGreater)
              (extend isOutcome)

/-- In every state of every run, for every range and every function. -/
theorem iterRange_of_reachable (preorder : TotalPreorder compare)
    (reached : (rbtreeMachine compare).Reachable rbt) :
    ∃ sequence, rbt.InOrder rbt.root sequence ∧
      ∀ valueFrom valueTo, compare valueFrom valueTo < 0 → ∀ fn,
        (rbt.IteratesRange compare valueFrom valueTo fn sequence ↔
          (∃ addr, rbt.Member addr ∧ 0 ≤ compare (rbt.nodes addr).data valueFrom) ∧
            rbt.TopmostFirst fun addr => compare (rbt.nodes addr).data valueFrom = 0) := by
  obtain ⟨tree, valid⟩ := valid_of_reachable preorder reached
  have focus := valid.1
  refine ⟨tree.inorder, focus.root_eq ▸ focus.holds.inOrder, fun valueFrom valueTo ordered fn => ?_⟩
  rw [valid.iterRange_iff preorder ordered]
  simp only [focus.member_iff]

/-- The range from 15 to 55 of the tree of `mixedRun`. -/
theorem mixedRun_iterRange : ∃ final, mixedRun = some final ∧
    ∃ sequence, final.InOrder final.root sequence ∧
      (final.IteratesRange (fun x y => x - y) 15 55 (fun _ _ => true) sequence ↔
        (∃ addr, final.Member addr ∧ 0 ≤ (final.nodes addr).data - 15) ∧
          final.TopmostFirst fun addr => (final.nodes addr).data - 15 = 0) := by
  have result : mixedRun.isSome = true := by decide
  obtain ⟨final, executed⟩ := Option.isSome_iff_exists.mp result
  obtain ⟨sequence, ordered, iterates⟩ :=
    iterRange_of_reachable subtraction_totalPreorder (mixedRun_reachable executed)
  exact ⟨final, executed, sequence, ordered, iterates 15 55 (by decide) _⟩

/-- Three nodes with equal keys. -/
def equalRun : Option (Rbtree Nat Int) :=
  Machine.execute SeenLegal (Rbtree.call (fun x y => x - y) 16)
    [.insert 0 10, .insert 1 10, .insert 2 10] blankMemory

/-- The node in the middle is found first, and the one before it is left out; from 11 on
there is no node, and `NULL` is followed. -/
theorem equalRun_iterRange : ∃ final, equalRun = some final ∧
    (rbtreeMachine fun x y => x - y).Reachable final ∧ final.InOrder final.root [2, 1, 0] ∧
    ¬final.IteratesRange (fun x y => x - y) 10 20 (fun _ _ => true) [2, 1, 0] ∧
    rbtreeIterRange 16 final 11 20 (fun x y => .ok (x - y)) (fun _ _ => true) =
      .error .nullDeref := by
  have result : equalRun.map (fun final => (final.walk 8 final.root,
      rbtreeIterRange 16 final 10 20 (fun x y => .ok (x - y)) (fun _ _ => true),
      rbtreeIterRange 16 final 11 20 (fun x y => .ok (x - y)) (fun _ _ => true),
      (final.nodes 2).data)) =
    some (some [2, 1, 0], .ok [1, 0], .error .nullDeref, 10) := by decide
  obtain ⟨final, executed, isResult⟩ := Option.map_eq_some_iff.mp result
  simp only [Prod.mk.injEq] at isResult
  obtain ⟨walked, iterated, stops, key⟩ := isResult
  refine ⟨final, executed, reachable_of_execute executed, inOrder_of_walk walked, ?_, stops⟩
  rintro ⟨enough, claimed⟩
  have more := rbtreeIterRange_extends (Nat.le_add_right 16 enough) final 10 20 _ _ _ iterated
  have called := Except.ok.inj ((claimed _ (Nat.le_add_left ..)).symm.trans more)
  -- The range begins with node 2, the first call is with node 1.
  have heads := congrArg List.head? called
  rw [callsUntilFalse_head, nodesInRange, List.filter_cons_of_pos (by rw [key]; decide)] at heads
  cases heads

end Rbtree

end Yaeos
