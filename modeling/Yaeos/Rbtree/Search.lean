import Yaeos.Rbtree.Focus

/-!
# Searches in the red-black tree

A comparison with a limit is `Monotone` along a sequence when its sign never goes
down: first the smaller nodes, then the equal ones, then the greater ones.  A
search goes down with everything before its place smaller and everything after
it greater (`Bracketed`), whichever shape the tree has.
-/

namespace Yaeos

namespace Rbtree

variable {Addr Data : Type} {rbt : Rbtree Addr Data} {cmpf : RbtreeCmpFn Data} {limit : Data}
  {result : Addr → Int} {ctx : Ctx Addr} {tree : Tree Addr} {parent : Option Addr} {rounds : Nat}

/-- The sign of the comparison with the limit never goes down. -/
def Monotone (result : Addr → Int) (sequence : List Addr) : Prop :=
  sequence.Pairwise fun x y => (0 ≤ result x → 0 ≤ result y) ∧ (0 < result x → 0 < result y)

/-- The comparisons of the nodes of the sequence with the limit return. -/
def Compares (rbt : Rbtree Addr Data) (cmpf : RbtreeCmpFn Data) (limit : Data)
    (result : Addr → Int) (sequence : List Addr) : Prop :=
  ∀ addr ∈ sequence, cmpf (rbt.nodes addr).data limit = .ok (result addr)

theorem Monotone.split {before after : List Addr} {key : Addr}
    (monotone : Monotone result (before ++ key :: after)) :
    (0 < result key → ∀ addr ∈ after, 0 < result addr) ∧
      (result key < 0 → ∀ addr ∈ before, result addr < 0) := by
  obtain ⟨-, fromKey, across⟩ := List.pairwise_append.mp monotone
  refine ⟨fun greater addr member => ?_, fun smaller addr member => ?_⟩
  · exact ((List.pairwise_cons.mp fromKey).1 addr member).2 greater
  · by_contra notSmaller
    have notNegative := (across addr member key (by simp)).1 (Int.not_lt.mp notSmaller)
    omega

/-- `rbtree_search` returns a node that compares equal, or there is none. -/
theorem Holds.searchLoop (holds : rbt.Holds parent tree)
    (compared : Compares rbt cmpf limit result tree.inorder)
    (monotone : Monotone result tree.inorder) (enough : tree.inorder.length ≤ rounds) :
    ∃ found, rbtreeSearchLoop rbt limit cmpf rounds tree.root = .ok found ∧
      (∀ addr, found = some addr → addr ∈ tree.inorder ∧ result addr = 0) ∧
      (found = none → ∀ addr ∈ tree.inorder, result addr ≠ 0) := by
  induction tree generalizing parent rounds with
  | nil => exact ⟨none, by cases rounds <;> rfl, by simp, by simp [Tree.inorder]⟩
  | node colour left key right leftHypothesis rightHypothesis =>
      obtain ⟨⟨leftLink, rightLink, -⟩, leftHolds, rightHolds⟩ := holds
      simp only [Tree.inorder, List.length_append, List.length_cons] at enough
      obtain ⟨rounds, rfl⟩ : ∃ fewer, rounds = fewer + 1 := ⟨rounds - 1, by omega⟩
      have here := compared key (by simp [Tree.inorder])
      obtain ⟨greaterAfter, smallerBefore⟩ := monotone.split
      obtain ⟨leftMonotone, rightMonotone, -⟩ := List.pairwise_append.mp monotone
      rw [Tree.root, rbtreeSearchLoop, here, Outcome.ok_bind]
      rcases Int.lt_trichotomy (result key) 0 with smaller | equal | greater
      · obtain ⟨found, searched, some_, none_⟩ := @rightHypothesis _ rounds rightHolds
          (fun addr member => compared addr (by simp [Tree.inorder, member]))
          (List.pairwise_cons.mp rightMonotone).2 (by omega)
        rw [if_neg (by omega), if_neg (by omega), kassert_ok smaller, Outcome.ok_bind, rightLink]
        refine ⟨found, searched, fun addr isFound => ?_, fun nothing addr member => ?_⟩
        · exact ⟨by simp [Tree.inorder, (some_ addr isFound).1], (some_ addr isFound).2⟩
        · simp only [Tree.inorder, List.mem_append, List.mem_cons] at member
          rcases member with inLeft | rfl | inRight
          · have := smallerBefore smaller addr inLeft
            omega
          · omega
          · exact none_ nothing addr inRight
      · rw [if_pos equal]
        exact ⟨some key, rfl, by simpa [Tree.inorder] using equal, by simp⟩
      · obtain ⟨found, searched, some_, none_⟩ := @leftHypothesis _ rounds leftHolds
          (fun addr member => compared addr (by simp [Tree.inorder, member]))
          leftMonotone (by omega)
        rw [if_neg (by omega), if_pos greater, leftLink]
        refine ⟨found, searched, fun addr isFound => ?_, fun nothing addr member => ?_⟩
        · exact ⟨by simp [Tree.inorder, (some_ addr isFound).1], (some_ addr isFound).2⟩
        · simp only [Tree.inorder, List.mem_append, List.mem_cons] at member
          rcases member with inLeft | rfl | inRight
          · exact none_ nothing addr inLeft
          · omega
          · have := greaterAfter greater addr inRight
            omega

/-- Everything before the hole is smaller than the limit, everything after it is
greater. -/
structure Bracketed (result : Addr → Int) (ctx : Ctx Addr) : Prop where
  low : ∀ addr ∈ ctx.before, result addr < 0
  high : ∀ addr ∈ ctx.after, 0 < result addr

/-- On which side of a node that compares like this the limit belongs. -/
def Towards : Side → Int → Prop
  | .left, cmpResult => 0 < cmpResult
  | .right, cmpResult => cmpResult < 0

/-- One step down in the direction of the limit. -/
theorem Bracketed.down (side : Side) {colour : Colour} {key : Addr} {near far : Tree Addr}
    (bracketed : Bracketed result ctx)
    (monotone : Monotone result (ctx.plug (.branch side colour near key far)).inorder)
    (towards : Towards side (result key)) :
    Bracketed result (.frame side colour key far ctx) := by
  cases side with
  | left =>
      have sequence : (ctx.plug (.branch .left colour near key far)).inorder =
          (ctx.before ++ near.inorder) ++ key :: (far.inorder ++ ctx.after) :=
        ctx.inorder_plug_node ..
      rw [sequence] at monotone
      refine ⟨bracketed.low, fun addr member => ?_⟩
      simp only [Ctx.after, List.cons_append, List.mem_cons] at member
      rcases member with rfl | after
      · exact towards
      · exact monotone.split.1 towards addr after
  | right =>
      have sequence : (ctx.plug (.branch .right colour near key far)).inorder =
          (ctx.before ++ far.inorder) ++ key :: (near.inorder ++ ctx.after) :=
        ctx.inorder_plug_node ..
      rw [sequence] at monotone
      refine ⟨fun addr member => ?_, bracketed.high⟩
      simp only [Ctx.before, List.mem_append, List.mem_singleton] at member
      rcases member with outer | before | rfl
      · exact bracketed.low addr outer
      · exact monotone.split.2 towards addr (by simp [before])
      · exact towards

/-- A loop of the bounded searches that goes down on one side: it ends at a node
that does not ask for a further step, or cannot make one. -/
theorem Focus.searchWalk (side : Side) {keep : Int → Bool}
    {next : RbtreeNode Addr Data → Option Addr} {key : Addr}
    (keeps : ∀ cmpResult, keep cmpResult = true ↔ Towards side cmpResult)
    (goes : ∀ node, next node = node.child side)
    (focus : rbt.Focus ctx tree) (rooted : tree.root = some key)
    (compared : Compares rbt cmpf limit result (ctx.plug tree).inorder)
    (monotone : Monotone result (ctx.plug tree).inorder) (bracketed : Bracketed result ctx)
    (enough : tree.inorder.length ≤ rounds) :
    ∃ inner subtree last,
      rbtreeSearchWalk rbt limit cmpf keep next rounds key (result key) = .ok (last, result last) ∧
      rbt.Focus inner subtree ∧ subtree.root = some last ∧ inner.plug subtree = ctx.plug tree ∧
      Bracketed result inner ∧
      (Towards side (result last) → (rbt.nodes last).child side = none) ∧
      (last = key ∨ subtree.inorder.length < tree.inorder.length) ∧
      subtree.inorder.length ≤ tree.inorder.length := by
  induction rounds generalizing ctx tree key with
  | zero =>
      have := List.length_pos_of_mem (Tree.mem_of_root rooted)
      omega
  | succ rounds inductionHypothesis =>
      obtain ⟨colour, near, far, rfl⟩ := Tree.exists_branch side rooted
      have link : next (rbt.nodes key) = near.root := (goes _).trans focus.near_eq
      by_cases towards : Towards side (result key)
      · cases nearRoot : near.root with
        | none =>
            refine ⟨ctx, _, key, ?_, focus, rooted, rfl, bracketed,
              fun _ => focus.near_eq.trans nearRoot, .inl rfl, Nat.le_refl _⟩
            rw [rbtreeSearchWalk, if_pos ((keeps _).mpr towards), link, nearRoot]
        | some child =>
            have inTree : child ∈ (ctx.plug (.branch side colour near key far)).inorder :=
              Ctx.mem_plug.mpr (.inl (by simp [Tree.mem_of_root nearRoot]))
            have smaller : near.inorder.length <
                (Tree.branch side colour near key far).inorder.length := by
              rw [(Tree.inorder_branch_perm side colour near key far).length_eq]
              simp only [List.length_cons, List.length_append]
              omega
            obtain ⟨inner, subtree, last, walked, focusInner, lastRooted, samePlug, bracketedInner,
              stops, -, shorter⟩ := inductionHypothesis (focus_frame.mpr focus) nearRoot compared
                monotone (bracketed.down side monotone towards) (by omega)
            refine ⟨inner, subtree, last, ?_, focusInner, lastRooted, samePlug, bracketedInner, stops,
              .inr (by omega), by omega⟩
            rw [rbtreeSearchWalk, if_pos ((keeps _).mpr towards), link, nearRoot]
            simp only [compared child inTree, Outcome.ok_bind]
            exact walked
      · refine ⟨ctx, _, key, ?_, focus, rooted, rfl, bracketed, fun again => absurd again towards,
          .inl rfl, Nat.le_refl _⟩
        rw [rbtreeSearchWalk, if_neg (fun again => towards ((keeps _).mp again))]

/-- A walk down on one side and then one on the other.  If the first could go on where the
second ends, what is left to search has shrunk. -/
theorem Focus.searchTurn (side : Side) {keep back : Int → Bool}
    {next prev : RbtreeNode Addr Data → Option Addr} {key : Addr}
    (keeps : ∀ cmpResult, keep cmpResult = true ↔ Towards side cmpResult)
    (goes : ∀ node, next node = node.child side)
    (backKeeps : ∀ cmpResult, back cmpResult = true ↔ Towards side.other cmpResult)
    (backGoes : ∀ node, prev node = node.child side.other)
    (focus : rbt.Focus ctx tree) (rooted : tree.root = some key)
    (compared : Compares rbt cmpf limit result (ctx.plug tree).inorder)
    (monotone : Monotone result (ctx.plug tree).inorder) (bracketed : Bracketed result ctx)
    (enough : tree.inorder.length ≤ rounds) :
    ∃ turn inner subtree last,
      rbtreeSearchWalk rbt limit cmpf keep next rounds key (result key) = .ok (turn, result turn) ∧
      rbtreeSearchWalk rbt limit cmpf back prev rounds turn (result turn) =
        .ok (last, result last) ∧
      rbt.Focus inner subtree ∧ subtree.root = some last ∧ inner.plug subtree = ctx.plug tree ∧
      Bracketed result inner ∧
      (Towards side.other (result last) → (rbt.nodes last).child side.other = none) ∧
      (Towards side (result last) → (rbt.nodes last).child side ≠ none →
        subtree.inorder.length < tree.inorder.length) := by
  obtain ⟨turnCtx, turnTree, turn, walked, focusTurn, turnRooted, turnPlug, turnBracketed,
    turnStops, -, turnShorter⟩ :=
      focus.searchWalk side keeps goes rooted compared monotone bracketed enough
  obtain ⟨inner, subtree, last, returned, focusInner, lastRooted, innerPlug, innerBracketed,
    stops, moved, -⟩ := focusTurn.searchWalk side.other backKeeps backGoes turnRooted
      (by rw [turnPlug]; exact compared) (by rw [turnPlug]; exact monotone) turnBracketed
      (Nat.le_trans turnShorter enough)
  refine ⟨turn, inner, subtree, last, walked, returned, focusInner, lastRooted,
    innerPlug.trans turnPlug, innerBracketed, stops, fun towards further => ?_⟩
  rcases moved with same | shorter
  · subst same
    exact absurd (turnStops towards) further
  · exact Nat.lt_of_lt_of_le shorter turnShorter

/-- The loop that climbs back from a subtree of greater nodes: it ends at the
last node that is not greater, or at the root when all nodes are greater. -/
theorem Focus.searchClimb {key : Addr} (focus : rbt.Focus ctx tree) (rooted : tree.root = some key)
    (compared : Compares rbt cmpf limit result (ctx.plug tree).inorder)
    (bracketed : Bracketed result ctx) (greater : ∀ addr ∈ tree.inorder, 0 < result addr)
    (enough : ctx.depth < rounds) :
    ∃ last, rbtreeSearchWalk rbt limit cmpf (· > 0) (·.parent) rounds key (result key) =
        .ok (last, result last) ∧
      ((0 < result last ∧ ∀ addr ∈ (ctx.plug tree).inorder, 0 < result addr) ∨
        (result last < 0 ∧ ∃ before after, (ctx.plug tree).inorder = before ++ last :: after ∧
          ∀ addr ∈ after, 0 < result addr)) := by
  induction rounds generalizing ctx tree key with
  | zero => cases enough
  | succ rounds inductionHypothesis =>
      have above := greater key (Tree.mem_of_root rooted)
      obtain ⟨colour, near, far, rfl⟩ := Tree.exists_branch .left rooted
      have link := focus.parent_eq
      rw [rbtreeSearchWalk, if_pos (decide_eq_true above)]
      cases ctx with
      | top =>
          simp only [link, Ctx.parent]
          exact ⟨key, rfl, .inl ⟨above, greater⟩⟩
      | frame side otherColour other sibling outer =>
          have otherMember : other ∈ (outer.plug (.branch side otherColour
              (.branch .left colour near key far) other sibling)).inorder :=
            Ctx.mem_plug.mpr (.inl (by simp))
          have read := compared other otherMember
          simp only [link, Ctx.parent, read, Outcome.ok_bind]
          cases side with
          | left =>
              have focusOuter : rbt.Focus outer (.branch .left otherColour
                  (.branch .left colour near key far) other sibling) := focus_frame.mp focus
              refine @inductionHypothesis outer _ other focusOuter rfl compared
                ⟨bracketed.low, fun addr member => bracketed.high addr ?_⟩ (fun addr member => ?_)
                (by simp only [Ctx.depth] at enough; omega)
              · simp [Ctx.after, member]
              · simp only [Tree.mem_branch .left otherColour] at member
                rcases member with rfl | below | beside
                · exact bracketed.high addr (by simp [Ctx.after])
                · exact greater addr below
                · exact bracketed.high addr (by simp [Ctx.after, beside])
          | right =>
              have smaller : result other < 0 := bracketed.low other (by simp [Ctx.before])
              obtain ⟨rounds, rfl⟩ : ∃ fewer, rounds = fewer + 1 :=
                ⟨rounds - 1, by simp only [Ctx.depth] at enough; omega⟩
              refine ⟨other, ?_, .inr ⟨smaller, outer.before ++ sibling.inorder,
                (Tree.branch .left colour near key far).inorder ++ outer.after, ?_, ?_⟩⟩
              · rw [rbtreeSearchWalk, if_neg (by simpa using Int.le_of_lt smaller)]
              · simp [Ctx.plug, Ctx.inorder_plug, Tree.branch, Tree.inorder]
              · intro addr member
                rcases List.mem_append.mp member with below | after
                · exact greater addr below
                · exact bracketed.high addr (by simpa [Ctx.after] using after)

/-- What `rbtree_search_max` must return for a sequence: a node that compares
equal; without one, the last smaller node; `NULL` when all nodes are greater. -/
def LastNotGreater (result : Addr → Int) (sequence : List Addr) : Option Addr → Prop
  | none => ∀ addr ∈ sequence, 0 < result addr
  | some found => ∃ before after, sequence = before ++ found :: after ∧
      (result found = 0 ∨ (result found < 0 ∧ ∀ addr ∈ after, 0 < result addr))

/-- The loop of `rbtree_search_max`, from a node everything else is bracketed at. -/
theorem Focus.searchMaxLoop {key : Addr} {cmpResult : Int} (focus : rbt.Focus ctx tree)
    (rooted : tree.root = some key)
    (compared : Compares rbt cmpf limit result (ctx.plug tree).inorder)
    (monotone : Monotone result (ctx.plug tree).inorder) (bracketed : Bracketed result ctx)
    (enough : tree.inorder.length + (ctx.plug tree).inorder.length ≤ rounds) :
    ∃ found final, rbtreeSearchMaxLoop rbt limit cmpf rounds (some key) cmpResult =
        .ok (some found, final) ∧
      LastNotGreater result (ctx.plug tree).inorder (if final > 0 then none else some found) := by
  induction rounds generalizing ctx tree key cmpResult with
  | zero =>
      have := List.length_pos_of_mem (Tree.mem_of_root rooted)
      omega
  | succ rounds inductionHypothesis =>
      have inTree : key ∈ (ctx.plug tree).inorder := Ctx.mem_plug.mpr (.inl (Tree.mem_of_root rooted))
      have walks : tree.inorder.length ≤ rounds + 1 := by omega
      obtain ⟨rightmost, inner, subtree, last, wentRight, wentLeft, focusInner, lastRooted, samePlug,
        innerBracketed, leftStops, shrinks⟩ := @Focus.searchTurn _ _ _ cmpf limit result _ _
          (rounds + 1) .right (· < 0) (· > 0) (·.right) (·.left) key (by simp [Towards])
          (fun _ => rfl) (by simp [Towards, Side.other]) (fun _ => rfl) focus rooted compared
          monotone bracketed walks
      have lastMember : last ∈ (ctx.plug tree).inorder := by
        rw [← samePlug]
        exact Ctx.mem_plug.mpr (.inl (Tree.mem_of_root lastRooted))
      simp only [rbtreeSearchMaxLoop, compared key inTree, Outcome.ok_bind, wentRight, wentLeft]
      obtain ⟨colour, near, far, rfl⟩ := Tree.exists_branch .left lastRooted
      have sequence : (ctx.plug tree).inorder =
          (inner.before ++ near.inorder) ++ last :: (far.inorder ++ inner.after) := by
        rw [← samePlug]
        exact inner.inorder_plug_node ..
      rcases Int.lt_trichotomy (result last) 0 with smaller | equal | greater
      · by_cases stops : (rbt.nodes last).right = none
        · rw [if_neg (by omega), if_neg (by omega), if_pos ⟨smaller, stops⟩]
          have noRight : far = .nil :=
            Tree.root_eq_none.mp (focusInner.holds.1.2.1.symm.trans stops)
          refine ⟨last, result last, rfl, ?_⟩
          rw [if_neg (by omega)]
          exact ⟨_, _, sequence, .inr ⟨smaller, by simpa [noRight, Tree.inorder] using
            innerBracketed.high⟩⟩
        · -- the walk to the left has gone too far; what is left to search has shrunk
          have moved : (Tree.branch .left colour near last far).inorder.length <
              tree.inorder.length := shrinks smaller stops
          rw [if_neg (by omega), if_neg (by omega), if_neg (by tauto)]
          have again := @inductionHypothesis _ _ last (result last) focusInner lastRooted
            (by rw [samePlug]; exact compared) (by rw [samePlug]; exact monotone) innerBracketed
            (by rw [samePlug]; omega)
          rwa [samePlug] at again
      · rw [if_pos equal]
        refine ⟨last, result last, rfl, ?_⟩
        rw [if_neg (by omega)]
        exact ⟨_, _, sequence, .inl equal⟩
      · have noLeft : near = .nil :=
          Tree.root_eq_none.mp (focusInner.holds.1.1.symm.trans (leftStops greater))
        have allGreater : ∀ addr ∈ (Tree.branch .left colour near last far).inorder,
            0 < result addr := by
          intro addr member
          rw [sequence] at monotone
          simp only [noLeft, Tree.mem_branch, Tree.inorder, List.not_mem_nil, false_or] at member
          rcases member with rfl | after
          · exact greater
          · exact monotone.split.1 greater addr (by simp [after])
        have shallow : inner.depth < rounds + 1 := by
          have deep := inner.depth_lt lastRooted
          rw [samePlug] at deep
          omega
        obtain ⟨climbed, walked, ends⟩ := @Focus.searchClimb _ _ _ cmpf limit result _ _
          (rounds + 1) last focusInner lastRooted (by rw [samePlug]; exact compared)
          innerBracketed allGreater shallow
        rw [if_neg (by omega), if_pos ⟨greater, leftStops greater⟩]
        simp only [walked, Outcome.ok_bind]
        refine ⟨climbed, result climbed, rfl, ?_⟩
        rw [samePlug] at ends
        rcases ends with ⟨above, all⟩ | ⟨below, before, after, split, high⟩
        · rw [if_pos above]
          exact all
        · rw [if_neg (by omega)]
          exact ⟨before, after, split, .inr ⟨below, high⟩⟩

/-- `rbtree_search_max` on a tree in memory. -/
theorem Focus.searchMax (focus : rbt.Focus .top tree)
    (compared : Compares rbt cmpf limit result tree.inorder)
    (monotone : Monotone result tree.inorder) (enough : 2 * tree.inorder.length ≤ rounds) :
    ∃ found, rbtreeSearchMax rounds rbt limit cmpf = .ok found ∧
      LastNotGreater result tree.inorder found := by
  have root : rbt.root = tree.root := focus.around
  rw [rbtreeSearchMax, root]
  cases rooted : tree.root with
  | none =>
      rw [Tree.root_eq_none.mp rooted]
      refine ⟨none, ?_, by simp [LastNotGreater, Tree.inorder]⟩
      cases rounds <;> rfl
  | some key =>
      obtain ⟨found, final, looped, holds⟩ := @Focus.searchMaxLoop _ _ _ _ _ _ _ _ rounds key 0 focus
        rooted compared monotone ⟨by simp [Ctx.before], by simp [Ctx.after]⟩
        (by simp only [Ctx.plug]; omega)
      have holds : LastNotGreater result tree.inorder (if final > 0 then none else some found) :=
        holds
      simp only [looped, Outcome.ok_bind]
      by_cases greater : final > 0
      · exact ⟨none, by rw [if_pos greater], by simpa only [if_pos greater] using holds⟩
      · exact ⟨some found, by rw [if_neg greater], by simpa only [if_neg greater] using holds⟩

end Rbtree

section Rounds

variable {Addr Data : Type} (rbt : Rbtree Addr Data) (limit : Data) (cmpf : RbtreeCmpFn Data)
  {rounds more : Nat}

theorem rbtreeSearchWalk_extends (fewer : rounds ≤ more) (keep : Int → Bool)
    (next : RbtreeNode Addr Data → Option Addr) (cursor : Addr) (cmpResult : Int) :
    Outcome.Extends (rbtreeSearchWalk rbt limit cmpf keep next rounds cursor cmpResult)
      (rbtreeSearchWalk rbt limit cmpf keep next more cursor cmpResult) := by
  induction rounds generalizing more cursor cmpResult with
  | zero => exact Outcome.Extends.error _ _
  | succ rounds inductionHypothesis =>
      obtain ⟨more, rfl⟩ := Nat.exists_eq_succ_of_ne_zero (Nat.ne_zero_of_lt fewer)
      unfold rbtreeSearchWalk
      refine .ite ?_ (.refl _)
      cases next (rbt.nodes cursor) with
      | none => exact .refl _
      | some cursor =>
          exact .seq _ fun _ => inductionHypothesis (Nat.le_of_succ_le_succ fewer) _ _

theorem rbtreeSearchMaxLoop_extends (fewer : rounds ≤ more) (cursor : Option Addr)
    (cmpResult : Int) :
    Outcome.Extends (rbtreeSearchMaxLoop rbt limit cmpf rounds cursor cmpResult)
      (rbtreeSearchMaxLoop rbt limit cmpf more cursor cmpResult) := by
  induction rounds generalizing more cursor cmpResult with
  | zero =>
      cases cursor with
      | none => simp [rbtreeSearchMaxLoop, Outcome.Extends]
      | some => simp [rbtreeSearchMaxLoop, Outcome.Extends]
  | succ rounds inductionHypothesis =>
      obtain ⟨more, rfl⟩ := Nat.exists_eq_succ_of_ne_zero (Nat.ne_zero_of_lt fewer)
      cases cursor with
      | none => simp [rbtreeSearchMaxLoop, Outcome.Extends]
      | some cursor =>
          unfold rbtreeSearchMaxLoop
          refine .seq _ fun _ => .bind (rbtreeSearchWalk_extends rbt limit cmpf fewer _ _ _ _)
            fun _ => .bind (rbtreeSearchWalk_extends rbt limit cmpf fewer _ _ _ _) fun _ =>
              .ite (.refl _) (.ite ?_ (.ite (.refl _) ?_))
          · exact .bind (rbtreeSearchWalk_extends rbt limit cmpf fewer _ _ _ _) fun _ => .refl _
          · exact inductionHypothesis (Nat.le_of_succ_le_succ fewer) _ _

theorem rbtreeSearchMax_extends (fewer : rounds ≤ more) :
    Outcome.Extends (rbtreeSearchMax rounds rbt limit cmpf)
      (rbtreeSearchMax more rbt limit cmpf) :=
  .bind (rbtreeSearchMaxLoop_extends rbt limit cmpf fewer _ _) fun _ => .refl _

end Rounds

end Yaeos
