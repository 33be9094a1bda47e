import Yaeos.Rbtree.Basic

/-!
# The tree in memory

`Rbtree.Focus` says that memory holds a given tree, seen from one of its
subtrees: every node of the subtree and of the context around it has the links
and the colour its place asks for.  Moving the focus up or down changes nothing,
so each operation is specified at the node it works on.
-/

namespace Yaeos

namespace Rbtree

variable {Addr Data : Type}

/-- Memory holds `tree` below the node `parent`. -/
def Holds (rbt : Rbtree Addr Data) : Option Addr → Tree Addr → Prop
  | _, .nil => True
  | parent, .node colour left key right =>
      ((rbt.nodes key).left = left.root ∧ (rbt.nodes key).right = right.root ∧
        (rbt.nodes key).parent = parent ∧ (rbt.nodes key).colour = colour) ∧
      rbt.Holds (some key) left ∧ rbt.Holds (some key) right

/-- Memory holds the context, and `hole` is what its innermost link points to. -/
def Around (rbt : Rbtree Addr Data) : Ctx Addr → (hole : Option Addr) → Prop
  | .top, hole => rbt.root = hole
  | .frame side colour key other outer, hole =>
      ((rbt.nodes key).child side = hole ∧ (rbt.nodes key).child side.other = other.root ∧
        (rbt.nodes key).parent = outer.parent ∧ (rbt.nodes key).colour = colour) ∧
      rbt.Holds (some key) other ∧ rbt.Around outer (some key)

/-- Memory holds the tree that `tree` makes of `ctx`, without sharing. -/
structure Focus (rbt : Rbtree Addr Data) (ctx : Ctx Addr) (tree : Tree Addr) : Prop where
  around : rbt.Around ctx tree.root
  holds : rbt.Holds ctx.parent tree
  nodup : (ctx.plug tree).inorder.Nodup

/-- The two memories agree on the data of every node. -/
def SameData (rbt next : Rbtree Addr Data) : Prop :=
  ∀ addr, (next.nodes addr).data = (rbt.nodes addr).data

theorem SameData.refl (rbt : Rbtree Addr Data) : SameData rbt rbt := fun _ => rfl

theorem SameData.trans {first second third : Rbtree Addr Data} (one : SameData first second)
    (two : SameData second third) : SameData first third :=
  fun addr => (two addr).trans (one addr)

variable {rbt next : Rbtree Addr Data} {ctx : Ctx Addr} {tree near far middle : Tree Addr}
  {side : Side} {colour : Colour} {key : Addr} {parent : Option Addr}

theorem holds_branch : rbt.Holds parent (.branch side colour near key far) ↔
    ((rbt.nodes key).child side = near.root ∧ (rbt.nodes key).child side.other = far.root ∧
      (rbt.nodes key).parent = parent ∧ (rbt.nodes key).colour = colour) ∧
    rbt.Holds (some key) near ∧ rbt.Holds (some key) far := by
  cases side <;> simp only [Tree.branch, Holds, Side.other, RbtreeNode.child]
  tauto

/-- The focus moves to a subtree and back. -/
theorem focus_frame {outer : Ctx Addr} {other : Tree Addr} :
    rbt.Focus (.frame side colour key other outer) tree ↔
      rbt.Focus outer (.branch side colour tree key other) := by
  constructor
  · rintro ⟨⟨links, otherHolds, above⟩, holds, nodup⟩
    exact ⟨by simpa using above, holds_branch.mpr ⟨links, holds, otherHolds⟩, nodup⟩
  · rintro ⟨above, holds, nodup⟩
    obtain ⟨links, nearHolds, farHolds⟩ := holds_branch.mp holds
    exact ⟨⟨links, farHolds, by simpa using above⟩, nearHolds, nodup⟩

theorem focus_plug : rbt.Focus ctx tree ↔ rbt.Focus .top (ctx.plug tree) := by
  induction ctx generalizing tree with
  | top => rfl
  | frame side colour key other outer inductionHypothesis =>
      rw [focus_frame, inductionHypothesis]
      rfl

/-- The focus moves to the other subtree of the node above. -/
theorem focus_sibling {outer : Ctx Addr} {other : Tree Addr} :
    rbt.Focus (.frame side colour key other outer) tree ↔
      rbt.Focus (.frame side.other colour key tree outer) other := by
  rw [focus_frame, focus_frame, Tree.branch_other]

/-- Every node of the tree can be focused on, from either side. -/
theorem Focus.at_branch (side : Side) (focus : rbt.Focus .top tree) (member : key ∈ tree.inorder) :
    ∃ inner colour near far, rbt.Focus inner (.branch side colour near key far) ∧
      inner.plug (.branch side colour near key far) = tree := by
  obtain ⟨inner, subtree, same, rooted⟩ := Ctx.exists_focus .top member
  obtain ⟨colour, near, far, rfl⟩ := Tree.exists_branch side rooted
  have samePlug : inner.plug (.branch side colour near key far) = tree := same
  refine ⟨inner, colour, near, far, ?_, samePlug⟩
  rwa [focus_plug, samePlug]

theorem Focus.at_key (focus : rbt.Focus .top tree) (member : key ∈ tree.inorder) :
    ∃ inner colour left right, rbt.Focus inner (.node colour left key right) ∧
      inner.plug (.node colour left key right) = tree :=
  focus.at_branch .left member

/-- Only the nodes of a tree matter. -/
theorem Holds.frame (holds : rbt.Holds parent tree)
    (same : ∀ addr ∈ tree.inorder, next.nodes addr = rbt.nodes addr) : next.Holds parent tree := by
  induction tree generalizing parent with
  | nil => trivial
  | node colour left key right leftHypothesis rightHypothesis =>
      obtain ⟨links, leftHolds, rightHolds⟩ := holds
      refine ⟨?_, leftHypothesis leftHolds fun addr member => same addr ?_,
        rightHypothesis rightHolds fun addr member => same addr ?_⟩
      · rw [same key (by simp [Tree.inorder])]
        exact links
      · simp [Tree.inorder, member]
      · simp [Tree.inorder, member]

theorem Around.frame {hole : Option Addr} (around : rbt.Around ctx hole)
    (root : next.root = rbt.root)
    (same : ∀ addr ∈ ctx.keys, next.nodes addr = rbt.nodes addr) : next.Around ctx hole := by
  induction ctx generalizing hole with
  | top => exact root.trans around
  | frame side colour key other outer inductionHypothesis =>
      obtain ⟨links, otherHolds, above⟩ := around
      refine ⟨?_, otherHolds.frame fun addr member => same addr ?_,
        inductionHypothesis above fun addr member => same addr ?_⟩
      · rw [same key (by simp)]
        exact links
      · simp [member]
      · simp [member]

theorem Focus.parent_eq (focus : rbt.Focus ctx (.branch side colour near key far)) :
    (rbt.nodes key).parent = ctx.parent := (holds_branch.mp focus.holds).1.2.2.1

theorem Focus.node_parent_eq (focus : rbt.Focus ctx (.node colour near key far)) :
    (rbt.nodes key).parent = ctx.parent := focus.holds.1.2.2.1

theorem Focus.colour_eq (focus : rbt.Focus ctx (.branch side colour near key far)) :
    (rbt.nodes key).colour = colour := (holds_branch.mp focus.holds).1.2.2.2

theorem Focus.near_eq (focus : rbt.Focus ctx (.branch side colour near key far)) :
    (rbt.nodes key).child side = near.root := (holds_branch.mp focus.holds).1.1

theorem Focus.far_eq (focus : rbt.Focus ctx (.branch side colour near key far)) :
    (rbt.nodes key).child side.other = far.root := (holds_branch.mp focus.holds).1.2.1

/-- The two links of a node differ, unless both are `NULL`. -/
theorem Focus.far_ne (focus : rbt.Focus ctx (.branch side colour near key far)) {child : Addr}
    (rooted : near.root = some child) : (rbt.nodes key).child side.other ≠ some child := by
  rw [focus.far_eq]
  intro same
  obtain ⟨-, -, -, apart⟩ := (Tree.nodup_branch ..).mp (Ctx.nodup_plug.mp focus.nodup).1
  exact apart (Tree.mem_of_root rooted) (Tree.mem_of_root same)

/-- No key occurs twice in a branch or outside it. -/
theorem Focus.distinct (focus : rbt.Focus ctx (.branch side colour near key far)) :
    ((key ∉ near.inorder ∧ key ∉ far.inorder) ∧ near.inorder.Nodup ∧ far.inorder.Nodup ∧
      near.inorder.Disjoint far.inorder) ∧ key ∉ ctx.keys ∧
      near.inorder.Disjoint ctx.keys ∧ far.inorder.Disjoint ctx.keys := by
  obtain ⟨inside, -, apart⟩ := Ctx.nodup_plug.mp focus.nodup
  refine ⟨(Tree.nodup_branch ..).mp inside, fun member => apart (by simp) member,
    fun addr member => apart (by simp [member]), fun addr member => apart (by simp [member])⟩

/-- Writes outside the tree do not matter. -/
theorem Focus.frame (focus : rbt.Focus ctx tree) (root : next.root = rbt.root)
    (same : ∀ addr ∈ (ctx.plug tree).inorder, next.nodes addr = rbt.nodes addr) :
    next.Focus ctx tree where
  around := focus.around.frame root fun addr member => same addr (Ctx.mem_plug.mpr (.inr member))
  holds := focus.holds.frame fun addr member => same addr (Ctx.mem_plug.mpr (.inl member))
  nodup := focus.nodup

end Rbtree

section

variable {Addr Data : Type} [DecidableEq Addr] {rbt next : Rbtree Addr Data}

omit [DecidableEq Addr] in
@[simp]
theorem Rbtree.node_some (rbt : Rbtree Addr Data) (addr : Addr) :
    rbt.node (some addr) = .ok (rbt.nodes addr) := rfl

@[simp]
theorem Rbtree.setChild_some (rbt : Rbtree Addr Data) (addr : Addr) (side : Side)
    (child : Option Addr) : rbt.setChild (some addr) side child =
      .ok (rbt.modify addr fun node => node.setChild side child) := rfl

theorem rbtSetColour_some (rbt : Rbtree Addr Data) (addr : Addr) (colour : RbtreeColour) :
    rbtSetColour rbt (some addr) colour =
      .ok (rbt.modify addr fun node => node.setColour colour) := rfl

@[simp]
theorem rbtSetParent_some (rbt : Rbtree Addr Data) (addr : Addr) (parent : Option Addr) :
    rbtSetParent rbt (some addr) parent =
      .ok (rbt.modify addr fun node => node.setParent parent) := rfl

omit [DecidableEq Addr] in
@[simp]
theorem rbtGetParent_some (rbt : Rbtree Addr Data) (addr : Addr) :
    rbtGetParent rbt (some addr) = .ok (rbt.nodes addr).parent := rfl

namespace Rbtree

/-- What `TRY_SET_PARENT` does. -/
def reparent (rbt : Rbtree Addr Data) (node parent : Option Addr) : Rbtree Addr Data :=
  { rbt with
    nodes := fun addr =>
      if node = some addr then (rbt.nodes addr).setParent parent else rbt.nodes addr }

theorem nodes_reparent (rbt : Rbtree Addr Data) (node parent : Option Addr) (addr : Addr) :
    (rbt.reparent node parent).nodes addr =
      if node = some addr then (rbt.nodes addr).setParent parent else rbt.nodes addr := rfl

@[simp]
theorem root_reparent (rbt : Rbtree Addr Data) (node parent : Option Addr) :
    (rbt.reparent node parent).root = rbt.root := rfl

theorem modify_parent_eq (rbt : Rbtree Addr Data) (addr : Addr) (parent : Option Addr) :
    rbt.modify addr (fun node => node.setParent parent) =
      rbt.reparent (some addr) parent := by
  simp only [modify, reparent, mk.injEq, true_and]
  funext other
  by_cases same : other = addr
  · subst same; simp
  · simp [same, Ne.symm same]

@[simp]
theorem child_reparent (rbt : Rbtree Addr Data) (node parent : Option Addr) (addr : Addr)
    (side : Side) :
    ((rbt.reparent node parent).nodes addr).child side = (rbt.nodes addr).child side := by
  rw [nodes_reparent]
  split <;> cases side <;> rfl

end Rbtree

@[simp]
theorem trySetParent_eq (rbt : Rbtree Addr Data) (node parent : Option Addr) :
    trySetParent rbt node parent = .ok (rbt.reparent node parent) := by
  cases node with
  | none => simp [trySetParent, Rbtree.reparent]
  | some addr => simp [trySetParent, Rbtree.modify_parent_eq]

theorem replaceChild_eq {rbt : Rbtree Addr Data} {key : Addr} {side : Side}
    {replacee : Option Addr} (here : (rbt.nodes key).child side = replacee)
    (notThere : (rbt.nodes key).child side.other ≠ replacee) (replacement : Option Addr) :
    replaceChild rbt (some key) replacee replacement =
      .ok (rbt.modify key fun node => node.setChild side replacement) := by
  cases side
  · simp_all [replaceChild]
  · have notLeft : (rbt.nodes key).left ≠ replacee := notThere
    simp [replaceChild, notLeft]

omit [DecidableEq Addr] in
theorem rbtGetColour_root {parent : Option Addr} {tree : Tree Addr}
    (holds : rbt.Holds parent tree) : rbtGetColour rbt tree.root = tree.colour := by
  cases tree with
  | nil => rfl
  | node colour left key right => exact holds.1.2.2.2

namespace Rbtree

variable {ctx : Ctx Addr} {tree near far middle : Tree Addr} {side : Side} {colour : Colour}
  {key : Addr} {parent : Option Addr}

/-- Giving the root of a tree another parent. -/
theorem Holds.reparent (holds : rbt.Holds parent tree) (nodup : tree.inorder.Nodup)
    {other : Option Addr} (same : ∀ addr ∈ tree.inorder, next.nodes addr =
      if tree.root = some addr then (rbt.nodes addr).setParent other
      else rbt.nodes addr) : next.Holds other tree := by
  cases tree with
  | nil => trivial
  | node colour left key right =>
      obtain ⟨⟨leftLink, rightLink, -, sameColour⟩, leftHolds, rightHolds⟩ := holds
      obtain ⟨⟨notLeft, notRight⟩, -⟩ := (Tree.nodup_branch .left colour left key right).mp nodup
      have below : ∀ addr ∈ (Tree.node colour left key right).inorder, addr ≠ key →
          next.nodes addr = rbt.nodes addr := fun addr member differs => by
        rw [same addr member, if_neg]
        simpa [Tree.root] using Ne.symm differs
      refine ⟨?_, leftHolds.frame fun addr member => below addr (by simp [Tree.inorder, member])
          fun equal => notLeft (equal ▸ member),
        rightHolds.frame fun addr member => below addr (by simp [Tree.inorder, member])
          fun equal => notRight (equal ▸ member)⟩
      rw [same key (by simp [Tree.inorder])]
      simpa [Tree.root, RbtreeNode.setParent] using ⟨leftLink, rightLink, sameColour⟩

theorem Focus.sibling_eq {outer : Ctx Addr} {other : Tree Addr} {above : Addr}
    (focus : rbt.Focus (.frame side colour above other outer) tree)
    (rooted : tree.root = some key) : rbtGetSibling rbt (some key) = .ok other.root := by
  obtain ⟨keyColour, near, far, rfl⟩ := Tree.exists_branch .left rooted
  have up := focus_frame.mp focus
  have parentLink := focus.parent_eq
  have here := up.near_eq
  have there := up.far_eq
  have differ := up.far_ne rooted
  rw [rooted] at here
  cases side
  · simp_all [rbtGetSibling, Ctx.parent, Side.other]
  · have notLeft : (rbt.nodes above).left ≠ some key := differ
    have left : (rbt.nodes above).left = other.root := there
    rw [left] at notLeft
    simp [rbtGetSibling, parentLink, Ctx.parent, notLeft, left]

/-- Recolouring one node. -/
theorem Focus.setColour (focus : rbt.Focus ctx (.branch side colour near key far))
    (new : Colour) :
    ∃ next, rbtSetColour rbt (some key) new = .ok next ∧
      next.Focus ctx (.branch side new near key far) ∧ SameData rbt next := by
  obtain ⟨⟨⟨notNear, notFar⟩, -⟩, notAbove, -⟩ := focus.distinct
  obtain ⟨⟨nearLink, farLink, parentLink, -⟩, nearHolds, farHolds⟩ := holds_branch.mp focus.holds
  have other : ∀ addr, addr ≠ key →
      (rbt.modify key fun node => node.setColour new).nodes addr = rbt.nodes addr :=
    fun addr differs => by rw [nodes_modify, if_neg differs]
  refine ⟨_, rfl, ⟨?_, ?_, ?_⟩, fun addr => ?_⟩
  · have around := focus.around
    simp only [Tree.root_branch] at around ⊢
    exact around.frame rfl fun addr member => other addr fun same => notAbove (same ▸ member)
  · refine holds_branch.mpr ⟨?_, nearHolds.frame fun addr member =>
      other addr fun same => notNear (same ▸ member),
      farHolds.frame fun addr member => other addr fun same => notFar (same ▸ member)⟩
    rw [nodes_modify, if_pos rfl]
    exact ⟨by cases side <;> exact nearLink, by cases side <;> exact farLink, parentLink, rfl⟩
  · rw [Ctx.inorder_plug_congr (Tree.inorder_recolour side new colour near key far)]
    exact focus.nodup
  · rw [nodes_modify]
    split
    · next same => simp [same]
    · rfl

/-- The innermost link comes to point elsewhere. -/
theorem Around.relink {outer : Ctx Addr} {other : Tree Addr} {hole : Option Addr}
    (around : rbt.Around (.frame side colour key other outer) hole) (notOther : key ∉ other.inorder)
    (notOuter : key ∉ outer.keys) (pointer : Option Addr) :
    (rbt.modify key fun node => node.setChild side pointer).Around
      (.frame side colour key other outer) pointer := by
  obtain ⟨⟨-, otherLink, parentLink, sameColour⟩, otherHolds, above⟩ := around
  have unchanged : ∀ addr, addr ≠ key →
      (rbt.modify key fun node => node.setChild side pointer).nodes addr = rbt.nodes addr :=
    fun addr differs => by rw [nodes_modify, if_neg differs]
  refine ⟨?_, otherHolds.frame fun addr member => unchanged addr fun same => notOther ?_,
    above.frame rfl fun addr member => unchanged addr fun same => notOuter ?_⟩
  · rw [nodes_modify, if_pos rfl]
    simpa [RbtreeNode.child_setChild] using ⟨otherLink, parentLink, sameColour⟩
  · exact same ▸ member
  · exact same ▸ member

/-- The link above the focus comes to point to another node, which learns of its
new parent. -/
theorem Focus.replaceSubtree (focus : rbt.Focus ctx tree) (rooted : tree.root = some key)
    (replacement : Option Addr) (outside : ∀ addr, replacement = some addr → addr ∉ ctx.keys) :
    ∃ next, rbtReplaceSubtree rbt (some key) replacement = .ok next ∧
      next.Around ctx replacement ∧
      (∀ addr, addr ∉ ctx.keys → next.nodes addr =
        if replacement = some addr then (rbt.nodes addr).setParent ctx.parent
        else rbt.nodes addr) ∧ SameData rbt next := by
  obtain ⟨colour, near, far, rfl⟩ := Tree.exists_branch .left rooted
  have parentLink := focus.parent_eq
  cases ctx with
  | top =>
      refine ⟨({ rbt with root := replacement }).reparent replacement none, ?_, ?_,
        fun addr _ => nodes_reparent .., fun addr => ?_⟩
      · simp only [Ctx.parent] at parentLink
        simp [rbtReplaceSubtree, parentLink]
      · exact root_reparent ..
      · rw [nodes_reparent]; split <;> rfl
  | frame frameSide frameColour above other outer =>
      have up := focus_frame.mp focus
      obtain ⟨⟨⟨-, aboveNotOther⟩, -⟩, aboveNotOuter, -⟩ := up.distinct
      have link := up.near_eq
      have notOther := up.far_ne rooted
      simp only [Ctx.parent] at parentLink
      let linked := rbt.modify above fun node => node.setChild frameSide replacement
      have relinked := focus.around.relink aboveNotOther aboveNotOuter replacement
      refine ⟨linked.reparent replacement (some above), ?_, relinked.frame rfl ?_, ?_, ?_⟩
      · rw [rbtReplaceSubtree, rbtGetParent_some, parentLink, Outcome.ok_bind,
          if_pos (Option.some_ne_none above), replaceChild_eq (link.trans rooted) notOther,
          Outcome.ok_bind, trySetParent_eq]
      · intro addr member
        rw [nodes_reparent, if_neg fun same => outside addr same member]
      · intro addr notIn
        have differs : addr ≠ above := fun same => notIn (by simp [same])
        rw [nodes_reparent, nodes_modify, if_neg differs]
        rfl
      · intro addr
        rw [nodes_reparent, nodes_modify]
        split <;> split <;> simp_all

/-- A rotation towards `side`: the far child takes the place of its parent. -/
theorem Focus.rotate {upper lower : Colour} {pivot : Addr}
    (focus : rbt.Focus ctx (.branch side upper near key (.branch side lower middle pivot far))) :
    ∃ next, rbtRotate side rbt (some key) = .ok next ∧
      next.Focus ctx (.branch side lower (.branch side upper near key middle) pivot far) ∧
      SameData rbt next := by
  obtain ⟨⟨⟨keyNotNear, keyNotLower⟩, -, lowerNodup, apart⟩, keyNotAbove, nearApart, lowerApart⟩ :=
    focus.distinct
  obtain ⟨⟨nearLink, farLink, -, keyColour⟩, nearHolds, lowerHolds⟩ := holds_branch.mp focus.holds
  obtain ⟨⟨middleLink, outerLink, -, pivotColour⟩, middleHolds, farHolds⟩ :=
    holds_branch.mp lowerHolds
  obtain ⟨⟨pivotNotMiddle, pivotNotFar⟩, middleNodup, -, middleFar⟩ :=
    (Tree.nodup_branch ..).mp lowerNodup
  simp only [Tree.mem_branch, not_or] at keyNotLower
  obtain ⟨key_ne, keyNotMiddle, keyNotFar⟩ := keyNotLower
  have pivotNotAbove : pivot ∉ ctx.keys := lowerApart (by simp)
  have pivotNotNear : pivot ∉ near.inorder := fun member => apart member (by simp)
  obtain ⟨replaced, replace, around, nodes, data⟩ := focus.replaceSubtree (Tree.root_branch ..)
    (some pivot) (fun addr same => Option.some.inj same ▸ pivotNotAbove)
  have replacedKey : replaced.nodes key = rbt.nodes key := by
    rw [nodes key keyNotAbove, if_neg (by simpa using Ne.symm key_ne)]
  have replacedPivot : replaced.nodes pivot = (rbt.nodes pivot).setParent ctx.parent := by
    rw [nodes pivot pivotNotAbove, if_pos rfl]
  -- the five writes after the replacement
  let rotated := ((((replaced.modify key fun node => node.setChild side.other middle.root).reparent
    middle.root (some key)).modify pivot fun node => node.setChild side (some key)).reparent
    (some key) (some pivot))
  have ran : rbtRotate side rbt (some key) = .ok rotated := by
    simp [rbtRotate, farLink, replace, replacedPivot, middleLink, nodes_modify, modify_parent_eq,
      RbtreeNode.child_setChild, rotated]
  have unchanged : ∀ addr, addr ≠ key → addr ≠ pivot → addr ∉ middle.inorder →
      rotated.nodes addr = replaced.nodes addr := by
    intro addr notKey notPivot notMiddle
    have notRoot : middle.root ≠ some addr := fun same => notMiddle (Tree.mem_of_root same)
    simp [rotated, nodes_reparent, nodes_modify, notKey, notPivot, notRoot, Ne.symm notKey]
  have rotatedKey : rotated.nodes key =
      ((rbt.nodes key).setChild side.other middle.root).setParent (some pivot) := by
    have notRoot : middle.root ≠ some key := fun same => keyNotMiddle (Tree.mem_of_root same)
    simp [rotated, nodes_reparent, nodes_modify, key_ne, notRoot, replacedKey]
  have rotatedPivot : rotated.nodes pivot =
      ((rbt.nodes pivot).setParent ctx.parent).setChild side (some key) := by
    have notRoot : middle.root ≠ some pivot := fun same => pivotNotMiddle (Tree.mem_of_root same)
    simp [rotated, nodes_reparent, nodes_modify, Ne.symm key_ne, notRoot, replacedPivot, key_ne]
  have rotatedMiddle : ∀ addr ∈ middle.inorder, rotated.nodes addr =
      if middle.root = some addr then (rbt.nodes addr).setParent (some key)
      else rbt.nodes addr := by
    intro addr member
    have notKey : addr ≠ key := fun same => keyNotMiddle (same ▸ member)
    have notPivot : addr ≠ pivot := fun same => pivotNotMiddle (same ▸ member)
    have notAbove : addr ∉ ctx.keys := lowerApart (by simp [member])
    simp [rotated, nodes_reparent, nodes_modify, notKey, notPivot, Ne.symm notKey,
      Ne.symm notPivot, nodes addr notAbove]
  have outside : ∀ addr, addr ≠ key → addr ≠ pivot → addr ∉ middle.inorder → addr ∉ ctx.keys →
      rotated.nodes addr = rbt.nodes addr := by
    intro addr notKey notPivot notMiddle notAbove
    rw [unchanged addr notKey notPivot notMiddle, nodes addr notAbove,
      if_neg (by simpa using Ne.symm notPivot)]
  refine ⟨rotated, ran, ⟨?_, ?_, ?_⟩, fun addr => ?_⟩
  · rw [Tree.root_branch]
    refine around.frame rfl fun addr member => unchanged addr ?_ ?_ ?_
    · exact fun same => keyNotAbove (same ▸ member)
    · exact fun same => pivotNotAbove (same ▸ member)
    · exact fun inMiddle => lowerApart (by simp [inMiddle]) member
  · refine holds_branch.mpr ⟨?_, holds_branch.mpr ⟨?_, ?_, ?_⟩, ?_⟩
    · simp [rotatedPivot, RbtreeNode.child_setChild, outerLink, pivotColour]
    · simp [rotatedKey, RbtreeNode.child_setChild, nearLink, keyColour]
    · refine nearHolds.frame fun addr member => outside addr ?_ ?_ ?_ (nearApart member)
      · exact fun same => keyNotNear (same ▸ member)
      · exact fun same => pivotNotNear (same ▸ member)
      · exact fun inMiddle => apart member (by simp [inMiddle])
    · exact middleHolds.reparent middleNodup rotatedMiddle
    · refine farHolds.frame fun addr member => outside addr ?_ ?_ ?_ (lowerApart (by simp [member]))
      · exact fun same => keyNotFar (same ▸ member)
      · exact fun same => pivotNotFar (same ▸ member)
      · exact fun inMiddle => middleFar inMiddle member
  · rw [← Ctx.inorder_plug_congr (Tree.inorder_rotate side upper lower upper lower near key middle
      pivot far)]
    exact focus.nodup
  · simp only [rotated, nodes_reparent, nodes_modify]
    split_ifs <;> simp_all [data addr]

end Rbtree

end

end Yaeos
