import Mathlib.Data.Set.Insert
import Yaeos.Rbtree.Packed
import Yaeos.Rbtree.Run

/-!
# The two builds side by side

`Related known` compares a memory of the debug build with one of the release build:
they agree on the root, on the data, which only the caller writes, and on every node
of `known`, and no link of these leads out of `known`.  The other nodes hold whatever
they were left with.  Each function of the source keeps the relation.
-/

namespace Yaeos

open Outcome RbtreeNodeBuild RbtreeBuild

variable {Data : Type} {known : Set NodeAddr} {debug : Rbtree NodeAddr Data}
  {packed : PackedRbtree Data} {x y z : Option NodeAddr} {rounds : Nat}

def Within (known : Set NodeAddr) (pointer : Option NodeAddr) : Prop :=
  ∀ addr, pointer = some addr → addr ∈ known

theorem Within.none : Within known none := nofun

theorem Within.ite {condition : Prop} [Decidable condition] (yes : Within known x)
    (no : Within known y) : Within known (if condition then x else y) := by
  split
  · exact yes
  · exact no

/-- The same node in the two builds, with its links inside. -/
structure NodeRelated (known : Set NodeAddr) (node : RbtreeNode NodeAddr Data)
    (packedNode : PackedNode Data) : Prop where
  view : packedNode.view = node
  children : ∀ side, Within known (RbtreeNodeBuild.child packedNode side)
  parent : Within known packedNode.getParent

structure Related (known : Set NodeAddr) (debug : Rbtree NodeAddr Data)
    (packed : PackedRbtree Data) : Prop where
  root : packed.root = debug.root
  rootWithin : Within known debug.root
  data : ∀ addr, (packed.nodes addr).data = (debug.nodes addr).data
  nodes : ∀ addr ∈ known, NodeRelated known (debug.nodes addr) (packed.nodes addr)

/-- The same pointer, inside. -/
def SamePointer (known : Set NodeAddr) (pointer image : Option NodeAddr) : Prop :=
  image = pointer ∧ Within known pointer

@[simp]
theorem child_view (node : PackedNode Data) (side : Side) :
    RbtreeNodeBuild.child node.view side = RbtreeNodeBuild.child node side := node.view_child side

@[simp]
theorem getParent_view (node : PackedNode Data) :
    RbtreeNodeBuild.getParent node.view = RbtreeNodeBuild.getParent node := rfl

@[simp]
theorem getColour_view (node : PackedNode Data) :
    RbtreeNodeBuild.getColour node.view = RbtreeNodeBuild.getColour node := rfl

/-- An assertion of the debug build, and what is left of it. -/
theorem Outcome.Simulates.assertion {α β : Type} {result : α → β → Prop}
    {condition condition' : Outcome Unit} {rest : Unit → Outcome α} {rest' : Unit → Outcome β}
    (next : Simulates result (rest ()) (rest' ())) :
    Simulates result (RbtreeBuild.assertion debug condition >>= rest)
      (RbtreeBuild.assertion packed condition' >>= rest') :=
  .bind (.unit condition) fun _ _ _ => next

/-- `node->data = data`. -/
def PackedRbtree.setData (rbt : PackedRbtree Data) (addr : NodeAddr) (data : Data) :
    PackedRbtree Data :=
  { rbt with nodes := Function.update rbt.nodes addr { rbt.nodes addr with data := data } }

namespace Related

theorem node (related : Related known debug packed) (within : Within known x) :
    Simulates (NodeRelated known) (RbtreeBuild.node debug x) (RbtreeBuild.node packed x) := by
  cases x with
  | none => exact .error _ _
  | some addr => exact .ok (related.nodes addr (within addr rfl))

theorem update {change : RbtreeNode NodeAddr Data → RbtreeNode NodeAddr Data}
    {change' : PackedNode Data → PackedNode Data} (related : Related known debug packed)
    (within : Within known x)
    (changed : ∀ node packedNode, NodeRelated known node packedNode →
      NodeRelated known (change node) (change' packedNode)) :
    Simulates (Related known) (RbtreeBuild.update debug x change)
      (RbtreeBuild.update packed x change') := by
  cases x with
  | none => exact .error _ _
  | some addr =>
      have here := changed _ _ (related.nodes addr (within addr rfl))
      refine .ok ⟨related.root, related.rootWithin, fun other => ?_, fun other member => ?_⟩
      · by_cases same : other = addr
        · subst same
          simp only [RbtreeBuild.modify, Rbtree.modify, Function.update_self]
          exact congrArg RbtreeNode.data here.view
        · simpa [RbtreeBuild.modify, Rbtree.modify, same] using related.data other
      · by_cases same : other = addr
        · subst same
          simpa [RbtreeBuild.modify, Rbtree.modify] using here
        · simpa [RbtreeBuild.modify, Rbtree.modify, same] using related.nodes other member

theorem setRoot (related : Related known debug packed) (within : Within known x) :
    Related known (RbtreeBuild.setRoot debug x) (RbtreeBuild.setRoot packed x) :=
  ⟨rfl, within, related.data, related.nodes⟩

theorem storeChild (related : Related known debug packed) (side : Side)
    (within : Within known x) (inside : Within known y) :
    Simulates (Related known) (RbtreeBuild.storeChild debug x side y)
      (RbtreeBuild.storeChild packed x side y) := by
  refine related.update within fun node packedNode same => ⟨?_, fun other => ?_, ?_⟩
  · exact (packedNode.view_setChild side y).trans (congrArg (fun node => node.setChild side y) same.view)
  · have stored : (packedNode.setChild side y).child other =
        if other = side then y else packedNode.child other := by
      rw [← PackedNode.view_child, PackedNode.view_setChild, RbtreeNode.child_setChild,
        PackedNode.view_child]
    show Within known ((packedNode.setChild side y).child other)
    rw [stored]
    exact .ite inside (same.children other)
  · cases side <;> exact same.parent

theorem rbtSetColour (related : Related known debug packed) (colour : RbtreeColour)
    (within : Within known x) : Simulates (Related known)
      (RbtreeBuild.rbtSetColour debug x colour) (RbtreeBuild.rbtSetColour packed x colour) := by
  refine .assertion <| related.update within fun node packedNode same =>
    ⟨?_, fun side => ?_, ?_⟩
  · exact (packedNode.view_setColour colour).trans
      (congrArg (fun node => node.setColour colour) same.view)
  · cases side
    · exact same.children .left
    · exact same.children .right
  · exact (packedNode.getParent_setColour colour).symm ▸ same.parent

theorem rbtGetColour (related : Related known debug packed) (within : Within known x) :
    RbtreeBuild.rbtGetColour debug x = RbtreeBuild.rbtGetColour packed x := by
  cases x with
  | none => rfl
  | some addr =>
      exact (congrArg RbtreeNode.colour (related.nodes addr (within addr rfl)).view).symm

theorem rbtSetParent (related : Related known debug packed) (within : Within known x)
    (inside : Within known y) : Simulates (Related known)
      (RbtreeBuild.rbtSetParent debug x y) (RbtreeBuild.rbtSetParent packed x y) := by
  refine .assertion <| related.update within fun node packedNode same =>
    ⟨?_, fun side => ?_, ?_⟩
  · exact (packedNode.view_setParent y).trans (congrArg (fun node => node.setParent y) same.view)
  · cases side
    · exact same.children .left
    · exact same.children .right
  · exact (packedNode.getParent_setParent y).symm ▸ inside

theorem rbtGetParent (related : Related known debug packed) (within : Within known x) :
    Simulates (SamePointer known) (RbtreeBuild.rbtGetParent debug x)
      (RbtreeBuild.rbtGetParent packed x) := by
  refine .assertion <| .bind (related.node within) ?_
  rintro _ node ⟨rfl, -, parent⟩
  exact .ok ⟨rfl, parent⟩

theorem rbtGetGrandparent (related : Related known debug packed) (within : Within known x) :
    Simulates (SamePointer known) (RbtreeBuild.rbtGetGrandparent debug x)
      (RbtreeBuild.rbtGetGrandparent packed x) := by
  refine .assertion <| .bind (related.rbtGetParent within) ?_
  rintro _ parent ⟨rfl, parentWithin⟩
  refine .assertion <| .bind (related.rbtGetParent parentWithin) ?_
  rintro _ grandparent ⟨rfl, grandparentWithin⟩
  exact .assertion <| .ok ⟨rfl, grandparentWithin⟩

theorem rbtGetSibling (related : Related known debug packed) (within : Within known x) :
    Simulates (SamePointer known) (RbtreeBuild.rbtGetSibling debug x)
      (RbtreeBuild.rbtGetSibling packed x) := by
  refine .assertion <| .bind (related.rbtGetParent within) ?_
  rintro _ parent ⟨rfl, parentWithin⟩
  refine .assertion <| .bind (related.node parentWithin) ?_
  rintro _ node ⟨rfl, children, -⟩
  simp only [child_view]
  exact .ite (fun _ => .ok ⟨rfl, children .right⟩) fun _ => .ok ⟨rfl, children .left⟩

theorem rbtGetUncle (related : Related known debug packed) (within : Within known x) :
    Simulates (SamePointer known) (RbtreeBuild.rbtGetUncle debug x)
      (RbtreeBuild.rbtGetUncle packed x) := by
  refine .assertion <| .bind (related.rbtGetParent within) ?_
  rintro _ parent ⟨rfl, parentWithin⟩
  refine .assertion <| .assertion ?_
  exact related.rbtGetSibling parentWithin

theorem trySetParent (related : Related known debug packed) (within : Within known x)
    (inside : Within known y) : Simulates (Related known)
      (RbtreeBuild.trySetParent debug x y) (RbtreeBuild.trySetParent packed x y) :=
  .ite (fun _ => related.rbtSetParent within inside) fun _ => .ok related

theorem replaceChild (related : Related known debug packed) (within : Within known x)
    (inside : Within known z) : Simulates (Related known)
      (RbtreeBuild.replaceChild debug x y z) (RbtreeBuild.replaceChild packed x y z) := by
  refine .bind (related.node within) ?_
  rintro _ node ⟨rfl, -, -⟩
  simp only [child_view]
  exact .ite (fun _ => related.storeChild .left within inside) fun _ =>
    related.storeChild .right within inside

theorem rbtReplaceSubtree (related : Related known debug packed) (within : Within known x)
    (inside : Within known y) : Simulates (Related known)
      (RbtreeBuild.rbtReplaceSubtree debug x y) (RbtreeBuild.rbtReplaceSubtree packed x y) := by
  refine .bind (related.rbtGetParent within) ?_
  rintro _ parent ⟨rfl, parentWithin⟩
  refine @Simulates.bind _ _ _ _ (Related known) _ _ _ _ _ (.ite (fun _ => ?_) fun _ => ?_)
    fun _ _ related => ?_
  · exact related.replaceChild parentWithin inside
  · exact .ok (related.setRoot inside)
  · exact related.trySetParent inside parentWithin

theorem rbtSwapNodesParent (related : Related known debug packed) (within : Within known y)
    (inside : Within known z) : Simulates (Related known)
      (RbtreeBuild.rbtSwapNodesParent debug x y z)
      (RbtreeBuild.rbtSwapNodesParent packed x y z) := by
  refine .ite (fun _ => .bind (related.replaceChild inside within) fun _ _ related => ?_)
    fun _ => .assertion <| .bind (related.rbtSetParent within .none) fun _ _ related => ?_
  · exact related.rbtSetParent within inside
  · exact .ok (related.setRoot within)

theorem rbtSwapNodesPlaceY (related : Related known debug packed) (xWithin : Within known x)
    (yWithin : Within known y) : Simulates (Related known)
      (RbtreeBuild.rbtSwapNodesPlaceY debug x y) (RbtreeBuild.rbtSwapNodesPlaceY packed x y) := by
  refine .bind (related.node xWithin) ?_
  rintro _ node ⟨rfl, children, -⟩
  simp only [child_view]
  refine .bind (related.trySetParent (children .left) yWithin) fun _ _ related => ?_
  refine .bind (related.node xWithin) ?_
  rintro _ node ⟨rfl, children, -⟩
  simp only [child_view]
  refine .bind (related.trySetParent (children .right) yWithin) fun _ _ related => ?_
  refine .bind (related.rbtGetParent xWithin) ?_
  rintro _ parent ⟨rfl, parentWithin⟩
  refine .bind (related.rbtSwapNodesParent yWithin parentWithin) fun _ _ related => ?_
  refine .bind (related.node xWithin) ?_
  rintro _ node ⟨rfl, children, -⟩
  simp only [child_view]
  refine .bind (related.storeChild .left yWithin (.ite (children .left) xWithin))
    fun _ _ related => ?_
  refine .bind (related.node xWithin) ?_
  rintro _ node ⟨rfl, children, -⟩
  simp only [child_view]
  refine .bind (related.storeChild .right yWithin (.ite (children .right) xWithin))
    fun _ _ related => ?_
  rw [related.rbtGetColour xWithin]
  exact related.rbtSetColour _ yWithin

theorem rbtSwapNodesPlaceX {yCopy : RbtreeNode NodeAddr Data} {yCopy' : PackedNode Data}
    (related : Related known debug packed) (xWithin : Within known x) (yWithin : Within known y)
    (copied : NodeRelated known yCopy yCopy') : Simulates (Related known)
      (RbtreeBuild.rbtSwapNodesPlaceX debug x y yCopy)
      (RbtreeBuild.rbtSwapNodesPlaceX packed x y yCopy') := by
  obtain ⟨rfl, children, parent⟩ := copied
  simp only [RbtreeBuild.rbtSwapNodesPlaceX, child_view, getParent_view, getColour_view]
  refine .bind (related.trySetParent (children .left) xWithin) fun _ _ related => ?_
  refine .bind (related.trySetParent (children .right) xWithin) fun _ _ related => ?_
  refine .bind (.ite (fun _ => related.rbtSwapNodesParent xWithin parent)
    fun _ => related.rbtSetParent xWithin yWithin) fun _ _ related => ?_
  refine .bind (related.storeChild .left xWithin (children .left)) fun _ _ related => ?_
  refine .bind (related.storeChild .right xWithin (children .right)) fun _ _ related => ?_
  exact related.rbtSetColour _ xWithin

theorem rbtSwapNodes (related : Related known debug packed) (xWithin : Within known x)
    (yWithin : Within known y) : Simulates (Related known)
      (RbtreeBuild.rbtSwapNodes debug x y) (RbtreeBuild.rbtSwapNodes packed x y) := by
  refine .assertion <| .assertion <| .bind (related.rbtGetParent xWithin) ?_
  rintro _ parent ⟨rfl, -⟩
  have ordered : ∀ x y : Option NodeAddr, Within known x → Within known y →
      Simulates (Related known)
        (do
          let yCopy ← RbtreeBuild.node debug y
          let debug ← RbtreeBuild.rbtSwapNodesPlaceY debug x y
          let debug ← RbtreeBuild.rbtSwapNodesPlaceX debug x y yCopy
          RbtreeBuild.rbtSwapNodesCheck debug x
          RbtreeBuild.rbtSwapNodesCheck debug y
          .ok debug)
        (do
          let yCopy ← RbtreeBuild.node packed y
          let packed ← RbtreeBuild.rbtSwapNodesPlaceY packed x y
          let packed ← RbtreeBuild.rbtSwapNodesPlaceX packed x y yCopy
          RbtreeBuild.rbtSwapNodesCheck packed x
          RbtreeBuild.rbtSwapNodesCheck packed y
          .ok packed) := by
    intro x y xWithin yWithin
    refine .bind (related.node yWithin) fun _ _ copied => ?_
    refine .bind (related.rbtSwapNodesPlaceY xWithin yWithin) fun _ _ related => ?_
    refine .bind (related.rbtSwapNodesPlaceX xWithin yWithin copied) fun _ _ related => ?_
    exact .assertion <| .assertion <| .ok related
  by_cases isParent : parent = y
  · simp only [if_pos isParent]
    exact ordered y x yWithin xWithin
  · simp only [if_neg isParent]
    exact ordered x y xWithin yWithin

theorem rbtRotate (related : Related known debug packed) (side : Side) (within : Within known x) :
    Simulates (Related known) (RbtreeBuild.rbtRotate side debug x)
      (RbtreeBuild.rbtRotate side packed x) := by
  refine .assertion <| .bind (related.node within) ?_
  rintro _ node ⟨rfl, children, -⟩
  simp only [child_view]
  have newRoot := children side.other
  refine .bind (related.rbtReplaceSubtree within newRoot) fun _ _ related => ?_
  refine .bind (related.node newRoot) ?_
  rintro _ node ⟨rfl, children, -⟩
  simp only [child_view]
  refine .bind (related.storeChild side.other within (children side)) fun _ _ related => ?_
  refine .bind (related.node within) ?_
  rintro _ node ⟨rfl, children, -⟩
  simp only [child_view]
  refine .bind (related.trySetParent (children side.other) within) fun _ _ related => ?_
  refine .bind (related.storeChild side newRoot within) fun _ _ related => ?_
  exact related.rbtSetParent within newRoot

theorem rbtInsertFixTriangle (related : Related known debug packed) (within : Within known x)
    (inside : Within known y) :
    Simulates (fun pair image => Related known pair.1 image.1 ∧ SamePointer known pair.2 image.2)
      (RbtreeBuild.rbtInsertFixTriangle debug x y)
      (RbtreeBuild.rbtInsertFixTriangle packed x y) := by
  refine .bind (related.rbtGetGrandparent within) ?_
  rintro _ grandparent ⟨rfl, above⟩
  refine .assertion <| .bind (related.node inside) ?_
  rintro _ parentNode ⟨rfl, -, -⟩
  refine .bind (related.node above) ?_
  rintro _ grandparentNode ⟨rfl, -, -⟩
  simp only [child_view]
  refine .ite (fun _ => .bind (related.rbtRotate .left inside) fun _ _ related => ?_) fun _ => ?_
  · refine .bind (related.node within) ?_
    rintro _ node ⟨rfl, children, -⟩
    simp only [child_view]
    exact .ok ⟨related, rfl, children .left⟩
  · refine .bind (related.node inside) ?_
    rintro _ parentNode ⟨rfl, -, -⟩
    refine .bind (related.node above) ?_
    rintro _ grandparentNode ⟨rfl, -, -⟩
    simp only [child_view]
    refine .ite (fun _ => .bind (related.rbtRotate .right inside) fun _ _ related => ?_)
      fun _ => .ok ⟨related, rfl, within⟩
    refine .bind (related.node within) ?_
    rintro _ node ⟨rfl, children, -⟩
    simp only [child_view]
    exact .ok ⟨related, rfl, children .right⟩

theorem rbtInsertFixLine (related : Related known debug packed) (within : Within known x) :
    Simulates (Related known) (RbtreeBuild.rbtInsertFixLine debug x)
      (RbtreeBuild.rbtInsertFixLine packed x) := by
  refine .bind (related.rbtGetParent within) ?_
  rintro _ parent ⟨rfl, inside⟩
  refine .bind (related.rbtGetGrandparent within) ?_
  rintro _ grandparent ⟨rfl, above⟩
  refine .assertion <| .assertion <| .bind (related.node inside) ?_
  rintro _ parentNode ⟨rfl, -, -⟩
  refine .bind (related.node above) ?_
  rintro _ grandparentNode ⟨rfl, -, -⟩
  simp only [child_view]
  refine .bind (.ite (fun _ => related.rbtRotate .right above) fun _ =>
    .ite (fun _ => related.rbtRotate .left above) fun _ => .assertion (.ok related))
    fun _ _ related => ?_
  exact .bind (related.rbtSetColour _ inside) fun _ _ related => related.rbtSetColour _ above

theorem rbtInsertFix (related : Related known debug packed) (within : Within known x) :
    Simulates (Related known) (RbtreeBuild.rbtInsertFix rounds debug x)
      (RbtreeBuild.rbtInsertFix rounds packed x) := by
  induction rounds generalizing debug packed x with
  | zero => exact .error _ _
  | succ rounds inductionHypothesis =>
      refine .bind (related.rbtGetParent within) ?_
      rintro _ parent ⟨rfl, inside⟩
      rw [related.rbtGetColour inside]
      refine .ite (fun _ => related.rbtSetColour _ within) fun _ => .ite (fun _ => .ok related)
        fun _ => .bind (related.rbtGetUncle within) ?_
      rintro _ uncle ⟨rfl, uncleWithin⟩
      rw [related.rbtGetColour uncleWithin]
      refine .ite (fun _ => .bind (related.rbtGetGrandparent within) ?_) fun _ =>
        .bind (related.rbtInsertFixTriangle within inside) ?_
      · rintro _ grandparent ⟨rfl, above⟩
        refine .assertion <| .bind (related.rbtSetColour _ inside) fun _ _ related => ?_
        refine .bind (related.rbtSetColour _ uncleWithin) fun _ _ related => ?_
        refine .bind (related.rbtSetColour _ above) fun _ _ related => ?_
        exact inductionHypothesis related above
      · rintro ⟨_, _⟩ ⟨_, node⟩ ⟨related, rfl, lower⟩
        exact related.rbtInsertFixLine lower

/-- The data compared are the same, also of nodes that are not known. -/
theorem rbtreeInsertSearch (related : Related known debug packed) (external : Data)
    (cmpf : RbtreeCmpFn Data) (cmpResult : Int) (within : Within known x)
    (inside : Within known y) :
    Simulates (fun found image => SamePointer known found.1 image.1 ∧ image.2 = found.2)
      (RbtreeBuild.rbtreeInsertSearch debug external cmpf rounds x y cmpResult)
      (RbtreeBuild.rbtreeInsertSearch packed external cmpf rounds x y cmpResult) := by
  induction rounds generalizing x y cmpResult with
  | zero =>
      cases y with
      | none => exact .ok ⟨⟨rfl, within⟩, rfl⟩
      | some cursor => exact .error _ _
  | succ rounds inductionHypothesis =>
      cases y with
      | none => exact .ok ⟨⟨rfl, within⟩, rfl⟩
      | some cursor =>
          obtain ⟨view, children, -⟩ := related.nodes cursor (inside cursor rfl)
          have same : RbtreeNodeBuild.data (RbtreeBuild.nodes debug cursor) =
              RbtreeNodeBuild.data (RbtreeBuild.nodes packed cursor) := (related.data cursor).symm
          have sameChild : ∀ side, RbtreeNodeBuild.child (RbtreeBuild.nodes debug cursor) side =
              RbtreeNodeBuild.child (RbtreeBuild.nodes packed cursor) side := fun side => by
            rw [← child_view]
            exact congrArg (fun node => RbtreeNode.child node side) view.symm
          simp only [RbtreeBuild.rbtreeInsertSearch, same, sameChild]
          refine .bind (.refl _) ?_
          rintro cmpResult _ rfl
          exact inductionHypothesis _ inside (.ite (children .left) (children .right))

theorem rbtreeInsertLink (related : Related known debug packed) (cmpResult : Int)
    (within : Within known x) (inside : Within known y) : Simulates (Related known)
      (RbtreeBuild.rbtreeInsertLink debug x y cmpResult)
      (RbtreeBuild.rbtreeInsertLink packed x y cmpResult) := by
  refine .bind (related.rbtSetParent within inside) fun _ _ related => .ite (fun _ => .ite
    (fun _ => related.storeChild .left inside within) fun _ =>
      related.storeChild .right inside within) fun _ => .assertion <| .ok (related.setRoot within)

theorem rbtFindSuccessorLoop (related : Related known debug packed) (within : Within known x) :
    Simulates (SamePointer known) (RbtreeBuild.rbtFindSuccessorLoop debug rounds x)
      (RbtreeBuild.rbtFindSuccessorLoop packed rounds x) := by
  induction rounds generalizing x with
  | zero => exact .error _ _
  | succ rounds inductionHypothesis =>
      refine .bind (related.node within) ?_
      rintro _ node ⟨rfl, children, -⟩
      simp only [child_view]
      exact .ite (fun _ => .ok ⟨rfl, within⟩) fun _ => inductionHypothesis (children .right)

theorem rbtDeleteFixRed (related : Related known debug packed) (within : Within known x)
    (inside : Within known y) : Simulates (Related known)
      (RbtreeBuild.rbtDeleteFixRed debug x y) (RbtreeBuild.rbtDeleteFixRed packed x y) := by
  refine .assertion <| @Simulates.bind _ _ _ _ (Related known) _ _ _ _ _
    (.bind (related.node within) ?_) fun _ _ related => ?_
  · rintro _ node ⟨rfl, -, -⟩
    simp only [child_view]
    exact .ite (fun _ => related.rbtRotate .left within) fun _ => related.rbtRotate .right within
  · exact .bind (related.rbtSetColour _ inside) fun _ _ related => related.rbtSetColour _ within

theorem rbtDeleteFixTurn (related : Related known debug packed) (inside : Within known y)
    (beside : Within known z) : Simulates (Related known)
      (RbtreeBuild.rbtDeleteFixTurn debug x y z) (RbtreeBuild.rbtDeleteFixTurn packed x y z) := by
  refine .bind (related.node beside) ?_
  rintro _ sibling ⟨rfl, childrenLeft, -⟩
  refine .bind (related.node beside) ?_
  rintro _ sibling' ⟨rfl, childrenRight, -⟩
  refine .bind (related.node inside) ?_
  rintro _ parent ⟨rfl, -, -⟩
  simp only [child_view]
  have turn : ∀ side, Simulates (Related known)
      (do
        let debug ← RbtreeBuild.rbtSetColour debug z .red
        let node ← RbtreeBuild.node debug z
        let debug ← RbtreeBuild.rbtSetColour debug (RbtreeNodeBuild.child node side.other) .black
        RbtreeBuild.rbtRotate side debug z)
      (do
        let packed ← RbtreeBuild.rbtSetColour packed z .red
        let node ← RbtreeBuild.node packed z
        let packed ← RbtreeBuild.rbtSetColour packed (RbtreeNodeBuild.child node side.other) .black
        RbtreeBuild.rbtRotate side packed z) := by
    intro side
    refine .bind (related.rbtSetColour _ beside) fun _ _ related => ?_
    refine .bind (related.node beside) ?_
    rintro _ node ⟨rfl, children, -⟩
    simp only [child_view]
    exact .bind (related.rbtSetColour _ (children side.other)) fun _ _ related =>
      related.rbtRotate side beside
  rw [related.rbtGetColour (childrenLeft .left), related.rbtGetColour (childrenRight .right)]
  refine .ite (fun _ => turn .left) fun _ => .bind (related.node inside) ?_
  rintro _ parent' ⟨rfl, -, -⟩
  simp only [child_view]
  exact .ite (fun _ => turn .right) fun _ => .ok related

theorem rbtDeleteFixLast (related : Related known debug packed) (inside : Within known y)
    (beside : Within known z) : Simulates (Related known)
      (RbtreeBuild.rbtDeleteFixLast debug x y z) (RbtreeBuild.rbtDeleteFixLast packed x y z) := by
  refine .assertion <| .assertion ?_
  rw [related.rbtGetColour inside]
  refine .bind (related.rbtSetColour _ beside) fun _ _ related => ?_
  refine .bind (related.rbtSetColour _ inside) fun debug packed related => ?_
  refine .bind (related.node inside) ?_
  rintro _ parent ⟨rfl, -, -⟩
  simp only [child_view]
  have turn : ∀ side, Simulates (Related known)
      (do
        let node ← RbtreeBuild.node debug z
        let debug ← RbtreeBuild.rbtSetColour debug (RbtreeNodeBuild.child node side) .black
        RbtreeBuild.rbtRotate side.other debug y)
      (do
        let node ← RbtreeBuild.node packed z
        let packed ← RbtreeBuild.rbtSetColour packed (RbtreeNodeBuild.child node side) .black
        RbtreeBuild.rbtRotate side.other packed y) := by
    intro side
    refine .bind (related.node beside) ?_
    rintro _ node ⟨rfl, children, -⟩
    simp only [child_view]
    exact .bind (related.rbtSetColour _ (children side)) fun _ _ related =>
      related.rbtRotate side.other inside
  exact .ite (fun _ => .assertion (turn .left)) fun _ => .assertion (turn .right)

theorem rbtDeleteFixBlack (related : Related known debug packed) (within : Within known x)
    (inside : Within known y) (beside : Within known z) :
    Simulates (fun result image => Related known result.1 image.1 ∧ image.2 = result.2 ∧
        ∀ above, result.2 = some above → Within known above)
      (RbtreeBuild.rbtDeleteFixBlack debug x y z)
      (RbtreeBuild.rbtDeleteFixBlack packed x y z) := by
  refine .bind (related.node beside) ?_
  rintro _ sibling ⟨rfl, children, -⟩
  simp only [child_view]
  rw [related.rbtGetColour beside, related.rbtGetColour inside,
    related.rbtGetColour (children .left), related.rbtGetColour (children .right)]
  refine .ite (fun _ => .ite (fun _ => ?_) fun _ => ?_) fun _ => ?_
  · refine .bind (related.rbtSetColour _ beside) fun _ _ related => ?_
    refine .bind (related.rbtGetParent within) ?_
    rintro _ above ⟨rfl, aboveWithin⟩
    refine .ok ⟨related, rfl, ?_⟩
    rintro _ ⟨⟩
    exact aboveWithin
  · refine .bind (related.rbtSetColour _ beside) fun _ _ related => ?_
    exact .bind (related.rbtSetColour _ inside) fun _ _ related =>
      .ok ⟨related, rfl, fun _ impossible => by cases impossible⟩
  · refine @Simulates.bind _ _ _ _ (fun found image => Related known found.1 image.1 ∧
      SamePointer known found.2.1 image.2.1 ∧ SamePointer known found.2.2 image.2.2) _ _ _ _ _
      (.ite (fun _ => .bind (related.rbtDeleteFixTurn inside beside) fun _ _ related => ?_)
        fun _ => .ok ⟨related, ⟨rfl, inside⟩, rfl, beside⟩) ?_
    · refine .bind (related.rbtGetSibling within) fun _ _ sibling => ?_
      exact .bind (related.rbtGetParent within) fun _ _ parent => .ok ⟨related, parent, sibling⟩
    · rintro ⟨_, _, _⟩ ⟨_, parent, sibling⟩ ⟨related, ⟨rfl, inside⟩, rfl, beside⟩
      exact .bind (related.rbtDeleteFixLast inside beside) fun _ _ related =>
        .ok ⟨related, rfl, fun _ impossible => by cases impossible⟩

theorem rbtDeleteFix (related : Related known debug packed) (within : Within known x) :
    Simulates (Related known) (RbtreeBuild.rbtDeleteFix rounds debug x)
      (RbtreeBuild.rbtDeleteFix rounds packed x) := by
  induction rounds generalizing debug packed x with
  | zero => exact .error _ _
  | succ rounds inductionHypothesis =>
      refine .bind (related.rbtGetParent within) ?_
      rintro _ parent ⟨rfl, inside⟩
      refine .ite (fun _ => .ok related) fun _ => .bind (related.rbtGetSibling within) ?_
      rintro _ sibling ⟨rfl, beside⟩
      rw [related.rbtGetColour beside]
      refine @Simulates.bind _ _ _ _ (fun found image => Related known found.1 image.1 ∧
        SamePointer known found.2.1 image.2.1 ∧ SamePointer known found.2.2 image.2.2) _ _ _ _ _
        (.ite (fun _ => .bind (related.rbtDeleteFixRed inside beside) fun _ _ related => ?_)
          fun _ => .ok ⟨related, ⟨rfl, inside⟩, rfl, beside⟩) ?_
      · refine .bind (related.rbtGetParent within) fun _ _ parent => ?_
        exact .bind (related.rbtGetSibling within) fun _ _ sibling => .ok ⟨related, parent, sibling⟩
      · rintro ⟨_, _, _⟩ ⟨_, parent, sibling⟩ ⟨related, ⟨rfl, inside⟩, rfl, beside⟩
        refine .bind (related.rbtDeleteFixBlack within inside beside) ?_
        rintro ⟨_, _⟩ ⟨_, above⟩ ⟨related, rfl, aboveWithin⟩
        cases above with
        | none => exact .ok related
        | some above => exact inductionHypothesis related (aboveWithin above rfl)

theorem rbtreeDeleteUnlink (related : Related known debug packed) (within : Within known x) :
    Simulates (Related known) (RbtreeBuild.rbtreeDeleteUnlink rounds debug x)
      (RbtreeBuild.rbtreeDeleteUnlink rounds packed x) := by
  refine .bind (related.node within) ?_
  rintro _ node ⟨rfl, children, -⟩
  simp only [child_view]
  have heir : Within known (if RbtreeNodeBuild.child node .right ≠ none then
      RbtreeNodeBuild.child node .right else RbtreeNodeBuild.child node .left) :=
    .ite (children .right) (children .left)
  rw [related.rbtGetColour within, related.rbtGetColour heir]
  refine .assertion <| .bind (.ite (fun _ => .ite (fun _ => related.rbtSetColour _ heir)
    fun _ => related.rbtDeleteFix within) fun _ => .ok related) fun _ _ related => ?_
  exact related.rbtReplaceSubtree within heir

theorem rbtFindSuccessor (related : Related known debug packed) (within : Within known x) :
    Simulates (SamePointer known) (RbtreeBuild.rbtFindSuccessor rounds debug x)
      (RbtreeBuild.rbtFindSuccessor rounds packed x) := by
  refine .bind (related.node within) ?_
  rintro _ node ⟨rfl, children, -⟩
  simp only [child_view]
  exact related.rbtFindSuccessorLoop (children .left)

theorem rbtreeDelete (related : Related known debug packed) (within : Within known x) :
    Simulates (Related known) (RbtreeBuild.rbtreeDelete rounds debug x)
      (RbtreeBuild.rbtreeDelete rounds packed x) := by
  refine .bind (related.node within) ?_
  rintro _ node ⟨rfl, children, -⟩
  simp only [child_view]
  refine @Simulates.bind _ _ _ _ (Related known) _ _ _ _ _ (.ite (fun _ =>
    .bind (related.rbtFindSuccessor within) ?_) fun _ => .ok related) fun _ _ related =>
      related.rbtreeDeleteUnlink within
  rintro _ successor ⟨rfl, successorWithin⟩
  exact related.rbtSwapNodes within successorWithin

end Related

/-! ## New nodes -/

theorem Within.mono {more : Set NodeAddr} (within : Within known x) (subset : known ⊆ more) :
    Within more x := fun addr isAddr => subset (within addr isAddr)

theorem NodeRelated.mono {more : Set NodeAddr} {node : RbtreeNode NodeAddr Data}
    {packedNode : PackedNode Data} (related : NodeRelated known node packedNode)
    (subset : known ⊆ more) : NodeRelated more node packedNode :=
  ⟨related.view, fun side => (related.children side).mono subset, related.parent.mono subset⟩

namespace Related

/-- Whatever a node held, `rbtree_init_node` makes it the same in the two builds. -/
theorem rbtreeInitNode (related : Related known debug packed) (addr : NodeAddr) :
    Simulates (Related (insert addr known)) (RbtreeBuild.rbtreeInitNode debug (some addr))
      (RbtreeBuild.rbtreeInitNode packed (some addr)) := by
  have subset : known ⊆ insert addr known := Set.subset_insert addr known
  have one : RbtreeBuild.rbtreeInitNode debug (some addr) =
      .ok ⟨debug.root, Function.update debug.nodes addr
        ⟨(debug.nodes addr).data, none, none, none, .red⟩⟩ := by
    simp [RbtreeBuild.rbtreeInitNode, RbtreeBuild.rbtSetColour, RbtreeBuild.update,
      RbtreeBuild.assertion, RbtreeBuild.modify, Rbtree.modify, clearLinks,
      RbtreeNodeBuild.setColour, RbtreeNode.setColour]
  have other : RbtreeBuild.rbtreeInitNode packed (some addr) =
      .ok ⟨packed.root, Function.update packed.nodes addr
        (PackedNode.setColour ⟨(packed.nodes addr).data, none, none, 0⟩ .red)⟩ := by
    simp [RbtreeBuild.rbtreeInitNode, RbtreeBuild.rbtSetColour, RbtreeBuild.update,
      RbtreeBuild.assertion, RbtreeBuild.modify, clearLinks, RbtreeNodeBuild.setColour]
  rw [one, other]
  have view := (packed.nodes addr).view_clear
  refine .ok ⟨related.root, related.rootWithin.mono subset, fun node => ?_, fun node member => ?_⟩
  · by_cases same : node = addr
    · subst same
      simpa [PackedNode.setColour] using related.data node
    · simpa [same] using related.data node
  · by_cases same : node = addr
    · subst same
      simp only [Function.update_self]
      refine ⟨by rw [view, related.data], fun side => ?_, ?_⟩
      · cases side <;> exact .none
      · have noParent := congrArg RbtreeNode.parent view
        exact fun above isAbove => by cases noParent.symm.trans isAbove
    · simp only [Function.update_of_ne same]
      exact (related.nodes node (Set.mem_of_mem_insert_of_ne member same)).mono subset

theorem rbtreeInsert (related : Related known debug packed) (addr : NodeAddr)
    (cmpf : RbtreeCmpFn Data) : Simulates (Related (insert addr known))
      (RbtreeBuild.rbtreeInsert rounds debug (some addr) cmpf)
      (RbtreeBuild.rbtreeInsert rounds packed (some addr) cmpf) := by
  have within : Within (insert addr known) (some addr) := by
    rintro _ ⟨⟩
    exact Set.mem_insert addr known
  refine .assertion <| .bind (related.rbtreeInitNode addr) fun debug packed related => ?_
  refine .bind (related.node within) ?_
  rintro _ node ⟨rfl, -, -⟩
  rw [show RbtreeBuild.root debug = RbtreeBuild.root packed from related.root.symm]
  have rootWithin : Within (insert addr known) (RbtreeBuild.root packed) :=
    fun addr isAddr => related.rootWithin addr (related.root.symm.trans isAddr)
  refine .bind (related.rbtreeInsertSearch _ cmpf 0 .none rootWithin) ?_
  rintro ⟨_, _⟩ ⟨parent, cmpResult⟩ ⟨⟨rfl, parentWithin⟩, rfl⟩
  exact .bind (related.rbtreeInsertLink cmpResult within parentWithin) fun _ _ related =>
    related.rbtInsertFix within

/-- `node->data = data`, by the caller. -/
theorem setData (related : Related known debug packed) (addr : NodeAddr) (data : Data) :
    Related known (debug.setData addr data) (packed.setData addr data) := by
  refine ⟨related.root, related.rootWithin, fun other => ?_, fun other member => ?_⟩
  · by_cases same : other = addr
    · simp [Rbtree.setData, Rbtree.modify, PackedRbtree.setData, same]
    · simpa [Rbtree.setData, Rbtree.modify, PackedRbtree.setData, same] using related.data other
  · obtain ⟨view, children, parent⟩ := related.nodes other member
    by_cases same : other = addr
    · subst same
      simp only [Rbtree.setData, Rbtree.modify, PackedRbtree.setData, Function.update_self]
      refine ⟨by rw [← view]; rfl, fun side => ?_, parent⟩
      cases side
      · exact children .left
      · exact children .right
    · simp only [Rbtree.setData, Rbtree.modify, PackedRbtree.setData,
        Function.update_of_ne same]
      exact ⟨view, children, parent⟩

end Related

end Yaeos
