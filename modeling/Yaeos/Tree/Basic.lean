import Mathlib.Data.List.Nodup
import Mathlib.Tactic.Common

/-!
# Binary trees and their contexts

A tree with one subtree taken out is a context: the frames on the way from the
hole up to the root.  Both sides of a node are treated alike, so that a
statement about a rotation or a fix-up is proved once for the two directions.
-/

namespace Yaeos

universe u v

inductive Side where
  | left
  | right
  deriving DecidableEq, Repr

namespace Side

def other : Side → Side
  | left => right
  | right => left

@[simp]
theorem other_other (side : Side) : side.other.other = side := by cases side <;> rfl

@[simp]
theorem other_ne (side : Side) : side.other ≠ side := by cases side <;> simp [other]

@[simp]
theorem ne_other (side : Side) : side ≠ side.other := by cases side <;> simp [other]

theorem eq_or_eq_other (side reference : Side) : side = reference ∨ side = reference.other := by
  cases side <;> cases reference <;> simp [other]

end Side

inductive Colour where
  | black
  | red
  deriving DecidableEq, Repr

inductive Tree (Key : Type u) where
  | nil
  | node (colour : Colour) (left : Tree Key) (key : Key) (right : Tree Key)

namespace Tree

variable {Key : Type u} {Image : Type v}

/-- The key at the root. -/
def root : Tree Key → Option Key
  | nil => none
  | node _ _ key _ => some key

/-- The colour at the root; an empty tree is black. -/
def colour : Tree Key → Colour
  | nil => .black
  | node colour _ _ _ => colour

def inorder : Tree Key → List Key
  | nil => []
  | node _ left key right => left.inorder ++ key :: right.inorder

def map (f : Key → Image) : Tree Key → Tree Image
  | nil => nil
  | node colour left key right => node colour (left.map f) (f key) (right.map f)

/-- The node with subtree `near` on the given side and `far` on the other. -/
def branch (side : Side) (colour : Colour) (near : Tree Key) (key : Key) (far : Tree Key) :
    Tree Key :=
  match side with
  | .left => node colour near key far
  | .right => node colour far key near

/-- The same node, seen from the other side. -/
theorem branch_other (side : Side) (colour : Colour) (near : Tree Key) (key : Key)
    (far : Tree Key) : branch side.other colour near key far = branch side colour far key near := by
  cases side <;> rfl

/-- A tree with a root is a branch in either direction. -/
theorem exists_branch (side : Side) {tree : Tree Key} {key : Key} (rooted : tree.root = some key) :
    ∃ colour near far, tree = branch side colour near key far := by
  cases tree with
  | nil => cases rooted
  | node colour left other right =>
      cases rooted
      cases side
      · exact ⟨colour, left, right, rfl⟩
      · exact ⟨colour, right, left, rfl⟩

@[simp]
theorem root_branch (side : Side) (colour : Colour) (near : Tree Key) (key : Key)
    (far : Tree Key) : (branch side colour near key far).root = some key := by cases side <;> rfl

@[simp]
theorem colour_branch (side : Side) (colour : Colour) (near : Tree Key) (key : Key)
    (far : Tree Key) : (branch side colour near key far).colour = colour := by cases side <;> rfl

theorem root_eq_none {tree : Tree Key} : tree.root = none ↔ tree = nil := by
  cases tree <;> simp [root]

theorem mem_of_root {tree : Tree Key} {key : Key} (rooted : tree.root = some key) :
    key ∈ tree.inorder := by
  cases tree with
  | nil => cases rooted
  | node colour left other right =>
      cases rooted
      simp [inorder]

@[simp]
theorem mem_branch (side : Side) (colour : Colour) (near : Tree Key) (key : Key)
    (far : Tree Key) {other : Key} : other ∈ (branch side colour near key far).inorder ↔
      other = key ∨ other ∈ near.inorder ∨ other ∈ far.inorder := by
  cases side <;> simp only [branch, inorder, List.mem_append, List.mem_cons] <;> tauto

/-- The keys of a branch in whatever order is convenient. -/
theorem inorder_branch_perm (side : Side) (colour : Colour) (near : Tree Key) (key : Key)
    (far : Tree Key) :
    (branch side colour near key far).inorder.Perm (key :: (near.inorder ++ far.inorder)) := by
  cases side
  · exact List.perm_middle
  · exact List.perm_middle.trans ((List.perm_append_comm).cons key)

theorem nodup_branch (side : Side) (colour : Colour) (near : Tree Key) (key : Key)
    (far : Tree Key) : (branch side colour near key far).inorder.Nodup ↔
      (key ∉ near.inorder ∧ key ∉ far.inorder) ∧ near.inorder.Nodup ∧ far.inorder.Nodup ∧
        near.inorder.Disjoint far.inorder := by
  rw [(inorder_branch_perm side colour near key far).nodup_iff, List.nodup_cons,
    List.nodup_append', List.mem_append, not_or]

/-- A rotation towards `side` keeps the sequence of keys. -/
theorem inorder_rotate (side : Side) (upper lower : Colour) (upper' lower' : Colour)
    (near : Tree Key) (key : Key) (middle : Tree Key) (pivot : Key) (far : Tree Key) :
    (branch side upper near key (branch side lower middle pivot far)).inorder =
      (branch side lower' (branch side upper' near key middle) pivot far).inorder := by
  cases side <;> simp [branch, inorder]

theorem inorder_recolour (side : Side) (old new : Colour) (near : Tree Key) (key : Key)
    (far : Tree Key) : (branch side old near key far).inorder =
      (branch side new near key far).inorder := by
  cases side <;> rfl

@[simp]
theorem root_map (f : Key → Image) (tree : Tree Key) : (tree.map f).root = tree.root.map f := by
  cases tree <;> rfl

@[simp]
theorem inorder_map (f : Key → Image) (tree : Tree Key) :
    (tree.map f).inorder = tree.inorder.map f := by
  induction tree with
  | nil => rfl
  | node colour left key right leftHypothesis rightHypothesis =>
      simp [map, inorder, leftHypothesis, rightHypothesis]

@[simp]
theorem map_branch (f : Key → Image) (side : Side) (colour : Colour) (near : Tree Key) (key : Key)
    (far : Tree Key) : (branch side colour near key far).map f =
      branch side colour (near.map f) (f key) (far.map f) := by
  cases side <;> rfl

end Tree

/-- A tree with a hole, from the hole outwards: on which side of its parent the
hole is, the parent and the parent's other subtree. -/
inductive Ctx (Key : Type u) where
  | top
  | frame (side : Side) (colour : Colour) (key : Key) (other : Tree Key) (outer : Ctx Key)

namespace Ctx

variable {Key : Type u} {Image : Type v}

def plug : Ctx Key → Tree Key → Tree Key
  | top, tree => tree
  | frame side colour key other outer, tree => outer.plug (.branch side colour tree key other)

/-- The key above the hole. -/
def parent : Ctx Key → Option Key
  | top => none
  | frame _ _ key _ _ => some key

/-- On which side of the key above the hole is. -/
def side : Ctx Key → Option Side
  | top => none
  | frame side _ _ _ _ => some side

/-- The keys before the hole. -/
def before : Ctx Key → List Key
  | top => []
  | frame .left _ _ _ outer => outer.before
  | frame .right _ key other outer => outer.before ++ (other.inorder ++ [key])

/-- The keys after the hole. -/
def after : Ctx Key → List Key
  | top => []
  | frame .left _ key other outer => key :: other.inorder ++ outer.after
  | frame .right _ _ _ outer => outer.after

def keys (ctx : Ctx Key) : List Key := ctx.before ++ ctx.after

def depth : Ctx Key → Nat
  | top => 0
  | frame _ _ _ _ outer => outer.depth + 1

def map (f : Key → Image) : Ctx Key → Ctx Image
  | top => top
  | frame side colour key other outer => frame side colour (f key) (other.map f) (outer.map f)

theorem depth_le (ctx : Ctx Key) : ctx.depth ≤ ctx.keys.length := by
  induction ctx with
  | top => simp [depth]
  | frame side colour key other outer inductionHypothesis =>
      cases side <;> simp only [depth, keys, before, after, List.length_append, List.length_cons,
        List.length_nil] at inductionHypothesis ⊢ <;> omega

theorem inorder_plug (ctx : Ctx Key) (tree : Tree Key) :
    (ctx.plug tree).inorder = ctx.before ++ tree.inorder ++ ctx.after := by
  induction ctx generalizing tree with
  | top => simp [plug, before, after]
  | frame side colour key other outer inductionHypothesis =>
      rw [plug, inductionHypothesis]
      cases side <;> simp [Tree.branch, Tree.inorder, before, after]

/-- What comes before a node below the hole, and what comes behind it. -/
theorem inorder_plug_node (ctx : Ctx Key) (colour : Colour) (left : Tree Key) (key : Key)
    (right : Tree Key) : (ctx.plug (.node colour left key right)).inorder =
      (ctx.before ++ left.inorder) ++ key :: (right.inorder ++ ctx.after) := by
  rw [inorder_plug, Tree.inorder]
  simp only [List.append_assoc, List.cons_append]

/-- There is a key for every step down to the hole. -/
theorem depth_add_le (ctx : Ctx Key) (tree : Tree Key) :
    ctx.depth + tree.inorder.length ≤ (ctx.plug tree).inorder.length := by
  have deep := ctx.depth_le
  rw [keys, List.length_append] at deep
  rw [inorder_plug, List.length_append, List.length_append]
  omega

/-- A subtree with a root lies less deep than there are keys. -/
theorem depth_lt (ctx : Ctx Key) {tree : Tree Key} {key : Key} (rooted : tree.root = some key) :
    ctx.depth < (ctx.plug tree).inorder.length := by
  have deep := ctx.depth_add_le tree
  have nonempty := List.length_pos_of_mem (Tree.mem_of_root rooted)
  omega

/-- Subtrees with the same keys fill a hole alike. -/
theorem inorder_plug_congr {ctx : Ctx Key} {first second : Tree Key}
    (same : first.inorder = second.inorder) :
    (ctx.plug first).inorder = (ctx.plug second).inorder := by
  rw [inorder_plug, inorder_plug, same]

@[simp]
theorem mem_keys_frame {side : Side} {colour : Colour} {key : Key} {other : Tree Key}
    {outer : Ctx Key} {member : Key} : member ∈ (frame side colour key other outer).keys ↔
      member = key ∨ member ∈ other.inorder ∨ member ∈ outer.keys := by
  cases side <;> simp only [keys, before, after, List.mem_append, List.mem_cons,
    List.not_mem_nil, or_false] <;> tauto

@[simp]
theorem not_mem_keys_top {member : Key} : member ∉ (top : Ctx Key).keys := by
  simp [keys, before, after]

theorem parent_mem {ctx : Ctx Key} {key : Key} (above : ctx.parent = some key) :
    key ∈ ctx.keys := by
  cases ctx with
  | top => cases above
  | frame side colour other tree outer =>
      cases above
      simp

theorem inorder_plug_perm (ctx : Ctx Key) (tree : Tree Key) :
    (ctx.plug tree).inorder.Perm (tree.inorder ++ ctx.keys) := by
  rw [inorder_plug, keys, ← List.append_assoc]
  exact List.perm_append_comm.append_right _

theorem mem_plug {ctx : Ctx Key} {tree : Tree Key} {member : Key} :
    member ∈ (ctx.plug tree).inorder ↔ member ∈ tree.inorder ∨ member ∈ ctx.keys := by
  rw [(inorder_plug_perm ctx tree).mem_iff, List.mem_append]

theorem nodup_plug {ctx : Ctx Key} {tree : Tree Key} : (ctx.plug tree).inorder.Nodup ↔
    tree.inorder.Nodup ∧ ctx.keys.Nodup ∧ tree.inorder.Disjoint ctx.keys := by
  rw [(inorder_plug_perm ctx tree).nodup_iff, List.nodup_append']

theorem map_plug (f : Key → Image) (ctx : Ctx Key) (tree : Tree Key) :
    (ctx.plug tree).map f = (ctx.map f).plug (tree.map f) := by
  induction ctx generalizing tree with
  | top => rfl
  | frame side colour key other outer inductionHypothesis =>
      simp [plug, map, inductionHypothesis]

theorem before_map (f : Key → Image) (ctx : Ctx Key) : (ctx.map f).before = ctx.before.map f := by
  induction ctx with
  | top => rfl
  | frame side colour key other outer inductionHypothesis =>
      cases side <;> simp [map, before, inductionHypothesis]

theorem after_map (f : Key → Image) (ctx : Ctx Key) : (ctx.map f).after = ctx.after.map f := by
  induction ctx with
  | top => rfl
  | frame side colour key other outer inductionHypothesis =>
      cases side <;> simp [map, after, inductionHypothesis]

theorem depth_map (f : Key → Image) (ctx : Ctx Key) : (ctx.map f).depth = ctx.depth := by
  induction ctx with
  | top => rfl
  | frame side colour key other outer inductionHypothesis =>
      rw [map, depth, depth, inductionHypothesis]

/-- Every key of a tree is the root of some subtree. -/
theorem exists_focus (ctx : Ctx Key) {tree : Tree Key} {key : Key} (member : key ∈ tree.inorder) :
    ∃ (inner : Ctx Key) (subtree : Tree Key), inner.plug subtree = ctx.plug tree ∧ subtree.root = some key := by
  induction tree generalizing ctx with
  | nil => cases member
  | node colour left root right leftHypothesis rightHypothesis =>
      simp only [Tree.inorder, List.mem_append, List.mem_cons] at member
      rcases member with inLeft | rfl | inRight
      · exact leftHypothesis (.frame .left colour root right ctx) inLeft
      · exact ⟨ctx, _, rfl, rfl⟩
      · exact rightHypothesis (.frame .right colour root left ctx) inRight

end Ctx

end Yaeos
