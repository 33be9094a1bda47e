import Mathlib.Data.BitVec
import Yaeos.Machine.Simulation
import Yaeos.Rbtree.Build

/-!
# The release build of the red-black tree (`lib/ds/rbtree.c` under `NDEBUG`)

A node has no field for its colour: bit 0 of the word of the parent pointer is
the colour, and the other bits are the pointer, whose own bit 0 is clear.
`PackedNode.view` reads a packed node as a node of the debug build.  The four
accessors keep to their part of the word whatever the word is, so the view goes
through all of them.
-/

namespace Yaeos

section Mask

variable {width : Nat} {word mask pointer : BitVec width}

theorem or_and_mask (apart : pointer &&& mask = 0) :
    ((word &&& mask) ||| pointer) &&& mask = word &&& mask := by
  ext i inside
  have bit : (pointer &&& mask)[i] = (0 : BitVec width)[i] := by rw [apart]
  simp only [BitVec.getElem_and, BitVec.getElem_or] at bit ⊢
  cases masked : mask[i] <;> simp_all

theorem or_and_not_mask (apart : pointer &&& mask = 0) :
    ((word &&& mask) ||| pointer) &&& ~~~mask = pointer := by
  ext i inside
  have bit : (pointer &&& mask)[i] = (0 : BitVec width)[i] := by rw [apart]
  simp only [BitVec.getElem_and, BitVec.getElem_or, BitVec.getElem_not] at bit ⊢
  cases masked : mask[i] <;> simp_all

theorem set_and_mask : (word ||| mask) &&& mask = mask := by
  ext i inside
  simp only [BitVec.getElem_and, BitVec.getElem_or]
  cases mask[i] <;> simp

theorem set_and_not_mask : (word ||| mask) &&& ~~~mask = word &&& ~~~mask := by
  ext i inside
  simp only [BitVec.getElem_and, BitVec.getElem_or, BitVec.getElem_not]
  cases mask[i] <;> simp

theorem clear_and_mask : word &&& ~~~mask &&& mask = 0 := by
  rw [BitVec.and_assoc]
  simp

theorem clear_and_not_mask : word &&& ~~~mask &&& ~~~mask = word &&& ~~~mask := by
  rw [BitVec.and_assoc, BitVec.and_self]

end Mask

/-- `NDEBUG_COLOR_MASK`. -/
def ndebugColorMask : BitVec 32 := 1

/-- The address of a node: not `NULL`, and with bit 0 clear. -/
structure NodeAddr where
  word : BitVec 32
  nonzero : word ≠ 0
  even : word &&& ndebugColorMask = 0
  deriving DecidableEq

/-- `(uintptr_t)pointer`. -/
def pointerWord : Option NodeAddr → BitVec 32
  | none => 0
  | some addr => addr.word

/-- A word with bit 0 clear, as a pointer. -/
def wordPointer (word : BitVec 32) (even : word &&& ndebugColorMask = 0) : Option NodeAddr :=
  if nonzero : word = 0 then none else some ⟨word, nonzero, even⟩

structure PackedNode (Data : Type) where
  data : Data
  left : Option NodeAddr
  right : Option NodeAddr
  /-- The parent pointer and the colour. -/
  parent : BitVec 32

namespace PackedNode

variable {Data : Type}

def child (node : PackedNode Data) : Side → Option NodeAddr
  | .left => node.left
  | .right => node.right

def setChild (node : PackedNode Data) (side : Side) (pointer : Option NodeAddr) :
    PackedNode Data :=
  match side with
  | .left => { node with left := pointer }
  | .right => { node with right := pointer }

def setColour (node : PackedNode Data) (colour : RbtreeColour) : PackedNode Data :=
  { node with
    parent := if colour = .red then node.parent ||| ndebugColorMask
      else node.parent &&& ~~~ndebugColorMask }

def getColour (node : PackedNode Data) : RbtreeColour :=
  if node.parent &&& ndebugColorMask = 0 then .black else .red

def setParent (node : PackedNode Data) (pointer : Option NodeAddr) : PackedNode Data :=
  { node with parent := (node.parent &&& ndebugColorMask) ||| pointerWord pointer }

def getParent (node : PackedNode Data) : Option NodeAddr :=
  wordPointer (node.parent &&& ~~~ndebugColorMask) clear_and_mask

/-- The same node in the debug build. -/
def view (node : PackedNode Data) : RbtreeNode NodeAddr Data :=
  ⟨node.data, node.left, node.right, node.getParent, node.getColour⟩

end PackedNode

theorem pointerWord_even (pointer : Option NodeAddr) :
    pointerWord pointer &&& ndebugColorMask = 0 := by
  cases pointer with
  | none => rfl
  | some addr => exact addr.even

theorem wordPointer_congr {word other : BitVec 32} {even : word &&& ndebugColorMask = 0}
    {even' : other &&& ndebugColorMask = 0} (same : word = other) :
    wordPointer word even = wordPointer other even' := by
  subst same
  rfl

theorem wordPointer_pointerWord (pointer : Option NodeAddr) :
    wordPointer (pointerWord pointer) (pointerWord_even pointer) = pointer := by
  cases pointer with
  | none => rfl
  | some addr => exact dif_neg addr.nonzero

namespace PackedNode

variable {Data : Type} (node : PackedNode Data)

/-! ## The two halves of the word -/

theorem getParent_setParent (pointer : Option NodeAddr) :
    (node.setParent pointer).getParent = pointer :=
  (wordPointer_congr (or_and_not_mask (pointerWord_even pointer))).trans
    (wordPointer_pointerWord pointer)

theorem getColour_setParent (pointer : Option NodeAddr) :
    (node.setParent pointer).getColour = node.getColour := by
  simp only [getColour, setParent, or_and_mask (pointerWord_even pointer)]

theorem getColour_setColour (colour : RbtreeColour) :
    (node.setColour colour).getColour = colour := by
  cases colour with
  | black => simp only [getColour, setColour, reduceCtorEq, if_false, clear_and_mask, if_true]
  | red =>
      have set : ndebugColorMask ≠ 0 := by decide
      simp only [getColour, setColour, if_true, set_and_mask, if_neg set]

theorem getParent_setColour (colour : RbtreeColour) :
    (node.setColour colour).getParent = node.getParent := by
  refine wordPointer_congr ?_
  cases colour with
  | black => exact clear_and_not_mask
  | red => exact set_and_not_mask

/-! ## The view -/

theorem view_setColour (colour : RbtreeColour) :
    (node.setColour colour).view = node.view.setColour colour := by
  simp only [view, getParent_setColour, getColour_setColour]
  rfl

theorem view_setParent (pointer : Option NodeAddr) :
    (node.setParent pointer).view = node.view.setParent pointer := by
  simp only [view, getParent_setParent, getColour_setParent]
  rfl

theorem view_setChild (side : Side) (pointer : Option NodeAddr) :
    (node.setChild side pointer).view = node.view.setChild side pointer := by
  cases side <;> rfl

theorem view_child (side : Side) : node.view.child side = node.child side := by
  cases side <;> rfl

/-- `rbtree_init_node` sets the whole word before it sets the colour. -/
theorem view_clear : ({ node with left := none, right := none, parent := 0 }.setColour .red).view =
    ⟨node.data, none, none, none, .red⟩ := by
  have noParent : (PackedNode.mk node.data none none 0).getParent = none :=
    (wordPointer_congr BitVec.zero_and).trans (wordPointer_pointerWord none)
  simp only [view, getParent_setColour, getColour_setColour, noParent]
  rfl

end PackedNode

/-! ## The build -/

structure PackedRbtree (Data : Type) where
  root : Option NodeAddr
  nodes : NodeAddr → PackedNode Data

instance (Data : Type) : RbtreeNodeBuild (PackedNode Data) NodeAddr Data where
  data := PackedNode.data
  child := PackedNode.child
  setChild := PackedNode.setChild
  clearLinks node := { node with left := none, right := none, parent := 0 }
  setColour := PackedNode.setColour
  getColour := PackedNode.getColour
  setParent := PackedNode.setParent
  getParent := PackedNode.getParent

/-- A `kassert` is nothing in this build. -/
instance (Data : Type) : RbtreeBuild (PackedRbtree Data) (PackedNode Data) NodeAddr where
  root := PackedRbtree.root
  setRoot rbt root := { rbt with root := root }
  nodes := PackedRbtree.nodes
  modify rbt addr change :=
    { rbt with nodes := Function.update rbt.nodes addr (change (rbt.nodes addr)) }
  assertion _ _ := .ok ()

end Yaeos
