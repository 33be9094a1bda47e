import Yaeos.Tree.Basic

/-!
# Red-black balance

`Tree.Balanced` fixes the colour of the root and the number of black nodes on
every path down.  `Ctx.Balanced` says the same of a context: it becomes a
balanced tree when its hole is filled with a balanced tree of that height whose
root does not clash with the node above.
-/

namespace Yaeos

universe u v

variable {Key : Type u} {Image : Type v}

namespace Tree

/-- No red node has a red child and every path down to an empty tree has
`height` black nodes. -/
inductive Balanced : Tree Key → Colour → Nat → Prop where
  | nil : Balanced nil .black 0
  | red {left right height} (key : Key) : Balanced left .black height →
      Balanced right .black height → Balanced (node .red left key right) .red height
  | black {left right leftColour rightColour height} (key : Key) :
      Balanced left leftColour height → Balanced right rightColour height →
      Balanced (node .black left key right) .black (height + 1)

variable {tree near far : Tree Key} {side : Side} {colour : Colour} {key : Key} {height : Nat}

theorem Balanced.colour_eq (balanced : tree.Balanced colour height) : tree.colour = colour := by
  cases balanced <;> rfl

theorem Balanced.branchRed (nearBalanced : near.Balanced .black height)
    (farBalanced : far.Balanced .black height) :
    (branch side .red near key far).Balanced .red height := by
  cases side
  · exact .red key nearBalanced farBalanced
  · exact .red key farBalanced nearBalanced

theorem Balanced.branchBlack {nearColour farColour : Colour}
    (nearBalanced : near.Balanced nearColour height)
    (farBalanced : far.Balanced farColour height) :
    (branch side .black near key far).Balanced .black (height + 1) := by
  cases side
  · exact .black key nearBalanced farBalanced
  · exact .black key farBalanced nearBalanced

theorem balanced_branch_red : (branch side .red near key far).Balanced colour height ↔
    colour = .red ∧ near.Balanced .black height ∧ far.Balanced .black height := by
  constructor
  · intro balanced
    cases side <;> cases balanced with
    | red _ left right => first | exact ⟨rfl, left, right⟩ | exact ⟨rfl, right, left⟩
  · rintro ⟨rfl, nearBalanced, farBalanced⟩
    exact nearBalanced.branchRed farBalanced

theorem balanced_branch_black : (branch side .black near key far).Balanced colour height ↔
    colour = .black ∧ ∃ lower nearColour farColour, height = lower + 1 ∧
      near.Balanced nearColour lower ∧ far.Balanced farColour lower := by
  constructor
  · intro balanced
    cases side <;> cases balanced with
    | black _ left right =>
        first
        | exact ⟨rfl, _, _, _, rfl, left, right⟩
        | exact ⟨rfl, _, _, _, rfl, right, left⟩
  · rintro ⟨rfl, lower, nearColour, farColour, rfl, nearBalanced, farBalanced⟩
    exact nearBalanced.branchBlack farBalanced

/-- A red tree is a branch in either direction, over black subtrees. -/
theorem Balanced.exists_red (side : Side) (balanced : tree.Balanced .red height) :
    ∃ near key far, tree = branch side .red near key far ∧ near.Balanced .black height ∧
      far.Balanced .black height := by
  cases balanced with
  | red key left right =>
      cases side
      · exact ⟨_, key, _, rfl, left, right⟩
      · exact ⟨_, key, _, rfl, right, left⟩

/-- A black tree of positive height is a branch in either direction. -/
theorem Balanced.exists_black (side : Side) (balanced : tree.Balanced .black (height + 1)) :
    ∃ near key far nearColour farColour, tree = branch side .black near key far ∧
      near.Balanced nearColour height ∧ far.Balanced farColour height := by
  cases balanced with
  | black key left right =>
      cases side
      · exact ⟨_, key, _, _, _, rfl, left, right⟩
      · exact ⟨_, key, _, _, _, rfl, right, left⟩

theorem Balanced.map (f : Key → Image) (balanced : tree.Balanced colour height) :
    (tree.map f).Balanced colour height := by
  induction balanced with
  | nil => exact .nil
  | red key _ _ leftHypothesis rightHypothesis => exact .red _ leftHypothesis rightHypothesis
  | black key _ _ leftHypothesis rightHypothesis => exact .black _ leftHypothesis rightHypothesis

end Tree

namespace Ctx

/-- The colour of the node above the hole.  At the top it is red: the root of a
tree must be black. -/
def colour : Ctx Key → Colour
  | top => .red
  | frame _ colour _ _ _ => colour

/-- The context of a subtree with `height` black nodes on its paths. -/
inductive Balanced : Ctx Key → Nat → Prop where
  | top {height} : Balanced top height
  | red {side key other outer height} : other.Balanced .black height → Balanced outer height →
      outer.colour = .black → Balanced (frame side .red key other outer) height
  | black {side key other otherColour outer height} : other.Balanced otherColour height →
      Balanced outer (height + 1) → Balanced (frame side .black key other outer) height

variable {ctx : Ctx Key} {tree : Tree Key} {colour : Colour} {height : Nat}

/-- Filling the hole with a balanced tree that does not clash gives a balanced
tree with a black root. -/
theorem Balanced.plug (around : ctx.Balanced height) (balanced : tree.Balanced colour height)
    (compatible : colour = .red → ctx.colour = .black) :
    ∃ total, (ctx.plug tree).Balanced .black total := by
  induction around generalizing tree colour with
  | top =>
      cases colour with
      | black => exact ⟨_, balanced⟩
      | red => cases compatible rfl
  | red other _ above inductionHypothesis =>
      cases colour with
      | black => exact inductionHypothesis (balanced.branchRed other) fun _ => above
      | red => cases compatible rfl
  | black other _ inductionHypothesis =>
      exact inductionHypothesis (balanced.branchBlack other) nofun

/-- The pieces of a balanced tree are balanced and do not clash. -/
theorem balanced_of_plug {total : Nat} (balanced : (ctx.plug tree).Balanced .black total) :
    ∃ height colour, ctx.Balanced height ∧ tree.Balanced colour height ∧
      (colour = .red → ctx.colour = .black) := by
  induction ctx generalizing tree with
  | top => exact ⟨total, .black, .top, balanced, nofun⟩
  | frame side colour key other outer inductionHypothesis =>
      obtain ⟨height, rootColour, around, filled, compatible⟩ := inductionHypothesis balanced
      cases colour with
      | red =>
          rw [Tree.balanced_branch_red] at filled
          obtain ⟨rfl, nearBalanced, farBalanced⟩ := filled
          exact ⟨height, .black, .red farBalanced around (compatible rfl), nearBalanced, nofun⟩
      | black =>
          rw [Tree.balanced_branch_black] at filled
          obtain ⟨rfl, lower, nearColour, farColour, rfl, nearBalanced, farBalanced⟩ := filled
          exact ⟨lower, nearColour, .black farBalanced around, nearBalanced, fun _ => rfl⟩

end Ctx

end Yaeos
