import Yaeos.Rbtree.Search

/-!
# The bounded searches of the red-black tree

`rbtree_search_max` meets its contract on every tree.  `rbtree_search_min` ends
at an equal node with everything outside its subtree unequal, or at the place
where an equal node would be; behind the last node there is no node to return,
and the way up runs past the root.
-/

namespace Yaeos

namespace Rbtree

variable {Addr Data : Type} {rbt : Rbtree Addr Data} {cmpf : RbtreeCmpFn Data} {limit : Data}
  {result : Addr → Int} {ctx : Ctx Addr} {tree : Tree Addr} {rounds : Nat}

/-- What a search for a lower bound must return: a node that compares equal, without
one the first greater node, and `NULL` when all nodes are smaller. -/
def MeetsMin (result : Addr → Int) (sequence : List Addr) : Option Addr → Prop
  | none => ∀ addr ∈ sequence, result addr < 0
  | some found => found ∈ sequence ∧ (result found = 0 ∨
      (∀ addr ∈ sequence, result addr ≠ 0) ∧ 0 < result found ∧
        ∃ before after, sequence = before ++ found :: after ∧ ∀ addr ∈ before, result addr < 0)

/-- What a search for an upper bound must return: a node that compares equal, without
one the last smaller node, and `NULL` when all nodes are greater. -/
def MeetsMax (result : Addr → Int) (sequence : List Addr) : Option Addr → Prop
  | none => ∀ addr ∈ sequence, 0 < result addr
  | some found => found ∈ sequence ∧ (result found = 0 ∨
      (∀ addr ∈ sequence, result addr ≠ 0) ∧ result found < 0 ∧
        ∃ before after, sequence = before ++ found :: after ∧ ∀ addr ∈ after, 0 < result addr)

theorem MeetsMax.eq_none_iff {sequence : List Addr} {found : Option Addr}
    (meets : MeetsMax result sequence found) :
    found = none ↔ ∀ addr ∈ sequence, 0 < result addr := by
  cases found with
  | none => exact iff_of_true rfl meets
  | some found =>
      refine iff_of_false (Option.some_ne_none found) fun greater => ?_
      obtain ⟨member, equal | ⟨-, smaller, -⟩⟩ := meets
      · exact (Int.ne_of_gt (greater found member)) equal
      · exact absurd (greater found member) (Int.not_lt.mpr (Int.le_of_lt smaller))

theorem LastNotGreater.meetsMax {sequence : List Addr} {found : Option Addr}
    (last : LastNotGreater result sequence found) (monotone : Monotone result sequence) :
    MeetsMax result sequence found := by
  cases found with
  | none => exact last
  | some found =>
      obtain ⟨before, after, rfl, equal | ⟨smaller, greater⟩⟩ := last
      · exact ⟨by simp, .inl equal⟩
      · refine ⟨by simp, .inr ⟨fun addr member => ?_, smaller, before, after, rfl, greater⟩⟩
        simp only [List.mem_append, List.mem_cons] at member
        rcases member with isBefore | rfl | isAfter
        · exact Int.ne_of_lt (monotone.split.2 smaller addr isBefore)
        · exact Int.ne_of_lt smaller
        · exact Int.ne_of_gt (greater addr isAfter)

/-- On every tree in memory, along which the comparison with the limit is monotone,
`rbtree_search_max` returns what it must. -/
theorem searchMax_meets (focus : rbt.Focus .top tree)
    (compared : Compares rbt cmpf limit result tree.inorder)
    (monotone : Monotone result tree.inorder) :
    ∃ found, MeetsMax result tree.inorder found ∧
      (found = none ↔ ∀ addr ∈ tree.inorder, 0 < result addr) ∧
      ∃ enough, ∀ rounds ≥ enough, rbtreeSearchMax rounds rbt limit cmpf = .ok found := by
  obtain ⟨found, searched, last⟩ := focus.searchMax compared monotone (Nat.le_refl _)
  have meets := last.meetsMax monotone
  refine ⟨found, meets, meets.eq_none_iff, 2 * tree.inorder.length, fun rounds enough => ?_⟩
  exact rbtreeSearchMax_extends rbt limit cmpf enough found searched

/-! ## The lower bound -/

/-- The way up from a subtree of smaller nodes ends at the next node in order; it
follows `NULL` if there is none. -/
theorem Focus.searchMinClimb {key : Addr} (focus : rbt.Focus ctx tree)
    (rooted : tree.root = some key)
    (compared : Compares rbt cmpf limit result (ctx.plug tree).inorder)
    (bracketed : Bracketed result ctx) (smaller : ∀ addr ∈ tree.inorder, result addr < 0)
    (enough : ctx.depth < rounds) :
    rbtreeSearchMinClimb rbt limit cmpf rounds key (result key) = deref ctx.after.head? := by
  induction rounds generalizing ctx tree key with
  | zero => cases enough
  | succ rounds inductionHypothesis =>
      have below := smaller key (Tree.mem_of_root rooted)
      obtain ⟨colour, near, far, rfl⟩ := Tree.exists_branch .left rooted
      have link := focus.parent_eq
      rw [rbtreeSearchMinClimb, if_pos below, link]
      cases ctx with
      | top => rfl
      | frame side otherColour other sibling outer =>
          have otherMember : other ∈ (outer.plug (.branch side otherColour
              (.branch .left colour near key far) other sibling)).inorder :=
            Ctx.mem_plug.mpr (.inl (by simp))
          simp only [Ctx.parent, deref_some, compared other otherMember, Outcome.ok_bind]
          cases side with
          | left =>
              have greater : 0 < result other := bracketed.high other (by simp [Ctx.after])
              obtain ⟨rounds, rfl⟩ : ∃ fewer, rounds = fewer + 1 :=
                ⟨rounds - 1, by simp only [Ctx.depth] at enough; omega⟩
              rw [rbtreeSearchMinClimb, if_neg (by omega)]
              rfl
          | right =>
              have focusOuter : rbt.Focus outer (.branch .right otherColour
                  (.branch .left colour near key far) other sibling) := focus_frame.mp focus
              refine @inductionHypothesis outer _ other focusOuter rfl compared
                ⟨fun addr member => bracketed.low addr ?_, bracketed.high⟩ (fun addr member => ?_)
                (by simp only [Ctx.depth] at enough; omega)
              · simp [Ctx.before, member]
              · simp only [Tree.mem_branch .right otherColour] at member
                rcases member with rfl | below | beside
                · exact bracketed.low addr (by simp [Ctx.before])
                · exact smaller addr below
                · exact bracketed.low addr (by simp [Ctx.before, beside])

/-- How `rbtree_search_min` can end. -/
inductive MinEnd (rbt : Rbtree Addr Data) (result : Addr → Int) (whole : Tree Addr) :
    Outcome (Option Addr) → Prop where
  /-- At an equal node, with all other equal nodes below it. -/
  | equal {inner : Ctx Addr} {colour : Colour} {left right : Tree Addr} {found : Addr} :
      rbt.Focus inner (.node colour left found right) →
      inner.plug (.node colour left found right) = whole → Bracketed result inner →
      result found = 0 → MinEnd rbt result whole (.ok (some found))
  /-- Between the smaller and the greater nodes. -/
  | between {before after : List Addr} : whole.inorder = before ++ after →
      (∀ addr ∈ before, result addr < 0) → (∀ addr ∈ after, 0 < result addr) →
      MinEnd rbt result whole (some <$> deref after.head?)

/-- The loop of `rbtree_search_min`, from a node everything else is bracketed at. -/
theorem Focus.searchMinLoop {key : Addr} (focus : rbt.Focus ctx tree)
    (rooted : tree.root = some key)
    (compared : Compares rbt cmpf limit result (ctx.plug tree).inorder)
    (monotone : Monotone result (ctx.plug tree).inorder) (bracketed : Bracketed result ctx)
    (enough : tree.inorder.length + (ctx.plug tree).inorder.length ≤ rounds) :
    MinEnd rbt result (ctx.plug tree) (rbtreeSearchMinLoop rbt limit cmpf rounds (some key)) := by
  induction rounds generalizing ctx tree key with
  | zero =>
      have := List.length_pos_of_mem (Tree.mem_of_root rooted)
      omega
  | succ rounds inductionHypothesis =>
      have inTree : key ∈ (ctx.plug tree).inorder := Ctx.mem_plug.mpr (.inl (Tree.mem_of_root rooted))
      have walks : tree.inorder.length ≤ rounds + 1 := by omega
      obtain ⟨leftmost, inner, subtree, last, wentLeft, wentRight, focusInner, lastRooted, samePlug,
        innerBracketed, rightStops, shrinks⟩ := @Focus.searchTurn _ _ _ cmpf limit result _ _
          (rounds + 1) .left (· > 0) (· < 0) (·.left) (·.right) key (by simp [Towards])
          (fun _ => rfl) (by simp [Towards, Side.other]) (fun _ => rfl) focus rooted compared
          monotone bracketed walks
      simp only [rbtreeSearchMinLoop, compared key inTree, Outcome.ok_bind, wentLeft, wentRight]
      obtain ⟨colour, near, far, rfl⟩ := Tree.exists_branch .left lastRooted
      have sequence : (ctx.plug tree).inorder =
          (inner.before ++ near.inorder) ++ last :: (far.inorder ++ inner.after) := by
        rw [← samePlug]
        exact inner.inorder_plug_node ..
      rcases Int.lt_trichotomy (result last) 0 with smaller | equal | greater
      · -- everything below is smaller, and the next node is above
        have noRight : far = .nil :=
          Tree.root_eq_none.mp (focusInner.holds.1.2.1.symm.trans (rightStops smaller))
        have allSmaller : ∀ addr ∈ (Tree.branch .left colour near last far).inorder,
            result addr < 0 := by
          intro addr member
          rw [sequence] at monotone
          simp only [noRight, Tree.mem_branch, Tree.inorder, List.not_mem_nil, or_false] at member
          rcases member with rfl | before
          · exact smaller
          · exact monotone.split.2 smaller addr (by simp [before])
        have shallow : inner.depth < rounds + 1 := by
          have deep := inner.depth_lt lastRooted
          rw [samePlug] at deep
          omega
        have climbed := @Focus.searchMinClimb _ _ _ cmpf limit result _ _ (rounds + 1) last
          focusInner lastRooted (by rw [samePlug]; exact compared) innerBracketed allSmaller shallow
        rw [if_neg (by omega), if_pos ⟨smaller, rightStops smaller⟩, climbed]
        have split : (ctx.plug tree).inorder = (inner.before ++
            (Tree.branch .left colour near last far).inorder) ++ inner.after := by
          rw [← samePlug, Ctx.inorder_plug]
        have ended := @MinEnd.between _ _ rbt result _ _ _ split (fun addr member =>
          (List.mem_append.mp member).elim (innerBracketed.low addr) (allSmaller addr))
          innerBracketed.high
        cases next : inner.after.head? <;> rw [next] at ended <;> exact ended
      · rw [if_pos equal]
        exact .equal focusInner samePlug innerBracketed equal
      · by_cases stops : (rbt.nodes last).left = none
        · rw [if_neg (by omega), if_neg (by omega), if_pos ⟨greater, stops⟩]
          have noLeft : near = .nil :=
            Tree.root_eq_none.mp (focusInner.holds.1.1.symm.trans stops)
          rw [noLeft, Tree.inorder, List.append_nil] at sequence
          have after : ∀ addr ∈ last :: (far.inorder ++ inner.after), 0 < result addr := by
            intro addr member
            rcases List.mem_cons.mp member with rfl | later
            · exact greater
            · rw [sequence] at monotone
              exact monotone.split.1 greater addr later
          exact .between sequence innerBracketed.low after
        · -- the walk to the right has gone too far; what is left to search has shrunk
          have moved : (Tree.branch .left colour near last far).inorder.length <
              tree.inorder.length := shrinks greater stops
          rw [if_neg (by omega), if_neg (by omega), if_neg (by tauto)]
          have again := @inductionHypothesis _ _ last focusInner lastRooted
            (by rw [samePlug]; exact compared) (by rw [samePlug]; exact monotone) innerBracketed
            (by rw [samePlug]; omega)
          rwa [samePlug] at again

theorem Focus.searchMin (focus : rbt.Focus .top tree)
    (compared : Compares rbt cmpf limit result tree.inorder)
    (monotone : Monotone result tree.inorder) (some_ : tree ≠ .nil)
    (enough : 2 * tree.inorder.length ≤ rounds) :
    MinEnd rbt result tree (rbtreeSearchMin rounds rbt limit cmpf) := by
  have root : rbt.root = tree.root := focus.around
  rw [rbtreeSearchMin, root]
  cases rooted : tree.root with
  | none => exact absurd (Tree.root_eq_none.mp rooted) some_
  | some key =>
      exact @Focus.searchMinLoop _ _ _ _ _ _ _ _ rounds key focus rooted compared monotone
        ⟨by simp [Ctx.before], by simp [Ctx.after]⟩ (by simp only [Ctx.plug]; omega)

end Rbtree

section Rounds

variable {Addr Data : Type} (rbt : Rbtree Addr Data) (limit : Data) (cmpf : RbtreeCmpFn Data)
  {rounds more : Nat}

theorem rbtreeSearchMinClimb_extends (fewer : rounds ≤ more) (cursor : Addr) (cmpResult : Int) :
    Outcome.Extends (rbtreeSearchMinClimb rbt limit cmpf rounds cursor cmpResult)
      (rbtreeSearchMinClimb rbt limit cmpf more cursor cmpResult) := by
  induction rounds generalizing more cursor cmpResult with
  | zero => exact Outcome.Extends.error _ _
  | succ rounds inductionHypothesis =>
      obtain ⟨more, rfl⟩ := Nat.exists_eq_succ_of_ne_zero (Nat.ne_zero_of_lt fewer)
      unfold rbtreeSearchMinClimb
      exact .ite (.seq _ fun _ => .seq _ fun _ =>
        inductionHypothesis (Nat.le_of_succ_le_succ fewer) _ _) (.refl _)

theorem rbtreeSearchMinLoop_extends (fewer : rounds ≤ more) (cursor : Option Addr) :
    Outcome.Extends (rbtreeSearchMinLoop rbt limit cmpf rounds cursor)
      (rbtreeSearchMinLoop rbt limit cmpf more cursor) := by
  induction rounds generalizing more cursor with
  | zero =>
      cases cursor with
      | none => simp [rbtreeSearchMinLoop, Outcome.Extends]
      | some => simp [rbtreeSearchMinLoop, Outcome.Extends]
  | succ rounds inductionHypothesis =>
      obtain ⟨more, rfl⟩ := Nat.exists_eq_succ_of_ne_zero (Nat.ne_zero_of_lt fewer)
      cases cursor with
      | none => simp [rbtreeSearchMinLoop, Outcome.Extends]
      | some cursor =>
          unfold rbtreeSearchMinLoop
          refine .seq _ fun _ => .bind (rbtreeSearchWalk_extends rbt limit cmpf fewer _ _ _ _)
            fun _ => .bind (rbtreeSearchWalk_extends rbt limit cmpf fewer _ _ _ _) fun _ =>
              .ite (.refl _) (.ite ?_ (.ite (.refl _) ?_))
          · exact .bind (rbtreeSearchMinClimb_extends rbt limit cmpf fewer _ _) fun _ => .refl _
          · exact inductionHypothesis (Nat.le_of_succ_le_succ fewer) _

theorem rbtreeSearchMin_extends (fewer : rounds ≤ more) :
    Outcome.Extends (rbtreeSearchMin rounds rbt limit cmpf)
      (rbtreeSearchMin more rbt limit cmpf) :=
  rbtreeSearchMinLoop_extends rbt limit cmpf fewer _

end Rounds

namespace Rbtree

variable {Addr Data : Type} {rbt : Rbtree Addr Data} {cmpf : RbtreeCmpFn Data} {limit : Data}
  {result : Addr → Int} {tree : Tree Addr} {rounds : Nat}

/-- A search that ends at a node ends at the one it must return. -/
theorem MinEnd.meetsMin {outcome : Outcome (Option Addr)} (ended : MinEnd rbt result tree outcome)
    (some_ : ∃ addr ∈ tree.inorder, 0 ≤ result addr) :
    ∃ found, outcome = .ok (some found) ∧ MeetsMin result tree.inorder (some found) := by
  cases ended with
  | @equal inner colour left right found focus same bracketed equal =>
      refine ⟨found, rfl, ?_, .inl equal⟩
      rw [← same]
      exact Ctx.mem_plug.mpr (.inl (by simp [Tree.inorder]))
  | @between before after split smaller greater =>
      cases after with
      | nil =>
          obtain ⟨addr, member, notSmaller⟩ := some_
          rw [split, List.append_nil] at member
          exact absurd (smaller addr member) (Int.not_lt.mpr notSmaller)
      | cons found after =>
          refine ⟨found, rfl, by simp [split], .inr ⟨fun addr member => ?_,
            greater found (List.mem_cons_self ..), before, after, split, smaller⟩⟩
          rw [split] at member
          rcases List.mem_append.mp member with isBefore | isAfter
          · exact Int.ne_of_lt (smaller addr isBefore)
          · exact Int.ne_of_gt (greater addr isAfter)

/-- Behind the last node `NULL` is followed. -/
theorem MinEnd.past {outcome : Outcome (Option Addr)} (ended : MinEnd rbt result tree outcome)
    (all : ∀ addr ∈ tree.inorder, result addr < 0) : outcome = .error .nullDeref := by
  cases ended with
  | @equal inner colour left right found focus same bracketed equal =>
      have member : found ∈ tree.inorder := by
        rw [← same]
        exact Ctx.mem_plug.mpr (.inl (by simp [Tree.inorder]))
      exact absurd equal (Int.ne_of_lt (all found member))
  | @between before after split smaller greater =>
      cases after with
      | nil => rfl
      | cons found after =>
          have member : found ∈ tree.inorder := by simp [split]
          have contradiction := greater found (List.mem_cons_self ..)
          exact absurd (all found member) (Int.not_lt.mpr (Int.le_of_lt contradiction))

/-- `rbtree_search_min` returns what it must exactly if the tree is empty or some node
is not smaller than the limit. -/
theorem searchMin_meets_iff (focus : rbt.Focus .top tree)
    (compared : Compares rbt cmpf limit result tree.inorder)
    (monotone : Monotone result tree.inorder) :
    (∃ found, MeetsMin result tree.inorder found ∧
      ∃ enough, ∀ rounds ≥ enough, rbtreeSearchMin rounds rbt limit cmpf = .ok found) ↔
    rbt.root = none ∨ ∃ addr ∈ tree.inorder, 0 ≤ result addr := by
  have root : rbt.root = tree.root := focus.around
  constructor
  · rintro ⟨found, meets, enough, searched⟩
    by_contra neither
    obtain ⟨notEmpty, noneAbove⟩ := not_or.mp neither
    have all : ∀ addr ∈ tree.inorder, result addr < 0 := by
      intro addr member
      by_contra notSmaller
      exact noneAbove ⟨addr, member, Int.not_lt.mp notSmaller⟩
    have some_ : tree ≠ .nil := by
      rintro rfl
      exact notEmpty root
    have ended := focus.searchMin compared monotone some_
      (Nat.le_add_left (2 * tree.inorder.length) enough)
    have returned := searched (enough + 2 * tree.inorder.length) (Nat.le_add_right ..)
    rw [ended.past all] at returned
    cases returned
  · rintro (isEmpty | above)
    · have noTree : tree = .nil := Tree.root_eq_none.mp (root.symm.trans isEmpty)
      refine ⟨none, ?_, 0, fun rounds _ => ?_⟩
      · rw [noTree]
        exact fun addr member => (List.not_mem_nil member).elim
      · rw [rbtreeSearchMin, isEmpty]
        cases rounds <;> rfl
    · have some_ : tree ≠ .nil := by
        rintro rfl
        obtain ⟨addr, member, -⟩ := above
        exact List.not_mem_nil member
      have ended := focus.searchMin compared monotone some_ (Nat.le_refl _)
      obtain ⟨found, searched, meets⟩ := ended.meetsMin above
      refine ⟨some found, meets, 2 * tree.inorder.length, fun rounds enough => ?_⟩
      exact rbtreeSearchMin_extends rbt limit cmpf enough _ searched

/-! ## A tree of three nodes -/

/-- The keys 10, 20 and 30, with 20 at the root. -/
def threeNodes : Rbtree Nat Int where
  root := some 1
  nodes := fun addr =>
    if addr = 0 then ⟨10, none, none, some 1, .red⟩
    else if addr = 1 then ⟨20, some 0, some 2, none, .black⟩
    else ⟨30, none, none, some 1, .red⟩

def threeTree : Tree Nat := .node .black (.node .red .nil 0 .nil) 1 (.node .red .nil 2 .nil)

theorem threeNodes_focus : threeNodes.Focus .top threeTree where
  around := rfl
  holds := ⟨⟨rfl, rfl, rfl, rfl⟩, ⟨⟨rfl, rfl, rfl, rfl⟩, trivial, trivial⟩,
    ⟨⟨rfl, rfl, rfl, rfl⟩, trivial, trivial⟩⟩
  nodup := by decide

theorem threeNodes_compared (limit : Int) : Compares threeNodes (fun x y => .ok (x - y)) limit
    (fun addr => (threeNodes.nodes addr).data - limit) threeTree.inorder := fun _ _ => rfl

theorem threeNodes_monotone (limit : Int) :
    Monotone (fun addr => (threeNodes.nodes addr).data - limit) threeTree.inorder := by
  have keys : threeTree.inorder.Pairwise fun x y =>
      (threeNodes.nodes x).data ≤ (threeNodes.nodes y).data := by decide
  exact keys.imp fun {x y} upwards => ⟨fun notSmaller => by dsimp only at *; omega,
    fun greater => by dsimp only at *; omega⟩

/-- The greatest node up to 25. -/
theorem threeNodes_searchMax : ∃ found,
    MeetsMax (fun addr => (threeNodes.nodes addr).data - 25) threeTree.inorder found ∧
      (found = none ↔ ∀ addr ∈ threeTree.inorder, 0 < (threeNodes.nodes addr).data - 25) ∧
      ∃ enough, ∀ rounds ≥ enough,
        rbtreeSearchMax rounds threeNodes 25 (fun x y => .ok (x - y)) = .ok found :=
  searchMax_meets threeNodes_focus (threeNodes_compared 25) (threeNodes_monotone 25)

/-- The first node from 25 on. -/
theorem threeNodes_searchMin :
    (∃ found, MeetsMin (fun addr => (threeNodes.nodes addr).data - 25) threeTree.inorder found ∧
      ∃ enough, ∀ rounds ≥ enough,
        rbtreeSearchMin rounds threeNodes 25 (fun x y => .ok (x - y)) = .ok found) ↔
    threeNodes.root = none ∨ ∃ addr ∈ threeTree.inorder, 0 ≤ (threeNodes.nodes addr).data - 25 :=
  searchMin_meets_iff threeNodes_focus (threeNodes_compared 25) (threeNodes_monotone 25)

/-- From 31 on there is no node, and `NULL` is followed. -/
theorem threeNodes_searchMin_past : threeNodes.Focus .top threeTree ∧
    Monotone (fun addr => (threeNodes.nodes addr).data - 31) threeTree.inorder ∧
    (∀ rounds ≥ 3, rbtreeSearchMin rounds threeNodes 31 (fun x y => .ok (x - y)) =
      .error .nullDeref) ∧
    ¬∃ found, MeetsMin (fun addr => (threeNodes.nodes addr).data - 31) threeTree.inorder found ∧
      ∃ enough, ∀ rounds ≥ enough,
        rbtreeSearchMin rounds threeNodes 31 (fun x y => .ok (x - y)) = .ok found := by
  have stops : ∀ rounds ≥ 3, rbtreeSearchMin rounds threeNodes 31 (fun x y => .ok (x - y)) =
      .error .nullDeref := by
    intro rounds enough
    obtain ⟨more, rfl⟩ := Nat.exists_eq_add_of_le' enough
    rfl
  refine ⟨threeNodes_focus, threeNodes_monotone 31, stops, ?_⟩
  rintro ⟨found, -, enough, searched⟩
  have returned := searched (enough + 3) (Nat.le_add_right ..)
  rw [stops (enough + 3) (Nat.le_add_left ..)] at returned
  cases returned

end Rbtree

end Yaeos
