import Yaeos.Buddy.Basic
import Yaeos.Machine.Loop

/-!
# What the buddy operations do to the level bitmaps

`BuddyManager.Manages` says that the levels have the lengths `buddy_init` gives
them.  Every operation keeps it, and its effect is the set of bits it marks or
clears: bit `index` of level `lvl` stands for the pages whose number shifted by
`lvl` is `index`.
-/

namespace Yaeos

/-- A level of a manager of `pages` pages has at least one bit. -/
theorem shiftRight_positive {pages lvl : Nat} (positive : pages ≠ 0)
    (below : lvl < Nat.log2 pages + 1) : 0 < pages >>> lvl := by
  rw [Nat.lt_succ_iff, Nat.le_log2 positive] at below
  rw [Nat.shiftRight_eq_div_pow]
  exact Nat.div_pos below (Nat.two_pow_pos lvl)

namespace BuddyManager

/-- The levels of a manager of `pages` pages. -/
structure Manages (manager : BuddyManager) (pages : Nat) : Prop where
  positive : pages ≠ 0
  lvls_eq : manager.lvls = Nat.log2 pages + 1
  count : manager.lvlBitmaps.length = manager.lvls
  lengths : ∀ lvl bitmap, manager.lvlBitmaps[lvl]? = some bitmap → bitmap.length = pages >>> lvl

/-- A bit of a level; clear where there is no level. -/
def bit (manager : BuddyManager) (lvl index : Nat) : Bool :=
  match manager.lvlBitmaps[lvl]? with
  | some bitmap => bitmap.bit index
  | none => false

variable {manager next : BuddyManager} {pages lvl index : Nat}

theorem lt_lvls (manages : manager.Manages pages) (inside : index < pages >>> lvl) :
    lvl < manager.lvls := by
  rw [manages.lvls_eq, Nat.lt_succ_iff, Nat.le_log2 manages.positive]
  rw [Nat.shiftRight_eq_div_pow] at inside
  exact (Nat.div_pos_iff.mp (Nat.lt_of_le_of_lt (Nat.zero_le _) inside)).2

/-- A level that exists has at least one bit. -/
theorem shiftRight_pos (manages : manager.Manages pages) (below : lvl < manager.lvls) :
    0 < pages >>> lvl := shiftRight_positive manages.positive (manages.lvls_eq ▸ below)

theorem exists_lvlBitmap (manages : manager.Manages pages) (below : lvl < manager.lvls) :
    ∃ bitmap, manager.lvlBitmaps[lvl]? = some bitmap ∧ bitmap.length = pages >>> lvl := by
  rw [← manages.count] at below
  exact ⟨_, List.getElem?_eq_getElem below, manages.lengths _ _ (List.getElem?_eq_getElem below)⟩

theorem lvlBitmap_eq (manages : manager.Manages pages) (below : lvl < manager.lvls) :
    ∃ bitmap, manager.lvlBitmap lvl = .ok bitmap ∧ bitmap.length = pages >>> lvl ∧
      ∀ position, manager.bit lvl position = bitmap.bit position := by
  obtain ⟨bitmap, found, length⟩ := exists_lvlBitmap manages below
  exact ⟨bitmap, by simp [lvlBitmap, found], length, fun position => by simp [bit, found]⟩

theorem bit_setLvlBitmap {bitmap : Bitmap} (below : lvl < manager.lvlBitmaps.length)
    (level position : Nat) :
    (manager.setLvlBitmap lvl bitmap).bit level position =
      if level = lvl then bitmap.bit position else manager.bit level position := by
  simp only [bit, setLvlBitmap, List.getElem?_set]
  by_cases same : level = lvl
  · simp [same, below]
  · simp [same, Ne.symm same]

theorem Manages.setLvlBitmap (manages : manager.Manages pages) {bitmap : Bitmap}
    (length : bitmap.length = pages >>> lvl) : (manager.setLvlBitmap lvl bitmap).Manages pages where
  positive := manages.positive
  lvls_eq := manages.lvls_eq
  count := by simpa [BuddyManager.setLvlBitmap] using manages.count
  lengths := by
    intro level other found
    simp only [BuddyManager.setLvlBitmap, List.getElem?_set] at found
    split at found
    · next same =>
        subst same
        split at found <;> simp_all
    · exact manages.lengths _ _ found

/-- `next` is `manager` with the bits in `marked` set. -/
structure Marks (manager next : BuddyManager) (pages : Nat) (marked : Nat → Nat → Prop) : Prop where
  manages : next.Manages pages
  bit_iff : ∀ level position,
    next.bit level position = true ↔ marked level position ∨ manager.bit level position = true

/-- `next` is `manager` with the bits in `cleared` cleared. -/
structure Clears (manager next : BuddyManager) (pages : Nat) (cleared : Nat → Nat → Prop) :
    Prop where
  manages : next.Manages pages
  bit_iff : ∀ level position,
    next.bit level position = true ↔ ¬cleared level position ∧ manager.bit level position = true

theorem getBit_eq (manages : manager.Manages pages) (inside : index < pages >>> lvl) :
    manager.getBit lvl index = .ok (manager.bit lvl index) := by
  obtain ⟨bitmap, found, length, bits⟩ := lvlBitmap_eq manages (lt_lvls manages inside)
  rw [getBit, found, Outcome.ok_bind, Bitmap.get_eq (length ▸ inside), bits]

theorem getBit_error (manages : manager.Manages pages) (below : lvl < manager.lvls)
    (outside : ¬index < pages >>> lvl) : manager.getBit lvl index = .error .kassert := by
  obtain ⟨bitmap, found, length, -⟩ := lvlBitmap_eq manages below
  rw [getBit, found, Outcome.ok_bind, Bitmap.get_error (length ▸ outside)]

/-- One bit of one level is assigned. -/
theorem Manages.bit_assign (manages : manager.Manages pages) (below : lvl < manager.lvls)
    {bitmap result : Bitmap} {value : Bool}
    (bits : ∀ position, manager.bit lvl position = bitmap.bit position)
    (resultBits : ∀ other, result.bit other = if other = index then value else bitmap.bit other)
    (level position : Nat) : (manager.setLvlBitmap lvl result).bit level position =
      if level = lvl ∧ position = index then value else manager.bit level position := by
  rw [bit_setLvlBitmap (manages.count ▸ below)]
  by_cases same : level = lvl
  · subst same
    simp [resultBits, bits]
  · simp [same]

theorem setTrue_spec (manages : manager.Manages pages) (inside : index < pages >>> lvl) :
    ∃ next, manager.setTrue lvl index = .ok next ∧
      Marks manager next pages fun level position => level = lvl ∧ position = index := by
  have below := lt_lvls manages inside
  obtain ⟨bitmap, found, length, bits⟩ := lvlBitmap_eq manages below
  obtain ⟨result, assigned, sameLength, resultBits⟩ := Bitmap.setTrue_eq (length ▸ inside)
  refine ⟨manager.setLvlBitmap lvl result, by simp [setTrue, found, assigned],
    manages.setLvlBitmap (sameLength.trans length), fun level position => ?_⟩
  rw [manages.bit_assign below bits resultBits]
  split
  · next here => simp [here]
  · next elsewhere => simp [elsewhere]

theorem setFalse_spec (manages : manager.Manages pages) (inside : index < pages >>> lvl) :
    ∃ next, manager.setFalse lvl index = .ok next ∧
      Clears manager next pages fun level position => level = lvl ∧ position = index := by
  have below := lt_lvls manages inside
  obtain ⟨bitmap, found, length, bits⟩ := lvlBitmap_eq manages below
  obtain ⟨result, assigned, sameLength, resultBits⟩ := Bitmap.setFalse_eq (length ▸ inside)
  refine ⟨manager.setLvlBitmap lvl result, by simp [setFalse, found, assigned],
    manages.setLvlBitmap (sameLength.trans length), fun level position => ?_⟩
  rw [manages.bit_assign below bits resultBits]
  split
  · next here => simp [here]
  · next elsewhere => simp [elsewhere]

theorem setFalse_error (manages : manager.Manages pages) (below : lvl < manager.lvls)
    (outside : ¬index < pages >>> lvl) : manager.setFalse lvl index = .error .kassert := by
  obtain ⟨bitmap, found, length, -⟩ := lvlBitmap_eq manages below
  simp [setFalse, found, Bitmap.setFalse_error (length ▸ outside)]

end BuddyManager

/-- Bit `position` of `level` lies strictly below bit `index` of `lvl`. -/
def Below (lvl index level position : Nat) : Prop :=
  level < lvl ∧ position >>> (lvl - level) = index

/-- The bits strictly below a bit are its two children and what is below them. -/
theorem below_succ {lvl index level position : Nat} :
    Below (lvl + 1) index level position ↔
      (level = lvl ∧ position = index <<< 1) ∨ (level = lvl ∧ position = index <<< 1 + 1) ∨
        Below lvl (index <<< 1) level position ∨ Below lvl (index <<< 1 + 1) level position := by
  simp only [Below, Nat.shiftLeft_eq, Nat.pow_one]
  rcases Nat.lt_trichotomy level lvl with lower | same | higher
  · have distance : lvl + 1 - level = (lvl - level) + 1 := by omega
    rw [distance, Nat.shiftRight_succ]
    omega
  · subst same
    have distance : level + 1 - level = 1 := by omega
    rw [distance, Nat.shiftRight_one]
    omega
  · omega

/-- Both children of a bit exist when the bit does. -/
theorem children_inside {pages lvl index : Nat} (inside : index < pages >>> (lvl + 1)) :
    index <<< 1 + 1 < pages >>> lvl := by
  rw [Nat.shiftRight_succ] at inside
  rw [Nat.shiftLeft_eq]
  omega

namespace BuddyManager

variable {manager next : BuddyManager} {pages lvl index : Nat}

/-- Four updates of the bits of a buddy's descendants, in the order of the source. -/
theorem Marks.children {first second third fourth : BuddyManager} {lvl index : Nat}
    (left : Marks manager first pages fun level position => level = lvl ∧ position = index <<< 1)
    (right : Marks first second pages fun level position => level = lvl ∧ position = index <<< 1 + 1)
    (belowLeft : Marks second third pages (Below lvl (index <<< 1)))
    (belowRight : Marks third fourth pages (Below lvl (index <<< 1 + 1))) :
    Marks manager fourth pages (Below (lvl + 1) index) where
  manages := belowRight.manages
  bit_iff level position := by
    rw [belowRight.bit_iff, belowLeft.bit_iff, right.bit_iff, left.bit_iff, below_succ]
    tauto

theorem occupyBuddysDescendants_spec (manages : manager.Manages pages)
    (inside : index < pages >>> lvl) :
    ∃ next, occupyBuddysDescendants manager lvl index = .ok next ∧
      Marks manager next pages (Below lvl index) := by
  induction lvl generalizing manager index with
  | zero => exact ⟨manager, rfl, manages, fun level position => by simp [Below]⟩
  | succ lvl inductionHypothesis =>
      have rightInside := children_inside inside
      have leftInside : index <<< 1 < pages >>> lvl := Nat.lt_of_succ_lt rightInside
      obtain ⟨first, setLeft, left⟩ := setTrue_spec manages leftInside
      obtain ⟨second, setRight, right⟩ := setTrue_spec left.manages rightInside
      obtain ⟨third, occupyLeft, belowLeft⟩ := inductionHypothesis right.manages leftInside
      obtain ⟨fourth, occupyRight, belowRight⟩ :=
        inductionHypothesis belowLeft.manages rightInside
      refine ⟨fourth, ?_, left.children right belowLeft belowRight⟩
      simp [occupyBuddysDescendants, setLeft, setRight, occupyLeft, occupyRight]

theorem freeBuddysChildren_spec (manages : manager.Manages pages)
    (inside : index < pages >>> lvl) :
    ∃ next, freeBuddysChildren manager lvl index = .ok next ∧
      Clears manager next pages (Below lvl index) := by
  induction lvl generalizing manager index with
  | zero => exact ⟨manager, rfl, manages, fun level position => by simp [Below]⟩
  | succ lvl inductionHypothesis =>
      have rightInside := children_inside inside
      have leftInside : index <<< 1 < pages >>> lvl := Nat.lt_of_succ_lt rightInside
      obtain ⟨first, setLeft, left⟩ := setFalse_spec manages leftInside
      obtain ⟨second, setRight, right⟩ := setFalse_spec left.manages rightInside
      obtain ⟨third, freeLeft, belowLeft⟩ := inductionHypothesis right.manages leftInside
      obtain ⟨fourth, freeRight, belowRight⟩ := inductionHypothesis belowLeft.manages rightInside
      refine ⟨fourth, ?_, belowRight.manages, fun level position => ?_⟩
      · simp [freeBuddysChildren, setLeft, setRight, freeLeft, freeRight]
      · rw [belowRight.bit_iff, belowLeft.bit_iff, right.bit_iff, left.bit_iff, below_succ]
        tauto

/-- The bits the loop of `occupy_buddy` marks: `index >> i` on every level `i`
that is long enough, counted from level 0. -/
def OnPath (pages index level position : Nat) : Prop :=
  position = index >>> level ∧ position < pages >>> level

/-- One round of the loop marks the bit of its level, if the level has it. -/
theorem occupyBuddyLvl_spec (manages : manager.Manages pages) (below : lvl < manager.lvls) :
    ∃ next, occupyBuddyLvl index manager lvl = .ok next ∧
      Marks manager next pages fun level position =>
        level = lvl ∧ OnPath pages index level position := by
  obtain ⟨bitmap, found, length, -⟩ := lvlBitmap_eq manages below
  by_cases long : index >>> lvl < pages >>> lvl
  · obtain ⟨next, assigned, marked⟩ := setTrue_spec manages long
    refine ⟨next, by simp [occupyBuddyLvl, found, length, long, assigned], marked.manages,
      fun level position => ?_⟩
    rw [marked.bit_iff]
    have path : (level = lvl ∧ position = index >>> lvl) ↔
        (level = lvl ∧ OnPath pages index level position) := by
      constructor
      · rintro ⟨rfl, rfl⟩
        exact ⟨rfl, rfl, long⟩
      · rintro ⟨rfl, same, _⟩
        exact ⟨rfl, same⟩
    rw [path]
  · refine ⟨manager, by simp [occupyBuddyLvl, found, length, long], manages,
      fun level position => ?_⟩
    have noPath : ¬(level = lvl ∧ OnPath pages index level position) := by
      rintro ⟨rfl, rfl, inLevel⟩
      exact long inLevel
    simp [noPath]

theorem occupyBuddy_spec (manages : manager.Manages pages) (inside : index < pages >>> lvl) :
    ∃ next, occupyBuddy manager lvl index = .ok next ∧
      Marks manager next pages fun level position =>
        Below lvl index level position ∨ OnPath pages index level position := by
  obtain ⟨descended, occupied, below⟩ := occupyBuddysDescendants_spec manages inside
  obtain ⟨final, looped, marks⟩ : ∃ final,
      (List.range descended.lvls).foldlM (occupyBuddyLvl index) descended = .ok final ∧
      Marks descended final pages fun level position =>
        level < descended.lvls ∧ OnPath pages index level position := by
    refine Loop.range_ok (fun rounds state => Marks descended state pages fun level position =>
      level < rounds ∧ OnPath pages index level position)
      ⟨below.manages, fun level position => by simp⟩ ?_
    intro i inLvls state marks
    have sameLvls : state.lvls = descended.lvls := by
      rw [marks.manages.lvls_eq, below.manages.lvls_eq]
    obtain ⟨next, marked, mark⟩ := occupyBuddyLvl_spec marks.manages (sameLvls ▸ inLvls)
    refine ⟨next, marked, mark.manages, fun level position => ?_⟩
    rw [mark.bit_iff, marks.bit_iff, Nat.lt_succ_iff_lt_or_eq]
    tauto
  refine ⟨final, ?_, marks.manages, fun level position => ?_⟩
  · rw [occupyBuddy, occupied, Outcome.ok_bind]
    exact looped
  · rw [marks.bit_iff, below.bit_iff]
    have levelExists : OnPath pages index level position → level < descended.lvls :=
      fun path => lt_lvls below.manages path.2
    tauto

/-- The freed bit is one of the two children that are read first, and it is
clear: the loop leaves every ancestor as it was.  The other child may not exist,
and then the bounds assertion fails. -/
theorem freeBuddysAncestors_eq (manages : manager.Manages pages) (inside : index < pages >>> lvl)
    (clear : manager.bit lvl index = false) :
    freeBuddysAncestors manager lvl index =
      if index >>> 1 <<< 1 + 1 < pages >>> lvl then .ok manager else .error .kassert := by
  have below := lt_lvls manages inside
  have rounds : manager.lvls + 1 - lvl = (manager.lvls - lvl) + 1 := by omega
  have pair : index >>> 1 <<< 1 = index ∨ index >>> 1 <<< 1 + 1 = index := by
    rw [Nat.shiftRight_one, Nat.shiftLeft_eq]
    omega
  have leftInside : index >>> 1 <<< 1 < pages >>> lvl := by omega
  rw [freeBuddysAncestors, rounds, freeBuddysAncestorsLoop]
  simp only [Nat.add_sub_cancel, getBit_eq manages leftInside, Outcome.ok_bind]
  split
  · next rightInside =>
      rw [getBit_eq manages rightInside, Outcome.ok_bind]
      rcases pair with same | same <;> simp [same, clear]
  · next rightOutside =>
      rw [getBit_error manages below rightOutside, Outcome.error_bind]

/-- Freeing clears the bit and everything below it and nothing else; it returns
exactly when the other child of the parent exists. -/
theorem freeBuddy_spec (manages : manager.Manages pages) (inside : index < pages >>> lvl) :
    if index >>> 1 <<< 1 + 1 < pages >>> lvl then
      ∃ next, freeBuddy manager lvl index = .ok next ∧
        Clears manager next pages fun level position =>
          (level = lvl ∧ position = index) ∨ Below lvl index level position
    else freeBuddy manager lvl index = .error .kassert := by
  obtain ⟨first, cleared, self⟩ := setFalse_spec manages inside
  obtain ⟨second, freed, below⟩ := freeBuddysChildren_spec self.manages inside
  have clear : second.bit lvl index = false := by
    rw [Bool.eq_false_iff, Ne, below.bit_iff, self.bit_iff]
    simp
  have ancestors := freeBuddysAncestors_eq below.manages inside clear
  split
  · next sibling =>
      refine ⟨second, ?_, below.manages, fun level position => ?_⟩
      · rw [freeBuddy, cleared, Outcome.ok_bind, freed, Outcome.ok_bind, ancestors, if_pos sibling]
      · rw [below.bit_iff, self.bit_iff]
        tauto
  · next noSibling =>
      rw [freeBuddy, cleared, Outcome.ok_bind, freed, Outcome.ok_bind, ancestors, if_neg noSibling]

/-- One round of `buddy_init` appends a cleared bitmap of the right length. -/
theorem buddyInitLvl_eq {memory : Nat → BitVec 32} {lvlBitmaps : Option Nat}
    {state result : LinearAlloc × List Bitmap}
    (initialised : buddyInitLvl memory lvlBitmaps pages state lvl = .ok result) :
    ∃ bitmap, result.2 = state.2 ++ [bitmap] ∧ bitmap.length = pages >>> lvl ∧
      ∀ position < pages >>> lvl, bitmap.bit position = false := by
  simp only [buddyInitLvl, getMaxIndex, Outcome.bind_eq_ok, kassert_eq_ok, Except.ok.injEq]
    at initialised
  obtain ⟨_, ⟨_, positive, rfl⟩, _, _, _, _, _, _, _, _, bitmap, created, rfl⟩ := initialised
  rw [Nat.sub_add_cancel positive] at created
  obtain ⟨_, length, clear⟩ := Bitmap.init_eq created
  exact ⟨bitmap, rfl, length, clear⟩

/-- A fresh manager: the levels the page count asks for, every bit clear.  The
returned number is one less than the number of pages. -/
theorem buddyInit_spec {memory : Nat → BitVec 32} {alloc rest : LinearAlloc} {maxIndex : Nat}
    (initialised : buddyInit memory pages alloc = .ok (manager, rest, maxIndex)) :
    manager.Manages pages ∧ maxIndex = pages - 1 ∧
      ∀ level position, position < pages >>> level → manager.bit level position = false := by
  simp only [buddyInit, log2Floor, getMaxIndex, Outcome.bind_eq_ok, kassert_eq_ok,
    Except.ok.injEq, Prod.mk.injEq] at initialised
  obtain ⟨_, ⟨_, nonzero, rfl⟩, ⟨final, bitmaps⟩, looped, _, _, _, _, _, ⟨_, _, rfl⟩, rfl, _, rfl⟩ :=
    initialised
  have levels := Loop.range_of_ok
    (fun rounds (state : LinearAlloc × List Bitmap) => state.2.length = rounds ∧
      ∀ lvl bitmap, state.2[lvl]? = some bitmap → bitmap.length = pages >>> lvl ∧
        ∀ position < pages >>> lvl, bitmap.bit position = false)
    looped ⟨rfl, by simp⟩ (by
      rintro index - state next ⟨count, old⟩ stepped
      obtain ⟨bitmap, appended, length, clear⟩ := buddyInitLvl_eq stepped
      refine ⟨by simp [appended, count], fun lvl other found => ?_⟩
      rw [appended, List.getElem?_append] at found
      split at found
      · exact old _ _ found
      · next past =>
          have last : lvl = index := by
            have := (List.getElem?_eq_some_iff.mp found).1
            simp at this
            omega
          subst last
          simp only [count, Nat.sub_self, List.getElem?_cons_zero, Option.some.injEq] at found
          exact found ▸ ⟨length, clear⟩)
  have manages : Manages { lvlBitmaps := bitmaps, lvls := Nat.log2 pages + 1 } pages :=
    ⟨Ne.symm nonzero, rfl, levels.1, fun lvl bitmap found => (levels.2 lvl bitmap found).1⟩
  refine ⟨manages, by simp, fun level position inside => ?_⟩
  obtain ⟨bitmap, found, -⟩ := exists_lvlBitmap manages (lt_lvls manages inside)
  simp only [bit, found]
  exact (levels.2 level bitmap found).2 position inside

end BuddyManager

end Yaeos
