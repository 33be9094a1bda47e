import Yaeos.VmSpace.Gap

/-!
# New areas (`kernel/mm/vm.c`)

`vm_new_area_within_space` takes the first gap with enough addresses and puts an
area there.  It does not look whether the search found one, and it takes the
length of the range behind the last area as it is.
-/

namespace Yaeos

/-- `struct find_data`. -/
structure FindData where
  offset : Nat
  len : Nat
  deriving DecidableEq, Repr

def findWithLenAndOffset (range : VmRange) (data : FindData) : Bool × FindData :=
  (decide (range.base ≥ data.offset ∧ range.len ≥ data.len), data)

/-- `object` is what `kmm_cache_alloc` returns for `AREAS_CACHE`. -/
def vmNewAreaWithinSpace (rounds : Nat) (space : VmSpace) (object : Option Nat)
    (minSize maxSize : Nat) : Outcome (Option Nat × VmSpace) := do
  kassert (minSize ≤ maxSize)
  let fdata : FindData := { offset := space.offset, len := minSize }
  let (gap, _) ← vmSpaceFindGap space findWithLenAndOffset fdata
  let occupyLen := min maxSize gap.len
  match object with
  | none => .ok (none, space)
  | some newArea => do
      let space ← vmAreaInit space newArea gap.base occupyLen
      let space ← vmSpaceInsertArea rounds space newArea
      .ok (some newArea, space)

namespace VmSpace

variable {space next : VmSpace} {tree : Tree Nat} {newArea minSize maxSize rounds : Nat}

/-- Some addresses at or above the offset are in no area. -/
def HasGap (space : VmSpace) (size : Nat) : Prop :=
  ∃ base, space.offset ≤ base ∧ base + size ≤ addressSpace ∧
    ∀ area ∈ space.sortedAreas, (space.areas area).Disjoint { base := base, length := size }

/-- An area as it was asked for, in the tree and in the list. -/
structure Extended (space : VmSpace) (minSize maxSize newArea : Nat) (next : VmSpace) : Prop where
  above : space.offset ≤ (next.areas newArea).base
  whole : platformPageSize ∣ (next.areas newArea).length
  atLeast : minSize ≤ (next.areas newArea).length
  atMost : (next.areas newArea).length ≤ maxSize
  proper : (next.areas newArea).Proper
  apart : ∀ area ∈ space.sortedAreas, (space.areas area).Disjoint (next.areas newArea)
  present : next.sortedAreas.Perm (newArea :: space.sortedAreas)
  synced : next.rbAreas.InOrder next.rbAreas.root next.sortedAreas

/-- A new area, or `NULL` and the space as it was, for want of a gap or of an object. -/
def NewAreaOrNull (space : VmSpace) (object : Option Nat) (minSize maxSize : Nat)
    (outcome : Outcome (Option Nat × VmSpace)) : Prop :=
  (∃ newArea next, outcome = .ok (some newArea, next) ∧
    space.Extended minSize maxSize newArea next) ∨
  ((¬space.HasGap minSize ∨ object = none) ∧ outcome = .ok (none, space))

/-- There is no object, or one of the gaps before the areas is large enough, or the
largest size that is asked for fits behind the last area and is not more than the
length that the search gives this range. -/
def Fits (space : VmSpace) (object : Option Nat) (minSize maxSize : Nat) : Prop :=
  let last := endOf space.areas space.offset space.sortedAreas
  object = none ∨
    (∃ gap ∈ gapsBefore space.areas space.offset space.sortedAreas, minSize ≤ gap.len) ∨
    (last + maxSize ≤ addressSpace ∧ maxSize ≤ (tailRange last).len)

theorem insertArea_areas {area : Nat} (inserted : vmSpaceInsertArea rounds space area = .ok next) :
    next.areas = space.areas := by
  simp only [vmSpaceInsertArea, Outcome.bind_eq_ok, kassert_eq_ok, Except.ok.injEq] at inserted
  obtain ⟨_, _, _, _, _, _, rfl⟩ := inserted
  rfl

/-- The links of a new node are reset before its record is filled in. -/
theorem Synced.areaInit (synced : space.Synced tree) {area base length : Nat} (named : area ≠ 0)
    (fresh : area ∉ tree.inorder) (baseAligned : checkAlign base platformPageSize)
    (lengthAligned : checkAlign length platformPageSize) :
    ∃ blank : VmSpace, vmAreaInit space area base length =
        .ok (blank.prepare area { base := base, length := length }) ∧
      blank.Synced tree ∧ blank.offset = space.offset ∧
      blank.sortedAreas = space.sortedAreas ∧ blank.areas = space.areas := by
  let blankAreas : Rbtree Nat Nat :=
    (space.rbAreas.modify area fun node =>
      { node with left := none, right := none, parent := none }).modify area fun node =>
        node.setColour .red
  have initialised : rbtreeInitNode space.rbAreas (some area) = .ok blankAreas := rfl
  have unchanged : ∀ other ∈ tree.inorder, blankAreas.nodes other = space.rbAreas.nodes other := by
    intro other member
    have different : other ≠ area := fun same => fresh (same ▸ member)
    simp only [blankAreas, Rbtree.nodes_modify, if_neg different]
  refine ⟨{ space with rbAreas := blankAreas }, ?_,
    ⟨synced.focus.frame rfl unchanged, synced.balanced, synced.sorted, fun other member => ?_,
      synced.apart⟩, rfl, rfl, rfl⟩
  · simp only [vmAreaInit, kassert_ok named, kassert_ok baseAligned, kassert_ok lengthAligned,
      Outcome.ok_bind]
    exact congrArg (· >>= _) initialised
  · obtain ⟨otherNamed, data, proper⟩ := synced.named other member
    exact ⟨otherNamed, by rw [unchanged other member]; exact data, proper⟩

/-- An area apart from the others is set up and inserted. -/
theorem Synced.place (synced : space.Synced tree) (record : VmArea) (named : newArea ≠ 0)
    (fresh : newArea ∉ space.sortedAreas) (baseAligned : checkAlign record.base platformPageSize)
    (lengthAligned : checkAlign record.length platformPageSize) (proper : record.Proper)
    (above : space.offset ≤ record.base)
    (apart : ∀ area ∈ space.sortedAreas, (space.areas area).Disjoint record)
    (enough : 2 * tree.inorder.length < rounds) :
    ∃ prepared next result, vmAreaInit space newArea record.base record.length = .ok prepared ∧
      vmSpaceInsertArea rounds prepared newArea = .ok next ∧ next.Synced result ∧
      next.sortedAreas.Perm (newArea :: space.sortedAreas) ∧
      next.areas = Function.update space.areas newArea record ∧ next.offset = space.offset := by
  obtain ⟨blank, initialised, syncedBlank, offset, listed, records⟩ :=
    synced.areaInit named (synced.sorted ▸ fresh) baseAligned lengthAligned
  have legal : blank.Legal (.insert newArea record) := by
    refine ⟨named, listed ▸ fresh, proper, offset ▸ above, ?_⟩
    rw [listed, records]
    exact apart
  obtain ⟨next, result, called, syncedNext, present⟩ := syncedBlank.insert legal enough
  have inserted : vmSpaceInsertArea rounds (blank.prepare newArea record) newArea = .ok next :=
    called
  refine ⟨_, next, result, initialised, inserted, syncedNext, listed ▸ present, ?_,
    (insertArea_inside inserted).2.trans offset⟩
  rw [insertArea_areas inserted, VmSpace.prepare, setArea, records]

/-- With an object, a range of whole pages that is free becomes an area. -/
theorem Synced.extend (synced : space.Synced tree) {base occupyLen : Nat}
    (named : newArea ≠ 0) (fresh : newArea ∉ space.sortedAreas)
    (aligned : platformPageSize ∣ base) (whole : platformPageSize ∣ occupyLen)
    (proper : VmArea.Proper { base := base, length := occupyLen })
    (above : space.offset ≤ base)
    (apart : ∀ area ∈ space.sortedAreas,
      (space.areas area).Disjoint { base := base, length := occupyLen })
    (atLeast : minSize ≤ occupyLen) (atMost : occupyLen ≤ maxSize) (fits : maxSize < addressSpace)
    (enough : 2 * tree.inorder.length < rounds) :
    ∃ prepared next, vmAreaInit space newArea base occupyLen = .ok prepared ∧
      vmSpaceInsertArea rounds prepared newArea = .ok next ∧
      space.Extended minSize maxSize newArea next := by
  have positive : 0 < occupyLen := proper.1
  have inside : base + occupyLen ≤ addressSpace := proper.2
  have baseChecked := (checkAlign_page (show base < addressSpace by omega)).mpr aligned
  have lengthChecked := (checkAlign_page (show occupyLen < addressSpace by omega)).mpr whole
  obtain ⟨prepared, next, result, initialised, inserted, syncedNext, present, records, -⟩ :=
    synced.place ⟨base, occupyLen⟩ named fresh baseChecked lengthChecked proper above apart enough
  have recorded : next.areas newArea = { base := base, length := occupyLen } := by
    rw [records, Function.update_self]
  refine ⟨prepared, next, initialised, inserted, ?_⟩
  refine ⟨?_, ?_, ?_, ?_, ?_, ?_, present, ?_⟩
  · rw [recorded]
    exact above
  · rw [recorded]
    exact whole
  · rw [recorded]
    exact atLeast
  · rw [recorded]
    exact atMost
  · rw [recorded]
    exact proper
  · rw [recorded]
    exact apart
  · rw [syncedNext.focus.root_eq, syncedNext.sorted]
    exact syncedNext.focus.holds.inOrder

/-- The range the search returns: the first gap with enough addresses, the range behind
the last area when this has enough, or nothing. -/
theorem Paged.findGap_first (paged : space.Paged) (minSize : Nat) :
    ∃ range, vmSpaceFindGap space findWithLenAndOffset
        { offset := space.offset, len := minSize } =
          .ok (range, { offset := space.offset, len := minSize }) ∧
      ((range ∈ gapsBefore space.areas space.offset space.sortedAreas ∧ minSize ≤ range.len) ∨
        ((∀ gap ∈ gapsBefore space.areas space.offset space.sortedAreas, gap.len < minSize) ∧
          let tail := tailRange (wrap (endOf space.areas space.offset space.sortedAreas))
          (range = tail ∧ space.offset ≤ tail.base ∧ minSize ≤ tail.len) ∨
            (range = { base := 0, len := 0 } ∧ ¬(space.offset ≤ tail.base ∧ minSize ≤ tail.len)))) := by
  let data : FindData := { offset := space.offset, len := minSize }
  have above : ∀ gap ∈ gapsBefore space.areas space.offset space.sortedAreas,
      space.offset ≤ gap.base := by
    intro gap member
    obtain ⟨first, second, gaps⟩ := List.append_of_mem member
    obtain ⟨before, area, after, split, -, rfl⟩ := gapsBefore_split gaps
    exact (paged.frontier split).above
  have searched := paged.findGap_eq findWithLenAndOffset data
  rw [firstHit_eq_find? (fun _ => rfl), List.find?_append] at searched
  cases found : (gapsBefore space.areas space.offset space.sortedAreas).find?
      (fun range => (findWithLenAndOffset range data).1) with
  | some gap =>
      rw [found] at searched
      refine ⟨gap, searched, .inl ⟨List.mem_of_find?_eq_some found, ?_⟩⟩
      have accepted := List.find?_some found
      simp only [findWithLenAndOffset, decide_eq_true_eq] at accepted
      exact accepted.2
  | none =>
      rw [found] at searched
      have small : ∀ gap ∈ gapsBefore space.areas space.offset space.sortedAreas,
          gap.len < minSize := by
        intro gap member
        have rejected := List.find?_eq_none.mp found gap member
        simp only [findWithLenAndOffset, decide_eq_true_eq, not_and, not_le] at rejected
        exact rejected (above gap member)
      let tail := tailRange (wrap (endOf space.areas space.offset space.sortedAreas))
      by_cases accepted : space.offset ≤ tail.base ∧ minSize ≤ tail.len
      · refine ⟨tail, ?_, .inr ⟨small, .inl ⟨rfl, accepted⟩⟩⟩
        have hit : (findWithLenAndOffset tail data).1 = true := decide_eq_true accepted
        simpa [List.find?_cons, tail, hit] using searched
      · refine ⟨{ base := 0, len := 0 }, ?_, .inr ⟨small, .inr ⟨rfl, accepted⟩⟩⟩
        have missed : (findWithLenAndOffset tail data).1 = false := decide_eq_false accepted
        simpa [List.find?_cons, tail, missed] using searched

/-- What the function does with an object and the range the search returned. -/
theorem newArea_eq {range : VmRange} (ordered : minSize ≤ maxSize)
    (found : vmSpaceFindGap space findWithLenAndOffset
      { offset := space.offset, len := minSize } =
        .ok (range, { offset := space.offset, len := minSize })) :
    vmNewAreaWithinSpace rounds space (some newArea) minSize maxSize = (do
      let prepared ← vmAreaInit space newArea range.base (min maxSize range.len)
      let next ← vmSpaceInsertArea rounds prepared newArea
      .ok (some newArea, next)) := by
  simp only [vmNewAreaWithinSpace, kassert_ok ordered, found, Outcome.ok_bind]

/-- An area that was returned starts at the base of the range that was found. -/
theorem extended_range {range : VmRange} {next : VmSpace} (ordered : minSize ≤ maxSize)
    (found : vmSpaceFindGap space findWithLenAndOffset
      { offset := space.offset, len := minSize } =
        .ok (range, { offset := space.offset, len := minSize }))
    {returned : Nat} (called : vmNewAreaWithinSpace rounds space (some newArea) minSize maxSize =
      .ok (some returned, next)) :
    next.areas returned = { base := range.base, length := min maxSize range.len } := by
  rw [newArea_eq ordered found] at called
  obtain ⟨prepared, initialised, called⟩ := Outcome.bind_eq_ok.mp called
  obtain ⟨_, inserted, returned⟩ := Outcome.bind_eq_ok.mp called
  cases returned
  rw [insertArea_areas inserted]
  exact (areaInit_eq initialised).2.2.2

/-- An area in a gap before another one. -/
theorem Synced.extend_gap (synced : space.Synced tree) (paged : space.Paged) {gap : VmRange}
    (isGap : gap ∈ gapsBefore space.areas space.offset space.sortedAreas)
    (large : minSize ≤ gap.len) (named : newArea ≠ 0) (fresh : newArea ∉ space.sortedAreas)
    (positive : 0 < minSize) (ordered : minSize ≤ maxSize) (fits : maxSize < addressSpace)
    (maxAligned : platformPageSize ∣ maxSize) (enough : 2 * tree.inorder.length < rounds) :
    ∃ prepared next, vmAreaInit space newArea gap.base (min maxSize gap.len) = .ok prepared ∧
      vmSpaceInsertArea rounds prepared newArea = .ok next ∧
      space.Extended minSize maxSize newArea next := by
  obtain ⟨first, second, gaps⟩ := List.append_of_mem isGap
  obtain ⟨before, area, after, split, -, rfl⟩ := gapsBefore_split gaps
  have frontier := paged.frontier split
  have listed : area ∈ space.sortedAreas := by simp [split]
  have areaProper := paged.proper area listed
  have laterSplit : space.sortedAreas = (before ++ [area]) ++ after := by simp [split]
  have later := paged.frontier laterSplit
  rw [endOf_append_singleton] at later
  have low := frontier.ahead area (by simp)
  simp only [gapAt] at large ⊢
  have whole : platformPageSize ∣ min maxSize
      ((space.areas area).base - endOf space.areas space.offset before) := by
    rcases Nat.le_total maxSize
      ((space.areas area).base - endOf space.areas space.offset before) with fitsIn | clipped
    · rw [Nat.min_eq_left fitsIn]
      exact maxAligned
    · rw [Nat.min_eq_right clipped]
      exact Nat.dvd_sub (paged.aligned area listed).1 frontier.aligned
  unfold VmArea.Proper at areaProper
  refine synced.extend named fresh frontier.aligned whole ⟨?_, ?_⟩ frontier.above
    (fun other member => ?_) ?_ (Nat.min_le_left ..) fits enough
  · exact lt_min (by omega) (by omega)
  · have short := Nat.min_le_right maxSize
      ((space.areas area).base - endOf space.areas space.offset before)
    show endOf space.areas space.offset before + min maxSize
      ((space.areas area).base - endOf space.areas space.offset before) ≤ addressSpace
    omega
  · have short := Nat.min_le_right maxSize
      ((space.areas area).base - endOf space.areas space.offset before)
    rw [split] at member
    rcases List.mem_append.mp member with inBefore | inAfter
    · exact .inl (frontier.behind other inBefore)
    · right
      show endOf space.areas space.offset before + min maxSize
        ((space.areas area).base - endOf space.areas space.offset before) ≤
          (space.areas other).base
      rcases List.mem_cons.mp inAfter with rfl | inAfter
      · omega
      · have above := later.ahead other inAfter
        omega
  · exact le_min ordered large

/-- An area behind the last one. -/
theorem Synced.extend_tail (synced : space.Synced tree) (paged : space.Paged)
    (named : newArea ≠ 0) (fresh : newArea ∉ space.sortedAreas)
    (positive : 0 < minSize) (ordered : minSize ≤ maxSize) (fits : maxSize < addressSpace)
    (maxAligned : platformPageSize ∣ maxSize)
    (inside : endOf space.areas space.offset space.sortedAreas + maxSize ≤ addressSpace)
    (enough : 2 * tree.inorder.length < rounds) :
    ∃ prepared next, vmAreaInit space newArea
        (endOf space.areas space.offset space.sortedAreas) maxSize = .ok prepared ∧
      vmSpaceInsertArea rounds prepared newArea = .ok next ∧
      space.Extended minSize maxSize newArea next := by
  have all : space.sortedAreas = space.sortedAreas ++ [] := by simp
  have frontier := paged.frontier all
  exact synced.extend named fresh frontier.aligned maxAligned
    ⟨Nat.lt_of_lt_of_le positive ordered, inside⟩ frontier.above
    (fun other member => .inl (frontier.behind other member)) ordered (Nat.le_refl _) fits enough

/-- Where no gap is large enough, an area that meets the request lies behind the last one
and has the largest size: any other length there is not a number of pages. -/
theorem Paged.fits_of_extended (paged : space.Paged) {range : VmRange} (positive : 0 < minSize)
    (small : ∀ gap ∈ gapsBefore space.areas space.offset space.sortedAreas, gap.len < minSize)
    (found : let tail := tailRange (wrap (endOf space.areas space.offset space.sortedAreas))
      (range = tail ∧ space.offset ≤ tail.base ∧ minSize ≤ tail.len) ∨
        (range = { base := 0, len := 0 } ∧ ¬(space.offset ≤ tail.base ∧ minSize ≤ tail.len)))
    (recorded : next.areas newArea = { base := range.base, length := min maxSize range.len })
    (extended : space.Extended minSize maxSize newArea next) :
    endOf space.areas space.offset space.sortedAreas + maxSize ≤ addressSpace ∧
      maxSize ≤ (tailRange (endOf space.areas space.offset space.sortedAreas)).len := by
  have all : space.sortedAreas = space.sortedAreas ++ [] := by simp
  have frontier := paged.frontier all
  have atLeast := extended.atLeast
  have whole := extended.whole
  have proper := extended.proper
  have apart := extended.apart
  rw [recorded] at atLeast whole proper apart
  obtain ⟨-, inside⟩ := proper
  rcases found with ⟨isTail, low, -⟩ | ⟨isNull, -⟩
  · rw [isTail] at whole inside apart
    have clipped : maxSize ≤ (tailRange (wrap
        (endOf space.areas space.offset space.sortedAreas))).len := by
      rcases Nat.le_total maxSize (tailRange (wrap
        (endOf space.areas space.offset space.sortedAreas))).len with fitsIn | long
      · exact fitsIn
      · simp only [Nat.min_eq_right long] at whole
        exact absurd whole (tailRange_misaligned frontier.aligned)
    simp only [Nat.min_eq_left clipped] at inside apart
    have below : endOf space.areas space.offset space.sortedAreas < addressSpace := by
      -- The areas end at the last address, so the new one would start at zero.
      by_contra notBelow
      have last : endOf space.areas space.offset space.sortedAreas = addressSpace :=
        Nat.le_antisymm frontier.fits (Nat.le_of_not_lt notBelow)
      rw [last] at apart low
      have zero : wrap addressSpace = 0 := by decide
      simp only [tailRange, zero, Nat.le_zero_eq] at apart low
      cases listed : space.sortedAreas with
      | nil =>
          rw [listed] at last
          have offsetFits := paged.offsetFits
          simp only [endOf, List.foldl_nil] at last
          omega
      | cons area rest =>
          have member : area ∈ space.sortedAreas := by simp [listed]
          have areaPositive := (paged.proper area member).1
          have firstGap := small (gapAt space.areas space.offset area) (by simp [listed, gapsBefore])
          have disjoint := apart area member
          simp only [VmArea.Disjoint, VmArea.Before] at disjoint
          simp only [gapAt, low] at firstGap
          simp only at atLeast
          omega
    rw [wrap_of_lt below] at clipped inside
    exact ⟨inside, clipped⟩
  · rw [isNull] at atLeast
    simp only [Nat.min_zero] at atLeast
    omega

/-- The function returns an area as asked for, or `NULL` and leaves the space alone, if
and only if the object is missing or the area fits. -/
theorem newAreaOrNull_iff (synced : space.Synced tree) (paged : space.Paged) {object : Option Nat}
    (fresh : ∀ newArea, object = some newArea → newArea ≠ 0 ∧ newArea ∉ space.sortedAreas)
    (positive : 0 < minSize) (ordered : minSize ≤ maxSize) (fits : maxSize < addressSpace)
    (maxAligned : platformPageSize ∣ maxSize)
    (enough : 2 * space.sortedAreas.length < rounds) :
    space.NewAreaOrNull object minSize maxSize
        (vmNewAreaWithinSpace rounds space object minSize maxSize) ↔
      space.Fits object minSize maxSize := by
  rw [synced.sorted] at enough
  obtain ⟨range, found, which⟩ := paged.findGap_first minSize
  cases object with
  | none =>
      refine iff_of_true (.inr ⟨.inr rfl, ?_⟩) (.inl rfl)
      simp only [vmNewAreaWithinSpace, kassert_ok ordered, found, Outcome.ok_bind]
  | some newArea =>
      obtain ⟨named, unlisted⟩ := fresh newArea rfl
      have code : vmNewAreaWithinSpace rounds space (some newArea) minSize maxSize = _ :=
        newArea_eq ordered found
      constructor
      · rintro (⟨returned, next, called, extended⟩ | ⟨-, called⟩)
        · have recorded := extended_range ordered found called
          rcases which with ⟨isGap, large⟩ | ⟨small, tail⟩
          · exact .inr (.inl ⟨range, isGap, large⟩)
          · exact .inr (.inr (paged.fits_of_extended positive small tail recorded extended))
        · rw [code] at called
          obtain ⟨_, _, called⟩ := Outcome.bind_eq_ok.mp called
          obtain ⟨_, _, impossible⟩ := Outcome.bind_eq_ok.mp called
          cases impossible
      · intro fitsSomewhere
        rcases which with ⟨isGap, large⟩ | ⟨small, tail⟩
        · obtain ⟨prepared, next, initialised, inserted, extended⟩ := synced.extend_gap paged isGap
            large named unlisted positive ordered fits maxAligned enough
          exact .inl ⟨newArea, next, by rw [code, initialised, Outcome.ok_bind, inserted]; rfl,
            extended⟩
        · rcases fitsSomewhere with missing | ⟨gap, isGap, large⟩ | ⟨inside, clipped⟩
          · cases missing
          · exact absurd large (Nat.not_le_of_lt (small gap isGap))
          · obtain ⟨prepared, next, initialised, inserted, extended⟩ := synced.extend_tail paged
              named unlisted positive ordered fits maxAligned inside enough
            have all : space.sortedAreas = space.sortedAreas ++ [] := by simp
            have frontier := paged.frontier all
            have below : endOf space.areas space.offset space.sortedAreas < addressSpace := by omega
            rw [wrap_of_lt below] at tail
            rcases tail with ⟨rfl, -⟩ | ⟨-, rejected⟩
            · refine .inl ⟨newArea, next, ?_, extended⟩
              rw [code, Nat.min_eq_left clipped]
              simp only [tailRange]
              rw [initialised, Outcome.ok_bind, inserted]
              rfl
            · exact absurd ⟨frontier.above, Nat.le_trans ordered clipped⟩ rejected

/-- Two pages in an empty space. -/
theorem emptySpace_newArea : (vmSpaceInit noAreas 4096).NewAreaOrNull (some 1) 4096 8192
    (vmNewAreaWithinSpace 1 (vmSpaceInit noAreas 4096) (some 1) 4096 8192) := by
  have start : vmSpaceMachine.Reachable (vmSpaceInit noAreas 4096) := .initial ⟨noAreas, 4096, rfl⟩
  obtain ⟨tree, synced⟩ := synced_of_reachable start
  have paged : (vmSpaceInit noAreas 4096).Paged :=
    ⟨by decide, by decide, nofun, nofun, nofun, .nil⟩
  refine (newAreaOrNull_iff synced paged (fun newArea same => ?_) (by decide) (by decide)
    (by decide) (by decide) (by decide)).mpr (.inr (.inr (by decide)))
  cases same
  exact ⟨by decide, nofun⟩

/-- All addresses from the second page on are in one area. -/
def fullSpace : Outcome VmSpace :=
  (vmSpaceInit noAreas 4096).call 16 (.insert 1 { base := 4096, length := 0xfffff000 })

/-- A space without a gap, and an empty one where the range behind the last area is
shorter than the most that is asked for: both times an assertion fails. -/
theorem newArea_stops :
    (∃ space, fullSpace = .ok space ∧ ¬space.NewAreaOrNull (some 2) 4096 8192
      (vmNewAreaWithinSpace 16 space (some 2) 4096 8192)) ∧
    ¬(vmSpaceInit noAreas 4096).NewAreaOrNull (some 1) 4096 0x2000000
      (vmNewAreaWithinSpace 16 (vmSpaceInit noAreas 4096) (some 1) 4096 0x2000000) := by
  have full : (fullSpace >>= fun space =>
      (vmNewAreaWithinSpace 16 space (some 2) 4096 8192).map Prod.fst) = .error .kassert := by
    decide +kernel
  have empty : (vmNewAreaWithinSpace 16 (vmSpaceInit noAreas 4096) (some 1) 4096
      0x2000000).map Prod.fst = .error .kassert := by decide +kernel
  have inserted : fullSpace.map VmSpace.sortedAreas = .ok [1] := by decide +kernel
  constructor
  · cases built : fullSpace with
    | error fault =>
        rw [built] at inserted
        cases inserted
    | ok space =>
        rw [built] at full
        refine ⟨space, rfl, ?_⟩
        rintro (⟨_, _, called, -⟩ | ⟨-, called⟩)
        · rw [Outcome.ok_bind, called] at full
          cases full
        · rw [Outcome.ok_bind, called] at full
          cases full
  · rintro (⟨_, _, called, -⟩ | ⟨-, called⟩)
    · rw [called] at empty
      cases empty
    · rw [called] at empty
      cases empty

end VmSpace

end Yaeos
