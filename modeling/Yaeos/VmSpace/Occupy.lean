import Yaeos.VmSpace.NewArea

/-!
# Areas that are taken and given back (`kernel/mm/vm.c`)

`vm_new_area_within_space` inserts an area wherever the comparisons of the tree let it
in; behind the last area its end may lie beyond the last address.  When the area is
removed again, the list and the sequence of the tree are as before.
-/

namespace Yaeos

namespace VmSpace

variable {space next : VmSpace} {tree : Tree Nat} {newArea minSize maxSize rounds : Nat}
  {record : VmArea}

/-- The range the search returns is one an area can be inserted in. -/
def Takes (space : VmSpace) (minSize maxSize : Nat) : Prop :=
  let last := endOf space.areas space.offset space.sortedAreas
  (∃ gap ∈ gapsBefore space.areas space.offset space.sortedAreas, minSize ≤ gap.len) ∨
    (last < addressSpace ∧ maxSize ≤ (tailRange last).len)

instance (space : VmSpace) (minSize maxSize : Nat) : Decidable (space.Takes minSize maxSize) :=
  inferInstanceAs (Decidable ((∃ gap ∈ _, _) ∨ (_ ∧ _)))

/-- A new area stands in the tree and in the list; nothing else changed. -/
structure Occupied (space : VmSpace) (newArea : Nat) (record : VmArea) (next : VmSpace) : Prop where
  linked : ∃ grown, next.Linked grown
  placed : ∃ before after, space.sortedAreas = before ++ after ∧
    next.sortedAreas = before ++ newArea :: after
  others : ∀ other, other ≠ newArea → next.areas other = space.areas other
  recorded : next.areas newArea = record

/-- An area that the comparisons let in. -/
theorem Synced.occupy (synced : space.Synced tree) (named : newArea ≠ 0)
    (fresh : newArea ∉ space.sortedAreas) (baseAligned : checkAlign record.base platformPageSize)
    (lengthAligned : checkAlign record.length platformPageSize) (above : space.offset ≤ record.base)
    (clear : ∀ area ∈ space.sortedAreas, (space.areas area).Clear record)
    (enough : 2 * space.sortedAreas.length < rounds) :
    ∃ prepared next, vmAreaInit space newArea record.base record.length = .ok prepared ∧
      vmSpaceInsertArea rounds prepared newArea = .ok next ∧
      space.Occupied newArea record next := by
  rw [synced.sorted] at fresh clear enough
  obtain ⟨blank, initialised, syncedBlank, offset, listed, records⟩ :=
    synced.areaInit named fresh baseAligned lengthAligned
  rw [← records] at clear
  obtain ⟨compared, monotone, -⟩ := syncedBlank.compares named fresh clear
  obtain ⟨next, grown, before, after, called, linked, sequence, placed, -, -, nextRecords⟩ :=
    syncedBlank.linked.insert named fresh (offset.symm ▸ above) compared monotone
      (fun other _ => by simp only [side]; split <;> omega) enough
  refine ⟨_, next, initialised, called, ⟨grown, linked⟩, ⟨before, after, ?_, placed⟩,
    fun other different => ?_, ?_⟩
  · rw [synced.sorted, sequence]
  · rw [nextRecords, ← records]
    simp [VmSpace.prepare, VmSpace.setArea, Function.update_of_ne different]
  · rw [nextRecords]
    simp [VmSpace.prepare, VmSpace.setArea]

/-- The removal of a new area restores the list and the sequence of the tree. -/
theorem Occupied.freed (occupied : space.Occupied newArea record next) (synced : space.Synced tree)
    (fresh : newArea ∉ space.sortedAreas) (enough : 2 * space.sortedAreas.length + 2 < rounds) :
    ∃ final result, vmSpaceRemoveArea rounds next newArea = .ok final ∧ final.Synced result ∧
      final.sortedAreas = space.sortedAreas ∧
      ∀ area ∈ space.sortedAreas, final.areas area = space.areas area := by
  obtain ⟨⟨grown, linked⟩, ⟨before, after, sequence, placed⟩, others, -⟩ := occupied
  have present : newArea ∈ grown.inorder := by
    rw [← linked.sorted, placed]
    exact List.mem_append_right _ (List.mem_cons_self ..)
  have length : grown.inorder.length = space.sortedAreas.length + 1 := by
    rw [← linked.sorted, placed, sequence]
    simp only [List.length_append, List.length_cons, Nat.add_assoc]
  obtain ⟨final, shrunk, removed, finalLinked, listed, records, -⟩ :=
    linked.remove present (show 2 * grown.inorder.length < rounds by omega)
  have notBefore : newArea ∉ before := fun member => fresh (sequence ▸ List.mem_append_left _ member)
  have restored : final.sortedAreas = space.sortedAreas := by
    rw [listed, placed, List.erase_append_right _ notBefore, List.erase_cons_head, sequence]
  have same : ∀ area ∈ space.sortedAreas, final.areas area = space.areas area := by
    intro area member
    rw [records]
    exact others area fun isNew => fresh (isNew ▸ member)
  have shrunkSequence : shrunk.inorder = tree.inorder := by
    rw [← finalLinked.sorted, restored, synced.sorted]
  refine ⟨final, shrunk, removed, ⟨finalLinked.focus, finalLinked.balanced, finalLinked.sorted,
    fun area member => ?_, ?_⟩, restored, same⟩
  · obtain ⟨areaNamed, data⟩ := finalLinked.named area member
    rw [shrunkSequence] at member
    rw [same area (synced.sorted ▸ member)]
    exact ⟨areaNamed, data, (synced.named area member).2.2⟩
  · rw [shrunkSequence]
    refine synced.apart.imp_of_mem fun xMember yMember ordered => ?_
    rw [same _ (synced.sorted ▸ xMember), same _ (synced.sorted ▸ yMember)]
    exact ordered

/-- Where the range can be taken, the area is inserted. -/
theorem Synced.occupy_of_takes (synced : space.Synced tree) (paged : space.Paged)
    (named : newArea ≠ 0) (fresh : newArea ∉ space.sortedAreas) (positive : 0 < minSize)
    (ordered : minSize ≤ maxSize) (fits : maxSize < addressSpace)
    (maxAligned : platformPageSize ∣ maxSize) {range : VmRange}
    (found : vmSpaceFindGap space findWithLenAndOffset
      { offset := space.offset, len := minSize } =
        .ok (range, { offset := space.offset, len := minSize }))
    (takes : space.Takes minSize maxSize) (enough : 2 * space.sortedAreas.length < rounds) :
    minSize ≤ range.len ∧ ∃ prepared next,
      vmAreaInit space newArea range.base (min maxSize range.len) = .ok prepared ∧
      vmSpaceInsertArea rounds prepared newArea = .ok next ∧
      space.Occupied newArea ⟨range.base, min maxSize range.len⟩ next := by
  obtain ⟨_, again, which⟩ := paged.findGap_first minSize
  cases found.symm.trans again
  rcases which with ⟨isGap, large⟩ | ⟨small, tail⟩
  · obtain ⟨prepared, extended, initialised, inserted, isExtended⟩ := synced.extend_gap paged isGap
      large named fresh positive ordered fits maxAligned (synced.sorted ▸ enough)
    obtain ⟨baseAligned, lengthAligned, -, recorded⟩ := areaInit_eq initialised
    have isRecord : extended.areas newArea = ⟨range.base, min maxSize range.len⟩ := by
      rw [insertArea_areas inserted]
      exact recorded
    have above := isExtended.above
    have proper := isExtended.proper
    have apart := isExtended.apart
    rw [isRecord] at above proper apart
    exact ⟨large, @Synced.occupy _ _ _ _ ⟨_, _⟩ synced named fresh baseAligned lengthAligned above
      (fun area member => (apart area member).imp_right (And.intro proper)) enough⟩
  · rcases takes with ⟨gap, isGap, large⟩ | ⟨below, clipped⟩
    · exact absurd large (Nat.not_le_of_lt (small gap isGap))
    have all : space.sortedAreas = space.sortedAreas ++ [] := by simp
    have frontier := paged.frontier all
    rw [wrap_of_lt below] at tail
    rcases tail with ⟨rfl, low, large⟩ | ⟨-, rejected⟩
    · refine ⟨large, ?_⟩
      rw [Nat.min_eq_left clipped]
      refine @Synced.occupy _ _ _ _ ⟨_, maxSize⟩ synced named fresh ?_ ?_ low
        (fun area member => .inl (frontier.behind area member)) enough
      · exact (checkAlign_page below).mpr frontier.aligned
      · exact (checkAlign_page fits).mpr maxAligned
    · exact absurd ⟨frontier.above, Nat.le_trans ordered clipped⟩ rejected

/-- Where it cannot, an assertion fails. -/
theorem Synced.occupy_fails (synced : space.Synced tree) (paged : space.Paged)
    (named : newArea ≠ 0) (fresh : newArea ∉ space.sortedAreas) (offset : 0 < space.offset)
    {range : VmRange}
    (found : vmSpaceFindGap space findWithLenAndOffset
      { offset := space.offset, len := minSize } =
        .ok (range, { offset := space.offset, len := minSize }))
    (misses : ¬space.Takes minSize maxSize) :
    (do
      let prepared ← vmAreaInit space newArea range.base (min maxSize range.len)
      vmSpaceInsertArea rounds prepared newArea) = .error .kassert := by
  obtain ⟨_, again, which⟩ := paged.findGap_first minSize
  cases found.symm.trans again
  have all : space.sortedAreas = space.sortedAreas ++ [] := by simp
  have frontier := paged.frontier all
  rcases which with ⟨isGap, large⟩ | ⟨-, ⟨rfl, low, -⟩ | ⟨rfl, -⟩⟩
  · exact absurd (.inl ⟨range, isGap, large⟩) misses
  · -- The length is that of the range, which is no number of pages.
    have below : endOf space.areas space.offset space.sortedAreas < addressSpace := by
      by_contra notBelow
      have last : endOf space.areas space.offset space.sortedAreas = addressSpace :=
        Nat.le_antisymm frontier.fits (Nat.le_of_not_lt notBelow)
      rw [last] at low
      have zero : (tailRange (wrap addressSpace)).base = 0 := by decide
      omega
    have short : (tailRange (wrap (endOf space.areas space.offset space.sortedAreas))).len <
        maxSize := by
      by_contra long
      rw [wrap_of_lt below] at long
      exact misses (.inr ⟨below, Nat.le_of_not_lt long⟩)
    have inside : (tailRange (wrap (endOf space.areas space.offset space.sortedAreas))).len <
        addressSpace := wrap_lt _
    rw [Nat.min_eq_right (Nat.le_of_lt short)]
    unfold vmAreaInit
    have misaligned : ¬checkAlign (tailRange (wrap (endOf space.areas space.offset
        space.sortedAreas))).len platformPageSize := fun aligned =>
      tailRange_misaligned frontier.aligned ((checkAlign_page inside).mp aligned)
    have baseAligned : checkAlign (tailRange (wrap (endOf space.areas space.offset
        space.sortedAreas))).base platformPageSize := by
      rw [wrap_of_lt below]
      exact (checkAlign_page below).mpr frontier.aligned
    simp only [kassert_ok named, kassert_ok baseAligned, kassert_error misaligned, Outcome.ok_bind,
      Outcome.error_bind]
  · -- There is no range, and the area would start at zero.
    have zero : checkAlign 0 platformPageSize := by decide
    obtain ⟨blank, initialised, -, sameOffset, -⟩ :=
      synced.areaInit named (synced.sorted ▸ fresh) zero zero
    rw [Nat.min_zero, initialised, Outcome.ok_bind]
    have low : ¬(blank.prepare newArea ⟨0, 0⟩).offset ≤
        ((blank.prepare newArea ⟨0, 0⟩).areas newArea).base := by
      have isZero : ((blank.prepare newArea ⟨0, 0⟩).areas newArea).base = 0 := by
        simp [VmSpace.prepare, VmSpace.setArea]
      have isOffset : (blank.prepare newArea ⟨0, 0⟩).offset = space.offset := sameOffset
      omega
    simp only [vmSpaceInsertArea, kassert_error low, Outcome.error_bind]

end VmSpace

end Yaeos
