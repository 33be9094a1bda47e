import Mathlib.Data.List.Perm.Lattice
import Yaeos.Kmm.Pages

/-!
# The lists of a cache (`kernel/mm/kmm.c`)

A slab is on the list that the number of its objects asks for.  A call moves
the slab to its next list before it changes the number, so the lists are sorted
by a count of their own.

An empty slab is always moved to `slabs_partial`, also if it has one buffer and
is full with the object that is handed out next.
-/

namespace Yaeos

namespace KmmCache

/-- The slabs of a cache. -/
def allSlabs (cache : KmmCache) : List Nat :=
  cache.slabsEmpty ++ cache.slabsPartial ++ cache.slabsFull

/-- Each slab is on the list for its count. -/
structure Sorted (cache : KmmCache) (count : Nat → Nat) : Prop where
  inEmpty : ∀ slab ∈ cache.slabsEmpty, count slab = 0
  inPartial : ∀ slab ∈ cache.slabsPartial, 0 < count slab ∧
    (count slab < cache.slabCapacity ∨ cache.slabCapacity = 1)
  inFull : ∀ slab ∈ cache.slabsFull, count slab = cache.slabCapacity

/-- The slabs of a cache are put on other lists. -/
structure Rearranged (cache moved : KmmCache) (count : Nat → Nat) : Prop where
  layout : moved.toKmmCacheLayout = cache.toKmmCacheLayout
  colourMax : moved.colourMax = cache.colourMax
  colourNext : moved.colourNext = cache.colourNext
  slabs : moved.allSlabs.Perm cache.allSlabs
  sorted : moved.Sorted count

variable {cache moved : KmmCache} {count : Nat → Nat} {slab objects : Nat}

theorem mem_allSlabs : slab ∈ cache.allSlabs ↔
    slab ∈ cache.slabsEmpty ∨ slab ∈ cache.slabsPartial ∨ slab ∈ cache.slabsFull := by
  simp [allSlabs]

theorem allSlabs_nodup : cache.allSlabs.Nodup ↔ cache.slabsEmpty.Nodup ∧
    cache.slabsPartial.Nodup ∧ cache.slabsFull.Nodup ∧
    (∀ slab ∈ cache.slabsEmpty, slab ∉ cache.slabsPartial) ∧
    (∀ slab ∈ cache.slabsEmpty, slab ∉ cache.slabsFull) ∧
    ∀ slab ∈ cache.slabsPartial, slab ∉ cache.slabsFull := by
  unfold allSlabs
  simp only [List.nodup_append, List.mem_append]
  grind

/-- One slab goes where its new count asks for. -/
theorem Sorted.update (sorted : cache.Sorted count)
    (capacity : moved.slabCapacity = cache.slabCapacity)
    (inEmpty : ∀ other ∈ moved.slabsEmpty, other ≠ slab ∧ other ∈ cache.slabsEmpty ∨
      other = slab ∧ objects = 0)
    (inPartial : ∀ other ∈ moved.slabsPartial, other ≠ slab ∧ other ∈ cache.slabsPartial ∨
      other = slab ∧ 0 < objects ∧ (objects < cache.slabCapacity ∨ cache.slabCapacity = 1))
    (inFull : ∀ other ∈ moved.slabsFull, other ≠ slab ∧ other ∈ cache.slabsFull ∨
      other = slab ∧ objects = cache.slabCapacity) :
    moved.Sorted (Function.update count slab objects) := by
  constructor
  · intro other member
    rcases inEmpty other member with ⟨different, before⟩ | ⟨rfl, isCount⟩
    · rw [Function.update_of_ne different]
      exact sorted.inEmpty other before
    · rw [Function.update_self]
      exact isCount
  · intro other member
    rw [capacity]
    rcases inPartial other member with ⟨different, before⟩ | ⟨rfl, isCount⟩
    · rw [Function.update_of_ne different]
      exact sorted.inPartial other before
    · rw [Function.update_self]
      exact isCount
  · intro other member
    rw [capacity]
    rcases inFull other member with ⟨different, before⟩ | ⟨rfl, isCount⟩
    · rw [Function.update_of_ne different]
      exact sorted.inFull other before
    · rw [Function.update_self]
      exact isCount

/-- The count matters on the slabs of the cache only. -/
theorem Sorted.congr (sorted : cache.Sorted count) {other : Nat → Nat}
    (same : ∀ slab ∈ cache.allSlabs, other slab = count slab) : cache.Sorted other := by
  constructor
  · intro slab member
    rw [same slab (mem_allSlabs.mpr (.inl member))]
    exact sorted.inEmpty slab member
  · intro slab member
    rw [same slab (mem_allSlabs.mpr (.inr (.inl member)))]
    exact sorted.inPartial slab member
  · intro slab member
    rw [same slab (mem_allSlabs.mpr (.inr (.inr member)))]
    exact sorted.inFull slab member

/-- The counts of two lists that differ by one element at different places. -/
theorem perm_moved {before after : List Nat} (member : slab ∈ before) :
    (before.erase slab ++ slab :: after).Perm (before ++ after) := by
  refine List.perm_middle.trans ?_
  exact (List.perm_cons_erase member).symm.append_right after

theorem partial_to_full (nodup : cache.allSlabs.Nodup) (sorted : cache.Sorted count)
    (member : slab ∈ cache.slabsPartial) (full : objects = cache.slabCapacity) :
    Rearranged cache { cache with
      slabsPartial := cache.slabsPartial.erase slab, slabsFull := slab :: cache.slabsFull }
      (Function.update count slab objects) := by
  obtain ⟨-, nodupPartial, -, emptyPartial, -, partialFull⟩ := allSlabs_nodup.mp nodup
  refine ⟨rfl, rfl, rfl, ?_, sorted.update rfl ?_ ?_ ?_⟩
  · simp only [allSlabs, List.append_assoc]
    exact (perm_moved member).append_left _
  · intro other isEmpty
    exact .inl ⟨fun same => emptyPartial other isEmpty (same ▸ member), isEmpty⟩
  · intro other isPartial
    exact .inl ((nodupPartial.mem_erase_iff).mp isPartial)
  · intro other isFull
    rcases List.mem_cons.mp isFull with same | before
    · exact .inr ⟨same, full⟩
    · exact .inl ⟨fun same => partialFull slab member (same ▸ before), before⟩

theorem empty_to_partial (nodup : cache.allSlabs.Nodup) (sorted : cache.Sorted count)
    (member : slab ∈ cache.slabsEmpty)
    (used : 0 < objects ∧ (objects < cache.slabCapacity ∨ cache.slabCapacity = 1)) :
    Rearranged cache { cache with
      slabsEmpty := cache.slabsEmpty.erase slab, slabsPartial := slab :: cache.slabsPartial }
      (Function.update count slab objects) := by
  obtain ⟨nodupEmpty, -, -, emptyPartial, emptyFull, -⟩ := allSlabs_nodup.mp nodup
  refine ⟨rfl, rfl, rfl, ?_, sorted.update rfl ?_ ?_ ?_⟩
  · exact (perm_moved member).append_right _
  · intro other isEmpty
    exact .inl ((nodupEmpty.mem_erase_iff).mp isEmpty)
  · intro other isPartial
    rcases List.mem_cons.mp isPartial with same | before
    · exact .inr ⟨same, used⟩
    · exact .inl ⟨fun same => emptyPartial slab member (same ▸ before), before⟩
  · intro other isFull
    exact .inl ⟨fun same => emptyFull slab member (same ▸ isFull), isFull⟩

theorem full_to_partial (nodup : cache.allSlabs.Nodup) (sorted : cache.Sorted count)
    (member : slab ∈ cache.slabsFull)
    (used : 0 < objects ∧ (objects < cache.slabCapacity ∨ cache.slabCapacity = 1)) :
    Rearranged cache { cache with
      slabsPartial := slab :: cache.slabsPartial, slabsFull := cache.slabsFull.erase slab }
      (Function.update count slab objects) := by
  obtain ⟨-, -, nodupFull, -, emptyFull, partialFull⟩ := allSlabs_nodup.mp nodup
  refine ⟨rfl, rfl, rfl, ?_, sorted.update rfl ?_ ?_ ?_⟩
  · simp only [allSlabs, List.append_assoc, List.cons_append]
    refine List.Perm.append_left _ (List.perm_middle.symm.trans ?_)
    exact (List.perm_cons_erase member).symm.append_left _
  · intro other isEmpty
    exact .inl ⟨fun same => emptyFull other isEmpty (same ▸ member), isEmpty⟩
  · intro other isPartial
    rcases List.mem_cons.mp isPartial with same | before
    · exact .inr ⟨same, used⟩
    · exact .inl ⟨fun same => partialFull other before (same ▸ member), before⟩
  · intro other isFull
    exact .inl ((nodupFull.mem_erase_iff).mp isFull)

theorem full_to_empty (nodup : cache.allSlabs.Nodup) (sorted : cache.Sorted count)
    (member : slab ∈ cache.slabsFull) (unused : objects = 0) :
    Rearranged cache { cache with
      slabsEmpty := slab :: cache.slabsEmpty, slabsFull := cache.slabsFull.erase slab }
      (Function.update count slab objects) := by
  obtain ⟨-, -, nodupFull, -, emptyFull, partialFull⟩ := allSlabs_nodup.mp nodup
  refine ⟨rfl, rfl, rfl, ?_, sorted.update rfl ?_ ?_ ?_⟩
  · simp only [allSlabs, List.cons_append]
    refine List.perm_middle.symm.trans ?_
    exact (List.perm_cons_erase member).symm.append_left _
  · intro other isEmpty
    rcases List.mem_cons.mp isEmpty with same | before
    · exact .inr ⟨same, unused⟩
    · exact .inl ⟨fun same => emptyFull other before (same ▸ member), before⟩
  · intro other isPartial
    exact .inl ⟨fun same => partialFull other isPartial (same ▸ member), isPartial⟩
  · intro other isFull
    exact .inl ((nodupFull.mem_erase_iff).mp isFull)

theorem partial_to_empty (nodup : cache.allSlabs.Nodup) (sorted : cache.Sorted count)
    (member : slab ∈ cache.slabsPartial) (unused : objects = 0) :
    Rearranged cache { cache with
      slabsEmpty := slab :: cache.slabsEmpty, slabsPartial := cache.slabsPartial.erase slab }
      (Function.update count slab objects) := by
  obtain ⟨-, nodupPartial, -, emptyPartial, -, partialFull⟩ := allSlabs_nodup.mp nodup
  refine ⟨rfl, rfl, rfl, ?_, sorted.update rfl ?_ ?_ ?_⟩
  · simp only [allSlabs, List.cons_append]
    refine List.Perm.append_right _ (List.perm_middle.symm.trans ?_)
    exact (List.perm_cons_erase member).symm.append_left _
  · intro other isEmpty
    rcases List.mem_cons.mp isEmpty with same | before
    · exact .inr ⟨same, unused⟩
    · exact .inl ⟨fun same => emptyPartial other before (same ▸ member), before⟩
  · intro other isPartial
    exact .inl ((nodupPartial.mem_erase_iff).mp isPartial)
  · intro other isFull
    exact .inl ⟨fun same => partialFull slab member (same ▸ isFull), isFull⟩

theorem stays (nodup : cache.allSlabs.Nodup) (sorted : cache.Sorted count)
    (member : slab ∈ cache.slabsPartial)
    (used : 0 < objects ∧ (objects < cache.slabCapacity ∨ cache.slabCapacity = 1)) :
    Rearranged cache cache (Function.update count slab objects) := by
  obtain ⟨-, -, -, emptyPartial, -, partialFull⟩ := allSlabs_nodup.mp nodup
  refine ⟨rfl, rfl, rfl, List.Perm.refl _, sorted.update rfl ?_ ?_ ?_⟩
  · intro other isEmpty
    exact .inl ⟨fun same => emptyPartial other isEmpty (same ▸ member), isEmpty⟩
  · intro other isPartial
    by_cases same : other = slab
    · exact .inr ⟨same, used⟩
    · exact .inl ⟨same, isPartial⟩
  · intro other isFull
    exact .inl ⟨fun same => partialFull slab member (same ▸ isFull), isFull⟩

/-- The colour leaves room for the buffers. -/
structure Coloured (cache : KmmCache) : Prop where
  max : cache.colourMax =
    platformPageSize - cache.header - cache.slabCapacity * cache.stride
  next : cache.colourNext = 0 ∨ cache.colourNext < cache.colourMax

theorem Coloured.room (coloured : cache.Coloured) : cache.colourNext = 0 ∨
    cache.colourNext + cache.slabCapacity * cache.stride < platformPageSize - cache.header := by
  have max := coloured.max
  rcases coloured.next with zero | below
  · exact .inl zero
  · exact .inr (by omega)

theorem Coloured.nextColour (coloured : cache.Coloured) : cache.nextColour.Coloured := by
  refine ⟨coloured.max, ?_⟩
  unfold KmmCache.nextColour
  dsimp only
  split
  · exact .inl rfl
  · next below => exact .inr (Nat.lt_of_not_le below)

theorem Coloured.rearranged (coloured : cache.Coloured)
    (rearranged : cache.Rearranged moved count) : moved.Coloured := by
  constructor
  · rw [rearranged.colourMax, rearranged.layout]
    exact coloured.max
  · rw [rearranged.colourMax, rearranged.colourNext]
    exact coloured.next

theorem addNewSlab_layout : (cache.addNewSlab slab).toKmmCacheLayout = cache.toKmmCacheLayout := by
  unfold addNewSlab
  split <;> rfl

theorem Coloured.addNewSlab (coloured : cache.Coloured) : (cache.addNewSlab slab).Coloured := by
  unfold KmmCache.addNewSlab
  split <;> exact ⟨coloured.max, coloured.next⟩

theorem addNewSlab_allSlabs : (cache.addNewSlab slab).allSlabs.Perm (slab :: cache.allSlabs) := by
  unfold addNewSlab allSlabs slistInsert
  split
  · exact List.perm_middle
  · exact (List.perm_middle.append_right _)

/-- A new slab is on the list for the object that is taken from it next. -/
theorem Sorted.addNewSlab (sorted : cache.Sorted count) (fresh : slab ∉ cache.allSlabs)
    (positive : 0 < cache.slabCapacity) :
    (cache.addNewSlab slab).Sorted (Function.update count slab 1) := by
  have apart (other : Nat) (member : other ∈ cache.allSlabs) : other ≠ slab := by
    rintro rfl
    exact fresh member
  apply sorted.update
  · rw [addNewSlab_layout]
  all_goals
    intro other member
    unfold KmmCache.addNewSlab slistInsert at member
    split at member
  · exact .inl ⟨apart other (mem_allSlabs.mpr (.inl member)), member⟩
  · exact .inl ⟨apart other (mem_allSlabs.mpr (.inl member)), member⟩
  · exact .inl ⟨apart other (mem_allSlabs.mpr (.inr (.inl member))), member⟩
  · next several =>
      rcases List.mem_cons.mp member with same | before
      · exact .inr ⟨same, by omega, by omega⟩
      · exact .inl ⟨apart other (mem_allSlabs.mpr (.inr (.inl before))), before⟩
  · next single =>
      rcases List.mem_cons.mp member with same | before
      · exact .inr ⟨same, single.symm⟩
      · exact .inl ⟨apart other (mem_allSlabs.mpr (.inr (.inr before))), before⟩
  · exact .inl ⟨apart other (mem_allSlabs.mpr (.inr (.inr member))), member⟩

/-- A slab whose last object is not its first goes back to the partial ones, and
one that gives up its only object to the empty ones. -/
theorem leaveList_enterList (nodup : cache.allSlabs.Nodup) (sorted : cache.Sorted count)
    (positive : 0 < cache.slabCapacity) (member : slab ∈ cache.allSlabs)
    (used : 0 < count slab) (single : cache.slabCapacity = 1 → slab ∈ cache.slabsFull) :
    ∃ left, leaveList cache slab (count slab) = .ok left ∧
      cache.Rearranged (enterList left slab (count slab))
        (Function.update count slab (count slab - 1)) := by
  by_cases full : count slab = cache.slabCapacity
  · have inFull : slab ∈ cache.slabsFull := by
      rcases mem_allSlabs.mp member with isEmpty | isPartial | isFull
      · have none_ := sorted.inEmpty slab isEmpty
        omega
      · rcases (sorted.inPartial slab isPartial).2 with below | one
        · omega
        · exact single one
      · exact isFull
    refine ⟨{ cache with slabsFull := cache.slabsFull.erase slab }, ?_, ?_⟩
    · simp only [leaveList, if_pos full, slistRemove_eq_ok.mpr ⟨inFull, rfl⟩, Outcome.ok_bind]
    · unfold enterList slistInsert
      by_cases one : count slab = 1
      · rw [if_pos one]
        exact full_to_empty nodup sorted inFull (by omega)
      · rw [if_neg one, if_pos full]
        exact full_to_partial nodup sorted inFull (by omega)
  · have inPartial : slab ∈ cache.slabsPartial := by
      rcases mem_allSlabs.mp member with isEmpty | isPartial | isFull
      · have none_ := sorted.inEmpty slab isEmpty
        omega
      · exact isPartial
      · exact absurd (sorted.inFull slab isFull) full
    have below : count slab < cache.slabCapacity := by
      rcases (sorted.inPartial slab inPartial).2 with below | one
      · exact below
      · exact absurd (sorted.inFull slab (single one)) full
    by_cases last : count slab = 1
    · refine ⟨{ cache with slabsPartial := cache.slabsPartial.erase slab }, ?_, ?_⟩
      · simp only [leaveList, if_neg full, if_pos last,
          kassert_ok (show cache.slabCapacity > 1 by omega),
          slistRemove_eq_ok.mpr ⟨inPartial, rfl⟩, Outcome.ok_bind]
      · unfold enterList slistInsert
        rw [if_pos last]
        exact partial_to_empty nodup sorted inPartial (by omega)
    · refine ⟨cache, ?_, ?_⟩
      · simp only [leaveList, if_neg full, if_neg last]
      · unfold enterList
        rw [if_neg last, if_neg full]
        exact stays nodup sorted inPartial ⟨by omega, .inl (by omega)⟩

end KmmCache

namespace Kmm

/-- The number of objects in use of a slab. -/
def inuse (kmm : Kmm) (slab : Nat) : Nat := (kmm.slab slab).objectsInuse

variable {kmm : Kmm} {ref : KmmCacheRef}

theorem setCache_self : kmm.setCache ref (kmm.cache ref) = kmm := by
  unfold setCache
  rw [Function.update_eq_self]

/-- A slab with a free buffer is found if there is one, and put on its next list. -/
theorem findExistingSlab_cases {cache : KmmCache} (isCache : kmm.cache ref = cache)
    (nodup : cache.allSlabs.Nodup) (sorted : cache.Sorted kmm.inuse)
    (positive : 0 < cache.slabCapacity) (bounded : cache.slabCapacity < addressSpace)
    (unstuck : cache.slabCapacity = 1 → cache.slabsPartial = []) :
    cache.slabsPartial = [] ∧ cache.slabsEmpty = [] ∧
      findExistingSlab kmm ref = .ok (kmm, none) ∨
    ∃ slab moved, findExistingSlab kmm ref = .ok (kmm.setCache ref moved, some slab) ∧
      (slab ∈ cache.slabsPartial ∨ slab ∈ cache.slabsEmpty) ∧
      kmm.inuse slab < cache.slabCapacity ∧
      cache.Rearranged moved (Function.update kmm.inuse slab (kmm.inuse slab + 1)) := by
  unfold findExistingSlab
  dsimp only
  rw [isCache]
  split
  · next slab rest isPartial =>
      have member : slab ∈ cache.slabsPartial := isPartial ▸ List.mem_cons_self ..
      have below : kmm.inuse slab < cache.slabCapacity := by
        rcases (sorted.inPartial slab member).2 with below | one
        · exact below
        · rw [unstuck one] at isPartial
          cases isPartial
      have sum : wrap ((kmm.slab slab).objectsInuse + 1) = kmm.inuse slab + 1 :=
        wrap_of_lt (Nat.lt_of_le_of_lt below bounded)
      right
      rw [sum]
      split
      · next full =>
          rw [slistRemove_eq_ok.mpr ⟨member, rfl⟩]
          exact ⟨slab, _, rfl, .inl member, below, KmmCache.partial_to_full nodup sorted member full⟩
      · next notFull =>
          refine ⟨slab, cache, ?_, .inl member, below, ?_⟩
          · rw [← isCache, setCache_self]
          · exact KmmCache.stays nodup sorted member ⟨Nat.succ_pos _, .inl (by omega)⟩
  · next slab rest noPartial isEmpty =>
      have member : slab ∈ cache.slabsEmpty := isEmpty ▸ List.mem_cons_self ..
      have zero : kmm.inuse slab = 0 := sorted.inEmpty slab member
      right
      rw [slistRemove_eq_ok.mpr ⟨member, rfl⟩]
      refine ⟨slab, _, rfl, .inr member, by omega, ?_⟩
      exact KmmCache.empty_to_partial nodup sorted member ⟨Nat.succ_pos _, by omega⟩
  · next noPartial noEmpty =>
      exact .inl ⟨noPartial, noEmpty, rfl⟩

end Kmm

end Yaeos
