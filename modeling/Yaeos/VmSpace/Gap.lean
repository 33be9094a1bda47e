import Yaeos.Machine.Search
import Yaeos.VmSpace.Run

/-!
# Gaps of an address space (`kernel/mm/vm_space.c`)

`vm_space_find_gap` searches the ranges before the areas and then one range
behind the last area.  The former are the maximal free ranges there; the length
of the latter is computed from the number of directory entries times the size
of a page, plus one, and is not a number of pages.
-/

namespace Yaeos

/-- A base and a length, as a predicate gets them and a search returns them. -/
structure VmRange where
  base : Nat
  len : Nat
  deriving DecidableEq, Repr

/-- `CONF_VM_AVAILABLE_PAGES`. -/
def confVmAvailablePages : Nat := 1022

/-- The range behind the last area. -/
def tailRange (nextAfterLastArea : Nat) : VmRange :=
  let lastAvailableAddr := confVmAvailablePages * platformPageSize
  { base := nextAfterLastArea, len := wrap (wrapSub lastAvailableAddr nextAfterLastArea + 1) }

/-- The loop of `vm_space_find_gap` from an area on, and what comes after it. -/
def findGapFrom {Data : Type} (areas : Nat → VmArea)
    (predicate : VmRange → Data → Bool × Data) : List Nat → Nat → Data → Outcome (VmRange × Data)
  | [], nextAfterLastArea, data =>
      let range := tailRange nextAfterLastArea
      let (hit, data) := predicate range data
      if hit then .ok (range, data) else .ok ({ base := 0, len := 0 }, data)
  | a :: rest, nextAfterLastArea, data => do
      let currentBase := nextAfterLastArea
      let currentLength := wrapSub (areas a).base currentBase
      kassert (checkAlign currentBase platformPageSize)
      kassert (checkAlign currentLength platformPageSize)
      let range : VmRange := { base := currentBase, len := currentLength }
      let (hit, data) := predicate range data
      if hit then .ok (range, data)
      else findGapFrom areas predicate rest (wrap ((areas a).base + (areas a).length)) data

/-- A predicate may change its data; the range is `NULL` and of no length if it
rejects all. -/
def vmSpaceFindGap {Data : Type} (space : VmSpace) (predicate : VmRange → Data → Bool × Data)
    (predData : Data) : Outcome (VmRange × Data) :=
  findGapFrom space.areas predicate space.sortedAreas space.offset predData

/-- `find_largest` of the heap. -/
def findLargest (range : VmRange) (largest : VmRange) : Bool × VmRange :=
  (false, if range.len > largest.len then range else largest)

/-- Where the last of some areas ends. -/
def endOf (areas : Nat → VmArea) (next : Nat) (list : List Nat) : Nat :=
  list.foldl (fun _ a => (areas a).base + (areas a).length) next

/-- The range from an address to an area. -/
def gapAt (areas : Nat → VmArea) (next area : Nat) : VmRange :=
  { base := next, len := (areas area).base - next }

/-- The ranges before the areas, from an address on. -/
def gapsBefore (areas : Nat → VmArea) : Nat → List Nat → List VmRange
  | _, [] => []
  | next, a :: rest =>
      gapAt areas next a :: gapsBefore areas ((areas a).base + (areas a).length) rest

/-- The end of the addresses that are available,
`(I686VM_PD_LAST_VALID_PAGE + 1) << 22` in `vm_arch_is_range_valid`. -/
def pdReserveStart : Nat := 1022 <<< 22

namespace VmSpace

/-- The areas are whole pages, at or above the offset, sorted and disjoint. -/
structure Paged (space : VmSpace) : Prop where
  offsetAligned : platformPageSize ∣ space.offset
  offsetFits : space.offset < addressSpace
  proper : ∀ area ∈ space.sortedAreas, (space.areas area).Proper
  aligned : ∀ area ∈ space.sortedAreas,
    platformPageSize ∣ (space.areas area).base ∧ platformPageSize ∣ (space.areas area).length
  above : ∀ area ∈ space.sortedAreas, space.offset ≤ (space.areas area).base
  apart : space.sortedAreas.Pairwise fun x y => (space.areas x).Before (space.areas y)

instance (space : VmSpace) : Decidable space.Paged :=
  decidable_of_iff
    ((platformPageSize ∣ space.offset ∧ space.offset < addressSpace) ∧
      (∀ area ∈ space.sortedAreas, (space.areas area).Proper ∧
        (platformPageSize ∣ (space.areas area).base ∧
          platformPageSize ∣ (space.areas area).length) ∧
        space.offset ≤ (space.areas area).base) ∧
      space.sortedAreas.Pairwise fun x y =>
        (space.areas x).base + (space.areas x).length ≤ (space.areas y).base)
    ⟨fun ⟨⟨aligned, fits⟩, each, apart⟩ => ⟨aligned, fits, fun area member => (each area member).1,
        fun area member => (each area member).2.1, fun area member => (each area member).2.2, apart⟩,
      fun paged => ⟨⟨paged.offsetAligned, paged.offsetFits⟩, fun area member =>
        ⟨paged.proper area member, paged.aligned area member, paged.above area member⟩,
        paged.apart⟩⟩

/-- An address that is available and in no area. -/
def Free (space : VmSpace) (addr : Nat) : Prop :=
  space.offset ≤ addr ∧ addr < pdReserveStart ∧
    ∀ area ∈ space.sortedAreas, ¬(space.areas area).Contains addr

/-- A free range that no longer one contains. -/
structure MaximalFree (space : VmSpace) (range : VmRange) : Prop where
  nonempty : 0 < range.len
  free : ∀ addr, range.base ≤ addr → addr < range.base + range.len → space.Free addr
  left : ∀ addr, addr + 1 = range.base → ¬space.Free addr
  right : ¬space.Free (range.base + range.len)

/-- What a search should offer: ranges of free pages, and each maximal one up to
the one that is accepted. -/
structure OffersFree (space : VmSpace) (offers : List (VmRange × Bool)) : Prop where
  noWrap : ∀ offer ∈ offers, offer.1.base + offer.1.len ≤ addressSpace
  apart : ∀ offer ∈ offers, ∀ addr, offer.1.base ≤ addr → addr < offer.1.base + offer.1.len →
    ∀ area ∈ space.sortedAreas, ¬(space.areas area).Contains addr
  aligned : ∀ offer ∈ offers, platformPageSize ∣ offer.1.len
  available : ∀ offer ∈ offers,
    space.offset ≤ offer.1.base ∧ offer.1.base + offer.1.len ≤ pdReserveStart
  maximal : ∀ offer ∈ offers, 0 < offer.1.len → space.MaximalFree offer.1
  complete : ∀ range, space.MaximalFree range → (∃ hit, (range, hit) ∈ offers) ∨
    ∃ found, (found, true) ∈ offers ∧ found.base < range.base

variable {space : VmSpace} {areas : Nat → VmArea} {before after : List Nat} {area next : Nat}

@[simp]
theorem endOf_append_singleton (areas : Nat → VmArea) (next : Nat) (before : List Nat) (area : Nat) :
    endOf areas next (before ++ [area]) = (areas area).base + (areas area).length := by
  simp [endOf]

/-- Between the areas before and the areas after an address. -/
structure Frontier (space : VmSpace) (before after : List Nat) (next : Nat) : Prop where
  aligned : platformPageSize ∣ next
  fits : next ≤ addressSpace
  above : space.offset ≤ next
  behind : ∀ area ∈ before, (space.areas area).base + (space.areas area).length ≤ next
  ahead : ∀ area ∈ after, next ≤ (space.areas area).base
  start : next = space.offset ∨
    ∃ area ∈ before, (space.areas area).base + (space.areas area).length = next

theorem Paged.frontier (paged : space.Paged) (split : space.sortedAreas = before ++ after) :
    space.Frontier before after (endOf space.areas space.offset before) := by
  have listed : ∀ area, area ∈ before ∨ area ∈ after → area ∈ space.sortedAreas := by
    intro area member
    rw [split]
    exact List.mem_append.mpr member
  rcases List.eq_nil_or_concat' before with rfl | ⟨init, last, rfl⟩
  · exact ⟨paged.offsetAligned, Nat.le_of_lt paged.offsetFits, Nat.le_refl _, by simp,
      fun area member => paged.above area (listed area (.inr member)), .inl rfl⟩
  · have lastListed : last ∈ space.sortedAreas := listed last (.inl (by simp))
    obtain ⟨baseAligned, lengthAligned⟩ := paged.aligned last lastListed
    have apart := paged.apart
    rw [split] at apart
    obtain ⟨apartBefore, -, across⟩ := List.pairwise_append.mp apart
    obtain ⟨-, -, acrossInit⟩ := List.pairwise_append.mp apartBefore
    rw [endOf_append_singleton]
    refine ⟨Nat.dvd_add baseAligned lengthAligned, (paged.proper last lastListed).2,
      Nat.le_add_right_of_le (paged.above last lastListed), fun area member => ?_,
      fun area member => across last (by simp) area member, .inr ⟨last, by simp, rfl⟩⟩
    rcases List.mem_append.mp member with inInit | isLast
    · have ordered := acrossInit area inInit last (by simp)
      unfold VmArea.Before at ordered
      omega
    · rw [List.mem_singleton.mp isLast]

/-- The search of the code is a search along the gaps and the range behind them. -/
theorem Paged.findGapFrom_eq {Data : Type} (paged : space.Paged)
    (predicate : VmRange → Data → Bool × Data) (data : Data)
    (split : space.sortedAreas = before ++ after) :
    let next := endOf space.areas space.offset before
    let searched := firstHit predicate (gapsBefore space.areas next after ++
      [tailRange (wrap (endOf space.areas next after))]) data
    findGapFrom space.areas predicate after (wrap next) data =
      .ok (searched.1.getD { base := 0, len := 0 }, searched.2) := by
  induction after generalizing before data with
  | nil =>
      intro next searched
      simp only [searched, gapsBefore, List.nil_append, findGapFrom, firstHit, endOf,
        List.foldl_nil]
      split <;> rfl
  | cons area rest inductionHypothesis =>
      intro next searched
      have frontier := paged.frontier split
      have listed : area ∈ space.sortedAreas := by simp [split]
      have ordered : next ≤ (space.areas area).base := frontier.ahead area (by simp)
      have proper := paged.proper area listed
      have baseFits : (space.areas area).base < addressSpace := by
        unfold VmArea.Proper at proper
        omega
      have length : wrapSub (space.areas area).base next = (space.areas area).base - next :=
        wrapSub_of_le ordered baseFits
      have baseChecked := (checkAlign_page (Nat.lt_of_le_of_lt ordered baseFits)).mpr
        frontier.aligned
      have lengthChecked := (checkAlign_page
        (show (space.areas area).base - next < addressSpace by omega)).mpr
          (Nat.dvd_sub (paged.aligned area listed).1 frontier.aligned)
      have restSplit : space.sortedAreas = (before ++ [area]) ++ rest := by simp [split]
      have rest_eq := inductionHypothesis (predicate (gapAt space.areas next area) data).2 restSplit
      rw [endOf_append_singleton] at rest_eq
      simp only [findGapFrom, wrap_of_lt (Nat.lt_of_le_of_lt ordered baseFits), length]
      rw [kassert_ok baseChecked, Outcome.ok_bind, kassert_ok lengthChecked, Outcome.ok_bind]
      simp only [searched, gapsBefore, List.cons_append, firstHit]
      rw [show ({ base := next, len := (space.areas area).base - next } : VmRange) =
        gapAt space.areas next area from rfl]
      split
      · rfl
      · exact rest_eq

theorem Paged.findGap_eq {Data : Type} (paged : space.Paged)
    (predicate : VmRange → Data → Bool × Data) (data : Data) :
    let searched := firstHit predicate (gapsBefore space.areas space.offset space.sortedAreas ++
      [tailRange (wrap (endOf space.areas space.offset space.sortedAreas))]) data
    vmSpaceFindGap space predicate data =
      .ok (searched.1.getD { base := 0, len := 0 }, searched.2) := by
  have start : space.sortedAreas = [] ++ space.sortedAreas := rfl
  have result := paged.findGapFrom_eq predicate data start
  simp only [endOf, List.foldl_nil, wrap_of_lt paged.offsetFits] at result
  exact result

theorem gapsBefore_append (areas : Nat → VmArea) (next : Nat) (first second : List Nat) :
    gapsBefore areas next (first ++ second) =
      gapsBefore areas next first ++ gapsBefore areas (endOf areas next first) second := by
  induction first generalizing next with
  | nil => rfl
  | cons area rest inductionHypothesis =>
      simp only [List.cons_append, gapsBefore, endOf, List.foldl_cons]
      rw [inductionHypothesis]
      rfl

/-- A gap lies between the areas before it and the one it is named for. -/
theorem gapsBefore_split {list : List Nat} {first second : List VmRange} {range : VmRange}
    (split : gapsBefore areas next list = first ++ range :: second) :
    ∃ before area after, list = before ++ area :: after ∧ first = gapsBefore areas next before ∧
      range = gapAt areas (endOf areas next before) area := by
  induction list generalizing next first with
  | nil => simp [gapsBefore] at split
  | cons area rest inductionHypothesis =>
      cases first with
      | nil =>
          simp only [gapsBefore, List.nil_append, List.cons.injEq] at split
          exact ⟨[], area, rest, rfl, rfl, split.1.symm⟩
      | cons head first =>
          simp only [gapsBefore, List.cons_append, List.cons.injEq] at split
          obtain ⟨rfl, split⟩ := split
          obtain ⟨before, last, after, rfl, rfl, rfl⟩ := inductionHypothesis split
          exact ⟨area :: before, last, after, rfl, rfl, rfl⟩

/-- No area has an address of a gap. -/
theorem Paged.gap_apart (paged : space.Paged) (split : space.sortedAreas = before ++ area :: after)
    {addr : Nat} (low : endOf space.areas space.offset before ≤ addr)
    (high : addr < (space.areas area).base) :
    ∀ other ∈ space.sortedAreas, ¬(space.areas other).Contains addr := by
  intro other member ⟨fromBase, toLast⟩
  have frontier := paged.frontier split
  have later := paged.frontier (show space.sortedAreas = (before ++ [area]) ++ after by simp [split])
  rw [endOf_append_singleton] at later
  have positive := (paged.proper other member).1
  rw [split] at member
  rcases List.mem_append.mp member with inBefore | inAfter
  · have ended := frontier.behind other inBefore
    omega
  · rcases List.mem_cons.mp inAfter with rfl | inAfter
    · omega
    · have ordered := later.ahead other inAfter
      omega

/-- A gap that ends below the reserved entries is a free range of whole pages, and
it is maximal. -/
theorem Paged.gap_maximal (paged : space.Paged) (split : space.sortedAreas = before ++ area :: after)
    (available : (space.areas area).base ≤ pdReserveStart) {range : VmRange}
    (gap : range = gapAt space.areas (endOf space.areas space.offset before) area) :
    platformPageSize ∣ range.len ∧ space.offset ≤ range.base ∧
      range.base + range.len = (space.areas area).base ∧
      (0 < range.len → space.MaximalFree range) := by
  have frontier := paged.frontier split
  have listed : area ∈ space.sortedAreas := by simp [split]
  have ordered := frontier.ahead area (by simp)
  have base : range.base = endOf space.areas space.offset before := by
    rw [gap]
    rfl
  have last : range.base + range.len = (space.areas area).base := by
    rw [gap]
    exact Nat.add_sub_cancel' ordered
  refine ⟨?_, base ▸ frontier.above, last, fun nonempty => ⟨nonempty, fun addr low high => ?_,
    fun addr previous free => ?_, fun free => ?_⟩⟩
  · rw [gap]
    exact Nat.dvd_sub (paged.aligned area listed).1 frontier.aligned
  · rw [base] at low
    rw [last] at high
    exact ⟨Nat.le_trans frontier.above low, Nat.lt_of_lt_of_le high available,
      paged.gap_apart split low high⟩
  · obtain ⟨above, -, outside⟩ := free
    rw [base] at previous
    rcases frontier.start with isOffset | ⟨neighbour, member, ends⟩
    · omega
    · have neighbourListed : neighbour ∈ space.sortedAreas := by simp [split, member]
      apply outside neighbour neighbourListed
      have positive := (paged.proper neighbour neighbourListed).1
      unfold VmArea.Contains
      omega
  · rw [last] at free
    apply free.2.2 area listed
    have positive := (paged.proper area listed).1
    unfold VmArea.Contains
    omega

/-- The maximal free ranges before an area are among the gaps. -/
theorem Paged.maximal_gap (paged : space.Paged) {range : VmRange} (maximal : space.MaximalFree range)
    {middle : List Nat} (split : space.sortedAreas = before ++ middle ++ after)
    (available : ∀ area ∈ middle, (space.areas area).base ≤ pdReserveStart)
    (low : endOf space.areas space.offset before ≤ range.base) :
    range ∈ gapsBefore space.areas (endOf space.areas space.offset before) middle ∨
      endOf space.areas space.offset (before ++ middle) ≤ range.base := by
  induction middle generalizing before with
  | nil => exact .inr (by simpa using low)
  | cons area rest inductionHypothesis =>
      have splitHere : space.sortedAreas = before ++ area :: (rest ++ after) := by simp [split]
      have listed : area ∈ space.sortedAreas := by simp [splitHere]
      have frontier := paged.frontier splitHere
      have nonempty := maximal.nonempty
      have baseFree := maximal.free range.base (Nat.le_refl _) (by omega)
      by_cases inGap : range.base < (space.areas area).base
      · left
        have first : range.base = endOf space.areas space.offset before := by
          by_contra later
          have above := frontier.above
          apply maximal.left (range.base - 1) (by omega)
          exact ⟨by omega, by have := baseFree.2.1; omega,
            paged.gap_apart splitHere (by omega) (by omega)⟩
        have last : range.base + range.len = (space.areas area).base := by
          have positive := (paged.proper area listed).1
          rcases Nat.lt_trichotomy (range.base + range.len) (space.areas area).base with
            short | exact | long
          · have above := frontier.above
            have below := available area (by simp)
            exact absurd ⟨by omega, by omega, paged.gap_apart splitHere (by omega) short⟩
              maximal.right
          · exact exact
          · refine absurd ?_ ((maximal.free (space.areas area).base (by omega) long).2.2 area listed)
            unfold VmArea.Contains
            omega
        have isGap : range = gapAt space.areas (endOf space.areas space.offset before) area := by
          cases range
          simp only [gapAt, VmRange.mk.injEq] at first last ⊢
          omega
        rw [isGap, gapsBefore]
        exact List.mem_cons_self ..
      · have behind : (space.areas area).base + (space.areas area).length ≤ range.base := by
          by_contra inside
          apply baseFree.2.2 area listed
          unfold VmArea.Contains
          omega
        have restSplit : space.sortedAreas = (before ++ [area]) ++ rest ++ after := by simp [split]
        rcases inductionHypothesis restSplit
          (fun other member => available other (List.mem_cons_of_mem _ member))
          (by simpa using behind) with inRest | beyond
        · left
          rw [endOf_append_singleton] at inRest
          exact List.mem_cons_of_mem _ inRest
        · right
          simpa using beyond

/-- The range behind the last area is one byte longer than a number of pages. -/
theorem tailRange_misaligned (aligned : platformPageSize ∣ next) :
    ¬platformPageSize ∣ (tailRange (wrap next)).len := by
  simp only [tailRange]
  unfold wrapSub wrap addressSpace confVmAvailablePages platformPageSize at *
  omega

theorem Paged.offersFree_gaps (paged : space.Paged) {first second : List VmRange} {found : VmRange}
    (split : gapsBefore space.areas space.offset space.sortedAreas = first ++ found :: second)
    (available : found.base + found.len ≤ pdReserveStart) :
    space.OffersFree (first.map (fun range => (range, false)) ++ [(found, true)]) := by
  obtain ⟨before, area, after, areasSplit, rfl, isFound⟩ := gapsBefore_split split
  have frontier := paged.frontier areasSplit
  have ordered := frontier.ahead area (by simp)
  have areaAvailable : (space.areas area).base ≤ pdReserveStart := by
    rw [isFound] at available
    simp only [gapAt] at available
    omega
  have offered : ∀ offer ∈ (gapsBefore space.areas space.offset before).map
      (fun range => (range, false)) ++ [(found, true)],
      ∃ init last rest, space.sortedAreas = init ++ last :: rest ∧
        (space.areas last).base ≤ pdReserveStart ∧
        offer.1 = gapAt space.areas (endOf space.areas space.offset init) last := by
    intro offer member
    rcases List.mem_append.mp member with earlier | isLast
    · obtain ⟨range, inGaps, rfl⟩ := List.mem_map.mp earlier
      obtain ⟨one, two, gaps⟩ := List.append_of_mem inGaps
      obtain ⟨init, last, rest, rfl, -, isGap⟩ := gapsBefore_split gaps
      have behind := frontier.behind last (by simp)
      exact ⟨init, last, rest ++ area :: after, by simp [areasSplit], by omega, isGap⟩
    · rw [List.mem_singleton.mp isLast]
      exact ⟨before, area, after, areasSplit, areaAvailable, isFound⟩
  have inAddressSpace : pdReserveStart ≤ addressSpace := by decide
  refine ⟨fun offer member => ?_, fun offer member addr low high => ?_, fun offer member => ?_,
    fun offer member => ?_, fun offer member => ?_, fun range maximal => ?_⟩
  · obtain ⟨init, last, rest, here, below, isGap⟩ := offered offer member
    obtain ⟨-, -, ends, -⟩ := paged.gap_maximal here below isGap
    omega
  · obtain ⟨init, last, rest, here, below, isGap⟩ := offered offer member
    obtain ⟨-, -, ends, -⟩ := paged.gap_maximal here below isGap
    rw [ends] at high
    rw [isGap] at low
    exact paged.gap_apart here low high
  · obtain ⟨init, last, rest, here, below, isGap⟩ := offered offer member
    exact (paged.gap_maximal here below isGap).1
  · obtain ⟨init, last, rest, here, below, isGap⟩ := offered offer member
    obtain ⟨-, above, ends, -⟩ := paged.gap_maximal here below isGap
    exact ⟨above, by omega⟩
  · obtain ⟨init, last, rest, here, below, isGap⟩ := offered offer member
    exact (paged.gap_maximal here below isGap).2.2.2
  · have baseFree := maximal.free range.base (Nat.le_refl _) (by have := maximal.nonempty; omega)
    have here : space.sortedAreas = [] ++ (before ++ [area]) ++ after := by simp [areasSplit]
    have below : ∀ other ∈ before ++ [area], (space.areas other).base ≤ pdReserveStart := by
      intro other member
      rcases List.mem_append.mp member with inBefore | isLast
      · have behind := frontier.behind other inBefore
        omega
      · rw [List.mem_singleton.mp isLast]
        exact areaAvailable
    rcases paged.maximal_gap maximal here below baseFree.1 with isGap | beyond
    · left
      rw [gapsBefore_append, List.mem_append] at isGap
      rcases isGap with earlier | isLast
      · exact ⟨false, List.mem_append_left _ (List.mem_map.mpr ⟨range, earlier, rfl⟩)⟩
      · refine ⟨true, List.mem_append_right _ (List.mem_singleton.mpr ?_)⟩
        rw [isFound, List.mem_singleton.mp isLast]
        rfl
    · right
      refine ⟨found, by simp, ?_⟩
      have positive := (paged.proper area (by simp [areasSplit])).1
      rw [List.nil_append, endOf_append_singleton] at beyond
      rw [isFound]
      simp only [gapAt]
      omega

/-- A search offers free ranges, the maximal ones in order, if and only if it ends at a gap
before an area: the range it offers behind the last area is always a wrong one. -/
theorem findGap_offersFree_iff {Data : Type} (paged : space.Paged)
    (predicate : VmRange → Data → Bool × Data) (data : Data) :
    ∃ range dataAfter offers,
      vmSpaceFindGap space predicate data = .ok (range, dataAfter) ∧
      vmSpaceFindGap space (logged predicate) (data, []) = .ok (range, dataAfter, offers) ∧
      (space.OffersFree offers ↔
        ∃ gap, (firstHit predicate
            (gapsBefore space.areas space.offset space.sortedAreas) data).1 = some gap ∧
          gap.base + gap.len ≤ pdReserveStart) := by
  have plain := paged.findGap_eq predicate data
  have withLog := paged.findGap_eq (logged predicate) (data, [])
  rw [firstHit_append] at plain withLog
  rcases searched : firstHit predicate (gapsBefore space.areas space.offset space.sortedAreas) data
    with ⟨_ | gap, dataAfter⟩
  · have missed : (firstHit predicate
        (gapsBefore space.areas space.offset space.sortedAreas) data).1 = none := by rw [searched]
    rw [firstHit_logged_none [] missed, searched] at withLog
    rw [searched] at plain
    let tail := tailRange (wrap (endOf space.areas space.offset space.sortedAreas))
    have all : space.sortedAreas = space.sortedAreas ++ [] := by simp
    have whole := paged.frontier all
    have notFree : ∀ log hit, ¬space.OffersFree (log ++ [(tail, hit)]) := fun log hit offersFree =>
      tailRange_misaligned whole.aligned (offersFree.aligned (tail, hit) (by simp))
    rcases answer : predicate tail dataAfter with ⟨hit, dataLast⟩
    simp only [firstHit, logged, tail, answer] at plain withLog
    cases hit with
    | false => exact ⟨_, _, _, plain, withLog, iff_of_false (notFree _ _) (by simp)⟩
    | true => exact ⟨_, _, _, plain, withLog, iff_of_false (notFree _ _) (by simp)⟩
  · have hit : (firstHit predicate
        (gapsBefore space.areas space.offset space.sortedAreas) data).1 = some gap := by rw [searched]
    obtain ⟨before, after, split, offered⟩ := firstHit_logged_some [] hit
    rw [offered, searched] at withLog
    rw [searched] at plain
    refine ⟨_, _, _, plain, withLog, fun offersFree => ⟨gap, rfl, ?_⟩, ?_⟩
    · exact (offersFree.available (gap, true) (by simp)).2
    · rintro ⟨_, same, available⟩
      cases same
      simpa using paged.offersFree_gaps split available

/-- The space of the kernel before the heap has a chunk. -/
def kernelSpace : VmSpace := vmSpaceInit noAreas 0xC0000000

theorem kernelSpace_paged : kernelSpace.Paged :=
  ⟨by decide, by decide, nofun, nofun, nofun, .nil⟩

/-- The heap looks for the largest gap and is offered a range across the last address. -/
theorem kernelSpace_offers : kernelSpace.Paged ∧
    vmSpaceFindGap kernelSpace (logged findLargest) ({ base := 0, len := 0 }, []) =
      .ok ({ base := 0, len := 0 }, { base := 0xC0000000, len := 0x403FE001 },
        [({ base := 0xC0000000, len := 0x403FE001 }, false)]) ∧
    ¬kernelSpace.OffersFree [({ base := 0xC0000000, len := 0x403FE001 }, false)] := by
  refine ⟨kernelSpace_paged, by decide +kernel, fun offersFree => ?_⟩
  exact absurd (offersFree.noWrap _ (List.mem_cons_self ..)) (by decide)

/-- One page, two pages above the start of the space. -/
def onePageSpace : VmSpace :=
  { noAreas with offset := 4096, sortedAreas := [1], areas := fun _ => ⟨12288, 4096⟩ }

theorem onePageSpace_paged : onePageSpace.Paged :=
  ⟨by decide, by decide, by decide, by decide, by decide, List.pairwise_singleton ..⟩

/-- The gap before the page is offered first. -/
theorem onePageSpace_offers : ∃ range dataAfter offers,
    vmSpaceFindGap onePageSpace (logged fun _ data => (true, data)) ((), []) =
      .ok (range, dataAfter, offers) ∧ onePageSpace.OffersFree offers := by
  obtain ⟨range, dataAfter, offers, -, searched, free⟩ :=
    findGap_offersFree_iff onePageSpace_paged (fun _ data => (true, data)) ()
  exact ⟨range, dataAfter, offers, searched, free.mpr ⟨_, rfl, by decide⟩⟩

end VmSpace

end Yaeos
