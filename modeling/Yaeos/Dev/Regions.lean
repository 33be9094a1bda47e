import Yaeos.Dev.Basic
import Yaeos.Machine.Loop
import Mathlib.Algebra.BigOperators.Group.List.Basic
import Mathlib.Data.List.Chain
import Mathlib.Data.List.Perm.Subperm

/-!
# The regions of a device area

Regions tile the area with whole pages: this is `DevArea.Laid`, and it is kept where a
region is cut in two and where two neighbours are merged.  In a `DevArea.Ok` area no two
free ones are neighbours, and a page is mapped when its region is not free.
-/

namespace Yaeos

/-- Regions, one behind the other, from an address to another. -/
def Tiles (regions : Nat → Region) : Nat → List Nat → Nat → Prop
  | base, [], stop => base = stop
  | base, cell :: rest, stop =>
      (regions cell).pageVaddr = base ∧ Tiles regions (base + (regions cell).length) rest stop

section Tiles

variable {regions regions' : Nat → Region} {base stop : Nat} {cells before after : List Nat}

theorem tiles_append : Tiles regions base (before ++ after) stop ↔
    ∃ middle, Tiles regions base before middle ∧ Tiles regions middle after stop := by
  induction before generalizing base with
  | nil => simp [Tiles]
  | cons cell rest inductionHypothesis =>
      simp only [List.cons_append, Tiles, inductionHypothesis]
      constructor
      · rintro ⟨first, middle, left, right⟩
        exact ⟨middle, ⟨first, left⟩, right⟩
      · rintro ⟨middle, ⟨first, left⟩, right⟩
        exact ⟨first, middle, left, right⟩

theorem Tiles.congr (tiles : Tiles regions base cells stop)
    (same : ∀ cell ∈ cells, (regions' cell).pageVaddr = (regions cell).pageVaddr ∧
      (regions' cell).length = (regions cell).length) : Tiles regions' base cells stop := by
  induction cells generalizing base with
  | nil => exact tiles
  | cons cell rest inductionHypothesis =>
      obtain ⟨first, tail⟩ := tiles
      obtain ⟨samePage, sameLength⟩ := same cell List.mem_cons_self
      refine ⟨samePage.trans first, ?_⟩
      rw [sameLength]
      exact inductionHypothesis tail fun other member => same other (List.mem_cons_of_mem _ member)

theorem Tiles.sum (tiles : Tiles regions base cells stop) :
    base + (cells.map fun cell => (regions cell).length).sum = stop := by
  induction cells generalizing base with
  | nil => exact tiles
  | cons cell rest inductionHypothesis =>
      rw [List.map_cons, List.sum_cons, ← Nat.add_assoc]
      exact inductionHypothesis tiles.2

theorem Tiles.bounds (tiles : Tiles regions base cells stop) :
    base ≤ stop ∧ ∀ cell ∈ cells, base ≤ (regions cell).pageVaddr ∧
      (regions cell).pageVaddr + (regions cell).length ≤ stop := by
  induction cells generalizing base with
  | nil => exact ⟨Nat.le_of_eq tiles, nofun⟩
  | cons cell rest inductionHypothesis =>
      obtain ⟨first, tail⟩ := tiles
      obtain ⟨ordered, inside⟩ := inductionHypothesis tail
      refine ⟨by omega, fun other member => ?_⟩
      rcases List.mem_cons.mp member with rfl | inRest
      · omega
      · have bounded := inside other inRest
        omega

theorem Tiles.aligned (tiles : Tiles regions base cells stop)
    (baseAligned : platformPageSize ∣ base) (whole : ∀ cell ∈ cells, platformPageSize ∣ (regions cell).length) :
    ∀ cell ∈ cells, platformPageSize ∣ (regions cell).pageVaddr := by
  induction cells generalizing base with
  | nil => exact nofun
  | cons cell rest inductionHypothesis =>
      obtain ⟨first, tail⟩ := tiles
      intro other member
      rcases List.mem_cons.mp member with rfl | inRest
      · exact first ▸ baseAligned
      · exact inductionHypothesis tail (Nat.dvd_add baseAligned (whole cell List.mem_cons_self))
          (fun later inLater => whole later (List.mem_cons_of_mem _ inLater)) other inRest

/-- The regions around a region. -/
theorem Tiles.around {cell : Nat} (tiles : Tiles regions base (before ++ cell :: after) stop) :
    (∀ other ∈ before,
      (regions other).pageVaddr + (regions other).length ≤ (regions cell).pageVaddr) ∧
    ∀ other ∈ after,
      (regions cell).pageVaddr + (regions cell).length ≤ (regions other).pageVaddr := by
  obtain ⟨middle, left, first, right⟩ := tiles_append.mp tiles
  refine ⟨fun other member => ?_, fun other member => ?_⟩
  · have bounded := left.bounds.2 other member
    omega
  · have bounded := right.bounds.2 other member
    omega

/-- A region ends where the next one starts. -/
theorem Tiles.adjacent {left right : Nat}
    (tiles : Tiles regions base (before ++ left :: right :: after) stop) :
    (regions right).pageVaddr = (regions left).pageVaddr + (regions left).length := by
  obtain ⟨middle, -, first, second, -⟩ := tiles_append.mp tiles
  rw [second, first]

end Tiles

/-- A translation that was changed in a range of pages, where a property holds now. -/
structure ChangedIn (translation next : Translation) (first pages : Nat)
    (Holds : Nat → Option Nat → Prop) : Prop where
  inside : ∀ page, first ≤ page → page < first + pages → Holds page (next page)
  outside : ∀ page, page < first ∨ first + pages ≤ page → next page = translation page

/-- The frame of a page that `register_resource` maps. -/
def FrameOf (pbase first page : Nat) (frame : Option Nat) : Prop :=
  frame = some (wrap (pbase + (page - first) * platformPageSize) / platformPageSize)

section Loops

variable {translation next : Translation} {first pages pbase : Nat}
  {Holds : Nat → Option Nat → Prop}

theorem changedIn_zero : ChangedIn translation translation first 0 Holds :=
  ⟨fun page low high => by omega, fun _ _ => rfl⟩

theorem ChangedIn.update {index : Nat} (changed : ChangedIn translation next first index Holds)
    {value : Option Nat} (holds : Holds (first + index) value) :
    ChangedIn translation (Function.update next (first + index) value) first (index + 1) Holds := by
  refine ⟨fun page low high => ?_, fun page beyond => ?_⟩
  · by_cases isLast : page = first + index
    · rw [isLast, Function.update_self]
      exact holds
    · rw [Function.update_of_ne isLast]
      exact changed.inside page low (by omega)
  · rw [Function.update_of_ne (by omega)]
    exact changed.outside page (by omega)

theorem page_of_round (fits : (first + pages) * platformPageSize ≤ addressSpace) {index : Nat}
    (below : index < pages) :
    wrap (first * platformPageSize + index * platformPageSize) / platformPageSize =
      first + index := by
  unfold wrap platformPageSize addressSpace at *
  omega

/-- The loop of `register_resource`. -/
theorem mapPages (pbase : Nat) (fits : (first + pages) * platformPageSize ≤ addressSpace)
    (unmapped : ∀ page, first ≤ page → page < first + pages → translation page = none) :
    ∃ next, (List.range pages).foldlM (fun translation i =>
        ptMap translation (wrap (pbase + i * platformPageSize))
          (wrap (first * platformPageSize + i * platformPageSize))) translation = .ok next ∧
      ChangedIn translation next first pages (FrameOf pbase first) := by
  have round : ∀ index < pages, ∀ state,
      ChangedIn translation state first index (FrameOf pbase first) →
      ∃ next, ptMap state (wrap (pbase + index * platformPageSize))
          (wrap (first * platformPageSize + index * platformPageSize)) = .ok next ∧
        ChangedIn translation next first (index + 1) (FrameOf pbase first) := by
    intro index below state changed
    have same := page_of_round fits below
    have free : state (first + index) = none := by
      rw [changed.outside _ (by omega)]
      exact unmapped _ (by omega) (by omega)
    refine ⟨_, by rw [ptMap, same, kassert_ok free, Outcome.ok_bind], changed.update ?_⟩
    rw [FrameOf, Nat.add_sub_cancel_left]
  exact Loop.range_ok (fun index state => ChangedIn translation state first index _)
    changedIn_zero round

/-- The pages that the loop of `register_resource` has mapped were not mapped before. -/
theorem mapPages_of_ok (fits : (first + pages) * platformPageSize ≤ addressSpace)
    (returned : (List.range pages).foldlM (fun translation i =>
      ptMap translation (wrap (pbase + i * platformPageSize))
        (wrap (first * platformPageSize + i * platformPageSize))) translation = .ok next) :
    ChangedIn translation next first pages (FrameOf pbase first) ∧
      ∀ page, first ≤ page → page < first + pages → translation page = none := by
  refine Loop.range_of_ok (fun index state =>
    ChangedIn translation state first index (FrameOf pbase first) ∧
      ∀ page, first ≤ page → page < first + index → translation page = none) returned
    ⟨changedIn_zero, fun page low high => by omega⟩ ?_
  rintro index below state after ⟨changed, unmapped⟩ mapped
  obtain ⟨_, checked, result⟩ := Outcome.bind_eq_ok.mp mapped
  cases result
  have free := kassert_eq_ok.mp checked
  rw [page_of_round fits below] at free ⊢
  refine ⟨changed.update (by rw [FrameOf, Nat.add_sub_cancel_left]), fun page low high => ?_⟩
  by_cases isLast : page = first + index
  · rw [← changed.outside page (by omega), isLast]
    exact free
  · exact unmapped page low (by omega)

/-- The loop of `unregister_resource` over pages that are mapped. -/
theorem unmapPages (fits : (first + pages) * platformPageSize ≤ addressSpace)
    (mapped : ∀ page, first ≤ page → page < first + pages → (translation page).isSome = true) :
    ∃ next, (List.range pages).foldlM (fun translation i =>
        ptUnmap translation (wrap (first * platformPageSize + i * platformPageSize)))
          translation = .ok next ∧
      ChangedIn translation next first pages fun _ frame => frame = none := by
  have round : ∀ index < pages, ∀ state,
      ChangedIn translation state first index (fun _ frame => frame = none) →
      ∃ next, ptUnmap state (wrap (first * platformPageSize + index * platformPageSize)) =
          .ok next ∧
        ChangedIn translation next first (index + 1) fun _ frame => frame = none := by
    intro index below state changed
    have same := page_of_round fits below
    have present : state (first + index) ≠ none := by
      rw [changed.outside _ (by omega)]
      exact Option.isSome_iff_ne_none.mp (mapped _ (by omega) (by omega))
    exact ⟨_, by rw [ptUnmap, same, kassert_ok present, Outcome.ok_bind], changed.update rfl⟩
  exact Loop.range_ok (fun index state => ChangedIn translation state first index _)
    changedIn_zero round

/-- The pages that the loop of `unregister_resource` has unmapped were mapped before. -/
theorem unmapPages_of_ok (fits : (first + pages) * platformPageSize ≤ addressSpace)
    (returned : (List.range pages).foldlM (fun translation i =>
      ptUnmap translation (wrap (first * platformPageSize + i * platformPageSize))) translation =
        .ok next) :
    ChangedIn translation next first pages (fun _ frame => frame = none) ∧
      ∀ page, first ≤ page → page < first + pages → translation page ≠ none := by
  refine Loop.range_of_ok (fun index state =>
    ChangedIn translation state first index (fun _ frame => frame = none) ∧
      ∀ page, first ≤ page → page < first + index → translation page ≠ none) returned
    ⟨changedIn_zero, fun page low high => by omega⟩ ?_
  rintro index below state after ⟨changed, mapped⟩ unmapped
  obtain ⟨_, checked, result⟩ := Outcome.bind_eq_ok.mp unmapped
  cases result
  have present := kassert_eq_ok.mp checked
  rw [page_of_round fits below] at present ⊢
  refine ⟨changed.update rfl, fun page low high => ?_⟩
  by_cases isLast : page = first + index
  · rw [← changed.outside page (by omega), isLast]
    exact present
  · exact mapped page low (by omega)

end Loops

namespace DevArea

/-- The listed cells tile the area with whole pages. -/
structure Laid (area : DevArea) (cells : List Nat) : Prop where
  listed : area.links.Listed (some area.data) cells
  nodup : cells.Nodup
  tiles : Tiles area.regions area.base cells (area.base + area.length)
  baseAligned : platformPageSize ∣ area.base
  whole : ∀ cell ∈ cells, platformPageSize ∣ (area.regions cell).length
  inside : area.base + area.length ≤ addressSpace
  lengthFits : area.length < addressSpace

/-- The regions have addresses, and their cells are in use. -/
structure Tiled (area : DevArea) (cells : List Nat) : Prop extends Laid area cells where
  positive : ∀ cell ∈ cells, 0 < (area.regions cell).length
  live : ∀ cell ∈ cells, cell ∈ area.live
  liveNodup : area.live.Nodup

/-- No two neighbours are free. -/
def Separated (area : DevArea) (cells : List Nat) : Prop :=
  (cells.map area.isFree).IsChain fun left right => (left && right) = false

/-- The pages of a region are mapped unless it is free. -/
def Shows (area : DevArea) (cells : List Nat) (translation : Translation) : Prop :=
  ∀ cell ∈ cells, ∀ page, (area.regions cell).pageVaddr ≤ page * platformPageSize →
    page * platformPageSize < (area.regions cell).pageVaddr + (area.regions cell).length →
    (translation page).isSome = !area.isFree cell

structure Ok (area : DevArea) (cells : List Nat) : Prop where
  tiled : area.Tiled cells
  separated : area.Separated cells
  mapped : area.Shows cells area.translation

variable {area next : DevArea} {cells before after : List Nat} {r len rounds : Nat}
  {translation : Translation}

/-- Every page of an occupied region is mapped. -/
theorem Shows.occupied (shown : area.Shows cells translation) (listed : r ∈ cells)
    (occupied : area.isFree r = false) {first pages : Nat}
    (atFirst : (area.regions r).pageVaddr = first * platformPageSize)
    (ofPages : (area.regions r).length = pages * platformPageSize) :
    ∀ page, first ≤ page → page < first + pages → (translation page).isSome = true := by
  intro page low high
  have inRegion := shown r listed page
  rw [occupied, atFirst, ofPages, ← Nat.add_mul] at inRegion
  exact inRegion (Nat.mul_le_mul_right _ low) (Nat.mul_lt_mul_of_pos_right high (by decide))

/-- A region is listed once. -/
theorem ne_of_listed (nodup : (before ++ r :: after).Nodup) :
    ∀ other ∈ before ++ after, other ≠ r := by
  rintro other member rfl
  exact (List.nodup_cons.mp (List.nodup_middle.mp nodup)).1 member

theorem mem_listed_iff {other : Nat} :
    other ∈ before ++ r :: after ↔ other = r ∨ other ∈ before ++ after :=
  List.perm_middle.mem_iff.trans List.mem_cons

theorem mem_pair_iff {left right other : Nat} :
    other ∈ before ++ left :: right :: after ↔ other = right ∨ other ∈ before ++ left :: after := by
  rw [show before ++ left :: right :: after = (before ++ [left]) ++ right :: after by simp,
    mem_listed_iff, ← List.append_cons]

theorem mem_extended {extra : List Nat} {other : Nat} (member : other ∈ before ++ after) :
    other ∈ before ++ (extra ++ after) :=
  (List.Sublist.append_left (List.sublist_append_right extra after) before).mem member

/-- The resource words and the translation are not part of the tiling. -/
theorem Laid.congr (laid : area.Laid cells) (base : next.base = area.base)
    (length : next.length = area.length) (data : next.data = area.data)
    (links : next.links = area.links)
    (same : ∀ cell ∈ cells, (next.regions cell).pageVaddr = (area.regions cell).pageVaddr ∧
      (next.regions cell).length = (area.regions cell).length) : next.Laid cells := by
  refine ⟨?_, laid.nodup, ?_, base ▸ laid.baseAligned, fun cell member => ?_, ?_,
    length ▸ laid.lengthFits⟩
  · rw [data, links]
    exact laid.listed
  · rw [base, length]
    exact laid.tiles.congr same
  · rw [(same cell member).2]
    exact laid.whole cell member
  · rw [base, length]
    exact laid.inside

theorem Laid.setState (laid : area.Laid cells) (r state : Nat) :
    (area.setState r state).Laid cells :=
  laid.congr rfl rfl rfl rfl fun _ _ => ⟨setState_pageVaddr .., setState_length ..⟩

theorem Laid.aligned (laid : area.Laid cells) :
    ∀ cell ∈ cells, platformPageSize ∣ (area.regions cell).pageVaddr :=
  laid.tiles.aligned laid.baseAligned laid.whole

theorem Tiled.length_le (tiled : area.Tiled cells) : cells.length ≤ area.live.length :=
  (tiled.nodup.subperm tiled.live).length_le

/-- The pages of a region. -/
theorem Laid.pages (laid : area.Laid cells) (member : r ∈ cells) :
    ∃ first pages, (area.regions r).pageVaddr = first * platformPageSize ∧
      (area.regions r).length = pages * platformPageSize ∧
      (first + pages) * platformPageSize ≤ addressSpace := by
  obtain ⟨first, atFirst⟩ := laid.aligned r member
  obtain ⟨pages, ofPages⟩ := laid.whole r member
  obtain ⟨-, below⟩ := laid.tiles.bounds.2 r member
  have inside := laid.inside
  refine ⟨first, pages, by rw [atFirst, Nat.mul_comm], by rw [ofPages, Nat.mul_comm], ?_⟩
  rw [Nat.add_mul, Nat.mul_comm first, Nat.mul_comm pages, ← atFirst, ← ofPages]
  omega

/-- A change of the pages of one region is not seen in the others. -/
theorem Laid.outside (laid : area.Laid (before ++ r :: after)) {first pages count : Nat}
    (atFirst : (area.regions r).pageVaddr = first * platformPageSize)
    (ofPages : (area.regions r).length = pages * platformPageSize) (fewer : count ≤ pages)
    {old : Translation} {Holds : Nat → Option Nat → Prop}
    (changed : ChangedIn old translation first count Holds) {other page : Nat}
    (member : other ∈ before ++ after)
    (low : (area.regions other).pageVaddr ≤ page * platformPageSize)
    (high : page * platformPageSize <
      (area.regions other).pageVaddr + (area.regions other).length) :
    translation page = old page := by
  apply changed.outside
  obtain ⟨left, right⟩ := laid.tiles.around
  rcases List.mem_append.mp member with inBefore | inAfter
  · have apart := left other inBefore
    rw [atFirst] at apart
    unfold platformPageSize at apart high
    omega
  · have apart := right other inAfter
    rw [atFirst, ofPages] at apart
    unfold platformPageSize at apart low
    omega

/-- The region that `new_region` returns, and the one that it cuts off. -/
def split (area : DevArea) (r new len : Nat) : DevArea :=
  { area with
    live := new :: area.live, links := (area.links.init new).insert r new
    regions := Function.update (Function.update area.regions new
      { pageVaddr := wrap ((area.regions r).pageVaddr + len)
        length := (area.regions r).length - len
        resource := writeState (area.regions new).resource regionResStateFree }) r
      { pageVaddr := (area.regions r).pageVaddr, length := len
        resource := writeState (area.regions r).resource regionResStateUnknown } }

theorem takeRegion_split {new : Nat} (apart : new ≠ r) (longer : (area.regions r).length > len) :
    takeRegion area (some new) len r = (area.split r new len, some r) := by
  rw [takeRegion, if_pos longer]
  simp [setRegion, setState, split, Function.update_of_ne (Ne.symm apart),
    Function.update_comm apart]

theorem takeRegion_whole {cell : Option Nat} (exact : ¬(area.regions r).length > len) :
    takeRegion area cell len r = (area.setState r regionResStateUnknown, some r) := if_neg exact

section Split

variable {new : Nat}

@[simp]
theorem split_self : (area.split r new len).regions r =
    { pageVaddr := (area.regions r).pageVaddr, length := len
      resource := writeState (area.regions r).resource regionResStateUnknown } :=
  Function.update_self ..

theorem split_new (apart : new ≠ r) : (area.split r new len).regions new =
    { pageVaddr := wrap ((area.regions r).pageVaddr + len), length := (area.regions r).length - len
      resource := writeState (area.regions new).resource regionResStateFree } := by
  rw [split]
  dsimp only
  rw [Function.update_of_ne apart, Function.update_self]

theorem split_of_ne {other : Nat} (notR : other ≠ r) (notNew : other ≠ new) :
    (area.split r new len).regions other = area.regions other := by
  rw [split]
  dsimp only
  rw [Function.update_of_ne notR, Function.update_of_ne notNew]

theorem isFree_split_new (apart : new ≠ r) : (area.split r new len).isFree new = true := by
  rw [isFree, split_new apart, resourceState_writeState _ (by decide)]
  rfl

/-- A region is cut in two. -/
theorem Laid.split (laid : area.Laid (before ++ r :: after)) (fresh : new ∉ before ++ r :: after)
    (shorter : len ≤ (area.regions r).length) (whole : platformPageSize ∣ len)
    (below : (area.regions r).pageVaddr + len < addressSpace) :
    (area.split r new len).Laid (before ++ r :: new :: after) := by
  have notR : new ≠ r := fun same => fresh (by simp [same])
  have others : ∀ cell ∈ before ++ after,
      (area.split r new len).regions cell = area.regions cell := by
    intro cell member
    refine split_of_ne (ne_of_listed laid.nodup cell member) fun same => fresh ?_
    rw [← same]
    exact mem_listed_iff.mpr (.inr member)
  have kept : ∀ cell ∈ before ++ after,
      ((area.split r new len).regions cell).pageVaddr = (area.regions cell).pageVaddr ∧
        ((area.split r new len).regions cell).length = (area.regions cell).length := by
    intro cell member
    rw [others cell member]
    exact ⟨rfl, rfl⟩
  refine ⟨?_, ?_, ?_, laid.baseAligned, fun cell member => ?_, laid.inside, laid.lengthFits⟩
  · refine SlistLinks.Listed.insertBehind (laid.listed.congr fun member inList => ?_) fresh
    exact SlistLinks.init_of_ne fun same => fresh (same ▸ inList)
  · have rearranged : (before ++ r :: new :: after).Perm (new :: (before ++ r :: after)) := by
      rw [show before ++ r :: new :: after = (before ++ [r]) ++ new :: after by simp,
        show before ++ r :: after = (before ++ [r]) ++ after by simp]
      exact List.perm_middle
    exact rearranged.nodup_iff.mpr (List.nodup_cons.mpr ⟨fresh, laid.nodup⟩)
  · obtain ⟨middle, leftTiles, first, rightTiles⟩ := tiles_append.mp laid.tiles
    have tail : Tiles area.regions (middle + (area.regions r).length) after
        (area.base + area.length) := rightTiles
    refine tiles_append.mpr ⟨middle, leftTiles.congr fun cell member =>
      kept cell (List.mem_append_left _ member), ?_, ?_, ?_⟩
    · rw [split_self]
      exact first
    · rw [split_self, split_new notR, wrap_of_lt below, first]
    · rw [split_self, split_new notR]
      dsimp only
      rw [Nat.add_assoc, Nat.add_sub_cancel' shorter]
      exact tail.congr fun cell member => kept cell (List.mem_append_right _ member)
  · by_cases isR : cell = r
    · rw [isR, split_self]
      exact whole
    · by_cases isNew : cell = new
      · rw [isNew, split_new notR]
        exact Nat.dvd_sub (laid.whole r (by simp)) whole
      · rw [split_of_ne isR isNew]
        exact laid.whole cell ((mem_pair_iff.mp member).resolve_left isNew)

end Split

section Merge

/-- The region before takes in the one behind it, whose cell is taken out of the list. -/
structure Merged (area next : DevArea) (before : List Nat) (left right : Nat) (after : List Nat) :
    Prop where
  laid : next.Laid (before ++ left :: after)
  merged : next.regions left = { area.regions left with
    length := (area.regions left).length + (area.regions right).length }
  others : ∀ other ≠ left, next.regions other = area.regions other
  translation : next.translation = area.translation

/-- Two neighbours become one. -/
theorem Laid.merge {left right : Nat} (laid : area.Laid (before ++ left :: right :: after)) :
    ∃ links, area.links.removeNext left = .ok links ∧
      Merged area { area.grow left (area.regions right).length with links := links }
        before left right after := by
  obtain ⟨links, removed, listed⟩ := laid.listed.removeBehind
  have split : before ++ left :: right :: after = (before ++ [left]) ++ right :: after := by simp
  have notRight := ne_of_listed (split ▸ laid.nodup)
  have notLeft := ne_of_listed laid.nodup
  have leftBound := laid.tiles.bounds.2 left (by simp)
  have rightBound := laid.tiles.bounds.2 right (by simp)
  have adjacent := laid.tiles.adjacent
  have fits := laid.lengthFits
  have sum : wrap ((area.regions left).length + (area.regions right).length) =
      (area.regions left).length + (area.regions right).length := wrap_of_lt (by omega)
  have others : ∀ other ≠ left, (area.grow left (area.regions right).length).regions other =
      area.regions other := fun other differs => Function.update_of_ne differs ..
  have merged : (area.grow left (area.regions right).length).regions left = { area.regions left with
      length := (area.regions left).length + (area.regions right).length } := by
    rw [grow, setRegion, sum]
    exact Function.update_self ..
  have kept : ∀ cell ∈ before ++ after,
      ((area.grow left (area.regions right).length).regions cell).pageVaddr =
          (area.regions cell).pageVaddr ∧
        ((area.grow left (area.regions right).length).regions cell).length =
          (area.regions cell).length := by
    intro cell member
    rw [others cell (notLeft cell (mem_listed_iff.mpr (.inr member)))]
    exact ⟨rfl, rfl⟩
  refine ⟨links, removed, ⟨listed, ?_, ?_, laid.baseAligned, fun cell member => ?_, laid.inside,
    laid.lengthFits⟩, merged, others, rfl⟩
  · refine laid.nodup.sublist (List.Sublist.append_left ?_ before)
    exact (List.sublist_cons_self right after).cons_cons left
  · obtain ⟨middle, leftTiles, first, -, rest⟩ := tiles_append.mp laid.tiles
    refine tiles_append.mpr ⟨middle, leftTiles.congr fun cell member =>
      kept cell (List.mem_append_left _ member), ?_, ?_⟩
    · dsimp only
      rw [merged]
      exact first
    · dsimp only
      rw [merged]
      dsimp only
      rw [← Nat.add_assoc]
      exact rest.congr fun cell member => kept cell (List.mem_append_right _ member)
  · by_cases isLeft : cell = left
    · dsimp only
      rw [isLeft, merged]
      exact Nat.dvd_add (laid.whole left (by simp)) (laid.whole right (by simp))
    · dsimp only
      rw [others cell isLeft]
      exact laid.whole cell (mem_pair_iff.mpr (.inr member))

/-- Free neighbours are merged: what is not free stays as it is. -/
structure Coalesced (area next : DevArea) (cells cells' : List Nat) : Prop where
  laid : next.Laid cells'
  translation : next.translation = area.translation
  shows : ∀ translation, area.Shows cells translation → next.Shows cells' translation
  kept : ∀ cell ∈ cells, area.isFree cell = false →
    cell ∈ cells' ∧ next.regions cell = area.regions cell

theorem Laid.coalesced (laid : area.Laid cells) : Coalesced area area cells cells :=
  ⟨laid, rfl, fun _ shows => shows, fun _ member _ => ⟨member, rfl⟩⟩

theorem Coalesced.trans {middle : DevArea} {cells' cells'' : List Nat}
    (first : Coalesced area middle cells cells') (second : Coalesced middle next cells' cells'') :
    Coalesced area next cells cells'' := by
  refine ⟨second.laid, second.translation.trans first.translation,
    fun translation shows => second.shows translation (first.shows translation shows),
    fun cell member occupied => ?_⟩
  obtain ⟨listed, same⟩ := first.kept cell member occupied
  have stillOccupied : middle.isFree cell = false := by
    rw [isFree, same]
    exact occupied
  obtain ⟨listedStill, sameStill⟩ := second.kept cell listed stillOccupied
  exact ⟨listedStill, sameStill.trans same⟩

theorem Merged.coalesced {left right : Nat} (merged : Merged area next before left right after)
    (laid : area.Laid (before ++ left :: right :: after)) (leftFree : area.isFree left = true)
    (rightFree : area.isFree right = true) :
    Coalesced area next (before ++ left :: right :: after) (before ++ left :: after) := by
  have free : next.isFree left = true := by
    rw [isFree, merged.merged]
    exact leftFree
  refine ⟨merged.laid, merged.translation, fun translation shows cell member page low high => ?_,
    fun cell member occupied => ?_⟩
  · by_cases isLeft : cell = left
    · have adjacent := laid.tiles.adjacent
      rw [isLeft, merged.merged] at low high
      dsimp only at low high
      rw [isLeft, free]
      by_cases inLeft : page * platformPageSize <
          (area.regions left).pageVaddr + (area.regions left).length
      · have shown := shows left (by simp) page low inLeft
        rwa [leftFree] at shown
      · have shown := shows right (by simp) page (by omega) (by omega)
        rwa [rightFree] at shown
    · have same := merged.others cell isLeft
      have listed : cell ∈ before ++ left :: right :: after := mem_pair_iff.mpr (.inr member)
      rw [same] at low high
      rw [isFree, same]
      exact shows cell listed page low high
  · have notLeft : cell ≠ left := fun same => by simp [same, leftFree] at occupied
    have notRight : cell ≠ right := fun same => by simp [same, rightFree] at occupied
    exact ⟨(mem_pair_iff.mp member).resolve_left notRight, merged.others cell notLeft⟩

end Merge

end DevArea

end Yaeos
