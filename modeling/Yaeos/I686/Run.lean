import Yaeos.I686.Tables

/-!
# Runs over a page directory

A run starts from a directory whose only entry is the recursive one and maps,
unmaps and resolves pages below the windows.  Every such call returns.  Mapping
changes the translation of its page and, when it creates a table, of the page
of the recursive window that shows this table; unmapping changes its page only.
-/

namespace Yaeos

/-- `page` is what `mm_alloc_page` returns if it is called. -/
inductive PageTableCall where
  | map (page : Option Nat) (physAddr virtAddr flags : Nat)
  | unmap (virtAddr : Nat)
  | resolve (virtPage : Nat)
  deriving DecidableEq, Repr

namespace PageTableCall

variable {frames next : I686VmFrames} {treeRoot virtAddr physAddr flags : Nat}
  {page : Option Nat}

/-- An address below the windows. -/
def Below (virtAddr : Nat) : Prop := virtAddr < addressSpace ∧ getPdeNdx virtAddr < emergencyNdx

/-- Unmapped pages are mapped, mapped ones are unmapped and resolved; pages
allocated for tables are fresh. -/
def Legal (frames : I686VmFrames) (treeRoot : Nat) : PageTableCall → Prop
  | .map page physAddr virtAddr _ => physAddr < addressSpace ∧ Below virtAddr ∧
      walk frames treeRoot virtAddr = none ∧
      ((frames treeRoot (getPdeNdx virtAddr)).isPresent = false →
        ∃ paddr, page = some paddr ∧ FreshFrame frames treeRoot paddr)
  | .unmap virtAddr => Below virtAddr ∧ walk frames treeRoot virtAddr ≠ none
  | .resolve virtPage => Below virtPage ∧ walk frames treeRoot virtPage ≠ none

def run (treeRoot : Nat) (frames : I686VmFrames) : PageTableCall → Outcome I686VmFrames
  | .map page physAddr virtAddr flags =>
      vmArchPtMap frames treeRoot page physAddr virtAddr flags
  | .unmap virtAddr => vmArchPtUnmap frames treeRoot virtAddr
  | .resolve virtPage => do
      let (frames, _) ← vmArchResolvePhysPage frames treeRoot virtPage
      .ok frames

end PageTableCall

/-- The runs of one directory, over any contents of the other frames. -/
def pageTableMachine (treeRoot : Nat) : Machine I686VmFrames PageTableCall where
  initial frames := ∃ blank : I686VmFrames, (∀ ndx, (blank treeRoot ndx).isPresent = false) ∧
    i686VmSetupRecursiveMapping blank treeRoot (treeRoot <<< 12) = .ok frames
  step frames call next := call.Legal frames treeRoot ∧ call.run treeRoot frames = .ok next

namespace PageTableCall

variable {frames next : I686VmFrames} {treeRoot virtAddr physAddr flags : Nat}
  {page : Option Nat}

theorem tables_of_initial (start : (pageTableMachine treeRoot).initial frames) :
    Tables frames treeRoot := by
  obtain ⟨blank, empty, setup⟩ := start
  rw [i686VmSetupRecursiveMapping, kassert_ok (empty recursiveNdx), Outcome.ok_bind,
    Except.ok.injEq] at setup
  have absent : ∀ ndx < recursiveNdx, (frames treeRoot ndx).isPresent = false := by
    intro ndx below
    rw [← setup, I686VmFrames.set_apply, if_neg fun both => Nat.ne_of_lt below both.2]
    exact empty ndx
  have emergencyBelow : emergencyNdx < recursiveNdx := by decide
  refine ⟨absent emergencyNdx emergencyBelow, ?_, fun ndx below present => ?_,
    fun first firstBelow _ _ present => ?_⟩
  · simp [← setup, i686VmPgeSetAddr, Nat.shiftLeft_shiftRight]
  · rw [absent ndx (Nat.lt_trans below emergencyBelow)] at present
    cases present
  · rw [absent first (Nat.lt_trans firstBelow emergencyBelow)] at present
    cases present

theorem tables_run (tables : Tables frames treeRoot) {call : PageTableCall}
    (legal : call.Legal frames treeRoot) :
    ∃ next, call.run treeRoot frames = .ok next ∧ Tables next treeRoot := by
  cases call with
  | map page physAddr virtAddr flags =>
      obtain ⟨-, ⟨-, below⟩, unmapped, fresh⟩ := legal
      obtain ⟨next, mapped, tablesNext, -⟩ :=
        tables.vmArchPtMap_ok physAddr below unmapped flags fresh
      exact ⟨next, mapped, tablesNext⟩
  | unmap virtAddr =>
      obtain ⟨⟨-, below⟩, mapped⟩ := legal
      obtain ⟨frame, found⟩ := Option.ne_none_iff_exists'.mp mapped
      obtain ⟨next, unmapped, tablesNext, -⟩ := tables.vmArchPtUnmap_ok below found
      exact ⟨next, unmapped, tablesNext⟩
  | resolve virtPage =>
      obtain ⟨⟨-, below⟩, mapped⟩ := legal
      obtain ⟨frame, found⟩ := Option.ne_none_iff_exists'.mp mapped
      obtain ⟨next, resolved, tablesNext, -⟩ := tables.vmArchResolvePhysPage_ok below found
      exact ⟨next, by simp [run, resolved], tablesNext⟩

theorem tables_of_reachable (reached : (pageTableMachine treeRoot).Reachable frames) :
    Tables frames treeRoot := by
  induction reached with
  | initial start => exact tables_of_initial start
  | step _ stepped tables =>
    obtain ⟨legal, called⟩ := stepped
    obtain ⟨next', called', tablesNext⟩ := tables_run tables legal
    rw [called] at called'
    cases called'
    exact tablesNext

/-- The page of the recursive window that shows the table of an address. -/
def ShowsTable (other virtAddr : Nat) : Prop :=
  getPdeNdx other = recursiveNdx ∧ getPteNdx other = getPdeNdx virtAddr

instance (other virtAddr : Nat) : Decidable (ShowsTable other virtAddr) :=
  inferInstanceAs (Decidable (_ ∧ _))

/-- Between calls the window is closed.  A page that was mapped resolves to its
frame, a page that was unmapped has no translation any more, and all others keep
theirs, except that a new table shows up in the recursive window. -/
theorem translation_of_reachable (reached : (pageTableMachine treeRoot).Reachable frames) :
    (frames treeRoot emergencyNdx).isPresent = false ∧
    (∀ page physAddr virtAddr flags,
      Legal frames treeRoot (.map page physAddr virtAddr flags) →
      ∃ next, vmArchPtMap frames treeRoot page physAddr virtAddr flags = .ok next ∧
        (∃ after resolved, vmArchResolvePhysPage next treeRoot virtAddr = .ok (after, resolved) ∧
          resolved = physAddr / platformPageSize * platformPageSize ∧
          (platformPageSize ∣ physAddr → resolved = physAddr)) ∧
        ∀ other < addressSpace, other / platformPageSize ≠ virtAddr / platformPageSize →
          walk next treeRoot other =
            if (frames treeRoot (getPdeNdx virtAddr)).isPresent = false ∧
                ShowsTable other virtAddr
            then page.map (· / platformPageSize)
            else walk frames treeRoot other) ∧
    ∀ virtAddr, Legal frames treeRoot (.unmap virtAddr) →
      ∃ next, vmArchPtUnmap frames treeRoot virtAddr = .ok next ∧
        walk next treeRoot virtAddr = none ∧
        ∀ other < addressSpace, other / platformPageSize ≠ virtAddr / platformPageSize →
          walk next treeRoot other = walk frames treeRoot other := by
  have tables := tables_of_reachable reached
  refine ⟨tables.idle, fun page physAddr virtAddr flags legal => ?_, fun virtAddr legal => ?_⟩
  · obtain ⟨-, ⟨fits, below⟩, unmapped, fresh⟩ := legal
    obtain ⟨next, mapped, tablesNext, walkNext, others⟩ :=
      tables.vmArchPtMap_ok physAddr below unmapped flags fresh
    obtain ⟨after, resolved, -⟩ := tablesNext.vmArchResolvePhysPage_ok below walkNext
    have rounded : physAddr >>> 12 <<< 12 = physAddr / platformPageSize * platformPageSize := by
      rw [Nat.shiftRight_eq_div_pow, Nat.shiftLeft_eq]
      rfl
    refine ⟨next, mapped, ⟨after, _, resolved, rounded, fun aligned => ?_⟩,
      fun other otherFits different => ?_⟩
    · rw [rounded, Nat.div_mul_cancel aligned]
    · exact others other fun same => different ((page_eq_iff fits otherFits).mpr same)
  · obtain ⟨⟨fits, below⟩, mapped⟩ := legal
    obtain ⟨frame, found⟩ := Option.ne_none_iff_exists'.mp mapped
    obtain ⟨next, unmapped, -, walkNext, others⟩ := tables.vmArchPtUnmap_ok below found
    exact ⟨next, unmapped, walkNext, fun other otherFits different =>
      others other fun same => different ((page_eq_iff fits otherFits).mpr same)⟩

/-- The directory in frame 1 of a memory that is zero elsewhere. -/
def firstDirectory : I686VmFrames :=
  I686VmFrames.set (fun _ _ => .zero) 1 recursiveNdx
    { isPresent := true, flags := i686VmFlagRw, paddr := 1 }

theorem firstDirectory_reachable : (pageTableMachine 1).Reachable firstDirectory :=
  .initial ⟨fun _ _ => .zero, fun _ => rfl, rfl⟩

theorem firstDirectory_legal : Legal firstDirectory 1 (.map (some 8192) 12288 0 vmWrite) := by
  refine ⟨by decide, ⟨by decide, by decide⟩, by decide, fun _ => ⟨8192, rfl, by decide,
    by decide, fun ndx below present => ?_⟩⟩
  have absent : (firstDirectory 1 ndx).isPresent = false := by
    unfold emergencyNdx at below
    rw [firstDirectory, I686VmFrames.set_apply, if_neg fun both =>
      absurd both.2 (by unfold recursiveNdx; omega)]
    rfl
  rw [absent] at present
  cases present

theorem firstDirectory_maps : ∃ next after,
    vmArchPtMap firstDirectory 1 (some 8192) 12288 0 vmWrite = .ok next ∧
    vmArchResolvePhysPage next 1 0 = .ok (after, 12288) := by
  obtain ⟨-, maps, -⟩ := translation_of_reachable firstDirectory_reachable
  obtain ⟨next, mapped, ⟨after, resolved, resolves, -, aligned⟩, -⟩ :=
    maps _ _ _ _ firstDirectory_legal
  rw [aligned (by decide)] at resolves
  exact ⟨next, after, mapped, resolves⟩

/-- The first mapping of a table makes the table itself visible: the page at
`0xffc00000` had no translation and has one afterwards. -/
theorem firstDirectory_shows : (pageTableMachine 1).Reachable firstDirectory ∧
    Legal firstDirectory 1 (.map (some 8192) 12288 0 vmWrite) ∧
    ∃ next, vmArchPtMap firstDirectory 1 (some 8192) 12288 0 vmWrite = .ok next ∧
      0xffc00000 / platformPageSize ≠ 0 / platformPageSize ∧
      walk firstDirectory 1 0xffc00000 = none ∧ walk next 1 0xffc00000 = some 2 := by
  have result : (vmArchPtMap firstDirectory 1 (some 8192) 12288 0 vmWrite).toOption.map
      (fun next => walk next 1 0xffc00000) = some (some 2) := by decide
  refine ⟨firstDirectory_reachable, firstDirectory_legal, ?_⟩
  cases mapped : vmArchPtMap firstDirectory 1 (some 8192) 12288 0 vmWrite with
  | error fault => simp [mapped, Except.toOption] at result
  | ok next =>
      refine ⟨next, rfl, by decide, by decide, ?_⟩
      simpa [mapped, Except.toOption] using result

end PageTableCall

end Yaeos
