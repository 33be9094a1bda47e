import Yaeos.Machine.Cursor
import Yaeos.Platform.Register

/-!
# The memory map (`arch/i686/platform_resources.c`)

Each entry of the map says how long it is, not counting the field that says so.  The loop
adds this length to the address of the entry as it stands, so that a length near the end of
the machine words leads back.
-/

namespace Yaeos

/-- `MULTIBOOT_INFO_MEM_MAP`. -/
def multibootInfoMemMap : Nat := 0x40

/-- The fields of `multiboot_info_t` that describe the memory map. -/
structure MultibootInfo where
  flags : Nat
  mmapAddr : Nat
  mmapLength : Nat
  deriving DecidableEq, Repr

/-- What the memory holds from an address on, read as an entry of the map. -/
structure MmapSlot where
  size : Nat
  entry : MultibootMmapEntry
  deriving DecidableEq, Repr

namespace MultibootInfo

/-- `info->mmap_addr + info->mmap_length`. -/
def mmapEnd (info : MultibootInfo) : Nat := wrap (info.mmapAddr + info.mmapLength)

end MultibootInfo

/-- `(uintptr_t)c + c->size + sizeof(c->size)`. -/
def nextEntry (memory : Nat → MmapSlot) (c : Nat) : Nat := wrap (wrap (c + (memory c).size) + 4)

/-- `kstart` and `kend` are those of `iter_without_unavail`. -/
def iterAvailableRegions {State : Type} (rounds kstart kend : Nat) (info : MultibootInfo)
    (memory : Nat → MmapSlot) (fn : State → MemRegion → Outcome State) (state : State) :
    Outcome State :=
  if info.flags &&& multibootInfoMemMap = 0 then .ok state
  else
    let visit (state : State) (c : Nat) : Outcome State := do
      let regions ← iterWithoutUnavail kstart kend (memory c).entry
      regions.foldlM fn state
    cursorLoop visit (nextEntry memory) info.mmapEnd rounds info.mmapAddr state

/-- `"video"`. -/
def videoId : CString where
  bytes := [118, 105, 100, 101, 111]
  nonzero := by decide

def registerBiosVga (resources : Resources) : Outcome Resources :=
  resourcesRegister resources platformId videoId .devBuffer { base := 0xA0000, len := 128 * 1024 }

def i686RegisterResources (rounds kstart kend : Nat) (info : MultibootInfo)
    (memory : Nat → MmapSlot) (resources : Resources) : Outcome Resources := do
  let resources ← iterAvailableRegions rounds kstart kend info memory registerMemRegion resources
  registerBiosVga resources

namespace MultibootInfo

/-- The addresses of the entries that are passed to `iter_without_unavail`, in order. -/
def entries (info : MultibootInfo) (memory : Nat → MmapSlot) (rounds : Nat) : Option (List Nat) :=
  if info.flags &&& multibootInfoMemMap = 0 then some []
  else cursorTrace (nextEntry memory) info.mmapEnd rounds info.mmapAddr

/-- The walk gets to an entry at this address. -/
def Reaches (info : MultibootInfo) (memory : Nat → MmapSlot) (c : Nat) : Prop :=
  info.flags &&& multibootInfoMemMap ≠ 0 ∧
    CursorReaches (nextEntry memory) info.mmapEnd info.mmapAddr c

/-- The walk comes to its end, goes up through the map and stays inside. -/
def Walks (info : MultibootInfo) (memory : Nat → MmapSlot) : Prop :=
  ∃ rounds entries, info.entries memory rounds = some entries ∧ entries.Pairwise (· < ·) ∧
    ∀ c ∈ entries, info.mmapAddr ≤ c ∧ c < info.mmapAddr + info.mmapLength

/-- The length of the entry is not zero and stays inside the address space. -/
def Advances (memory : Nat → MmapSlot) (c : Nat) : Prop :=
  0 < wrap ((memory c).size + 4) ∧ c + wrap ((memory c).size + 4) < addressSpace

instance (memory : Nat → MmapSlot) (c : Nat) : Decidable (Advances memory c) :=
  inferInstanceAs (Decidable (_ ∧ _))

variable {State : Type} {info : MultibootInfo} {memory : Nat → MmapSlot}
  {rounds kstart kend c : Nat} {entries : List Nat}

/-- `iter_available_regions` passes the regions of its entries on, in order. -/
theorem iterAvailableRegions_eq (visited : info.entries memory rounds = some entries)
    (fn : State → MemRegion → Outcome State) (state : State) :
    iterAvailableRegions rounds kstart kend info memory fn state =
      entries.foldlM (fun state c => do
        let regions ← iterWithoutUnavail kstart kend (memory c).entry
        regions.foldlM fn state) state := by
  rw [MultibootInfo.entries] at visited
  rw [iterAvailableRegions]
  split at visited
  · next noMap =>
      cases visited
      rw [if_pos noMap]
      rfl
  · next map =>
      rw [if_neg map]
      exact cursorLoop_eq visited state

theorem lt_nextEntry_iff (word : c < addressSpace) :
    c < nextEntry memory c ↔ Advances memory c := by
  unfold nextEntry Advances wrap addressSpace at *
  omega

/-- The walk of a map is in order if and only if every entry it gets to leads on. -/
theorem walks_iff :
    info.Walks memory ↔ ∀ c, info.Reaches memory c → Advances memory c := by
  by_cases noMap : info.flags &&& multibootInfoMemMap = 0
  · refine iff_of_true ⟨0, [], if_pos noMap, .nil, nofun⟩ fun c reaches => ?_
    exact absurd noMap reaches.1
  · have visited (rounds : Nat) : info.entries memory rounds =
        cursorTrace (nextEntry memory) info.mmapEnd rounds info.mmapAddr := if_neg noMap
    have inside : info.mmapEnd ≤ info.mmapAddr + info.mmapLength := Nat.mod_le _ _
    have leads : (∀ c, info.Reaches memory c → Advances memory c) ↔
        ∀ c, CursorReaches (nextEntry memory) info.mmapEnd info.mmapAddr c →
          c < nextEntry memory c := by
      refine forall_congr' fun c => ?_
      rw [Reaches, and_iff_right noMap]
      refine imp_congr_right fun reaches => ?_
      exact (lt_nextEntry_iff (Nat.lt_trans reaches.lt_stop (wrap_lt _))).symm
    rw [leads, ← cursorTrace_iff, Walks]
    simp only [visited]
    constructor
    · rintro ⟨rounds, entries, traced, increasing, -⟩
      exact cursorTrace_iff.mpr fun c => grows_of_cursorTrace traced increasing
    · rintro ⟨rounds, entries, traced, increasing, bounded⟩
      refine ⟨rounds, entries, traced, increasing, fun c member => ?_⟩
      exact ⟨(bounded c member).1, Nat.lt_of_lt_of_le (bounded c member).2 inside⟩

/-- An entry of length zero is passed on again and again. -/
theorem iterAvailableRegions_stuck (map : info.flags &&& multibootInfoMemMap ≠ 0)
    (below : info.mmapAddr < info.mmapEnd) (word : info.mmapAddr < addressSpace)
    (empty : wrap ((memory info.mmapAddr).size + 4) = 0)
    (fn : State → MemRegion → Outcome State) (state after : State) :
    iterAvailableRegions rounds kstart kend info memory fn state ≠ .ok after := by
  rw [iterAvailableRegions, if_neg map]
  refine cursorLoop_stuck below ?_ rounds state after
  unfold nextEntry wrap addressSpace at *
  omega

/-- Every region of the entries the walk visits is registered, and then the video memory. -/
theorem i686RegisterResources_eq (visited : info.entries memory rounds = some entries)
    (resources : Resources) :
    i686RegisterResources rounds kstart kend info memory resources =
      (entries.foldlM (fun resources c => registerEntry kstart kend resources (memory c).entry)
        resources >>= registerBiosVga) := by
  rw [i686RegisterResources, iterAvailableRegions_eq visited]
  rfl

/-- An entry whose size is `-4`. -/
def emptyEntry : MmapSlot := { size := 0xFFFFFFFC, entry := ⟨0, 0x9FC00, 1⟩ }

/-- A map of twenty-four bytes that holds such an entry. -/
theorem emptyEntry_not_walks :
    (MultibootInfo.mk 0x40 0x9000 24).mmapAddr + 24 < addressSpace ∧
      ¬(MultibootInfo.mk 0x40 0x9000 24).Walks fun _ => emptyEntry := by
  refine ⟨by decide, fun walks => ?_⟩
  obtain ⟨rounds, entries, visited, increasing, -⟩ := walks
  have traced : cursorTrace (nextEntry fun _ => emptyEntry) 0x9018 rounds 0x9000 = some entries :=
    visited
  exact absurd (grows_of_cursorTrace traced increasing (.here (by decide))) (by decide)

end MultibootInfo

end Yaeos
