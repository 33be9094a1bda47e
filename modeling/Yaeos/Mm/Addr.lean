import Yaeos.I686.Vm
import Yaeos.Mm.Zone

/-!
# High and low memory (`kernel/mm/addr.c`)

A low address is translated by adding the offset where the high memory starts, and the sum
is a machine word.  `addr_to_high` takes every address below the offset, `addr_to_low` only
addresses above it, and neither looks at the sum.
-/

namespace Yaeos

/-- `READY` and `OFFSET`. -/
structure AddrOffset where
  ready : Bool
  offset : Nat
  deriving DecidableEq, Repr

/-- The values they are defined with. -/
def addrBoot : AddrOffset := { ready := false, offset := 0 }

def addrSetOffset (addr : AddrOffset) (offset : Nat) : Outcome AddrOffset := do
  kassert (addr.ready = false)
  .ok { offset := offset, ready := true }

def addrGetOffset (addr : AddrOffset) : Outcome Nat := do
  kassert (addr.ready = true)
  .ok addr.offset

def addrToLow (addr : AddrOffset) (highAddr : Nat) : Outcome Nat := do
  kassert (addr.ready = true)
  kassert (highAddr > addr.offset)
  .ok (wrapSub highAddr addr.offset)

def addrToHigh (addr : AddrOffset) (lowAddr : Nat) : Outcome Nat := do
  kassert (addr.ready = true)
  kassert (lowAddr < addr.offset)
  .ok (wrap (lowAddr + addr.offset))

def addrIsHigh (addr : AddrOffset) (address : Nat) : Outcome Bool := do
  kassert (addr.ready = true)
  .ok (decide (address ≥ addr.offset))

/-- `treeRoot` and `flags` are those of the area, `page` is the page that
`vm_arch_pt_map` may take for a table. -/
def addrPgfaultHandlerMaplow (addr : AddrOffset) (frames : I686VmFrames) (page : Option Nat)
    (area treeRoot flags faultAddr : Nat) : Outcome I686VmFrames := do
  kassert (area ≠ 0)
  let virtPageAddr := alignRounddown faultAddr platformPageSize
  let physPageAddr ← addrToLow addr virtPageAddr
  vmArchPtMap frames treeRoot page physPageAddr virtPageAddr flags

/-- Where `mm_zone_create` puts the area of a zone. -/
def zoneAreaStart (physStart : Nat) (kernelVmspace : VmSpace) : Nat :=
  wrap (physStart + kernelVmspace.offset)

namespace AddrOffset

/-- What the two translations make of a low address, and where a zone from there on has its
area. -/
structure Translates (addr : AddrOffset) (low : Nat) : Prop where
  back : ∃ high, addrToHigh addr low = .ok high ∧ addrIsHigh addr high = .ok true ∧
    addrToLow addr high = .ok low
  apart : ∀ other < addr.offset, addrToHigh addr other = addrToHigh addr low → other = low
  zoneAbove : ∀ space : VmSpace, addrGetOffset addr = .ok space.offset →
    space.offset ≤ zoneAreaStart low space

variable {addr : AddrOffset} {offset low high : Nat}

/-- The offset is set once. -/
theorem setOffset_eq (set : addrSetOffset addrBoot offset = .ok addr) :
    addr = { ready := true, offset := offset } := by
  simp only [addrSetOffset, addrBoot, kassert_true, Outcome.ok_bind, Except.ok.injEq] at set
  exact set.symm

theorem setOffset_again (set : addrSetOffset addrBoot offset = .ok addr) (other : Nat) :
    addrSetOffset addr other = .error .kassert := by
  rw [setOffset_eq set]
  rfl

section Ready

variable (ready : addr.ready = true)
include ready

theorem toHigh_eq (below : low < addr.offset) :
    addrToHigh addr low = .ok (wrap (low + addr.offset)) := by
  rw [addrToHigh, kassert_ok ready, Outcome.ok_bind, kassert_ok below, Outcome.ok_bind]

theorem toLow_eq (above : addr.offset < high) (word : high < addressSpace) :
    addrToLow addr high = .ok (high - addr.offset) := by
  rw [addrToLow, kassert_ok ready, Outcome.ok_bind, kassert_ok above, Outcome.ok_bind,
    wrapSub_of_le (Nat.le_of_lt above) word]

theorem toLow_refused (notAbove : high ≤ addr.offset) :
    addrToLow addr high = .error .kassert := by
  rw [addrToLow, kassert_ok ready, Outcome.ok_bind, kassert_error (Nat.not_lt.mpr notAbove)]
  rfl

theorem isHigh_eq : addrIsHigh addr high = .ok (decide (high ≥ addr.offset)) := by
  rw [addrIsHigh, kassert_ok ready, Outcome.ok_bind]

/-- A translated address is high if and only if the sum is an address. -/
theorem toHigh_isHigh_iff (below : low < addr.offset) (word : addr.offset < addressSpace) :
    addrIsHigh addr (wrap (low + addr.offset)) = .ok true ↔ low + addr.offset < addressSpace := by
  rw [isHigh_eq ready]
  simp only [Except.ok.injEq, decide_eq_true_eq]
  unfold wrap addressSpace at *
  omega

/-- Even where the sum wraps, no two low addresses have the same high one. -/
theorem toHigh_injective {other : Nat} (below : low < addr.offset) (otherBelow : other < addr.offset)
    (word : addr.offset < addressSpace) (same : addrToHigh addr other = addrToHigh addr low) :
    other = low := by
  rw [toHigh_eq ready below, toHigh_eq ready otherBelow, Except.ok.injEq] at same
  unfold wrap addressSpace at *
  omega

/-- The first page of the high memory is never mapped on a fault, though it is high. -/
theorem maplow_offset {frames : I686VmFrames} {page : Option Nat} {area treeRoot flags fault : Nat}
    (placed : area ≠ 0) (inFirst : alignRounddown fault platformPageSize = addr.offset) :
    addrPgfaultHandlerMaplow addr frames page area treeRoot flags fault = .error .kassert := by
  rw [addrPgfaultHandlerMaplow, kassert_ok placed, Outcome.ok_bind, inFirst]
  dsimp only
  rw [toLow_refused ready (Nat.le_refl _), Outcome.error_bind]

/-- Every other page of the high memory is mapped to its low counterpart. -/
theorem maplow_eq {frames : I686VmFrames} {page : Option Nat} {area treeRoot flags fault : Nat}
    (placed : area ≠ 0) (word : fault < addressSpace)
    (above : addr.offset < alignRounddown fault platformPageSize) :
    addrPgfaultHandlerMaplow addr frames page area treeRoot flags fault =
      vmArchPtMap frames treeRoot page (alignRounddown fault platformPageSize - addr.offset)
        (alignRounddown fault platformPageSize) flags := by
  have inside : alignRounddown fault platformPageSize < addressSpace := by
    rw [alignRounddown_page word]
    exact Nat.lt_of_le_of_lt (Nat.div_mul_le_self _ _) word
  rw [addrPgfaultHandlerMaplow, kassert_ok placed, Outcome.ok_bind]
  dsimp only
  rw [toLow_eq ready above inside, Outcome.ok_bind]

end Ready

/-- A low address is translated to a high one and back if and only if it is not zero and
its high counterpart is an address. -/
theorem translates_iff (word : offset < addressSpace)
    (set : addrSetOffset addrBoot offset = .ok addr) (accepted : low < offset) :
    addr.Translates low ↔ 0 < low ∧ low + offset < addressSpace := by
  obtain rfl := setOffset_eq set
  constructor
  · rintro ⟨⟨high, translated, isHigh, back⟩, -, -⟩
    rw [toHigh_eq rfl accepted, Except.ok.injEq] at translated
    subst translated
    have inside := (toHigh_isHigh_iff rfl accepted word).mp isHigh
    refine ⟨?_, inside⟩
    by_contra zero
    have atOffset : wrap (low + offset) ≤ offset := by
      have sum : wrap (low + offset) = low + offset := wrap_of_lt inside
      omega
    have refused : addrToLow ⟨true, offset⟩ (wrap (low + offset)) = .error .kassert :=
      toLow_refused rfl atOffset
    rw [refused] at back
    cases back
  · rintro ⟨positive, inside⟩
    have sum : wrap (low + offset) = low + offset := wrap_of_lt inside
    refine ⟨⟨low + offset, ?_, ?_, ?_⟩, ?_, ?_⟩
    · rw [toHigh_eq rfl accepted, sum]
    · rw [isHigh_eq rfl, decide_eq_true (Nat.le_add_left _ _)]
    · rw [toLow_eq rfl (Nat.lt_add_of_pos_left positive) inside, Nat.add_sub_cancel]
    · exact fun other below same => toHigh_injective rfl accepted below word same
    · intro space placed
      have atOffset : space.offset = offset := (Except.ok.inj placed).symm
      rw [zoneAreaStart, atOffset, sum]
      exact Nat.le_add_left _ _

/-- The address one megabyte, with the high memory from three gigabytes on. -/
theorem oneMiB_translates_iff : (AddrOffset.mk true 0xC0000000).Translates 0x100000 ↔
    0 < 0x100000 ∧ 0x100000 + 0xC0000000 < addressSpace :=
  translates_iff (by decide) rfl (by decide)

/-- One gigabyte is accepted, and its high address is zero. -/
theorem oneGiB_not_translates : ∃ addr, addrSetOffset addrBoot 0xC0000000 = .ok addr ∧
    0x40000000 < addr.offset ∧ addrToHigh addr 0x40000000 = .ok 0 ∧
    addrIsHigh addr 0 = .ok false ∧ ¬addr.Translates 0x40000000 := by
  refine ⟨⟨true, 0xC0000000⟩, rfl, by decide, rfl, rfl, fun translates => ?_⟩
  obtain ⟨⟨high, translated, isHigh, -⟩, -, -⟩ := translates
  have zero : addrToHigh ⟨true, 0xC0000000⟩ 0x40000000 = .ok 0 := rfl
  cases zero.symm.trans translated
  cases isHigh

end AddrOffset

section Zone

variable {rounds tmpArea physStart length : Nat} {space next : VmSpace}
  {memory : Nat → BitVec 32} {stalePages : Nat → MmPage} {zones nextZones : List MmZone}

/-- `mm_zone_create` returns only for a zone whose area starts at or above the offset. -/
theorem mmZoneCreate_above
    (created : mmZoneCreate rounds memory stalePages tmpArea physStart length zones space =
      .ok (nextZones, next)) : space.offset ≤ zoneAreaStart physStart space := by
  simp only [mmZoneCreate, Outcome.bind_eq_ok] at created
  obtain ⟨-, -, -, -, -, -, ⟨bootSpace, bootAlloc, address⟩, bootstrapped, -⟩ := created
  exact (mmZoneBootstrap_eq bootstrapped).1

/-- Physical memory whose high counterpart goes around the address space gets no zone. -/
theorem mmZoneCreate_wrapped (physWord : physStart < addressSpace)
    (offsetWord : space.offset < addressSpace) (wraps : addressSpace ≤ physStart + space.offset) :
    mmZoneCreate rounds memory stalePages tmpArea physStart length zones space ≠
      .ok (nextZones, next) := by
  intro created
  have above := mmZoneCreate_above created
  unfold zoneAreaStart wrap addressSpace at *
  omega

end Zone

end Yaeos
