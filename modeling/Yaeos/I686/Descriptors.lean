import Yaeos.Machine.Descriptor
import Yaeos.I686.Intr

/-!
# Descriptor tables (`arch/i686/descriptors.c`)

The tables are written field by field; the processor reads the double words that the packed
structures are laid out as.
-/

namespace Yaeos

open Ia32

/-! ## Segments -/

/-- `struct gdt_entry`, its bit-fields from the lowest bit on. -/
structure GdtEntry where
  limitLow : BitVec 16
  baseLow : BitVec 16
  baseMiddle : BitVec 8
  accessed : Bool
  writable : Bool
  directionConforming : Bool
  code : Bool
  codeOrData : Bool
  privelege : BitVec 2
  present : Bool
  limitHigh : BitVec 4
  available : Bool
  mustBeFalse : Bool
  size : Bool
  granularity : Bool
  baseHigh : BitVec 8
  deriving DecidableEq, Repr

/-- The packed structure as a double word. -/
def GdtEntry.bits (entry : GdtEntry) : BitVec 64 :=
  entry.baseHigh ++ BitVec.ofBool entry.granularity ++ BitVec.ofBool entry.size ++
    BitVec.ofBool entry.mustBeFalse ++ BitVec.ofBool entry.available ++ entry.limitHigh ++
    BitVec.ofBool entry.present ++ entry.privelege ++ BitVec.ofBool entry.codeOrData ++
    BitVec.ofBool entry.code ++ BitVec.ofBool entry.directionConforming ++
    BitVec.ofBool entry.writable ++ BitVec.ofBool entry.accessed ++ entry.baseMiddle ++
    entry.baseLow ++ entry.limitLow

/-- `kmemset(entry, 0, sizeof(*entry))`. -/
def GdtEntry.zero : GdtEntry :=
  ⟨0, 0, 0, false, false, false, false, false, 0, false, 0, false, false, false, false, 0⟩

/-- `struct gdt_structure`. -/
structure GdtStructure where
  nullDescriptor : GdtEntry
  codeDescriptor : GdtEntry
  dataDescriptor : GdtEntry
  deriving DecidableEq, Repr

namespace GdtStructure

/-- The descriptors in memory. -/
def table (gdt : GdtStructure) : List (BitVec 64) :=
  [gdt.nullDescriptor.bits, gdt.codeDescriptor.bits, gdt.dataDescriptor.bits]

/-- `offsetof(struct gdt_structure, code_descriptor)`. -/
def codeOffset : BitVec 16 := 8

/-- `offsetof(struct gdt_structure, data_descriptor)`. -/
def dataOffset : BitVec 16 := 16

/-- `sizeof(struct gdt_structure)`. -/
def size : BitVec 16 := 24

end GdtStructure

/-- `LIMIT`. -/
def gdtLimit : BitVec 32 := 0xFFFFFFFF

/-- `lgdt` loads the limit of the table; then every segment register is loaded. -/
def gdtSetTable (cpu : Cpu) (limit dataOffset codeOffset : BitVec 16) : BitVec 16 × Cpu :=
  (limit, { cpu with seg := fun
    | .ds | .ss | .es | .fs | .gs => dataOffset
    | .cs => codeOffset })

/-- The table, the limit the processor has for it, and the registers.  The fields `available`
are left as they are. -/
def bootSetupGdt (gdt : GdtStructure) (cpu : Cpu) : GdtStructure × BitVec 16 × Cpu :=
  let codeDescriptor := { gdt.codeDescriptor with
    limitLow := (gdtLimit &&& 0xFFFF).setWidth 16
    limitHigh := ((gdtLimit >>> 0x10) &&& 0x0F).setWidth 4
    baseLow := 0
    baseMiddle := 0
    baseHigh := 0
    accessed := false
    writable := false
    directionConforming := false
    code := true
    codeOrData := true
    privelege := 0
    present := true
    mustBeFalse := false
    size := true
    granularity := true }
  let dataDescriptor := { gdt.dataDescriptor with
    limitLow := (gdtLimit &&& 0xFFFF).setWidth 16
    limitHigh := ((gdtLimit >>> 0x10) &&& 0x0F).setWidth 4
    baseLow := 0
    baseMiddle := 0
    baseHigh := 0
    accessed := false
    writable := true
    directionConforming := false
    code := false
    codeOrData := true
    privelege := 0
    present := true
    mustBeFalse := false
    size := true
    granularity := true }
  (⟨.zero, codeDescriptor, dataDescriptor⟩,
    gdtSetTable cpu (GdtStructure.size - 1) GdtStructure.dataOffset GdtStructure.codeOffset)

/-- What the processor reads of an entry is what was written to its fields. -/
theorem GdtEntry.decode_bits (entry : GdtEntry) :
    Segment.decode entry.bits = {
      base := entry.baseHigh ++ entry.baseMiddle ++ entry.baseLow
      limit := entry.limitHigh ++ entry.limitLow
      accessed := entry.accessed
      writable := entry.writable
      directionConforming := entry.directionConforming
      code := entry.code
      codeOrData := entry.codeOrData
      dpl := entry.privelege
      present := entry.present
      size := entry.size
      granularity := entry.granularity } := by
  have fields : entry.bits.extractLsb' 56 8 = entry.baseHigh ∧
      entry.bits.extractLsb' 32 8 = entry.baseMiddle ∧
      entry.bits.extractLsb' 16 16 = entry.baseLow ∧
      entry.bits.extractLsb' 48 4 = entry.limitHigh ∧
      entry.bits.extractLsb' 0 16 = entry.limitLow ∧
      entry.bits.extractLsb' 45 2 = entry.privelege := by
    refine ⟨?_, ?_, ?_, ?_, ?_, ?_⟩ <;>
    simp (disch := decide) only [bits, BitVec.extractLsb'_append_eq_of_add_le,
      BitVec.extractLsb'_append_eq_of_le, Nat.reduceSub, BitVec.extractLsb'_eq_self]
  have flags : entry.bits.getLsbD 40 = entry.accessed ∧
      entry.bits.getLsbD 41 = entry.writable ∧
      entry.bits.getLsbD 42 = entry.directionConforming ∧
      entry.bits.getLsbD 43 = entry.code ∧ entry.bits.getLsbD 44 = entry.codeOrData ∧
      entry.bits.getLsbD 47 = entry.present ∧ entry.bits.getLsbD 54 = entry.size ∧
      entry.bits.getLsbD 55 = entry.granularity := by
    refine ⟨?_, ?_, ?_, ?_, ?_, ?_, ?_, ?_⟩ <;>
    · simp (disch := decide) only [BitVec.getLsbD_eq_extractLsb', bits,
        BitVec.extractLsb'_append_eq_of_add_le, BitVec.extractLsb'_append_eq_of_le, Nat.reduceSub,
        BitVec.extractLsb'_eq_self, ofBool_beq_one]
  simp only [Segment.decode, fields, flags]

/-- `enum gate_type`. -/
inductive GateType where
  | inter16 | trap16 | inter32 | trap32
  deriving DecidableEq, Repr

def GateType.value : GateType → BitVec 4
  | inter16 => 0x6
  | trap16 => 0x7
  | inter32 => 0xE
  | trap32 => 0xF

/-- `IDT_FLAG_PRESENT` and `IDT_FLAG_RING_0`. -/
def idtFlagPresent : BitVec 4 := 0x1 <<< 3
def idtFlagRing0 : BitVec 4 := 0x0 <<< 1

/-- `struct idt_entry`. -/
structure IdtEntry where
  offsetLow : BitVec 16
  segSelector : BitVec 16
  mustBe0 : BitVec 8
  type : BitVec 4
  flags : BitVec 4
  offsetHigh : BitVec 16
  deriving DecidableEq, Repr

/-- The packed structure as a double word. -/
def IdtEntry.bits (entry : IdtEntry) : BitVec 64 :=
  entry.offsetHigh ++ entry.flags ++ entry.type ++ entry.mustBe0 ++ entry.segSelector ++
    entry.offsetLow

/-- `IDT`. -/
abbrev Idt := BitVec 8 → IdtEntry

/-- `kmemset(&IDT, 0, sizeof(IDT))`. -/
def bootSetupIdt : Idt := fun _ => ⟨0, 0, 0, 0, 0, 0⟩

def idtSetGatedesc (idt : Idt) (gateNum : BitVec 8) (offset : Word) (flags : BitVec 4)
    (gt : GateType) : Idt :=
  Function.update idt gateNum {
    offsetLow := offset.setWidth 16
    offsetHigh := (offset >>> 0x10).setWidth 16
    segSelector := GdtStructure.codeOffset
    mustBe0 := 0
    flags := flags
    type := gt.value }

/-- The gate types of `SET_ISR` and `SET_IRQ`. -/
def IntrStub.gateType : IntrStub → GateType
  | .isr number => if number = 2 then .inter32 else .trap32
  | .irq _ => .inter32

/-- The gates that `intr_init` sets, with the addresses of the routines. -/
def intrInit (symbol : IntrStub → Word) (idt : Idt) : Idt :=
  intrInitGates.foldl (fun idt gate => idtSetGatedesc idt (BitVec.ofNat 8 gate.1)
    (symbol gate.2) (idtFlagPresent ||| idtFlagRing0) gate.2.gateType) idt

/-- What the processor reads of an entry is what was written to its fields. -/
theorem IdtEntry.decode_bits (entry : IdtEntry) :
    Gate.decode entry.bits = {
      offset := entry.offsetHigh ++ entry.offsetLow
      selector := entry.segSelector
      kind := entry.type
      storage := entry.flags.getLsbD 0
      dpl := entry.flags.extractLsb' 1 2
      present := entry.flags.getLsbD 3 } := by
  have fields : entry.bits.extractLsb' 48 16 = entry.offsetHigh ∧
      entry.bits.extractLsb' 0 16 = entry.offsetLow ∧
      entry.bits.extractLsb' 16 16 = entry.segSelector ∧
      entry.bits.extractLsb' 40 4 = entry.type ∧
      entry.bits.extractLsb' 45 2 = entry.flags.extractLsb' 1 2 := by
    refine ⟨?_, ?_, ?_, ?_, ?_⟩ <;>
    simp (disch := decide) only [bits, BitVec.extractLsb'_append_eq_of_add_le,
      BitVec.extractLsb'_append_eq_of_le, Nat.reduceSub, BitVec.extractLsb'_eq_self]
  have flags : entry.bits.getLsbD 44 = entry.flags.getLsbD 0 ∧
      entry.bits.getLsbD 47 = entry.flags.getLsbD 3 := by
    refine ⟨?_, ?_⟩ <;>
    simp (disch := decide) only [BitVec.getLsbD_eq_extractLsb', bits,
      BitVec.extractLsb'_append_eq_of_add_le, BitVec.extractLsb'_append_eq_of_le, Nat.reduceSub]
  simp only [Gate.decode, fields, flags]

theorem idtSetGatedesc_decode (idt : Idt) (gateNum : BitVec 8) (offset : Word)
    (flags : BitVec 4) (gt : GateType) :
    Gate.decode (idtSetGatedesc idt gateNum offset flags gt gateNum).bits =
      ⟨offset, GdtStructure.codeOffset, gt.value, flags.getLsbD 0, flags.extractLsb' 1 2,
        flags.getLsbD 3⟩ := by
  have halves : (offset >>> 0x10).setWidth 16 ++ offset.setWidth 16 = offset := by
    refine BitVec.eq_of_getLsbD_eq fun bit inside => ?_
    simp only [BitVec.getLsbD_append, BitVec.getLsbD_setWidth, BitVec.getLsbD_ushiftRight]
    grind
  rw [IdtEntry.decode_bits, idtSetGatedesc, Function.update_self, halves]

/-- Setting gates of distinct numbers. -/
theorem foldl_idtSetGatedesc (symbol : IntrStub → Word) (flags : BitVec 4)
    {gates : List (Nat × IntrStub)} (small : ∀ gate ∈ gates, gate.1 < 256)
    (distinct : (gates.map Prod.fst).Nodup) (idt : Idt) (vector : BitVec 8) :
    gates.foldl (fun idt gate => idtSetGatedesc idt (BitVec.ofNat 8 gate.1) (symbol gate.2) flags
        gate.2.gateType) idt vector =
      ((gates.lookup vector.toNat).elim (idt vector) fun stub =>
        idtSetGatedesc idt vector (symbol stub) flags stub.gateType vector) := by
  induction gates generalizing idt with
  | nil => rfl
  | cons gate gates inductionHypothesis =>
      obtain ⟨number, stub⟩ := gate
      obtain ⟨smallNumber, smallOthers⟩ := List.forall_mem_cons.mp small
      obtain ⟨fresh, distinct⟩ := List.nodup_cons.mp distinct
      rw [List.foldl_cons, inductionHypothesis smallOthers distinct]
      by_cases same : vector.toNat = number
      · have isVector : BitVec.ofNat 8 number = vector := by
          rw [← same, BitVec.ofNat_toNat, BitVec.setWidth_eq]
        have absent : gates.lookup vector.toNat = none := by
          rw [same]
          refine List.lookup_eq_none_iff.mpr fun other member => bne_iff_ne.mpr fun equal => ?_
          exact fresh (List.mem_map.mpr ⟨other, member, equal.symm⟩)
        rw [absent, same, List.lookup_cons_self, isVector]
        rfl
      · have apart : vector ≠ BitVec.ofNat 8 number := fun equal =>
          same (by rw [equal, BitVec.toNat_ofNat, Nat.mod_eq_of_lt smallNumber])
        have skipped :
            ((number, stub) :: gates).lookup vector.toNat = gates.lookup vector.toNat := by
          rw [List.lookup_cons, beq_eq_false_iff_ne.mpr same]
        have kept : idtSetGatedesc idt (BitVec.ofNat 8 number) (symbol stub) flags stub.gateType
            vector = idt vector := Function.update_of_ne apart ..
        rw [skipped, kept]
        simp only [idtSetGatedesc, Function.update_self]

/-- What the processor finds for a vector after `intr_init`. -/
def intrGate (symbol : IntrStub → Word) (stub : IntrStub) : Gate :=
  ⟨symbol stub, GdtStructure.codeOffset, stub.gateType.value, false, 0, true⟩

/-- Every vector with a routine has a usable gate to it in the code segment, every other one
has none. -/
theorem intrInit_decode (symbol : IntrStub → Word) (vector : BitVec 8) :
    let gate := Gate.decode (intrInit symbol bootSetupIdt vector).bits
    ((intrInitGates.lookup vector.toNat).elim (gate.present = false) fun stub =>
      gate = intrGate symbol stub) := by
  intro gate
  have small : ∀ gate ∈ intrInitGates, gate.1 < 256 := by decide
  have distinct : (intrInitGates.map Prod.fst).Nodup := by decide
  have entry := foldl_idtSetGatedesc symbol (idtFlagPresent ||| idtFlagRing0) small distinct
    bootSetupIdt vector
  have isGate : gate = Gate.decode (intrInit symbol bootSetupIdt vector).bits := rfl
  rw [intrInit, entry] at isGate
  cases found : intrInitGates.lookup vector.toNat with
  | none =>
      rw [found] at isGate
      have absent : (Gate.decode (IdtEntry.bits ⟨0, 0, 0, 0, 0, 0⟩)).present = false := by decide
      exact (congrArg Gate.present isGate).trans absent
  | some stub =>
      rw [found] at isGate
      exact isGate.trans (idtSetGatedesc_decode ..)

theorem IntrStub.gateType_eq (stub : IntrStub) :
    stub.gateType = .inter32 ∨ stub.gateType = .trap32 := by
  cases stub with
  | isr number => exact ite_eq_or_eq ..
  | irq number => exact .inl rfl

theorem intrGate_usable (symbol : IntrStub → Word) (stub : IntrStub) :
    (intrGate symbol stub).Usable :=
  ⟨rfl, rfl, stub.gateType_eq.imp (congrArg GateType.value) (congrArg GateType.value)⟩

end Yaeos
