import Yaeos.Machine.Ia32

/-!
# Descriptors as the processor reads them

A descriptor is a double word.  A gate names the routine of an interrupt; a segment says
which offsets an access may have and where it then goes.
-/

namespace Yaeos.Ia32

theorem ofBool_beq_one (bit : Bool) : (BitVec.ofBool bit == 1#1) = bit := by
  cases bit <;> rfl

/-! ## Gates -/

structure Gate where
  offset : Word
  selector : BitVec 16
  kind : BitVec 4
  storage : Bool
  dpl : BitVec 2
  present : Bool
  deriving DecidableEq, Repr

def Gate.decode (bits : BitVec 64) : Gate where
  offset := bits.extractLsb' 48 16 ++ bits.extractLsb' 0 16
  selector := bits.extractLsb' 16 16
  kind := bits.extractLsb' 40 4
  storage := bits.getLsbD 44
  dpl := bits.extractLsb' 45 2
  present := bits.getLsbD 47

/-- An interrupt gate or a trap gate of 32 bits that can be used. -/
def Gate.Usable (gate : Gate) : Prop :=
  gate.present = true ∧ gate.storage = false ∧ (gate.kind = 0xE ∨ gate.kind = 0xF)

instance : DecidablePred Gate.Usable := fun _ => inferInstanceAs (Decidable (_ ∧ _))

/-- The flags that a gate clears: `TF`, `NT`, `RF`, `VM`, and `IF` for an interrupt gate. -/
def Gate.cleared (gate : Gate) : Word :=
  1 <<< 8 ||| 1 <<< 14 ||| 1 <<< 16 ||| 1 <<< 17 |||
    if gate.kind = 0xE then interruptFlag else 0

/-- What the processor puts on the stack when it is interrupted at an address. -/
def Cpu.interruptedWords (cpu : Cpu) (eip : Word) (errCode : Option Word) : List Word :=
  [cpu.eflags, (cpu.seg .cs).setWidth 32, eip] ++ errCode.toList

/-- An interrupt at the same privilege level. -/
def Gate.deliver {Routine Fn : Type} (gate : Gate) (cpu : Cpu) (eip : Word)
    (errCode : Option Word) : Option (Control Routine Fn × Cpu) :=
  if gate.Usable then
    some (.goto gate.offset, { cpu.pushAll (cpu.interruptedWords eip errCode) with
      seg := Function.update cpu.seg .cs gate.selector
      eflags := cpu.eflags &&& ~~~gate.cleared })
  else none

/-! ## Segments -/

structure Segment where
  base : Word
  limit : BitVec 20
  accessed : Bool
  writable : Bool
  directionConforming : Bool
  code : Bool
  codeOrData : Bool
  dpl : BitVec 2
  present : Bool
  size : Bool
  granularity : Bool
  deriving DecidableEq, Repr

def Segment.decode (bits : BitVec 64) : Segment where
  base := bits.extractLsb' 56 8 ++ bits.extractLsb' 32 8 ++ bits.extractLsb' 16 16
  limit := bits.extractLsb' 48 4 ++ bits.extractLsb' 0 16
  accessed := bits.getLsbD 40
  writable := bits.getLsbD 41
  directionConforming := bits.getLsbD 42
  code := bits.getLsbD 43
  codeOrData := bits.getLsbD 44
  dpl := bits.extractLsb' 45 2
  present := bits.getLsbD 47
  size := bits.getLsbD 54
  granularity := bits.getLsbD 55

/-- The ways to access a byte. -/
inductive Access where
  | fetch | read | write
  deriving DecidableEq, Repr

/-- The limit in bytes. -/
def Segment.byteLimit (segment : Segment) : Word :=
  if segment.granularity then segment.limit ++ 0xFFF#12 else segment.limit.setWidth 32

/-- The offsets inside the limit; a data segment with a direction expands down. -/
def Segment.Inside (segment : Segment) (offset : Word) : Prop :=
  if segment.code = false ∧ segment.directionConforming = true then
    segment.byteLimit < offset ∧ (segment.size = true ∨ offset < 0x10000)
  else offset ≤ segment.byteLimit

instance (segment : Segment) (offset : Word) : Decidable (segment.Inside offset) := by
  unfold Segment.Inside
  infer_instance

/-- The bit that lets data be written lets code be read. -/
def Segment.Allows (segment : Segment) : Access → Prop
  | .fetch => segment.code = true
  | .read => segment.code = false ∨ segment.writable = true
  | .write => segment.code = false ∧ segment.writable = true

instance (segment : Segment) : DecidablePred segment.Allows := fun access => by
  cases access <;> unfold Segment.Allows <;> infer_instance

/-- The linear address of an access to a byte through a segment. -/
def Segment.translate (segment : Segment) (access : Access) (offset : Word) : Option Word :=
  if segment.present = true ∧ segment.codeOrData = true ∧ segment.Allows access ∧
      segment.Inside offset then some (segment.base + offset)
  else none

/-- The linear address of an access through a selector: the first entry of the table is never
used, and the whole descriptor has to lie below the limit of the table. -/
def translate (table : List (BitVec 64)) (tableLimit : BitVec 16) (selector : BitVec 16)
    (access : Access) (offset : Word) : Option Word :=
  let index := (selector >>> 3).toNat
  if index ≠ 0 ∧ 8 * index + 7 ≤ tableLimit.toNat then
    table[index]?.bind fun bits => (Segment.decode bits).translate access offset
  else none

end Yaeos.Ia32
