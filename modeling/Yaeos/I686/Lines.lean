import Yaeos.Machine.Pic
import Yaeos.I686.Intr

/-!
# The lines of the controllers (`arch/i686/intr.c`)

`pic_remap` programs the two controllers and `irq_handler` ends the interrupts.  A step of the
system raises a line or serves the line that the controllers choose, from the acknowledgement
to the end of the interrupt: handlers run with interrupts disabled.
-/

namespace Yaeos

open Pic

/-- The bytes that `pic_remap` writes, with the masks that it read first. -/
def picRemapWrites (masterMask slaveMask masterOffset slaveOffset : BitVec 8) : List IoWrite :=
  [⟨0x20, 0x1 <<< 4 ||| 0x1 <<< 0⟩, ⟨0xA0, 0x1 <<< 4 ||| 0x1 <<< 0⟩,
    ⟨0x21, masterOffset⟩, ⟨0xA1, slaveOffset⟩, ⟨0x21, 0x1 <<< 2⟩, ⟨0xA1, 0x2⟩,
    ⟨0x21, 0x1⟩, ⟨0xA1, 0x1⟩, ⟨0x21, masterMask⟩, ⟨0xA1, slaveMask⟩]

/-- The controllers take some bytes, one after the other. -/
def performWrites (pair : Pair) (writes : List IoWrite) : Pair :=
  writes.foldl (fun pair written => pair.write written.port written.value) pair

/-- `pic_remap(IRQ_MASTER_OFFSET, IRQ_SLAVE_OFFSET)`. -/
def picRemap (pair : Pair) : Pair :=
  performWrites pair (picRemapWrites pair.master.mask pair.slave.mask
    (BitVec.ofNat 8 irqMasterOffset) (BitVec.ofNat 8 irqSlaveOffset))

/-- Whatever state the controllers are in, they end up initialized for each other and for the
two offsets, with the masks they had. -/
theorem picRemap_eq (pair : Pair) :
    picRemap pair = {
      master := { pair.master with
        stage := .operating, single := false, needsIcw4 := true
        offset := BitVec.ofNat 8 irqMasterOffset, cascade := BitVec.twoPow 8 2, mode := 1 }
      slave := { pair.slave with
        stage := .operating, single := false, needsIcw4 := true
        offset := BitVec.ofNat 8 irqSlaveOffset, cascade := 2, mode := 1 } } := rfl

/-- The controllers between two interrupts, with the vectors of `pic_remap`. -/
structure Remapped (pair : Pair) : Prop extends pair.Quiet where
  masterOffset : pair.master.offset = BitVec.ofNat 8 irqMasterOffset
  slaveOffset : pair.slave.offset = BitVec.ofNat 8 irqSlaveOffset

theorem Remapped.vector {pair : Pair} (remapped : Remapped pair) {line : Nat}
    (known : line ∈ irqNumbers) : pair.vector line = BitVec.ofNat 8 (picVector line) := by
  rw [Pair.vector, remapped.masterOffset, remapped.slaveOffset]
  revert known
  revert line
  decide

theorem Remapped.raise {pair : Pair} (remapped : Remapped pair) {line : Nat}
    (known : line ∈ irqNumbers) : Remapped (pair.raise line) := by
  have notWire : line ≠ 2 := by
    rintro rfl
    exact absurd known (by decide)
  unfold Pair.raise
  split
  · refine ⟨⟨remapped.masterStage, remapped.slaveStage, remapped.masterCascade,
      remapped.slaveCascade, remapped.masterInService, remapped.slaveInService, ?_⟩,
      remapped.masterOffset, remapped.slaveOffset⟩
    refine (BitVec.getLsbD_or ..).trans ?_
    rw [remapped.wire, BitVec.getLsbD_twoPow, decide_eq_false notWire, Bool.and_false,
      Bool.or_false]
  · exact ⟨⟨remapped.masterStage, remapped.slaveStage, remapped.masterCascade,
      remapped.slaveCascade, remapped.masterInService, remapped.slaveInService, remapped.wire⟩,
      remapped.masterOffset, remapped.slaveOffset⟩

/-! ## The end of an interrupt -/

/-- The end of the interrupt that the highest line in service belongs to. -/
def ended (chip : Chip) : Chip := { chip with inService := chip.inService &&& chip.inService - 1 }

theorem performWrites_picWriteEoi (pair : Pair) (irq : BitVec 8) :
    performWrites pair (picWriteEoi irq) =
      ⟨ended pair.master, if irq > 0x7 then ended pair.slave else pair.slave⟩ := by
  unfold picWriteEoi
  split
  · rfl
  · rfl

/-- What a controller was initialized with is the same. -/
structure SameSetup (before after : Chip) : Prop where
  stage : after.stage = before.stage
  offset : after.offset = before.offset
  cascade : after.cascade = before.cascade

theorem Remapped.of_sameSetup {pair next : Pair} (remapped : Remapped pair)
    (master : SameSetup pair.master next.master) (slave : SameSetup pair.slave next.slave)
    (masterInService : next.master.inService = 0) (slaveInService : next.slave.inService = 0)
    (wire : next.master.requested.getLsbD 2 = false) : Remapped next where
  masterStage := master.stage.trans remapped.masterStage
  slaveStage := slave.stage.trans remapped.slaveStage
  masterCascade := master.cascade.trans remapped.masterCascade
  slaveCascade := slave.cascade.trans remapped.slaveCascade
  masterInService := masterInService
  slaveInService := slaveInService
  wire := wire
  masterOffset := master.offset.trans remapped.masterOffset
  slaveOffset := slave.offset.trans remapped.slaveOffset

theorem ended_of_quiet {chip : Chip} (quiet : chip.inService = 0) : (ended chip).inService = 0 := by
  rw [ended, quiet]
  rfl

theorem ended_of_single {chip : Chip} {line : Nat} (small : line < 8)
    (single : chip.inService = 0 ||| BitVec.twoPow 8 line) : (ended chip).inService = 0 := by
  rw [ended, single]
  exact Chip.end_of_single line small

/-- After the service of a line no line is in service, unless the line is one of the slave and
the end of its interrupt is not written there. -/
theorem Remapped.serve_iff {pair : Pair} (remapped : Remapped pair) {line : Nat}
    (small : line < 16) (irq : BitVec 8) :
    Remapped (performWrites (pair.serving line) (picWriteEoi irq)) ↔ (7 < line → irq > 0x7) := by
  rw [performWrites_picWriteEoi, Pair.serving]
  by_cases own : line < 8
  · rw [if_pos own]
    refine iff_of_true ?_ fun beyond => absurd own (by omega)
    have masterEnds : (ended (pair.master.acknowledge line)).inService = 0 :=
      ended_of_single own (congrArg (· ||| _) remapped.masterInService)
    have wire : (ended (pair.master.acknowledge line)).requested.getLsbD 2 = false := by
      refine (BitVec.getLsbD_and ..).trans ?_
      rw [remapped.wire, Bool.false_and]
    split
    · exact remapped.of_sameSetup ⟨rfl, rfl, rfl⟩ ⟨rfl, rfl, rfl⟩ masterEnds
        (ended_of_quiet remapped.slaveInService) wire
    · exact remapped.of_sameSetup ⟨rfl, rfl, rfl⟩ ⟨rfl, rfl, rfl⟩ masterEnds
        remapped.slaveInService wire
  · rw [if_neg own]
    have slaveSingle : (pair.slave.acknowledge (line - 8)).inService =
        0 ||| BitVec.twoPow 8 (line - 8) := congrArg (· ||| _) remapped.slaveInService
    have beyond : 7 < line := by omega
    by_cases written : irq > 0x7
    · rw [if_pos written]
      refine iff_of_true ?_ fun _ => written
      exact remapped.of_sameSetup ⟨rfl, rfl, rfl⟩ ⟨rfl, rfl, rfl⟩
        (ended_of_single (by decide) (congrArg (· ||| _) remapped.masterInService))
        (ended_of_single (by omega) slaveSingle) remapped.wire
    · rw [if_neg written]
      refine iff_of_false (fun after => ?_) fun all => written (all beyond)
      have single : ∀ slaveLine < 8, 0 ||| BitVec.twoPow 8 slaveLine ≠ 0 := by decide
      exact single _ (by omega) (slaveSingle.symm.trans after.slaveInService)

/-! ## Runs -/

inductive LineEvent (Frame : Type) where
  | raise (line : Nat)
  | serve (line : Nat) (frame : Frame)

section Runs

variable {Fn Frame : Type} (run : Fn → IntrCtx Frame → IntrCtx Frame) (intr : Intr Fn)

/-- The vector leads to a routine, whose number `irq_handler` gets. -/
inductive LineStep : Pair → LineEvent Frame → Pair → Prop where
  | raise {pair line} : line ∈ irqNumbers → LineStep pair (.raise line) (pair.raise line)
  | serve {pair line vector serving number frame called writes} :
      pair.acknowledge = some (line, vector, serving) →
      intrInitGates.lookup vector.toNat = some (.irq number) →
      irqHandler run intr ⟨BitVec.ofNat 32 number, frame⟩ = .ok (called, writes) →
      LineStep pair (.serve line frame) (performWrites serving writes)

/-- The controllers from `pic_remap` on, with the handlers that are registered. -/
def linesMachine : Machine Pair (LineEvent Frame) where
  initial pair := ∃ before : Pair, before.master.inService = 0 ∧ before.slave.inService = 0 ∧
    before.master.requested.getLsbD 2 = false ∧ pair = picRemap before
  step := LineStep run intr

/-- The default handler leaves a number for which the slave is told the end of the interrupt. -/
def EndsAtSlave (calls : List (IntrCall Fn)) : Prop :=
  ∀ line ∈ irqNumbers, 7 < line → ∀ frame : Frame,
    intNAfter run (defaultRegistered calls) line frame > 0x7

theorem priorities_known : ∀ line ∈ Pair.priorities, line ∈ irqNumbers ∧ line < 16 ∧
    intrInitGates.lookup (BitVec.ofNat 8 (picVector line)).toNat = some (.irq line) := by
  decide

variable {run intr} {calls : List (IntrCall Fn)}

/-- The lines that the controllers choose, and the routines that their vectors lead to. -/
theorem Remapped.acknowledge_eq_some {pair : Pair} (remapped : Remapped pair) {line : Nat}
    {vector : BitVec 8} {serving : Pair} :
    pair.acknowledge = some (line, vector, serving) ↔
      Pair.priorities.find? pair.ready = some line ∧
        vector = BitVec.ofNat 8 (picVector line) ∧ serving = pair.serving line := by
  rw [remapped.acknowledge_eq]
  constructor
  · intro acknowledged
    obtain ⟨chosen, found, same⟩ := Option.map_eq_some_iff.mp acknowledged
    cases same
    have known := (priorities_known line (List.mem_of_find?_eq_some found)).1
    exact ⟨found, remapped.vector known, rfl⟩
  · rintro ⟨found, rfl, rfl⟩
    have known := (priorities_known line (List.mem_of_find?_eq_some found)).1
    rw [found, Option.map_some, remapped.vector known]

variable (run) in
/-- The bytes that end the interrupt of a line. -/
theorem irqHandler_writes
    (trace : (intrMachine Fn).Trace ⟨fun _ => none, none⟩ calls intr) {line : Nat}
    (known : line ∈ irqNumbers) (frame : Frame) :
    ∃ called irq, irqHandler run intr ⟨BitVec.ofNat 32 line, frame⟩ =
        .ok (called, picWriteEoi irq) ∧
      (7 < line → irq = intNAfter run (defaultRegistered calls) line frame) := by
  refine ⟨_, _, irqHandler_eq (registered_of_trace trace) run known frame, fun slave => ?_⟩
  rw [if_pos slave]

theorem Remapped.step (trace : (intrMachine Fn).Trace ⟨fun _ => none, none⟩ calls intr)
    (ends : EndsAtSlave run calls) {pair next : Pair} {event : LineEvent Frame}
    (remapped : Remapped pair) (stepped : LineStep run intr pair event next) : Remapped next := by
  cases stepped with
  | raise known => exact remapped.raise known
  | serve acknowledged routine handled =>
      obtain ⟨found, rfl, rfl⟩ := remapped.acknowledge_eq_some.mp acknowledged
      obtain ⟨known, small, leads⟩ := priorities_known _ (List.mem_of_find?_eq_some found)
      cases leads.symm.trans routine
      obtain ⟨called, irq, returned, isIrq⟩ := irqHandler_writes run trace known _
      cases returned.symm.trans handled
      exact (remapped.serve_iff small irq).mpr fun slave =>
        isIrq slave ▸ ends _ known slave _

/-- No request is lost and none is served twice: the service of a line takes back its request
and no other. -/
theorem ready_served (pair : Pair) {line other : Nat} (small : line < 16) (otherSmall : other < 16)
    (irq : BitVec 8) :
    (performWrites (pair.serving line) (picWriteEoi irq)).ready other =
      (pair.ready other && decide (other ≠ line)) := by
  have taken : ∀ (requests : BitVec 8) (taken asked : Nat), asked < 8 → taken < 8 →
      (requests &&& ~~~(BitVec.twoPow 8 taken)).getLsbD asked =
        (requests.getLsbD asked && decide (asked ≠ taken)) := by
    intro requests taken asked inside takenInside
    rw [BitVec.getLsbD_and, BitVec.getLsbD_not, BitVec.getLsbD_twoPow]
    by_cases same : asked = taken
    · simp [same, takenInside]
    · simp [same, Ne.symm same, inside]
  have servedEnds : ∀ slave : Chip, (if irq > 0x7 then ended slave else slave).requested =
      slave.requested ∧ (if irq > 0x7 then ended slave else slave).mask = slave.mask :=
    fun slave => by split <;> exact ⟨rfl, rfl⟩
  rw [performWrites_picWriteEoi, Pair.serving]
  by_cases own : line < 8 <;> by_cases otherOwn : other < 8
  · simp only [if_pos own, Pair.ready, if_pos otherOwn]
    simp only [ended, Chip.acknowledge, taken _ line other otherOwn own]
    grind
  · simp only [if_pos own, Pair.ready, if_neg otherOwn, servedEnds]
    simp only [ended, Chip.acknowledge]
    grind
  · simp only [if_neg own, Pair.ready, if_pos otherOwn, ended]
    grind
  · simp only [if_neg own, Pair.ready, if_neg otherOwn, servedEnds]
    simp only [ended, Chip.acknowledge, taken _ (line - 8) (other - 8) (by omega) (by omega)]
    grind

/-- A controller that nothing was done to. -/
def resetChip : Chip := ⟨.operating, false, true, 0, 0, 0, 0, 0, 0⟩

theorem raised_alone : ∀ line ∈ irqNumbers,
    Pair.priorities.find? ((picRemap ⟨resetChip, resetChip⟩).raise line).ready = some line := by
  decide

theorem remapped_of_reachable (trace : (intrMachine Fn).Trace ⟨fun _ => none, none⟩ calls intr)
    (ends : EndsAtSlave run calls) {pair : Pair}
    (reached : (linesMachine run intr).Reachable pair) : Remapped pair := by
  refine reached.invariant ?_ fun _ _ _ remapped stepped => remapped.step trace ends stepped
  rintro _ ⟨before, masterInService, slaveInService, wire, rfl⟩
  rw [picRemap_eq]
  exact ⟨⟨rfl, rfl, rfl, rfl, masterInService, slaveInService, wire⟩, rfl, rfl⟩

/-- From `pic_remap` on and after every registration of handlers, no line is in service
between two interrupts in any run exactly if the default handler never hides from `irq_handler`
that it served a line of the slave. -/
theorem lines_idle_iff (trace : (intrMachine Fn).Trace ⟨fun _ => none, none⟩ calls intr) :
    (∀ pair, (linesMachine run intr).Reachable pair → Remapped pair) ↔
      EndsAtSlave run calls := by
  constructor
  · intro idle line known slave frame
    have start : (linesMachine run intr).Reachable (picRemap ⟨resetChip, resetChip⟩) :=
      .initial ⟨_, rfl, rfl, rfl, rfl⟩
    have raised : (linesMachine run intr).step (picRemap ⟨resetChip, resetChip⟩) (.raise line)
        ((picRemap ⟨resetChip, resetChip⟩).raise line) := LineStep.raise known
    have before := idle _ (start.step raised)
    have acknowledged := before.acknowledge_eq_some.mpr ⟨raised_alone line known, rfl, rfl⟩
    obtain ⟨called, irq, returned, isIrq⟩ := irqHandler_writes run trace known frame
    have first := List.mem_of_find?_eq_some (raised_alone line known)
    obtain ⟨-, small, leads⟩ := priorities_known line first
    have served : (linesMachine run intr).step _ (.serve line frame) _ :=
      LineStep.serve acknowledged leads returned
    have after := idle _ ((start.step raised).step served)
    exact isIrq slave ▸ (before.serve_iff small irq).mp after slave
  · exact fun ends pair reached => remapped_of_reachable trace ends reached

theorem lines_idle_twoLines :
    (∀ pair, (linesMachine (fun (_ : Nat) (ctx : IntrCtx Unit) => ctx)
        twoLinesIntr).Reachable pair → Remapped pair) ↔
      EndsAtSlave (fun (_ : Nat) (ctx : IntrCtx Unit) => ctx) twoLines :=
  lines_idle_iff twoLines_trace

/-- Handlers that leave the number alone are what `irq_handler` expects. -/
theorem endsAtSlave_of_keeps (keeps : ∀ fn ctx, (run fn ctx).intN = ctx.intN)
    (calls : List (IntrCall Fn)) : EndsAtSlave run calls := by
  intro line known slave frame
  have kept : intNAfter run (defaultRegistered calls) line frame = (irqIntN line).setWidth 8 := by
    unfold intNAfter runHandler
    cases defaultRegistered calls with
    | none => rfl
    | some fn => exact congrArg (BitVec.setWidth 8) (keeps fn _)
  have above : ∀ line ∈ irqNumbers, (irqIntN line).setWidth 8 > 0x7#8 := by decide
  exact kept ▸ above line known

end Runs

end Yaeos
