import Yaeos.Machine.Run
import Mathlib.Data.BitVec
import Mathlib.Logic.Function.Basic

/-!
# Interrupts (`arch/i686/intr.c`, `arch/i686/intr.asm`)

One table holds the handlers of processor exceptions and of hardware interrupts.
A handler is `none` where the source has `NULL`; what handlers do is a parameter,
and they get the context by pointer and may change it.  Of the registers in the
context only the number of the interrupt is named, since only handlers look at the
others.
-/

namespace Yaeos

/-- `struct intr_ctx`. -/
structure IntrCtx (Frame : Type) where
  intN : BitVec 32
  frame : Frame

/-- `HANDLERS` and `DEFAULT_HANDLER`. -/
structure Intr (Fn : Type) where
  handlers : BitVec 8 → Option Fn
  defaultHandler : Option Fn

/-- `IRQ_MASTER_OFFSET`. -/
def irqMasterOffset : Nat := 32

/-- `IRQ_SLAVE_OFFSET`. -/
def irqSlaveOffset : Nat := irqMasterOffset + 8

/-- `iowrite(port, value)`. -/
structure IoWrite where
  port : BitVec 8
  value : BitVec 8
  deriving DecidableEq, Repr

/-- `OCW2_EOI` to `MASTER_CMD`. -/
def masterEoi : IoWrite := ⟨0x20, 0x1 <<< 5⟩

/-- `OCW2_EOI` to `SLAVE_CMD`. -/
def slaveEoi : IoWrite := ⟨0xA0, 0x1 <<< 5⟩

def picWriteEoi (irq : BitVec 8) : List IoWrite :=
  (if irq > 0x7 then [slaveEoi] else []) ++ [masterEoi]

section Handlers

variable {Fn Frame : Type} (run : Fn → IntrCtx Frame → IntrCtx Frame)

/-- Call a handler, if there is one. -/
def runHandler (handler : Option Fn) (ctx : IntrCtx Frame) : IntrCtx Frame :=
  handler.elim ctx fun fn => run fn ctx

/-- The handler called and the context it leaves; without a handler a message is logged. -/
def callHandler (intr : Intr Fn) (ctx : IntrCtx Frame) :
    Outcome (Option Fn × IntrCtx Frame) :=
  if ctx.intN < 0x100 then
    let handler := (intr.handlers (ctx.intN.setWidth 8)).or intr.defaultHandler
    .ok (handler, runHandler run handler ctx)
  else .error .outOfBounds

/-- The handler called and the commands written to the two controllers. -/
def irqHandler (intr : Intr Fn) (ctx : IntrCtx Frame) : Outcome (Option Fn × List IoWrite) := do
  let intN := if ctx.intN < 0x8 then ctx.intN + irqMasterOffset else ctx.intN + irqSlaveOffset
  let called ← callHandler run intr { ctx with intN := intN }
  .ok (called.1, picWriteEoi (called.2.intN.setWidth 8))

def isrHandler (intr : Intr Fn) (ctx : IntrCtx Frame) : Outcome (Option Fn × IntrCtx Frame) :=
  callHandler run intr ctx

end Handlers

section Registration

variable {Fn : Type}

def intrHandlerCpuDefault (intr : Intr Fn) (handlerFn : Option Fn) : Outcome (Intr Fn) := do
  kassert (intr.defaultHandler.isNone)
  .ok { intr with defaultHandler := handlerFn }

def intrHandlerCpu (intr : Intr Fn) (intNo : BitVec 8) (f : Option Fn) : Outcome (Intr Fn) := do
  kassert (intNo < 0x16)
  kassert ((intr.handlers intNo).isNone)
  .ok { intr with handlers := Function.update intr.handlers intNo f }

/-- The place in the table that `intr_handler_pic` chooses. -/
def picIsrNo (intNo : BitVec 8) : BitVec 8 :=
  if intNo > 0x7 then irqSlaveOffset + intNo - 0x8 else irqMasterOffset + intNo

def intrHandlerPic (intr : Intr Fn) (intNo : BitVec 8) (f : Option Fn) : Outcome (Intr Fn) := do
  kassert (intNo < 0x10)
  kassert (intNo ≠ 0x2)
  kassert ((intr.handlers (picIsrNo intNo)).isNone)
  .ok { intr with handlers := Function.update intr.handlers (picIsrNo intNo) f }

end Registration

/-! ## The way of an interrupt to its stub -/

/-- The routines of `intr.asm`. -/
inductive IntrStub where
  | isr (number : Nat)
  | irq (number : Nat)
  deriving DecidableEq, Repr

/-- The numbers of `SET_ISR`. -/
def isrNumbers : List Nat :=
  [0, 1, 2, 3, 4, 5, 6, 7, 8, 10, 11, 12, 13, 14, 15, 16, 17, 18, 19, 20, 21]

/-- The numbers of `SET_IRQ`, for which `GEN_IRQ` makes a stub. -/
def irqNumbers : List Nat := [0, 1, 3, 4, 5, 6, 7, 8, 9, 10, 11, 12, 13, 14, 15]

/-- The gates that `intr_init` sets, by vector. -/
def intrInitGates : List (Nat × IntrStub) :=
  isrNumbers.map (fun num => (num, .isr num)) ++
    irqNumbers.map fun num => (irqMasterOffset + num, .irq num)

/-- The vector that the controllers raise for a line, after `pic_remap` has written the
two offsets to them as `ICW2`. -/
def picVector (line : Nat) : Nat :=
  if line < 8 then irqMasterOffset + line else irqSlaveOffset + (line - 8)

/-- Every line but the cascade reaches the stub that passes on its own number. -/
theorem gate_of_line : ∀ line ∈ irqNumbers,
    intrInitGates.lookup (picVector line) = some (.irq line) := by decide

/-! ## Runs of registrations -/

inductive IntrCall (Fn : Type) where
  | cpuDefault (handlerFn : Option Fn)
  | cpu (intNo : BitVec 8) (f : Option Fn)
  | pic (intNo : BitVec 8) (f : Option Fn)

namespace IntrCall

variable {Fn : Type}

def perform (intr : Intr Fn) : IntrCall Fn → Outcome (Intr Fn)
  | cpuDefault handlerFn => intrHandlerCpuDefault intr handlerFn
  | cpu intNo f => intrHandlerCpu intr intNo f
  | pic intNo f => intrHandlerPic intr intNo f

/-- The handler of a hardware interrupt after one more registration. -/
def picAfter (intNo : BitVec 8) (before : Option Fn) : IntrCall Fn → Option Fn
  | pic other f => if other = intNo then f else before
  | _ => before

/-- The default handler after one more registration. -/
def defaultAfter (before : Option Fn) : IntrCall Fn → Option Fn
  | cpuDefault handlerFn => handlerFn
  | _ => before

end IntrCall

section Runs

variable {Fn Frame : Type}

/-- What `intr_handler_pic` registered for a number. -/
def picRegistered (calls : List (IntrCall Fn)) (intNo : BitVec 8) : Option Fn :=
  calls.foldl (fun before call => call.picAfter intNo before) none

/-- What `intr_handler_cpu_default` registered. -/
def defaultRegistered (calls : List (IntrCall Fn)) : Option Fn :=
  calls.foldl (fun before call => call.defaultAfter before) none

/-- The tables as they start, and every registration that its assertions accept. -/
def intrMachine (Fn : Type) : Machine (Intr Fn) (IntrCall Fn) :=
  .ofOutcome (fun intr => intr = ⟨fun _ => none, none⟩) IntrCall.perform

/-- The numbers that the assertions of `intr_handler_pic` let through. -/
def PicNumber (intNo : BitVec 8) : Prop := intNo < 0x10 ∧ intNo ≠ 0x2

instance : DecidablePred PicNumber := fun _ => inferInstanceAs (Decidable (_ ∧ _))

/-- What the tables hold after some registrations. -/
structure Registered (calls : List (IntrCall Fn)) (intr : Intr Fn) : Prop where
  pic : ∀ intNo, PicNumber intNo → intr.handlers (picIsrNo intNo) = picRegistered calls intNo
  none : ∀ isrNo, isrNo ≥ 0x16 → (∀ intNo, PicNumber intNo → picIsrNo intNo ≠ isrNo) →
    intr.handlers isrNo = none
  default : intr.defaultHandler = defaultRegistered calls

/-- Hardware interrupts have places of their own, behind those of the processor's. -/
theorem picIsrNo_spec : ∀ intNo, PicNumber intNo →
    (picIsrNo intNo ≥ 0x16 ∧ picIsrNo intNo < 0x30) ∧
      ∀ other, PicNumber other → picIsrNo other = picIsrNo intNo → other = intNo := by
  have place : ∀ intNo : BitVec 8, picIsrNo intNo =
      if intNo > 0x7 then 40 + intNo - 0x8 else 32 + intNo := fun _ => rfl
  rintro intNo ⟨inside, -⟩
  refine ⟨⟨?_, ?_⟩, ?_⟩
  · rw [place]
    split <;> bv_omega
  · rw [place]
    split <;> bv_omega
  · rintro other ⟨otherInside, -⟩ same
    rw [place, place] at same
    split at same <;> split at same <;> bv_omega

theorem Registered.step {calls : List (IntrCall Fn)} {intr next : Intr Fn} {call : IntrCall Fn}
    (registered : Registered calls intr) (performed : call.perform intr = .ok next) :
    Registered (calls ++ [call]) next := by
  have picLast : ∀ intNo, picRegistered (calls ++ [call]) intNo =
      call.picAfter intNo (picRegistered calls intNo) := fun intNo => by
    simp [picRegistered]
  have defaultLast : defaultRegistered (calls ++ [call]) =
      call.defaultAfter (defaultRegistered calls) := by
    simp [defaultRegistered]
  cases call with
  | cpuDefault handlerFn =>
      obtain ⟨-, -, returned⟩ := Outcome.bind_eq_ok.mp performed
      cases returned
      exact ⟨fun intNo number => (registered.pic intNo number).trans (picLast intNo).symm,
        registered.none, defaultLast.symm⟩
  | cpu intNo f =>
      obtain ⟨_, inside, performed⟩ := Outcome.bind_eq_ok.mp performed
      obtain ⟨-, -, returned⟩ := Outcome.bind_eq_ok.mp performed
      cases returned
      have below : intNo < 0x16 := kassert_eq_ok.mp inside
      have apart : ∀ isrNo, isrNo ≥ 0x16 → isrNo ≠ intNo := by
        rintro _ isAbove rfl
        exact absurd below (BitVec.not_lt.mpr isAbove)
      refine ⟨fun other number => ?_, fun isrNo isAbove free => ?_,
        registered.default.trans defaultLast.symm⟩
      · refine (Function.update_of_ne (apart _ (picIsrNo_spec other number).1.1) ..).trans ?_
        exact (registered.pic other number).trans (picLast other).symm
      · refine (Function.update_of_ne (apart _ isAbove) ..).trans ?_
        exact registered.none isrNo isAbove free
  | pic intNo f =>
      obtain ⟨_, inside, performed⟩ := Outcome.bind_eq_ok.mp performed
      obtain ⟨_, notCascade, performed⟩ := Outcome.bind_eq_ok.mp performed
      obtain ⟨-, -, returned⟩ := Outcome.bind_eq_ok.mp performed
      cases returned
      have isNumber : PicNumber intNo := ⟨kassert_eq_ok.mp inside, kassert_eq_ok.mp notCascade⟩
      refine ⟨fun other number => ?_, fun isrNo isAbove free => ?_,
        registered.default.trans defaultLast.symm⟩
      · rw [picLast, IntrCall.picAfter]
        by_cases same : intNo = other
        · subst same
          rw [if_pos rfl]
          exact Function.update_self ..
        · have apart : picIsrNo other ≠ picIsrNo intNo := fun equal =>
            same ((picIsrNo_spec intNo isNumber).2 other number equal).symm
          rw [if_neg same]
          exact (Function.update_of_ne apart ..).trans (registered.pic other number)
      · refine (Function.update_of_ne (free intNo isNumber).symm ..).trans ?_
        exact registered.none isrNo isAbove free

theorem registered_of_trace {calls : List (IntrCall Fn)} {intr : Intr Fn}
    (trace : (intrMachine Fn).Trace ⟨fun _ => none, none⟩ calls intr) : Registered calls intr := by
  induction trace with
  | nil => exact ⟨fun _ _ => rfl, fun _ _ _ => rfl, rfl⟩
  | snoc _ performed inductionHypothesis => exact inductionHypothesis.step performed

/-! ## Serving an interrupt -/

/-- What is expected of the service of a line: the handler registered for it is called,
the default handler without one, and the end of the interrupt goes to the master, and to the
slave exactly for its own lines. -/
def Served (registered default : Option Fn) (line : Nat)
    (result : Option Fn × List IoWrite) : Prop :=
  result.1 = registered.or default ∧ (slaveEoi ∈ result.2 ↔ 7 < line) ∧ masterEoi ∈ result.2

/-- The number in the context that a handler gets for a line. -/
def irqIntN (line : Nat) : BitVec 32 :=
  BitVec.ofNat 32 (line + if line < 8 then irqMasterOffset else irqSlaveOffset)

/-- The low byte of the number that the handler of a line leaves in the context. -/
def intNAfter (run : Fn → IntrCtx Frame → IntrCtx Frame) (handler : Option Fn) (line : Nat)
    (frame : Frame) : BitVec 8 :=
  (runHandler run handler ⟨irqIntN line, frame⟩).intN.setWidth 8

/-- Where the lookup for a line goes. -/
theorem irqIntN_spec : ∀ line ∈ irqNumbers,
    (if BitVec.ofNat 32 line < 0x8 then BitVec.ofNat 32 line + irqMasterOffset
      else BitVec.ofNat 32 line + irqSlaveOffset) = irqIntN line ∧ irqIntN line < 0x100 ∧
    (7 < line → (irqIntN line).setWidth 8 ≥ 0x30#8) ∧
    (¬7 < line → (irqIntN line).setWidth 8 = picIsrNo (BitVec.ofNat 8 line)) ∧
    PicNumber (BitVec.ofNat 8 line) := by
  decide

theorem slaveEoi_mem_picWriteEoi (irq : BitVec 8) : slaveEoi ∈ picWriteEoi irq ↔ irq > 7 := by
  have different : slaveEoi ≠ masterEoi := by decide
  unfold picWriteEoi
  split
  · simp_all
  · simp_all

/-- The lines of the slave are looked up eight places too far up, where nothing is ever
registered. -/
theorem irqHandler_eq {calls : List (IntrCall Fn)} {intr : Intr Fn}
    (registered : Registered calls intr) (run : Fn → IntrCtx Frame → IntrCtx Frame) {line : Nat}
    (stub : line ∈ irqNumbers) (frame : Frame) :
    let handler := if 7 < line then defaultRegistered calls
      else (picRegistered calls (BitVec.ofNat 8 line)).or (defaultRegistered calls)
    irqHandler run intr ⟨BitVec.ofNat 32 line, frame⟩ =
      .ok (handler, picWriteEoi (intNAfter run handler line frame)) := by
  obtain ⟨intN, inside, ofSlave, ofMaster, number⟩ := irqIntN_spec line stub
  have found : intr.handlers ((irqIntN line).setWidth 8) =
      if 7 < line then none else picRegistered calls (BitVec.ofNat 8 line) := by
    by_cases slave : 7 < line
    · rw [if_pos slave]
      have far := ofSlave slave
      refine registered.none _ (by bv_omega) fun intNo isNumber same => ?_
      have near := (picIsrNo_spec intNo isNumber).1.2
      rw [same] at near
      exact absurd near (BitVec.not_lt.mpr far)
    · rw [if_neg slave, ofMaster slave]
      exact registered.pic _ number
  simp only [irqHandler, intN, callHandler, if_pos inside, found, Outcome.ok_bind,
    registered.default]
  split <;> rfl

/-- After every run of registrations and for every line, handler and frame: the line is
served as expected exactly if, for a line of the slave, no other handler than the default one
was registered, and the handler called leaves a number in the context whose low byte happens
to be on the same side of 7 as the line. -/
theorem irq_served_iff {calls : List (IntrCall Fn)} {intr : Intr Fn}
    (trace : (intrMachine Fn).Trace ⟨fun _ => none, none⟩ calls intr)
    (run : Fn → IntrCtx Frame → IntrCtx Frame) {line : Nat} (stub : line ∈ irqNumbers)
    (frame : Frame) :
    (∃ result, irqHandler run intr ⟨BitVec.ofNat 32 line, frame⟩ = .ok result ∧
      Served (picRegistered calls (BitVec.ofNat 8 line)) (defaultRegistered calls) line result) ↔
    (7 < line → picRegistered calls (BitVec.ofNat 8 line) = none ∨
      picRegistered calls (BitVec.ofNat 8 line) = defaultRegistered calls) ∧
    (intNAfter run (if 7 < line then defaultRegistered calls
        else (picRegistered calls (BitVec.ofNat 8 line)).or (defaultRegistered calls))
      line frame > 7 ↔ 7 < line) := by
  have served := irqHandler_eq (registered_of_trace trace) run stub frame
  have master : ∀ irq, masterEoi ∈ picWriteEoi irq := fun irq => by simp [picWriteEoi]
  have called : (if 7 < line then defaultRegistered calls
        else (picRegistered calls (BitVec.ofNat 8 line)).or (defaultRegistered calls)) =
      (picRegistered calls (BitVec.ofNat 8 line)).or (defaultRegistered calls) ↔
      (7 < line → picRegistered calls (BitVec.ofNat 8 line) = none ∨
        picRegistered calls (BitVec.ofNat 8 line) = defaultRegistered calls) := by
    by_cases slave : 7 < line
    · cases picRegistered calls (BitVec.ofNat 8 line) with
      | none => simp [slave]
      | some f => simp [slave, eq_comm]
    · simp [slave]
  simp only [served, Except.ok.injEq, exists_eq_left', Served, slaveEoi_mem_picWriteEoi, master,
    and_true, called]

/-- With handlers that leave the number alone, only the lines of the slave without a handler
of their own are served as expected. -/
theorem irq_served_of_kept {calls : List (IntrCall Fn)} {intr : Intr Fn}
    (trace : (intrMachine Fn).Trace ⟨fun _ => none, none⟩ calls intr)
    (run : Fn → IntrCtx Frame → IntrCtx Frame) (keeps : ∀ fn ctx, (run fn ctx).intN = ctx.intN)
    {line : Nat} (stub : line ∈ irqNumbers) (frame : Frame) :
    (∃ result, irqHandler run intr ⟨BitVec.ofNat 32 line, frame⟩ = .ok result ∧
      Served (picRegistered calls (BitVec.ofNat 8 line)) (defaultRegistered calls) line result) ↔
    7 < line ∧ (picRegistered calls (BitVec.ofNat 8 line) = none ∨
      picRegistered calls (BitVec.ofNat 8 line) = defaultRegistered calls) := by
  have after : ∀ handler, intNAfter run handler line frame > 7 := by
    intro handler
    have kept : intNAfter run handler line frame = (irqIntN line).setWidth 8 := by
      cases handler with
      | none => rfl
      | some fn => exact congrArg (BitVec.setWidth 8) (keeps fn _)
    rw [kept]
    revert stub
    clear * -
    revert line
    decide
  rw [irq_served_iff trace run stub frame]
  simp only [after, true_iff]
  tauto

/-- A keyboard handler on line 1 and one on line 8, behind a default handler. -/
def twoLines : List (IntrCall Nat) := [.cpuDefault (some 0), .pic 1 (some 1), .pic 8 (some 8)]

/-- The tables after these registrations. -/
def twoLinesIntr : Intr Nat where
  handlers := Function.update (Function.update (fun _ => none) 33 (some 1)) 40 (some 8)
  defaultHandler := some 0

theorem twoLines_trace :
    (intrMachine Nat).Trace ⟨fun _ => none, none⟩ twoLines twoLinesIntr := by
  have first : @IntrCall.perform Nat ⟨fun _ => none, none⟩ (.cpuDefault (some 0)) =
      .ok ⟨fun _ => none, some 0⟩ := rfl
  have second : IntrCall.perform ⟨fun _ => none, some 0⟩ (.pic 1 (some 1)) =
      .ok ⟨Function.update (fun _ => none) 33 (some 1), some 0⟩ := rfl
  have third : IntrCall.perform ⟨Function.update (fun _ => none) 33 (some 1), some 0⟩
      (.pic 8 (some 8)) = .ok twoLinesIntr := rfl
  exact .snoc (.snoc (.snoc .nil first) second) third

theorem twoLines_served :
    (∃ result, irqHandler (fun _ ctx => ctx) twoLinesIntr (IntrCtx.mk (BitVec.ofNat 32 9) ()) =
        .ok result ∧
      Served (picRegistered twoLines (BitVec.ofNat 8 9)) (defaultRegistered twoLines) 9 result) ↔
    (7 < 9 → picRegistered twoLines (BitVec.ofNat 8 9) = none ∨
      picRegistered twoLines (BitVec.ofNat 8 9) = defaultRegistered twoLines) ∧
    (intNAfter (fun (_ : Nat) ctx => ctx) (if 7 < 9 then defaultRegistered twoLines
        else (picRegistered twoLines (BitVec.ofNat 8 9)).or (defaultRegistered twoLines))
      9 () > 7 ↔ 7 < 9) :=
  irq_served_iff twoLines_trace _ (by decide) ()

/-- On line 8 the default handler is called instead of the registered one; on line 1 the
slave gets an end of interrupt. -/
theorem twoLines_notServed :
    (intrMachine Nat).Trace ⟨fun _ => none, none⟩ twoLines twoLinesIntr ∧
    irqHandler (fun _ ctx => ctx) twoLinesIntr (IntrCtx.mk 8 ()) =
      .ok (some 0, [slaveEoi, masterEoi]) ∧
    irqHandler (fun _ ctx => ctx) twoLinesIntr (IntrCtx.mk 1 ()) =
      .ok (some 1, [slaveEoi, masterEoi]) ∧
    ¬∀ line ∈ irqNumbers, ∃ result,
      irqHandler (fun _ ctx => ctx) twoLinesIntr (IntrCtx.mk (BitVec.ofNat 32 line) ()) =
        .ok result ∧
      Served (picRegistered twoLines (BitVec.ofNat 8 line)) (defaultRegistered twoLines) line
        result := by
  have slave : irqHandler (fun _ ctx => ctx) twoLinesIntr (IntrCtx.mk 8 ()) =
      .ok (some 0, [slaveEoi, masterEoi]) := by decide
  refine ⟨twoLines_trace, slave, by decide, fun all => ?_⟩
  obtain ⟨result, returned, served⟩ := all 8 (by decide)
  cases slave.symm.trans returned
  exact absurd served.1 (by decide)

end Runs

end Yaeos
