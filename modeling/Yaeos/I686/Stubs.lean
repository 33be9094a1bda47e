import Yaeos.I686.Descriptors

/-!
# The routines of interrupts (`arch/i686/intr.asm`)

A routine puts a number on the stack, saves the registers of the interrupted task behind it
and calls a function with all of it as `struct intr_ctx`.  What the function leaves there is
what the task goes on with.  The routines of exceptions without an error code jump to the
function itself.
-/

namespace Yaeos

open Ia32

/-- The registers in `struct intr_ctx`; the number is `IntrCtx.intN`. -/
structure IntrFrame where
  ds : Word
  edi : Word
  esi : Word
  ebp : Word
  esp : Word
  ebx : Word
  edx : Word
  ecx : Word
  eax : Word
  errCode : Word
  eip : Word
  cs : Word
  eflags : Word
  preintEsp : Word
  ss : Word
  deriving DecidableEq, Repr

/-- `struct intr_ctx` at an address. -/
def intrCtxAt (mem : Word → BitVec 8) (address : Word) : IntrCtx IntrFrame where
  intN := load mem (address + 36)
  frame := {
    ds := load mem address
    edi := load mem (address + 4)
    esi := load mem (address + 8)
    ebp := load mem (address + 12)
    esp := load mem (address + 16)
    ebx := load mem (address + 20)
    edx := load mem (address + 24)
    ecx := load mem (address + 28)
    eax := load mem (address + 32)
    errCode := load mem (address + 40)
    eip := load mem (address + 44)
    cs := load mem (address + 48)
    eflags := load mem (address + 52)
    preintEsp := load mem (address + 56)
    ss := load mem (address + 60) }

/-- The structure in words. -/
theorem intrCtxAt_eq {mem : Word → BitVec 8} {address : Word} {ds edi esi ebp esp ebx edx ecx eax
      intN errCode eip cs eflags preintEsp ss : Word}
    (laidOut : words mem address 16 =
      [ds, edi, esi, ebp, esp, ebx, edx, ecx, eax, intN, errCode, eip, cs, eflags, preintEsp, ss]) :
    intrCtxAt mem address = ⟨intN, ⟨ds, edi, esi, ebp, esp, ebx, edx, ecx, eax, errCode, eip, cs,
      eflags, preintEsp, ss⟩⟩ := by
  simp only [words, BitVec.add_assoc, BitVec.reduceAdd, List.cons.injEq, and_true,
    BitVec.ofNat_eq_ofNat] at laidOut
  simp only [intrCtxAt, BitVec.ofNat_eq_ofNat, laidOut]

/-! ## The routines -/

/-- The labels of `intr.asm`. -/
inductive IntrRoutine where
  | stub (stub : IntrStub)
  | stubIsrHandler
  | stubIrqHandler
  deriving DecidableEq, Repr

/-- The functions of `intr.c` that the routines call. -/
inductive IntrFn where
  | isrHandler
  | irqHandler
  deriving DecidableEq, Repr

/-- `KERNEL_DS_SELECTOR`. -/
def kernelDsSelector : BitVec 16 := 0x10

/-- `movw` of `%ax` to the data segment registers. -/
def loadDataSegs : List Op :=
  [.movTo .eax .ds, .movTo .eax .es, .movTo .eax .fs, .movTo .eax .gs]

/-- `stub_isr_handler` and `stub_irq_handler` up to the call. -/
def stubEntry : List Op :=
  [.pusha, .movFrom .ds .eax, .push .eax, .movImm kernelDsSelector .eax] ++ loadDataSegs

/-- `stub_isr_handler` and `stub_irq_handler` after the call. -/
def stubExit : List Op :=
  [.pop .eax] ++ loadDataSegs ++ [.popa, .addl 8 .esp, .sti]

def stubReturn : List (Instr IntrRoutine IntrFn) := stubExit.map .op ++ [.iret]

def stubHandler (fn : IntrFn) : List (Instr IntrRoutine IntrFn) :=
  stubEntry.map .op ++ .call fn :: stubReturn

def genIsrNoerr (number : Nat) : List (Instr IntrRoutine IntrFn) :=
  [Op.cli, .pushl 0, .pushl (BitVec.ofNat 32 number)].map .op ++ [.jmpFn .isrHandler]

def genIsrErr (number : Nat) : List (Instr IntrRoutine IntrFn) :=
  [Op.cli, .pushl (BitVec.ofNat 32 number)].map .op ++ [.jmp .stubIsrHandler]

def genIrq (number : Nat) : List (Instr IntrRoutine IntrFn) :=
  [Op.cli, .pushl 0, .pushl (BitVec.ofNat 32 number)].map .op ++ [.jmp .stubIrqHandler]

/-- The numbers of `GEN_ISR_ERR`. -/
def isrErrNumbers : List Nat := [8, 10, 11, 12, 13, 14, 17, 21]

def intrCode : IntrRoutine → List (Instr IntrRoutine IntrFn)
  | .stub (.isr number) =>
      if number ∈ isrErrNumbers then genIsrErr number else genIsrNoerr number
  | .stub (.irq number) => genIrq number
  | .stubIsrHandler => stubHandler .isrHandler
  | .stubIrqHandler => stubHandler .irqHandler

/-- The routines as they are linked: where they stand, and compiled functions. -/
structure IntrImage where
  place : List (Instr IntrRoutine IntrFn) → Word
  symbol : IntrStub → Word
  routineAt : Word → Option IntrRoutine
  function : IntrFn → Cpu → Option Cpu
  /-- A routine stands where its symbol says. -/
  routineAt_symbol : ∀ gate ∈ intrInitGates, routineAt (symbol gate.2) = some (.stub gate.2)

def IntrImage.program (image : IntrImage) : Program IntrRoutine IntrFn where
  code := intrCode
  place := image.place
  routineAt := image.routineAt
  function := image.function

/-! ## Entry and exit -/

/-- The words that the entry of a handler saves. -/
def savedWords (cpu : Cpu) : List Word :=
  pushaRegs.map cpu.gpr ++ [(cpu.gpr .eax).extractLsb' 16 16 ++ cpu.seg .ds]

/-- The segment registers with a value in those for data. -/
def withDataSegs (seg : Seg → BitVec 16) (value : BitVec 16) : Seg → BitVec 16
  | .cs => seg .cs
  | .ss => seg .ss
  | _ => value

theorem loadDataSegs_execute (cpu : Cpu) :
    loadDataSegs.foldl Op.execute cpu =
      { cpu with seg := withDataSegs cpu.seg ((cpu.gpr .eax).setWidth 16) } := by
  refine congrArg (fun seg => { cpu with seg := seg }) (funext fun seg => ?_)
  cases seg <;> rfl

theorem stubEntry_mem (cpu : Cpu) :
    (stubEntry.foldl Op.execute cpu).mem = (cpu.pushAll (savedWords cpu)).mem := rfl

theorem stubEntry_esp (cpu : Cpu) :
    (stubEntry.foldl Op.execute cpu).gpr .esp = (cpu.pushAll (savedWords cpu)).gpr .esp := rfl

theorem stubEntry_seg (cpu : Cpu) :
    (stubEntry.foldl Op.execute cpu).seg = withDataSegs cpu.seg kernelDsSelector := by
  rw [stubEntry, List.foldl_append, loadDataSegs_execute]
  exact congrArg (withDataSegs cpu.seg) BitVec.setWidth_append_eq_right

/-- The task that goes on with a context. -/
def IntrCtx.resumed (ctx : IntrCtx IntrFrame) (esp : Word) (ss : BitVec 16)
    (mem : Word → BitVec 8) : Cpu where
  gpr
    | .eax => ctx.frame.eax
    | .ecx => ctx.frame.ecx
    | .edx => ctx.frame.edx
    | .ebx => ctx.frame.ebx
    | .esp => esp
    | .ebp => ctx.frame.ebp
    | .esi => ctx.frame.esi
    | .edi => ctx.frame.edi
  seg
    | .cs => ctx.frame.cs.setWidth 16
    | .ss => ss
    | _ => ctx.frame.ds.setWidth 16
  eflags := ctx.frame.eflags
  mem := mem

/-- The exit of a handler goes on with the context on top of the stack, whose `esp` it does not
look at. -/
theorem stubReturn_resumes (image : IntrImage) (cpu : Cpu) :
    let ctx := intrCtxAt cpu.mem (cpu.gpr .esp)
    image.program.run 9 (.next stubReturn, cpu) =
      some (.goto ctx.frame.eip, ctx.resumed (cpu.gpr .esp + 56) (cpu.seg .ss) cpu.mem) := by
  intro ctx
  have exited := image.program.run_ops stubExit [.iret] cpu
  refine (image.program.run_add 1 exited).trans ?_
  rw [stubExit, List.foldl_append, List.foldl_append, loadDataSegs_execute]
  simp only [List.foldl, Op.execute, Program.run, Program.step, Option.bind_some]
  have pops : ∀ cpu : Cpu, cpu.top = load cpu.mem (cpu.gpr .esp) := fun _ => rfl
  refine congrArg some (Prod.ext ?_ (Cpu.ext (funext fun reg => ?_) (funext fun seg => ?_) ?_ rfl))
  · simp [ctx, intrCtxAt, pops, Cpu.set, Cpu.drop, popaRegs, Cpu.popAll, BitVec.add_assoc]
  · cases reg <;>
    simp [ctx, intrCtxAt, IntrCtx.resumed, pops, Cpu.set, Cpu.drop, popaRegs, Cpu.popAll,
      BitVec.add_assoc]
  · cases seg <;>
    simp [ctx, intrCtxAt, IntrCtx.resumed, withDataSegs, pops, Cpu.set, Cpu.drop, popaRegs,
      Cpu.popAll, BitVec.add_assoc]
  · simp [ctx, intrCtxAt, IntrCtx.resumed, pops, Cpu.set, Cpu.drop, popaRegs, Cpu.popAll,
      BitVec.add_assoc]

/-- The state in which a handler's function is entered. -/
def IntrImage.entered (image : IntrImage) (cpu : Cpu) : Cpu :=
  (stubEntry.foldl Op.execute cpu).push (image.place stubReturn)

theorem IntrImage.entered_esp (image : IntrImage) (cpu : Cpu) :
    (image.entered cpu).gpr .esp = cpu.gpr .esp - 40 := by
  rw [entered, Cpu.push_esp, stubEntry_esp, Cpu.pushAll_esp]
  simp [savedWords, pushaRegs, BitVec.sub_sub]

theorem IntrImage.entered_ss (image : IntrImage) (cpu : Cpu) :
    (image.entered cpu).seg .ss = cpu.seg .ss := by
  rw [entered, Cpu.push_seg, stubEntry_seg]
  rfl

/-- The saved registers lie between the return address and what was on the stack. -/
theorem IntrImage.entered_stack (image : IntrImage) (cpu : Cpu) :
    (image.entered cpu).stack 17 =
      image.place stubReturn :: ((savedWords cpu).reverse ++ cpu.stack 7) := by
  refine (Cpu.stack_push _ _ 16 (by decide)).trans ?_
  exact congrArg _ (Cpu.stack_pushAll cpu (savedWords cpu) 7
    (by simp [savedWords, pushaRegs]))

/-- Saving the registers changes no byte but the forty below the stack pointer. -/
theorem IntrImage.entered_mem (image : IntrImage) (cpu : Cpu) {byte : Word}
    (outside : (byte - cpu.gpr .esp).toNat + 40 < 2 ^ 32) :
    (image.entered cpu).mem byte = cpu.mem byte :=
  Cpu.pushAll_mem cpu (savedWords cpu ++ [image.place stubReturn])
    (by simpa [savedWords, pushaRegs] using outside)

/-- A handler goes on with the context that its function leaves. -/
theorem stubHandler_resumes (image : IntrImage) (fn : IntrFn) (cpu : Cpu) {left : Cpu}
    (returned : image.function fn (image.entered cpu) = some left)
    (convention : Cpu.Cdecl (image.entered cpu) left) :
    let ctx := intrCtxAt left.mem ((image.entered cpu).gpr .esp + 4)
    image.program.run 18 (.next (stubHandler fn), cpu) =
      some (.goto ctx.frame.eip, ctx.resumed (cpu.gpr .esp + 20) (cpu.seg .ss) left.mem) := by
  intro ctx
  have leftEsp : left.drop.gpr .esp = (image.entered cpu).gpr .esp + 4 :=
    congrArg (· + 4) (convention.kept .esp (by decide))
  have resumedEsp : left.drop.gpr .esp + 56 = cpu.gpr .esp + 20 := by
    rw [leftEsp, image.entered_esp]
    bv_omega
  have leftSs : left.drop.seg .ss = cpu.seg .ss :=
    (congrFun convention.seg .ss).trans (image.entered_ss cpu)
  have returns : left.top = image.program.place stubReturn :=
    convention.returnAddress.trans (Cpu.top_push ..)
  have entry := image.program.run_ops stubEntry (.call fn :: stubReturn) cpu
  have call : image.program.run 1 (.next (.call fn :: stubReturn), stubEntry.foldl Op.execute cpu) =
      some (.next stubReturn, left.drop) := by
    have called : image.program.function fn
        ((stubEntry.foldl Op.execute cpu).push (image.program.place stubReturn)) = some left :=
      returned
    simp only [Program.run, Program.step, called, Option.map_some, Option.bind_some, Program.ret]
    rw [if_pos returns]
  have exit := stubReturn_resumes image left.drop
  rw [leftEsp] at exit
  rw [← leftEsp, resumedEsp, leftSs, leftEsp] at exit
  exact (Program.run_add _ 10 entry).trans
    ((Program.run_add _ 9 call).trans exit)

/-! ## From an interrupt to its handler -/

/-- The words on the stack when a stub is through: those of the interrupt, the error code and
the number. -/
def stubWords (cpu : Cpu) (eip errCode : Word) (number : Nat) : List Word :=
  cpu.interruptedWords eip none ++ [errCode, BitVec.ofNat 32 number]

/-- The state in which a stub jumps to its handler. -/
def stubState (gate : Gate) (cpu : Cpu) (eip errCode : Word) (number : Nat) : Cpu :=
  { cpu.pushAll (stubWords cpu eip errCode number) with
    seg := Function.update cpu.seg .cs gate.selector
    eflags := cpu.eflags &&& ~~~gate.cleared &&& ~~~interruptFlag }

/-- The registers of a task in the context of its interrupt.  `esp` is that of `pusha`; behind
the flags lie two words of the task's own. -/
def interruptedFrame (cpu : Cpu) (eip errCode : Word) : IntrFrame where
  ds := (cpu.gpr .eax).extractLsb' 16 16 ++ cpu.seg .ds
  edi := cpu.gpr .edi
  esi := cpu.gpr .esi
  ebp := cpu.gpr .ebp
  esp := cpu.gpr .esp - 20
  ebx := cpu.gpr .ebx
  edx := cpu.gpr .edx
  ecx := cpu.gpr .ecx
  eax := cpu.gpr .eax
  errCode := errCode
  eip := eip
  cs := (cpu.seg .cs).setWidth 32
  eflags := cpu.eflags
  preintEsp := load cpu.mem (cpu.gpr .esp)
  ss := load cpu.mem (cpu.gpr .esp + 4)

section Stub

variable {image : IntrImage} {gate : Gate} {cpu : Cpu} {eip errCode : Word} {number : Nat}

theorem stubState_gpr {reg : Reg} (other : reg ≠ .esp) :
    (stubState gate cpu eip errCode number).gpr reg = cpu.gpr reg := by
  have pushed := Cpu.pushAll_gpr cpu (stubWords cpu eip errCode number) other
  simpa only [stubState] using pushed

theorem stubState_esp :
    (stubState gate cpu eip errCode number).gpr .esp = cpu.gpr .esp - 20 :=
  Cpu.pushAll_esp cpu (stubWords cpu eip errCode number)

theorem stubState_ds : (stubState gate cpu eip errCode number).seg .ds = cpu.seg .ds := rfl

theorem stubState_stack (count : Nat) (inside : 4 * (5 + count) ≤ 2 ^ 32) :
    (stubState gate cpu eip errCode number).stack (5 + count) =
      [BitVec.ofNat 32 number, errCode, eip, (cpu.seg .cs).setWidth 32, cpu.eflags] ++
        cpu.stack count :=
  Cpu.stack_pushAll cpu (stubWords cpu eip errCode number) count inside

theorem stubState_top :
    (stubState gate cpu eip errCode number).top = BitVec.ofNat 32 number := by
  have stack : (stubState gate cpu eip errCode number).stack 5 = _ := stubState_stack 0 (by decide)
  exact (List.cons.inj stack).1

/-- What the function of a handler gets. -/
theorem entered_stubState :
    let entered := image.entered (stubState gate cpu eip errCode number)
    intrCtxAt entered.mem (entered.gpr .esp + 4) =
      ⟨BitVec.ofNat 32 number, interruptedFrame cpu eip errCode⟩ := by
  intro entered
  have saved : (savedWords (stubState gate cpu eip errCode number)).reverse =
      [(cpu.gpr .eax).extractLsb' 16 16 ++ cpu.seg .ds, cpu.gpr .edi, cpu.gpr .esi, cpu.gpr .ebp,
        cpu.gpr .esp - 20, cpu.gpr .ebx, cpu.gpr .edx, cpu.gpr .ecx, cpu.gpr .eax] := by
    simp [savedWords, pushaRegs, stubState_gpr, stubState_esp, stubState_ds]
  have stack := image.entered_stack (stubState gate cpu eip errCode number)
  rw [stubState_stack 2 (by decide), saved] at stack
  exact intrCtxAt_eq (List.cons.inj stack).2

end Stub

/-- The gate that the processor finds for a vector. -/
def IntrImage.gate (image : IntrImage) (vector : Nat) : Gate :=
  Gate.decode (intrInit image.symbol bootSetupIdt (BitVec.ofNat 8 vector)).bits

theorem IntrImage.gate_eq (image : IntrImage) {vector : Nat} {stub : IntrStub}
    (small : vector < 256) (found : intrInitGates.lookup vector = some stub) :
    image.gate vector = intrGate image.symbol stub := by
  have decoded := intrInit_decode image.symbol (BitVec.ofNat 8 vector)
  rw [BitVec.toNat_ofNat, Nat.mod_eq_of_lt small, found] at decoded
  exact decoded

/-- An interrupt goes through the gate of its vector to the routine. -/
theorem IntrImage.deliver_eq (image : IntrImage) {vector : Nat} {stub : IntrStub}
    (found : intrInitGates.lookup vector = some stub) (cpu : Cpu) (eip : Word)
    (errCode : Option Word) :
    ∃ start, (image.gate vector).deliver cpu eip errCode = some start ∧
      image.program.run 1 start = some (.next (intrCode (.stub stub)),
        { cpu.pushAll (cpu.interruptedWords eip errCode) with
          seg := Function.update cpu.seg .cs (image.gate vector).selector
          eflags := cpu.eflags &&& ~~~(image.gate vector).cleared }) := by
  have member : (vector, stub) ∈ intrInitGates := by
    obtain ⟨before, after, split, -⟩ := List.lookup_eq_some_iff.mp found
    exact split ▸ List.mem_append_cons_self
  have small : ∀ gate ∈ intrInitGates, gate.1 < 256 := by decide
  have isGate := image.gate_eq (small _ member) found
  have usable : (image.gate vector).Usable := isGate ▸ intrGate_usable image.symbol stub
  refine ⟨_, if_pos usable, ?_⟩
  have target : (image.gate vector).offset = image.symbol stub := congrArg Gate.offset isGate
  have goto : image.program.routineAt (image.gate vector).offset = some (.stub stub) :=
    target ▸ image.routineAt_symbol _ member
  simp only [Program.run, Program.step, goto, Option.map_some, Option.bind_some]
  rfl

section Delivered

variable (image : IntrImage) {vector number : Nat} (cpu : Cpu) (eip errCode : Word)

theorem irq_delivered (found : intrInitGates.lookup vector = some (.irq number)) :
    ∃ start, (image.gate vector).deliver cpu eip none = some start ∧
      image.program.run 5 start = some (.next (stubHandler .irqHandler),
        stubState (image.gate vector) cpu eip 0 number) := by
  obtain ⟨start, delivered, entered⟩ := image.deliver_eq found cpu eip none
  exact ⟨start, delivered, Program.run_add _ 4 entered⟩

theorem isrErr_delivered (found : intrInitGates.lookup vector = some (.isr number))
    (error : number ∈ isrErrNumbers) :
    ∃ start, (image.gate vector).deliver cpu eip (some errCode) = some start ∧
      image.program.run 4 start = some (.next (stubHandler .isrHandler),
        stubState (image.gate vector) cpu eip errCode number) := by
  obtain ⟨start, delivered, entered⟩ := image.deliver_eq found cpu eip (some errCode)
  rw [intrCode, if_pos error] at entered
  exact ⟨start, delivered, Program.run_add _ 3 entered⟩

theorem isrNoerr_delivered (found : intrInitGates.lookup vector = some (.isr number))
    (noError : number ∉ isrErrNumbers) :
    ∃ start, (image.gate vector).deliver cpu eip none = some start ∧
      image.program.run 4 start = some (.next [.jmpFn .isrHandler],
        stubState (image.gate vector) cpu eip 0 number) := by
  obtain ⟨start, delivered, entered⟩ := image.deliver_eq found cpu eip none
  rw [intrCode, if_neg noError] at entered
  exact ⟨start, delivered, Program.run_add _ 3 entered⟩

end Delivered

end Yaeos
