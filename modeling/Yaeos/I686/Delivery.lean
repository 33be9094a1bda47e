import Yaeos.I686.Stubs

/-!
# Interrupts from the gate to the return (`arch/i686/intr.asm`, `arch/i686/intr.c`)

The routines call the compiled functions of `intr.c`.  What a function leaves in its argument
is the context that the handler leaves, and with this the interrupted task goes on.
-/

namespace Yaeos

open Ia32

section Delivery

variable {Fn : Type} (run : Fn → IntrCtx IntrFrame → IntrCtx IntrFrame) (intr : Intr Fn)

/-- The context that `irq_handler` leaves in its argument. -/
def irqHandlerCtx (ctx : IntrCtx IntrFrame) : Outcome (IntrCtx IntrFrame) := do
  let intN := if ctx.intN < 0x8 then ctx.intN + irqMasterOffset else ctx.intN + irqSlaveOffset
  let called ← callHandler run intr { ctx with intN := intN }
  .ok called.2

/-- The compiled functions keep to the convention, and leave in their argument what the source
says. -/
structure Compiled (image : IntrImage) : Prop where
  convention : ∀ fn entered left, image.function fn entered = some left →
    Cpu.Cdecl entered left
  irq : ∀ entered left ctx, image.function .irqHandler entered = some left →
    irqHandlerCtx run intr (intrCtxAt entered.mem (entered.gpr .esp + 4)) = .ok ctx →
    intrCtxAt left.mem (entered.gpr .esp + 4) = ctx
  isr : ∀ entered left called ctx, image.function .isrHandler entered = some left →
    isrHandler run intr (intrCtxAt entered.mem (entered.gpr .esp + 4)) = .ok (called, ctx) →
    intrCtxAt left.mem (entered.gpr .esp + 4) = ctx

/-- What of a context makes the task go on where and as it was; the rest of the context does
not matter. -/
structure SameTask (before after : IntrFrame) : Prop where
  edi : after.edi = before.edi
  esi : after.esi = before.esi
  ebp : after.ebp = before.ebp
  ebx : after.ebx = before.ebx
  edx : after.edx = before.edx
  ecx : after.ecx = before.ecx
  eax : after.eax = before.eax
  eip : after.eip = before.eip
  eflags : after.eflags = before.eflags
  cs : after.cs.setWidth 16 = before.cs.setWidth 16
  ds : after.ds.setWidth 16 = before.ds.setWidth 16

/-- One value in all data segment registers but that of the stack. -/
def FlatSegs (cpu : Cpu) : Prop :=
  cpu.seg .es = cpu.seg .ds ∧ cpu.seg .fs = cpu.seg .ds ∧ cpu.seg .gs = cpu.seg .ds

/-- The task goes on as it was, apart from memory. -/
theorem resumed_eq_iff (ctx : IntrCtx IntrFrame) (cpu : Cpu) (eip errCode : Word)
    (mem : Word → BitVec 8) :
    (ctx.frame.eip = eip ∧
      ctx.resumed (cpu.gpr .esp) (cpu.seg .ss) mem = { cpu with mem := mem }) ↔
      SameTask (interruptedFrame cpu eip errCode) ctx.frame ∧ FlatSegs cpu := by
  have dsKept : ((interruptedFrame cpu eip errCode).ds).setWidth 16 = cpu.seg .ds :=
    BitVec.setWidth_append_eq_right
  have csKept : ((interruptedFrame cpu eip errCode).cs).setWidth 16 = cpu.seg .cs := by
    exact BitVec.setWidth_setWidth_of_le _ (by decide)
  constructor
  · rintro ⟨sameEip, same⟩
    have gpr := congrFun (congrArg Cpu.gpr same)
    have seg := congrFun (congrArg Cpu.seg same)
    have ds : ctx.frame.ds.setWidth 16 = cpu.seg .ds := seg .ds
    exact ⟨⟨gpr .edi, gpr .esi, gpr .ebp, gpr .ebx, gpr .edx, gpr .ecx, gpr .eax, sameEip,
      congrArg Cpu.eflags same, (seg .cs).trans csKept.symm, ds.trans dsKept.symm⟩,
      (seg .es).symm.trans ds, (seg .fs).symm.trans ds, (seg .gs).symm.trans ds⟩
  · rintro ⟨same, es, fs, gs⟩
    have ds := same.ds.trans dsKept
    refine ⟨same.eip, Cpu.ext (funext fun reg => ?_) (funext fun seg => ?_) same.eflags rfl⟩
    · cases reg with
      | eax => exact same.eax
      | ecx => exact same.ecx
      | edx => exact same.edx
      | ebx => exact same.ebx
      | esp => rfl
      | ebp => exact same.ebp
      | esi => exact same.esi
      | edi => exact same.edi
    · cases seg with
      | cs => exact same.cs.trans csKept
      | ss => rfl
      | ds => exact ds
      | es => exact ds.trans es.symm
      | fs => exact ds.trans fs.symm
      | gs => exact ds.trans gs.symm

end Delivery

/-! ## An image without handlers -/

/-- A write to the number in a context. -/
theorem intrCtxAt_store (mem : Word → BitVec 8) (address number : Word) :
    intrCtxAt (store mem (address + 36) number) address =
      { intrCtxAt mem address with intN := number } := by
  have below : ∀ offset : Word, offset.toNat ≤ 32 →
      load (store mem (address + 36) number) (address + offset) = load mem (address + offset) :=
    fun offset small => load_store_far (by bv_omega) (by bv_omega)
  have above : ∀ offset : Word, 40 ≤ offset.toNat → offset.toNat ≤ 60 →
      load (store mem (address + 36) number) (address + offset) = load mem (address + offset) :=
    fun offset large small => load_store_far (by bv_omega) (by bv_omega)
  have first := below 0 (by decide)
  rw [show address + 0 = address from BitVec.add_zero address] at first
  simp only [intrCtxAt, load_store, first, below 4 (by decide), below 8 (by decide),
    below 12 (by decide), below 16 (by decide), below 20 (by decide), below 24 (by decide),
    below 28 (by decide), below 32 (by decide), above 40 (by decide) (by decide),
    above 44 (by decide) (by decide), above 48 (by decide) (by decide),
    above 52 (by decide) (by decide), above 56 (by decide) (by decide),
    above 60 (by decide) (by decide)]

/-- The number that `irq_handler` writes to its argument. -/
def irqIntNOf (intN : Word) : Word :=
  if intN < 0x8 then intN + irqMasterOffset else intN + irqSlaveOffset

/-- Routines thirty-two bytes apart, with the functions as they are before any registration. -/
def plainImage : IntrImage where
  place _ := 0xC0100000
  symbol
    | .isr number => BitVec.ofNat 32 (0xC0101000 + 32 * number)
    | .irq number => BitVec.ofNat 32 (0xC0102000 + 32 * number)
  routineAt address := (intrInitGates.find? fun gate => address = match gate.2 with
    | .isr number => BitVec.ofNat 32 (0xC0101000 + 32 * number)
    | .irq number => BitVec.ofNat 32 (0xC0102000 + 32 * number)).map fun gate => .stub gate.2
  function
    | .isrHandler, entered => some entered
    | .irqHandler, entered => some { entered with
        mem := store entered.mem (entered.gpr .esp + 4 + 36)
          (irqIntNOf (load entered.mem (entered.gpr .esp + 4 + 36))) }
  routineAt_symbol := by decide

theorem callHandler_plain {ctx : IntrCtx IntrFrame} {called : Option Nat × IntrCtx IntrFrame}
    (found : callHandler (fun _ ctx => ctx) ⟨fun _ => none, none⟩ ctx = .ok called) :
    called = (none, ctx) := by
  unfold callHandler at found
  split at found
  · cases found
    rfl
  · cases found

theorem plainImage_compiled :
    Compiled (fun (_ : Nat) ctx => ctx) ⟨fun _ => none, none⟩ plainImage where
  convention := by
    rintro (_ | _) entered left returned
    · cases returned
      exact ⟨fun _ _ => rfl, rfl, rfl⟩
    · cases returned
      exact ⟨fun _ _ => rfl, rfl, load_store_far (by bv_omega) (by bv_omega)⟩
  irq := by
    rintro entered left ctx returned handled
    cases returned
    obtain ⟨called, found, left⟩ := Outcome.bind_eq_ok.mp handled
    cases left
    cases callHandler_plain found
    exact intrCtxAt_store ..
  isr := by
    rintro entered left called ctx returned handled
    cases returned
    cases callHandler_plain handled
    rfl

/-- A task somewhere in the kernel. -/
def plainCpu : Cpu := ⟨fun _ => 0xC0200000, fun _ => 0x10, 0x202, fun _ => 0⟩

/-! ## The way through a handler -/

section Handlers

/-- The state in which the function of a handler is entered. -/
def IntrImage.called (image : IntrImage) (vector : Nat) (cpu : Cpu) (eip errCode : Word)
    (number : Nat) : Cpu :=
  image.entered (stubState (image.gate vector) cpu eip errCode number)

/-- The memory of the interrupted task is as it was, but for sixty bytes below its stack. -/
theorem IntrImage.called_mem (image : IntrImage) (vector : Nat) (cpu : Cpu) (eip errCode : Word)
    (number : Nat) {byte : Word} (outside : (byte - cpu.gpr .esp).toNat + 60 < 2 ^ 32) :
    (image.called vector cpu eip errCode number).mem byte = cpu.mem byte := by
  have shifted : (byte - (cpu.gpr .esp - 20)).toNat = (byte - cpu.gpr .esp).toNat + 20 := by
    bv_omega
  refine (image.entered_mem _ ?_).trans (cpu.pushAll_mem (stubWords cpu eip errCode number) ?_)
  · rw [stubState_esp, shifted]
    omega
  · exact Nat.lt_of_le_of_lt (Nat.add_le_add_left (show 4 * 5 ≤ 60 by decide) _) outside

/-- What the function leaves is what the task goes on with. -/
theorem IntrImage.called_resumes (image : IntrImage) {vector : Nat} {fn : IntrFn} {cpu : Cpu}
    {eip errCode : Word} {number steps : Nat} {start : Control IntrRoutine IntrFn × Cpu}
    {left : Cpu}
    (reaches : image.program.run steps start =
      some (.next (stubHandler fn), stubState (image.gate vector) cpu eip errCode number))
    (returned : image.function fn (image.called vector cpu eip errCode number) = some left)
    (convention : Cpu.Cdecl (image.called vector cpu eip errCode number) left) :
    let ctx := intrCtxAt left.mem ((image.called vector cpu eip errCode number).gpr .esp + 4)
    image.program.run (steps + 18) start =
      some (.goto ctx.frame.eip, ctx.resumed (cpu.gpr .esp) (cpu.seg .ss) left.mem) := by
  intro ctx
  have resumes := stubHandler_resumes image fn _ returned convention
  have esp : (stubState (image.gate vector) cpu eip errCode number).gpr .esp + 20 =
      cpu.gpr .esp := by
    rw [stubState_esp]
    bv_omega
  rw [esp] at resumes
  exact (Program.run_add _ 18 reaches).trans resumes

variable {Fn : Type} {run : Fn → IntrCtx IntrFrame → IntrCtx IntrFrame} {intr : Intr Fn}
  {calls : List (IntrCall Fn)} {image : IntrImage}

/-- The handler that `irq_handler` calls for a line. -/
def lineHandler (calls : List (IntrCall Fn)) (line : Nat) : Option Fn :=
  if 7 < line then defaultRegistered calls
  else (picRegistered calls (BitVec.ofNat 8 line)).or (defaultRegistered calls)

theorem irqHandlerCtx_line (trace : (intrMachine Fn).Trace ⟨fun _ => none, none⟩ calls intr)
    {line : Nat} (known : line ∈ irqNumbers) (frame : IntrFrame) :
    irqHandlerCtx run intr ⟨BitVec.ofNat 32 line, frame⟩ =
      .ok (runHandler run (lineHandler calls line) ⟨irqIntN line, frame⟩) := by
  have handled := irqHandler_eq (registered_of_trace trace) run known frame
  obtain ⟨number, inside, -⟩ := irqIntN_spec line known
  simp only [irqHandler, number, callHandler, if_pos inside, Outcome.ok_bind, Except.ok.injEq,
    Prod.mk.injEq] at handled
  simp only [irqHandlerCtx, number, callHandler, if_pos inside, Outcome.ok_bind, handled.1]
  rfl

theorem isrErrNumbers_known : ∀ number ∈ isrErrNumbers,
    intrInitGates.lookup number = some (.isr number) ∧ BitVec.ofNat 32 number < 0x100 ∧
      (BitVec.ofNat 32 number).setWidth 8 = BitVec.ofNat 8 number := by
  decide

/-- What `isr_handler` takes for the registers when it is jumped to: the words that the
interrupt and the task itself left on the stack. -/
def misreadFrame (cpu : Cpu) (eip : Word) : IntrFrame where
  ds := 0
  edi := eip
  esi := (cpu.seg .cs).setWidth 32
  ebp := cpu.eflags
  esp := load cpu.mem (cpu.gpr .esp)
  ebx := load cpu.mem (cpu.gpr .esp + 4)
  edx := load cpu.mem (cpu.gpr .esp + 8)
  ecx := load cpu.mem (cpu.gpr .esp + 12)
  eax := load cpu.mem (cpu.gpr .esp + 16)
  errCode := load cpu.mem (cpu.gpr .esp + 24)
  eip := load cpu.mem (cpu.gpr .esp + 28)
  cs := load cpu.mem (cpu.gpr .esp + 32)
  eflags := load cpu.mem (cpu.gpr .esp + 36)
  preintEsp := load cpu.mem (cpu.gpr .esp + 40)
  ss := load cpu.mem (cpu.gpr .esp + 44)

/-- Without the saved registers the context starts with the error code. -/
theorem stubState_misread (gate : Gate) (cpu : Cpu) (eip : Word) (number : Nat) :
    let called := stubState gate cpu eip 0 number
    intrCtxAt called.mem (called.gpr .esp + 4) =
      ⟨load cpu.mem (cpu.gpr .esp + 20), misreadFrame cpu eip⟩ := by
  intro called
  have task : cpu.stack 12 = [load cpu.mem (cpu.gpr .esp), load cpu.mem (cpu.gpr .esp + 4),
      load cpu.mem (cpu.gpr .esp + 8), load cpu.mem (cpu.gpr .esp + 12),
      load cpu.mem (cpu.gpr .esp + 16), load cpu.mem (cpu.gpr .esp + 20),
      load cpu.mem (cpu.gpr .esp + 24), load cpu.mem (cpu.gpr .esp + 28),
      load cpu.mem (cpu.gpr .esp + 32), load cpu.mem (cpu.gpr .esp + 36),
      load cpu.mem (cpu.gpr .esp + 40), load cpu.mem (cpu.gpr .esp + 44)] := by
    simp only [Cpu.stack, words, BitVec.add_assoc, BitVec.reduceAdd, BitVec.ofNat_eq_ofNat]
  have stack : called.stack 17 = _ := stubState_stack 12 (by decide)
  rw [task] at stack
  exact intrCtxAt_eq (List.cons.inj stack).2

theorem isrNumbers_known : ∀ number ∈ isrNumbers,
    intrInitGates.lookup number = some (.isr number) := by
  decide

/-- An exception without an error code never gets back to the task by the way it came:
`isr_handler` is jumped to, takes a word of the task's stack for the number of the interrupt,
and returns to the address that is the number, with the rest of the interrupt still on the
stack. -/
theorem exception_lost (compiled : Compiled run intr image) {number : Nat}
    (known : number ∈ isrNumbers) (noError : number ∉ isrErrNumbers) (cpu : Cpu) (eip : Word) :
    let called := stubState (image.gate number) cpu eip 0 number
    intrCtxAt called.mem (called.gpr .esp + 4) =
        ⟨load cpu.mem (cpu.gpr .esp + 20), misreadFrame cpu eip⟩ ∧
      ∃ start, (image.gate number).deliver cpu eip none = some start ∧
        ∀ left, image.function .isrHandler called = some left →
          image.program.run 5 start = some (.goto (BitVec.ofNat 32 number), left.drop) ∧
            left.drop.gpr .esp = cpu.gpr .esp - 16 := by
  intro called
  obtain ⟨start, delivered, reaches⟩ :=
    isrNoerr_delivered image cpu eip (isrNumbers_known number known) noError
  refine ⟨stubState_misread .., start, delivered, fun left returned => ?_⟩
  have convention := compiled.convention _ called left returned
  have top : left.top = BitVec.ofNat 32 number := convention.returnAddress.trans stubState_top
  have jumped : image.program.run 1 (.next [.jmpFn .isrHandler], called) =
      some (.goto left.top, left.drop) := by
    have isLeft : image.program.function .isrHandler called = some left := returned
    simp only [Program.run, Program.step, isLeft, Option.map_some, Option.bind_some]
  refine ⟨(Program.run_add _ 1 reaches).trans (top ▸ jumped), ?_⟩
  have kept : left.gpr .esp = called.gpr .esp := convention.kept .esp (by decide)
  have dropped : left.drop.gpr .esp = left.gpr .esp + 4 := rfl
  rw [dropped, kept, stubState_esp]
  bv_omega

theorem exception_lost_plain :
    let called := stubState (plainImage.gate 3) plainCpu 0xC0104000 0 3
    intrCtxAt called.mem (called.gpr .esp + 4) =
        ⟨load plainCpu.mem (plainCpu.gpr .esp + 20), misreadFrame plainCpu 0xC0104000⟩ ∧
      ∃ start, (plainImage.gate 3).deliver plainCpu 0xC0104000 none = some start ∧
        ∀ left, plainImage.function .isrHandler called = some left →
          plainImage.program.run 5 start = some (.goto (BitVec.ofNat 32 3), left.drop) ∧
            left.drop.gpr .esp = plainCpu.gpr .esp - 16 :=
  exception_lost plainImage_compiled (by decide) (by decide) plainCpu 0xC0104000

end Handlers

end Yaeos
