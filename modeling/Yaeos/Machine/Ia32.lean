import Mathlib.Data.BitVec
import Mathlib.Logic.Function.Basic

/-!
# A processor with a stack in memory

The part of the processor that takes part in the entry to and the exit from a routine:
general and segment registers, flags, a memory of bytes, and the instructions that move
words between them and the stack.  Functions compiled from another language are known by
what they leave behind when they are about to return.  The arithmetic flags that `addl`
sets are not modelled.
-/

namespace Yaeos.Ia32

abbrev Word := BitVec 32

inductive Reg where
  | eax | ecx | edx | ebx | esp | ebp | esi | edi
  deriving DecidableEq, Repr

inductive Seg where
  | cs | ss | ds | es | fs | gs
  deriving DecidableEq, Repr

@[ext]
structure Cpu where
  gpr : Reg → Word
  seg : Seg → BitVec 16
  eflags : Word
  mem : Word → BitVec 8

/-! ## Words in a memory of bytes -/

/-- The little-endian word at an address. -/
def load (mem : Word → BitVec 8) (address : Word) : Word :=
  mem (address + 3) ++ mem (address + 2) ++ mem (address + 1) ++ mem address

def store (mem : Word → BitVec 8) (address value : Word) : Word → BitVec 8 := fun byte =>
  if (byte - address).toNat < 4 then value.extractLsb' (8 * (byte - address).toNat) 8
  else mem byte

theorem load_store (mem : Word → BitVec 8) (address value : Word) :
    load (store mem address value) address = value := by
  have offsets : (address - address).toNat = 0 ∧ (address + 1 - address).toNat = 1 ∧
      (address + 2 - address).toNat = 2 ∧ (address + 3 - address).toNat = 3 := by bv_omega
  simp only [load, store, offsets]
  refine BitVec.eq_of_getLsbD_eq fun bit inside => ?_
  simp only [Nat.reduceMul, Nat.reduceLT, if_true, BitVec.getLsbD_append,
    BitVec.getLsbD_extractLsb']
  grind

/-- A word is not touched by a store to four other bytes. -/
theorem load_store_far {mem : Word → BitVec 8} {address other value : Word}
    (above : 4 ≤ (other - address).toNat) (below : (other - address).toNat ≤ 2 ^ 32 - 4) :
    load (store mem address value) other = load mem other := by
  have outside : ∀ offset : Word, offset.toNat < 4 →
      ¬(other + offset - address).toNat < 4 := by
    intro offset small
    bv_omega
  have first := outside 0 (by decide)
  rw [show other + 0 = other from BitVec.add_zero other] at first
  simp only [load, store, first, outside 1 (by decide), outside 2 (by decide),
    outside 3 (by decide), if_false]

/-- The words that follow one another from an address on. -/
def words (mem : Word → BitVec 8) (address : Word) : Nat → List Word
  | 0 => []
  | count + 1 => load mem address :: words mem (address + 4) count

theorem length_words (mem : Word → BitVec 8) (address : Word) (count : Nat) :
    (words mem address count).length = count := by
  induction count generalizing address with
  | zero => rfl
  | succ count inductionHypothesis => exact congrArg (· + 1) (inductionHypothesis _)

theorem words_store_far {mem : Word → BitVec 8} {address other value : Word} {count : Nat}
    (above : 4 ≤ (other - address).toNat)
    (below : (other - address).toNat + 4 * count ≤ 2 ^ 32) :
    words (store mem address value) other count = words mem other count := by
  induction count generalizing other with
  | zero => rfl
  | succ count inductionHypothesis =>
      rw [words, words, load_store_far above (by omega)]
      cases count with
      | zero => rfl
      | succ count =>
          have next : (other + 4 - address).toNat = (other - address).toNat + 4 := by bv_omega
          rw [inductionHypothesis (by omega) (by omega)]

/-! ## The stack -/

namespace Cpu

def set (cpu : Cpu) (reg : Reg) (value : Word) : Cpu :=
  { cpu with gpr := Function.update cpu.gpr reg value }

/-- The top of the stack. -/
def top (cpu : Cpu) : Word := load cpu.mem (cpu.gpr .esp)

def push (cpu : Cpu) (value : Word) : Cpu :=
  { cpu.set .esp (cpu.gpr .esp - 4) with mem := store cpu.mem (cpu.gpr .esp - 4) value }

/-- The registers after the top of the stack is taken; the popped word is `top`. -/
def drop (cpu : Cpu) : Cpu := cpu.set .esp (cpu.gpr .esp + 4)

/-- Push some words, the first one first. -/
def pushAll (cpu : Cpu) (values : List Word) : Cpu := values.foldl push cpu

/-- The words from the stack pointer on. -/
def stack (cpu : Cpu) (count : Nat) : List Word := words cpu.mem (cpu.gpr .esp) count

@[simp] theorem push_seg (cpu : Cpu) (value : Word) : (cpu.push value).seg = cpu.seg := rfl

@[simp] theorem push_eflags (cpu : Cpu) (value : Word) :
    (cpu.push value).eflags = cpu.eflags := rfl

@[simp] theorem push_esp (cpu : Cpu) (value : Word) :
    (cpu.push value).gpr .esp = cpu.gpr .esp - 4 := rfl

theorem push_gpr (cpu : Cpu) (value : Word) {reg : Reg} (other : reg ≠ .esp) :
    (cpu.push value).gpr reg = cpu.gpr reg := Function.update_of_ne other ..

@[simp] theorem top_push (cpu : Cpu) (value : Word) : (cpu.push value).top = value :=
  load_store ..

/-- What was on the stack is below the word pushed, as far as the addresses go. -/
theorem stack_push (cpu : Cpu) (value : Word) (count : Nat) (inside : 4 * (count + 1) ≤ 2 ^ 32) :
    (cpu.push value).stack (count + 1) = value :: cpu.stack count := by
  have next : (cpu.push value).gpr .esp + 4 = cpu.gpr .esp := by
    rw [push_esp]
    bv_omega
  rw [stack, words, next]
  refine congrArg₂ List.cons (load_store ..) ?_
  cases count with
  | zero => rfl
  | succ count =>
      refine words_store_far ?_ ?_
      · bv_omega
      · bv_omega

@[simp] theorem pushAll_seg (cpu : Cpu) (values : List Word) :
    (cpu.pushAll values).seg = cpu.seg := by
  induction values generalizing cpu with
  | nil => rfl
  | cons value values inductionHypothesis => exact inductionHypothesis _

@[simp] theorem pushAll_eflags (cpu : Cpu) (values : List Word) :
    (cpu.pushAll values).eflags = cpu.eflags := by
  induction values generalizing cpu with
  | nil => rfl
  | cons value values inductionHypothesis => exact inductionHypothesis _

theorem pushAll_esp (cpu : Cpu) (values : List Word) :
    (cpu.pushAll values).gpr .esp = cpu.gpr .esp - 4 * BitVec.ofNat 32 values.length := by
  induction values generalizing cpu with
  | nil => simp [pushAll]
  | cons value values inductionHypothesis =>
      rw [pushAll, List.foldl_cons, ← pushAll, inductionHypothesis, push_esp, List.length_cons,
        BitVec.ofNat_add]
      bv_omega

theorem pushAll_gpr (cpu : Cpu) (values : List Word) {reg : Reg} (other : reg ≠ .esp) :
    (cpu.pushAll values).gpr reg = cpu.gpr reg := by
  induction values generalizing cpu with
  | nil => rfl
  | cons value values inductionHypothesis =>
      exact (inductionHypothesis _).trans (push_gpr cpu value other)

theorem pushAll_append (cpu : Cpu) (first second : List Word) :
    cpu.pushAll (first ++ second) = (cpu.pushAll first).pushAll second :=
  List.foldl_append

theorem stack_pushAll (cpu : Cpu) (values : List Word) (count : Nat)
    (inside : 4 * (values.length + count) ≤ 2 ^ 32) :
    (cpu.pushAll values).stack (values.length + count) = values.reverse ++ cpu.stack count := by
  induction values generalizing cpu count with
  | nil => simp [pushAll]
  | cons value values inductionHypothesis =>
      rw [List.length_cons] at inside
      have pushed := inductionHypothesis (cpu.push value) (count + 1) (by omega)
      rw [stack_push cpu value count (by omega)] at pushed
      rw [List.length_cons, List.reverse_cons, List.append_assoc, List.singleton_append,
        show values.length + 1 + count = values.length + (count + 1) by omega]
      exact pushed

/-- Pushing changes no byte but those the pushed words take. -/
theorem pushAll_mem (cpu : Cpu) (values : List Word) {byte : Word}
    (outside : (byte - cpu.gpr .esp).toNat + 4 * values.length < 2 ^ 32) :
    (cpu.pushAll values).mem byte = cpu.mem byte := by
  induction values generalizing cpu with
  | nil => rfl
  | cons value values inductionHypothesis =>
      rw [List.length_cons] at outside
      have lower : (byte - (cpu.push value).gpr .esp).toNat =
          (byte - cpu.gpr .esp).toNat + 4 := by
        rw [push_esp]
        bv_omega
      refine (inductionHypothesis (cpu.push value) (by omega)).trans (if_neg ?_)
      rw [push_esp] at lower
      omega

/-- Pop some registers, the first one first; `none` is a word that is passed over. -/
def popAll (cpu : Cpu) (regs : List (Option Reg)) : Cpu :=
  regs.foldl (fun cpu reg => reg.elim cpu.drop fun reg => cpu.drop.set reg cpu.top) cpu

theorem popAll_cons (cpu : Cpu) (reg : Option Reg) (regs : List (Option Reg)) :
    cpu.popAll (reg :: regs) =
      (reg.elim cpu.drop fun reg => cpu.drop.set reg cpu.top).popAll regs := rfl

@[simp] theorem popAll_mem (cpu : Cpu) (regs : List (Option Reg)) :
    (cpu.popAll regs).mem = cpu.mem := by
  induction regs generalizing cpu with
  | nil => rfl
  | cons reg regs inductionHypothesis =>
      refine (inductionHypothesis _).trans ?_
      cases reg <;> rfl

@[simp] theorem popAll_seg (cpu : Cpu) (regs : List (Option Reg)) :
    (cpu.popAll regs).seg = cpu.seg := by
  induction regs generalizing cpu with
  | nil => rfl
  | cons reg regs inductionHypothesis =>
      refine (inductionHypothesis _).trans ?_
      cases reg <;> rfl

@[simp] theorem popAll_eflags (cpu : Cpu) (regs : List (Option Reg)) :
    (cpu.popAll regs).eflags = cpu.eflags := by
  induction regs generalizing cpu with
  | nil => rfl
  | cons reg regs inductionHypothesis =>
      refine (inductionHypothesis _).trans ?_
      cases reg <;> rfl

theorem popAll_esp (cpu : Cpu) {regs : List (Option Reg)} (notStack : some .esp ∉ regs) :
    (cpu.popAll regs).gpr .esp = cpu.gpr .esp + 4 * BitVec.ofNat 32 regs.length := by
  induction regs generalizing cpu with
  | nil => simp [popAll]
  | cons reg regs inductionHypothesis =>
      obtain ⟨apart, others⟩ := List.ne_and_not_mem_of_not_mem_cons notStack
      have one : (reg.elim cpu.drop fun reg => cpu.drop.set reg cpu.top).gpr .esp =
          cpu.gpr .esp + 4 := by
        cases reg with
        | none => rfl
        | some reg => exact Function.update_of_ne (fun same => apart (congrArg some same)) ..
      rw [popAll_cons, inductionHypothesis _ others, one, List.length_cons, BitVec.ofNat_add]
      bv_omega

theorem popAll_other (cpu : Cpu) {regs : List (Option Reg)} {reg : Reg} (notStack : reg ≠ .esp)
    (other : some reg ∉ regs) : (cpu.popAll regs).gpr reg = cpu.gpr reg := by
  induction regs generalizing cpu with
  | nil => rfl
  | cons first regs inductionHypothesis =>
      obtain ⟨apart, others⟩ := List.ne_and_not_mem_of_not_mem_cons other
      refine (inductionHypothesis _ others).trans ?_
      have dropped : cpu.drop.gpr reg = cpu.gpr reg := Function.update_of_ne notStack ..
      cases first with
      | none => exact dropped
      | some first =>
          exact (Function.update_of_ne (fun same => apart (congrArg some same)) ..).trans dropped

/-- A register gets the word at its place. -/
theorem popAll_gpr (cpu : Cpu) {before after : List (Option Reg)} {reg : Reg}
    (notStack : reg ≠ .esp) (before_stack : some .esp ∉ before) (last : some reg ∉ after) :
    (cpu.popAll (before ++ some reg :: after)).gpr reg =
      load cpu.mem (cpu.gpr .esp + 4 * BitVec.ofNat 32 before.length) := by
  have split : cpu.popAll (before ++ some reg :: after) =
      ((cpu.popAll before).drop.set reg (cpu.popAll before).top).popAll after :=
    List.foldl_append
  rw [split, popAll_other _ notStack last]
  refine (Function.update_self ..).trans ?_
  rw [top, popAll_mem, popAll_esp cpu before_stack]

/-- The stack pointer of a function's caller and what a function must leave alone: the
convention of functions whose arguments are on the stack.  The arguments themselves belong to
the function. -/
structure Cdecl (entered left : Cpu) : Prop where
  kept : ∀ reg ∈ [Reg.esp, .ebp, .ebx, .esi, .edi], left.gpr reg = entered.gpr reg
  seg : left.seg = entered.seg
  returnAddress : left.top = entered.top

end Cpu

/-! ## Instructions -/

/-- The instructions after which the next one is executed. -/
inductive Op where
  | cli
  | sti
  | pushl (value : Word)
  | push (reg : Reg)
  | pop (reg : Reg)
  | pusha
  | popa
  /-- `movw` of a constant, of a segment register and to a segment register. -/
  | movImm (value : BitVec 16) (reg : Reg)
  | movFrom (seg : Seg) (reg : Reg)
  | movTo (reg : Reg) (seg : Seg)
  | addl (value : Word) (reg : Reg)
  deriving DecidableEq, Repr

/-- The interrupt flag. -/
def interruptFlag : Word := 1 <<< 9

/-- The order of `pusha`. -/
def pushaRegs : List Reg := [.eax, .ecx, .edx, .ebx, .esp, .ebp, .esi, .edi]

/-- The order of `popa`, which passes over the stack pointer. -/
def popaRegs : List (Option Reg) :=
  [some .edi, some .esi, some .ebp, none, some .ebx, some .edx, some .ecx, some .eax]

/-- A write to the low half of a register. -/
def Cpu.setLow (cpu : Cpu) (reg : Reg) (value : BitVec 16) : Cpu :=
  cpu.set reg ((cpu.gpr reg).extractLsb' 16 16 ++ value)

def Op.execute (cpu : Cpu) : Op → Cpu
  | cli => { cpu with eflags := cpu.eflags &&& ~~~interruptFlag }
  | sti => { cpu with eflags := cpu.eflags ||| interruptFlag }
  | pushl value => cpu.push value
  | push reg => cpu.push (cpu.gpr reg)
  | pop reg => cpu.popAll [some reg]
  | pusha => cpu.pushAll (pushaRegs.map cpu.gpr)
  | popa => cpu.popAll popaRegs
  | movImm value reg => cpu.setLow reg value
  | movFrom seg reg => cpu.setLow reg (cpu.seg seg)
  | movTo reg seg =>
      { cpu with seg := Function.update cpu.seg seg ((cpu.gpr reg).setWidth 16) }
  | addl value reg => cpu.set reg (cpu.gpr reg + value)

inductive Instr (Routine Fn : Type) where
  | op (op : Op)
  | jmp (routine : Routine)
  | jmpFn (fn : Fn)
  | call (fn : Fn)
  | iret

structure Program (Routine Fn : Type) where
  code : Routine → List (Instr Routine Fn)
  /-- The address at which some instructions stand. -/
  place : List (Instr Routine Fn) → Word
  /-- The routine that starts at an address. -/
  routineAt : Word → Option Routine
  /-- What a function has left behind when it is about to return, if it returns. -/
  function : Fn → Cpu → Option Cpu

/-- The instructions that come next, or an address that control was transferred to. -/
inductive Control (Routine Fn : Type) where
  | next (instrs : List (Instr Routine Fn))
  | goto (address : Word)

namespace Program

variable {Routine Fn : Type} (program : Program Routine Fn)

/-- The return of a function: to the instructions after the call, if their address is what is
on top of the stack. -/
def ret (rest : List (Instr Routine Fn)) (left : Cpu) : Control Routine Fn × Cpu :=
  (if left.top = program.place rest then .next rest else .goto left.top, left.drop)

/-- Execution of one instruction; `iret` is the return to the same privilege level. -/
def step : Control Routine Fn × Cpu → Option (Control Routine Fn × Cpu)
  | (.next (.op op :: rest), cpu) => some (.next rest, op.execute cpu)
  | (.next (.jmp routine :: _), cpu) => some (.next (program.code routine), cpu)
  | (.next (.jmpFn fn :: _), cpu) =>
      (program.function fn cpu).map fun left => (.goto left.top, left.drop)
  | (.next (.call fn :: rest), cpu) =>
      (program.function fn (cpu.push (program.place rest))).map (program.ret rest)
  | (.next (.iret :: _), cpu) =>
      let eip := cpu.top
      let cs := cpu.drop.top
      let eflags := cpu.drop.drop.top
      some (.goto eip, { cpu.drop.drop.drop with
        seg := Function.update cpu.seg .cs (cs.setWidth 16), eflags := eflags })
  | (.next [], _) => none
  | (.goto address, cpu) =>
      (program.routineAt address).map fun routine => (.next (program.code routine), cpu)

/-- Execution of a number of instructions. -/
def run : Nat → Control Routine Fn × Cpu → Option (Control Routine Fn × Cpu)
  | 0, config => some config
  | count + 1, config => (program.step config).bind (run count)

theorem run_add {first : Nat} (second : Nat) {start middle : Control Routine Fn × Cpu}
    (ran : program.run first start = some middle) :
    program.run (first + second) start = program.run second middle := by
  induction first generalizing start with
  | zero =>
      cases ran
      rw [Nat.zero_add]
  | succ first inductionHypothesis =>
      obtain ⟨next, stepped, rest⟩ := Option.bind_eq_some_iff.mp ran
      rw [show first + 1 + second = first + second + 1 by omega, run, stepped]
      exact inductionHypothesis rest

/-- Instructions without a jump are executed one after the other. -/
theorem run_ops (ops : List Op) (rest : List (Instr Routine Fn)) (cpu : Cpu) :
    program.run ops.length (.next (ops.map .op ++ rest), cpu) =
      some (.next rest, ops.foldl Op.execute cpu) := by
  induction ops generalizing cpu with
  | nil => rfl
  | cons op ops inductionHypothesis => exact inductionHypothesis _

end Program

end Yaeos.Ia32
