import Yaeos.Cstd.Count
import Yaeos.I686.Intr
import Yaeos.Kvstore.Run
import Mathlib.Data.List.TakeWhile

/-!
# Processor exceptions (`arch/i686/exceptions.c`, `kernel/panic.c`)

The default handler describes the exception in a buffer, stores the saved registers
under their names and prints both.  What consoles do with the text they are handed is
left out, and so is the endless loop in which `kernel_panic` ends: here it returns what
it printed.
-/

namespace Yaeos

/-- The bytes up to the first zero. -/
def CString.upTo (bytes : List Nat) : CString where
  bytes := bytes.takeWhile (· ≠ 0)
  nonzero byte member := by simpa using List.mem_takeWhile_imp member

def CString.literal (text : String) : CString := .upTo (text.toList.map byteOf)

/-- The string at a pointer; `bytes` is what memory holds from there to the end of the object. -/
def cstringAt (bytes : List Nat) : Outcome CString :=
  if 0 ∈ bytes then .ok (.upTo bytes) else .error .outOfBounds

/-- The registers of `struct intr_ctx` that are reported, and its error code. -/
structure SavedRegisters where
  edi : BitVec 32
  esi : BitVec 32
  ebp : BitVec 32
  esp : BitVec 32
  ebx : BitVec 32
  edx : BitVec 32
  ecx : BitVec 32
  eax : BitVec 32
  errCode : BitVec 32
  eip : BitVec 32
  preintEsp : BitVec 32
  deriving DecidableEq, Repr

/-- The context of an exception. -/
abbrev ExceptionCtx : Type := IntrCtx SavedRegisters

/-- `sizeof(DESCRIPTION_BUFFER)`. -/
def descriptionSize : Nat := 64

/-- `DESCRIPTION_BUFFER` and `DESCBUFFER_POS`. -/
structure DescBuffer where
  bytes : List Nat
  pos : Nat
  size : bytes.length = descriptionSize
  inside : pos ≤ descriptionSize

namespace DescBuffer

/-- The buffer before the first exception. -/
def empty : DescBuffer where
  bytes := List.replicate descriptionSize 0
  pos := 0
  size := List.length_replicate
  inside := Nat.zero_le _

/-- `towrite`; it is at most 64, so the assertion at the end of `descbuffer_write` holds. -/
def towrite (buffer : DescBuffer) (msg : List Nat) : Nat :=
  min msg.length (descriptionSize - buffer.pos)

/-- The loop of `descbuffer_write`. -/
def copy (buffer : DescBuffer) (msg : List Nat) : DescBuffer where
  bytes := buffer.bytes.take buffer.pos ++ msg.take (buffer.towrite msg) ++
    buffer.bytes.drop (buffer.pos + buffer.towrite msg)
  pos := buffer.pos + buffer.towrite msg
  size := by
    have size := buffer.size
    have inside := buffer.inside
    simp only [List.length_append, List.length_take, List.length_drop, towrite]
    omega
  inside := by
    have inside := buffer.inside
    unfold towrite
    omega

/-- The buffer after calls of `descbuffer_write`. -/
def after (buffer : DescBuffer) (calls : List (OutputCall Nat)) : DescBuffer :=
  calls.foldl (fun buffer call => buffer.copy call.chunk) buffer

theorem towrite_le_intMax (buffer : DescBuffer) (msg : List Nat) :
    buffer.towrite msg ≤ intMax := by
  unfold towrite descriptionSize intMax
  omega

end DescBuffer

def descbufferWrite (buffer : DescBuffer) : FprintfFn := fun calls msg =>
  (buffer.after calls).towrite msg

/-- `descriptions`. -/
def descriptions : List (Option CString) :=
  [some (.literal "Divide error"), some (.literal "Debug exception"),
    some (.literal "NMI interrupt"), some (.literal "Breakpoint"), some (.literal "Overflow"),
    some (.literal "BOUND Range Exceeded"), some (.literal "Invalid Opcode"),
    some (.literal "No Math Coprocessor"), some (.literal "Double Fault"), none,
    some (.literal "Invalid TSS"), some (.literal "Segment Not Present"),
    some (.literal "Stack-Segment Fault"), some (.literal "General Protection"),
    some (.literal "Page Fault"), none, some (.literal "x87 FPU Floating-Point Error"),
    some (.literal "Alignment Check"), some (.literal "Machine Check"),
    some (.literal "SIMD Floating-Point Exception"), some (.literal "Virtualization Exception"),
    some (.literal "Control Protection Exception")]

/-- `PLATFORM_REGISTERS_COUNT`. -/
def platformRegistersCount : Nat := 20

/-- `kstrcmp` as the comparison function of a store. -/
def compareStrings : KvstoreFnCmpkeys CString
  | some lhs, some rhs => .ok (kstrcmp lhs rhs)
  | _, _ => .error .nullDeref

/-- `(void *)value`. -/
def pointerOf (value : BitVec 32) : Option (BitVec 32) := if value = 0 then none else some value

/-- The names and values that `prepare_panic_info` appends, in order. -/
def savedRegisters (frame : SavedRegisters) : List (CString × Option (BitVec 32)) :=
  [(.literal "EDI", pointerOf frame.edi), (.literal "ESI", pointerOf frame.esi),
    (.literal "EBP", pointerOf frame.ebp), (.literal "ESP", pointerOf frame.esp),
    (.literal "EBX", pointerOf frame.ebx), (.literal "EDX", pointerOf frame.edx),
    (.literal "ECX", pointerOf frame.ecx), (.literal "EAX", pointerOf frame.eax),
    (.literal "EIP", pointerOf frame.eip), (.literal "ESP", pointerOf frame.preintEsp)]

/-- `struct kernel_panic_info`; a description is what memory holds behind the pointer. -/
structure KernelPanicInfo where
  description : Option (List Nat)
  location : Option CString
  regs : Option (KvStore CString (BitVec 32))

/-- What `conwrite` returns. -/
def conwrite : FprintfFn := fun _ msg => msg.length

/-- `kfprintf(conwrite, format, ...)`, behind the calls before it; the assertion of `conwrite`
holds of every chunk. -/
def conprintf (format : String) (args : List VaArg) (calls : List (OutputCall Nat)) :
    Outcome (List (OutputCall Nat)) := do
  let (_, printed) ← kvfprintf conwrite (CString.literal format).bytes args
  kassert (∀ call ∈ printed, call.chunk.length ≤ intMax)
  .ok (calls ++ printed)

def printRegister (calls : List (OutputCall Nat)) (register : CString × Option (BitVec 32)) :
    Outcome (List (OutputCall Nat)) :=
  conprintf "%s: %08lX\n" [.string register.1, .word (register.2.getD 0).toNat] calls

def kernelPanic (info : KernelPanicInfo) : Outcome (List (OutputCall Nat)) := do
  let calls ← conprintf "\n\n" [] []
  let calls ← conprintf "You've been whoopsed.\n" [] calls
  let description ← cstringAt (← deref info.description)
  let calls ← conprintf "Reason: %s\n" [.string description] calls
  let calls ← match info.location with
    | none => .ok calls
    | some location => conprintf "Location: %s\n" [.string location] calls
  match info.regs with
  | none => .ok calls
  | some regs => do
      let regsLen ← kvstoreLength regs
      if regsLen > 0 then
        let calls ← conprintf "Registers:" [] calls
        (← kvstoreIter regs).foldlM printRegister calls
      else .ok calls

/-- The `kfprintf` of `prepare_panic_info`, which follows `desc` before it prints anything. -/
def describe (buffer : DescBuffer) (ctx : ExceptionCtx) (desc : Option CString) :
    Outcome (List (OutputCall Nat)) := do
  let desc ← deref desc
  let (_, calls) ← kvfprintf (descbufferWrite buffer)
    (CString.literal "%s (INTNO: %lu; ERR: %lu)").bytes
    [.string desc, .word ctx.intN.toNat, .word ctx.frame.errCode.toNat]
  .ok calls

section Handler

variable (buffer : DescBuffer) (mem : Nat) (oldKeys : Nat → Option CString)
  (oldValues : Nat → Option (BitVec 32))

/-- `mem` is what was allocated on the stack; `oldKeys` and `oldValues` are what it held. -/
def preparePanicInfo (ctx : ExceptionCtx) (desc : Option CString) : Outcome KernelPanicInfo := do
  let calls ← describe buffer ctx desc
  let regs ← kvstoreCreate mem platformRegistersCount (some compareStrings) oldKeys oldValues
  match regs with
  | none => .error .kassert
  | some regs => do
      let regs ← (savedRegisters ctx.frame).foldlM KvStore.appendPair regs
      .ok { description := some (buffer.after calls).bytes, location := none, regs := some regs }

/-- The `msg` of `default_handler`. -/
def exceptionMessage (ctx : ExceptionCtx) : Option CString :=
  if ctx.intN < 22 then (descriptions[ctx.intN.toNat]?).join
  else some (.literal "Unknown exception")

def defaultHandler (ctx : ExceptionCtx) : Outcome (List (OutputCall Nat)) := do
  let info ← preparePanicInfo buffer mem oldKeys oldValues ctx (exceptionMessage ctx)
  kernelPanic info

/-- The description fits into the buffer with a zero behind it, no string is `NULL`, no
assertion fails, and every saved register is listed with its value. -/
structure PanicCompletes (ctx : ExceptionCtx) : Prop where
  named : (exceptionMessage ctx).isSome
  described : ∃ calls, describe buffer ctx (exceptionMessage ctx) = .ok calls ∧
    (∀ call ∈ calls, call.Accepted) ∧ 0 ∈ (buffer.after calls).bytes
  listed : ∃ info regs called,
    preparePanicInfo buffer mem oldKeys oldValues ctx (exceptionMessage ctx) = .ok info ∧
      info.regs = some regs ∧ kvstoreIter regs = .ok called ∧
      ∀ register ∈ savedRegisters ctx.frame, register ∈ called
  printed : ∃ printed, defaultHandler buffer mem oldKeys oldValues ctx = .ok printed

variable {buffer : DescBuffer} {mem : Nat} {oldKeys : Nat → Option CString}
  {oldValues : Nat → Option (BitVec 32)} {ctx : ExceptionCtx} {desc : Option CString}

/-- Strings are compared by what they are. -/
instance CString.setoid : Setoid CString where
  r := Eq
  iseqv := eq_equivalence

theorem compareStrings_equality : KvStore.EqualityTest compareStrings := fun _ _ =>
  ⟨_, rfl, kstrcmp_eq_zero⟩

theorem names_savedRegisters (frame : SavedRegisters) : (savedRegisters frame).map Prod.fst =
    ["EDI", "ESI", "EBP", "ESP", "EBX", "EDX", "ECX", "EAX", "EIP", "ESP"].map
      CString.literal := rfl

/-- `esp` and `preint_esp` are stored under one name. -/
theorem savedRegisters_repeated (frame : SavedRegisters)
    (map : ClassMap CString (Option (BitVec 32))) (cap : Nat) :
    ¬KvStore.Appendable map cap (savedRegisters frame) := by
  intro appendable
  have names := appendable.names
  rw [names_savedRegisters] at names
  exact absurd names (by decide)

/-- A store that was created cannot take the registers of any context. -/
theorem appendRegisters_fails {regs : KvStore CString (BitVec 32)}
    (created : kvstoreCreate mem platformRegistersCount (some compareStrings) oldKeys oldValues =
      .ok (some regs)) (frame : SavedRegisters) :
    (savedRegisters frame).foldlM KvStore.appendPair regs = .error .kassert := by
  obtain ⟨ok, -⟩ := KvStore.created_ok compareStrings_equality created
  have appended := ok.appends (savedRegisters frame)
  rwa [if_neg (savedRegisters_repeated frame _ _)] at appended

/-- All registers but the last, which is the second `ESP`, are stored with their values. -/
theorem appendRegisters_dropLast {regs : KvStore CString (BitVec 32)}
    (created : kvstoreCreate mem platformRegistersCount (some compareStrings) oldKeys oldValues =
      .ok (some regs)) (frame : SavedRegisters) :
    ∃ next called, (savedRegisters frame).dropLast.foldlM KvStore.appendPair regs = .ok next ∧
      kvstoreIter next = .ok called ∧ ∀ register ∈ (savedRegisters frame).dropLast,
        register ∈ called := by
  obtain ⟨ok, cap⟩ := KvStore.created_ok compareStrings_equality created
  have names : ((savedRegisters frame).dropLast.map Prod.fst).Nodup := by
    rw [List.map_dropLast, names_savedRegisters]
    decide
  have distinct : ((savedRegisters frame).dropLast.map fun pair =>
      (⟦pair.1⟧ : Quotient CString.setoid)).Nodup := by
    have classes := names.map (f := fun name => (⟦name⟧ : Quotient CString.setoid))
      fun _ _ same => Quotient.exact same
    rwa [List.map_map] at classes
  have room : 0 + 9 ≤ regs.cap := by
    rw [cap]
    decide
  have fits : KvStore.Appendable ∅ regs.cap (savedRegisters frame).dropLast :=
    ⟨distinct, fun _ _ => Finmap.notMem_empty, room⟩
  have appended := ok.appends (savedRegisters frame).dropLast
  rw [if_pos fits] at appended
  obtain ⟨next, returned, nextOk⟩ := appended
  obtain ⟨called, iterated, lists⟩ := nextOk.iter_lookup
  refine ⟨next, called, returned, iterated, fun register member => ?_⟩
  obtain ⟨pair, found, similar, same⟩ := lists _ _ (lookup_insertAll distinct member ∅)
  rwa [Prod.ext similar same] at found

/-- The format of the description and what is printed with it. -/
theorem descriptionFormat_matching (desc : CString) (intN errCode : Nat) :
    Matching (CString.literal "%s (INTNO: %lu; ERR: %lu)").bytes
      [.string desc, .word intN, .word errCode] :=
  .conversion (s := ⟨⟨false, false, false, false, false⟩, specialEmpty, specialEmpty, .none, .str⟩)
    rfl rfl (.text (by decide) (.conversion
      (s := ⟨⟨false, false, false, false, false⟩, specialEmpty, specialEmpty, .long, .udec⟩)
      rfl (.inl (by decide)) (.text (by decide) (.conversion
        (s := ⟨⟨false, false, false, false, false⟩, specialEmpty, specialEmpty, .long, .udec⟩)
        rfl (.inl (by decide)) (.text (by decide) (.done []))))))

theorem describe_cases (buffer : DescBuffer) (ctx : ExceptionCtx) (desc : CString) :
    describe buffer ctx (some desc) = .error .kassert ∨
      ∃ calls, describe buffer ctx (some desc) = .ok calls := by
  have counts := (descriptionFormat_matching desc ctx.intN.toNat ctx.frame.errCode.toNat).counts
    (descbufferWrite buffer) (Nat.le_refl _) 0 []
  rcases counts with stopped | ⟨rc, calls, returned, -, -⟩
  · refine .inl ?_
    rw [describe, deref, Outcome.ok_bind, kvfprintf, stopped, Outcome.error_bind]
  · refine .inr ⟨[] ++ calls, ?_⟩
    rw [describe, deref, Outcome.ok_bind, kvfprintf, returned, Outcome.ok_bind]

variable (ctx) in
/-- The exceptions that have no description are 9 and 15. -/
theorem exceptionMessage_isSome : (exceptionMessage ctx).isSome ↔ ctx.intN ≠ 9 ∧ ctx.intN ≠ 15 := by
  have listed : ∀ number : Fin 22, (descriptions[number.val]?).join.isSome ↔
      number.val ≠ 9 ∧ number.val ≠ 15 := by decide
  have numbers : ctx.intN ≠ 9 ∧ ctx.intN ≠ 15 ↔ ctx.intN.toNat ≠ 9 ∧ ctx.intN.toNat ≠ 15 := by
    simp only [ne_eq, ← BitVec.toNat_inj]
    rfl
  rw [exceptionMessage, numbers]
  split
  · next below => exact listed ⟨ctx.intN.toNat, BitVec.lt_def.mp below⟩
  · next above =>
      have large : ¬ctx.intN.toNat < 22 := fun below => above (BitVec.lt_def.mpr below)
      simp only [Option.isSome_some, true_iff]
      omega

/-- Where the handler stops: at the string it follows, or at an assertion behind it. -/
theorem defaultHandler_fault (named : mem ≠ 0)
    (inside : mem + (16 + 8 * platformRegistersCount) < addressSpace) :
    defaultHandler buffer mem oldKeys oldValues ctx =
      .error (if ctx.intN ≠ 9 ∧ ctx.intN ≠ 15 then .kassert else .nullDeref) := by
  rw [if_congr (exceptionMessage_isSome ctx).symm rfl rfl, defaultHandler, preparePanicInfo]
  cases exceptionMessage ctx with
  | none => rfl
  | some desc =>
      rcases describe_cases buffer ctx desc with stopped | ⟨calls, described⟩
      · rw [stopped]
        rfl
      · obtain ⟨regs, created⟩ :=
          KvStore.kvstoreCreate_ok compareStrings oldKeys oldValues named inside
        rw [described, Outcome.ok_bind, created, Outcome.ok_bind]
        dsimp only
        rw [appendRegisters_fails created]
        rfl

theorem preparePanicInfo_fails (info : KernelPanicInfo) :
    preparePanicInfo buffer mem oldKeys oldValues ctx desc ≠ .ok info := by
  intro prepared
  obtain ⟨calls, -, prepared⟩ := Outcome.bind_eq_ok.mp prepared
  obtain ⟨regs, created, prepared⟩ := Outcome.bind_eq_ok.mp prepared
  cases regs with
  | none => cases prepared
  | some regs =>
      dsimp only at prepared
      rw [appendRegisters_fails created] at prepared
      cases prepared

/-- For no context is the path to the end of `kernel_panic` completed. -/
theorem defaultHandler_not_completes (buffer : DescBuffer) (mem : Nat)
    (oldKeys : Nat → Option CString) (oldValues : Nat → Option (BitVec 32)) (ctx : ExceptionCtx) :
    ¬PanicCompletes buffer mem oldKeys oldValues ctx := by
  rintro ⟨-, -, ⟨info, -, -, prepared, -⟩, -⟩
  exact preparePanicInfo_fails info prepared

end Handler

/-- A division by zero. -/
def divideError : ExceptionCtx where
  intN := 0
  frame :=
    { edi := 0, esi := 0, ebp := 0xC0104FF8, esp := 0xC0104FC0, ebx := 1, edx := 2, ecx := 0,
      eax := 7, errCode := 0, eip := 0xC0100010, preintEsp := 0xC0104FE0 }

theorem divideError_not_completes :
    defaultHandler .empty 0x9000 (fun _ => none) (fun _ => none) divideError = .error .kassert ∧
      ¬PanicCompletes .empty 0x9000 (fun _ => none) (fun _ => none) divideError := by
  have stops : defaultHandler .empty 0x9000 (fun _ => none) (fun _ => none) divideError =
      .error .kassert :=
    defaultHandler_fault (by decide) (by decide)
  refine ⟨stops, fun completes => ?_⟩
  obtain ⟨printed, returned⟩ := completes.printed
  rw [stops] at returned
  cases returned

end Yaeos
