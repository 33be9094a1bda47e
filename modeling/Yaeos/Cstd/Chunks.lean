import Yaeos.Cstd.Vfprintf
import Yaeos.Machine.Chunks

/-!
# The chunks of formatted output

The output function gets parts of the format and of the strings, digits, and single
characters; only a single character can be a `NUL`.
-/

namespace Yaeos

/-- A text without a `NUL`, or a single character. -/
def PlainChunk (chunk : List Nat) : Prop := (∀ c ∈ chunk, c ≠ 0) ∨ chunk.length ≤ 1

variable {f : FprintfFn} {s : ConvSpec} {arg : Argument}

theorem plain_singleton (c : Nat) : PlainChunk [c] := .inr (Nat.le_refl 1)

theorem plain_take {text : List Nat} (nulFree : ∀ c ∈ text, c ≠ 0) (len : Nat) :
    PlainChunk (text.take len) :=
  .inl fun c member => nulFree c (List.mem_of_mem_take member)

/-- A character that is not zero for every digit makes no zeros. -/
theorem writeDigits_nulFree {base bufferI ud : Nat} {digit : Nat → Nat} {digits result : List Nat}
    (nonzero : ∀ n, digit n ≠ 0) (written : writeDigits base digit bufferI ud digits = .ok result)
    (nulFree : ∀ c ∈ digits, c ≠ 0) : ∀ c ∈ result, c ≠ 0 := by
  induction bufferI generalizing ud digits with
  | zero => cases written
  | succ bufferI inductionHypothesis =>
      have more : ∀ c ∈ digit (ud % base) :: digits, c ≠ 0 :=
        List.forall_mem_cons.mpr ⟨nonzero _, nulFree⟩
      rw [writeDigits] at written
      split at written
      · exact inductionHypothesis written more
      · cases written
        exact more

theorem decimalDigit_ne_zero (n : Nat) : decimalDigit n ≠ 0 := by
  have zero : byteOf '0' = 48 := rfl
  unfold decimalDigit
  omega

theorem passes_putValue {digits : List Nat} (nulFree : ∀ c ∈ digits, c ≠ 0) (printed : Nat) :
    Passes PlainChunk (putValue f digits printed) := by
  intro calls rc final returned before
  obtain ⟨⟨count, middle⟩, first, returned⟩ := Outcome.bind_eq_ok.mp returned
  have between := passes_put f (.inl nulFree) calls count middle first before
  dsimp only at returned
  split at returned
  · cases returned
    exact between
  · obtain ⟨_, _, returned⟩ := Outcome.bind_eq_ok.mp returned
    cases returned
    exact between

theorem passes_basePrint (base bufferSize : Nat) (f : FprintfFn) (s : ConvSpec) (a : Argument) :
    Passes PlainChunk (basePrint base bufferSize f s a) := by
  intro calls rc final returned before
  unfold basePrint at returned
  split at returned
  · exact passes_nothing 0 calls rc final returned before
  · obtain ⟨_, _, returned⟩ := Outcome.bind_eq_ok.mp returned
    obtain ⟨digits, written, returned⟩ := Outcome.bind_eq_ok.mp returned
    have nulFree := writeDigits_nulFree decimalDigit_ne_zero written (List.forall_mem_nil _)
    split at returned
    · exact passes_putRepeatedly (plain_singleton _) (passes_putValue nulFree) _ 0 calls rc final
        returned before
    · exact passes_putValue nulFree 0 calls rc final returned before

theorem passes_hexPrint (f : FprintfFn) (s : ConvSpec) (a : Argument) :
    Passes PlainChunk (hexPrint f s a) := by
  have nonzero (n : Nat) : hexDigit (if s.spec = .uhex then byteOf 'a' else byteOf 'A') n ≠ 0 := by
    unfold hexDigit
    split
    · exact Nat.succ_ne_zero _
    · split <;> exact Nat.succ_ne_zero _
  unfold hexPrint
  split
  · exact passes_nothing 0
  · refine Passes.after fun _ _ => Passes.after fun digits written => ?_
    exact passes_put f (.inl (writeDigits_nulFree nonzero written (List.forall_mem_nil _)))

theorem passes_strPrint (f : FprintfFn) (s : ConvSpec) (a : Argument) :
    Passes PlainChunk (strPrint f s a) :=
  Passes.after fun len _ => passes_put f (plain_take a.str.nonzero len)

/-- The functions of the table. -/
theorem csFuncsTable_passes {spec : ConvSpecifiers} {funcs : ConvSpecFuncs}
    (found : csFuncsTable spec = .ok funcs) (f : FprintfFn) (s : ConvSpec) (a : Argument) :
    Passes PlainChunk (funcs.print f s a) := by
  cases spec with
  | int | udec => cases found; exact passes_basePrint 10 20 f s a
  | uoctal => cases found; exact passes_basePrint 8 22 f s a
  | ptr | uhex | uhexBig => cases found; exact passes_hexPrint f s a
  | str => cases found; exact passes_strPrint f s a
  | uchar => cases found; exact passes_put f (plain_singleton _)
  | writtenOut | percentage | invalid => cases found

theorem csFuncsTable_prefix {spec : ConvSpecifiers} {funcs : ConvSpecFuncs}
    (found : csFuncsTable spec = .ok funcs) (s : ConvSpec) :
    ∀ chars ∈ funcs.toPrepend.map (· s), PlainChunk chars := by
  have plain : PlainChunk (hexPrefix s) := by
    unfold hexPrefix
    refine .inl ?_
    split
    · decide
    · split <;> decide
  cases spec <;> cases found <;> simp [plain]

theorem passes_putFlags (f : FprintfFn) (s : ConvSpec) (arg : Argument) :
    Passes PlainChunk (putFlags f s arg) := by
  unfold putFlags
  split
  · exact passes_put f (plain_singleton _)
  · split
    · exact passes_put f (plain_singleton _)
    · split
      · exact passes_put f (plain_singleton _)
      · exact passes_nothing 0

section Field

variable {rest : Nat → Printer Nat} (more : ∀ printed, Passes PlainChunk (rest printed))
  {toPrepend : Option (List Nat)} (plain : ∀ chars ∈ toPrepend, PlainChunk chars)
include more plain

theorem passes_putPrepended (f : FprintfFn) (s : ConvSpec) (arg : Argument) (printed : Nat) :
    Passes PlainChunk (putPrepended f s arg toPrepend rest printed) := by
  have flags := (passes_putFlags f s arg).counted more
  cases toPrepend with
  | some chars => exact (passes_put f (plain chars rfl)).counted flags printed
  | none => exact flags printed

theorem passes_putLeft (f : FprintfFn) (s : ConvSpec) (arg : Argument) (widthToFill : Int)
    (printed : Nat) : Passes PlainChunk (putLeft f s arg toPrepend widthToFill rest printed) := by
  unfold putLeft
  split
  · split
    · exact passes_putPrepended (passes_putRepeatedly (plain_singleton _) more _) plain f s arg printed
    · exact passes_putRepeatedly (plain_singleton _) more _ printed
  · exact more printed

end Field

theorem passes_putRight (f : FprintfFn) (s : ConvSpec) (widthToFill : Int) (printed : Nat) :
    Passes PlainChunk (putRight f s widthToFill printed) := by
  unfold putRight
  split
  · exact passes_putRepeatedly (plain_singleton _) passes_returnPrinted _ printed
  · exact passes_returnPrinted printed

theorem passes_printArgument (f : FprintfFn) (s : ConvSpec) (arg : Argument) :
    Passes PlainChunk (printArgument f s arg) := by
  refine Passes.after fun funcs found => Passes.after fun numLen _ => ?_
  refine Passes.after fun _ _ => Passes.after fun _ _ => Passes.after fun _ _ => ?_
  have plain := csFuncsTable_prefix found s
  have value := (csFuncsTable_passes found f s arg).counted
    (passes_putRight f s (s.width - numLen - ((funcs.toPrepend.map (· s)).getD []).length -
      (if arg.negative || s.flags.plus || s.flags.space then 1 else 0)))
  refine passes_putLeft (fun printed => ?_) plain f s arg _ 0
  split
  · exact value printed
  · exact passes_putPrepended value plain f s arg printed

theorem printConvSpec_plain {args left : List VaArg} {calls final : List (OutputCall Nat)}
    {rc : Int} (printed : printConvSpec f s args calls = .ok (rc, left, final))
    (before : ∀ call ∈ calls, PlainChunk call.chunk) : ∀ call ∈ final, PlainChunk call.chunk := by
  unfold printConvSpec at printed
  split at printed
  · obtain ⟨⟨count, middle⟩, first, returned⟩ := Outcome.bind_eq_ok.mp printed
    cases returned
    exact passes_put f (plain_singleton _) calls _ _ first before
  · obtain ⟨⟨arg, args⟩, -, printed⟩ := Outcome.bind_eq_ok.mp printed
    obtain ⟨⟨count, middle⟩, first, returned⟩ := Outcome.bind_eq_ok.mp printed
    cases returned
    exact passes_printArgument f s arg calls _ _ first before

theorem passes_kvfprintfLoop (f : FprintfFn) {format : List Nat} (nulFree : ∀ c ∈ format, c ≠ 0)
    (rounds : Nat) (args : List VaArg) (printed : Nat) :
    Passes PlainChunk (kvfprintfLoop f rounds format args printed) := by
  induction rounds generalizing format args printed with
  | zero =>
      cases format with
      | nil => exact passes_returnPrinted printed
      | cons byte format => exact fun _ _ _ returned => nomatch returned
  | succ rounds inductionHypothesis =>
      cases format with
      | nil => exact passes_returnPrinted printed
      | cons byte format =>
          have dropped (len : Nat) : ∀ c ∈ (byte :: format).drop len, c ≠ 0 :=
            fun c member => nulFree c (List.mem_of_mem_drop member)
          rw [kvfprintfLoop]
          split
          · refine Passes.after fun ⟨s, specLen⟩ _ => ?_
            intro calls rc final returned before
            obtain ⟨⟨count, left, middle⟩, converted, returned⟩ := Outcome.bind_eq_ok.mp returned
            have between := printConvSpec_plain converted before
            dsimp only at returned
            split at returned
            · cases returned
              exact between
            · split at returned
              · cases returned
              · exact inductionHypothesis (dropped _) _ _ _ _ _ returned between
          · exact (passes_put f (plain_take nulFree _)).counted
              (inductionHypothesis (dropped _) args) printed

/-- Every chunk that `kvfprintf` passes on is plain. -/
theorem kvfprintf_plain {format : CString} {args : List VaArg} {rc : Int}
    {calls : List (OutputCall Nat)} (returned : kvfprintf f format.bytes args = .ok (rc, calls)) :
    ∀ call ∈ calls, PlainChunk call.chunk :=
  passes_kvfprintfLoop f format.nonzero _ args 0 [] rc calls returned nofun

end Yaeos
