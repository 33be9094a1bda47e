import Yaeos.Cstd.Syntax
import Yaeos.Machine.Run

/-!
# The arguments of a format

The loop of `kvfprintf` as a machine: a round hands over the text in front of the next
conversion, or it prints a conversion.  What a conversion takes is compared with what
its text asks for: one argument for each star, then its own.
-/

namespace Yaeos

/-- A conversion that was printed. -/
structure Conversion where
  conv : ConvSyntax
  spec : ConvSpec
  /-- The arguments in front of it. -/
  args : List VaArg
  /-- The arguments behind it. -/
  left : List VaArg

/-- The variables of the loop. -/
structure LoopState where
  format : List Nat
  args : List VaArg
  printed : Nat
  calls : List (OutputCall Nat)

/-- A round of the loop that is not refused. -/
inductive Round (f : FprintfFn) : LoopState → Option Conversion → LoopState → Prop where
  | text {byte : Nat} {format : List Nat} {args : List VaArg} {printed : Nat} {rc : Int}
      {calls final : List (OutputCall Nat)} : byte ≠ byteOf '%' →
      put f ((byte :: format).take (textLength (byte :: format))) calls = .ok (rc, final) → 0 ≤ rc →
      Round f ⟨byte :: format, args, printed, calls⟩ none
        ⟨(byte :: format).drop (textLength (byte :: format)), args, wrap (printed + rc.toNat),
          final⟩
  | conversion {conv : ConvSyntax} {s : ConvSpec} {specLen printed : Nat} {args left : List VaArg}
      {rc : Int} {calls final : List (OutputCall Nat)} : conv.Proper →
      parseConvSpec (byteOf '%' :: conv.text) = .ok (s, specLen) →
      printConvSpec f s args calls = .ok (rc, left, final) → 0 ≤ rc →
      specLen ≤ (byteOf '%' :: conv.text).length →
      Round f ⟨byteOf '%' :: conv.text, args, printed, calls⟩ (some ⟨conv, s, args, left⟩)
        ⟨(byteOf '%' :: conv.text).drop specLen, left, wrap (printed + rc.toNat), final⟩

/-- The rounds of a call of `kvfprintf`. -/
def kvfprintfMachine (f : FprintfFn) (format : List Nat) (args : List VaArg) :
    Machine LoopState (Option Conversion) where
  initial state := state = ⟨format, args, 0, []⟩
  step := Round f

/-- What is left of a call. -/
def LoopState.run (f : FprintfFn) (rounds : Nat) (state : LoopState) :
    Outcome (Int × List (OutputCall Nat)) :=
  kvfprintfLoop f rounds state.format state.args state.printed state.calls

variable {f : FprintfFn} {format : List Nat} {args : List VaArg} {state next final : LoopState}
  {round : Option Conversion} {rounds : List (Option Conversion)}

/-- One round of the machine is one of the loop. -/
theorem Round.run_eq (stepped : Round f state round next) (more : Nat) :
    state.run f (more + 1) = next.run f more := by
  cases stepped with
  | text isText handed notNegative =>
      rw [LoopState.run, kvfprintfLoop, if_neg isText, counted, handed, Outcome.ok_bind]
      exact if_neg (Int.not_lt.mpr notNegative)
  | conversion proper parsed printed notNegative inside =>
      rw [LoopState.run, kvfprintfLoop, if_pos rfl]
      dsimp only
      rw [parsed, Outcome.ok_bind]
      dsimp only
      rw [printed, Outcome.ok_bind]
      dsimp only
      rw [if_neg (Int.not_lt.mpr notNegative), if_neg (Nat.not_lt.mpr inside)]
      rfl

/-- The rounds of the machine are those of the loop. -/
theorem trace_run_eq (trace : (kvfprintfMachine f format args).Trace state rounds final)
    (more : Nat) : state.run f (more + rounds.length) = final.run f more := by
  induction trace generalizing more with
  | nil => rfl
  | @snoc rounds middle round next _ stepped inductionHypothesis =>
      rw [List.length_append, List.length_singleton, Nat.add_comm rounds.length, ← Nat.add_assoc,
        inductionHypothesis, stepped.run_eq]

/-- A call that returns ends behind the last round, unless the output function refuses
something. -/
theorem exists_trace {count : Nat} {rc : Int} {calls : List (OutputCall Nat)}
    (returned : state.run f count = .ok (rc, calls)) : ∃ rounds final,
      (kvfprintfMachine f format args).Trace state rounds final ∧ (final.format = [] ∨ rc < 0) := by
  obtain ⟨format', args', printed, before⟩ := state
  induction count generalizing format' args' printed before with
  | zero =>
      cases format' with
      | nil => exact ⟨[], _, .nil, .inl rfl⟩
      | cons byte format' => cases returned
  | succ count inductionHypothesis =>
      cases format' with
      | nil => exact ⟨[], _, .nil, .inl rfl⟩
      | cons byte format' =>
          by_cases percent : byte = byteOf '%'
          · subst percent
            rw [LoopState.run, kvfprintfLoop, if_pos rfl] at returned
            obtain ⟨⟨s, specLen⟩, parsed, returned⟩ := Outcome.bind_eq_ok.mp returned
            obtain ⟨⟨count', left, after⟩, printedOne, returned⟩ := Outcome.bind_eq_ok.mp returned
            dsimp only at returned
            by_cases refused : count' < 0
            · rw [if_pos refused] at returned
              cases returned
              exact ⟨[], _, .nil, .inr refused⟩
            · rw [if_neg refused] at returned
              by_cases outside : (byteOf '%' :: format').length < specLen
              · rw [if_pos outside] at returned
                cases returned
              · rw [if_neg outside] at returned
                obtain ⟨conv, proper, rfl⟩ := ConvSyntax.exists_proper format'
                obtain ⟨rounds, final, trace, ended⟩ := inductionHypothesis _ _ _ _ returned
                exact ⟨_, final, .cons (.conversion proper parsed printedOne (Int.not_lt.mp refused)
                  (Nat.not_lt.mp outside)) trace, ended⟩
          · rw [LoopState.run, kvfprintfLoop, if_neg percent] at returned
            obtain ⟨⟨count', after⟩, handed, returned⟩ := Outcome.bind_eq_ok.mp returned
            dsimp only at returned
            by_cases refused : count' < 0
            · rw [if_pos refused] at returned
              cases returned
              exact ⟨[], _, .nil, .inr refused⟩
            · rw [if_neg refused] at returned
              obtain ⟨rounds, final, trace, ended⟩ := inductionHypothesis _ _ _ _ returned
              exact ⟨_, final, .cons (.text percent handed (Int.not_lt.mp refused)) trace, ended⟩

/-- The stars of a width or a precision. -/
def NumberSyntax.stars : NumberSyntax → Nat
  | star => 1
  | _ => 0

namespace ConvSyntax

def precisionStars (conv : ConvSyntax) : Nat :=
  match conv.precision with
  | none => 0
  | some number => number.stars

def stars (conv : ConvSyntax) : Nat := conv.width.stars + conv.precisionStars

/-- The arguments that a conversion asks for. -/
def needs (conv : ConvSyntax) : Nat := conv.stars + if conv.spec = .percentage then 0 else 1

end ConvSyntax

namespace Conversion

/-- The argument that `fetch_arg` takes. -/
def formatted (done : Conversion) : Option VaArg :=
  if done.spec.spec = .percentage then none else done.args.head?

/-- A conversion takes its arguments from a list that starts with them: one number for each
star, which is the width or the precision, then its own. -/
structure InStep (done : Conversion) (args : List VaArg) : Prop where
  starts : done.args = args
  ends : done.left = args.drop done.conv.needs
  own : done.formatted =
    if done.conv.spec = .percentage then none else (args.drop done.conv.stars).head?
  type : ∀ arg, done.formatted = some arg → done.spec.Takes arg
  width : done.conv.width = .star → args.head? = some (.word done.spec.width)
  precision : done.conv.precision = some .star →
    (args.drop done.conv.width.stars).head? = some (.word done.spec.precision)

/-- What a conversion takes in the code: nothing or one argument. -/
structure Takes (done : Conversion) : Prop where
  spec : done.spec.spec = done.conv.spec
  nothing : done.conv.spec = .percentage → done.left = done.args
  one : done.conv.spec ≠ .percentage →
    ∃ arg, done.args = arg :: done.left ∧ done.spec.Takes arg

variable {done : Conversion}

theorem Takes.ends (takes : done.Takes) (starless : done.conv.stars = 0) :
    done.left = done.args.drop done.conv.needs := by
  rw [ConvSyntax.needs, starless, Nat.zero_add]
  split
  · next percentage => exact takes.nothing percentage
  · next other =>
      obtain ⟨arg, same, -⟩ := takes.one other
      rw [same]
      rfl

/-- A conversion without a star takes what it asks for. -/
theorem Takes.inStep (takes : done.Takes) (starless : done.conv.stars = 0) :
    done.InStep done.args := by
  obtain ⟨noWidth, noPrecision⟩ := Nat.add_eq_zero_iff.mp starless
  refine ⟨rfl, takes.ends starless, ?_, fun arg taken => ?_, fun isStar => ?_, fun isStar => ?_⟩
  · rw [formatted, takes.spec, starless, List.drop_zero]
  · rw [formatted, takes.spec] at taken
    split at taken
    · cases taken
    · next other =>
        obtain ⟨own, same, fits⟩ := takes.one other
        rw [same] at taken
        cases taken
        exact fits
  · rw [isStar] at noWidth
    cases noWidth
  · rw [ConvSyntax.precisionStars, isStar] at noPrecision
    cases noPrecision

/-- A star has no argument in an empty list. -/
theorem InStep.starless_of_nil (inStep : done.InStep []) : done.conv.stars = 0 := by
  have width : done.conv.width.stars = 0 := by
    cases given : done.conv.width with
    | star => cases inStep.width given
    | absent | numeral digits => rfl
  have precision : done.conv.precisionStars = 0 := by
    rw [ConvSyntax.precisionStars]
    cases given : done.conv.precision with
    | none => rfl
    | some number =>
        cases number with
        | star =>
            have missing := inStep.precision given
            rw [List.drop_nil] at missing
            cases missing
        | absent | numeral digits => rfl
  rw [ConvSyntax.stars, width, precision]

/-- A conversion that takes what it asks for has no star. -/
theorem Takes.starless (takes : done.Takes) (inStep : done.InStep args) : done.conv.stars = 0 := by
  by_contra some_there
  have ends := inStep.ends
  rw [← inStep.starts, ConvSyntax.needs] at ends
  by_cases percentage : done.conv.spec = .percentage
  · rw [takes.nothing percentage, if_pos percentage, Nat.add_zero] at ends
    have lengths := congrArg List.length ends
    rw [List.length_drop] at lengths
    have empty : done.args = [] := List.length_eq_zero_iff.mp (by omega)
    rw [← inStep.starts, empty] at inStep
    exact some_there inStep.starless_of_nil
  · obtain ⟨arg, same, -⟩ := takes.one percentage
    rw [if_neg percentage, same, List.drop_succ_cons] at ends
    have lengths := congrArg List.length ends
    rw [List.length_drop] at lengths
    have empty : done.left = [] := List.length_eq_zero_iff.mp (by omega)
    have own := inStep.own
    obtain ⟨stars, count⟩ := Nat.exists_eq_succ_of_ne_zero some_there
    rw [formatted, takes.spec, if_neg percentage, if_neg percentage, ← inStep.starts, same, count,
      List.drop_succ_cons, empty, List.drop_nil] at own
    cases own

end Conversion

/-- What `print_conv_spec` takes. -/
theorem printConvSpec_takes {s : ConvSpec} {left : List VaArg} {rc : Int}
    {calls after : List (OutputCall Nat)}
    (printed : printConvSpec f s args calls = .ok (rc, left, after)) :
    (s.spec = .percentage → left = args) ∧
      (s.spec ≠ .percentage → ∃ arg, args = arg :: left ∧ s.Takes arg) := by
  rw [printConvSpec] at printed
  constructor
  · intro percentage
    rw [if_pos percentage] at printed
    cases printed
    rfl
  · intro other
    rw [if_neg other] at printed
    obtain ⟨⟨a, behind⟩, fetched, printed⟩ := Outcome.bind_eq_ok.mp printed
    obtain ⟨_, _, returned⟩ := Outcome.bind_eq_ok.mp printed
    cases returned
    rcases s.fetchArg_cases args with ⟨arg, others, a', same, takes, found⟩ | missing | ⟨-, stopped⟩
    · cases found.symm.trans fetched
      exact ⟨arg, same, takes⟩
    · cases missing.symm.trans fetched
    · cases stopped.symm.trans fetched

theorem Round.takes {done : Conversion} (stepped : Round f state (some done) next) :
    done.Takes := by
  cases stepped with
  | conversion proper parsed printed notNegative inside =>
      obtain ⟨-, -, -, spec, -⟩ := ConvSyntax.parseConvSpec_text proper parsed
      obtain ⟨nothing, one⟩ := printConvSpec_takes printed
      rw [spec] at nothing one
      exact ⟨spec, nothing, one⟩

/-- The conversions among the rounds. -/
def conversions (rounds : List (Option Conversion)) : List Conversion := rounds.filterMap id

/-- The arguments that the conversions ask for. -/
def needed (dones : List Conversion) : Nat := (dones.map fun done => done.conv.needs).sum

/-- Every conversion takes its arguments behind those of the conversions before it. -/
def ConsumedInStep (args : List VaArg) (dones : List Conversion) : Prop :=
  ∀ before done after, dones = before ++ done :: after → done.InStep (args.drop (needed before))

@[simp]
theorem conversions_text : conversions (rounds ++ [none]) = conversions rounds := by
  simp [conversions, List.filterMap_append]

@[simp]
theorem conversions_snoc (done : Conversion) :
    conversions (rounds ++ [some done]) = conversions rounds ++ [done] := by
  simp [conversions, List.filterMap_append]

theorem needed_snoc (dones : List Conversion) (done : Conversion) :
    needed (dones ++ [done]) = needed dones + done.conv.needs := by
  simp [needed]

theorem ConsumedInStep.snoc {dones : List Conversion} {done : Conversion}
    (inStep : ConsumedInStep args dones) (last : done.InStep (args.drop (needed dones))) : ConsumedInStep args (dones ++ [done]) := by
  intro before other after split
  rcases List.eq_nil_or_concat' after with rfl | ⟨middle, final, rfl⟩
  · obtain ⟨rfl, same⟩ := List.append_inj' split rfl
    cases same
    exact last
  · have shape : dones ++ [done] = (before ++ other :: middle) ++ [final] := by simpa using split
    obtain ⟨rfl, -⟩ := List.append_inj' shape rfl
    exact inStep before other middle rfl

/-- A conversion of a run takes its arguments from where the run is. -/
theorem Round.args_eq {done : Conversion} (stepped : Round f state (some done) next) :
    done.args = state.args ∧ next.args = done.left := by
  cases stepped with
  | conversion => exact ⟨rfl, rfl⟩

theorem Round.text_args_eq (stepped : Round f state none next) : next.args = state.args := by
  cases stepped with
  | text => rfl

theorem trace_takes (trace : (kvfprintfMachine f format args).Trace state rounds final) :
    ∀ done ∈ conversions rounds, done.Takes := by
  induction trace with
  | nil => exact List.forall_mem_nil _
  | @snoc rounds middle round next _ stepped inductionHypothesis =>
      cases round with
      | none => simpa using inductionHypothesis
      | some done =>
          rw [conversions_snoc]
          exact List.forall_mem_append.mpr ⟨inductionHypothesis, by simpa using Round.takes stepped⟩

/-- Without stars every round leaves the arguments where the next one expects them. -/
theorem trace_inStep (trace : (kvfprintfMachine f format args).Trace state rounds final)
    (starless : ∀ done ∈ conversions rounds, done.conv.stars = 0) :
    ConsumedInStep state.args (conversions rounds) ∧
      final.args = state.args.drop (needed (conversions rounds)) := by
  induction trace with
  | nil => exact ⟨fun before _ _ split => absurd split.symm (by simp [conversions]), rfl⟩
  | @snoc rounds middle round next _ stepped inductionHypothesis =>
      cases round with
      | none =>
          rw [conversions_text] at starless ⊢
          obtain ⟨inStep, position⟩ := inductionHypothesis starless
          exact ⟨inStep, (Round.text_args_eq stepped).trans position⟩
      | some done =>
          rw [conversions_snoc] at starless ⊢
          obtain ⟨earlier, last⟩ := List.forall_mem_append.mp starless
          obtain ⟨inStep, position⟩ := inductionHypothesis earlier
          obtain ⟨starts, behind⟩ := Round.args_eq stepped
          have takes := Round.takes stepped
          have none_there := last done (List.mem_singleton_self done)
          have own := takes.inStep none_there
          rw [starts, position] at own
          refine ⟨inStep.snoc own, ?_⟩
          rw [behind, takes.ends none_there, starts, position, List.drop_drop, needed_snoc]

/-- `"%%%d"`. -/
def percentFormat : List Nat := [byteOf '%', byteOf '%', byteOf '%', byteOf 'd']

/-- `"%.*x"`. -/
def starPrecision : ConvSyntax := ⟨[], .absent, some .star, [byteOf 'x']⟩

end Yaeos
