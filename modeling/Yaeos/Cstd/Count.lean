import Yaeos.Cstd.Vfprintf

/-!
# What `kvfprintf` returns

Every function of the formatter that calls the output function returns the number
of characters it handed to it, and returns the first negative answer at once.
`Counts` is carried through them one by one, up to the loop over the format.
-/

namespace Yaeos

variable {f : FprintfFn} {s : ConvSpec} {arg : Argument} {calls : List (OutputCall Nat)}
  {format : List Nat} {rounds printed specLen : Nat} {args : List VaArg}

/-- Nothing is written. -/
theorem counts_zero (f : FprintfFn) : Counts f 0 fun calls => .ok (0, calls) := by
  intro calls
  exact .inr ⟨0, [], by rw [List.append_nil], trivial, Tallied.nil 0⟩

theorem writeDigits_ok (base : Nat) (digit : Nat → Nat) {bufferI : Nat} (room : 0 < bufferI)
    (ud : Nat) (digits : List Nat) :
    ∃ result, writeDigits base digit bufferI ud digits = .ok result := by
  induction bufferI generalizing ud digits with
  | zero => cases room
  | succ bufferI inductionHypothesis =>
      rw [writeDigits]
      by_cases more : ud / base ≠ 0 ∧ 0 < bufferI
      · rw [if_pos more]
        exact inductionHypothesis more.2 _ _
      · rw [if_neg more]
        exact ⟨_, rfl⟩

theorem bmod_of_fits {value : Int} (nonnegative : 0 ≤ value) (fits : value ≤ intMax) :
    value.bmod addressSpace = value := by
  unfold intMax at fits
  unfold addressSpace
  rw [Int.bmod_eq_of_le_mul_two] <;> omega

theorem counts_putValue (f : FprintfFn) (digits : List Nat) (printed : Nat) :
    Counts f printed (putValue f digits printed) := by
  intro calls
  obtain ⟨rc, new, returned, answered, tallied⟩ : ∃ rc new, put f digits calls = .ok (rc, calls ++ new) ∧
      Answered f calls new ∧ Tallied 0 rc new :=
    (counts_put f digits calls).resolve_left nofun
  rw [putValue, returned, Outcome.ok_bind]
  dsimp only
  by_cases negative : rc < 0
  · rw [if_pos negative]
    exact .inr ⟨rc, new, rfl, answered, tallied.early negative⟩
  · rw [if_neg negative]
    by_cases fits : printed ≤ intMax
    · rw [kassert_ok fits, Outcome.ok_bind]
      refine .inr ⟨_, new, rfl, answered, fun accepted total => ?_,
        .inl (tallied.nonnegative negative)⟩
      have counted := tallied.accepted accepted (by omega)
      rw [bmod_of_fits (by omega) (by omega)]
      omega
    · exact .inl (by rw [kassert_error fits, Outcome.error_bind])

theorem counts_basePrint (base : Nat) {bufferSize : Nat} (room : 0 < bufferSize) (f : FprintfFn)
    (s : ConvSpec) (a : Argument) : Counts f 0 (basePrint base bufferSize f s a) := by
  intro calls
  unfold basePrint
  by_cases nothing : s.precision = 0 ∧ a.ud = 0
  · rw [if_pos nothing]
    exact counts_zero f calls
  · obtain ⟨digits, written⟩ := writeDigits_ok base decimalDigit room a.ud []
    rw [if_neg nothing, kassert_ok room, Outcome.ok_bind, written, Outcome.ok_bind]
    by_cases given : special s.precision ≠ specialEmpty
    · rw [if_pos given]
      exact counts_putRepeatedly f _ (counts_putValue f digits) _ 0 calls
    · rw [if_neg given]
      exact counts_putValue f digits 0 calls

theorem counts_hexPrint (f : FprintfFn) (s : ConvSpec) (a : Argument) :
    Counts f 0 (hexPrint f s a) := by
  intro calls
  unfold hexPrint
  by_cases nothing : (s.spec = .uhex ∨ s.spec = .uhexBig) ∧ s.precision = 0 ∧ a.ud = 0
  · rw [if_pos nothing]
    exact counts_zero f calls
  · obtain ⟨digits, written⟩ := writeDigits_ok 16
      (hexDigit (if s.spec = .uhex then byteOf 'a' else byteOf 'A')) (by decide : 0 < 16) a.ud []
    rw [if_neg nothing]
    dsimp only
    rw [kassert_ok (by decide), Outcome.ok_bind, written, Outcome.ok_bind]
    exact counts_put f digits calls

theorem counts_strPrint (f : FprintfFn) (s : ConvSpec) (a : Argument) :
    Counts f 0 (strPrint f s a) := by
  intro calls
  unfold strPrint strLength
  dsimp only
  split
  · exact counts_put f _ calls
  · exact counts_put f _ calls

/-- The functions of the table. -/
theorem csFuncsTable_counts {spec : ConvSpecifiers} {funcs : ConvSpecFuncs}
    (found : csFuncsTable spec = .ok funcs) (f : FprintfFn) (s : ConvSpec) (a : Argument) :
    Counts f 0 (funcs.print f s a) := by
  cases spec with
  | int | udec => cases found; exact counts_basePrint 10 (by decide) f s a
  | uoctal => cases found; exact counts_basePrint 8 (by decide) f s a
  | ptr | uhex | uhexBig => cases found; exact counts_hexPrint f s a
  | str => cases found; exact counts_strPrint f s a
  | uchar => cases found; exact counts_put f _
  | writtenOut | percentage | invalid => cases found

theorem lengthForIntnumbase_ok (num base : Nat) {maxNumDigits : Nat} (few : maxNumDigits ≤ intMax) :
    ∃ length, lengthForIntnumbase num base maxNumDigits = .ok length :=
  ⟨_, by rw [lengthForIntnumbase, kassert_ok few, Outcome.ok_bind]⟩

theorem baseLength_ok (base : Nat) {maxNumDigits : Nat} (few : maxNumDigits ≤ intMax) (s : ConvSpec)
    (a : Argument) : ∃ length, baseLength base maxNumDigits s a = .ok length := by
  obtain ⟨length, computed⟩ := lengthForIntnumbase_ok a.ud base few
  rw [baseLength, computed, Outcome.ok_bind]
  split
  · exact ⟨_, rfl⟩
  · split <;> exact ⟨_, rfl⟩

theorem csFuncsTable_length {spec : ConvSpecifiers} {funcs : ConvSpecFuncs}
    (found : csFuncsTable spec = .ok funcs) (s : ConvSpec) (a : Argument) :
    ∃ length, funcs.length s a = .ok length := by
  have hex : ∃ length, hexLength s a = .ok length := by
    unfold hexLength
    split
    · exact ⟨_, rfl⟩
    · exact lengthForIntnumbase_ok _ _ (by decide)
  cases spec with
  | int | udec => cases found; exact baseLength_ok 10 (by decide) s a
  | uoctal => cases found; exact baseLength_ok 8 (by decide) s a
  | ptr | uhex | uhexBig => cases found; exact hex
  | str =>
      cases found
      dsimp only [strLength]
      split <;> exact ⟨_, rfl⟩
  | uchar => cases found; exact ⟨1, rfl⟩
  | writtenOut | percentage | invalid => cases found

theorem counts_putFlags (f : FprintfFn) (s : ConvSpec) (arg : Argument) :
    Counts f 0 (putFlags f s arg) := by
  intro calls
  unfold putFlags
  split
  · exact counts_put f _ calls
  · split
    · exact counts_put f _ calls
    · split
      · exact counts_put f _ calls
      · exact counts_zero f calls

section Field

variable {rest : Nat → Printer Nat} (more : ∀ printed, Counts f printed (rest printed))
include more

theorem counts_putPrepended (s : ConvSpec) (arg : Argument) (toPrepend : Option (List Nat))
    (printed : Nat) : Counts f printed (putPrepended f s arg toPrepend rest printed) := by
  have flags := (counts_putFlags f s arg).counted more
  cases toPrepend with
  | some chars => exact (counts_put f chars).counted flags printed
  | none => exact flags printed

theorem counts_putLeft (s : ConvSpec) (arg : Argument) (toPrepend : Option (List Nat))
    (widthToFill : Int) (printed : Nat) :
    Counts f printed (putLeft f s arg toPrepend widthToFill rest printed) := by
  unfold putLeft
  split
  · split
    · exact counts_putPrepended (counts_putRepeatedly f _ more _) s arg toPrepend printed
    · exact counts_putRepeatedly f _ more _ printed
  · exact more printed

end Field

theorem counts_putRight (f : FprintfFn) (s : ConvSpec) (widthToFill : Int) (printed : Nat) :
    Counts f printed (putRight f s widthToFill printed) := by
  unfold putRight
  split
  · exact counts_putRepeatedly f _ (counts_returnPrinted f) _ printed
  · exact counts_returnPrinted f printed

theorem counts_putField {funcs : ConvSpecFuncs} (prints : Counts f 0 (funcs.print f s arg))
    (toPrepend : Option (List Nat)) (widthToFill : Int) :
    Counts f 0 (putField f s arg funcs toPrepend widthToFill) := by
  have value := prints.counted (counts_putRight f s widthToFill)
  refine counts_putLeft (fun printed => ?_) s arg toPrepend widthToFill 0
  split
  · exact value printed
  · exact counts_putPrepended value s arg toPrepend printed

/-- A field is counted, or an assertion about the lengths fails. -/
theorem counts_printArgument (listed : ∃ funcs, csFuncsTable s.spec = .ok funcs) (f : FprintfFn)
    (arg : Argument) : Counts f 0 (printArgument f s arg) := by
  intro calls
  obtain ⟨funcs, found⟩ := listed
  obtain ⟨numLen, computed⟩ := csFuncsTable_length found s arg
  rw [printArgument, found, Outcome.ok_bind, computed, Outcome.ok_bind]
  by_cases width : s.width < intptrMax
  · by_cases num : numLen < intptrMax
    · by_cases front : ((funcs.toPrepend.map (· s)).getD []).length < intptrMax
      · rw [kassert_ok width, Outcome.ok_bind, kassert_ok num, Outcome.ok_bind, kassert_ok front,
          Outcome.ok_bind]
        exact counts_putField (csFuncsTable_counts found f s arg) _ _ calls
      · exact .inl (by rw [kassert_ok width, Outcome.ok_bind, kassert_ok num, Outcome.ok_bind,
          kassert_error front, Outcome.error_bind])
    · exact .inl (by rw [kassert_ok width, Outcome.ok_bind, kassert_error num, Outcome.error_bind])
  · exact .inl (by rw [kassert_error width, Outcome.error_bind])

theorem parseFlags_length (cursor : List Nat) (flags : ConvFlags) :
    (parseFlags cursor flags).2.length ≤ cursor.length := by
  induction cursor generalizing flags with
  | nil => exact Nat.le_refl _
  | cons byte cursor inductionHypothesis =>
      have shorter : ∀ flags, (parseFlags cursor flags).2.length ≤ (byte :: cursor).length :=
        fun flags => Nat.le_succ_of_le (inductionHypothesis flags)
      rw [parseFlags]
      split_ifs
      all_goals first | exact shorter _ | exact Nat.le_refl _

theorem parseWidth_length {cursor rest : List Nat} {width : Nat}
    (parsed : parseWidth cursor = .ok (width, rest)) : rest.length ≤ cursor.length := by
  rw [parseWidth] at parsed
  split at parsed
  · cases parsed
    simp
  · obtain ⟨_, -, parsed⟩ := Outcome.bind_eq_ok.mp parsed
    split at parsed
    · cases parsed
      exact Nat.le_refl _
    · cases parsed
      simp

theorem parsePrecision_length {cursor rest : List Nat} {precision : Nat}
    (parsed : parsePrecision cursor = .ok (precision, rest)) : rest.length ≤ cursor.length := by
  rw [parsePrecision] at parsed
  split at parsed
  · cases parsed
    exact Nat.le_refl _
  · split at parsed
    · cases parsed
      simp
      omega
    · obtain ⟨_, -, parsed⟩ := Outcome.bind_eq_ok.mp parsed
      split at parsed
      · cases parsed
        simp
      · cases parsed
        simp only [List.length_drop, List.length_tail]
        omega

theorem parseLength_length (cursor : List Nat) : (parseLength cursor).2.length ≤ cursor.length := by
  unfold parseLength
  dsimp only
  split_ifs
  all_goals simp only [List.length_tail]; omega

/-- A specification with a known specifier ends within the format. -/
theorem parseConvSpec_bounds {byte : Nat} (parsed : parseConvSpec (byte :: format) = .ok (s, specLen))
    (known : s.spec ≠ .invalid) : 0 < specLen ∧ specLen ≤ (byte :: format).length := by
  rw [parseConvSpec] at parsed
  dsimp only [List.tail_cons] at parsed
  obtain ⟨⟨width, afterWidth⟩, widthParsed, parsed⟩ := Outcome.bind_eq_ok.mp parsed
  dsimp only at parsed
  obtain ⟨⟨precision, afterPrecision⟩, precisionParsed, parsed⟩ := Outcome.bind_eq_ok.mp parsed
  cases parsed
  have flags := parseFlags_length format ⟨false, false, false, false, false⟩
  have afterFlags := parseWidth_length widthParsed
  have afterNumbers := parsePrecision_length precisionParsed
  have afterLength := parseLength_length afterPrecision
  have some_left : 0 < (parseLength afterPrecision).2.length := by
    refine List.length_pos_iff.mpr fun atEnd => known ?_
    simp only [atEnd]
    decide
  simp only [List.length_cons]
  omega

/-- The text in front of a conversion is not empty. -/
theorem textLength_pos {byte : Nat} (isText : byte ≠ byteOf '%') : 0 < textLength (byte :: format) := by
  rw [textLength, kstrchr, if_neg isText]
  cases found : kstrchr format (byteOf '%') with
  | none => simp [kstrlen]
  | some cspec =>
      have shorter := length_le_of_kstrchr found
      simp only [List.length_cons]
      omega

def ConvSpecifiers.isInteger : ConvSpecifiers → Bool
  | .int | .uoctal | .udec | .uhex | .uhexBig => true
  | _ => false

/-- The conversion is supported and reads an argument of this kind. -/
def ConvSpec.Takes (s : ConvSpec) : VaArg → Prop
  | .word _ => (s.spec.isInteger = true ∧ s.length ≠ .llong ∧ s.length ≠ .intmax ∧
      s.length ≠ .ldouble) ∨ s.spec = .ptr ∨ s.spec = .uchar
  | .dword _ => s.spec.isInteger = true ∧ (s.length = .llong ∨ s.length = .intmax)
  | .string _ => s.spec = .str

/-- A format of text and supported conversions, and arguments for it.  Further arguments
are not read. -/
inductive Matching : List Nat → List VaArg → Prop where
  | done (args : List VaArg) : Matching [] args
  | text {byte : Nat} {format : List Nat} {args : List VaArg} : byte ≠ byteOf '%' →
      Matching ((byte :: format).drop (textLength (byte :: format))) args →
      Matching (byte :: format) args
  | percent {format : List Nat} {args : List VaArg} {s : ConvSpec} {specLen : Nat} :
      parseConvSpec (byteOf '%' :: format) = .ok (s, specLen) → s.spec = .percentage →
      Matching ((byteOf '%' :: format).drop specLen) args → Matching (byteOf '%' :: format) args
  | conversion {format : List Nat} {arg : VaArg} {args : List VaArg} {s : ConvSpec} {specLen : Nat} :
      parseConvSpec (byteOf '%' :: format) = .ok (s, specLen) → s.Takes arg →
      Matching ((byteOf '%' :: format).drop specLen) args →
      Matching (byteOf '%' :: format) (arg :: args)

theorem ConvSpec.Takes.listed {arg : VaArg} (takes : s.Takes arg) :
    ∃ funcs, csFuncsTable s.spec = .ok funcs := by
  have supported : s.spec.isInteger = true ∨ s.spec = .ptr ∨ s.spec = .uchar ∨ s.spec = .str := by
    cases arg with
    | word bits => exact takes.elim (fun integer => .inl integer.1) fun others => .inr (by tauto)
    | dword bits => exact .inl takes.1
    | string str => exact .inr (.inr (.inr takes))
  rcases supported with integer | ptr | uchar | str
  · cases spec : s.spec <;> first | exact ⟨_, rfl⟩ | (rw [spec] at integer; cases integer)
  · exact ⟨_, by rw [ptr]; rfl⟩
  · exact ⟨_, by rw [uchar]; rfl⟩
  · exact ⟨_, by rw [str]; rfl⟩

/-- An integer conversion is signed or unsigned. -/
theorem fetchArg_integer {spec : ConvSpecifiers} (integer : spec.isInteger = true)
    (length : ConvLength) (args : List VaArg) : fetchArg length args spec = fetchInt args length ∨
      fetchArg length args spec = fetchUnsigned args length := by
  cases spec <;> first | exact .inl rfl | exact .inr rfl | cases integer

theorem fetch_word {length : ConvLength} (isWord : length ≠ .llong ∧ length ≠ .intmax ∧
    length ≠ .ldouble) (bits : Nat) (args : List VaArg) :
    (∃ a, fetchInt (.word bits :: args) length = .ok (a, args)) ∧
      ∃ a, fetchUnsigned (.word bits :: args) length = .ok (a, args) := by
  cases length <;> first | exact ⟨⟨_, rfl⟩, _, rfl⟩ | simp at isWord

/-- `fetch_arg` takes the argument. -/
theorem ConvSpec.Takes.fetched {arg : VaArg} (takes : s.Takes arg) (args : List VaArg) :
    ∃ a, fetchArg s.length (arg :: args) s.spec = .ok (a, args) := by
  cases arg with
  | word bits =>
      rcases takes with ⟨integer, isWord⟩ | ptr | uchar
      · obtain ⟨signed, unsigned⟩ := fetch_word isWord bits args
        rcases fetchArg_integer integer s.length (.word bits :: args) with same | same
        · rwa [same]
        · rwa [same]
      · rw [ptr]
        exact ⟨_, rfl⟩
      · rw [uchar]
        exact ⟨_, rfl⟩
  | dword bits =>
      obtain ⟨integer, isLong⟩ := takes
      rcases fetchArg_integer integer s.length (.dword bits :: args) with same | same <;>
        rcases isLong with long | long <;> rw [same, long] <;> exact ⟨_, rfl⟩
  | string str =>
      have isStr : s.spec = .str := takes
      rw [isStr]
      exact ⟨_, rfl⟩

/-- Some argument fits the conversion. -/
def ConvSpec.Supported (s : ConvSpec) : Prop := ∃ arg, s.Takes arg

/-- What `fetch_arg` does for an integer. -/
theorem fetch_cases {fetch : List VaArg → ConvLength → Outcome (Argument × List VaArg)}
    (isFetch : fetch = fetchInt ∨ fetch = fetchUnsigned) (integer : s.spec.isInteger = true)
    (args : List VaArg) :
    (∃ arg left a, args = arg :: left ∧ s.Takes arg ∧ fetch args s.length = .ok (a, left)) ∨
      fetch args s.length = .error .outOfBounds ∨
        s.length = .ldouble ∧ fetch args s.length = .error .kassert := by
  cases length : s.length <;> rcases args with _ | ⟨_ | _ | _, left⟩ <;>
    rcases isFetch with rfl | rfl <;>
    first
    | exact .inr (.inl rfl)
    | exact .inr (.inr ⟨rfl, rfl⟩)
    | exact .inl ⟨_, _, _, rfl, by simp [ConvSpec.Takes, integer, length], rfl⟩

/-- `fetch_arg` takes one argument that fits, or there is none in the list, or an assertion
fails. -/
theorem ConvSpec.fetchArg_cases (s : ConvSpec) (args : List VaArg) :
    (∃ arg left a, args = arg :: left ∧ s.Takes arg ∧
        fetchArg s.length args s.spec = .ok (a, left)) ∨
      fetchArg s.length args s.spec = .error .outOfBounds ∨
        ¬s.Supported ∧ fetchArg s.length args s.spec = .error .kassert := by
  have unsupported (others : s.spec ≠ .ptr ∧ s.spec ≠ .uchar ∧ s.spec ≠ .str)
      (integer : s.spec.isInteger = true → s.length = .ldouble) : ¬s.Supported := by
    obtain ⟨notPtr, notChar, notStr⟩ := others
    rintro ⟨bits | bits | str, takes⟩
    · rcases takes with ⟨isInteger, -, -, notLong⟩ | ptr | uchar
      · exact notLong (integer isInteger)
      · exact notPtr ptr
      · exact notChar uchar
    · obtain ⟨isInteger, long⟩ := takes
      rw [integer isInteger] at long
      cases long <;> contradiction
    · exact notStr takes
  cases spec : s.spec with
  | int =>
      refine (fetch_cases (.inl rfl) (by rw [spec]; rfl) args).imp id (Or.imp id ?_)
      exact fun ⟨long, stopped⟩ => ⟨unsupported (by simp [spec]) fun _ => long, stopped⟩
  | uhex | uhexBig | uoctal | udec =>
      refine (fetch_cases (.inr rfl) (by rw [spec]; rfl) args).imp id (Or.imp id ?_)
      exact fun ⟨long, stopped⟩ => ⟨unsupported (by simp [spec]) fun _ => long, stopped⟩
  | ptr =>
      rcases args with _ | ⟨_ | _ | _, left⟩ <;>
        first | exact .inr (.inl rfl) | exact .inl ⟨_, _, _, rfl, .inr (.inl spec), rfl⟩
  | uchar =>
      rcases args with _ | ⟨_ | _ | _, left⟩ <;>
        first | exact .inr (.inl rfl) | exact .inl ⟨_, _, _, rfl, .inr (.inr spec), rfl⟩
  | str =>
      rcases args with _ | ⟨_ | _ | _, left⟩ <;>
        first | exact .inr (.inl rfl) | exact .inl ⟨_, _, _, rfl, spec, rfl⟩
  | writtenOut | percentage | invalid =>
      exact .inr (.inr ⟨unsupported (by simp [spec]) (by simp [spec, ConvSpecifiers.isInteger]), rfl⟩)

/-- One conversion: what it prints is counted and the loop goes on behind it. -/
theorem kvfprintfLoop_conversion {printer : Printer Nat} {left : List VaArg}
    (parsed : parseConvSpec (byteOf '%' :: format) = .ok (s, specLen))
    (fits : specLen ≤ (byteOf '%' :: format).length)
    (prints : ∀ calls, printConvSpec f s args calls = (do
      let (rc, calls) ← printer calls
      .ok (rc, left, calls))) :
    kvfprintfLoop f (rounds + 1) (byteOf '%' :: format) args printed =
      counted printer printed
        (kvfprintfLoop f rounds ((byteOf '%' :: format).drop specLen) left) := by
  funext calls
  rw [kvfprintfLoop, if_pos rfl]
  dsimp only
  rw [parsed, Outcome.ok_bind]
  dsimp only
  rw [prints, counted]
  cases printer calls with
  | error fault => rfl
  | ok result =>
      simp only [Outcome.ok_bind]
      rw [if_neg (Nat.not_lt.mpr fits)]

theorem printConvSpec_percent (percentage : s.spec = .percentage) (calls : List (OutputCall Nat)) :
    printConvSpec f s args calls = (do
      let (rc, calls) ← put f [byteOf '%'] calls
      .ok (rc, args, calls)) := if_pos percentage

theorem printConvSpec_argument {arg : VaArg} {a : Argument} (takes : s.Takes arg)
    (fetched : fetchArg s.length (arg :: args) s.spec = .ok (a, args))
    (calls : List (OutputCall Nat)) :
    printConvSpec f s (arg :: args) calls = (do
      let (rc, calls) ← printArgument f s a calls
      .ok (rc, args, calls)) := by
  have notPercentage : s.spec ≠ .percentage := by
    intro percentage
    obtain ⟨funcs, found⟩ := takes.listed
    rw [percentage] at found
    cases found
  rw [printConvSpec, if_neg notPercentage, fetched, Outcome.ok_bind]

/-- The loop over a format, by the structure of the format. -/
theorem Matching.counts (matching : Matching format args) (f : FprintfFn)
    (enough : format.length ≤ rounds) (printed : Nat) :
    Counts f printed (kvfprintfLoop f rounds format args printed) := by
  induction matching generalizing rounds printed with
  | done args =>
      rw [kvfprintfLoop]
      exact counts_returnPrinted f printed
  | @text byte format args isText _ inductionHypothesis =>
      obtain ⟨rounds, rfl⟩ : ∃ more, rounds = more + 1 := ⟨rounds - 1, by simp at enough; omega⟩
      have progress : 0 < textLength (byte :: format) := textLength_pos isText
      rw [kvfprintfLoop, if_neg isText]
      refine (counts_put f _).counted (fun printed => inductionHypothesis ?_ printed) printed
      rw [List.length_drop]
      omega
  | @percent format args s specLen parsed percentage _ inductionHypothesis =>
      obtain ⟨rounds, rfl⟩ : ∃ more, rounds = more + 1 := ⟨rounds - 1, by simp at enough; omega⟩
      obtain ⟨progress, fits⟩ := parseConvSpec_bounds parsed (by simp [percentage])
      rw [kvfprintfLoop_conversion parsed fits (printConvSpec_percent percentage)]
      refine (counts_put f _).counted (fun printed => inductionHypothesis ?_ printed) printed
      rw [List.length_drop]
      omega
  | @conversion format arg args s specLen parsed takes _ inductionHypothesis =>
      obtain ⟨rounds, rfl⟩ : ∃ more, rounds = more + 1 := ⟨rounds - 1, by simp at enough; omega⟩
      obtain ⟨a, fetched⟩ := takes.fetched args
      have known : s.spec ≠ .invalid := by
        intro invalid
        obtain ⟨funcs, found⟩ := takes.listed
        rw [invalid] at found
        cases found
      obtain ⟨progress, fits⟩ := parseConvSpec_bounds parsed known
      rw [kvfprintfLoop_conversion parsed fits (printConvSpec_argument takes fetched)]
      refine (counts_printArgument takes.listed f a).counted
        (fun printed => inductionHypothesis ?_ printed) printed
      rw [List.length_drop]
      omega

/-- If no assertion fails, `kvfprintf` returns: the number of characters written if every
chunk was accepted, and the first negative answer, behind which there is no further
call. -/
theorem kvfprintf_reports (matching : Matching format args) (f : FprintfFn)
    (passes : kvfprintf f format args ≠ .error .kassert) :
    ∃ rc calls, kvfprintf f format args = .ok (rc, calls) ∧ Answered f [] calls ∧
      ((∀ call ∈ calls, call.Accepted) → written calls ≤ intMax → rc = written calls) ∧
      ∀ before call after, calls = before ++ call :: after → call.rc < 0 →
        after = [] ∧ rc = call.rc := by
  rcases matching.counts f (Nat.le_refl _) 0 [] with stopped | ⟨rc, calls, returned, answered, tallied⟩
  · exact absurd stopped passes
  · refine ⟨rc, calls, returned, answered, fun accepted fits => ?_, ?_⟩
    · have counted := tallied.accepted accepted (by omega)
      rwa [Nat.zero_add] at counted
    · rintro before call after rfl negative
      exact tallied.stops negative

/-- An output function that takes every chunk. -/
def acceptAll : FprintfFn := fun _ chunk => chunk.length

/-- `"%04d!"`. -/
def paddedFormat : List Nat := [byteOf '%', byteOf '0', byteOf '4', byteOf 'd', byteOf '!']

/-- The format and the number -16. -/
theorem paddedFormat_matching : Matching paddedFormat [.word 0xFFFFFFF0] :=
  .conversion (s := ⟨⟨false, false, false, false, true⟩, 4, specialEmpty, .none, .int⟩) rfl
    (.inl (by decide)) (.text (by decide) (.done []))

theorem paddedFormat_reports : ∃ calls, calls.length = 4 ∧
    kvfprintf acceptAll paddedFormat [.word 0xFFFFFFF0] = .ok (written calls, calls) := by
  obtain ⟨rc, calls, returned, -, counts, -⟩ :=
    kvfprintf_reports paddedFormat_matching acceptAll (by decide +kernel)
  have run : kvfprintf acceptAll paddedFormat [.word 0xFFFFFFF0] =
      .ok (5, [⟨[45], 1⟩, ⟨[48], 1⟩, ⟨[49, 54], 2⟩, ⟨[33], 1⟩]) := by decide +kernel
  rw [run] at returned
  cases returned
  have total := counts (by simp [OutputCall.Accepted]) (by decide)
  exact ⟨_, rfl, by rw [run, ← total]⟩

end Yaeos
