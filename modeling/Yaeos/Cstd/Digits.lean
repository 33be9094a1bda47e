import Yaeos.Cstd.Count
import Yaeos.Machine.Emission
import Yaeos.Machine.Numeral

/-!
# The digits of a conversion

The loops that write a value and the loop that counts its digits agree with the
numeral of the value, for every value of 64 bits.  `valueText` is what the print
function of a numeric conversion hands over, and its length is what the length
function returns.
-/

namespace Yaeos

section Loops

variable {base bufferI ud num digits : Nat}

/-- A buffer with room for all digits receives the numeral. -/
theorem writeDigits_eq (proper : 1 < base) (digit : Nat → Nat) (room : 0 < bufferI)
    (fits : ud < base ^ bufferI) (behind : List Nat) :
    writeDigits base digit bufferI ud behind = .ok ((numeral base ud).map digit ++ behind) := by
  induction bufferI generalizing ud behind with
  | zero => cases room
  | succ bufferI inductionHypothesis =>
      rw [writeDigits]
      by_cases large : base ≤ ud
      · have more : ud / base ≠ 0 := (Nat.div_pos large (by omega)).ne'
        have shorter : ud / base < base ^ bufferI := by
          rw [Nat.div_lt_iff_lt_mul (by omega)]
          exact fits
        have left : 0 < bufferI := by
          refine Nat.pos_of_ne_zero fun atEnd => ?_
          rw [atEnd, Nat.zero_add, Nat.pow_one] at fits
          omega
        rw [if_pos ⟨more, left⟩, inductionHypothesis left shorter, numeral_snoc proper large]
        simp
      · have last : ud / base = 0 := Nat.div_eq_of_lt (by omega)
        rw [if_neg (by simp [last]), numeral_of_lt (by omega), Nat.mod_eq_of_lt (by omega)]
        rfl

theorem power_eq (base i : Nat) :
    (List.range i).foldl (fun power _ => power * base % uintmaxSpace) 1 = base ^ i % uintmaxSpace := by
  induction i with
  | zero => rfl
  | succ i inductionHypothesis =>
      rw [List.range_succ, List.foldl_append, inductionHypothesis, Nat.pow_succ]
      exact Nat.mod_mul_mod _ _ _

/-- The loop finds the number of digits if no power of the base overflows. -/
theorem highestPower_eq (proper : 1 < base) (small : num < base ^ digits)
    (powers : ∀ i < digits, base ^ i < uintmaxSpace) :
    highestPower num base digits = (numeral base num).length := by
  induction digits with
  | zero =>
      have zero : num = 0 := by simpa using small
      rw [zero, numeral_zero]
      rfl
  | succ i inductionHypothesis =>
      rw [highestPower, power_eq, Nat.mod_eq_of_lt (powers i (Nat.lt_succ_self i))]
      by_cases reaches : num ≥ base ^ i
      · have atLeast := lt_length_numeral proper reaches
        have atMost := length_numeral_le proper (Nat.succ_pos i) small
        rw [if_pos reaches]
        omega
      · rw [if_neg reaches]
        exact inductionHypothesis (Nat.lt_of_not_ge reaches)
          fun j below => powers j (Nat.lt_succ_of_lt below)

end Loops

namespace ConvSpecifiers

/-- The conversions with digits. -/
def isNumeric (spec : ConvSpecifiers) : Bool := spec.isInteger || spec == .ptr

/-- The conversions that call the functions for hexadecimal digits. -/
def isHex : ConvSpecifiers → Bool
  | .uhex | .uhexBig | .ptr => true
  | _ => false

def base : ConvSpecifiers → Nat
  | .uoctal => 8
  | .uhex | .uhexBig | .ptr => 16
  | _ => 10

/-- The size of the buffer for the digits. -/
def bufferSize : ConvSpecifiers → Nat
  | .uoctal => 22
  | .uhex | .uhexBig | .ptr => 16
  | _ => 20

/-- The character of a digit. -/
def digitChar (spec : ConvSpecifiers) (digit : Nat) : Nat :=
  if digit < 10 then digit + byteOf '0'
  else digit - 10 + (if spec = .uhex then byteOf 'a' else byteOf 'A')

theorem base_proper (spec : ConvSpecifiers) : 1 < spec.base ∧ spec.base ≤ 16 := by
  cases spec <;> decide

theorem bufferSize_bounds (spec : ConvSpecifiers) : 0 < spec.bufferSize ∧ spec.bufferSize ≤ 22 := by
  cases spec <;> decide

/-- Every value of 64 bits has a place in the buffer. -/
theorem uintmax_le_power (spec : ConvSpecifiers) : uintmaxSpace ≤ spec.base ^ spec.bufferSize := by
  cases spec <;> decide

/-- The powers that the length is found by have 64 bits. -/
theorem powers_fit (spec : ConvSpecifiers) :
    ∀ i < spec.bufferSize, spec.base ^ i < uintmaxSpace := by
  cases spec <;> decide

theorem digitChar_decimal {spec : ConvSpecifiers} (decimal : spec.base ≤ 10) {digit : Nat}
    (below : digit < spec.base) : spec.digitChar digit = decimalDigit digit := if_pos (by omega)

end ConvSpecifiers

/-- The value of a character as a digit. -/
def digitOf (base char : Nat) : Option Nat :=
  let digit :=
    if byteOf '0' ≤ char ∧ char ≤ byteOf '9' then some (char - byteOf '0')
    else if byteOf 'a' ≤ char ∧ char ≤ byteOf 'f' then some (char - byteOf 'a' + 10)
    else if byteOf 'A' ≤ char ∧ char ≤ byteOf 'F' then some (char - byteOf 'A' + 10)
    else none
  digit.filter (· < base)

theorem digitOf_digitChar (spec : ConvSpecifiers) {digit : Nat} (below : digit < spec.base) :
    digitOf spec.base (spec.digitChar digit) = some digit := by
  cases spec
  all_goals
    revert digit
    decide

theorem digitChar_eq_zero {spec : ConvSpecifiers} {digit : Nat} :
    spec.digitChar digit = byteOf '0' ↔ digit = 0 := by
  unfold ConvSpecifiers.digitChar byteOf
  split
  · omega
  · constructor
    · intro same
      split at same <;> simp at same
    · rintro rfl
      omega

variable {f : FprintfFn} {s : ConvSpec} {a : Argument} {printed : Nat}

/-- The digits of a value, as many as it has. -/
def digitText (spec : ConvSpecifiers) (ud : Nat) : List Nat :=
  (numeral spec.base ud).map spec.digitChar

/-- The zeros that the precision puts in front of the digits. -/
def paddingZeros (s : ConvSpec) (ud : Nat) : Nat :=
  if s.spec.isHex = false ∧ special s.precision ≠ specialEmpty then
    s.precision - (digitText s.spec ud).length
  else 0

/-- What the print function of a numeric conversion hands over. -/
def valueText (s : ConvSpec) (ud : Nat) : List Nat :=
  if s.spec ≠ .ptr ∧ s.precision = 0 ∧ ud = 0 then []
  else List.replicate (paddingZeros s ud) (byteOf '0') ++ digitText s.spec ud

theorem length_digitText (spec : ConvSpecifiers) (ud : Nat) :
    (digitText spec ud).length = (numeral spec.base ud).length := List.length_map _

theorem length_digitText_le (spec : ConvSpecifiers) {ud : Nat} (fits : ud < uintmaxSpace) :
    (digitText spec ud).length ≤ 22 := by
  have room := spec.bufferSize_bounds
  have bounded := length_numeral_le spec.base_proper.1 room.1
    (Nat.lt_of_lt_of_le fits spec.uintmax_le_power)
  rw [length_digitText]
  omega

/-- The precision less the digits, as a signed word. -/
theorem padding_eq {precision length : Nat} (signed : precision < intptrMax) (short : length ≤ 22) :
    ((wrapSub precision length : Int).bmod addressSpace).toNat = precision - length := by
  unfold intptrMax at signed
  unfold wrapSub wrap addressSpace
  rw [Int.bmod_def]
  split <;> omega

theorem digits_written (spec : ConvSpecifiers) {ud : Nat} (fits : ud < uintmaxSpace)
    (digit : Nat → Nat) (same : ∀ n < spec.base, digit n = spec.digitChar n) :
    writeDigits spec.base digit spec.bufferSize ud [] = .ok (digitText spec ud) := by
  rw [writeDigits_eq spec.base_proper.1 digit spec.bufferSize_bounds.1
    (Nat.lt_of_lt_of_le fits spec.uintmax_le_power), List.append_nil, digitText]
  exact congrArg _ (List.map_congr_left fun n member =>
    same n (lt_base_of_mem_numeral spec.base_proper.1 member))

theorem length_found (spec : ConvSpecifiers) {ud : Nat} (fits : ud < uintmaxSpace) :
    lengthForIntnumbase ud spec.base spec.bufferSize = .ok (digitText spec ud).length := by
  have few : spec.bufferSize ≤ intMax := Nat.le_trans spec.bufferSize_bounds.2 (by decide)
  rw [lengthForIntnumbase, kassert_ok few, Outcome.ok_bind, length_digitText,
    highestPower_eq spec.base_proper.1 (Nat.lt_of_lt_of_le fits spec.uintmax_le_power)
      spec.powers_fit]

theorem writes_putValue (f : FprintfFn) (digits : List Nat) (printed : Nat) :
    Writes (putValue f digits printed) digits := by
  intro calls rc final returned notNegative
  obtain ⟨⟨count, _⟩, handed, returned⟩ := Outcome.bind_eq_ok.mp returned
  dsimp only at returned
  by_cases refused : count < 0
  · rw [if_pos refused] at returned
    cases returned
    omega
  · rw [if_neg refused] at returned
    obtain ⟨_, _, returned⟩ := Outcome.bind_eq_ok.mp returned
    cases returned
    exact writes_put f digits calls count _ handed (by omega)

theorem completes_putValue (accepts : Accepts f) (digits : List Nat)
    (fits : printed + digits.length ≤ intMax) : Completes (putValue f digits printed) printed digits := by
  intro calls
  obtain ⟨new, returned, rfl⟩ := completes_put accepts digits calls
  refine ⟨new, ?_, rfl⟩
  rw [putValue, returned, Outcome.ok_bind]
  dsimp only
  rw [if_neg (by omega), kassert_ok (by omega), Outcome.ok_bind, Nat.zero_add,
    bmod_of_fits (by omega) (by omega), Nat.add_comm printed, Nat.cast_add]

section Base

variable (decimal : s.spec.isHex = false)
include decimal

theorem decimal_base : s.spec.base ≤ 10 ∧ s.spec ≠ .ptr := by
  cases spec : s.spec <;> rw [spec] at decimal <;> first | (constructor <;> decide) | cases decimal

/-- A zero without digits. -/
theorem valueText_nothing (nothing : s.precision = 0 ∧ a.ud = 0) : valueText s a.ud = [] :=
  if_pos ⟨(decimal_base decimal).2, nothing⟩

omit decimal in
theorem valueText_digits (something : ¬(s.precision = 0 ∧ a.ud = 0)) : valueText s a.ud =
    List.replicate (paddingZeros s a.ud) (byteOf '0') ++ digitText s.spec a.ud :=
  if_neg fun both => something both.2

theorem baseLength_eq (fits : a.ud < uintmaxSpace) :
    baseLength s.spec.base s.spec.bufferSize s a = .ok (valueText s a.ud).length := by
  rw [baseLength]
  by_cases nothing : s.precision = 0 ∧ a.ud = 0
  · rw [if_pos nothing, valueText_nothing decimal nothing]
    rfl
  · rw [if_neg nothing, length_found s.spec fits, Outcome.ok_bind, valueText_digits nothing,
      List.length_append, List.length_replicate, paddingZeros]
    by_cases given : special s.precision ≠ specialEmpty
    · by_cases longer : s.precision ≥ (digitText s.spec a.ud).length
      · rw [if_pos ⟨given, longer⟩, if_pos ⟨decimal, given⟩, Nat.sub_add_cancel longer]
      · rw [if_neg fun both => longer both.2, if_pos ⟨decimal, given⟩]
        congr 1
        omega
    · rw [if_neg fun both => given both.1, if_neg fun both => given both.2, Nat.zero_add]

/-- What remains of `basePrint` when the digits are written. -/
theorem basePrint_eq (fits : a.ud < uintmaxSpace)
    (signed : special s.precision ≠ specialEmpty → s.precision < intptrMax)
    (something : ¬(s.precision = 0 ∧ a.ud = 0)) (calls : List (OutputCall Nat)) :
    basePrint s.spec.base s.spec.bufferSize f s a calls =
      putRepeatedly f [byteOf '0'] (putValue f (digitText s.spec a.ud)) (paddingZeros s a.ud) 0
        calls := by
  have same : ∀ n < s.spec.base, decimalDigit n = s.spec.digitChar n := fun n below =>
    (ConvSpecifiers.digitChar_decimal (decimal_base decimal).1 below).symm
  rw [basePrint, if_neg something, kassert_ok s.spec.bufferSize_bounds.1, Outcome.ok_bind,
    digits_written s.spec fits decimalDigit same, Outcome.ok_bind, paddingZeros]
  by_cases given : special s.precision ≠ specialEmpty
  · rw [if_pos given, if_pos ⟨decimal, given⟩]
    dsimp only
    rw [padding_eq (signed given) (length_digitText_le s.spec fits)]
  · rw [if_neg given, if_neg fun both => given both.2]
    rfl

theorem writes_basePrint (f : FprintfFn) (fits : a.ud < uintmaxSpace)
    (signed : special s.precision ≠ specialEmpty → s.precision < intptrMax) :
    Writes (basePrint s.spec.base s.spec.bufferSize f s a) (valueText s a.ud) := by
  by_cases nothing : s.precision = 0 ∧ a.ud = 0
  · rw [valueText_nothing decimal nothing]
    intro calls rc final returned notNegative
    rw [basePrint, if_pos nothing] at returned
    exact writes_nothing 0 calls rc final returned notNegative
  · intro calls rc final returned notNegative
    rw [basePrint_eq decimal fits signed nothing] at returned
    rw [valueText_digits nothing]
    exact writes_putRepeatedly f _ (writes_putValue f _) _ _ calls rc final returned notNegative

theorem completes_basePrint (accepts : Accepts f) (fits : a.ud < uintmaxSpace)
    (signed : special s.precision ≠ specialEmpty → s.precision < intptrMax) :
    Completes (basePrint s.spec.base s.spec.bufferSize f s a) 0 (valueText s a.ud) := by
  intro calls
  by_cases nothing : s.precision = 0 ∧ a.ud = 0
  · rw [valueText_nothing decimal nothing, basePrint, if_pos nothing]
    exact ⟨[], by rw [List.append_nil]; rfl, rfl⟩
  · have short := length_digitText_le s.spec fits
    have bounded : paddingZeros s a.ud + (digitText s.spec a.ud).length ≤ intMax := by
      unfold paddingZeros intMax
      split
      · next given =>
          have small := signed given.2
          unfold intptrMax at small
          omega
      · omega
    rw [basePrint_eq decimal fits signed nothing, valueText_digits nothing]
    refine completes_putRepeatedly accepts (byteOf '0') ?_
      (completes_putValue accepts _ (by omega)) calls
    unfold intMax at bounded
    unfold addressSpace
    omega

end Base

section Hex

variable (hex : s.spec.isHex = true)
include hex

theorem hex_cases : (s.spec = .uhex ∨ s.spec = .uhexBig) ↔ s.spec ≠ .ptr := by
  cases spec : s.spec <;> rw [spec] at hex <;> first | decide | cases hex

theorem valueText_hex : valueText s a.ud =
    if (s.spec = .uhex ∨ s.spec = .uhexBig) ∧ s.precision = 0 ∧ a.ud = 0 then []
    else digitText s.spec a.ud := by
  have zeros : paddingZeros s a.ud = 0 := if_neg fun both => by simp [hex] at both
  have same := hex_cases hex
  by_cases nothing : (s.spec = .uhex ∨ s.spec = .uhexBig) ∧ s.precision = 0 ∧ a.ud = 0
  · rw [if_pos nothing, valueText, if_pos ⟨same.mp nothing.1, nothing.2⟩]
  · rw [if_neg nothing, valueText, if_neg fun both => nothing ⟨same.mpr both.1, both.2⟩, zeros]
    rfl

theorem hex_base : s.spec.base = 16 ∧ s.spec.bufferSize = 16 := by
  cases spec : s.spec <;> rw [spec] at hex <;> first | exact ⟨rfl, rfl⟩ | cases hex

theorem hexLength_eq (fits : a.ud < uintmaxSpace) :
    hexLength s a = .ok (valueText s a.ud).length := by
  have found := length_found s.spec fits
  rw [(hex_base hex).1, (hex_base hex).2] at found
  rw [hexLength, valueText_hex hex]
  split
  · rfl
  · exact found

/-- What remains of `hex_print` when the digits are written. -/
theorem hexPrint_eq (fits : a.ud < uintmaxSpace)
    (something : ¬((s.spec = .uhex ∨ s.spec = .uhexBig) ∧ s.precision = 0 ∧ a.ud = 0))
    (calls : List (OutputCall Nat)) :
    hexPrint f s a calls = put f (digitText s.spec a.ud) calls := by
  have written := digits_written s.spec fits
    (hexDigit (if s.spec = .uhex then byteOf 'a' else byteOf 'A')) fun _ _ => rfl
  rw [(hex_base hex).1, (hex_base hex).2] at written
  rw [hexPrint, if_neg something]
  dsimp only
  rw [kassert_ok (by decide), Outcome.ok_bind, written, Outcome.ok_bind]

theorem writes_hexPrint (f : FprintfFn) (fits : a.ud < uintmaxSpace) :
    Writes (hexPrint f s a) (valueText s a.ud) := by
  intro calls rc final returned notNegative
  rw [valueText_hex hex]
  split
  · next nothing =>
      rw [hexPrint, if_pos nothing] at returned
      exact writes_nothing 0 calls rc final returned notNegative
  · next something =>
      rw [hexPrint_eq hex fits something] at returned
      exact writes_put f _ calls rc final returned notNegative

theorem completes_hexPrint (accepts : Accepts f) (fits : a.ud < uintmaxSpace) :
    Completes (hexPrint f s a) 0 (valueText s a.ud) := by
  intro calls
  rw [valueText_hex hex]
  split
  · next nothing =>
      rw [hexPrint, if_pos nothing]
      exact ⟨[], by rw [List.append_nil]; rfl, rfl⟩
  · next something =>
      rw [hexPrint_eq hex fits something]
      exact completes_put accepts _ calls

end Hex

theorem decimal_functions (numeric : s.spec.isNumeric = true) (decimal : s.spec.isHex = false) :
    csFuncsTable s.spec = .ok ⟨basePrint s.spec.base s.spec.bufferSize,
      baseLength s.spec.base s.spec.bufferSize, none⟩ := by
  cases spec : s.spec with
  | int | udec | uoctal => rfl
  | uhex | uhexBig | ptr =>
      rw [spec] at decimal
      cases decimal
  | uchar | str | writtenOut | percentage | invalid =>
      rw [spec] at numeric
      cases numeric

/-- The functions of the table for a numeric conversion. -/
theorem printed_text (numeric : s.spec.isNumeric = true) (fits : a.ud < uintmaxSpace)
    (signed : s.spec.isHex = false → special s.precision ≠ specialEmpty →
      s.precision < intptrMax) :
    ∃ funcs, csFuncsTable s.spec = .ok funcs ∧
      funcs.length s a = .ok (valueText s a.ud).length ∧
      (∀ f, Writes (funcs.print f s a) (valueText s a.ud)) ∧
      ∀ f, Accepts f → Completes (funcs.print f s a) 0 (valueText s a.ud) := by
  by_cases hex : s.spec.isHex = true
  · refine ⟨⟨hexPrint, hexLength, some hexPrefix⟩, ?_, hexLength_eq hex fits,
      fun f => writes_hexPrint hex f fits, fun f accepts => completes_hexPrint hex accepts fits⟩
    cases spec : s.spec <;> rw [spec] at hex <;> first | rfl | cases hex
  · have decimal : s.spec.isHex = false := by simpa using hex
    refine ⟨⟨basePrint s.spec.base s.spec.bufferSize, baseLength s.spec.base s.spec.bufferSize, none⟩,
      decimal_functions numeric decimal, baseLength_eq decimal fits,
      fun f => writes_basePrint decimal f fits (signed decimal),
      fun f accepts => completes_basePrint decimal accepts fits (signed decimal)⟩

/-- A text is the number in the base of its conversion, and has zeros in front only where
the precision asks for them. -/
structure IsNumber (s : ConvSpec) (ud : Nat) (text : List Nat) : Prop where
  value : ∃ digits, text.mapM (digitOf s.spec.base) = some digits ∧
    numeralValue s.spec.base digits = ud
  leading : ∃ zeros digits, text = List.replicate zeros (byteOf '0') ++ digits ∧
    (digits.head? = some (byteOf '0') → ud = 0 ∧ digits = [byteOf '0']) ∧
    (0 < zeros → special s.precision ≠ specialEmpty ∧ text.length = s.precision)

theorem mapM_digitOf (spec : ConvSpecifiers) {digits : List Nat}
    (below : ∀ digit ∈ digits, digit < spec.base) :
    (digits.map spec.digitChar).mapM (digitOf spec.base) = some digits := by
  induction digits with
  | nil => rfl
  | cons digit digits inductionHypothesis =>
      rw [List.map_cons, List.mapM_cons, digitOf_digitChar spec (below digit List.mem_cons_self),
        inductionHypothesis fun other member => below other (List.mem_cons_of_mem _ member)]
      rfl

theorem head_digitText {spec : ConvSpecifiers} {ud : Nat}
    (zero : (digitText spec ud).head? = some (byteOf '0')) :
    ud = 0 ∧ digitText spec ud = [byteOf '0'] := by
  rw [digitText, List.head?_map] at zero
  obtain ⟨digit, isHead, isZero⟩ := Option.map_eq_some_iff.mp zero
  rw [digitChar_eq_zero.mp isZero] at isHead
  have none_left : ud = 0 := by
    by_contra nonzero
    exact head_numeral_ne_zero nonzero isHead
  refine ⟨none_left, ?_⟩
  rw [digitText, none_left, numeral_zero, List.map_singleton, digitChar_eq_zero.mpr rfl]

theorem valueText_isNumber (s : ConvSpec) (ud : Nat) : IsNumber s ud (valueText s ud) := by
  by_cases nothing : s.spec ≠ .ptr ∧ s.precision = 0 ∧ ud = 0
  · rw [valueText, if_pos nothing, nothing.2.2]
    exact ⟨⟨[], rfl, rfl⟩, 0, [], rfl, nofun, fun some_zeros => absurd some_zeros (by decide)⟩
  · rw [valueText, if_neg nothing]
    have proper := s.spec.base_proper.1
    have zeros : List.replicate (paddingZeros s ud) (byteOf '0') =
        (List.replicate (paddingZeros s ud) 0).map s.spec.digitChar := by
      rw [List.map_replicate, digitChar_eq_zero.mpr rfl]
    refine ⟨⟨List.replicate (paddingZeros s ud) 0 ++ numeral s.spec.base ud, ?_, ?_⟩,
      paddingZeros s ud, digitText s.spec ud, rfl, head_digitText, fun some_zeros => ?_⟩
    · rw [zeros, digitText, ← List.map_append]
      refine mapM_digitOf s.spec fun digit member => ?_
      rcases List.mem_append.mp member with inFront | inNumber
      · rw [(List.mem_replicate.mp inFront).2]
        omega
      · exact lt_base_of_mem_numeral proper inNumber
    · rw [numeralValue_padded, numeralValue_numeral]
    · rw [List.length_append, List.length_replicate]
      unfold paddingZeros at some_zeros ⊢
      split at some_zeros
      · next given =>
          rw [if_pos given]
          exact ⟨given.2, by omega⟩
      · cases some_zeros

/-- For every value of 64 bits and every precision that is signed, the length function
returns the number of characters that the print function hands over, the buffer is large
enough, and the characters are the number. -/
theorem printed_number (numeric : s.spec.isNumeric = true) (fits : a.ud < uintmaxSpace)
    (signed : s.precision < intptrMax) :
    ∃ funcs text, csFuncsTable s.spec = .ok funcs ∧ funcs.length s a = .ok text.length ∧
      (∀ f calls, funcs.print f s a calls ≠ .error .outOfBounds) ∧
      (∀ f, Writes (funcs.print f s a) text) ∧
      (∀ f, Accepts f → Completes (funcs.print f s a) 0 text) ∧ IsNumber s a.ud text := by
  obtain ⟨funcs, found, length, writes, completes⟩ :=
    printed_text numeric fits fun _ _ => signed
  refine ⟨funcs, valueText s a.ud, found, length, fun f calls outside => ?_, writes, completes,
    valueText_isNumber s a.ud⟩
  rcases csFuncsTable_counts found f s a calls with stopped | ⟨rc, new, returned, -⟩
  · rw [stopped] at outside
    cases outside
  · rw [returned] at outside
    cases outside

/-- The largest value, with five digits asked for. -/
theorem printed_number_largest : ∃ funcs text,
    csFuncsTable .uoctal = .ok funcs ∧ text.length = 22 ∧
      ∀ f, Accepts f → Completes (funcs.print f
        ⟨⟨false, false, false, false, false⟩, specialEmpty, 5, .llong, .uoctal⟩
        ⟨2 ^ 64 - 1, emptyString, false⟩) 0 text := by
  obtain ⟨funcs, text, found, length, -, -, completes, -⟩ := printed_number
    (s := ⟨⟨false, false, false, false, false⟩, specialEmpty, 5, .llong, .uoctal⟩)
    (a := ⟨2 ^ 64 - 1, emptyString, false⟩) rfl (by decide) (by decide)
  refine ⟨funcs, text, found, ?_, completes⟩
  cases found
  have known : octLength ⟨⟨false, false, false, false, false⟩, specialEmpty, 5, .llong, .uoctal⟩
      ⟨2 ^ 64 - 1, emptyString, false⟩ = .ok 22 := by decide +kernel
  exact Except.ok.inj (length.symm.trans known)

/-- What is stored for a number that a conversion may give; a number whose lowest byte is
that of `WIDTH_EMPTY` and `PREC_EMPTY` is not told from one that is absent. -/
def Stored : (given : Option Nat) → (number : Nat) → Prop
  | none, number => number = specialEmpty
  | some given, number => number = given ∧ special number ≠ specialEmpty

/-- As many digits as the precision asks for at least, with zeros in front, and none for a
zero without precision. -/
structure PrecisionLaw (spec : ConvSpecifiers) (precision ud : Nat) (text : List Nat) : Prop where
  length : text.length =
    if precision = 0 ∧ ud = 0 then 0 else max precision (digitText spec ud).length
  padded : text ≠ [] → ∃ zeros, text = List.replicate zeros (byteOf '0') ++ digitText spec ud

theorem valueText_padded (s : ConvSpec) (ud : Nat) : valueText s ud ≠ [] →
    ∃ zeros, valueText s ud = List.replicate zeros (byteOf '0') ++ digitText s.spec ud := by
  unfold valueText
  split
  · exact fun something => absurd rfl something
  · exact fun _ => ⟨_, rfl⟩

theorem length_digitText_pos (spec : ConvSpecifiers) (ud : Nat) : 0 < (digitText spec ud).length := by
  rw [length_digitText]
  exact length_numeral_pos _ _

/-- The functions for hexadecimal digits do not read the precision, so the law holds for
them only if there are enough digits. -/
theorem valueText_precisionLaw_iff {precision ud : Nat} (notPtr : s.spec ≠ .ptr)
    (explicit : Stored (some precision) s.precision) :
    PrecisionLaw s.spec precision ud (valueText s ud) ↔
      (s.spec.isHex = true → precision ≤ (digitText s.spec ud).length) := by
  obtain ⟨rfl, given⟩ := explicit
  have some_digits := length_digitText_pos s.spec ud
  by_cases nothing : s.precision = 0 ∧ ud = 0
  · have empty : valueText s ud = [] := if_pos ⟨notPtr, nothing⟩
    refine iff_of_true ⟨?_, valueText_padded s ud⟩ fun _ => by omega
    rw [if_pos nothing, empty]
    rfl
  · have length : (valueText s ud).length =
        paddingZeros s ud + (digitText s.spec ud).length := by
      rw [valueText, if_neg fun both => nothing both.2, List.length_append, List.length_replicate]
    by_cases hex : s.spec.isHex = true
    · have zeros : paddingZeros s ud = 0 := if_neg fun both => by simp [hex] at both
      refine ⟨fun law _ => ?_, fun enough => ⟨?_, valueText_padded s ud⟩⟩
      · have counted := law.length
        rw [if_neg nothing] at counted
        omega
      · have bounded := enough hex
        rw [if_neg nothing]
        omega
    · have zeros : paddingZeros s ud = s.precision - (digitText s.spec ud).length :=
        if_pos ⟨by simpa using hex, given⟩
      refine iff_of_true ⟨?_, valueText_padded s ud⟩ fun isHex => absurd isHex hex
      rw [if_neg nothing]
      omega

/-- The precision is not larger than the text unless it is taken for none. -/
theorem precision_le_length (ud : Nat) (decimal : s.spec.isHex = false)
    (given : special s.precision ≠ specialEmpty) : s.precision ≤ (valueText s ud).length := by
  unfold valueText
  split
  · next nothing => exact Nat.le_of_eq nothing.2.1
  · rw [List.length_append, List.length_replicate, paddingZeros, if_pos ⟨decimal, given⟩]
    omega

/-- What is printed if the assertion about the length passes. -/
theorem valueText_printed {numLen : Nat} {funcs : ConvSpecFuncs} (numeric : s.spec.isNumeric = true)
    (fits : a.ud < uintmaxSpace) (found : csFuncsTable s.spec = .ok funcs)
    (computed : funcs.length s a = .ok numLen) (passes : numLen < intptrMax) :
    numLen = (valueText s a.ud).length ∧ (∀ f, Writes (funcs.print f s a) (valueText s a.ud)) ∧
      ∀ f, Accepts f → Completes (funcs.print f s a) 0 (valueText s a.ud) := by
  have signed : s.spec.isHex = false → special s.precision ≠ specialEmpty →
      s.precision < intptrMax := by
    intro decimal given
    rw [decimal_functions numeric decimal] at found
    cases found
    have known := Except.ok.inj (computed.symm.trans (baseLength_eq decimal fits))
    have bounded := precision_le_length a.ud decimal given
    omega
  obtain ⟨funcs', found', length, writes, completes⟩ := printed_text numeric fits signed
  rw [found'] at found
  cases found
  exact ⟨Except.ok.inj (computed.symm.trans length), writes, completes⟩

/-- For an explicit precision with which the assertion about the length passes, the digits
are those that the precision asks for if and only if the conversion is not hexadecimal or
the value has as many digits by itself. -/
theorem printed_precision_iff {precision numLen : Nat} {funcs : ConvSpecFuncs}
    (integer : s.spec.isInteger = true) (explicit : Stored (some precision) s.precision)
    (fits : a.ud < uintmaxSpace) (found : csFuncsTable s.spec = .ok funcs)
    (computed : funcs.length s a = .ok numLen) (passes : numLen < intptrMax) :
    ∃ text, (∀ f, Writes (funcs.print f s a) text) ∧
      (∀ f, Accepts f → Completes (funcs.print f s a) 0 text) ∧
      (PrecisionLaw s.spec precision a.ud text ↔
        (s.spec.isHex = true → precision ≤ (digitText s.spec a.ud).length)) := by
  have numeric : s.spec.isNumeric = true := by rw [ConvSpecifiers.isNumeric, integer, Bool.true_or]
  have notPtr : s.spec ≠ .ptr := by
    intro ptr
    rw [ptr] at integer
    cases integer
  obtain ⟨-, writes, completes⟩ := valueText_printed numeric fits found computed passes
  exact ⟨valueText s a.ud, writes, completes, valueText_precisionLaw_iff notPtr explicit⟩

/-- `"%.4d"` of seven. -/
theorem printed_precision_seven : ∃ text, text.length = 4 ∧ ∀ f, Accepts f → Completes (decPrint f
    ⟨⟨false, false, false, false, false⟩, specialEmpty, 4, .none, .int⟩ ⟨7, emptyString, false⟩) 0
      text := by
  have length : decLength ⟨⟨false, false, false, false, false⟩, specialEmpty, 4, .none, .int⟩
      ⟨7, emptyString, false⟩ = .ok 4 := by decide +kernel
  obtain ⟨text, -, completes, lawful⟩ := printed_precision_iff
    (s := ⟨⟨false, false, false, false, false⟩, specialEmpty, 4, .none, .int⟩)
    (a := ⟨7, emptyString, false⟩) rfl ⟨rfl, by decide⟩ (by decide) rfl length (by decide)
  have law := lawful.mpr nofun
  refine ⟨text, law.length.trans ?_, completes⟩
  rw [if_neg (by decide), length_digitText, numeral_of_lt (by decide)]
  rfl

/-- `"%.4x"`. -/
def hexPrecisionFormat : List Nat := [byteOf '%', byteOf '.', byteOf '4', byteOf 'x']

/-- Four digits are asked for, and fifteen is printed with one. -/
theorem hexPrecision_not_law : ∃ calls,
    kvfprintf acceptAll hexPrecisionFormat [.word 15] = .ok (1, calls) ∧
      ¬PrecisionLaw .uhex 4 15 (textOf calls) := by
  refine ⟨[⟨[], 0⟩, ⟨[byteOf 'f'], 1⟩], by decide +kernel, fun law => ?_⟩
  have counted : 1 = max 4 (digitText .uhex 15).length := law.length
  omega

end Yaeos
