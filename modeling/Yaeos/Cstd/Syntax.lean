import Yaeos.Cstd.Count
import Yaeos.Machine.Numeral
import Mathlib.Data.List.TakeWhile

/-!
# The text of a conversion

What follows a `%` is cut into flags, a width, a precision and the rest by maximal
munch: every part ends where the next byte cannot belong to it.  Every format has such
a syntax, and `parse_conv_spec` follows it, up to the size of its numbers and the end
of the format.
-/

namespace Yaeos

/-- The bytes that the loop over the flags passes over. -/
def isFlag (byte : Nat) : Bool :=
  byte ∈ [byteOf '-', byteOf '+', byteOf ' ', byteOf '#', byteOf '0']

/-- A width, or what follows the period of a precision. -/
inductive NumberSyntax where
  | absent
  | star
  | numeral (digits : List Nat)
  deriving DecidableEq, Repr

namespace NumberSyntax

def text : NumberSyntax → List Nat
  | absent => []
  | star => [byteOf '*']
  | numeral digits => digits

def Proper : NumberSyntax → Prop
  | numeral digits => digits ≠ [] ∧ ∀ byte ∈ digits, isDigit byte = true
  | _ => True

/-- The number does not go on in what follows it. -/
def Ends : NumberSyntax → (following : List Nat) → Prop
  | absent, following => isDigit (following.headD 0) = false ∧ following.headD 0 ≠ byteOf '*'
  | star, _ => True
  | numeral _, following => isDigit (following.headD 0) = false

/-- What a numeral stands for. -/
def value : NumberSyntax → Nat
  | numeral digits => numeralValue 10 (digits.map (· - byteOf '0'))
  | _ => 0

/-- What is stored, with a mark for a number that is absent. -/
def stored (mark : Nat) : NumberSyntax → Nat
  | absent => mark
  | star => specialVar
  | number => wrap number.value

end NumberSyntax

/-- What follows the `%` of a conversion. -/
structure ConvSyntax where
  flags : List Nat
  width : NumberSyntax
  /-- What follows the period, if there is one. -/
  precision : Option NumberSyntax
  /-- The length modifier, the specifier and all that follows them. -/
  rest : List Nat

namespace ConvSyntax

def precisionText : Option NumberSyntax → List Nat
  | none => []
  | some number => byteOf '.' :: number.text

def text (conv : ConvSyntax) : List Nat :=
  conv.flags ++ (conv.width.text ++ (precisionText conv.precision ++ conv.rest))

def storedPrecision (conv : ConvSyntax) : Nat :=
  match conv.precision with
  | none => specialEmpty
  | some number => number.stored 0

/-- The length modifier in the text. -/
def length (conv : ConvSyntax) : ConvLength := (parseLength conv.rest).1

/-- The conversion specifier in the text. -/
def spec (conv : ConvSyntax) : ConvSpecifiers := parseSpecifier ((parseLength conv.rest).2.headD 0)

/-- Every part is as long as it can be. -/
structure Proper (conv : ConvSyntax) : Prop where
  flags : ∀ byte ∈ conv.flags, isFlag byte = true
  afterFlags :
    isFlag ((conv.width.text ++ (precisionText conv.precision ++ conv.rest)).headD 0) = false
  width : conv.width.Proper
  afterWidth : conv.width.Ends (precisionText conv.precision ++ conv.rest)
  noPrecision : conv.precision = none → conv.rest.headD 0 ≠ byteOf '.'
  precision : ∀ number, conv.precision = some number → number.Proper ∧ number.Ends conv.rest

end ConvSyntax

section Spans

variable {p : Nat → Bool} {body following : List Nat}

theorem takeWhile_span (inside : ∀ byte ∈ body, p byte = true)
    (stops : p (following.headD 0) = false) : (body ++ following).takeWhile p = body := by
  rw [List.takeWhile_append_of_pos inside]
  cases following with
  | nil => exact List.append_nil body
  | cons byte following =>
      have outside : p byte = false := stops
      rw [List.takeWhile_cons_of_neg (by simp [outside]), List.append_nil]

/-- A span is cut where the predicate fails. -/
theorem exists_span (p : Nat → Bool) (zero : p 0 = false) (bytes : List Nat) :
    ∃ body following, bytes = body ++ following ∧ (∀ byte ∈ body, p byte = true) ∧
      p (following.headD 0) = false := by
  refine ⟨bytes.takeWhile p, bytes.dropWhile p, List.takeWhile_append_dropWhile.symm,
    fun byte member => List.mem_takeWhile_imp member, ?_⟩
  have stopped := List.head?_dropWhile_not p bytes
  cases left : bytes.dropWhile p with
  | nil => exact zero
  | cons byte following => simpa [left] using stopped

end Spans

section Parts

variable {number : NumberSyntax} {following : List Nat}

theorem exists_number (bytes : List Nat) : ∃ number following,
    bytes = NumberSyntax.text number ++ following ∧ number.Proper ∧ number.Ends following := by
  by_cases star : bytes.headD 0 = byteOf '*'
  · cases bytes with
    | nil => cases star
    | cons byte bytes => exact ⟨.star, bytes, congrArg (· :: bytes) star, trivial, trivial⟩
  · obtain ⟨digits, following, rfl, inside, stops⟩ := exists_span isDigit rfl bytes
    by_cases none_there : digits = []
    · subst none_there
      exact ⟨.absent, following, rfl, trivial, stops, star⟩
    · exact ⟨.numeral digits, following, rfl, ⟨none_there, inside⟩, stops⟩

theorem parseFlags_span {flags : List Nat} (inside : ∀ byte ∈ flags, isFlag byte = true)
    (stops : isFlag (following.headD 0) = false) (start : ConvFlags) :
    (parseFlags (flags ++ following) start).2 = following := by
  induction flags generalizing start with
  | nil =>
      cases following with
      | nil => rfl
      | cons byte following =>
          have outside : isFlag byte = false := stops
          simp only [isFlag, List.mem_cons, List.not_mem_nil, or_false, decide_eq_false_iff_not,
            not_or] at outside
          obtain ⟨minus, plus, space, hash, zero⟩ := outside
          rw [List.nil_append, parseFlags, if_neg minus, if_neg plus, if_neg space, if_neg hash,
            if_neg zero]
  | cons byte flags inductionHypothesis =>
      have next := inductionHypothesis fun other member =>
        inside other (List.mem_cons_of_mem _ member)
      have isOne := inside byte List.mem_cons_self
      simp only [isFlag, List.mem_cons, List.not_mem_nil, or_false, decide_eq_true_eq] at isOne
      rw [List.cons_append, parseFlags]
      split_ifs
      all_goals first | exact next _ | tauto

/-- `vfprintf_atoi` reads a numeral modulo the size of an `unsigned`. -/
theorem vfprintfAtoi_span {digits : List Nat} (inside : ∀ byte ∈ digits, isDigit byte = true)
    (stops : isDigit (following.headD 0) = false) (res : Nat) :
    vfprintfAtoi (digits ++ following) (wrap res) =
      wrap ((digits.map (· - byteOf '0')).foldl (fun value digit => 10 * value + digit) res) := by
  induction digits generalizing res with
  | nil =>
      cases following with
      | nil => rfl
      | cons byte following =>
          have outside : isDigit byte = false := stops
          simp [vfprintfAtoi, outside]
  | cons byte digits inductionHypothesis =>
      have isOne := inside byte List.mem_cons_self
      have step : wrap (10 * wrap res + (byte - byteOf '0')) =
          wrap (10 * res + (byte - byteOf '0')) := by
        unfold wrap addressSpace
        omega
      rw [List.cons_append, vfprintfAtoi, if_pos isOne, step,
        inductionHypothesis fun other member => inside other (List.mem_cons_of_mem _ member)]
      rfl

/-- The number behind the flags or the period, if it is not a star. -/
theorem number_span (proper : number.Proper) (ends : number.Ends following)
    (notStar : number ≠ .star) :
    (number.text ++ following).headD 0 ≠ byteOf '*' ∧
      (number.text ++ following).takeWhile isDigit = number.text ∧
      (number.text.length ≠ 0 →
        vfprintfAtoi (number.text ++ following) 0 = wrap number.value) := by
  cases number with
  | absent =>
      exact ⟨ends.2, takeWhile_span (List.forall_mem_nil _) ends.1,
        fun some_there => absurd rfl some_there⟩
  | star => exact absurd rfl notStar
  | numeral digits =>
      obtain ⟨some_digits, inside⟩ := proper
      refine ⟨?_, takeWhile_span inside ends, fun _ => ?_⟩
      · obtain ⟨byte, digits, rfl⟩ := List.exists_cons_of_ne_nil some_digits
        rintro isStar
        have isOne := inside byte List.mem_cons_self
        have same : byte = byteOf '*' := isStar
        rw [same] at isOne
        cases isOne
      · rw [NumberSyntax.value, numeralValue_eq_foldl]
        exact vfprintfAtoi_span inside ends 0

/-- A number that is absent is stored as the mark. -/
theorem number_parsed (proper : number.Proper) (ends : number.Ends following) {mark : Nat}
    {result : Nat × List Nat}
    (parsed : (if (number.text ++ following).headD 0 = byteOf '*' then
      (.ok (specialVar, (number.text ++ following).tail) : Outcome (Nat × List Nat))
    else do
      let len := ((number.text ++ following).takeWhile isDigit).length
      kassert (len ≤ numberMax)
      if len = 0 then .ok (mark, number.text ++ following)
      else .ok (vfprintfAtoi (number.text ++ following) 0, (number.text ++ following).drop len)) =
        .ok result) : result = (number.stored mark, following) := by
  by_cases star : number = .star
  · subst star
    cases parsed
    rfl
  · obtain ⟨head, digits, value⟩ := number_span proper ends star
    rw [if_neg head, digits] at parsed
    obtain ⟨_, _, parsed⟩ := Outcome.bind_eq_ok.mp parsed
    rw [List.drop_left] at parsed
    by_cases none_there : number.text.length = 0
    · rw [if_pos none_there] at parsed
      cases number with
      | absent => exact (Except.ok.inj parsed).symm
      | star => exact absurd rfl star
      | numeral digits => exact absurd (List.length_eq_zero_iff.mp none_there) proper.1
    · rw [if_neg none_there, value none_there] at parsed
      cases number with
      | absent => exact absurd rfl none_there
      | star => exact absurd rfl star
      | numeral digits => exact (Except.ok.inj parsed).symm

theorem parseWidth_text (proper : number.Proper) (ends : number.Ends following)
    {result : Nat × List Nat} (parsed : parseWidth (number.text ++ following) = .ok result) :
    result = (number.stored specialEmpty, following) := number_parsed proper ends parsed

end Parts

namespace ConvSyntax

variable {conv : ConvSyntax}

theorem parsePrecision_text (proper : conv.Proper) {result : Nat × List Nat}
    (parsed : parsePrecision (precisionText conv.precision ++ conv.rest) = .ok result) :
    result = (conv.storedPrecision, conv.rest) := by
  unfold storedPrecision
  cases given : conv.precision with
  | none =>
      rw [given] at parsed
      have noPeriod : parsePrecision conv.rest = .ok (specialEmpty, conv.rest) :=
        if_pos (proper.noPrecision given)
      exact (Except.ok.inj (noPeriod.symm.trans parsed)).symm
  | some number =>
      rw [given] at parsed
      obtain ⟨isNumber, ends⟩ := proper.precision number given
      have period : parsePrecision (precisionText (some number) ++ conv.rest) = _ :=
        if_neg (not_not.mpr rfl)
      rw [period] at parsed
      exact number_parsed isNumber ends parsed

/-- Every text behind a `%` is cut into the parts of a conversion. -/
theorem exists_proper (format : List Nat) :
    ∃ conv : ConvSyntax, conv.Proper ∧ conv.text = format := by
  obtain ⟨flags, afterFlags, rfl, isFlags, flagsEnd⟩ := exists_span isFlag rfl format
  obtain ⟨width, afterWidth, rfl, isWidth, widthEnds⟩ := exists_number afterFlags
  by_cases period : afterWidth.headD 0 = byteOf '.'
  · cases afterWidth with
    | nil => cases period
    | cons byte afterPeriod =>
        obtain ⟨precision, rest, rfl, isPrecision, precisionEnds⟩ := exists_number afterPeriod
        have isPeriod : byte = byteOf '.' := period
        subst isPeriod
        refine ⟨⟨flags, width, some precision, rest⟩,
          ⟨isFlags, flagsEnd, isWidth, widthEnds, nofun, ?_⟩, rfl⟩
        rintro number ⟨⟩
        exact ⟨isPrecision, precisionEnds⟩
  · exact ⟨⟨flags, width, none, afterWidth⟩,
      ⟨isFlags, flagsEnd, isWidth, widthEnds, fun _ => period, nofun⟩, rfl⟩

/-- What `parse_conv_spec` returns for a conversion that it accepts. -/
theorem parseConvSpec_text {s : ConvSpec} {specLen : Nat} (proper : conv.Proper)
    (parsed : parseConvSpec (byteOf '%' :: conv.text) = .ok (s, specLen)) :
    s.width = conv.width.stored specialEmpty ∧ s.precision = conv.storedPrecision ∧
      s.length = conv.length ∧ s.spec = conv.spec ∧
      specLen = (byteOf '%' :: conv.text).length - (parseLength conv.rest).2.length + 1 := by
  rw [parseConvSpec] at parsed
  dsimp only [List.tail_cons] at parsed
  rw [text, parseFlags_span proper.flags proper.afterFlags] at parsed
  obtain ⟨⟨width, afterWidth⟩, widthParsed, parsed⟩ := Outcome.bind_eq_ok.mp parsed
  cases parseWidth_text proper.width proper.afterWidth widthParsed
  dsimp only at parsed
  obtain ⟨⟨precision, afterPrecision⟩, precisionParsed, parsed⟩ := Outcome.bind_eq_ok.mp parsed
  cases parsePrecision_text proper precisionParsed
  cases parsed
  exact ⟨rfl, rfl, rfl, rfl, rfl⟩

end ConvSyntax

/-- The length modifiers, and none. -/
def lengthModifiers : List (List Nat) :=
  [[], [byteOf 'h'], [byteOf 'h', byteOf 'h'], [byteOf 'l'], [byteOf 'l', byteOf 'l'], [byteOf 'j'],
    [byteOf 'z'], [byteOf 't'], [byteOf 'L']]

/-- The format ends before the specifier of a conversion. -/
def CutShort (format : List Nat) : Prop :=
  ∃ conv : ConvSyntax, conv.Proper ∧ conv.text = format ∧ conv.rest ∈ lengthModifiers

theorem parseLength_cons (byte : Nat) (tail : List Nat) : parseLength (byte :: tail) =
    if byte = byteOf 'h' then
      if tail.headD 0 = byteOf 'h' then (.char, tail.tail) else (.short, tail)
    else if byte = byteOf 'l' then
      if tail.headD 0 = byteOf 'l' then (.llong, tail.tail) else (.long, tail)
    else if byte = byteOf 'j' then (.intmax, tail)
    else if byte = byteOf 'z' then (.sizet, tail)
    else if byte = byteOf 't' then (.ptrdiff, tail)
    else if byte = byteOf 'L' then (.ldouble, tail)
    else (.none, byte :: tail) := rfl

/-- Nothing is left behind a length modifier at the end of a format. -/
theorem parseLength_end (rest : List Nat) :
    (parseLength rest).2 = [] ↔ rest ∈ lengthModifiers := by
  constructor
  · intro atEnd
    cases rest with
    | nil => exact List.mem_cons_self
    | cons byte tail =>
        have doubled : ∀ other, tail.headD 0 = other → other ≠ 0 → tail.tail = [] →
            tail = [other] := by
          rintro other head nonzero nothing
          cases tail with
          | nil => exact absurd head.symm nonzero
          | cons second more =>
              cases nothing
              exact congrArg (· :: []) head
        rw [parseLength_cons] at atEnd
        split_ifs at atEnd with isH isHH isL isLL isJ isZ isT isBigL
        · rw [isH, doubled _ isHH (by decide) atEnd]
          decide
        · rw [isH, show tail = [] from atEnd]
          decide
        · rw [isL, doubled _ isLL (by decide) atEnd]
          decide
        · rw [isL, show tail = [] from atEnd]
          decide
        · rw [isJ, show tail = [] from atEnd]
          decide
        · rw [isZ, show tail = [] from atEnd]
          decide
        · rw [isT, show tail = [] from atEnd]
          decide
        · rw [isBigL, show tail = [] from atEnd]
          decide
  · revert rest
    decide

/-- The length that `parse_conv_spec` reports goes over the end of the format if and only if
the format ends before the specifier. -/
theorem parseConvSpec_inside_iff {format : List Nat} {s : ConvSpec} {specLen : Nat}
    (parsed : parseConvSpec (byteOf '%' :: format) = .ok (s, specLen)) :
    specLen ≤ (byteOf '%' :: format).length ↔ ¬CutShort format := by
  have reported : ∀ conv : ConvSyntax, conv.Proper → conv.text = format →
      (specLen ≤ (byteOf '%' :: format).length ↔ (parseLength conv.rest).2 ≠ []) := by
    rintro conv proper rfl
    obtain ⟨-, -, -, -, length⟩ := conv.parseConvSpec_text proper parsed
    have shorter : (parseLength conv.rest).2.length ≤ conv.text.length := by
      have behind := parseLength_length conv.rest
      simp only [ConvSyntax.text, List.length_append]
      omega
    rw [length, List.length_cons, ← List.length_pos_iff]
    omega
  constructor
  · rintro inside ⟨conv, proper, same, atEnd⟩
    exact (reported conv proper same).mp inside ((parseLength_end _).mpr atEnd)
  · intro complete
    obtain ⟨conv, proper, same⟩ := ConvSyntax.exists_proper format
    exact (reported conv proper same).mpr fun atEnd =>
      complete ⟨conv, proper, same, (parseLength_end _).mp atEnd⟩

/-- `"%5.2"`. -/
def truncatedFormat : List Nat := [byteOf '5', byteOf '.', byteOf '2']

theorem truncatedFormat_parsed : parseConvSpec (byteOf '%' :: truncatedFormat) =
    .ok (⟨⟨false, false, false, false, false⟩, 5, 2, .none, .invalid⟩, 5) := by decide

/-- The specification of `"%5.2"` is one byte longer than this. -/
theorem truncatedFormat_outside : ∃ s specLen,
    parseConvSpec (byteOf '%' :: truncatedFormat) = .ok (s, specLen) ∧
      ¬specLen ≤ (byteOf '%' :: truncatedFormat).length :=
  ⟨_, _, truncatedFormat_parsed, by decide⟩

theorem completeFormat_inside : ¬CutShort [byteOf 'd'] := by
  have parsed : parseConvSpec (byteOf '%' :: [byteOf 'd']) =
      .ok (⟨⟨false, false, false, false, false⟩, specialEmpty, specialEmpty, .none, .int⟩, 2) := by
    decide
  exact (parseConvSpec_inside_iff parsed).mp (by decide)

end Yaeos
