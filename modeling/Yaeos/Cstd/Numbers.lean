import Yaeos.Cstd.Digits
import Yaeos.Cstd.Syntax

/-!
# The width and the precision of a conversion

A numeral is read modulo the size of an `unsigned`, and its lowest byte is shared with
the marks for an absent number and for a star.  An assertion of `print_conv_spec` stops
what is stored as a negative word, if it is looked at.
-/

namespace Yaeos

/-- What the text of a conversion says about a width or a precision. -/
inductive Given where
  | absent
  | star
  | number (value : Nat)
  deriving DecidableEq, Repr

def NumberSyntax.given : NumberSyntax → Given
  | absent => .absent
  | star => .star
  | numeral digits => .number (NumberSyntax.numeral digits).value

/-- A period alone is a precision of zero. -/
def ConvSyntax.givenPrecision (conv : ConvSyntax) : Given :=
  match conv.precision with
  | none => .absent
  | some .absent => .number 0
  | some number => number.given

namespace Given

/-- A number is stored as it is and none of the marks is found in it; the mark for a number
that is absent is found. -/
def Kept (marks : List Nat) : Given → (stored : Nat) → Prop
  | absent, stored => special stored = specialEmpty ∧ stored ≠ 0
  | star, _ => True
  | number value, stored => stored = value ∧ special stored ∉ marks

/-- A number of an `unsigned` whose lowest byte is none of the marks. -/
def Plain (marks : List Nat) : Given → Prop
  | number value => value < addressSpace ∧ special value ∉ marks
  | _ => True

/-- A number that is stored as a negative word. -/
def Negative : Given → Prop
  | number value => intptrMax ≤ wrap value
  | _ => False

/-- A number that is taken for an absent one. -/
def Hidden : Given → Prop
  | number value => special value = specialEmpty
  | _ => False

end Given

/-- The conversions that `print_conv_spec` has an argument for. -/
def Converts (length : ConvLength) (spec : ConvSpecifiers) : Prop :=
  spec.isInteger = true ∧ length ≠ .ldouble ∨ spec = .ptr ∨ spec = .uchar ∨ spec = .str

/-- The conversions that put zeros in front of a value. -/
def ConvSpecifiers.isPadded (spec : ConvSpecifiers) : Prop :=
  spec.isInteger = true ∧ spec.isHex = false

/-- Whatever is printed, an assertion of `print_conv_spec` fails, unless there is no argument
that could be taken. -/
def ConvSpec.Rejected (s : ConvSpec) : Prop :=
  ∀ f args calls, fetchArg s.length args s.spec = .error .outOfBounds ∨
    printConvSpec f s args calls = .error .kassert

variable {f : FprintfFn} {s : ConvSpec} {a : Argument} {conv : ConvSyntax}
  {rest : Nat → Printer Nat} {funcs : ConvSpecFuncs} {numLen : Nat}

theorem special_wrap (number : Nat) : special (wrap number) = special number := by
  unfold special wrap addressSpace
  omega

theorem wrap_eq_self {number : Nat} : wrap number = number ↔ number < addressSpace :=
  ⟨fun same => same ▸ wrap_lt number, wrap_of_lt⟩

/-- What is stored for a numeral. -/
theorem kept_wrap (marks : List Nat) (value : Nat) :
    (Given.number value).Kept marks (wrap value) ↔ (Given.number value).Plain marks := by
  rw [Given.Kept, Given.Plain, special_wrap, wrap_eq_self]

section Arguments

theorem supported_iff : s.Supported ↔ Converts s.length s.spec := by
  constructor
  · rintro ⟨bits | bits | str, takes⟩
    · rcases takes with ⟨integer, -, -, notLong⟩ | others
      · exact .inl ⟨integer, notLong⟩
      · exact .inr (by tauto)
    · refine .inl ⟨takes.1, fun long => ?_⟩
      rcases takes.2 with other | other <;> rw [long] at other <;> cases other
    · exact .inr (.inr (.inr takes))
  · rintro (⟨integer, notLong⟩ | ptr | uchar | str)
    · by_cases long : s.length = .llong ∨ s.length = .intmax
      · exact ⟨.dword 0, integer, long⟩
      · exact ⟨.word 0, .inl ⟨integer, by tauto⟩⟩
    · exact ⟨.word 0, .inr (.inl ptr)⟩
    · exact ⟨.word 0, .inr (.inr uchar)⟩
    · exact ⟨.string emptyString, str⟩

/-- Some argument has the value one, if it is a number. -/
theorem exists_argument (converts : Converts s.length s.spec) : ∃ args a,
    fetchArg s.length args s.spec = .ok (a, []) ∧ a.ud < uintmaxSpace ∧ a.str = emptyString ∧
      (s.spec ≠ .str → a.ud ≠ 0) := by
  rcases converts with ⟨integer, notLong⟩ | ptr | uchar | str
  · have one : ∃ args, fetchInt args s.length = .ok (⟨1, emptyString, false⟩, []) ∧
        fetchUnsigned args s.length = .ok (⟨1, emptyString, false⟩, []) := by
      cases length : s.length with
      | llong | intmax => exact ⟨[.dword 1], by decide, by decide⟩
      | ldouble => exact absurd length notLong
      | char | short | long | sizet | ptrdiff | none => exact ⟨[.word 1], by decide, by decide⟩
    obtain ⟨args, signed, unsigned⟩ := one
    refine ⟨args, ⟨1, emptyString, false⟩, ?_, by decide, rfl, fun _ => by decide⟩
    rcases fetchArg_integer integer s.length args with same | same
    · rw [same, signed]
    · rw [same, unsigned]
  · exact ⟨[.word 1], ⟨1, emptyString, false⟩, by rw [ptr]; rfl, by decide, rfl, fun _ => by decide⟩
  · exact ⟨[.word 1], ⟨1, emptyString, false⟩, by rw [uchar]; rfl, by decide, rfl,
      fun _ => by decide⟩
  · exact ⟨[.string emptyString], ⟨0, emptyString, false⟩, by rw [str]; rfl, by decide, rfl,
      fun other => absurd str other⟩

end Arguments

section Refusals

theorem refused_basePrint (base : Nat) {bufferSize : Nat} (room : 0 < bufferSize) (s : ConvSpec)
    (something : a.ud ≠ 0) : Refused (basePrint base bufferSize refuseAll s a) := by
  have value (digits : List Nat) (printed : Nat) :
      Refused (putValue refuseAll digits printed) := fun _ => ⟨_, _, rfl, by simp [refuseAll]⟩
  intro calls
  obtain ⟨digits, written⟩ := writeDigits_ok base decimalDigit room a.ud []
  rw [basePrint, if_neg fun both => something both.2, kassert_ok room, Outcome.ok_bind, written,
    Outcome.ok_bind]
  split
  · exact refused_putRepeatedly _ (value digits) _ 0 calls
  · exact value digits 0 calls

theorem refused_hexPrint (s : ConvSpec) (something : a.ud ≠ 0) :
    Refused (hexPrint refuseAll s a) := by
  intro calls
  obtain ⟨digits, written⟩ := writeDigits_ok 16
    (hexDigit (if s.spec = .uhex then byteOf 'a' else byteOf 'A')) (by decide : 0 < 16) a.ud []
  rw [hexPrint, if_neg fun both => something both.2.2]
  dsimp only
  rw [kassert_ok (by decide), Outcome.ok_bind, written, Outcome.ok_bind]
  exact refused_put digits calls

theorem refused_strPrint (s : ConvSpec) (a : Argument) : Refused (strPrint refuseAll s a) := by
  intro calls
  unfold strPrint strLength
  dsimp only
  split
  · exact refused_put _ calls
  · exact refused_put _ calls

/-- The functions of the table print something of a value that is not zero. -/
theorem refused_print (found : csFuncsTable s.spec = .ok funcs)
    (something : s.spec ≠ .str → a.ud ≠ 0) : Refused (funcs.print refuseAll s a) := by
  cases spec : s.spec with
  | int | udec =>
      rw [spec] at found
      cases found
      exact refused_basePrint 10 (by decide) s (something (by simp [spec]))
  | uoctal =>
      rw [spec] at found
      cases found
      exact refused_basePrint 8 (by decide) s (something (by simp [spec]))
  | ptr | uhex | uhexBig =>
      rw [spec] at found
      cases found
      exact refused_hexPrint s (something (by simp [spec]))
  | str =>
      rw [spec] at found
      cases found
      exact refused_strPrint s a
  | uchar =>
      rw [spec] at found
      cases found
      exact refused_put _
  | writtenOut | percentage | invalid =>
      rw [spec] at found
      cases found

theorem refused_putPrepended (more : ∀ printed, Refused (rest printed))
    (toPrepend : Option (List Nat)) (printed : Nat) :
    Refused (putPrepended refuseAll s a toPrepend rest printed) := by
  have flags : Refused (counted (putFlags refuseAll s a) printed rest) := by
    intro calls
    unfold counted putFlags
    split
    · exact (refused_put _).counted printed rest calls
    · split
      · exact (refused_put _).counted printed rest calls
      · split
        · exact (refused_put _).counted printed rest calls
        · exact more _ calls
  cases toPrepend with
  | some chars =>
      exact (refused_put chars).counted printed fun printed =>
        counted (putFlags refuseAll s a) printed rest
  | none => exact flags

theorem refused_putLeft (more : ∀ printed, Refused (rest printed))
    (toPrepend : Option (List Nat)) (widthToFill : Int) (printed : Nat) :
    Refused (putLeft refuseAll s a toPrepend widthToFill rest printed) := by
  unfold putLeft
  split
  · split
    · exact refused_putPrepended (refused_putRepeatedly _ more _) toPrepend printed
    · exact refused_putRepeatedly _ more _ printed
  · exact more printed

theorem refused_putField (prints : Refused (funcs.print refuseAll s a))
    (toPrepend : Option (List Nat)) (widthToFill : Int) :
    Refused (putField refuseAll s a funcs toPrepend widthToFill) := by
  have value (printed : Nat) := prints.counted printed (putRight refuseAll s widthToFill)
  refine refused_putLeft (fun printed => ?_) toPrepend widthToFill 0
  split
  · exact value printed
  · exact refused_putPrepended value toPrepend printed

end Refusals

section Rejections

/-- The length of a padded number is not less than the precision. -/
theorem precision_le_baseLength {base maxNumDigits : Nat} (large : intptrMax ≤ s.precision)
    (given : special s.precision ≠ specialEmpty)
    (computed : baseLength base maxNumDigits s a = .ok numLen) : s.precision ≤ numLen := by
  have some_digits : s.precision ≠ 0 := by
    intro none_there
    rw [none_there] at large
    cases large
  rw [baseLength, if_neg fun both => some_digits both.1] at computed
  obtain ⟨length, -, computed⟩ := Outcome.bind_eq_ok.mp computed
  split at computed
  · cases computed
    exact Nat.le_refl _
  · next shorter =>
      cases computed
      exact Nat.le_of_not_le fun longer => shorter ⟨given, longer⟩

/-- The conversions for which the length of a value can be too large. -/
def ConvSpec.Overlong (s : ConvSpec) : Prop :=
  s.spec.isPadded ∧ special s.precision ≠ specialEmpty ∧ intptrMax ≤ s.precision

theorem ConvSpec.Overlong.length (overlong : s.Overlong) (found : csFuncsTable s.spec = .ok funcs)
    (computed : funcs.length s a = .ok numLen) : ¬numLen < intptrMax := by
  obtain ⟨⟨integer, decimal⟩, given, large⟩ := overlong
  have numeric : s.spec.isNumeric = true := by rw [ConvSpecifiers.isNumeric, integer, Bool.true_or]
  rw [decimal_functions numeric decimal] at found
  cases found
  exact Nat.not_lt.mpr (Nat.le_trans large (precision_le_baseLength large given computed))

theorem isInteger_of_decimal (numeric : s.spec.isNumeric = true) (decimal : s.spec.isHex = false) :
    s.spec.isInteger = true := by
  cases spec : s.spec <;> simp [spec, ConvSpecifiers.isNumeric, ConvSpecifiers.isInteger,
    ConvSpecifiers.isHex] at numeric decimal ⊢

theorem length_valueText_lt (numeric : s.spec.isNumeric = true) (short : ¬s.Overlong) {ud : Nat}
    (fits : ud < uintmaxSpace) : (valueText s ud).length < intptrMax := by
  have digits := length_digitText_le s.spec fits
  unfold valueText
  split
  · decide
  · rw [List.length_append, List.length_replicate, paddingZeros]
    split
    · next given =>
        have bounded : s.precision < intptrMax := Nat.lt_of_not_le fun large =>
          short ⟨⟨isInteger_of_decimal numeric given.1, given.1⟩, given.2, large⟩
        unfold intptrMax at bounded ⊢
        omega
    · unfold intptrMax
      omega

/-- The length of a value is small unless the precision makes it large. -/
theorem length_lt (short : ¬s.Overlong) (fits : a.ud < uintmaxSpace) (empty : a.str = emptyString)
    (found : csFuncsTable s.spec = .ok funcs) (computed : funcs.length s a = .ok numLen) :
    numLen < intptrMax := by
  by_cases numeric : s.spec.isNumeric = true
  · have bounded := length_valueText_lt numeric short fits
    by_cases hex : s.spec.isHex = true
    · have table : csFuncsTable s.spec = .ok ⟨hexPrint, hexLength, some hexPrefix⟩ := by
        cases spec : s.spec <;> rw [spec] at hex <;> first | rfl | cases hex
      rw [table] at found
      cases found
      cases computed.symm.trans (hexLength_eq hex fits)
      exact bounded
    · have decimal : s.spec.isHex = false := by simpa using hex
      rw [decimal_functions numeric decimal] at found
      cases found
      cases computed.symm.trans (baseLength_eq decimal fits)
      exact bounded
  · cases spec : s.spec with
    | int | udec | uoctal | uhex | uhexBig | ptr =>
        rw [spec] at numeric
        exact absurd rfl numeric
    | str =>
        rw [spec] at found
        cases found
        have nothing : strLength s a = .ok 0 := by
          rw [strLength, empty]
          exact if_neg fun both => Nat.not_lt_zero _ both.2
        cases computed.symm.trans nothing
        decide
    | uchar =>
        rw [spec] at found
        cases found
        cases computed
        decide
    | writtenOut | percentage | invalid =>
        rw [spec] at found
        cases found

theorem prefix_lt (found : csFuncsTable s.spec = .ok funcs) :
    ((funcs.toPrepend.map (· s)).getD []).length < intptrMax := by
  cases spec : s.spec with
  | int | udec | uoctal | str | uchar =>
      rw [spec] at found
      cases found
      exact (by decide : 0 < intptrMax)
  | ptr | uhex | uhexBig =>
      rw [spec] at found
      cases found
      have short : (hexPrefix s).length ≤ 2 := by
        unfold hexPrefix
        split_ifs <;> simp
      exact Nat.lt_of_le_of_lt short (by decide)
  | writtenOut | percentage | invalid =>
      rw [spec] at found
      cases found

/-- A conversion whose numbers are small can be printed, if only an output function refuses
what it gets. -/
theorem exists_printed (converts : Converts s.length s.spec) (narrow : s.width < intptrMax)
    (short : ¬s.Overlong) : ∃ args a rc final, fetchArg s.length args s.spec = .ok (a, []) ∧
      printConvSpec refuseAll s args [] = .ok (rc, [], final) := by
  obtain ⟨args, a, fetched, fits, empty, something⟩ := exists_argument converts
  obtain ⟨arg, takes⟩ := supported_iff.mpr converts
  obtain ⟨funcs, found⟩ := takes.listed
  obtain ⟨numLen, computed⟩ := csFuncsTable_length found s a
  have small := length_lt short fits empty found computed
  have front := prefix_lt found
  obtain ⟨rc, final, returned, -⟩ := refused_putField (refused_print found something)
    (funcs.toPrepend.map (· s)) (s.width - numLen - ((funcs.toPrepend.map (· s)).getD []).length -
      (if a.negative || s.flags.plus || s.flags.space then 1 else 0)) []
  have notPercentage : s.spec ≠ .percentage := by
    intro percentage
    rw [percentage] at found
    cases found
  refine ⟨args, a, rc, final, fetched, ?_⟩
  rw [printConvSpec, if_neg notPercentage, fetched, Outcome.ok_bind]
  dsimp only
  rw [printArgument, found, Outcome.ok_bind, computed, Outcome.ok_bind, kassert_ok narrow,
    Outcome.ok_bind, kassert_ok small, Outcome.ok_bind, kassert_ok front, Outcome.ok_bind, returned]
  rfl

/-- The conversions that an assertion stops. -/
theorem rejected_iff : s.Rejected ↔ s.spec ≠ .percentage ∧
    (¬Converts s.length s.spec ∨ intptrMax ≤ s.width ∨ s.Overlong) := by
  constructor
  · intro rejected
    refine ⟨fun percentage => ?_, ?_⟩
    · rcases rejected refuseAll [] [] with missing | stopped
      · rw [percentage] at missing
        cases missing
      · rw [printConvSpec, if_pos percentage] at stopped
        cases stopped
    · by_contra printable
      simp only [not_or, not_not, Nat.not_le] at printable
      obtain ⟨converts, narrow, short⟩ := printable
      obtain ⟨args, a, rc, final, fetched, returned⟩ := exists_printed converts narrow short
      rcases rejected refuseAll args [] with missing | stopped
      · cases fetched.symm.trans missing
      · cases returned.symm.trans stopped
  · rintro ⟨notPercentage, large⟩ f args calls
    rcases s.fetchArg_cases args with ⟨arg, left, a, rfl, takes, fetched⟩ | missing |
      ⟨unsupported, stopped⟩
    · obtain ⟨funcs, found⟩ := takes.listed
      obtain ⟨numLen, computed⟩ := csFuncsTable_length found s a
      refine .inr ?_
      rw [printConvSpec, if_neg notPercentage, fetched, Outcome.ok_bind]
      dsimp only
      rw [printArgument, found, Outcome.ok_bind, computed, Outcome.ok_bind]
      by_cases narrow : s.width < intptrMax
      · rcases large with unsupported | wide | overlong
        · exact absurd (supported_iff.mp ⟨arg, takes⟩) unsupported
        · exact absurd narrow (Nat.not_lt.mpr wide)
        · rw [kassert_ok narrow, Outcome.ok_bind, kassert_error (overlong.length found computed)]
          rfl
      · rw [kassert_error narrow]
        rfl
    · exact .inl missing
    · refine .inr ?_
      rw [printConvSpec, if_neg notPercentage, stopped]
      rfl

end Rejections

/-- The numbers of a conversion are stored as they are, or an assertion rejects them. -/
def ConvSyntax.NumbersKept (marks : List Nat) (conv : ConvSyntax) (s : ConvSpec) : Prop :=
  (conv.width.given.Kept marks s.width ∧ conv.givenPrecision.Kept marks s.precision) ∨ s.Rejected

/-- Both numbers are plain, or the conversion is not supported, or a number of it is negative
for an assertion that looks at it. -/
def ConvSyntax.NumbersFit (marks : List Nat) (conv : ConvSyntax) : Prop :=
  (conv.width.given.Plain marks ∧ conv.givenPrecision.Plain marks) ∨ conv.spec ≠ .percentage ∧
    (¬Converts conv.length conv.spec ∨ conv.width.given.Negative ∨
      conv.spec.isPadded ∧ ¬conv.givenPrecision.Hidden ∧ conv.givenPrecision.Negative)

/-- What is stored for a width. -/
theorem width_kept_iff (marks : List Nat) (number : NumberSyntax) :
    (number.given.Kept marks (number.stored specialEmpty) ↔ number.given.Plain marks) ∧
      (intptrMax ≤ number.stored specialEmpty ↔ number.given.Negative) := by
  cases number with
  | absent => exact ⟨iff_of_true ⟨rfl, by decide⟩ trivial, iff_of_false (by decide) id⟩
  | star => exact ⟨iff_of_true trivial trivial, iff_of_false (by decide) id⟩
  | numeral digits => exact ⟨kept_wrap marks _, Iff.rfl⟩

/-- What is stored for a precision. -/
theorem precision_kept_iff (marks : List Nat) (conv : ConvSyntax) :
    (conv.givenPrecision.Kept marks conv.storedPrecision ↔ conv.givenPrecision.Plain marks) ∧
      (special conv.storedPrecision ≠ specialEmpty ∧ intptrMax ≤ conv.storedPrecision ↔
        ¬conv.givenPrecision.Hidden ∧ conv.givenPrecision.Negative) := by
  unfold ConvSyntax.givenPrecision ConvSyntax.storedPrecision
  cases conv.precision with
  | none =>
      exact ⟨iff_of_true ⟨rfl, by decide⟩ trivial, iff_of_false (by decide) fun both => both.2⟩
  | some number =>
      cases number with
      | absent =>
          have small : ¬intptrMax ≤ wrap 0 := by decide
          exact ⟨kept_wrap marks 0, iff_of_false (by decide) fun both => absurd both.2 small⟩
      | star => exact ⟨iff_of_true trivial trivial, iff_of_false (by decide) fun both => both.2⟩
      | numeral digits =>
          refine ⟨kept_wrap marks _, and_congr_left' (not_congr ?_)⟩
          exact iff_of_eq (congrArg (· = specialEmpty) (special_wrap _))

/-- For whatever marks the code looks for, the numbers of a conversion are kept if and only
if they are numbers of an `unsigned` without such a mark, unless an assertion rejects them. -/
theorem parseConvSpec_numbers_iff {specLen : Nat} (marks : List Nat) (proper : conv.Proper)
    (parsed : parseConvSpec (byteOf '%' :: conv.text) = .ok (s, specLen)) :
    conv.NumbersKept marks s ↔ conv.NumbersFit marks := by
  obtain ⟨width, precision, length, spec, -⟩ := conv.parseConvSpec_text proper parsed
  have widths := width_kept_iff marks conv.width
  have precisions := precision_kept_iff marks conv
  unfold ConvSyntax.NumbersKept ConvSyntax.NumbersFit
  rw [rejected_iff, ConvSpec.Overlong, width, precision, length, spec, widths.1, widths.2,
    precisions.1, precisions.2]

/-- `"%12.5d"`. -/
def smallNumbers : ConvSyntax :=
  ⟨[], .numeral ("12".toList.map byteOf), some (.numeral [byteOf '5']), [byteOf 'd']⟩

theorem smallNumbers_kept :
    smallNumbers.NumbersKept [specialEmpty, specialVar]
      ⟨⟨false, false, false, false, false⟩, 12, 5, .none, .int⟩ := by
  have proper : smallNumbers.Proper := by
    refine ⟨nofun, by decide, ⟨by decide, by decide⟩, (by decide : isDigit (byteOf '.') = false),
      nofun, ?_⟩
    rintro number ⟨⟩
    exact ⟨⟨by decide, by decide⟩, (by decide : isDigit (byteOf 'd') = false)⟩
  have parsed : parseConvSpec (byteOf '%' :: smallNumbers.text) =
      .ok (⟨⟨false, false, false, false, false⟩, 12, 5, .none, .int⟩, 6) := by decide
  exact (parseConvSpec_numbers_iff [specialEmpty, specialVar] proper parsed).mpr
    (.inl ⟨⟨by decide, by decide⟩, by decide, by decide⟩)

/-- `"%4294967300d"`. -/
def hugeWidth : ConvSyntax :=
  ⟨[], .numeral ("4294967300".toList.map byteOf), none, [byteOf 'd']⟩

/-- The width is stored as four. -/
theorem hugeWidth_not_kept : ∃ s specLen, hugeWidth.Proper ∧
    parseConvSpec (byteOf '%' :: hugeWidth.text) = .ok (s, specLen) ∧
      ¬hugeWidth.NumbersKept [specialEmpty] s := by
  have proper : hugeWidth.Proper :=
    ⟨nofun, by decide, ⟨by decide, by decide⟩, (by decide : isDigit (byteOf 'd') = false),
      fun _ => by decide, nofun⟩
  have parsed : parseConvSpec (byteOf '%' :: hugeWidth.text) =
      .ok (⟨⟨false, false, false, false, false⟩, 4, specialEmpty, .none, .int⟩, 12) := by decide
  refine ⟨_, _, proper, parsed, ?_⟩
  rintro (⟨⟨same, -⟩, -⟩ | rejected)
  · exact absurd same (by decide)
  · rcases rejected refuseAll [.word 1] [] with missing | stopped
    · exact absurd missing (by decide)
    · exact absurd stopped (by decide +kernel)

end Yaeos
