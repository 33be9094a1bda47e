import Yaeos.Cstd.Digits

/-!
# The field of a numeric conversion

`print_conv_spec` hands over a prefix, a sign, the digits and the padding.  With the
flag `0` the prefix and the sign are part of the padding on the left, so they are
missing where there is no such padding.
-/

namespace Yaeos

variable {f : FprintfFn} {s : ConvSpec} {arg : Argument} {more digits front : List Nat}
  {rest : Nat → Printer Nat} {widthToFill : Int}

/-- The sign of a value. -/
def signText (s : ConvSpec) (negative : Bool) : List Nat :=
  if negative then [byteOf '-'] else if s.flags.plus then [byteOf '+']
  else if s.flags.space then [byteOf ' '] else []

/-- What the prefix function of a conversion returns; there is one for hexadecimal digits. -/
def prefixText (s : ConvSpec) : List Nat := if s.spec.isHex then hexPrefix s else []

/-- The padding in front of a right-justified value.  `signed` is the prefix and the sign. -/
def leftText (s : ConvSpec) (signed : List Nat) (fill : Nat) : List Nat :=
  if s.flags.minus = false ∧ special s.width ≠ specialEmpty then
    if s.flags.zero then signed ++ List.replicate fill (byteOf '0')
    else List.replicate fill (byteOf ' ')
  else []

/-- The prefix and the sign, if they are not part of the padding. -/
def middleText (s : ConvSpec) (signed : List Nat) : List Nat := if s.flags.zero then [] else signed

/-- What is behind the digits. -/
def rightText (s : ConvSpec) (fill : Nat) : List Nat :=
  if s.flags.minus = true ∧ special s.width ≠ specialEmpty then List.replicate fill (byteOf ' ')
  else []

theorem writes_putFlags (f : FprintfFn) (s : ConvSpec) (arg : Argument) :
    Writes (putFlags f s arg) (signText s arg.negative) := by
  intro calls rc final returned notNegative
  unfold putFlags at returned
  unfold signText
  split_ifs at returned ⊢
  · exact writes_put f _ calls rc final returned notNegative
  · exact writes_put f _ calls rc final returned notNegative
  · exact writes_put f _ calls rc final returned notNegative
  · exact writes_nothing 0 calls rc final returned notNegative

theorem writes_putPrepended (second : ∀ printed, Writes (rest printed) more)
    (toPrepend : Option (List Nat)) (printed : Nat) :
    Writes (putPrepended f s arg toPrepend rest printed)
      (toPrepend.getD [] ++ signText s arg.negative ++ more) := by
  have flags := (writes_putFlags f s arg).counted second
  cases toPrepend with
  | some chars =>
      rw [Option.getD_some, List.append_assoc]
      exact (writes_put f chars).counted flags printed
  | none => exact flags printed

theorem writes_putLeft (second : ∀ printed, Writes (rest printed) more)
    (toPrepend : Option (List Nat)) (widthToFill : Int) (printed : Nat) :
    Writes (putLeft f s arg toPrepend widthToFill rest printed)
      (leftText s (toPrepend.getD [] ++ signText s arg.negative) widthToFill.toNat ++ more) := by
  unfold putLeft leftText
  split
  · split
    · rw [List.append_assoc]
      exact writes_putPrepended (writes_putRepeatedly f (byteOf '0') second _) toPrepend printed
    · exact writes_putRepeatedly f (byteOf ' ') second _ printed
  · exact second printed

theorem writes_putRight (f : FprintfFn) (s : ConvSpec) (widthToFill : Int) (printed : Nat) :
    Writes (putRight f s widthToFill printed) (rightText s widthToFill.toNat) := by
  unfold putRight rightText
  split
  · simpa using writes_putRepeatedly f (byteOf ' ') writes_returnPrinted widthToFill.toNat printed
  · exact writes_returnPrinted printed

/-- The texts of a field follow each other. -/
theorem writes_putField {funcs : ConvSpecFuncs} (prints : Writes (funcs.print f s arg) digits)
    (toPrepend : Option (List Nat)) (widthToFill : Int) :
    Writes (putField f s arg funcs toPrepend widthToFill)
      (leftText s (toPrepend.getD [] ++ signText s arg.negative) widthToFill.toNat ++
        (middleText s (toPrepend.getD [] ++ signText s arg.negative) ++
          (digits ++ rightText s widthToFill.toNat))) := by
  have value := prints.counted (writes_putRight f s widthToFill)
  refine writes_putLeft (fun printed => ?_) toPrepend widthToFill 0
  unfold middleText
  split
  · exact value printed
  · exact writes_putPrepended value toPrepend printed

/-- The field of a value with these digits. -/
def fieldText (s : ConvSpec) (negative : Bool) (digits : List Nat) : List Nat :=
  let signed := prefixText s ++ signText s negative
  let fill := s.width - (signed.length + digits.length)
  leftText s signed fill ++ (middleText s signed ++ (digits ++ rightText s fill))

theorem prefix_found {funcs : ConvSpecFuncs} (numeric : s.spec.isNumeric = true)
    (found : csFuncsTable s.spec = .ok funcs) :
    (funcs.toPrepend.map (· s)).getD [] = prefixText s := by
  unfold prefixText
  cases spec : s.spec with
  | int | udec | uoctal | uhex | uhexBig | ptr =>
      rw [spec] at found
      cases found
      rfl
  | uchar | str | writtenOut | percentage | invalid =>
      rw [spec] at numeric
      cases numeric

theorem length_signText (s : ConvSpec) (negative : Bool) : (signText s negative).length =
    if negative || s.flags.plus || s.flags.space then 1 else 0 := by
  unfold signText
  cases negative <;> cases s.flags.plus <;> cases s.flags.space <;> rfl

/-- A numeric field that is not refused. -/
theorem writes_printArgument (numeric : s.spec.isNumeric = true) (fits : arg.ud < uintmaxSpace) :
    Writes (printArgument f s arg) (fieldText s arg.negative (valueText s arg.ud)) := by
  intro calls rc final returned notNegative
  obtain ⟨funcs, found, returned⟩ := Outcome.bind_eq_ok.mp returned
  obtain ⟨numLen, computed, returned⟩ := Outcome.bind_eq_ok.mp returned
  obtain ⟨_, _, returned⟩ := Outcome.bind_eq_ok.mp returned
  obtain ⟨_, passes, returned⟩ := Outcome.bind_eq_ok.mp returned
  obtain ⟨_, _, returned⟩ := Outcome.bind_eq_ok.mp returned
  obtain ⟨length, writes, -⟩ :=
    valueText_printed numeric fits found computed (kassert_eq_ok.mp passes)
  dsimp only at returned
  have fill : (↑s.width - ↑numLen - ↑(prefixText s).length -
      (if arg.negative || s.flags.plus || s.flags.space then 1 else 0) : Int).toNat =
        s.width - ((prefixText s ++ signText s arg.negative).length + numLen) := by
    rw [List.length_append, length_signText]
    split <;> omega
  rw [prefix_found numeric found] at returned
  have field := writes_putField (writes f) (funcs.toPrepend.map (· s)) _ calls rc final returned
    notNegative
  rw [prefix_found numeric found, fill, length] at field
  exact field

/-- The prefix and the sign once, the digits, and padding on one side up to the width. -/
structure FieldLayout (s : ConvSpec) (width : Option Nat) (negative : Bool)
    (digits text : List Nat) : Prop where
  layout : ∃ pad, text =
    if s.flags.minus then
      prefixText s ++ signText s negative ++ digits ++ List.replicate pad (byteOf ' ')
    else if s.flags.zero then
      prefixText s ++ signText s negative ++ List.replicate pad (byteOf '0') ++ digits
    else List.replicate pad (byteOf ' ') ++ prefixText s ++ signText s negative ++ digits
  length : text.length = max (width.getD 0)
    ((prefixText s).length + (signText s negative).length + digits.length)

/-- The flag `0` is absent, or it is the padding of a width, or there is neither a prefix nor
a sign. -/
def KeepsSign (s : ConvSpec) (width : Option Nat) (negative : Bool) : Prop :=
  s.flags.zero = true →
    (s.flags.minus = false ∧ width ≠ none) ∨ prefixText s ++ signText s negative = []

theorem special_stored {width : Option Nat} (stored : Stored width s.width) :
    special s.width ≠ specialEmpty ↔ width ≠ none := by
  cases width with
  | none =>
      have absent : s.width = specialEmpty := stored
      rw [absent]
      exact iff_of_false (by decide) (by simp)
  | some given => exact iff_of_true stored.2 (by simp)

section Layout

variable {width : Option Nat} {negative : Bool}

/-- The padding that is missing up to the width. -/
def padding (s : ConvSpec) (width : Option Nat) (negative : Bool) (digits : List Nat) : Nat :=
  width.getD 0 - ((prefixText s).length + (signText s negative).length + digits.length)

theorem fill_eq (stored : Stored width s.width) (given : width ≠ none) (negative : Bool)
    (digits : List Nat) :
    s.width - ((prefixText s).length + (signText s negative).length + digits.length) =
      padding s width negative digits := by
  obtain ⟨number, rfl⟩ := Option.ne_none_iff_exists'.mp given
  rw [padding, Option.getD_some, stored.1]

/-- A field that keeps its sign is laid out as it should be. -/
theorem fieldText_layout (stored : Stored width s.width) (kept : KeepsSign s width negative)
    (digits : List Nat) :
    fieldText s negative digits =
      if s.flags.minus then
        prefixText s ++ signText s negative ++ digits ++
          List.replicate (padding s width negative digits) (byteOf ' ')
      else if s.flags.zero then
        prefixText s ++ signText s negative ++
          List.replicate (padding s width negative digits) (byteOf '0') ++ digits
      else
        List.replicate (padding s width negative digits) (byteOf ' ') ++ prefixText s ++
          signText s negative ++ digits := by
  have special := special_stored stored
  have nothing : width = none → padding s width negative digits = 0 := by
    rintro rfl
    exact Nat.zero_sub _
  by_cases given : width ≠ none
  · have fill := fill_eq stored given negative digits
    have isGiven := special.mpr given
    cases minus : s.flags.minus <;> cases zero : s.flags.zero
    · simp [fieldText, leftText, middleText, rightText, minus, zero, isGiven, fill]
    · simp [fieldText, leftText, middleText, rightText, minus, zero, isGiven, fill]
    · simp [fieldText, leftText, middleText, rightText, minus, zero, isGiven, fill]
    · have unsigned := (kept zero).resolve_left fun both => by simp [minus] at both
      obtain ⟨noPrefix, noSign⟩ := List.append_eq_nil_iff.mp unsigned
      rw [noPrefix, noSign, List.length_nil, Nat.zero_add] at fill
      simp [fieldText, leftText, middleText, rightText, minus, zero, isGiven, noPrefix, noSign,
        fill]
  · have absent := not_not.mp given
    have isAbsent : ¬Yaeos.special s.width ≠ specialEmpty := fun other => given (special.mp other)
    rw [nothing absent]
    cases zero : s.flags.zero
    · simp [fieldText, leftText, middleText, rightText, zero, isAbsent]
    · have unsigned := (kept zero).resolve_left fun both => both.2 absent
      obtain ⟨noPrefix, noSign⟩ := List.append_eq_nil_iff.mp unsigned
      simp [fieldText, leftText, middleText, rightText, zero, isAbsent, noPrefix, noSign]

/-- A prefix and a sign that are not kept are missing from the field. -/
theorem length_fieldText_lost (stored : Stored width s.width)
    (lost : ¬KeepsSign s width negative) (digits : List Nat) :
    (fieldText s negative digits).length < max (width.getD 0)
      ((prefixText s).length + (signText s negative).length + digits.length) := by
  obtain ⟨zero, dropped⟩ := Classical.not_imp.mp lost
  obtain ⟨unpadded, signed⟩ := not_or.mp dropped
  have special := special_stored stored
  have positive : 0 < (prefixText s).length + (signText s negative).length := by
    rw [← List.length_append]
    exact List.length_pos_iff.mpr signed
  have noLeft : leftText s (prefixText s ++ signText s negative)
      (s.width - ((prefixText s ++ signText s negative).length + digits.length)) = [] :=
    if_neg fun both => unpadded ⟨both.1, special.mp both.2⟩
  have noMiddle : middleText s (prefixText s ++ signText s negative) = [] := if_pos zero
  rw [fieldText, noLeft, noMiddle, List.nil_append, List.nil_append, List.length_append]
  unfold rightText
  split
  · next behind =>
      have given := special.mp behind.2
      rw [List.length_replicate, List.length_append, fill_eq stored given _, padding]
      omega
  · rw [List.length_nil]
    omega

theorem fieldText_layout_iff (stored : Stored width s.width) (negative : Bool) (digits : List Nat) :
    FieldLayout s width negative digits (fieldText s negative digits) ↔
      KeepsSign s width negative := by
  constructor
  · intro layout
    by_contra lost
    exact absurd layout.length (Nat.ne_of_lt (length_fieldText_lost stored lost digits))
  · intro kept
    have laidOut := fieldText_layout stored kept digits
    refine ⟨⟨_, laidOut⟩, ?_⟩
    rw [laidOut, apply_ite List.length, apply_ite List.length]
    simp only [List.length_append, List.length_replicate]
    unfold padding
    split
    · omega
    · split <;> omega

end Layout

/-- The bits of the type that a length modifier names. -/
def ConvLength.width : ConvLength → Nat
  | .char => 8
  | .short => 16
  | .llong | .intmax => 64
  | .long | .sizet | .ptrdiff | .ldouble | .none => 32

def VaArg.bits : VaArg → Nat
  | .word bits | .dword bits => bits
  | .string _ => 0

/-- The value of an argument, signed for `d` and `i` and without sign for the others. -/
def ConvSpec.valueOf (s : ConvSpec) (arg : VaArg) : Int :=
  if s.spec = .int then (arg.bits : Int).bmod (2 ^ s.length.width)
  else if s.spec = .ptr then ((arg.bits % 2 ^ 32 : Nat) : Int)
  else ((arg.bits % 2 ^ s.length.width : Nat) : Int)

theorem fetchInt_eq {length : ConvLength} {arg : VaArg} {args : List VaArg}
    {result : Argument × List VaArg} (fetched : fetchInt (arg :: args) length = .ok result) :
    result = caseBody length.width (arg.bits, args) := by
  cases length <;> cases arg <;> first | exact (Except.ok.inj fetched).symm | cases fetched

theorem fetchUnsigned_eq {length : ConvLength} {arg : VaArg} {args : List VaArg}
    {result : Argument × List VaArg} (fetched : fetchUnsigned (arg :: args) length = .ok result) :
    result = unsignedBody length.width (arg.bits, args) := by
  cases length <;> cases arg <;> first | exact (Except.ok.inj fetched).symm | cases fetched

theorem unsignedBody_value (width bits : Nat) (args : List VaArg) :
    (unsignedBody width (bits, args)).1.negative =
        decide (((bits % 2 ^ width : Nat) : Int) < 0) ∧
      (unsignedBody width (bits, args)).1.ud = ((bits % 2 ^ width : Nat) : Int).natAbs :=
  ⟨(decide_eq_false (Int.not_lt.mpr (Int.natCast_nonneg _))).symm, (Int.natAbs_natCast _).symm⟩

/-- `fetch_arg` splits the value into its sign and what is printed of it. -/
theorem fetchArg_value {arg : VaArg} {args left : List VaArg} {a : Argument}
    (numeric : s.spec.isNumeric = true)
    (fetched : fetchArg s.length (arg :: args) s.spec = .ok (a, left)) :
    a.negative = decide (s.valueOf arg < 0) ∧ a.ud = (s.valueOf arg).natAbs := by
  unfold ConvSpec.valueOf
  cases spec : s.spec with
  | int =>
      rw [spec] at fetched
      cases fetchInt_eq fetched
      exact ⟨rfl, rfl⟩
  | uhex | uhexBig | uoctal | udec =>
      rw [spec] at fetched
      cases fetchUnsigned_eq fetched
      exact unsignedBody_value _ _ args
  | ptr =>
      rw [spec] at fetched
      cases arg <;> cases fetched
      exact unsignedBody_value 32 _ args
  | uchar | str | writtenOut | percentage | invalid =>
      rw [spec] at numeric
      cases numeric

theorem ConvLength.width_le (length : ConvLength) : 0 < length.width ∧ length.width ≤ 64 := by
  cases length <;> decide

theorem valueOf_fits (s : ConvSpec) (arg : VaArg) : (s.valueOf arg).natAbs < uintmaxSpace := by
  have pow : ∀ width ≤ 64, 2 ^ width ≤ uintmaxSpace := fun width bounded =>
    Nat.pow_le_pow_right (by decide) bounded
  have unsigned : ∀ width ≤ 64, ((arg.bits % 2 ^ width : Nat) : Int).natAbs < uintmaxSpace := by
    intro width bounded
    rw [Int.natAbs_natCast]
    exact Nat.lt_of_lt_of_le (Nat.mod_lt _ (Nat.two_pow_pos width)) (pow width bounded)
  unfold ConvSpec.valueOf
  split
  · have positive := Nat.two_pow_pos s.length.width
    have below := Int.bmod_lt (x := arg.bits) positive
    have above := Int.le_bmod (x := arg.bits) positive
    have bounded := pow _ s.length.width_le.2
    omega
  · split
    · exact unsigned 32 (by decide)
    · exact unsigned _ s.length.width_le.2

/-- `"%04d"`. -/
def paddedSpec : ConvSpec := ⟨⟨false, false, false, false, true⟩, 4, specialEmpty, .none, .int⟩

/-- `"%-04d"`. -/
def leftPaddedSpec : ConvSpec := ⟨⟨true, false, false, false, true⟩, 4, specialEmpty, .none, .int⟩

end Yaeos
