import Yaeos.Cstd.String
import Yaeos.Machine.Output

/-!
# Formatted output (`lib/cstd/stdio/vfprintf.c`)

A format is the list of its bytes up to the terminating zero; the pointer that moves
over it is what is left of it.  `-fshort-enums` makes `special` the lowest byte of the
width and of the precision.
-/

namespace Yaeos

/-- A character constant. -/
def byteOf (c : Char) : Nat := c.toNat

/-- `fprintf_fn`. -/
abbrev FprintfFn : Type := OutputFn Nat

/-- `INTPTR_MAX`. -/
def intptrMax : Nat := 2 ^ 31 - 1

/-- The number of values of `uintmax_t`. -/
def uintmaxSpace : Nat := 2 ^ 64

/-- `CF_MINUS` to `CF_ZERO`. -/
structure ConvFlags where
  minus : Bool
  plus : Bool
  space : Bool
  hash : Bool
  zero : Bool
  deriving DecidableEq, Repr

inductive ConvSpecifiers where
  | int
  | uoctal
  | udec
  | uhex
  | uhexBig
  | uchar
  | str
  | ptr
  | writtenOut
  | percentage
  | invalid
  deriving DecidableEq, Repr

inductive ConvLength where
  | char
  | short
  | long
  | llong
  | intmax
  | sizet
  | ptrdiff
  | ldouble
  | none
  deriving DecidableEq, Repr

/-- `WIDTH_MAX` and `PRECISION_MAX`. -/
def numberMax : Nat := addressSpace - 1 - 2

/-- `WIDTH_VAR` and `PREC_VAR`, as a byte. -/
def specialVar : Nat := 0xFF

/-- `WIDTH_EMPTY` and `PREC_EMPTY`, as a byte. -/
def specialEmpty : Nat := 0xFE

/-- `special` of a width or a precision. -/
def special (number : Nat) : Nat := number % 256

structure ConvSpec where
  flags : ConvFlags
  width : Nat
  precision : Nat
  length : ConvLength
  spec : ConvSpecifiers
  deriving DecidableEq, Repr

def isDigit (byte : Nat) : Bool := decide (byteOf '0' ≤ byte ∧ byte ≤ byteOf '9')

/-- The loop of `vfprintf_atoi`. -/
def vfprintfAtoi : List Nat → (res : Nat) → Nat
  | [], res => res
  | byte :: s, res =>
      if isDigit byte then vfprintfAtoi s (wrap (10 * res + (byte - byteOf '0'))) else res

/-- The flags of `parse_conv_spec`. -/
def parseFlags : (cursor : List Nat) → ConvFlags → ConvFlags × List Nat
  | [], flags => (flags, [])
  | byte :: cursor, flags =>
      if byte = byteOf '-' then parseFlags cursor { flags with minus := true }
      else if byte = byteOf '+' then parseFlags cursor { flags with plus := true }
      else if byte = byteOf ' ' then parseFlags cursor { flags with space := true }
      else if byte = byteOf '#' then parseFlags cursor { flags with hash := true }
      else if byte = byteOf '0' then parseFlags cursor { flags with zero := true }
      else (flags, byte :: cursor)

/-- The field width of `parse_conv_spec`. -/
def parseWidth (cursor : List Nat) : Outcome (Nat × List Nat) :=
  if cursor.headD 0 = byteOf '*' then .ok (specialVar, cursor.tail)
  else do
    let len := (cursor.takeWhile isDigit).length
    kassert (len ≤ numberMax)
    if len = 0 then .ok (specialEmpty, cursor)
    else .ok (vfprintfAtoi cursor 0, cursor.drop len)

/-- The precision of `parse_conv_spec`. -/
def parsePrecision (cursor : List Nat) : Outcome (Nat × List Nat) :=
  if cursor.headD 0 ≠ byteOf '.' then .ok (specialEmpty, cursor)
  else if cursor.tail.headD 0 = byteOf '*' then .ok (specialVar, cursor.tail.tail)
  else do
    let len := (cursor.tail.takeWhile isDigit).length
    kassert (len ≤ numberMax)
    if len = 0 then .ok (0, cursor.tail)
    else .ok (vfprintfAtoi cursor.tail 0, cursor.tail.drop len)

/-- The length modifier of `parse_conv_spec`. -/
def parseLength (cursor : List Nat) : ConvLength × List Nat :=
  let byte := cursor.headD 0
  if byte = byteOf 'h' then
    if cursor.tail.headD 0 = byteOf 'h' then (.char, cursor.tail.tail) else (.short, cursor.tail)
  else if byte = byteOf 'l' then
    if cursor.tail.headD 0 = byteOf 'l' then (.llong, cursor.tail.tail) else (.long, cursor.tail)
  else if byte = byteOf 'j' then (.intmax, cursor.tail)
  else if byte = byteOf 'z' then (.sizet, cursor.tail)
  else if byte = byteOf 't' then (.ptrdiff, cursor.tail)
  else if byte = byteOf 'L' then (.ldouble, cursor.tail)
  else (.none, cursor)

/-- The conversion specifier of `parse_conv_spec`; the byte at the end of a format is zero. -/
def parseSpecifier (byte : Nat) : ConvSpecifiers :=
  if byte = byteOf 'd' ∨ byte = byteOf 'i' then .int
  else if byte = byteOf 'o' then .uoctal
  else if byte = byteOf 'u' then .udec
  else if byte = byteOf 'x' then .uhex
  else if byte = byteOf 'X' then .uhexBig
  else if byte = byteOf 'c' then .uchar
  else if byte = byteOf 's' then .str
  else if byte = byteOf 'p' then .ptr
  else if byte = byteOf 'n' then .writtenOut
  else if byte = byteOf '%' then .percentage
  else .invalid

/-- `parse_conv_spec`: the specification and `spec_len`.  The last `cursor++` also passes
over the zero at the end of a format. -/
def parseConvSpec (format : List Nat) : Outcome (ConvSpec × Nat) := do
  let (flags, cursor) := parseFlags format.tail ⟨false, false, false, false, false⟩
  let (width, cursor) ← parseWidth cursor
  let (precision, cursor) ← parsePrecision cursor
  let (length, cursor) := parseLength cursor
  let spec := parseSpecifier (cursor.headD 0)
  .ok (⟨flags, width, precision, length, spec⟩, format.length - cursor.length + 1)

/-- An argument in a `va_list`: four bytes, eight bytes or a pointer to a string. -/
inductive VaArg where
  | word (bits : Nat)
  | dword (bits : Nat)
  | string (str : CString)
  deriving DecidableEq, Repr

/-- `struct argument`.  Every conversion reads the member of `val` that `fetch_arg` wrote
for it; `d` has the bits of `ud`. -/
structure Argument where
  ud : Nat
  str : CString
  negative : Bool
  deriving DecidableEq, Repr

def emptyString : CString := ⟨[], nofun⟩

/-- `va_arg` for a type of four bytes. -/
def vaArgWord : List VaArg → Outcome (Nat × List VaArg)
  | .word bits :: args => .ok (bits, args)
  | _ => .error .outOfBounds

/-- `va_arg` for a type of eight bytes. -/
def vaArgDword : List VaArg → Outcome (Nat × List VaArg)
  | .dword bits :: args => .ok (bits, args)
  | _ => .error .outOfBounds

/-- `va_arg(*args, char *)`. -/
def vaArgString : List VaArg → Outcome (CString × List VaArg)
  | .string str :: args => .ok (str, args)
  | _ => .error .outOfBounds

/-- `CASE_BODY` for a type of `width` bits. -/
def caseBody (width : Nat) (fetched : Nat × List VaArg) : Argument × List VaArg :=
  let v := (fetched.1 : Int).bmod (2 ^ width)
  (⟨v.natAbs, emptyString, decide (v < 0)⟩, fetched.2)

/-- A conversion to an unsigned type of `width` bits. -/
def unsignedBody (width : Nat) (fetched : Nat × List VaArg) : Argument × List VaArg :=
  (⟨fetched.1 % 2 ^ width, emptyString, false⟩, fetched.2)

/-- `fetch_arg` for `CS_INT`. -/
def fetchInt (args : List VaArg) : ConvLength → Outcome (Argument × List VaArg)
  | .char => caseBody 8 <$> vaArgWord args
  | .short => caseBody 16 <$> vaArgWord args
  | .long => caseBody 32 <$> vaArgWord args
  | .llong => caseBody 64 <$> vaArgDword args
  | .intmax => caseBody 64 <$> vaArgDword args
  | .none => caseBody 32 <$> vaArgWord args
  | .sizet => caseBody 32 <$> vaArgWord args
  | .ptrdiff => caseBody 32 <$> vaArgWord args
  | .ldouble => .error .kassert

/-- `fetch_arg` for the unsigned conversions. -/
def fetchUnsigned (args : List VaArg) : ConvLength → Outcome (Argument × List VaArg)
  | .char => unsignedBody 8 <$> vaArgWord args
  | .short => unsignedBody 16 <$> vaArgWord args
  | .long => unsignedBody 32 <$> vaArgWord args
  | .llong => unsignedBody 64 <$> vaArgDword args
  | .intmax => unsignedBody 64 <$> vaArgDword args
  | .sizet => unsignedBody 32 <$> vaArgWord args
  | .none => unsignedBody 32 <$> vaArgWord args
  | .ptrdiff => unsignedBody 32 <$> vaArgWord args
  | .ldouble => .error .kassert

def fetchArg (length : ConvLength) (args : List VaArg) :
    ConvSpecifiers → Outcome (Argument × List VaArg)
  | .int => fetchInt args length
  | .uhex | .uhexBig | .uoctal | .udec => fetchUnsigned args length
  | .ptr => unsignedBody 32 <$> vaArgWord args
  | .str => do
      let (str, args) ← vaArgString args
      .ok (⟨0, str, false⟩, args)
  | .uchar => unsignedBody 32 <$> vaArgWord args
  | .writtenOut | .percentage | .invalid => .error .kassert

/-- The loop of `length_for_intnumbase` from `i` down. -/
def highestPower (num base : Nat) : (digits : Nat) → Nat
  | 0 => 1
  | i + 1 =>
      let power := (List.range i).foldl (fun power _ => power * base % uintmaxSpace) 1
      if num ≥ power then i + 1 else highestPower num base i

def lengthForIntnumbase (num base maxNumDigits : Nat) : Outcome Nat := do
  kassert (maxNumDigits ≤ intMax)
  .ok (highestPower num base maxNumDigits)

/-- `oct_length` and `dec_length`. -/
def baseLength (base maxNumDigits : Nat) (s : ConvSpec) (a : Argument) : Outcome Nat :=
  if s.precision = 0 ∧ a.ud = 0 then .ok 0
  else do
    let length ← lengthForIntnumbase a.ud base maxNumDigits
    if special s.precision ≠ specialEmpty ∧ s.precision ≥ length then .ok s.precision
    else .ok length

def octLength : ConvSpec → Argument → Outcome Nat := baseLength 8 22

def decLength : ConvSpec → Argument → Outcome Nat := baseLength 10 20

/-- The loop that writes the digits of a value from the end of a buffer; the first of
them is at `bufferI` when it ends. -/
def writeDigits (base : Nat) (digit : Nat → Nat) :
    (bufferI ud : Nat) → (digits : List Nat) → Outcome (List Nat)
  | 0, _, _ => .error .outOfBounds
  | bufferI + 1, ud, digits =>
      let digits := digit (ud % base) :: digits
      if ud / base ≠ 0 ∧ 0 < bufferI then writeDigits base digit bufferI (ud / base) digits
      else .ok digits

def decimalDigit (n : Nat) : Nat := n + byteOf '0'

/-- The end of `oct_print` and `dec_print`. -/
def putValue (f : FprintfFn) (digits : List Nat) (printed : Nat) : Printer Nat := fun calls => do
  let (rc, calls) ← put f digits calls
  if rc < 0 then .ok (rc, calls)
  else do
    kassert (printed ≤ intMax)
    .ok ((rc + printed).bmod addressSpace, calls)

/-- `oct_print` and `dec_print`. -/
def basePrint (base bufferSize : Nat) (f : FprintfFn) (s : ConvSpec) (a : Argument) :
    Printer Nat := fun calls =>
  if s.precision = 0 ∧ a.ud = 0 then .ok (0, calls)
  else do
    kassert (0 < bufferSize)
    let digits ← writeDigits base decimalDigit bufferSize a.ud []
    if special s.precision ≠ specialEmpty then
      let padding := (wrapSub s.precision digits.length : Int).bmod addressSpace
      putRepeatedly f [byteOf '0'] (putValue f digits) padding.toNat 0 calls
    else putValue f digits 0 calls

def octPrint : FprintfFn → ConvSpec → Argument → Printer Nat := basePrint 8 22

def decPrint : FprintfFn → ConvSpec → Argument → Printer Nat := basePrint 10 20

def hexLength (s : ConvSpec) (a : Argument) : Outcome Nat :=
  if (s.spec = .uhex ∨ s.spec = .uhexBig) ∧ s.precision = 0 ∧ a.ud = 0 then .ok 0
  else lengthForIntnumbase a.ud 16 16

def hexDigit (hexOffset n : Nat) : Nat := if n < 10 then n + byteOf '0' else n - 10 + hexOffset

def hexPrint (f : FprintfFn) (s : ConvSpec) (a : Argument) : Printer Nat := fun calls =>
  if (s.spec = .uhex ∨ s.spec = .uhexBig) ∧ s.precision = 0 ∧ a.ud = 0 then .ok (0, calls)
  else do
    let hexOffset := if s.spec = .uhex then byteOf 'a' else byteOf 'A'
    kassert (0 < 16)
    let digits ← writeDigits 16 (hexDigit hexOffset) 16 a.ud []
    put f digits calls

def hexPrefix (s : ConvSpec) : List Nat :=
  let zx := [byteOf '0', byteOf 'x']
  if s.spec = .ptr then zx else if s.flags.hash then zx else []

def strLength (s : ConvSpec) (a : Argument) : Outcome Nat :=
  let len := kstrlen a.str.bytes
  if special s.precision ≠ specialEmpty ∧ s.precision < len then .ok s.precision else .ok len

def strPrint (f : FprintfFn) (s : ConvSpec) (a : Argument) : Printer Nat := fun calls => do
  let len ← strLength s a
  put f (a.str.bytes.take len) calls

def charLength (_ : ConvSpec) (_ : Argument) : Outcome Nat := .ok 1

def charPrint (f : FprintfFn) (_ : ConvSpec) (a : Argument) : Printer Nat :=
  put f [a.ud % 256]

structure ConvSpecFuncs where
  print : FprintfFn → ConvSpec → Argument → Printer Nat
  length : ConvSpec → Argument → Outcome Nat
  /-- What is prepended to the value. -/
  toPrepend : Option (ConvSpec → List Nat)

/-- `cs_funcs_table`, which ends with `CS_PTR`. -/
def csFuncsTable : ConvSpecifiers → Outcome ConvSpecFuncs
  | .int => .ok ⟨decPrint, decLength, none⟩
  | .udec => .ok ⟨decPrint, decLength, none⟩
  | .ptr => .ok ⟨hexPrint, hexLength, some hexPrefix⟩
  | .uhex => .ok ⟨hexPrint, hexLength, some hexPrefix⟩
  | .uhexBig => .ok ⟨hexPrint, hexLength, some hexPrefix⟩
  | .str => .ok ⟨strPrint, strLength, none⟩
  | .uchar => .ok ⟨charPrint, charLength, none⟩
  | .uoctal => .ok ⟨octPrint, octLength, none⟩
  | .writtenOut | .percentage | .invalid => .error .outOfBounds

/-- `put_flags`; `printed` is the result of its one call. -/
def putFlags (f : FprintfFn) (s : ConvSpec) (arg : Argument) : Printer Nat := fun calls =>
  if arg.negative then put f [byteOf '-'] calls
  else if s.flags.plus then put f [byteOf '+'] calls
  else if s.flags.space then put f [byteOf ' '] calls
  else .ok (0, calls)

/-- What is prepended, and the flags. -/
def putPrepended (f : FprintfFn) (s : ConvSpec) (arg : Argument) (toPrepend : Option (List Nat))
    (rest : Nat → Printer Nat) (printed : Nat) : Printer Nat :=
  match toPrepend with
  | some chars => counted (put f chars) printed fun printed => counted (putFlags f s arg) printed rest
  | none => counted (putFlags f s arg) printed rest

/-- The part of `print_conv_spec` in front of a right-justified value. -/
def putLeft (f : FprintfFn) (s : ConvSpec) (arg : Argument) (toPrepend : Option (List Nat))
    (widthToFill : Int) (rest : Nat → Printer Nat) (printed : Nat) : Printer Nat :=
  if s.flags.minus = false ∧ special s.width ≠ specialEmpty then
    if s.flags.zero then
      putPrepended f s arg toPrepend (putRepeatedly f [byteOf '0'] rest widthToFill.toNat) printed
    else putRepeatedly f [byteOf ' '] rest widthToFill.toNat printed
  else rest printed

/-- The part of `print_conv_spec` behind a left-justified value, and its end. -/
def putRight (f : FprintfFn) (s : ConvSpec) (widthToFill : Int) (printed : Nat) : Printer Nat :=
  if s.flags.minus = true ∧ special s.width ≠ specialEmpty then
    putRepeatedly f [byteOf ' '] returnPrinted widthToFill.toNat printed
  else returnPrinted printed

/-- `print_conv_spec` from the first output on. -/
def putField (f : FprintfFn) (s : ConvSpec) (arg : Argument) (funcs : ConvSpecFuncs)
    (toPrepend : Option (List Nat)) (widthToFill : Int) : Printer Nat :=
  let value := fun printed => counted (funcs.print f s arg) printed (putRight f s widthToFill)
  let middle := fun printed =>
    if s.flags.zero then value printed else putPrepended f s arg toPrepend value printed
  putLeft f s arg toPrepend widthToFill middle 0

/-- `print_conv_spec` with the argument that `fetch_arg` returns. -/
def printArgument (f : FprintfFn) (s : ConvSpec) (arg : Argument) : Printer Nat := fun calls => do
  let funcs ← csFuncsTable s.spec
  let numLen ← funcs.length s arg
  let toPrepend := funcs.toPrepend.map (· s)
  let prefixLen := (toPrepend.getD []).length
  let flagPresent := arg.negative || s.flags.plus || s.flags.space
  kassert (s.width < intptrMax)
  kassert (numLen < intptrMax)
  kassert (prefixLen < intptrMax)
  let widthToFill : Int := s.width - numLen - prefixLen - (if flagPresent then 1 else 0)
  putField f s arg funcs toPrepend widthToFill calls

/-- The arguments that are left are returned as well. -/
def printConvSpec (f : FprintfFn) (s : ConvSpec) (args : List VaArg)
    (calls : List (OutputCall Nat)) : Outcome (Int × List VaArg × List (OutputCall Nat)) :=
  if s.spec = .percentage then do
    let (rc, calls) ← put f [byteOf '%'] calls
    .ok (rc, args, calls)
  else do
    let (arg, args) ← fetchArg s.length args s.spec
    let (rc, calls) ← printArgument f s arg calls
    .ok (rc, args, calls)

/-- The length of the text before the next conversion. -/
def textLength (format : List Nat) : Nat :=
  match kstrchr format (byteOf '%') with
  | some cspec => format.length - cspec.length
  | none => kstrlen format

/-- The loop of `kvfprintf`. -/
def kvfprintfLoop (f : FprintfFn) :
    (rounds : Nat) → (format : List Nat) → List VaArg → (printed : Nat) → Printer Nat
  | _, [], _, printed => returnPrinted printed
  | 0, _ :: _, _, _ => fun _ => .error .unfinished
  | rounds + 1, byte :: format, args, printed =>
      if byte = byteOf '%' then fun calls => do
        let (s, specLen) ← parseConvSpec (byte :: format)
        let (rc, args, calls) ← printConvSpec f s args calls
        if rc < 0 then .ok (rc, calls)
        else if (byte :: format).length < specLen then .error .outOfBounds
        else
          let format := (byte :: format).drop specLen
          kvfprintfLoop f rounds format args (wrap (printed + rc.toNat)) calls
      else
        let toprint := textLength (byte :: format)
        counted (put f ((byte :: format).take toprint)) printed
          (kvfprintfLoop f rounds ((byte :: format).drop toprint) args)

/-- `kvfprintf`: the result and the calls of the output function.  Every round uses up a
character at least. -/
def kvfprintf (f : FprintfFn) (format : List Nat) (args : List VaArg) :
    Outcome (Int × List (OutputCall Nat)) :=
  kvfprintfLoop f format.length format args 0 []

end Yaeos
