import TurbOS.Lib.Sinks
import TurbOS.Lib.Word64
import TurbOS.Str.Buffer

/-!
# The formatter

`_vsnprintf` reads a format, takes the arguments that the format asks for and hands the characters
of the result to an output function, each one with its place in the result.  The functions of the
`printf` family differ in the output function and in the bound `maxlen` only.

A format is the text in front of the terminating zero, so the zero is met where the list ends.  The
digits of a number are written into an array of 32 characters, the last one first; the list of the
characters that were written stands for the array and for the variable `len`.

A result is `none` where the C program has no defined behaviour: a format that ends inside a
conversion (the scan runs over the terminating zero), an argument that is missing or of the wrong
kind, a string without an end.  The build leaves the conversions for floating-point numbers out.
-/

namespace TurbOS.Printf

/-! ## Flags and arguments -/

/-- The bits of `flags`; `FLAGS_ADAPT_EXP` belongs to floating-point numbers. -/
structure Flags where
  zeropad : Bool := false
  left : Bool := false
  plus : Bool := false
  space : Bool := false
  hash : Bool := false
  uppercase : Bool := false
  char : Bool := false
  short : Bool := false
  long : Bool := false
  longLong : Bool := false
  precision : Bool := false
  pointer : Bool := false
deriving DecidableEq, Repr

/-- An argument behind the format: an integer or a pointer as a word of 64 bits, or the address of a
string (null, or the bytes from there on that may be read). -/
inductive Arg where
  | word (v : UInt64)
  | str (p : Option (List Char))
deriving DecidableEq, Repr

/-- The next argument as an integer or a pointer. -/
def vaWord : List Arg → Option (UInt64 × List Arg)
  | .word v :: va => some (v, va)
  | _ => none

/-- `va_arg(va, int)`. -/
def vaInt (va : List Arg) : Option (Int32 × List Arg) :=
  (vaWord va).map fun (v, va) => (v.toUInt32.toInt32, va)

/-- `va_arg(va, char*)`. -/
def vaStr : List Arg → Option (Option (List Char) × List Arg)
  | .str p :: va => some (p, va)
  | _ => none

/-! ## Output -/

/-- `out_fct_type`: what an output function does with a character, its place and `maxlen`. -/
abbrev OutFct (σ : Type*) := Char → ℕ → ℕ → σ → σ

/-- `_out_buffer`. -/
def outBuffer : OutFct (ℕ → Char) := fun character idx maxlen buffer =>
  if idx < maxlen then Function.update buffer idx character else buffer

/-- `_out_null`. -/
def outNull {σ : Type*} : OutFct σ := fun _ _ _ s => s

/-- `_out_char` with `_putchar`, and `_out_fct` with the function that it is given: both pass a
character on unless it is the zero. -/
def outFct {σ : Type*} (fct : Char → σ → σ) : OutFct σ := fun character _ _ s =>
  if character ≠ '\x00' then fct character s else s

/-- The variable `idx` and what the output functions changed. -/
structure Output (σ : Type*) where
  idx : ℕ
  dest : σ

variable {σ : Type*}

/-- `out(character, buffer, idx++, maxlen)`. -/
def put (out : OutFct σ) (maxlen : ℕ) (character : Char) (o : Output σ) : Output σ :=
  ⟨o.idx + 1, out character o.idx maxlen o.dest⟩

/-- A loop that makes `n` rounds of `out(' ', buffer, idx++, maxlen)`. -/
def spaces (out : OutFct σ) (maxlen : ℕ) : ℕ → Output σ → Output σ
  | 0, o => o
  | n + 1, o => spaces out maxlen n (put out maxlen ' ' o)

/-- `while (len) out(buf[--len], buffer, idx++, maxlen);`. -/
def outBack (out : OutFct σ) (maxlen : ℕ) (buf : List Char) : ℕ → Output σ → Output σ
  | 0, o => o
  | len + 1, o => outBack out maxlen buf len (put out maxlen (buf.getD len '\x00') o)

/-- `_out_rev`. -/
def outRev (out : OutFct σ) (maxlen : ℕ) (buf : List Char) (width : ℕ) (flags : Flags)
    (o : Output σ) : Output σ :=
  let o₁ := if !flags.left && !flags.zeropad then spaces out maxlen (width - buf.length) o else o
  let o₂ := outBack out maxlen buf buf.length o₁
  if flags.left then spaces out maxlen (width - (o₂.idx - o.idx)) o₂ else o₂

/-! ## Integers -/

/-- `PRINT_INTEGER_BUFFER_SIZE`. -/
def bufferSize : ℕ := 32

/-- The character of a digit. -/
def digit (uppercase : Bool) (d : ℕ) : Char :=
  if d < 10 then Char.ofNat ('0'.toNat + d)
  else Char.ofNat ((if uppercase then 'A' else 'a').toNat + d - 10)

/-- The `do … while` loop over the digits, with the number of characters that still fit. -/
def digits (base : ℕ) (uppercase : Bool) : ℕ → ℕ → List Char → List Char
  | 0, _, buf => buf
  | room + 1, value, buf =>
    if value / base ≠ 0 ∧ buf.length + 1 < bufferSize then
      digits base uppercase room (value / base) (buf ++ [digit uppercase (value % base)])
    else buf ++ [digit uppercase (value % base)]

/-- `while (len < n && len < PRINT_INTEGER_BUFFER_SIZE) buf[len++] = '0';`. -/
def padZeros (n : ℕ) (buf : List Char) : List Char :=
  buf ++ List.replicate (min n bufferSize - buf.length) '0'

/-- `if (len < PRINT_INTEGER_BUFFER_SIZE) buf[len++] = c;`. -/
def push (c : Char) (buf : List Char) : List Char :=
  if buf.length < bufferSize then buf ++ [c] else buf

/-- What stands in the array, the width and the flags, as `print_integer_finalization` changes
them. -/
structure Field where
  buf : List Char
  width : ℕ
  flags : Flags

/-- "pad with leading zeros". -/
def leadingZeros (negative : Bool) (base precision : ℕ) (f : Field) : Field :=
  let width :=
    if !f.flags.left && f.width ≠ 0 && f.flags.zeropad &&
      (negative || (f.flags.plus || f.flags.space)) then f.width - 1
    else f.width
  let buf := if !f.flags.left && f.flags.zeropad then padZeros width f.buf else f.buf
  let buf := padZeros precision buf
  if base = 8 ∧ f.buf.length < buf.length then ⟨buf, width, { f.flags with hash := false }⟩
  else ⟨buf, width, f.flags⟩

/-- "take back some padding digits": drop a character if there are more than `unpaddedLen`. -/
def takeBack (unpaddedLen : ℕ) (buf : List Char) : List Char :=
  if unpaddedLen < buf.length then buf.dropLast else buf

/-- "Let's take back some padding digits to fit in what will eventually be the format-specific
prefix". -/
def takeBackPadding (unpaddedLen base precision : ℕ) (f : Field) : List Char :=
  if !f.flags.precision && f.buf.length ≠ 0 &&
    (f.buf.length = precision || f.buf.length = f.width) then
    let buf := takeBack unpaddedLen f.buf
    if buf.length ≠ 0 && base = 16 then takeBack unpaddedLen buf else buf
  else f.buf

/-- The letter of the base. -/
def pushLetter (base : ℕ) (uppercase : Bool) (buf : List Char) : List Char :=
  if base = 16 ∧ !uppercase ∧ buf.length < bufferSize then buf ++ ['x']
  else if base = 16 ∧ uppercase ∧ buf.length < bufferSize then buf ++ ['X']
  else if base = 2 ∧ buf.length < bufferSize then buf ++ ['b']
  else buf

/-- "handle hash". -/
def prefixes (unpaddedLen base precision : ℕ) (f : Field) : Field :=
  if f.flags.hash || f.flags.pointer then
    { f with buf := push '0' (pushLetter base f.flags.uppercase
      (takeBackPadding unpaddedLen base precision f)) }
  else f

/-- The sign. -/
def sign (negative : Bool) (f : Field) : Field :=
  if f.buf.length < bufferSize then
    if negative then { f with buf := f.buf ++ ['-'] }
    else if f.flags.plus then { f with buf := f.buf ++ ['+'] }
    else if f.flags.space then { f with buf := f.buf ++ [' '] }
    else f
  else f

/-- The array at the end of `print_integer_finalization`. -/
def finalization (negative : Bool) (base precision : ℕ) (f : Field) : Field :=
  sign negative (prefixes f.buf.length base precision (leadingZeros negative base precision f))

/-- The array in front of `print_integer_finalization`. -/
def integerBuffer (value : ℕ) (base width : ℕ) (flags : Flags) : Field :=
  if value = 0 then
    if !flags.precision then ⟨['0'], width, { flags with hash := false }⟩
    else if base = 16 then ⟨[], width, { flags with hash := false }⟩
    else ⟨[], width, flags⟩
  else ⟨digits base flags.uppercase bufferSize value [], width, flags⟩

/-- `print_integer` with `print_integer_finalization`. -/
def printInteger (out : OutFct σ) (maxlen : ℕ) (value : ℕ) (negative : Bool)
    (base precision width : ℕ) (flags : Flags) (o : Output σ) : Output σ :=
  let f := finalization negative base precision (integerBuffer value base width flags)
  outRev out maxlen f.buf f.width f.flags o

/-! ## Reading a conversion -/

/-- `_is_digit`. -/
def isDigit (ch : Char) : Bool := '0' ≤ ch && ch ≤ '9'

/-- `_atoi`, with the number that was read so far. -/
def atoi (i : ℕ) : List Char → ℕ × List Char
  | [] => (i, [])
  | c :: format =>
    if isDigit c then atoi ((i * 10 + (c.toNat - '0'.toNat)) % 2 ^ 32) format else (i, c :: format)

/-- "evaluate flags". -/
def evalFlags (flags : Flags) : List Char → Flags × List Char
  | [] => (flags, [])
  | c :: format =>
    if c = '0' then evalFlags { flags with zeropad := true } format
    else if c = '-' then evalFlags { flags with left := true } format
    else if c = '+' then evalFlags { flags with plus := true } format
    else if c = ' ' then evalFlags { flags with space := true } format
    else if c = '#' then evalFlags { flags with hash := true } format
    else (flags, c :: format)

/-- What was read of a conversion, the rest of the format and the rest of the arguments. -/
structure Scan where
  flags : Flags
  width : ℕ := 0
  precision : ℕ := 0
  format : List Char
  va : List Arg

/-- "evaluate width field". -/
def evalWidth (s : Scan) : Option Scan :=
  match s.format with
  | [] => some s
  | c :: format =>
    if isDigit c then some { s with width := (atoi 0 s.format).1, format := (atoi 0 s.format).2 }
    else if c = '*' then
      (vaInt s.va).map fun (w, va) =>
        if w < 0 then
          { s with
            flags := { s.flags with left := true }
            width := w.toInt.natAbs
            format := format
            va := va }
        else { s with width := w.toInt.toNat, format := format, va := va }
    else some s

/-- "evaluate precision field", behind the dot. -/
def evalPrecisionValue (s : Scan) : Option Scan :=
  match s.format with
  | [] => some s
  | c :: format =>
    if isDigit c then
      some { s with precision := (atoi 0 s.format).1, format := (atoi 0 s.format).2 }
    else if c = '*' then
      (vaInt s.va).map fun (p, va) =>
        { s with precision := if p > 0 then p.toInt.toNat else 0, format := format, va := va }
    else some s

/-- "evaluate precision field". -/
def evalPrecision (s : Scan) : Option Scan :=
  match s.format with
  | [] => some s
  | c :: format =>
    if c = '.' then
      evalPrecisionValue { s with flags := { s.flags with precision := true }, format := format }
    else some s

/-- "evaluate length field"; `long`, `ptrdiff_t`, `intmax_t` and `size_t` have 64 bits. -/
def evalLength (s : Scan) : Scan :=
  match s.format with
  | [] => s
  | c :: format =>
    if c = 'l' then
      let s := { s with flags := { s.flags with long := true }, format := format }
      if format.head? = some 'l' then
        { s with flags := { s.flags with longLong := true }, format := format.tail }
      else s
    else if c = 'h' then
      let s := { s with flags := { s.flags with short := true }, format := format }
      if format.head? = some 'h' then
        { s with flags := { s.flags with char := true }, format := format.tail }
      else s
    else if c = 't' ∨ c = 'j' ∨ c = 'z' then
      { s with flags := { s.flags with long := true }, format := format }
    else s

/-! ## Conversions -/

/-- The value of a signed argument: all 64 bits, an `int`, or an `int` that is cut down to a
`signed char` or a `short int`. -/
def signedValue (flags : Flags) (v : UInt64) : ℤ :=
  if flags.longLong then v.toInt64.toInt
  else if flags.long then v.toInt64.toInt
  else if flags.char then v.toUInt8.toInt8.toInt
  else if flags.short then v.toUInt16.toInt16.toInt
  else v.toUInt32.toInt32.toInt

/-- The value of an unsigned argument. -/
def unsignedValue (flags : Flags) (v : UInt64) : ℕ :=
  if flags.longLong then v.toNat
  else if flags.long then v.toNat
  else if flags.char then v.toUInt8.toNat
  else if flags.short then v.toUInt16.toNat
  else v.toUInt32.toNat

/-- The base of a conversion. -/
def baseOf (spec : Char) : ℕ :=
  if spec = 'x' ∨ spec = 'X' then 16 else if spec = 'o' then 8 else if spec = 'b' then 2 else 10

/-- The flags as the integer conversions change them. -/
def integerFlags (spec : Char) (flags : Flags) : Flags :=
  let flags := if baseOf spec = 10 then { flags with hash := false } else flags
  let flags := if spec = 'X' then { flags with uppercase := true } else flags
  let flags := if spec ≠ 'i' ∧ spec ≠ 'd' then { flags with plus := false, space := false }
    else flags
  if flags.precision then { flags with zeropad := false } else flags

/-- The cases `d`, `i`, `u`, `x`, `X`, `o` and `b`.  The value that is printed is
`ABS_FOR_PRINTING(value)`. -/
def convertInteger (out : OutFct σ) (maxlen : ℕ) (spec : Char) (s : Scan) (o : Output σ) :
    Option (List Arg × Output σ) :=
  let flags := integerFlags spec s.flags
  (vaWord s.va).map fun (v, va) =>
    if spec = 'i' ∨ spec = 'd' then
      (va, printInteger out maxlen (signedValue flags v).natAbs (signedValue flags v < 0)
        (baseOf spec) s.precision s.width flags o)
    else
      (va, printInteger out maxlen (unsignedValue flags v) false (baseOf spec)
        s.precision s.width flags o)

/-- The case `c`. -/
def convertChar (out : OutFct σ) (maxlen : ℕ) (s : Scan)
    (o : Output σ) : Option (List Arg × Output σ) :=
  (vaWord s.va).map fun (v, va) =>
    let o := if !s.flags.left then spaces out maxlen (s.width - 1) o else o
    let o := put out maxlen (Char.ofNat v.toUInt8.toNat) o
    (va, if s.flags.left then spaces out maxlen (s.width - 1) o else o)

/-- `_strnlen_s`: a character is read before it is counted. -/
def strnlen (maxsize : ℕ) : List Char → Option ℕ
  | [] => none
  | c :: str => if c = '\x00' ∨ maxsize = 0 then some 0 else (strnlen (maxsize - 1) str).map (· + 1)

/-- "string output": `limit` is the precision, if one was given. -/
def outString (out : OutFct σ) (maxlen : ℕ) (limit : Option ℕ) : List Char → Output σ →
    Option (Output σ)
  | [], _ => none
  | c :: p, o =>
    if c ≠ '\x00' ∧ limit ≠ some 0 then
      outString out maxlen (limit.map (· - 1)) p (put out maxlen c o)
    else some o

/-- The case `s`. -/
def convertString (out : OutFct σ) (maxlen : ℕ) (s : Scan)
    (o : Output σ) : Option (List Arg × Output σ) :=
  (vaStr s.va).bind fun (p, va) =>
    match p with
    | none => some (va, outRev out maxlen [')', 'l', 'l', 'u', 'n', '('] s.width s.flags o)
    | some p =>
      (strnlen (if s.precision ≠ 0 then s.precision else 2 ^ 64 - 1) p).bind fun len =>
        let l := if s.flags.precision then min (len % 2 ^ 32) s.precision else len % 2 ^ 32
        let o := if !s.flags.left then spaces out maxlen (s.width - l) o else o
        (outString out maxlen (if s.flags.precision then some s.precision else none)
          p o).map fun o => (va, if s.flags.left then spaces out maxlen (s.width - l) o else o)

/-- The case `p`. -/
def convertPointer (out : OutFct σ) (maxlen : ℕ) (s : Scan)
    (o : Output σ) : Option (List Arg × Output σ) :=
  let width := 8 * 2 + 2
  let flags := { s.flags with zeropad := true, pointer := true }
  (vaWord s.va).map fun (value, va) =>
    if value = 0 then (va, outRev out maxlen [')', 'l', 'i', 'n', '('] width flags o)
    else (va, printInteger out maxlen value.toNat false 16 s.precision width flags o)

/-- "evaluate specifier". -/
def convert (out : OutFct σ) (maxlen : ℕ) (s : Scan) (o : Output σ) :
    Option (List Char × List Arg × Output σ) :=
  match s.format with
  | [] => none
  | spec :: format =>
    if spec = 'd' ∨ spec = 'i' ∨ spec = 'u' ∨ spec = 'x' ∨ spec = 'X' ∨ spec = 'o' ∨ spec = 'b' then
      (convertInteger out maxlen spec s o).map (format, ·)
    else if spec = 'c' then (convertChar out maxlen s o).map (format, ·)
    else if spec = 's' then (convertString out maxlen s o).map (format, ·)
    else if spec = 'p' then (convertPointer out maxlen s o).map (format, ·)
    else if spec = '%' then some (format, s.va, put out maxlen '%' o)
    else some (format, s.va, put out maxlen spec o)

/-- What is read behind the percent sign. -/
def scan (format : List Char) (va : List Arg) : Option Scan :=
  let (flags, format) := evalFlags {} format
  ((evalWidth { flags := flags, format := format, va := va }).bind evalPrecision).map evalLength

/-- The loop over the format; the fuel bounds its rounds. -/
def loop (out : OutFct σ) (maxlen : ℕ) :
    ℕ → List Char → List Arg → Output σ → Option (Output σ × List Arg)
  | _, [], va, o => some (o, va)
  | 0, _ :: _, _, _ => none
  | fuel + 1, c :: format, va, o =>
    if c ≠ '%' then loop out maxlen fuel format va (put out maxlen c o)
    else
      (scan format va).bind fun s =>
        (convert out maxlen s o).bind fun (format, va, o) => loop out maxlen fuel format va o

/-- `_vsnprintf`, with a buffer: the return value, the destination, and the arguments that are
left. -/
def vsnprintf (out : OutFct σ) (maxlen : ℕ) (format : List Char) (va : List Arg) (s : σ) :
    Option (Int32 × σ × List Arg) :=
  (loop out maxlen format.length format va ⟨0, s⟩).map fun (o, va) =>
    (Int32.ofNat o.idx,
      out '\x00' (if o.idx < maxlen then o.idx else Word64.sub maxlen 1) maxlen o.dest, va)

/-! ## The family -/

/-- `(size_t)-1`. -/
def unbounded : ℕ := 2 ^ 64 - 1

/-- `snprintf_` and `vsnprintf_`; without a buffer nothing is stored. -/
def snprintf (buffer : Option (ℕ → Char)) (count : ℕ) (format : List Char) (va : List Arg) :
    Option (Int32 × Option (ℕ → Char)) :=
  match buffer with
  | some buffer => (vsnprintf outBuffer count format va buffer).map fun (ret, buffer, _) =>
    (ret, some buffer)
  | none => (vsnprintf outNull count format va ()).map fun (ret, _) => (ret, none)

/-- `sprintf_` and `vsprintf_`. -/
def sprintf (buffer : ℕ → Char) (format : List Char)
    (va : List Arg) : Option (Int32 × (ℕ → Char)) :=
  (vsnprintf outBuffer unbounded format va buffer).map fun (ret, buffer, _) => (ret, buffer)

/-- `printf_` with `_putchar`, and `vfctprintf` with the function that it is given. -/
def fctprintf (fct : Char → σ → σ) (format : List Char) (va : List Arg) (s : σ) :
    Option (Int32 × σ × List Arg) :=
  vsnprintf (outFct fct) unbounded format va s

example : (snprintf (some fun _ => '?') 6 "[%-4d|%#x]".toList [.word (-70), .word 255]).map
    (fun r => (r.1, r.2.map fun buffer => (List.range 8).map buffer)) =
    some (11, some ['[', '-', '7', '0', ' ', '\x00', '?', '?']) := by
  decide +kernel

end TurbOS.Printf
