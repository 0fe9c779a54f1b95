import TurbOS.Printf.Format

/-!
# The text of a format by the C standard

The C standard says what a conversion prints in terms of the number, the character or the string
that is printed, and this file follows it.  An integer has figures (at least as many as the
precision asks for), something that leads them (a sign, or `0x`) and something that fills the width
(spaces on either side, or zeros between the two).  A negative width from an argument means the
flag `-`, and a negative precision from an argument counts as omitted.

Three conversions are not taken from the standard: `%b`, which it does not have, prints an integer
to the base two, `%p`, which it leaves open, `0x` and the sixteen figures of the pointer, and
`%s` the letters `(null)` for a null pointer.
-/

open Numeral

namespace TurbOS.Printf.Standard

/-! ## What a conversion asks for -/

/-- The flags, the width and the precision. -/
structure Request where
  left : Bool
  plus : Bool
  space : Bool
  hash : Bool
  zeros : Bool
  width : ℕ
  precision : Option ℕ

/-- The value of a number in a format. -/
def decimal (ds : Digits) : ℕ := read (fun c => c.toNat - '0'.toNat) 10 ds.text

/-- The width, and whether it comes with the flag `-`. -/
def width : Option Count → List Arg → Option ((Bool × ℕ) × List Arg)
  | none, va => some ((false, 0), va)
  | some (.number ds), va => some ((false, decimal ds), va)
  | some .star, va => (vaInt va).map fun (w, va) => ((decide (w.toInt < 0), w.toInt.natAbs), va)

/-- The precision. -/
def precision : Option (Option Count) → List Arg → Option (Option ℕ × List Arg)
  | none, va => some (none, va)
  | some none, va => some (some 0, va)
  | some (some (.number ds)), va => some (some (decimal ds), va)
  | some (some .star), va =>
    (vaInt va).map fun (p, va) => (if p.toInt < 0 then none else some p.toInt.toNat, va)

/-- What a conversion asks for, with the arguments that give a width and a precision. -/
def request (d : Directive) (va : List Arg) : Option (Request × List Arg) :=
  (width d.width va).bind fun (w, va) =>
    (precision d.precision va).map fun (prec, va) =>
      ({
        left := decide (.minus ∈ d.marks) || w.1
        plus := decide (.plus ∈ d.marks)
        space := decide (.space ∈ d.marks)
        hash := decide (.hash ∈ d.marks)
        zeros := decide (.zero ∈ d.marks)
        width := w.2
        precision := prec }, va)

/-! ## Integers -/

/-- The character of a figure. -/
def figure (uppercase : Bool) (d : ℕ) : Char :=
  (if uppercase then "0123456789ABCDEF" else "0123456789abcdef").toList.getD d '0'

/-- The figures: the numeral, with zeros in front if a precision or the base eight asks for
them. -/
def figures (figure : ℕ → Char) (hash : Bool) (base value : ℕ) (precision : Option ℕ) : List Char :=
  let ds := numeral figure base value
  let ds := List.replicate (precision.getD 1 - ds.length) '0' ++ ds
  if hash ∧ base = 8 ∧ ds.head? ≠ some '0' then '0' :: ds else ds

/-- The sign. -/
def signText (negative plus space : Bool) : List Char :=
  if negative then ['-'] else if plus then ['+'] else if space then [' '] else []

/-- What leads a numeral to the base sixteen. -/
def baseText (uppercase hash : Bool) (base value : ℕ) : List Char :=
  if hash ∧ base = 16 ∧ value ≠ 0 then ['0', if uppercase then 'X' else 'x'] else []

/-- The text without spaces: zeros fill the width if they are asked for. -/
def body (zeros : Bool) (width : ℕ) (lead figures : List Char) : List Char :=
  lead ++
    (List.replicate (if zeros then width - (lead.length + figures.length) else 0) '0' ++ figures)

/-- Whether a conversion is for signed integers. -/
def Signed (conv : Conversion) : Prop := conv = .d ∨ conv = .i

instance (conv : Conversion) : Decidable (Signed conv) := inferInstanceAs (Decidable (_ ∨ _))

/-- Whether a conversion is for integers. -/
def IsInteger (conv : Conversion) : Prop :=
  Signed conv ∨ conv = .u ∨ conv = .x ∨ conv = .upperX ∨ conv = .o ∨ conv = .b

/-- The base of a conversion. -/
def base (conv : Conversion) : ℕ :=
  match conv with
  | .x | .upperX => 16
  | .o => 8
  | .b => 2
  | _ => 10

/-- How many bits the types have that the sizes name. -/
def bits : Size → ℕ
  | .hh => 8
  | .h => 16
  | .none => 32
  | .l | .ll | .t | .j | .z => 64

/-- The number that is printed: the argument as a value of the type that the size names. -/
def number (conv : Conversion) (size : Size) (v : UInt64) : ℤ :=
  if Signed conv then (v.toNat : ℤ).bmod (2 ^ bits size) else (v.toNat : ℤ) % 2 ^ bits size

/-- The text of an integer without spaces. -/
def integerBody (conv : Conversion) (size : Size) (r : Request) (v : UInt64) : List Char :=
  let n := number conv size v
  let upper := decide (conv = .upperX)
  body (!r.left && r.zeros && r.precision.isNone) r.width
    (signText (decide (n < 0)) (decide (Signed conv) && r.plus) (decide (Signed conv) && r.space) ++
      baseText upper r.hash (base conv) n.natAbs)
    (figures (figure upper) r.hash (base conv) n.natAbs r.precision)

/-- A text in a field: spaces fill the width. -/
def inField (r : Request) (text : List Char) : List Char :=
  justified r.left (r.width - text.length) text

/-! ## Characters, strings and pointers -/

/-- A string: what stands in front of the terminating zero. -/
def string (p : List Char) : List Char := p.takeWhile (· ≠ '\x00')

/-- At most as many characters as the precision says. -/
def cut : Option ℕ → List Char → List Char
  | none, text => text
  | some n, text => text.take n

/-- The text of a pointer. -/
def pointer (v : UInt64) : List Char :=
  if v = 0 then ['(', 'n', 'i', 'l', ')']
  else
    let ds := numeral (figure false) 16 v.toNat
    '0' :: 'x' :: (List.replicate (16 - ds.length) '0' ++ ds)

/-! ## Formats -/

/-- The text of a conversion, and the arguments that are left. -/
def text (d : Directive) (va : List Arg) : Option (List Char × List Arg) :=
  (request d va).bind fun (r, va) =>
    match d.conversion with
    | .c => (vaWord va).map fun (v, va) => (inField r [Char.ofNat (v.toNat % 256)], va)
    | .s => (vaStr va).map fun (p, va) =>
        match p with
        | none => (inField r ['(', 'n', 'u', 'l', 'l', ')'], va)
        | some p => (inField r (cut r.precision (string p)), va)
    | .p => (vaWord va).map fun (v, va) => (pointer v, va)
    | .percent => some (['%'], va)
    | .d | .i | .u | .x | .upperX | .o | .b =>
      (vaWord va).map fun (v, va) => (inField r (integerBody d.conversion d.size r v), va)

/-- The text of a format, and the arguments that are left. -/
def meaning : List Item → List Arg → Option (List Char × List Arg)
  | [], va => some ([], va)
  | .char c _ :: items, va => (meaning items va).map fun (rest, va) => (c :: rest, va)
  | .directive d :: items, va =>
    (text d va).bind fun (front, va) =>
      (meaning items va).map fun (rest, va) => (front ++ rest, va)

/-! ## What the formatter holds of a request -/

/-- What the formatter has read in front of the letter. -/
def Request.scan (r : Request) (size : Size) (va : List Arg) : Scan where
  flags := size.set {
    zeropad := r.zeros
    left := r.left
    plus := r.plus
    space := r.space
    hash := r.hash
    precision := r.precision.isSome }
  width := r.width
  precision := r.precision.getD 0
  format := []
  va := va

variable {d : Directive} {r : Request} {va va' : List Arg}

end TurbOS.Printf.Standard
