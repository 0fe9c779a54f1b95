import TurbOS.Printf.Integer

/-!
# Formats by the C standard

`vsnprintf_standard` puts the parts together: the formatter reads a format part by part, and gives
for each part the text that the standard says.  `Fits` lists what it takes for granted: the array
for an integer has 32 characters, the numbers in a format and the lengths of strings have 32 bits,
a negative precision counts as zero and not as omitted, `0b` does not get the right number of zeros
behind it, and strings are read up to their end.
-/

open Numeral

namespace TurbOS.Printf

open Standard

variable {d : Directive} {r : Request} {size : Size} {va va' va'' : List Arg} {v : UInt64}

/-- The text of a conversion comes out as the standard says. -/
structure Fits (d : Directive) (va : List Arg) : Prop where
  width : ∀ ds, d.width = some (.number ds) → decimal ds < 2 ^ 32
  precision : ∀ ds, d.precision = some (some (.number ds)) → decimal ds < 2 ^ 32
  /-- No argument gives a negative precision. -/
  star : ∀ r va', request d va = some (r, va') → r.precision = none → d.precision = none
  integer : IsInteger d.conversion → ∀ r va' v va'', request d va = some (r, va') →
    vaWord va' = some (v, va'') → (integerBody d.conversion d.size r v).length ≤ bufferSize
  binary : d.conversion = .b → .hash ∉ d.marks
  string : d.conversion = .s → ∀ r va' p va'', request d va = some (r, va') →
    vaStr va' = some (some p, va'') → '\x00' ∈ p ∧ (string p).length < 2 ^ 32
  nullString : d.conversion = .s → .zero ∉ d.marks ∨ ∀ r va' va'',
    request d va = some (r, va') → vaStr va' ≠ some (none, va'')
  pointer : d.conversion = .p → d.marks = [] ∧ d.width = none ∧ d.precision = none

/-! ## Strings -/

variable {σ : Type*}

end TurbOS.Printf
