import TurbOS.Printf.Integer

/-!
# Reading back what was printed

A conversion without flags, width and precision prints the digits of a number, so whoever reads them
gets the number back.  The array has 32 places.  They are enough for every base but two, where only
the lower 32 bits of a number are printed.
-/

open Numeral

namespace TurbOS.Printf

open Standard

/-- The number that a digit stands for. -/
def digitValue (c : Char) : ℕ :=
  if c.toNat < 'A'.toNat then c.toNat - '0'.toNat
  else if c.toNat < 'a'.toNat then c.toNat - 'A'.toNat + 10
  else c.toNat - 'a'.toNat + 10

/-- Whether a conversion is for unsigned integers. -/
def Unsigned (conv : Conversion) : Prop := IsInteger conv ∧ ¬ Signed conv

/-- A conversion with a size and nothing else. -/
def plain (size : Size) (conv : Conversion) : Directive := { size := size, conversion := conv }

variable {base value : ℕ} {flags : Flags} {buf : List Char}

lemma digitValue_digit (uppercase : Bool) {d : ℕ} (h : d < 16) :
    digitValue (digit uppercase d) = d := by
  cases uppercase <;> interval_cases d <;> rfl

/-- Nothing is added to the digits. -/
lemma finalization_plain_eq (hz : flags.zeropad = false) (hh : flags.hash = false)
    (hp : flags.pointer = false) (hplus : flags.plus = false) (hspace : flags.space = false) :
    finalization false base 0 ⟨buf, 0, flags⟩ = ⟨buf, 0, flags⟩ := by
  simp [finalization, leadingZeros, padZeros, prefixes, sign, hz, hh, hp, hplus, hspace]

/-- The text of a number: the figure of zero, or as many of the last digits as there is room for. -/
lemma integerText_digits (hb : 1 < base) (hz : flags.zeropad = false) (hh : flags.hash = false)
    (hp : flags.pointer = false) (hplus : flags.plus = false) (hspace : flags.space = false)
    (hprec : flags.precision = false) :
    integerText value false base 0 0 flags =
      if value = 0 then ['0']
      else (((Nat.digits base value).take bufferSize).map (digit flags.uppercase)).reverse := by
  rw [integerText, integerBuffer]
  rcases Nat.eq_zero_or_pos value with rfl | hv
  · simp [finalization_plain_eq, hz, hp, hplus, hspace, hprec, revText]
  · have hdigits := @digits_take base value flags.uppercase hb 31 [] hv rfl
    rw [List.nil_append] at hdigits
    rw [if_neg (by omega), if_neg (by omega), bufferSize, hdigits,
      finalization_plain_eq hz hh hp hplus hspace]
    simp [revText, hz]

/-- The digits read back as the number, cut down to 32 places. -/
lemma read_integerText (hb : 1 < base) (hlt : base ≤ 16) (hz : flags.zeropad = false)
    (hh : flags.hash = false)
    (hp : flags.pointer = false) (hplus : flags.plus = false) (hspace : flags.space = false)
    (hprec : flags.precision = false) :
    read digitValue base (integerText value false base 0 0 flags) = value % base ^ bufferSize := by
  rw [integerText_digits hb hz hh hp hplus hspace hprec]
  split
  · rename_i hv
    rw [hv, Nat.zero_mod]
    exact Nat.zero_mul _
  · exact read_take hb (fun d hd => digitValue_digit _ (by omega)) value bufferSize

lemma unsignedValue_lt (flags : Flags) (v : UInt64) : unsignedValue flags v < 2 ^ 64 := by
  rw [unsignedValue]
  have h8 := v.toUInt8.toNat_lt
  have h16 := v.toUInt16.toNat_lt
  have h32 := v.toUInt32.toNat_lt
  have h64 := v.toNat_lt
  repeat' split
  all_goals omega

/-- **What is printed reads back as the number**, for every size and every base but two; to the base
two it reads back as the lower 32 bits. -/
theorem plain_reads_back {conv : Conversion} (hconv : Unsigned conv) (size : Size) (v : UInt64)
    (va : List Arg) :
    ∃ text, (Item.directive (plain size conv)).meaning (.word v :: va) = some (text, va) ∧
      read digitValue (Standard.base conv) text =
        if conv = .b then unsignedValue (size.set {}) v % 2 ^ 32
        else unsignedValue (size.set {}) v := by
  obtain ⟨hint, hunsigned⟩ := hconv
  set s : Scan := { flags := size.set {}, format := [], va := .word v :: va } with hs
  have hsize : (size.set {}).uppercase = false ∧ (size.set {}).pointer = false ∧
    (size.set {}).zeropad = false ∧
      (size.set {}).hash = false ∧ (size.set {}).plus = false ∧ (size.set {}).space = false ∧
      (size.set {}).precision = false := by
    cases size <;> exact ⟨rfl, rfl, rfl, rfl, rfl, rfl, rfl⟩
  obtain ⟨hu, hp, hz, hh, hplus, hspace, hprec⟩ := hsize
  have hnumber : printed conv s v = unsignedValue (size.set {}) v := if_neg hunsigned
  have htext := conversionText_integer hint (show vaWord s.va = some (v, va) from rfl) hu
  rw [hnumber, Int.natAbs_natCast, decide_eq_false (by omega)] at htext
  refine ⟨_, htext, ?_⟩
  have hflags := @integerFlags_eq (size.set {}) conv hint hu
  have hbase : 1 < Standard.base conv ∧ Standard.base conv ≤ 16 := by
    cases conv <;> decide
  rw [hs, read_integerText hbase.1 hbase.2]
  · have hlt := unsignedValue_lt (size.set {}) v
    split
    · rename_i hb
      rw [hb]
      rfl
    · rename_i hb
      refine Nat.mod_eq_of_lt (hlt.trans_le ?_)
      have hbase8 : 8 ≤ Standard.base conv := by
        cases conv <;> simp_all [Standard.base]
      calc 2 ^ 64 ≤ 8 ^ bufferSize := by decide
        _ ≤ Standard.base conv ^ bufferSize := Nat.pow_le_pow_left hbase8 _
  all_goals rw [hflags]
  · rw [hz, hprec]
    rfl
  · rw [hh]
    rfl
  · exact hp
  · rw [hplus, Bool.and_false]
  · rw [hspace, Bool.and_false]
  · exact hprec

/-- A bit above the lower 32 is lost to the base two. -/
theorem plain_reads_back_binary : ∃ text,
    (Item.directive (plain .l .b)).meaning [.word 4294967301] = some (text, []) ∧
      read digitValue 2 text = 5 := by
  have hconv : Unsigned .b := ⟨by simp [IsInteger], by decide⟩
  obtain ⟨text, htext, hread⟩ := plain_reads_back hconv .l 4294967301 []
  exact ⟨text, htext, hread.trans (by decide)⟩

end TurbOS.Printf
