import TurbOS.Lib.Decimal
import TurbOS.Lib.Fuel
import TurbOS.Str.Buffer

/-!
# Integers as text

`int2string` and `printi` find the digits of a number in the same way: they write them into an array
`temp` of ten characters, the last one first, and go back over the array.  The smallest `int` has no
negative, so its last digit is written by hand and the rest is divided before it is negated.

The arrays of a function are not initialised.  An index outside an array is a fault.
-/

open Decimal Fuel

namespace TurbOS.Str

/-- `buf[i] = ch`. -/
def put (buf : List Char) (i : ℕ) (ch : Char) : Option (List Char) :=
  if i < buf.length then some (buf.set i ch) else none

/-- The variables of the loop over the digits. -/
structure Digits where
  temp : List Char
  i : ℕ
  num : Int32
deriving DecidableEq, Repr

/-- `while(num > 0){ temp[i++] = num % 10 + '0'; num /= 10; }`. -/
def digitBody (d : Digits) : Option (Digits ⊕ List Char × ℕ) :=
  if d.num > 0 then
    (put d.temp d.i (Char.ofNat (d.num % 10 + 48).toInt.toNat)).map fun temp =>
      .inl ⟨temp, d.i + 1, d.num / 10⟩
  else some (.inr (d.temp, d.i))

/-- The array `temp` and the number of the digits; `num` is the number after the line
`num = -num`. -/
def writeDigits (fuel : ℕ) (temp : List Char) (num : Int32) : Option (List Char × ℕ) :=
  if num > 0 then loop digitBody fuel ⟨temp, 0, num⟩
  else (put temp 0 '8').bind fun temp => loop digitBody fuel ⟨temp, 1, -(num / 10)⟩

/-- `while(--i >= 0){ out[g] = temp[i]; g++; }`. -/
def copyBack (temp : List Char) : ℕ → List Char → ℕ → Option (List Char)
  | 0, out, _ => some out
  | i + 1, out, g =>
    temp[i]?.bind fun ch => (put out g ch).bind fun out => copyBack temp i out (g + 1)

/-- What stands in the arrays of `int2string` when it is called. -/
structure Locals where
  temp : List Char
  out : List Char
  temp_length : temp.length = 10
  out_length : out.length = 10

/-- `strdup`; `ok` says whether the allocation succeeds. -/
def strdup (ok : Bool) (src : List Char) : Option (Option (List Char)) :=
  (text src).map fun s => if ok then some (s ++ ['\x00']) else none

/-- `int2string`. -/
def int2string (fuel : ℕ) (ok : Bool) (l : Locals) (num : Int32) : Option (Option (List Char)) :=
  if num ≠ 0 then
    (writeDigits fuel l.temp (if num < 0 then -num else num)).bind fun (temp, i) =>
      (if num < 0 then (put l.out 0 '-').bind fun out => copyBack temp i out 1
        else copyBack temp i l.out 0).bind fun out => strdup ok out
  else some none

/-- The value of a `char`, which is signed. -/
def charValue (ch : Char) : Int32 := (UInt8.ofNat ch.toNat).toInt8.toInt32

/-- The loop of `string2int`. -/
def string2intFrom (res : Int32) : List Char → Option Int32
  | [] => none
  | ch :: str =>
    if ch = '\x00' then some res else string2intFrom (res * 10 + charValue ch - 48) str

/-- `string2int`. -/
def string2int (str : List Char) : Option Int32 := string2intFrom 0 str

/-! ## Machine integers -/

lemma toInt_range (num : Int32) : -2 ^ 31 ≤ num.toInt ∧ num.toInt < 2 ^ 31 :=
  ⟨num.le_toInt, num.toInt_lt⟩

lemma pos_iff {num : Int32} : num > 0 ↔ 0 < num.toInt := Int32.lt_iff_toInt_lt

lemma neg_iff {num : Int32} : num < 0 ↔ num.toInt < 0 := Int32.lt_iff_toInt_lt

lemma ne_zero_iff {num : Int32} : num ≠ 0 ↔ num.toInt ≠ 0 := by
  rw [Ne, ← Int32.toInt_inj]
  rfl

lemma toInt_div_ten (num : Int32) : (num / 10).toInt = num.toInt.tdiv 10 :=
  Int32.toInt_div_of_ne_right num 10 (by decide)

/-- The digit that is written for a positive number. -/
lemma digit_eq {num : Int32} (h : 0 < num.toInt) :
    Char.ofNat (num % 10 + 48).toInt.toNat = Nat.digitChar (num.toInt.toNat % 10) := by
  have hmod : (num % 10).toInt = num.toInt % 10 := by
    rw [Int32.toInt_mod, Int.tmod_eq_emod_of_nonneg h.le]
    rfl
  have hsum : (num % 10 + 48).toInt = num.toInt % 10 + 48 := by
    rw [Int32.toInt_add, hmod]
    have h48 : (48 : Int32).toInt = 48 := rfl
    rw [h48, Int.bmod_eq_of_le (by omega) (by omega)]
  have hd : num.toInt.toNat % 10 < 10 := Nat.mod_lt _ (by decide)
  have hnat : (num % 10 + 48).toInt.toNat = num.toInt.toNat % 10 + 48 := by
    rw [hsum]
    omega
  rw [hnat]
  generalize num.toInt.toNat % 10 = d at hd
  interval_cases d <;> rfl

/-! ## The digits -/

variable {temp out : List Char} {fuel g i : ℕ} {num : Int32}

lemma put_of_lt {ch : Char} (h : i < temp.length) : put temp i ch = some (temp.set i ch) := if_pos h

/-- The loop writes the digits behind what stands in front of `i`. -/
lemma digitLoop_eq {n : ℕ} (hn : num.toInt = n) (hroom : i + (reversed n).length ≤ temp.length)
    (hfuel : (reversed n).length < fuel) :
    loop digitBody fuel ⟨temp, i, num⟩ =
      some (temp.take i ++ reversed n ++ temp.drop (i + (reversed n).length),
        i + (reversed n).length) := by
  induction n using Nat.strong_induction_on generalizing temp i num fuel with
  | _ n ih =>
    obtain ⟨fuel, rfl⟩ : ∃ f, fuel = f + 1 := ⟨fuel - 1, by omega⟩
    rw [loop_succ, digitBody]
    dsimp only
    by_cases h : 0 < n
    · have hpos : 0 < num.toInt := by omega
      have hdiv : (num / 10).toInt = (n / 10 : ℕ) := by
        rw [toInt_div_ten, hn]
        exact Int.tdiv_eq_ediv_of_nonneg (by omega)
      rw [reversed_of_pos h, List.length_cons] at hroom hfuel ⊢
      rw [if_pos (pos_iff.mpr hpos), put_of_lt (by omega), Option.map_some, Option.bind_some,
        Sum.elim_inl, digit_eq hpos, hn, Int.toNat_natCast,
        ih (n / 10) (by omega) hdiv (by rw [List.length_set]; omega) (by omega),
        List.take_add_one, List.take_set_of_le (le_refl i), List.getElem?_set_self (by omega),
        List.drop_set_of_lt (by omega)]
      simp [Nat.add_assoc, Nat.add_comm 1]
    · obtain rfl : n = 0 := by omega
      rw [if_neg (by rw [pos_iff]; omega), reversed_zero]
      simp

/-- After the loops `temp` begins with the digits, the last one first. -/
lemma writeDigits_eq (hlen : temp.length = 10) (hfuel : 10 < fuel) (hne : num ≠ 0) :
    writeDigits fuel temp (if num < 0 then -num else num) =
      some (reversed num.toInt.natAbs ++ temp.drop (reversed num.toInt.natAbs).length,
        (reversed num.toInt.natAbs).length) := by
  have hrange := toInt_range num
  have hne' := ne_zero_iff.mp hne
  have hshort : ∀ n : ℕ, 0 < n → n < 10 ^ 10 → (reversed n).length ≤ 10 :=
    fun n hn h => (length_reversed_le_iff hn (by decide)).mpr h
  have hlen10 := hshort num.toInt.natAbs (by omega) (by omega)
  rw [writeDigits]
  by_cases hmin : num.toInt = -2 ^ 31
  · -- the number stays negative, and its last digit is written by hand
    have hnum : num = Int32.minValue := Int32.toInt_inj.mp hmin
    have hhand : reversed 2147483648 = '8' :: reversed 214748364 := by
      rw [reversed_of_pos (by decide)]
      rfl
    have hrest : (reversed 214748364).length ≤ 9 :=
      (length_reversed_le_iff (by decide) (by decide)).mpr (by decide)
    have habs : num.toInt.natAbs = 2147483648 := by omega
    have hkept : (if num < 0 then -num else num) = Int32.minValue := by
      rw [hnum]
      decide
    rw [habs, hhand, hkept, if_neg (by decide), put_of_lt (by omega), Option.bind_some,
      digitLoop_eq (n := 214748364) (by decide) (by rw [List.length_set]; omega) (by omega),
      List.length_cons, Nat.add_comm 1, List.drop_set_of_lt (by omega), List.take_one]
    cases temp with
    | nil => simp at hlen
    | cons c temp => simp
  · have hpos : (if num < 0 then -num else num).toInt = num.toInt.natAbs := by
      split
      · rename_i hneg
        have hneg := neg_iff.mp hneg
        rw [Int32.toInt_neg, Int.bmod_eq_of_le (by omega) (by omega)]
        omega
      · rename_i hneg
        rw [neg_iff] at hneg
        omega
    rw [if_pos (by rw [pos_iff]; omega), digitLoop_eq hpos (by omega) (by omega)]
    simp

/-- The second loop writes the first `i` characters of `temp` backwards. -/
lemma copyBack_eq (hi : i ≤ temp.length) (hg : g + i ≤ out.length) :
    copyBack temp i out g = some (out.take g ++ (temp.take i).reverse ++ out.drop (g + i)) := by
  induction i generalizing out g with
  | zero => simp [copyBack]
  | succ i ih =>
    obtain ⟨ch, hch⟩ : ∃ ch, temp[i]? = some ch := ⟨_, List.getElem?_eq_getElem (by omega)⟩
    rw [copyBack, hch, Option.bind_some, put_of_lt (by omega), Option.bind_some,
      ih (by omega) (by rw [List.length_set]; omega), List.take_add_one,
      List.take_set_of_le (le_refl g), List.getElem?_set_self (by omega),
      List.drop_set_of_lt (by omega), List.take_add_one, hch]
    simp [Nat.add_assoc, Nat.add_comm 1]

/-- Without room for all of them it writes behind the array. -/
lemma copyBack_none (hi : i ≤ temp.length) (hg : g ≤ out.length) (h : out.length < g + i) :
    copyBack temp i out g = none := by
  induction i generalizing out g with
  | zero => omega
  | succ i ih =>
    obtain ⟨ch, hch⟩ : ∃ ch, temp[i]? = some ch := ⟨_, List.getElem?_eq_getElem (by omega)⟩
    rw [copyBack, hch, Option.bind_some]
    by_cases hlt : g < out.length
    · rw [put_of_lt hlt, Option.bind_some]
      exact ih (by omega) (by rw [List.length_set]; omega) (by rw [List.length_set]; omega)
    · rw [put, if_neg hlt, Option.bind_none]

/-! ## `int2string` -/

/-- `int2string` writes the decimal text to the front of `out`, and no terminator behind it. -/
lemma int2string_eq {l : Locals} {ok : Bool} (hfuel : 10 < fuel) (hne : num ≠ 0) :
    int2string fuel ok l num =
      if (decimal num.toInt).length ≤ 10 then
        strdup ok (decimal num.toInt ++ l.out.drop (decimal num.toInt).length)
      else none := by
  have hne' := ne_zero_iff.mp hne
  have hpos : 0 < num.toInt.natAbs := by omega
  have hrange := toInt_range num
  have hshort : (reversed num.toInt.natAbs).length ≤ 10 :=
    (length_reversed_le_iff hpos (by decide)).mpr (by omega)
  have hout := l.out_length
  rw [int2string, if_pos hne, writeDigits_eq l.temp_length hfuel hne, Option.bind_some]
  dsimp only
  have hroom : (reversed num.toInt.natAbs).length ≤ (reversed num.toInt.natAbs ++
      l.temp.drop (reversed num.toInt.natAbs).length).length := by
    rw [List.length_append]
    omega
  rw [decimal, toDigits_eq_reverse hpos]
  by_cases hneg : num.toInt < 0
  · rw [if_pos (neg_iff.mpr hneg), if_pos hneg, put_of_lt (by omega), Option.bind_some,
      List.length_cons, List.length_reverse]
    split
    · rw [copyBack_eq hroom (by rw [List.length_set]; omega), Option.bind_some,
        List.take_left' rfl, List.drop_set_of_lt (by omega), List.take_one]
      cases hcons : l.out with
      | nil => simp [hcons] at hout
      | cons c rest => simp [Nat.add_comm 1]
    · rw [copyBack_none hroom (by rw [List.length_set]; omega) (by rw [List.length_set]; omega),
        Option.bind_none]
  · rw [if_neg (by rwa [neg_iff]), if_neg hneg, List.length_reverse, if_pos hshort,
      copyBack_eq hroom (by omega), Option.bind_some, List.take_left' rfl]
    simp

/-! ## `string2int` -/

/-- The loop computes the value of the characters, modulo `2 ^ 32`. -/
lemma string2intFrom_eq {s rest : List Char} {res : ℤ} (h : ∀ c ∈ s, c ≠ '\x00' ∧ c.toNat < 128) :
    string2intFrom (Int32.ofInt res) (s ++ '\x00' :: rest) = some (Int32.ofInt (value res s)) := by
  induction s generalizing res with
  | nil => rfl
  | cons ch s ih =>
    obtain ⟨⟨hne, hascii⟩, hs⟩ := List.forall_mem_cons.mp h
    have hchar : charValue ch = Int32.ofInt ch.toNat := by
      rw [charValue]
      generalize ch.toNat = n at hascii
      interval_cases n <;> rfl
    have hstep : Int32.ofInt res * 10 + charValue ch - 48 = Int32.ofInt
        (res * 10 + (ch.toNat - 48)) := by
      have h10 : (10 : Int32) = Int32.ofInt 10 := rfl
      have h48 : (48 : Int32) = Int32.ofInt 48 := rfl
      rw [hchar, h10, h48, ← Int32.ofInt_mul, ← Int32.ofInt_add, ← Int32.ofInt_sub]
      congr 1
      ring
    rw [List.cons_append, string2intFrom, if_neg hne, hstep, ih hs, value, value, List.foldl_cons]

lemma ascii_of_mem_decimal {n : ℤ} {c : Char} (h : c ∈ decimal n) : c ≠ '\x00' ∧ c.toNat < 128 := by
  refine ⟨fun hzero => zero_notMem_decimal n (hzero ▸ h), ?_⟩
  have hdigit : ∀ c ∈ Nat.toDigits 10 n.natAbs, c.toNat < 128 := by
    intro c hc
    have hd := isDigit_of_mem hc
    simp only [Char.isDigit, Bool.and_eq_true, decide_eq_true_eq] at hd
    have hle : c.toNat ≤ '9'.toNat := hd.2
    exact lt_of_le_of_lt hle (by decide)
  rw [decimal] at h
  split at h
  · rcases List.mem_cons.mp h with rfl | hc
    · decide
    · exact hdigit c hc
  · exact hdigit c h

/-- Reading a decimal text counts the minus sign as the digit `-3`. -/
lemma string2int_decimal (n : ℤ) (rest : List Char) (hne : n ≠ 0) :
    string2int (decimal n ++ '\x00' :: rest) = some (Int32.ofInt
      (if n < 0 then -3 * 10 ^ (Nat.toDigits 10 n.natAbs).length + n.natAbs else n)) := by
  have hpos : 0 < n.natAbs := by omega
  have hvalue : value 0 (decimal n) =
      if n < 0 then -3 * 10 ^ (Nat.toDigits 10 n.natAbs).length + (n.natAbs : ℤ) else n := by
    rw [decimal]
    split
    · have hsign : value 0 ('-' :: Nat.toDigits 10 n.natAbs) = value (-3)
        (Nat.toDigits 10 n.natAbs) := rfl
      rw [hsign, value_toDigits _ hpos]
    · rw [value_toDigits _ hpos]
      omega
  have hzero : (0 : Int32) = Int32.ofInt 0 := rfl
  rw [← hvalue, string2int, hzero]
  exact string2intFrom_eq fun c hc => ascii_of_mem_decimal hc

/-- A negative number of at most eight digits is not read back: what is read is below minus two
times the power of ten, and the number is above minus one. -/
lemma string2int_ne {rest : List Char} (hneg : num.toInt < 0)
    (hshort : (Nat.toDigits 10 num.toInt.natAbs).length ≤ 8) :
    string2int (decimal num.toInt ++ '\x00' :: rest) ≠ some num := by
  intro hback
  have hdigits := lt_pow_length num.toInt.natAbs
  have hbound : 10 ^ (Nat.toDigits 10 num.toInt.natAbs).length ≤ 10 ^ 8 :=
    Nat.pow_le_pow_right (by decide) hshort
  have hread : Int32.ofInt (-3 * (10 ^ (Nat.toDigits 10 num.toInt.natAbs).length : ℕ) +
      num.toInt.natAbs) = num := by
    rw [string2int_decimal _ _ hneg.ne, if_pos hneg] at hback
    rw [Nat.cast_pow, Nat.cast_ofNat]
    exact Option.some.inj hback
  have hint := congrArg Int32.toInt hread
  rw [Int32.toInt_ofInt_of_le (by omega) (by omega)] at hint
  omega

/-! ## The round trip -/

/-- `int2string` returns a string, which is the decimal text of the number and is converted back to
it. -/
def Converts (fuel : ℕ) (ok : Bool) (l : Locals) (num : Int32) : Prop :=
  ∃ buf, int2string fuel ok l num = some (some buf) ∧ text buf = some (decimal num.toInt) ∧
    string2int buf = some num

/-- What is returned is the decimal text only if a zero stands behind it in `out`. -/
lemma strdup_eq_iff {s rest : List Char} {ok : Bool} (hs : '\x00' ∉ s) :
    (∃ buf, strdup ok (s ++ rest) = some (some buf) ∧ text buf = some s) ↔
      ok = true ∧ rest.head? = some '\x00' := by
  constructor
  · rintro ⟨buf, hbuf, htext⟩
    obtain ⟨t, ht, hok⟩ := Option.map_eq_some_iff.mp hbuf
    cases ok with
    | false => simp at hok
    | true =>
      obtain rfl : t ++ ['\x00'] = buf := by simpa using hok
      obtain ⟨rest₁, heq₁, ht0⟩ := text_eq_some_iff.mp ht
      have hts : t = s := by
        have hself : text (t ++ ['\x00']) = some t := text_eq_some_iff.mpr ⟨[], rfl, ht0⟩
        exact Option.some.inj (hself.symm.trans htext)
      rw [hts] at heq₁
      rw [List.append_cancel_left heq₁]
      exact ⟨rfl, rfl⟩
  · rintro ⟨rfl, hhead⟩
    obtain ⟨rest', rfl⟩ : ∃ rest', rest = '\x00' :: rest' := by
      cases rest with
      | nil => simp at hhead
      | cons c rest' => exact ⟨rest', by rw [Option.some.inj hhead]⟩
    refine ⟨s ++ ['\x00'], ?_, text_eq_some_iff.mpr ⟨[], rfl, hs⟩⟩
    rw [strdup, text_eq_some_iff.mpr ⟨rest', rfl, hs⟩, Option.map_some, if_pos rfl]

/-- **Integers as text and back.**  The round trip succeeds exactly for positive numbers of at most
nine digits, if the array `out` happens to hold a zero behind the digits and the allocation
succeeds. -/
theorem int2string_converts_iff {l : Locals} {ok : Bool} (hfuel : 10 < fuel) :
    Converts fuel ok l num ↔ 0 < num.toInt ∧ num.toInt < 10 ^ 9 ∧ ok = true ∧
      l.out[(decimal num.toInt).length]? = some '\x00' := by
  have hrange := toInt_range num
  have hout := l.out_length
  by_cases hne : num = 0
  · -- a null pointer is returned
    refine iff_of_false ?_ fun h => ?_
    · rintro ⟨buf, hbuf, -⟩
      rw [int2string, if_neg (not_not.mpr hne)] at hbuf
      simp at hbuf
    · rw [hne] at h
      exact absurd h.1 (by decide)
  · have hne' := ne_zero_iff.mp hne
    have hpos : 0 < num.toInt.natAbs := by omega
    have hstrdup : ∀ rest, (∃ buf, strdup ok (decimal num.toInt ++ rest) = some (some buf) ∧
        text buf = some (decimal num.toInt)) ↔ ok = true ∧ rest.head? = some '\x00' :=
      fun rest => strdup_eq_iff (zero_notMem_decimal _)
    rw [Converts, int2string_eq hfuel hne]
    constructor
    · rintro ⟨buf, hbuf, htext, hback⟩
      split at hbuf
      · obtain ⟨hok, hzero⟩ := (hstrdup _).mp ⟨buf, hbuf, htext⟩
        rw [List.head?_drop] at hzero
        have hlt : (decimal num.toInt).length < 10 := by
          have := (List.getElem?_eq_some_iff.mp hzero).1
          omega
        obtain ⟨rest, rfl, -⟩ := text_eq_some_iff.mp htext
        have hnum : 0 < num.toInt := by
          by_contra hle
          have hneg : num.toInt < 0 := by omega
          rw [decimal, if_pos hneg, List.length_cons] at hlt
          exact string2int_ne hneg (by omega) hback
        rw [decimal, if_neg (by omega)] at hlt
        have hdigits := lt_pow_length num.toInt.natAbs
        have hbound : 10 ^ (Nat.toDigits 10 num.toInt.natAbs).length ≤ 10 ^ 9 :=
          Nat.pow_le_pow_right (by decide) (by omega)
        exact ⟨hnum, by omega, hok, hzero⟩
      · simp at hbuf
    · rintro ⟨hnum, hsmall, hok, hzero⟩
      have hlt : (decimal num.toInt).length < 10 := by
        have := (List.getElem?_eq_some_iff.mp hzero).1
        omega
      rw [if_pos (by omega)]
      obtain ⟨buf, hbuf, htext⟩ := (hstrdup _).mpr ⟨hok, by rw [List.head?_drop, hzero]⟩
      refine ⟨buf, hbuf, htext, ?_⟩
      obtain ⟨rest, rfl, -⟩ := text_eq_some_iff.mp htext
      rw [string2int_decimal _ _ hne', if_neg (by omega), Int32.ofInt_toInt]

/-- Arrays that hold nothing but zeros. -/
def zeroLocals : Locals where
  temp := List.replicate 10 '\x00'
  out := List.replicate 10 '\x00'
  temp_length := rfl
  out_length := rfl

theorem int2string_converts_sample : Converts 11 true zeroLocals 305 :=
  (int2string_converts_iff (by decide)).mpr (by decide)

/-- Zero has no text, and a negative number is not read back: `-5` becomes `-25`. -/
theorem int2string_fails :
    int2string 11 true zeroLocals 0 = some none ∧ ¬ Converts 11 true zeroLocals 0 ∧
      (int2string 11 true zeroLocals (-5)).bind (Option.elim · none string2int) = some (-25) ∧
      int2string 11 true zeroLocals (-2147483648) = none := by
  refine ⟨rfl, ?_, by decide +kernel, by decide +kernel⟩
  rintro ⟨buf, hbuf, -⟩
  rw [int2string, if_neg (by decide)] at hbuf
  simp at hbuf

end TurbOS.Str
