import Mathlib

/-!
# Decimal text

The decimal text of an integer, as a list of characters: the digits from the first one on, behind
a minus sign if it is negative.  Programs find the digits in the opposite order, by division.
-/

namespace Decimal

/-- The decimal text of an integer. -/
def decimal (n : ℤ) : List Char :=
  if n < 0 then '-' :: Nat.toDigits 10 n.natAbs else Nat.toDigits 10 n.natAbs

/-- It is the text that the integer is printed as. -/
lemma decimal_eq_toString (n : ℤ) : decimal n = (toString n).toList := by
  rw [decimal]
  cases n with
  | ofNat n =>
    rw [if_neg (by simp)]
    exact Nat.toList_repr.symm
  | negSucc n =>
    rw [if_pos (Int.negSucc_lt_zero n)]
    have htext : toString (Int.negSucc n) = "-" ++ (n + 1).repr := rfl
    rw [htext, String.toList_append, Nat.toList_repr]
    rfl

/-- The digits of a positive number, the last one first. -/
def reversed (n : ℕ) : List Char := (Nat.digits 10 n).map Nat.digitChar

lemma reversed_zero : reversed 0 = [] := by rw [reversed, Nat.digits_zero, List.map_nil]

lemma reversed_of_pos {n : ℕ} (h : 0 < n) :
    reversed n = Nat.digitChar (n % 10) :: reversed (n / 10) := by
  rw [reversed, Nat.digits_def' (by decide) h, List.map_cons, reversed]

lemma toDigits_eq_reverse {n : ℕ} (h : 0 < n) : Nat.toDigits 10 n = (reversed n).reverse := by
  induction n using Nat.strong_induction_on with
  | _ n ih =>
    rw [reversed_of_pos h, List.reverse_cons]
    by_cases hn : n < 10
    · rw [Nat.toDigits_of_lt_base hn, Nat.mod_eq_of_lt hn, Nat.div_eq_of_lt hn, reversed_zero]
      rfl
    · rw [Nat.toDigits_of_base_le (by decide) (by omega), ih (n / 10) (by omega) (by omega)]

/-- How long the digits of a number are. -/
lemma length_reversed_le_iff {n k : ℕ} (hn : 0 < n) (hk : 0 < k) :
    (reversed n).length ≤ k ↔ n < 10 ^ k := by
  rw [← Nat.length_toDigits_le_iff (by decide) hk, toDigits_eq_reverse hn, List.length_reverse]

lemma lt_pow_length (n : ℕ) : n < 10 ^ (Nat.toDigits 10 n).length :=
  (Nat.length_toDigits_le_iff (by decide) Nat.length_toDigits_pos).mp le_rfl

/-- A digit is a character between `0` and `9`. -/
lemma isDigit_of_mem {n : ℕ} {c : Char} (h : c ∈ Nat.toDigits 10 n) : c.isDigit :=
  Nat.isDigit_of_mem_toDigits (by decide) (by decide) h

lemma zero_notMem {n : ℕ} : '\x00' ∉ Nat.toDigits 10 n :=
  fun h => absurd (isDigit_of_mem h) (by decide)

lemma zero_notMem_decimal (n : ℤ) : '\x00' ∉ decimal n := by
  rw [decimal]
  split
  · simp [zero_notMem]
  · exact zero_notMem

/-- Reading digits: the number that they make, behind a number that was read already. -/
def value (start : ℤ) (s : List Char) : ℤ :=
  s.foldl (fun sofar c => sofar * 10 + (c.toNat - 48)) start

lemma value_append (start : ℤ) (s t : List Char) :
    value start (s ++ t) = value (value start s) t := by
  rw [value, List.foldl_append]
  rfl

lemma toNat_digitChar {d : ℕ} (h : d < 10) : (Nat.digitChar d).toNat = d + 48 := by
  interval_cases d <;> rfl

/-- Reading the digits of a number. -/
lemma value_toDigits (start : ℤ) {n : ℕ} (h : 0 < n) :
    value start (Nat.toDigits 10 n) = start * 10 ^ (Nat.toDigits 10 n).length + n := by
  induction n using Nat.strong_induction_on generalizing start with
  | _ n ih =>
    by_cases hn : n < 10
    · rw [Nat.toDigits_of_lt_base hn, value, List.foldl_cons, List.foldl_nil, toNat_digitChar hn]
      simp
    · rw [Nat.toDigits_of_base_le (by decide) (by omega), value_append,
        ih (n / 10) (by omega) start (by omega), List.length_append, List.length_singleton,
        pow_succ]
      have hlast : value (start * 10 ^ (Nat.toDigits 10 (n / 10)).length + (n / 10 : ℕ))
        [Nat.digitChar (n % 10)] =
          (start * 10 ^ (Nat.toDigits 10 (n / 10)).length + (n / 10 : ℕ)) * 10 + (n % 10 : ℕ) := by
        rw [value, List.foldl_cons, List.foldl_nil, toNat_digitChar (Nat.mod_lt n (by decide))]
        push_cast
        ring
      have hdiv : (n : ℤ) = (n / 10 : ℕ) * 10 + (n % 10 : ℕ) := by
        omega
      rw [hlast]
      linear_combination -hdiv

end Decimal
