import Mathlib

/-!
# Numerals in any base

The numeral of a number, its first digit first; zero has no digits.  A program finds the digits in
the opposite order, by division.  Reading the digits one after the other gives the number back, and
zeros in front of them change nothing.
-/

namespace Numeral

variable {α : Type*} {digit : ℕ → α} {value : α → ℕ} {b n k : ℕ}

/-- The numeral of a number in the base `b`. -/
def numeral (digit : ℕ → α) (b n : ℕ) : List α := ((Nat.digits b n).map digit).reverse

/-- The number that digits make. -/
def read (value : α → ℕ) (b : ℕ) (s : List α) : ℕ := s.foldl (fun sofar c => sofar * b + value c) 0

@[simp] lemma numeral_zero : numeral digit b 0 = [] := by
  rw [numeral, Nat.digits_zero, List.map_nil, List.reverse_nil]

lemma numeral_of_pos (digit : ℕ → α) (hb : 1 < b) (hn : 0 < n) :
    numeral digit b n = numeral digit b (n / b) ++ [digit (n % b)] := by
  rw [numeral, Nat.digits_def' hb hn, List.map_cons, List.reverse_cons, numeral]

lemma numeral_eq_nil_iff (hb : 1 < b) : numeral digit b n = [] ↔ n = 0 := by
  refine ⟨fun h => ?_, fun h => by rw [h, numeral_zero]⟩
  by_contra hn
  rw [numeral_of_pos digit hb (Nat.pos_of_ne_zero hn)] at h
  simp at h

/-- How long a numeral is. -/
lemma length_numeral_le_iff (hb : 1 < b) : (numeral digit b n).length ≤ k ↔ n < b ^ k := by
  rw [numeral, List.length_reverse, List.length_map, Nat.digits_length_le_iff hb]

lemma length_numeral_le (hb : 1 < b) (h : n < b ^ k) : (numeral digit b n).length ≤ k :=
  (length_numeral_le_iff hb).mpr h

lemma read_append_singleton (s : List α) (c : α) :
    read value b (s ++ [c]) = read value b s * b + value c := by
  rw [read, List.foldl_append]
  rfl

/-- Digits in the opposite order, and the number that they make. -/
lemma read_reverse {ds : List ℕ} (hdigit : ∀ d < b, value (digit d) = d) (hds : ∀ d ∈ ds, d < b) :
    read value b (ds.map digit).reverse = Nat.ofDigits b ds := by
  induction ds with
  | nil => rfl
  | cons d ds ih =>
    obtain ⟨hd, hrest⟩ := List.forall_mem_cons.mp hds
    rw [List.map_cons, List.reverse_cons, read_append_singleton, ih hrest, hdigit d hd,
      Nat.ofDigits_cons, Nat.mul_comm, Nat.add_comm]

/-- A numeral reads back as its number. -/
lemma read_numeral (hb : 1 < b) (hdigit : ∀ d < b, value (digit d) = d) (n : ℕ) :
    read value b (numeral digit b n) = n := by
  rw [numeral, read_reverse hdigit fun d hd => Nat.digits_lt_base hb hd, Nat.ofDigits_digits]

/-- The last places of a numeral read back as the remainder. -/
lemma read_take (hb : 1 < b) (hdigit : ∀ d < b, value (digit d) = d) (n k : ℕ) :
    read value b (((Nat.digits b n).take k).map digit).reverse = n % b ^ k := by
  rw [read_reverse hdigit fun d hd => Nat.digits_lt_base hb (List.mem_of_mem_take hd),
    Nat.self_mod_pow_eq_ofDigits_take k n (by omega)]

/-- Zeros in front change nothing. -/
lemma read_replicate_append {z : α} (hz : value z = 0) (m : ℕ) (s : List α) :
    read value b (List.replicate m z ++ s) = read value b s := by
  have hzeros : (List.replicate m z).foldl (fun sofar c => sofar * b + value c) 0 = 0 := by
    induction m with
    | zero => rfl
    | succ m ih => rw [List.replicate_succ, List.foldl_cons, hz, Nat.zero_mul, Nat.zero_add, ih]
  rw [read, List.foldl_append, hzeros, read]

/-- The first digit of a numeral is not zero. -/
lemma exists_head (digit : ℕ → α) (hb : 1 < b) (hn : 0 < n) :
    ∃ d, 0 < d ∧ d < b ∧ (numeral digit b n).head? = some (digit d) := by
  induction n using Nat.strong_induction_on with
  | _ n ih =>
    rw [numeral_of_pos digit hb hn]
    rcases Nat.eq_zero_or_pos (n / b) with hrest | hrest
    · have hlt : n < b := (Nat.div_eq_zero_iff_lt (by omega)).mp hrest
      rw [hrest, numeral_zero, Nat.mod_eq_of_lt hlt]
      exact ⟨n, hn, hlt, rfl⟩
    · obtain ⟨d, hd, hlt, hhead⟩ := ih (n / b) (Nat.div_lt_self hn hb) hrest
      refine ⟨d, hd, hlt, ?_⟩
      rw [List.head?_append, hhead]
      rfl

/-- Every place of a numeral holds a digit. -/
lemma exists_of_mem {c : α} (hb : 1 < b) (h : c ∈ numeral digit b n) : ∃ d < b, c = digit d := by
  rw [numeral, List.mem_reverse, List.mem_map] at h
  obtain ⟨d, hd, rfl⟩ := h
  exact ⟨d, Nat.digits_lt_base hb hd, rfl⟩

end Numeral
