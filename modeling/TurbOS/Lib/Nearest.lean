import Mathlib

/-!
# Rounding to the nearest integer

`nearest a b` is an integer next to the quotient of `a` and `b`.  A program that goes through the
multiples of a number `s` needs no division for it: it keeps the remainder, adds `s` to it, and
carries one when the sum reaches `b`.
-/

namespace Nearest

variable {a a' b s k : ℤ}

/-- The quotient, rounded to the nearest integer. -/
def nearest (a b : ℤ) : ℤ := (b / 2 + a) / b

/-- What is left, half of the divisor in advance. -/
def rest (a b : ℤ) : ℤ := (b / 2 + a) % b

lemma nearest_mul_add_rest (a b : ℤ) : nearest a b * b + rest a b = b / 2 + a := by
  rw [nearest, rest, mul_comm]
  exact Int.mul_ediv_add_emod _ _

lemma rest_nonneg (hb : 0 < b) : 0 ≤ rest a b := Int.emod_nonneg _ hb.ne'

lemma rest_lt (hb : 0 < b) : rest a b < b := Int.emod_lt_of_pos _ hb

lemma rest_zero (hb : 0 < b) : rest 0 b = b / 2 := by
  rw [rest, add_zero]
  exact Int.emod_eq_of_lt (by omega) (by omega)

lemma nearest_zero (hb : 0 < b) : nearest 0 b = 0 := by
  rw [nearest, add_zero]
  exact Int.ediv_eq_zero_of_lt (by omega) (by omega)

/-- A multiple is divided without a rest. -/
lemma nearest_mul (hb : 0 < b) (k : ℤ) : nearest (k * b) b = k := by
  rw [nearest, Int.add_mul_ediv_right _ _ hb.ne', Int.ediv_eq_zero_of_lt (by omega) (by omega),
    zero_add]

lemma nearest_mono (hb : 0 < b) (h : a ≤ a') : nearest a b ≤ nearest a' b :=
  Int.ediv_le_ediv hb (by omega)

/-- The rounded quotient is off by one half at most. -/
lemma nearest_close (hb : 0 < b) : 2 * |nearest a b * b - a| ≤ b := by
  have hsum := nearest_mul_add_rest a b
  have hnonneg := rest_nonneg (a := a) hb
  have hlt := rest_lt (a := a) hb
  rcases abs_cases (nearest a b * b - a) with ⟨heq, -⟩ | ⟨heq, -⟩
  · rw [heq]
    omega
  · rw [heq]
    omega

/-- One step of the addition with a carry. -/
lemma carry (hb : 0 < b) (hs : 0 ≤ s) (hsb : s ≤ b) :
    (rest a b + s ≥ b → nearest (a + s) b = nearest a b + 1 ∧ rest (a + s) b = rest a b + s - b) ∧
      (rest a b + s < b → nearest (a + s) b = nearest a b ∧ rest (a + s) b = rest a b + s) := by
  have hnonneg := rest_nonneg (a := a) hb
  have hlt := rest_lt (a := a) hb
  have hadd : b / 2 + (a + s) = rest a b + s + nearest a b * b := by
    have hsum := nearest_mul_add_rest a b
    omega
  constructor
  · intro hcarry
    have hone : rest a b + s + nearest a b * b = rest a b + s - b + (nearest a b + 1) * b := by ring
    rw [nearest, rest.eq_def (a + s), hadd, hone, Int.add_mul_ediv_right _ _ hb.ne',
      Int.add_mul_emod_self_right, Int.ediv_eq_zero_of_lt (by omega) (by omega),
      Int.emod_eq_of_lt (by omega) (by omega), zero_add]
    exact ⟨rfl, rfl⟩
  · intro hkeep
    rw [nearest, rest.eq_def (a + s), hadd, Int.add_mul_ediv_right _ _ hb.ne',
      Int.add_mul_emod_self_right, Int.ediv_eq_zero_of_lt (by omega) (by omega),
      Int.emod_eq_of_lt (by omega) (by omega), zero_add]
    exact ⟨rfl, rfl⟩

/-- A step of at most the divisor moves the rounded quotient by one at most. -/
lemma nearest_step (hb : 0 < b) (hs : 0 ≤ s) (hsb : s ≤ b) :
    nearest (a + s) b = nearest a b ∨ nearest (a + s) b = nearest a b + 1 := by
  have hcarry := carry (a := a) hb hs hsb
  by_cases h : rest a b + s < b
  · exact .inl (hcarry.2 h).1
  · exact .inr (hcarry.1 (by omega)).1

/-- The first step is rounded down exactly if it is less than one half. -/
lemma nearest_eq_zero_iff (hs : 0 ≤ s) (hb : 0 < b) (hsb : s ≤ b) :
    nearest s b = 0 ↔ 2 * s < b := by
  have hcarry := carry (a := 0) hb hs hsb
  rw [zero_add, nearest_zero hb, rest_zero hb] at hcarry
  constructor
  · intro h
    by_contra hle
    have := (hcarry.1 (by omega)).1
    omega
  · intro h
    exact (hcarry.2 (by omega)).1

end Nearest
