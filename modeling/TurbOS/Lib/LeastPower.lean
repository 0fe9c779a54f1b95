import Mathlib

/-!
# The least power of two above a bound

A loop that doubles a power of two until it reaches a bound ends with the least power that is not
below the bound.  `leastPower n` is that power.  Such a loop stays at or below `leastPower n`
(`double_le_leastPower`), and the bound is only reached there (`eq_leastPower`).
-/

namespace LeastPower

/-- The least power of two that is not below `n`. -/
def leastPower (n : ℕ) : ℕ := 2 ^ Nat.clog 2 n

variable {n i : ℕ}

lemma le_leastPower (n : ℕ) : n ≤ leastPower n := Nat.le_pow_clog (by norm_num) n

lemma leastPower_le_pow : leastPower n ≤ 2 ^ i ↔ n ≤ 2 ^ i := by
  rw [leastPower, Nat.pow_le_pow_iff_right (by norm_num), Nat.clog_le_iff_le_pow (by norm_num)]

lemma isLeast_leastPower (n : ℕ) : IsLeast {p | (∃ j, p = 2 ^ j) ∧ n ≤ p} (leastPower n) := by
  refine ⟨⟨⟨_, rfl⟩, le_leastPower n⟩, ?_⟩
  rintro p ⟨⟨j, rfl⟩, hle⟩
  exact leastPower_le_pow.mpr hle

/-- A power that has reached the bound and has not passed the least one. -/
lemma eq_leastPower (hge : n ≤ 2 ^ i) (hle : 2 ^ i ≤ leastPower n) : 2 ^ i = leastPower n :=
  le_antisymm hle (leastPower_le_pow.mpr hge)

/-- The highest bit of a number below the least power may be doubled. -/
lemma double_le_leastPower {v : ℕ} (hge : 2 ^ i ≤ v) (hlt : v < leastPower n) :
    2 ^ (i + 1) ≤ leastPower n := by
  have hi : i < Nat.clog 2 n :=
    (Nat.pow_lt_pow_iff_right (by norm_num)).mp (lt_of_le_of_lt hge hlt)
  exact Nat.pow_le_pow_right (by norm_num) hi

end LeastPower
