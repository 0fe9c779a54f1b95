import Mathlib

/-!
# Unsigned 64-bit arithmetic

The values of a 64-bit unsigned integer type are natural numbers below `2 ^ 64`, and
its operations wrap around.
-/

namespace Word64

/-- Addition that wraps around at `2 ^ 64`. -/
def add (a b : ℕ) : ℕ := (a + b) % 2 ^ 64

/-- Subtraction that wraps around at `2 ^ 64`. -/
def sub (a b : ℕ) : ℕ := (a + (2 ^ 64 - b % 2 ^ 64)) % 2 ^ 64

/-- Multiplication that wraps around at `2 ^ 64`. -/
def mul (a b : ℕ) : ℕ := a * b % 2 ^ 64

lemma add_of_lt {a b : ℕ} (h : a + b < 2 ^ 64) : add a b = a + b := Nat.mod_eq_of_lt h

lemma sub_of_le {a b : ℕ} (ha : a < 2 ^ 64) (h : b ≤ a) : sub a b = a - b := by
  rw [sub]
  omega

lemma mul_of_lt {a b : ℕ} (h : a * b < 2 ^ 64) : mul a b = a * b := Nat.mod_eq_of_lt h

end Word64
