import TurbOS.Lib.Fuel
import TurbOS.Lib.Word64
import TurbOS.Lib.LeastPower

/-!
# The rounding macros

The macros of `lib/math.hpp` that the memory managers use.  They work on `size_t`
values, so their arithmetic wraps around; `ALIGN_UP_2` and `TO_POWER_OF_2` are loops.
Up to `2 ^ 63` the former gives the least power of two (`alignUp2_leastPower`).
-/

namespace TurbOS

open Fuel LeastPower

/-- `DIV_ROUNDUP(A, B)`. -/
def divRoundup (a b : ℕ) : ℕ := Word64.add a (b - 1) / b

/-- `ALIGN_UP(A, B)`. -/
def alignUp (a b : ℕ) : ℕ := Word64.mul (divRoundup a b) b

/-- `POWER_OF_2(var)`; it also holds of `0`. -/
def powerOf2 (v : ℕ) : Bool := decide (v &&& Word64.sub v 1 = 0)

/-- `TO_POWER_OF_2(var)`: strip low bits from `var - 1` until one is left, and double. -/
def toPowerOf2 (fuel var : ℕ) : Option ℕ :=
  loop (fun i =>
    if i &&& Word64.sub i 1 ≠ 0 then some (.inl (i &&& Word64.sub i 1))
    else some (.inr (Word64.mul i 2))) fuel (Word64.sub var 1)

/-- `ALIGN_UP_2(align, var)`. -/
def alignUp2 (fuel align var : ℕ) : Option ℕ :=
  loop (fun a =>
    if a % align ≠ 0 ∨ powerOf2 a = false then
      (toPowerOf2 fuel (Word64.add a 1)).map Sum.inl
    else some (.inr a)) fuel var

/-- Rounding up does not wrap around when there is room for one more unit. -/
lemma alignUp_eq {a b : ℕ} (hb : 0 < b) (h : a + b ≤ 2 ^ 64) :
    alignUp a b = (a + (b - 1)) / b * b := by
  have hle : (a + (b - 1)) / b * b ≤ a + (b - 1) := Nat.div_mul_le_self _ _
  rw [alignUp, divRoundup, Word64.add_of_lt (by omega), Word64.mul_of_lt (by omega)]

lemma le_alignUp {a b : ℕ} (hb : 0 < b) (h : a + b ≤ 2 ^ 64) : a ≤ alignUp a b := by
  rw [alignUp_eq hb h]
  have := Nat.div_add_mod (a + (b - 1)) b
  have := Nat.mod_lt (a + (b - 1)) hb
  have := Nat.mul_comm b ((a + (b - 1)) / b)
  omega

lemma dvd_alignUp {a b : ℕ} (hb : 0 < b) (h : a + b ≤ 2 ^ 64) : b ∣ alignUp a b := by
  rw [alignUp_eq hb h]
  exact Dvd.intro_left _ rfl

/-! ## Powers of two -/

/-- `POWER_OF_2` tests for a power of two. -/
lemma exists_pow_of_powerOf2 {v : ℕ} (hv : v ≠ 0) (hlt : v < 2 ^ 64) (h : powerOf2 v = true) :
    ∃ j, v = 2 ^ j := by
  have hsub : Word64.sub v 1 = v - 1 := by
    rw [Word64.sub]
    omega
  rw [powerOf2, decide_eq_true_iff, hsub] at h
  exact (Nat.ne_zero_and_sub_one_eq_zero_iff_isPowerOfTwo).mp ⟨hv, h⟩

/-- `ALIGN_UP_2` returns an aligned value that passes `POWER_OF_2`. -/
lemma alignUp2_post {fuel align var a : ℕ} (h : alignUp2 fuel align var = some a) :
    a % align = 0 ∧ powerOf2 a = true := by
  refine loop_post (fun _ => True) (Q := fun a => a % align = 0 ∧ powerOf2 a = true) ?_ trivial h
  rintro s r - hr
  split at hr
  · obtain ⟨i, -, rfl⟩ := Option.map_eq_some_iff.mp hr
    trivial
  · rename_i hexit
    rw [← Option.some.inj hr]
    simpa [not_or] using hexit

/-! ## Rounding up to a power of two -/

/-- Stripping the lowest bit of a number that is no power of two leaves the highest one. -/
lemma strip_bounds {h i : ℕ} (hge : 2 ^ h ≤ i) (hlt : i < 2 ^ (h + 1)) (hmore : i &&& (i - 1) ≠ 0) :
    2 ^ h ≤ i &&& (i - 1) ∧ i &&& (i - 1) < i := by
  have hpos : 0 < 2 ^ h := by positivity
  have hpow : ¬ i.isPowerOfTwo := fun hp =>
    hmore ((Nat.and_sub_one_eq_zero_iff_isPowerOfTwo (by omega)).mpr hp)
  have hlog : i.log2 = h := (Nat.log2_eq_iff (by omega)).mpr ⟨hge, hlt⟩
  have hbit := Nat.and_sub_one_testBit_log2 (n := i) (by omega) hpow
  rw [hlog] at hbit
  exact ⟨Nat.ge_two_pow_of_testBit hbit, lt_of_le_of_lt Nat.and_le_right (by omega)⟩

/-- `TO_POWER_OF_2(v + 1)` doubles the highest bit of `v`. -/
lemma toPowerOf2_meets {h v : ℕ} (hh : h < 64) (hge : 2 ^ h ≤ v) (hlt : v < 2 ^ (h + 1))
    (fuel : ℕ) :
    Meets (v < fuel) (toPowerOf2 fuel (Word64.add v 1)) (· = Word64.mul (2 ^ h) 2) := by
  have htop : 2 ^ (h + 1) ≤ 2 ^ 64 := Nat.pow_le_pow_right (by norm_num) hh
  have hpos : 0 < 2 ^ h := by positivity
  have hstart : Word64.sub (Word64.add v 1) 1 = v := by
    simp only [Word64.sub, Word64.add]
    omega
  rw [toPowerOf2, hstart]
  refine Meets.of_imp (loop_meets True (fun k i => i = k ∧ 2 ^ h ≤ i ∧ i < 2 ^ (h + 1)) ?_ fuel v v
    ⟨rfl, hge, hlt⟩) fun hf => ⟨trivial, hf⟩
  rintro k i ⟨rfl, hi, hi'⟩
  have hsub : Word64.sub i 1 = i - 1 := Word64.sub_of_le (by omega) (by omega)
  rw [hsub]
  split
  · rename_i hmore
    obtain ⟨h₁, h₂⟩ := strip_bounds hi hi' hmore
    exact Meets.pure ⟨_, h₂, rfl, h₁, by omega⟩
  · rename_i hone
    refine Meets.pure ?_
    obtain ⟨j, rfl⟩ := (Nat.and_sub_one_eq_zero_iff_isPowerOfTwo (by omega)).mp (not_not.mp hone)
    have hj : j = h := by
      have h₁ := (Nat.pow_le_pow_iff_right (by norm_num)).mp hi
      have h₂ := (Nat.pow_lt_pow_iff_right (by norm_num)).mp hi'
      omega
    rw [hj]
    rfl

/-- Doubling a power of two that is not the last one. -/
lemma double_pow {h : ℕ} (hh : h < 63) : Word64.mul (2 ^ h) 2 = 2 ^ (h + 1) := by
  rw [Word64.mul, ← pow_succ, Nat.mod_eq_of_lt]
  exact Nat.pow_lt_pow_right (by norm_num) (by omega)

lemma powerOf2_pow {h : ℕ} (hh : h < 64) : powerOf2 (2 ^ h) = true := by
  have hsub : Word64.sub (2 ^ h) 1 = 2 ^ h - 1 :=
    Word64.sub_of_le (Nat.pow_lt_pow_right (by norm_num) hh) Nat.one_le_two_pow
  rw [powerOf2, decide_eq_true_iff, hsub]
  exact (Nat.and_sub_one_eq_zero_iff_isPowerOfTwo (by positivity)).mpr ⟨_, rfl⟩

/-- Up to the last power of two, `ALIGN_UP_2(0x1000, v)` is the least power of two that is not below
`v` or a page. -/
lemma alignUp2_leastPower {v : ℕ} (hpos : 0 < v) (hle : v ≤ 2 ^ 63) (fuel : ℕ) :
    Meets (2 ^ 64 ≤ fuel) (alignUp2 fuel 0x1000 v) (· = leastPower (max v 0x1000)) := by
  have hmax : max v 0x1000 ≤ 2 ^ 63 := by omega
  have htop : leastPower (max v 0x1000) ≤ 2 ^ 63 := leastPower_le_pow.mpr hmax
  have hend : leastPower (max v 0x1000) % 0x1000 = 0 ∧
      powerOf2 (leastPower (max v 0x1000)) = true := by
    have h12 : 2 ^ 12 ≤ leastPower (max v 0x1000) := le_trans (by omega) (le_leastPower _)
    rw [leastPower] at h12 htop ⊢
    have h₁ := (Nat.pow_le_pow_iff_right (by norm_num)).mp h12
    have h₂ := (Nat.pow_le_pow_iff_right (by norm_num)).mp htop
    exact ⟨Nat.mod_eq_zero_of_dvd (pow_dvd_pow 2 h₁), powerOf2_pow (by omega)⟩
  rw [alignUp2]
  refine Meets.of_imp (loop_meets (2 ^ 64 ≤ fuel)
    (fun k a => v ≤ a ∧ a ≤ leastPower (max v 0x1000) ∧ k = 64 - a.log2) ?_ fuel (64 - v.log2) v
    ⟨le_rfl, le_trans (le_max_left _ _) (le_leastPower _), rfl⟩) fun hf => ⟨hf, by omega⟩
  rintro k a ⟨hva, hle, rfl⟩
  split
  · rename_i hgo
    -- the loop has ended when the least power is reached
    have hlt : a < leastPower (max v 0x1000) := by
      refine lt_of_le_of_ne hle ?_
      rintro rfl
      rw [hend.1, hend.2] at hgo
      simp at hgo
    obtain ⟨hge, hlt'⟩ := (Nat.log2_eq_iff (by omega)).mp (rfl : a.log2 = a.log2)
    have hnext := double_le_leastPower hge hlt
    have hh : a.log2 < 63 :=
      (Nat.pow_le_pow_iff_right (by norm_num : 1 < 2)).mp (hnext.trans htop)
    refine Meets.map (Meets.of_imp (toPowerOf2_meets (by omega) hge hlt' fuel)
      fun hf => by omega) ?_
    rintro i rfl
    rw [double_pow hh]
    exact ⟨64 - (a.log2 + 1), by omega, by omega, hnext, by rw [Nat.log2_two_pow]⟩
  · rename_i hexit
    simp only [not_or, not_not, Bool.not_eq_false] at hexit
    obtain ⟨j, rfl⟩ := exists_pow_of_powerOf2 (by omega) (by omega) hexit.2
    exact Meets.pure (eq_leastPower (by omega) hle)

/-- `ALIGN_UP_2(0x1000, v)` of a multiple of `0x1000` is the next power of two, or `0` if that
does not fit into a word. -/
lemma alignUp2_meets {v : ℕ} (hmod : v % 0x1000 = 0) (hlt : v < 2 ^ 64) (fuel : ℕ) :
    Meets (2 ^ 64 ≤ fuel) (alignUp2 fuel 0x1000 v) fun a =>
      (a = 0 ∧ (v = 0 ∨ 2 ^ 63 < v)) ∨ (v ≠ 0 ∧ v ≤ a ∧ ∃ i < 64, a = 2 ^ i) := by
  by_cases hsmall : 0 < v ∧ v ≤ 2 ^ 63
  · obtain ⟨hpos, hle⟩ := hsmall
    refine (alignUp2_leastPower hpos hle fuel).mono ?_
    rintro a rfl
    have hge := le_leastPower (max v 0x1000)
    have htop : leastPower (max v 0x1000) ≤ 2 ^ 63 := leastPower_le_pow.mpr (by omega)
    have hclog := (Nat.pow_le_pow_iff_right (by norm_num)).mp htop
    exact .inr ⟨by omega, by omega, _, by omega, rfl⟩
  · -- `0` is aligned and passes `POWER_OF_2`, and beyond the last power the loop steps to it
    have hends : ∀ a, (a = v ∨ a = 0) → ¬ (a % 0x1000 ≠ 0 ∨ powerOf2 a = false) → a = 0 := by
      rintro a (rfl | rfl) hexit
      · simp only [not_or, not_not, Bool.not_eq_false] at hexit
        by_contra hne
        obtain ⟨i, rfl⟩ := exists_pow_of_powerOf2 hne hlt hexit.2
        have hi := (Nat.pow_lt_pow_iff_right (by norm_num)).mp hlt
        have : 2 ^ i ≤ 2 ^ 63 := Nat.pow_le_pow_right (by norm_num) (by omega)
        exact hsmall ⟨by positivity, this⟩
      · rfl
    rw [alignUp2]
    refine Meets.of_imp (loop_meets (2 ^ 64 ≤ fuel) (fun k a => (k = 1 ∧ a = v) ∨ a = 0) ?_ fuel 1 v
      (.inl ⟨rfl, rfl⟩)) fun hf => ⟨hf, by omega⟩
    rintro k a ha
    split
    · rename_i hgo
      have hne : a ≠ 0 := by
        rintro rfl
        revert hgo
        decide
      obtain ⟨rfl, rfl⟩ := ha.resolve_right hne
      have hlast : Word64.mul (2 ^ 63) 2 = 0 := by norm_num [Word64.mul]
      refine Meets.map (Meets.of_imp (toPowerOf2_meets (h := 63) (by norm_num) (by omega) (by omega)
        fuel) fun hf => by omega) ?_
      rintro i rfl
      exact ⟨0, by omega, .inr hlast⟩
    · rename_i hexit
      refine Meets.pure (.inl ⟨hends a (ha.imp_left And.right) hexit, by omega⟩)

end TurbOS
