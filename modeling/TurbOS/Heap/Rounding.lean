import TurbOS.Heap.Model

/-!
# Rounding to powers of two

`required_size` adds the header to the size of a request, rounds up to a multiple of 16, and then
doubles a candidate until it is large enough; `expand` rounds the arena up with `ALIGN_UP_2`.  Up to
the last power of two of a word both are the least power of two above their bound.  Beyond it the
candidate of `required_size` overflows to `0` and never catches up.
-/

open Fuel LeastPower

namespace TurbOS.Heap

variable {fuel n : ℕ}

/-! ## The candidates -/

/-- The values of the doubling loop: powers of two, and `0` after the last one. -/
def Candidate (s : ℕ) : Prop := s = 0 ∨ ∃ i, 4 ≤ i ∧ i < 64 ∧ s = 2 ^ i

lemma candidate_start : Candidate 16 := .inr ⟨4, by norm_num⟩

lemma Candidate.double {s : ℕ} (h : Candidate s) : Candidate (Word64.mul s 2) := by
  rcases h with rfl | ⟨i, hi, hi', rfl⟩
  · exact .inl rfl
  · by_cases hlast : i < 63
    · exact .inr ⟨i + 1, by omega, by omega, double_pow hlast⟩
    · obtain rfl : i = 63 := by omega
      exact .inl (by norm_num [Word64.mul])

/-- Rounding up to a multiple of 16 does not pass a power of two. -/
lemma alignUp_le_pow {i : ℕ} (hi : 4 ≤ i) (hn : n + 32 ≤ 2 ^ 64) :
    alignUp (Word64.add n 16) 16 ≤ 2 ^ i ↔ n + 16 ≤ 2 ^ i := by
  obtain ⟨d, hd⟩ : 16 ∣ 2 ^ i := pow_dvd_pow 2 (show 4 ≤ i from hi)
  rw [Word64.add_of_lt (by omega), alignUp_eq (by norm_num) (by omega)]
  omega

/-! ## `required_size` -/

/-- Up to `2 ^ 63 - 16`, `required_size` is the least power of two with room for the header and the
payload. -/
lemma requiredSize_leastPower (hle : n ≤ 2 ^ 63 - 16) (fuel : ℕ) :
    Meets (Nat.clog 2 (n + 16) - 4 < fuel) (requiredSize fuel n) (· = leastPower (n + 16)) := by
  have htop : leastPower (n + 16) ≤ 2 ^ 63 := leastPower_le_pow.mpr (by omega)
  rw [requiredSize]
  -- the candidate does not pass the least power
  refine Meets.of_imp (loop_meets True (fun k s => ∃ i, 4 ≤ i ∧ s = 2 ^ i ∧
    s ≤ leastPower (n + 16) ∧ k = Nat.clog 2 (n + 16) - i) ?_ fuel (Nat.clog 2 (n + 16) - 4) 16
    ⟨4, le_rfl, by norm_num, (by omega : 16 ≤ n + 16).trans (le_leastPower _), rfl⟩)
    fun hf => ⟨trivial, hf⟩
  rintro k s ⟨i, hi, rfl, hs, rfl⟩
  have hround : alignUp (Word64.add n 16) 16 ≤ 2 ^ i ↔ n + 16 ≤ 2 ^ i :=
    alignUp_le_pow hi (by omega)
  split
  · rename_i hlt
    have hbelow : 2 ^ i < leastPower (n + 16) :=
      (Nat.lt_of_not_le fun h => hlt.not_ge (hround.mpr h)).trans_le (le_leastPower _)
    have hnext := double_le_leastPower le_rfl hbelow
    have hi' : i < 63 := (Nat.pow_le_pow_iff_right (by norm_num : 1 < 2)).mp (hnext.trans htop)
    have hclog : i < Nat.clog 2 (n + 16) := (Nat.pow_lt_pow_iff_right (by norm_num)).mp hbelow
    rw [double_pow hi']
    exact Meets.pure ⟨_, by omega, i + 1, by omega, rfl, hnext, rfl⟩
  · rename_i hge
    exact Meets.pure (eq_leastPower (hround.mp (by omega)) hs)

/-- Up to `2 ^ 63 - 16` the doubling loop ends. -/
lemma requiredSize_returns (hle : n ≤ 2 ^ 63 - 16) :
    ∃ actual, ∀ fuel, 63 ≤ fuel → requiredSize fuel n = some actual := by
  refine ⟨leastPower (n + 16), fun fuel hf => ?_⟩
  have hclog : Nat.clog 2 (n + 16) ≤ 63 := (Nat.clog_le_iff_le_pow (by norm_num)).mpr (by omega)
  obtain ⟨actual, hactual, rfl⟩ := (requiredSize_leastPower hle fuel).returns (by omega)
  exact hactual

/-- Beyond, the candidate overflows to `0` and never catches up. -/
lemma requiredSize_never (hgt : 2 ^ 63 - 16 < n) (hle : n + 32 ≤ 2 ^ 64) (fuel : ℕ) :
    requiredSize fuel n = none := by
  have hround : 2 ^ 63 < alignUp (Word64.add n 16) 16 := by
    rw [Word64.add_of_lt (by omega)]
    have hge := le_alignUp (a := n + 16) (b := 16) (by norm_num) (by omega)
    omega
  rw [requiredSize]
  refine loop_never Candidate (fun s hs => ?_) fuel candidate_start
  have hle : s ≤ 2 ^ 63 := by
    rcases hs with rfl | ⟨i, -, hi, rfl⟩
    · norm_num
    · exact Nat.pow_le_pow_right (by norm_num) (by omega)
  exact ⟨Word64.mul s 2, by rw [if_pos (by omega)], hs.double⟩

/-- The last sizes wrap around, and `required_size` is the size of a header. -/
lemma requiredSize_wraps (hgt : 2 ^ 64 < n + 32) (hlt : n < 2 ^ 64) :
    requiredSize 1 n = some 16 := by
  have hround : alignUp (Word64.add n 16) 16 ≤ 16 := by
    simp only [alignUp, divRoundup, Word64.add, Word64.mul]
    omega
  rw [requiredSize, loop]
  simp [not_lt.mpr hround]

/-- `required_size` returns a power of two with room for the header and the payload. -/
lemma requiredSize_post {actual : ℕ} (hn : n ≠ 0) (hlt : n + 32 ≤ 2 ^ 64)
    (h : requiredSize fuel n = some actual) : ∃ j, 5 ≤ j ∧ actual = 2 ^ j ∧ n + 16 ≤ actual := by
  have hle : n ≤ 2 ^ 63 - 16 := by
    by_contra hgt
    rw [requiredSize_never (by omega) hlt] at h
    simp at h
  obtain rfl := (requiredSize_leastPower hle fuel).post h
  have hclog : 4 < Nat.clog 2 (n + 16) := (Nat.lt_clog_iff_pow_lt (by norm_num)).mpr (by omega)
  exact ⟨Nat.clog 2 (n + 16), hclog, rfl, le_leastPower _⟩

/-- `required_size` returns a power of two. -/
lemma requiredSize_pow {actual : ℕ} (h : requiredSize fuel n = some actual) :
    ∃ j, 4 ≤ j ∧ actual = 2 ^ j := by
  rw [requiredSize] at h
  generalize alignUp (Word64.add n 16) 16 = size at h
  -- a candidate of `0` is too small if any is
  refine loop_post (fun s => Candidate s ∧ (s = 0 → 0 < size))
    (Q := fun s => ∃ i, 4 ≤ i ∧ s = 2 ^ i) ?_ ⟨candidate_start, by simp⟩ h
  rintro s r ⟨hs, hzero⟩ hr
  split at hr
  · rename_i hlt
    obtain rfl := Option.some.inj hr
    exact ⟨hs.double, fun _ => by omega⟩
  · obtain rfl := Option.some.inj hr
    rcases hs with rfl | ⟨i, hi, -, rfl⟩
    · have := hzero rfl
      omega
    · exact ⟨i, hi, rfl⟩

lemma requiredSize_mono {actual f : ℕ} (hf : f ≤ fuel) (h : requiredSize f n = some actual) :
    requiredSize fuel n = some actual := loop_mono hf h

lemma requiredSize_unique {actual actual' f : ℕ} (h : requiredSize f n = some actual)
    (h' : requiredSize fuel n = some actual') : actual = actual' := by
  have h₁ := requiredSize_mono (Nat.le_max_left f fuel) h
  have h₂ := requiredSize_mono (Nat.le_max_right f fuel) h'
  exact Option.some.inj (h₁.symm.trans h₂)

/-- `required_size` of a request that leaves room for the header. -/
lemma requiredSize_le {j n : ℕ} (hj : 4 ≤ j) (hj' : j < 64) (hn : n + 16 ≤ 2 ^ j) :
    ∃ actual, requiredSize j n = some actual ∧ actual ≤ 2 ^ j := by
  have htop : 2 ^ j ≤ 2 ^ 63 := Nat.pow_le_pow_right (by norm_num) (by omega)
  have hclog : Nat.clog 2 (n + 16) ≤ j := (Nat.clog_le_iff_le_pow (by norm_num)).mpr hn
  obtain ⟨actual, hactual, rfl⟩ := (requiredSize_leastPower (n := n) (by omega) j).returns
    (by omega)
  exact ⟨_, hactual, leastPower_le_pow.mpr hn⟩

/-! ## Both -/

/-- `required_size` is the least power of two with room for the header and the payload, and
`ALIGN_UP_2(0x1000, a)` is the least power of two that is not below `a` or a page. -/
theorem rounding_isLeast :
    (∀ n, 1 ≤ n → n ≤ 2 ^ 62 →
      ∃ size, (∃ enough, ∀ fuel, enough ≤ fuel → requiredSize fuel n = some size) ∧
        IsLeast {p | (∃ j, p = 2 ^ j) ∧ n + 16 ≤ p} size) ∧
    (∀ a, 1 ≤ a → a ≤ 2 ^ 63 →
      ∃ size, (∃ enough, ∀ fuel, enough ≤ fuel → alignUp2 fuel 0x1000 a = some size) ∧
        IsLeast {p | (∃ j, p = 2 ^ j) ∧ max a 0x1000 ≤ p} size) := by
  constructor
  · intro n _ hn
    refine ⟨_, ⟨Nat.clog 2 (n + 16) + 1, fun fuel hf => ?_⟩, isLeast_leastPower (n + 16)⟩
    obtain ⟨size, hsize, rfl⟩ := (requiredSize_leastPower (n := n) (by omega) fuel).returns
      (by omega)
    exact hsize
  · intro a ha hle
    refine ⟨_, ⟨2 ^ 64, fun fuel hf => ?_⟩, isLeast_leastPower (max a 0x1000)⟩
    obtain ⟨size, hsize, rfl⟩ := (alignUp2_leastPower ha hle fuel).returns hf
    exact hsize

theorem rounding_isLeast_odd :
    (∃ size, (∃ enough, ∀ fuel, enough ≤ fuel → requiredSize fuel 17 = some size) ∧
      IsLeast {p | (∃ j, p = 2 ^ j) ∧ 17 + 16 ≤ p} size) ∧
    (∃ size, (∃ enough, ∀ fuel, enough ≤ fuel → alignUp2 fuel 0x1000 0x3001 = some size) ∧
      IsLeast {p | (∃ j, p = 2 ^ j) ∧ max 0x3001 0x1000 ≤ p} size) :=
  ⟨rounding_isLeast.1 17 (by norm_num) (by norm_num),
    rounding_isLeast.2 0x3001 (by norm_num) (by norm_num)⟩

end TurbOS.Heap
