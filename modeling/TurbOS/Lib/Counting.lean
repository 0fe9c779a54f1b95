import Mathlib

/-!
# Counting below a bound

The number of indices below a bound that satisfy a predicate, and how it changes when the
predicate changes on a run of consecutive indices.
-/

namespace Counting

/-- The number of indices below `n` that satisfy `p`. -/
def count (n : ℕ) (p : ℕ → Prop) [DecidablePred p] : ℕ := ((Finset.range n).filter p).card

variable {n : ℕ} {p q : ℕ → Prop} [DecidablePred p] [DecidablePred q]

lemma count_congr (h : ∀ i < n, p i ↔ q i) : count n p = count n q := by
  rw [count, count]
  congr 1
  ext i
  simp only [Finset.mem_filter, Finset.mem_range]
  constructor
  · rintro ⟨hi, hp⟩
    exact ⟨hi, (h i hi).mp hp⟩
  · rintro ⟨hi, hq⟩
    exact ⟨hi, (h i hi).mpr hq⟩

lemma count_le : count n p ≤ n :=
  (Finset.card_filter_le _ _).trans_eq (Finset.card_range n)

/-- Nothing below the bound satisfies the predicate. -/
lemma count_eq_zero (h : ∀ i < n, ¬ p i) : count n p = 0 := by
  rw [count, Finset.card_eq_zero, Finset.filter_eq_empty_iff]
  intro i hi
  exact h i (Finset.mem_range.mp hi)

/-- A run of `k` indices that satisfy the predicate. -/
lemma le_count_of_run {a k : ℕ} (hle : a + k ≤ n) (hrun : ∀ i, a ≤ i → i < a + k → p i) :
    k ≤ count n p := by
  have hsub : Finset.Ico a (a + k) ⊆ (Finset.range n).filter p := by
    intro i hi
    obtain ⟨h₁, h₂⟩ := Finset.mem_Ico.mp hi
    have hi : i < n := by omega
    exact Finset.mem_filter.mpr ⟨Finset.mem_range.mpr hi, hrun i h₁ h₂⟩
  have hcard := Finset.card_le_card hsub
  rw [Nat.card_Ico] at hcard
  rw [count]
  omega

/-- A run of `k` indices that satisfied nothing so far adds `k` to the number. -/
lemma count_add_run {a k : ℕ} (hle : a + k ≤ n) (hnew : ∀ i, a ≤ i → i < a + k → ¬ p i)
    (hq : ∀ i < n, q i ↔ p i ∨ (a ≤ i ∧ i < a + k)) : count n q = count n p + k := by
  have hunion : (Finset.range n).filter q = (Finset.range n).filter p ∪ Finset.Ico a (a + k) := by
    ext i
    simp only [Finset.mem_filter, Finset.mem_range, Finset.mem_union, Finset.mem_Ico]
    constructor
    · rintro ⟨hi, hqi⟩
      rcases (hq i hi).mp hqi with hpi | hrun
      · exact .inl ⟨hi, hpi⟩
      · exact .inr hrun
    · rintro (⟨hi, hpi⟩ | hrun)
      · exact ⟨hi, (hq i hi).mpr (.inl hpi)⟩
      · have hi : i < n := by omega
        exact ⟨hi, (hq i hi).mpr (.inr hrun)⟩
  have hdisjoint : Disjoint ((Finset.range n).filter p) (Finset.Ico a (a + k)) := by
    rw [Finset.disjoint_left]
    intro i hi hrun
    obtain ⟨h₁, h₂⟩ := Finset.mem_Ico.mp hrun
    exact hnew i h₁ h₂ (Finset.mem_filter.mp hi).2
  rw [count, count, hunion, Finset.card_union_of_disjoint hdisjoint, Nat.card_Ico]
  omega

end Counting
