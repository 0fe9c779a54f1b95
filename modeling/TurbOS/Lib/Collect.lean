import Mathlib

/-!
# Loops that collect

A loop over a list that appends to an output in every round has appended, at its end, what the
rounds append one after the other.  Where every round marks its items with the element it is for, an
item is counted in the round of its own mark only.
-/

namespace Collect

variable {σ α β : Type*}

/-- What a loop appends to its output.  `I` is kept by the rounds. -/
lemma foldl_out {step : σ → α → σ} (out : σ → List β) (item : α → List β) (I : σ → Prop)
    {as : List α} (h : ∀ a ∈ as, ∀ s, I s → I (step s a) ∧ out (step s a) = out s ++ item a)
    {s : σ} (hs : I s) :
    I (as.foldl step s) ∧ out (as.foldl step s) = out s ++ as.flatMap item := by
  induction as generalizing s with
  | nil => simpa using hs
  | cons a as ih =>
    obtain ⟨hinv, hout⟩ := h a List.mem_cons_self s hs
    obtain ⟨hinv', hout'⟩ := ih (fun b hb => h b (List.mem_cons_of_mem a hb)) hinv
    refine ⟨hinv', ?_⟩
    rw [List.foldl_cons, hout', hout, List.append_assoc, List.flatMap_cons]

/-- An item with a mark is counted in the rounds for its mark. -/
lemma count_flatMap [DecidableEq α] [DecidableEq β] {f : α → List β} {m : β → α} (as : List α)
    (h : ∀ a, ∀ x ∈ f a, m x = a) (r : β) :
    (as.flatMap f).count r = as.count (m r) * (f (m r)).count r := by
  induction as with
  | nil => simp
  | cons a as ih =>
    rw [List.flatMap_cons, List.count_append, ih, List.count_cons]
    by_cases ha : a = m r
    · subst ha
      simp only [beq_self_eq_true, if_true]
      ring
    · have hzero : (f a).count r = 0 := List.count_eq_zero.mpr fun hr => ha (h a r hr).symm
      simp [hzero, ha]

lemma count_range (n k : ℕ) : (List.range n).count k = if k < n then 1 else 0 := by
  split
  · rename_i h
    exact List.count_eq_one_of_mem List.nodup_range (List.mem_range.mpr h)
  · rename_i h
    exact List.count_eq_zero.mpr fun hk => h (List.mem_range.mp hk)

end Collect
