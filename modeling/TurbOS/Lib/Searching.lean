import Mathlib

/-!
# Searches that skip matches

A search that goes through a list and passes over the first `skip` elements that match returns the
element of that number among those that match; it returns nothing exactly if there are no more of
them than it passes over.
-/

namespace Searching

variable {α : Type*} (p : α → Prop) [DecidablePred p]

/-- The first element that matches after `skip` of them. -/
def pick : ℕ → List α → Option α
  | _, [] => none
  | 0, a :: as => if p a then some a else pick 0 as
  | skip + 1, a :: as => if p a then pick skip as else pick (skip + 1) as

variable {p} {skip : ℕ} {a : α} {as : List α}

lemma pick_of_not (h : ¬ p a) : pick p skip (a :: as) = pick p skip as := by
  cases skip <;> rw [pick, if_neg h]

lemma pick_eq (skip : ℕ) (as : List α) : pick p skip as = (as.filter p)[skip]? := by
  induction as generalizing skip with
  | nil => cases skip <;> rfl
  | cons a as ih =>
    by_cases h : p a
    · rw [List.filter_cons_of_pos (by simpa using h)]
      cases skip with
      | zero => rw [pick, if_pos h, List.getElem?_cons_zero]
      | succ skip => rw [pick, if_pos h, List.getElem?_cons_succ, ih]
    · rw [pick_of_not h, ih, List.filter_cons_of_neg (by simpa using h)]

lemma pick_eq_none_iff : pick p skip as = none ↔ as.countP p ≤ skip := by
  rw [pick_eq, List.getElem?_eq_none_iff, List.countP_eq_length_filter]

end Searching
