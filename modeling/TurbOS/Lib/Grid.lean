import Mathlib

/-!
# Connected sets of pixels

Two pixels are near each other if their coordinates differ by one at most, in each direction.  A set
is connected if one gets from every pixel to every other one by steps between near pixels of the
set.
-/

namespace Grid

/-- The pixels touch each other, or they are the same. -/
def Near (p q : ℤ × ℤ) : Prop := |q.1 - p.1| ≤ 1 ∧ |q.2 - p.2| ≤ 1

lemma Near.symm {p q : ℤ × ℤ} (h : Near p q) : Near q p :=
  ⟨abs_sub_comm q.1 p.1 ▸ h.1, abs_sub_comm q.2 p.2 ▸ h.2⟩

/-- A step inside a set. -/
def Step (s : Set (ℤ × ℤ)) (p q : ℤ × ℤ) : Prop := p ∈ s ∧ q ∈ s ∧ Near p q

variable {s t : Set (ℤ × ℤ)} {p q : ℤ × ℤ} {l : List (ℤ × ℤ)}

lemma Step.symm (h : Step s p q) : Step s q p := ⟨h.2.1, h.1, h.2.2.symm⟩

lemma Step.mono (hst : s ⊆ t) (h : Step s p q) : Step t p q := ⟨hst h.1, hst h.2.1, h.2.2⟩

/-- Every pixel of the set is reached from every other one. -/
def Connected (s : Set (ℤ × ℤ)) : Prop := ∀ p ∈ s, ∀ q ∈ s, Relation.ReflTransGen (Step s) p q

/-- It is enough to reach all pixels from one of them. -/
lemma Connected.of_root (h : ∀ q ∈ s, Relation.ReflTransGen (Step s) p q) : Connected s := by
  intro a ha b hb
  have hback : Relation.ReflTransGen (Step s) a p := by
    have hp := h a ha
    induction hp with
    | refl => exact .refl
    | tail hpb hbc ih => exact .head hbc.symm (ih hbc.1)
  exact hback.trans (h b hb)

/-- The pixels of a chain of near pixels. -/
lemma connected_of_isChain (h : List.IsChain Near l) : Connected {p | p ∈ l} := by
  cases l with
  | nil => exact fun p hp => absurd hp (by simp)
  | cons a l =>
    refine Connected.of_root (p := a) ?_
    induction l generalizing a with
    | nil =>
      intro q hq
      obtain rfl : q = a := by simpa using hq
      exact .refl
    | cons b l ih =>
      intro q hq
      obtain ⟨hab, hrest⟩ := List.isChain_cons_cons.mp h
      rcases List.mem_cons.mp hq with rfl | hq
      · exact .refl
      · have hsub : {p | p ∈ b :: l} ⊆ {p | p ∈ a :: b :: l} :=
          fun _ hp => List.mem_cons_of_mem a hp
        have hstep : Step {p | p ∈ a :: b :: l} a b := ⟨by simp, by simp, hab⟩
        exact .head hstep (Relation.ReflTransGen.mono (fun _ _ => Step.mono hsub) _ _
          (ih b hrest q hq))

/-- The set is connected and contains both pixels. -/
structure Joins (s : Set (ℤ × ℤ)) (p q : ℤ × ℤ) : Prop where
  first : p ∈ s
  last : q ∈ s
  connected : Connected s

end Grid
