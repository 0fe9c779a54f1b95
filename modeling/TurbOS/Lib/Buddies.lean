import TurbOS.Lib.Tiling

/-!
# Buddies

In a buddy tiling a block of the size `s` starts at a multiple of `s`, and a join of two blocks
gives back the block that they were cut from: the left one starts at a multiple of `2 * s`.

A join looks at the sizes and the marks of two neighbours only.  It joins buddies as long as
the layout has no two free ranges of one length side by side that are not the halves of an
aligned range (`Apart`); this is not lost by further joins.  Cutting a block keeps the
alignment in any case.
-/

namespace Tiling

variable {xs ys : List Block} {o : ℕ}

/-! ## Joins in a part of a tiling -/

namespace Merge

lemma append_left (h : Merge xs ys) (pre : List Block) : Merge (pre ++ xs) (pre ++ ys) := by
  cases h with
  | mk p s q =>
    rw [← List.append_assoc, ← List.append_assoc]
    exact Merge.mk (pre ++ p) s q

lemma append_right (h : Merge xs ys) (post : List Block) : Merge (xs ++ post) (ys ++ post) := by
  cases h with
  | mk p s q =>
    rw [List.append_assoc, List.append_assoc]
    exact Merge.mk p s (q ++ post)

/-- A join that leads to two parts was made in one of them. -/
lemma append_inv {us vs : List Block} (h : Merge xs (us ++ vs)) :
    (∃ us', xs = us' ++ vs ∧ Merge us' us) ∨ ∃ vs', xs = us ++ vs' ∧ Merge vs' vs := by
  generalize hys : us ++ vs = ys at h
  cases h with
  | mk p s q =>
    rcases List.append_eq_append_iff.mp hys with ⟨t, rfl, rfl⟩ | ⟨t, rfl, ht⟩
    · exact .inr ⟨_, by simp, Merge.mk t s q⟩
    · cases t with
      | nil =>
        rw [List.nil_append] at ht
        rw [List.append_nil, ← ht]
        exact .inr ⟨_, rfl, Merge.mk [] s q⟩
      | cons b t =>
        obtain ⟨rfl, rfl⟩ := List.cons.inj ht
        exact .inl ⟨_, by simp, Merge.mk p s t⟩

lemma forall_free (h : Merge xs ys) (hy : ∀ b ∈ ys, b.free = true) : ∀ b ∈ xs, b.free = true := by
  cases h with
  | mk p s q =>
    intro b hb
    simp only [List.mem_append, List.mem_cons] at hb
    rcases hb with hb | rfl | rfl | hb
    · exact hy b (by simp [hb])
    · rfl
    · rfl
    · exact hy b (by simp [hb])

end Merge

namespace Merges

lemma append (h : Merges xs ys) (pre post : List Block) :
    Merges (pre ++ xs ++ post) (pre ++ ys ++ post) := by
  induction h with
  | refl => exact .refl
  | tail _ hm ih => exact ih.tail ((hm.append_left pre).append_right post)

/-- Joins that lead to two parts were made in the two parts. -/
lemma append_inv {us vs : List Block} (h : Merges xs (us ++ vs)) :
    ∃ us' vs', xs = us' ++ vs' ∧ Merges us' us ∧ Merges vs' vs := by
  generalize hys : us ++ vs = ys at h
  induction h generalizing us vs with
  | refl => exact ⟨us, vs, hys.symm, .refl, .refl⟩
  | tail _ hm ih =>
    subst hys
    rcases hm.append_inv with ⟨us', rfl, hus⟩ | ⟨vs', rfl, hvs⟩
    · obtain ⟨us₁, vs₁, rfl, h₁, h₂⟩ := ih rfl
      exact ⟨us₁, vs₁, rfl, h₁.tail hus, h₂⟩
    · obtain ⟨us₁, vs₁, rfl, h₁, h₂⟩ := ih rfl
      exact ⟨us₁, vs₁, rfl, h₁, h₂.tail hvs⟩

lemma forall_free (h : Merges xs ys) (hy : ∀ b ∈ ys, b.free = true) : ∀ b ∈ xs, b.free = true := by
  induction h with
  | refl => exact hy
  | tail _ hm ih => exact ih (hm.forall_free hy)

end Merges

/-! ## Alignment -/

/-- Every block starts at a multiple of its size, when the first one starts at `o`. -/
def AlignedFrom : ℕ → List Block → Prop
  | _, [] => True
  | o, b :: bs => b.size ∣ o ∧ AlignedFrom (o + b.size) bs

lemma alignedFrom_append :
    AlignedFrom o (xs ++ ys) ↔ AlignedFrom o xs ∧ AlignedFrom (o + total xs) ys := by
  induction xs generalizing o with
  | nil => simp [AlignedFrom]
  | cons b xs ih =>
    rw [List.cons_append, AlignedFrom, ih, AlignedFrom, total_cons, and_assoc, Nat.add_assoc]

lemma AlignedFrom.dvd (h : AlignedFrom o xs) {c : ℕ} {b : Block} (hb : (c, b) ∈ spans o xs) :
    b.size ∣ c := by
  obtain ⟨pre, post, rfl, rfl⟩ := mem_spans_iff.mp hb
  exact (alignedFrom_append.mp h).2.1

/-- Only the sizes matter. -/
lemma AlignedFrom.congr (h : AlignedFrom o xs) (hsize : ys.map Block.size = xs.map Block.size) :
    AlignedFrom o ys := by
  induction xs generalizing o ys with
  | nil =>
    rw [List.map_nil, List.map_eq_nil_iff] at hsize
    rw [hsize]
    exact h
  | cons b xs ih =>
    cases ys with
    | nil => simp at hsize
    | cons d ys =>
      rw [List.map_cons, List.map_cons] at hsize
      obtain ⟨hd, htail⟩ := List.cons.inj hsize
      rw [AlignedFrom, hd]
      exact ⟨h.1, ih h.2 htail⟩

/-- What a block was joined from is aligned if the block is. -/
lemma Merge.alignedFrom (h : Merge xs ys) (hy : AlignedFrom o ys) : AlignedFrom o xs := by
  cases h with
  | mk p s q =>
    rw [alignedFrom_append] at hy ⊢
    obtain ⟨hp, hdvd, hq⟩ := hy
    dsimp only at hdvd hq
    have hs : s ∣ o + total p := (Dvd.intro_left 2 rfl).trans hdvd
    refine ⟨hp, hs, (Nat.dvd_add_right hs).mpr dvd_rfl, ?_⟩
    rwa [Nat.add_assoc _ s, ← two_mul]

lemma Merges.alignedFrom (h : Merges xs ys) (hy : AlignedFrom o ys) : AlignedFrom o xs := by
  induction h with
  | refl => exact hy
  | tail _ hm ih => exact ih (hm.alignedFrom hy)

/-! ## Joins of buddies -/

/-- Two free ranges of one length side by side are the halves of an aligned range, if they are
aligned themselves. -/
def Apart (bs : List Block) : Prop :=
  ∀ (pre us vs post : List Block) (j : ℕ), bs = pre ++ (us ++ (vs ++ post)) →
    (∀ b ∈ us, b.free = true) → (∀ b ∈ vs, b.free = true) → total us = 2 ^ j → total vs = 2 ^ j →
    2 ^ j ∣ total pre → 2 ^ (j + 1) ∣ total pre

lemma Merges.apart (h : Merges xs ys) (hx : Apart xs) : Apart ys := by
  rintro pre us vs post j rfl hus hvs hu hv hdvd
  obtain ⟨pre', r, rfl, hpre, hr⟩ := h.append_inv
  obtain ⟨us', r', rfl, hus', hr'⟩ := hr.append_inv
  obtain ⟨vs', post', rfl, hvs', -⟩ := hr'.append_inv
  rw [hpre.total_eq] at hdvd ⊢
  exact hx pre' us' vs' post' j rfl (hus'.forall_free hus) (hvs'.forall_free hvs)
    (hus'.total_eq ▸ hu) (hvs'.total_eq ▸ hv) hdvd

/-- Joins keep the alignment of a layout without wrong neighbours. -/
lemma Merges.alignedFrom_of_apart {k : ℕ} (h : Merges xs ys) (hp : PowersFrom k xs)
    (hx : Apart xs) (ha : AlignedFrom 0 xs) : AlignedFrom 0 ys := by
  induction h with
  | refl => exact ha
  | @tail zs ys h hm ih =>
    have hz := Merges.apart h hx
    have hpow := hp.merges h
    cases hm with
    | mk p s q =>
      obtain ⟨j, -, hj⟩ := hpow ⟨s, true⟩ (by simp)
      dsimp only at hj
      rw [alignedFrom_append] at ih ⊢
      obtain ⟨hpre, hs, -, hq⟩ := ih
      dsimp only at hs hq
      have hdvd := hz p [⟨s, true⟩] [⟨s, true⟩] q j rfl (by simp) (by simp) (by simpa using hj)
        (by simpa using hj) (by simpa [hj] using hs)
      refine ⟨hpre, ?_, ?_⟩
      · rw [hj, ← pow_succ']
        simpa using hdvd
      · rwa [Nat.add_assoc _ s, ← two_mul] at hq

end Tiling
