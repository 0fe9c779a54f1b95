import Mathlib

/-!
# Saving what is overwritten

A program that draws over a part of a memory saves the cells first and puts them back later.  A key
`k` stands for one cell, at the address `f k`; its old value is kept in the place `g k` of a buffer.

The state of the program may be anything that has a memory `mem s` and a buffer `buf s`: the lemmas
are about a step function that does the right thing to these two.
-/

namespace SaveUnder

variable {σ K A B V : Type*} [DecidableEq A] (mem : σ → A → V) (buf : σ → B → V)
  (f : K → A) (g : K → B) {step : σ → K → σ} {v : K → V} {ks : List K} {s : σ}

/-- Overwriting cells changes no others. -/
lemma foldl_write_outside (hmem : ∀ s k, mem (step s k) = Function.update (mem s) (f k) (v k))
    {a : A} (ha : ∀ k ∈ ks, f k ≠ a) : mem (ks.foldl step s) a = mem s a := by
  induction ks generalizing s with
  | nil => rfl
  | cons k ks ih =>
    rw [List.foldl_cons, ih fun k' hk' => ha k' (List.mem_cons_of_mem k hk'), hmem,
      Function.update_of_ne (ha k List.mem_cons_self).symm]

/-- After cells at different addresses were saved to different places and overwritten, the buffer
holds what they held. -/
lemma foldl_save [DecidableEq B]
    (hmem : ∀ s k, mem (step s k) = Function.update (mem s) (f k) (v k))
    (hbuf : ∀ s k, buf (step s k) = Function.update (buf s) (g k) (mem s (f k)))
    (hf : (ks.map f).Nodup) (hg : (ks.map g).Nodup) :
    ∀ k ∈ ks, buf (ks.foldl step s) (g k) = mem s (f k) := by
  induction ks generalizing s with
  | nil => simp
  | cons k ks ih =>
    rw [List.map_cons, List.nodup_cons] at hf hg
    intro k' hk'
    rw [List.foldl_cons]
    rcases List.mem_cons.mp hk' with rfl | hk'
    · -- the later rounds use other places
      have hplace : ∀ (ks : List K) (s : σ), g k' ∉ ks.map g →
          buf (ks.foldl step s) (g k') = buf s (g k') := by
        intro ks
        induction ks with
        | nil => simp
        | cons k ks ih =>
          intro s hk
          rw [List.map_cons, List.mem_cons, not_or] at hk
          rw [List.foldl_cons, ih _ hk.2, hbuf, Function.update_of_ne hk.1]
      rw [hplace ks _ hg.1, hbuf, Function.update_self]
    · have hne : f k' ≠ f k := by
        intro heq
        exact hf.1 (heq ▸ List.mem_map_of_mem hk')
      rw [ih hf.2 hg.2 k' hk', hmem, Function.update_of_ne hne]

/-- Putting the cells back: the memory is `m` again if it differs from `m` in these cells only and
the buffer holds what `m` holds there. -/
lemma foldl_restore {m : A → V}
    (hmem : ∀ s k, mem (step s k) = Function.update (mem s) (f k) (buf s (g k)))
    (hbuf : ∀ s k, buf (step s k) = buf s) (hsaved : ∀ k ∈ ks, buf s (g k) = m (f k))
    (hout : ∀ a, (∀ k ∈ ks, f k ≠ a) → mem s a = m a) : mem (ks.foldl step s) = m := by
  induction ks generalizing s with
  | nil =>
    ext a
    exact hout a (by simp)
  | cons k ks ih =>
    rw [List.foldl_cons]
    refine ih (fun k' hk' => ?_) (fun a ha => ?_)
    · rw [hbuf]
      exact hsaved k' (List.mem_cons_of_mem k hk')
    · rw [hmem]
      by_cases hk : a = f k
      · rw [hk, Function.update_self, hsaved k List.mem_cons_self]
      · rw [Function.update_of_ne hk]
        refine hout a fun k' hk' => ?_
        rcases List.mem_cons.mp hk' with rfl | hk'
        · exact Ne.symm hk
        · exact ha k' hk'

end SaveUnder
