import TurbOS.Lib.Fuel

/-!
# Waiting for a clock

A loop that reads a clock until the reading is one that it waits for.  The clock goes on by one
count at a time and is read at least once in every count, so the loop ends at the first count with
such a reading, and never if there is none.
-/

namespace Waiting

open Fuel

/-- How many counts have passed at each reading. -/
structure Readings (e : ℕ → ℕ) : Prop where
  start : e 0 = 0
  next : ∀ k, e (k + 1) = e k ∨ e (k + 1) = e k + 1
  unbounded : ∀ n, ∃ k, n ≤ e k

/-- Read the clock until `stop` holds; the result is the number of counts that have passed. -/
def wait (stop : ℕ → Bool) (e : ℕ → ℕ) (fuel : ℕ) : Option ℕ :=
  loop (fun k => some (if stop (e k) then .inr (e k) else .inl (k + 1))) fuel 0

variable {stop : ℕ → Bool} {e : ℕ → ℕ} {n fuel : ℕ}

namespace Readings

/-- Every count is read. -/
lemma exists_eq (h : Readings e) (n : ℕ) : ∃ k, e k = n ∧ ∀ j < k, e j < n := by
  have hex := h.unbounded n
  refine ⟨Nat.find hex, ?_, fun j hj => by simpa using Nat.find_min hex hj⟩
  have hle := Nat.find_spec hex
  rcases hk : Nat.find hex with _ | k
  · rw [hk, h.start] at hle
    rw [h.start]
    omega
  · have hlt := Nat.find_min hex (show k < Nat.find hex by omega)
    rw [hk] at hle
    have hnext := h.next k
    omega

/-- One reading in every count. -/
lemma id : Readings fun k => k := ⟨rfl, fun _ => .inr rfl, fun n => ⟨n, le_rfl⟩⟩

end Readings

/-- The loop ends at the first count at which it may. -/
lemma wait_ends (he : Readings e) (hn : IsLeast {n | stop n = true} n) :
    ∃ enough, ∀ fuel ≥ enough, wait stop e fuel = some n := by
  obtain ⟨k, hk, hbefore⟩ := he.exists_eq n
  have hloop : ∀ d j, j + d = k →
      loop (fun k => some (if stop (e k) then .inr (e k) else .inl (k + 1))) (d + 1) j =
        some n := by
    intro d
    induction d with
    | zero =>
      intro j hj
      obtain rfl : j = k := by omega
      have hstop : stop (e j) = true := by
        rw [hk]
        exact hn.1
      rw [loop_succ, if_pos hstop, hk]
      rfl
    | succ d ih =>
      intro j hj
      have hgoes : ¬ stop (e j) = true := fun hstop => by
        have hle := hn.2 hstop
        have hlt := hbefore j (by omega)
        omega
      rw [loop_succ, if_neg hgoes]
      exact ih (j + 1) (by omega)
  exact ⟨k + 1, fun fuel hfuel => loop_mono hfuel (hloop k 0 (by omega))⟩

/-- Without a count at which it may end the loop goes on for ever. -/
lemma wait_never (e : ℕ → ℕ) (hstop : ∀ n, stop n = false) (fuel : ℕ) :
    wait stop e fuel = none := by
  refine loop_never (fun _ => True) (fun k _ => ⟨k + 1, ?_, trivial⟩) fuel trivial
  rw [hstop, if_neg Bool.false_ne_true]

/-- What a loop returns that has ended. -/
lemma wait_some (he : Readings e) (h : wait stop e fuel = some n) :
    IsLeast {n | stop n = true} n := by
  by_cases hex : ∃ n, stop n = true
  · have hleast : IsLeast {n | stop n = true} (Nat.find hex) :=
      ⟨Nat.find_spec hex, fun m hm => Nat.find_min' hex hm⟩
    obtain ⟨enough, hends⟩ := wait_ends he hleast
    have hmore : wait stop e (max fuel enough) = some n := loop_mono (le_max_left _ _) h
    rw [hends _ (le_max_right _ _), Option.some.injEq] at hmore
    rwa [← hmore]
  · simp only [not_exists, Bool.not_eq_true] at hex
    rw [wait_never e hex] at h
    simp at h

/-- The run ends, however often the clock is read, and the number of counts that pass is as it
should be. -/
def Lasts (run : (ℕ → ℕ) → ℕ → Option ℕ) (P : ℕ → Prop) : Prop :=
  ∀ e, Readings e → ∃ enough n, (∀ fuel ≥ enough, run e fuel = some n) ∧ P n

lemma lasts_wait_iff {P : ℕ → Prop} (hn : IsLeast {n | stop n = true} n) :
    Lasts (wait stop) P ↔ P n := by
  constructor
  · intro h
    obtain ⟨enough, m, hends, hm⟩ := h _ .id
    rwa [(wait_some .id (hends enough le_rfl)).unique hn] at hm
  · intro h e he
    obtain ⟨enough, hends⟩ := wait_ends he hn
    exact ⟨enough, n, hends, h⟩

end Waiting
