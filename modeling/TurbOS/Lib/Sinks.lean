import Mathlib

/-!
# Destinations for characters

A program that produces a text character by character hands every character to a destination,
together with its place in the text.  What the destination does with it is a function on the state
of the destination.

A bounded buffer is such a destination: it stores the characters whose places lie inside and drops
the others.  In the end it holds the front part of the text.
-/

namespace Sinks

variable {α σ : Type*}

/-- Hand the characters over, the first one with the place `i`. -/
def emits (out : α → ℕ → σ → σ) : List α → ℕ → σ → σ
  | [], _, s => s
  | c :: cs, i, s => emits out cs (i + 1) (out c i s)

lemma emits_append (out : α → ℕ → σ → σ) (cs ds : List α) (i : ℕ) (s : σ) :
    emits out (cs ++ ds) i s = emits out ds (i + cs.length) (emits out cs i s) := by
  induction cs generalizing i s with
  | nil => rfl
  | cons c cs ih =>
    rw [List.cons_append, emits, ih, emits, List.length_cons]
    congr 1
    omega

/-- A destination that ignores the places. -/
lemma emits_foldl (f : α → σ → σ) (cs : List α) (i : ℕ) (s : σ) :
    emits (fun c _ => f c) cs i s = cs.foldl (fun s c => f c s) s := by
  induction cs generalizing i s with
  | nil => rfl
  | cons c cs ih => rw [emits, ih, List.foldl_cons]

/-! ## Buffers -/

/-- A buffer with `n` places. -/
def bounded (n : ℕ) (c : α) (i : ℕ) (m : ℕ → α) : ℕ → α :=
  if i < n then Function.update m i c else m

lemma bounded_of_ne {n i x : ℕ} (c : α) (m : ℕ → α) (h : x ≠ i) : bounded n c i m x = m x := by
  rw [bounded]
  split
  · exact Function.update_of_ne h c m
  · rfl

/-- A place of the buffer holds the character of this place, if there is one. -/
lemma emits_bounded (n : ℕ) (cs : List α) (i : ℕ) (m : ℕ → α) (x : ℕ) :
    emits (bounded n) cs i m x = if i ≤ x ∧ x < n then cs[x - i]?.getD (m x) else m x := by
  induction cs generalizing i m with
  | nil => simp [emits]
  | cons c cs ih =>
    rw [emits, ih]
    rcases Nat.lt_trichotomy x i with hx | rfl | hx
    · -- in front of the text
      rw [bounded_of_ne c m (by omega), if_neg (by omega), if_neg (by omega)]
    · -- the place of the first character
      rw [if_neg (by omega), Nat.sub_self, List.getElem?_cons_zero, bounded]
      by_cases hn : x < n
      · rw [if_pos hn, if_pos ⟨le_rfl, hn⟩, Function.update_self]
        rfl
      · rw [if_neg hn, if_neg (by omega)]
    · have hrest : (c :: cs)[x - i]? = cs[x - (i + 1)]? := by
        obtain ⟨k, rfl⟩ : ∃ k, x = i + 1 + k := ⟨x - (i + 1), by omega⟩
        rw [show i + 1 + k - i = k + 1 by omega, Nat.add_sub_cancel_left, List.getElem?_cons_succ]
      rw [hrest, bounded_of_ne c m (by omega)]
      by_cases hn : x < n
      · rw [if_pos ⟨by omega, hn⟩, if_pos ⟨by omega, hn⟩]
      · rw [if_neg (by omega), if_neg (by omega)]

end Sinks
