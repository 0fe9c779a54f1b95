import Mathlib

/-!
# The last write

Calls change a state one after the other.  A part of the state that every call either writes or
leaves alone holds in the end what was written to it last, or what it held in the beginning
(`part_foldl`); calls that do not write it may be left out (`last_filter`).
-/

namespace LastWrite

variable {σ ω α : Type*}

/-- What the calls write last to a part of the state; `sets` is what one of them writes. -/
def last (sets : ω → Option α) (ws : List ω) : Option α := (ws.filterMap sets).getLast?

lemma last_cons (sets : ω → Option α) (w : ω) (ws : List ω) (a : α) :
    (last sets (w :: ws)).getD a = (last sets ws).getD ((sets w).getD a) := by
  rw [last, last]
  cases hw : sets w with
  | none => rw [List.filterMap_cons_none hw, Option.getD_none]
  | some b =>
    rw [List.filterMap_cons_some hw, List.getLast?_cons, Option.getD_some, Option.getD_some]

lemma part_foldl (step : σ → ω → σ) (part : σ → α) (sets : ω → Option α)
    (h : ∀ s w, part (step s w) = (sets w).getD (part s)) (ws : List ω) (s : σ) :
    part (ws.foldl step s) = (last sets ws).getD (part s) := by
  induction ws generalizing s with
  | nil => rfl
  | cons w ws ih => rw [List.foldl_cons, ih, h, last_cons]

lemma last_filter {sets : ω → Option α} {p : ω → Bool} (hp : ∀ w, p w = false → sets w = none)
    (ws : List ω) : last sets (ws.filter p) = last sets ws := by
  rw [last, last, List.filterMap_filter]
  congr 1
  refine List.filterMap_congr fun w _ => ?_
  cases hw : p w with
  | false => simp [hp w hw]
  | true => simp

end LastWrite
