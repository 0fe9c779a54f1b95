import TurbOS.Lib.Word64

/-!
# `TurboVector`

The vector of the kernel, as far as the scheduler uses it: the elements below `length`,
and whether storage was set up.  Storage above `length` is never read by these callers,
and `push_back` is assumed to get its memory.

`find` compares addresses where it should compare elements, so it returns `0` for every
vector that is not empty.  `remove` stops one step early: it leaves the last but one
element where it is and copies it as well.
-/

namespace TurbOS

/-- `TurboVector<T>`. -/
structure TurboVector (α : Type) where
  isInit : Bool := false
  items : List α := []
deriving DecidableEq, Repr

namespace TurboVector

variable {α : Type}

/-- `size`. -/
def size (v : TurboVector α) : ℕ := v.items.length

/-- `push_back`. -/
def pushBack (v : TurboVector α) (item : α) : TurboVector α :=
  { isInit := true, items := v.items ++ [item] }

/-- `find`: the condition `data == (data + index)` does not mention the argument. -/
def find (v : TurboVector α) (_thing : α) : ℕ :=
  ((List.range v.size).find? fun index => 0 == index).getD (2 ^ 64 - 1)

/-- The loop of `remove`: `n` rounds, which move an element one place down each. -/
def shift (position : ℕ) : ℕ → List α → Option (List α)
  | 0, xs => some xs
  | n + 1, xs => (shift position n xs).bind fun xs =>
      xs[position + n + 1]?.map fun x => xs.set (position + n) x

/-- `remove`.  On an empty vector `length - 1` wraps around and the loop leaves the
storage, which is a fault here, like any access beyond `length`. -/
def remove (v : TurboVector α) (position : ℕ) : Option (TurboVector α) :=
  if v.isInit then
    if v.size = 0 then none
    else (shift position (v.size - 2) v.items).map fun xs =>
      { v with items := xs.take (v.size - 1) }
  else some v

lemma find_eq (v : TurboVector α) (x : α) :
    v.find x = if v.items = [] then 2 ^ 64 - 1 else 0 := by
  rw [find, size]
  cases v.items with
  | nil => rfl
  | cons y ys =>
    rw [List.length_cons, List.range_succ_eq_map]
    simp

/-- The loops of the scheduler that start at `find + 1` start at `1`, or find nothing. -/
lemma drop_find_succ (v : TurboVector α) (x : α) :
    v.items.drop (Word64.add (v.find x) 1) = v.items.drop 1 := by
  rw [find_eq]
  split
  · rename_i h
    simp [h]
  · rfl

/-- What the loop of `remove` does, as long as it stays inside the storage. -/
lemma getElem?_shift (xs : List α) (position n : ℕ)
    (h : n = 0 ∨ position + n < xs.length) :
    ∃ ys, shift position n xs = some ys ∧ ys.length = xs.length ∧
      ∀ j, ys[j]? = if position ≤ j ∧ j < position + n then xs[j + 1]? else xs[j]? := by
  induction n with
  | zero => exact ⟨xs, rfl, rfl, fun j => by rw [if_neg (by omega)]⟩
  | succ n ih =>
    obtain ⟨ys, hys, hlen, hget⟩ := ih (.inr (by omega))
    have hlt : position + n + 1 < ys.length := by omega
    refine ⟨ys.set (position + n) ys[position + n + 1], ?_, by simp [hlen], fun j => ?_⟩
    · rw [shift, hys, Option.bind_some, List.getElem?_eq_getElem hlt, Option.map_some]
    · have hnext : ys[position + n + 1]? = xs[position + n + 1]? := by
        rw [hget, if_neg (by omega)]
      rw [List.getElem?_set]
      split
      · rename_i heq
        rw [if_pos (by omega), if_pos (by omega), ← heq, ← hnext, List.getElem?_eq_getElem hlt]
      · rename_i hne
        rw [hget]
        by_cases hj : position ≤ j ∧ j < position + n
        · rw [if_pos hj, if_pos (by omega)]
        · rw [if_neg hj, if_neg (by omega)]

/-- What the loop of `remove` did, if it stayed inside the storage. -/
lemma shift_spec {position n : ℕ} {xs ys : List α}
    (h : shift position n xs = some ys) :
    ys.length = xs.length ∧ ∀ j, ys[j]? =
      if position ≤ j ∧ j < position + n then xs[j + 1]? else xs[j]? := by
  induction n generalizing ys with
  | zero =>
    obtain rfl := Option.some.inj h
    refine ⟨rfl, fun j => ?_⟩
    rw [if_neg (by omega)]
  | succ n ih =>
    obtain ⟨zs, hzs, h⟩ := Option.bind_eq_some_iff.mp h
    obtain ⟨x, hx, rfl⟩ := Option.map_eq_some_iff.mp h
    obtain ⟨hlen, hget⟩ := ih hzs
    refine ⟨by rw [List.length_set, hlen], fun j => ?_⟩
    rw [hget, if_neg (by omega)] at hx
    rw [List.getElem?_set, hget]
    by_cases hj : position + n = j
    · have hlt : position + n < zs.length := by
        rw [hlen]
        have := (List.getElem?_eq_some_iff.mp hx).1
        omega
      rw [if_pos hj, if_pos hlt, if_pos (by omega), ← hj, hx]
    · rw [if_neg hj]
      by_cases hin : position ≤ j ∧ j < position + n
      · rw [if_pos hin, if_pos (by omega)]
      · rw [if_neg hin, if_neg (by omega)]

end TurboVector

end TurbOS
