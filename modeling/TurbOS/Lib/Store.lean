import Mathlib

/-!
# Stores of objects

A program that creates objects and frees them refers to them by handles.  A store keeps
the objects that exist: handles are natural numbers, a new object gets a handle that was
never used before, and a freed handle refers to nothing from then on.
-/

/-- The objects that exist.  Handles from `next` on have not been used yet. -/
structure Store (α : Type*) where
  get : ℕ → Option α
  next : ℕ
  fresh : ∀ i, next ≤ i → get i = none

namespace Store

variable {α : Type*}

/-- The store without objects. -/
def empty : Store α := ⟨fun _ => none, 0, fun _ _ => rfl⟩

/-- Create an object; its handle is `s.next`. -/
def alloc (s : Store α) (a : α) : Store α where
  get := Function.update s.get s.next (some a)
  next := s.next + 1
  fresh := fun i hi => by
    rw [Function.update_of_ne (by omega)]
    exact s.fresh i (by omega)

/-- Change an object; nothing happens if it does not exist. -/
def modify (s : Store α) (i : ℕ) (f : α → α) : Store α where
  get := fun j => if j = i then (s.get i).map f else s.get j
  next := s.next
  fresh := fun j hj => by
    split
    · rename_i h
      rw [← h, s.fresh j hj, Option.map_none]
    · exact s.fresh j hj

/-- Remove an object. -/
def free (s : Store α) (i : ℕ) : Store α where
  get := Function.update s.get i none
  next := s.next
  fresh := fun j hj => by
    by_cases h : j = i
    · rw [h, Function.update_self]
    · rw [Function.update_of_ne h]
      exact s.fresh j hj

lemma lt_next {s : Store α} {i : ℕ} {a : α} (h : s.get i = some a) : i < s.next := by
  by_contra hi
  rw [s.fresh i (by omega)] at h
  exact absurd h (by simp)

@[simp] lemma get_empty (i : ℕ) : (empty : Store α).get i = none := rfl

@[simp] lemma next_empty : (empty : Store α).next = 0 := rfl

@[simp] lemma next_alloc (s : Store α) (a : α) : (s.alloc a).next = s.next + 1 := rfl

@[simp] lemma next_modify (s : Store α) (i : ℕ) (f : α → α) : (s.modify i f).next = s.next := rfl

@[simp] lemma next_free (s : Store α) (i : ℕ) : (s.free i).next = s.next := rfl

lemma get_alloc (s : Store α) (a : α) (i : ℕ) :
    (s.alloc a).get i = if i = s.next then some a else s.get i := by
  rw [alloc]
  by_cases h : i = s.next <;> simp [h]

@[simp] lemma get_alloc_next (s : Store α) (a : α) : (s.alloc a).get s.next = some a := by
  simp [get_alloc]

lemma get_alloc_of_lt {s : Store α} {i : ℕ} (a : α) (h : i < s.next) :
    (s.alloc a).get i = s.get i := by
  rw [get_alloc, if_neg (by omega)]

lemma get_modify (s : Store α) (i : ℕ) (f : α → α) (j : ℕ) :
    (s.modify i f).get j = if j = i then (s.get i).map f else s.get j := rfl

@[simp] lemma get_modify_self (s : Store α) (i : ℕ) (f : α → α) :
    (s.modify i f).get i = (s.get i).map f := by
  simp [get_modify]

lemma get_modify_of_ne {s : Store α} {i j : ℕ} (f : α → α) (h : j ≠ i) :
    (s.modify i f).get j = s.get j := by
  rw [get_modify, if_neg h]

/-- Nothing changes when an object is replaced by itself. -/
lemma modify_eq_self {s : Store α} {i : ℕ} {a : α} (h : s.get i = some a) :
    (s.modify i fun _ => a) = s := by
  have hget : (s.modify i fun _ => a).get = s.get := by
    ext1 j
    rw [get_modify]
    split
    · rename_i hj
      rw [hj, h, Option.map_some]
    · rfl
  cases s
  rw [modify] at hget ⊢
  congr

/-- An object of the modified store comes from an object of the store. -/
lemma get_modify_eq_some {s : Store α} {i j : ℕ} {f : α → α} {b : α}
    (h : (s.modify i f).get j = some b) :
    ∃ a, s.get j = some a ∧ b = if j = i then f a else a := by
  rw [get_modify] at h
  split at h
  · rename_i hj
    obtain ⟨a, ha, rfl⟩ := Option.map_eq_some_iff.mp h
    exact ⟨a, by rw [hj, ha], by rw [if_pos hj]⟩
  · rename_i hj
    exact ⟨b, h, by rw [if_neg hj]⟩

/-- An object of the store is still there after another one was modified. -/
lemma get_modify_of_eq_some {s : Store α} {i j : ℕ} (f : α → α) {a : α} (h : s.get j = some a) :
    (s.modify i f).get j = some (if j = i then f a else a) := by
  rw [get_modify]
  split
  · rename_i hj
    rw [← hj, h, Option.map_some]
  · exact h

@[simp] lemma isSome_get_modify (s : Store α) (i j : ℕ) (f : α → α) :
    ((s.modify i f).get j).isSome = (s.get j).isSome := by
  rw [get_modify]
  split
  · rename_i hj
    rw [Option.isSome_map, hj]
  · rfl

lemma get_free (s : Store α) (i j : ℕ) :
    (s.free i).get j = if j = i then none else s.get j := by
  rw [free]
  by_cases h : j = i <;> simp [h]

end Store
