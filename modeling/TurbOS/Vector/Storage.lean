import Mathlib

/-!
# `TurboVector` with its storage

A vector owns `capacity` cells, of which the first `length` hold its elements; the others hold
whatever was there.  `push_back` writes into the next cell, and gets twice as many cells when there
is none left.  Memory comes from `new` and `realloc`, which may fail; writing through a null pointer
or beyond the cells is a fault, for which the result is `none`.

A vector fits into memory, so the size of its storage in bytes does not wrap around.

This is the vector for those who only fill it.  The one of `Vector.Heap` has its block on the heap,
and `pushes_agree` says that both list the same elements.
-/

namespace TurbOS

/-- `TurboVector<T>`; a null pointer `data` is `none`. -/
structure StoredVector (α : Type) where
  data : Option (List α) := none
  capacity : ℕ := 0
  length : ℕ := 0
  isInit : Bool := false
deriving DecidableEq, Repr

/-- Where the storage comes from: `new T[size]`, and `realloc` for a number of cells. -/
structure Allocator (α : Type) where
  new : ℕ → Option (List α)
  realloc : Option (List α) → ℕ → Option (List α)

/-- Allocation succeeds: there are as many cells as asked for, and cells that are moved keep
what they hold. -/
structure Allocator.Succeeds {α : Type} (A : Allocator α) : Prop where
  new : ∀ n, ∃ cells, A.new n = some cells ∧ cells.length = n
  realloc : ∀ cells n, cells.length ≤ n →
    ∃ rest, A.realloc (some cells) n = some (cells ++ rest) ∧ (cells ++ rest).length = n

namespace StoredVector

variable {α : Type} {A : Allocator α} {v : StoredVector α} {xs : List α}

/-- `init(size)`. -/
def init (A : Allocator α) (size : ℕ) : StoredVector α := ⟨A.new size, size, 0, true⟩

/-- `*(data + length) = item; ++length;`. -/
def write (v : StoredVector α) (item : α) : Option (StoredVector α) :=
  v.data.bind fun cells =>
    if v.length < cells.length then
      some { v with data := some (cells.set v.length item), length := v.length + 1 }
    else none

/-- `push_back`. -/
def pushBack (A : Allocator α) (v : StoredVector α) (item : α) : Option (StoredVector α) :=
  let v := if v.isInit then v else init A 1
  if v.length < v.capacity then v.write item
  else
    let v := { v with data := A.realloc v.data (2 * v.capacity), capacity := 2 * v.capacity }
    if v.data = none then some v else v.write item

lemma capacity_write {v' : StoredVector α} {item : α} (h : v.write item = some v') :
    v'.capacity = v.capacity := by
  obtain ⟨cells, -, h⟩ := Option.bind_eq_some_iff.mp h
  split at h
  · rw [← Option.some.inj h]
  · exact absurd h (by simp)

/-- The capacity is doubled when the storage is full. -/
lemma capacity_pushBack {v' : StoredVector α} {item : α} (hinit : v.isInit = true)
    (h : v.pushBack A item = some v') :
    v'.capacity = if v.length < v.capacity then v.capacity else 2 * v.capacity := by
  rw [StoredVector.pushBack, if_pos hinit] at h
  dsimp only at h
  split at h
  · rename_i hroom
    rw [capacity_write h, if_pos hroom]
  rename_i hfull
  rw [if_neg hfull]
  split at h
  · rw [← Option.some.inj h]
  · exact capacity_write h

/-- The vector holds the elements. -/
structure Holds (v : StoredVector α) (xs : List α) : Prop where
  isInit : v.isInit = true
  pos : 0 < v.capacity
  length : v.length = xs.length
  cells : ∃ rest, v.data = some (xs ++ rest) ∧ (xs ++ rest).length = v.capacity

lemma holds_init (hA : A.Succeeds) {size : ℕ} (hsize : 0 < size) : (init A size).Holds [] := by
  obtain ⟨cells, hcells, hlength⟩ := hA.new size
  exact ⟨rfl, hsize, rfl, cells, hcells, hlength⟩

/-- Writing into the cell behind the elements. -/
lemma Holds.write {rest : List α} {item x : α} (hlength : v.length = xs.length)
    (hdata : v.data = some (xs ++ x :: rest)) :
    v.write item = some { v with data := some (xs ++ item :: rest), length := v.length + 1 } := by
  have hset : (xs ++ x :: rest).set xs.length item = xs ++ item :: rest := by simp
  rw [StoredVector.write, hdata, Option.bind_some, hlength, if_pos (by simp), hset]

/-- `push_back` appends the element if its memory can be had. -/
lemma Holds.pushBack (h : v.Holds xs) (hA : A.Succeeds) (item : α) :
    ∃ v', v.pushBack A item = some v' ∧ v'.Holds (xs ++ [item]) := by
  obtain ⟨rest, hdata, hcap⟩ := h.cells
  have hlen := h.length
  have hpos := h.pos
  rw [List.length_append] at hcap
  rw [StoredVector.pushBack, if_pos h.isInit]
  dsimp only
  split
  · -- there is a cell left
    rename_i hroom
    obtain ⟨x, rest, rfl⟩ : ∃ x rest', rest = x :: rest' :=
      List.exists_cons_of_ne_nil (by rintro rfl; simp at hcap; omega)
    refine ⟨_, Holds.write hlen hdata, h.isInit, hpos, by simp [hlen], rest, by simp, ?_⟩
    simp only [List.length_cons, List.length_append, List.length_nil] at hcap ⊢
    omega
  · rename_i hfull
    obtain ⟨more, hmore, hmoreLen⟩ := hA.realloc (xs ++ rest) (2 * v.capacity)
      (by rw [List.length_append]; omega)
    rw [List.append_assoc] at hmore
    rw [List.length_append, List.length_append] at hmoreLen
    obtain rfl : rest = [] := List.eq_nil_of_length_eq_zero (by omega)
    obtain ⟨x, more, rfl⟩ : ∃ x more', more = x :: more' :=
      List.exists_cons_of_ne_nil (by rintro rfl; simp at hmoreLen; omega)
    rw [hdata, List.append_nil,
      show A.realloc (some xs) (2 * v.capacity) = some (xs ++ x :: more) by simpa using hmore,
      if_neg (by simp)]
    refine ⟨_, Holds.write hlen rfl, h.isInit, by simp only; omega, by simp [hlen],
      more, by simp, ?_⟩
    simp only [List.length_cons, List.length_append, List.length_nil] at hmoreLen ⊢
    omega

end StoredVector

end TurbOS
