import Mathlib

/-!
# Occurrences of a list in another one

The first position at which a list `t` stands in a list `s`, and what is left of `s` when it is
cut at the leftmost occurrences of a delimiter that do not overlap.

`Split d s words` says that `words` are the pieces.  Joined with the delimiter they give back `s`
(`Split.join`), none of them contains the delimiter (`Split.avoids`), and their number is one
more than that of the occurrences (`Split.length_eq`).  A delimiter that is not empty splits every
list (`Split.exists`) in one way only (`Split.unique`).
-/

namespace Occurrences

variable {α : Type*} {s t d : List α} {k : ℕ}

/-- `t` stands in `s` at position `k`, and nowhere before. -/
def First (t s : List α) (k : ℕ) : Prop := IsLeast {k | t <+: s.drop k} k

lemma prefix_drop_iff : t <+: s.drop k ↔ ∀ i < t.length, s[k + i]? = t[i]? := by
  rw [List.prefix_iff_getElem?]
  constructor
  · intro h i hi
    rw [← List.getElem?_drop, h i hi, List.getElem?_eq_getElem hi]
  · intro h i hi
    rw [List.getElem?_drop, h i hi, List.getElem?_eq_getElem hi]

lemma First.append (h : First t s k) : s = s.take k ++ t ++ s.drop (k + t.length) := by
  obtain ⟨rest, hrest⟩ := h.1
  have hdrop : s.drop (k + t.length) = rest := by
    rw [← List.drop_drop, ← hrest, List.drop_left]
  rw [hdrop, List.append_assoc, hrest, List.take_append_drop]

lemma First.add_le (h : First t s k) (hk : k ≤ s.length) : k + t.length ≤ s.length := by
  have hle := h.1.length_le
  rw [List.length_drop] at hle
  omega

lemma First.le_length (h : First t s k) : k ≤ s.length := by
  by_contra hlt
  have hnil : t = [] := by
    have hle := h.1.length_le
    rw [List.length_drop] at hle
    exact List.eq_nil_of_length_eq_zero (by omega)
  have := h.2 (show t <+: s.drop 0 by rw [hnil]; exact List.nil_prefix)
  omega

lemma First.unique {k' : ℕ} (h : First t s k) (h' : First t s k') : k = k' := IsLeast.unique h h'

lemma First.zero (h : t <+: s) : First t s 0 := ⟨h, fun _ _ => Nat.zero_le _⟩

/-- The first position is not the front. -/
lemma First.cons {a : α} (h : First t s k) (hne : ¬ t <+: a :: s) : First t (a :: s) (k + 1) := by
  refine ⟨h.1, fun j hj => ?_⟩
  cases j with
  | zero => exact absurd hj hne
  | succ j => exact Nat.succ_le_succ (h.2 hj)

/-- If the first position is not the front, it is the same one behind the front. -/
lemma First.of_succ (h : First t s (k + 1)) : ¬ t <+: s ∧ First t (s.drop 1) k := by
  refine ⟨fun hfront => ?_, ?_, fun j hj => ?_⟩
  · have hle := h.2 (show t <+: s.drop 0 from hfront)
    omega
  · have hmatch : t <+: s.drop (k + 1) := h.1
    rwa [Nat.add_comm, ← List.drop_drop] at hmatch
  · have hmatch : t <+: s.drop (1 + j) := by
      rw [← List.drop_drop]
      exact hj
    have hle := h.2 hmatch
    omega

/-- A list that is too short contains nothing. -/
lemma not_prefix_drop (h : s.length < t.length) (k : ℕ) : ¬ t <+: s.drop k := by
  intro hk
  have hle := hk.length_le
  rw [List.length_drop] at hle
  omega

/-! ## Search -/

/-- The first position of `t`. -/
def find [DecidableEq α] (t : List α) : List α → Option ℕ
  | [] => if t = [] then some 0 else none
  | a :: s => if t <+: a :: s then some 0 else (find t s).map (· + 1)

section Find

variable [DecidableEq α]

lemma find_eq_zero (h : t <+: s) : find t s = some 0 := by
  cases s with
  | nil => rw [find, if_pos (List.prefix_nil.mp h)]
  | cons a s => rw [find, if_pos h]

lemma find_cons {a : α} (h : ¬ t <+: a :: s) : find t (a :: s) = (find t s).map (· + 1) := by
  rw [find, if_neg h]

/-- The search finds the first position, or there is none. -/
lemma find_spec (t s : List α) :
    (∃ k, find t s = some k ∧ First t s k) ∨ find t s = none ∧ ∀ k, ¬ t <+: s.drop k := by
  induction s with
  | nil =>
    by_cases ht : t = []
    · exact .inl ⟨0, by rw [find, if_pos ht], First.zero (by rw [ht])⟩
    · refine .inr ⟨by rw [find, if_neg ht], fun k hk => ht ?_⟩
      rwa [List.drop_nil, List.prefix_nil] at hk
  | cons a s ih =>
    by_cases ht : t <+: a :: s
    · exact .inl ⟨0, find_eq_zero ht, First.zero ht⟩
    rcases ih with ⟨k, hk, hfirst⟩ | ⟨hnone, hall⟩
    · exact .inl ⟨k + 1, by rw [find_cons ht, hk, Option.map_some], hfirst.cons ht⟩
    · refine .inr ⟨by rw [find_cons ht, hnone, Option.map_none], fun k => ?_⟩
      cases k with
      | zero => exact ht
      | succ k => exact hall k

lemma find_eq_some : find t s = some k ↔ First t s k := by
  rcases find_spec t s with ⟨j, hj, hfirst⟩ | ⟨hnone, hall⟩
  · constructor
    · intro h
      rw [← Option.some.inj (hj.symm.trans h)]
      exact hfirst
    · intro h
      rw [hj, hfirst.unique h]
  · constructor
    · intro h
      rw [hnone] at h
      simp at h
    · intro h
      exact absurd h.1 (hall k)

lemma find_eq_none : find t s = none ↔ ∀ k, ¬ t <+: s.drop k := by
  rcases find_spec t s with ⟨j, hj, hfirst⟩ | ⟨hnone, hall⟩
  · constructor
    · intro h
      rw [hj] at h
      simp at h
    · intro h
      exact absurd hfirst.1 (h j)
  · exact ⟨fun _ => hall, fun _ => hnone⟩

lemma find_short (h : s.length < t.length) : find t s = none :=
  find_eq_none.mpr (not_prefix_drop h)

end Find

/-! ## The number of occurrences -/

/-- The number of leftmost occurrences of `d` that do not overlap; the first argument is what is
left of the last one. -/
def count [DecidableEq α] (d : List α) : ℕ → List α → ℕ
  | _, [] => 0
  | skip + 1, _ :: s => count d skip s
  | 0, a :: s => if d <+: a :: s then 1 + count d (d.length - 1) s else count d 0 s

section Count

variable [DecidableEq α]

lemma count_skip (skip : ℕ) : count d skip s = count d 0 (s.drop skip) := by
  induction skip generalizing s with
  | zero => rfl
  | succ skip ih =>
    cases s with
    | nil => simp [count]
    | cons a s => rw [count, ih, List.drop_succ_cons]

lemma count_none (h : ∀ k, ¬ d <+: s.drop k) : count d 0 s = 0 := by
  induction s with
  | nil => rfl
  | cons a s ih =>
    have hfront : ¬ d <+: a :: s := h 0
    rw [count, if_neg hfront]
    exact ih fun k => h (k + 1)

lemma count_first (hd : d ≠ []) (h : First d s k) :
    count d 0 s = 1 + count d 0 (s.drop (k + d.length)) := by
  have hpos : 0 < d.length := List.length_pos_of_ne_nil hd
  induction s generalizing k with
  | nil =>
    have hle := h.add_le h.le_length
    rw [List.length_nil] at hle
    omega
  | cons a s ih =>
    cases k with
    | zero =>
      have hfront : d <+: a :: s := h.1
      rw [count, if_pos hfront, count_skip, Nat.zero_add, ← List.drop_succ_cons,
        Nat.sub_add_cancel hpos]
    | succ k =>
      have hfront : ¬ d <+: a :: s := fun hzero => absurd (h.2 hzero) (Nat.not_succ_le_zero k)
      have hrest : First d s k := ⟨h.1, fun j hj => Nat.le_of_succ_le_succ (h.2 hj)⟩
      rw [count, if_neg hfront, ih hrest, Nat.add_right_comm, List.drop_succ_cons]

end Count

/-! ## Pieces -/

/-- The pieces of a list between the leftmost occurrences of `d` that do not overlap. -/
inductive Split (d : List α) : List α → List (List α) → Prop
  | last {s : List α} : (∀ k, ¬ d <+: s.drop k) → Split d s [s]
  | cut {s : List α} {k : ℕ} {words : List (List α)} : First d s k →
      Split d (s.drop (k + d.length)) words → Split d s (s.take k :: words)

variable {words words' : List (List α)}

namespace Split

lemma ne_nil (h : Split d s words) : words ≠ [] := by
  cases h <;> simp

/-- The pieces are joined with the delimiter. -/
lemma join (h : Split d s words) : List.intercalate d words = s := by
  induction h with
  | last _ => rw [List.intercalate_singleton]
  | cut hfirst hrest ih =>
    obtain ⟨w, ws, rfl⟩ := List.exists_cons_of_ne_nil hrest.ne_nil
    rw [List.intercalate_cons_cons, ih]
    exact hfirst.append.symm

/-- No piece contains the delimiter. -/
lemma avoids (h : Split d s words) (hd : d ≠ []) : ∀ w ∈ words, ¬ d <:+: w := by
  have hpos : 0 < d.length := List.length_pos_of_ne_nil hd
  induction h with
  | last hnone =>
    rintro w hw hin
    obtain rfl := List.mem_singleton.mp hw
    obtain ⟨front, rest, rfl⟩ := hin
    refine hnone front.length ?_
    rw [List.append_assoc, List.drop_left]
    exact List.prefix_append d rest
  | @cut s k ws hfirst hrest ih =>
    rintro w hw hin
    rcases List.mem_cons.mp hw with rfl | hw
    · -- the delimiter would stand in front of its first position
      obtain ⟨front, rest, hfront⟩ := hin
      have hlen : (front ++ d ++ rest).length ≤ k := by
        rw [hfront]
        exact List.length_take_le k s
      rw [List.length_append, List.length_append] at hlen
      have hearly : d <+: s.drop front.length := by
        rw [← List.take_append_drop k s, ← hfront, List.append_assoc, List.append_assoc,
          List.drop_left]
        exact List.prefix_append d _
      have := hfirst.2 hearly
      omega
    · exact ih w hw hin

lemma length_eq [DecidableEq α] (h : Split d s words) (hd : d ≠ []) :
    words.length = 1 + count d 0 s := by
  induction h with
  | last hnone => rw [count_none hnone, List.length_singleton]
  | cut hfirst hrest ih => rw [count_first hd hfirst, List.length_cons, ih, Nat.add_comm]

lemma length_le (h : Split d s words) (hd : d ≠ []) : words.length ≤ s.length + 1 := by
  have hpos : 0 < d.length := List.length_pos_of_ne_nil hd
  induction h with
  | last _ => simp
  | cut hfirst hrest ih =>
    have hle := hfirst.add_le hfirst.le_length
    rw [List.length_drop] at ih
    rw [List.length_cons]
    omega

/-- What is counted in the list stands in the pieces or in the delimiters. -/
lemma countP (p : α → Bool) (h : Split d s words) :
    s.countP p = words.flatten.countP p + (words.length - 1) * d.countP p := by
  induction h with
  | last _ => simp
  | @cut s k ws hfirst hrest ih =>
    obtain ⟨n, hn⟩ : ∃ n, ws.length = n + 1 := ⟨ws.length - 1, by
      have hpos := List.length_pos_of_ne_nil hrest.ne_nil
      omega⟩
    rw [hn, Nat.add_sub_cancel] at ih
    rw [hfirst.append, List.countP_append, List.countP_append, ih, ← hfirst.append,
      List.flatten_cons, List.countP_append, List.length_cons, hn, Nat.add_sub_cancel]
    ring

/-- What is not in the delimiter stays, in its order. -/
lemma filter (p : α → Bool) (h : Split d s words) (hd : d.filter p = []) :
    words.flatten.filter p = s.filter p := by
  induction h with
  | last _ => simp
  | cut hfirst hrest ih =>
    rw [List.flatten_cons, List.filter_append, ih, hfirst.append, List.filter_append,
      List.filter_append, hd, List.append_nil, ← hfirst.append]

/-- Cutting at one element removes it. -/
lemma flatten_singleton [DecidableEq α] {x : α} (h : Split [x] s words) :
    words.flatten = s.filter (· ≠ x) := by
  rw [← h.filter _ (by simp), eq_comm, List.filter_eq_self]
  intro y hy
  obtain ⟨w, hw, hyw⟩ := List.mem_flatten.1 hy
  have hnot := h.avoids (by simp) w hw
  rw [List.singleton_infix_iff] at hnot
  rw [decide_eq_true_eq]
  rintro rfl
  exact hnot hyw

/-- A delimiter splits every list. -/
lemma «exists» (hd : d ≠ []) (s : List α) : ∃ words, Split d s words := by
  have hpos : 0 < d.length := List.length_pos_of_ne_nil hd
  induction hn : s.length using Nat.strong_induction_on generalizing s with
  | h n ih =>
    by_cases hnone : ∀ k, ¬ d <+: s.drop k
    · exact ⟨[s], .last hnone⟩
    · obtain ⟨k, hfirst⟩ : ∃ k, First d s k := by
        classical
        have hex : ∃ k, d <+: s.drop k := by
          by_contra hno
          exact hnone fun k hk => hno ⟨k, hk⟩
        exact ⟨Nat.find hex, Nat.find_spec hex, fun j hj => Nat.find_min' hex hj⟩
      have hle := hfirst.add_le hfirst.le_length
      obtain ⟨words, hwords⟩ := ih (s.drop (k + d.length)).length
        (by rw [List.length_drop]; omega) _ rfl
      exact ⟨_, .cut hfirst hwords⟩

/-- There is only one way. -/
lemma unique (h : Split d s words) (h' : Split d s words') : words = words' := by
  induction h generalizing words' with
  | last hnone =>
    cases h' with
    | last _ => rfl
    | cut hfirst _ => exact absurd hfirst.1 (hnone _)
  | cut hfirst hrest ih =>
    cases h' with
    | last hnone => exact absurd hfirst.1 (hnone _)
    | cut hfirst' hrest' =>
      obtain rfl := hfirst.unique hfirst'
      rw [ih hrest']

end Split

/-! ## Renamed elements -/

section Map

variable {β : Type*} {f : α → β}

/-- Renaming the elements in both lists keeps the occurrences, if no two of them become the
same. -/
lemma prefix_drop_map_iff (hf : Set.InjOn f {x | x ∈ s ∨ x ∈ t}) :
    t.map f <+: (s.map f).drop k ↔ t <+: s.drop k := by
  rw [prefix_drop_iff, prefix_drop_iff, List.length_map]
  constructor
  · intro h i hi
    have hi' := h i hi
    rw [List.getElem?_map, List.getElem?_map, List.getElem?_eq_getElem hi, Option.map_some] at hi'
    obtain ⟨x, hx, heq⟩ := Option.map_eq_some_iff.mp hi'
    have hsame := hf (.inl (List.mem_of_getElem? hx)) (.inr (List.getElem_mem hi)) heq
    rw [hx, hsame, List.getElem?_eq_getElem hi]
  · intro h i hi
    rw [List.getElem?_map, List.getElem?_map, h i hi]

lemma first_map_iff (hf : Set.InjOn f {x | x ∈ s ∨ x ∈ t}) :
    First (t.map f) (s.map f) k ↔ First t s k := by
  have hset : {k | t.map f <+: (s.map f).drop k} = {k | t <+: s.drop k} := by
    ext k
    exact prefix_drop_map_iff hf
  rw [First, First, hset]

lemma find_map [DecidableEq α] [DecidableEq β] (hf : Set.InjOn f {x | x ∈ s ∨ x ∈ t}) :
    find (t.map f) (s.map f) = find t s := by
  ext k
  exact find_eq_some.trans ((first_map_iff hf).trans find_eq_some.symm)

/-- The pieces are renamed. -/
lemma Split.map (h : Split d s words) (hf : Set.InjOn f {x | x ∈ s ∨ x ∈ d}) :
    Split (d.map f) (s.map f) (words.map (List.map f)) := by
  induction h with
  | last hnone => exact .last fun k hk => hnone k ((prefix_drop_map_iff hf).mp hk)
  | @cut s k words hfirst hrest ih =>
    have hsub : {x | x ∈ s.drop (k + d.length) ∨ x ∈ d} ⊆ {x | x ∈ s ∨ x ∈ d} := by
      rintro x (hx | hx)
      · exact .inl (List.mem_of_mem_drop hx)
      · exact .inr hx
    have hnext := ih (hf.mono hsub)
    rw [List.map_drop] at hnext
    rw [List.map_cons, List.map_take]
    refine .cut ((first_map_iff hf).mpr hfirst) ?_
    rw [List.length_map]
    exact hnext

end Map

end Occurrences
