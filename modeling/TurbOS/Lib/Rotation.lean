import Mathlib

/-!
# Searching a list in rotation

A round-robin search starts just behind the current element of a list, goes on to the end,
and then from the start to the current element.  The list is cut at the current element:
`before` and `after` it.  An element that does not occur leaves everything `before` it.

A search that skips the head of the list instead looks at the same elements in another
order.  `or_order_iff` compares the two: it says when the first hit is the same.
-/

namespace Rotation

variable {α : Type*} [DecidableEq α]

/-- The elements in front of the first `x`. -/
def before (x : α) (xs : List α) : List α := xs.takeWhile (· ≠ x)

/-- The elements behind the first `x`. -/
def after (x : α) (xs : List α) : List α := (xs.dropWhile (· ≠ x)).tail

/-- The elements up to the first `x`, with it. -/
def through (x : α) (xs : List α) : List α := before x xs ++ if x ∈ xs then [x] else []

/-- The element `x` itself, if it occurs but is not the head. -/
def again (x : α) (xs : List α) : List α := if x ∈ xs ∧ before x xs ≠ [] then [x] else []

lemma before_of_notMem {x : α} {xs : List α} (h : x ∉ xs) : before x xs = xs := by
  refine List.takeWhile_eq_self_iff.mpr fun y hy => ?_
  simp only [ne_eq, decide_not, Bool.not_eq_eq_eq_not, Bool.not_true, decide_eq_false_iff_not]
  rintro rfl
  exact h hy

lemma after_of_notMem {x : α} {xs : List α} (h : x ∉ xs) : after x xs = [] := by
  have hdrop : xs.dropWhile (· ≠ x) = [] := by
    refine List.dropWhile_eq_nil_iff.mpr fun y hy => ?_
    simp only [ne_eq, decide_not, Bool.not_eq_eq_eq_not, Bool.not_true, decide_eq_false_iff_not]
    rintro rfl
    exact h hy
  rw [after, hdrop, List.tail_nil]

lemma before_append_after {x : α} {xs : List α} (h : x ∈ xs) :
    xs = before x xs ++ x :: after x xs := by
  induction xs with
  | nil => simp at h
  | cons y ys ih =>
    by_cases hy : y = x
    · simp [before, after, hy]
    · have hmem : x ∈ ys := by simpa [Ne.symm hy] using h
      have hcons := ih hmem
      rw [before, after] at hcons ⊢
      rw [List.takeWhile_cons_of_pos (by simpa using hy),
        List.dropWhile_cons_of_pos (by simpa using hy), List.cons_append, ← hcons]

lemma through_append_after (x : α) (xs : List α) : through x xs ++ after x xs = xs := by
  rw [through]
  by_cases h : x ∈ xs
  · rw [if_pos h, List.append_assoc, List.singleton_append, ← before_append_after h]
  · rw [if_neg h, before_of_notMem h, after_of_notMem h, List.append_nil, List.append_nil]

/-- The list without its head, cut at `x`. -/
lemma drop_one_eq_through (x : α) (xs : List α) :
    xs.drop 1 = (through x xs).drop 1 ++ after x xs := by
  conv_lhs => rw [← through_append_after x xs]
  cases hthrough : through x xs with
  | cons y ys => simp
  | nil =>
    have hnot : x ∉ xs := by
      intro h
      simp [through, h] at hthrough
    simp [after_of_notMem hnot]

/-- The list without its head, cut at `x`: the element itself remains unless it is the
head. -/
lemma drop_one_eq_before (x : α) (xs : List α) :
    xs.drop 1 = (before x xs).drop 1 ++ again x xs ++ after x xs := by
  by_cases h : x ∈ xs
  · conv_lhs => rw [before_append_after h]
    cases hbefore : before x xs with
    | nil => simp [again, hbefore]
    | cons y ys => simp [again, h, hbefore]
  · simp [again, h, before_of_notMem h, after_of_notMem h]

/-! ## Two orders of search -/

omit [DecidableEq α]

section Order

variable {a b c k l m n : Option α}

/-- The first hits in six places, searched in two orders.  `a`, `b` and `c` are the hits in
the head of a list, in the rest of it up to the current element, and behind that; `l`, `m`
and `n` are the hits in the list of places in front of the current one, in its head and in
its rest, and behind it; `k` is the hit in the current place, if it is searched again.  The
first order skips the heads, and the second one is the rotation. -/
lemma or_order_iff (hk : k = none ∨ k = a.or (b.or c)) :
    (b.or c).or ((m.or k).or n) = ((c.or n).or (l.or m)).or (a.or (b.or c)) ↔
      (∀ x, b = some x → ∀ y, ((c.or n).or (l.or m)).or a = some y → y = x) ∧
      (b = none → c ≠ none ∨
        (∀ x, m.or k = some x → ∀ y, n.or l = some y → y = x) ∧
        (m.or k = none → n ≠ none ∨ l.or a = none)) := by
  cases b with
  | some x =>
    cases hfirst : ((c.or n).or (l.or m)).or a with
    | none =>
      obtain ⟨⟨⟨rfl, rfl⟩, rfl, rfl⟩, rfl⟩ := by simpa using hfirst
      simp
    | some y =>
      have hassoc : ((c.or n).or (l.or m)).or (a.or ((some x).or c)) =
          (((c.or n).or (l.or m)).or a).or ((some x).or c) := Option.or_assoc.symm
      rw [hassoc, hfirst]
      simp [eq_comm]
  | none =>
    cases c with
    | some y => simp
    | none =>
      simp only [Option.none_or, Option.or_none] at hk ⊢
      cases n with
      | some y => cases hmk : m.or k <;> simp [eq_comm]
      | none =>
        cases l with
        | some y => cases hmk : m.or k <;> simp [eq_comm]
        | none =>
          rcases hk with rfl | rfl
          · cases m <;> simp [eq_comm]
          · cases m <;> cases k <;> simp

/-- Where the rotation finds nothing, there is nothing to find. -/
lemma or_order_none (hk : k = none ∨ k = a.or (b.or c))
    (h : ((c.or n).or (l.or m)).or (a.or (b.or c)) = none) :
    (b.or c).or ((m.or k).or n) = none := by
  simp only [Option.or_eq_none_iff] at h
  obtain ⟨⟨⟨hc, hn⟩, hl, hm⟩, ha, hb, -⟩ := h
  have hk : k = none := by
    rcases hk with hk | hk
    · exact hk
    · rw [hk, ha, hb, hc]
      rfl
  rw [hb, hc, hm, hk, hn]
  rfl

end Order

end Rotation
