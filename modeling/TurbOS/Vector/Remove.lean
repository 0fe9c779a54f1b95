import TurbOS.Vector.Heap

/-!
# What `remove` and `find` do

The loop of `remove` runs from `1` up to `length - 2`, wherever the position is.  From position `1`
on these are the elements behind the removed one; from position `0` the last element is left out,
and from any later position the loop reads and writes behind the last element.

`find` compares `data` with `data + index`.
-/

namespace TurbOS.HeapVector

variable {α : Type} {w : ℕ+} {v : HeapVector α} {xs cells : List α} {position n : ℕ}

/-! ## The loop of `remove` -/

/-- Apart from the indices this is the loop of the abstract vector. -/
lemma shift_fst : (shift position n cells).map Prod.fst = TurboVector.shift position n cells := by
  induction n with
  | zero => rfl
  | succ n ih =>
    rw [shift, TurboVector.shift, ← ih]
    cases shift position n cells with
    | none => rfl
    | some r =>
      show Option.map _ (Option.map _ _) = _
      rw [Option.map_map]
      rfl

/-- The loop moves the elements one place down. -/
lemma shift_eq (h : n = 0 ∨ position + n < cells.length) :
    ∃ r, shift position n cells = some r ∧ r.1.length = cells.length ∧
      ∀ j, r.1[j]? = if position ≤ j ∧ j < position + n then cells[j + 1]? else cells[j]? := by
  obtain ⟨ys, hys, hlen, hget⟩ := TurboVector.getElem?_shift cells position n h
  rw [← shift_fst] at hys
  obtain ⟨r, hr, rfl⟩ := Option.map_eq_some_iff.mp hys
  exact ⟨r, hr, hlen, hget⟩

lemma shift_length {r : List α × List ℕ} (h : shift position n cells = some r) :
    r.1.length = cells.length := by
  have hfst : (shift position n cells).map Prod.fst = _ := shift_fst
  rw [h, Option.map_some] at hfst
  exact (TurboVector.shift_spec hfst.symm).1

/-- The loop stays inside the block, or it faults. -/
lemma shift_lt {r : List α × List ℕ} (h : shift position (n + 1) cells = some r) :
    position + n + 1 < cells.length := by
  obtain ⟨r₁, hr₁, h⟩ := Option.bind_eq_some_iff.mp h
  obtain ⟨x, hx, -⟩ := Option.map_eq_some_iff.mp h
  rw [← shift_length hr₁]
  exact (List.getElem?_eq_some_iff.mp hx).1

/-- The loop reads the places behind the position, and writes those in front of them. -/
lemma mem_shift {r : List α × List ℕ} (h : shift position n cells = some r) (i : ℕ) :
    i ∈ r.2 ↔ 0 < n ∧ position ≤ i ∧ i ≤ position + n := by
  induction n generalizing r with
  | zero =>
    obtain rfl := Option.some.inj h
    simp
  | succ n ih =>
    obtain ⟨r₁, hr₁, h⟩ := Option.bind_eq_some_iff.mp h
    obtain ⟨x, -, rfl⟩ := Option.map_eq_some_iff.mp h
    rw [List.mem_append, ih hr₁]
    simp only [List.mem_cons, List.not_mem_nil, or_false]
    omega

/-! ## `remove` -/

lemma sub_one {length : ℕ} (hpos : 0 < length) (hlt : length < 2 ^ 64) :
    Word64.sub length 1 = length - 1 := Word64.sub_of_le hlt hpos

/-- The vector after `remove`, when the loop leaves the cells of its block as `cells`. -/
def removed (p : ℕ) (cells : List α) (v : HeapVector α) : HeapVector α :=
  { v with length := v.length - 1, blocks := v.blocks.modify p fun _ => cells }

lemma removed_get {p : ℕ} {cells' : List α} (hcells : v.blocks.get p = some cells) :
    (removed p cells' v).blocks.get p = some cells' := by
  rw [removed, Store.get_modify_self, hcells, Option.map_some]

/-- `remove` on a vector that is not empty. -/
lemma remove_eq {p : ℕ} (position : ℕ) (hinit : v.isInit = true) (hpos : 0 < v.length)
    (hlt : v.length < 2 ^ 64) (hdata : v.data = some p) (hcells : v.blocks.get p = some cells) :
    v.remove position = (shift position (v.length - 2) cells).map fun r =>
      (removed p r.1 v, r.2) := by
  have hsub : Word64.sub v.length 1 = v.length - 1 := sub_one hpos hlt
  rw [remove, if_pos hinit, hsub, show v.length - 1 - 1 = v.length - 2 by omega]
  dsimp only
  by_cases hshort : v.length - 2 = 0
  · rw [if_pos hshort, hshort, shift, Option.map_some, Option.map_some, removed,
      Store.modify_eq_self hcells]
  · simp only [if_neg hshort, hdata, Option.bind_some, hcells, Option.map_map, removed]
    rfl

/-- What `remove` leaves when its loop stays inside the vector. -/
lemma Holds.remove (h : v.Holds xs) (hinit : v.isInit = true) (hne : xs ≠ [])
    (hin : xs.length ≤ 2 ∨ position ≤ 1) :
    ∃ v' log ys, v.remove position = some (v', log) ∧ v'.Holds ys ∧ (∀ i ∈ log, i < xs.length) ∧
      ys.length = xs.length - 1 ∧ ∀ j < xs.length - 1, ys[j]? =
        if position ≤ j ∧ j < position + (xs.length - 2) then xs[j + 1]? else xs[j]? := by
  have hpos : 0 < xs.length := List.length_pos_iff.mpr hne
  have hlen := h.length
  have hlt := h.bounded
  obtain ⟨p, rest, hdata, hcells⟩ := h.cells hne
  obtain ⟨r, hr, hrlen, hget⟩ := shift_eq (show xs.length - 2 = 0 ∨
    position + (xs.length - 2) < (xs ++ rest).length by rw [List.length_append]; omega)
  have heq := remove_eq position hinit (by omega) hlt hdata hcells
  rw [hlen, hr, Option.map_some] at heq
  have hyslen : (r.1.take (xs.length - 1)).length = xs.length - 1 := by
    rw [List.length_take, hrlen, List.length_append]
    omega
  refine ⟨_, _, r.1.take (xs.length - 1), heq, ⟨?_, ?_, fun _ => ?_⟩, ?_, hyslen, ?_⟩
  · show v.length - 1 = _
    rw [hyslen, hlen]
  · show v.length - 1 < _
    omega
  · refine ⟨p, r.1.drop (xs.length - 1), hdata, ?_⟩
    rw [removed_get hcells, List.take_append_drop]
  · intro i hi
    have := (mem_shift hr i).mp hi
    omega
  · intro j hj
    rw [List.getElem?_take, if_pos hj, hget, List.getElem?_append_left (by omega),
      List.getElem?_append_left (by omega)]

/-- **`remove` deletes one element** exactly if the vector has only one, if it is the second, or
if it is the first and the last two elements are equal. -/
theorem remove_deletes_iff (h : v.Holds xs) (hp : position < xs.length) :
    (∃ v' log, v.remove position = some (v', log) ∧ v'.Holds (xs.eraseIdx position) ∧
      ∀ i ∈ log, i < xs.length) ↔
    v.isInit = true ∧ (xs.length = 1 ∨ position = 1 ∨
      position = 0 ∧ xs[xs.length - 2]? = xs[xs.length - 1]?) := by
  have hne : xs ≠ [] := List.ne_nil_of_length_pos (by omega)
  have hlen := h.length
  constructor
  · rintro ⟨v', log, hv', hholds, hlog⟩
    have hinit : v.isInit = true := by
      by_contra hnot
      rw [remove, if_neg hnot] at hv'
      obtain rfl := (Prod.mk.inj (Option.some.inj hv')).1
      have := hholds.length
      rw [List.length_eraseIdx, if_pos hp] at this
      omega
    refine ⟨hinit, ?_⟩
    have hin : xs.length ≤ 2 ∨ position ≤ 1 := by
      by_contra hout
      -- the loop goes behind the last element
      obtain ⟨p, rest, hdata, hcells⟩ := h.cells hne
      rw [remove_eq position hinit (by omega) h.bounded hdata hcells] at hv'
      obtain ⟨r, hr, heq⟩ := Option.map_eq_some_iff.mp hv'
      have hmem := (mem_shift hr (position + (v.length - 2))).mpr ⟨by omega, by omega, le_rfl⟩
      rw [(Prod.mk.inj heq).2] at hmem
      have := hlog _ hmem
      omega
    obtain ⟨v'', log', ys, hv'', hys, -, hyslen, hget⟩ := h.remove hinit hne hin
    obtain rfl := (Prod.mk.inj (Option.some.inj (hv'.symm.trans hv''))).1
    obtain rfl := hholds.unique hys
    by_cases hone : xs.length = 1
    · exact .inl hone
    by_cases hsecond : position = 1
    · exact .inr (.inl hsecond)
    have hfirst : position = 0 := by omega
    -- the last but one element stays where it is
    have hlast := hget (xs.length - 2) (by omega)
    rw [if_neg (by omega), List.getElem?_eraseIdx, if_neg (by omega),
      show xs.length - 2 + 1 = xs.length - 1 by omega] at hlast
    exact .inr (.inr ⟨hfirst, hlast.symm⟩)
  · rintro ⟨hinit, hcond⟩
    obtain ⟨v', log, ys, hv', hys, hlog, hyslen, hget⟩ := h.remove hinit hne
      (show xs.length ≤ 2 ∨ position ≤ 1 by omega)
    have heq : ys = xs.eraseIdx position := by
      apply List.ext_getElem?
      intro j
      rw [List.getElem?_eraseIdx]
      by_cases hj : j < xs.length - 1
      · rw [hget j hj]
        by_cases hlow : j < position
        · rw [if_neg (by omega), if_pos hlow]
        · rw [if_neg hlow]
          by_cases hlast : j = xs.length - 2 ∧ position = 0
          · have hequal : xs[xs.length - 2]? = xs[xs.length - 1]? := by
              rcases hcond with hone | hsecond | ⟨-, hequal⟩
              · omega
              · omega
              · exact hequal
            rw [if_neg (by omega), hlast.1, hequal, show xs.length - 2 + 1 = xs.length - 1 by omega]
          · rw [if_pos (by omega)]
      · rw [List.getElem?_eq_none (by omega)]
        split
        · omega
        · rw [List.getElem?_eq_none (by omega)]
    rw [heq] at hys
    exact ⟨v', log, hv', hys, hlog⟩

theorem remove_deletes_second :
    ∃ v' log, (full [7, 8, 9]).remove 1 = some (v', log) ∧ v'.Holds [7, 9] ∧ ∀ i ∈ log, i < 3 :=
  (remove_deletes_iff (full_holds (by decide)) (by decide)).mpr
    ⟨rfl, .inr (.inl rfl)⟩

/-- The first element is removed, and the last one goes with it. -/
theorem remove_duplicates :
    ((full [7, 8, 9]).remove 0).map (fun r => (r.1.at 0, r.1.at 1, r.1.length)) =
      some (some 8, some 8, 2) ∧
    ¬ ∃ v' log, (full [7, 8, 9]).remove 0 = some (v', log) ∧ v'.Holds [8, 9] ∧ ∀ i ∈ log,
      i < 3 := by
  constructor
  · decide
  · rintro ⟨v', log, hv', hholds, -⟩
    have hfull : (full [7, 8, 9]).Holds [7, 8, 9] := full_holds (by decide)
    obtain ⟨v'', log', ys, hv'', hys, -, -, hget⟩ := hfull.remove rfl (by simp)
      (show 3 ≤ 2 ∨ 0 ≤ 1 by decide)
    obtain rfl := (Prod.mk.inj (Option.some.inj (hv'.symm.trans hv''))).1
    obtain rfl := hholds.unique hys
    have hlast := hget 1 (by decide)
    simp at hlast

/-! ## `find` -/

/-- `find` returns `0` for every element. -/
lemma find_eq (w : ℕ+) (v : HeapVector α) (x : α) :
    v.find w x = if v.length = 0 then 2 ^ 64 - 1 else 0 := by
  rw [find]
  cases v.length with
  | zero => rfl
  | succ n =>
    have hzero : (Word64.mul 0 w == 0) = true := by simp [Word64.mul]
    rw [List.range_succ_eq_map, List.find?_cons, hzero]
    rfl

/-- This is what the abstract vector does. -/
lemma Holds.find (h : v.Holds xs) (w : ℕ+) (x : α) :
    v.find w x = TurboVector.find ⟨v.isInit, xs⟩ x := by
  rw [find_eq, TurboVector.find_eq, h.length]
  simp only [List.length_eq_zero_iff]

/-- **`find` locates an element** exactly if it is the first one, or if there is none. -/
theorem find_locates_iff (w : ℕ+) (v : HeapVector α) (x : α) :
    ((v.find w x ≠ 2 ^ 64 - 1 → IsLeast {i | i < v.length ∧ v.at i = some x} (v.find w x)) ∧
      (v.find w x = 2 ^ 64 - 1 ↔ ∀ i < v.length, v.at i ≠ some x)) ↔
    v.length = 0 ∨ v.at 0 = some x := by
  rw [find_eq]
  by_cases hempty : v.length = 0
  · rw [if_pos hempty, hempty]
    simp
  · rw [if_neg hempty]
    constructor
    · rintro ⟨hleast, -⟩
      exact .inr (hleast (by norm_num)).1.2
    · intro hfirst
      have hat : v.at 0 = some x := hfirst.resolve_left hempty
      refine ⟨fun _ => ⟨⟨by omega, hat⟩, fun i _ => Nat.zero_le i⟩, ?_⟩
      constructor
      · intro hminus
        norm_num at hminus
      · intro hnone
        exact absurd hat (hnone 0 (by omega))

/-- The second element is not found. -/
theorem find_misses_second :
    (full [7, 8]).find 8 8 = 0 ∧ (full [7, 8]).find 8 9 = 0 ∧
    ¬ (((full [7, 8]).find 8 8 ≠ 2 ^ 64 - 1 →
        IsLeast {i | i < (full [7, 8]).length ∧ (full [7, 8]).at i = some 8}
          ((full [7, 8]).find 8 8)) ∧
      ((full [7, 8]).find 8 8 = 2 ^ 64 - 1 ↔
        ∀ i < (full [7, 8]).length, (full [7, 8]).at i ≠ some 8)) := by
  have hfind : (full [7, 8]).find 8 8 = 0 := by decide
  refine ⟨hfind, by decide, ?_⟩
  rintro ⟨hleast, -⟩
  rw [hfind] at hleast
  exact absurd (hleast (by norm_num)).1.2 (by decide)

end TurbOS.HeapVector
