import TurbOS.Display.Diagonal

/-!
# Lines at the edge of the frame

`drawLine` moves its end points to the frame first, but it is content with coordinates from `-1` up
to the size: a negative coordinate becomes `-1`, the size itself is kept, and only what is larger
becomes the last coordinate of the frame.

A horizontal line does not paint its end, and a slanted one does not paint its start.  So a line
stays in the frame exactly if the end that it paints is not at the edge, and if a slanted line
leaves the edge with its first step.
-/

open Grid Nearest

namespace TurbOS.Display

/-- The coordinate is one of a pixel of the frame. -/
def Within (size : UInt16) (a : ℤ) : Prop := 0 ≤ a ∧ a < size.toNat

instance (size : UInt16) (a : ℤ) : Decidable (Within size a) := inferInstanceAs (Decidable (_ ∧ _))

/-- The pixel is on the screen. -/
def Frame.Inside (F : Frame) (p : ℤ × ℤ) : Prop := Within F.frm_width p.1 ∧ Within F.frm_height p.2

instance (F : Frame) (p : ℤ × ℤ) : Decidable (F.Inside p) := inferInstanceAs (Decidable (_ ∧ _))

variable {F : Frame} {size : UInt16} {a a0 a1 b0 b1 long : ℤ} {p : ℤ × ℤ}

/-! ## The tests at the start -/

/-- The coordinate is not negative, and it is not the size. -/
def OffEdge (size : UInt16) (a : ℤ) : Prop := 0 ≤ a ∧ a ≠ size.toNat

lemma clampLine_range (hsize : 0 < size.toNat) (a : ℤ) :
    -1 ≤ clampLine size a ∧ clampLine size a ≤ size.toNat := by
  rw [clampLine]
  split_ifs <;> omega

lemma clampLine_nonneg_iff (hsize : 0 < size.toNat) (a : ℤ) : 0 ≤ clampLine size a ↔ 0 ≤ a := by
  rw [clampLine]
  split_ifs <;> omega

/-- The tests lead to the frame exactly if the coordinate is off its edge. -/
lemma within_clampLine_iff (hsize : 0 < size.toNat) (a : ℤ) :
    Within size (clampLine size a) ↔ OffEdge size a := by
  rw [Within, OffEdge, clampLine]
  split_ifs <;> omega

/-! ## The helpers -/

lemma mem_drawHorLine {x y dx : ℤ} : p ∈ drawHorLine x y dx ↔ x ≤ p.1 ∧ p.1 < x + dx ∧ p.2 = y := by
  obtain ⟨px, py⟩ := p
  simp only [drawHorLine, List.mem_map, Prod.mk.injEq]
  constructor
  · rintro ⟨i, hi, rfl, rfl⟩
    rw [mem_counter] at hi
    omega
  · rintro ⟨hlow, hhigh, rfl⟩
    exact ⟨px - x, mem_counter.mpr (by omega), by omega, rfl⟩

lemma mem_drawVertLine {x y dy : ℤ} :
    p ∈ drawVertLine x y dy ↔ p.1 = x ∧ y ≤ p.2 ∧ p.2 < y + dy := by
  obtain ⟨px, py⟩ := p
  simp only [drawVertLine, List.mem_map, Prod.mk.injEq]
  constructor
  · rintro ⟨i, hi, rfl, rfl⟩
    rw [mem_counter] at hi
    omega
  · rintro ⟨rfl, hlow, hhigh⟩
    exact ⟨py - y, mem_counter.mpr (by omega), rfl, by omega⟩

/-- The steps along the longer axis stay in the frame if the last one does. -/
lemma along_within_iff (h0 : -1 ≤ a0 ∧ a0 ≤ size.toNat) (hne : a1 ≠ a0) :
    (∀ j, 1 ≤ j → j ≤ |a1 - a0| → Within size (a0 + j * (a1 - a0).sign)) ↔ Within size a1 := by
  have hlast : a0 + |a1 - a0| * (a1 - a0).sign = a1 := by
    rw [mul_comm, Int.sign_mul_abs]
    omega
  constructor
  · intro h
    have hpos : 0 < |a1 - a0| := abs_pos.mpr (by omega)
    rw [← hlast]
    exact h _ (by omega) le_rfl
  · intro h j hj hj'
    rw [Within] at h ⊢
    rcases lt_or_gt_of_ne hne with hlt | hgt
    · rw [Int.sign_eq_neg_one_of_neg (by omega)]
      rw [abs_of_neg (by omega)] at hj'
      omega
    · rw [Int.sign_eq_one_of_pos (by omega)]
      rw [abs_of_pos (by omega)] at hj'
      omega

/-- The steps along the shorter axis stay in the frame if they end there, and if they begin there or
the first one is not rounded down. -/
lemma offset_within_iff (h0 : -1 ≤ a0 ∧ a0 ≤ size.toNat) (hpos : 0 < |long|)
    (hle : |a1 - a0| ≤ |long|) :
    (∀ j, 1 ≤ j → j ≤ |long| → Within size (a0 + offset long (a1 - a0) j)) ↔
      Within size a1 ∧ (Within size a0 ∨ |long| ≤ 2 * |a1 - a0|) := by
  have hfirst := nearest_eq_zero_iff (abs_nonneg (a1 - a0)) hpos hle
  constructor
  · intro h
    refine ⟨?_, ?_⟩
    · have hend := h |long| (by omega) le_rfl
      rwa [offset_last hpos, add_sub_cancel] at hend
    · by_contra hnot
      rw [not_or, not_le] at hnot
      have hstart := h 1 le_rfl (by omega)
      rw [offset, one_mul, hfirst.mpr hnot.2, zero_mul, add_zero] at hstart
      exact hnot.1 hstart
  · rintro ⟨hend, hbegin⟩ j hj hj'
    have hmem := offset_mem (a1 - a0) hpos hle (by omega) hj'
    rw [Set.mem_uIcc] at hmem
    rw [Within] at hend hbegin ⊢
    rcases hbegin with hbegin | hround
    · omega
    · -- the first step leaves the edge, and the others go on
      have hone : 1 ≤ nearest (j * |a1 - a0|) |long| := by
        have hmono := nearest_mono hpos (le_mul_of_one_le_left (abs_nonneg (a1 - a0)) hj)
        have hzero := nearest_mono hpos (abs_nonneg (a1 - a0))
        rw [nearest_zero hpos] at hzero
        have hne := hfirst.not.mpr (by omega)
        omega
      rw [offset] at hmem ⊢
      generalize nearest (j * |a1 - a0|) |long| = steps at hone hmem ⊢
      rcases lt_trichotomy a1 a0 with hlt | rfl | hgt
      · rw [Int.sign_eq_neg_one_of_neg (by omega)] at hmem ⊢
        omega
      · rw [sub_self, abs_zero] at hround
        omega
      · rw [Int.sign_eq_one_of_pos (by omega)] at hmem ⊢
        omega

/-! ## Conditions on the arguments -/

/-- A line from left to right: nothing is painted, or the left end and the row are in the frame. -/
def HorizontalFits (F : Frame) (x0 x1 y : ℤ) : Prop :=
  clampLine F.frm_width x1 ≤ clampLine F.frm_width x0 ∨ 0 ≤ x0 ∧ OffEdge F.frm_height y

/-- A line straight up or down: nothing is painted, or the column and the ends that are painted are
in the frame. -/
def VerticalFits (F : Frame) (x y0 y1 : ℤ) : Prop :=
  clampLine F.frm_height y1 = clampLine F.frm_height y0 ∨
    OffEdge F.frm_width x ∧ OffEdge F.frm_height y1 ∧
      (clampLine F.frm_height y0 < clampLine F.frm_height y1 → 0 ≤ y0)

/-- A slanted line: its end is in the frame, and so is its start along the shorter axis, unless the
first step is rounded up. -/
def SlantFits (F : Frame) (x0 y0 x1 y1 : ℤ) : Prop :=
  let dx := clampLine F.frm_width x1 - clampLine F.frm_width x0
  let dy := clampLine F.frm_height y1 - clampLine F.frm_height y0
  OffEdge F.frm_width x1 ∧ OffEdge F.frm_height y1 ∧
    if |dy| ≤ |dx| then OffEdge F.frm_height y0 ∨ |dx| ≤ 2 * |dy|
    else OffEdge F.frm_width x0 ∨ |dy| ≤ 2 * |dx|

/-- The condition on the arguments of `drawLine`. -/
def LineFits (F : Frame) (x0 y0 x1 y1 : ℤ) : Prop :=
  if clampLine F.frm_height y1 = clampLine F.frm_height y0 then HorizontalFits F x0 x1 y0
  else if clampLine F.frm_width x1 = clampLine F.frm_width x0 then VerticalFits F x0 y0 y1
  else SlantFits F x0 y0 x1 y1

/-! ## The lines -/

lemma horizontal_inside_iff (hw : 0 < F.frm_width.toNat) (hh : 0 < F.frm_height.toNat)
    {x0 x1 y : ℤ} : (∀ p ∈ drawHorLine (clampLine F.frm_width x0) (clampLine F.frm_height y)
      (clampLine F.frm_width x1 - clampLine F.frm_width x0), F.Inside p) ↔
        HorizontalFits F x0 x1 y := by
  have hrange := clampLine_range hw x1
  rw [HorizontalFits, ← within_clampLine_iff hh, ← clampLine_nonneg_iff hw x0]
  constructor
  · intro h
    by_cases hle : clampLine F.frm_width x1 ≤ clampLine F.frm_width x0
    · exact .inl hle
    · have hstart := h (clampLine F.frm_width x0, clampLine F.frm_height y)
        (mem_drawHorLine.mpr ⟨le_rfl, by omega, rfl⟩)
      exact .inr ⟨hstart.1.1, hstart.2⟩
  · rintro h p hp
    obtain ⟨hlow, hhigh, hrow⟩ := mem_drawHorLine.mp hp
    rcases h with hle | ⟨h0, hy⟩
    · omega
    · exact ⟨⟨by omega, by omega⟩, hrow ▸ hy⟩

/-- The pixels of `drawDiagLine`, for ends that differ in their rows. -/
lemma diagonal_inside_iff {x0 y0 y1 : ℤ} (x1 : ℤ) (hx0 : -1 ≤ x0 ∧ x0 ≤ F.frm_width.toNat)
    (hy0 : -1 ≤ y0 ∧ y0 ≤ F.frm_height.toNat) (hne : y1 ≠ y0) :
    (∀ p ∈ drawDiagLine x0 y0 (x1 - x0) (y1 - y0), F.Inside p) ↔
      Within F.frm_width x1 ∧ Within F.frm_height y1 ∧
        if |y1 - y0| ≤ |x1 - x0| then Within F.frm_height y0 ∨ |x1 - x0| ≤ 2 * |y1 - y0|
        else Within F.frm_width x0 ∨ |y1 - y0| ≤ 2 * |x1 - x0| := by
  have hpos : 0 < |y1 - y0| := abs_pos.mpr (by omega)
  have hmem : (∀ p ∈ drawDiagLine x0 y0 (x1 - x0) (y1 - y0), F.Inside p) ↔
      ∀ j, 1 ≤ j → j ≤ max |x1 - x0| |y1 - y0| →
        F.Inside ((x0, y0) + linePoint (x1 - x0) (y1 - y0) j) := by
    simp only [mem_drawDiagLine]
    exact ⟨fun h j hj hj' => h _ ⟨j, hj, hj', rfl⟩, fun h p ⟨j, hj, hj', hp⟩ => hp ▸ h j hj hj'⟩
  rw [hmem]
  by_cases hle : |y1 - y0| ≤ |x1 - x0|
  · have hne' : x1 ≠ x0 := by
      rintro rfl
      rw [sub_self, abs_zero] at hle
      omega
    have hx := along_within_iff hx0 hne'
    have hy := offset_within_iff hy0 (by omega : 0 < |x1 - x0|) hle
    have hpoint : ∀ j, F.Inside ((x0, y0) + linePoint (x1 - x0) (y1 - y0) j) ↔
        Within F.frm_width (x0 + j * (x1 - x0).sign) ∧
          Within F.frm_height (y0 + offset (x1 - x0) (y1 - y0) j) := by
      intro j
      rw [linePoint_horizontal hle]
      rfl
    rw [if_pos hle, max_eq_left hle, ← hx, ← hy]
    simp only [hpoint]
    exact ⟨fun h => ⟨fun j hj hj' => (h j hj hj').1, fun j hj hj' => (h j hj hj').2⟩,
      fun h j hj hj' => ⟨h.1 j hj hj', h.2 j hj hj'⟩⟩
  · have hx := offset_within_iff hx0 hpos (by omega : |x1 - x0| ≤ |y1 - y0|)
    have hy := along_within_iff hy0 hne
    have hpoint : ∀ j, F.Inside ((x0, y0) + linePoint (x1 - x0) (y1 - y0) j) ↔
        Within F.frm_width (x0 + offset (y1 - y0) (x1 - x0) j) ∧
          Within F.frm_height (y0 + j * (y1 - y0).sign) := by
      intro j
      rw [linePoint_vertical (by omega) hpos]
      rfl
    rw [if_neg hle, max_eq_right (by omega), ← hy, and_left_comm, ← hx]
    simp only [hpoint]
    exact ⟨fun h => ⟨fun j hj hj' => (h j hj hj').2, fun j hj hj' => (h j hj hj').1⟩,
      fun h j hj hj' => ⟨h.2 j hj hj', h.1 j hj hj'⟩⟩

/-- **Lines in the frame.**  The pixels of `drawLine` are on the screen exactly if its arguments
meet the condition. -/
lemma drawLine_inside_iff (hw : 0 < F.frm_width.toNat) (hh : 0 < F.frm_height.toNat)
    (x0 y0 x1 y1 : ℤ) :
    (∀ p ∈ drawLine F x0 y0 x1 y1, F.Inside p) ↔ LineFits F x0 y0 x1 y1 := by
  have hx0 := clampLine_range hw x0
  have hy0 := clampLine_range hh y0
  have hy1 := clampLine_range hh y1
  rw [drawLine, LineFits]
  by_cases hrow : clampLine F.frm_height y1 = clampLine F.frm_height y0
  · rw [if_pos (by omega), if_pos hrow]
    exact horizontal_inside_iff hw hh
  · have hdiag := diagonal_inside_iff (clampLine F.frm_width x1) hx0 hy0 hrow
    simp only [within_clampLine_iff hw, within_clampLine_iff hh] at hdiag
    rw [if_neg (by omega), if_neg hrow, List.forall_mem_append, hdiag]
    by_cases hcolumn : clampLine F.frm_width x1 = clampLine F.frm_width x0
    · have hoff : OffEdge F.frm_width x1 ↔ OffEdge F.frm_width x0 := by
        rw [← within_clampLine_iff hw, hcolumn, within_clampLine_iff hw]
      rw [if_pos (by omega), if_pos hcolumn, VerticalFits, hcolumn, sub_self, abs_zero,
        if_neg (by rw [abs_le]; omega), hoff]
      constructor
      · rintro ⟨hvert, hend, hlast, -⟩
        refine .inr ⟨hend, hlast, fun hdown => ?_⟩
        have hstart := hvert (clampLine F.frm_width x0, clampLine F.frm_height y0)
          (mem_drawVertLine.mpr ⟨rfl, le_rfl, by omega⟩)
        exact (clampLine_nonneg_iff hh y0).mp hstart.2.1
      · rintro (heq | ⟨hend, hlast, hdown⟩)
        · exact absurd heq hrow
        · refine ⟨fun p hp => ?_, hend, hlast, .inl hend⟩
          obtain ⟨hx, hlow, hhigh⟩ := mem_drawVertLine.mp hp
          have h0 := (clampLine_nonneg_iff hh y0).mpr (hdown (by omega))
          exact ⟨hx ▸ (within_clampLine_iff hw x0).mpr hend, ⟨by omega, by omega⟩⟩
    · rw [if_neg (by omega), if_neg hcolumn]
      simp only [List.not_mem_nil, false_imp_iff, implies_true, true_and]
      rfl

/-- **Drawing stays on the screen** exactly under conditions on the arguments: for `drawLine` those
above, and for the rectangles those of their sides and rows. -/
theorem drawing_inside_iff (hw : 0 < F.frm_width.toNat) (hh : 0 < F.frm_height.toNat) :
    (∀ x0 y0 x1 y1, (∀ p ∈ drawLine F x0 y0 x1 y1, F.Inside p) ↔ LineFits F x0 y0 x1 y1) ∧
    (∀ x y w h, (∀ p ∈ drawRectangle F x y w h, F.Inside p) ↔
      HorizontalFits F x (x + w) y ∧ HorizontalFits F x (x + w) (y + h - 1) ∧
        VerticalFits F x y (y + h) ∧ VerticalFits F (x + w - 1) y (y + h)) ∧
    ∀ x y w h, (∀ p ∈ drawFilledRectangle F x y w h, F.Inside p) ↔
      ∀ i, 0 ≤ i → i < h → HorizontalFits F x (x + w) (y + i) := by
  have hhorizontal : ∀ x0 x1 y, LineFits F x0 y x1 y ↔ HorizontalFits F x0 x1 y := by
    intro x0 x1 y
    rw [LineFits, if_pos rfl]
  have hvertical : ∀ x y0 y1, LineFits F x y0 x y1 ↔ VerticalFits F x y0 y1 := by
    intro x y0 y1
    rw [LineFits]
    split
    · rename_i hrow
      exact iff_of_true (.inl le_rfl) (.inl hrow)
    · rw [if_pos rfl]
  refine ⟨drawLine_inside_iff hw hh, fun x y w h => ?_, fun x y w h => ?_⟩
  · rw [drawRectangle, List.forall_mem_append, List.forall_mem_append, List.forall_mem_append,
      drawLine_inside_iff hw hh, drawLine_inside_iff hw hh, drawLine_inside_iff hw hh,
      drawLine_inside_iff hw hh, hhorizontal, hhorizontal, hvertical, hvertical, and_assoc,
      and_assoc]
  · rw [drawFilledRectangle]
    constructor
    · intro hall i h0 hlt
      rw [← hhorizontal, ← drawLine_inside_iff hw hh]
      intro p hp
      exact hall p (List.mem_flatMap.mpr ⟨i, mem_counter.mpr (by omega), hp⟩)
    · intro hall p hp
      obtain ⟨i, hi, hp⟩ := List.mem_flatMap.mp hp
      rw [mem_counter] at hi
      have hrow := (hhorizontal _ _ _).mpr (hall i hi.1 (by omega))
      exact (drawLine_inside_iff hw hh _ _ _ _).mpr hrow p hp

/-- A screen of 640 columns and 480 rows. -/
def smallScreen : Frame := ⟨640, 480, 2560⟩

/-- What the mouse draws away from the border. -/
theorem drawing_inside_mouse : (100, 50) ∈ drawFilledRectangle smallScreen 100 50 10 10 ∧
    ∀ p ∈ drawFilledRectangle smallScreen 100 50 10 10, smallScreen.Inside p := by
  refine ⟨by decide +kernel, ((drawing_inside_iff (by decide) (by decide)).2.2 100 50 10 10).mpr ?_⟩
  refine fun i h0 hlt => .inr ⟨by decide, ?_⟩
  have hheight : smallScreen.frm_height.toNat = 480 := rfl
  rw [OffEdge, hheight]
  omega

/-- With the mouse in the last row a rectangle is drawn below the screen, and a line that begins
left of the screen is drawn there. -/
theorem drawing_leaves_screen :
    (100, 480) ∈ drawFilledRectangle smallScreen 100 479 10 10 ∧ ¬ smallScreen.Inside (100, 480) ∧
      (-1, 7) ∈ drawLine smallScreen (-20) 7 30 7 ∧ ¬ smallScreen.Inside (-1, 7) := by
  decide +kernel

end TurbOS.Display
