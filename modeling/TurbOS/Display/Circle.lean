import TurbOS.Display.Framebuffer

/-!
# Filled circles

The loop of `drawFilledCircle` keeps three numbers and no square: in the row `y` with the column `x`
they are `xC = 1 - 2 * x`, `yC = 2 * y` and `err = y * (y - 1) + x * x - radius * radius`.  So the
test at the end of a round asks whether the pixel `(x, y + 1)` is outside of the disc, and `x` is
the last column of the disc in its row.

The disc is symmetric, and a round paints the rows `y` and `x`.  A row that no round reaches as `y`
is therefore painted when the column steps back from it.
-/

namespace TurbOS.Display

variable {radius cx cy x y u w : ℤ} {p : ℤ × ℤ}

/-- What a coordinate adds. -/
def weight (a : ℤ) : ℤ := a * a - |a|

/-- The pixel at this distance from the centre belongs to the disc. -/
def InDisc (radius dx dy : ℤ) : Prop := weight dx + weight dy < radius * radius

lemma weight_abs (a : ℤ) : weight |a| = weight a := by
  rw [weight, weight, abs_mul_abs_self, abs_abs]

lemma weight_of_nonneg {a : ℤ} (h : 0 ≤ a) : weight a = a * (a - 1) := by
  rw [weight, abs_of_nonneg h]
  ring

lemma weight_mono {a b : ℤ} (ha : 0 ≤ a) (hab : a ≤ b) : weight a ≤ weight b := by
  rw [weight_of_nonneg ha, weight_of_nonneg (ha.trans hab)]
  rcases ha.eq_or_lt with rfl | hpos
  · rcases hab.eq_or_lt with rfl | hb
    · exact le_refl _
    · exact mul_nonneg hb.le (by omega) |>.trans' (by omega)
  · exact mul_le_mul hab (by omega) (by omega) (by omega)

/-- The column is the last one of the disc in its row. -/
structure Column (radius x y : ℤ) : Prop where
  inside : InDisc radius x y
  outside : ¬ InDisc radius (x + 1) y

/-! ## One round -/

lemma mem_span {a b i : ℤ} : i ∈ span a b ↔ a ≤ i ∧ i ≤ b := by
  rw [span, List.mem_map]
  constructor
  · rintro ⟨k, hk, rfl⟩
    rw [mem_counter] at hk
    omega
  · rintro ⟨ha, hb⟩
    exact ⟨i - a, mem_counter.mpr (by omega), by omega⟩

/-- The two rows at the distance `y` from the centre, up to the column `x`. -/
lemma mem_rows (hy : 0 ≤ y) :
    p ∈ ((span (cx - x) (cx + x)).flatMap fun i => [(i, cy + y), (i, cy - y)]) ↔
      |p.1 - cx| ≤ x ∧ |p.2 - cy| = y := by
  obtain ⟨px, py⟩ := p
  rw [List.mem_flatMap, abs_le, abs_eq hy]
  constructor
  · rintro ⟨i, hi, hp⟩
    rw [mem_span] at hi
    simp only [List.mem_cons, Prod.mk.injEq, List.not_mem_nil, or_false] at hp
    omega
  · rintro ⟨hx, hrow⟩
    refine ⟨px, mem_span.mpr (by omega), ?_⟩
    simp only [List.mem_cons, Prod.mk.injEq, List.not_mem_nil, or_false, true_and]
    omega

/-- The test at the end of a round. -/
lemma drop_iff (hx : 0 ≤ x) (hy : 0 ≤ y) :
    (y * (y - 1) + x * x - radius * radius + 2 * y) * 2 + (1 - 2 * x) > 0 ↔
      ¬ InDisc radius x (y + 1) := by
  rw [InDisc, weight_of_nonneg hx, weight_of_nonneg (by omega)]
  have heq : (y * (y - 1) + x * x - radius * radius + 2 * y) * 2 + (1 - 2 * x) =
      2 * (x * (x - 1) + (y + 1) * (y + 1 - 1) - radius * radius) + 1 := by ring
  rw [heq]
  omega

/-- The column of the next row, unless the rows have met. -/
lemma Column.next (h : Column radius x y) (hx : 0 ≤ x) (hy : 0 ≤ y) :
    (InDisc radius x (y + 1) → Column radius x (y + 1)) ∧
      (¬ InDisc radius x (y + 1) → y + 1 ≤ x - 1 → Column radius (x - 1) (y + 1)) := by
  obtain ⟨hin, hout⟩ := h
  refine ⟨fun hnext => ⟨hnext, fun hbeyond => hout ?_⟩, fun hnext hmeet => ⟨?_, ?_⟩⟩
  · rw [InDisc] at hbeyond ⊢
    have := weight_mono hy (by omega : y ≤ y + 1)
    omega
  · -- one step back makes up for one row more
    rw [InDisc, weight_of_nonneg hx, weight_of_nonneg hy] at hin
    rw [InDisc, weight_of_nonneg (by omega), weight_of_nonneg (by omega)]
    have hstep : (x - 1) * (x - 1 - 1) + (y + 1) * (y + 1 - 1) =
        x * (x - 1) + y * (y - 1) - 2 * (x - 1 - y) := by ring
    omega
  · rwa [sub_add_cancel]

/-- What is left after a round, for the distances `u` and `w` of a pixel: if the column steps back,
the row that it leaves was painted as far as the disc reaches. -/
lemma Column.round {x' : ℤ} (h : Column radius x y) (hy : 0 ≤ y) (hxy : y ≤ x)
    (hx' : x' = x ∨ x' = x - 1 ∧ ¬ InDisc radius x (y + 1)) (hu : 0 ≤ u) :
    (u ≤ x ∧ w = y) ∨ (u ≤ y ∧ w = x) ∨ (InDisc radius u w ∧ y + 1 ≤ w ∧ w ≤ x') ↔
      InDisc radius u w ∧ y ≤ w ∧ w ≤ x := by
  obtain ⟨hin, hout⟩ := h
  simp only [InDisc] at hin hout hx' ⊢
  constructor
  · rintro (⟨hux, rfl⟩ | ⟨huy, rfl⟩ | ⟨hdisc, hlow, hhigh⟩)
    · have := weight_mono hu hux
      exact ⟨by omega, le_refl w, hxy⟩
    · have := weight_mono hu huy
      exact ⟨by omega, hxy, le_refl w⟩
    · exact ⟨hdisc, by omega, by omega⟩
  · rintro ⟨hdisc, hlow, hhigh⟩
    by_cases hwy : w = y
    · refine .inl ⟨?_, hwy⟩
      by_contra hux
      have := weight_mono (by omega) (by omega : x + 1 ≤ u)
      rw [hwy] at hdisc
      omega
    · by_cases hwx : w ≤ x'
      · exact .inr (.inr ⟨hdisc, by omega, hwx⟩)
      · obtain rfl | ⟨rfl, hdrop⟩ := hx'
        · omega
        · obtain rfl : w = x := by omega
          refine .inr (.inl ⟨?_, rfl⟩)
          by_contra huy
          have := weight_mono (by omega) (by omega : y + 1 ≤ u)
          omega

/-! ## The loop -/

/-- From a row on, the loop paints the pixels of the disc between the two rows of the round. -/
lemma mem_circleRows (hy : 0 ≤ y) (h : y ≤ x → Column radius x y) :
    p ∈ circleRows cx cy x y (1 - 2 * x) (2 * y) (y * (y - 1) + x * x - radius * radius) ↔
      InDisc radius (p.1 - cx) (p.2 - cy) ∧ y ≤ |p.2 - cy| ∧ |p.2 - cy| ≤ x := by
  induction hn : (x + 1 - y).toNat using Nat.strong_induction_on generalizing x y with
  | _ n ih =>
    by_cases hxy : y ≤ x
    · have hcolumn := h hxy
      have hnext := hcolumn.next (by omega) hy
      have hp : InDisc radius (p.1 - cx) (p.2 - cy) ↔ InDisc radius |p.1 - cx| |p.2 - cy| := by
        rw [InDisc, InDisc, weight_abs, weight_abs]
      rw [circleRows, if_pos hxy, List.mem_append, List.mem_append, mem_rows hy,
        mem_rows (hy.trans hxy)]
      by_cases hdrop : InDisc radius x (y + 1)
      · have hsame : circleRows cx cy x (y + 1) (1 - 2 * x) (2 * y + 2)
            (y * (y - 1) + x * x - radius * radius + 2 * y) =
            circleRows cx cy x (y + 1) (1 - 2 * x) (2 * (y + 1))
              ((y + 1) * (y + 1 - 1) + x * x - radius * radius) := by
          congr 1 <;> ring
        rw [if_neg (by rw [drop_iff (hy.trans hxy) hy]; exact not_not.mpr hdrop), hsame,
          ih _ (by omega) (by omega) (fun _ => hnext.1 hdrop) rfl, hp, or_assoc]
        exact hcolumn.round hy hxy (.inl rfl) (abs_nonneg _)
      · have hback : circleRows cx cy (x - 1) (y + 1) (1 - 2 * x + 2) (2 * y + 2)
            (y * (y - 1) + x * x - radius * radius + 2 * y + (1 - 2 * x)) =
            circleRows cx cy (x - 1) (y + 1) (1 - 2 * (x - 1)) (2 * (y + 1))
              ((y + 1) * (y + 1 - 1) + (x - 1) * (x - 1) - radius * radius) := by
          congr 1 <;> ring
        rw [if_pos ((drop_iff (hy.trans hxy) hy).mpr hdrop), hback,
          ih _ (by omega) (by omega) (hnext.2 hdrop) rfl, hp, or_assoc]
        exact hcolumn.round hy hxy (.inr ⟨rfl, hdrop⟩) (abs_nonneg _)
    · rw [circleRows, if_neg hxy]
      simp only [List.not_mem_nil, false_iff]
      omega

/-! ## The numbers stay small -/

/-- The values that a round computes, with those of the loops over the columns. -/
def roundValues (cx cy x y xC yC err : ℤ) : List ℤ :=
  [cx - x, cx + x, cx + x + 1, cy + y, cy - y, cx - y, cx + y, cx + y + 1, cy + x, cy - x, y + 1,
    err + yC, yC + 2, (err + yC) * 2, (err + yC) * 2 + xC, x - 1, err + yC + xC, xC + 2]

/-- The values that the loop of `drawFilledCircle` computes. -/
def circleValues (cx cy x y xC yC err : ℤ) : List ℤ :=
  if x ≥ y then
    roundValues cx cy x y xC yC err ++
    if (err + yC) * 2 + xC > 0 then
      circleValues cx cy (x - 1) (y + 1) (xC + 2) (yC + 2) (err + yC + xC)
    else circleValues cx cy x (y + 1) xC (yC + 2) (err + yC)
  else []
termination_by (x + 1 - y).toNat

/-- The values that `drawFilledCircle` computes, for a centre that is kept. -/
def filledCircleValues (cx cy radius : ℤ) : List ℤ :=
  [radius * 2, 1 - radius * 2] ++ circleValues cx cy radius 0 (1 - radius * 2) 0 0

/-- In a row that is painted the numbers are bounded by the centre and the radius. -/
lemma roundValues_inInt {v : ℤ} (hcx : cx ≤ 2 ^ 30) (hcy : cy ≤ 2 ^ 30) (hrx : radius ≤ cx)
    (hry : radius ≤ cy) (hr : radius ≤ 2 ^ 14) (hx : x ≤ radius) (hy : 0 ≤ y) (hxy : y ≤ x)
    (h : Column radius x y)
    (hv : v ∈ roundValues cx cy x y (1 - 2 * x) (2 * y) (y * (y - 1) + x * x - radius * radius)) :
    InInt v := by
  have hin := h.inside
  rw [InDisc, weight_of_nonneg (hy.trans hxy), weight_of_nonneg hy] at hin
  have hsquare : radius * radius ≤ 2 ^ 14 * 2 ^ 14 := mul_le_mul hr hr (by omega) (by omega)
  have hrow : 0 ≤ y * (y - 1) := by
    rcases hy.eq_or_lt with rfl | hpos
    · simp
    · exact mul_nonneg hy (by omega)
  have hcolumn : 0 ≤ x * x := mul_self_nonneg x
  rw [mul_sub, mul_one] at hin
  generalize y * (y - 1) = a at *
  generalize x * x = b at *
  generalize radius * radius = c at *
  simp only [roundValues, List.mem_cons, List.not_mem_nil, or_false] at hv
  rw [InInt]
  rcases hv with rfl | rfl | rfl | rfl | rfl | rfl | rfl | rfl | rfl | rfl | rfl | rfl | rfl |
    rfl | rfl |
    rfl | rfl | rfl <;> omega

lemma circleValues_inInt {v : ℤ} (hcx : cx ≤ 2 ^ 30) (hcy : cy ≤ 2 ^ 30) (hrx : radius ≤ cx)
    (hry : radius ≤ cy) (hr : radius ≤ 2 ^ 14) (hx : x ≤ radius) (hy : 0 ≤ y)
    (h : y ≤ x → Column radius x y)
    (hv : v ∈ circleValues cx cy x y (1 - 2 * x) (2 * y) (y * (y - 1) + x * x - radius * radius)) :
    InInt v := by
  induction hn : (x + 1 - y).toNat using Nat.strong_induction_on generalizing x y with
  | _ n ih =>
    by_cases hxy : y ≤ x
    · have hcolumn := h hxy
      have hnext := hcolumn.next (by omega) hy
      rw [circleValues, if_pos hxy, List.mem_append] at hv
      rcases hv with hv | hv
      · exact roundValues_inInt hcx hcy hrx hry hr hx hy hxy hcolumn hv
      · by_cases hdrop : InDisc radius x (y + 1)
        · rw [if_neg (by rw [drop_iff (hy.trans hxy) hy]; exact not_not.mpr hdrop)] at hv
          refine ih _ (by omega) hx (by omega : 0 ≤ y + 1) (fun _ => hnext.1 hdrop) ?_ rfl
          convert hv using 2 <;> ring
        · rw [if_pos ((drop_iff (hy.trans hxy) hy).mpr hdrop)] at hv
          refine ih _ (by omega) (by omega : x - 1 ≤ radius) (by omega : 0 ≤ y + 1) (hnext.2 hdrop)
            ?_ rfl
          convert hv using 2 <;> ring
    · rw [circleValues, if_neg hxy] at hv
      simp at hv

/-! ## The disc -/

lemma column_start (hr : 1 ≤ radius) : Column radius radius 0 := by
  have hzero : weight 0 = 0 := by simp [weight]
  have hlast : radius * (radius - 1) = radius * radius - radius := by ring
  have hbeyond : (radius + 1) * (radius + 1 - 1) = radius * radius + radius := by ring
  refine ⟨?_, ?_⟩
  · rw [InDisc, hzero, weight_of_nonneg (by omega), hlast]
    omega
  · rw [InDisc, hzero, weight_of_nonneg (by omega), hbeyond]
    omega

/-- The disc reaches as far as the radius in all directions. -/
lemma InDisc.le_radius {dx dy : ℤ} (hr : 1 ≤ radius) (h : InDisc radius dx dy) :
    |dx| ≤ radius ∧ |dy| ≤ radius := by
  have hzero : weight 0 = 0 := by simp [weight]
  have hout := (column_start hr).outside
  rw [InDisc, hzero] at hout
  rw [InDisc, ← weight_abs dx, ← weight_abs dy] at h
  have hdx := weight_mono (le_refl 0) (abs_nonneg dx)
  have hdy := weight_mono (le_refl 0) (abs_nonneg dy)
  constructor
  · by_contra hlt
    have := weight_mono (by omega) (by omega : radius + 1 ≤ |dx|)
    omega
  · by_contra hlt
    have := weight_mono (by omega) (by omega : radius + 1 ≤ |dy|)
    omega

/-- **Filled circles are discs.**  The pixels that are painted are those of the disc around the
centre; no `int` that is computed overflows, and no coordinate is negative. -/
theorem filled_circle_is_disc (hcx : cx ≤ 2 ^ 30) (hcy : cy ≤ 2 ^ 30) (hr : 1 ≤ radius)
    (hrx : radius ≤ cx) (hry : radius ≤ cy) (hr' : radius ≤ 2 ^ 14) :
    (∀ p, p ∈ drawFilledCircle cx cy radius ↔ ∃ dx dy : ℤ, p = (cx + dx, cy + dy) ∧
      dx * dx - |dx| + dy * dy - |dy| < radius * radius) ∧
    (∀ v ∈ filledCircleValues cx cy radius, InInt v) ∧
    ∀ p ∈ drawFilledCircle cx cy radius, (toUnsigned p.1 : ℤ) = p.1 ∧
      (toUnsigned p.2 : ℤ) = p.2 := by
  have hcolumn : (0 : ℤ) ≤ radius → Column radius radius 0 := fun _ => column_start hr
  have herr : (0 : ℤ) * (0 - 1) + radius * radius - radius * radius = 0 := by ring
  have hmem : ∀ p, p ∈ drawFilledCircle cx cy radius ↔ InDisc radius (p.1 - cx) (p.2 - cy) := by
    intro p
    have hloop : p ∈ circleRows cx cy radius 0 (1 - 2 * radius) (2 * 0)
        (0 * (0 - 1) + radius * radius - radius * radius) ↔
          InDisc radius (p.1 - cx) (p.2 - cy) ∧ 0 ≤ |p.2 - cy| ∧ |p.2 - cy| ≤ radius :=
      mem_circleRows (le_refl 0) hcolumn
    rw [mul_comm 2 radius, mul_zero, herr] at hloop
    rw [drawFilledCircle, if_neg (by omega), hloop]
    exact and_iff_left_of_imp fun h => ⟨abs_nonneg _, (h.le_radius hr).2⟩
  refine ⟨fun p => ?_, fun v hv => ?_, fun p hp => ?_⟩
  · rw [hmem]
    constructor
    · intro h
      refine ⟨p.1 - cx, p.2 - cy, by rw [add_sub_cancel, add_sub_cancel], ?_⟩
      rw [InDisc, weight, weight] at h
      omega
    · rintro ⟨dx, dy, rfl, h⟩
      rw [add_sub_cancel_left, add_sub_cancel_left, InDisc, weight, weight]
      omega
  · rw [filledCircleValues, List.mem_append] at hv
    rcases hv with hv | hv
    · simp only [List.mem_cons, List.not_mem_nil, or_false] at hv
      rw [InInt]
      omega
    · refine circleValues_inInt hcx hcy hrx hry hr' (le_refl radius) (le_refl 0) hcolumn ?_
      rwa [mul_comm 2 radius, mul_zero, herr]
  · obtain ⟨hx, hy⟩ := ((hmem p).mp hp).le_radius hr
    rw [abs_le] at hx hy
    exact ⟨toUnsigned_of_nonneg (by rw [InInt]; omega) (by omega),
      toUnsigned_of_nonneg (by rw [InInt]; omega) (by omega)⟩

/-- A circle at the border of the frame, of the size that the mouse draws. -/
theorem filled_circle_is_disc_five :
    (1, 9) ∈ drawFilledCircle 5 5 5 ∧ (0, 9) ∉ drawFilledCircle 5 5 5 := by
  have hdisc := (filled_circle_is_disc (by decide : (5 : ℤ) ≤ 2 ^ 30) (by decide : (5 : ℤ) ≤ 2 ^ 30)
    (by decide : (1 : ℤ) ≤ 5) (le_refl 5) (le_refl 5) (by decide)).1
  constructor
  · exact (hdisc _).mpr ⟨-4, 4, rfl, by decide⟩
  · intro h
    obtain ⟨dx, dy, hp, hlt⟩ := (hdisc _).mp h
    obtain ⟨hx, hy⟩ := Prod.mk.inj hp
    obtain rfl : dx = -5 := by omega
    obtain rfl : dy = 4 := by omega
    exact absurd hlt (by decide)

end TurbOS.Display
