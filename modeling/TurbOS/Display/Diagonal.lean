import TurbOS.Display.Framebuffer
import TurbOS.Lib.Grid
import TurbOS.Lib.Nearest

/-!
# Slanted lines

`drawDiagLine` goes along the longer axis pixel by pixel, and keeps a remainder that starts with
half of the longer distance.  After `j` steps it has made as many steps along the shorter axis as
the quotient, rounded to the nearest integer, of `j` times the shorter distance and the longer one.

It paints the last pixel of the line, but not the first one.
-/

open Grid Nearest

namespace TurbOS.Display

variable {x0 y0 dx dy long short k : ℤ} {p q u u' : ℤ × ℤ} {n : ℕ}

/-! ## The loop -/

/-- After `k` steps the loop stands at the rounded multiple. -/
lemma diagonal_eq (hlong : 0 < long) (hshort : 0 ≤ short) (hle : short ≤ long) :
    diagonal long short u u' n (rest (k * short) long) (p + k • u + nearest (k * short) long • u') =
      (List.range n).map fun i : ℕ =>
        p + (k + 1 + i) • u + nearest ((k + 1 + i) * short) long • u' := by
  induction n generalizing k with
  | zero => rfl
  | succ n ih =>
    have hnext : k * short + short = (k + 1) * short := by ring
    have hcarry := carry (a := k * short) hlong hshort hle
    rw [hnext] at hcarry
    have hstep : (if rest (k * short) long + short ≥ long then
        p + k • u + nearest (k * short) long • u' + u'
          else p + k • u + nearest (k * short) long • u') + u =
        p + (k + 1) • u + nearest ((k + 1) * short) long • u' := by
      split
      · rename_i h
        rw [(hcarry.1 h).1]
        module
      · rename_i h
        rw [(hcarry.2 (by omega)).1]
        module
    have hrest : (if rest (k * short) long + short ≥ long then rest (k * short) long + short - long
        else rest (k * short) long + short) = rest ((k + 1) * short) long := by
      split
      · rename_i h
        exact (hcarry.1 h).2.symm
      · rename_i h
        exact (hcarry.2 (by omega)).2.symm
    rw [diagonal, hstep, hrest, ih, List.range_succ_eq_map, List.map_cons, List.map_map]
    congr 1
    · simp
    · apply List.map_congr_left
      intro i _
      have hi : k + 1 + 1 + (i : ℤ) = k + 1 + (i + 1) := by ring
      rw [Function.comp_apply, Nat.cast_succ, hi]

/-- The loop from the start of the line. -/
lemma diagonal_start (hlong : 0 < long) (hshort : 0 ≤ short) (hle : short ≤ long) :
    diagonal long short u u' n (long / 2) p =
      (List.range n).map fun i : ℕ =>
        p + ((i + 1 : ℤ) • u + nearest ((i + 1) * short) long • u') := by
  calc diagonal long short u u' n (long / 2) p
      = diagonal long short u u' n (rest (0 * short) long)
          (p + (0 : ℤ) • u + nearest (0 * short) long • u') := by
        rw [zero_mul, rest_zero hlong, nearest_zero hlong, zero_smul, zero_smul, add_zero, add_zero]
    _ = (List.range n).map fun i : ℕ =>
          p + (0 + 1 + i : ℤ) • u + nearest ((0 + 1 + i) * short) long • u' :=
        diagonal_eq hlong hshort hle
    _ = (List.range n).map fun i : ℕ =>
          p + ((i + 1 : ℤ) • u + nearest ((i + 1) * short) long • u') := by
        apply List.map_congr_left
        intro i _
        rw [zero_add, add_comm (1 : ℤ), add_assoc]

/-- How far a line has come along the shorter axis after `j` steps along the longer one. -/
def offset (long short j : ℤ) : ℤ := nearest (j * |short|) |long| * short.sign

/-- The pixel after `j` steps, from the start. -/
def linePoint (dx dy j : ℤ) : ℤ × ℤ :=
  if |dy| ≤ |dx| then (j * dx.sign, offset dx dy j) else (offset dy dx j, j * dy.sign)

/-- The pixels of a line. -/
lemma drawDiagLine_eq (x0 y0 dx dy : ℤ) :
    drawDiagLine x0 y0 dx dy =
      (List.range (max |dx| |dy|).toNat).map fun i : ℕ => (x0, y0) + linePoint dx dy (i + 1) := by
  rw [drawDiagLine]
  simp only [Int.natCast_natAbs]
  by_cases hle : |dy| ≤ |dx|
  · rw [if_pos hle, max_eq_left hle]
    rcases (abs_nonneg dx).eq_or_lt with hzero | hpos
    · rw [← hzero]
      rfl
    · rw [diagonal_start hpos (abs_nonneg dy) hle]
      apply List.map_congr_left
      intro i _
      rw [linePoint, if_pos hle, offset]
      simp only [Prod.smul_mk, smul_eq_mul, mul_zero, Prod.mk_add_mk, add_zero, zero_add]
  · have hlt : |dx| ≤ |dy| := by omega
    have hpos : 0 < |dy| := lt_of_le_of_lt (abs_nonneg dx) (by omega)
    rw [if_neg hle, max_eq_right hlt, diagonal_start hpos (abs_nonneg dx) hlt]
    apply List.map_congr_left
    intro i _
    rw [linePoint, if_neg hle, offset]
    simp only [Prod.smul_mk, smul_eq_mul, mul_zero, Prod.mk_add_mk, add_zero, zero_add]

/-! ## Along the axes -/

variable {j : ℤ}

lemma abs_sign_le (a : ℤ) : |a.sign| ≤ 1 := by
  rcases eq_or_ne a 0 with rfl | h
  · simp
  · exact (Int.abs_sign_of_ne_zero h).le

/-- On the diagonal both axes are alike. -/
lemma offset_of_eq (h : |short| = |long|) (hpos : 0 < |long|) :
    offset long short j = j * short.sign := by
  rw [offset, h, nearest_mul hpos]

lemma offset_zero (hpos : 0 < |long|) : offset long short 0 = 0 := by
  rw [offset, zero_mul, nearest_zero hpos, zero_mul]

lemma offset_last (hpos : 0 < |long|) : offset long short |long| = short := by
  rw [offset, mul_comm |long|, nearest_mul hpos, mul_comm, Int.sign_mul_abs]

/-- One more step goes on by one pixel or stays. -/
lemma offset_step (hpos : 0 < |long|) (hle : |short| ≤ |long|) :
    |offset long short (j + 1) - offset long short j| ≤ 1 := by
  have hnext : (j + 1) * |short| = j * |short| + |short| := by ring
  rw [offset, offset, ← sub_mul, abs_mul, hnext]
  rcases nearest_step (a := j * |short|) hpos (abs_nonneg short) hle with h | h
  · rw [h, sub_self, abs_zero, zero_mul]
    exact zero_le_one
  · rw [h, add_sub_cancel_left, abs_one, one_mul]
    exact abs_sign_le short

/-- The line is left by half a pixel at most. -/
lemma offset_close (hpos : 0 < |long|) :
    2 * |offset long short j * long - short * (j * long.sign)| ≤ |long| := by
  have hfactor : offset long short j * long - short * (j * long.sign) =
      (nearest (j * |short|) |long| * |long| - j * |short|) * (short.sign * long.sign) := by
    calc nearest (j * |short|) |long| * short.sign * long - short * (j * long.sign)
        = nearest (j * |short|) |long| * short.sign * (long.sign * |long|) -
            short.sign * |short| * (j * long.sign) := by rw [Int.sign_mul_abs, Int.sign_mul_abs]
      _ = (nearest (j * |short|) |long| * |long| - j * |short|) *
        (short.sign * long.sign) := by ring
  rw [hfactor, abs_mul, abs_mul]
  have hclose := nearest_close (a := j * |short|) hpos
  have hsigns : |short.sign| * |long.sign| ≤ 1 := by
    have := mul_le_mul (abs_sign_le short) (abs_sign_le long) (abs_nonneg _) zero_le_one
    simpa using this
  have := mul_le_mul_of_nonneg_left hsigns (abs_nonneg
    (nearest (j * |short|) |long| * |long| - j * |short|))
  omega

/-- The steps along the shorter axis stay between its ends. -/
lemma offset_mem (short : ℤ) (hpos : 0 < |long|) (hle : |short| ≤ |long|) (hj : 0 ≤ j)
    (hj' : j ≤ |long|) : offset long short j ∈ Set.uIcc 0 short := by
  have hlow : 0 ≤ nearest (j * |short|) |long| := by
    rw [← nearest_zero hpos]
    exact nearest_mono hpos (mul_nonneg hj (abs_nonneg _))
  have hhigh : nearest (j * |short|) |long| ≤ |short| := by
    have hmul : j * |short| ≤ |short| * |long| := by
      rw [mul_comm j]
      exact mul_le_mul_of_nonneg_left hj' (abs_nonneg _)
    exact (nearest_mono hpos hmul).trans (nearest_mul hpos |short|).le
  rw [offset, Set.mem_uIcc]
  generalize nearest (j * |short|) |long| = steps at hlow hhigh ⊢
  rcases lt_trichotomy short 0 with h | rfl | h
  · rw [Int.sign_eq_neg_one_of_neg h]
    rw [abs_of_neg h] at hhigh
    right
    constructor <;> omega
  · simp
  · rw [Int.sign_eq_one_of_pos h, mul_one]
    rw [abs_of_pos h] at hhigh
    exact .inl ⟨hlow, hhigh⟩

lemma along_mem (hj : 0 ≤ j) (hj' : j ≤ |long|) : j * long.sign ∈ Set.uIcc 0 long := by
  rw [Set.mem_uIcc]
  rcases lt_trichotomy long 0 with h | rfl | h
  · rw [Int.sign_eq_neg_one_of_neg h]
    rw [abs_of_neg h] at hj'
    right
    constructor <;> omega
  · simp
  · rw [Int.sign_eq_one_of_pos h, mul_one]
    rw [abs_of_pos h] at hj'
    exact .inl ⟨hj, hj'⟩

/-! ## The pixels -/

/-- The longer axis is the horizontal one. -/
lemma linePoint_horizontal (h : |dy| ≤ |dx|) : linePoint dx dy j = (j * dx.sign, offset dx dy j) :=
  if_pos h

/-- The longer axis is the vertical one. -/
lemma linePoint_vertical (h : |dx| ≤ |dy|) (hpos : 0 < |dy|) :
    linePoint dx dy j = (offset dy dx j, j * dy.sign) := by
  rw [linePoint]
  split
  · rename_i hle
    have heq : |dx| = |dy| := le_antisymm h hle
    rw [offset_of_eq heq hpos, offset_of_eq heq.symm (heq ▸ hpos)]
  · rfl

/-- A pixel of a line comes next after another one. -/
structure Follows (dx dy : ℤ) (p q : ℤ × ℤ) : Prop where
  near : Near p q
  horizontal : |dy| ≤ |dx| → q.1 - p.1 = dx.sign
  vertical : |dx| ≤ |dy| → q.2 - p.2 = dy.sign

lemma follows_linePoint (hpos : 0 < max |dx| |dy|) (p : ℤ × ℤ) (j : ℤ) :
    Follows dx dy (p + linePoint dx dy j) (p + linePoint dx dy (j + 1)) := by
  have hsub : ∀ a b c : ℤ, a + b - (a + c) = b - c := fun a b c => add_sub_add_left_eq_sub b c a
  have hone : ∀ a : ℤ, (j + 1) * a.sign - j * a.sign = a.sign := fun a => by ring
  refine ⟨?_, fun h => ?_, fun h => ?_⟩
  · rcases le_total |dy| |dx| with h | h
    · rw [max_eq_left h] at hpos
      rw [linePoint_horizontal h, linePoint_horizontal h, Near, Prod.fst_add, Prod.fst_add,
        Prod.snd_add, Prod.snd_add, hsub, hsub, hone]
      exact ⟨abs_sign_le dx, offset_step hpos h⟩
    · rw [max_eq_right h] at hpos
      rw [linePoint_vertical h hpos, linePoint_vertical h hpos, Near, Prod.fst_add, Prod.fst_add,
        Prod.snd_add, Prod.snd_add, hsub, hsub, hone]
      exact ⟨offset_step hpos h, abs_sign_le dy⟩
  · rw [linePoint_horizontal h, linePoint_horizontal h, Prod.fst_add, Prod.fst_add, hsub, hone]
  · rw [max_eq_right h] at hpos
    rw [linePoint_vertical h hpos, linePoint_vertical h hpos, Prod.snd_add, Prod.snd_add, hsub,
      hone]

lemma linePoint_zero (hpos : 0 < max |dx| |dy|) : linePoint dx dy 0 = 0 := by
  rcases le_total |dy| |dx| with h | h
  · rw [max_eq_left h] at hpos
    rw [linePoint_horizontal h, offset_zero hpos, zero_mul]
    rfl
  · rw [max_eq_right h] at hpos
    rw [linePoint_vertical h hpos, offset_zero hpos, zero_mul]
    rfl

lemma linePoint_last (hpos : 0 < max |dx| |dy|) : linePoint dx dy (max |dx| |dy|) = (dx, dy) := by
  rcases le_total |dy| |dx| with h | h
  · rw [max_eq_left h] at hpos ⊢
    rw [linePoint_horizontal h, offset_last hpos, mul_comm, Int.sign_mul_abs]
  · rw [max_eq_right h] at hpos ⊢
    rw [linePoint_vertical h hpos, offset_last hpos, mul_comm, Int.sign_mul_abs]

/-- The start and the pixels of a line. -/
lemma cons_drawDiagLine (hpos : 0 < max |dx| |dy|) :
    (x0, y0) :: drawDiagLine x0 y0 dx dy =
      (List.range ((max |dx| |dy|).toNat + 1)).map fun i : ℕ => (x0, y0) + linePoint dx dy i := by
  rw [drawDiagLine_eq, List.range_succ_eq_map, List.map_cons, Nat.cast_zero, linePoint_zero hpos,
    add_zero, List.map_map]
  rfl

lemma mem_drawDiagLine :
    p ∈ drawDiagLine x0 y0 dx dy ↔
      ∃ j, 1 ≤ j ∧ j ≤ max |dx| |dy| ∧ p = (x0, y0) + linePoint dx dy j := by
  simp only [drawDiagLine_eq, List.mem_map, List.mem_range]
  constructor
  · rintro ⟨i, hi, rfl⟩
    exact ⟨i + 1, by omega, by omega, rfl⟩
  · rintro ⟨j, hj, hj', rfl⟩
    refine ⟨(j - 1).toNat, by omega, ?_⟩
    congr 2
    omega

/-- The steps along the longer axis lead to different pixels. -/
lemma linePoint_injective (hpos : 0 < max |dx| |dy|) : Function.Injective (linePoint dx dy) := by
  intro j j' h
  rcases le_total |dy| |dx| with hle | hle
  · rw [max_eq_left hle, abs_pos] at hpos
    rw [linePoint_horizontal hle, linePoint_horizontal hle] at h
    exact mul_right_cancel₀ (Int.sign_eq_zero_iff_zero.not.mpr hpos) (Prod.mk.inj h).1
  · rw [max_eq_right hle] at hpos
    rw [linePoint_vertical hle hpos, linePoint_vertical hle hpos] at h
    exact mul_right_cancel₀ (Int.sign_eq_zero_iff_zero.not.mpr (abs_pos.mp hpos)) (Prod.mk.inj h).2

/-- No pixel is painted twice. -/
lemma nodup_drawDiagLine (x0 y0 dx dy : ℤ) : (drawDiagLine x0 y0 dx dy).Nodup := by
  rw [drawDiagLine_eq]
  by_cases hpos : 0 < max |dx| |dy|
  · refine List.nodup_range.map fun i i' h => ?_
    have := linePoint_injective hpos (add_left_cancel h)
    omega
  · rw [Int.toNat_eq_zero.mpr (by omega)]
    exact List.nodup_nil

/-- A line without length has no pixels. -/
lemma drawDiagLine_of_zero (x0 y0 : ℤ) (h : ¬ 0 < max |dx| |dy|) :
    dx = 0 ∧ dy = 0 ∧ drawDiagLine x0 y0 dx dy = [] := by
  have hx := abs_nonneg dx
  have hy := abs_nonneg dy
  refine ⟨abs_eq_zero.mp (by omega), abs_eq_zero.mp (by omega), ?_⟩
  rw [drawDiagLine_eq, Int.toNat_eq_zero.mpr (by omega)]
  rfl

/-- Every pixel follows the one before. -/
lemma isChain_drawDiagLine (x0 y0 dx dy : ℤ) :
    List.IsChain (Follows dx dy) ((x0, y0) :: drawDiagLine x0 y0 dx dy) := by
  by_cases hpos : 0 < max |dx| |dy|
  · rw [cons_drawDiagLine hpos, List.isChain_map, List.isChain_range_succ]
    intro i _
    exact_mod_cast follows_linePoint hpos (x0, y0) i
  · rw [(drawDiagLine_of_zero x0 y0 hpos).2.2]
    exact List.isChain_singleton _

/-- The last pixel is the end of the line. -/
lemma getLast_drawDiagLine (x0 y0 dx dy : ℤ) :
    ((x0, y0) :: drawDiagLine x0 y0 dx dy).getLast? = some (x0 + dx, y0 + dy) := by
  by_cases hpos : 0 < max |dx| |dy|
  · have hlast : ((max |dx| |dy|).toNat : ℤ) = max |dx| |dy| := Int.toNat_of_nonneg hpos.le
    rw [cons_drawDiagLine hpos, List.range_succ, List.map_append, List.map_singleton,
      List.getLast?_concat, hlast, linePoint_last hpos]
    rfl
  · obtain ⟨hdx, hdy, hnil⟩ := drawDiagLine_of_zero x0 y0 hpos
    rw [hnil, hdx, hdy, add_zero, add_zero]
    rfl

/-- A line does not paint its start. -/
lemma start_notMem_drawDiagLine (x0 y0 dx dy : ℤ) : (x0, y0) ∉ drawDiagLine x0 y0 dx dy := by
  intro h
  obtain ⟨j, hj, hj', hp⟩ := mem_drawDiagLine.mp h
  have hpos : 0 < max |dx| |dy| := by omega
  have hzero : linePoint dx dy j = linePoint dx dy 0 := by
    rw [linePoint_zero hpos]
    exact left_eq_add.mp hp
  have := linePoint_injective hpos hzero
  omega

/-- All pixels of a line are between its ends. -/
lemma between_of_mem (h : p ∈ drawDiagLine x0 y0 dx dy) :
    p.1 ∈ Set.uIcc x0 (x0 + dx) ∧ p.2 ∈ Set.uIcc y0 (y0 + dy) := by
  obtain ⟨j, hj, hj', rfl⟩ := mem_drawDiagLine.mp h
  have hshift : ∀ a b c : ℤ, b ∈ Set.uIcc 0 c → a + b ∈ Set.uIcc a (a + c) := by
    intro a b c hb
    rw [Set.mem_uIcc] at hb ⊢
    omega
  rcases le_total |dy| |dx| with hle | hle
  · rw [max_eq_left hle] at hj'
    rw [linePoint_horizontal hle]
    exact ⟨hshift _ _ _ (along_mem (by omega) hj'),
      hshift _ _ _ (offset_mem _ (by omega) hle (by omega) hj')⟩
  · rw [max_eq_right hle] at hj'
    rw [linePoint_vertical hle (by omega)]
    exact ⟨hshift _ _ _ (offset_mem _ (by omega) hle (by omega) hj'),
      hshift _ _ _ (along_mem (by omega) hj')⟩

/-- How far a pixel is from the exact line, for a distance that was measured in integers. -/
lemma half_of_close {a b d : ℤ} (hd : d ≠ 0) (h : 2 * |a * d - b| ≤ |d|) :
    |(a : ℚ) - b / d| ≤ 1 / 2 := by
  have hd' : (d : ℚ) ≠ 0 := Int.cast_ne_zero.mpr hd
  have hpos : 0 < |(d : ℚ)| := abs_pos.mpr hd'
  have hcast : 2 * |(a : ℚ) * d - b| ≤ |(d : ℚ)| := by exact_mod_cast h
  have heq : (a : ℚ) - b / d = (a * d - b) / d := by field_simp
  rw [heq, abs_div, div_le_iff₀ hpos]
  linarith

/-- The sums that the loop computes, one in each round. -/
def diagonalSums (long short : ℤ) : ℕ → ℤ → List ℤ
  | 0, _ => []
  | n + 1, sum =>
    let sum := sum + short
    sum :: diagonalSums long short n (if sum ≥ long then sum - long else sum)

/-- The sums that `drawDiagLine` computes. -/
def lineSums (dx dy : ℤ) : List ℤ :=
  if |dx| ≥ |dy| then diagonalSums |dx| |dy| |dx|.toNat (|dx| / 2)
  else diagonalSums |dy| |dx| |dy|.toNat (|dy| / 2)

lemma diagonalSums_bound {sum v : ℤ} (hshort : 0 ≤ short) (hle : short ≤ long) (hsum : 0 ≤ sum)
    (hlt : sum < long) (hv : v ∈ diagonalSums long short n sum) : 0 ≤ v ∧ v < long + short := by
  induction n generalizing sum with
  | zero => simp [diagonalSums] at hv
  | succ n ih =>
    rw [diagonalSums] at hv
    rcases List.mem_cons.mp hv with rfl | hv
    · omega
    · split at hv
      · exact ih (by omega) (by omega) hv
      · exact ih (by omega) (by omega) hv

lemma lineSums_inInt {v : ℤ} (hdx : |dx| < 2 ^ 30) (hdy : |dy| < 2 ^ 30) (hv : v ∈ lineSums dx dy) :
    InInt v := by
  have hbound : ∀ long short : ℤ, 0 ≤ short → short ≤ long → long < 2 ^ 30 →
      v ∈ diagonalSums long short long.toNat (long / 2) → InInt v := by
    intro long short hshort hle hlong hv
    rcases (hshort.trans hle).eq_or_lt with rfl | hpos
    · simp [diagonalSums] at hv
    · have := diagonalSums_bound hshort hle (by omega) (by omega) hv
      rw [InInt]
      omega
  rw [lineSums] at hv
  split at hv
  · rename_i h
    exact hbound _ _ (abs_nonneg dy) h hdx hv
  · exact hbound _ _ (abs_nonneg dx) (by omega) hdy hv

/-! ## Exact lines -/

/-- **Slanted lines are exact.**  As many pixels are painted as the longer distance is long; each
one follows the one before, the last one is the end of the line, and none of them is away from the
exact line by more than one half of a pixel.  All pixels are between the ends of the line, and no
`int` that is computed overflows. -/
theorem diag_line_exact (x0 y0 : ℤ) (hdx : |dx| < 2 ^ 30) (hdy : |dy| < 2 ^ 30) :
    ((drawDiagLine x0 y0 dx dy).length = max |dx| |dy| ∧ (drawDiagLine x0 y0 dx dy).Nodup ∧
      List.IsChain (Follows dx dy) ((x0, y0) :: drawDiagLine x0 y0 dx dy) ∧
      ((x0, y0) :: drawDiagLine x0 y0 dx dy).getLast? = some (x0 + dx, y0 + dy)) ∧
    (∀ p ∈ drawDiagLine x0 y0 dx dy,
      (|dy| ≤ |dx| → |(p.2 : ℚ) - (y0 + dy * (p.1 - x0) / dx)| ≤ 1 / 2) ∧
      (|dx| ≤ |dy| → |(p.1 : ℚ) - (x0 + dx * (p.2 - y0) / dy)| ≤ 1 / 2)) ∧
    (∀ p ∈ drawDiagLine x0 y0 dx dy, p.1 ∈ Set.uIcc x0 (x0 + dx) ∧ p.2 ∈ Set.uIcc y0 (y0 + dy)) ∧
    ∀ v ∈ lineSums dx dy, InInt v := by
  refine ⟨⟨?_, nodup_drawDiagLine x0 y0 dx dy, isChain_drawDiagLine x0 y0 dx dy,
    getLast_drawDiagLine x0 y0 dx dy⟩, fun p hp => ?_, fun p hp => between_of_mem hp,
    fun v hv => lineSums_inInt hdx hdy hv⟩
  · have hnonneg : 0 ≤ max |dx| |dy| := le_max_of_le_left (abs_nonneg dx)
    rw [drawDiagLine_eq, List.length_map, List.length_range]
    omega
  · obtain ⟨j, hj, hj', rfl⟩ := mem_drawDiagLine.mp hp
    constructor
    · intro h
      rw [max_eq_left h] at hj'
      have hclose := half_of_close (abs_pos.mp (by omega))
        (offset_close (j := j) (by omega : 0 < |dx|)) (a := offset dx dy j)
      rw [linePoint_horizontal h, Prod.mk_add_mk]
      convert hclose using 2
      push_cast
      ring
    · intro h
      rw [max_eq_right h] at hj'
      have hclose := half_of_close (abs_pos.mp (by omega))
        (offset_close (j := j) (by omega : 0 < |dy|)) (a := offset dy dx j)
      rw [linePoint_vertical h (by omega), Prod.mk_add_mk]
      convert hclose using 2
      push_cast
      ring

theorem diag_line_exact_sample :
    (drawDiagLine 10 20 (-7) 3).length = max |(-7 : ℤ)| |3| ∧
      drawDiagLine 10 20 (-7) 3 =
        [(9, 20), (8, 21), (7, 21), (6, 22), (5, 22), (4, 23), (3, 23)] :=
  ⟨(diag_line_exact 10 20 (by decide : |(-7 : ℤ)| < 2 ^ 30)
    (by decide : |(3 : ℤ)| < 2 ^ 30)).1.1, by decide⟩

end TurbOS.Display
