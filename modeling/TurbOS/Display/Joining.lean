import TurbOS.Display.Clipping

/-!
# The ends of a line

The helpers of `drawLine` differ in the ends that they paint.  `drawHorLine` goes to the right only
and leaves out the last pixel, `drawVertLine` does the same downwards, and `drawDiagLine` goes in
every direction and leaves out the first pixel.  A vertical line is drawn with both of the last two,
so it is the only one that gets both of its ends, and only downwards.
-/

open Grid

namespace TurbOS.Display

variable {F : Frame} {P Q : ℤ × ℤ}

lemma clampLine_of_within {size : UInt16} {a : ℤ} (h : Within size a) : clampLine size a = a := by
  obtain ⟨h0, hlt⟩ := h
  rw [clampLine]
  split_ifs <;> omega

/-- For ends on the screen. -/
lemma drawLine_eq (hP : F.Inside P) (hQ : F.Inside Q) :
    drawLine F P.1 P.2 Q.1 Q.2 =
      if Q.2 - P.2 = 0 then drawHorLine P.1 P.2 (Q.1 - P.1)
      else (if Q.1 - P.1 = 0 then drawVertLine P.1 P.2 (Q.2 - P.2) else []) ++
        drawDiagLine P.1 P.2 (Q.1 - P.1) (Q.2 - P.2) := by
  rw [drawLine, clampLine_of_within hP.1, clampLine_of_within hP.2, clampLine_of_within hQ.1,
    clampLine_of_within hQ.2]

/-- The start and the pixels of a slanted line are connected. -/
lemma connected_drawDiagLine (x0 y0 dx dy : ℤ) :
    Connected {p | p ∈ (x0, y0) :: drawDiagLine x0 y0 dx dy} :=
  connected_of_isChain ((isChain_drawDiagLine x0 y0 dx dy).imp fun _ _ h => h.near)

/-- The pixels of a line straight down, as `drawLine` paints them. -/
lemma mem_down {x y dy : ℤ} (hdy : 0 < dy) (p : ℤ × ℤ) :
    p ∈ drawVertLine x y dy ++ drawDiagLine x y 0 dy ↔ p ∈ (x, y) :: drawDiagLine x y 0 dy := by
  rw [List.mem_append, List.mem_cons]
  refine ⟨fun h => ?_, fun h => ?_⟩
  · rcases h with hvert | hdiag
    · obtain ⟨hx, hlow, hhigh⟩ := mem_drawVertLine.mp hvert
      rcases hlow.eq_or_lt with heq | hlt
      · exact .inl (Prod.ext hx heq.symm)
      · refine .inr (mem_drawDiagLine.mpr ⟨p.2 - y, by omega, ?_, ?_⟩)
        · rw [abs_zero, abs_of_pos hdy, max_eq_right hdy.le]
          omega
        · have hoffset : offset dy 0 (p.2 - y) = 0 := by
            rw [offset, Int.sign_zero, mul_zero]
          rw [linePoint_vertical (by rw [abs_zero]; exact abs_nonneg dy) (abs_pos.mpr hdy.ne'),
            hoffset, Int.sign_eq_one_of_pos hdy, mul_one, Prod.mk_add_mk, add_zero, add_sub_cancel]
          exact Prod.ext hx rfl
    · exact .inr hdiag
  · rcases h with rfl | hdiag
    · exact .inl (mem_drawVertLine.mpr ⟨rfl, le_rfl, by omega⟩)
    · exact .inr hdiag

/-- The pixels of a horizontal line are connected. -/
lemma connected_drawHorLine (x y dx : ℤ) : Connected {p | p ∈ drawHorLine x y dx} := by
  have hset : {p | p ∈ drawHorLine x y dx} =
      {p | p ∈ (List.range dx.toNat).map fun i : ℕ => (x + (i : ℤ), y)} := by
    ext p
    rw [Set.mem_ofPred_eq, Set.mem_ofPred_eq, mem_drawHorLine, List.mem_map]
    constructor
    · rintro ⟨hlow, hhigh, hrow⟩
      exact ⟨(p.1 - x).toNat, List.mem_range.mpr (by omega),
        Prod.ext (by dsimp only; omega) hrow.symm⟩
    · rintro ⟨i, hi, rfl⟩
      rw [List.mem_range] at hi
      exact ⟨by omega, by omega, rfl⟩
  rw [hset]
  refine connected_of_isChain ?_
  rw [List.isChain_map, List.isChain_range]
  intro i _
  rw [Near, sub_self, abs_zero, Nat.cast_succ]
  refine ⟨?_, zero_le_one⟩
  rw [add_sub_add_left_eq_sub, add_sub_cancel_left, abs_one]

/-- Without its start a slanted line is still connected. -/
lemma connected_tail (x0 y0 dx dy : ℤ) : Connected {p | p ∈ drawDiagLine x0 y0 dx dy} :=
  connected_of_isChain ((isChain_drawDiagLine x0 y0 dx dy).imp fun _ _ h => h.near).tail

/-- What is painted is always connected. -/
lemma connected_drawLine (hP : F.Inside P) (hQ : F.Inside Q) :
    Connected {p | p ∈ drawLine F P.1 P.2 Q.1 Q.2} := by
  rw [drawLine_eq hP hQ]
  by_cases hrow : Q.2 - P.2 = 0
  · rw [if_pos hrow]
    exact connected_drawHorLine P.1 P.2 (Q.1 - P.1)
  · rw [if_neg hrow]
    by_cases hcolumn : Q.1 - P.1 = 0
    · rw [if_pos hcolumn, hcolumn]
      by_cases hdown : 0 < Q.2 - P.2
      · have hset : {p | p ∈ drawVertLine P.1 P.2 (Q.2 - P.2) ++ drawDiagLine P.1 P.2 0
          (Q.2 - P.2)} =
            {p | p ∈ P :: drawDiagLine P.1 P.2 0 (Q.2 - P.2)} := Set.ext (mem_down hdown)
        rw [hset]
        exact connected_drawDiagLine P.1 P.2 0 (Q.2 - P.2)
      · have hnil : drawVertLine P.1 P.2 (Q.2 - P.2) = [] := by
          rw [List.eq_nil_iff_forall_not_mem]
          intro p hp
          have := mem_drawVertLine.mp hp
          omega
        rw [hnil, List.nil_append]
        exact connected_tail P.1 P.2 0 (Q.2 - P.2)
    · rw [if_neg hcolumn, List.nil_append]
      exact connected_tail P.1 P.2 (Q.1 - P.1) (Q.2 - P.2)

/-- One direction: the ends are joined by a line straight down, and by no other one. -/
lemma joins_drawLine_iff (hP : F.Inside P) (hQ : F.Inside Q) :
    Joins {p | p ∈ drawLine F P.1 P.2 Q.1 Q.2} P Q ↔ P.1 = Q.1 ∧ P.2 < Q.2 := by
  have hconnected := connected_drawLine hP hQ
  rw [drawLine_eq hP hQ] at hconnected ⊢
  by_cases hrow : Q.2 - P.2 = 0
  · -- the right end is not painted
    rw [if_pos hrow]
    refine iff_of_false (fun h => ?_) (by omega)
    have hlast := mem_drawHorLine.mp h.last
    omega
  · rw [if_neg hrow]
    by_cases hcolumn : Q.1 - P.1 = 0
    · rw [if_pos hcolumn, hcolumn]
      by_cases hdown : P.2 < Q.2
      · refine iff_of_true ?_ ⟨by omega, hdown⟩
        have hend : Q ∈ P :: drawDiagLine P.1 P.2 0 (Q.2 - P.2) := by
          have hlast := List.mem_of_getLast? (getLast_drawDiagLine P.1 P.2 0 (Q.2 - P.2))
          rw [add_zero, add_sub_cancel] at hlast
          have hQ' : (P.1, Q.2) = Q := Prod.ext (by omega) rfl
          rwa [hQ'] at hlast
        rw [if_neg hrow, if_pos hcolumn, hcolumn] at hconnected
        exact ⟨(mem_down (by omega) P).mpr List.mem_cons_self, (mem_down (by omega) Q).mpr hend,
          hconnected⟩
      · -- upwards the start is not painted
        refine iff_of_false (fun h => ?_) (by omega)
        rcases List.mem_append.mp h.first with hvert | hdiag
        · have := mem_drawVertLine.mp hvert
          omega
        · exact start_notMem_drawDiagLine P.1 P.2 _ _ hdiag
    · rw [if_neg hcolumn, List.nil_append]
      exact iff_of_false (fun h => start_notMem_drawDiagLine P.1 P.2 _ _ h.first) (by omega)

/-- **The ends of a line.**  No two pixels are joined in both directions.  What is painted is
connected, but `drawLine` joins its ends exactly if the second one is straight below the first
one. -/
theorem drawLine_never_joins (hP : F.Inside P) (hQ : F.Inside Q) :
    ¬ (Joins {p | p ∈ drawLine F P.1 P.2 Q.1 Q.2} P Q ∧
      Joins {p | p ∈ drawLine F Q.1 Q.2 P.1 P.2} P Q) ∧
      Connected {p | p ∈ drawLine F P.1 P.2 Q.1 Q.2} ∧
      (Joins {p | p ∈ drawLine F P.1 P.2 Q.1 Q.2} P Q ↔ P.1 = Q.1 ∧ P.2 < Q.2) := by
  refine ⟨fun ⟨hdown, hup⟩ => ?_, connected_drawLine hP hQ, joins_drawLine_iff hP hQ⟩
  have hbelow := (joins_drawLine_iff hP hQ).mp hdown
  have habove := (joins_drawLine_iff hQ hP).mp ⟨hup.last, hup.first, hup.connected⟩
  omega

theorem drawLine_never_joins_sample :
    Joins {p | p ∈ drawLine smallScreen 3 4 3 9} (3, 4) (3, 9) :=
  (drawLine_never_joins (F := smallScreen) (P := (3, 4)) (Q := (3, 9)) (by decide)
    (by decide)).2.2.mpr (by decide)

/-- To the right the end is missing, to the left everything, upwards and in a slant the start. -/
theorem drawLine_misses_ends :
    drawLine smallScreen 3 4 6 4 = [(3, 4), (4, 4), (5, 4)] ∧ drawLine smallScreen 6 4 3 4 = [] ∧
      drawLine smallScreen 3 4 3 2 = [(3, 3), (3, 2)] ∧
        drawLine smallScreen 3 4 5 5 = [(4, 5), (5, 5)] ∧
      ¬ Joins {p | p ∈ drawLine smallScreen 3 4 6 4} (3, 4) (6, 4) := by
  refine ⟨by decide +kernel, by decide +kernel, by decide +kernel, by decide +kernel, fun h => ?_⟩
  have hend : ¬ (6, 4) ∈ drawLine smallScreen 3 4 6 4 := by decide +kernel
  exact hend h.last

end TurbOS.Display
