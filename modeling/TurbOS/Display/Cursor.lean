import TurbOS.Display.Mouse
import TurbOS.Lib.SaveUnder

/-!
# The cursor is transparent

The cursor is drawn in two colours: the inside, whose pixels are saved, and the border on top of it.
Every pixel of the border is one of the inside, so putting the saved pixels back takes both off the
screen.  The position is inside the frame at all times and the loops stop at its edges, so different
pixels of the cursor are different words of the frame.
-/

namespace TurbOS.Display

variable {F : Frame} {pos p q : ℤ × ℤ} {k : ℕ × ℕ} {s : Screen}

/-! ## Pixels of the frame -/

/-- The pixel is inside the frame. -/
structure InFrame (F : Frame) (p : ℤ × ℤ) : Prop where
  x_nonneg : 0 ≤ p.1
  x_lt : p.1 < F.frm_width.toNat
  y_nonneg : 0 ≤ p.2
  y_lt : p.2 < F.frm_height.toNat

/-- Rows do not overlap. -/
def Frame.Rows (F : Frame) : Prop := 4 * F.frm_width.toNat ≤ F.frm_pitch.toNat

lemma InFrame.place_eq (h : InFrame F p) :
    F.place p = 4 * (p.1.toNat + F.frm_pixperscanline * p.2.toNat) := by
  obtain ⟨hx, hxlt, hy, hylt⟩ := h
  have hw := F.frm_width.toNat_lt
  have hh := F.frm_height.toNat_lt
  have hpps : F.frm_pixperscanline < 2 ^ 14 := by
    have := F.frm_pitch.toNat_lt
    rw [Frame.frm_pixperscanline]
    omega
  have hmul : p.2.toNat * F.frm_pixperscanline ≤ (2 ^ 16 - 1) * (2 ^ 14 - 1) :=
    Nat.mul_le_mul (by omega) (by omega)
  have hX : toUnsigned p.1 = p.1.toNat := by
    rw [toUnsigned, Int.emod_eq_of_lt hx (by omega)]
  have hY : toUnsigned p.2 = p.2.toNat := by
    rw [toUnsigned, Int.emod_eq_of_lt hy (by omega)]
  rw [Frame.place, Frame.offset, hX, hY, Nat.mod_eq_of_lt (by omega), Nat.mod_eq_of_lt (by omega),
    Nat.mul_comm p.2.toNat]
  ring

/-- Different pixels of the frame are different words. -/
lemma InFrame.place_inj (hF : F.Rows) (hp : InFrame F p) (hq : InFrame F q)
    (h : F.place p = F.place q) : p = q := by
  have hwidth : F.frm_width.toNat ≤ F.frm_pixperscanline := by
    rw [Frame.Rows] at hF
    rw [Frame.frm_pixperscanline]
    omega
  have hpx : p.1.toNat < F.frm_pixperscanline := by
    have := hp.x_nonneg
    have := hp.x_lt
    omega
  have hqx : q.1.toNat < F.frm_pixperscanline := by
    have := hq.x_nonneg
    have := hq.x_lt
    omega
  rw [hp.place_eq, hq.place_eq] at h
  have hsum : p.1.toNat + F.frm_pixperscanline * p.2.toNat =
      q.1.toNat + F.frm_pixperscanline * q.2.toNat := by omega
  have hmod := congrArg (· % F.frm_pixperscanline) hsum
  have hdiv := congrArg (· / F.frm_pixperscanline) hsum
  simp only [Nat.add_mul_mod_self_left, Nat.mod_eq_of_lt hpx, Nat.mod_eq_of_lt hqx] at hmod
  simp only [Nat.add_mul_div_left _ _ (Nat.zero_lt_of_lt hpx), Nat.div_eq_of_lt hpx,
    Nat.div_eq_of_lt hqx, Nat.zero_add] at hdiv
  have := hp.x_nonneg
  have := hq.x_nonneg
  have := hp.y_nonneg
  have := hq.y_nonneg
  exact Prod.ext (by omega) (by omega)

/-! ## Pixels of the cursor -/

lemma lt_cursorBound {limit n : ℕ} {size : UInt16} {a : ℤ} (h : n < cursorBound limit size a) :
    n < limit ∧ a + n < size.toNat := by
  rw [cursorBound] at h
  split at h
  · constructor <;> omega
  · constructor <;> omega

lemma mem_cursorWindow (h : k ∈ cursorWindow F pos) :
    (k.1 < 16 ∧ k.2 < 19) ∧ pos.1 + k.1 < F.frm_width.toNat ∧ pos.2 + k.2 < F.frm_height.toNat := by
  obtain ⟨y, hy, h⟩ := List.mem_flatMap.mp h
  obtain ⟨x, hx, rfl⟩ := List.mem_map.mp h
  obtain ⟨hx16, hxw⟩ := lt_cursorBound (List.mem_range.mp hx)
  obtain ⟨hy19, hyh⟩ := lt_cursorBound (List.mem_range.mp hy)
  exact ⟨⟨hx16, hy19⟩, hxw, hyh⟩

lemma nodup_cursorWindow (F : Frame) (pos : ℤ × ℤ) : (cursorWindow F pos).Nodup := by
  rw [cursorWindow, List.nodup_flatMap]
  constructor
  · intro y _
    exact List.nodup_range.map fun a b h => (Prod.mk.inj h).1
  · refine List.nodup_range.imp fun {y y'} hne => ?_
    intro k hk hk'
    obtain ⟨x, -, rfl⟩ := List.mem_map.mp hk
    obtain ⟨x', -, heq⟩ := List.mem_map.mp hk'
    exact hne (Prod.mk.inj heq).2.symm

variable {cursor : List UInt8}

lemma mem_cursorPixels (h : k ∈ cursorPixels F cursor pos) :
    (k.1 < 16 ∧ k.2 < 19) ∧ pos.1 + k.1 < F.frm_width.toNat ∧ pos.2 + k.2 < F.frm_height.toNat :=
  mem_cursorWindow (List.mem_filter.mp h).1

lemma InFrame.onScreen (hpos : InFrame F pos) (h : k ∈ cursorPixels F cursor pos) :
    InFrame F (onScreen pos k) := by
  obtain ⟨-, hx, hy⟩ := mem_cursorPixels h
  have hx0 := hpos.x_nonneg
  have hy0 := hpos.y_nonneg
  exact ⟨by simp only [Display.onScreen]; omega, hx, by simp only [Display.onScreen]; omega, hy⟩

lemma nodup_places (hF : F.Rows) (hpos : InFrame F pos) :
    ((cursorPixels F cursor pos).map fun k => F.place (onScreen pos k)).Nodup := by
  refine List.Nodup.map_on (fun k hk k' hk' h => ?_) ((nodup_cursorWindow F pos).filter _)
  have heq := InFrame.place_inj hF (hpos.onScreen hk) (hpos.onScreen hk') h
  simp only [onScreen, Prod.mk.injEq] at heq
  exact Prod.ext (by omega) (by omega)

lemma nodup_indices (F : Frame) (cursor : List UInt8) (pos : ℤ × ℤ) :
    ((cursorPixels F cursor pos).map bufferIndex).Nodup := by
  refine List.Nodup.map_on (fun k hk k' hk' h => ?_) ((nodup_cursorWindow F pos).filter _)
  obtain ⟨⟨hx, -⟩, -⟩ := mem_cursorPixels hk
  obtain ⟨⟨hx', -⟩, -⟩ := mem_cursorPixels hk'
  simp only [bufferIndex] at h
  exact Prod.ext (by omega) (by omega)

/-- The border is part of the inside. -/
lemma border_subset_inside (h : k ∈ cursorPixels F cursorborder pos) :
    k ∈ cursorPixels F cursorinside pos := by
  obtain ⟨hwindow, hmask⟩ := List.mem_filter.mp h
  obtain ⟨⟨hx, hy⟩, -⟩ := mem_cursorWindow hwindow
  have hall : ∀ y < 19, ∀ x < 16, masked cursorborder (x, y) → masked cursorinside (x, y) := by
    decide +kernel
  exact List.mem_filter.mpr ⟨hwindow, hall k.2 hy k.1 hx hmask⟩

/-! ## Drawing the cursor and taking it off -/

/-- Drawing a cursor without saving keeps the buffer. -/
lemma cursorbuffer_drawOver (F : Frame) (pos : ℤ × ℤ) (colour : UInt32) (ks : List (ℕ × ℕ))
    (s : Screen) :
    (ks.foldl (drawOverPixel F pos colour false) s).cursorbuffer = s.cursorbuffer := by
  induction ks generalizing s with
  | nil => rfl
  | cons k ks ih =>
    rw [List.foldl_cons, ih]
    rfl

/-- Drawing a cursor changes its own pixels only. -/
lemma pixels_drawOver {colour : UInt32} {back : Bool} {ks : List (ℕ × ℕ)} {a : ℕ}
    (ha : ∀ k ∈ ks, F.place (onScreen pos k) ≠ a) :
    (ks.foldl (drawOverPixel F pos colour back) s).pixels a = s.pixels a :=
  SaveUnder.foldl_write_outside Screen.pixels (fun k => F.place (onScreen pos k))
    (fun _ _ => rfl) ha

/-- Taking the cursor off where it was drawn gives the frame back. -/
lemma clearCursor_drawCursor (hF : F.Rows) (hpos : InFrame F pos) (s : Screen) :
    (clearCursor F cursorinside pos (drawCursor F pos s)).pixels = s.pixels := by
  have hdrawn : (drawCursor F pos s).mousedrawn = true := rfl
  rw [clearCursor, if_pos hdrawn]
  refine SaveUnder.foldl_restore Screen.pixels Screen.cursorbuffer
    (fun k => F.place (onScreen pos k)) bufferIndex (fun _ _ => rfl) (fun _ _ => rfl) ?_ ?_
  · intro k hk
    rw [drawCursor, drawOverCursor, drawOverCursor]
    dsimp only
    rw [cursorbuffer_drawOver]
    exact SaveUnder.foldl_save Screen.pixels Screen.cursorbuffer
      (fun k => F.place (onScreen pos k)) bufferIndex (fun _ _ => rfl) (fun _ _ => rfl)
      (nodup_places hF hpos) (nodup_indices F cursorinside pos) k hk
  · intro a ha
    rw [drawCursor, drawOverCursor, drawOverCursor]
    dsimp only
    rw [pixels_drawOver fun k hk => ha k (border_subset_inside hk)]
    exact pixels_drawOver ha

/-! ## The pixels that are touched -/

section Touched

variable {P : ℤ × ℤ → Prop}

lemma foldl_touched {step : Screen → ℕ × ℕ → Screen} {ks : List (ℕ × ℕ)}
    (hstep : ∀ s k, (step s k).touched = onScreen pos k :: s.touched)
    (hks : ∀ k ∈ ks, P (onScreen pos k)) (hs : ∀ p ∈ s.touched, P p) :
    ∀ p ∈ (ks.foldl step s).touched, P p := by
  induction ks generalizing s with
  | nil => exact hs
  | cons k ks ih =>
    refine ih (fun k' hk' => hks k' (List.mem_cons_of_mem k hk')) fun p hp => ?_
    rw [hstep, List.mem_cons] at hp
    rcases hp with rfl | hp
    · exact hks k List.mem_cons_self
    · exact hs p hp

lemma touched_clearCursor (hpos : InFrame F pos) (hs : ∀ p ∈ s.touched, InFrame F p) :
    ∀ p ∈ (clearCursor F cursor pos s).touched, InFrame F p := by
  rw [clearCursor]
  split
  · exact foldl_touched (fun _ _ => rfl) (fun _ hk => hpos.onScreen hk) hs
  · exact hs

lemma touched_drawOverCursor {colour : UInt32} {back : Bool} (hpos : InFrame F pos)
    (hs : ∀ p ∈ s.touched, InFrame F p) :
    ∀ p ∈ (drawOverCursor F cursor pos colour back s).touched, InFrame F p :=
  foldl_touched (fun _ _ => rfl) (fun _ hk => hpos.onScreen hk) hs

end Touched

/-! ## Packets -/

variable {m : Mouse} {d : Plain}

lemma clampPosition_bounds {size : UInt16} (hsize : 1 ≤ size.toNat) (a : ℤ) :
    0 ≤ clampPosition size a ∧ clampPosition size a < size.toNat := by
  rw [clampPosition]
  split <;> split <;> constructor <;> omega

/-- The position is inside the frame after every packet. -/
lemma move_inFrame (hw : 1 ≤ F.frm_width.toNat) (hh : 1 ≤ F.frm_height.toNat) (packet : Packet)
    (pos : ℤ × ℤ) : InFrame F (move F packet pos) := by
  obtain ⟨hx, hxlt⟩ := clampPosition_bounds hw
    (pos.1 + movement (packet.has PS2_X_SIGN) (packet.has PS2_X_OVER) packet.byte1)
  obtain ⟨hy, hylt⟩ := clampPosition_bounds hh
    (pos.2 - movement (packet.has PS2_Y_SIGN) (packet.has PS2_Y_OVER) packet.byte2)
  exact ⟨hx, hxlt, hy, hylt⟩

/-- The mouse `m` and the drawing `d` without a cursor after the same packets: without its cursor
the frame of the first is that of the second. -/
structure Agree (F : Frame) (m : Mouse) (d : Plain) : Prop where
  position : m.position = d.position
  circle : m.circle = d.circle
  old : InFrame F m.oldPosition
  touched : ∀ p ∈ m.screen.touched, InFrame F p
  pixels : (clearCursor F cursorinside m.oldPosition m.screen).pixels = d.pixels

lemma agree_init (hw : 1 ≤ F.frm_width.toNat) (hh : 1 ≤ F.frm_height.toNat) (pixels : Pixels) :
    Agree F { screen := { pixels := pixels } } { pixels := pixels } where
  position := rfl
  circle := rfl
  old := ⟨le_rfl, Int.natCast_pos.mpr hw, le_rfl, Int.natCast_pos.mpr hh⟩
  touched := by simp
  pixels := rfl

lemma Agree.step (hF : F.Rows) (hw : 1 ≤ F.frm_width.toNat) (hh : 1 ≤ F.frm_height.toNat)
    (h : Agree F m d) (packet : Packet) :
    Agree F (proccessPacket F m packet) (plainPacket F d packet) := by
  have hpos : InFrame F (move F packet m.position) := move_inFrame hw hh packet m.position
  have hbutton : button F packet (move F packet m.position) m.circle
      (clearCursor F cursorinside m.oldPosition m.screen).pixels =
        button F packet (move F packet d.position) d.circle d.pixels := by
    rw [h.pixels, h.position, h.circle]
  refine ⟨?_, ?_, hpos, ?_, ?_⟩
  · exact congrArg (move F packet) h.position
  · exact congrArg Prod.fst hbutton
  · exact touched_drawOverCursor hpos (touched_drawOverCursor hpos
      (touched_clearCursor h.old h.touched))
  · exact (clearCursor_drawCursor hF hpos _).trans (congrArg Prod.snd hbutton)

/-- A run over packets keeps the agreement. -/
lemma Agree.run (hF : F.Rows) (hw : 1 ≤ F.frm_width.toNat) (hh : 1 ≤ F.frm_height.toNat)
    (h : Agree F m d) (ps : List Packet) :
    Agree F (ps.foldl (proccessPacket F) m) (ps.foldl (plainPacket F) d) := by
  induction ps generalizing m d with
  | nil => exact h
  | cons packet ps ih => exact ih (h.step hF hw hh packet)

/-- **The cursor is transparent.**  After any packets, all pixels that the cursor functions touched
are inside the frame; and when the next packet has cleared the cursor, the frame is what the buttons
alone have drawn. -/
theorem cursor_transparent (hw : 1 ≤ F.frm_width.toNat) (hh : 1 ≤ F.frm_height.toNat)
    (hpitch : 4 * F.frm_width.toNat ≤ F.frm_pitch.toNat) (pixels : Pixels) (ps : List Packet)
    (packet : Packet) :
    (∀ p ∈ (ps.foldl (proccessPacket F) { screen := { pixels := pixels } }).screen.touched,
      InFrame F p) ∧
    (moveAndClear F packet
      (ps.foldl (proccessPacket F) { screen := { pixels := pixels } })).screen.pixels =
      (ps.foldl (plainPacket F) { pixels := pixels }).pixels := by
  have hagree := (agree_init hw hh pixels).run hpitch hw hh ps
  exact ⟨hagree.touched, hagree.pixels⟩

/-- A frame of four times three pixels. -/
def smallFrame : Frame := ⟨4, 3, 16⟩

/-- The left button is pressed at the second pixel; when the cursor is cleared, the colour of the
rectangle is there. -/
theorem cursor_transparent_smallFrame :
    (moveAndClear smallFrame ⟨0b1000, 0, 0⟩ ([⟨0b1001, 1, 0⟩].foldl (proccessPacket smallFrame)
      { screen := { pixels := fun _ => 0 } })).screen.pixels 4 = 0x1fe079 := by
  have h := (cursor_transparent (F := smallFrame) (by decide) (by decide) (by decide) (fun _ => 0)
    [⟨0b1001, 1, 0⟩] ⟨0b1000, 0, 0⟩).2
  rw [h]
  decide +kernel

end TurbOS.Display
