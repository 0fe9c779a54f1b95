import Mathlib

/-!
# The frame

The frame is a part of memory that is written and read in words of 32 bits, one for each pixel.  A
word is named by its distance from `frm_addr` in bytes.  `putPixel` computes this distance with
unsigned 32-bit numbers, so its arguments and products are taken modulo `2 ^ 32`.

The drawing functions do not read the frame.  Here they return the pixels that they write, in order;
their `int` variables are integers, as no value that occurs gets near the limits of an `int`.
-/

namespace TurbOS.Display

/-- The size of the frame, and the number of bytes from one row to the next. -/
structure Frame where
  frm_width : UInt16
  frm_height : UInt16
  frm_pitch : UInt16
deriving DecidableEq, Repr

/-- `frm_pixperscanline`. -/
def Frame.frm_pixperscanline (F : Frame) : ℕ := F.frm_pitch.toNat / 4

/-- The distance of a pixel from `frm_addr`, for unsigned 32-bit coordinates. -/
def Frame.offset (F : Frame) (x y : ℕ) : ℕ := x * 4 % 2 ^ 32 + y * F.frm_pixperscanline * 4 % 2 ^ 32

/-- The conversion of an integer to `uint32_t`. -/
def toUnsigned (x : ℤ) : ℕ := (x % 2 ^ 32).toNat

/-- The values of an `int`. -/
def InInt (v : ℤ) : Prop := -2 ^ 31 ≤ v ∧ v < 2 ^ 31

instance (v : ℤ) : Decidable (InInt v) := inferInstanceAs (Decidable (_ ∧ _))

/-- The conversion keeps a number that is not negative. -/
lemma toUnsigned_of_nonneg {v : ℤ} (h : InInt v) (h0 : 0 ≤ v) : (toUnsigned v : ℤ) = v := by
  rw [InInt] at h
  rw [toUnsigned]
  omega

/-- The place of a pixel with integer coordinates. -/
def Frame.place (F : Frame) (p : ℤ × ℤ) : ℕ := F.offset (toUnsigned p.1) (toUnsigned p.2)

/-- The words of the frame, and those around it. -/
abbrev Pixels := ℕ → UInt32

/-- `putPixel`. -/
def putPixel (F : Frame) (colour : UInt32) (m : Pixels) (p : ℤ × ℤ) : Pixels :=
  Function.update m (F.place p) colour

/-! ## Drawing -/

/-- The counter of a loop, as an integer. -/
lemma mem_counter {n : ℕ} {i : ℤ} :
    i ∈ (do let k ← List.range n; pure (k : ℤ) : List ℤ) ↔ 0 ≤ i ∧ i < n := by
  simp only [List.pure_def, List.bind_eq_flatMap, List.mem_flatMap, List.mem_range,
    List.mem_singleton]
  constructor
  · rintro ⟨k, hk, rfl⟩
    omega
  · rintro ⟨h0, hlt⟩
    exact ⟨i.toNat, by omega, by omega⟩

/-- `drawVertLine`. -/
def drawVertLine (x y dy : ℤ) : List (ℤ × ℤ) :=
  (List.range dy.toNat).map fun i => (x, y + i)

/-- `drawHorLine`. -/
def drawHorLine (x y dx : ℤ) : List (ℤ × ℤ) :=
  (List.range dx.toNat).map fun i => (x + i, y)

/-- The two loops of `drawDiagLine`: `long` is the larger distance and `u` a step along it; a step
`u'` along the other one is made whenever the sum of the smaller distances reaches the larger. -/
def diagonal (long short : ℤ) (u u' : ℤ × ℤ) : ℕ → ℤ → ℤ × ℤ → List (ℤ × ℤ)
  | 0, _, _ => []
  | n + 1, sum, p =>
    let sum := sum + short
    let p' := if sum ≥ long then p + u' else p
    let sum := if sum ≥ long then sum - long else sum
    (p' + u) :: diagonal long short u u' n sum (p' + u)

/-- `drawDiagLine`. -/
def drawDiagLine (x0 y0 x1 y1 : ℤ) : List (ℤ × ℤ) :=
  let sdx := x1.sign
  let sdy := y1.sign
  let dxabs : ℤ := x1.natAbs
  let dyabs : ℤ := y1.natAbs
  let x := dyabs / 2
  let y := dxabs / 2
  if dxabs ≥ dyabs then diagonal dxabs dyabs (sdx, 0) (0, sdy) dxabs.toNat y (x0, y0)
  else diagonal dyabs dxabs (0, sdy) (sdx, 0) dyabs.toNat x (x0, y0)

/-- The tests at the start of `drawLine`, for a coordinate and the size in its direction. -/
def clampLine (size : UInt16) (a : ℤ) : ℤ :=
  let a := if a > size.toNat then (size.toNat : ℤ) - 1 else a
  if a < -1 then -1 else a

/-- `drawLine`. -/
def drawLine (F : Frame) (x0 y0 x1 y1 : ℤ) : List (ℤ × ℤ) :=
  let x0 := clampLine F.frm_width x0
  let x1 := clampLine F.frm_width x1
  let y0 := clampLine F.frm_height y0
  let y1 := clampLine F.frm_height y1
  let dx := x1 - x0
  let dy := y1 - y0
  if dy = 0 then drawHorLine x0 y0 dx
  else (if dx = 0 then drawVertLine x0 y0 dy else []) ++ drawDiagLine x0 y0 dx dy

/-- `drawRectangle`. -/
def drawRectangle (F : Frame) (x y w h : ℤ) : List (ℤ × ℤ) :=
  drawLine F x y (x + w) y ++ drawLine F x (y + h - 1) (x + w) (y + h - 1) ++
    drawLine F x y x (y + h) ++ drawLine F (x + w - 1) y (x + w - 1) (y + h)

/-- `drawFilledRectangle`. -/
def drawFilledRectangle (F : Frame) (x y w h : ℤ) : List (ℤ × ℤ) :=
  (List.range h.toNat).flatMap fun i => drawLine F x (y + i) (x + w) (y + i)

/-- The integers from `a` to `b`. -/
def span (a b : ℤ) : List ℤ := (List.range (b + 1 - a).toNat).map fun i => a + i

/-- The loop of `drawFilledCircle`. -/
def circleRows (cx cy x y xC yC err : ℤ) : List (ℤ × ℤ) :=
  if x ≥ y then
    ((span (cx - x) (cx + x)).flatMap fun i => [(i, cy + y), (i, cy - y)]) ++
    ((span (cx - y) (cx + y)).flatMap fun i => [(i, cy + x), (i, cy - x)]) ++
    if (err + yC) * 2 + xC > 0 then
      circleRows cx cy (x - 1) (y + 1) (xC + 2) (yC + 2) (err + yC + xC)
    else circleRows cx cy x (y + 1) xC (yC + 2) (err + yC)
  else []
termination_by (x + 1 - y).toNat

/-- `drawFilledCircle`. -/
def drawFilledCircle (cx cy radius : ℤ) : List (ℤ × ℤ) :=
  let c : ℤ × ℤ := if radius > cx ∨ radius > cy then (radius, radius) else (cx, cy)
  circleRows c.1 c.2 radius 0 (1 - radius * 2) 0 0

/-! ## The cursor -/

/-- The frame, the flag `mousedrawn` and the two cursor buffers.  `touched` is a record of the
pixels that the cursor functions read or write, which no function reads. -/
structure Screen where
  pixels : Pixels
  mousedrawn : Bool := false
  cursorbuffer : ℕ → UInt32 := fun _ => 0
  cursorbuffersecond : ℕ → UInt32 := fun _ => 0
  touched : List (ℤ × ℤ) := []

/-- The loop bounds `xmax` and `ymax`. -/
def cursorBound (limit : ℕ) (size : UInt16) (pos : ℤ) : ℕ :=
  let d := (size.toNat : ℤ) - pos
  (if d < limit then d else limit).toNat

/-- The pixels of the two loops of the cursor functions, relative to the position. -/
def cursorWindow (F : Frame) (pos : ℤ × ℤ) : List (ℕ × ℕ) :=
  (List.range (cursorBound 19 F.frm_height pos.2)).flatMap fun y =>
    (List.range (cursorBound 16 F.frm_width pos.1)).map fun x => (x, y)

/-- `cursor[byte] & (0b10000000 >> (x % 8))`. -/
def masked (cursor : List UInt8) (k : ℕ × ℕ) : Bool :=
  (cursor.getD ((k.2 * 16 + k.1) / 8) 0).toNat &&& (0b10000000 >>> (k.1 % 8)) != 0

/-- The pixels of a cursor that are drawn. -/
def cursorPixels (F : Frame) (cursor : List UInt8) (pos : ℤ × ℤ) : List (ℕ × ℕ) :=
  (cursorWindow F pos).filter (masked cursor)

/-- The pixel on the screen. -/
def onScreen (pos : ℤ × ℤ) (k : ℕ × ℕ) : ℤ × ℤ := (pos.1 + k.1, pos.2 + k.2)

/-- Its place in the cursor buffers. -/
def bufferIndex (k : ℕ × ℕ) : ℕ := k.2 * 16 + k.1

/-- The body of the loop of `clearCursor`. -/
def clearPixel (F : Frame) (pos : ℤ × ℤ) (s : Screen) (k : ℕ × ℕ) : Screen :=
  { s with
    pixels := putPixel F (s.cursorbuffer (bufferIndex k)) s.pixels (onScreen pos k)
    touched := onScreen pos k :: s.touched }

/-- `clearCursor`. -/
def clearCursor (F : Frame) (cursor : List UInt8) (pos : ℤ × ℤ) (s : Screen) : Screen :=
  if s.mousedrawn then (cursorPixels F cursor pos).foldl (clearPixel F pos) s else s

/-- The body of the loop of `drawOverCursor`. -/
def drawOverPixel (F : Frame) (pos : ℤ × ℤ) (colour : UInt32) (back : Bool) (s : Screen)
    (k : ℕ × ℕ) : Screen :=
  let old := s.pixels (F.place (onScreen pos k))
  let pixels := putPixel F colour s.pixels (onScreen pos k)
  { s with
    pixels := pixels
    cursorbuffer :=
      if back then Function.update s.cursorbuffer (bufferIndex k) old else s.cursorbuffer
    cursorbuffersecond :=
      if back then
        Function.update s.cursorbuffersecond (bufferIndex k) (pixels (F.place (onScreen pos k)))
      else s.cursorbuffersecond
    touched := onScreen pos k :: s.touched }

/-- `drawOverCursor`. -/
def drawOverCursor (F : Frame) (cursor : List UInt8) (pos : ℤ × ℤ) (colour : UInt32) (back : Bool)
    (s : Screen) : Screen :=
  { (cursorPixels F cursor pos).foldl (drawOverPixel F pos colour back) s with mousedrawn := true }

end TurbOS.Display
