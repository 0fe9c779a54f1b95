import TurbOS.Display.Framebuffer

/-!
# The mouse

`proccessPacket` moves the position, takes the cursor off the screen where it was drawn, draws what
the buttons ask for, and draws the cursor at the new position.  A packet has three bytes; what is
done with the bytes until a packet is complete is not part of this file.
-/

namespace TurbOS.Display

/-- `cursorborder`. -/
def cursorborder : List UInt8 :=
  [0b10000000, 0b00000000,
    0b11000000, 0b00000000,
    0b10100000, 0b00000000,
    0b10010000, 0b00000000,
    0b10001000, 0b00000000,
    0b10000100, 0b00000000,
    0b10000010, 0b00000000,
    0b10000001, 0b00000000,
    0b10000000, 0b10000000,
    0b10000000, 0b01000000,
    0b10000000, 0b00100000,
    0b10000000, 0b00010000,
    0b10000001, 0b11110000,
    0b10001001, 0b00000000,
    0b10010100, 0b10000000,
    0b10100100, 0b10000000,
    0b11000010, 0b01000000,
    0b00000010, 0b01000000,
    0b00000001, 0b10000000]

/-- `cursorinside`. -/
def cursorinside : List UInt8 :=
  [0b10000000, 0b00000000,
    0b11000000, 0b00000000,
    0b11100000, 0b00000000,
    0b11110000, 0b00000000,
    0b11111000, 0b00000000,
    0b11111100, 0b00000000,
    0b11111110, 0b00000000,
    0b11111111, 0b00000000,
    0b11111111, 0b10000000,
    0b11111111, 0b11000000,
    0b11111111, 0b11100000,
    0b11111111, 0b11110000,
    0b11111111, 0b11110000,
    0b11111111, 0b00000000,
    0b11110111, 0b10000000,
    0b11100111, 0b10000000,
    0b11000011, 0b11000000,
    0b00000011, 0b11000000,
    0b00000001, 0b10000000]

/-- `mouseBorderCol`. -/
def mouseBorderCol : UInt32 := 0xFFFFFF

/-- `mouseInsideCol`. -/
def mouseInsideCol : UInt32 := 0x2D2D2D

/-- The three bytes of a packet. -/
structure Packet where
  byte0 : UInt8
  byte1 : UInt8
  byte2 : UInt8
deriving DecidableEq, Repr

/-- `packet[0] & flag`. -/
def Packet.has (p : Packet) (flag : ℕ) : Bool := p.byte0.toNat &&& flag != 0

/-- `PS2_X_SIGN`. -/
def PS2_X_SIGN : ℕ := 0b00010000

/-- `PS2_Y_SIGN`. -/
def PS2_Y_SIGN : ℕ := 0b00100000

/-- `PS2_X_OVER`. -/
def PS2_X_OVER : ℕ := 0b01000000

/-- `PS2_Y_OVER`. -/
def PS2_Y_OVER : ℕ := 0b10000000

/-- `MouseState`. -/
inductive MouseState where
  | PS2_NONE | PS2_LEFT | PS2_MIDDLE | PS2_RIGHT
deriving DecidableEq, Repr

/-- `getMouseState`. -/
def Packet.getMouseState (p : Packet) : MouseState :=
  if p.has 0b001 then .PS2_LEFT
  else if p.has 0b100 then .PS2_MIDDLE
  else if p.has 0b010 then .PS2_RIGHT
  else .PS2_NONE

/-- What a byte of a packet adds, in the direction that it counts; with the sign it is
`256 - byte` as a byte, to the other side, and an overflow adds `255` to the same side. -/
def movement (sign overflow : Bool) (byte : UInt8) : ℤ :=
  if sign then -((256 - byte.toNat) % 256 : ℕ) - (if overflow then 255 else 0)
  else byte.toNat + (if overflow then 255 else 0)

/-- The tests that keep a coordinate in the frame. -/
def clampPosition (size : UInt16) (a : ℤ) : ℤ :=
  let a := if a < 0 then 0 else a
  if a > (size.toNat : ℤ) - 1 then (size.toNat : ℤ) - 1 else a

/-- The position after a packet; `Y` counts downwards. -/
def move (F : Frame) (p : Packet) (pos : ℤ × ℤ) : ℤ × ℤ :=
  (clampPosition F.frm_width (pos.1 + movement (p.has PS2_X_SIGN) (p.has PS2_X_OVER) p.byte1),
    clampPosition F.frm_height (pos.2 - movement (p.has PS2_Y_SIGN) (p.has PS2_Y_OVER) p.byte2))

/-- What a pressed button draws. -/
def drawButton (F : Frame) (circle : Bool) (pos : ℤ × ℤ) (colour : UInt32) (m : Pixels) : Pixels :=
  (if circle then drawFilledCircle pos.1 pos.2 5
    else drawFilledRectangle F pos.1 pos.2 10 10).foldl (putPixel F colour) m

/-- The `switch` of `proccessPacket`: the new value of `circle`, and the frame. -/
def button (F : Frame) (p : Packet) (pos : ℤ × ℤ) (circle : Bool) (m : Pixels) : Bool × Pixels :=
  match p.getMouseState with
  | .PS2_LEFT => (circle, drawButton F circle pos 0x1fe079 m)
  | .PS2_MIDDLE => (!circle, m)
  | .PS2_RIGHT => (circle, drawButton F circle pos 0xff00dd m)
  | .PS2_NONE => (circle, m)

/-- The variables of the mouse, and the screen. -/
structure Mouse where
  position : ℤ × ℤ := (0, 0)
  oldPosition : ℤ × ℤ := (0, 0)
  circle : Bool := false
  screen : Screen

/-- `draw`. -/
def drawCursor (F : Frame) (pos : ℤ × ℤ) (s : Screen) : Screen :=
  drawOverCursor F cursorborder pos mouseBorderCol false
    (drawOverCursor F cursorinside pos mouseInsideCol true s)

/-- `proccessPacket` up to and including the call of `clear`. -/
def moveAndClear (F : Frame) (p : Packet) (s : Mouse) : Mouse :=
  { s with
    position := move F p s.position
    screen := clearCursor F cursorinside s.oldPosition s.screen }

/-- The rest of `proccessPacket`. -/
def pressAndDraw (F : Frame) (p : Packet) (s : Mouse) : Mouse :=
  let r := button F p s.position s.circle s.screen.pixels
  { s with
    circle := r.1
    screen := drawCursor F s.position { s.screen with pixels := r.2 }
    oldPosition := s.position }

/-- `proccessPacket`, for a packet that is ready. -/
def proccessPacket (F : Frame) (s : Mouse) (p : Packet) : Mouse :=
  pressAndDraw F p (moveAndClear F p s)

/-! ## Without a cursor -/

/-- What the mouse draws if it has no cursor. -/
structure Plain where
  position : ℤ × ℤ := (0, 0)
  circle : Bool := false
  pixels : Pixels

/-- A packet, with all cursor drawing left out. -/
def plainPacket (F : Frame) (s : Plain) (p : Packet) : Plain :=
  let pos := move F p s.position
  let r := button F p pos s.circle s.pixels
  ⟨pos, r.1, r.2⟩

end TurbOS.Display
