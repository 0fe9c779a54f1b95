import TurbOS.Display.Mouse

/-!
# Packets of the mouse

`Mouse_Handler` runs once for every byte.  It reads the byte, lets `proccessPacket` handle the
packet that was completed before, and only then puts the byte into its place.  So the position
follows the packets one interrupt late.

A movement is a number of nine bits in two's complement: eight bits in a byte, and the sign in the
first byte of the packet.  For a negative number `proccessPacket` subtracts the byte from `256`, but
it stores the difference in a byte, and takes a movement by `-256` for none.
-/

namespace TurbOS.Display

/-- `packet[1] = 256 - packet[1]` and `packet[2] = 256 - packet[2]`, for the signs that are set. -/
def Packet.negated (p : Packet) : Packet :=
  { p with
    byte1 := if p.has PS2_X_SIGN then UInt8.ofNat (256 - p.byte1.toNat) else p.byte1
    byte2 := if p.has PS2_Y_SIGN then UInt8.ofNat (256 - p.byte2.toNat) else p.byte2 }

/-- The variables of the handler, and of `proccessPacket`. -/
structure Handler where
  cycle : ℕ := 0
  packet : Packet := ⟨0, 0, 0⟩
  packetReady : Bool := false
  skip : Bool := true
  mouse : Mouse

/-- `proccessPacket`, with the test for a packet that is ready. -/
def Handler.process (F : Frame) (h : Handler) : Handler :=
  if h.packetReady then
    { h with
      packet := h.packet.negated
      packetReady := false
      mouse := proccessPacket F h.mouse h.packet }
  else h

/-- The `switch` of the handler. -/
def Handler.place (mousedata : UInt8) (h : Handler) : Handler :=
  match h.cycle with
  | 0 =>
    if mousedata &&& 0b00001000 = 0 then h
    else { h with packet := { h.packet with byte0 := mousedata }, cycle := 1 }
  | 1 => { h with packet := { h.packet with byte1 := mousedata }, cycle := 2 }
  | 2 =>
    { h with packet := { h.packet with byte2 := mousedata }, packetReady := true, cycle := 0 }
  | _ => h

/-- `Mouse_Handler`. -/
def mouseHandler (F : Frame) (h : Handler) (mousedata : UInt8) : Handler :=
  let h := h.process F
  if h.skip then { h with skip := false } else h.place mousedata

/-- The handler after some interrupts. -/
def receive (F : Frame) : List UInt8 → Handler → Handler
  | [], h => h
  | b :: bs, h => receive F bs (mouseHandler F h b)

variable {F : Frame} {h : Handler} {p : Packet} {pos : ℤ × ℤ}

lemma receive_append (bs cs : List UInt8) (h : Handler) :
    receive F (bs ++ cs) h = receive F cs (receive F bs h) := by
  induction bs generalizing h with
  | nil => rfl
  | cons b bs ih => exact ih _

/-! ## One packet -/

/-- The bytes of a packet. -/
def Packet.bytes (p : Packet) : List UInt8 := [p.byte0, p.byte1, p.byte2]

/-- The first byte has bit 3 set, and there is no overflow. -/
structure WellFormed (p : Packet) : Prop where
  first : p.byte0 &&& 0b00001000 ≠ 0
  xover : p.has PS2_X_OVER = false
  yover : p.has PS2_Y_OVER = false

/-- The handler stands between two packets. -/
structure Between (h : Handler) : Prop where
  cycle : h.cycle = 0
  skip : h.skip = false

@[simp] lemma process_packetReady : (h.process F).packetReady = false := by
  rw [Handler.process]
  split
  · rfl
  · simpa using ‹¬h.packetReady = true›

@[simp] lemma process_skip : (h.process F).skip = h.skip := by
  rw [Handler.process]
  split <;> rfl

@[simp] lemma process_cycle : (h.process F).cycle = h.cycle := by
  rw [Handler.process]
  split <;> rfl

lemma process_eq_self (hr : h.packetReady = false) : h.process F = h := by
  rw [Handler.process, if_neg (by simp [hr])]

/-- The position as the next interrupt will find it. -/
def Handler.settled (F : Frame) (h : Handler) : ℤ × ℤ := (h.process F).mouse.position

lemma mouseHandler_position (b : UInt8) : (mouseHandler F h b).mouse.position = h.settled F := by
  rw [mouseHandler, Handler.settled]
  split
  · rfl
  · rw [Handler.place]
    split
    · split <;> rfl
    all_goals rfl

/-- A packet is completed; the one before is processed at its first byte. -/
lemma receive_packet (hb : Between h) (hp : WellFormed p) :
    receive F p.bytes h = { h.process F with packet := p, packetReady := true, cycle := 0 } := by
  have h0 : mouseHandler F h p.byte0
      = { h.process F with
          packet := { (h.process F).packet with byte0 := p.byte0 }
          cycle := 1 } := by
    simp [mouseHandler, Handler.place, hb.cycle, hb.skip, hp.first]
  rw [Packet.bytes, receive, h0, receive, mouseHandler, process_eq_self (by simp)]
  simp only [process_skip, hb.skip, Bool.false_eq_true, if_false, Handler.place, receive]
  rw [mouseHandler, process_eq_self (by simp)]
  simp [Handler.place]

lemma receive_packet_between (hb : Between h) (hp : WellFormed p) :
    Between (receive F p.bytes h) := by
  rw [receive_packet hb hp]
  exact ⟨rfl, by simpa using hb.skip⟩

lemma settled_receive_packet (hb : Between h) (hp : WellFormed p) :
    (receive F p.bytes h).settled F = move F p (h.settled F) := by
  rw [receive_packet hb hp, Handler.settled, Handler.process, if_pos rfl]
  rfl

/-! ## All packets -/

/-- The bytes that arrive: one that is skipped, the packets, and one more. -/
def stream (skipped : UInt8) (ps : List Packet) (next : UInt8) : List UInt8 :=
  skipped :: ps.flatMap Packet.bytes ++ [next]

/-- The position after packet `k` has been processed, when the byte that follows it is handled. -/
def positionAfter (F : Frame) (s : Screen) (bytes : List UInt8) (k : ℕ) : ℤ × ℤ :=
  (receive F (bytes.take (3 * k + 2)) { mouse := { screen := s } }).mouse.position

variable {s : Screen} {skipped next : UInt8} {ps : List Packet} {k : ℕ}

lemma take_packets (hk : k ≤ ps.length) (next : UInt8) :
    ∃ b, (ps.flatMap Packet.bytes ++ [next]).take (3 * k + 1)
      = (ps.take k).flatMap Packet.bytes ++ [b] := by
  induction k generalizing ps with
  | zero => cases ps <;> simp [Packet.bytes]
  | succ k ih =>
    cases ps with
    | nil => simp at hk
    | cons p ps =>
      have hk' : k ≤ ps.length := by simpa using hk
      obtain ⟨b, hb⟩ := ih hk'
      refine ⟨b, ?_⟩
      rw [show 3 * (k + 1) + 1 = 3 * k + 1 + 1 + 1 + 1 by ring]
      simpa [Packet.bytes] using hb

lemma settled_receive_packets (hps : ∀ p ∈ ps, WellFormed p) (hb : Between h) :
    (receive F (ps.flatMap Packet.bytes) h).settled F
      = ps.foldl (fun pos p => move F p pos) (h.settled F) := by
  induction ps generalizing h with
  | nil => rfl
  | cons p ps ih =>
    obtain ⟨hp, hps⟩ := List.forall_mem_cons.1 hps
    rw [List.flatMap_cons, receive_append, ih hps (receive_packet_between hb hp),
      settled_receive_packet hb hp, List.foldl_cons]

lemma positionAfter_eq (hps : ∀ p ∈ ps, WellFormed p) (hk : k ≤ ps.length) :
    positionAfter F s (stream skipped ps next) k
      = (ps.take k).foldl (fun pos p => move F p pos) (0, 0) := by
  obtain ⟨b, hb⟩ := take_packets hk next
  have hps' : ∀ p ∈ ps.take k, WellFormed p := fun p hp => hps p (List.mem_of_mem_take hp)
  rw [positionAfter, stream, List.cons_append, List.take_succ_cons, hb, receive, receive_append,
    receive, receive, mouseHandler_position, settled_receive_packets hps' ⟨rfl, rfl⟩]
  rfl

/-- Every packet moves the position. -/
lemma positionAfter_succ (hps : ∀ p ∈ ps, WellFormed p) (hp : ps[k]? = some p) :
    positionAfter F s (stream skipped ps next) (k + 1)
      = move F p (positionAfter F s (stream skipped ps next) k) := by
  obtain ⟨hk, hpk⟩ := List.getElem?_eq_some_iff.1 hp
  rw [positionAfter_eq hps hk, positionAfter_eq hps hk.le, List.take_add_one, hp, List.foldl_append]
  rfl

/-! ## What a packet says -/

/-- A movement: nine bits in two's complement. -/
def nineBits (sign : Bool) (byte : UInt8) : ℤ := (BitVec.ofBool sign ++ byte.toBitVec).toInt

/-- The coordinate nearest to `a` from `0` to `size - 1`. -/
def nearestCoordinate (size : UInt16) (a : ℤ) : ℤ := min (max a 0) ((size.toNat : ℤ) - 1)

/-- The position that a packet asks for. -/
def decode (F : Frame) (p : Packet) (pos : ℤ × ℤ) : ℤ × ℤ :=
  (nearestCoordinate F.frm_width (pos.1 + nineBits (p.has PS2_X_SIGN) p.byte1),
    nearestCoordinate F.frm_height (pos.2 - nineBits (p.has PS2_Y_SIGN) p.byte2))

lemma nineBits_eq (sign : Bool) (byte : UInt8) :
    nineBits sign byte = byte.toNat - if sign then 256 else 0 := by
  have hlt : byte.toNat < 2 ^ 8 := byte.toNat_lt
  have hnat : (BitVec.ofBool sign ++ byte.toBitVec).toNat = sign.toNat * 256 + byte.toNat := by
    rw [BitVec.toNat_append, BitVec.toNat_ofBool, UInt8.toNat_toBitVec,
      ← Nat.shiftLeft_add_eq_or_of_lt hlt, Nat.shiftLeft_eq]
  rw [nineBits, BitVec.toInt_eq_toNat_cond, hnat]
  cases sign
  · rw [if_pos (by simp; omega)]
    simp
  · rw [if_neg (by simp; omega)]
    push_cast
    simp
    omega

/-- The movement is decoded but for one value. -/
lemma movement_eq (sign : Bool) (byte : UInt8) :
    movement sign false byte = nineBits sign byte + if sign ∧ byte = 0 then 256 else 0 := by
  have hlt : byte.toNat < 2 ^ 8 := byte.toNat_lt
  have hzero : byte = 0 ↔ byte.toNat = 0 := UInt8.toNat_inj.symm
  rw [movement, nineBits_eq]
  cases sign
  · simp
  · simp only [hzero, if_true, true_and, Bool.false_eq_true, if_false]
    split <;> omega

lemma clampPosition_eq (size : UInt16) (a : ℤ) :
    clampPosition size a = nearestCoordinate size a := by
  rw [clampPosition, nearestCoordinate]
  split <;> split <;> omega

/-- What holds of a coordinate from the start. -/
structure Coordinate (size : UInt16) (a : ℤ) : Prop where
  lower : -1 ≤ a
  nonneg : 0 < size.toNat → 0 ≤ a
  upper : a ≤ max 0 ((size.toNat : ℤ) - 1)

lemma Coordinate.zero (size : UInt16) : Coordinate size 0 :=
  ⟨by omega, fun _ => le_rfl, le_max_left _ _⟩

lemma Coordinate.nearest (size : UInt16) (a : ℤ) : Coordinate size (nearestCoordinate size a) := by
  constructor <;> rw [nearestCoordinate] <;> omega

/-- The smallest movement goes unnoticed only at the left edge. -/
lemma Coordinate.unmoved_left_iff {size : UInt16} {a : ℤ} (ha : Coordinate size a) :
    nearestCoordinate size a = nearestCoordinate size (a - 256) ↔ a ≤ 0 := by
  obtain ⟨hlower, hnonneg, hupper⟩ := ha
  rw [nearestCoordinate, nearestCoordinate]
  omega

/-- And at the lower edge. -/
lemma Coordinate.unmoved_down_iff {size : UInt16} {a : ℤ} (ha : Coordinate size a) :
    nearestCoordinate size a = nearestCoordinate size (a + 256) ↔ (size.toNat : ℤ) - 1 ≤ a := by
  obtain ⟨hlower, hnonneg, hupper⟩ := ha
  rw [nearestCoordinate, nearestCoordinate]
  omega

/-- Both coordinates. -/
def OnScreen (F : Frame) (pos : ℤ × ℤ) : Prop :=
  Coordinate F.frm_width pos.1 ∧ Coordinate F.frm_height pos.2

lemma move_onScreen (F : Frame) (p : Packet) (pos : ℤ × ℤ) : OnScreen F (move F p pos) := by
  rw [move, clampPosition_eq, clampPosition_eq]
  exact ⟨Coordinate.nearest _ _, Coordinate.nearest _ _⟩

/-- The smallest movement comes only where the position stays. -/
def SmallestAtEdge (F : Frame) (p : Packet) (pos : ℤ × ℤ) : Prop :=
  (p.has PS2_X_SIGN ∧ p.byte1 = 0 → pos.1 ≤ 0) ∧
    (p.has PS2_Y_SIGN ∧ p.byte2 = 0 → (F.frm_height.toNat : ℤ) - 1 ≤ pos.2)

lemma move_eq_decode_iff (hp : WellFormed p) (hpos : OnScreen F pos) :
    move F p pos = decode F p pos ↔ SmallestAtEdge F p pos := by
  have hx : clampPosition F.frm_width (pos.1 + movement (p.has PS2_X_SIGN) false p.byte1)
      = nearestCoordinate F.frm_width (pos.1 + nineBits (p.has PS2_X_SIGN) p.byte1)
      ↔ (p.has PS2_X_SIGN ∧ p.byte1 = 0 → pos.1 ≤ 0) := by
    rw [clampPosition_eq, movement_eq]
    by_cases h : p.has PS2_X_SIGN ∧ p.byte1 = 0
    · have hbits : nineBits (p.has PS2_X_SIGN) p.byte1 = -256 := by
        rw [nineBits_eq, h.1, h.2]
        rfl
      rw [if_pos h, hbits, ← hpos.1.unmoved_left_iff]
      simp [h, sub_eq_add_neg]
    · simp [h]
  have hy : clampPosition F.frm_height (pos.2 - movement (p.has PS2_Y_SIGN) false p.byte2)
      = nearestCoordinate F.frm_height (pos.2 - nineBits (p.has PS2_Y_SIGN) p.byte2)
      ↔ (p.has PS2_Y_SIGN ∧ p.byte2 = 0 → (F.frm_height.toNat : ℤ) - 1 ≤ pos.2) := by
    rw [clampPosition_eq, movement_eq]
    by_cases h : p.has PS2_Y_SIGN ∧ p.byte2 = 0
    · have hbits : nineBits (p.has PS2_Y_SIGN) p.byte2 = -256 := by
        rw [nineBits_eq, h.1, h.2]
        rfl
      rw [if_pos h, hbits, ← hpos.2.unmoved_down_iff]
      simp [h]
    · simp [h]
  rw [move, decode, hp.xover, hp.yover, Prod.mk.injEq, hx, hy, SmallestAtEdge]

lemma positionAfter_onScreen (hps : ∀ p ∈ ps, WellFormed p) (hk : k ≤ ps.length) :
    OnScreen F (positionAfter F s (stream skipped ps next) k) := by
  cases k with
  | zero =>
    rw [positionAfter_eq hps hk]
    exact ⟨Coordinate.zero _, Coordinate.zero _⟩
  | succ k =>
    rw [positionAfter_succ hps (List.getElem?_eq_getElem hk)]
    exact move_onScreen _ _ _

/-- A movement by ten to the right. -/
def tenRight : Packet := ⟨0b00001000, 10, 0⟩

/-- The smallest movement, to the left. -/
def farLeft : Packet := ⟨0b00011000, 0, 0⟩

/-- The motion is decoded exactly if the smallest movement comes only where the position
stays. -/
theorem motion_decoded_iff (F : Frame) (s : Screen) (skipped next : UInt8) (ps : List Packet)
    (hps : ∀ p ∈ ps, WellFormed p) :
    (∀ k p, ps[k]? = some p → positionAfter F s (stream skipped ps next) (k + 1)
        = decode F p (positionAfter F s (stream skipped ps next) k))
      ↔ ∀ k p, ps[k]? = some p →
        SmallestAtEdge F p (positionAfter F s (stream skipped ps next) k) := by
  refine forall_congr' fun k => forall_congr' fun p => forall_congr' fun hp => ?_
  obtain ⟨hk, hpk⟩ := List.getElem?_eq_some_iff.1 hp
  rw [positionAfter_succ hps hp]
  exact move_eq_decode_iff (hpk ▸ hps _ (List.getElem_mem hk)) (positionAfter_onScreen hps hk.le)

/-- On a screen of `640` times `480` pixels, a movement by three down, and to the left from the
edge. -/
theorem motion_decoded_sample :
    positionAfter ⟨640, 480, 2560⟩ { pixels := fun _ => 0 }
        (stream 0xFA [⟨0b00111000, 250, 253⟩] 0) 1 = (0, 3) := by
  have h := (motion_decoded_iff ⟨640, 480, 2560⟩ { pixels := fun _ => 0 } 0xFA 0
    [⟨0b00111000, 250, 253⟩] (by
      intro p hp
      rw [List.mem_singleton.1 hp]
      exact ⟨by decide, by decide, by decide⟩)).2 (by
      intro k p hp
      obtain ⟨rfl, rfl⟩ : k = 0 ∧ p = ⟨0b00111000, 250, 253⟩ := by
        cases k with
        | zero => simpa using hp.symm
        | succ k => simp at hp
      exact ⟨fun h => absurd h.2 (by decide), fun h => absurd h.2 (by decide)⟩) 0 _ rfl
  rw [h]
  decide +kernel

/-- The pointer goes ten pixels to the right; a movement by `-256` leaves it there. -/
theorem motion_not_decoded :
    ¬ ∀ (F : Frame) (s : Screen) (skipped next : UInt8) (ps : List Packet),
      (∀ p ∈ ps, WellFormed p) → ∀ k p, ps[k]? = some p →
        positionAfter F s (stream skipped ps next) (k + 1)
          = decode F p (positionAfter F s (stream skipped ps next) k) := by
  intro hall
  have hps : ∀ p ∈ [tenRight, farLeft], WellFormed p := by
    intro p hp
    rcases List.mem_pair.1 hp with rfl | rfl <;> exact ⟨by decide, by decide, by decide⟩
  have h := hall ⟨640, 480, 2560⟩ { pixels := fun _ => 0 } 0xFA 0
    [tenRight, farLeft] hps 1 farLeft rfl
  rw [positionAfter_eq hps (by decide), positionAfter_eq hps (by decide)] at h
  exact absurd h (by decide +kernel)

end TurbOS.Display
