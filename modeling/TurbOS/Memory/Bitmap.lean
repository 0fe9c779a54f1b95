import TurbOS.Lib.ByteMemory

/-!
# The bitmap of physical pages

`Bitmap` keeps one bit per page in a byte buffer; bit `index % 8` of byte `index / 8`,
counted from the most significant end, belongs to page `index`.  The buffer lies in
physical memory like everything else, so `get` and `set` take the memory and the
address of the buffer.

The main result is `get_set`: a bit reads back as the last value written to it, and
writing one bit does not disturb another.
-/

open ByteMemory

namespace TurbOS.Bitmap

/-- The mask of a bit within its byte: `0b10000000 >> biti`. -/
def bitindexer (index : ℕ) : UInt8 := 0b10000000 >>> UInt8.ofNat (index % 8)

/-- `Bitmap::get`, which is also `Bitmap::operator[]`. -/
def get (m : Mem) (buffer index : ℕ) : Bool :=
  decide (0 < m (buffer + index / 8) &&& bitindexer index)

/-- `Bitmap::set`: the bit is cleared first and then raised if asked for. -/
def set (m : Mem) (buffer index : ℕ) (value : Bool) : Mem :=
  let bytei := buffer + index / 8
  let m := Function.update m bytei (m bytei &&& ~~~bitindexer index)
  if value then Function.update m bytei (m bytei ||| bitindexer index) else m

/-- Set `n` consecutive bits, from `page` upwards, to one value. -/
def setRange (m : Mem) (buffer page : ℕ) (value : Bool) : ℕ → Mem
  | 0 => m
  | n + 1 => set (setRange m buffer page value n) buffer (page + n) value

/-! ## One byte -/

/-- The mask has exactly one bit set. -/
lemma bitindexer_toBitVec (index : ℕ) :
    (bitindexer index).toBitVec = BitVec.twoPow 8 (7 - index % 8) := by
  have h : index % 8 < 8 := Nat.mod_lt _ (by norm_num)
  rw [bitindexer]
  generalize index % 8 = k at h
  interval_cases k <;> rfl

lemma pos_iff_toBitVec_ne (x : UInt8) : 0 < x ↔ x.toBitVec ≠ 0#8 := by
  rw [UInt8.lt_iff_toNat_lt, ← UInt8.toNat_toBitVec, Ne, BitVec.toNat_eq]
  simp [Nat.pos_iff_ne_zero]

lemma mask_pos_iff (x : UInt8) (index : ℕ) :
    0 < x &&& bitindexer index ↔ x.toBitVec.getLsbD (7 - index % 8) = true := by
  rw [pos_iff_toBitVec_ne, UInt8.toBitVec_and, bitindexer_toBitVec, BitVec.and_twoPow]
  have h : 7 - index % 8 < 8 := by omega
  cases hb : x.toBitVec.getLsbD (7 - index % 8)
  · simp
  · have hpos : BitVec.twoPow 8 (7 - index % 8) ≠ 0#8 := by
      intro h0
      have := congrArg (fun v => BitVec.getLsbD v (7 - index % 8)) h0
      simp [h] at this
    simp [hpos]

lemma get_eq (m : Mem) (buffer index : ℕ) :
    get m buffer index = (m (buffer + index / 8)).toBitVec.getLsbD (7 - index % 8) := by
  rw [get, Bool.eq_iff_iff, decide_eq_true_iff, mask_pos_iff]

/-! ## Reading back -/

/-- The byte that `set` leaves in place of the old one. -/
def setByte (x : UInt8) (index : ℕ) (value : Bool) : UInt8 :=
  if value then x &&& ~~~bitindexer index ||| bitindexer index else x &&& ~~~bitindexer index

lemma set_apply (m : Mem) (buffer index : ℕ) (value : Bool) (x : ℕ) :
    set m buffer index value x =
      if x = buffer + index / 8 then setByte (m x) index value else m x := by
  by_cases hx : x = buffer + index / 8
  · subst hx
    cases value <;> simp [set, setByte]
  · cases value <;> simp [set, hx]

lemma setByte_getLsbD (x : UInt8) (index : ℕ) (value : Bool) {k : ℕ} (hk : k < 8) :
    (setByte x index value).toBitVec.getLsbD k =
      if k = 7 - index % 8 then value else x.toBitVec.getLsbD k := by
  by_cases hki : k = 7 - index % 8
  · have hlt : 7 - index % 8 < 8 := by omega
    cases value <;> simp [setByte, bitindexer_toBitVec, hki, hlt]
  · cases value <;> simp [setByte, bitindexer_toBitVec, hki, hk]

/-- A bit reads back as the last value written to it; other bits are not disturbed. -/
theorem get_set (m : Mem) (buffer i j : ℕ) (value : Bool) :
    get (set m buffer i value) buffer j = if i = j then value else get m buffer j := by
  rw [get_eq, get_eq, set_apply]
  by_cases hbyte : buffer + j / 8 = buffer + i / 8
  · rw [if_pos hbyte, setByte_getLsbD _ _ _ (by omega)]
    by_cases hij : i = j
    · subst hij
      simp
    · rw [if_neg hij, if_neg (by omega)]
  · rw [if_neg hbyte, if_neg]
    rintro rfl
    exact hbyte rfl

lemma set_outside {m : Mem} {buffer index x : ℕ} {value : Bool}
    (h : x ≠ buffer + index / 8) : set m buffer index value x = m x := by
  rw [set_apply, if_neg h]

/-- Setting bits changes the bytes of the bitmap only. -/
lemma setRange_outside {m : Mem} {buffer page n size x : ℕ} {value : Bool}
    (hle : page + n ≤ 8 * size) (hx : x < buffer ∨ buffer + size ≤ x) :
    setRange m buffer page value n x = m x := by
  induction n with
  | zero => rfl
  | succ n ih => rw [setRange, set_outside (by omega), ih (by omega)]

/-- A bit depends only on its own byte. -/
lemma get_congr {m m' : Mem} {buffer index : ℕ}
    (h : m' (buffer + index / 8) = m (buffer + index / 8)) :
    get m' buffer index = get m buffer index := by
  rw [get, get, h]

lemma get_setRange (m : Mem) (buffer page n j : ℕ) (value : Bool) :
    get (setRange m buffer page value n) buffer j =
      if page ≤ j ∧ j < page + n then value else get m buffer j := by
  induction n with
  | zero => simp [setRange, show ¬ (page ≤ j ∧ j < page) by omega]
  | succ n ih =>
    rw [setRange, get_set, ih]
    by_cases hj : page + n = j
    · rw [if_pos hj, if_pos (by omega)]
    · rw [if_neg hj]
      by_cases hr : page ≤ j ∧ j < page + n
      · rw [if_pos hr, if_pos (by omega)]
      · rw [if_neg hr, if_neg (by omega)]

end TurbOS.Bitmap
