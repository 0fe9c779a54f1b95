import Mathlib

/-!
# Byte-addressed memory

Memory is a function from addresses to bytes.  A word of `n` bytes is read and
written in little-endian order (`load`, `store`); a range is filled with one byte
(`fill`) or copied byte by byte from its lower end (`copy`).

The lemmas come in two kinds.  A *frame* lemma says that an operation leaves every
address outside its range alone, and a *read-back* lemma says what stands in the
range afterwards.  Programs above this file reason with these and never unfold the
operations.
-/

namespace ByteMemory

/-- The contents of memory. -/
abbrev Mem := ℕ → UInt8

/-- The little-endian value of the `n` bytes from address `a` on. -/
def load (m : Mem) (a : ℕ) : ℕ → ℕ
  | 0 => 0
  | n + 1 => (m a).toNat + 256 * load m (a + 1) n

/-- Write the low `n` bytes of `v` from address `a` on, lowest byte first. -/
def store (m : Mem) (a n v : ℕ) : Mem := fun x =>
  if a ≤ x ∧ x < a + n then UInt8.ofNat (v / 256 ^ (x - a)) else m x

/-- Write the byte `b` to the `n` addresses from `d` on. -/
def fill (m : Mem) (d : ℕ) (b : UInt8) (n : ℕ) : Mem := fun x =>
  if d ≤ x ∧ x < d + n then b else m x

/-- Copy `n` bytes from `s` on to `d` on, one at a time and upwards; a byte that was
already overwritten is copied as it stands then. -/
def copy (m : Mem) (d s : ℕ) : ℕ → Mem
  | 0 => m
  | n + 1 => Function.update (copy m d s n) (d + n) (copy m d s n (s + n))

/-! ## Words -/

/-- A word depends only on its own bytes. -/
lemma load_congr {m m' : Mem} {a n : ℕ} (h : ∀ x, a ≤ x → x < a + n → m' x = m x) :
    load m' a n = load m a n := by
  induction n generalizing a with
  | zero => rfl
  | succ n ih =>
    rw [load, load, h a le_rfl (by omega), ih fun x h₁ h₂ => h x (by omega) (by omega)]

lemma store_outside {m : Mem} {a n v x : ℕ} (h : x < a ∨ a + n ≤ x) :
    store m a n v x = m x := by
  rw [store, if_neg (by omega)]

lemma load_store_disjoint {m : Mem} {a n v b k : ℕ} (h : b + k ≤ a ∨ a + n ≤ b) :
    load (store m a n v) b k = load m b k :=
  load_congr fun _ _ _ => store_outside (by omega)

lemma store_apply_self (m : Mem) (a n v : ℕ) :
    store m a (n + 1) v a = UInt8.ofNat v := by
  simp [store]

/-- The bytes above the lowest one hold the rest of the value. -/
lemma load_store_tail (m : Mem) (a n v : ℕ) :
    load (store m a (n + 1) v) (a + 1) n = load (store m (a + 1) n (v / 256)) (a + 1) n := by
  refine load_congr fun x h₁ h₂ => ?_
  rw [store, store, if_pos (by omega), if_pos (by omega), Nat.div_div_eq_div_mul,
    ← pow_succ', show x - a = x - (a + 1) + 1 by omega]

/-- A word reads back as what was written, up to its width. -/
lemma load_store_self (m : Mem) (a n v : ℕ) : load (store m a n v) a n = v % 256 ^ n := by
  induction n generalizing a v with
  | zero => simp [load, Nat.mod_one]
  | succ n ih =>
    have hbyte : (UInt8.ofNat v).toNat = v % 256 := UInt8.toNat_ofNat'
    rw [load, store_apply_self, load_store_tail, ih, hbyte, pow_succ' 256 n, Nat.mod_mul]

/-! ## Strings of bytes -/

/-- The bytes stand in memory from address `a` on. -/
def Stored (m : Mem) (a : ℕ) (bs : List UInt8) : Prop := ∀ i b, bs[i]? = some b → m (a + i) = b

/-- The little-endian value of a string of bytes. -/
def value : List UInt8 → ℕ
  | [] => 0
  | b :: bs => b.toNat + 256 * value bs

lemma stored_cons {m : Mem} {a : ℕ} {b : UInt8} {bs : List UInt8} :
    Stored m a (b :: bs) ↔ m a = b ∧ Stored m (a + 1) bs := by
  constructor
  · intro h
    refine ⟨h 0 b rfl, fun i c hc => ?_⟩
    rw [show a + 1 + i = a + (i + 1) by omega]
    exact h (i + 1) c hc
  · rintro ⟨hb, hbs⟩ i c hc
    cases i with
    | zero => exact hb.trans (Option.some.inj hc)
    | succ i =>
      rw [show a + (i + 1) = a + 1 + i by omega]
      exact hbs i c hc

lemma stored_append {m : Mem} {a : ℕ} {bs cs : List UInt8} :
    Stored m a (bs ++ cs) ↔ Stored m a bs ∧ Stored m (a + bs.length) cs := by
  induction bs generalizing a with
  | nil => simp [Stored]
  | cons b bs ih =>
    rw [List.cons_append, stored_cons, ih, stored_cons, and_assoc, List.length_cons]
    rw [show a + 1 + bs.length = a + (bs.length + 1) by omega]

/-- A word is the value of the bytes that stand there. -/
lemma load_of_stored {m : Mem} {a : ℕ} {bs : List UInt8} (h : Stored m a bs) :
    load m a bs.length = value bs := by
  induction bs generalizing a with
  | nil => rfl
  | cons b bs ih =>
    obtain ⟨hb, hbs⟩ := stored_cons.mp h
    rw [List.length_cons, load, value, hb, ih hbs]

/-- The `n` bytes of a value, the lowest one first. -/
def bytesOf (v : ℕ) : ℕ → List UInt8
  | 0 => []
  | n + 1 => UInt8.ofNat v :: bytesOf (v / 256) n

@[simp] lemma length_bytesOf (v n : ℕ) : (bytesOf v n).length = n := by
  induction n generalizing v with
  | zero => rfl
  | succ n ih => rw [bytesOf, List.length_cons, ih]

/-- A value is known from its bytes, up to their number. -/
lemma value_bytesOf (v n : ℕ) : value (bytesOf v n) = v % 256 ^ n := by
  induction n generalizing v with
  | zero => rw [bytesOf, value, pow_zero, Nat.mod_one]
  | succ n ih =>
    have hbyte : (UInt8.ofNat v).toNat = v % 256 := UInt8.toNat_ofNat'
    rw [bytesOf, value, ih, hbyte, pow_succ' 256 n, Nat.mod_mul]

/-! ## Ranges -/

lemma fill_outside {m : Mem} {d n x : ℕ} {b : UInt8} (h : x < d ∨ d + n ≤ x) :
    fill m d b n x = m x := by
  rw [fill, if_neg (by omega)]

lemma fill_inside {m : Mem} {d n x : ℕ} {b : UInt8} (h₁ : d ≤ x) (h₂ : x < d + n) :
    fill m d b n x = b := by
  rw [fill, if_pos ⟨h₁, h₂⟩]

lemma copy_outside {m : Mem} {d s n x : ℕ} (h : x < d ∨ d + n ≤ x) :
    copy m d s n x = m x := by
  induction n with
  | zero => rfl
  | succ n ih => rw [copy, Function.update_of_ne (by omega), ih (by omega)]

/-- If the range that is read does not begin below the one that is written, or does not meet it,
every byte arrives as it was. -/
lemma copy_inside {m : Mem} {d s n k : ℕ} (hk : k < n) (h : s + n ≤ d ∨ d ≤ s) :
    copy m d s n (d + k) = m (s + k) := by
  induction n with
  | zero => omega
  | succ n ih =>
    rw [copy]
    by_cases hkn : k = n
    · rw [hkn, Function.update_self, copy_outside (by omega)]
    · rw [Function.update_of_ne (by omega), ih (by omega) (by omega)]

end ByteMemory
