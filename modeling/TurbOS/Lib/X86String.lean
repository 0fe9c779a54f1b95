import TurbOS.Lib.X86

/-!
# String instructions

What the repeated string instructions do as a whole, from the first round to the last one.  Upwards
`rep movsb` copies byte by byte; downwards it moves a range to a place that is not lower.  `repe
cmpsb` stops behind the first difference.
-/

open ByteMemory

namespace X86

variable {code : UInt64 → Option Instr} {m m' : State} {i : Instr}

namespace State

/-- The registers of the string instructions, and the memory. -/
def str (m : State) (rsi rdi rcx : UInt64) (mem : Mem) : State where
  reg := fun r =>
    match r with
    | .rsi => rsi
    | .rdi => rdi
    | .rcx => rcx
    | r => m.reg r
  rip := m.rip
  rflags := m.rflags
  cs := m.cs
  ss := m.ss
  mem := mem

variable (m : State) (rsi rdi rcx : UInt64) (mem : Mem)

@[simp] lemma str_rsi : (m.str rsi rdi rcx mem).reg .rsi = rsi := rfl

@[simp] lemma str_rdi : (m.str rsi rdi rcx mem).reg .rdi = rdi := rfl

@[simp] lemma str_rcx : (m.str rsi rdi rcx mem).reg .rcx = rcx := rfl

@[simp] lemma str_mem : (m.str rsi rdi rcx mem).mem = mem := rfl

@[simp] lemma str_rip : (m.str rsi rdi rcx mem).rip = m.rip := rfl

@[simp] lemma str_rflags : (m.str rsi rdi rcx mem).rflags = m.rflags := rfl

@[simp] lemma str_flag (k : ℕ) : (m.str rsi rdi rcx mem).flag k = m.flag k := rfl

lemma str_self : m.str (m.reg .rsi) (m.reg .rdi) (m.reg .rcx) m.mem = m := by
  refine State.ext ?_ rfl rfl rfl rfl rfl
  funext r
  cases r <;> rfl

end State

/-! ## Addresses -/

lemma toNat_add_ofNat {v : UInt64} {k : ℕ} (h : v.toNat + k < 2 ^ 64) :
    (v + UInt64.ofNat k).toNat = v.toNat + k := by
  rw [UInt64.toNat_add, UInt64.toNat_ofNat', Nat.mod_eq_of_lt (by omega : k < 2 ^ 64),
    Nat.mod_eq_of_lt h]

lemma toNat_sub_ofNat {v : UInt64} {k : ℕ} (h : k ≤ v.toNat) :
    (v - UInt64.ofNat k).toNat = v.toNat - k := by
  have hv := v.toNat_lt
  have hk : (UInt64.ofNat k).toNat = k := by
    rw [UInt64.toNat_ofNat', Nat.mod_eq_of_lt (by omega)]
  rw [UInt64.toNat_sub_of_le _ _ (by rw [UInt64.le_iff_toNat_le, hk]; exact h), hk]

lemma add_ofNat_succ (v : UInt64) (k : ℕ) : v + UInt64.ofNat k + 1 = v + UInt64.ofNat (k + 1) := by
  rw [UInt64.ofNat_add, ← add_assoc]
  rfl

lemma sub_ofNat_succ (v : UInt64) (k : ℕ) : v - UInt64.ofNat k - 1 = v - UInt64.ofNat (k + 1) := by
  rw [UInt64.ofNat_add, sub_sub]
  rfl

/-- The count is not zero before the last round. -/
lemma sub_ofNat_ne_zero {v : UInt64} {k : ℕ} (h : k < v.toNat) : v - UInt64.ofNat k ≠ 0 := by
  intro hzero
  have hnat := congrArg UInt64.toNat hzero
  rw [toNat_sub_ofNat h.le] at hnat
  have h0 : (0 : UInt64).toNat = 0 := rfl
  omega

lemma sub_ofNat_toNat (v : UInt64) : v - UInt64.ofNat v.toNat = 0 := by
  rw [UInt64.ofNat_toNat, sub_self]

/-! ## Ranges of memory -/

/-- The memory after `n` bytes were moved from `s` to `d`, all at once. -/
def move (mem : Mem) (d s n : ℕ) : Mem :=
  fun x => if d ≤ x ∧ x < d + n then mem (s + (x - d)) else mem x

variable {mem : Mem} {d s n : ℕ}

lemma move_zero : move mem d s 0 = mem := by
  funext x
  rw [move, if_neg (by omega)]

/-- One byte at a time, upwards: right unless the range that is read begins below the one that is
written and reaches into it. -/
lemma copy_eq_move (h : s + n ≤ d ∨ d ≤ s) : copy mem d s n = move mem d s n := by
  funext x
  rw [move]
  split
  · rename_i hx
    obtain ⟨k, rfl⟩ : ∃ k, x = d + k := ⟨x - d, by omega⟩
    rw [copy_inside (by omega) h, Nat.add_sub_cancel_left]
  · rw [copy_outside (by omega)]

/-- One byte more at the lower end. -/
lemma move_succ (h : s ≤ d) :
    Function.update (move mem (d + 1) (s + 1) n) d (move mem (d + 1) (s + 1) n s) = move mem d s
      (n + 1) := by
  funext x
  by_cases hx : x = d
  · subst hx
    rw [Function.update_self, move, if_neg (by omega), move, if_pos (by omega), Nat.sub_self,
      Nat.add_zero]
  · rw [Function.update_of_ne hx, move, move]
    by_cases hin : d ≤ x ∧ x < d + (n + 1)
    · have hsrc : s + 1 + (x - (d + 1)) = s + (x - d) := by omega
      rw [if_pos (by omega), if_pos hin, hsrc]
    · rw [if_neg (by omega), if_neg hin]

lemma fill_zero (b : UInt8) : fill mem d b 0 = mem := by
  funext x
  rw [fill, if_neg (by omega)]

lemma fill_succ (b : UInt8) :
    Function.update (fill mem d b n) (d + n) b = fill mem d b (n + 1) := by
  funext x
  by_cases hx : x = d + n
  · rw [hx, Function.update_self, fill, if_pos (by omega)]
  · rw [Function.update_of_ne hx, fill, fill]
    by_cases hin : d ≤ x ∧ x < d + n
    · rw [if_pos hin, if_pos (by omega)]
    · rw [if_neg hin, if_neg (by omega)]

/-! ## String instructions -/

lemma exec_repMovsb (rsi rdi rcx : UInt64) (mem : Mem) (hrcx : rcx ≠ 0) :
    exec .repMovsb (m.str rsi rdi rcx mem) =
      m.str (m.advance rsi) (m.advance rdi) (rcx - 1)
        (Function.update mem rdi.toNat (mem rsi.toNat)) := by
  rw [exec, State.str_rcx, if_neg hrcx]
  refine State.ext ?_ rfl rfl rfl rfl rfl
  funext r
  cases r <;> rfl

lemma exec_repStosb (rsi rdi rcx : UInt64) (mem : Mem) (hrcx : rcx ≠ 0) :
    exec .repStosb (m.str rsi rdi rcx mem) =
      m.str rsi (m.advance rdi) (rcx - 1) (Function.update mem rdi.toNat (low (m.reg .rax))) := by
  rw [exec, State.str_rcx, if_neg hrcx]
  refine State.ext ?_ rfl rfl rfl rfl rfl
  funext r
  cases r <;> rfl

lemma advance_up {v : UInt64} (h : m.flag DF = false) : m.advance v = v + 1 := by
  rw [State.advance, h]
  rfl

lemma advance_down {v : UInt64} (h : m.flag DF = true) : m.advance v = v - 1 := by
  rw [State.advance, h]
  rfl

/-- A repeated instruction, round by round, to the end of its loop. -/
lemma runs_rep {S : ℕ → State} (hcode : code m.rip = some i) (hstart : S 0 = m)
    (hrip : ∀ k, (S k).rip = m.rip)
    (hround : ∀ k < n, exec i (S k) = S (k + 1)) (hstop : exec i (S n) = m') : Runs code m m' := by
  have hstep : ∀ k, step code (S k) = some (exec i (S k)) :=
    fun k => step_of_code (by rw [hrip, hcode])
  have hloop : Runs code (S 0) (S n) := Runs.rounds fun k hk => by rw [hstep, hround k hk]
  rw [hstart] at hloop
  exact hloop.trans (.single (by rw [hstep, hstop]))

lemma str_start (v w : UInt64) : v + UInt64.ofNat 0 = v ∧ w - UInt64.ofNat 0 = w :=
  ⟨add_zero v, sub_zero w⟩

/-- `rep movsb` upwards. -/
lemma runs_repMovsb_up (hcode : code m.rip = some .repMovsb) (hdf : m.flag DF = false)
    (hn : (m.reg .rcx).toNat = n) (hs : (m.reg .rsi).toNat + n ≤ 2 ^ 64)
    (hd : (m.reg .rdi).toNat + n ≤ 2 ^ 64) :
    Runs code m (m.str (m.reg .rsi + UInt64.ofNat n) (m.reg .rdi + UInt64.ofNat n) 0
      (copy m.mem (m.reg .rdi).toNat (m.reg .rsi).toNat n)).next := by
  have hzero : m.reg .rcx - UInt64.ofNat n = 0 := by rw [← hn, sub_ofNat_toNat]
  rw [← hzero]
  refine runs_rep (n := n) (S := fun k => m.str (m.reg .rsi + UInt64.ofNat k)
    (m.reg .rdi + UInt64.ofNat k)
    (m.reg .rcx - UInt64.ofNat k) (copy m.mem (m.reg .rdi).toNat (m.reg .rsi).toNat k)) hcode ?_
      (fun k => rfl)
    (fun k hk => ?_) ?_
  · rw [(str_start (m.reg .rsi) (m.reg .rcx)).1, (str_start (m.reg .rdi) (m.reg .rcx)).1,
      (str_start (m.reg .rdi) (m.reg .rcx)).2]
    exact m.str_self
  · rw [exec_repMovsb _ _ _ _ (sub_ofNat_ne_zero (by omega)), advance_up hdf, advance_up hdf,
      add_ofNat_succ, add_ofNat_succ, sub_ofNat_succ, toNat_add_ofNat (by omega),
      toNat_add_ofNat (by omega), copy]
  · rw [exec, State.str_rcx, if_pos hzero]

/-- `rep movsb` downwards: the bytes from the last one on, to a place that is not lower. -/
lemma runs_repMovsb_down {d s : ℕ} (hcode : code m.rip = some .repMovsb) (hdf : m.flag DF = true)
    (hn : (m.reg .rcx).toNat = n) (hs : 0 < n → (m.reg .rsi).toNat = s + n - 1)
    (hd : 0 < n → (m.reg .rdi).toNat = d + n - 1) (hsd : s ≤ d) :
    Runs code m (m.str (m.reg .rsi - UInt64.ofNat n) (m.reg .rdi - UInt64.ofNat n) 0
      (move m.mem d s n)).next := by
  have hzero : m.reg .rcx - UInt64.ofNat n = 0 := by rw [← hn, sub_ofNat_toNat]
  have hall : move m.mem d s n = move m.mem (d + (n - n)) (s + (n - n)) n := by
    rw [Nat.sub_self]; rfl
  rw [← hzero, hall]
  refine runs_rep (n := n) (S := fun k => m.str (m.reg .rsi - UInt64.ofNat k)
    (m.reg .rdi - UInt64.ofNat k)
    (m.reg .rcx - UInt64.ofNat k) (move m.mem (d + (n - k)) (s + (n - k)) k)) hcode ?_
      (fun k => rfl)
    (fun k hk => ?_) ?_
  · rw [(str_start (m.reg .rdi) (m.reg .rsi)).2, (str_start (m.reg .rdi) (m.reg .rdi)).2,
      (str_start (m.reg .rdi) (m.reg .rcx)).2, move_zero]
    exact m.str_self
  · have hsrc := hs (by omega)
    have hdst := hd (by omega)
    have hlast : n - k = n - (k + 1) + 1 := by omega
    have hsrc' : (m.reg .rsi - UInt64.ofNat k).toNat = s + (n - (k + 1)) := by
      rw [toNat_sub_ofNat (by omega)]
      omega
    have hdst' : (m.reg .rdi - UInt64.ofNat k).toNat = d + (n - (k + 1)) := by
      rw [toNat_sub_ofNat (by omega)]
      omega
    rw [exec_repMovsb _ _ _ _ (sub_ofNat_ne_zero (by omega)), advance_down hdf, advance_down hdf,
      sub_ofNat_succ, sub_ofNat_succ, sub_ofNat_succ, hsrc', hdst', hlast, ← add_assoc, ← add_assoc,
      move_succ (by omega)]
  · rw [exec, State.str_rcx, if_pos hzero]

/-- `rep stosb` upwards. -/
lemma runs_repStosb_up (hcode : code m.rip = some .repStosb) (hdf : m.flag DF = false)
    (hn : (m.reg .rcx).toNat = n) (hd : (m.reg .rdi).toNat + n ≤ 2 ^ 64) :
    Runs code m (m.str (m.reg .rsi) (m.reg .rdi + UInt64.ofNat n) 0
      (fill m.mem (m.reg .rdi).toNat (low (m.reg .rax)) n)).next := by
  have hzero : m.reg .rcx - UInt64.ofNat n = 0 := by rw [← hn, sub_ofNat_toNat]
  rw [← hzero]
  refine runs_rep (n := n) (S := fun k => m.str (m.reg .rsi) (m.reg .rdi + UInt64.ofNat k)
    (m.reg .rcx - UInt64.ofNat k) (fill m.mem (m.reg .rdi).toNat (low (m.reg .rax)) k)) hcode ?_
      (fun k => rfl)
    (fun k hk => ?_) ?_
  · rw [(str_start (m.reg .rdi) (m.reg .rcx)).1, (str_start (m.reg .rdi) (m.reg .rcx)).2, fill_zero]
    exact m.str_self
  · rw [exec_repStosb _ _ _ _ (sub_ofNat_ne_zero (by omega)), advance_up hdf, add_ofNat_succ,
      sub_ofNat_succ, toNat_add_ofNat (by omega), fill_succ]
  · rw [exec, State.str_rcx, if_pos hzero]

/-- The flags after `k` rounds of a comparison. -/
def cmpFlags (mem : Mem) (s d : ℕ) (w : UInt64) : ℕ → UInt64
  | 0 => w
  | k + 1 => subFlags 8 (mem (s + k)).toNat (mem (d + k)).toNat (cmpFlags mem s d w k)

lemma bit_DF_cmpFlags (mem : Mem) (s d k : ℕ) (w : UInt64) :
    bit DF (cmpFlags mem s d w k) = bit DF w := by
  induction k with
  | zero => rfl
  | succ k ih => rw [cmpFlags, subFlags, bit_DF_resultFlags, ih]

/-- The state after `k` rounds of a comparison. -/
def State.compared (m : State) (k : ℕ) : State :=
  { m.str (m.reg .rsi + UInt64.ofNat k) (m.reg .rdi + UInt64.ofNat k) (m.reg .rcx - UInt64.ofNat k)
    m.mem with
    rflags := cmpFlags m.mem (m.reg .rsi).toNat (m.reg .rdi).toNat m.rflags k }

lemma State.compared_zero (m : State) : m.compared 0 = m := by
  refine State.ext ?_ rfl rfl rfl rfl rfl
  funext r
  cases r <;> first | rfl | exact add_zero _ | exact sub_zero _

/-- One round of a comparison. -/
lemma exec_repeCmpsb {k : ℕ} (hdf : m.flag DF = false) (hk : k < (m.reg .rcx).toNat)
    (hs : (m.reg .rsi).toNat + k < 2 ^ 64) (hd : (m.reg .rdi).toNat + k < 2 ^ 64) :
    exec .repeCmpsb (m.compared k) =
      if m.mem ((m.reg .rsi).toNat + k) = m.mem ((m.reg .rdi).toNat + k) then m.compared (k + 1)
      else (m.compared (k + 1)).next := by
  have hflag : (m.compared k).flag DF = false := (bit_DF_cmpFlags ..).trans hdf
  have hsrc : ((m.compared k).reg .rsi).toNat = (m.reg .rsi).toNat + k := toNat_add_ofNat hs
  have hdst : ((m.compared k).reg .rdi).toNat = (m.reg .rdi).toNat + k := toNat_add_ofNat hd
  have hcount : (m.compared k).reg .rcx ≠ 0 := sub_ofNat_ne_zero hk
  have hmem : (m.compared k).mem = m.mem := rfl
  have hround : { (((m.compared k).set .rsi ((m.compared k).advance
    ((m.compared k).reg .rsi))).set .rdi
        ((m.compared k).advance ((m.compared k).reg .rdi))).set .rcx
          ((m.compared k).reg .rcx - 1) with
      rflags := subFlags 8 (m.mem ((m.reg .rsi).toNat + k)).toNat
        (m.mem ((m.reg .rdi).toNat + k)).toNat (m.compared k).rflags } = m.compared (k + 1) := by
    refine State.ext ?_ rfl rfl rfl rfl rfl
    funext r
    rw [advance_up hflag, advance_up hflag]
    cases r <;> first | rfl | exact add_ofNat_succ _ _ | exact sub_ofNat_succ _ _
  rw [exec, if_neg hcount, hsrc, hdst, hmem, ← hround]

/-- `repe cmpsb` with equal bytes. -/
lemma runs_repeCmpsb_equal (hcode : code m.rip = some .repeCmpsb) (hdf : m.flag DF = false)
    (hn : (m.reg .rcx).toNat = n) (hs : (m.reg .rsi).toNat + n ≤ 2 ^ 64)
    (hd : (m.reg .rdi).toNat + n ≤ 2 ^ 64)
    (heq : ∀ k < n, m.mem ((m.reg .rsi).toNat + k) = m.mem ((m.reg .rdi).toNat + k)) :
    Runs code m (m.compared n).next := by
  refine runs_rep (n := n) (S := m.compared) hcode m.compared_zero (fun k => rfl)
    (fun k hk => ?_) ?_
  · rw [exec_repeCmpsb hdf (by omega) (by omega) (by omega), if_pos (heq k hk)]
  · have hzero : (m.compared n).reg .rcx = 0 := by
      rw [← hn]
      exact sub_ofNat_toNat _
    rw [exec, if_pos hzero]

/-- `repe cmpsb` stops behind the first difference. -/
lemma runs_repeCmpsb_differ {j : ℕ} (hcode : code m.rip = some .repeCmpsb) (hdf : m.flag DF = false)
    (hj : j < (m.reg .rcx).toNat) (hs : (m.reg .rsi).toNat + j < 2 ^ 64)
    (hd : (m.reg .rdi).toNat + j < 2 ^ 64)
    (heq : ∀ k < j, m.mem ((m.reg .rsi).toNat + k) = m.mem ((m.reg .rdi).toNat + k))
    (hne : m.mem ((m.reg .rsi).toNat + j) ≠ m.mem ((m.reg .rdi).toNat + j)) :
    Runs code m (m.compared (j + 1)).next := by
  refine runs_rep (n := j) (S := m.compared) hcode m.compared_zero (fun k => rfl)
    (fun k hk => ?_) ?_
  · rw [exec_repeCmpsb hdf (by omega) (by omega) (by omega), if_pos (heq k hk)]
  · rw [exec_repeCmpsb hdf hj hs hd, if_neg hne]

end X86
