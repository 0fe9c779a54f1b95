import Mathlib

/-!
# The interval timer

The timer counts 1193180 times a second and divides this by a number of 16 bits.  `setFrequence` has
a lower bound for the frequency, but the assignment behind the test sets the frequency in any case.
`_yield` computes a frequency from milliseconds when there is no local APIC.

The lock is left out, since nothing else is done while it is held.
-/

namespace TurbOS.Time

/-- The variable `frequence`, and the bytes that were written to the ports. -/
structure Pit where
  frequence : UInt64
  ports : List (UInt16 × UInt8) := []

/-- `outb`. -/
def Pit.outb (s : Pit) (port : UInt16) (value : UInt8) : Pit :=
  { s with ports := s.ports ++ [(port, value)] }

/-- `setFrequence`; a division by zero is a fault. -/
def setFrequence (f : UInt64) (s : Pit) : Option Pit :=
  let s := if f < 19 then { s with frequence := 19 } else s
  let s := { s with frequence := f }
  if s.frequence = 0 then none
  else
    let div : UInt64 := 1193180 / s.frequence
    some (((s.outb 0x43 0x36).outb 0x40 div.toUInt8).outb 0x40 (div >>> 8).toUInt8)

/-- `MS_TO_PIT`. -/
def MS_TO_PIT (ms : UInt64) : Option UInt64 := if ms = 0 then none else some (100 / ms)

/-- `_yield` when there is no local APIC. -/
def yieldPit (ms : UInt64) (s : Pit) : Option Pit := (MS_TO_PIT ms).bind fun f => setFrequence f s

/-- The call ends without a fault, the frequency that is stored is at least `19`, and the divisor
that is sent belongs to it and has 16 bits. -/
def Legal (call : Pit → Option Pit) (s : Pit) : Prop :=
  ∃ s' low high, call s = some s' ∧ 19 ≤ s'.frequence.toNat ∧
    s'.ports = s.ports ++ [(0x43, 0x36), (0x40, low), (0x40, high)] ∧
    low.toNat + 256 * high.toNat = 1193180 / s'.frequence.toNat ∧
    1 ≤ low.toNat + 256 * high.toNat ∧ low.toNat + 256 * high.toNat ≤ 65535

variable {f ms : UInt64} {s : Pit}

/-- The frequency that is stored is the one that was asked for. -/
lemma setFrequence_eq (hf : f ≠ 0) (s : Pit) : setFrequence f s =
    some (((Pit.outb { s with frequence := f } 0x43 0x36).outb 0x40
      ((1193180 : UInt64) / f).toUInt8).outb 0x40 (((1193180 : UInt64) / f) >>> 8).toUInt8) := by
  rw [setFrequence]
  by_cases hless : f < 19
  · simp [hless, hf]
  · simp [hless, hf]

/-- What is written to the ports comes behind what was written before. -/
lemma ports_outb (s : Pit) (low high : UInt8) :
    (((s.outb 0x43 0x36).outb 0x40 low).outb 0x40 high).ports =
      s.ports ++ [(0x43, 0x36), (0x40, low), (0x40, high)] := by
  simp [Pit.outb]

/-- The two bytes of a divisor. -/
lemma bytes_of_divisor (div : UInt64) :
    div.toUInt8.toNat + 256 * (div >>> 8).toUInt8.toNat = div.toNat % 65536 := by
  have hshift : (div >>> 8).toNat = div.toNat / 256 := by
    rw [UInt64.toNat_shiftRight]
    exact Nat.shiftRight_eq_div_pow _ 8
  rw [UInt64.toNat_toUInt8, UInt64.toNat_toUInt8, hshift]
  omega

lemma setFrequence_legal_iff (f : UInt64) (s : Pit) :
    Legal (setFrequence f) s ↔ 19 ≤ f.toNat ∧ f.toNat ≤ 1193180 := by
  have hclock : (1193180 : UInt64).toNat = 1193180 := rfl
  constructor
  · rintro ⟨s', low, high, hs', hleast, -, hdivisor, hpos, -⟩
    have hf : f ≠ 0 := by
      rintro rfl
      simp [setFrequence] at hs'
    rw [setFrequence_eq hf, Option.some.injEq] at hs'
    subst hs'
    refine ⟨hleast, ?_⟩
    rw [hdivisor] at hpos
    by_contra hlarge
    have hfrequence : 1193180 < f.toNat := by simpa using hlarge
    change 1 ≤ 1193180 / f.toNat at hpos
    rw [Nat.div_eq_of_lt hfrequence] at hpos
    omega
  · rintro ⟨hleast, hmost⟩
    have hf : f ≠ 0 := by
      rintro rfl
      simp at hleast
    have hdiv : (1193180 / f).toNat = 1193180 / f.toNat := by rw [UInt64.toNat_div, hclock]
    have hle : 1193180 / f.toNat ≤ 62798 := Nat.div_le_div_left hleast (by norm_num)
    have hpos : 1 ≤ 1193180 / f.toNat := Nat.div_pos hmost (by omega)
    have hbytes := bytes_of_divisor (1193180 / f)
    rw [hdiv, Nat.mod_eq_of_lt (by omega)] at hbytes
    exact ⟨_, _, _, setFrequence_eq hf s, hleast, ports_outb _ _ _, hbytes, by omega, by omega⟩

/-! ## The main result -/

/-- **When the divisor is legal.**  For every argument of `setFrequence`: exactly from `19` to
`1193180`.  For every argument of `_yield`: exactly from one to five milliseconds. -/
theorem divisor_legal_iff (s : Pit) :
    (∀ f, Legal (setFrequence f) s ↔ 19 ≤ f.toNat ∧ f.toNat ≤ 1193180) ∧
      ∀ ms, Legal (yieldPit ms) s ↔ 1 ≤ ms.toNat ∧ ms.toNat ≤ 5 := by
  refine ⟨fun f => setFrequence_legal_iff f s, fun ms => ?_⟩
  by_cases hzero : ms = 0
  · subst hzero
    constructor
    · rintro ⟨s', low, high, hs', -⟩
      simp [yieldPit, MS_TO_PIT] at hs'
    · intro h
      simp at h
  · have hpos : ms.toNat ≠ 0 := fun h => hzero (UInt64.toNat_inj.mp h)
    have hcall : yieldPit ms = setFrequence (100 / ms) := by
      funext s
      rw [yieldPit, MS_TO_PIT, if_neg hzero, Option.bind_some]
    have hundred : (100 : UInt64).toNat = 100 := rfl
    rw [hcall, setFrequence_legal_iff, UInt64.toNat_div, hundred, Nat.le_div_iff_mul_le (by omega)]
    have hle : 100 / ms.toNat ≤ 100 := Nat.div_le_self _ _
    omega

/-- A frequency below the bound is stored as it is; zero is divided by; a large one has the divisor
zero; and six milliseconds ask for a frequency below the bound. -/
theorem divisor_illegal :
    ((setFrequence 18 ⟨100, []⟩).map Pit.frequence = some 18 ∧
      ¬ Legal (setFrequence 18) ⟨100, []⟩) ∧ (setFrequence 0 ⟨100, []⟩).isNone ∧
      (setFrequence 1193181 ⟨100, []⟩).map Pit.ports = some [(0x43, 0x36), (0x40, 0), (0x40, 0)] ∧
      (yieldPit 6 ⟨100, []⟩).map Pit.frequence = some 16 ∧ ¬ Legal (yieldPit 6) ⟨100, []⟩ ∧
      (yieldPit 0 ⟨100, []⟩).isNone := by
  have hstored : (setFrequence 18 ⟨100, []⟩).map Pit.frequence = some 18 := by decide
  have hyield : (yieldPit 6 ⟨100, []⟩).map Pit.frequence = some 16 := by decide
  refine ⟨⟨hstored, ?_⟩, by decide, by decide, hyield, ?_, by decide⟩
  · rintro ⟨s', low, high, hs', hleast, -⟩
    rw [hs', Option.map_some, Option.some.injEq] at hstored
    rw [hstored] at hleast
    exact absurd hleast (by decide)
  · rintro ⟨s', low, high, hs', hleast, -⟩
    rw [hs', Option.map_some, Option.some.injEq] at hyield
    rw [hyield] at hleast
    exact absurd hleast (by decide)

end TurbOS.Time
