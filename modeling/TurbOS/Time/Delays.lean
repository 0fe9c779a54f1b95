import TurbOS.Lib.Waiting

/-!
# Short waits

`pit::mSleep` counts ticks of the interval timer and the functions of the HPET count its counter.
Both compare with a target that is computed in 64 bits, so a sum or a product that wraps around ends
the wait at once or too early.

A millisecond is taken for the hundredth part of a second by the first one and for ten thousand
microseconds by the second one, so the waits are ten times longer than they should be unless the
divisions round them down to nothing.
-/

open Waiting

namespace TurbOS.Time

/-! ## The functions -/

/-- Wait while the counter, which shows `now` at the call, is below the target. -/
def waitUntil (now target : UInt64) : (ℕ → ℕ) → ℕ → Option ℕ :=
  wait fun n => ¬ now + UInt64.ofNat n < target

/-- `pit::mSleep`; `tick` is what the counter shows at the call. -/
def pitMSleep (tick frequence ms : UInt64) : (ℕ → ℕ) → ℕ → Option ℕ :=
  waitUntil tick (tick + ms * (frequence / 100))

/-- `hpet::uSleep`; `counter` is what the counter shows at the call.  A division by zero is a
fault. -/
def uSleep (counter : UInt64) (clock : UInt32) (uSeconds : UInt64) : (ℕ → ℕ) → ℕ → Option ℕ :=
  if clock = 0 then fun _ _ => none
  else waitUntil counter (counter + uSeconds * 1000000000 / clock.toUInt64)

/-- `MSEC_TO_US`. -/
def MSEC_TO_US (num : UInt64) : UInt64 := num * 10000

/-- `SEC_TO_US`. -/
def SEC_TO_US (num : UInt64) : UInt64 := num * 1000000

/-- `hpet::mSleep`. -/
def mSleep (counter : UInt64) (clock : UInt32) (mSeconds : UInt64) : (ℕ → ℕ) → ℕ → Option ℕ :=
  uSleep counter clock (MSEC_TO_US mSeconds)

/-- `hpet::sleep`. -/
def sleep (counter : UInt64) (clock : UInt32) (seconds : UInt64) : (ℕ → ℕ) → ℕ → Option ℕ :=
  uSleep counter clock (SEC_TO_US seconds)

/-! ## The number of counts -/

/-- The counts up to the target; a target that wraps around is below the counter. -/
def counts (now delay : ℕ) : ℕ := if now + delay < 2 ^ 64 then delay else 0

lemma counts_eq {now delay : ℕ} (hnow : now < 2 ^ 64) (hdelay : delay < 2 ^ 64) :
    (now + delay) % 2 ^ 64 - now = counts now delay := by
  rw [counts]
  split <;> omega

/-- The first count at which the counter is not below the target. -/
lemma isLeast_waitUntil (now target : UInt64) :
    IsLeast {n | decide (¬ now + UInt64.ofNat n < target) = true} (target.toNat - now.toNat) := by
  have hnow := now.toNat_lt
  have htarget := target.toNat_lt
  have hiff : ∀ n, (decide (¬ now + UInt64.ofNat n < target) = true) ↔
      target.toNat ≤ (now.toNat + n % 2 ^ 64) % 2 ^ 64 := fun n => by
    rw [decide_eq_true_iff, UInt64.not_lt, UInt64.le_iff_toNat_le, UInt64.toNat_add,
      UInt64.toNat_ofNat']
  constructor
  · refine (hiff _).mpr ?_
    generalize now.toNat = a at hnow
    generalize target.toNat = b at htarget
    omega
  · intro n hn
    have hle := (hiff n).mp hn
    generalize now.toNat = a at hnow hle
    generalize target.toNat = b at htarget hle
    by_contra hlt
    omega

/-- A delay is as long as the counts that it asks for, unless its end wraps around. -/
lemma lasts_waitUntil_iff (now delay : UInt64) (P : ℕ → Prop) :
    Lasts (waitUntil now (now + delay)) P ↔ P (counts now.toNat delay.toNat) := by
  rw [waitUntil, lasts_wait_iff (isLeast_waitUntil _ _), UInt64.toNat_add,
    counts_eq now.toNat_lt delay.toNat_lt]

/-! ## What is long enough -/

/-- A number of ticks of a timer of this frequency lasts the milliseconds. -/
def TicksLast (frequence ms n : ℕ) : Prop := ms * frequence ≤ 1000 * n

/-- A number of counts of this many femtoseconds lasts the femtoseconds. -/
def CountsLast (clock fs n : ℕ) : Prop := fs ≤ n * clock

/-- `pit::mSleep` is long enough: the timer has at least a hundred ticks a second, the end of the
wait does not wrap around, and the product wraps around so seldom that the factor ten makes up for
it. -/
def PitFits (tick frequence ms : ℕ) : Prop :=
  ms = 0 ∨ 100 ≤ frequence ∧ tick + ms * (frequence / 100) % 2 ^ 64 < 2 ^ 64 ∧
    1000 * (2 ^ 64 * (ms * (frequence / 100) / 2 ^ 64)) ≤ ms *
      (1000 * (frequence / 100) - frequence)

/-- A wait for these femtoseconds is long enough: nothing wraps around, and they are a whole number
of counts. -/
def HpetFits (counter clock fs : ℕ) : Prop :=
  fs = 0 ∨ fs < 2 ^ 64 ∧ clock ∣ fs ∧ counter + fs / clock < 2 ^ 64

/-- `hpet::mSleep` is long enough: the end of the wait does not wrap around, and the product wraps
around so seldom, and the rest of the division is so small, that the factor ten makes up for it. -/
def HpetMillisecondsFit (counter clock ms : ℕ) : Prop :=
  ms = 0 ∨ counter + ms * 10 ^ 13 % 2 ^ 64 / clock < 2 ^ 64 ∧
    2 ^ 64 * (ms * 10 ^ 13 / 2 ^ 64) + ms * 10 ^ 13 % 2 ^ 64 % clock ≤ 9 * 10 ^ 12 * ms

lemma ticksLast_iff {tick frequence ms : ℕ} (hf : 19 ≤ frequence) :
    TicksLast frequence ms (counts tick (ms * (frequence / 100) % 2 ^ 64)) ↔
      PitFits tick frequence ms := by
  rw [TicksLast, PitFits, counts]
  have hnothing : ms * frequence ≤ 0 ↔ ms = 0 := by
    rw [Nat.le_zero, Nat.mul_eq_zero]
    omega
  split
  · rename_i hend
    by_cases hhundred : 100 ≤ frequence
    · -- the excess of the factor ten
      have hexcess : ms * (1000 * (frequence / 100) - frequence) + ms * frequence =
          1000 * (ms * (frequence / 100)) := by
        rw [← Nat.mul_add, Nat.sub_add_cancel (by omega)]
        ring
      have hsplit := Nat.div_add_mod (ms * (frequence / 100)) (2 ^ 64)
      constructor
      · intro h
        exact .inr ⟨hhundred, hend, by omega⟩
      · rintro (hzero | ⟨-, -, h⟩)
        · rw [hzero, Nat.zero_mul]
          exact Nat.zero_le _
        · omega
    · rw [Nat.div_eq_of_lt (by omega), Nat.mul_zero, Nat.zero_mod, Nat.mul_zero, hnothing]
      exact ⟨.inl, fun h => h.resolve_right fun h => hhundred h.1⟩
  · rename_i hend
    rw [Nat.mul_zero, hnothing]
    exact ⟨.inl, fun h => h.resolve_right fun h => hend h.2.1⟩

/-- The counts are enough if the end does not wrap around and the division leaves enough. -/
lemma countsLast_iff {counter clock fs x : ℕ} :
    CountsLast clock fs (counts counter (x / clock)) ↔
      fs = 0 ∨ counter + x / clock < 2 ^ 64 ∧ fs ≤ x / clock * clock := by
  rw [CountsLast, counts]
  split
  · rename_i hend
    constructor
    · intro h
      exact .inr ⟨hend, h⟩
    · rintro (rfl | h)
      · exact Nat.zero_le _
      · exact h.2
  · rename_i hend
    rw [Nat.zero_mul, Nat.le_zero]
    exact ⟨.inl, fun h => h.resolve_right fun h => hend h.1⟩

lemma hpetFits_iff {counter clock fs : ℕ} :
    CountsLast clock fs (counts counter (fs % 2 ^ 64 / clock)) ↔ HpetFits counter clock fs := by
  rw [countsLast_iff, HpetFits]
  refine or_congr_right ⟨?_, ?_⟩
  · rintro ⟨hend, hle⟩
    have hdivision := Nat.div_mul_le_self (fs % 2 ^ 64) clock
    have hmod := Nat.mod_le fs (2 ^ 64)
    have hlt : fs < 2 ^ 64 := by
      have := Nat.mod_lt fs (show 0 < 2 ^ 64 by norm_num)
      omega
    rw [Nat.mod_eq_of_lt hlt] at hend hle hdivision
    exact ⟨hlt, Dvd.intro_left _ (le_antisymm hdivision hle), hend⟩
  · rintro ⟨hlt, hdvd, hend⟩
    rw [Nat.mod_eq_of_lt hlt]
    exact ⟨hend, (Nat.div_mul_cancel hdvd).ge⟩

lemma hpetMillisecondsFit_iff {counter clock ms : ℕ} :
    CountsLast clock (ms * 10 ^ 12) (counts counter (ms * 10 ^ 13 % 2 ^ 64 / clock)) ↔
      HpetMillisecondsFit counter clock ms := by
  have hzero : ms * 10 ^ 12 = 0 ↔ ms = 0 := by omega
  have hwrapped := Nat.div_add_mod (ms * 10 ^ 13) (2 ^ 64)
  have hdivision := Nat.div_add_mod' (ms * 10 ^ 13 % 2 ^ 64) clock
  rw [countsLast_iff, HpetMillisecondsFit, hzero]
  refine or_congr_right (and_congr_right fun _ => ?_)
  omega

/-! ## The main result -/

variable {tick frequence ms counter uSeconds mSeconds seconds : UInt64} {clock : UInt32}

lemma lasts_uSleep_iff (hclock : clock ≠ 0) (P : ℕ → Prop) :
    Lasts (uSleep counter clock uSeconds) P ↔
      P (counts counter.toNat (uSeconds.toNat * 10 ^ 9 % 2 ^ 64 / clock.toNat)) := by
  have hbillion : (1000000000 : UInt64).toNat = 10 ^ 9 := rfl
  rw [uSleep, if_neg hclock, lasts_waitUntil_iff, UInt64.toNat_div, UInt64.toNat_mul, hbillion,
    UInt32.toNat_toUInt64]

/-- **Which waits are long enough.**  For every frequency that the timer can have and every period
of the counter, the number of ticks or counts that a call waits for is at least the time that was
asked for exactly under the condition on its right. -/
theorem waits_last_iff (hf : 19 ≤ frequence.toNat) (hclock : clock ≠ 0)
    (tick counter ms uSeconds mSeconds seconds : UInt64) :
    (Lasts (pitMSleep tick frequence ms) (TicksLast frequence.toNat ms.toNat) ↔
      PitFits tick.toNat frequence.toNat ms.toNat) ∧
    (Lasts (uSleep counter clock uSeconds) (CountsLast clock.toNat (uSeconds.toNat * 10 ^ 9)) ↔
      HpetFits counter.toNat clock.toNat (uSeconds.toNat * 10 ^ 9)) ∧
    (Lasts (mSleep counter clock mSeconds) (CountsLast clock.toNat (mSeconds.toNat * 10 ^ 12)) ↔
      HpetMillisecondsFit counter.toNat clock.toNat mSeconds.toNat) ∧
    (Lasts (sleep counter clock seconds) (CountsLast clock.toNat (seconds.toNat * 10 ^ 15)) ↔
      HpetFits counter.toNat clock.toNat (seconds.toNat * 10 ^ 15)) := by
  refine ⟨?_, ?_, ?_, ?_⟩
  · have hhundred : (100 : UInt64).toNat = 100 := rfl
    rw [pitMSleep, lasts_waitUntil_iff, UInt64.toNat_mul, UInt64.toNat_div, hhundred,
      ticksLast_iff hf]
  · rw [lasts_uSleep_iff hclock, hpetFits_iff]
  · have hunit : (MSEC_TO_US mSeconds).toNat * 10 ^ 9 % 2 ^ 64 = mSeconds.toNat *
        10 ^ 13 % 2 ^ 64 := by
      have hten : (10000 : UInt64).toNat = 10 ^ 4 := rfl
      rw [MSEC_TO_US, UInt64.toNat_mul, hten, Nat.mod_mul_mod]
      ring_nf
    rw [mSleep, lasts_uSleep_iff hclock, hunit, hpetMillisecondsFit_iff]
  · have hunit : (SEC_TO_US seconds).toNat * 10 ^ 9 % 2 ^ 64 = seconds.toNat *
        10 ^ 15 % 2 ^ 64 := by
      have hmillion : (1000000 : UInt64).toNat = 10 ^ 6 := rfl
      rw [SEC_TO_US, UInt64.toNat_mul, hmillion, Nat.mod_mul_mod]
      ring_nf
    rw [sleep, lasts_uSleep_iff hclock, hunit, hpetFits_iff]

/-- A timer with a hundred ticks a second and a counter with ten million counts. -/
theorem waits_last_ten :
    Lasts (pitMSleep 0 100 10) (TicksLast 100 10) ∧
      Lasts (uSleep 0 100000000 10) (CountsLast 100000000 (10 * 10 ^ 9)) ∧
      Lasts (mSleep 0 100000000 10) (CountsLast 100000000 (10 * 10 ^ 12)) ∧
      Lasts (sleep 0 100000000 10) (CountsLast 100000000 (10 * 10 ^ 15)) := by
  have hf : 19 ≤ (100 : UInt64).toNat := by decide
  have hclock : (100000000 : UInt32) ≠ 0 := by decide
  obtain ⟨hpit, hmicro, hmilli, hsec⟩ := waits_last_iff hf hclock 0 0 10 10 10 10
  refine ⟨hpit.mpr (.inr ⟨by decide, by decide, by decide⟩),
    hmicro.mpr (.inr ⟨by decide, ?_, by decide⟩),
    hmilli.mpr (.inr ⟨by decide, by decide⟩), hsec.mpr (.inr ⟨by decide, ?_, by decide⟩)⟩
  · exact Nat.dvd_of_mod_eq_zero (by decide)
  · exact Nat.dvd_of_mod_eq_zero (by decide)

/-- With fifty ticks a second nothing is waited for; a microsecond is rounded down to fourteen
counts of a usual counter; and twenty thousand seconds wrap around. -/
theorem waits_too_short :
    ¬ Lasts (pitMSleep 0 50 1000) (TicksLast 50 1000) ∧
      ¬ Lasts (uSleep 0 69841279 1) (CountsLast 69841279 (1 * 10 ^ 9)) ∧
      ¬ Lasts (sleep 0 69841279 20000) (CountsLast 69841279 (20000 * 10 ^ 15)) := by
  refine ⟨fun h => ?_, fun h => ?_, fun h => ?_⟩
  · have hticks := (lasts_waitUntil_iff _ _ _).mp h
    exact absurd hticks (by unfold TicksLast; decide)
  · have hcounts := (lasts_uSleep_iff (by decide) _).mp h
    exact absurd hcounts (by unfold CountsLast; decide)
  · have hcounts := (lasts_uSleep_iff (by decide) _).mp h
    exact absurd hcounts (by unfold CountsLast; decide)

end TurbOS.Time
