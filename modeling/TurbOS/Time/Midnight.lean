import TurbOS.Lib.Waiting
import TurbOS.Time.Rtc

/-!
# Sleeping over midnight

`sleep` adds the seconds to the time of day and waits until the clock shows this number.  The clock
begins again at midnight, so a number from the next day on is never shown.
-/

open Waiting

namespace TurbOS.Time

/-- `sleep`, where `clock n` are the registers `n` seconds after the call and `e` the seconds that
have passed at each reading; the result is how many have passed at the end. -/
def Rtc.sleep (clock : ℕ → Rtc) (e : ℕ → ℕ) (fuel : ℕ) (seconds : UInt64) : Option ℕ :=
  let timeWanted := (clock (e 0)).time + seconds
  wait (fun n => (clock n).time = timeWanted) e fuel

/-- The clock runs from the second `start` of the day on, one second at a time, and begins again at
midnight. -/
structure Runs (clock : ℕ → Rtc) (start : ℕ) : Prop where
  start_lt : start < 86400
  shows : ∀ n, ∃ t, ShowsTime (clock n) t ∧ t.seconds = (start + n) % 86400

/-- The call ends when the seconds have passed: the time is the one that is wanted then and not
before, and the loop ends, however often the clock is read. -/
structure OnTime (clock : ℕ → Rtc) (seconds : UInt64) : Prop where
  wanted : (clock seconds.toNat).time = (clock 0).time + seconds
  first : ∀ n < seconds.toNat, (clock n).time ≠ (clock 0).time + seconds
  ends : ∀ e, Readings e →
    ∃ enough, ∀ fuel ≥ enough, Rtc.sleep clock e fuel seconds = some seconds.toNat

variable {clock : ℕ → Rtc} {start : ℕ} {seconds : UInt64} {e : ℕ → ℕ}

lemma Runs.toNat_time (h : Runs clock start) (n : ℕ) :
    (clock n).time.toNat = (start + n) % 86400 := by
  obtain ⟨t, ht, heq⟩ := h.shows n
  rw [Time.toNat_time ht, heq]

/-- The clock shows the time that is wanted. -/
lemma Runs.time_eq_iff (h : Runs clock start) (n : ℕ) :
    (clock n).time = (clock 0).time + seconds ↔
      (start + n) % 86400 = (start + seconds.toNat) % 2 ^ 64 := by
  have hlt := h.start_lt
  rw [← UInt64.toNat_inj, UInt64.toNat_add, h.toNat_time, h.toNat_time, Nat.add_zero,
    Nat.mod_eq_of_lt hlt]

/-- A sum that wraps around is a time that the clock shows on the next day. -/
lemma shown_before {s : ℕ} (hstart : start < 86400) (hs : s < 2 ^ 64) (hwrap : 2 ^ 64 ≤ start + s) :
    ∃ n < s, (start + n) % 86400 = (start + s) % 2 ^ 64 :=
  ⟨86400 - start + (start + s - 2 ^ 64), by omega, by omega⟩

/-- A number of seconds from the next day on is never shown. -/
lemma sleep_never (h : Runs clock start) (he : Readings e) (hday : 86400 ≤ start + seconds.toNat)
    (hwrap : start + seconds.toNat < 2 ^ 64) (fuel : ℕ) :
    Rtc.sleep clock e fuel seconds = none := by
  rw [Rtc.sleep, he.start]
  refine wait_never e (fun n => ?_) fuel
  rw [decide_eq_false_iff_not, h.time_eq_iff, Nat.mod_eq_of_lt hwrap]
  omega

/-! ## The main result -/

/-- **When `sleep` ends in time.**  Exactly if the seconds end on the same day. -/
theorem sleep_onTime_iff (h : Runs clock start) (seconds : UInt64) :
    OnTime clock seconds ↔ start + seconds.toNat < 86400 := by
  have hlt := h.start_lt
  have hword := seconds.toNat_lt
  constructor
  · rintro ⟨hwanted, hfirst, -⟩
    rw [h.time_eq_iff] at hwanted
    by_contra hday
    have hwrap : 2 ^ 64 ≤ start + seconds.toNat := by
      by_contra hno
      have hsmall : start + seconds.toNat < 2 ^ 64 := by omega
      rw [Nat.mod_eq_of_lt hsmall] at hwanted
      omega
    obtain ⟨n, hn, hshown⟩ := shown_before hlt hword hwrap
    exact hfirst n hn ((h.time_eq_iff n).mpr hshown)
  · intro hday
    have hleast : IsLeast {n | decide ((clock n).time = (clock 0).time + seconds) = true}
        seconds.toNat := by
      refine ⟨decide_eq_true ?_, fun n hn => ?_⟩
      · rw [h.time_eq_iff]
        omega
      · have heq := (h.time_eq_iff n).mp (of_decide_eq_true hn)
        by_contra hbefore
        omega
    refine ⟨of_decide_eq_true hleast.1, fun n hn heq => ?_, fun e he => ?_⟩
    · have hle := hleast.2 (decide_eq_true heq)
      omega
    · obtain ⟨enough, hends⟩ := wait_ends he hleast
      refine ⟨enough, fun fuel hfuel => ?_⟩
      rw [Rtc.sleep, he.start]
      exact hends fuel hfuel

/-- The time of day after some seconds. -/
def TimeOfDay.ofSeconds (n : ℕ) (h : n < 86400) : TimeOfDay where
  hour := n / 3600
  minute := n / 60 % 60
  second := n % 60
  hour_lt := by omega
  minute_lt := by omega
  second_lt := by omega

/-- A clock that runs from the second `start` of the day on. -/
def running (start n : ℕ) : Rtc :=
  let t := TimeOfDay.ofSeconds ((start + n) % 86400) (Nat.mod_lt _ (by norm_num))
  { cmos := fun reg =>
      if reg = 0x04 then bcd t.hour else if reg = 0x02 then bcd t.minute else bcd t.second
    Century := none }

lemma running_runs {start : ℕ} (h : start < 86400) : Runs (running start) start := by
  refine ⟨h, fun n => ⟨.ofSeconds ((start + n) % 86400) (Nat.mod_lt _ (by norm_num)),
    ⟨rfl, rfl, rfl⟩, ?_⟩⟩
  simp only [TimeOfDay.seconds, TimeOfDay.ofSeconds]
  omega

/-- A minute at noon. -/
theorem sleep_onTime_noon : OnTime (running 43200) 60 :=
  (sleep_onTime_iff (running_runs (by norm_num)) 60).mpr (by decide)

/-- A second before midnight `sleep(1)` never ends. -/
theorem sleep_midnight :
    Runs (running 86399) 86399 ∧
      (∀ e fuel, Readings e → Rtc.sleep (running 86399) e fuel 1 = none) ∧
        ¬ OnTime (running 86399) 1 := by
  have hruns : Runs (running 86399) 86399 := running_runs (by norm_num)
  have hnever : ∀ e fuel, Readings e → Rtc.sleep (running 86399) e fuel 1 = none := fun e fuel he =>
    sleep_never hruns he (by decide) (by decide) fuel
  refine ⟨hruns, hnever, fun h => ?_⟩
  obtain ⟨enough, hends⟩ := h.ends _ .id
  have hreturns := hends enough le_rfl
  rw [hnever _ _ .id] at hreturns
  simp at hreturns

end TurbOS.Time
