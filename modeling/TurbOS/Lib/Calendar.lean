import Mathlib

/-!
# Days of the Gregorian calendar

The days between two dates are counted by the lengths of the years and of the months between them.
Years come in periods of four hundred, so there is also a closed form.
-/

namespace Calendar

/-- Every fourth year is a leap year, except three centuries out of four. -/
def IsLeap (year : ℕ) : Prop := 4 ∣ year ∧ (¬ 100 ∣ year ∨ 400 ∣ year)

instance (year : ℕ) : Decidable (IsLeap year) := inferInstanceAs (Decidable (_ ∧ _))

/-- The number of days of a year. -/
def yearLength (year : ℕ) : ℕ := if IsLeap year then 366 else 365

/-- The number of days of a month. -/
def monthLength (year month : ℕ) : ℕ :=
  match month with
  | 2 => if IsLeap year then 29 else 28
  | 4 | 6 | 9 | 11 => 30
  | _ => 31

/-- A date. -/
structure Date where
  year : ℕ
  month : ℕ
  day : ℕ
  month_pos : 1 ≤ month
  month_le : month ≤ 12
  day_pos : 1 ≤ day
  day_le : day ≤ monthLength year month

lemma monthLength_le (year month : ℕ) : monthLength year month ≤ 31 := by
  unfold monthLength
  split
  · split <;> omega
  all_goals omega

/-- The days from the beginning of the year `origin` to the date. -/
def Date.daysFrom (date : Date) (origin : ℕ) : ℕ :=
  (∑ year ∈ Finset.Ico origin date.year, yearLength year) +
    (∑ month ∈ Finset.Ico 1 date.month, monthLength date.year month) + (date.day - 1)

/-- The number of leap years before a year. -/
def leapsBefore (year : ℕ) : ℕ := (year - 1) / 4 - (year - 1) / 100 + (year - 1) / 400

lemma leapsBefore_succ {year : ℕ} (h : 1 ≤ year) :
    leapsBefore (year + 1) + 365 = leapsBefore year + yearLength year := by
  obtain ⟨n, rfl⟩ : ∃ n, year = n + 1 := ⟨year - 1, by omega⟩
  have hcentury : n / 100 ≤ n / 4 := Nat.div_le_div_left (by norm_num) (by norm_num)
  have h400 : 400 ∣ n + 1 → 100 ∣ n + 1 := (Nat.dvd_trans (by norm_num) ·)
  have h100 : 100 ∣ n + 1 → 4 ∣ n + 1 := (Nat.dvd_trans (by norm_num) ·)
  rw [leapsBefore, leapsBefore, yearLength, Nat.add_sub_cancel, Nat.add_sub_cancel, Nat.succ_div,
    Nat.succ_div, Nat.succ_div]
  by_cases hfour : 4 ∣ n + 1
  · rw [if_pos hfour]
    by_cases hhundred : 100 ∣ n + 1
    · rw [if_pos hhundred]
      by_cases hall : 400 ∣ n + 1
      · rw [if_pos hall, if_pos ⟨hfour, .inr hall⟩]
        omega
      · rw [if_neg hall, if_neg fun h => h.2.elim (· hhundred) hall]
        omega
    · rw [if_neg hhundred, if_neg fun h => hhundred (h400 h), if_pos ⟨hfour, .inl hhundred⟩]
      omega
  · have hhundred : ¬ 100 ∣ n + 1 := fun h => hfour (h100 h)
    rw [if_neg hfour, if_neg hhundred, if_neg fun h => hhundred (h400 h), if_neg fun h => hfour h.1]
    omega

/-- The days of the years in closed form. -/
lemma sum_yearLength {origin year : ℕ} (hpos : 1 ≤ origin) (hle : origin ≤ year) :
    (∑ y ∈ Finset.Ico origin year, yearLength y) + leapsBefore origin =
      365 * (year - origin) + leapsBefore year := by
  induction year, hle using Nat.le_induction with
  | base => simp
  | succ year hle ih =>
    rw [Finset.sum_Ico_succ_top hle]
    have hnext := leapsBefore_succ (hpos.trans hle)
    omega

/-- The days of the months in front of a month, of a year without a leap day. -/
def daysBefore (month : ℕ) : ℕ :=
  match month with
  | 1 => 0
  | 2 => 31
  | 3 => 59
  | 4 => 90
  | 5 => 120
  | 6 => 151
  | 7 => 181
  | 8 => 212
  | 9 => 243
  | 10 => 273
  | 11 => 304
  | _ => 334

lemma sum_monthLength {month : ℕ} (year : ℕ) (hpos : 1 ≤ month) (hle : month ≤ 12) :
    ∑ m ∈ Finset.Ico 1 month, monthLength year m =
      daysBefore month + if 2 < month ∧ IsLeap year then 1 else 0 := by
  by_cases hleap : IsLeap year <;> interval_cases month <;>
    simp [Finset.sum_Ico_succ_top, monthLength, daysBefore, hleap]

end Calendar
