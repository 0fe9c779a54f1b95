import TurbOS.Time.Rtc

/-!
# Seconds since 1970

The formula of `dateToJulianDateDay` in plain numbers, and the dates for which `epoch` is the Unix
time.
-/

open Calendar

namespace TurbOS.Time

/-! ## The formula in 64 bits -/

/-- The months in which the twelfth part of `months - 14`, which wraps around, is greater by one. -/
def late (month : ℕ) : ℕ := if month ≤ 9 then 0 else 1

/-- The days that the formula counts for the month. -/
def monthTerm (month : ℕ) : ℕ :=
  match month with
  | 1 => 458
  | 2 => 489
  | 3 => 519
  | 4 => 550
  | 5 => 581
  | 6 => 611
  | 7 => 642
  | 8 => 672
  | 9 => 703
  | 10 => 367
  | 11 => 397
  | _ => 428

lemma late_le (month : ℕ) : late month ≤ 1 := by
  rw [late]
  split <;> omega

lemma monthTerm_le (month : ℕ) : monthTerm month ≤ 703 := by
  unfold monthTerm
  split <;> omega

variable {days months years q : UInt64} {i : ℕ}

lemma toNat_months (hpos : 1 ≤ months.toNat) (hle : months.toNat ≤ 12) :
    ((months - 14) / 12).toNat = 1537228672809129300 + late months.toNat ∧
      ((367 * (months - 2 - 12 * ((months - 14) / 12))) / 12).toNat = monthTerm months.toNat := by
  obtain ⟨n, hn⟩ : ∃ n, n = months.toNat := ⟨_, rfl⟩
  have hmonths : months = UInt64.ofNat n := by rw [hn, UInt64.ofNat_toNat]
  rw [← hn] at hpos hle ⊢
  rw [hmonths]
  interval_cases n <;> decide

/-- The days that the formula counts for the years. -/
lemma toNat_yearTerm (hyears : years.toNat ≤ 9999) (hq : q.toNat = 1537228672809129300 + i)
    (hi : i ≤ 1) :
    ((1461 * (years + 4800 + q)) / 4).toNat = 3458764513822293641 + 1461 *
      (years.toNat + i) / 4 := by
  have h1461 : (1461 : UInt64).toNat = 1461 := rfl
  have h4800 : (4800 : UInt64).toNat = 4800 := rfl
  have h4 : (4 : UInt64).toNat = 4 := rfl
  have hsum : (years + 4800 + q).toNat = years.toNat + i + 1537228672809134100 := by
    rw [UInt64.toNat_add, UInt64.toNat_add, hq, h4800]
    omega
  rw [UInt64.toNat_div, UInt64.toNat_mul, hsum, h1461, h4]
  omega

/-- The days that the formula takes off for the centuries. -/
lemma toNat_centuryTerm (hyears : years.toNat ≤ 9999) (hq : q.toNat = 1537228672809129300 + i)
    (hi : i ≤ 1) :
    ((3 * ((years + 4900 + q) / 100)) / 4).toNat =
      (46116860184274026 + 3 * ((years.toNat + i) / 100)) / 4 := by
  have h3 : (3 : UInt64).toNat = 3 := rfl
  have h4900 : (4900 : UInt64).toNat = 4900 := rfl
  have h100 : (100 : UInt64).toNat = 100 := rfl
  have h4 : (4 : UInt64).toNat = 4 := rfl
  have hsum : (years + 4900 + q).toNat = years.toNat + i + 1537228672809134200 := by
    rw [UInt64.toNat_add, UInt64.toNat_add, hq, h4900]
    omega
  rw [UInt64.toNat_div, UInt64.toNat_mul, UInt64.toNat_div, hsum, h3, h100, h4]
  omega

/-- The whole formula. -/
lemma toNat_dateToJulianDateDay (hdays : days.toNat ≤ 31) (hpos : 1 ≤ months.toNat)
    (hle : months.toNat ≤ 12) (hyears : years.toNat ≤ 9999) :
    (dateToJulianDateDay days months years).toNat + 32075 +
        (46116860184274026 + 3 * ((years.toNat + late months.toNat) / 100)) / 4 =
      3458764513822293641 + 1461 * (years.toNat + late months.toNat) / 4 + monthTerm months.toNat +
        days.toNat := by
  obtain ⟨htwelfth, hterm⟩ := toNat_months hpos hle
  have hlate := late_le months.toNat
  have hmonth := monthTerm_le months.toNat
  have h32075 : (32075 : UInt64).toNat = 32075 := rfl
  have hyear := toNat_yearTerm hyears htwelfth hlate
  have hcentury := toNat_centuryTerm hyears htwelfth hlate
  rw [dateToJulianDateDay, UInt64.toNat_sub, UInt64.toNat_add, UInt64.toNat_sub, UInt64.toNat_add,
    hyear, hcentury, hterm, h32075]
  omega

/-! ## The right dates -/

/-- The years of a period of four hundred, given by their number in it, and the months for which the
errors of the three parts of the formula cancel. -/
def cancels (r month : ℕ) : Bool :=
  match month with
  | 1 | 2 => if r ≤ 300 then r % 4 = 0 ∧ r ≠ 100 ∧ r ≠ 200 else r % 4 ≠ 0
  | 10 | 12 => r < 300 ∧ (r % 4 ≠ 3 ∨ r = 99 ∨ r = 199)
  | 11 => if 300 ≤ r ∧ r ≠ 399 then r % 4 ≠ 3 else r % 4 = 3 ∧ r ≠ 99 ∧ r ≠ 199
  | _ => false

/-- The days of the leap years and of the months in front of a month. -/
def leapDays (year month : ℕ) : ℕ :=
  leapsBefore year + (daysBefore month + if 2 < month ∧ IsLeap year then 1 else 0)

/-- The days that the formula adds. -/
def added (year month : ℕ) : ℕ := 1461 * (year + late month) / 4 + monthTerm month

/-- The days that the formula takes off. -/
def takenOff (year month : ℕ) : ℕ := (46116860184274026 + 3 * ((year + late month) / 100)) / 4

/-- Four hundred years later the terms are greater by the days of these years. -/
lemma terms_period (p r month : ℕ) :
    leapDays (400 * p + (r + 400)) month = 97 * p + leapDays (r + 400) month ∧
      added (400 * p + (r + 400)) month = 146100 * p + added (r + 400) month ∧
      takenOff (400 * p + (r + 400)) month = 3 * p + takenOff (r + 400) month := by
  refine ⟨?_, ?_, ?_⟩
  · have hleap : IsLeap (400 * p + (r + 400)) ↔ IsLeap (r + 400) := by
      rw [IsLeap, IsLeap]
      omega
    simp only [leapDays, leapsBefore, hleap]
    omega
  · rw [added, added]
    omega
  · rw [takenOff, takenOff]
    omega

/-- The terms balance in one period. -/
lemma terms_balance : ∀ r < 400, ∀ month < 12,
    (3458764513822293641 + added (r + 400) (month + 1) + 478 + 365 * 1970 =
      3447235298776913047 + 32075 + takenOff (r + 400) (month + 1) + 365 * (r + 400) +
        leapDays (r + 400) (month + 1) ↔ cancels r (month + 1) = true) := by
  decide +kernel

variable {rtc : Rtc} {date : Date} {t : TimeOfDay}

/-- The Unix time. -/
def unixTime (date : Date) (t : TimeOfDay) : ℕ := date.daysFrom 1970 * 86400 + t.seconds

/-- The days since 1970 in closed form. -/
lemma daysFrom_1970 (hyear : 1970 ≤ date.year) :
    date.daysFrom 1970 + 478 + 365 * 1970 = 365 * date.year + leapDays date.year date.month +
      date.day := by
  have hyears := sum_yearLength (show 1 ≤ 1970 by norm_num) hyear
  have h1970 : leapsBefore 1970 = 477 := rfl
  have hpos := date.day_pos
  rw [Date.daysFrom, sum_monthLength date.year date.month_pos date.month_le, leapDays]
  omega

lemma toNat_century (h : ShowsDate rtc date) (hyear : date.year ≤ 9999) :
    rtc.century.toNat = date.year / 100 := by
  rw [Rtc.century, if_neg h.present]
  exact toNat_read h.century (by omega)

/-- The number of the day that the formula gives. -/
lemma toNat_dateCurrent (h : ShowsDate rtc date) (hyear : date.year ≤ 9999) :
    (dateToJulianDateDay rtc.day rtc.month (rtc.century * 100 + rtc.year)).toNat + 32075 +
        takenOff date.year date.month =
      3458764513822293641 + added date.year date.month + date.day := by
  have hday31 := date.day_le.trans (monthLength_le date.year date.month)
  have hday : rtc.day.toNat = date.day := toNat_read h.day (by omega)
  have hmonth : rtc.month.toNat = date.month := toNat_read h.month (by have := date.month_le; omega)
  have hyears : (rtc.century * 100 + rtc.year).toNat = date.year := by
    have h100 : (100 : UInt64).toNat = 100 := rfl
    rw [UInt64.toNat_add, UInt64.toNat_mul, toNat_century h hyear, h100, Rtc.year,
      toNat_read h.year (by omega)]
    omega
  have hday' : rtc.day.toNat ≤ 31 := hday.le.trans hday31
  have hpos : 1 ≤ rtc.month.toNat := hmonth.symm ▸ date.month_pos
  have hle : rtc.month.toNat ≤ 12 := hmonth.symm ▸ date.month_le
  have hformula := toNat_dateToJulianDateDay hday' hpos hle (hyears.le.trans hyear)
  rw [hday, hmonth, hyears] at hformula
  rw [takenOff, added, hformula, Nat.add_assoc 3458764513822293641]

/-- The day counts from 1970 on exactly if the errors cancel. -/
lemma days_iff (h : ShowsDate rtc date) (hyear : 1970 ≤ date.year) (hyear' : date.year ≤ 9999) :
    (dateToJulianDateDay rtc.day rtc.month (rtc.century * 100 + rtc.year)).toNat =
      3447235298776913047 + date.daysFrom 1970 ↔ cancels (date.year % 400) date.month = true := by
  have hcurrent := toNat_dateCurrent h hyear'
  have hdays := daysFrom_1970 hyear
  have hsplit : date.year = 400 * (date.year / 400 - 1) + (date.year % 400 + 400) := by omega
  have hbalance := terms_balance (date.year % 400) (Nat.mod_lt _ (by norm_num)) (date.month - 1)
    (by have := date.month_le; omega)
  rw [Nat.sub_add_cancel date.month_pos] at hbalance
  obtain ⟨hleap, hadded, htaken⟩ := terms_period (date.year / 400 - 1) (date.year % 400) date.month
  rw [← hsplit] at hleap hadded htaken
  rw [← hbalance]
  omega

/-- The day of the formula is not before 1970, and the multiplication by the seconds of a day does
not wrap around. -/
lemma dateCurrent_bounds (h : ShowsDate rtc date) (hyear : 1970 ≤ date.year)
    (hyear' : date.year ≤ 9999) :
    3447235298776913047 ≤
        (dateToJulianDateDay rtc.day rtc.month (rtc.century * 100 + rtc.year)).toNat ∧
      (dateToJulianDateDay rtc.day rtc.month (rtc.century * 100 + rtc.year)).toNat <
        3447235298776913047 + 2 ^ 32 := by
  have hcurrent := toNat_dateCurrent h hyear'
  have hday := date.day_pos
  have hday31 := date.day_le.trans (monthLength_le date.year date.month)
  have hlate := late_le date.month
  have hterm := monthTerm_le date.month
  have hfirst : 458 ≤ monthTerm date.month + 365 * late date.month := by
    have hpos := date.month_pos
    have hle := date.month_le
    generalize date.month = month at hpos hle
    interval_cases month <;> decide
  rw [takenOff, added] at hcurrent
  rcases Nat.eq_or_lt_of_le hyear with h1970 | hlater
  · rw [← h1970] at hcurrent
    rcases Nat.le_one_iff_eq_zero_or_eq_one.mp hlate with h0 | h1
    · rw [h0] at hcurrent hfirst
      omega
    · rw [h1] at hcurrent hfirst
      omega
  · omega

lemma toNat_date1970 : (dateToJulianDateDay 1 1 1970).toNat = 3447235298776913047 := by decide

/-- The seconds that `epoch` makes from the day. -/
lemma toNat_epoch (hdate : ShowsDate rtc date) (htime : ShowsTime rtc t) (hyear : 1970 ≤ date.year)
    (hyear' : date.year ≤ 9999) :
    rtc.epoch.toNat =
      ((dateToJulianDateDay rtc.day rtc.month (rtc.century * 100 + rtc.year)).toNat -
        3447235298776913047) * 86400 + t.seconds := by
  have hhour := t.hour_lt
  have hminute := t.minute_lt
  have hsecond := t.second_lt
  obtain ⟨hlow, hhigh⟩ := dateCurrent_bounds hdate hyear hyear'
  rw [Rtc.epoch, TimeOfDay.seconds]
  generalize dateToJulianDateDay rtc.day rtc.month (rtc.century * 100 + rtc.year) = j at hlow hhigh
  have h86400 : (60 * 60 * 24 : UInt64).toNat = 86400 := rfl
  have h3600 : (3600 : UInt64).toNat = 3600 := rfl
  have h60 : (60 : UInt64).toNat = 60 := rfl
  have hdiff : (j - dateToJulianDateDay 1 1 1970).toNat = j.toNat - 3447235298776913047 := by
    rw [UInt64.toNat_sub, toNat_date1970]
    omega
  have hproduct : ((j - dateToJulianDateDay 1 1 1970) * (60 * 60 * 24)).toNat =
      (j.toNat - 3447235298776913047) * 86400 := by
    rw [UInt64.toNat_mul, hdiff, h86400]
    omega
  rw [UInt64.toNat_add, UInt64.toNat_add, UInt64.toNat_add, hproduct, UInt64.toNat_mul,
    UInt64.toNat_mul, toNat_hour htime, toNat_minute htime, toNat_second htime, h3600, h60]
  omega

/-! ## The main result -/

/-- **When `epoch` is the Unix time.**  For all dates of four digits from 1970 on, at every time of
day: exactly in the months in which the errors cancel. -/
theorem epoch_unix_iff (hdate : ShowsDate rtc date) (htime : ShowsTime rtc t)
    (hyear : 1970 ≤ date.year) (hyear' : date.year ≤ 9999) :
    rtc.epoch.toNat = unixTime date t ↔ cancels (date.year % 400) date.month = true := by
  obtain ⟨hlow, -⟩ := dateCurrent_bounds hdate hyear hyear'
  rw [← days_iff hdate hyear hyear', toNat_epoch hdate htime hyear hyear', unixTime]
  generalize (dateToJulianDateDay rtc.day rtc.month (rtc.century * 100 + rtc.year)).toNat = j
    at hlow ⊢
  generalize date.daysFrom 1970 = days
  constructor
  · intro h
    omega
  · rintro rfl
    rw [Nat.add_sub_cancel_left]

/-- Registers for a date and a time of day. -/
def showing (date : Date) (t : TimeOfDay) : Rtc where
  cmos := fun reg =>
    match reg with
    | 0x00 => bcd t.second
    | 0x02 => bcd t.minute
    | 0x04 => bcd t.hour
    | 0x07 => bcd date.day
    | 0x08 => bcd date.month
    | 0x09 => bcd (date.year % 100)
    | 0x32 => bcd (date.year / 100)
    | _ => 0
  Century := some 0x32

lemma showing_date (date : Date) (t : TimeOfDay) : ShowsDate (showing date t) date :=
  ⟨rfl, rfl, rfl, rfl, by simp [showing]⟩

lemma showing_time (date : Date) (t : TimeOfDay) : ShowsTime (showing date t) t := ⟨rfl, rfl, rfl⟩

/-- The first of January 2024. -/
def newYear : Date := ⟨2024, 1, 1, by decide, by decide, by decide, by decide⟩

/-- The first of March 2024. -/
def firstOfMarch : Date := ⟨2024, 3, 1, by decide, by decide, by decide, by decide⟩

/-- Half past twelve. -/
def halfPastTwelve : TimeOfDay := ⟨12, 30, 0, by decide, by decide, by decide⟩

/-- In January 2024 the errors cancel. -/
theorem epoch_unix_iff_newYear :
    (showing newYear halfPastTwelve).epoch.toNat = unixTime newYear halfPastTwelve :=
  (epoch_unix_iff (showing_date _ _) (showing_time _ _) (by decide) (by decide)).mpr (by decide)

/-- In March 2024 it is a day too late. -/
theorem epoch_march :
    ShowsDate (showing firstOfMarch halfPastTwelve) firstOfMarch ∧
      ShowsTime (showing firstOfMarch halfPastTwelve) halfPastTwelve ∧
      (showing firstOfMarch halfPastTwelve).epoch.toNat =
        unixTime firstOfMarch halfPastTwelve + 86400 :=
  ⟨showing_date _ _, showing_time _ _, by decide +kernel⟩

end TurbOS.Time
