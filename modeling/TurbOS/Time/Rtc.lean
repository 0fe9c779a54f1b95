import TurbOS.Lib.Calendar

/-!
# The clock that runs on a battery

The registers of this clock hold the date and the time of day, two decimal digits in each byte.
`epoch` makes a number of seconds from them.  It counts days with a formula that is meant for
divisions that cut off towards zero, but `months - 14` wraps around in 64 bits, and its twelfth part
is not minus one or zero.  The number is right only where the errors of the three parts of the
formula cancel.
-/

open Calendar

namespace TurbOS.Time

/-! ## The functions -/

/-- The registers of the clock, and the field `Century` of the FADT if there is this table. -/
structure Rtc where
  cmos : UInt8 → UInt8
  Century : Option UInt8

/-- `bcptobin`; its argument is a byte. -/
def bcptobin (value : ℕ) : ℕ := (value >>> 4) * 10 + (value &&& 15)

/-- `dateToJulianDateDay`. -/
def dateToJulianDateDay (days months years : UInt64) : UInt64 :=
  (1461 * (years + 4800 + (months - 14) / 12)) / 4 +
    (367 * (months - 2 - 12 * ((months - 14) / 12))) / 12 -
    (3 * ((years + 4900 + (months - 14) / 12) / 100)) / 4 + days - 32075

namespace Rtc

variable (rtc : Rtc)

/-- Choose a register and read it. -/
def read (reg : UInt8) : UInt64 := UInt64.ofNat (bcptobin (rtc.cmos reg).toNat)

def century : UInt64 := if rtc.Century = some 0 then 20 else rtc.read 0x32

def year : UInt64 := rtc.read 0x09

def month : UInt64 := rtc.read 0x08

def day : UInt64 := rtc.read 0x07

def hour : UInt64 := rtc.read 0x04

def minute : UInt64 := rtc.read 0x02

def second : UInt64 := rtc.read 0x00

def time : UInt64 := rtc.hour * 3600 + rtc.minute * 60 + rtc.second

def epoch : UInt64 :=
  let dateCurrent := dateToJulianDateDay rtc.day rtc.month (rtc.century * 100 + rtc.year)
  let date1970 := dateToJulianDateDay 1 1 1970
  let diff := dateCurrent - date1970
  diff * (60 * 60 * 24) + rtc.hour * 3600 + rtc.minute * 60 + rtc.second

end Rtc

/-! ## What the registers show -/

/-- A time of day. -/
structure TimeOfDay where
  hour : ℕ
  minute : ℕ
  second : ℕ
  hour_lt : hour < 24
  minute_lt : minute < 60
  second_lt : second < 60

/-- The seconds since midnight. -/
def TimeOfDay.seconds (t : TimeOfDay) : ℕ := t.hour * 3600 + t.minute * 60 + t.second

/-- The byte with the two digits of a number. -/
def bcd (n : ℕ) : UInt8 := UInt8.ofNat (n / 10 * 16 + n % 10)

/-- The registers for the time of day. -/
structure ShowsTime (rtc : Rtc) (t : TimeOfDay) : Prop where
  hour : rtc.cmos 0x04 = bcd t.hour
  minute : rtc.cmos 0x02 = bcd t.minute
  second : rtc.cmos 0x00 = bcd t.second

/-- The registers for the date; there is one for the century. -/
structure ShowsDate (rtc : Rtc) (date : Date) : Prop where
  century : rtc.cmos 0x32 = bcd (date.year / 100)
  year : rtc.cmos 0x09 = bcd (date.year % 100)
  month : rtc.cmos 0x08 = bcd date.month
  day : rtc.cmos 0x07 = bcd date.day
  present : rtc.Century ≠ some 0

variable {rtc : Rtc} {date : Date} {t : TimeOfDay} {n : ℕ} {reg : UInt8}

lemma bcptobin_eq (value : ℕ) : bcptobin value = value / 16 * 10 + value % 16 := by
  rw [bcptobin, Nat.shiftRight_eq_div_pow]
  congr 1
  exact Nat.and_two_pow_sub_one_eq_mod _ 4

/-- The number is read back from its digits. -/
lemma toNat_read (h : rtc.cmos reg = bcd n) (hn : n < 100) : (rtc.read reg).toNat = n := by
  have hbyte : (bcd n).toNat = n / 10 * 16 + n % 10 := by
    rw [bcd, UInt8.toNat_ofNat']
    exact Nat.mod_eq_of_lt (by omega)
  rw [Rtc.read, h, hbyte, bcptobin_eq, UInt64.toNat_ofNat']
  omega

lemma toNat_hour (h : ShowsTime rtc t) : rtc.hour.toNat = t.hour :=
  toNat_read h.hour (by have := t.hour_lt; omega)

lemma toNat_minute (h : ShowsTime rtc t) : rtc.minute.toNat = t.minute :=
  toNat_read h.minute (by have := t.minute_lt; omega)

lemma toNat_second (h : ShowsTime rtc t) : rtc.second.toNat = t.second :=
  toNat_read h.second (by have := t.second_lt; omega)

lemma TimeOfDay.seconds_lt (t : TimeOfDay) : t.seconds < 86400 := by
  have := t.hour_lt
  have := t.minute_lt
  have := t.second_lt
  rw [seconds]
  omega

/-- `time` gives the seconds since midnight. -/
lemma toNat_time (h : ShowsTime rtc t) : rtc.time.toNat = t.seconds := by
  have hlt := t.seconds_lt
  rw [TimeOfDay.seconds] at hlt
  rw [Rtc.time, UInt64.toNat_add, UInt64.toNat_add, UInt64.toNat_mul, UInt64.toNat_mul,
    toNat_hour h, toNat_minute h, toNat_second h, TimeOfDay.seconds]
  have h3600 : (3600 : UInt64).toNat = 3600 := rfl
  have h60 : (60 : UInt64).toNat = 60 := rfl
  rw [h3600, h60]
  omega

end TurbOS.Time
