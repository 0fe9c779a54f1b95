import TurbOS.Printf.Family
import TurbOS.Printf.Reading
import TurbOS.Time.Epoch

/-!
# The time as a text

`getTime` prints the date and the time of day into the array `theTIME` of 30 characters.  Whatever
the registers of the clock hold, the text fits.  For a date and a time of day each number has its
own places in the text, so the text shows which date and which time it is.
-/

open Numeral Calendar

namespace TurbOS.Time

open Printf

/-- The format of `getTime`. -/
def timeFormat : List Char := "%.4ld/%.2ld/%.2ld %.2ld:%.2ld:%.2ld".toList

/-- `getTime`: what `sprintf` returns, and what stands in the array and behind it. -/
def Rtc.getTime (rtc : Rtc) (theTIME : ℕ → Char) : Option (Int32 × (ℕ → Char)) :=
  sprintf theTIME timeFormat [.word (rtc.century * 100 + rtc.year), .word rtc.month, .word rtc.day,
    .word rtc.hour, .word rtc.minute, .word rtc.second]

/-- A number with at least `k` digits. -/
def padded (k n : ℕ) : List Char :=
  List.replicate (k - (numeral (digit false) 10 n).length) '0' ++ numeral (digit false) 10 n

/-- The text of `getTime`. -/
def Rtc.text (rtc : Rtc) : List Char :=
  padded 4 (rtc.century * 100 + rtc.year).toNat ++ '/' :: (padded 2 rtc.month.toNat ++ '/' ::
    (padded 2 rtc.day.toNat ++ ' ' :: (padded 2 rtc.hour.toNat ++ ':' ::
      (padded 2 rtc.minute.toNat ++ ':' :: padded 2 rtc.second.toNat))))

/-! ## The numbers -/

variable {rtc : Rtc} {date : Date} {t : TimeOfDay} {k n : ℕ} {v : UInt64} {va : List Arg}

lemma length_padded (h : n < 10 ^ k) : (padded k n).length = k := by
  have hle : (numeral (digit false) 10 n).length ≤ k := length_numeral_le (by decide) h
  rw [padded, List.length_append, List.length_replicate]
  omega

lemma length_padded_le {m : ℕ} (h : n < 10 ^ m) : (padded k n).length ≤ max k m := by
  have hle : (numeral (digit false) 10 n).length ≤ m := length_numeral_le (by decide) h
  rw [padded, List.length_append, List.length_replicate]
  omega

lemma le_length_padded : k ≤ (padded k n).length := by
  rw [padded, List.length_append, List.length_replicate]
  omega

lemma read_padded : read digitValue 10 (padded k n) = n := by
  rw [padded, read_replicate_append (by rfl : digitValue '0' = 0),
    read_numeral (by decide) (fun d hd => digitValue_digit false (by omega))]

/-- A conversion with a precision, for the type `long`. -/
def field (precision : Digits) : Directive where
  precision := some (some (.number precision))
  size := .l
  conversion := .d
  width_head _ h := absurd h (Option.some_ne_none _).symm

lemma toInt_toInt64 (h : v.toNat < 10 ^ 18) : v.toInt64.toInt = v.toNat := by
  show v.toBitVec.toInt = v.toBitVec.toNat
  refine BitVec.toInt_eq_toNat_of_lt ?_
  have hlt : v.toBitVec.toNat < 10 ^ 18 := h
  omega

lemma field_meaning {precision : Digits} (hv : v.toNat < 10 ^ 18)
    (hprec : precision.value ≤ 18) : (Item.directive (field precision)).meaning (.word v :: va) =
      some (padded precision.value v.toNat, va) := by
  obtain ⟨r, hr⟩ : ∃ r : Standard.Request,
    r = ⟨false, false, false, false, false, 0, some precision.value⟩ := ⟨_, rfl⟩
  have hs : (field precision).request (.word v :: va) = some (r.scan .l (.word v :: va)) := by
    rw [hr]
    rfl
  have hprinted : printed .d (r.scan .l (.word v :: va)) v = Standard.number .d .l v :=
    printed_scan
  have hnumber : Standard.number .d .l v = v.toNat := hprinted.symm.trans (toInt_toInt64 hv)
  have hbase : Standard.base .d = 10 := rfl
  have hbody : Standard.integerBody (field precision).conversion .l r v =
      padded precision.value v.toNat := by
    rw [Standard.integerBody, hr, show (field precision).conversion = .d from rfl, hnumber, hbase,
      figures_figure (by decide) (by decide)]
    simp [Standard.body, Standard.signText, Standard.baseText, Standard.figures, padded]
  have hfit : (Standard.integerBody (field precision).conversion .l r v).length ≤ bufferSize := by
    rw [hbody]
    exact (length_padded_le hv).trans (by rw [bufferSize]; omega)
  rw [directive_integer (.inl (.inl rfl)) hs rfl (by simp [field]) hfit, Standard.inField]
  rw [show (field precision).size = .l from rfl, hbody, hr]
  simp [justified]

/-! ## The text -/

/-- A precision of one digit. -/
def oneDigit (c : Char) (h : isDigit c) : Digits := ⟨[c], by simp, by simpa using h⟩

/-- The parts of the format. -/
def timeItems : List Item :=
  let year := field (oneDigit '4' rfl)
  let two := field (oneDigit '2' rfl)
  [.directive year, .char '/' (by decide), .directive two, .char '/' (by decide), .directive two,
    .char ' ' (by decide), .directive two, .char ':' (by decide), .directive two,
      .char ':' (by decide), .directive two]

lemma spell_timeItems : spell timeItems = timeFormat := by decide

/-- Two digits of four bits each make 165 at most. -/
lemma toNat_read_le (reg : UInt8) : (rtc.read reg).toNat ≤ 165 := by
  have hbyte := (rtc.cmos reg).toNat_lt
  have hhigh : (rtc.cmos reg).toNat / 16 ≤ 15 := by omega
  rw [Rtc.read, bcptobin_eq, UInt64.toNat_ofNat']
  exact (Nat.mod_le _ _).trans (by omega)

lemma toNat_century_le : rtc.century.toNat ≤ 165 := by
  rw [Rtc.century]
  split
  · decide
  · exact toNat_read_le 0x32

lemma toNat_fullYear :
    (rtc.century * 100 + rtc.year).toNat = rtc.century.toNat * 100 + rtc.year.toNat := by
  have hcentury := @toNat_century_le rtc
  have hyear : rtc.year.toNat ≤ 165 := toNat_read_le 0x09
  rw [UInt64.toNat_add, UInt64.toNat_mul]
  have h100 : (100 : UInt64).toNat = 100 := rfl
  rw [h100]
  omega

lemma toNat_fullYear_le : (rtc.century * 100 + rtc.year).toNat ≤ 16665 := by
  have hcentury := @toNat_century_le rtc
  have hyear : rtc.year.toNat ≤ 165 := toNat_read_le 0x09
  rw [toNat_fullYear]
  omega

lemma render_time :
    render timeFormat [.word (rtc.century * 100 + rtc.year), .word rtc.month, .word rtc.day,
    .word rtc.hour, .word rtc.minute, .word rtc.second] = some (rtc.text, []) := by
  have hyear := @toNat_fullYear_le rtc
  have hsmall : ∀ reg, (rtc.read reg).toNat < 10 ^ 18 :=
    fun reg => (toNat_read_le reg).trans_lt (by norm_num)
  have htwo : ∀ reg va, (Item.directive (field (oneDigit '2' rfl))).meaning
    (.word (rtc.read reg) :: va) = some (padded 2 (rtc.read reg).toNat, va) :=
        fun reg va => field_meaning (hsmall reg) (by decide)
  have hfour : ∀ va, (Item.directive (field (oneDigit '4' rfl))).meaning
      (.word (rtc.century * 100 + rtc.year) :: va) =
        some (padded 4 (rtc.century * 100 + rtc.year).toNat, va) :=
          fun va => field_meaning (by omega) (by decide)
  rw [← spell_timeItems, render_spell]
  simp only [timeItems, meaning, hfour, Item.meaning.eq_1, Option.bind_some, Rtc.month, Rtc.day,
    Rtc.hour, Rtc.minute, Rtc.second, htwo, Option.map_some, Rtc.text, List.cons_append,
    List.nil_append, List.append_nil]

/-- What `getTime` does to the array. -/
lemma getTime_eq (theTIME : ℕ → Char) :
    rtc.getTime theTIME = some (Int32.ofNat rtc.text.length,
      stored unbounded rtc.text theTIME) := by
  rw [Rtc.getTime, sprintf_eq, render_time]
  rfl

/-- A text does not end early: it holds digits and the characters between them. -/
lemma zero_notMem_padded : '\x00' ∉ padded k n := by
  rw [padded, List.mem_append, not_or]
  refine ⟨fun h => absurd (List.eq_of_mem_replicate h) (by decide), fun h => ?_⟩
  obtain ⟨d, hd, hzero⟩ := exists_of_mem (by decide : 1 < 10) h
  interval_cases d <;> exact absurd hzero (by decide)

/-! ## The main results -/

/-- **The text of `getTime` fits into the array**, whatever the registers hold: it has 25 characters
at most, and nothing behind the 30 places is written. -/
theorem getTime_fits (rtc : Rtc) (theTIME : ℕ → Char) :
    ∃ (text : List Char) (theTIME' : ℕ → Char),
      rtc.getTime theTIME = some (Int32.ofNat text.length, theTIME') ∧
      19 ≤ text.length ∧ text.length ≤ 25 ∧ '\x00' ∉ text ∧
      (∀ i (h : i < text.length), theTIME' i = text[i]) ∧ theTIME' text.length = '\x00' ∧
      ∀ i ≥ 30, theTIME' i = theTIME i := by
  have hyear : (padded 4 (rtc.century * 100 + rtc.year).toNat).length ≤ 5 :=
    length_padded_le (m := 5) (by have := @toNat_fullYear_le rtc; omega)
  have htwo : ∀ reg, (padded 2 (rtc.read reg).toNat).length ≤ 3 := fun reg =>
    length_padded_le (m := 3) (by have := @toNat_read_le rtc reg; omega)
  have hmonth := htwo 0x08
  have hday := htwo 0x07
  have hhour := htwo 0x04
  have hminute := htwo 0x02
  have hsecond := htwo 0x00
  have hle : rtc.text.length ≤ 25 := by
    simp only [Rtc.text, List.length_append, List.length_cons, Rtc.month, Rtc.day, Rtc.hour,
      Rtc.minute, Rtc.second]
    omega
  have hge : 19 ≤ rtc.text.length := by
    have hfour := @le_length_padded 4 (rtc.century * 100 + rtc.year).toNat
    have hleast : ∀ n, 2 ≤ (padded 2 n).length := fun n => le_length_padded
    have hmonth := hleast rtc.month.toNat
    have hday := hleast rtc.day.toNat
    have hhour := hleast rtc.hour.toNat
    have hminute := hleast rtc.minute.toNat
    have hsecond := hleast rtc.second.toNat
    simp only [Rtc.text, List.length_append, List.length_cons]
    omega
  have hroom : min rtc.text.length (unbounded - 1) = rtc.text.length := by
    rw [unbounded]
    omega
  refine ⟨rtc.text, _, getTime_eq theTIME, hge, hle, ?_, fun i h => ?_, ?_, fun i h => ?_⟩
  · simp [Rtc.text, zero_notMem_padded]
  · rw [stored, hroom, if_pos (by rw [unbounded]; omega), if_pos h, List.getD_eq_getElem _ _ h]
  · rw [stored, hroom, if_pos (by rw [unbounded]; omega), if_neg (lt_irrefl _), if_pos rfl]
  · rw [stored, hroom]
    split
    · rw [if_neg (by omega), if_neg (by omega)]
    · rfl

/-- The number in some places of a text. -/
def placesAt (text : List Char) (i k : ℕ) : ℕ := Numeral.read digitValue 10 ((text.drop i).take k)

variable {rest : List Char} {c : Char} {i m : ℕ}

lemma placesAt_padded (h : (padded k n).length = k) : placesAt (padded k n ++ rest) 0 k = n := by
  rw [placesAt, List.drop_zero, List.take_left' h, read_padded]

/-- A number and the character behind it are skipped. -/
lemma placesAt_skip (h : (padded m n).length = m) (hi : m < i) :
    placesAt (padded m n ++ c :: rest) i k = placesAt rest (i - (m + 1)) k := by
  obtain ⟨j, rfl⟩ : ∃ j, i = m + (j + 1) := ⟨i - (m + 1), by omega⟩
  have hj : m + (j + 1) - (m + 1) = j := by omega
  rw [placesAt, List.drop_append, h, List.drop_of_length_le (by omega), Nat.add_sub_cancel_left,
    List.nil_append, List.drop_succ_cons, placesAt, hj]

/-- **The text shows the date and the time of day**: every number stands in its own places, from
where it reads back. -/
theorem getTime_shows (hdate : ShowsDate rtc date) (htime : ShowsTime rtc t)
    (hyear : date.year < 10000) (theTIME : ℕ → Char) :
    ∃ text : List Char, rtc.getTime theTIME = some (19, stored unbounded text theTIME) ∧
      text.length = 19 ∧ placesAt text 0 4 = date.year ∧ placesAt text 5 2 = date.month ∧
        placesAt text 8 2 = date.day ∧ placesAt text 11 2 = t.hour ∧ placesAt text 14 2 = t.minute ∧
        placesAt text 17 2 = t.second := by
  have hfull : (rtc.century * 100 + rtc.year).toNat = date.year := by
    have hpresent : rtc.century = rtc.read 0x32 := if_neg hdate.present
    have hcentury := toNat_read hdate.century (by omega)
    have hlast := toNat_read hdate.year (by omega)
    rw [toNat_fullYear, hpresent, Rtc.year, hcentury, hlast]
    omega
  have hmonth : rtc.month.toNat = date.month :=
    toNat_read hdate.month (by have := date.month_le; omega)
  have hday : rtc.day.toNat = date.day :=
    toNat_read hdate.day (by have := date.day_le.trans (monthLength_le _ _); omega)
  have hlen₀ := @length_padded 4 date.year (by omega)
  have hlen₁ := @length_padded 2 date.month (by have := date.month_le; omega)
  have hlen₂ := @length_padded 2 date.day (by have := date.day_le.trans (monthLength_le _ _); omega)
  have hlen₃ := @length_padded 2 t.hour (by have := t.hour_lt; omega)
  have hlen₄ := @length_padded 2 t.minute (by have := t.minute_lt; omega)
  have hlen₅ := @length_padded 2 t.second (by have := t.second_lt; omega)
  have htext : rtc.text = padded 4 date.year ++ '/' ::
    (padded 2 date.month ++ '/' :: (padded 2 date.day ++
      ' ' :: (padded 2 t.hour ++ ':' :: (padded 2 t.minute ++ ':' :: padded 2 t.second)))) := by
    rw [Rtc.text, hfull, hmonth, hday, toNat_hour htime, toNat_minute htime, toNat_second htime]
  have hlen : rtc.text.length = 19 := by
    simp only [htext, List.length_append, List.length_cons]
    omega
  refine ⟨rtc.text, ?_, hlen, ?_, ?_, ?_, ?_, ?_, ?_⟩
  · rw [getTime_eq, hlen]
    rfl
  all_goals rw [htext]
  · exact placesAt_padded hlen₀
  · rw [placesAt_skip hlen₀ (by decide)]
    exact placesAt_padded hlen₁
  · rw [placesAt_skip hlen₀ (by decide), placesAt_skip hlen₁ (by decide)]
    exact placesAt_padded hlen₂
  · rw [placesAt_skip hlen₀ (by decide), placesAt_skip hlen₁ (by decide),
      placesAt_skip hlen₂ (by decide)]
    exact placesAt_padded hlen₃
  · rw [placesAt_skip hlen₀ (by decide), placesAt_skip hlen₁ (by decide),
      placesAt_skip hlen₂ (by decide), placesAt_skip hlen₃ (by decide)]
    exact placesAt_padded hlen₄
  · rw [placesAt_skip hlen₀ (by decide), placesAt_skip hlen₁ (by decide),
      placesAt_skip hlen₂ (by decide), placesAt_skip hlen₃ (by decide),
      placesAt_skip hlen₄ (by decide), ← List.append_nil (padded 2 t.second)]
    exact placesAt_padded hlen₅

/-- Half past twelve on the first of March 2024. -/
theorem getTime_shows_march : ∃ text : List Char,
    (showing firstOfMarch halfPastTwelve).getTime (fun _ => '?') =
      some (19, stored unbounded text fun _ => '?') ∧
      text.length = 19 ∧ placesAt text 0 4 = 2024 ∧ placesAt text 5 2 = 3 ∧ placesAt text 8 2 = 1 ∧
      placesAt text 11 2 = 12 ∧ placesAt text 14 2 = 30 ∧ placesAt text 17 2 = 0 :=
  getTime_shows (showing_date _ _) (showing_time _ _) (by decide) _

end TurbOS.Time
