import TurbOS.Printf.Standard

/-!
# Integers in a format

The formatter builds the text of an integer from the last digit on, in an array of 32 characters:
it fills the width with zeros first and takes some of them back when it comes to the letters that
lead the figures.

This gives the text of the C standard as long as the text without its spaces fits into the array.
Conversions to base two are not in the standard; they agree if `0b` is not asked for, because the
formatter takes one zero too few back in front of it.
-/

open Numeral

namespace TurbOS.Printf

open Standard

/-! ## The array -/

variable {t : List Char} {negative : Bool} {base precision width value n : ℕ} {flags : Flags}

/-- Zeros that fit. -/
lemma padZeros_reverse (h : n ≤ bufferSize) :
    padZeros n t.reverse = (List.replicate (n - t.length) '0' ++ t).reverse := by
  rw [padZeros, List.length_reverse, Nat.min_eq_left h, List.reverse_append, List.reverse_replicate]

lemma push_reverse (c : Char) (h : t.length < bufferSize) :
    push c t.reverse = (c :: t).reverse := by
  rw [push, List.length_reverse, if_pos h, List.reverse_cons]

/-- A zero is taken back if there is one. -/
lemma takeBack_reverse (m : ℕ) : takeBack t.length (List.replicate m '0' ++ t).reverse =
    (List.replicate (m - 1) '0' ++ t).reverse := by
  rw [takeBack]
  cases m with
  | zero => simp
  | succ m =>
    rw [if_pos (by simp), List.replicate_succ, List.cons_append, List.reverse_cons,
      List.dropLast_concat, Nat.add_sub_cancel]

/-- The digits are found from the last one on, as many as there is room for. -/
lemma digits_take {uppercase : Bool} (hb : 1 < base) {room : ℕ} {buf : List Char} (hv : 0 < value)
    (hroom : buf.length + (room + 1) = bufferSize) :
    digits base uppercase (room + 1) value buf =
      buf ++ ((Nat.digits base value).take (room + 1)).map (digit uppercase) := by
  induction room generalizing value buf with
  | zero =>
    rw [digits, if_neg (by omega), Nat.digits_def' hb hv]
    rfl
  | succ room ih =>
    rw [digits, Nat.digits_def' hb hv, List.take_succ_cons, List.map_cons]
    by_cases hrest : value / base = 0
    · rw [if_neg (by tauto), hrest, Nat.digits_zero, List.take_nil, List.map_nil]
    · rw [if_pos ⟨hrest, by omega⟩, ih (Nat.pos_of_ne_zero hrest)]
      · rw [List.append_assoc, List.singleton_append]
      · rw [List.length_append, List.length_singleton]
        omega

/-- A numeral for which there is room. -/
lemma digits_eq {uppercase : Bool} (hb : 1 < base) (hv : 0 < value)
    (hfit : (numeral (digit uppercase) base value).length ≤ bufferSize) :
    digits base uppercase bufferSize value [] = (numeral (digit uppercase) base value).reverse := by
  have htake : (Nat.digits base value).take bufferSize = Nat.digits base value :=
    List.take_of_length_le (by simpa [numeral] using hfit)
  have h := @digits_take base value uppercase hb 31 [] hv rfl
  rw [List.nil_append] at h
  rw [numeral, List.reverse_reverse, ← htake]
  exact h

/-- What the array holds in front of the finalization: the numeral, and for zero the figure that
the default precision asks for. -/
lemma integerBuffer_eq (hb : 1 < base)
    (hfit : (numeral (digit flags.uppercase) base value).length ≤ bufferSize) :
    integerBuffer value base width flags =
      ⟨(List.replicate ((if flags.precision then 0 else 1) -
          (numeral (digit flags.uppercase) base value).length) '0' ++
          numeral (digit flags.uppercase) base value).reverse, width,
        if value = 0 ∧ (flags.precision = false ∨ base = 16) then { flags with hash := false }
        else flags⟩ := by
  rw [integerBuffer]
  rcases Nat.eq_zero_or_pos value with rfl | hv
  · rw [if_pos rfl, numeral_zero]
    cases hp : flags.precision with
    | false => simp
    | true =>
      by_cases h16 : base = 16 <;> simp [h16]
  · have hlen : 0 < (numeral (digit flags.uppercase) base value).length := by
      rw [List.length_pos_iff, Ne, numeral_eq_nil_iff hb]
      omega
    have hzeros : (if flags.precision then 0 else 1) -
        (numeral (digit flags.uppercase) base value).length = 0 := by
      split <;> omega
    rw [if_neg (by omega), hzeros, digits_eq hb hv hfit,
      if_neg (fun h : value = 0 ∧ _ => by omega)]
    rfl

/-! ## The finalization -/

lemma sign_reverse (h : (signText negative flags.plus flags.space ++ t).length ≤ bufferSize) :
    sign negative ⟨t.reverse, width, flags⟩ =
      ⟨(signText negative flags.plus flags.space ++ t).reverse, width, flags⟩ := by
  rw [sign]
  rw [signText] at h ⊢
  dsimp only
  rw [List.length_reverse]
  cases negative <;> cases hp : flags.plus <;> cases hs : flags.space <;> simp_all

lemma prefixes_none (h : flags.hash = false) (hp : flags.pointer = false) (k base precision : ℕ)
    (buf : List Char) : prefixes k base precision ⟨buf, width, flags⟩ = ⟨buf, width, flags⟩ := by
  rw [prefixes, h, hp]
  rfl

lemma prefixes_cleared (hp : flags.pointer = false) (k base precision : ℕ) (buf : List Char) :
    prefixes k base precision ⟨buf, width, { flags with hash := false }⟩ =
      ⟨buf, width, { flags with hash := false }⟩ :=
  prefixes_none (by rfl) (by exact hp) k base precision buf

/-- The zeros in front: the flag for the base eight is dropped if there are any. -/
lemma leadingZeros_eq (f : Field) : leadingZeros negative base precision f =
    let width :=
      if !f.flags.left && f.width ≠ 0 && f.flags.zeropad &&
        (negative || (f.flags.plus || f.flags.space)) then f.width - 1
      else f.width
    let buf := padZeros precision (if !f.flags.left && f.flags.zeropad then padZeros width f.buf
      else f.buf)
    ⟨buf, width, if base = 8 ∧ f.buf.length < buf.length then { f.flags with hash := false }
      else f.flags⟩ := by
  rw [leadingZeros]
  exact (apply_ite (Field.mk _ _) _ _ _).symm

/-- How many zeros there are can be seen from the length. -/
lemma length_zeros_iff {k : ℕ} :
    t.reverse.length < (List.replicate (k - t.length) '0' ++ t).reverse.length ↔ t.length < k := by
  simp only [List.length_reverse, List.length_append, List.length_replicate]
  omega

/-- Without zeros for the width. -/
lemma leadingZeros_plain (hz : (!flags.left && flags.zeropad) = false)
    (hp : precision ≤ bufferSize) : leadingZeros negative base precision ⟨t.reverse, width, flags⟩ =
      ⟨(List.replicate (precision - t.length) '0' ++ t).reverse, width,
        if base = 8 ∧ t.length < precision then { flags with hash := false } else flags⟩ := by
  have hwidth : (!flags.left && decide (width ≠ 0) && flags.zeropad &&
      (negative || (flags.plus || flags.space))) = false := by
    cases hl : flags.left <;> cases hzp : flags.zeropad <;> simp_all
  rw [leadingZeros_eq]
  dsimp only
  rw [hwidth, hz, if_neg Bool.false_ne_true, if_neg Bool.false_ne_true, padZeros_reverse hp]
  simp only [length_zeros_iff]

/-- With zeros for the width. -/
lemma leadingZeros_zeros (hl : flags.left = false) (hz : flags.zeropad = true)
    (hw : width ≤ bufferSize) : leadingZeros negative base 0 ⟨t.reverse, width, flags⟩ =
      let width' := width - (signText negative flags.plus flags.space).length
      ⟨(List.replicate (width' - t.length) '0' ++ t).reverse, width',
        if base = 8 ∧ t.length < width' then { flags with hash := false } else flags⟩ := by
  have hwidth : (if !flags.left && decide (width ≠ 0) && flags.zeropad &&
      (negative || (flags.plus || flags.space)) then width - 1 else width) =
      width - (signText negative flags.plus flags.space).length := by
    rw [signText, hl, hz]
    cases negative <;> cases hp : flags.plus <;> cases hs : flags.space <;> simp <;> omega
  have hflag : (!flags.left && flags.zeropad) = true := by
    rw [hl, hz]
    rfl
  rw [leadingZeros_eq]
  dsimp only
  rw [hwidth, hflag, if_pos rfl, padZeros_reverse (by omega), padZeros_reverse (by omega),
    Nat.zero_sub, List.replicate_zero, List.nil_append]
  simp only [length_zeros_iff]

/-- The letter and the zero of the base sixteen. -/
lemma push_hex (uppercase : Bool) (h : t.length + 2 ≤ bufferSize) :
    push '0' (pushLetter 16 uppercase t.reverse) =
      ('0' :: (if uppercase then 'X' else 'x') :: t).reverse := by
  have hlt : t.reverse.length < bufferSize := by
    rw [List.length_reverse]
    omega
  have hletter : pushLetter 16 uppercase t.reverse =
      ((if uppercase then 'X' else 'x') :: t).reverse := by
    rw [pushLetter]
    cases uppercase <;> simp [hlt, -List.length_reverse]
  rw [hletter, push_reverse _ (by rw [List.length_cons]; omega)]

/-- To the base sixteen two zeros are taken back, if the width asked for as many. -/
lemma takeBackPadding_hex (hprec : flags.precision = false) (ht : t ≠ []) :
    takeBackPadding t.length 16 0 ⟨(List.replicate (width - t.length) '0' ++ t).reverse, width,
      flags⟩ = (List.replicate (width - (2 + t.length)) '0' ++ t).reverse := by
  have hpos : 0 < t.length := List.length_pos_iff.mpr ht
  have hlen : ∀ m, (List.replicate m '0' ++ t).reverse.length = m + t.length := fun m => by
    simp [Nat.add_comm]
  rw [takeBackPadding]
  dsimp only
  rw [hprec, takeBack_reverse, hlen, hlen]
  by_cases hw : t.length ≤ width
  · -- the width was filled, and what is in front of the digits can be taken back
    have hfull : width - t.length + t.length = width := by omega
    have hne : width ≠ 0 := by omega
    have hne' : width - t.length - 1 + t.length ≠ 0 := by omega
    simp only [hfull, hne, hne', ne_eq, not_false_eq_true, decide_true, decide_false,
      Bool.not_false, Bool.and_self, Bool.false_or, if_true, takeBack_reverse]
    rw [show width - t.length - 1 - 1 = width - (2 + t.length) by omega]
  · have hne : width - t.length + t.length ≠ 0 ∧ width - t.length + t.length ≠ width := by omega
    simp only [hne.1, hne.2, decide_false, Bool.or_self, Bool.and_false, Bool.false_eq_true,
      if_false]
    rw [show width - t.length = 0 by omega, show width - (2 + t.length) = 0 by omega]

lemma takeBack_self : takeBack t.length t.reverse = t.reverse := by
  rw [takeBack, if_neg (by simp)]

/-- With a precision, or without zeros for the width, none is taken back. -/
lemma takeBackPadding_none (h : flags.precision = true ∨ precision ≤ t.length) :
    takeBackPadding t.length base precision
        ⟨(List.replicate (precision - t.length) '0' ++ t).reverse, width, flags⟩ =
      (List.replicate (precision - t.length) '0' ++ t).reverse := by
  rw [takeBackPadding]
  dsimp only
  rcases h with h | h
  · rw [h]
    rfl
  · rw [show precision - t.length = 0 by omega, List.replicate_zero, List.nil_append, takeBack_self,
      takeBack_self, ite_self, ite_self]

/-- To the base eight a zero is written if there is none yet. -/
lemma push_octal (h : t.length < bufferSize) : push '0' (pushLetter 8 flags.uppercase t.reverse) =
    ('0' :: t).reverse := by
  rw [pushLetter, if_neg (by simp), if_neg (by simp), if_neg (by simp), push_reverse _ h]

lemma hash_eta (h : flags.hash = false) : { flags with hash := false } = flags := by
  cases flags
  simp_all

/-- The width that is left for spaces, where zeros may have filled it. -/
def spaceWidth (negative : Bool) (width : ℕ) (flags : Flags) : ℕ :=
  if !flags.left && flags.zeropad then width - (signText negative flags.plus flags.space).length
  else width

/-- Without a letter of the base. -/
lemma finalization_plain (hh : flags.hash = false) (hp : flags.pointer = false)
    (hzp : (!flags.left && flags.zeropad) = true → precision = 0)
    (hfit : (body (!flags.left && flags.zeropad) width (signText negative flags.plus flags.space)
      (List.replicate (precision - t.length) '0' ++ t)).length ≤ bufferSize) :
    finalization negative base precision ⟨t.reverse, width, flags⟩ =
      ⟨(body (!flags.left && flags.zeropad) width (signText negative flags.plus flags.space)
        (List.replicate (precision - t.length) '0' ++ t)).reverse, spaceWidth negative width flags,
          flags⟩ := by
  rw [finalization, spaceWidth]
  cases hz : (!flags.left && flags.zeropad) with
  | false =>
    rw [hz] at hfit
    simp only [body, Bool.false_eq_true, if_false, List.replicate_zero, List.nil_append] at hfit ⊢
    have hlen := hfit
    simp only [List.length_append, List.length_replicate] at hlen
    rw [leadingZeros_plain hz (by omega), hash_eta hh, ite_self, prefixes_none hh hp,
      sign_reverse hfit]
  | true =>
    obtain ⟨hl, hzero⟩ : flags.left = false ∧ flags.zeropad = true := by simpa using hz
    obtain rfl := hzp hz
    rw [hz] at hfit
    simp only [body, Nat.zero_sub, List.replicate_zero, List.nil_append, if_true,
      ← Nat.sub_sub] at hfit ⊢
    have hlen := hfit
    simp only [List.length_append, List.length_replicate] at hlen
    rw [leadingZeros_zeros hl hzero (by omega)]
    dsimp only
    rw [hash_eta hh, ite_self, prefixes_none hh hp, sign_reverse hfit]

/-- Without a sign the last step changes nothing. -/
lemma sign_none (hs : signText negative flags.plus flags.space = []) (buf : List Char) :
    sign negative ⟨buf, width, flags⟩ = ⟨buf, width, flags⟩ := by
  rw [signText] at hs
  rw [sign]
  cases negative <;> cases hp : flags.plus <;> cases hsp : flags.space <;> simp_all

/-- What the standard asks for to the base eight. -/
def octal (ds : List Char) : List Char := if ds.head? ≠ some '0' then '0' :: ds else ds

lemma head?_zeros {k : ℕ} (hk : 0 < k) : (List.replicate k '0' ++ t).head? = some '0' := by
  obtain ⟨k, rfl⟩ : ∃ j, k = j + 1 := ⟨k - 1, by omega⟩
  rw [List.replicate_succ]
  rfl

lemma octal_zeros (ht : t.head? ≠ some '0') (k : ℕ) :
    octal (List.replicate k '0' ++ t) = if 0 < k then List.replicate k '0' ++ t else '0' :: t := by
  rw [octal]
  rcases Nat.eq_zero_or_pos k with rfl | hk
  · rw [List.replicate_zero, List.nil_append, if_pos ht, if_neg (lt_irrefl 0)]
  · rw [head?_zeros hk, if_neg (by simp), if_pos hk]

/-- To the base eight, with a zero in front. -/
lemma finalization_octal (hh : flags.hash = true) (hp : flags.pointer = false)
    (hs : signText negative flags.plus flags.space = []) (ht : t.head? ≠ some '0')
    (hprec : flags.precision = true ∨ precision ≤ t.length)
    (hzp : (!flags.left && flags.zeropad) = true → precision = 0)
    (hfit : (body (!flags.left && flags.zeropad) width []
      (octal (List.replicate (precision - t.length) '0' ++ t))).length ≤ bufferSize) :
    ∃ flags' : Flags, finalization negative 8 precision ⟨t.reverse, width, flags⟩ =
      ⟨(body (!flags.left && flags.zeropad) width []
        (octal (List.replicate (precision - t.length) '0' ++ t))).reverse,
          spaceWidth negative width flags,
        flags'⟩ ∧ flags'.left = flags.left ∧ flags'.zeropad = flags.zeropad := by
  have hs' : signText negative { flags with hash := false }.plus
    { flags with hash := false }.space = [] := hs
  rw [octal_zeros ht] at hfit ⊢
  rw [finalization, spaceWidth, hs]
  cases hz : (!flags.left && flags.zeropad) with
  | false =>
    rw [hz] at hfit
    simp only [body, Bool.false_eq_true, if_false, List.replicate_zero, List.nil_append] at hfit ⊢
    by_cases hlt : t.length < precision
    · -- the precision asks for zeros
      rw [if_pos (by omega), List.length_append, List.length_replicate] at hfit
      rw [leadingZeros_plain hz (by omega), if_pos ⟨rfl, hlt⟩, if_pos (by omega),
        prefixes_cleared hp, sign_none hs']
      exact ⟨_, rfl, rfl, rfl⟩
    · rw [if_neg (by omega), List.length_cons] at hfit
      rw [leadingZeros_plain hz (by omega), if_neg (by omega), if_neg (by omega), prefixes, hh,
        Bool.true_or, if_pos rfl, List.length_reverse, takeBackPadding_none hprec,
        show precision - t.length = 0 by omega, List.replicate_zero, List.nil_append,
        push_octal (by omega), sign_none hs]
      exact ⟨_, rfl, rfl, rfl⟩
  | true =>
    obtain ⟨hl, hzero⟩ : flags.left = false ∧ flags.zeropad = true := by simpa using hz
    obtain rfl := hzp hz
    rw [hz] at hfit
    simp only [body, Nat.zero_sub, lt_irrefl, if_false, List.nil_append, List.length_nil,
      Nat.zero_add, if_true, List.length_cons, List.length_append, List.length_replicate] at hfit ⊢
    rw [leadingZeros_zeros hl hzero (by omega), hs]
    simp only [List.length_nil, Nat.sub_zero]
    by_cases hlt : t.length < width
    · -- the width asks for zeros
      have hmove : List.replicate (width - (t.length + 1)) '0' ++ '0' :: t =
          List.replicate (width - t.length) '0' ++ t := by
        rw [show width - t.length = width - (t.length + 1) + 1 by omega, List.replicate_succ',
          List.append_assoc, List.singleton_append]
      rw [hmove, if_pos ⟨trivial, hlt⟩, prefixes_cleared hp, sign_none hs']
      exact ⟨_, rfl, rfl, rfl⟩
    · rw [if_neg (by omega), prefixes, hh, Bool.true_or, if_pos rfl, List.length_reverse,
        show width - t.length = 0 by omega, show width - (t.length + 1) = 0 by omega,
        List.replicate_zero, List.nil_append, List.nil_append]
      have hnone : takeBackPadding t.length 8 0 ⟨t.reverse, width, flags⟩ = t.reverse := by
        simpa using @takeBackPadding_none t 8 0 width flags hprec
      rw [hnone, push_octal (by omega), sign_none hs]
      exact ⟨_, rfl, rfl, rfl⟩

/-- To the base sixteen, with `0x` in front. -/
lemma finalization_hex (hh : flags.hash = true ∨ flags.pointer = true)
    (hs : signText negative flags.plus flags.space = []) (ht : t ≠ [])
    (hprec : flags.precision = true ∨ precision = 0)
    (hzp : (!flags.left && flags.zeropad) = true → flags.precision = false)
    (hfit : (body (!flags.left && flags.zeropad) width ['0', if flags.uppercase then 'X' else 'x']
      (List.replicate (precision - t.length) '0' ++ t)).length ≤ bufferSize) :
    finalization negative 16 precision ⟨t.reverse, width, flags⟩ =
      ⟨(body (!flags.left && flags.zeropad) width ['0', if flags.uppercase then 'X' else 'x']
        (List.replicate (precision - t.length) '0' ++ t)).reverse, spaceWidth negative width flags,
          flags⟩ := by
  have hor : (flags.hash || flags.pointer) = true := by simpa using hh
  rw [finalization, spaceWidth, hs]
  cases hz : (!flags.left && flags.zeropad) with
  | false =>
    rw [hz] at hfit
    simp only [body, Bool.false_eq_true, if_false, List.replicate_zero, List.nil_append,
      List.cons_append, List.length_cons, List.length_append, List.length_replicate] at hfit ⊢
    have hnone : flags.precision = true ∨ precision ≤ t.length := hprec.imp_right fun h => by omega
    rw [leadingZeros_plain hz (by omega), if_neg (by simp), prefixes, hor, if_pos rfl,
      List.length_reverse, takeBackPadding_none hnone,
      push_hex _ (by simp only [List.length_append, List.length_replicate]; omega), sign_none hs]
  | true =>
    obtain ⟨hl, hzero⟩ : flags.left = false ∧ flags.zeropad = true := by simpa using hz
    have hp0 : precision = 0 := hprec.resolve_left fun h => by simp [hzp hz] at h
    subst hp0
    rw [hz] at hfit
    simp only [body, Nat.zero_sub, List.replicate_zero, List.nil_append, if_true, List.cons_append,
      List.length_cons, List.length_nil, List.length_append, List.length_replicate,
      Nat.zero_add] at hfit ⊢
    rw [leadingZeros_zeros hl hzero (by omega), hs]
    simp only [List.length_nil, Nat.sub_zero]
    rw [if_neg (by simp), prefixes, hor, if_pos rfl, List.length_reverse,
      takeBackPadding_hex (hzp hz) ht,
      push_hex _ (by simp only [List.length_append, List.length_replicate]; omega), sign_none hs]

/-! ## The conversions -/

variable {s : Scan} {va va' : List Arg} {v : UInt64}

/-- Spaces fill what is left of the width. -/
lemma revText_body {flags' : Flags} {text : List Char} (hl : flags'.left = flags.left)
    (hz : flags'.zeropad = flags.zeropad)
    (hfull : (!flags.left && flags.zeropad) = true → width ≤ text.length) :
    revText text.reverse (spaceWidth negative width flags) flags' =
      justified flags.left (width - text.length) text := by
  rw [revText, justified, spaceWidth, hl, hz, List.length_reverse, List.reverse_reverse]
  cases hleft : flags.left with
  | true => simp
  | false =>
    cases hzero : flags.zeropad with
    | true =>
      have hle : width - text.length = 0 := by
        have := hfull (by simp [hleft, hzero])
        omega
      rw [hle]
      simp
    | false => simp

lemma le_length_body {zeros : Bool} {lead figs : List Char} (h : zeros = true) :
    width ≤ (body zeros width lead figs).length := by
  rw [body, h, if_pos rfl]
  simp only [List.length_append, List.length_replicate]
  omega

lemma digit_ne_zero {uppercase : Bool} {d : ℕ} (h : 0 < d) (hlt : d < 17) :
    digit uppercase d ≠ '0' := by
  interval_cases d <;> cases uppercase <;> decide

/-- What the array holds before any zero is added. -/
def unpadded (flags : Flags) (base value : ℕ) : List Char :=
  List.replicate ((if flags.precision then 0 else 1) -
    (numeral (digit flags.uppercase) base value).length) '0' ++
    numeral (digit flags.uppercase) base value

/-- Zeros for the precision, or the figure that is there without one. -/
lemma zeros_unpadded (hprec : flags.precision = true ∨ precision = 0) :
    List.replicate (precision - (unpadded flags base value).length) '0' ++
      unpadded flags base value =
      List.replicate ((if flags.precision then some precision else none).getD 1 -
        (numeral (digit flags.uppercase) base value).length) '0' ++
          numeral (digit flags.uppercase) base value := by
  rw [unpadded]
  rcases hprec with hp | rfl
  · simp [hp]
  · cases hp : flags.precision <;> simp

lemma length_figures_le_body {zeros : Bool} {lead figs : List Char} :
    figs.length ≤ (body zeros width lead figs).length := by
  rw [body]
  simp only [List.length_append]
  omega

/-- Without `#`, or for a zero that is printed without it, nothing but a sign leads the figures. -/
lemma figures_plain {uppercase hash : Bool} {prec : Option ℕ}
    (h : hash = true → (base ≠ 8 ∧ base ≠ 16) ∨ value = 0 ∧ (prec = none ∨ base = 16)) :
    baseText uppercase hash base value = [] ∧ figures (digit uppercase) hash base value prec =
      List.replicate (prec.getD 1 - (numeral (digit uppercase) base value).length) '0' ++
        numeral (digit uppercase) base value := by
  rw [baseText, figures]
  cases hash with
  | false => exact ⟨if_neg (by simp), if_neg (by simp)⟩
  | true =>
    rcases h rfl with ⟨h8, h16⟩ | ⟨rfl, rfl | rfl⟩
    · exact ⟨if_neg (by tauto), if_neg (by tauto)⟩
    · exact ⟨if_neg (by tauto), if_neg (by simp)⟩
    · exact ⟨if_neg (by tauto), if_neg (by simp)⟩

/-- The figures in front of which a zero is written do not begin with one. -/
lemma head?_unpadded (hb : 1 < base) (hlt : base < 17) (h : value ≠ 0 ∨ flags.precision = true) :
    (unpadded flags base value).head? ≠ some '0' := by
  rw [unpadded]
  rcases Nat.eq_zero_or_pos value with rfl | hv
  · have hp : flags.precision = true := h.resolve_left (by simp)
    simp [hp]
  · obtain ⟨d, hd, hdb, hhead⟩ := exists_head (digit flags.uppercase) hb hv
    have hlen : 0 < (numeral (digit flags.uppercase) base value).length := by
      rw [List.length_pos_iff, Ne, numeral_eq_nil_iff hb]
      omega
    have hzero : (if flags.precision then 0 else 1) -
        (numeral (digit flags.uppercase) base value).length = 0 := by
      split <;> omega
    rw [hzero, List.replicate_zero, List.nil_append, hhead]
    exact fun h => digit_ne_zero hd (by omega) (Option.some.inj h)

section Text

variable (hprec : flags.precision = true ∨ precision = 0)
  (hzp : (!flags.left && flags.zeropad) = true → flags.precision = false)

include hprec hzp in
lemma precision_zero (hz : (!flags.left && flags.zeropad) = true) : precision = 0 :=
  hprec.resolve_left (by rw [hzp hz]; exact Bool.false_ne_true)

include hprec hzp in
/-- No `#`, or a zero for which it is dropped. -/
lemma integerText_plain (hb : 1 < base) (hp : flags.pointer = false)
    (hplain : flags.hash = true → value = 0 ∧ (flags.precision = false ∨ base = 16))
    (hfit : (body (!flags.left && flags.zeropad) width (signText negative flags.plus flags.space)
      (List.replicate (precision - (unpadded flags base value).length) '0' ++
        unpadded flags base value)).length ≤ bufferSize) :
    integerText value negative base precision width flags =
      let text := body (!flags.left && flags.zeropad) width
        (signText negative flags.plus flags.space)
        (List.replicate (precision - (unpadded flags base value).length) '0' ++
          unpadded flags base value)
      justified flags.left (width - text.length) text := by
  have hclear : (if value = 0 ∧ (flags.precision = false ∨ base = 16) then
    { flags with hash := false } else flags) = { flags with hash := false } := by
    split
    · rfl
    · rename_i hne
      exact (hash_eta (by simpa using fun h => hne (hplain h))).symm
  have hnum : (numeral (digit flags.uppercase) base value).length ≤ bufferSize := by
    refine le_trans ?_ (length_figures_le_body.trans hfit)
    simp only [unpadded, List.length_append]
    omega
  rw [integerText, integerBuffer_eq hb hnum, hclear, ← unpadded,
    @finalization_plain _ negative base precision width { flags with hash := false } rfl hp
      (precision_zero hprec hzp) hfit]
  exact revText_body rfl rfl fun hz => le_length_body hz

include hprec hzp in
/-- A zero leads the figures to the base eight. -/
lemma integerText_octal (hh : flags.hash = true) (hp : flags.pointer = false)
    (hs : signText negative flags.plus flags.space = []) (hv : value ≠ 0 ∨ flags.precision = true)
    (hfit : (body (!flags.left && flags.zeropad) width [] (octal
      (List.replicate (precision - (unpadded flags 8 value).length) '0' ++
        unpadded flags 8 value))).length ≤ bufferSize) :
    integerText value negative 8 precision width flags =
      let text := body (!flags.left && flags.zeropad) width [] (octal
        (List.replicate (precision - (unpadded flags 8 value).length) '0' ++
          unpadded flags 8 value))
      justified flags.left (width - text.length) text := by
  have hkeep : ¬ (value = 0 ∧ (flags.precision = false ∨ (8 : ℕ) = 16)) := by
    rintro ⟨rfl, hf | h⟩
    · rw [hf] at hv
      simp at hv
    · simp at h
  have hnum : (numeral (digit flags.uppercase) 8 value).length ≤ bufferSize := by
    refine le_trans ?_ (length_figures_le_body.trans hfit)
    rw [octal]
    split <;> simp only [unpadded, List.length_append, List.length_cons] <;> omega
  obtain ⟨flags', hfin, hl, hz⟩ := finalization_octal hh hp hs
    (head?_unpadded (by decide) (by decide) hv) (hprec.imp_right fun h => by omega)
      (precision_zero hprec hzp) hfit
  rw [integerText, integerBuffer_eq (by decide) hnum, if_neg hkeep, ← unpadded, hfin]
  exact revText_body hl hz fun hz => le_length_body hz

include hprec hzp in
/-- The letter of the base leads the figures to the base sixteen. -/
lemma integerText_hex (hh : flags.hash = true ∨ flags.pointer = true)
    (hs : signText negative flags.plus flags.space = []) (hv : value ≠ 0)
    (hfit : (body (!flags.left && flags.zeropad) width ['0', if flags.uppercase then 'X' else 'x']
      (List.replicate (precision - (unpadded flags 16 value).length) '0' ++
        unpadded flags 16 value)).length ≤ bufferSize) :
    integerText value negative 16 precision width flags =
      let text := body (!flags.left && flags.zeropad) width
        ['0', if flags.uppercase then 'X' else 'x']
        (List.replicate (precision - (unpadded flags 16 value).length) '0' ++
          unpadded flags 16 value)
      justified flags.left (width - text.length) text := by
  have hnum : (numeral (digit flags.uppercase) 16 value).length ≤ bufferSize := by
    refine le_trans ?_ (length_figures_le_body.trans hfit)
    simp only [unpadded, List.length_append]
    omega
  have hne : unpadded flags 16 value ≠ [] := by
    rw [unpadded, Ne, List.append_eq_nil_iff, numeral_eq_nil_iff (by decide)]
    tauto
  have hkeep : ¬ (value = 0 ∧ (flags.precision = false ∨ (16 : ℕ) = 16)) := fun h => hv h.1
  rw [integerText, integerBuffer_eq (by decide) hnum, if_neg hkeep, ← unpadded,
    finalization_hex hh hs hne hprec hzp hfit]
  exact revText_body rfl rfl fun hz => le_length_body hz

end Text

/-- The text of an integer, for any flags that the conversions leave. -/
lemma integerText_eq (hb : 1 < base) (hhash : flags.hash = true → base = 8 ∨ base = 16)
    (hp : flags.pointer = false)
    (hsign : flags.hash = true → signText negative flags.plus flags.space = [])
    (hprec : flags.precision = true ∨ precision = 0)
    (hzp : (!flags.left && flags.zeropad) = true → flags.precision = false)
    (hfit : (body (!flags.left && flags.zeropad) width
      (signText negative flags.plus flags.space ++ baseText flags.uppercase flags.hash base value)
      (figures (digit flags.uppercase) flags.hash base value
        (if flags.precision then some precision else none))).length ≤ bufferSize) :
    integerText value negative base precision width flags =
      let text := body (!flags.left && flags.zeropad) width
        (signText negative flags.plus flags.space ++ baseText flags.uppercase flags.hash base value)
        (figures (digit flags.uppercase) flags.hash base value
          (if flags.precision then some precision else none))
      justified flags.left (width - text.length) text := by
  have hzeros := @zeros_unpadded base precision value flags hprec
  by_cases hplain : flags.hash = true → value = 0 ∧ (flags.precision = false ∨ base = 16)
  · obtain ⟨hbase, hfigs⟩ := @figures_plain base value flags.uppercase flags.hash
      (if flags.precision then some precision else none) fun h => by
        obtain ⟨hv, hor⟩ := hplain h
        exact .inr ⟨hv, hor.imp_left fun hf => by rw [hf]; rfl⟩
    rw [hbase, hfigs, List.append_nil, ← hzeros] at hfit ⊢
    exact integerText_plain hprec hzp hb hp hplain hfit
  · obtain ⟨hh, hkeep⟩ : flags.hash = true ∧
        ¬ (value = 0 ∧ (flags.precision = false ∨ base = 16)) := by
      simpa using hplain
    rw [hsign hh, List.nil_append] at hfit ⊢
    rcases hhash hh with rfl | rfl
    · have hfigs : figures (digit flags.uppercase) flags.hash 8 value
        (if flags.precision then some precision else none) =
          octal (List.replicate (precision - (unpadded flags 8 value).length) '0' ++
            unpadded flags 8 value) := by
        rw [hzeros, figures, hh, octal]
        simp
      have hbase : baseText flags.uppercase flags.hash 8 value = [] := if_neg (by simp)
      rw [hbase, hfigs] at hfit ⊢
      refine integerText_octal hprec hzp hh hp (hsign hh) ?_ hfit
      by_contra hno
      simp only [not_or, not_not, Bool.not_eq_true] at hno
      exact hkeep ⟨hno.1, .inl hno.2⟩
    · have hv : value ≠ 0 := fun h => hkeep ⟨h, .inr rfl⟩
      have hfigs : figures (digit flags.uppercase) flags.hash 16 value
        (if flags.precision then some precision else none) =
          List.replicate (precision - (unpadded flags 16 value).length) '0' ++
            unpadded flags 16 value := by
        rw [hzeros, figures, if_neg (by simp)]
      have hbase : baseText flags.uppercase flags.hash 16 value =
          ['0', if flags.uppercase then 'X' else 'x'] := by
        rw [baseText, if_pos ⟨hh, rfl, hv⟩]
      rw [hbase, hfigs] at hfit ⊢
      exact integerText_hex hprec hzp (.inl hh) (hsign hh) hv hfit

/-- What the conversions make of the flags. -/
lemma integerFlags_eq {conv : Conversion} (h : IsInteger conv) (hu : flags.uppercase = false) :
    integerFlags conv.char flags = { flags with
      hash := flags.hash && decide (Standard.base conv ≠ 10)
      uppercase := decide (conv = .upperX)
      plus := decide (Signed conv) && flags.plus
      space := decide (Signed conv) && flags.space
      zeropad := flags.zeropad && !flags.precision } := by
  obtain ⟨zp, l, pl, sp, hs, up, ch, sh, lo, ll, pr, po⟩ := flags
  obtain rfl : up = false := hu
  rcases h with (rfl | rfl) | rfl | rfl | rfl | rfl | rfl <;> cases pr <;>
    simp [integerFlags, baseOf, Conversion.char, Standard.base, Signed]

/-- The flags that no character of a format sets. -/
def Flags.Given (flags : Flags) : Prop := flags.uppercase = false ∧ flags.pointer = false

/-- The number that the formatter prints. -/
def printed (conv : Conversion) (s : Scan) (v : UInt64) : ℤ :=
  if Signed conv then signedValue s.flags v else unsignedValue s.flags v

/-- The text that a conversion for integers gives. -/
lemma conversionText_integer {conv : Conversion} (h : IsInteger conv)
    (hva : vaWord s.va = some (v, va')) (hu : s.flags.uppercase = false) :
    conversionText conv.char s =
      some (integerText (printed conv s v).natAbs (decide (printed conv s v < 0))
        (Standard.base conv) s.precision s.width (integerFlags conv.char s.flags), va') := by
  have hflags := integerFlags_eq h hu
  have hsigned : signedValue (integerFlags conv.char s.flags) v = signedValue s.flags v := by
    rw [hflags]
    rfl
  have hunsigned : unsignedValue (integerFlags conv.char s.flags) v =
      unsignedValue s.flags v := by
    rw [hflags]
    rfl
  have hletter : conv.char = 'd' ∨ conv.char = 'i' ∨ conv.char = 'u' ∨ conv.char = 'x' ∨
      conv.char = 'X' ∨ conv.char = 'o' ∨ conv.char = 'b' := by
    rcases h with (rfl | rfl) | rfl | rfl | rfl | rfl | rfl <;> decide
  have hbase : baseOf conv.char = Standard.base conv := by
    rcases h with (rfl | rfl) | rfl | rfl | rfl | rfl | rfl <;> rfl
  have hsignedLetter : (conv.char = 'i' ∨ conv.char = 'd') ↔ Signed conv := by
    rcases h with (rfl | rfl) | rfl | rfl | rfl | rfl | rfl <;> decide
  rw [conversionText, if_pos hletter, hva, Option.map_some, printed]
  dsimp only
  rw [hsigned, hunsigned, hbase]
  by_cases hs : Signed conv
  · rw [if_pos (hsignedLetter.mpr hs), if_pos hs]
  · have hnonneg : decide ((unsignedValue s.flags v : ℤ) < 0) = false :=
      decide_eq_false (by omega)
    rw [if_neg (fun hc => hs (hsignedLetter.mp hc)), if_neg hs, Int.natAbs_natCast, hnonneg]

/-! ## The request of the standard -/

variable {d : Directive} {r : Request} {size : Size} {conv : Conversion}

/-- A number of `k` bits in two's complement. -/
lemma bmod_emod (n k : ℕ) : ((n % 2 ^ k : ℕ) : ℤ).bmod (2 ^ k) = (n : ℤ).bmod (2 ^ k) := by
  rw [Int.natCast_emod]
  exact Int.emod_bmod _ _

/-- The formatter cuts the argument down to the type that the size names. -/
lemma printed_scan : printed conv (r.scan size va) v = number conv size v := by
  -- an argument is cut down to its lower bits, and their sign is that of the value
  have h64 : v.toInt64.toInt = (v.toNat : ℤ).bmod (2 ^ 64) := BitVec.toInt_eq_toNat_bmod _
  have h32 : v.toUInt32.toInt32.toInt = ((v.toNat % 2 ^ 32 : ℕ) : ℤ).bmod (2 ^ 32) :=
    BitVec.toInt_eq_toNat_bmod _
  have h16 : v.toUInt16.toInt16.toInt = ((v.toNat % 2 ^ 16 : ℕ) : ℤ).bmod (2 ^ 16) :=
    BitVec.toInt_eq_toNat_bmod _
  have h8 : v.toUInt8.toInt8.toInt = ((v.toNat % 2 ^ 8 : ℕ) : ℤ).bmod (2 ^ 8) :=
    BitVec.toInt_eq_toNat_bmod _
  have hv := v.toNat_lt
  rw [bmod_emod] at h32 h16 h8
  rw [printed, number]
  split
  · cases size <;> simp [Request.scan, Size.set, signedValue, bits, h64, h32, h16, h8]
  · cases size <;> simp [Request.scan, Size.set, unsignedValue, bits] <;> omega

/-- The figures of a numeral are its digits. -/
lemma numeral_figure {uppercase : Bool} (hb : 1 < base) (hlt : base ≤ 16) :
    numeral (figure uppercase) base value = numeral (digit uppercase) base value := by
  have hdigit : ∀ d < 16, figure uppercase d = digit uppercase d := by
    cases uppercase <;> decide
  rw [numeral, numeral]
  congr 1
  exact List.map_congr_left fun d hd => hdigit d ((Nat.digits_lt_base hb hd).trans_le hlt)

lemma figures_figure {uppercase : Bool} (hb : 1 < base) (hlt : base ≤ 16) (hash : Bool)
    (prec : Option ℕ) : figures (figure uppercase) hash base value prec =
      figures (digit uppercase) hash base value prec := by
  rw [figures, figures, numeral_figure hb hlt]

/-- `#` means nothing to the base ten. -/
lemma hash_decimal (uppercase hash : Bool) (base value : ℕ) (prec : Option ℕ) :
    baseText uppercase (hash && decide (base ≠ 10)) base value =
        baseText uppercase hash base value ∧
      figures (digit uppercase) (hash && decide (base ≠ 10)) base value prec =
        figures (digit uppercase) hash base value prec := by
  by_cases h10 : base = 10
  · subst h10
    simp [baseText, figures]
  · simp [h10]

/-- Where a prefix can stand, there is no sign. -/
lemma signText_unsigned (hs : ¬ Signed conv) (plus space : Bool) :
    signText (decide (number conv size v < 0)) (decide (Signed conv) && plus)
      (decide (Signed conv) && space) = [] := by
  have hnonneg : ¬ number conv size v < 0 := by
    rw [number, if_neg hs]
    have := Int.emod_nonneg (v.toNat : ℤ) (b := 2 ^ bits size) (by positivity)
    omega
  simp [signText, hs, hnonneg]

lemma base_bounds (conv : Conversion) : 1 < Standard.base conv ∧ Standard.base conv ≤ 16 := by
  cases conv <;> decide

/-- What a request leaves in the flags. -/
lemma scan_flags (r : Request) (size : Size) (va : List Arg) :
    let flags := (r.scan size va).flags
    flags.Given ∧ flags.left = r.left ∧ flags.plus = r.plus ∧ flags.space = r.space ∧
      flags.hash = r.hash ∧ flags.zeropad = r.zeros ∧ flags.precision = r.precision.isSome := by
  cases size <;> exact ⟨⟨rfl, rfl⟩, rfl, rfl, rfl, rfl, rfl, rfl⟩

/-- A conversion for integers gives the text of the standard. -/
lemma conversionText_scan (hconv : IsInteger conv) (hva : vaWord va = some (v, va'))
    (hbin : conv = .b → r.hash = false)
    (hfit : (integerBody conv size r v).length ≤ bufferSize) :
    conversionText conv.char (r.scan size va) =
      some (inField r (integerBody conv size r v), va') := by
  obtain ⟨⟨hu, hp⟩, hleft, hplus, hspace, hhash, hzero, hprec⟩ := scan_flags r size va
  have hflags := integerFlags_eq hconv hu
  obtain ⟨hb, hlt⟩ := base_bounds conv
  -- the flags of the conversion, as the standard reads them
  obtain ⟨hbase, hfigs⟩ := hash_decimal (decide (conv = .upperX)) r.hash (Standard.base conv)
    (number conv size v).natAbs r.precision
  have hzeros : (!r.left && (r.zeros && !r.precision.isSome)) =
      (!r.left && r.zeros && r.precision.isNone) := by
    rw [Bool.and_assoc, Option.not_isSome]
  have hsome : (if r.precision.isSome = true then some (r.precision.getD 0) else none) =
      r.precision := by
    cases r.precision <;> rfl
  rw [conversionText_integer hconv hva hu, hflags, printed_scan, inField]
  rw [hleft, hplus, hspace, hhash, hzero, hprec]
  rw [integerBody, figures_figure hb hlt] at hfit ⊢
  have hwidth : (r.scan size va).width = r.width := rfl
  have hprecision : (r.scan size va).precision = r.precision.getD 0 := rfl
  rw [hwidth, hprecision, integerText_eq hb]
  · dsimp only
    rw [hbase, hsome, hfigs, hzeros]
  · rcases hconv with (rfl | rfl) | rfl | rfl | rfl | rfl | rfl <;> simp_all [Standard.base]
  · exact hp
  · intro hh
    refine signText_unsigned (fun hsigned => ?_) _ _
    rcases hsigned with rfl | rfl <;> simp [Standard.base] at hh
  · cases r.precision <;> simp
  · intro hz
    simp only [Bool.and_eq_true, Bool.not_eq_eq_eq_not, Bool.not_true] at hz
    simpa using hz.2.2
  · dsimp only
    rw [hbase, hsome, hfigs, hzeros]
    exact hfit

/-- A conversion for integers, in any place of a format. -/
lemma directive_integer (hconv : IsInteger d.conversion)
    (hs : d.request va = some (r.scan d.size va'))
    (hva : vaWord va' = some (v, va'')) (hbin : d.conversion = .b → r.hash = false)
    (hfit : (integerBody d.conversion d.size r v).length ≤ bufferSize) :
    (Item.directive d).meaning va =
      some (inField r (integerBody d.conversion d.size r v), va'') := by
  rw [Item.meaning, hs, Option.bind_some, conversionText_scan hconv hva hbin hfit]

end TurbOS.Printf
