import TurbOS.Str.Integers

/-!
# Numbers on the terminal

`printi` prints a number character by character: each one is put into the array `str` of `char2str`
and printed as a string of its own.  The digits come out of an array of ten characters that is
filled from the last digit on.

A print is the call of `write` between the calls of `termLock.lock` and `termLock.unlock`; how long
a call waits for the lock is left out.
-/

open Decimal

namespace TurbOS.Terminal

/-- The calls that printing makes. -/
inductive Call where
  | lock
  | write (text : List Char)
  | unlock
deriving DecidableEq, Repr

/-- `print`, which passes the string and its length to `write`. -/
def print (string : List Char) : Option (List Call) :=
  (Str.text string).map fun text => [.lock, .write text, .unlock]

/-- `char2str`: the two bytes of `str`, of which the second one is never written. -/
def char2str (c : Char) : List Char := [c, '\x00']

/-- `printc`. -/
def printc (c : Char) : Option (List Call) := print (char2str c)

/-- `while (--i >= 0){ printc(temp[i]); }`. -/
def printBack (temp : List Char) : ℕ → Option (List Call)
  | 0 => some []
  | i + 1 => temp[i]?.bind fun ch => (printc ch).bind fun calls =>
    (printBack temp i).map (calls ++ ·)

/-- `printi`; `temp` is what stands in the array before. -/
def printi (fuel : ℕ) (temp : List Char) (num : Int32) : Option (List Call) :=
  if num ≠ 0 then
    (if num < 0 then printc '-' else some []).bind fun calls =>
      (Str.writeDigits fuel temp (if num < 0 then -num else num)).bind fun (temp, i) =>
        (printBack temp i).map (calls ++ ·)
  else printc '0'

/-- Printing the characters of a text one by one. -/
def oneByOne (s : List Char) : List Call := s.flatMap fun c => [.lock, .write [c], .unlock]

lemma printc_eq {c : Char} (h : c ≠ '\x00') : printc c = some (oneByOne [c]) := by
  have htext : Str.text (char2str c) = some [c] :=
    Str.text_eq_some_iff.mpr ⟨[], rfl, by simpa using Ne.symm h⟩
  rw [printc, print, htext, Option.map_some]
  rfl

/-- The loop prints the first `i` characters of the array, from the last one on. -/
lemma printBack_eq {temp : List Char} {i : ℕ} (hi : i ≤ temp.length) (h : '\x00' ∉ temp.take i) :
    printBack temp i = some (oneByOne (temp.take i).reverse) := by
  induction i with
  | zero => rfl
  | succ i ih =>
    obtain ⟨ch, hch⟩ : ∃ ch, temp[i]? = some ch := ⟨_, List.getElem?_eq_getElem (by omega)⟩
    have htake : temp.take (i + 1) = temp.take i ++ [ch] := by
      rw [List.take_add_one, hch]
      rfl
    rw [htake, List.mem_append, not_or, List.mem_singleton] at h
    rw [printBack, hch, Option.bind_some, printc_eq (Ne.symm h.2), Option.bind_some,
      ih (by omega) h.1, Option.map_some, htake, List.reverse_append, oneByOne, oneByOne, oneByOne,
      ← List.flatMap_append]
    rfl

/-- **Every number is printed as its decimal text**, character by character, with all indices of
`temp` inside the array. -/
theorem printi_prints {fuel : ℕ} {temp : List Char} (hlen : temp.length = 10) (hfuel : 10 < fuel)
    (num : Int32) : printi fuel temp num = some (oneByOne (decimal num.toInt)) := by
  by_cases hne : num = 0
  · rw [hne]
    rfl
  · have hpos : 0 < num.toInt.natAbs := by
      have := Str.ne_zero_iff.mp hne
      omega
    have hzero : '\x00' ∉ (reversed num.toInt.natAbs) := by
      rw [← List.mem_reverse, ← toDigits_eq_reverse hpos]
      exact zero_notMem
    have hback : printBack (reversed num.toInt.natAbs ++ temp.drop
      (reversed num.toInt.natAbs).length)
        (reversed num.toInt.natAbs).length =
          some (oneByOne (Nat.toDigits 10 num.toInt.natAbs)) := by
      rw [printBack_eq (by rw [List.length_append]; omega) (by rwa [List.take_left' rfl]),
        List.take_left' rfl, ← toDigits_eq_reverse hpos]
    rw [printi, if_pos hne, Str.writeDigits_eq hlen hfuel hne, decimal]
    by_cases hneg : num.toInt < 0
    · rw [if_pos (Str.neg_iff.mpr hneg), if_pos hneg, printc_eq (by decide), Option.bind_some,
        Option.bind_some]
      dsimp only
      rw [hback]
      rfl
    · rw [if_neg (by rwa [Str.neg_iff]), if_neg hneg, Option.bind_some, Option.bind_some]
      dsimp only
      rw [hback]
      rfl

theorem printi_prints_minimum :
    printi 11 (List.replicate 10 '?') (-2147483648) = some (oneByOne (decimal (-2147483648))) :=
  printi_prints rfl (by decide) (-2147483648)

example : (printi 11 (List.replicate 10 '?') (-70)).map
  (List.filter fun c => c ≠ .lock ∧ c ≠ .unlock) =
    some [.write ['-'], .write ['7'], .write ['0']] := by
  decide +kernel

end TurbOS.Terminal
