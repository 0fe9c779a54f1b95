import TurbOS.Printf.Output

/-!
# The `printf` family

One text is behind all functions of the family.  `snprintf` stores its front part and a zero, and
never writes outside the `count` places that it is given; without a buffer it only counts.
`sprintf` is `snprintf` with the largest bound.  `printf` and `vfctprintf` pass the characters on
one by one and leave zeros out.  Whatever was stored, the value returned is the length of the whole
text.
-/

open Sinks

namespace TurbOS.Printf

variable {σ : Type*}

/-- What a buffer holds after `snprintf`: the front part of the text, a zero behind it, and what
stood there in all other places. -/
def stored (count : ℕ) (text : List Char) (buffer : ℕ → Char) : ℕ → Char := fun x =>
  if x < count then
    if x < min text.length (count - 1) then text.getD x '\x00'
    else if x = min text.length (count - 1) then '\x00'
    else buffer x
  else buffer x

/-- The characters that are passed on. -/
def passed (text : List Char) : List Char := text.filter (· ≠ '\x00')

lemma outBuffer_eq (maxlen : ℕ) : (fun c i => outBuffer c i maxlen) = bounded maxlen := rfl

lemma stored_eq {count : ℕ} (hcount : count < 2 ^ 64) (text : List Char) (buffer : ℕ → Char) :
    outBuffer '\x00' (if text.length < count then text.length else Word64.sub count 1) count
        (emits (fun c i => outBuffer c i count) text 0 buffer) = stored count text buffer := by
  rw [outBuffer_eq]
  funext x
  rcases Nat.eq_zero_or_pos count with rfl | hpos
  · -- there is no place for anything
    rw [outBuffer, if_neg (Nat.not_lt_zero _), emits_bounded, if_neg (by omega), stored,
      if_neg (by omega)]
  · have hend : (if text.length < count then text.length else Word64.sub count 1) =
        min text.length (count - 1) := by
      rw [Word64.sub_of_le hcount hpos]
      split <;> omega
    rw [hend, outBuffer, if_pos (by omega), stored]
    by_cases hx : x = min text.length (count - 1)
    · rw [← hx, Function.update_self, if_pos (by omega), if_neg (lt_irrefl x), if_pos rfl]
    · rw [Function.update_of_ne hx, emits_bounded, Nat.sub_zero, if_neg hx]
      by_cases hin : x < count
      · rw [if_pos ⟨Nat.zero_le x, hin⟩, if_pos hin]
        split
        · rw [List.getD_eq_getElem?_getD, List.getElem?_eq_getElem (by omega)]
          rfl
        · rw [List.getElem?_eq_none (by omega)]
          rfl
      · rw [if_neg (by omega), if_neg hin]

lemma emits_outFct (fct : Char → σ → σ) (maxlen : ℕ) (text : List Char) (s : σ) :
    emits (fun c i => outFct fct c i maxlen) text 0 s = (passed text).foldl (fun s c => fct c s)
      s := by
  have hout : (fun c i => outFct fct c i maxlen) =
      fun c (_ : ℕ) => (fun c s => if c ≠ '\x00' then fct c s else s) c := by
    funext c i s
    rfl
  rw [hout, emits_foldl, passed, List.foldl_filter]
  simp

lemma snprintf_some {count : ℕ} (hcount : count < 2 ^ 64) (format : List Char) (va : List Arg)
    (buffer : ℕ → Char) : snprintf (some buffer) count format va =
      (render format va).map fun r => (Int32.ofNat r.1.length, some (stored count r.1 buffer)) := by
  rw [snprintf, vsnprintf_eq, Option.map_map]
  congr 1
  funext p
  obtain ⟨text, va⟩ := p
  dsimp only [Function.comp]
  rw [stored_eq hcount]

lemma snprintf_none (count : ℕ) (format : List Char) (va : List Arg) :
    snprintf none count format va = (render format va).map fun r =>
      (Int32.ofNat r.1.length, none) := by
  rw [snprintf, vsnprintf_eq, Option.map_map]
  rfl

lemma sprintf_eq (format : List Char) (va : List Arg) (buffer : ℕ → Char) :
    sprintf buffer format va =
      (render format va).map fun r => (Int32.ofNat r.1.length, stored unbounded r.1 buffer) := by
  rw [sprintf, vsnprintf_eq, Option.map_map]
  congr 1
  funext p
  obtain ⟨text, va⟩ := p
  dsimp only [Function.comp]
  rw [stored_eq (by decide)]

lemma fctprintf_eq (fct : Char → σ → σ) (format : List Char) (va : List Arg) (s : σ) :
    fctprintf fct format va s = (render format va).map fun r =>
      (Int32.ofNat r.1.length, (passed r.1).foldl (fun s c => fct c s) s, r.2) := by
  rw [fctprintf, vsnprintf_eq]
  congr 1
  funext p
  obtain ⟨text, va⟩ := p
  dsimp only
  rw [emits_outFct]
  simp [outFct]

/-- **The functions of the family agree**: each of them makes the same text of a format and its
arguments, and returns its length. -/
theorem printf_family {count : ℕ} (hcount : count < 2 ^ 64) (format : List Char) (va : List Arg)
    (buffer : ℕ → Char) (fct : Char → σ → σ) (s : σ) :
    snprintf (some buffer) count format va =
        (render format va).map (fun r => (Int32.ofNat r.1.length, some (stored count r.1 buffer))) ∧
      snprintf none count format va =
        (render format va).map (fun r => (Int32.ofNat r.1.length, none)) ∧
      sprintf buffer format va =
        (render format va).map (fun r => (Int32.ofNat r.1.length, stored unbounded r.1 buffer)) ∧
      fctprintf fct format va s = (render format va).map fun r =>
        (Int32.ofNat r.1.length, (passed r.1).foldl (fun s c => fct c s) s, r.2) :=
  ⟨snprintf_some hcount format va buffer, snprintf_none count format va,
    sprintf_eq format va buffer, fctprintf_eq fct format va s⟩

/-- A buffer of four places, and the characters one by one. -/
theorem printf_family_four :
    (snprintf (some fun _ => '?') 4 "%u%%".toList [.word 1000]).map
      (fun r => (r.1, r.2.map fun b => (List.range 5).map b)) =
        some (5, some ['1', '0', '0', '\x00', '?']) := by
  have h := (printf_family (by decide : 4 < 2 ^ 64) "%u%%".toList [.word 1000] (fun _ => '?')
    (fun c (s : List Char) => s ++ [c]) []).1
  rw [h]
  rfl

end TurbOS.Printf
