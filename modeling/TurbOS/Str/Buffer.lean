import Mathlib

/-!
# Strings in buffers

A buffer of a fixed size holds a string up to its first zero.  Writing beyond the end of a
buffer, or reading on because there is no zero, is a fault: the result is `none`.

`strcat` of `string.cpp` does not write a terminator: what stood in the buffer behind the
appended characters now belongs to the string.
-/

namespace TurbOS.Str

/-- The string in a buffer. -/
def text (buf : List Char) : Option (List Char) :=
  if '\x00' ∈ buf then some (buf.takeWhile (· ≠ '\x00')) else none

/-- `strcpy`. -/
def strcpy (buf source : List Char) : Option (List Char) :=
  if source.length < buf.length then some (source ++ '\x00' :: buf.drop (source.length + 1))
  else none

/-- `strcat`. -/
def strcat (buf source : List Char) : Option (List Char) :=
  (text buf).bind fun s =>
    if s.length + source.length ≤ buf.length then
      some (s ++ source ++ buf.drop (s.length + source.length))
    else none

variable {buf s : List Char}

/-- The string ends at the first zero. -/
lemma text_eq_some_iff : text buf = some s ↔ ∃ rest, buf = s ++ '\x00' :: rest ∧ '\x00' ∉ s := by
  constructor
  · intro h
    rw [text] at h
    split at h
    · rename_i hmem
      obtain rfl := Option.some.inj h
      have hne : buf.dropWhile (· ≠ '\x00') ≠ [] := by
        rw [Ne, List.dropWhile_eq_nil_iff]
        intro hall
        simpa using hall _ hmem
      obtain ⟨x, rest, hrest⟩ := List.exists_cons_of_ne_nil hne
      have hx : x = '\x00' := by
        have := List.head_dropWhile_not (fun x : Char => decide (x ≠ '\x00')) hne
        simp only [hrest, List.head_cons] at this
        simpa using this
      refine ⟨rest, ?_, fun hin => ?_⟩
      · rw [hx] at hrest
        rw [← hrest, List.takeWhile_append_dropWhile]
      · simpa using List.mem_takeWhile_imp hin
    · simp at h
  · rintro ⟨rest, rfl, hs⟩
    rw [text, if_pos (by simp), List.takeWhile_append_of_pos]
    · simp
    · intro x hx
      simp only [ne_eq, decide_not, Bool.not_eq_true', decide_eq_false_iff_not]
      rintro rfl
      exact hs hx

lemma exists_text (h : '\x00' ∈ buf) : ∃ s, text buf = some s := ⟨_, if_pos h⟩

lemma length_lt_of_text (h : text buf = some s) : s.length < buf.length := by
  obtain ⟨rest, rfl, -⟩ := text_eq_some_iff.mp h
  simp

/-- The string is empty exactly if the buffer starts with a zero. -/
lemma head_eq_zero_iff (h : text buf = some s) : buf.head? = some '\x00' ↔ s = [] := by
  obtain ⟨rest, rfl, hs⟩ := text_eq_some_iff.mp h
  cases s with
  | nil => simp
  | cons x s =>
    simp only [List.mem_cons, not_or] at hs
    simp [Ne.symm hs.1]

lemma strcat_nil (h : text buf = some s) : strcat buf [] = some buf := by
  obtain ⟨rest, rfl, -⟩ := text_eq_some_iff.mp h
  rw [strcat, h]
  simp

/-- Appending one character overwrites the terminator. -/
lemma strcat_singleton (h : text buf = some s) (ch : Char) :
    strcat buf [ch] = some (buf.set s.length ch) := by
  obtain ⟨rest, rfl, -⟩ := text_eq_some_iff.mp h
  rw [strcat, h, Option.bind_some, if_pos (by simp)]
  simp

/-- After a character was appended the string is longer; what stood behind the terminator may
belong to it now. -/
lemma length_lt_text_set {t : List Char} {ch : Char} (h : text buf = some s) (hch : ch ≠ '\x00')
    (ht : text (buf.set s.length ch) = some t) : s.length < t.length := by
  obtain ⟨rest, rfl, hs⟩ := text_eq_some_iff.mp h
  obtain ⟨rest', heq, -⟩ := text_eq_some_iff.mp ht
  have hzero : ((s ++ '\x00' :: rest).set s.length ch)[t.length]? = some '\x00' := by
    rw [heq]
    simp
  by_contra hlt
  rw [List.getElem?_set] at hzero
  split at hzero
  · rename_i hlen
    rw [if_pos (by simp)] at hzero
    exact hch (Option.some.inj hzero)
  · rw [List.getElem?_append_left (by omega)] at hzero
    exact hs (List.mem_of_getElem? hzero)

/-- Taking the last character from the string. -/
lemma text_set_last (h : text buf = some s) (hs : s ≠ []) :
    text (buf.set (s.length - 1) '\x00') = some s.dropLast := by
  obtain ⟨rest, rfl, hzero⟩ := text_eq_some_iff.mp h
  obtain ⟨d, x, rfl⟩ := List.eq_nil_or_concat s |>.resolve_left hs
  refine text_eq_some_iff.mpr ⟨'\x00' :: rest, ?_, ?_⟩
  · simp
  · simp only [List.concat_eq_append, List.mem_append, not_or] at hzero
    simpa using hzero.1

end TurbOS.Str
