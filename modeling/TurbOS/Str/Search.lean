import TurbOS.Lib.Fuel
import TurbOS.Lib.MappedMemory
import TurbOS.Str.Split

/-!
# Strings in memory

The functions of `string.cpp` on pointers, with the memory they read and write.  A pointer is an
address; a null pointer that a function may return is `none`.

`strstr` compares with one pointer into the text and one into the substring, and begins anew one
character later when they differ.  It finds the first occurrence, and looks at no byte behind the
terminators: these may be unmapped.
-/

open Occurrences MappedMemory

namespace TurbOS.Str.Raw

/-- The loop of `strlen`. -/
def strlenBody (m : Memory) (str length : ℕ) : Option (ℕ ⊕ ℕ) :=
  (m.read (str + length)).map fun c => if c ≠ 0 then .inl (length + 1) else .inr length

/-- `strlen`. -/
def strlen (m : Memory) (fuel str : ℕ) : Option ℕ := Fuel.loop (strlenBody m str) fuel 0

/-- The pointers of `strstr`. -/
structure Pointers where
  str : ℕ
  a : ℕ
  b : ℕ

/-- The loop of `strstr`. -/
def strstrBody (m : Memory) (substring : ℕ) (ptr : Pointers) : Option (Pointers ⊕ Option ℕ) :=
  (m.read ptr.b).bind fun y =>
    if y = 0 then some (.inr (some ptr.str))
    else
      (m.read ptr.a).map fun x =>
        if x = 0 then .inr none
        else if x ≠ y then .inl ⟨ptr.str + 1, ptr.str + 1, substring⟩
        else .inl ⟨ptr.str, ptr.a + 1, ptr.b + 1⟩

/-- `strstr`. -/
def strstr (m : Memory) (fuel str substring : ℕ) : Option (Option ℕ) :=
  Fuel.loop (strstrBody m substring) fuel ⟨str, str, substring⟩

variable {m : Memory} {fuel str substring : ℕ} {s t : List UInt8}

/-! ## `strlen` -/

lemma strlen_eq (hs : Text m str s) (hfuel : s.length < fuel) :
    strlen m fuel str = some s.length := by
  let Inv : ℕ → ℕ → Prop := fun k length => length + k = s.length
  have hbody : ∀ k length, Inv k length → Fuel.Meets True (strlenBody m str length)
      (Sum.elim (fun length' => ∃ k' < k, Inv k' length') (· = s.length)) := by
    intro k length hk
    rw [strlenBody]
    by_cases hend : length = s.length
    · rw [hend, hs.read_end, Option.map_some, if_neg (by simp)]
      exact .pure rfl
    · have hlt : length < s.length := by
        dsimp only [Inv] at hk
        omega
      obtain ⟨hread, hne⟩ := hs.read_lt hlt
      rw [hread, Option.map_some, if_pos hne]
      refine .pure ⟨k - 1, ?_, ?_⟩ <;> dsimp only [Inv] at hk ⊢ <;> omega
  obtain ⟨length, hlength, heq⟩ :=
    (Fuel.loop_meets True Inv hbody fuel s.length 0 (Nat.zero_add _)).returns ⟨trivial, hfuel⟩
  rw [strlen, hlength, heq]

/-! ## `strstr` -/

/-- The pointers compare the substring with the text at position `i`, and agree on `j`
characters; there is no occurrence at the positions before.  The bound is the number of
comparisons that may follow. -/
structure Comparing (s t : List UInt8) (str substring : ℕ) (bound : ℕ) (ptr : Pointers) (i j : ℕ) :
    Prop where
  str_eq : ptr.str = str + i
  a_eq : ptr.a = str + (i + j)
  b_eq : ptr.b = substring + j
  le : i + j ≤ s.length
  le' : j ≤ t.length
  agree : ∀ l < j, s[i + l]? = t[l]?
  before : ∀ k < i, ¬ t <+: s.drop k
  bound_eq : bound = (s.length - i) * (t.length + 1) + (t.length - j)

/-- The text ends inside the substring. -/
lemma not_prefix_of_ended {i j : ℕ} (hend : i + j = s.length) (hj : j < t.length)
    (hbefore : ∀ k < i, ¬ t <+: s.drop k) (k : ℕ) : ¬ t <+: s.drop k := by
  intro hk
  have hlen := hk.length_le
  rw [List.length_drop] at hlen
  exact hbefore k (by omega) hk

/-- One round. -/
lemma strstrBody_meets (hs : Text m str s) (ht : Text m substring t) {bound : ℕ} {ptr : Pointers}
    (h : ∃ i j, Comparing s t str substring bound ptr i j) :
    Fuel.Meets True (strstrBody m substring ptr)
      (Sum.elim (fun ptr' => ∃ bound' < bound, ∃ i j, Comparing s t str substring bound' ptr' i j)
        (· = (find t s).map (str + ·))) := by
  obtain ⟨i, j, h⟩ := h
  obtain ⟨p, a, b⟩ := ptr
  obtain ⟨rfl, rfl, rfl, hle, hle', hagree, hbefore, rfl⟩ := h
  rw [strstrBody]
  dsimp only
  by_cases hj : j = t.length
  · -- the whole substring was found
    have hfirst : First t s i := by
      constructor
      · exact prefix_drop_iff.mpr fun l hl => hagree l (by omega)
      · intro k hk
        by_contra hlt
        exact hbefore k (by omega) hk
    rw [hj, ht.read_end, Option.bind_some, if_pos rfl]
    refine .pure ?_
    rw [Sum.elim_inr, find_eq_some.mpr hfirst, Option.map_some]
  have hlt : j < t.length := by omega
  obtain ⟨hy, hyne⟩ := ht.read_lt hlt
  rw [hy, Option.bind_some, if_neg hyne]
  by_cases hend : i + j = s.length
  · rw [hend, hs.read_end, Option.map_some, if_pos rfl]
    refine .pure ?_
    rw [Sum.elim_inr, find_eq_none.mpr (not_prefix_of_ended hend hlt hbefore), Option.map_none]
  have hlt' : i + j < s.length := by omega
  obtain ⟨hx, hxne⟩ := hs.read_lt hlt'
  rw [hx, Option.map_some, if_neg hxne]
  have hget : s[i + j]? = some s[i + j] := List.getElem?_eq_getElem hlt'
  have hget' : t[j]? = some t[j] := List.getElem?_eq_getElem hlt
  by_cases heq : s[i + j] = t[j]
  · rw [if_neg (not_not_intro heq)]
    refine .pure ⟨_, ?_, i, j + 1, rfl, by dsimp only; omega, by dsimp only; omega, by omega,
      by omega, ?_, hbefore, rfl⟩
    · omega
    · intro l hl
      by_cases hlast : l = j
      · rw [hlast, hget, hget', heq]
      · exact hagree l (by omega)
  · rw [if_pos heq]
    refine .pure ⟨_, ?_, i + 1, 0, by dsimp only; omega, by dsimp only; omega, rfl, by omega,
      by omega, by omega, ?_, rfl⟩
    · have hrow : (s.length - i) * (t.length + 1)
          = (s.length - (i + 1)) * (t.length + 1) + (t.length + 1) := by
        rw [← Nat.succ_mul]
        congr 1
        omega
      omega
    · intro k hk
      by_cases hlast : k = i
      · rw [hlast]
        intro hprefix
        have hsame := prefix_drop_iff.mp hprefix j hlt
        rw [hget, hget'] at hsame
        exact heq (Option.some.inj hsame)
      · exact hbefore k (by omega)

/-- What `strstr` returns, and how many rounds it takes at most. -/
lemma strstr_eq (hs : Text m str s) (ht : Text m substring t)
    (hfuel : (s.length + 1) * (t.length + 1) ≤ fuel) :
    strstr m fuel str substring = some ((find t s).map (str + ·)) := by
  have hstart : Comparing s t str substring (s.length * (t.length + 1) + t.length)
      ⟨str, str, substring⟩ 0 0 :=
    ⟨rfl, rfl, rfl, by omega, by omega, by omega, by omega, rfl⟩
  have hlt : s.length * (t.length + 1) + t.length < fuel := by
    rw [Nat.succ_mul] at hfuel
    omega
  obtain ⟨r, hr, heq⟩ := (Fuel.loop_meets True
    (fun bound ptr => ∃ i j, Comparing s t str substring bound ptr i j)
    (fun bound ptr h => strstrBody_meets hs ht h) fuel _ _ ⟨0, 0, hstart⟩).returns ⟨trivial, hlt⟩
  rw [strstr, hr, heq]

/-! ## Strings of characters -/

/-- A character as it stands in memory. -/
def byte (c : Char) : UInt8 := UInt8.ofNat c.toNat

/-- Characters of one byte are told apart. -/
lemma byte_injOn : Set.InjOn byte {c | c.toNat < 256} := by
  intro c hc c' hc' heq
  have hlt : c.toNat < 256 := hc
  have hlt' : c'.toNat < 256 := hc'
  have hnat := congrArg UInt8.toNat heq
  rw [byte, byte, UInt8.toNat_ofNat', UInt8.toNat_ofNat', Nat.mod_eq_of_lt hlt,
    Nat.mod_eq_of_lt hlt'] at hnat
  exact Char.ext (UInt32.toNat_inj.mp hnat)

lemma byte_injOn_of {s t : List Char} (h : ∀ c ∈ s ++ t, c.toNat < 256) :
    Set.InjOn byte {c | c ∈ s ∨ c ∈ t} :=
  byte_injOn.mono fun _ hc => h _ (List.mem_append.mpr hc)

/-- The pointer that `strstr` returns is that to the rest of the string. -/
lemma strstr_refines {s t : List Char} (h : ∀ c ∈ s ++ t, c.toNat < 256)
    (hs : Text m str (s.map byte)) (ht : Text m substring (t.map byte))
    (hfuel : (s.length + 1) * (t.length + 1) ≤ fuel) :
    strstr m fuel str substring =
      some ((Str.strstr s t).map fun rest => str + (s.length - rest.length)) := by
  rw [strstr_eq hs ht (by rwa [List.length_map, List.length_map]), find_map (byte_injOn_of h),
    strstr_eq_find, Option.map_map]
  refine congrArg some (Option.map_congr fun k hk => ?_)
  have hle := (find_eq_some.mp hk).le_length
  rw [Function.comp_apply, List.length_drop]
  omega

/-- **`strstr` finds the first occurrence** of the substring, or says that there is none.  It reads
nothing but the two strings with their terminators: in any memory that has the same bytes there,
whatever else is mapped, the result is the same. -/
theorem strstr_first (hs : Text m str s) (ht : Text m substring t) :
    ∃ r, (∀ (m' : Memory) (fuel : ℕ), (∀ i ≤ s.length, m'.read (str + i) = m.read (str + i)) →
        (∀ j ≤ t.length, m'.read (substring + j) = m.read (substring + j)) →
        (s.length + 1) * (t.length + 1) ≤ fuel → strstr m' fuel str substring = some r) ∧
      ((∃ k, r = some (str + k) ∧ IsLeast {k | t <+: s.drop k} k) ∨
        r = none ∧ ∀ k, ¬ t <+: s.drop k) := by
  refine ⟨(find t s).map (str + ·), fun m' fuel hread hread' hfuel => ?_, ?_⟩
  · exact strstr_eq (hs.of_read hread) (ht.of_read hread') hfuel
  · rcases find_spec t s with ⟨k, hk, hfirst⟩ | ⟨hnone, hall⟩
    · exact .inl ⟨k, by rw [hk, Option.map_some], hfirst⟩
    · exact .inr ⟨by rw [hnone, Option.map_none], hall⟩

/-- `"aab"` and `"ab"`, and nothing else. -/
def sample : Memory := ofList 100 [97, 97, 98, 0, 97, 98, 0] (by decide)

lemma sample_text : Text sample 100 [97, 97, 98] :=
  .of_bytes (by decide) (by decide) (by decide)

lemma sample_substring : Text sample 104 [97, 98] := .of_bytes (by decide) (by decide) (by decide)

theorem strstr_first_sample :
    ∃ r, (∀ (m' : Memory) (fuel : ℕ), (∀ i ≤ 3, m'.read (100 + i) = sample.read (100 + i)) →
        (∀ j ≤ 2, m'.read (104 + j) = sample.read (104 + j)) →
        12 ≤ fuel → strstr m' fuel 100 104 = some r) ∧
      ((∃ k, r = some (100 + k) ∧ IsLeast {k | [97, 98] <+: ([97, 97, 98] : List UInt8).drop k} k) ∨
        r = none ∧ ∀ k, ¬ [97, 98] <+: ([97, 97, 98] : List UInt8).drop k) :=
  strstr_first sample_text sample_substring

end TurbOS.Str.Raw
