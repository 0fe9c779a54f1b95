import TurbOS.Lib.Fuel
import TurbOS.Lib.MappedMemory

/-!
# Comparing strings in memory

`strcmp` compares up to the terminator, `strncmp` a number of characters, terminators or not; it
does not say which of the strings is the greater one.  `memcmp` does not see a difference in the
last byte.
-/

open MappedMemory

namespace TurbOS.Str.Raw

/-- The loop of `strcmp`, with what is returned behind it. -/
def strcmpBody (m : Memory) (ptr : ℕ × ℕ) : Option (ℕ × ℕ ⊕ ℤ) :=
  (m.read ptr.1).bind fun a => (m.read ptr.2).map fun b =>
    if a ≠ 0 ∧ a = b then .inl (ptr.1 + 1, ptr.2 + 1) else .inr (a.toNat - b.toNat)

/-- `strcmp`. -/
def strcmp (m : Memory) (fuel a b : ℕ) : Option ℤ := Fuel.loop (strcmpBody m) fuel (a, b)

/-- `strncmp`. -/
def strncmp (m : Memory) (a b : ℕ) : ℕ → Option ℤ
  | 0 => some 0
  | n + 1 => (m.read a).bind fun x => (m.read b).bind fun y =>
      if x ≠ y then some 1 else strncmp m (a + 1) (b + 1) n

/-- `memcmp` with a literal of as many bytes as are compared.  `repe cmpsb` counts down and stops at
a difference; `jecxz` takes the count zero for equality, also if the last bytes differ. -/
def memcmp (m : Memory) (a : ℕ) : List UInt8 → Option ℤ
  | [] => some 0
  | y :: ys => (m.read a).bind fun x =>
      if x = y then memcmp m (a + 1) ys
      else if ys = [] then some 0
      else some (x - y).toBitVec.toInt

variable {m : Memory} {fuel a b : ℕ} {s t : List UInt8} {x : UInt8}

/-- The empty string compares equal exactly to a string without a first character. -/
lemma strcmp_empty (ha : m.read a = some x) (hb : Text m b []) (hfuel : 0 < fuel) :
    strcmp m fuel a b = some (x.toNat : ℤ) := by
  obtain ⟨n, rfl⟩ : ∃ n, fuel = n + 1 := ⟨fuel - 1, by omega⟩
  have hread : m.read b = some 0 := hb.read_end
  have hexit : ¬ (x ≠ 0 ∧ x = 0) := fun h => h.1 h.2
  rw [strcmp, Fuel.loop_succ, strcmpBody, ha, Option.bind_some, hread, Option.map_some,
    if_neg hexit]
  simp

/-- Two strings of one length compare equal exactly if they are the same. -/
lemma strncmp_eq (ha : Bytes m a s) (hb : Bytes m b t) (hlen : s.length = t.length) :
    strncmp m a b s.length = some (if s = t then 0 else 1) := by
  induction s generalizing a b t with
  | nil =>
    obtain rfl : t = [] := List.eq_nil_of_length_eq_zero hlen.symm
    rfl
  | cons x s ih =>
    obtain ⟨y, t, rfl⟩ : ∃ y t', t = y :: t' :=
      List.exists_cons_of_ne_nil (by rintro rfl; simp at hlen)
    obtain ⟨hx, hs⟩ := Bytes.cons_iff.mp ha
    obtain ⟨hy, ht⟩ := Bytes.cons_iff.mp hb
    rw [List.length_cons, strncmp, hx, Option.bind_some, hy, Option.bind_some]
    by_cases hxy : x = y
    · rw [if_neg (not_not.mpr hxy), ih hs ht (by simpa using hlen)]
      simp [hxy]
    · rw [if_pos hxy, if_neg (by simp [hxy])]

/-- Bytes that may be read are compared. -/
lemma memcmp_returns (ha : Bytes m a s) (hlen : s.length = t.length) :
    ∃ r, memcmp m a t = some r := by
  induction t generalizing a s with
  | nil => exact ⟨0, rfl⟩
  | cons y t ih =>
    obtain ⟨x, s, rfl⟩ : ∃ x s', s = x :: s' :=
      List.exists_cons_of_ne_nil (by rintro rfl; simp at hlen)
    obtain ⟨hx, hs⟩ := Bytes.cons_iff.mp ha
    rw [memcmp, hx, Option.bind_some]
    split
    · exact ih hs (by simpa using hlen)
    · split <;> exact ⟨_, rfl⟩

/-- If the bytes are equal but for the last one, that one is read and makes no difference. -/
lemma memcmp_of_bytes {y : UInt8} (h : Bytes m a t) :
    memcmp m a (t ++ [y]) = (m.read (a + t.length)).map fun _ => 0 := by
  induction t generalizing a with
  | nil =>
    rw [List.nil_append, memcmp, List.length_nil, Nat.add_zero, Option.map_eq_bind]
    congr 1
    funext x
    rw [memcmp, if_pos rfl, ite_self]
    rfl
  | cons z t ih =>
    obtain ⟨hz, ht⟩ := Bytes.cons_iff.mp h
    rw [List.cons_append, memcmp, hz, Option.bind_some, if_pos rfl, ih ht, List.length_cons,
      Nat.add_assoc, Nat.add_comm 1]

/-- Equal means equal but for the last byte. -/
lemma memcmp_eq_zero_iff {y : UInt8} :
    memcmp m a (t ++ [y]) = some 0 ↔ Bytes m a t ∧ ∃ x, m.read (a + t.length) = some x := by
  constructor
  · intro h
    have hbytes : Bytes m a t := by
      induction t generalizing a with
      | nil => exact .nil
      | cons z t ih =>
        rw [List.cons_append, memcmp, Option.bind_eq_some_iff] at h
        obtain ⟨x, hx, hrest⟩ := h
        by_cases hxz : x = z
        · rw [if_pos hxz] at hrest
          exact Bytes.cons_iff.mpr ⟨hxz ▸ hx, ih hrest⟩
        · -- the difference of the two bytes is not zero
          rw [if_neg hxz, if_neg (by simp), Option.some.injEq] at hrest
          have hzero : (x - z).toBitVec = 0 := BitVec.eq_of_toInt_eq (by rw [hrest]; rfl)
          have hsub : x - z = 0 := UInt8.toBitVec_inj.mp hzero
          exact absurd (by simpa [sub_eq_zero] using hsub) hxz
    rw [memcmp_of_bytes hbytes, Option.map_eq_some_iff] at h
    obtain ⟨x, hx, -⟩ := h
    exact ⟨hbytes, x, hx⟩
  · rintro ⟨hbytes, x, hx⟩
    rw [memcmp_of_bytes hbytes, hx, Option.map_some]

end TurbOS.Str.Raw
