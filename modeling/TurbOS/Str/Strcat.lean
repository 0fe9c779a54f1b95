import TurbOS.Str.Strrm

/-!
# Appending to a string in memory

`strcat` copies up to the terminator of the source, and not the terminator: the string ends where a
zero stood before.  In an array that was cleared this is right behind the new characters, as long as
one zero is left.
-/

open Occurrences MappedMemory

namespace TurbOS.Str.Raw

/-- The loop of `strcat`: `*ptr++ = *source++`. -/
def strcatBody (st : Copying) : Option (Copying ⊕ Memory) :=
  (st.memory.read st.source).bind fun c =>
    if c ≠ 0 then
      (st.memory.write st.destination c).map fun m => .inl ⟨m, st.destination + 1, st.source + 1⟩
    else some (.inr st.memory)

/-- `strcat`. -/
def strcat (m : Memory) (fuel destination source : ℕ) : Option Memory :=
  if destination = 0 then some m
  else
    (strlen m fuel destination).bind fun length =>
      Fuel.loop strcatBody fuel ⟨m, destination + length, source⟩

/-- Zeros are written to an array of `n` bytes. -/
def clearArray (m : Memory) (a : ℕ) : ℕ → Option Memory
  | 0 => some m
  | n + 1 => (m.write a 0).bind fun m => clearArray m (a + 1) n

variable {m m' : Memory} {a n fuel destination source : ℕ} {s t : List UInt8} {ch : UInt8}

/-! ## Arrays -/

/-- An array of `n` bytes at `a` holds a string, and zeros behind it. -/
structure Padded (m : Memory) (a n : ℕ) (s : List UInt8) : Prop where
  mapped : ∀ i < n, m.mapped (a + i) = true
  chars : ∀ i (hi : i < s.length), m.bytes (a + i) = s[i]
  zeros : ∀ i, s.length ≤ i → i < n → m.bytes (a + i) = 0
  nonzero : 0 ∉ s

lemma Padded.text (h : Padded m a n s) (hlen : s.length < n) : Text m a s := by
  refine .of_bytes (fun i hi => h.mapped i (by omega)) (fun i hi => ?_) h.nonzero
  by_cases hend : i = s.length
  · rw [hend, List.getElem?_concat_length, h.zeros _ le_rfl hlen]
  · have hlt : i < s.length := by omega
    rw [List.getElem?_append_left hlt, List.getElem?_eq_getElem hlt, h.chars i hlt]

lemma Padded.congr (h : Padded m a n s) (hlen : s.length ≤ n)
    (hmapped : ∀ x, m'.mapped x = m.mapped x)
    (hbytes : ∀ i < n, m'.bytes (a + i) = m.bytes (a + i)) : Padded m' a n s where
  mapped := fun i hi => by rw [hmapped, h.mapped i hi]
  chars := fun i hi => by rw [hbytes i (by omega), h.chars i hi]
  zeros := fun i hi hn => by rw [hbytes i hn, h.zeros i hi hn]
  nonzero := h.nonzero

/-- One more character. -/
lemma Padded.snoc (h : Padded m a n s) (hch : ch ≠ 0) :
    Padded (m.set (a + s.length) ch) a n (s ++ [ch]) where
  mapped := h.mapped
  chars := by
    intro i hi
    rw [List.length_append, List.length_singleton] at hi
    by_cases hend : i = s.length
    · subst hend
      rw [Memory.set_self, List.getElem_concat_length rfl]
    · rw [(Memory.frame_set m (a + s.length) ch).bytes _ (by omega),
        List.getElem_append_left (by omega), h.chars i (by omega)]
  zeros := by
    intro i hi hn
    rw [List.length_append, List.length_singleton] at hi
    rw [(Memory.frame_set m (a + s.length) ch).bytes _ (by omega), h.zeros i (by omega) hn]
  nonzero := by
    rw [List.mem_append, List.mem_singleton, not_or]
    exact ⟨h.nonzero, Ne.symm hch⟩

lemma clearArray_spec (hmapped : ∀ i < n, m.mapped (a + i) = true) :
    ∃ m', clearArray m a n = some m' ∧ m.Frame m' a n ∧ Padded m' a n [] := by
  induction n generalizing m a with
  | zero => exact ⟨m, rfl, ⟨fun _ => rfl, fun _ _ => rfl⟩, ⟨hmapped, by simp, by simp, by simp⟩⟩
  | succ n ih =>
    obtain ⟨m', hm', hf, hpad⟩ := ih (m := m.set a 0) (a := a + 1) fun i hi => by
      rw [Nat.add_right_comm]
      exact hmapped (i + 1) (by omega)
    have hset := Memory.frame_set m a 0
    have hboth : m.Frame m' a (n + 1) :=
      ⟨fun x => (hf.mapped x).trans (hset.mapped x),
        fun x hx => (hf.bytes x (by omega)).trans (hset.bytes x (by omega))⟩
    have hfirst : m.write a 0 = some (m.set a 0) := Memory.write_of_mapped (hmapped 0 (by omega))
    refine ⟨m', by rw [clearArray, hfirst, Option.bind_some, hm'], hboth,
      fun i hi => by rw [hboth.mapped, hmapped i hi], by simp, fun i _ hi => ?_, by simp⟩
    cases i with
    | zero => rw [Nat.add_zero, hf.bytes a (by omega), Memory.set_self]
    | succ i =>
      rw [← Nat.add_assoc, Nat.add_right_comm]
      exact hpad.zeros i (Nat.zero_le _) (by omega)

/-! ## `strcat` -/

/-- One character is appended. -/
lemma strcat_singleton (hne : destination ≠ 0) (hs : Text m destination s) (ht : Text m source [ch])
    (hout : source + 1 < destination + s.length ∨ destination + s.length < source)
    (hfuel : s.length < fuel) (htwo : 1 < fuel) :
    strcat m fuel destination source = some (m.set (destination + s.length) ch) := by
  obtain ⟨fuel, rfl⟩ : ∃ n, fuel = n + 2 := ⟨fuel - 2, by omega⟩
  obtain ⟨hread, hch⟩ : m.read source = some ch ∧ ch ≠ 0 := ht.read_lt (i := 0) (by simp)
  have hend : (m.set (destination + s.length) ch).read (source + 1) = some 0 := by
    have hold : m.read (source + 1) = some 0 := ht.read_end
    have hf := Memory.frame_set m (destination + s.length) ch
    rw [Memory.read, hf.mapped, hf.bytes _ (by omega)]
    exact hold
  rw [strcat, if_neg hne, strlen_eq hs hfuel, Option.bind_some, Fuel.loop_succ, strcatBody]
  dsimp only
  rw [hread, Option.bind_some, if_pos hch, Memory.write_of_mapped (hs.mapped _ le_rfl)]
  dsimp only [Option.map_some, Option.bind_some, Sum.elim_inl]
  rw [Fuel.loop_succ, strcatBody]
  dsimp only
  rw [hend]
  rfl

/-! ## What is mapped -/

lemma mapped_of_write {b : UInt8} (h : m.write a b = some m') : m'.mapped = m.mapped := by
  rw [Memory.write] at h
  split at h
  · rw [← Option.some.inj h]
    rfl
  · simp at h

lemma mapped_of_clearArray (h : clearArray m a n = some m') : m'.mapped = m.mapped := by
  induction n generalizing m a with
  | zero => rw [← Option.some.inj h]
  | succ n ih =>
    obtain ⟨m₁, h₁, h⟩ := Option.bind_eq_some_iff.1 h
    exact (ih h).trans (mapped_of_write h₁)

/-- A loop maps no addresses if its body maps none. -/
lemma mapped_of_loop {σ α : Type*} {body : σ → Option (σ ⊕ α)} (before : σ → Memory)
    (after : α → Memory) (hbody : ∀ st r, body st = some r →
      Sum.elim (fun st' => (before st').mapped) (fun x => (after x).mapped) r = (before st).mapped)
    {st : σ} {x : α} (h : Fuel.loop body fuel st = some x) :
    (after x).mapped = (before st).mapped := by
  refine Fuel.loop_post (fun st' : σ => (before st').mapped = (before st).mapped)
    (Q := fun x => (after x).mapped = (before st).mapped) (fun st' r hst' hr => ?_) rfl h
  have hr' := hbody st' r hr
  cases r with
  | inl st'' => exact hr'.trans hst'
  | inr x => exact hr'.trans hst'

lemma mapped_of_strcat (h : strcat m fuel destination source = some m') : m'.mapped = m.mapped := by
  rw [strcat] at h
  split at h
  · rw [← Option.some.inj h]
  · obtain ⟨length, -, h⟩ := Option.bind_eq_some_iff.1 h
    refine mapped_of_loop Copying.memory id (fun st r hr => ?_) h
    obtain ⟨c, -, hr⟩ := Option.bind_eq_some_iff.1 hr
    split at hr
    · obtain ⟨m₁, h₁, rfl⟩ := Option.map_eq_some_iff.1 hr
      exact mapped_of_write h₁
    · rw [← Option.some.inj hr]
      rfl

lemma mapped_of_tailLoop {st : Copying} (h : Fuel.loop tailBody fuel st = some m') :
    m'.mapped = st.memory.mapped := by
  refine mapped_of_loop Copying.memory id (fun st r hr => ?_) h
  obtain ⟨c, -, hr⟩ := Option.bind_eq_some_iff.1 hr
  obtain ⟨m₁, h₁, rfl⟩ := Option.map_eq_some_iff.1 hr
  split
  · exact mapped_of_write h₁
  · exact mapped_of_write h₁

lemma mapped_of_moveLoop {st st' : Copying} {r : ℕ}
    (h : Fuel.loop (moveBody r) fuel st = some st') : st'.memory.mapped = st.memory.mapped := by
  refine mapped_of_loop Copying.memory Copying.memory (fun st r hr => ?_) h
  rw [moveBody] at hr
  split at hr
  · obtain ⟨c, -, hr⟩ := Option.bind_eq_some_iff.1 hr
    obtain ⟨m₁, h₁, rfl⟩ := Option.map_eq_some_iff.1 hr
    exact mapped_of_write h₁
  · rw [← Option.some.inj hr]
    rfl

lemma mapped_of_removeFrom {substring len q r : ℕ}
    (h : removeFrom m fuel substring len q r = some m') : m'.mapped = m.mapped := by
  obtain ⟨st, hst, h⟩ := Option.bind_eq_some_iff.1 h
  refine (mapped_of_tailLoop h).trans ?_
  refine mapped_of_loop Removing.memory Copying.memory (fun st r hr => ?_) hst
  obtain ⟨found, -, hr⟩ := Option.bind_eq_some_iff.1 hr
  cases found with
  | none =>
    rw [← Option.some.inj hr]
    rfl
  | some r =>
    obtain ⟨moved, hmoved, rfl⟩ := Option.map_eq_some_iff.1 hr
    exact mapped_of_moveLoop hmoved

lemma mapped_of_strrm {str substring r : ℕ} (h : strrm m fuel str substring = some (r, m')) :
    m'.mapped = m.mapped := by
  obtain ⟨c, -, h⟩ := Option.bind_eq_some_iff.1 h
  split at h
  · rw [← (Prod.mk.inj (Option.some.inj h)).2]
  · obtain ⟨found, -, h⟩ := Option.bind_eq_some_iff.1 h
    cases found with
    | none => rw [← (Prod.mk.inj (Option.some.inj h)).2]
    | some r =>
      obtain ⟨len, -, h⟩ := Option.bind_eq_some_iff.1 h
      obtain ⟨m₁, h₁, heq⟩ := Option.map_eq_some_iff.1 h
      rw [← (Prod.mk.inj heq).2]
      exact mapped_of_removeFrom h₁

end TurbOS.Str.Raw
