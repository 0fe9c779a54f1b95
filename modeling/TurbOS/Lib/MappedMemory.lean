import TurbOS.Lib.ByteMemory

/-!
# Memory with unmapped addresses

Only some addresses of a memory may be used; reading or writing any other is a fault, and the
result is `none`.  The processor translates only canonical addresses, so an object without gaps
has less than `2 ^ 47` bytes.

`Text m a s` says that the string `s` stands at `a`, in front of its terminator; nothing is said
about the bytes behind it.  A new block takes addresses that were not mapped before.
-/

namespace MappedMemory

open ByteMemory

/-- The addresses that the processor translates. -/
def Canonical (a : ℕ) : Prop := a < 2 ^ 47 ∨ 2 ^ 64 ≤ a + 2 ^ 47 ∧ a < 2 ^ 64

lemma Canonical.lt {a : ℕ} (h : Canonical a) : a < 2 ^ 64 := by
  rcases h with h | h <;> omega

instance (a : ℕ) : Decidable (Canonical a) :=
  inferInstanceAs (Decidable (a < 2 ^ 47 ∨ 2 ^ 64 ≤ a + 2 ^ 47 ∧ a < 2 ^ 64))

/-- Memory, of which only the mapped addresses may be used. -/
structure Memory where
  bytes : Mem
  mapped : ℕ → Bool
  canonical : ∀ a, mapped a = true → Canonical a

/-- A memory of which only the given bytes from `a` on are mapped. -/
def ofList (a : ℕ) (bytes : List UInt8) (h : a + bytes.length ≤ 2 ^ 47) : Memory where
  bytes := fun x => bytes[x - a]?.getD 0
  mapped := fun x => decide (a ≤ x ∧ x < a + bytes.length)
  canonical := fun x hx => .inl (by rw [decide_eq_true_eq] at hx; omega)

namespace Memory

/-- `*a`. -/
def read (m : Memory) (a : ℕ) : Option UInt8 := if m.mapped a then some (m.bytes a) else none

/-- The memory with the byte `b` at `a`. -/
def set (m : Memory) (a : ℕ) (b : UInt8) : Memory := { m with bytes := Function.update m.bytes a b }

/-- `*a = b`. -/
def write (m : Memory) (a : ℕ) (b : UInt8) : Option Memory :=
  if m.mapped a then some (m.set a b) else none

/-- All bytes of a word are mapped. -/
def wordMapped (m : Memory) (a : ℕ) : Bool := (List.range 8).all fun i => m.mapped (a + i)

/-- The memory after `n` bytes from `s` on were copied to `d` on, one at a time. -/
def copied (m : Memory) (d s n : ℕ) : Memory := { m with bytes := copy m.bytes d s n }

/-- Read a word of 64 bits. -/
def readWord (m : Memory) (a : ℕ) : Option ℕ :=
  if m.wordMapped a then some (load m.bytes a 8) else none

/-- The memory with the word `v` at `a`. -/
def setWord (m : Memory) (a v : ℕ) : Memory := { m with bytes := store m.bytes a 8 v }

/-- Write a word of 64 bits. -/
def writeWord (m : Memory) (a v : ℕ) : Option Memory :=
  if m.wordMapped a then some (m.setWord a v) else none

end Memory

/-- A block of `size` bytes for a memory, with what stands in it. -/
structure Block (m : Memory) (size : ℕ) where
  address : ℕ
  contents : Mem
  positive : 0 < address
  unused : ∀ i < size, m.mapped (address + i) = false
  canonical : ∀ i < size, Canonical (address + i)

namespace Memory

/-- The memory with a new block. -/
def add {size : ℕ} (m : Memory) (block : Block m size) : Memory where
  bytes := fun x =>
    if block.address ≤ x ∧ x < block.address + size then block.contents x else m.bytes x
  mapped := fun x => decide (block.address ≤ x ∧ x < block.address + size) || m.mapped x
  canonical := by
    intro x hx
    rw [Bool.or_eq_true, decide_eq_true_eq] at hx
    rcases hx with ⟨hle, hlt⟩ | hold
    · rw [← Nat.add_sub_cancel' hle]
      exact block.canonical _ (by omega)
    · exact m.canonical x hold

variable {m m' : Memory} {a x : ℕ} {b : UInt8}

lemma read_of_mapped (h : m.mapped a = true) : m.read a = some (m.bytes a) := if_pos h

lemma write_of_mapped (h : m.mapped a = true) :
    m.write a b = some (m.set a b) := if_pos h

lemma wordMapped_of (h : ∀ i < 8, m.mapped (a + i) = true) : m.wordMapped a = true := by
  rw [wordMapped, List.all_eq_true]
  exact fun i hi => h i (List.mem_range.mp hi)

lemma readWord_of_mapped (h : ∀ i < 8, m.mapped (a + i) = true) :
    m.readWord a = some (load m.bytes a 8) := if_pos (wordMapped_of h)

lemma writeWord_of_mapped {v : ℕ} (h : ∀ i < 8, m.mapped (a + i) = true) :
    m.writeWord a v = some (m.setWord a v) := if_pos (wordMapped_of h)

/-! ## A new block -/

section Add

variable {size : ℕ} {block : Block m size}

lemma add_mapped_old (h : m.mapped x = true) : (m.add block).mapped x = true :=
  Bool.or_eq_true_iff.mpr (.inr h)

lemma add_mapped_new {i : ℕ} (hi : i < size) : (m.add block).mapped (block.address + i) = true :=
  Bool.or_eq_true_iff.mpr (.inl (decide_eq_true ⟨Nat.le_add_right _ _, by omega⟩))

lemma add_bytes_old (h : ¬ (block.address ≤ x ∧ x < block.address + size)) :
    (m.add block).bytes x = m.bytes x := if_neg h

end Add

/-! ## Objects that stay as they are -/

/-- Nothing was unmapped, and the bytes outside `[a, a + n)` are as they were. -/
structure Frame (m m' : Memory) (a n : ℕ) : Prop where
  mapped : ∀ x, m'.mapped x = m.mapped x
  bytes : ∀ x, x < a ∨ a + n ≤ x → m'.bytes x = m.bytes x

lemma set_self (m : Memory) (a : ℕ) (b : UInt8) : (m.set a b).bytes a = b := by
  simp [set]

lemma frame_set (m : Memory) (a : ℕ) (b : UInt8) : Frame m (m.set a b) a 1 :=
  ⟨fun _ => rfl, fun _ _ => Function.update_of_ne (by omega) _ _⟩

lemma frame_setWord (m : Memory) (a v : ℕ) : Frame m (m.setWord a v) a 8 :=
  ⟨fun _ => rfl, fun _ hx => store_outside hx⟩

/-- The bytes of a word are the same. -/
structure WordAgrees (m m' : Memory) (a : ℕ) : Prop where
  mapped : ∀ x, m'.mapped x = m.mapped x
  bytes : ∀ x, a ≤ x → x < a + 8 → m'.bytes x = m.bytes x

lemma WordAgrees.readWord (h : WordAgrees m m' a) : m'.readWord a = m.readWord a := by
  have hmapped : m'.wordMapped a = m.wordMapped a := by simp only [wordMapped, h.mapped]
  rw [Memory.readWord, Memory.readWord, hmapped, load_congr h.bytes]

lemma frame_copied (m : Memory) (d s n : ℕ) : Frame m (m.copied d s n) d n :=
  ⟨fun _ => rfl, fun _ hx => copy_outside hx⟩

lemma copied_inside {d s n k : ℕ} (hk : k < n) (h : s + n ≤ d ∨ d ≤ s) :
    (m.copied d s n).bytes (d + k) = m.bytes (s + k) := copy_inside hk h

/-- The next byte that is copied was not overwritten. -/
lemma copied_next {d s n : ℕ} (h : s + n < d ∨ d ≤ s) :
    (m.copied d s n).read (s + n) = m.read (s + n) := by
  have hf := frame_copied m d s n
  rw [read, read, hf.mapped, hf.bytes _ (by omega)]

lemma copied_succ {d s n : ℕ} (h : s + n < d ∨ d ≤ s) :
    (m.copied d s n).set (d + n) (m.bytes (s + n)) = m.copied d s (n + 1) := by
  rw [← (frame_copied m d s n).bytes (s + n) (by omega)]
  rfl

lemma readWord_setWord {v : ℕ} (h : ∀ i < 8, m.mapped (a + i) = true) (hv : v < 2 ^ 64) :
    (m.setWord a v).readWord a = some v := by
  have hload : load (m.setWord a v).bytes a 8 = v := by
    rw [setWord, load_store_self, Nat.mod_eq_of_lt (by omega)]
  rw [readWord_of_mapped (m := m.setWord a v) h, hload]

end Memory

/-! ## Strings of bytes -/

/-- The bytes stand at `a`, and may be read. -/
structure Bytes (m : Memory) (a : ℕ) (bs : List UInt8) : Prop where
  mapped : ∀ i < bs.length, m.mapped (a + i) = true
  stored : Stored m.bytes a bs

/-- Read a word of `n` bytes. -/
def Memory.readBytes (m : Memory) (a : ℕ) : ℕ → Option ℕ
  | 0 => some 0
  | n + 1 => (m.read a).bind fun b => (m.readBytes (a + 1) n).map fun v => b.toNat + 256 * v

namespace Bytes

variable {m : Memory} {a : ℕ} {bs cs : List UInt8} {b : UInt8}

lemma nil : Bytes m a [] := ⟨by simp, fun i b hb => by simp at hb⟩

/-- The bytes are found one by one. -/
lemma of_getElem? (hmapped : ∀ i < bs.length, m.mapped (a + i) = true)
    (hbytes : ∀ i < bs.length, bs[i]? = some (m.bytes (a + i))) : Bytes m a bs := by
  refine ⟨hmapped, fun i b hb => ?_⟩
  have hi : i < bs.length := (List.getElem?_eq_some_iff.mp hb).1
  exact Option.some.inj ((hbytes i hi).symm.trans hb)

/-- The bytes of which a memory is made. -/
lemma ofList (h : a + bs.length ≤ 2 ^ 47) : Bytes (ofList a bs h) a bs := by
  refine ⟨fun i hi => decide_eq_true ⟨Nat.le_add_right _ _, by omega⟩, fun i b hb => ?_⟩
  simp [MappedMemory.ofList, hb]

lemma cons_iff : Bytes m a (b :: bs) ↔ m.read a = some b ∧ Bytes m (a + 1) bs := by
  constructor
  · rintro ⟨hmapped, hstored⟩
    obtain ⟨hb, hbs⟩ := stored_cons.mp hstored
    have ha : m.mapped a = true := hmapped 0 (by simp)
    refine ⟨by rw [Memory.read_of_mapped ha, hb], fun i hi => ?_, hbs⟩
    rw [Nat.add_assoc, Nat.add_comm 1]
    exact hmapped (i + 1) (by simpa using hi)
  · rintro ⟨hread, hmapped, hbs⟩
    rw [Memory.read] at hread
    split at hread
    · rename_i ha
      refine ⟨fun i hi => ?_, stored_cons.mpr ⟨Option.some.inj hread, hbs⟩⟩
      cases i with
      | zero => exact ha
      | succ i =>
        rw [Nat.add_comm i, ← Nat.add_assoc]
        exact hmapped i (by simpa using hi)
    · simp at hread

lemma append_iff : Bytes m a (bs ++ cs) ↔ Bytes m a bs ∧ Bytes m (a + bs.length) cs := by
  induction bs generalizing a with
  | nil => simpa using fun _ => (nil : Bytes m a [])
  | cons b bs ih =>
    rw [List.cons_append, cons_iff, ih, cons_iff, and_assoc, List.length_cons, Nat.add_assoc,
      Nat.add_comm 1]

/-- A word that is read is the value of the bytes that stand there. -/
lemma readBytes (h : Bytes m a bs) : m.readBytes a bs.length = some (value bs) := by
  induction bs generalizing a with
  | nil => rfl
  | cons b bs ih =>
    obtain ⟨hb, hbs⟩ := cons_iff.mp h
    rw [List.length_cons, Memory.readBytes, hb, Option.bind_some, ih hbs, Option.map_some, value]

end Bytes

/-- A word of `n` bytes is less than `256 ^ n`. -/
lemma Memory.readBytes_lt {m : Memory} {a n v : ℕ} (h : m.readBytes a n = some v) :
    v < 256 ^ n := by
  induction n generalizing a v with
  | zero =>
    rw [Memory.readBytes, Option.some.injEq] at h
    rw [← h, pow_zero]
    exact Nat.one_pos
  | succ n ih =>
    rw [Memory.readBytes, Option.bind_eq_some_iff] at h
    obtain ⟨b, -, hrest⟩ := h
    obtain ⟨w, hw, rfl⟩ := Option.map_eq_some_iff.mp hrest
    have hlow := b.toNat_lt
    have hhigh := ih hw
    rw [pow_succ']
    omega

/-! ## Strings -/

/-- A string with its terminator stands at `a`. -/
structure Text (m : Memory) (a : ℕ) (s : List UInt8) : Prop where
  mapped : ∀ i ≤ s.length, m.mapped (a + i) = true
  stored : Stored m.bytes a (s ++ [0])
  nonzero : 0 ∉ s

namespace Text

variable {m m' : Memory} {a : ℕ} {s s' : List UInt8} {i : ℕ}

lemma read (h : Text m a s) (hi : i ≤ s.length) : m.read (a + i) = (s ++ [0])[i]? := by
  have hlt : i < (s ++ [0]).length := by simp; omega
  rw [Memory.read_of_mapped (h.mapped i hi), h.stored i _ (List.getElem?_eq_getElem hlt),
    List.getElem?_eq_getElem hlt]

/-- The characters of the string. -/
lemma read_lt (h : Text m a s) (hi : i < s.length) :
    m.read (a + i) = some s[i] ∧ s[i] ≠ 0 := by
  refine ⟨?_, fun hzero => h.nonzero (hzero ▸ List.getElem_mem hi)⟩
  rw [h.read hi.le, List.getElem?_append_left hi, List.getElem?_eq_getElem hi]

lemma read_end (h : Text m a s) : m.read (a + s.length) = some 0 := by
  rw [h.read le_rfl, List.getElem?_concat_length]

lemma drop (h : Text m a s) (hi : i ≤ s.length) : Text m (a + i) (s.drop i) := by
  refine ⟨fun j hj => ?_, ?_, fun hmem => h.nonzero (List.mem_of_mem_drop hmem)⟩
  · rw [List.length_drop] at hj
    rw [Nat.add_assoc]
    exact h.mapped _ (by omega)
  · have hsplit : s ++ [0] = s.take i ++ (s.drop i ++ [0]) := by
      rw [← List.append_assoc, List.take_append_drop]
    have hstored := h.stored
    rw [hsplit, stored_append, List.length_take, Nat.min_eq_left hi] at hstored
    exact hstored.2

/-- The string does not depend on other bytes. -/
lemma congr (h : Text m a s) (hmapped : ∀ i ≤ s.length, m'.mapped (a + i) = true)
    (hbytes : ∀ i ≤ s.length, m'.bytes (a + i) = m.bytes (a + i)) : Text m' a s := by
  refine ⟨hmapped, fun i b hb => ?_, h.nonzero⟩
  have hi : i < (s ++ [0]).length := (List.getElem?_eq_some_iff.mp hb).1
  rw [List.length_append, List.length_singleton] at hi
  rw [hbytes i (by omega)]
  exact h.stored i b hb

/-- The string stands in every memory in which its bytes and its terminator are the same. -/
lemma of_read (h : Text m a s) (hread : ∀ i ≤ s.length, m'.read (a + i) = m.read (a + i)) :
    Text m' a s := by
  have hboth : ∀ i ≤ s.length, m'.mapped (a + i) = true ∧ m'.bytes (a + i) = m.bytes (a + i) := by
    intro i hi
    have hi' := hread i hi
    rw [Memory.read_of_mapped (h.mapped i hi), Memory.read] at hi'
    split at hi'
    · exact ⟨by assumption, Option.some.inj hi'⟩
    · simp at hi'
  exact h.congr (fun i hi => (hboth i hi).1) fun i hi => (hboth i hi).2

lemma frame {n x : ℕ} (h : Text m a s) (hf : Memory.Frame m m' x n)
    (hout : a + s.length < x ∨ x + n ≤ a) : Text m' a s :=
  h.congr (fun i hi => by rw [hf.mapped]; exact h.mapped i hi) fun i hi => hf.bytes _ (by omega)

/-- A terminator that is written into the string cuts it off. -/
lemma cut (h : Text m a s) (hi : i ≤ s.length) :
    Text (m.set (a + i) 0) a (s.take i) := by
  have hlen : (s.take i).length = i := List.length_take_of_le hi
  refine ⟨fun j hj => h.mapped j (by omega), ?_, fun hmem => h.nonzero (List.mem_of_mem_take hmem)⟩
  intro j b hb
  have hj : j < (s.take i ++ [0]).length := (List.getElem?_eq_some_iff.mp hb).1
  rw [List.length_append, List.length_singleton, hlen] at hj
  by_cases hlast : j = i
  · rw [hlast, Memory.set_self]
    rw [List.getElem?_append_right (by omega), hlen, hlast, Nat.sub_self] at hb
    exact Option.some.inj hb
  · rw [(Memory.frame_set m (a + i) 0).bytes _ (by omega)]
    refine h.stored j b ?_
    rw [List.getElem?_append_left (by omega), List.getElem?_take_of_lt (by omega)] at hb
    rw [List.getElem?_append_left (by omega), hb]

/-- A string that was copied with its terminator. -/
lemma copied {d : ℕ} (h : Text m a s) (hmapped : ∀ i ≤ s.length, m.mapped (d + i) = true)
    (hout : a + s.length < d ∨ d ≤ a) : Text (m.copied d a (s.length + 1)) d s := by
  refine ⟨hmapped, fun i b hb => ?_, h.nonzero⟩
  have hi : i < (s ++ [0]).length := (List.getElem?_eq_some_iff.mp hb).1
  rw [List.length_append, List.length_singleton] at hi
  rw [Memory.copied_inside hi (by omega)]
  exact h.stored i b hb

/-- The bytes of a string are not in a new block. -/
lemma add {size : ℕ} (h : Text m a s) (block : Block m size) : Text (m.add block) a s := by
  have hout : ∀ i ≤ s.length, ¬ (block.address ≤ a + i ∧ a + i < block.address + size) := by
    rintro i hi ⟨hle, hlt⟩
    have hunused := block.unused (a + i - block.address) (by omega)
    rw [Nat.add_sub_cancel' hle, h.mapped i hi] at hunused
    simp at hunused
  exact h.congr (fun i hi => Memory.add_mapped_old (h.mapped i hi)) fun i hi =>
    Memory.add_bytes_old (hout i hi)

/-- A string is shorter than the range of canonical addresses. -/
lemma length_lt (h : Text m a s) : s.length < 2 ^ 47 := by
  by_contra hlong
  have hfirst := m.canonical _ (h.mapped 0 (by omega))
  have hlast := m.canonical _ (h.mapped (2 ^ 47) (by omega))
  rw [Nat.add_zero] at hfirst
  rcases hfirst with hlow | ⟨hhigh, hlt⟩
  · -- just above the lower half
    have hgap := m.canonical _ (h.mapped (2 ^ 47 - a) (by omega))
    rw [Nat.add_sub_cancel' hlow.le] at hgap
    rcases hgap with hgap | hgap <;> omega
  · rcases hlast with hlast | hlast <;> omega

/-- The bytes of a string as a check. -/
lemma of_bytes (hmapped : ∀ i ≤ s.length, m.mapped (a + i) = true)
    (hbytes : ∀ i ≤ s.length, (s ++ [0])[i]? = some (m.bytes (a + i))) (hs : 0 ∉ s) :
    Text m a s := by
  refine ⟨hmapped, fun i b hb => ?_, hs⟩
  have hi : i < (s ++ [0]).length := (List.getElem?_eq_some_iff.mp hb).1
  rw [List.length_append, List.length_singleton] at hi
  exact Option.some.inj ((hbytes i (by omega)).symm.trans hb)

/-- Only one string stands at an address. -/
lemma unique (h : Text m a s) (h' : Text m a s') : s = s' := by
  have hle : ∀ {s s' : List UInt8}, Text m a s → Text m a s' → s'.length ≤ s.length := by
    intro s s' h h'
    by_contra hlt
    have hread := (h'.read_lt (i := s.length) (by omega))
    exact hread.2 (Option.some.inj (hread.1.symm.trans h.read_end))
  have hlen : s.length = s'.length := le_antisymm (hle h' h) (hle h h')
  refine List.ext_getElem hlen fun i hi hi' => ?_
  exact Option.some.inj ((h.read_lt hi).1.symm.trans (h'.read_lt hi').1)

/-- Two strings that meet share their end. -/
lemma apart_or_end {b : ℕ} {t : List UInt8} (hs : Text m a s) (ht : Text m b t) :
    a + s.length < b ∨ b + t.length < a ∨ a + s.length = b + t.length := by
  have hends : ∀ {a b : ℕ} {s t : List UInt8}, Text m a s → Text m b t → b ≤ a + s.length →
      a + s.length < b + t.length → False := by
    intro a b s t hs ht hle hlt
    -- the terminator of `s` would be a character of `t`
    have hchar := ht.read_lt (i := a + s.length - b) (by omega)
    rw [Nat.add_sub_cancel' hle, hs.read_end] at hchar
    exact hchar.2 (Option.some.inj hchar.1).symm
  by_contra hmeet
  rcases Nat.lt_or_ge (a + s.length) (b + t.length) with hlt | hge
  · exact hends hs ht (by omega) hlt
  · exact hends ht hs (by omega) (by omega)

/-- Characters in front of a string. -/
lemma append {w : List UInt8} (hmapped : ∀ i < w.length, m.mapped (a + i) = true)
    (hbytes : ∀ i (hi : i < w.length), m.bytes (a + i) = w[i]) (hw : 0 ∉ w)
    (hs : Text m (a + w.length) s) : Text m a (w ++ s) := by
  refine ⟨fun i hi => ?_, ?_, ?_⟩
  · by_cases hfront : i < w.length
    · exact hmapped i hfront
    · rw [List.length_append] at hi
      have hrest := hs.mapped (i - w.length) (by omega)
      rw [Nat.add_assoc, Nat.add_sub_cancel' (by omega)] at hrest
      exact hrest
  · rw [List.append_assoc, stored_append]
    refine ⟨fun i b hb => ?_, hs.stored⟩
    obtain ⟨hi, rfl⟩ := List.getElem?_eq_some_iff.mp hb
    exact hbytes i hi
  · rw [List.mem_append, not_or]
    exact ⟨hw, hs.nonzero⟩

/-- The front of a string that stands in front of another one now. -/
lemma take_append {p k : ℕ} {rest : List UInt8} (h : Text m p s) (hk : k ≤ s.length)
    (hmapped : ∀ i < k, m'.mapped (a + i) = true)
    (hbytes : ∀ i < k, m'.bytes (a + i) = m.bytes (p + i)) (hrest : Text m' (a + k) rest) :
    Text m' a (s.take k ++ rest) := by
  have htake : (s.take k).length = k := List.length_take_of_le hk
  refine append ?_ ?_ (fun hmem => h.nonzero (List.mem_of_mem_take hmem)) ?_
  · intro i hi
    exact hmapped i (by omega)
  · intro i hi
    obtain ⟨hchar, -⟩ := h.read_lt (i := i) (by omega)
    rw [Memory.read_of_mapped (h.mapped i (by omega))] at hchar
    rw [hbytes i (by omega), Option.some.inj hchar, List.getElem_take]
  · rw [htake]
    exact hrest

end Text

end MappedMemory
