import TurbOS.Lib.Word64
import TurbOS.Str.Search

/-!
# Splitting a string in memory

`_strsplit` goes over the text twice.  It counts the occurrences of the delimiter in the string
that it was given, and takes one block for a table of pointers, a null pointer and a copy of the
text.  Then it searches the copy again, and cuts it by a terminator at every occurrence while it
fills the table.

The second search begins behind the last cut, and the text there is still that of the first one:
both find the same pieces.
-/

open Occurrences MappedMemory

namespace TurbOS.Str.Raw

/-! ## `strcpy` -/

/-- The memory and the pointers of `strcpy`. -/
structure Copying where
  memory : Memory
  destination : ℕ
  source : ℕ

/-- The loop of `strcpy`. -/
def strcpyBody (st : Copying) : Option (Copying ⊕ Memory) :=
  (st.memory.read st.source).bind fun c =>
    if c ≠ 0 then
      (st.memory.write st.destination c).map fun m => .inl ⟨m, st.destination + 1, st.source + 1⟩
    else (st.memory.write st.destination 0).map .inr

/-- `strcpy`. -/
def strcpy (m : Memory) (fuel destination source : ℕ) : Option (Memory × ℕ) :=
  if destination = 0 then some (m, 0)
  else (Fuel.loop strcpyBody fuel ⟨m, destination, source⟩).map fun m => (m, destination)

variable {m m' : Memory} {fuel str delim : ℕ} {s d : List UInt8}

/-- One round of `strcpy`. -/
lemma strcpyBody_meets {destination source : ℕ} (hs : Text m source s)
    (hmapped : ∀ i ≤ s.length, m.mapped (destination + i) = true)
    (hout : source + s.length < destination ∨ destination ≤ source) {k : ℕ} {st : Copying}
    (h : ∃ i, i + k = s.length ∧
    st = ⟨m.copied destination source i, destination + i, source + i⟩) :
    Fuel.Meets True (strcpyBody st)
      (Sum.elim (fun st' => ∃ k' < k, ∃ i, i + k' = s.length ∧
          st' = ⟨m.copied destination source i, destination + i, source + i⟩)
        (· = m.copied destination source (s.length + 1))) := by
  obtain ⟨i, hi, rfl⟩ := h
  have hin : i ≤ s.length := by omega
  have hnext := Memory.copied_next (m := m) (d := destination) (s := source) (n := i) (by omega)
  have hset := Memory.copied_succ (m := m) (d := destination) (s := source) (n := i) (by omega)
  have hwrite : ∀ c, (m.copied destination source i).write (destination + i) c
      = some ((m.copied destination source i).set (destination + i) c) :=
    fun c => Memory.write_of_mapped (hmapped i hin)
  rw [strcpyBody]
  dsimp only
  rw [hnext, Memory.read_of_mapped (hs.mapped i hin), Option.bind_some]
  by_cases hend : i = s.length
  · have hzero : m.bytes (source + i) = 0 := by
      have hread := hs.read_end
      rw [Memory.read_of_mapped (hs.mapped _ le_rfl), ← hend] at hread
      exact Option.some.inj hread
    rw [if_neg (by rw [hzero]; simp), hwrite, ← hzero, hset, Option.map_some, hend]
    exact .pure rfl
  · obtain ⟨hread, hne⟩ := hs.read_lt (i := i) (by omega)
    rw [Memory.read_of_mapped (hs.mapped i hin)] at hread
    rw [Option.some.inj hread, if_pos hne, hwrite, ← Option.some.inj hread, hset, Option.map_some]
    exact .pure ⟨k - 1, by omega, i + 1, by omega, rfl⟩

/-- The string arrives with its terminator. -/
lemma strcpy_eq {destination source : ℕ} (hs : Text m source s) (hne : destination ≠ 0)
    (hmapped : ∀ i ≤ s.length, m.mapped (destination + i) = true)
    (hout : source + s.length < destination ∨ destination ≤ source) (hfuel : s.length < fuel) :
    strcpy m fuel destination source
      = some (m.copied destination source (s.length + 1), destination) := by
  obtain ⟨r, hr, heq⟩ := (Fuel.loop_meets True _
    (fun _ _ h => strcpyBody_meets hs hmapped hout h) fuel s.length ⟨m, destination, source⟩
    ⟨0, Nat.zero_add _, rfl⟩).returns ⟨trivial, hfuel⟩
  rw [strcpy, if_neg hne, hr, Option.map_some, heq]

/-! ## `_strsplit` -/

/-- What the heap answers to a request of a number of bytes; `malloc` fails where it is `none`. -/
abbrev Malloc := (m : Memory) → (size : ℕ) → Option (Block m size)

/-- The loop that counts: `_s` and `nbWords`. -/
def countBody (m : Memory) (fuel delim delimLen : ℕ) (st : ℕ × ℕ) : Option (ℕ × ℕ ⊕ ℕ) :=
  (strstr m fuel st.1 delim).map fun found =>
    match found with
    | none => .inr st.2
    | some p => .inl (p + delimLen, Word64.add st.2 1)

/-- The memory and the pointers of the loop that cuts. -/
structure Cutting where
  memory : Memory
  s : ℕ
  ptrs : ℕ

/-- The loop that cuts. -/
def cutBody (fuel delim delimLen : ℕ) (st : Cutting) : Option (Cutting ⊕ Memory × ℕ) :=
  (strstr st.memory fuel st.s delim).bind fun found =>
    match found with
    | none => some (.inr (st.memory, st.ptrs))
    | some p =>
      (st.memory.write p 0).bind fun m =>
        (m.writeWord (st.ptrs + 8) (p + delimLen)).map fun m =>
          .inl ⟨m, p + delimLen, st.ptrs + 8⟩

/-- What `_strsplit` does with its block, which begins at `data`: `ptrsSize` bytes are for the
table. -/
def fillBlock (m : Memory) (fuel data ptrsSize nbWords s delim delimLen : ℕ) : Option Memory :=
  (strcpy m fuel (data + ptrsSize) s).bind fun r =>
    (r.1.writeWord data r.2).bind fun m =>
      (if nbWords > 1 then Fuel.loop (cutBody fuel delim delimLen) fuel ⟨m, r.2, data⟩
        else some (m, data)).bind fun r => r.1.writeWord (r.2 + 8) 0

/-- Ask for a block, and fill it if there is one. -/
def withBlock (malloc : Malloc) (m : Memory) (size : ℕ) (fill : ℕ → Memory → Option Memory) :
    Option (Option ℕ × Memory) :=
  match malloc m size with
  | none => some (none, m)
  | some block => (fill block.address (m.add block)).map fun m => (some block.address, m)

/-- `_strsplit`: the pointer that it returns, `nb`, and the memory. -/
def _strsplit (malloc : Malloc) (m : Memory) (fuel s delim : ℕ) : Option (Option ℕ × ℕ × Memory) :=
  (strlen m fuel s).bind fun sLen =>
    (strlen m fuel delim).bind fun delimLen =>
      (Fuel.loop (countBody m fuel delim delimLen) fuel (s, 1)).bind fun nbWords =>
        let ptrsSize := Word64.mul (Word64.add nbWords 1) 8
        (withBlock malloc m (Word64.add (Word64.add ptrsSize sLen) 1) fun data m =>
          fillBlock m fuel data ptrsSize nbWords s delim delimLen).map fun r =>
          (r.1, if r.1 = none then 0 else nbWords, r.2)

/-- `strsplit`. -/
def strsplit (malloc : Malloc) (m : Memory) (fuel s delim : ℕ) : Option (Option ℕ × Memory) :=
  (_strsplit malloc m fuel s delim).map fun r => (r.1, r.2.2)

/-- `strsplit_count`, with `nb`. -/
def strsplit_count (malloc : Malloc) (m : Memory) (fuel s delim : ℕ) :
    Option (Option ℕ × ℕ × Memory) := _strsplit malloc m fuel s delim

/-! ## The first pass -/

variable {words : List (List UInt8)} {x slot n : ℕ}

/-- The rest of a text takes no more rounds. -/
lemma rest_fuel (h : (s.length + 1) * (d.length + 1) ≤ fuel) (k : ℕ) :
    ((s.drop k).length + 1) * (d.length + 1) ≤ fuel := by
  refine (Nat.mul_le_mul_right _ ?_).trans h
  rw [List.length_drop]
  omega

/-- What `strstr` finds in front of the last piece, and in the other ones. -/
lemma strstr_last (ht : Text m x s) (hdelim : Text m delim d)
    (hfuel : (s.length + 1) * (d.length + 1) ≤ fuel) (h : ∀ k, ¬ d <+: s.drop k) :
    strstr m fuel x delim = some none := by
  rw [strstr_eq ht hdelim hfuel, find_eq_none.mpr h, Option.map_none]

lemma strstr_cut {k : ℕ} (ht : Text m x s) (hdelim : Text m delim d)
    (hfuel : (s.length + 1) * (d.length + 1) ≤ fuel) (h : First d s k) :
    strstr m fuel x delim = some (some (x + k)) := by
  rw [strstr_eq ht hdelim hfuel, find_eq_some.mpr h, Option.map_some]

/-- The first pass counts the pieces. -/
lemma countLoop_eq (h : Split d s words) (ht : Text m x s) (hdelim : Text m delim d)
    (hfuel : (s.length + 1) * (d.length + 1) ≤ fuel) (hn : words.length ≤ n) {nb : ℕ}
    (hnb : nb + words.length ≤ 2 ^ 64) :
    Fuel.loop (countBody m fuel delim d.length) n (x, nb) = some (nb + (words.length - 1)) := by
  induction h generalizing x n nb with
  | last hnone =>
    obtain ⟨n, rfl⟩ : ∃ n', n = n' + 1 := ⟨n - 1, by rw [List.length_singleton] at hn; omega⟩
    rw [Fuel.loop_succ, countBody, strstr_last ht hdelim hfuel hnone]
    rfl
  | @cut s k words hfirst hrest ih =>
    have hpos : 0 < words.length := List.length_pos_of_ne_nil hrest.ne_nil
    rw [List.length_cons] at hn hnb ⊢
    obtain ⟨n, rfl⟩ : ∃ n', n = n' + 1 := ⟨n - 1, by omega⟩
    have hnext := ih (ht.drop (hfirst.add_le hfirst.le_length)) (rest_fuel hfuel _)
      (show words.length ≤ n by omega) (show (nb + 1) + words.length ≤ 2 ^ 64 by omega)
    rw [Fuel.loop_succ, countBody, strstr_cut ht hdelim hfuel hfirst, Option.map_some,
      Option.bind_some, Sum.elim_inl, Word64.add_of_lt (by omega), Nat.add_assoc, hnext]
    congr 1
    omega

/-! ## The second pass -/

/-- The table from `slot` on has the pointers to the pieces, which stand one behind the other from
`x` on, with gaps in between. -/
def Parts (m : Memory) (gap : ℕ) : ℕ → ℕ → List (List UInt8) → Prop
  | _, _, [] => True
  | slot, x, w :: words =>
    m.readWord slot = some x ∧ Text m x w ∧ Parts m gap (slot + 8) (x + w.length + gap) words

/-- The table and the texts do not depend on other bytes. -/
lemma Parts.congr {gap : ℕ} (h : Parts m gap slot x words) (hmapped : ∀ y, m'.mapped y = m.mapped y)
    (hbytes : ∀ y, slot ≤ y ∧ y < slot + 8 * words.length ∨ x ≤ y → m'.bytes y = m.bytes y) :
    Parts m' gap slot x words := by
  induction words generalizing slot x with
  | nil => trivial
  | cons w words ih =>
    obtain ⟨hword, htext, hrest⟩ := h
    rw [List.length_cons] at hbytes
    refine ⟨?_, ?_, ih hrest fun y hy => hbytes y (by omega)⟩
    · have hf : Memory.WordAgrees m m' slot := ⟨hmapped, fun y hy hy' => hbytes y (by omega)⟩
      rw [hf.readWord, hword]
    · exact htext.congr (fun i hi => by rw [hmapped]; exact htext.mapped i hi)
        fun i hi => hbytes _ (by omega)

/-- Every entry of the table points to its piece. -/
lemma Parts.entry (h : Split d s words) (hp : Parts m d.length slot x words) {i : ℕ}
    {w : List UInt8} (hw : words[i]? = some w) :
    ∃ p, m.readWord (slot + 8 * i) = some p ∧ Text m p w ∧ x ≤ p ∧ p + w.length ≤ x + s.length := by
  induction h generalizing slot x i with
  | @last s hnone =>
    obtain ⟨hword, htext, -⟩ := hp
    cases i with
    | zero =>
      rw [List.getElem?_cons_zero] at hw
      obtain rfl := Option.some.inj hw
      exact ⟨x, hword, htext, le_rfl, le_rfl⟩
    | succ i => simp at hw
  | @cut s k words hfirst hrest ih =>
    obtain ⟨hword, htext, hp⟩ := hp
    have hlen : (s.take k).length = k := List.length_take_of_le hfirst.le_length
    have hle := hfirst.add_le hfirst.le_length
    cases i with
    | zero =>
      rw [List.getElem?_cons_zero] at hw
      obtain rfl := Option.some.inj hw
      exact ⟨x, hword, htext, le_rfl, by omega⟩
    | succ i =>
      obtain ⟨p, hread, htext', hx, hend⟩ := ih hp hw
      rw [hlen] at hx hend
      rw [List.length_drop] at hend
      refine ⟨p, ?_, htext', by omega, by omega⟩
      rw [show slot + 8 * (i + 1) = slot + 8 + 8 * i by omega]
      exact hread

/-- The array at `data` points to the components, and ends with a null pointer. -/
structure Components (m : Memory) (data : ℕ) (words : List (List UInt8)) : Prop where
  entry : ∀ i w, words[i]? = some w → ∃ p, m.readWord (data + 8 * i) = some p ∧ Text m p w
  null : m.readWord (data + 8 * words.length) = some 0

/-- The second pass cuts the text into the pieces and writes their addresses into the table, whose
first entry is there. -/
lemma cutLoop_spec (h : Split d s words) (hd : d ≠ []) (ht : Text m x s) (hdelim : Text m delim d)
    (hfuel : (s.length + 1) * (d.length + 1) ≤ fuel) (hn : words.length ≤ n)
    (hword : m.readWord slot = some x) (htable : ∀ i < 8 * words.length, m.mapped (slot + i) = true)
    (hbehind : slot + 8 * words.length ≤ x) (hx : x + s.length < 2 ^ 64)
    (hapart : delim + d.length < slot ∨ x + s.length < delim) :
    ∃ m', Fuel.loop (cutBody fuel delim d.length) n ⟨m, x, slot⟩
        = some (m', slot + 8 * (words.length - 1)) ∧
      Parts m' d.length slot x words ∧ (∀ y, m'.mapped y = m.mapped y) ∧
      ∀ y, y < slot + 8 ∨ slot + 8 * words.length ≤ y → y < x ∨ x + s.length ≤ y →
        m'.bytes y = m.bytes y := by
  have hpos : 0 < d.length := List.length_pos_of_ne_nil hd
  induction h generalizing m x slot n with
  | last hnone =>
    obtain ⟨n, rfl⟩ : ∃ n', n = n' + 1 := ⟨n - 1, by rw [List.length_singleton] at hn; omega⟩
    refine ⟨m, ?_, ⟨hword, ht, trivial⟩, fun _ => rfl, fun _ _ _ => rfl⟩
    rw [Fuel.loop_succ, cutBody, strstr_last ht hdelim hfuel hnone]
    rfl
  | @cut s k words hfirst hrest ih =>
    have hlen := List.length_pos_of_ne_nil hrest.ne_nil
    have hle := hfirst.add_le hfirst.le_length
    have htake : (s.take k).length = k := List.length_take_of_le hfirst.le_length
    have hdrop : (s.drop (k + d.length)).length = s.length - (k + d.length) := List.length_drop
    rw [List.length_cons] at hn htable hbehind ⊢
    obtain ⟨n, rfl⟩ : ∃ n', n = n' + 1 := ⟨n - 1, by omega⟩
    -- the cut, and the next entry
    let m₁ := m.set (x + k) 0
    let m₂ := m₁.setWord (slot + 8) (x + (k + d.length))
    have hf₁ : Memory.Frame m m₁ (x + k) 1 := Memory.frame_set m (x + k) 0
    have hf₂ : Memory.Frame m₁ m₂ (slot + 8) 8 := Memory.frame_setWord m₁ _ _
    have hslot : ∀ i < 8, m₁.mapped (slot + 8 + i) = true := by
      intro i hi
      rw [Nat.add_assoc]
      exact htable _ (by omega)
    have hcut : Text m₂ x (s.take k) := (ht.cut hfirst.le_length).frame hf₂ (by omega)
    have htext : Text m₂ (x + (k + d.length)) (s.drop (k + d.length)) :=
      ((ht.drop hle).frame hf₁ (by omega)).frame hf₂ (by omega)
    have hdelim₂ : Text m₂ delim d := (hdelim.frame hf₁ (by omega)).frame hf₂ (by omega)
    have hnext : m₂.readWord (slot + 8) = some (x + (k + d.length)) :=
      Memory.readWord_setWord hslot (by omega)
    obtain ⟨m', hloop, hparts, hmapped, hbytes⟩ := ih htext hdelim₂ (rest_fuel hfuel _)
      (show words.length ≤ n by omega) hnext
      (fun i hi => by rw [Nat.add_assoc]; exact htable _ (by omega)) (by omega) (by omega)
        (by omega)
    have hsame : ∀ y, y < slot + 8 ∨ slot + 8 * (words.length + 1) ≤ y → y < x + k ∨
      x + s.length ≤ y → m'.bytes y = m.bytes y := by
      intro y hy hy'
      rw [hbytes y (by omega) (by omega), hf₂.bytes y (by omega), hf₁.bytes y (by omega)]
    refine ⟨m', ?_, ⟨?_, ?_, ?_⟩, ?_, ?_⟩
    · rw [Fuel.loop_succ, cutBody, strstr_cut ht hdelim hfuel hfirst, Option.bind_some]
      dsimp only
      rw [Memory.write_of_mapped (ht.mapped k hfirst.le_length), Option.bind_some,
        Memory.writeWord_of_mapped hslot, Option.map_some, Option.bind_some, Sum.elim_inl,
        Nat.add_assoc x k]
      refine hloop.trans ?_
      congr 2
      omega
    · have hagree : Memory.WordAgrees m m' slot :=
        ⟨hmapped, fun y _ hy' => hsame y (by omega) (by omega)⟩
      rw [hagree.readWord, hword]
    · refine hcut.congr (fun i hi => ?_) fun i hi => hbytes _ (by omega) (by omega)
      rw [hmapped]
      exact hcut.mapped i hi
    · rw [htake, Nat.add_assoc x k]
      exact hparts
    · exact fun y => hmapped y
    · exact fun y hy hy' => hsame y hy (by omega)

/-! ## The block -/

/-- The number of bytes of the table, the null pointer and the text. -/
def splitSize (words : ℕ) (length : ℕ) : ℕ := 8 * (words + 1) + length + 1

/-- The number of bytes is computed without wrapping around. -/
lemma splitSize_eq (hw : words.length ≤ s.length + 1) (hs : s.length < 2 ^ 47) :
    Word64.mul (Word64.add words.length 1) 8 = 8 * (words.length + 1) ∧
      Word64.add (Word64.add (Word64.mul (Word64.add words.length 1) 8) s.length) 1
        = splitSize words.length s.length := by
  have hnext : Word64.add words.length 1 = words.length + 1 := Word64.add_of_lt (by omega)
  have htable : Word64.mul (words.length + 1) 8 = 8 * (words.length + 1) := by
    rw [Word64.mul_of_lt (by omega), Nat.mul_comm]
  rw [hnext, htable, Word64.add_of_lt (show 8 * (words.length + 1) + s.length < 2 ^ 64 by omega),
    Word64.add_of_lt (by omega)]
  exact ⟨rfl, rfl⟩

/-- A new block does not meet a string. -/
lemma apart_of_text {size : ℕ} (h : Text m str s) (block : Block m size) (hpos : 0 < size) :
    str + s.length < block.address ∨ block.address + size ≤ str := by
  have hout : ∀ i < size, ∀ j ≤ s.length, block.address + i ≠ str + j := by
    rintro i hi j hj heq
    have hunused := block.unused i hi
    rw [heq, h.mapped j hj] at hunused
    simp at hunused
  by_contra hmeet
  by_cases hle : block.address ≤ str
  · exact hout (str - block.address) (by omega) 0 (Nat.zero_le _) (by omega)
  · exact hout 0 hpos (block.address - str) (by omega) (by omega)

/-- The second pass is left out if there is only one piece. -/
lemma cut_spec (h : Split d s words) (hd : d ≠ []) (ht : Text m x s) (hdelim : Text m delim d)
    (hfuel : (s.length + 1) * (d.length + 1) ≤ fuel) (hn : words.length ≤ fuel)
    (hword : m.readWord slot = some x) (htable : ∀ i < 8 * words.length, m.mapped (slot + i) = true)
    (hbehind : slot + 8 * words.length ≤ x) (hx : x + s.length < 2 ^ 64)
    (hapart : delim + d.length < slot ∨ x + s.length < delim) :
    ∃ m', (if words.length > 1 then Fuel.loop (cutBody fuel delim d.length) fuel ⟨m, x, slot⟩
        else some (m, slot)) = some (m', slot + 8 * (words.length - 1)) ∧
      Parts m' d.length slot x words ∧ (∀ y, m'.mapped y = m.mapped y) ∧
      ∀ y, y < slot + 8 ∨ slot + 8 * words.length ≤ y → y < x ∨ x + s.length ≤ y →
        m'.bytes y = m.bytes y := by
  by_cases hmany : words.length > 1
  · rw [if_pos hmany]
    exact cutLoop_spec h hd ht hdelim hfuel hn hword htable hbehind hx hapart
  · rw [if_neg hmany]
    cases h with
    | last _ => exact ⟨m, rfl, ⟨hword, ht, trivial⟩, fun _ => rfl, fun _ _ _ => rfl⟩
    | cut hfirst hrest =>
      have hpos := List.length_pos_of_ne_nil hrest.ne_nil
      rw [List.length_cons] at hmany
      omega

/-- What stands in the block when it is filled. -/
structure Filled (m m' : Memory) (d s : List UInt8) (words : List (List UInt8))
    (data : ℕ) : Prop where
  parts : Parts m' d.length data (data + 8 * (words.length + 1)) words
  null : m'.readWord (data + 8 * words.length) = some 0
  frame : m.Frame m' data (splitSize words.length s.length)

lemma fillBlock_spec {data : ℕ} (h : Split d s words) (hd : d ≠ []) (hs : Text m str s)
    (hdelim : Text m delim d) (hfuel : (s.length + 1) * (d.length + 1) ≤ fuel)
    (hmapped : ∀ i < splitSize words.length s.length, m.mapped (data + i) = true)
    (hout : str + s.length < data ∨ data + splitSize words.length s.length ≤ str)
    (hout' : delim + d.length < data ∨ data + splitSize words.length s.length ≤ delim) :
    ∃ m', fillBlock m fuel data (8 * (words.length + 1)) words.length str delim d.length = some m' ∧
      Filled m m' d s words data := by
  have hpos : 0 < words.length := List.length_pos_of_ne_nil h.ne_nil
  have hslen : s.length + 1 ≤ fuel := (Nat.le_mul_of_pos_right _ (by omega)).trans hfuel
  have hcount : words.length ≤ s.length + 1 := h.length_le hd
  have hsize : splitSize words.length s.length = 8 * (words.length + 1) + s.length + 1 := rfl
  have hend : data + (8 * (words.length + 1) + s.length) < 2 ^ 64 :=
    (m.canonical _ (hmapped _ (by omega))).lt
  generalize hx : data + 8 * (words.length + 1) = x
  have htext : ∀ i ≤ s.length, m.mapped (x + i) = true := by
    intro i hi
    rw [← hx, Nat.add_assoc]
    exact hmapped _ (by omega)
  -- the copy of the text
  let m₁ := m.copied x str (s.length + 1)
  have hcopy : strcpy m fuel x str = some (m₁, x) :=
    strcpy_eq hs (by omega) htext (by omega) (by omega)
  have hf₁ : m.Frame m₁ x (s.length + 1) := Memory.frame_copied m x str _
  have ht₁ : Text m₁ x s := hs.copied htext (by omega)
  -- the first entry
  let m₂ := m₁.setWord data x
  have hslot : ∀ i < 8, m₁.mapped (data + i) = true := fun i hi => hmapped i (by omega)
  have hf₂ : m₁.Frame m₂ data 8 := Memory.frame_setWord m₁ data x
  have hdelim₂ : Text m₂ delim d := (hdelim.frame hf₁ (by omega)).frame hf₂ (by omega)
  have hword : m₂.readWord data = some x := Memory.readWord_setWord hslot (by omega)
  obtain ⟨m₃, hcut, hparts, hmapped₃, hbytes₃⟩ := cut_spec h hd (ht₁.frame hf₂ (by omega)) hdelim₂
    hfuel (hcount.trans hslen) hword (fun i hi => hmapped i (by omega)) (by omega) (by omega)
    (by omega)
  -- the null pointer
  have hnull : ∀ i < 8, m₃.mapped (data + 8 * words.length + i) = true := by
    intro i hi
    rw [hmapped₃, Nat.add_assoc]
    exact hmapped _ (by omega)
  let m₄ := m₃.setWord (data + 8 * words.length) 0
  have hf₄ : m₃.Frame m₄ (data + 8 * words.length) 8 := Memory.frame_setWord m₃ _ 0
  refine ⟨m₄, ?_, ?_, ?_, ?_, ?_⟩
  · rw [fillBlock, hx, hcopy, Option.bind_some, Memory.writeWord_of_mapped hslot, Option.bind_some,
      hcut, Option.bind_some]
    dsimp only
    rw [show data + 8 * (words.length - 1) + 8 = data + 8 * words.length by omega]
    exact Memory.writeWord_of_mapped hnull
  · rw [hx]
    exact hparts.congr hf₄.mapped fun y hy => hf₄.bytes y (by omega)
  · exact Memory.readWord_setWord hnull (by norm_num)
  · exact fun y => (hf₄.mapped y).trans ((hmapped₃ y).trans rfl)
  · intro y hy
    rw [hf₄.bytes y (by omega), hbytes₃ y (by omega) (by omega), hf₂.bytes y (by omega),
      hf₁.bytes y (by omega)]

/-- What `_strsplit` returns. -/
lemma strsplit_spec (malloc : Malloc) (h : Split d s words) (hd : d ≠ []) (hs : Text m str s)
    (hdelim : Text m delim d) (hfuel : (s.length + 1) * (d.length + 1) ≤ fuel) :
    (malloc m (splitSize words.length s.length) = none →
      _strsplit malloc m fuel str delim = some (none, 0, m)) ∧
    ∀ block, malloc m (splitSize words.length s.length) = some block →
      ∃ m', _strsplit malloc m fuel str delim = some (some block.address, words.length, m') ∧
        Filled (m.add block) m' d s words block.address := by
  have hpos : 0 < words.length := List.length_pos_of_ne_nil h.ne_nil
  have hcount : words.length ≤ s.length + 1 := h.length_le hd
  have hslen : s.length + 1 ≤ fuel := (Nat.le_mul_of_pos_right _ (by omega)).trans hfuel
  have hdlen : d.length + 1 ≤ fuel := (Nat.le_mul_of_pos_left _ (by omega)).trans hfuel
  have hshort := hs.length_lt
  have hfirst : Fuel.loop (countBody m fuel delim d.length) fuel (str, 1) = some words.length := by
    have hloop := countLoop_eq (n := fuel) h hs hdelim hfuel (hcount.trans hslen)
      (show 1 + words.length ≤ 2 ^ 64 by omega)
    rw [hloop, Nat.add_sub_cancel' hpos]
  obtain ⟨htable, hsize⟩ := splitSize_eq hcount hshort
  constructor
  · intro hnone
    rw [_strsplit, strlen_eq hs hslen, Option.bind_some, strlen_eq hdelim hdlen, Option.bind_some,
      hfirst, Option.bind_some]
    dsimp only
    rw [hsize, withBlock, hnone]
    rfl
  · intro block hblock
    have hsome : 0 < splitSize words.length s.length := Nat.succ_pos _
    obtain ⟨m', hfill, hfilled⟩ := fillBlock_spec h hd (hs.add block) (hdelim.add block) hfuel
      (fun i hi => Memory.add_mapped_new hi) (apart_of_text hs block hsome)
      (apart_of_text hdelim block hsome)
    refine ⟨m', ?_, hfilled⟩
    rw [_strsplit, strlen_eq hs hslen, Option.bind_some, strlen_eq hdelim hdlen, Option.bind_some,
      hfirst, Option.bind_some]
    dsimp only
    rw [hsize, htable, withBlock, hblock]
    dsimp only
    rw [hfill]
    rfl

lemma Filled.components {data : ℕ} (h : Split d s words) (hf : Filled m m' d s words data) :
    Components m' data words :=
  ⟨fun _ _ hw => (Parts.entry h hf.parts hw).imp fun _ hp => ⟨hp.1, hp.2.1⟩, hf.null⟩

/-- `strsplit_count` leaves in its block the components that it finds in a string of characters. -/
lemma strsplit_count_refines {s d : List Char} {words : List (List Char)} {rounds : ℕ}
    (malloc : Malloc) (hwords : Str.strsplit_count rounds true s d = some (some words))
    (hd : d ≠ []) (h : ∀ c ∈ s ++ d, c.toNat < 256) (hs : Text m str (s.map byte))
    (hdelim : Text m delim (d.map byte)) (hfuel : (s.length + 1) * (d.length + 1) ≤ fuel)
    {block} (hblock : malloc m (splitSize words.length s.length) = some block) :
    ∃ m', strsplit_count malloc m fuel str delim = some (some block.address, words.length, m') ∧
      Components m' block.address (words.map (List.map byte)) := by
  obtain ⟨found, hfound, heq⟩ := Option.map_eq_some_iff.mp hwords
  obtain rfl := Option.some.inj heq
  have hsplit := (splitWords_split hfound).map (byte_injOn_of h)
  have hwork : ((s.map byte).length + 1) * ((d.map byte).length + 1) ≤ fuel := by
    rwa [List.length_map, List.length_map]
  have hspec := (strsplit_spec malloc hsplit (by simpa using hd) hs hdelim hwork).2
  rw [List.length_map, List.length_map] at hspec
  obtain ⟨m', hm', hfilled⟩ := hspec block hblock
  exact ⟨m', hm', hfilled.components hsplit⟩

/-- **Splitting is inverted by joining.** If the allocation succeeds, `strsplit_count` returns a
table of `nb` pointers to the components and a null pointer, all in the block; `nb` is one plus the
number of leftmost occurrences of the delimiter that do not overlap, the components joined with the
delimiter are the string, and none of them contains it. -/
theorem strsplit_count_joins (malloc : Malloc) (hs : Text m str s) (hdelim : Text m delim d)
    (hd : d ≠ []) :
    ∃ words, words.length = 1 + count d 0 s ∧ List.intercalate d words = s ∧
      (∀ w ∈ words, ¬ d <:+: w) ∧
      ∀ fuel, (s.length + 1) * (d.length + 1) ≤ fuel →
        (malloc m (splitSize words.length s.length) = none →
          strsplit_count malloc m fuel str delim = some (none, 0, m)) ∧
        ∀ block, malloc m (splitSize words.length s.length) = some block →
          ∃ m', strsplit_count malloc m fuel str delim
              = some (some block.address, words.length, m') ∧
            (∀ i w, words[i]? = some w → ∃ p, m'.readWord (block.address + 8 * i) = some p ∧
              block.address ≤ p ∧
              p + w.length < block.address + splitSize words.length s.length ∧ Text m' p w) ∧
            m'.readWord (block.address + 8 * words.length) = some 0 ∧
            block.address + 8 * words.length + 8 ≤
              block.address + splitSize words.length s.length := by
  obtain ⟨words, h⟩ := Split.exists hd s
  refine ⟨words, h.length_eq hd, h.join, h.avoids hd, fun fuel hfuel => ?_⟩
  obtain ⟨hnone, hsome⟩ := strsplit_spec malloc h hd hs hdelim hfuel
  refine ⟨hnone, fun block hblock => ?_⟩
  obtain ⟨m', hm', hfilled⟩ := hsome block hblock
  have hsize : splitSize words.length s.length = 8 * (words.length + 1) + s.length + 1 := rfl
  refine ⟨m', hm', fun i w hw => ?_, hfilled.null, by omega⟩
  obtain ⟨p, hread, htext, hle, hend⟩ := Parts.entry h hfilled.parts hw
  exact ⟨p, hread, by omega, by omega, htext⟩

/-- A heap whose blocks begin at `base`. -/
def mallocAt (base : ℕ) : Malloc := fun m size =>
  if h : 0 < base ∧ base + size ≤ 2 ^ 47 ∧ ∀ i < size, m.mapped (base + i) = false then
    some ⟨base, fun _ => 0, h.1, h.2.2, fun i hi => .inl (by omega)⟩
  else none

theorem strsplit_count_joins_sample :
    ∃ words : List (List UInt8), words.length = 1 + count [97, 98] 0 [97, 97, 98] ∧
      List.intercalate [97, 98] words = [97, 97, 98] ∧ (∀ w ∈ words, ¬ [97, 98] <:+: w) ∧
      ∀ fuel, 12 ≤ fuel →
        (mallocAt 1000 sample (splitSize words.length 3) = none →
          strsplit_count (mallocAt 1000) sample fuel 100 104 = some (none, 0, sample)) ∧
        ∀ block, mallocAt 1000 sample (splitSize words.length 3) = some block →
          ∃ m', strsplit_count (mallocAt 1000) sample fuel 100 104
              = some (some block.address, words.length, m') ∧
            (∀ i w, words[i]? = some w → ∃ p, m'.readWord (block.address + 8 * i) = some p ∧
              block.address ≤ p ∧ p + w.length < block.address + splitSize words.length 3 ∧
              Text m' p w) ∧
            m'.readWord (block.address + 8 * words.length) = some 0 ∧
            block.address + 8 * words.length + 8 ≤ block.address + splitSize words.length 3 :=
  strsplit_count_joins (mallocAt 1000) sample_text sample_substring (by decide)

end TurbOS.Str.Raw
