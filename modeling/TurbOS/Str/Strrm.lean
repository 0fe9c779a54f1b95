import TurbOS.Str.Strsplit

/-!
# Removing a substring in place

`strrm` moves what stands between the occurrences of the substring to the front, in the buffer that
it searches.  `q` is behind what was kept, `r` is the last occurrence, and `p` is behind it: `q` is
never beyond `p`, so the text that was not searched yet stays as it is.

The substring may share its end with the string.  What is moved before the last search ends in front
of an occurrence, and hence in front of the substring.
-/

open Occurrences MappedMemory

namespace TurbOS.Str.Raw

/-- The loop that moves what stands between two occurrences: `*q++ = *p++` while `p < r`. -/
def moveBody (r : ℕ) (st : Copying) : Option (Copying ⊕ Copying) :=
  if st.source < r then
    (st.memory.read st.source).bind fun c =>
      (st.memory.write st.destination c).map fun m => .inl ⟨m, st.destination + 1, st.source + 1⟩
  else some (.inr st)

/-- The loop that moves the rest: `*q++ = *p++` up to the terminator. -/
def tailBody (st : Copying) : Option (Copying ⊕ Memory) :=
  (st.memory.read st.source).bind fun c =>
    (st.memory.write st.destination c).map fun m =>
      if c ≠ 0 then .inl ⟨m, st.destination + 1, st.source + 1⟩ else .inr m

/-- The memory and the pointers of `strrm`. -/
structure Removing where
  memory : Memory
  q : ℕ
  r : ℕ

/-- The loop over the occurrences. -/
def removeBody (fuel substring len : ℕ) (st : Removing) : Option (Removing ⊕ Copying) :=
  let p := st.r + len
  (strstr st.memory fuel p substring).bind fun found =>
    match found with
    | none => some (.inr ⟨st.memory, st.q, p⟩)
    | some r =>
      (Fuel.loop (moveBody r) fuel ⟨st.memory, st.q, p⟩).map fun moved =>
        .inl ⟨moved.memory, moved.destination, r⟩

/-- What `strrm` does behind the first occurrence. -/
def removeFrom (m : Memory) (fuel substring len q r : ℕ) : Option Memory :=
  (Fuel.loop (removeBody fuel substring len) fuel ⟨m, q, r⟩).bind fun st =>
    Fuel.loop tailBody fuel st

/-- `strrm`. -/
def strrm (m : Memory) (fuel str substring : ℕ) : Option (ℕ × Memory) :=
  (m.read substring).bind fun c =>
    if c = 0 then some (str, m)
    else
      (strstr m fuel str substring).bind fun found =>
        match found with
        | none => some (str, m)
        | some r => (strlen m fuel substring).bind fun len =>
            (removeFrom m fuel substring len r r).map fun m => (str, m)

variable {m m' : Memory} {fuel str substring n p q : ℕ} {s t : List UInt8}
  {words : List (List UInt8)}

/-! ## Moving -/

/-- The loop moves `n` bytes. -/
lemma moveLoop_eq (hmapped : ∀ i < n, m.mapped (p + i) = true)
    (hmapped' : ∀ i < n, m.mapped (q + i) = true) (hle : q ≤ p) (hfuel : n < fuel) :
    Fuel.loop (moveBody (p + n)) fuel ⟨m, q, p⟩ = some ⟨m.copied q p n, q + n, p + n⟩ := by
  have hbody : ∀ k (st : Copying), (∃ i, i + k = n ∧ st = ⟨m.copied q p i, q + i, p + i⟩) →
      Fuel.Meets True (moveBody (p + n) st)
        (Sum.elim (fun st' => ∃ k' < k, ∃ i, i + k' = n ∧ st' = ⟨m.copied q p i, q + i, p + i⟩)
          (· = ⟨m.copied q p n, q + n, p + n⟩)) := by
    rintro k st ⟨i, hi, rfl⟩
    rw [moveBody]
    dsimp only
    by_cases hend : i = n
    · rw [if_neg (by omega), hend]
      exact .pure rfl
    · have hin : i < n := by omega
      have hwrite : (m.copied q p i).write (q + i) (m.bytes (p + i))
          = some ((m.copied q p i).set (q + i) (m.bytes (p + i))) :=
        Memory.write_of_mapped (hmapped' i hin)
      rw [if_pos (by omega), Memory.copied_next (.inr hle), Memory.read_of_mapped (hmapped i hin),
        Option.bind_some, hwrite, Memory.copied_succ (.inr hle), Option.map_some]
      exact .pure ⟨k - 1, by omega, i + 1, by omega, rfl⟩
  obtain ⟨r, hr, heq⟩ :=
    (Fuel.loop_meets True _ hbody fuel n ⟨m, q, p⟩ ⟨0, Nat.zero_add _, rfl⟩).returns
      ⟨trivial, hfuel⟩
  rw [hr, heq]

/-- The last loop is that of `strcpy`. -/
lemma tailBody_eq : tailBody = strcpyBody := by
  ext st : 1
  rw [tailBody, strcpyBody]
  congr 1
  ext c : 1
  by_cases hc : c = 0
  · rw [if_neg (not_not_intro hc), hc]
    rfl
  · rw [if_pos hc]
    congr 1
    ext m : 1
    rw [if_pos hc]

lemma tailLoop_eq (hs : Text m p s) (hmapped : ∀ i ≤ s.length, m.mapped (q + i) = true)
    (hle : q ≤ p) (hfuel : s.length < fuel) :
    Fuel.loop tailBody fuel ⟨m, q, p⟩ = some (m.copied q p (s.length + 1)) := by
  obtain ⟨r, hr, heq⟩ := (Fuel.loop_meets True _
    (fun _ _ h => strcpyBody_meets hs hmapped (.inr hle) h) fuel s.length ⟨m, q, p⟩
    ⟨0, Nat.zero_add _, rfl⟩).returns ⟨trivial, hfuel⟩
  rw [tailBody_eq, hr, heq]

/-! ## The loop over the occurrences -/

/-- What the loop and the last move leave, from the first occurrence on: the pieces behind it stand
at `q`, and nothing in front of `q` or behind the old terminator was written. -/
structure Removed (m m' : Memory) (q last : ℕ) (result : List UInt8) : Prop where
  text : Text m' q result
  mapped : ∀ y, m'.mapped y = m.mapped y
  bytes : ∀ y, y < q ∨ last < y → m'.bytes y = m.bytes y

/-- A string apart from the one that is changed. -/
lemma Removed.keeps {last b : ℕ} {result text : List UInt8} (h : Removed m m' q last result)
    (htext : Text m b text) (hapart : b + text.length < q ∨ last < b) : Text m' b text :=
  htext.congr (fun i hi => by rw [h.mapped, htext.mapped i hi]) fun i hi => h.bytes _ (by omega)

lemma removeFrom_spec (h : Split t s words) (ht : t ≠ []) (hs : Text m p s)
    (hsub : Text m substring t) (hfuel : (s.length + 1) * (t.length + 1) ≤ fuel)
    (hn : words.length ≤ n) {r : ℕ} (hp : p = r + t.length) (hle : q ≤ r)
    (hmapped : ∀ y, q ≤ y → y ≤ p + s.length → m.mapped y = true)
    (hapart : substring + t.length < q ∨ p + s.length < substring ∨
      p + s.length = substring + t.length) :
    ∃ m', (Fuel.loop (removeBody fuel substring t.length) n ⟨m, q, r⟩).bind
        (Fuel.loop tailBody fuel) = some m' ∧ Removed m m' q (p + s.length) words.flatten := by
  have hpos : 0 < t.length := List.length_pos_of_ne_nil ht
  have hslen : s.length + 1 ≤ fuel := (Nat.le_mul_of_pos_right _ (by omega)).trans hfuel
  induction h generalizing m p q r n with
  | @last s hnone =>
    obtain ⟨n, rfl⟩ : ∃ n', n = n' + 1 := ⟨n - 1, by rw [List.length_singleton] at hn; omega⟩
    have hroom : ∀ i ≤ s.length, m.mapped (q + i) = true := fun i hi =>
      hmapped _ (by omega) (by omega)
    have hf : m.Frame (m.copied q p (s.length + 1)) q (s.length + 1) := Memory.frame_copied m q p _
    refine ⟨m.copied q p (s.length + 1), ?_, ?_, hf.mapped, fun y hy => hf.bytes y (by omega)⟩
    · rw [Fuel.loop_succ, removeBody]
      dsimp only
      rw [← hp, strstr_last hs hsub hfuel hnone]
      exact tailLoop_eq hs hroom (by omega) hslen
    · rw [List.flatten_singleton]
      exact hs.copied hroom (by omega)
  | @cut s k words hfirst hrest ih =>
    have hlen := hfirst.add_le hfirst.le_length
    have hdrop : (s.drop (k + t.length)).length = s.length - (k + t.length) := List.length_drop
    rw [List.length_cons] at hn
    obtain ⟨n, rfl⟩ : ∃ n', n = n' + 1 := ⟨n - 1, by omega⟩
    -- the piece in front of the occurrence moves
    let m₁ := m.copied q p k
    have hf : m.Frame m₁ q k := Memory.frame_copied m q p k
    have hmove : Fuel.loop (moveBody (p + k)) fuel ⟨m, q, p⟩ = some ⟨m₁, q + k, p + k⟩ :=
      moveLoop_eq (fun i hi => hmapped _ (by omega) (by omega))
        (fun i hi => hmapped _ (by omega) (by omega)) (by omega) (by omega)
    obtain ⟨m', hloop, hremoved⟩ := ih ((hs.drop hlen).frame hf (by omega))
      (hsub.frame hf (by omega))
      (rest_fuel hfuel _) (show words.length ≤ n by omega) (r := p + k) (q := q + k) (by omega)
      (by omega) (fun y hy hy' => hmapped y (by omega) (by omega)) (by omega) (by omega)
    refine ⟨m', ?_, ?_, ?_, ?_⟩
    · rw [Fuel.loop_succ, removeBody]
      dsimp only
      rw [← hp, strstr_cut hs hsub hfuel hfirst, Option.bind_some]
      dsimp only
      rw [hmove]
      exact hloop
    · rw [List.flatten_cons]
      refine hs.take_append hfirst.le_length (fun i hi => ?_) (fun i hi => ?_) hremoved.text
      · rw [hremoved.mapped]
        exact hmapped _ (by omega) (by omega)
      · rw [hremoved.bytes _ (by omega)]
        exact Memory.copied_inside hi (by omega)
    · exact fun y => (hremoved.mapped y).trans (hf.mapped y)
    · intro y hy
      rw [hremoved.bytes y (by omega), hf.bytes y (by omega)]

/-- The whole string is cleared of the substring. -/
lemma strrm_spec (h : Split t s words) (ht : t ≠ []) (hs : Text m str s) (hsub : Text m substring t)
    (hfuel : (s.length + 1) * (t.length + 1) ≤ fuel) :
    ∃ m', strrm m fuel str substring = some (str, m') ∧
      Removed m m' str (str + s.length) words.flatten := by
  have hpos : 0 < t.length := List.length_pos_of_ne_nil ht
  have hslen : s.length + 1 ≤ fuel := (Nat.le_mul_of_pos_right _ (by omega)).trans hfuel
  have htlen : t.length + 1 ≤ fuel := (Nat.le_mul_of_pos_left _ (by omega)).trans hfuel
  obtain ⟨hread, hne⟩ := hsub.read_lt hpos
  rw [Nat.add_zero] at hread
  have hcount : words.length ≤ s.length + 1 := h.length_le ht
  cases h with
  | last hnone =>
    refine ⟨m, ?_, ?_, fun _ => rfl, fun _ _ => rfl⟩
    · rw [strrm, hread, Option.bind_some, if_neg hne, strstr_last hs hsub hfuel hnone]
      rfl
    · rw [List.flatten_singleton]
      exact hs
  | @cut _ k words hfirst hrest =>
    have hlen := hfirst.add_le hfirst.le_length
    have hdrop : (s.drop (k + t.length)).length = s.length - (k + t.length) := List.length_drop
    have hend : str + (k + t.length) + (s.drop (k + t.length)).length = str + s.length := by omega
    have hmeet := hs.apart_or_end hsub
    rw [List.length_cons] at hcount
    obtain ⟨m', hfrom, hremoved⟩ := removeFrom_spec (n := fuel) (r := str + k) (q := str + k)
      hrest ht (hs.drop hlen) hsub (rest_fuel hfuel _) (by omega) (by omega) le_rfl
      (fun y hy hy' => by
        rw [← Nat.add_sub_cancel' (show str ≤ y by omega)]
        exact hs.mapped _ (by omega))
      (by omega)
    rw [hend] at hremoved
    refine ⟨m', ?_, ?_, hremoved.mapped, fun y hy => hremoved.bytes y (by omega)⟩
    · rw [strrm, hread, Option.bind_some, if_neg hne, strstr_cut hs hsub hfuel hfirst,
        Option.bind_some]
      dsimp only
      rw [strlen_eq hsub htlen, Option.bind_some, removeFrom, hfrom, Option.map_some]
    · rw [List.flatten_cons]
      refine hs.take_append hfirst.le_length (fun i hi => ?_) (fun i hi => ?_) hremoved.text
      · rw [hremoved.mapped]
        exact hs.mapped i (by omega)
      · exact hremoved.bytes _ (by omega)

/-- **`strrm` removes exactly the delimiters that `strsplit` finds.** What is left is the
concatenation of the components, with a terminator, and no byte behind the old terminator (or in
front of the string) is written.  An empty substring changes nothing. -/
theorem strrm_removes (hs : Text m str s) (hsub : Text m substring t) :
    (t = [] → ∀ fuel, strrm m fuel str substring = some (str, m)) ∧
    (t ≠ [] → ∃ words,
      (∀ (malloc : Malloc) block fuel, (s.length + 1) * (t.length + 1) ≤ fuel →
        malloc m (splitSize words.length s.length) = some block →
        ∃ m', strsplit malloc m fuel str substring = some (some block.address, m') ∧
          Components m' block.address words) ∧
      ∀ fuel, (s.length + 1) * (t.length + 1) ≤ fuel →
        ∃ m', strrm m fuel str substring = some (str, m') ∧ Text m' str words.flatten ∧
          (∀ y, m'.mapped y = m.mapped y) ∧
          ∀ y, y < str ∨ str + s.length < y → m'.bytes y = m.bytes y) := by
  constructor
  · rintro rfl fuel
    have hread : m.read substring = some 0 := hsub.read_end
    rw [strrm, hread, Option.bind_some, if_pos rfl]
  · intro ht
    obtain ⟨words, h⟩ := Split.exists ht s
    refine ⟨words, fun malloc block fuel hfuel hblock => ?_, fun fuel hfuel => ?_⟩
    · obtain ⟨m', hm', hfilled⟩ := (strsplit_spec malloc h ht hs hsub hfuel).2 block hblock
      refine ⟨m', ?_, hfilled.components h⟩
      rw [strsplit, hm', Option.map_some]
    · obtain ⟨m', hm', hremoved⟩ := strrm_spec h ht hs hsub hfuel
      exact ⟨m', hm', hremoved.text, hremoved.mapped, hremoved.bytes⟩

theorem strrm_removes_sample :
    ([97, 98] = ([] : List UInt8) → ∀ fuel, strrm sample fuel 100 104 = some (100, sample)) ∧
    ([97, 98] ≠ ([] : List UInt8) → ∃ words,
      (∀ (malloc : Malloc) block fuel, 12 ≤ fuel →
        malloc sample (splitSize words.length 3) = some block →
        ∃ m', strsplit malloc sample fuel 100 104 = some (some block.address, m') ∧
          Components m' block.address words) ∧
      ∀ fuel, 12 ≤ fuel →
        ∃ m', strrm sample fuel 100 104 = some (100, m') ∧ Text m' 100 words.flatten ∧
          (∀ y, m'.mapped y = sample.mapped y) ∧
          ∀ y, y < 100 ∨ 103 < y → m'.bytes y = sample.bytes y) :=
  strrm_removes sample_text sample_substring

end TurbOS.Str.Raw
