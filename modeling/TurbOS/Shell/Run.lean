import TurbOS.Str.Strcat

/-!
# The command word and its argument

`run` collects the command word in the array `tmp`, and then takes it, and every space, out of the
line: what is left is the argument.  So the argument loses what looks like the command word.

The line, the arrays and the literal are objects of their own, and behind `tmp` nothing is mapped:
an access beyond its ten bytes is a fault.
-/

open Occurrences MappedMemory

namespace TurbOS.Shell

open Str.Raw

/-- The objects of one round of `run`: the line, the arrays `tmp` and `c`, and the literal `" "`. -/
structure Objects where
  command : ℕ
  tmp : ℕ
  c : ℕ
  space : ℕ

/-- The loop that collects the command word. -/
def wordBody (x : Objects) (fuel : ℕ) (st : Memory × ℕ) : Option (Memory × ℕ ⊕ Memory) :=
  (strlen st.1 fuel x.command).bind fun length =>
    if st.2 < length then
      (st.1.read (x.command + st.2)).bind fun ch =>
        if ch ≠ 32 ∧ ch ≠ 0 then
          (clearArray st.1 x.c 2).bind fun m =>
            (m.read (x.command + st.2)).bind fun ch =>
              (m.write x.c ch).bind fun m =>
                (strcat m fuel x.tmp x.c).map fun m => .inl (m, st.2 + 1)
        else some (.inr st.1)
    else some (.inr st.1)

/-- A round of `run`, from the line to the call of `parse`: the two arguments, and the memory. -/
def splitLine (x : Objects) (m : Memory) (fuel : ℕ) : Option (ℕ × ℕ × Memory) :=
  (clearArray m x.tmp 10).bind fun m =>
    (Fuel.loop (wordBody x fuel) fuel (m, 0)).bind fun m =>
      (strrm m fuel x.command x.tmp).bind fun r =>
        (strrm r.2 fuel r.1 x.space).map fun r => (x.tmp, r.1, r.2)

/-- `n` bytes at `a` and `k` bytes at `b` are different. -/
def Apart (a n b k : ℕ) : Prop := a + n ≤ b ∨ b + k ≤ a

instance (a n b k : ℕ) : Decidable (Apart a n b k) := inferInstanceAs (Decidable (_ ∨ _))

/-- The objects before the round. -/
structure Layout (x : Objects) (m : Memory) (input : List UInt8) : Prop where
  command : Text m x.command input
  space : Text m x.space [32]
  tmp : ∀ i < 10, m.mapped (x.tmp + i) = true
  tmp_end : m.mapped (x.tmp + 10) = false
  tmp_ne : x.tmp ≠ 0
  c : ∀ i < 2, m.mapped (x.c + i) = true
  tmp_c : Apart x.tmp 10 x.c 2
  tmp_command : Apart x.tmp 10 x.command (input.length + 1)
  c_command : Apart x.c 2 x.command (input.length + 1)
  tmp_space : Apart x.tmp 10 x.space 2
  c_space : Apart x.c 2 x.space 2
  command_space : Apart x.command (input.length + 1) x.space 2

/-- What stands behind the command word. -/
def restOf : Option (List UInt8) → List UInt8
  | none => []
  | some a => 32 :: a

variable {x : Objects} {m m' m₀ : Memory} {fuel : ℕ} {w input s : List UInt8}
  {a : Option (List UInt8)}

/-! ## The loop -/

/-- A part of the word has been collected. -/
structure Collected (x : Objects) (m₀ m : Memory) (s : List UInt8) : Prop where
  tmp : Padded m x.tmp 10 s
  mapped : ∀ y, m.mapped y = m₀.mapped y
  bytes : ∀ y, y < x.tmp ∨ x.tmp + 10 ≤ y → y < x.c ∨ x.c + 2 ≤ y → m.bytes y = m₀.bytes y

/-- An object other than the arrays. -/
lemma Collected.text (h : Collected x m₀ m s) {b : ℕ} {t : List UInt8} (ht : Text m₀ b t)
    (htmp : Apart x.tmp 10 b (t.length + 1)) (hc : Apart x.c 2 b (t.length + 1)) : Text m b t := by
  rw [Apart] at htmp hc
  refine ht.congr (fun i hi => by rw [h.mapped, ht.mapped i hi]) fun i hi => ?_
  exact h.bytes _ (by omega) (by omega)

/-- One more character. -/
lemma Collected.next (hlayout : Layout x m₀ input) (h : Collected x m₀ m s) (hlen : s.length < 10)
    {i : ℕ} (hi : i < input.length) (hspace : input[i] ≠ 32) (hfuel : input.length + 10 < fuel) :
    ∃ m', wordBody x fuel (m, i) = some (.inl (m', i + 1)) ∧
      Collected x m₀ m' (s ++ [input[i]]) := by
  have htmp_c := hlayout.tmp_c
  have htmp := hlayout.tmp_command
  have hc := hlayout.c_command
  rw [Apart] at htmp_c
  have hline := h.text hlayout.command htmp hc
  obtain ⟨hread, hne⟩ := hline.read_lt hi
  obtain ⟨m₁, hm₁, hf, hpad⟩ := clearArray_spec (m := m) (a := x.c) (n := 2) fun j hj => by
    rw [h.mapped, hlayout.c j hj]
  have htmp₁ : Padded m₁ x.tmp 10 s :=
    h.tmp.congr hlen.le hf.mapped fun j hj => hf.bytes _ (by omega)
  have hread₁ : m₁.read (x.command + i) = some input[i] := by
    rw [Apart] at hc
    rw [← hread, Memory.read, Memory.read, hf.mapped, hf.bytes _ (by omega)]
  -- `c` holds the character now
  have hchar : Padded (m₁.set x.c input[i]) x.c 2 [input[i]] := hpad.snoc hne
  have hset := Memory.frame_set m₁ x.c input[i]
  have htmp₂ : Padded (m₁.set x.c input[i]) x.tmp 10 s :=
    htmp₁.congr hlen.le hset.mapped fun j hj => hset.bytes _ (by omega)
  have hwrite : m₁.write x.c input[i] = some (m₁.set x.c input[i]) :=
    Memory.write_of_mapped (hpad.mapped 0 (by omega))
  have hcat : strcat (m₁.set x.c input[i]) fuel x.tmp x.c
      = some ((m₁.set x.c input[i]).set (x.tmp + s.length) input[i]) :=
    strcat_singleton hlayout.tmp_ne (htmp₂.text hlen) (hchar.text (by simp)) (by omega) (by omega)
      (by omega)
  have hlast := Memory.frame_set (m₁.set x.c input[i]) (x.tmp + s.length) input[i]
  refine ⟨(m₁.set x.c input[i]).set (x.tmp + s.length) input[i], ?_, htmp₂.snoc hne, fun y => ?_,
    fun y hy hy' => ?_⟩
  · rw [wordBody]
    dsimp only
    rw [strlen_eq hline (by omega), Option.bind_some, if_pos hi, hread, Option.bind_some,
      if_pos ⟨hspace, hne⟩, hm₁, Option.bind_some, hread₁, Option.bind_some, hwrite,
      Option.bind_some, hcat, Option.map_some]
  · rw [hlast.mapped, hset.mapped, hf.mapped, h.mapped]
  · rw [hlast.bytes _ (by omega), hset.bytes _ (by omega), hf.bytes _ (by omega), h.bytes y hy hy']

/-- The word ends at a space, or with the line. -/
lemma Collected.stop (hlayout : Layout x m₀ (w ++ restOf a)) (h : Collected x m₀ m s)
    (hfuel : (w ++ restOf a).length < fuel) : wordBody x fuel (m, w.length) = some (.inr m) := by
  have hline := h.text hlayout.command hlayout.tmp_command hlayout.c_command
  rw [wordBody]
  dsimp only
  rw [strlen_eq hline hfuel, Option.bind_some]
  cases a with
  | none => rw [restOf, List.append_nil, if_neg (lt_irrefl _)]
  | some a =>
    have hlt : w.length < (w ++ restOf (some a)).length := by simp [restOf]
    have hchar : (w ++ restOf (some a))[w.length] = 32 := by simp [restOf]
    rw [if_pos hlt, (hline.read_lt hlt).1, Option.bind_some, hchar, if_neg (by simp)]

lemma Collected.loop (hlayout : Layout x m₀ (w ++ restOf a)) (h : Collected x m₀ m [])
    (hspace : 32 ∉ w) (hlen : w.length < 10) (hfuel : (w ++ restOf a).length + 10 < fuel) :
    ∃ m', Fuel.loop (wordBody x fuel) fuel (m, 0) = some m' ∧ Collected x m₀ m' w := by
  have hbody : ∀ k st, (∃ i, i + k = w.length ∧ st.2 = i ∧ Collected x m₀ st.1 (w.take i)) →
      Fuel.Meets True (wordBody x fuel st) (Sum.elim
        (fun st' => ∃ k' < k, ∃ i, i + k' = w.length ∧ st'.2 = i ∧ Collected x m₀ st'.1 (w.take i))
        (Collected x m₀ · w)) := by
    rintro k ⟨m, j⟩ ⟨i, hi, hj, hcol⟩
    dsimp only at hj hcol ⊢
    subst hj
    by_cases hend : j = w.length
    · rw [hend, hcol.stop hlayout (by omega)]
      rw [hend, List.take_length] at hcol
      exact .pure hcol
    · have hlt : j < w.length := by omega
      have hlt' : j < (w ++ restOf a).length := by rw [List.length_append]; omega
      have hchar : (w ++ restOf a)[j] = w[j] := List.getElem_append_left hlt
      obtain ⟨m', hm', hcol'⟩ := hcol.next hlayout (by rw [List.length_take]; omega) hlt'
        (by rw [hchar]; rintro heq; exact hspace (heq ▸ List.getElem_mem hlt)) hfuel
      rw [hchar, List.take_concat_get' w j hlt] at hcol'
      rw [hm']
      exact .pure ⟨k - 1, by omega, j + 1, by omega, rfl, hcol'⟩
  rw [List.length_append] at hfuel
  exact (Fuel.loop_meets True _ hbody fuel w.length (m, 0) ⟨0, by omega, rfl, by
    rw [List.take_zero]
    exact h⟩).returns ⟨trivial, by omega⟩

/-! ## The call of `parse` -/

/-- The command word is what it should be if it fits; the argument lacks what looks like it. -/
lemma splitLine_spec {words : List (List UInt8)} (hlayout : Layout x m (w ++ restOf a))
    (hw : w ≠ []) (hspace : 32 ∉ w) (hlen : w.length < 10)
    (hfuel : ((w ++ restOf a).length + 10) * ((w ++ restOf a).length + 2) ≤ fuel)
    (hsplit : Split w (w ++ restOf a) words) :
    ∃ m', splitLine x m fuel = some (x.tmp, x.command, m') ∧ Text m' x.tmp w ∧
      Text m' x.command (words.flatten.filter (· ≠ 32)) := by
  have hlong : w.length ≤ (w ++ restOf a).length := by simp
  have htwo : ((w ++ restOf a).length + 10) * 2 ≤ fuel :=
    (Nat.mul_le_mul_left _ (by omega)).trans hfuel
  obtain ⟨m₁, hm₁, hf₁, hpad₁⟩ := clearArray_spec hlayout.tmp
  have hcleared : Collected x m m₁ [] := ⟨hpad₁, hf₁.mapped, fun y hy _ => hf₁.bytes y hy⟩
  have hrounds : (w ++ restOf a).length + 10 < fuel := by omega
  obtain ⟨m₂, hm₂, hcol⟩ := hcleared.loop hlayout hspace hlen hrounds
  have hline := hcol.text hlayout.command hlayout.tmp_command hlayout.c_command
  have hliteral := hcol.text hlayout.space hlayout.tmp_space hlayout.c_space
  have hword := hcol.tmp.text hlen
  have htmp := hlayout.tmp_command
  have hcommand := hlayout.command_space
  rw [Apart] at htmp hcommand
  -- the command word is removed
  have hfuel₃ : ((w ++ restOf a).length + 1) * (w.length + 1) ≤ fuel :=
    (Nat.mul_le_mul (by omega) (by omega)).trans hfuel
  obtain ⟨m₃, hm₃, hremoved₃⟩ := strrm_spec hsplit hw hline hword hfuel₃
  have hshort : words.flatten.length ≤ (w ++ restOf a).length := by
    have hcount := hsplit.countP fun _ => true
    rw [List.countP_true] at hcount
    omega
  have hword₃ : Text m₃ x.tmp w := hremoved₃.keeps hword (by omega)
  have hliteral₃ : Text m₃ x.space [32] :=
    hremoved₃.keeps hliteral (by rw [List.length_singleton]; omega)
  -- and then the spaces
  obtain ⟨pieces, hpieces⟩ := Split.exists (List.cons_ne_nil (32 : UInt8) []) words.flatten
  have hfuel₄ : (words.flatten.length + 1) * ([32].length + 1) ≤ fuel :=
    (Nat.mul_le_mul (by omega) (by simp)).trans htwo
  obtain ⟨m₄, hm₄, hremoved₄⟩ := strrm_spec hpieces (by simp) hremoved₃.text hliteral₃ hfuel₄
  refine ⟨m₄, ?_, hremoved₄.keeps hword₃ (by omega), ?_⟩
  · rw [splitLine, hm₁, Option.bind_some, hm₂, Option.bind_some, hm₃, Option.bind_some, hm₄,
      Option.map_some]
  · rw [← hpieces.flatten_singleton]
    exact hremoved₄.text

/-- The arguments that a run has passed. -/
lemma splitLine_passes {words : List (List UInt8)} {cmd arguments : ℕ}
    (hlayout : Layout x m (w ++ restOf a)) (hw : w ≠ []) (hspace : 32 ∉ w) (hlen : w.length < 10)
    (hfuel : ((w ++ restOf a).length + 10) * ((w ++ restOf a).length + 2) ≤ fuel)
    (hsplit : Split w (w ++ restOf a) words)
    (hrun : splitLine x m fuel = some (cmd, arguments, m')) :
    Text m' cmd w ∧ Text m' arguments (words.flatten.filter (· ≠ 32)) := by
  obtain ⟨m₁, hrun₁, hword, htext⟩ := splitLine_spec hlayout hw hspace hlen hfuel hsplit
  obtain ⟨rfl, hrest⟩ := Prod.mk.inj (Option.some.inj (hrun.symm.trans hrun₁))
  obtain ⟨rfl, rfl⟩ := Prod.mk.inj hrest
  exact ⟨hword, htext⟩

/-! ## The argument -/

/-- The command word does not begin with the space. -/
lemma infix_restOf_iff (hw : w ≠ []) (hspace : 32 ∉ w) : w <:+: restOf a ↔ w <:+: a.getD [] := by
  cases a with
  | none => rfl
  | some a =>
    rw [restOf, List.infix_cons_iff, Option.getD_some, or_iff_right]
    intro hfront
    obtain ⟨ch, t, rfl⟩ := List.exists_cons_of_ne_nil hw
    rw [List.cons_prefix_cons] at hfront
    exact hspace (by rw [hfront.1]; exact List.mem_cons_self)

lemma filter_restOf (ha : 32 ∉ a.getD []) : (restOf a).filter (· ≠ 32) = a.getD [] := by
  cases a with
  | none => rfl
  | some a =>
    rw [restOf, List.filter_cons_of_neg (by simp), Option.getD_some, List.filter_eq_self]
    intro ch hch
    rw [decide_eq_true_eq]
    rintro rfl
    exact ha hch

/-- Nothing is lost if the word does not occur in the argument. -/
lemma argument_iff {words : List (List UInt8)} (hw : w ≠ []) (hspace : 32 ∉ w) (ha : 32 ∉ a.getD [])
    (hsplit : Split w (w ++ restOf a) words) :
    words.flatten.filter (· ≠ 32) = a.getD [] ↔ ¬ w <:+: a.getD [] := by
  obtain ⟨words', hrest⟩ := Split.exists hw (restOf a)
  have hcut : Split w (w ++ restOf a) ((w ++ restOf a).take 0 :: words') := by
    refine .cut (First.zero (List.prefix_append w _)) ?_
    rw [Nat.zero_add, List.drop_left]
    exact hrest
  rw [hsplit.unique hcut, List.take_zero, List.flatten_cons, List.nil_append,
    ← infix_restOf_iff hw hspace]
  constructor
  · intro heq
    -- every occurrence takes characters that are not spaces
    have hcount := hrest.countP fun ch => decide (ch ≠ 32)
    rw [List.countP_eq_length_filter, List.countP_eq_length_filter, filter_restOf ha, heq] at hcount
    have hpos : 0 < w.countP fun ch => decide (ch ≠ 32) := by
      rw [List.countP_pos_iff]
      obtain ⟨ch, t, rfl⟩ := List.exists_cons_of_ne_nil hw
      refine ⟨ch, List.mem_cons_self, ?_⟩
      rw [decide_eq_true_eq]
      rintro rfl
      exact hspace List.mem_cons_self
    have hone : words'.length - 1 = 0 := by
      by_contra hne
      have := Nat.mul_pos (Nat.pos_of_ne_zero hne) hpos
      omega
    generalize hs : restOf a = s at hrest ⊢
    cases hrest with
    | last hnone => exact (Split.last hnone).avoids hw _ (List.mem_singleton_self _)
    | cut hfirst hrest =>
      have := List.length_pos_of_ne_nil hrest.ne_nil
      rw [List.length_cons] at hone
      omega
  · intro hno
    have hlast : Split w (restOf a) [restOf a] := .last fun k hk =>
      hno (hk.isInfix.trans (List.drop_suffix k _).isInfix)
    rw [hrest.unique hlast, List.flatten_singleton, filter_restOf ha]

/-! ## The main result -/

lemma mapped_of_wordBody {st : Memory × ℕ} {r : Memory × ℕ ⊕ Memory}
    (h : wordBody x fuel st = some r) : Sum.elim (·.1.mapped) (·.mapped) r = st.1.mapped := by
  obtain ⟨length, -, h⟩ := Option.bind_eq_some_iff.1 h
  split at h
  · obtain ⟨ch, -, h⟩ := Option.bind_eq_some_iff.1 h
    split at h
    · obtain ⟨m₁, h₁, h⟩ := Option.bind_eq_some_iff.1 h
      obtain ⟨ch', -, h⟩ := Option.bind_eq_some_iff.1 h
      obtain ⟨m₂, h₂, h⟩ := Option.bind_eq_some_iff.1 h
      obtain ⟨m₃, h₃, rfl⟩ := Option.map_eq_some_iff.1 h
      exact ((mapped_of_strcat h₃).trans (mapped_of_write h₂)).trans (mapped_of_clearArray h₁)
    · rw [← Option.some.inj h]
      rfl
  · rw [← Option.some.inj h]
    rfl

lemma mapped_of_splitLine {r : ℕ × ℕ × Memory} (h : splitLine x m fuel = some r) :
    r.2.2.mapped = m.mapped := by
  obtain ⟨m₁, h₁, h⟩ := Option.bind_eq_some_iff.1 h
  obtain ⟨m₂, h₂, h⟩ := Option.bind_eq_some_iff.1 h
  obtain ⟨r₃, h₃, h⟩ := Option.bind_eq_some_iff.1 h
  obtain ⟨r₄, h₄, rfl⟩ := Option.map_eq_some_iff.1 h
  have hloop : m₂.mapped = m₁.mapped :=
    mapped_of_loop Prod.fst id (fun st r hr => mapped_of_wordBody hr) h₂
  exact ((mapped_of_strrm h₄).trans (mapped_of_strrm h₃)).trans
    (hloop.trans (mapped_of_clearArray h₁))

/-- **The command word and the argument.**  For a line of a word, or of a word, one space and an
argument, `run` reaches the call of `parse` without an access beyond `tmp` and passes this word and
this argument, exactly if the word has at most nine characters and does not occur in the
argument. -/
theorem splitLine_splits_iff (hlayout : Layout x m (w ++ restOf a)) (hw : w ≠ []) (hspace : 32 ∉ w)
    (ha : 32 ∉ a.getD [])
    (hfuel : ((w ++ restOf a).length + 10) * ((w ++ restOf a).length + 2) ≤ fuel) :
    (∃ cmd arguments m', splitLine x m fuel = some (cmd, arguments, m') ∧ Text m' cmd w ∧
      Text m' arguments (a.getD [])) ↔ w.length ≤ 9 ∧ ¬ w <:+: a.getD [] := by
  obtain ⟨words, hsplit⟩ := Split.exists hw (w ++ restOf a)
  constructor
  · rintro ⟨cmd, arguments, m', hrun, hcmd, harguments⟩
    have hlen : w.length ≤ 9 := by
      by_contra hlong
      -- the word would reach the byte behind `tmp`
      have hmapped := congrFun (mapped_of_splitLine hrun) (x.tmp + 10)
      have hcmd' : cmd = x.tmp := by
        obtain ⟨m₁, -, h⟩ := Option.bind_eq_some_iff.1 hrun
        obtain ⟨m₂, -, h⟩ := Option.bind_eq_some_iff.1 h
        obtain ⟨r₃, -, h⟩ := Option.bind_eq_some_iff.1 h
        obtain ⟨r₄, -, h⟩ := Option.map_eq_some_iff.1 h
        exact (Prod.mk.inj h).1.symm
      rw [hlayout.tmp_end, ← hcmd', hcmd.mapped 10 (by omega)] at hmapped
      simp at hmapped
    have htext := (splitLine_passes hlayout hw hspace (by omega) hfuel hsplit hrun).2
    exact ⟨hlen, (argument_iff hw hspace ha hsplit).1 (htext.unique harguments)⟩
  · rintro ⟨hlen, hno⟩
    obtain ⟨m', hrun, hword, htext⟩ := splitLine_spec hlayout hw hspace (by omega) hfuel hsplit
    rw [(argument_iff hw hspace ha hsplit).2 hno] at htext
    exact ⟨_, _, m', hrun, hword, htext⟩

/-- The objects of the samples; `tmp` is the last one. -/
def objects : Objects := ⟨100, 113, 111, 109⟩

/-- The line `cd a`. -/
def cdMemory : Memory :=
  ofList 100 ([99, 100, 32, 97, 0, 0, 0, 0, 0, 32, 0] ++ List.replicate 12 0) (by decide)

lemma cdMemory_layout : Layout objects cdMemory ([99, 100] ++ restOf (some [97])) := by
  refine ⟨.of_bytes ?_ ?_ ?_, .of_bytes ?_ ?_ ?_, ?_, ?_, ?_, ?_, ?_, ?_, ?_, ?_, ?_, ?_⟩ <;>
    decide +kernel

/-- `cd` with the argument `a`. -/
theorem splitLine_splits_sample :
    ∃ cmd arguments m', splitLine objects cdMemory 84 = some (cmd, arguments, m') ∧
      Text m' cmd [99, 100] ∧ Text m' arguments [97] :=
  (splitLine_splits_iff cdMemory_layout (by decide) (by decide) (by decide) (by decide)).2
    ⟨by decide, by decide⟩

/-- The line `cd cdrom`. -/
def cdromMemory : Memory :=
  ofList 100 ([99, 100, 32, 99, 100, 114, 111, 109, 0, 32, 0] ++ List.replicate 12 0) (by decide)

lemma cdromMemory_layout :
    Layout objects cdromMemory ([99, 100] ++ restOf (some [99, 100, 114, 111, 109])) := by
  refine ⟨.of_bytes ?_ ?_ ?_, .of_bytes ?_ ?_ ?_, ?_, ?_, ?_, ?_, ?_, ?_, ?_, ?_, ?_, ?_⟩ <;>
    decide +kernel

/-- The argument that `cd cdrom` passes is `rom`. -/
theorem splitLine_loses_characters :
    ¬ ∀ (x : Objects) (m : Memory) (fuel : ℕ) (w : List UInt8) (a : Option (List UInt8)),
      Layout x m (w ++ restOf a) → w ≠ [] → 32 ∉ w → 32 ∉ a.getD [] →
      ((w ++ restOf a).length + 10) * ((w ++ restOf a).length + 2) ≤ fuel →
      ∃ cmd arguments m', splitLine x m fuel = some (cmd, arguments, m') ∧ Text m' cmd w ∧
        Text m' arguments (a.getD []) := by
  intro hall
  obtain ⟨cmd, arguments, m', hrun, -, htext⟩ := hall objects cdromMemory 180 [99, 100]
    (some [99, 100, 114, 111, 109]) cdromMemory_layout (by decide) (by decide) (by decide)
      (by decide)
  obtain ⟨words, hsplit⟩ := Split.exists (by decide : ([99, 100] : List UInt8) ≠ [])
    ([99, 100] ++ restOf (some [99, 100, 114, 111, 109]))
  have hfuel : (([99, 100] ++ restOf (some [99, 100, 114, 111, 109])).length + 10) *
      (([99, 100] ++ restOf (some [99, 100, 114, 111, 109])).length + 2) ≤ 180 := by decide
  have htext₁ := (splitLine_passes cdromMemory_layout (by decide) (by decide) (by decide)
    hfuel hsplit hrun).2
  have hno := (argument_iff (by decide) (by decide) (by decide) hsplit).1 (htext₁.unique htext)
  exact hno (by decide)

end TurbOS.Shell
