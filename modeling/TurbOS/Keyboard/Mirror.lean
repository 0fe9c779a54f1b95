import TurbOS.Keyboard.Line

/-!
# What stands in the buffer

`buff` should hold what was typed since the last Enter.  But `clearBuffer` clears the first
character only, and `strcat` writes no terminator: the first character of the next line is written
in front of what the last one has left.

The characters of all keys are recorded next to the machine.  As long as Enter never ends a line of
more than one character, the buffer is the line and zeros behind it.
-/

open Runs

namespace TurbOS.Keyboard

/-- What was typed, after one more key. -/
def retype (s : List Char) (ch : Char) : List Char :=
  if ch = '\n' then [] else if ch = '\x00' then s else edit s ch

/-- The characters since the last Enter, without those that a backspace has deleted. -/
def sinceEnter (history : List Char) : List Char := history.foldl retype []

/-- The machine, and the characters of all keys so far. -/
structure Recorded where
  machine : Machine := boot
  history : List Char := []

/-- A step, with what the key types. -/
def record (a : Action) (r : Recorded) : Option Recorded :=
  (step a r.machine).map fun m => ⟨m, r.history ++ typed [a] r.machine⟩

/-- The string in `buff` is what was typed, and after Enter the whole buffer is empty. -/
def Mirrors (r : Recorded) : Prop :=
  Str.text r.machine.kbd.buff = some (sinceEnter r.history) ∧
    (r.history.getLast? = some '\n' → r.machine.kbd.buff = List.replicate 1024 '\x00')

/-- Neither Ctrl nor Alt is pressed, and there is room for a character.  While a line is read, a
backspace takes a character of that line: else the handler writes in front of `retstr`. -/
def Plainly (r : Recorded) : Action → Prop
  | .key scancode =>
    scancode ≠ 0x1D ∧ scancode ≠ 0x38 ∧ (sinceEnter r.history).length < 1023 ∧
      (delivered r.machine.kbd scancode = some '\x08' → r.machine.kbd.reading = true →
        r.machine.kbd.buff.head? ≠ some '\x00' → 1 ≤ r.machine.kbd.gi)
  | _ => True

/-- The condition: Enter ends a line of at most one character. -/
def BriefEnter (r : Recorded) : Action → Prop
  | .key scancode =>
    delivered r.machine.kbd scancode = some '\n' → (sinceEnter r.history).length ≤ 1
  | _ => True

/-- The buffer is what was typed, and zeros. -/
structure Mirrored (r : Recorded) : Prop where
  buff : r.machine.kbd.buff = pad (sinceEnter r.history)
  length : (sinceEnter r.history).length ≤ 1023
  zero : '\x00' ∉ sinceEnter r.history
  padded : Padded r.machine.kbd.c
  alt : r.machine.kbd.kbdMod.alt = false
  ctrl : r.machine.kbd.kbdMod.ctrl = false

variable {r r' : Recorded} {m m' : Machine} {k : Driver} {a : Action} {ch : Char} {scancode : UInt8}
  {s history : List Char}

lemma sinceEnter_append (history : List Char) (ch : Char) :
    sinceEnter (history ++ [ch]) = retype (sinceEnter history) ch := by
  rw [sinceEnter, List.foldl_append]
  rfl

lemma sinceEnter_enter (h : history.getLast? = some '\n') : sinceEnter history = [] := by
  obtain ⟨before, rfl⟩ := List.getLast?_eq_some_iff.1 h
  rw [sinceEnter_append, retype, if_pos rfl]

lemma text_pad (hlen : s.length ≤ 1023) (hs : '\x00' ∉ s) : Str.text (pad s) = some s := by
  obtain ⟨n, hn⟩ : ∃ n, 1024 - s.length = n + 1 := ⟨1023 - s.length, by omega⟩
  exact Str.text_eq_some_iff.2 ⟨List.replicate n '\x00', by rw [pad, hn, List.replicate_succ], hs⟩

lemma Mirrored.text (h : Mirrored r) :
    Str.text r.machine.kbd.buff = some (sinceEnter r.history) := by
  rw [h.buff, text_pad h.length h.zero]

lemma Mirrored.mirrors (h : Mirrored r) : Mirrors r := by
  refine ⟨h.text, fun henter => ?_⟩
  rw [h.buff, sinceEnter_enter henter, pad_nil]

lemma mirrored_start : Mirrored {} where
  buff := rfl
  length := by simp [sinceEnter]
  zero := by simp [sinceEnter]
  padded := fits_boot.padded
  alt := rfl
  ctrl := rfl

/-! ## The keys -/

/-- The keys with a case of their own leave Ctrl and Alt released. -/
lemma special_handler (h : ¬ Ordinary scancode) (hctrl : scancode ≠ 0x1D) (halt : scancode ≠ 0x38)
    (hc : Padded k.c) :
    ∃ mods c, Padded c ∧ keyboardHandler scancode k = some { k with kbdMod := mods, c := c } ∧
      (k.kbdMod.alt = false → mods.alt = false) ∧ (k.kbdMod.ctrl = false → mods.ctrl = false) := by
  by_cases hmod : Modifier scancode
  · obtain ⟨mods, heq, hkeep⟩ := hmod.handler k
    exact ⟨mods, k.c, hc, heq, hkeep⟩
  · have hdown : scancode &&& 0x80 = 0 := by
      by_contra hup
      exact hmod (.inl hup)
    have arrow : ∀ ch, ch ≠ '\x00' → keyboardHandler scancode k = arrowKey ch k →
        ∃ mods c, Padded c ∧ keyboardHandler scancode k = some { k with kbdMod := mods, c := c } ∧
          (k.kbdMod.alt = false → mods.alt = false) ∧
          (k.kbdMod.ctrl = false → mods.ctrl = false) := by
      intro ch hch heq
      obtain ⟨c, hpad, harrow⟩ := hc.arrowKey ch hch
      exact ⟨k.kbdMod, c, hpad, heq.trans harrow, id, id⟩
    have hmem : scancode = 0x48 ∨ scancode = 0x50 ∨ scancode = 0x4D ∨ scancode = 0x4B := by
      by_contra hne
      refine h ⟨hdown, fun hin => hmod (.inr ?_)⟩
      simp only [List.mem_cons, List.not_mem_nil, or_false] at hin ⊢
      tauto
    rcases hmem with rfl | rfl | rfl | rfl
    · exact arrow 'A' (by decide) rfl
    · exact arrow 'B' (by decide) rfl
    · exact arrow 'C' (by decide) rfl
    · exact arrow 'D' (by decide) rfl

/-- Enter clears a line of at most one character. -/
lemma pad_set_zero (h : s.length ≤ 1) : (pad s).set 0 '\x00' = pad [] := by
  match s, h with
  | [], _ => rw [pad_nil, List.set_replicate_self]
  | [x], _ => exact pad_dropLast (l := [x]) (by simp) (by simp)

/-- And no longer one. -/
lemma pad_set_zero_ne (hlen : 2 ≤ s.length) (hs : '\x00' ∉ s) :
    (pad s).set 0 '\x00' ≠ List.replicate 1024 '\x00' := by
  intro heq
  obtain ⟨x, y, t, rfl⟩ : ∃ x y t, s = x :: y :: t := by
    match s, hlen with
    | x :: y :: t, _ => exact ⟨x, y, t, rfl⟩
  have hy := congrArg (fun l : List Char => l[1]?) heq
  simp only [pad, List.cons_append, List.set_cons_zero, List.getElem?_cons_succ,
    List.getElem?_cons_zero, List.getElem?_replicate_of_lt (by decide : 1 < 1024)] at hy
  exact hs (by rw [Option.some.inj hy]; simp)

/-- What a character does to the buffer. -/
lemma Mirrored.type (h : Mirrored r) (hroom : (sinceEnter r.history).length < 1023)
    (henter : ch = '\n' → (sinceEnter r.history).length ≤ 1) :
    ∃ k, typeChar ch { r.machine.kbd with c := charBuffer ch } = some k ∧
      k.buff = pad (retype (sinceEnter r.history) ch) ∧ k.c = charBuffer ch ∧
      k.kbdMod = r.machine.kbd.kbdMod := by
  have htext := h.text
  have hterm : '\x00' ∈ r.machine.kbd.buff := by
    rw [h.buff, pad]
    exact List.mem_append_right _ (List.mem_replicate.2 ⟨by omega, rfl⟩)
  by_cases hnl : ch = '\n'
  · subst hnl
    refine ⟨_, typeChar_enter (k := { r.machine.kbd with c := charBuffer '\n' }) hterm, ?_,
      rfl, rfl⟩
    rw [retype, if_pos rfl, ← pad_set_zero (henter rfl), ← h.buff]
  by_cases hbs : ch = '\x08'
  · subst hbs
    rw [retype, if_neg (by decide), if_neg (by decide), edit, if_pos rfl]
    by_cases hnil : sinceEnter r.history = []
    · rw [hnil] at htext
      refine ⟨_, typeChar_backspace_nil (k := { r.machine.kbd with c := charBuffer '\x08' })
        htext, ?_, rfl, rfl⟩
      rw [hnil, List.dropLast_nil, ← hnil]
      exact h.buff
    · refine ⟨_, typeChar_backspace (k := { r.machine.kbd with c := charBuffer '\x08' })
        htext hnil, ?_⟩
      have hbuff := pad_dropLast hnil (h.length.trans (by decide))
      rw [← h.buff] at hbuff
      split
      · exact ⟨hbuff, rfl, rfl⟩
      · exact ⟨hbuff, rfl, rfl⟩
  · refine ⟨_, typeChar_other (k := { r.machine.kbd with c := charBuffer ch })
        htext rfl hnl hbs, ?_, rfl, rfl⟩
    rw [retype, if_neg hnl]
    dsimp only
    split
    · exact h.buff
    · rw [edit, if_neg hbs, h.buff, pad_set (hroom.trans (by decide))]

lemma zero_retype (hs : '\x00' ∉ s) (ch : Char) : '\x00' ∉ retype s ch := by
  rw [retype, edit]
  split
  · exact List.not_mem_nil
  · split
    · exact hs
    · split
      · exact fun hmem => hs (List.dropLast_subset _ hmem)
      · rename_i hch _
        simp [hs, Ne.symm hch]

lemma length_retype (s : List Char) (ch : Char) : (retype s ch).length ≤ s.length + 1 := by
  rw [retype, edit]
  split
  · simp
  · split
    · omega
    · split
      · simp
        omega
      · simp

lemma record_key (hk : keyboardHandler scancode r.machine.kbd = some k) :
    record (.key scancode) r = some ⟨{ r.machine with kbd := k },
      r.history ++ (delivered r.machine.kbd scancode).toList⟩ := by
  rw [record, step, hk]
  simp [typed, step, hk]

/-- A key under the condition. -/
lemma Mirrored.key (h : Mirrored r) (hplain : Plainly r (.key scancode))
    (hbrief : BriefEnter r (.key scancode)) :
    ∃ r', record (.key scancode) r = some r' ∧ Mirrored r' := by
  obtain ⟨hctrl, halt, hroom, -⟩ := hplain
  by_cases hord : Ordinary scancode
  · have hch := delivered_eq hord (k := r.machine.kbd) (by simp [h.alt, h.ctrl])
    have henter : getAsciiChar r.machine.kbd.kbdMod scancode = '\n' →
        (sinceEnter r.history).length ≤ 1 := fun hnl => hbrief (by rw [hch, hnl])
    obtain ⟨k, hk, hbuff, hc, hmod⟩ := h.type hroom henter
    have hhandler := (delivered_handler hch h.padded).trans hk
    refine ⟨_, record_key hhandler, ?_⟩
    rw [hch, Option.toList_some]
    have hsince := sinceEnter_append r.history (getAsciiChar r.machine.kbd.kbdMod scancode)
    refine ⟨by rw [hsince]; exact hbuff, ?_, ?_, ?_, ?_, ?_⟩
    · rw [hsince]
      exact (length_retype _ _).trans hroom
    · rw [hsince]
      exact zero_retype h.zero _
    · dsimp only
      rw [hc]
      exact padded_charBuffer _
    · dsimp only
      rw [hmod, h.alt]
    · dsimp only
      rw [hmod, h.ctrl]
  · obtain ⟨mods, c, hc, hk, haltkeep, hctrlkeep⟩ := special_handler hord hctrl halt h.padded
    refine ⟨_, record_key hk, ?_⟩
    have hnone : delivered r.machine.kbd scancode = none := if_neg fun hcond => hord hcond.1
    rw [hnone, Option.toList_none, List.append_nil]
    exact ⟨h.buff, h.length, h.zero, hc, haltkeep h.alt, hctrlkeep h.ctrl⟩

/-- `getLine` does not touch the buffer. -/
lemma getLineStep_kept (m : Machine) : (getLineStep m).kbd.buff = m.kbd.buff ∧
    (getLineStep m).kbd.c = m.kbd.c ∧ (getLineStep m).kbd.kbdMod = m.kbd.kbdMod := by
  obtain ⟨k, r, lines⟩ := m
  cases r <;> exact ⟨rfl, rfl, rfl⟩

lemma Mirrored.step (h : Mirrored r) (hplain : Plainly r a) (hbrief : BriefEnter r a) :
    ∃ r', record a r = some r' ∧ Mirrored r' := by
  cases a with
  | key scancode => exact h.key hplain hbrief
  | call =>
    refine ⟨⟨if r.machine.reader = .idle then { r.machine with reader := .start } else r.machine,
      r.history⟩, by simp [record, Keyboard.step, typed], ?_⟩
    split
    · exact ⟨h.buff, h.length, h.zero, h.padded, h.alt, h.ctrl⟩
    · exact ⟨h.buff, h.length, h.zero, h.padded, h.alt, h.ctrl⟩
  | run =>
    obtain ⟨hbuff, hc, hmod⟩ := getLineStep_kept r.machine
    refine ⟨⟨getLineStep r.machine, r.history⟩, by simp [record, Keyboard.step, typed], ?_⟩
    exact ⟨hbuff.trans h.buff, h.length, h.zero, by rw [hc]; exact h.padded, by rw [hmod, h.alt],
      by rw [hmod, h.ctrl]⟩

/-- Enter after more than one character. -/
lemma Mirrored.long_enter (h : Mirrored r) (hch : delivered r.machine.kbd scancode = some '\n')
    (hlong : ¬ (sinceEnter r.history).length ≤ 1) (hr' : record (.key scancode) r = some r') :
    ¬ Mirrors r' := by
  have hterm : '\x00' ∈ r.machine.kbd.buff := by
    rw [h.buff, pad]
    exact List.mem_append_right _ (List.mem_replicate.2 ⟨by have := h.length; omega, rfl⟩)
  have hk := (delivered_handler hch h.padded).trans
    (typeChar_enter (k := { r.machine.kbd with c := charBuffer '\n' }) hterm)
  rw [record_key hk, hch] at hr'
  rw [← Option.some.inj hr']
  rintro ⟨-, hempty⟩
  refine pad_set_zero_ne (s := sinceEnter r.history) (by omega) h.zero ?_
  rw [← h.buff]
  exact hempty (by simp)

/-! ## The main result -/

/-- **The buffer and what was typed.**  In a run without Ctrl and Alt in which the buffer does not
overflow, no step fails, the string in the buffer is what was typed since the last Enter, and Enter
empties the buffer, exactly if every Enter ends a line of at most one character.  `clearBuffer`
alone empties a buffer exactly if only zeros stand behind the first character. -/
theorem buffer_mirrors_iff (as : List Action) (hplain : Along record Plainly as {}) :
    ((∃ r, exec record as {} = some r) ∧ Always record Mirrors as {} ↔
      Along record BriefEnter as {}) ∧
    ∀ k : Driver, '\x00' ∈ k.buff →
      ((clearBuffer k).map (·.buff) = some (List.replicate k.buff.length '\x00') ↔
        k.buff.tail = List.replicate (k.buff.length - 1) '\x00') := by
  have hstep : ∀ r a r', Mirrored r → Plainly r a → BriefEnter r a → record a r = some r' →
      Mirrored r' := by
    intro r a r' h hp hb hr'
    obtain ⟨r₁, hr₁, h₁⟩ := h.step hp hb
    rwa [Option.some.inj (hr'.symm.trans hr₁)]
  refine ⟨⟨?_, fun hbrief => ?_⟩, fun k hk => ?_⟩
  · rintro ⟨⟨r, hr⟩, halways⟩
    refine Along.of_always hstep ?_ halways hplain hr mirrored_start
    intro r a r' h hp hr' hmirrors
    cases a with
    | key scancode =>
      intro hch
      by_contra hlong
      exact h.long_enter hch hlong hr' hmirrors
    | call => trivial
    | run => trivial
  · have hboth := hplain.and hbrief
    have hkeep : ∀ r a r', Mirrored r → Plainly r a ∧ BriefEnter r a → record a r = some r' →
        Mirrored r' := fun r a r' h hpb => hstep r a r' h hpb.1 hpb.2
    have hsome : Along record (fun r a => ∃ r', record a r = some r') as {} := by
      refine hboth.imp hkeep ?_ mirrored_start
      intro r a h hpb
      obtain ⟨r', hr', -⟩ := h.step hpb.1 hpb.2
      exact ⟨r', hr'⟩
    exact ⟨hsome.exec_some fun _ _ h => h, hboth.always hkeep (fun _ h => h.mirrors) mirrored_start⟩
  · rw [clearBuffer_eq hk, Option.map_some, Option.some_inj]
    obtain ⟨x, t, hx⟩ := List.exists_cons_of_ne_nil (List.ne_nil_of_mem hk)
    simp [hx, List.replicate_succ]

/-- The keys `a`, Enter, `z`, Backspace. -/
def shortLines : List Action := [.key 0x10, .key 0x1C, .key 0x11, .key 0x0E]

instance (r : Recorded) : ∀ a, Decidable (Plainly r a)
  | .key _ => inferInstanceAs (Decidable (_ ∧ _))
  | .call => isTrue trivial
  | .run => isTrue trivial

instance (r : Recorded) : ∀ a, Decidable (BriefEnter r a)
  | .key _ => inferInstanceAs (Decidable (_ → _))
  | .call => isTrue trivial
  | .run => isTrue trivial

/-- With one character before Enter, the buffer shows what was typed. -/
theorem buffer_mirrors_shortLines :
    (∃ r, exec record shortLines {} = some r) ∧ Always record Mirrors shortLines {} :=
  (buffer_mirrors_iff shortLines (by decide +kernel)).1.2 (by decide +kernel)

/-- After `ae` and Enter, the key `z` makes the string `ze`. -/
theorem buffer_keeps_rest :
    ¬ ∀ as, Along record Plainly as {} → Always record Mirrors as {} := by
  intro hall
  have h := hall [.key 0x10, .key 0x12, .key 0x1C, .key 0x11] (by decide +kernel)
  have hend : (exec record [.key 0x10, .key 0x12, .key 0x1C, .key 0x11] {}).map
      (fun r => (Str.text r.machine.kbd.buff, sinceEnter r.history)) =
        some (some ['z', 'e'], ['z']) := by
    decide +kernel
  obtain ⟨r, hr, heq⟩ := Option.map_eq_some_iff.1 hend
  obtain ⟨htext, hsince⟩ := Prod.mk.inj heq
  have hmirror := (h.exec hr).1
  rw [htext, hsince] at hmirror
  exact absurd hmirror (by decide)

end TurbOS.Keyboard
