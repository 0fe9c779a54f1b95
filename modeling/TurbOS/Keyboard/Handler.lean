import TurbOS.Keyboard.Model

/-!
# What an interrupt does

The handler looks at the scancode, at the modifiers and at the character of the key.  Keys with a
case of their own change the modifiers or `c` only.  For the other keys there is one equation for
each thing that can happen.

`clearBuffer` does not clear the buffer: after its first round the string is empty, and the loop
ends.
-/

namespace TurbOS.Keyboard

variable {k k' : Driver} {scancode : UInt8} {ch : Char} {s : List Char}

/-- `c` holds a short string and zeros behind it. -/
def Padded (c : List Char) : Prop :=
  ∃ s : List Char, s.length ≤ 3 ∧ '\x00' ∉ s ∧ c = s ++ List.replicate (10 - s.length) '\x00'

/-- The buffer `c` after a key with the character `ch`. -/
def charBuffer (ch : Char) : List Char := ch :: List.replicate 9 '\x00'

/-- The scancode belongs to a key that is pressed and has no case of its own. -/
def Ordinary (scancode : UInt8) : Prop :=
  scancode &&& 0x80 = 0 ∧ scancode ∉ ([0x2A, 0x36, 0x1D, 0x38, 0x3A, 0x45, 0x46, 0x48, 0x50, 0x4D,
    0x4B] : List UInt8)

instance (scancode : UInt8) : Decidable (Ordinary scancode) := inferInstanceAs (Decidable (_ ∧ _))

lemma padded_charBuffer (ch : Char) : Padded (charBuffer ch) := by
  by_cases hch : ch = '\x00'
  · exact ⟨[], by simp, by simp, by rw [hch]; rfl⟩
  · exact ⟨[ch], by simp, by simpa using Ne.symm hch, rfl⟩

lemma Padded.text {c : List Char} (h : Padded c) : ∃ s, Str.text c = some s ∧
    List.replicate s.length '\x00' ++ c.drop s.length = List.replicate 10 '\x00' := by
  obtain ⟨s, hlen, hs, rfl⟩ := h
  obtain ⟨n, hn⟩ : ∃ n, 10 - s.length = n + 1 := ⟨9 - s.length, by omega⟩
  refine ⟨s, Str.text_eq_some_iff.mpr ⟨List.replicate n '\x00', ?_, hs⟩, ?_⟩
  · rw [hn, List.replicate_succ]
  · rw [List.drop_left, List.replicate_append_replicate]
    congr 1
    omega

/-! ## The keys -/

lemma keyboardHandler_ordinary (h : Ordinary scancode) (k : Driver) :
    keyboardHandler scancode k = otherKey scancode k := by
  obtain ⟨hup, hnot⟩ := h
  rw [keyboardHandler, if_neg (by simpa using hup), keyDown]
  all_goals
    rintro rfl
    simp at hnot

lemma Padded.arrowKey (hc : Padded k.c) (ch : Char) (hch : ch ≠ '\x00') :
    ∃ c, Padded c ∧ arrowKey ch k = some { k with c := c } := by
  obtain ⟨s, hlen, hs, heq⟩ := hc
  refine ⟨['\x1b', '[', ch] ++ List.replicate 7 '\x00', ⟨['\x1b', '[', ch], by simp, ?_, rfl⟩, ?_⟩
  · simp [Ne.symm hch]
  · have hlength : k.c.length = 10 := by
      rw [heq, List.length_append, List.length_replicate]
      omega
    have hrest : '\x00' :: k.c.drop 4 = List.replicate 7 '\x00' := by
      rw [heq, List.drop_append, List.drop_of_length_le (by omega), List.drop_replicate,
        List.nil_append, ← List.replicate_succ]
      congr 1
      omega
    rw [Keyboard.arrowKey, Str.strcpy, if_pos (by simp [hlength])]
    simp only [List.length_cons, List.length_nil, Option.map_some]
    rw [hrest]

/-- The other keys change the modifiers and `c` only. -/
lemma keyboardHandler_special (h : ¬ Ordinary scancode) (hc : Padded k.c) :
    ∃ m c, Padded c ∧ keyboardHandler scancode k = some { k with kbdMod := m, c := c } := by
  rw [keyboardHandler]
  split
  · -- a key is released
    rw [keyUp.eq_def]
    split
    all_goals exact ⟨_, k.c, hc, rfl⟩
  · rename_i hdown
    rw [keyDown.eq_def]
    have arrow : ∀ ch, ch ≠ '\x00' →
        ∃ m c, Padded c ∧ arrowKey ch k = some { k with kbdMod := m, c := c } := by
      intro ch hch
      obtain ⟨c, hpad, heq⟩ := hc.arrowKey ch hch
      exact ⟨k.kbdMod, c, hpad, heq⟩
    split
    case h_8 => exact arrow 'A' (by decide)
    case h_9 => exact arrow 'B' (by decide)
    case h_10 => exact arrow 'C' (by decide)
    case h_11 => exact arrow 'D' (by decide)
    case h_12 =>
      refine absurd ⟨by simpa using hdown, ?_⟩ h
      simp_all
    all_goals exact ⟨_, k.c, hc, rfl⟩

/-- What the keys without a case of their own do. -/
lemma keyboardHandler_eq (h : Ordinary scancode) (hc : Padded k.c) :
    keyboardHandler scancode k =
      if k.kbdMod.alt = true ∨ k.kbdMod.ctrl = true then
        handleComb scancode { k with c := charBuffer (getAsciiChar k.kbdMod scancode) }
      else
        typeChar (getAsciiChar k.kbdMod scancode)
          { k with c := charBuffer (getAsciiChar k.kbdMod scancode) } := by
  obtain ⟨s, htext, hzero⟩ := hc.text
  rw [keyboardHandler_ordinary h, otherKey, htext, Option.bind_some, hzero]
  rfl

/-! ## The characters -/

/-- `clearBuffer` clears the first character only. -/
lemma clearBuffer_eq (h : '\x00' ∈ k.buff) :
    clearBuffer k = some { k with buff := k.buff.set 0 '\x00' } := by
  obtain ⟨s, hs⟩ := Str.exists_text h
  obtain ⟨rest, hbuff, -⟩ := Str.text_eq_some_iff.mp hs
  have hloop : clearLoop (k.buff.length + 1) 0 k.buff = some (k.buff.set 0 '\x00') := by
    rw [clearLoop, hs, Option.bind_some]
    cases s with
    | nil =>
      rw [if_neg (by simp), hbuff]
      rfl
    | cons x s =>
      -- the second round finds an empty string
      have htext : Str.text (k.buff.set 0 '\x00') = some [] :=
        Str.text_eq_some_iff.mpr ⟨s ++ '\x00' :: rest, by rw [hbuff]; rfl, by simp⟩
      obtain ⟨n, hn⟩ : ∃ n, k.buff.length = n + 1 :=
        ⟨s.length + rest.length + 1, by rw [hbuff]; simp; omega⟩
      rw [if_pos (by simp), hn, clearLoop, htext]
      simp
  rw [clearBuffer, hloop, Option.map_some]

/-- Enter. -/
lemma typeChar_enter (h : '\x00' ∈ k.buff) :
    typeChar '\n' k = some { k with buff := k.buff.set 0 '\x00', enter := true } := by
  rw [typeChar, if_pos rfl, clearBuffer_eq h, Option.map_some]

/-- Backspace with nothing on the screen. -/
lemma typeChar_backspace_nil (h : Str.text k.buff = some []) : typeChar '\x08' k = some k := by
  rw [typeChar, if_neg (by decide), if_pos rfl, if_pos ((Str.head_eq_zero_iff h).mpr rfl)]

/-- Backspace takes the last character from the screen, and from the line if one is read. -/
lemma typeChar_backspace (h : Str.text k.buff = some s) (hs : s ≠ []) :
    typeChar '\x08' k = some
      (if k.reading then
        { k.poke (k.gi - 1) '\x00' with gi := k.gi - 1, buff := k.buff.set (s.length - 1) '\x00' }
      else { k with buff := k.buff.set (s.length - 1) '\x00' }) := by
  rw [typeChar, if_neg (by decide), if_pos rfl,
    if_neg fun hhead => hs ((Str.head_eq_zero_iff h).mp hhead), h, Option.map_some]
  dsimp only
  split <;> rfl

/-- Any other character. -/
lemma typeChar_other (h : Str.text k.buff = some s) (hc : k.c = charBuffer ch) (h₁ : ch ≠ '\n')
    (h₂ : ch ≠ '\x08') :
    typeChar ch k = some { k with
      pressed := true
      buff := if ch = '\x00' then k.buff else k.buff.set s.length ch } := by
  rw [typeChar, if_neg h₁, if_neg h₂, hc]
  by_cases hch : ch = '\x00'
  · have htext : Str.text (charBuffer ch) = some [] :=
      Str.text_eq_some_iff.mpr ⟨List.replicate 9 '\x00', by rw [hch]; rfl, by simp⟩
    rw [htext, Option.bind_some, Str.strcat_nil h, Option.map_some, if_pos hch]
  · have htext : Str.text (charBuffer ch) = some [ch] :=
      Str.text_eq_some_iff.mpr ⟨List.replicate 8 '\x00', rfl, by simpa using Ne.symm hch⟩
    rw [htext, Option.bind_some, Str.strcat_singleton h, Option.map_some, if_neg hch]

/-- A combination does nothing, or it is Ctrl-L. -/
lemma handleComb_cases (scancode : UInt8) (h : '\x00' ∈ k.buff) :
    handleComb scancode k = some k ∨ handleComb scancode k = some
      (if k.reading then
        { k with
          buff := k.buff.set 0 '\x00', retstr := List.replicate 1024 '\x00', enter := true }
      else { k with buff := k.buff.set 0 '\x00' }) := by
  rw [handleComb]
  split
  · exact .inl rfl
  · split
    · right
      rw [clearBuffer_eq h, Option.map_some]
    · exact .inl rfl

end TurbOS.Keyboard
