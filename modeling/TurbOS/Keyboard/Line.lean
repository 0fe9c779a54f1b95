import TurbOS.Keyboard.Bounds

/-!
# Reading a line

The handler hands a character to `getLine` through one slot, `c`, and takes back a character with
`--gi`.  So a line arrives as it was typed if the keys do not come faster than `getLine` takes
them: no character is waiting when the next key comes, `getchar` is not between resetting
`pressed` and reading `c`, and a backspace comes while `getLine` waits, and not on an empty line
while `buff` still holds what was typed earlier.

`Progress` relates the line that was typed so far to the state: it is what `retstr` holds, the
character that the reader has in its hands, and the character that is waiting.
-/

open Runs

namespace TurbOS.Keyboard

/-- What the line is after a key with the character `ch`. -/
def edit (line : List Char) (ch : Char) : List Char :=
  if ch = '\x08' then line.dropLast else line ++ [ch]

/-- The characters of the keys of a run. -/
def typed : List Action → Machine → List Char
  | [], _ => []
  | a :: as, m =>
    (match a with
      | .key scancode => (delivered m.kbd scancode).toList
      | _ => []) ++
    (match step a m with
      | some m' => typed as m'
      | none => [])

/-- A key is released, or Shift or a lock key is pressed. -/
def Modifier (scancode : UInt8) : Prop :=
  scancode &&& 0x80 ≠ 0 ∨ scancode ∈ ([0x2A, 0x36, 0x3A, 0x45, 0x46] : List UInt8)

/-- The interrupts that type a line: characters and backspaces, and changes of the modifiers other
than Ctrl and Alt. -/
def Typing (m : Machine) : Action → Prop
  | .key scancode => Modifier scancode ∨
      ∃ ch, delivered m.kbd scancode = some ch ∧ ch ≠ '\n' ∧ ch ≠ '\x00'
  | _ => True

/-- The reader waits for a key. -/
def Reader.Waits : Reader → Prop
  | .start | .clear | .top | .poll => True
  | _ => False

/-- The slot is free: no character is waiting, and none is just being read. -/
def Free (m : Machine) : Prop := m.kbd.pressed = false ∧ m.reader ≠ .fetch

/-- The condition on the interrupts. -/
def Paced (m : Machine) : Action → Prop
  | .key scancode => ∀ ch, delivered m.kbd scancode = some ch → Free m ∧
      (ch = '\x08' → m.reader.Waits ∧
        (m.kbd.reading = true → m.kbd.gi = 0 → m.kbd.buff.head? = some '\x00')) ∧
      (ch ≠ '\x08' → ∀ s, Str.text m.kbd.buff = some s → s.length < 1023)
  | _ => True

instance (scancode : UInt8) : Decidable (Modifier scancode) := inferInstanceAs (Decidable (_ ∨ _))

instance : ∀ r : Reader, Decidable r.Waits
  | .start | .clear | .top | .poll => isTrue trivial
  | .idle | .check | .wait | .take | .fetch | .store _ | .load | .bump _ | .dropEnter _
  | .dropReading _ | .dropIndex _ | .leave _ => isFalse id

instance (m : Machine) : Decidable (Free m) := inferInstanceAs (Decidable (_ ∧ _))

instance (m : Machine) : ∀ a, Decidable (Typing m a)
  | .key scancode =>
    decidable_of_iff (Modifier scancode ∨
      (delivered m.kbd scancode).any (fun ch => ch ≠ '\n' ∧ ch ≠ '\x00') = true)
      (by simp [Typing, Option.any_eq_true])
  | .call => isTrue trivial
  | .run => isTrue trivial

instance (m : Machine) : ∀ a, Decidable (Paced m a)
  | .key scancode =>
    decidable_of_iff ((delivered m.kbd scancode).all (fun ch => Free m ∧
      (ch = '\x08' → m.reader.Waits ∧
        (m.kbd.reading = true → m.kbd.gi = 0 → m.kbd.buff.head? = some '\x00')) ∧
      (ch ≠ '\x08' → (Str.text m.kbd.buff).all (fun s => s.length < 1023) = true)) = true)
      (by simp only [Paced, Option.all_eq_true, decide_eq_true_eq])
  | .call => isTrue trivial
  | .run => isTrue trivial

/-! ## The line in the array -/

/-- The array that holds a string, and zeros behind it. -/
def pad (l : List Char) : List Char := l ++ List.replicate (1024 - l.length) '\x00'

variable {l line : List Char} {ch : Char} {m m' : Machine} {k k' : Driver} {scancode : UInt8}

lemma pad_nil : pad [] = List.replicate 1024 '\x00' := rfl

lemma pad_set (h : l.length < 1024) : (pad l).set l.length ch = pad (l ++ [ch]) := by
  obtain ⟨n, hn⟩ : ∃ n, 1024 - l.length = n + 1 := ⟨1023 - l.length, by omega⟩
  have hn' : 1024 - (l ++ [ch]).length = n := by simp; omega
  rw [pad, pad, hn, hn', List.replicate_succ]
  simp

lemma pad_dropLast (h : l ≠ []) (hlen : l.length ≤ 1024) :
    (pad l).set (l.length - 1) '\x00' = pad l.dropLast := by
  obtain ⟨d, x, rfl⟩ := (List.eq_nil_or_concat l).resolve_left h
  rw [List.concat_eq_append] at hlen ⊢
  have hn : 1024 - d.length = (1024 - (d ++ [x]).length) + 1 := by
    simp at hlen ⊢
    omega
  rw [List.dropLast_concat, pad, pad, hn, List.replicate_succ]
  simp

lemma takeWhile_pad (h : '\x00' ∉ l) : (pad l).takeWhile (· ≠ '\x00') = l := by
  rw [pad, List.takeWhile_append_of_pos]
  · simp
  · intro x hx
    simp only [ne_eq, decide_not, Bool.not_eq_true', decide_eq_false_iff_not]
    rintro rfl
    exact h hx

/-! ## The invariant -/

/-- The character that is waiting. -/
def pending (k : Driver) : List Char := if k.pressed then [k.c.headD '\x00'] else []

/-- Where the characters of the line are. -/
def Stored (line : List Char) (k : Driver) : Reader → Prop
  | .start | .clear => k.gi = 0 ∧ line = pending k
  | .top | .poll => ∃ l, k.retstr = pad l ∧ k.gi = l.length ∧ line = l ++ pending k
  | .check | .wait | .take =>
    k.pressed = true ∧ ∃ l, k.retstr = pad l ∧ k.gi = l.length ∧ line = l ++ pending k
  | .fetch =>
    k.pressed = false ∧ ∃ l, k.retstr = pad l ∧ k.gi = l.length ∧ line = l ++ [k.c.headD '\x00']
  | .store ch => ∃ l, k.retstr = pad l ∧ k.gi = l.length ∧ line = l ++ [ch] ++ pending k
  | .load => ∃ l ch, k.retstr = pad (l ++ [ch]) ∧ k.gi = l.length ∧ line = l ++ [ch] ++ pending k
  | .bump v => ∃ l ch, k.retstr = pad (l ++ [ch]) ∧ v = l.length ∧ line = l ++ [ch] ++ pending k
  | _ => False

/-- The screen shows at least the line. -/
structure Screen (line : List Char) (k : Driver) : Prop where
  length : k.buff.length = 1024
  last : k.buff[1023]? = some '\x00'
  padded : Padded k.c
  alt : k.kbdMod.alt = false
  ctrl : k.kbdMod.ctrl = false
  shown : ∀ t, Str.text k.buff = some t → line.length ≤ t.length
  zero : '\x00' ∉ line

/-- The state while a line is read. -/
structure Progress (line : List Char) (m : Machine) : Prop where
  stored : Stored line m.kbd m.reader
  screen : Screen line m.kbd
  enter : m.kbd.enter = false
  reading : m.reader = .start ∨ m.kbd.reading = true

lemma Screen.terminated (h : Screen line k) : '\x00' ∈ k.buff := by
  have hlast := h.last
  exact List.mem_of_getElem? hlast

lemma Screen.length_le (h : Screen line k) : line.length ≤ 1023 := by
  obtain ⟨t, ht⟩ := Str.exists_text h.terminated
  have h₁ := h.shown t ht
  have h₂ := Str.length_lt_of_text ht
  have h₃ := h.length
  omega

/-! ## The steps of the reader -/

lemma Screen.keep (h : Screen line k) (hbuff : k'.buff = k.buff) (hc : k'.c = k.c)
    (hmod : k'.kbdMod = k.kbdMod) : Screen line k' where
  length := by rw [hbuff, h.length]
  last := by rw [hbuff, h.last]
  padded := by rw [hc]; exact h.padded
  alt := by rw [hmod, h.alt]
  ctrl := by rw [hmod, h.ctrl]
  shown := by rw [hbuff]; exact h.shown
  zero := h.zero

lemma Progress.run (h : Progress line m) : Progress line (getLineStep m) := by
  obtain ⟨hstored, hscreen, henter, hreading⟩ := h
  obtain ⟨k, r, lines⟩ := m
  dsimp only at *
  have hscreen' : ∀ {k' : Driver}, k'.buff = k.buff → k'.c = k.c → k'.kbdMod = k.kbdMod →
      Screen line k' := hscreen.keep
  have hread : r ≠ .start → k.reading = true := hreading.resolve_left
  cases r with
  | start => exact ⟨hstored, hscreen' rfl rfl rfl, henter, .inr rfl⟩
  | clear =>
    obtain ⟨hgi, hline⟩ := hstored
    exact ⟨⟨[], pad_nil.symm, hgi, hline⟩, hscreen' rfl rfl rfl, henter, .inr (hread (by simp))⟩
  | top =>
    refine ⟨?_, hscreen, henter, .inr (hread (by simp))⟩
    dsimp only [getLineStep]
    rw [if_neg (by simp [henter])]
    exact hstored
  | poll =>
    refine ⟨?_, hscreen, henter, .inr (hread (by simp))⟩
    dsimp only [getLineStep]
    split
    · rename_i hpressed
      exact ⟨hpressed, hstored⟩
    · exact hstored
  | check =>
    refine ⟨?_, hscreen, henter, .inr (hread (by simp))⟩
    obtain ⟨hpressed, l, hl, hgi, hline⟩ := hstored
    -- the waiting character is on the screen too
    have hlen : l.length + 1 ≤ 1023 := by
      have hle := hscreen.length_le
      rwa [hline, pending, if_pos hpressed, List.length_append] at hle
    dsimp only [getLineStep]
    rw [if_neg (by omega)]
    exact ⟨hpressed, l, hl, hgi, hline⟩
  | wait =>
    refine ⟨?_, hscreen, henter, .inr (hread (by simp))⟩
    dsimp only [getLineStep]
    rw [if_pos hstored.1]
    exact hstored
  | take =>
    obtain ⟨hpressed, l, hl, hgi, hline⟩ := hstored
    rw [pending, if_pos hpressed] at hline
    exact ⟨⟨rfl, l, hl, hgi, hline⟩, hscreen' rfl rfl rfl, henter, .inr (hread (by simp))⟩
  | fetch =>
    obtain ⟨hpressed, l, hl, hgi, hline⟩ := hstored
    refine ⟨⟨l, hl, hgi, ?_⟩, hscreen, henter, .inr (hread (by simp))⟩
    rw [pending, if_neg (by simp [getLineStep, hpressed]), List.append_nil]
    exact hline
  | store ch =>
    obtain ⟨l, hl, hgi, hline⟩ := hstored
    have hlen : l.length < 1024 := by
      have hle := hscreen.length_le
      rw [hline, List.length_append, List.length_append, List.length_singleton] at hle
      omega
    refine ⟨⟨l, ch, ?_, hgi, hline⟩, hscreen' rfl rfl rfl, henter, .inr (hread (by simp))⟩
    dsimp only [getLineStep, Driver.poke]
    rw [if_pos (by omega), hgi, hl, Int.toNat_natCast, pad_set hlen]
  | load =>
    obtain ⟨l, ch, hl, hgi, hline⟩ := hstored
    exact ⟨⟨l, ch, hl, hgi, hline⟩, hscreen, henter, .inr (hread (by simp))⟩
  | bump v =>
    obtain ⟨l, ch, hl, hv, hline⟩ := hstored
    refine ⟨⟨l ++ [ch], hl, ?_, hline⟩, hscreen' rfl rfl rfl, henter, .inr (hread (by simp))⟩
    rw [List.length_append, List.length_singleton]
    dsimp only [getLineStep]
    omega
  | idle => exact hstored.elim
  | dropEnter b => exact hstored.elim
  | dropReading b => exact hstored.elim
  | dropIndex b => exact hstored.elim
  | leave b => exact hstored.elim

/-! ## The interrupts -/

lemma Modifier.not_ordinary (h : Modifier scancode) : ¬ Ordinary scancode := by
  rintro ⟨hup, hnot⟩
  rcases h with h | h
  · exact h hup
  · simp only [List.mem_cons, List.not_mem_nil, or_false] at h
    rcases h with rfl | rfl | rfl | rfl | rfl <;> simp at hnot

lemma Modifier.delivered (h : Modifier scancode) (k : Driver) : delivered k scancode = none :=
  if_neg fun hcond => h.not_ordinary hcond.1

/-- Only the modifiers change, and Ctrl and Alt stay released. -/
lemma Modifier.handler (h : Modifier scancode) (k : Driver) :
    ∃ mods, keyboardHandler scancode k = some { k with kbdMod := mods } ∧
      (k.kbdMod.alt = false → mods.alt = false) ∧ (k.kbdMod.ctrl = false → mods.ctrl = false) := by
  by_cases hup : scancode &&& 0x80 ≠ 0
  · rw [keyboardHandler, if_pos hup, keyUp.eq_def]
    split
    · exact ⟨_, rfl, id, id⟩
    · exact ⟨_, rfl, id, id⟩
    · exact ⟨_, rfl, id, fun _ => rfl⟩
    · exact ⟨_, rfl, fun _ => rfl, id⟩
    · exact ⟨k.kbdMod, rfl, id, id⟩
  · have hmem := h.resolve_left hup
    simp only [List.mem_cons, List.not_mem_nil, or_false] at hmem
    rcases hmem with rfl | rfl | rfl | rfl | rfl
    all_goals exact ⟨_, rfl, id, id⟩

lemma Progress.modifier (h : Progress line m) (hmod : Modifier scancode) :
    ∃ m', step (.key scancode) m = some m' ∧ Progress line m' := by
  obtain ⟨mods, heq, halt, hctrl⟩ := hmod.handler m.kbd
  refine ⟨{ m with kbd := { m.kbd with kbdMod := mods } }, by rw [step, heq, Option.map_some], ?_⟩
  have hs := h.screen
  exact ⟨h.stored, ⟨hs.length, hs.last, hs.padded, halt hs.alt, hctrl hs.ctrl, hs.shown, hs.zero⟩,
    h.enter, h.reading⟩

/-- A character is put into the free slot. -/
lemma Stored.append {r : Reader} {b : List Char} (h : Stored line k r) (hp : k.pressed = false)
    (hr : r ≠ .fetch) :
    Stored (line ++ [ch]) { k with c := charBuffer ch, pressed := true, buff := b } r := by
  have hnil : pending k = [] := if_neg (by simp [hp])
  have hnew : pending { k with c := charBuffer ch, pressed := true, buff := b } = [ch] := rfl
  cases r with
  | start | clear =>
    obtain ⟨hgi, hline⟩ := h
    refine ⟨hgi, ?_⟩
    rw [hnew, hline, hnil, List.nil_append]
  | top | poll =>
    obtain ⟨l, hl, hgi, hline⟩ := h
    refine ⟨l, hl, hgi, ?_⟩
    rw [hnew, hline, hnil, List.append_nil]
  | check | wait | take => exact absurd h.1 (by simp [hp])
  | fetch => exact absurd rfl hr
  | store x =>
    obtain ⟨l, hl, hgi, hline⟩ := h
    refine ⟨l, hl, hgi, ?_⟩
    rw [hnew, hline, hnil, List.append_nil]
  | load =>
    obtain ⟨l, x, hl, hgi, hline⟩ := h
    refine ⟨l, x, hl, hgi, ?_⟩
    rw [hnew, hline, hnil, List.append_nil]
  | bump v =>
    obtain ⟨l, x, hl, hgi, hline⟩ := h
    refine ⟨l, x, hl, hgi, ?_⟩
    rw [hnew, hline, hnil, List.append_nil]
  | idle => exact h.elim
  | dropEnter b => exact h.elim
  | dropReading b => exact h.elim
  | dropIndex b => exact h.elim
  | leave b => exact h.elim

/-- A printable key. -/
lemma Progress.print (h : Progress line m) (hch : ch ≠ '\x00') (hnl : ch ≠ '\n') (hbs : ch ≠ '\x08')
    (hfree : Free m) (hroom : ∀ s, Str.text m.kbd.buff = some s → s.length < 1023) :
    ∃ k, typeChar ch { m.kbd with c := charBuffer ch } = some k ∧
      Progress (line ++ [ch]) { m with kbd := k } := by
  have hs := h.screen
  obtain ⟨s, htext⟩ := Str.exists_text hs.terminated
  have hlt := hroom s htext
  refine ⟨_, typeChar_other (k := { m.kbd with c := charBuffer ch }) htext rfl hnl hbs, ?_⟩
  dsimp only
  rw [if_neg hch]
  refine ⟨h.stored.append hfree.1 hfree.2, ?_, h.enter, h.reading⟩
  refine ⟨by dsimp only; rw [List.length_set, hs.length], ?_, padded_charBuffer ch, hs.alt, hs.ctrl,
    ?_, ?_⟩
  · dsimp only
    rw [List.getElem?_set_ne (by omega), hs.last]
  · intro t ht
    have h₁ := hs.shown s htext
    have h₂ := Str.length_lt_text_set htext hch ht
    rw [List.length_append, List.length_singleton]
    omega
  · simpa [hs.zero] using Ne.symm hch

/-- A backspace on an empty line. -/
lemma Progress.backspace_nil {b : List Char} (h : Progress [] m) (hwaits : m.reader.Waits)
    (hp : m.kbd.pressed = false) (hlength : b.length = 1024) (hlast : b[1023]? = some '\x00') :
    Progress [] { m with kbd := { m.kbd with c := charBuffer '\x08', buff := b } } := by
  obtain ⟨hstored, hs, henter, hreading⟩ := h
  refine ⟨?_, ⟨hlength, hlast, padded_charBuffer _, hs.alt, hs.ctrl, fun t _ => Nat.zero_le _,
    hs.zero⟩, henter, hreading⟩
  obtain ⟨k, r, lines⟩ := m
  dsimp only at *
  have hpending : pending { k with c := charBuffer '\x08', buff := b } = pending k := by
    rw [pending, pending, hp]
    rfl
  cases r with
  | start | clear =>
    dsimp only [Stored]
    rw [hpending]
    exact hstored
  | top | poll =>
    dsimp only [Stored]
    rw [hpending]
    exact hstored
  | _ => exact hwaits.elim

/-- What a waiting reader knows about the line. -/
lemma Progress.waiting (h : Progress line m) (hwaits : m.reader.Waits)
    (hp : m.kbd.pressed = false) : m.kbd.gi = line.length ∧
      (line ≠ [] → (m.reader = .top ∨ m.reader = .poll) ∧ m.kbd.retstr = pad line) := by
  have hnil : pending m.kbd = [] := if_neg (by simp [hp])
  obtain ⟨hstored, -, -, -⟩ := h
  obtain ⟨k, r, lines⟩ := m
  dsimp only at *
  cases r with
  | start | clear =>
    obtain ⟨hgi, hline⟩ := hstored
    rw [hnil] at hline
    subst hline
    exact ⟨hgi, fun hne => absurd rfl hne⟩
  | top | poll =>
    obtain ⟨l, hl, hgi, hline⟩ := hstored
    rw [hnil, List.append_nil] at hline
    subst hline
    exact ⟨hgi, fun _ => ⟨by simp, hl⟩⟩
  | _ => exact hwaits.elim

/-- A backspace takes the last character of the line. -/
lemma Progress.backspace (h : Progress line m) (hwaits : m.reader.Waits)
    (hp : m.kbd.pressed = false)
    (hempty : m.kbd.reading = true → m.kbd.gi = 0 → m.kbd.buff.head? = some '\x00') :
    ∃ k, typeChar '\x08' { m.kbd with c := charBuffer '\x08' } = some k ∧
      Progress line.dropLast { m with kbd := k } := by
  obtain ⟨hgi, hline⟩ := h.waiting hwaits hp
  have hs := h.screen
  obtain ⟨s, htext⟩ := Str.exists_text hs.terminated
  have hlt := Str.length_lt_of_text htext
  have hlast : (m.kbd.buff.set (s.length - 1) '\x00')[1023]? = some '\x00' := by
    rw [List.getElem?_set_ne (by rw [hs.length] at hlt; omega), hs.last]
  by_cases hnil : line = []
  · subst hnil
    by_cases hscreen : s = []
    · rw [hscreen] at htext
      exact ⟨_, typeChar_backspace_nil (k := { m.kbd with c := charBuffer '\x08' }) htext,
        h.backspace_nil hwaits hp hs.length hs.last⟩
    · -- the screen shows an earlier text, so `reading` is not set yet
      have hreading : ¬ m.kbd.reading = true := fun hreading =>
        hscreen ((Str.head_eq_zero_iff htext).mp (hempty hreading (by simpa using hgi)))
      refine ⟨_, typeChar_backspace (k := { m.kbd with c := charBuffer '\x08' }) htext hscreen, ?_⟩
      dsimp only
      rw [if_neg hreading]
      exact h.backspace_nil hwaits hp (by rw [List.length_set, hs.length]) hlast
  · obtain ⟨hreader, hretstr⟩ := hline hnil
    have hpos : 0 < line.length := List.length_pos_iff.mpr hnil
    have hshown := hs.shown s htext
    have hne : s ≠ [] := List.length_pos_iff.mp (by omega)
    have hreading : m.kbd.reading = true := by
      refine h.reading.resolve_left fun hstart => ?_
      rw [hstart] at hreader
      simp at hreader
    refine ⟨_, typeChar_backspace (k := { m.kbd with c := charBuffer '\x08' }) htext hne, ?_⟩
    dsimp only
    rw [if_pos hreading]
    refine ⟨?_, ?_, h.enter, .inr hreading⟩
    · have hdrop : Stored line.dropLast
          { m.kbd.poke (m.kbd.gi - 1) '\x00' with
            c := charBuffer '\x08', gi := m.kbd.gi - 1, buff :=
              m.kbd.buff.set (s.length - 1) '\x00' }
          .top := by
        refine ⟨line.dropLast, ?_, ?_, ?_⟩
        · have hindex : (m.kbd.gi - 1).toNat = line.length - 1 := by omega
          dsimp only [Driver.poke]
          rw [if_pos (by omega), hindex, hretstr,
            pad_dropLast hnil (hs.length_le.trans (by decide))]
        · dsimp only
          rw [List.length_dropLast]
          omega
        · have hp' : pending { m.kbd.poke (m.kbd.gi - 1) '\x00' with
              c := charBuffer '\x08', gi := m.kbd.gi - 1,
              buff := m.kbd.buff.set (s.length - 1) '\x00' } = [] := if_neg
                (by simp [Driver.poke, hp])
          rw [hp', List.append_nil]
      rcases hreader with hr | hr
      · dsimp only
        rw [hr]
        exact hdrop
      · dsimp only
        rw [hr]
        exact hdrop
    · refine ⟨by dsimp only; rw [List.length_set, hs.length], hlast, padded_charBuffer _, hs.alt,
        hs.ctrl, ?_, fun hmem => hs.zero (List.dropLast_subset _ hmem)⟩
      intro t ht
      obtain rfl := Option.some.inj ((Str.text_set_last htext hne).symm.trans ht)
      rw [List.length_dropLast, List.length_dropLast]
      omega

/-- A key of the line. -/
lemma Progress.key (h : Progress line m) (hch : delivered m.kbd scancode = some ch)
    (hnl : ch ≠ '\n') (hzero : ch ≠ '\x00') (hpaced : Paced m (.key scancode)) :
    ∃ m', step (.key scancode) m = some m' ∧ Progress (edit line ch) m' := by
  obtain ⟨hfree, hback, hroom⟩ := hpaced ch hch
  have hhandler := delivered_handler hch h.screen.padded
  by_cases hbs : ch = '\x08'
  · obtain ⟨hwaits, hempty⟩ := hback hbs
    obtain ⟨k, hk, hprogress⟩ := h.backspace hwaits hfree.1 hempty
    refine ⟨{ m with kbd := k }, by rw [step, hhandler, hbs, hk, Option.map_some], ?_⟩
    rw [edit, if_pos hbs]
    exact hprogress
  · obtain ⟨k, hk, hprogress⟩ := h.print hzero hnl hbs hfree (hroom hbs)
    refine ⟨{ m with kbd := k }, by rw [step, hhandler, hk, Option.map_some], ?_⟩
    rw [edit, if_neg hbs]
    exact hprogress

/-- A step of the run: the line is edited by the character that the key delivers, if any. -/
lemma Progress.kept {a : Action} (h : Progress line m) (ht : Typing m a) (hpaced : Paced m a) :
    ∃ m', step a m = some m' ∧ Progress ((typed [a] m).foldl edit line) m' := by
  cases a with
  | key scancode =>
    rcases ht with hmod | ⟨ch, hch, hnl, hzero⟩
    · obtain ⟨m', hm', hprogress⟩ := h.modifier hmod
      refine ⟨m', hm', ?_⟩
      rw [typed, hm', hmod.delivered]
      exact hprogress
    · obtain ⟨m', hm', hprogress⟩ := h.key hch hnl hzero hpaced
      refine ⟨m', hm', ?_⟩
      rw [typed, hm', hch]
      exact hprogress
  | call =>
    have hidle : m.reader ≠ .idle := by
      intro hidle
      have hstored := h.stored
      rw [hidle] at hstored
      exact hstored
    exact ⟨m, by rw [step, if_neg hidle], h⟩
  | run => exact ⟨getLineStep m, rfl, h.run⟩

/-- Only the return of a call adds to the lines. -/
lemma Progress.lines_eq {a : Action} (h : Progress line m) (hm' : step a m = some m') :
    m'.lines = m.lines := by
  cases a with
  | key scancode =>
    obtain ⟨k, -, rfl⟩ := Option.map_eq_some_iff.mp hm'
    rfl
  | call =>
    rw [← Option.some.inj hm']
    split <;> rfl
  | run =>
    rw [← Option.some.inj hm']
    obtain ⟨hstored, -, -, -⟩ := h
    obtain ⟨k, r, lines⟩ := m
    cases r with
    | leave b => exact hstored.elim
    | _ => rfl

lemma typed_cons {a : Action} {as : List Action} (h : step a m = some m') :
    typed (a :: as) m = typed [a] m ++ typed as m' := by
  cases a <;> simp [typed, h]

/-- A run under the condition: the state holds what the keys make of the line. -/
lemma Progress.exec {as : List Action} (h : Progress line m) (ht : Along step Typing as m)
    (hpaced : Along step Paced as m) :
    ∃ m', exec step as m = some m' ∧ Progress ((typed as m).foldl edit line) m' ∧
      m'.lines = m.lines := by
  induction as generalizing line m with
  | nil => exact ⟨m, rfl, h, rfl⟩
  | cons a as ih =>
    obtain ⟨m₁, hm₁, h₁⟩ := h.kept ht.1 hpaced.1
    obtain ⟨m', hm', h', hlines⟩ := ih h₁ (ht.2 m₁ hm₁) (hpaced.2 m₁ hm₁)
    refine ⟨m', by rw [Runs.exec, hm₁, Option.bind_some, hm'], ?_, hlines.trans (h.lines_eq hm₁)⟩
    rwa [typed_cons hm₁, List.foldl_append]

/-! ## Enter -/

/-- How many steps the reader makes after Enter. -/
def Reader.left : Reader → ℕ
  | .leave _ => 1
  | .dropIndex _ => 2
  | .dropReading _ => 3
  | .dropEnter _ => 4
  | .top => 5
  | .clear | .poll | .bump _ => 6
  | .start | .load => 7
  | .store _ => 8
  | _ => 0

lemma Reader.left_le (r : Reader) : r.left ≤ 8 := by
  cases r <;> simp [Reader.left]

/-- Where the line is after Enter. -/
def Kept (line : List Char) (k : Driver) : Reader → Prop
  | .start | .clear => k.enter = true ∧ line = []
  | .poll => k.enter = true ∧ k.pressed = false ∧ k.retstr = pad line
  | .top | .load | .bump _ => k.enter = true ∧ k.retstr = pad line
  | .store ch =>
    k.enter = true ∧ ∃ l, l.length < 1024 ∧ k.retstr = pad l ∧ k.gi = l.length ∧ line = l ++ [ch]
  | .dropEnter b | .dropReading b | .dropIndex b | .leave b => b = true ∧ k.retstr = pad line
  | _ => False

/-- The state after Enter: the line is returned, or it is on its way. -/
def Leaving (line : List Char) (lines : List (Option (List Char))) (m : Machine) : Prop :=
  (m.reader = .idle ∧ m.lines = some line :: lines) ∨ (m.lines = lines ∧ Kept line m.kbd m.reader)

variable {lines : List (Option (List Char))}

/-- Enter comes while the slot is free. -/
lemma Progress.enter_key (h : Progress line m) (hch : delivered m.kbd scancode = some '\n')
    (hfree : Free m) :
    ∃ m', step (.key scancode) m = some m' ∧ Leaving line m.lines m' := by
  have hhandler := delivered_handler hch h.screen.padded
  have hterm := h.screen.terminated
  have hlen := h.screen.length_le
  have henter := typeChar_enter (k := { m.kbd with c := charBuffer '\n' }) hterm
  refine ⟨{ m with kbd := { m.kbd with
      c := charBuffer '\n', buff := m.kbd.buff.set 0 '\x00', enter := true } },
    by rw [step, hhandler, henter, Option.map_some], .inr ⟨rfl, ?_⟩⟩
  obtain ⟨hstored, -, -, -⟩ := h
  obtain ⟨hpressed, hfetch⟩ := hfree
  obtain ⟨k, r, ls⟩ := m
  dsimp only at *
  have hnil : pending k = [] := if_neg (by simp [hpressed])
  cases r with
  | start | clear => exact ⟨rfl, by rw [hstored.2, hnil]⟩
  | top =>
    obtain ⟨l, hl, -, hline⟩ := hstored
    exact ⟨rfl, by rw [hline, hnil, List.append_nil]; exact hl⟩
  | poll =>
    obtain ⟨l, hl, -, hline⟩ := hstored
    exact ⟨rfl, hpressed, by rw [hline, hnil, List.append_nil]; exact hl⟩
  | check | wait | take => exact absurd hstored.1 (by simp [hpressed])
  | fetch => exact absurd rfl hfetch
  | store x =>
    obtain ⟨l, hl, hgi, hline⟩ := hstored
    rw [hnil, List.append_nil] at hline
    rw [hline, List.length_append, List.length_singleton] at hlen
    exact ⟨rfl, l, by omega, hl, hgi, hline⟩
  | load =>
    obtain ⟨l, x, hl, -, hline⟩ := hstored
    exact ⟨rfl, by rw [hline, hnil, List.append_nil]; exact hl⟩
  | bump v =>
    obtain ⟨l, x, hl, -, hline⟩ := hstored
    exact ⟨rfl, by rw [hline, hnil, List.append_nil]; exact hl⟩
  | idle => exact hstored.elim
  | dropEnter b => exact hstored.elim
  | dropReading b => exact hstored.elim
  | dropIndex b => exact hstored.elim
  | leave b => exact hstored.elim

/-- A step brings the reader closer to its return. -/
lemma Leaving.run (hzero : '\x00' ∉ line) (h : Leaving line lines m) :
    Leaving line lines (getLineStep m) ∧ (getLineStep m).reader.left ≤ m.reader.left - 1 := by
  obtain ⟨k, r, ls⟩ := m
  rcases h with ⟨hidle, hlines⟩ | ⟨hlines, hkept⟩
  · dsimp only at hidle hlines
    subst hidle
    exact ⟨.inl ⟨rfl, hlines⟩, le_rfl⟩
  dsimp only at hlines hkept
  cases r with
  | start => exact ⟨.inr ⟨hlines, hkept⟩, le_rfl⟩
  | clear =>
    obtain ⟨henter, rfl⟩ := hkept
    exact ⟨.inr ⟨hlines, henter, pad_nil.symm⟩, le_rfl⟩
  | top =>
    obtain ⟨henter, hretstr⟩ := hkept
    dsimp only [getLineStep]
    rw [if_pos henter]
    exact ⟨.inr ⟨hlines, rfl, hretstr⟩, le_rfl⟩
  | poll =>
    obtain ⟨henter, hpressed, hretstr⟩ := hkept
    dsimp only [getLineStep]
    rw [if_neg (by simp [hpressed])]
    exact ⟨.inr ⟨hlines, henter, hretstr⟩, le_rfl⟩
  | store ch =>
    obtain ⟨henter, l, hlen, hretstr, hgi, hline⟩ := hkept
    refine ⟨.inr ⟨hlines, henter, ?_⟩, le_rfl⟩
    dsimp only [getLineStep, Driver.poke]
    rw [if_pos (by omega), hgi, hretstr, Int.toNat_natCast, pad_set hlen, hline]
  | load => exact ⟨.inr ⟨hlines, hkept⟩, le_rfl⟩
  | bump v => exact ⟨.inr ⟨hlines, hkept⟩, le_rfl⟩
  | dropEnter b => exact ⟨.inr ⟨hlines, hkept⟩, le_rfl⟩
  | dropReading b => exact ⟨.inr ⟨hlines, hkept⟩, le_rfl⟩
  | dropIndex b => exact ⟨.inr ⟨hlines, hkept⟩, le_rfl⟩
  | leave b =>
    obtain ⟨rfl, hretstr⟩ := hkept
    refine ⟨.inl ⟨rfl, ?_⟩, le_rfl⟩
    dsimp only [getLineStep]
    rw [if_pos rfl, hretstr, takeWhile_pad hzero, hlines]
  | idle => exact hkept.elim
  | check => exact hkept.elim
  | wait => exact hkept.elim
  | take => exact hkept.elim
  | fetch => exact hkept.elim

/-- What happens after Enter: the reader runs, and keys are released. -/
def Quiet : Action → Prop
  | .key scancode => Modifier scancode
  | .call => False
  | .run => True

instance : ∀ a, Decidable (Quiet a)
  | .key scancode => inferInstanceAs (Decidable (Modifier scancode))
  | .call => isFalse id
  | .run => isTrue trivial

lemma Leaving.modifier (h : Leaving line lines m) (hmod : Modifier scancode) :
    ∃ m', step (.key scancode) m = some m' ∧ Leaving line lines m' ∧ m'.reader = m.reader := by
  obtain ⟨mods, heq, -, -⟩ := hmod.handler m.kbd
  refine ⟨{ m with kbd := { m.kbd with kbdMod := mods } }, by rw [step, heq, Option.map_some],
    ?_, rfl⟩
  obtain ⟨k, r, ls⟩ := m
  rcases h with h | ⟨hlines, hkept⟩
  · exact .inl h
  · refine .inr ⟨hlines, ?_⟩
    cases r with
    | _ => exact hkept

lemma left_eq_zero (h : Leaving line lines m) (hleft : m.reader.left = 0) :
    m.reader = .idle ∧ m.lines = some line :: lines := by
  rcases h with h | ⟨-, hkept⟩
  · exact h
  · obtain ⟨k, r, ls⟩ := m
    cases r with
    | idle | check | wait | take | fetch => exact hkept.elim
    | _ => simp [Reader.left] at hleft

/-- With enough steps, the call returns the line. -/
lemma Leaving.exec {bs : List Action} (hzero : '\x00' ∉ line) (h : Leaving line lines m)
    (hquiet : ∀ b ∈ bs, Quiet b) (hcount : m.reader.left ≤ bs.count .run) :
    ∃ m', exec step bs m = some m' ∧ m'.reader = .idle ∧ m'.lines = some line :: lines := by
  induction bs generalizing m with
  | nil => exact ⟨m, rfl, left_eq_zero h (by simpa using hcount)⟩
  | cons b bs ih =>
    have hrest : ∀ b ∈ bs, Quiet b := fun x hx => hquiet x (List.mem_cons_of_mem _ hx)
    have hb := hquiet b List.mem_cons_self
    cases b with
    | key scancode =>
      obtain ⟨m₁, hm₁, h₁, hreader⟩ := h.modifier hb
      rw [List.count_cons_of_ne (by simp), ← hreader] at hcount
      obtain ⟨m', hm', hres⟩ := ih h₁ hrest hcount
      exact ⟨m', by rw [Runs.exec, hm₁, Option.bind_some, hm'], hres⟩
    | call => exact hb.elim
    | run =>
      obtain ⟨h₁, hleft⟩ := h.run hzero
      rw [List.count_cons_self] at hcount
      obtain ⟨m', hm', hres⟩ := ih h₁ hrest (by omega)
      exact ⟨m', hm', hres⟩

/-! ## The main result -/

/-- No call is in progress, and no key is left over from before. -/
structure Fresh (m : Machine) : Prop where
  idle : m.reader = .idle
  pressed : m.kbd.pressed = false
  enter : m.kbd.enter = false
  index : m.kbd.gi = 0
  alt : m.kbd.kbdMod.alt = false
  ctrl : m.kbd.kbdMod.ctrl = false
  padded : Padded m.kbd.c
  length : m.kbd.buff.length = 1024
  last : m.kbd.buff[1023]? = some '\x00'

lemma fresh_boot : Fresh boot :=
  ⟨rfl, rfl, rfl, rfl, rfl, rfl, fits_boot.padded, fits_boot.length, fits_boot.last⟩

lemma Fresh.progress (h : Fresh m) :
    ∃ m₁, step .call m = some m₁ ∧ Progress [] m₁ ∧ m₁.lines = m.lines := by
  refine ⟨{ m with reader := .start }, by rw [step, if_pos h.idle],
    ⟨⟨h.index, ?_⟩, ?_, h.enter, .inl rfl⟩, rfl⟩
  · rw [pending, if_neg (by simp [h.pressed])]
  · exact ⟨h.length, h.last, h.padded, h.alt, h.ctrl, fun t _ => Nat.zero_le _, List.not_mem_nil⟩

/-- **A line arrives as it was typed.**  `getLine` is called, keys come while it runs, then Enter,
and then it runs on.  If every key meets the condition, the call returns the characters of the
keys in order, without those that a backspace has deleted. -/
theorem getLine_returns_typed {m₁ : Machine} {as bs : List Action} (hfresh : Fresh m)
    (hcall : step .call m = some m₁) (htyping : Along step Typing as m₁)
    (hpaced : Along step Paced as m₁)
    (henter : ∀ m₂, exec step as m₁ = some m₂ → delivered m₂.kbd scancode = some '\n' ∧ Free m₂)
    (hquiet : ∀ b ∈ bs, Quiet b) (hcount : 8 ≤ bs.count .run) :
    ∃ m', exec step (.call :: as ++ .key scancode :: bs) m = some m' ∧ m'.reader = .idle ∧
      m'.lines = some ((typed as m₁).foldl edit []) :: m.lines := by
  obtain ⟨m₀, hm₀, hstart, hlines⟩ := hfresh.progress
  obtain rfl := Option.some.inj (hm₀.symm.trans hcall)
  obtain ⟨m₂, hm₂, hprogress, hlines₂⟩ := hstart.exec htyping hpaced
  obtain ⟨hch, hfree⟩ := henter m₂ hm₂
  obtain ⟨m₃, hm₃, hleaving⟩ := hprogress.enter_key hch hfree
  have hleft : m₃.reader.left ≤ bs.count .run := (Reader.left_le _).trans hcount
  obtain ⟨m', hm', hidle, hres⟩ := hleaving.exec hprogress.screen.zero hquiet hleft
  refine ⟨m', ?_, hidle, ?_⟩
  · rw [List.cons_append, Runs.exec, hcall, Option.bind_some, exec_append, hm₂, Option.bind_some,
      Runs.exec, hm₃, Option.bind_some, hm']
  · rw [hres, hlines₂, hlines]

/-- Two keys with the reader in time for each, a backspace, and a third key. -/
def unhurried : List Action :=
  [.run, .run, .key 0x10] ++ List.replicate 9 .run ++ [.key 0x11] ++ List.replicate 10 .run ++
    [.key 0x0E, .key 0x12] ++ List.replicate 9 .run

/-- The line of these keys; Enter is released while the call returns. -/
theorem getLine_returns_unhurried :
    ∃ m', exec step (.call :: unhurried ++ .key 0x1C :: .key 0x9C :: List.replicate 8 .run) boot =
        some m' ∧ m'.reader = .idle ∧ m'.lines = [some ['a', 'e']] := by
  have henter : (exec step unhurried { boot with reader := .start }).all
      (fun m₂ => delivered m₂.kbd 0x1C = some '\n' ∧ Free m₂) = true := by
    decide +kernel
  have hcall : step .call boot = some { boot with reader := .start } := rfl
  obtain ⟨m', hm', hidle, hlines⟩ := getLine_returns_typed fresh_boot hcall
    (by decide +kernel : Along step Typing unhurried _) (by decide +kernel)
    (fun m₂ hm₂ => of_decide_eq_true ((Option.all_eq_true _ _).mp henter m₂ hm₂))
    (by decide : ∀ b ∈ .key 0x9C :: List.replicate 8 .run, Quiet b) (by decide)
  refine ⟨m', hm', hidle, ?_⟩
  rw [hlines]
  decide +kernel

/-- Two keys before the reader looks: the first one is lost. -/
theorem getLine_loses_key :
    Along step Typing [.run, .run, .key 0x10, .key 0x11] { boot with reader := .start } ∧
    (typed [.run, .run, .key 0x10, .key 0x11] { boot with reader := .start }).foldl edit [] =
      ['a', 'z'] ∧
    (exec step (.call :: [.run, .run, .key 0x10, .key 0x11] ++ List.replicate 9 .run ++ .key 0x1C ::
      List.replicate 8 .run) boot).map (fun m => (m.reader, m.lines)) =
      some (.idle, [some ['z']]) := by
  refine ⟨?_, ?_, ?_⟩ <;> decide +kernel

end TurbOS.Keyboard
