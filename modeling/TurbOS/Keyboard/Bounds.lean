import TurbOS.Keyboard.Handler

/-!
# The bounds of the buffers

Nothing in the driver bounds `buff`: every printable key appends to it, and Enter clears only its
first character.  And `gi` is decremented whenever `buff` is not empty, which says nothing about
the line that is being read.

The accesses stay in bounds along a run exactly if no printable key comes while `buff` holds 1023
characters, and no backspace that takes a character from the screen comes while a line is read
and `gi` is zero.
-/

open Runs

namespace TurbOS.Keyboard

/-- The character on which the inner `switch` of the handler works, if the key gets there. -/
def delivered (k : Driver) (scancode : UInt8) : Option Char :=
  if Ordinary scancode ∧ k.kbdMod.alt = false ∧ k.kbdMod.ctrl = false then
    some (getAsciiChar k.kbdMod scancode)
  else none

/-- All accesses to `retstr` so far were in bounds, and the string in `buff` has its terminator
inside the buffer. -/
def Bounded (m : Machine) : Prop :=
  (∀ i ∈ m.kbd.indexed, 0 ≤ i ∧ i ≤ 1023) ∧ m.kbd.buff.length = 1024 ∧ '\x00' ∈ m.kbd.buff

/-- The condition on the actions: a backspace does not take a character of which `retstr` does not
know, and a printable key finds room in `buff`. -/
def Gentle (m : Machine) : Action → Prop
  | .key scancode => ∀ ch, delivered m.kbd scancode = some ch →
      (ch = '\x08' → m.kbd.reading = true → m.kbd.buff.head? ≠ some '\x00' → 1 ≤ m.kbd.gi) ∧
      (ch ≠ '\n' → ch ≠ '\x08' → ch ≠ '\x00' → ∀ s, Str.text m.kbd.buff = some s → s.length < 1023)
  | _ => True

/-- The reader has found that the index is not at the end. -/
def Reader.Within : Reader → ℤ → Prop
  | .wait, i | .take, i | .fetch, i | .store _, i | .load, i => i ≤ 1022
  | .bump v, _ => 0 ≤ v ∧ v ≤ 1022
  | _, _ => True

/-- The invariant of runs under the condition. -/
structure Fits (m : Machine) : Prop where
  length : m.kbd.buff.length = 1024
  last : m.kbd.buff[1023]? = some '\x00'
  padded : Padded m.kbd.c
  low : 0 ≤ m.kbd.gi
  high : m.kbd.gi ≤ 1023
  within : m.reader.Within m.kbd.gi
  indexed : ∀ i ∈ m.kbd.indexed, 0 ≤ i ∧ i ≤ 1023

variable {m m' : Machine} {k : Driver} {scancode : UInt8} {ch : Char} {s : List Char} {a : Action}

lemma Fits.terminated (h : Fits m) : '\x00' ∈ m.kbd.buff := by
  have hlast := h.last
  exact List.mem_of_getElem? hlast

lemma Fits.bounded (h : Fits m) : Bounded m := ⟨h.indexed, h.length, h.terminated⟩

lemma Reader.Within.mono {r : Reader} {i j : ℤ} (h : r.Within i) (hij : j ≤ i) : r.Within j := by
  cases r with
  | wait | take | fetch | load => exact hij.trans h
  | store ch => exact hij.trans h
  | bump v => exact h
  | _ => trivial

lemma fits_boot : Fits boot where
  length := List.length_replicate
  last := by
    rw [boot, List.getElem?_replicate]
    rfl
  padded := ⟨[], by simp, by simp, rfl⟩
  low := le_rfl
  high := by decide
  within := trivial
  indexed := fun i hi => absurd hi List.not_mem_nil

/-! ## Interrupts -/

/-- Writing a zero into `buff`, or a character that is not the last one. -/
lemma Fits.set (h : Fits m) {i : ℕ} (hi : ch = '\x00' ∨ i < 1023) :
    (m.kbd.buff.set i ch).length = 1024 ∧ (m.kbd.buff.set i ch)[1023]? = some '\x00' := by
  refine ⟨by rw [List.length_set, h.length], ?_⟩
  rw [List.getElem?_set]
  split
  · rename_i heq
    have hch : ch = '\x00' := hi.resolve_right (by omega)
    rw [if_pos (by rw [h.length]; omega), hch]
  · exact h.last

/-- A change of the driver that does not advance the index. -/
lemma Fits.update (h : Fits m) (hbuff : k.buff.length = 1024 ∧ k.buff[1023]? = some '\x00')
    (hc : Padded k.c) (hlow : 0 ≤ k.gi) (hhigh : k.gi ≤ m.kbd.gi)
    (hindexed : ∀ i ∈ k.indexed, 0 ≤ i ∧ i ≤ 1023) : Fits { m with kbd := k } :=
  ⟨hbuff.1, hbuff.2, hc, hlow, hhigh.trans h.high, h.within.mono hhigh, hindexed⟩

lemma delivered_eq (h : Ordinary scancode) (hmod : ¬ (k.kbdMod.alt = true ∨ k.kbdMod.ctrl = true)) :
    delivered k scancode = some (getAsciiChar k.kbdMod scancode) := by
  rw [not_or, Bool.not_eq_true, Bool.not_eq_true] at hmod
  exact if_pos ⟨h, hmod⟩

/-- The inner `switch` under the condition. -/
lemma Fits.typed (h : Fits m)
    (hback : ch = '\x08' → m.kbd.reading = true → m.kbd.buff.head? ≠ some '\x00' → 1 ≤ m.kbd.gi)
    (hprint : ch ≠ '\n' → ch ≠ '\x08' → ch ≠ '\x00' →
      ∀ s, Str.text m.kbd.buff = some s → s.length < 1023)
    (hk : typeChar ch { m.kbd with c := charBuffer ch } = some k) :
    Fits { m with kbd := k } := by
  have hpad := padded_charBuffer ch
  obtain ⟨s, hs⟩ := Str.exists_text h.terminated
  by_cases hnl : ch = '\n'
  · subst hnl
    rw [typeChar_enter (k := { m.kbd with c := charBuffer '\n' }) h.terminated] at hk
    rw [← Option.some.inj hk]
    exact h.update (h.set (.inl rfl)) hpad h.low le_rfl h.indexed
  by_cases hbs : ch = '\x08'
  · subst hbs
    by_cases hnil : s = []
    · subst hnil
      rw [typeChar_backspace_nil (k := { m.kbd with c := charBuffer '\x08' }) hs] at hk
      rw [← Option.some.inj hk]
      exact h.update ⟨h.length, h.last⟩ hpad h.low le_rfl h.indexed
    · rw [typeChar_backspace (k := { m.kbd with c := charBuffer '\x08' }) hs hnil] at hk
      rw [← Option.some.inj hk]
      split
      · -- the condition says that there is a character to take from the line
        rename_i hreading
        have hgi := hback rfl hreading fun hhead => hnil ((Str.head_eq_zero_iff hs).mp hhead)
        have hhigh := h.high
        refine h.update (h.set (.inl rfl)) hpad (by dsimp only; omega) (by dsimp only; omega) ?_
        intro i hi
        rcases List.mem_cons.mp hi with rfl | hi
        · dsimp only
          omega
        · exact h.indexed i hi
      · exact h.update (h.set (.inl rfl)) hpad h.low le_rfl h.indexed
  · rw [typeChar_other (k := { m.kbd with c := charBuffer ch }) hs rfl hnl hbs] at hk
    rw [← Option.some.inj hk]
    refine h.update ?_ hpad h.low le_rfl h.indexed
    dsimp only
    split
    · exact ⟨h.length, h.last⟩
    · rename_i hch
      exact h.set (.inr (hprint hnl hbs hch s hs))

/-- An interrupt under the condition. -/
lemma Fits.key (h : Fits m) (hg : Gentle m (.key scancode))
    (hk : keyboardHandler scancode m.kbd = some k) : Fits { m with kbd := k } := by
  by_cases hord : Ordinary scancode
  · rw [keyboardHandler_eq hord h.padded] at hk
    have hpad := padded_charBuffer (getAsciiChar m.kbd.kbdMod scancode)
    split at hk
    · -- a combination with Ctrl or Alt
      rcases handleComb_cases scancode (k := { m.kbd with
        c := charBuffer (getAsciiChar m.kbd.kbdMod scancode) }) h.terminated with heq | heq
      · rw [heq] at hk
        rw [← Option.some.inj hk]
        exact h.update ⟨h.length, h.last⟩ hpad h.low le_rfl h.indexed
      · rw [heq] at hk
        rw [← Option.some.inj hk]
        split
        · exact h.update (h.set (.inl rfl)) hpad h.low le_rfl h.indexed
        · exact h.update (h.set (.inl rfl)) hpad h.low le_rfl h.indexed
    · rename_i hmod
      obtain ⟨hback, hprint⟩ := hg _ (delivered_eq hord hmod)
      exact h.typed hback hprint hk
  · obtain ⟨mods, c, hc, heq⟩ := keyboardHandler_special hord h.padded
    rw [heq] at hk
    rw [← Option.some.inj hk]
    exact h.update ⟨h.length, h.last⟩ hc h.low le_rfl h.indexed

/-! ## The reader -/

lemma Fits.run (h : Fits m) : Fits (getLineStep m) := by
  obtain ⟨hlen, hlast, hpad, hlow, hhigh, hwithin, hindexed⟩ := h
  obtain ⟨k, r, lines⟩ := m
  dsimp only at *
  cases r with
  | idle => exact ⟨hlen, hlast, hpad, hlow, hhigh, hwithin, hindexed⟩
  | start => exact ⟨hlen, hlast, hpad, hlow, hhigh, trivial, hindexed⟩
  | clear => exact ⟨hlen, hlast, hpad, hlow, hhigh, trivial, hindexed⟩
  | top =>
    refine ⟨hlen, hlast, hpad, hlow, hhigh, ?_, hindexed⟩
    dsimp only [getLineStep]
    split <;> trivial
  | poll =>
    refine ⟨hlen, hlast, hpad, hlow, hhigh, ?_, hindexed⟩
    dsimp only [getLineStep]
    split <;> trivial
  | check =>
    refine ⟨hlen, hlast, hpad, hlow, hhigh, ?_, hindexed⟩
    dsimp only [getLineStep]
    split
    · trivial
    · dsimp only [Reader.Within]
      omega
  | wait =>
    refine ⟨hlen, hlast, hpad, hlow, hhigh, ?_, hindexed⟩
    dsimp only [getLineStep]
    split
    · exact hwithin
    · exact hwithin
  | take => exact ⟨hlen, hlast, hpad, hlow, hhigh, hwithin, hindexed⟩
  | fetch => exact ⟨hlen, hlast, hpad, hlow, hhigh, hwithin, hindexed⟩
  | store ch =>
    refine ⟨hlen, hlast, hpad, hlow, hhigh, hwithin, ?_⟩
    intro i hi
    rcases List.mem_cons.mp hi with rfl | hi
    · exact ⟨hlow, hhigh⟩
    · exact hindexed i hi
  | load => exact ⟨hlen, hlast, hpad, hlow, hhigh, ⟨hlow, hwithin⟩, hindexed⟩
  | bump v =>
    obtain ⟨h₁, h₂⟩ := hwithin
    exact ⟨hlen, hlast, hpad, by dsimp only [getLineStep]; omega,
      by dsimp only [getLineStep]; omega, trivial, hindexed⟩
  | dropEnter line => exact ⟨hlen, hlast, hpad, hlow, hhigh, trivial, hindexed⟩
  | dropReading line => exact ⟨hlen, hlast, hpad, hlow, hhigh, trivial, hindexed⟩
  | dropIndex line =>
    exact ⟨hlen, hlast, hpad, le_rfl, by dsimp only [getLineStep]; omega, trivial, hindexed⟩
  | leave line => exact ⟨hlen, hlast, hpad, hlow, hhigh, trivial, hindexed⟩

/-- A step under the condition keeps the invariant. -/
lemma Fits.kept (h : Fits m) (hg : Gentle m a) (hs : step a m = some m') : Fits m' := by
  cases a with
  | key scancode =>
    obtain ⟨k, hk, rfl⟩ := Option.map_eq_some_iff.mp hs
    exact h.key hg hk
  | call =>
    rw [← Option.some.inj hs]
    split
    · exact ⟨h.length, h.last, h.padded, h.low, h.high, trivial, h.indexed⟩
    · exact h
  | run =>
    rw [← Option.some.inj hs]
    exact h.run

/-! ## Outside the condition -/

lemma delivered_handler (h : delivered k scancode = some ch) (hc : Padded k.c) :
    keyboardHandler scancode k = typeChar ch { k with c := charBuffer ch } := by
  rw [delivered] at h
  split at h
  · rename_i hcond
    obtain rfl := Option.some.inj h
    rw [keyboardHandler_eq hcond.1 hc, if_neg (by simp [hcond.2.1, hcond.2.2])]
  · simp at h

/-- A backspace with the index at zero writes in front of the array. -/
lemma Fits.backspace_unbounded (h : Fits m) (hreading : m.kbd.reading = true)
    (hhead : m.kbd.buff.head? ≠ some '\x00') (hgi : ¬ 1 ≤ m.kbd.gi) :
    ∃ k, typeChar '\x08' { m.kbd with c := charBuffer '\x08' } = some k ∧
      ¬ Bounded { m with kbd := k } := by
  obtain ⟨s, hs⟩ := Str.exists_text h.terminated
  have hne : s ≠ [] := fun hnil => hhead ((Str.head_eq_zero_iff hs).mpr hnil)
  refine ⟨_, typeChar_backspace (k := { m.kbd with c := charBuffer '\x08' }) hs hne, fun hb => ?_⟩
  rw [if_pos hreading] at hb
  have := (hb.1 (m.kbd.gi - 1) List.mem_cons_self).1
  omega

/-- A printable key overwrites the terminator at the end of a full buffer. -/
lemma Fits.print_unbounded (h : Fits m) (hnl : ch ≠ '\n') (hbs : ch ≠ '\x08') (hch : ch ≠ '\x00')
    (hs : Str.text m.kbd.buff = some s) (hlen : ¬ s.length < 1023) :
    ∃ k, typeChar ch { m.kbd with c := charBuffer ch } = some k ∧
      ¬ Bounded { m with kbd := k } := by
  refine ⟨_, typeChar_other (k := { m.kbd with c := charBuffer ch }) hs rfl hnl hbs, fun hb => ?_⟩
  obtain ⟨rest, hbuff, hzero⟩ := Str.text_eq_some_iff.mp hs
  have hlength := h.length
  rw [hbuff, List.length_append, List.length_cons] at hlength
  have hrest : rest = [] := List.length_eq_zero_iff.mp (by omega)
  have hmem := hb.2.2
  dsimp only at hmem
  rw [if_neg hch, hbuff, hrest] at hmem
  simp [hzero, Ne.symm hch] at hmem

lemma Fits.unbounded (h : Fits m) (hg : ¬ Gentle m a) :
    ∃ m', step a m = some m' ∧ ¬ Bounded m' := by
  cases a with
  | key scancode =>
    obtain ⟨ch, hg⟩ := not_forall.mp hg
    obtain ⟨hch, hg⟩ := Classical.not_imp.mp hg
    have hhandler := delivered_handler hch h.padded
    obtain ⟨k, hk, hb⟩ : ∃ k, typeChar ch { m.kbd with c := charBuffer ch } = some k ∧
        ¬ Bounded { m with kbd := k } := by
      rcases not_and_or.mp hg with hback | hprint
      · obtain ⟨heq, h₁⟩ := Classical.not_imp.mp hback
        obtain ⟨hreading, h₂⟩ := Classical.not_imp.mp h₁
        obtain ⟨hhead, hgi⟩ := Classical.not_imp.mp h₂
        rw [heq]
        exact h.backspace_unbounded hreading hhead hgi
      · obtain ⟨hnl, h₁⟩ := Classical.not_imp.mp hprint
        obtain ⟨hbs, h₂⟩ := Classical.not_imp.mp h₁
        obtain ⟨hzero, h₃⟩ := Classical.not_imp.mp h₂
        obtain ⟨s, h₄⟩ := not_forall.mp h₃
        obtain ⟨hs, hlen⟩ := Classical.not_imp.mp h₄
        exact h.print_unbounded hnl hbs hzero hs hlen
    exact ⟨{ m with kbd := k }, by rw [step, hhandler, hk, Option.map_some], hb⟩
  | call => exact absurd trivial hg
  | run => exact absurd trivial hg

/-! ## The main result -/

/-- **The bounds of the keyboard buffers.**  In a run of interrupts, calls of `getLine` and steps of
these, every access to `retstr` is in bounds and the string in `buff` fits, exactly if every
interrupt meets the condition. -/
theorem buffers_bounded_iff (as : List Action) :
    Always step Bounded as boot ↔ Along step Gentle as boot :=
  ⟨fun h => h.along (fun _ _ _ hm hg hs => hm.kept hg hs) (fun _ _ hm hg => hm.unbounded hg)
    fits_boot,
    fun h => h.always (fun _ _ _ hm hg hs => hm.kept hg hs) (fun _ hm => hm.bounded) fits_boot⟩

/-- `getLine` has started, a key and a backspace come before it looks for the key. -/
theorem buffers_not_bounded :
    ¬ Always step Bounded [.call, .run, .key 0x10, .key 0x0E] boot := by
  intro h
  have hindexed : (exec step [.call, .run, .key 0x10, .key 0x0E] boot).map (·.kbd.indexed) =
      some [-1] := by
    decide +kernel
  obtain ⟨m, hm, heq⟩ := Option.map_eq_some_iff.mp hindexed
  have hb := (h.exec hm).1 (-1) (by rw [heq]; simp)
  omega

end TurbOS.Keyboard
