import TurbOS.Memory.Boot

/-!
# Moving an extent

`realloc` is meant to move an extent: allocate, copy, release.  Its sizes are page counts, but
the copy takes them for bytes, and the release names no count, so that it gives back one page.
This file says when the extent is moved nevertheless.

The states are all those in which the bitmap agrees with the live extents (`Inv`), whatever the
memory map and the history; `Reachable.inv` shows that runs stay among them.
-/

open ByteMemory

namespace TurbOS.PMemory

variable {g : Geometry} {s s' : Phys} {live : List Extent} {e : Extent} {new q : ℕ}

/-- The whole extent `e` was moved to `new` pages at `q`: those were free pages below `highPage`
and are in use now, the common part of the contents has arrived, the old pages are free again,
and no other bit has changed. -/
structure Moves (s : Phys) (e : Extent) (q new : ℕ) (s' : Phys) : Prop where
  aligned : q = q / 0x1000 * 0x1000
  below : q / 0x1000 + new ≤ s.highPage / 0x1000
  taken : ∀ i, Extent.Covers ⟨q, new⟩ i →
    Bitmap.get s.mem s.buffer i = false ∧ Bitmap.get s'.mem s'.buffer i = true
  contents : ∀ k < min e.count new * 0x1000, s'.mem (q + k) = s.mem (e.ptr + k)
  released : ∀ i, e.Covers i → Bitmap.get s'.mem s'.buffer i = false
  kept : ∀ i < s.highPage / 0x1000, ¬ e.Covers i → ¬ Extent.Covers ⟨q, new⟩ i →
    Bitmap.get s'.mem s'.buffer i = Bitmap.get s.mem s.buffer i

/-! ## The counters do not matter to a search -/

lemma ohMyAlloc_counters (count limit : ℕ) (s : Phys) (used free : ℕ) :
    ohMyAlloc count limit { s with usedRam := used, freeRam := free } =
      ((ohMyAlloc count limit s).1,
        { (ohMyAlloc count limit s).2 with usedRam := used, freeRam := free }) := by
  rw [ohMyAlloc, ohMyAlloc]
  dsimp only
  split
  · rfl
  · rfl

lemma search_counters (count : ℕ) (s : Phys) (used free : ℕ) :
    search count { s with usedRam := used, freeRam := free } =
      ((search count s).1, { (search count s).2 with usedRam := used, freeRam := free }) := by
  rw [search, search]
  dsimp only
  rw [ohMyAlloc_counters]
  have hsecond := ohMyAlloc_counters count s.last
    { (ohMyAlloc count (s.highPage / 0x1000) s).2 with last := 0 } used free
  dsimp only at hsecond ⊢
  rw [hsecond]
  split
  · rfl
  · rfl

/-- The pointer that `alloc` returns does not depend on the counters. -/
lemma alloc_counters (count : ℕ) (s : Phys) (used free : ℕ) :
    (alloc count { s with usedRam := used, freeRam := free }).map Prod.fst =
      (alloc count s).map Prod.fst := by
  have hsearch := search_counters count { s with mmLock := true } used free
  dsimp only at hsearch
  rw [alloc, alloc]
  dsimp only
  rw [hsearch]
  split
  · rfl
  · rfl

/-- `realloc` returns the pointer that `alloc` would return. -/
lemma realloc_returns (h : Inv g s live) (he : e ∈ live) (hnew : 1 ≤ new)
    (halloc : (alloc new s).map Prod.fst = some q) (hq : q ≠ 0) :
    ∃ s', realloc e.ptr e.count new s = some (q, s') := by
  obtain ⟨hne, -⟩ := h.nonempty e he
  have hcounters := alloc_counters new s
    (Word64.add (Word64.sub s.usedRam (Word64.mul e.count 0x1000)) (Word64.mul new 0x1000))
    (Word64.sub (Word64.add s.freeRam (Word64.mul e.count 0x1000)) (Word64.mul new 0x1000))
  rw [halloc] at hcounters
  obtain ⟨⟨q', s₁⟩, hs₁, rfl⟩ := Option.map_eq_some_iff.mp hcounters
  have hlock := ((h.counters _ _).alloc hnew hs₁ hq).unlocked
  rw [realloc, if_neg hne, if_neg (by omega)]
  dsimp only
  rw [hs₁, Option.bind_some, free, if_neg hne, if_neg (by simp [hlock])]
  exact ⟨_, rfl⟩

/-! ## When the extent is moved -/

lemma realloc_fixed (h : Inv g s live) (he : e ∈ live) (hnew : 1 ≤ new)
    (hs : realloc e.ptr e.count new s = some (q, s')) (hq : q ≠ 0) : s'.buffer = g.buffer := by
  have hmoved := (h.perm (List.perm_cons_erase he)).realloc (by omega) hs hq
  exact hmoved.1.buffer_eq

/-- **`realloc` moves an extent exactly if it is one page with at most one byte in it.**  The
copy carries as many bytes as the smaller extent has pages, and one page is released. -/
theorem realloc_moves_iff (h : Inv g s live) (he : e ∈ live) (hnew : 1 ≤ new)
    (halloc : (alloc new s).map Prod.fst = some q) (hq : q ≠ 0) :
    (∃ s', realloc e.ptr e.count new s = some (q, s') ∧ Moves s e q new s') ↔
      e.count = 1 ∧ ∀ k, 1 ≤ k → k < 0x1000 → s.mem (e.ptr + k) = 0 := by
  obtain ⟨s', hs⟩ := realloc_returns h he hnew halloc hq
  obtain ⟨page, hpage, hle, hclear, hbits, hbytes, -, -⟩ := h.realloc_spec he hnew hs hq
  have hbuffer := realloc_fixed h he hnew hs hq
  have hcovers : ∀ i, Extent.Covers ⟨q, new⟩ i ↔ page ≤ i ∧ i < page + new := by
    intro i
    have hfirst : Extent.first ⟨q, new⟩ = page := by simp [Extent.first, hpage]
    rw [Extent.Covers, hfirst]
  obtain ⟨hne, hone⟩ := h.nonempty e he
  have hbelow := h.below e he
  constructor
  · rintro ⟨s'', hs'', hmoves⟩
    obtain rfl : s' = s'' := (Prod.mk.inj (Option.some.inj (hs.symm.trans hs''))).2
    have hcount : e.count = 1 := by
      by_contra hmany
      -- the second page of the old extent is not released
      have hsecond : e.Covers (e.first + 1) := ⟨by omega, by omega⟩
      have hreleased := hmoves.released _ hsecond
      rw [hbuffer, hbits _ (by omega), if_neg (by omega)] at hreleased
      split at hreleased
      · exact absurd hreleased (by simp)
      · rw [h.marked e he _ hsecond] at hreleased
        exact absurd hreleased (by simp)
    refine ⟨hcount, fun k hk₁ hk₂ => ?_⟩
    have hsame := hmoves.contents k (by rw [hcount]; omega)
    rw [hbytes k (by omega), if_neg (by omega)] at hsame
    exact hsame.symm
  · rintro ⟨hcount, hzero⟩
    have hold : ∀ i, e.Covers i ↔ i = e.first := by
      intro i
      rw [Extent.Covers, hcount]
      omega
    have hapart : ∀ i, page ≤ i → i < page + new → i ≠ e.first := by
      rintro i h₁ h₂ rfl
      have hmarked := h.marked e he _ ((hold _).mpr rfl)
      rw [hclear _ h₁ h₂] at hmarked
      exact absurd hmarked (by simp)
    have hbuf := h.buffer_eq
    have hpages := h.pages_eq
    refine ⟨s', hs, ⟨(Nat.div_mul_cancel (Dvd.intro_left _ hpage.symm)).symm, by omega, ?_, ?_,
      ?_, ?_⟩⟩
    · intro i hi
      obtain ⟨h₁, h₂⟩ := (hcovers i).mp hi
      rw [hbuf, hbuffer, hbits i (by omega), if_neg (hapart i h₁ h₂), if_pos ⟨h₁, h₂⟩]
      exact ⟨hclear i h₁ h₂, rfl⟩
    · intro k hk
      have hmin : min e.count new = 1 := by omega
      rw [hmin, one_mul] at hk
      rw [hbytes k (by omega), hmin]
      by_cases hk₀ : k = 0
      · rw [if_pos (by omega)]
      · rw [if_neg (by omega), hzero k (by omega) (by omega)]
    · intro i hi
      obtain rfl := (hold i).mp hi
      rw [hbuffer, hbits _ (by omega), if_pos rfl]
    · intro i hi hnot hnot'
      rw [hold] at hnot
      rw [hcovers] at hnot'
      rw [hbuf, hbuffer, hbits i (by omega), if_neg hnot, if_neg hnot']

/-- The small machine after one request. -/
lemma smallMap_alloc {count : ℕ} (hcount : 1 ≤ count)
    (h : (alloc count (init smallMap { mem := fun _ => 0 })).map Prod.fst = some 0x2000) :
    ∃ s, alloc count (init smallMap { mem := fun _ => 0 }) = some (0x2000, s) ∧
      Reachable smallMap (fun _ => 0) ⟨s, [⟨0x2000, count⟩]⟩ ∧
      ∀ k < count * 0x1000, s.mem (0x2000 + k) = 0 := by
  obtain ⟨buffer, hinv, -, -⟩ := init_inv smallMap_bootable fun _ => 0
  have hinit : Reachable smallMap (fun _ => 0) ⟨init smallMap { mem := fun _ => 0 }, []⟩ := .init
  generalize init smallMap { mem := fun _ => 0 } = s₀ at h hinv hinit ⊢
  obtain ⟨⟨p, s⟩, hs, rfl⟩ := Option.map_eq_some_iff.mp h
  refine ⟨s, hs, hinit.step (.alloc hcount hs (by norm_num)), fun k hk => ?_⟩
  obtain ⟨page, -, -, -, -, hbytes, -, -⟩ := hinv.alloc_spec hcount hs (by norm_num)
  have hx : Extent.Contains ⟨0x2000, count⟩ (0x2000 + k) :=
    ⟨Nat.le_add_right _ _, Nat.add_lt_add_left hk _⟩
  rw [hbytes _ ((hinv.alloc hcount hs (by norm_num)).outside List.mem_cons_self hx)]
  exact if_pos hx

/-- One empty page is moved to two pages. -/
theorem realloc_moves_smallMap :
    ∃ s s', Reachable smallMap (fun _ => 0) ⟨s, [⟨0x2000, 1⟩]⟩ ∧
      realloc 0x2000 1 2 s = some (0x3000, s') ∧ Moves s ⟨0x2000, 1⟩ 0x3000 2 s' := by
  have hfirst : (alloc 1 (init smallMap { mem := fun _ => 0 })).map Prod.fst = some 0x2000 := by
    decide +kernel
  have hsecond : ((alloc 1 (init smallMap { mem := fun _ => 0 })).bind
      fun r => (alloc 2 r.2).map Prod.fst) = some 0x3000 := by
    decide +kernel
  obtain ⟨s, hs, hreach, hzero⟩ := smallMap_alloc le_rfl hfirst
  rw [hs, Option.bind_some] at hsecond
  obtain ⟨buffer, hinv, -, -⟩ := hreach.inv smallMap_bootable
  obtain ⟨s', hs', hmoves⟩ :=
    (realloc_moves_iff hinv List.mem_cons_self (by norm_num) hsecond (by norm_num)).mpr
      ⟨rfl, fun k _ hk => hzero k (by omega)⟩
  exact ⟨s, s', hreach, hs', hmoves⟩

lemma two_pages_runs : ((alloc 2 (init smallMap { mem := fun _ => 0 })).bind
    fun r => realloc 0x2000 2 1 r.2).any
      (fun r => decide (r.1 = 0x4000) && Bitmap.get r.2.mem r.2.buffer 3) = true := by
  decide +kernel

/-- When two pages are moved to one, the second of them stays in use. -/
theorem realloc_leaves_page :
    ∃ s s', Reachable smallMap (fun _ => 0) ⟨s, [⟨0x2000, 2⟩]⟩ ∧
      realloc 0x2000 2 1 s = some (0x4000, s') ∧
      ¬ ∀ i, Extent.Covers ⟨0x2000, 2⟩ i → Bitmap.get s'.mem s'.buffer i = false := by
  have hfirst : (alloc 2 (init smallMap { mem := fun _ => 0 })).map Prod.fst = some 0x2000 := by
    decide +kernel
  obtain ⟨s, hs, hreach, -⟩ := smallMap_alloc (by norm_num) hfirst
  have hrun := two_pages_runs
  rw [hs, Option.bind_some] at hrun
  obtain ⟨⟨q, s'⟩, hs', hcheck⟩ := (Option.any_eq_true _ _).mp hrun
  simp only [Bool.and_eq_true, decide_eq_true_eq] at hcheck
  obtain ⟨rfl, hbit⟩ := hcheck
  refine ⟨s, s', hreach, hs', fun hreleased => ?_⟩
  have hpage := hreleased 3 ⟨by norm_num [Extent.first], by norm_num [Extent.first]⟩
  rw [hbit] at hpage
  exact absurd hpage (by simp)

end TurbOS.PMemory
