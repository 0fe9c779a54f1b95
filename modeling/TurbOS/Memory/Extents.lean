import TurbOS.Memory.PMemory

/-!
# Physical pages are never handed out twice

The pages that a client received from `pMemory` and has not given back form an
*extent*.  `Inv` relates the bitmap to the set of live extents: a page whose bit is
clear may be handed out, a page of a live extent has its bit set, and live extents do
not meet.  It mentions the rest of the machine only through a `Geometry`, which fixes
how many pages there are, which of them may be handed out, and where the bitmap lies.

The bitmap lies in the memory that is handed out.  Every write of the allocator and of
its clients goes to pages that may be handed out, and the storage of the bitmap is not
among them; `Inv.of_agree` is the frame rule that follows.
-/

open ByteMemory

namespace TurbOS.PMemory

/-- Consecutive pages handed out by one call. -/
structure Extent where
  ptr : ℕ
  count : ℕ
deriving DecidableEq, Repr

/-- The number of the first page of an extent. -/
def Extent.first (e : Extent) : ℕ := e.ptr / 0x1000

/-- The page `i` belongs to the extent. -/
def Extent.Covers (e : Extent) (i : ℕ) : Prop := e.first ≤ i ∧ i < e.first + e.count

/-- The address `x` belongs to the extent. -/
def Extent.Contains (e : Extent) (x : ℕ) : Prop := e.ptr ≤ x ∧ x < e.ptr + e.count * 0x1000

/-- No page belongs to both extents. -/
def Extent.Apart (e e' : Extent) : Prop := ∀ i, e.Covers i → ¬ e'.Covers i

lemma Extent.Apart.symm {e e' : Extent} (h : e.Apart e') : e'.Apart e :=
  fun i hi' hi => h i hi hi'

/-- Of two extents that do not meet one ends before the other starts. -/
lemma Extent.Apart.separate {e e' : Extent} (h : e.Apart e') (he : 1 ≤ e.count)
    (he' : 1 ≤ e'.count) :
    e.first + e.count ≤ e'.first ∨ e'.first + e'.count ≤ e.first := by
  by_contra hmeet
  exact h (max e.first e'.first) ⟨by omega, by omega⟩ ⟨by omega, by omega⟩

/-- The part of the machine that `init` fixes once and for all. -/
structure Geometry where
  /-- The number of pages below `highPage`. -/
  pages : ℕ
  /-- The address of the bitmap. -/
  buffer : ℕ
  /-- The size of the bitmap in bytes. -/
  size : ℕ
  /-- The pages that may be handed out. -/
  Ok : ℕ → Prop
  pages_lt : pages < 2 ^ 52
  covers : pages ≤ 8 * size
  apart : ∀ i, Ok i → (i + 1) * 0x1000 ≤ buffer ∨ buffer + size ≤ i * 0x1000

/-- The bitmap agrees with the live extents. -/
structure Inv (g : Geometry) (s : Phys) (live : List Extent) : Prop where
  unlocked : s.mmLock = false
  buffer_eq : s.buffer = g.buffer
  pages_eq : s.highPage / 0x1000 = g.pages
  last_le : s.last ≤ g.pages
  ok_of_clear : ∀ i < g.pages, Bitmap.get s.mem g.buffer i = false → g.Ok i
  aligned : ∀ e ∈ live, e.ptr = e.first * 0x1000
  nonempty : ∀ e ∈ live, e.ptr ≠ 0 ∧ 1 ≤ e.count
  below : ∀ e ∈ live, e.first + e.count ≤ g.pages
  ok_of_covers : ∀ e ∈ live, ∀ i, e.Covers i → g.Ok i
  marked : ∀ e ∈ live, ∀ i, e.Covers i → Bitmap.get s.mem g.buffer i = true
  apart : live.Pairwise Extent.Apart

variable {g : Geometry} {s s' : Phys} {live : List Extent} {e : Extent}

/-! ## The bitmap is out of the clients' reach -/

/-- An address of a live extent is not an address of the bitmap. -/
lemma Inv.outside (h : Inv g s live) (he : e ∈ live) {x : ℕ} (hx : e.Contains x) :
    x < g.buffer ∨ g.buffer + g.size ≤ x := by
  have hal := h.aligned e he
  obtain ⟨h₁, h₂⟩ := hx
  have hcov : e.Covers (x / 0x1000) := by constructor <;> omega
  have := g.apart _ (h.ok_of_covers e he _ hcov)
  omega

lemma Geometry.byte_lt (g : Geometry) {i : ℕ} (hi : i < g.pages) :
    g.buffer + i / 8 < g.buffer + g.size := by
  have := g.covers
  omega

/-- The frame rule: memory outside the bitmap and the counters may change freely. -/
lemma Inv.of_agree (h : Inv g s live) (m : Mem) (used free : ℕ)
    (hm : ∀ x, g.buffer ≤ x → x < g.buffer + g.size → m x = s.mem x) :
    Inv g { s with mem := m, usedRam := used, freeRam := free } live := by
  have hget : ∀ i < g.pages, Bitmap.get m g.buffer i = Bitmap.get s.mem g.buffer i :=
    fun i hi => Bitmap.get_congr (hm _ (by omega) (g.byte_lt hi))
  refine { h with ok_of_clear := fun i hi hc => ?_, marked := fun e he i hi => ?_ }
  · exact h.ok_of_clear i hi (by rw [← hget i hi]; exact hc)
  · have := h.below e he
    have hi' := hi.2
    rw [← h.marked e he i hi]
    exact hget i (by omega)

/-- The counters may be anything. -/
lemma Inv.counters (h : Inv g s live) (used free : ℕ) :
    Inv g { s with usedRam := used, freeRam := free } live :=
      h.of_agree s.mem used free fun _ _ _ => rfl

lemma Inv.perm (h : Inv g s live) {live' : List Extent} (hp : live.Perm live') :
    Inv g s live' where
  unlocked := h.unlocked
  buffer_eq := h.buffer_eq
  pages_eq := h.pages_eq
  last_le := h.last_le
  ok_of_clear := h.ok_of_clear
  aligned := fun e he => h.aligned e (hp.mem_iff.mpr he)
  nonempty := fun e he => h.nonempty e (hp.mem_iff.mpr he)
  below := fun e he => h.below e (hp.mem_iff.mpr he)
  ok_of_covers := fun e he => h.ok_of_covers e (hp.mem_iff.mpr he)
  marked := fun e he => h.marked e (hp.mem_iff.mpr he)
  apart := (hp.pairwise_iff fun h => h.symm).mp h.apart

/-- An extent may be forgotten. -/
lemma Inv.tail (h : Inv g s (e :: live)) : Inv g s live where
  unlocked := h.unlocked
  buffer_eq := h.buffer_eq
  pages_eq := h.pages_eq
  last_le := h.last_le
  ok_of_clear := h.ok_of_clear
  aligned := fun e he => h.aligned e (List.mem_cons_of_mem _ he)
  nonempty := fun e he => h.nonempty e (List.mem_cons_of_mem _ he)
  below := fun e he => h.below e (List.mem_cons_of_mem _ he)
  ok_of_covers := fun e he => h.ok_of_covers e (List.mem_cons_of_mem _ he)
  marked := fun e he => h.marked e (List.mem_cons_of_mem _ he)
  apart := (List.pairwise_cons.mp h.apart).2

/-! ## Marking and clearing runs -/

lemma Inv.get_setRange (h : Inv g s live) (page count i : ℕ) (value : Bool) :
    Bitmap.get (Bitmap.setRange s.mem s.buffer page value count) g.buffer i =
      if page ≤ i ∧ i < page + count then value else Bitmap.get s.mem g.buffer i := by
  rw [h.buffer_eq, Bitmap.get_setRange]

lemma Inv.setRange_outside (h : Inv g s live) {page count x : ℕ} {value : Bool}
    (hle : page + count ≤ g.pages) (hx : x < g.buffer ∨ g.buffer + g.size ≤ x) :
    Bitmap.setRange s.mem s.buffer page value count x = s.mem x := by
  have hcovers := g.covers
  rw [h.buffer_eq]
  exact Bitmap.setRange_outside (hle.trans hcovers) hx

/-- A free run becomes a live extent when its bits are set. -/
lemma Inv.mark (h : Inv g s live) {page count : ℕ} (hpage : page ≠ 0) (hcount : 1 ≤ count)
    (hle : page + count ≤ g.pages)
    (hclear : ∀ i, page ≤ i → i < page + count → Bitmap.get s.mem g.buffer i = false) :
    Inv g { s with mem := Bitmap.setRange s.mem s.buffer page true count, last := page + count }
      (⟨page * 0x1000, count⟩ :: live) := by
  have hfirst : Extent.first ⟨page * 0x1000, count⟩ = page := by simp [Extent.first]
  have hget := fun i => h.get_setRange page count i true
  have hnew : ∀ i, Extent.Covers ⟨page * 0x1000, count⟩ i ↔ page ≤ i ∧ i < page + count := by
    intro i
    rw [Extent.Covers, hfirst]
  refine ⟨h.unlocked, h.buffer_eq, h.pages_eq, hle, ?_, ?_, ?_, ?_, ?_, ?_, ?_⟩
  · intro i hi hc
    refine h.ok_of_clear i hi ?_
    rw [hget i] at hc
    split at hc
    · exact absurd hc (by simp)
    · exact hc
  · refine List.forall_mem_cons.mpr ⟨by rw [hfirst], h.aligned⟩
  · refine List.forall_mem_cons.mpr ⟨⟨by dsimp only; omega, hcount⟩, h.nonempty⟩
  · refine List.forall_mem_cons.mpr ⟨by rw [hfirst]; exact hle, h.below⟩
  · refine List.forall_mem_cons.mpr ⟨fun i hi => ?_, h.ok_of_covers⟩
    obtain ⟨h₁, h₂⟩ := (hnew i).mp hi
    exact h.ok_of_clear i (by omega) (hclear i h₁ h₂)
  · refine List.forall_mem_cons.mpr ⟨fun i hi => ?_, fun e he i hi => ?_⟩
    · rw [hget i, if_pos ((hnew i).mp hi)]
    · rw [hget i]
      split
      · rfl
      · exact h.marked e he i hi
  · refine List.pairwise_cons.mpr ⟨fun e he i hi hi' => ?_, h.apart⟩
    -- the bit of a common page would be clear and set
    obtain ⟨h₁, h₂⟩ := (hnew i).mp hi
    have := h.marked e he i hi'
    rw [hclear i h₁ h₂] at this
    exact absurd this (by simp)

/-- Pages that may be handed out and belong to no live extent can be released. -/
lemma Inv.clear (h : Inv g s live) {page count last used free : ℕ} (hlast : last ≤ g.pages)
    (hok : ∀ i, page ≤ i → i < page + count → g.Ok i)
    (hfree : ∀ i, page ≤ i → i < page + count → ∀ e ∈ live, ¬ e.Covers i) :
    Inv g { s with
      mem := Bitmap.setRange s.mem s.buffer page false count
      last := last
      usedRam := used
      freeRam := free } live := by
  have hget := fun i => h.get_setRange page count i false
  refine { h with
    last_le := hlast
    ok_of_clear := fun i hi hc => ?_
    marked := fun e he i hi => ?_ }
  · by_cases hr : page ≤ i ∧ i < page + count
    · exact hok i hr.1 hr.2
    · refine h.ok_of_clear i hi ?_
      rw [hget i, if_neg hr] at hc
      exact hc
  · rw [hget i, if_neg fun hr => hfree i hr.1 hr.2 e he hi]
    exact h.marked e he i hi

/-! ## The operations keep the invariant -/

lemma mul_page_lt {g : Geometry} {count page : ℕ} (h : page + count ≤ g.pages) :
    Word64.mul count 0x1000 = count * 0x1000 :=
  Word64.mul_of_lt (by have := g.pages_lt; omega)

/-- A successful `alloc` adds a live extent. -/
lemma Inv.alloc (h : Inv g s live) {count p : ℕ} (hcount : 1 ≤ count)
    (hs : alloc count s = some (p, s')) (hp : p ≠ 0) : Inv g s' (⟨p, count⟩ :: live) := by
  have hlast : s.last ≤ s.highPage / 0x1000 := by rw [h.pages_eq]; exact h.last_le
  obtain ⟨-, page, rfl, hle, hclear, rfl⟩ := alloc_cases hs hp hlast
  rw [h.pages_eq] at hle
  rw [h.buffer_eq] at hclear
  have hmark := h.mark (by omega) hcount hle hclear
  rw [mul_page_lt hle]
  refine hmark.of_agree (memset _ _ _ _) _ _ fun x h₁ h₂ => fill_outside ?_
  -- clearing the new pages does not touch the bitmap
  by_contra hx
  have hx' : Extent.Contains ⟨page * 0x1000, count⟩ x := by
    rw [Extent.Contains]
    dsimp only
    omega
  have := hmark.outside List.mem_cons_self hx'
  omega

/-- Giving back some leading pages of an extent, and forgetting the extent. -/
lemma Inv.freePages (h : Inv g s (e :: live)) {n : ℕ} (hn : n ≤ e.count)
    (hs : free e.ptr n s = some s') : Inv g s' live := by
  obtain ⟨hne, -⟩ := h.nonempty e List.mem_cons_self
  obtain ⟨-, rfl⟩ := free_eq hs hne
  have hapart := List.pairwise_cons.mp h.apart
  have hle := h.below e List.mem_cons_self
  have hlast : min (e.ptr / 0x1000) s.last ≤ g.pages := by
    have := h.last_le
    omega
  refine h.tail.clear hlast (fun i h₁ h₂ => ?_) fun i h₁ h₂ e' he' => ?_
  · exact h.ok_of_covers e List.mem_cons_self i ⟨h₁, by rw [Extent.first]; omega⟩
  · exact hapart.1 e' he' i ⟨h₁, by rw [Extent.first]; omega⟩

/-- A successful `realloc` exchanges one live extent for another, which lies elsewhere. -/
lemma Inv.realloc (h : Inv g s (e :: live)) {new q : ℕ} (hnew : new ≠ 0)
    (hs : realloc e.ptr e.count new s = some (q, s')) (hq : q ≠ 0) :
    Inv g s' (⟨q, new⟩ :: live) ∧ Extent.Apart ⟨q, new⟩ e := by
  obtain ⟨hne, hone⟩ := h.nonempty e List.mem_cons_self
  obtain ⟨s₁, halloc, hfree⟩ := realloc_some hne hnew hs
  have h₁ := (h.counters _ _).alloc (by omega) halloc hq
  -- the copy writes into the new extent only
  have h₂ := h₁.of_agree (memcpy s₁.mem q e.ptr (if new < e.count then new else e.count))
    s₁.usedRam s₁.freeRam fun x hx₁ hx₂ => copy_outside <| by
      by_contra hx
      have hlen : (if new < e.count then new else e.count) ≤ new := by split <;> omega
      have := h₁.outside List.mem_cons_self (x := x) ⟨by dsimp only; omega, by dsimp only; omega⟩
      omega
  have h₃ := h₂.perm (List.Perm.swap _ _ _)
  exact ⟨h₃.freePages hone hfree, (List.pairwise_cons.mp h₁.apart).1 e List.mem_cons_self⟩

/-! ## What the operations leave behind -/

/-- A new extent consists of free pages; its bits are set, its bytes are cleared, and nothing
else changes in memory. -/
lemma Inv.alloc_spec (h : Inv g s live) {count p : ℕ} (hcount : 1 ≤ count)
    (hs : PMemory.alloc count s = some (p, s')) (hp : p ≠ 0) :
    ∃ page, p = page * 0x1000 ∧ page + count ≤ g.pages ∧
      (∀ i, page ≤ i → i < page + count → Bitmap.get s.mem g.buffer i = false) ∧
      (∀ i < g.pages, Bitmap.get s'.mem g.buffer i =
        if page ≤ i ∧ i < page + count then true else Bitmap.get s.mem g.buffer i) ∧
      (∀ x, x < g.buffer ∨ g.buffer + g.size ≤ x → s'.mem x =
        if p ≤ x ∧ x < p + count * 0x1000 then 0 else s.mem x) ∧
      s'.usedRam = Word64.add s.usedRam (count * 0x1000) ∧
      s'.freeRam = Word64.sub s.freeRam (count * 0x1000) := by
  have hinv := h.alloc hcount hs hp
  have hlast : s.last ≤ s.highPage / 0x1000 := by rw [h.pages_eq]; exact h.last_le
  obtain ⟨-, page, rfl, hle, hclear, rfl⟩ := alloc_cases hs hp hlast
  rw [h.pages_eq] at hle
  rw [h.buffer_eq] at hclear
  have hmul := mul_page_lt hle
  refine ⟨page, rfl, hle, hclear, fun i hi => ?_, fun x hx => ?_, by rw [hmul], by rw [hmul]⟩
  · rw [← h.get_setRange]
    refine Bitmap.get_congr (fill_outside ?_)
    -- the byte of a bit is no byte of the new pages
    by_contra hx
    have := hinv.outside List.mem_cons_self (x := g.buffer + i / 8)
      ⟨by dsimp only; omega, by dsimp only; omega⟩
    have := g.byte_lt hi
    omega
  · dsimp only
    rw [memset, fill, hmul, h.setRange_outside hle hx]

/-- Releasing pages clears their bits and changes no other byte. -/
lemma Inv.free_spec (h : Inv g s live) {ptr count : ℕ} (hptr : ptr ≠ 0)
    (hle : ptr / 0x1000 + count ≤ g.pages) (hs : PMemory.free ptr count s = some s') :
    (∀ i, Bitmap.get s'.mem g.buffer i =
        if ptr / 0x1000 ≤ i ∧ i < ptr / 0x1000 + count then false
        else Bitmap.get s.mem g.buffer i) ∧
      (∀ x, x < g.buffer ∨ g.buffer + g.size ≤ x → s'.mem x = s.mem x) ∧
      s'.usedRam = Word64.sub s.usedRam (count * 0x1000) ∧
      s'.freeRam = Word64.add s.freeRam (count * 0x1000) := by
  obtain ⟨-, rfl⟩ := free_eq hs hptr
  have hmul := mul_page_lt hle
  refine ⟨fun i => h.get_setRange _ _ i false, fun x hx => ?_, by rw [hmul], by rw [hmul]⟩
  exact h.setRange_outside hle hx

/-- `realloc` takes free pages, copies as many bytes as the smaller extent has pages, and releases
the first page of the old extent. -/
lemma Inv.realloc_spec (h : Inv g s live) (he : e ∈ live) {new q : ℕ} (hnew : 1 ≤ new)
    (hs : PMemory.realloc e.ptr e.count new s = some (q, s')) (hq : q ≠ 0) :
    ∃ page, q = page * 0x1000 ∧ page + new ≤ g.pages ∧
      (∀ i, page ≤ i → i < page + new → Bitmap.get s.mem g.buffer i = false) ∧
      (∀ i < g.pages, Bitmap.get s'.mem g.buffer i =
        if i = e.first then false else if page ≤ i ∧ i < page + new then true
        else Bitmap.get s.mem g.buffer i) ∧
      (∀ k < new * 0x1000, s'.mem (q + k) = if k < min e.count new then s.mem (e.ptr + k) else 0) ∧
      s'.usedRam = Word64.sub (Word64.add (Word64.add (Word64.sub s.usedRam (e.count * 0x1000))
        (new * 0x1000)) (new * 0x1000)) 0x1000 ∧
      s'.freeRam = Word64.add (Word64.sub (Word64.sub (Word64.add s.freeRam (e.count * 0x1000))
        (new * 0x1000)) (new * 0x1000)) 0x1000 := by
  obtain ⟨hne, hone⟩ := h.nonempty e he
  have hbelow := h.below e he
  have haligned := h.aligned e he
  obtain ⟨s₁, halloc, hfree⟩ := realloc_some hne (by omega) hs
  have h₁ := (h.counters _ _).alloc hnew halloc hq
  obtain ⟨page, hpage, hle, hclear, hbits, hbytes, hused, hfreeRam⟩ :=
    (h.counters _ _).alloc_spec hnew halloc hq
  have hout : ∀ x, Extent.Contains ⟨q, new⟩ x → x < g.buffer ∨ g.buffer + g.size ≤ x :=
    fun x hx => h₁.outside List.mem_cons_self hx
  have hlen : (if new < e.count then new else e.count) = min e.count new := by
    split <;> omega
  rw [hlen] at hfree
  -- the copy leaves the bitmap alone
  have h₂ := h₁.of_agree (memcpy s₁.mem q e.ptr (min e.count new)) s₁.usedRam s₁.freeRam
    fun x hx₁ hx₂ => copy_outside <| by
      by_contra hx
      have := hout x ⟨by dsimp only; omega, by dsimp only; omega⟩
      omega
  obtain ⟨hbits', hbytes', hused', hfreeRam'⟩ :=
    h₂.free_spec hne (by rw [← Extent.first]; omega) hfree
  have hcount : e.first + e.count ≤ g.pages := by omega
  have hmul := mul_page_lt hcount
  have hmul' := mul_page_lt hle
  refine ⟨page, hpage, hle, hclear, fun i hi => ?_, fun k hk => ?_, ?_, ?_⟩
  · have hcopy : Bitmap.get (memcpy s₁.mem q e.ptr (min e.count new)) g.buffer i =
        Bitmap.get s₁.mem g.buffer i := by
      refine Bitmap.get_congr (copy_outside ?_)
      by_contra hx
      have := hout (g.buffer + i / 8) ⟨by dsimp only; omega, by dsimp only; omega⟩
      have := g.byte_lt hi
      omega
    rw [hbits' i, hcopy, hbits i hi, ← Extent.first]
    by_cases hi : i = e.first
    · rw [if_pos (by omega), if_pos hi]
    · rw [if_neg (by omega), if_neg hi]
  · have hx : Extent.Contains ⟨q, new⟩ (q + k) := ⟨by dsimp only; omega, by dsimp only; omega⟩
    have hseparate := ((List.pairwise_cons.mp h₁.apart).1 e he).separate hnew hone
    have hfirst : Extent.first ⟨q, new⟩ = page := by simp [Extent.first, hpage]
    rw [hfirst] at hseparate
    dsimp only at hseparate
    rw [hbytes' _ (hout _ hx)]
    dsimp only
    rw [memcpy]
    by_cases hk' : k < min e.count new
    · -- the old extent lies elsewhere, so its bytes are still there
      have hold : e.Contains (e.ptr + k) := ⟨by omega, by omega⟩
      rw [if_pos hk', copy_inside hk' (by omega), hbytes _ (h.outside he hold), if_neg (by omega)]
    · rw [if_neg hk', copy_outside (by omega), hbytes _ (hout _ hx), if_pos (by omega)]
  · rw [hused', hused, hmul, hmul']
  · rw [hfreeRam', hfreeRam, hmul, hmul']

end TurbOS.PMemory
