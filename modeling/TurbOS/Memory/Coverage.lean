import TurbOS.Memory.FreeMap
import TurbOS.Memory.Requests

/-!
# The bits that are read and written

`init` computes the size of the bitmap from the highest usable address with two divisions that
round in different directions.  This file lists the bits that `init` and `alloc` touch and says
for which memory maps they all lie inside the bitmap.

Each list follows the code of the function whose accesses it lists.  The states are those of
runs from start-up in which anybody calls `alloc`, `free` and `realloc` with any arguments, and
memory is written anywhere.
-/

open ByteMemory Runs

namespace TurbOS.PMemory

variable {s s' : Phys} {mm : List MmapEntry} {m : Mem} {count limit : ℕ}

/-! ## Accesses -/

/-- The bits that the loop of `ohMyAlloc` reads. -/
def scanBits (m : Mem) (buffer count : ℕ) : ℕ → ℕ → ℕ → List ℕ
  | 0, _, _ => []
  | n + 1, p, last =>
    last :: if Bitmap.get m buffer last = false then
        if p + 1 = count then [] else scanBits m buffer count n (p + 1) (last + 1)
      else scanBits m buffer count n 0 (last + 1)

/-- The bits that `ohMyAlloc` touches: those it reads, and those it sets. -/
def ohMyAllocBits (count limit : ℕ) (s : Phys) : List ℕ :=
  scanBits s.mem s.buffer count (limit - s.last) 0 s.last ++
    match scan s.mem s.buffer count (limit - s.last) 0 s.last with
    | (none, _) => []
    | (some page, last) => List.range' page (last - page)

/-- The bits that `alloc` touches. -/
def allocBits (count : ℕ) (s : Phys) : List ℕ :=
  let tmp := s.last
  let first := ohMyAlloc count (s.highPage / 0x1000) s
  ohMyAllocBits count (s.highPage / 0x1000) s ++
    if first.1 = 0 then ohMyAllocBits count tmp { first.2 with last := 0 } else []

/-- The bits that the third loop of `init` clears. -/
def releaseBits (mm : List MmapEntry) : List ℕ :=
  mm.flatMap fun e =>
    if e.type ≠ .usable then []
    else (List.range ((e.length + (0x1000 - 1)) / 0x1000)).map fun k =>
      (e.base + k * 0x1000) / 0x1000

/-- The bits that `init` touches. -/
def initBits (mm : List MmapEntry) (s : Phys) : List ℕ :=
  if s.isInit then []
  else
    match place (bitmapSize (survey s mm).highPage) mm with
    | none => releaseBits mm
    | some (_, mm) => releaseBits mm

/-- A call with any arguments, or a write to memory. -/
inductive Action where
  | alloc (count : ℕ)
  | free (ptr count : ℕ)
  | realloc (ptr oldSize newSize : ℕ)
  | write (x : ℕ) (b : UInt8)
deriving DecidableEq, Repr

/-- The effect of an action. -/
def act : Action → Phys → Option Phys
  | .alloc count, s => (alloc count s).map Prod.snd
  | .free ptr count, s => free ptr count s
  | .realloc ptr oldSize newSize, s => (realloc ptr oldSize newSize s).map Prod.snd
  | .write x b, s => some { s with mem := Function.update s.mem x b }

/-- Every bit that `init` touches, and `alloc` in any state that follows, lies in a byte of the
bitmap. -/
def Inside (mm : List MmapEntry) (m : Mem) : Prop :=
  (∀ i ∈ initBits mm { mem := m }, i / 8 < bitmapSize (highPage mm)) ∧
    ∀ actions s count, exec act actions (init mm { mem := m }) = some s →
      ∀ i ∈ allocBits count s, i / 8 < bitmapSize (highPage mm)

/-- The number of pages does not lie just above a multiple of the pages that one page of bitmap
accounts for; where it is such a multiple, no usable entry reaches into the page after the
last one. -/
def Fits (mm : List MmapEntry) : Prop :=
  (highPage mm / 0x1000 % 0x8000 = 0 ∨ 8 ≤ highPage mm / 0x1000 % 0x8000) ∧
    (highPage mm / 0x1000 % 0x8000 = 0 → ∀ e ∈ mm, e.type = .usable →
      e.base / 0x1000 + (e.length + (0x1000 - 1)) / 0x1000 ≤ highPage mm / 0x1000)

/-! ## What a search touches -/

lemma le_scan (m : Mem) (buffer count n p last : ℕ) :
    last ≤ (scan m buffer count n p last).2 := by
  induction n generalizing p last with
  | zero => exact le_rfl
  | succ n ih =>
    rw [scan]
    split
    · split
      · exact Nat.le_succ last
      · exact (Nat.le_succ last).trans (ih _ _)
    · exact (Nat.le_succ last).trans (ih _ _)

/-- The loop reads the bits from where it starts to where it stops. -/
lemma scanBits_eq (m : Mem) (buffer count n p last : ℕ) :
    scanBits m buffer count n p last =
      List.range' last ((scan m buffer count n p last).2 - last) := by
  induction n generalizing p last with
  | zero => simp [scanBits, scan]
  | succ n ih =>
    have hnext : ∀ p, last :: scanBits m buffer count n p (last + 1) =
        List.range' last ((scan m buffer count n p (last + 1)).2 - last) := by
      intro p
      have hle := le_scan m buffer count n p (last + 1)
      obtain ⟨d, hd⟩ : ∃ d, (scan m buffer count n p (last + 1)).2 - last = d + 1 :=
        ⟨(scan m buffer count n p (last + 1)).2 - last - 1, by omega⟩
      rw [ih, hd, List.range'_succ]
      congr 2
      omega
    rw [scanBits, scan]
    split
    · split
      · simp
      · exact hnext (p + 1)
    · exact hnext 0

/-- `ohMyAlloc` touches bits from `last` up to the limit. -/
lemma ohMyAllocBits_lt {i : ℕ} (hi : i ∈ ohMyAllocBits count limit s) : i < max s.last limit := by
  obtain ⟨h₁, h₂, h₃⟩ := scan_spec s.mem s.buffer count (limit - s.last) 0 s.last (by omega)
    fun i h₁ h₂ => by omega
  rw [ohMyAllocBits, List.mem_append] at hi
  rcases hi with hread | hset
  · rw [scanBits_eq, List.mem_range'_1] at hread
    omega
  · rcases hscan : scan s.mem s.buffer count (limit - s.last) 0 s.last with ⟨_ | page, l⟩
    · rw [hscan] at hset
      simp at hset
    · rw [hscan] at hset h₂ h₃
      obtain ⟨hend, -, -⟩ := h₃ page rfl
      have hset := List.mem_range'_1.mp hset
      dsimp only at h₂ hend
      omega

/-- `alloc` touches bits below `highPage`. -/
lemma allocBits_lt {i : ℕ} (hlast : s.last ≤ s.highPage / 0x1000) (hi : i ∈ allocBits count s) :
    i < s.highPage / 0x1000 := by
  rw [allocBits, List.mem_append] at hi
  rcases hi with hfirst | hsecond
  · have hlt := ohMyAllocBits_lt hfirst
    omega
  · split at hsecond
    · have hlt := ohMyAllocBits_lt hsecond
      dsimp only at hlt
      omega
    · simp at hsecond

/-- A search that finds nothing goes on to the limit. -/
lemma scan_none {m : Mem} {buffer n p last : ℕ} (h : (scan m buffer count n p last).1 = none) :
    (scan m buffer count n p last).2 = last + n := by
  induction n generalizing p last with
  | zero => rfl
  | succ n ih =>
    rw [scan] at h ⊢
    split at h
    · rename_i hfree
      split at h
      · simp at h
      · rename_i hcount
        rw [if_pos hfree, if_neg hcount, ih h]
        omega
    · rename_i hused
      rw [if_neg hused, ih h]
      omega

/-- A request for more pages than there are reads all bits from `last` on. -/
lemma mem_allocBits {i : ℕ} (hcount : s.highPage / 0x1000 < count) (hlast : s.last ≤ i)
    (hi : i < s.highPage / 0x1000) : i ∈ allocBits count s := by
  obtain ⟨-, h₂, h₃⟩ := scan_spec s.mem s.buffer count (s.highPage / 0x1000 - s.last) 0 s.last
    (by omega) fun i h₁ h₂ => by omega
  have hnone : (scan s.mem s.buffer count (s.highPage / 0x1000 - s.last) 0 s.last).1 = none := by
    by_contra hsome
    obtain ⟨page, hpage⟩ := Option.ne_none_iff_exists'.mp hsome
    obtain ⟨hend, -, -⟩ := h₃ page hpage
    omega
  rw [allocBits, ohMyAllocBits, scanBits_eq, scan_none hnone]
  refine List.mem_append_left _ (List.mem_append_left _ (List.mem_range'_1.mpr ⟨hlast, ?_⟩))
  omega

/-! ## What `init` touches -/

/-- The number behind the last page that `init` releases for an entry. -/
def MmapEntry.stop (e : MmapEntry) : ℕ := e.base / 0x1000 + (e.length + (0x1000 - 1)) / 0x1000

lemma forall_releaseBits {bound : ℕ} :
    (∀ i ∈ releaseBits mm, i < bound) ↔
      ∀ e ∈ mm, e.type = .usable → 0 < e.length → e.stop ≤ bound := by
  constructor
  · intro h e he hus hlen
    have hlast := h ((e.base + ((e.length + (0x1000 - 1)) / 0x1000 - 1) * 0x1000) / 0x1000) <| by
      refine List.mem_flatMap.mpr ⟨e, he, ?_⟩
      rw [if_neg (by simp [hus])]
      exact List.mem_map.mpr ⟨_, List.mem_range.mpr (by omega), rfl⟩
    rw [MmapEntry.stop]
    omega
  · intro h i hi
    obtain ⟨e, he, hi⟩ := List.mem_flatMap.mp hi
    split at hi
    · simp at hi
    · rename_i hus
      obtain ⟨k, hk, rfl⟩ := List.mem_map.mp hi
      have hk := List.mem_range.mp hk
      have hstop := h e he (not_not.mp hus) (by omega)
      rw [MmapEntry.stop] at hstop
      omega

/-- An entry that gave up its start still ends where it did. -/
lemma MmapEntry.shrink_stop {e : MmapEntry} {n : ℕ} (hn : 0x1000 ∣ n) (h : n ≤ e.length) :
    (e.shrink n).stop = e.stop := by
  rw [MmapEntry.stop, MmapEntry.stop, MmapEntry.shrink_base h, MmapEntry.shrink_length h]
  omega

/-- No usable entry ends later than in the page after the last one. -/
lemma stop_le {e : MmapEntry} (he : e ∈ mm) (hus : e.type = .usable) :
    e.stop ≤ highPage mm / 0x1000 + 1 ∧ (e.length = 0 → e.stop ≤ highPage mm / 0x1000) := by
  have htop := top_le_highPage he hus
  rw [MmapEntry.stop]
  constructor
  · omega
  · omega

/-- The bits that `init` touches are those of the entries as the boot loader gave them. -/
lemma forall_initBits {bound : ℕ} (hbound : highPage mm / 0x1000 ≤ bound)
    (hroom : ∃ e ∈ mm, e.type = .usable ∧ bitmapSize (highPage mm) ≤ e.length) :
    (∀ i ∈ initBits mm { mem := m }, i < bound) ↔ ∀ e ∈ mm, e.type = .usable → e.stop ≤ bound := by
  obtain ⟨⟨base, mm'⟩, hplace⟩ := place_isSome hroom
  obtain ⟨pre, e, post, hmm, hmm', hus, hlen, -⟩ := place_spec hplace
  have hsize := dvd_bitmapSize (highPage_lt mm)
  have hhigh : (survey { mem := m } mm).highPage = highPage mm :=
    survey_highPage (s := { mem := m }) (t := { mem := fun _ => 0 }) rfl mm
  have hbits : initBits mm { mem := m } = releaseBits mm' := by
    rw [initBits]
    simp only [Bool.false_eq_true, if_false, hhigh, hplace]
  have htype : (e.shrink (bitmapSize (highPage mm))).type = .usable := by
    rw [MmapEntry.shrink, dif_pos hlen]
    exact hus
  have hstop := MmapEntry.shrink_stop hsize hlen
  have hshrunk : (e.shrink (bitmapSize (highPage mm))).length = 0 → e.stop ≤ bound := by
    intro hzero
    have htop := top_le_highPage (by simp [hmm] : e ∈ mm) hus
    rw [MmapEntry.shrink_length hlen] at hzero
    rw [MmapEntry.stop]
    omega
  rw [hbits, forall_releaseBits]
  constructor
  · intro h e' he' hus'
    rcases Nat.eq_zero_or_pos e'.length with hzero | hpos
    · exact ((stop_le he' hus').2 hzero).trans hbound
    · have hcases : e' = e ∨ e' ∈ pre ∨ e' ∈ post := by
        rw [hmm, List.mem_append, List.mem_cons] at he'
        tauto
      rcases hcases with rfl | hother
      · -- the entry that holds the bitmap: what is left of it ends where it did
        rcases Nat.eq_zero_or_pos (e'.shrink (bitmapSize (highPage mm))).length with hz | hp
        · exact hshrunk hz
        · have hle := h _ (by simp [hmm']) htype hp
          rwa [hstop] at hle
      · refine h e' ?_ hus' hpos
        rw [hmm', List.mem_append, List.mem_cons]
        tauto
  · intro h e' he' hus' hpos
    rw [hmm', List.mem_append, List.mem_cons] at he'
    rcases he' with hpre | rfl | hpost
    · exact h e' (by simp [hmm, hpre]) hus'
    · rw [hstop]
      exact h e (by simp [hmm]) hus
    · exact h e' (by simp [hmm, hpost]) hus'

/-! ## Runs -/

/-- What every state of a run has in common. -/
structure Booted (high : ℕ) (s : Phys) : Prop where
  highPage_eq : s.highPage = high
  last_le : s.last ≤ high / 0x1000

variable {high : ℕ}

lemma Booted.alloc {p : ℕ} (h : Booted high s) (hs : alloc count s = some (p, s')) :
    Booted high s' := by
  have hlast := h.last_le
  rw [← h.highPage_eq] at hlast
  have hlock : s.mmLock = false := by
    by_contra hlock
    rw [PMemory.alloc, if_pos (by simpa using hlock)] at hs
    simp at hs
  rw [alloc_eq hlock] at hs
  obtain ⟨hsearch, hle⟩ := search_fixed count (s := { s with mmLock := true }) hlast
  obtain ⟨-, rfl⟩ := Prod.mk.inj (Option.some.inj hs)
  rw [hsearch]
  exact ⟨h.highPage_eq, by rw [← h.highPage_eq]; exact hle⟩

lemma Booted.free {ptr : ℕ} (h : Booted high s) (hs : free ptr count s = some s') :
    Booted high s' := by
  by_cases hptr : ptr = 0
  · rw [PMemory.free, if_pos hptr] at hs
    rw [← Option.some.inj hs]
    exact h
  · obtain ⟨-, rfl⟩ := free_eq hs hptr
    have hlast := h.last_le
    exact ⟨h.highPage_eq, by dsimp only; omega⟩

lemma Booted.act {a : Action} (h : Booted high s) (hs : act a s = some s') : Booted high s' := by
  cases a with
  | alloc count =>
    obtain ⟨⟨p, s₁⟩, halloc, rfl⟩ := Option.map_eq_some_iff.mp hs
    exact h.alloc halloc
  | free ptr count => exact h.free hs
  | realloc ptr oldSize newSize =>
    obtain ⟨⟨p, s₁⟩, hrealloc, rfl⟩ := Option.map_eq_some_iff.mp hs
    by_cases hptr : ptr = 0
    · rw [PMemory.realloc, if_pos hptr] at hrealloc
      exact h.alloc hrealloc
    · by_cases hnew : newSize = 0
      · rw [PMemory.realloc, if_neg hptr, if_pos hnew] at hrealloc
        obtain ⟨s₂, hfree, heq⟩ := Option.map_eq_some_iff.mp hrealloc
        obtain ⟨-, rfl⟩ := Prod.mk.inj heq
        exact h.free hfree
      · obtain ⟨s₂, halloc, hfree⟩ := realloc_some hptr hnew hrealloc
        have h₂ : Booted high s₂ := by
          refine Booted.alloc ?_ halloc
          exact ⟨h.highPage_eq, h.last_le⟩
        refine Booted.free ?_ hfree
        exact ⟨h₂.highPage_eq, h₂.last_le⟩
  | write x b =>
    rw [← Option.some.inj hs]
    exact ⟨h.highPage_eq, h.last_le⟩

lemma init_booted (mm : List MmapEntry) (m : Mem) :
    Booted (highPage mm) (init mm { mem := m }) ∧ (init mm { mem := m }).last = 0 := by
  have hhigh : (survey { mem := m } mm).highPage = highPage mm :=
    survey_highPage (s := { mem := m }) (t := { mem := fun _ => 0 }) rfl mm
  have hlast : (survey { mem := m } mm).last = 0 := by rw [survey_eq]
  rw [init, if_neg (by simp)]
  dsimp only
  split
  · exact ⟨⟨hhigh, by simp [hlast]⟩, hlast⟩
  · exact ⟨⟨hhigh, by simp [hlast]⟩, hlast⟩

/-! ## Which memory maps fit -/

lemma fits_iff : Fits mm ↔ highPage mm / 0x1000 ≤ 8 * bitmapSize (highPage mm) ∧
    ∀ e ∈ mm, e.type = .usable → e.stop ≤ 8 * bitmapSize (highPage mm) := by
  have hhigh := highPage_lt mm
  have hsize : bitmapSize (highPage mm) =
      (highPage mm / 0x1000 / 8 + (0x1000 - 1)) / 0x1000 * 0x1000 := by
    rw [bitmapSize, alignUp_eq (by norm_num) (by omega)]
  rw [Fits]
  constructor
  · rintro ⟨hpages, hentries⟩
    refine ⟨by omega, fun e he hus => ?_⟩
    have hstop := (stop_le he hus).1
    rcases hpages with hzero | hmore
    · have hle := hentries hzero e he hus
      rw [MmapEntry.stop]
      omega
    · omega
  · rintro ⟨hpages, hentries⟩
    refine ⟨by omega, fun hzero e he hus => ?_⟩
    have hstop := hentries e he hus
    rw [MmapEntry.stop] at hstop
    omega

/-- **The bitmap covers all pages exactly if the memory map fits.**  Provided some usable entry
has room for the bitmap, every bit that `init` and later calls of `alloc` touch lies in a byte
of it exactly if the number of pages is not one to seven above a multiple of `0x8000` and, where
it is such a multiple, no usable entry reaches beyond the last page. -/
theorem inside_iff (m : Mem)
    (hroom : ∃ e ∈ mm, e.type = .usable ∧ bitmapSize (highPage mm) ≤ e.length) :
    Inside mm m ↔ Fits mm := by
  have hbyte : ∀ i, i / 8 < bitmapSize (highPage mm) ↔ i < 8 * bitmapSize (highPage mm) := by
    intro i
    omega
  obtain ⟨hbooted, hlast⟩ := init_booted mm m
  rw [fits_iff, Inside]
  simp only [hbyte]
  constructor
  · rintro ⟨hinit, halloc⟩
    have hpages : highPage mm / 0x1000 ≤ 8 * bitmapSize (highPage mm) := by
      by_contra hmore
      -- a request for more pages than there are reads the bit of the last page
      have hmem : highPage mm / 0x1000 - 1 ∈
          allocBits (highPage mm / 0x1000 + 1) (init mm { mem := m }) :=
        mem_allocBits (by rw [hbooted.highPage_eq]; omega) (by rw [hlast]; omega)
          (by rw [hbooted.highPage_eq]; omega)
      have hlt := halloc [] _ _ rfl _ hmem
      omega
    exact ⟨hpages, (forall_initBits hpages hroom).mp hinit⟩
  · rintro ⟨hpages, hentries⟩
    refine ⟨(forall_initBits hpages hroom).mpr hentries, fun actions s count hr i hi => ?_⟩
    have hs : Booted (highPage mm) s := exec_inv (fun _ _ _ h hs => h.act hs) hbooted hr
    have hlt := allocBits_lt (by rw [hs.highPage_eq]; exact hs.last_le) hi
    rw [hs.highPage_eq] at hlt
    omega

/-- The small machine has nine pages, and a page of bitmap has room for them. -/
theorem inside_smallMap : Inside smallMap fun _ => 0 := by
  have hfits : Fits smallMap := by
    have hhigh : highPage smallMap = 0x9000 := by decide
    rw [Fits, hhigh]
    exact ⟨.inr (by norm_num), fun hzero => absurd hzero (by norm_num)⟩
  exact (inside_iff _ smallMap_bootable.room).mpr hfits

/-- A machine with one usable entry that ends with page `0x8000`. -/
def wideMap : List MmapEntry := [⟨0x100000, 0x7f01000, .usable, by norm_num⟩]

/-- The bitmap of this machine has one page, and a request for all pages reads the bit behind
it. -/
theorem inside_fails :
    (∃ e ∈ wideMap, e.type = .usable ∧ bitmapSize (highPage wideMap) ≤ e.length) ∧
      ∃ count, ∃ i ∈ allocBits count (init wideMap { mem := fun _ => 0 }),
        bitmapSize (highPage wideMap) ≤ i / 8 := by
  have hhigh : highPage wideMap = 0x8001000 := by decide
  have hsize : bitmapSize (highPage wideMap) = 0x1000 := by
    rw [hhigh]
    decide
  obtain ⟨hbooted, hlast⟩ := init_booted wideMap fun _ => 0
  refine ⟨⟨_, List.mem_singleton.mpr rfl, rfl, by rw [hsize]; norm_num⟩, 0x8002, 0x8000, ?_, ?_⟩
  · refine mem_allocBits ?_ ?_ ?_
    · rw [hbooted.highPage_eq, hhigh]
      norm_num
    · rw [hlast]
      norm_num
    · rw [hbooted.highPage_eq, hhigh]
      norm_num
  · rw [hsize]

end TurbOS.PMemory
