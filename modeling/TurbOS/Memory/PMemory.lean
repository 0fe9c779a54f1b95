import TurbOS.Memory.Bitmap
import TurbOS.Memory.Math

/-!
# The physical page allocator

`pMemory` hands out runs of physical pages.  Its static variables and the memory they
describe form one state, `Phys`: the bitmap lies in the same memory as the pages it
accounts for, so that writing a page could in principle damage the bitmap.

A function that takes `mmLock` returns `none` when the lock is already held, since
`lock_t::lock` then spins forever.  A null pointer is `0`; page `0` therefore cannot be
told from a failed search, exactly as in the source.

After the definitions there is one lemma per function that says all it can do:
`ohMyAlloc_cases`, `alloc_cases`, `free_eq`, `realloc_cases`.
-/

open ByteMemory

namespace TurbOS

/-- `memset`: `rep stosb`. -/
def memset (m : Mem) (dest : ℕ) (ch : UInt8) (n : ℕ) : Mem := fill m dest ch n

/-- `memcpy`: `rep movsb`. -/
def memcpy (m : Mem) (dest src n : ℕ) : Mem := copy m dest src n

/-- Physical memory and the static variables of `pMemory`. -/
structure Phys where
  /-- The contents of physical memory. -/
  mem : Mem
  /-- `bitmap.buffer`. -/
  buffer : ℕ := 0
  /-- `isInit`. -/
  isInit : Bool := false
  /-- The end of the highest usable range. -/
  highPage : ℕ := 0
  /-- The page at which the next search starts. -/
  last : ℕ := 0
  /-- `usedRam`. -/
  usedRam : ℕ := 0
  /-- `freeRam`. -/
  freeRam : ℕ := 0
  /-- Whether `mmLock` is held. -/
  mmLock : Bool := false

namespace PMemory

/-! ## Allocating -/

/-- The loop of `ohMyAlloc`, with the number of rounds until `last` reaches the limit:
it returns the first page of a run of `count` free pages, if it meets one, and the new
value of `last`.  `p` is the length of the free run that ends before `last`. -/
def scan (m : Mem) (buffer count : ℕ) : ℕ → ℕ → ℕ → Option ℕ × ℕ
  | 0, _, last => (none, last)
  | n + 1, p, last =>
    if Bitmap.get m buffer last = false then
      if p + 1 = count then (some (last + 1 - count), last + 1)
      else scan m buffer count n (p + 1) (last + 1)
    else scan m buffer count n 0 (last + 1)

/-- `ohMyAlloc`: search from `last` up to `limit` and mark the run that is found. -/
def ohMyAlloc (count limit : ℕ) (s : Phys) : ℕ × Phys :=
  match scan s.mem s.buffer count (limit - s.last) 0 s.last with
  | (none, last) => (0, { s with last := last })
  | (some page, last) =>
    (page * 0x1000,
      { s with mem := Bitmap.setRange s.mem s.buffer page true (last - page), last := last })

/-- The two searches of `alloc`: from `last` to the end of memory and, if that gives a
null pointer, from the start up to where the first search began. -/
def search (count : ℕ) (s : Phys) : ℕ × Phys :=
  let tmp := s.last
  let first := ohMyAlloc count (s.highPage / 0x1000) s
  if first.1 = 0 then ohMyAlloc count tmp { first.2 with last := 0 } else first

/-- `alloc`. -/
def alloc (count : ℕ) (s : Phys) : Option (ℕ × Phys) :=
  if s.mmLock then none
  else
    let found := search count { s with mmLock := true }
    let ret := found.1
    let s := found.2
    some (ret, { s with
      mem := memset s.mem ret 0 (Word64.mul count 0x1000)
      usedRam := Word64.add s.usedRam (Word64.mul count 0x1000)
      freeRam := Word64.sub s.freeRam (Word64.mul count 0x1000)
      mmLock := false })

/-! ## Releasing and moving -/

/-- `free`. -/
def free (ptr count : ℕ) (s : Phys) : Option Phys :=
  if ptr = 0 then some s
  else if s.mmLock then none
  else
    let page := ptr / 0x1000
    some { s with
      mem := Bitmap.setRange s.mem s.buffer page false count
      last := if page < s.last then page else s.last
      usedRam := Word64.sub s.usedRam (Word64.mul count 0x1000)
      freeRam := Word64.add s.freeRam (Word64.mul count 0x1000) }

/-- `realloc`.  The copy has `oldSize` bytes although `oldSize` counts pages, and only
one page of the old extent is released, the default of `free`. -/
def realloc (ptr oldSize newSize : ℕ) (s : Phys) : Option (ℕ × Phys) :=
  if ptr = 0 then alloc newSize s
  else if newSize = 0 then (free ptr oldSize s).map fun s => (0, s)
  else
    let s := { s with
      usedRam := Word64.add (Word64.sub s.usedRam (Word64.mul oldSize 0x1000))
        (Word64.mul newSize 0x1000)
      freeRam := Word64.sub (Word64.add s.freeRam (Word64.mul oldSize 0x1000))
        (Word64.mul newSize 0x1000) }
    let oldSize := if newSize < oldSize then newSize else oldSize
    (alloc newSize s).bind fun r =>
      (free ptr 1 { r.2 with mem := memcpy r.2.mem r.1 ptr oldSize }).map fun s => (r.1, s)

/-! ## Starting up -/

/-- The types of a memory map entry. -/
inductive MmapType where
  | usable | reserved | acpiReclaimable | acpiNvs | badMemory
  | bootloaderReclaimable | kernelAndModules | framebuffer
deriving DecidableEq, Repr

/-- An entry of the memory map: a range of the physical address space. -/
structure MmapEntry where
  base : ℕ
  length : ℕ
  type : MmapType
  top_lt : base + length < 2 ^ 64

/-- The first loop of `init`: the sum of the usable lengths and the highest top. -/
def survey (s : Phys) (mm : List MmapEntry) : Phys :=
  mm.foldl (fun s e =>
    if e.type ≠ .usable then s
    else { s with
      freeRam := Word64.add s.freeRam e.length
      highPage := if s.highPage < e.base + e.length then e.base + e.length else s.highPage }) s

/-- The size of the bitmap in bytes. -/
def bitmapSize (highPage : ℕ) : ℕ := alignUp (highPage / 0x1000 / 8) 0x1000

/-- The entry that is left when its first `n` bytes are taken away. -/
def MmapEntry.shrink (e : MmapEntry) (n : ℕ) : MmapEntry :=
  if h : n ≤ e.length then
    { e with base := e.base + n, length := e.length - n, top_lt := by have := e.top_lt; omega }
  else e

/-- The second loop of `init`: the first usable entry with room for the bitmap gives its
first `size` bytes to it.  The result is the address of the buffer and the new map. -/
def place (size : ℕ) : List MmapEntry → Option (ℕ × List MmapEntry)
  | [] => none
  | e :: mm =>
    if e.type = .usable ∧ size ≤ e.length then some (e.base, e.shrink size :: mm)
    else (place size mm).map fun r => (r.1, e :: r.2)

/-- The third loop of `init`: every page of a usable entry is marked free.  The page of
round `k` is `(base + k * 0x1000) / 0x1000`. -/
def release (m : Mem) (buffer : ℕ) (mm : List MmapEntry) : Mem :=
  mm.foldl (fun m e =>
    if e.type ≠ .usable then m
    else Bitmap.setRange m buffer (e.base / 0x1000) false ((e.length + (0x1000 - 1)) / 0x1000)) m

/-- `init`. -/
def init (mm : List MmapEntry) (s : Phys) : Phys :=
  if s.isInit then s
  else
    let s := survey s mm
    let size := bitmapSize s.highPage
    match place size mm with
    | none => { s with mem := release s.mem s.buffer mm, isInit := true }
    | some (base, mm) =>
      { s with
        mem := release (memset s.mem base 0xFF size) base mm
        buffer := base
        freeRam := Word64.sub s.freeRam size
        isInit := true }

/-! ## What a search can do -/

/-- A search only moves forward, by at most its number of rounds, and a run it finds is
free and ends where the search stopped. -/
lemma scan_spec (m : Mem) (buffer count n p last : ℕ) (hp : p ≤ last)
    (hclear : ∀ i, last - p ≤ i → i < last → Bitmap.get m buffer i = false) :
    last ≤ (scan m buffer count n p last).2 ∧ (scan m buffer count n p last).2 ≤ last + n ∧
      ∀ page, (scan m buffer count n p last).1 = some page →
        page + count = (scan m buffer count n p last).2 ∧ last - p ≤ page ∧
          ∀ i, page ≤ i → i < page + count → Bitmap.get m buffer i = false := by
  induction n generalizing p last with
  | zero => simp [scan]
  | succ n ih =>
    rw [scan]
    split
    · rename_i hfree
      have hrun : ∀ i, last - p ≤ i → i < last + 1 → Bitmap.get m buffer i = false := by
        intro i h₁ h₂
        by_cases hi : i = last
        · exact hi ▸ hfree
        · exact hclear i h₁ (by omega)
      split
      · rename_i hcount
        refine ⟨by omega, by omega, ?_⟩
        intro page hpage
        have hpage' : last + 1 - count = page := Option.some.inj hpage
        refine ⟨by dsimp only; omega, by omega, fun i h₁ h₂ => hrun i (by omega) (by omega)⟩
      · obtain ⟨h₁, h₂, h₃⟩ := ih (p + 1) (last + 1) (by omega)
          fun i h₁ h₂ => hrun i (by omega) h₂
        refine ⟨by omega, by omega, fun page hpage => ?_⟩
        obtain ⟨h₄, h₅, h₆⟩ := h₃ page hpage
        exact ⟨h₄, by omega, h₆⟩
    · obtain ⟨h₁, h₂, h₃⟩ := ih 0 (last + 1) (by omega) fun i h₁ h₂ => by omega
      refine ⟨by omega, by omega, fun page hpage => ?_⟩
      obtain ⟨h₄, h₅, h₆⟩ := h₃ page hpage
      exact ⟨h₄, by omega, h₆⟩

/-- A run of no pages is never found: the counter is compared after it was raised. -/
lemma scan_zero (m : Mem) (buffer n p last : ℕ) : (scan m buffer 0 n p last).1 = none := by
  induction n generalizing p last with
  | zero => rfl
  | succ n ih =>
    rw [scan]
    split
    · rw [if_neg (by omega)]
      exact ih _ _
    · exact ih _ _

/-- `ohMyAlloc` finds nothing and only moves `last`, or it finds a free run between
`last` and the limit and marks it. -/
lemma ohMyAlloc_cases (count limit : ℕ) (s : Phys) :
    (∃ l, s.last ≤ l ∧ l ≤ max s.last limit ∧ ohMyAlloc count limit s = (0, { s with last := l })) ∨
      (∃ page, s.last ≤ page ∧ page + count ≤ max s.last limit ∧
        (∀ i, page ≤ i → i < page + count → Bitmap.get s.mem s.buffer i = false) ∧
        ohMyAlloc count limit s = (page * 0x1000,
          { s with
            mem := Bitmap.setRange s.mem s.buffer page true count
            last := page + count })) := by
  obtain ⟨h₁, h₂, h₃⟩ := scan_spec s.mem s.buffer count (limit - s.last) 0 s.last (by omega)
    fun i h₁ h₂ => by omega
  rcases hscan : scan s.mem s.buffer count (limit - s.last) 0 s.last with ⟨_ | page, l⟩
  · rw [hscan] at h₁ h₂
    left
    exact ⟨l, h₁, by dsimp only at h₂; omega, by rw [ohMyAlloc, hscan]⟩
  · rw [hscan] at h₁ h₂ h₃
    obtain ⟨h₄, h₅, h₆⟩ := h₃ page rfl
    dsimp only at h₁ h₂ h₄
    right
    refine ⟨page, by omega, by omega, h₆, ?_⟩
    rw [ohMyAlloc, hscan, ← h₄]
    simp

/-- A search that ends with a non-null pointer found a free run below the end of memory
and marked it; nothing else changed but `last`. -/
lemma search_cases {count : ℕ} {s s' : Phys} {p : ℕ} (h : search count s = (p, s'))
    (hp : p ≠ 0) (hlast : s.last ≤ s.highPage / 0x1000) :
    ∃ page, p = page * 0x1000 ∧ page + count ≤ s.highPage / 0x1000 ∧
      (∀ i, page ≤ i → i < page + count → Bitmap.get s.mem s.buffer i = false) ∧
      s' = { s with
        mem := Bitmap.setRange s.mem s.buffer page true count
        last := page + count } := by
  rw [search] at h
  rcases ohMyAlloc_cases count (s.highPage / 0x1000) s with
    ⟨l, hl₁, hl₂, hfirst⟩ | ⟨page, hpg₁, hpg₂, hclear, hfirst⟩
  · -- the first search fails: the result comes from the second one
    simp only [hfirst, if_true] at h
    rcases ohMyAlloc_cases count s.last { s with last := 0 } with
      ⟨l', -, -, hsecond⟩ | ⟨page, -, hpg₂, hclear, hsecond⟩
    · rw [hsecond] at h
      exact absurd (congrArg Prod.fst h).symm hp
    · rw [hsecond] at h
      have hmax : max 0 s.last = s.last := by omega
      simp only [hmax] at hpg₂
      exact ⟨page, (congrArg Prod.fst h).symm, by omega, hclear, (congrArg Prod.snd h).symm⟩
  · by_cases hzero : page * 0x1000 = 0
    · -- page `0` looks like a failure, and then `last` was `0`: the second search is empty
      have hlast0 : s.last = 0 := by omega
      simp only [hfirst, hzero, if_true, hlast0] at h
      rw [ohMyAlloc] at h
      simp only [Nat.sub_self, scan] at h
      exact absurd (congrArg Prod.fst h).symm hp
    · simp only [hfirst, if_neg hzero] at h
      have hmax : max s.last (s.highPage / 0x1000) = s.highPage / 0x1000 := by omega
      rw [hmax] at hpg₂
      exact ⟨page, (congrArg Prod.fst h).symm, hpg₂, hclear, (congrArg Prod.snd h).symm⟩

lemma alloc_cases {count : ℕ} {s s' : Phys} {p : ℕ} (h : alloc count s = some (p, s'))
    (hp : p ≠ 0) (hlast : s.last ≤ s.highPage / 0x1000) :
    s.mmLock = false ∧ ∃ page, p = page * 0x1000 ∧ page + count ≤ s.highPage / 0x1000 ∧
      (∀ i, page ≤ i → i < page + count → Bitmap.get s.mem s.buffer i = false) ∧
      s' = { s with
        mem := memset (Bitmap.setRange s.mem s.buffer page true count) p 0 (Word64.mul count 0x1000)
        last := page + count
        usedRam := Word64.add s.usedRam (Word64.mul count 0x1000)
        freeRam := Word64.sub s.freeRam (Word64.mul count 0x1000) } := by
  rw [alloc] at h
  cases hlock : s.mmLock with
  | true => simp [hlock] at h
  | false =>
    refine ⟨rfl, ?_⟩
    rcases hsearch : search count { s with mmLock := true } with ⟨ret, found⟩
    simp only [hlock, hsearch, Bool.false_eq_true, if_false, Option.some.injEq,
      Prod.mk.injEq] at h
    obtain ⟨rfl, rfl⟩ := h
    obtain ⟨page, hpage, hle, hclear, rfl⟩ := search_cases hsearch hp hlast
    exact ⟨page, hpage, hle, hclear, by simp only⟩

/-! ## When a search succeeds at once -/

lemma scan_skip {m : Mem} {buffer count d n last : ℕ}
    (h : ∀ i, last ≤ i → i < last + d → Bitmap.get m buffer i = true) :
    scan m buffer count (d + n) 0 last = scan m buffer count n 0 (last + d) := by
  induction d generalizing last with
  | zero => simp
  | succ d ih =>
    rw [Nat.add_right_comm, scan, if_neg (by simp [h last le_rfl (by omega)]),
      ih fun i h₁ h₂ => h i (by omega) (by omega)]
    congr 1
    omega

lemma scan_run {m : Mem} {buffer j n p last : ℕ}
    (h : ∀ i, last ≤ i → i < last + (j + 1) → Bitmap.get m buffer i = false) :
    scan m buffer (p + (j + 1)) (j + 1 + n) p last =
      (some (last + (j + 1) - (p + (j + 1))), last + (j + 1)) := by
  induction j generalizing p last with
  | zero =>
    rw [Nat.add_comm (0 + 1) n, scan, if_pos (h last le_rfl (by omega)), if_pos (by omega)]
  | succ j ih =>
    have hcount : p + (j + 1 + 1) = p + 1 + (j + 1) := by omega
    have hend : last + 1 + (j + 1) = last + (j + 1 + 1) := by omega
    rw [Nat.add_right_comm (j + 1) 1 n, scan, if_pos (h last le_rfl (by omega)), if_neg (by omega),
      hcount, ih fun i h₁ h₂ => h i (by omega) (by omega), hend]

/-- `alloc` takes the first long enough run from `last` on, if only pages in use precede
it. -/
lemma alloc_found {s : Phys} {page count : ℕ} (hlock : s.mmLock = false) (hlast : s.last ≤ page)
    (hpage : page ≠ 0) (hcount : 1 ≤ count) (hle : page + count ≤ s.highPage / 0x1000)
    (hset : ∀ i, s.last ≤ i → i < page → Bitmap.get s.mem s.buffer i = true)
    (hclear : ∀ i, page ≤ i → i < page + count → Bitmap.get s.mem s.buffer i = false) :
    alloc count s = some (page * 0x1000, { s with
      mem := memset (Bitmap.setRange s.mem s.buffer page true count) (page * 0x1000) 0
        (Word64.mul count 0x1000)
      last := page + count
      usedRam := Word64.add s.usedRam (Word64.mul count 0x1000)
      freeRam := Word64.sub s.freeRam (Word64.mul count 0x1000) }) := by
  have hscan : scan s.mem s.buffer count (s.highPage / 0x1000 - s.last) 0 s.last =
      (some page, page + count) := by
    obtain ⟨d, rfl⟩ : ∃ d, page = s.last + d := ⟨page - s.last, by omega⟩
    obtain ⟨j, rfl⟩ : ∃ j, count = j + 1 := ⟨count - 1, by omega⟩
    obtain ⟨r, hr⟩ : ∃ r, s.highPage / 0x1000 - s.last = d + (j + 1 + r) :=
      ⟨s.highPage / 0x1000 - s.last - d - (j + 1), by omega⟩
    have hrun := scan_run (p := 0) (n := r) hclear
    rw [Nat.zero_add] at hrun
    rw [hr, scan_skip hset, hrun]
    congr 2
    omega
  rw [alloc, hlock, search]
  simp only [Bool.false_eq_true, if_false, ohMyAlloc, hscan, Nat.add_sub_cancel_left]
  rw [if_neg (by omega)]

lemma realloc_found {s : Phys} {ptr oldSize page count : ℕ} (hptr : ptr ≠ 0)
    (hlock : s.mmLock = false) (hlast : s.last ≤ page) (hpage : page ≠ 0) (hcount : 1 ≤ count)
    (hle : page + count ≤ s.highPage / 0x1000)
    (hset : ∀ i, s.last ≤ i → i < page → Bitmap.get s.mem s.buffer i = true)
    (hclear : ∀ i, page ≤ i → i < page + count → Bitmap.get s.mem s.buffer i = false) :
    ∃ s', realloc ptr oldSize count s = some (page * 0x1000, s') := by
  rw [realloc, if_neg hptr, if_neg (by omega)]
  dsimp only
  have halloc := alloc_found (s := { s with
    usedRam := Word64.add (Word64.sub s.usedRam (Word64.mul oldSize 0x1000))
      (Word64.mul count 0x1000)
    freeRam := Word64.sub (Word64.add s.freeRam (Word64.mul oldSize 0x1000))
      (Word64.mul count 0x1000) })
    hlock hlast hpage hcount hle hset hclear
  rw [halloc, Option.bind_some, free, if_neg hptr, if_neg (by simp [hlock])]
  exact ⟨_, rfl⟩

lemma alloc_zero {s s' : Phys} {p : ℕ} (h : alloc 0 s = some (p, s')) : p = 0 := by
  have hohMyAlloc : ∀ limit (s : Phys), (ohMyAlloc 0 limit s).1 = 0 := by
    intro limit s
    have hscan := scan_zero s.mem s.buffer (limit - s.last) 0 s.last
    rw [ohMyAlloc]
    split
    · rfl
    · rename_i heq
      rw [heq] at hscan
      exact absurd hscan (by simp)
  rw [alloc] at h
  split at h
  · exact absurd h (by simp)
  · rw [← (Prod.mk.inj (Option.some.inj h)).1, search]
    simp only [hohMyAlloc, if_true]

lemma realloc_zero {ptr oldSize q : ℕ} {s s' : Phys} (h : realloc ptr oldSize 0 s = some (q, s')) :
    q = 0 := by
  rw [realloc] at h
  split at h
  · exact alloc_zero h
  · rw [if_pos rfl] at h
    obtain ⟨s₁, -, heq⟩ := Option.map_eq_some_iff.mp h
    exact (Prod.mk.inj heq).1.symm

/-- A `realloc` that moves an extent allocates, copies and releases one page. -/
lemma realloc_some {ptr oldSize newSize q : ℕ} {s s' : Phys} (hptr : ptr ≠ 0) (hnew : newSize ≠ 0)
    (h : realloc ptr oldSize newSize s = some (q, s')) :
    ∃ s₁, alloc newSize { s with
        usedRam := Word64.add (Word64.sub s.usedRam (Word64.mul oldSize 0x1000))
          (Word64.mul newSize 0x1000)
        freeRam := Word64.sub (Word64.add s.freeRam (Word64.mul oldSize 0x1000))
          (Word64.mul newSize 0x1000) } = some (q, s₁) ∧
      free ptr 1 { s₁ with
        mem := memcpy s₁.mem q ptr (if newSize < oldSize then newSize else oldSize) } =
        some s' := by
  rw [realloc, if_neg hptr, if_neg hnew] at h
  obtain ⟨⟨q', s₁⟩, halloc, h⟩ := Option.bind_eq_some_iff.mp h
  obtain ⟨s₂, hfree, heq⟩ := Option.map_eq_some_iff.mp h
  obtain ⟨rfl, rfl⟩ := Prod.mk.inj heq
  exact ⟨s₁, halloc, hfree⟩

lemma free_eq {ptr count : ℕ} {s s' : Phys} (h : free ptr count s = some s') (hptr : ptr ≠ 0) :
    s.mmLock = false ∧ s' = { s with
      mem := Bitmap.setRange s.mem s.buffer (ptr / 0x1000) false count
      last := min (ptr / 0x1000) s.last
      usedRam := Word64.sub s.usedRam (Word64.mul count 0x1000)
      freeRam := Word64.add s.freeRam (Word64.mul count 0x1000) } := by
  rw [free, if_neg hptr] at h
  cases hlock : s.mmLock with
  | true => simp [hlock] at h
  | false =>
    have hmin : (if ptr / 0x1000 < s.last then ptr / 0x1000 else s.last) = min (ptr / 0x1000)
        s.last := by
      split <;> omega
    simp only [hlock, Bool.false_eq_true, if_false, hmin, Option.some.injEq] at h
    exact ⟨rfl, h.symm⟩

end PMemory

end TurbOS
