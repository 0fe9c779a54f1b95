import TurbOS.Heap.Arena
import TurbOS.Heap.Rounding

/-!
# The operations of the heap

For each operation there is a lemma that lists what it can do when it returns
(`expand_cases`, `malloc_cases`, `free_cases`), and one that says how it changes the live
allocations.

`expand` lays out a new arena as one free block, so it is in order only if nothing was
live before; all lemmas about calls that may expand carry that condition.
-/

open ByteMemory Tiling Fuel

namespace TurbOS.Heap

variable {g : PMemory.Geometry} {others : List PMemory.Extent} {k k' : Kernel}
  {bs : List Block} {live : List Alloc} {al : Alloc} {fuel n p : ℕ}

/-! ## Growing -/

/-- The state after a successful `expand`: the pages from `q` on are one free block. -/
def laidOut (k : Kernel) (size q : ℕ) (s : Phys) : Kernel where
  phys := { s with mem := setFree (setSize s.mem q size) q true }
  heap := { k.heap with
    data := q
    head := q
    tail := next (setFree (setSize s.mem q size) q true) q
    pages := size / 0x1000
    lock := false
    expansions := k.heap.expansions + 1 }

lemma acquire_eq (h : acquire k = some k') :
    k.heap.lock = false ∧ k' = { k with heap := { k.heap with lock := true } } := by
  rw [acquire] at h
  split at h
  · exact absurd h (by simp)
  · rename_i hlock
    exact ⟨by simpa using hlock, (Option.some.inj h).symm⟩

/-- `expand` returns with the lock held, or with a new arena of the size that it has computed. -/
lemma expand_sized (h : expand fuel n k = some k') :
    k'.heap.expansions = k.heap.expansions + 1 ∧
      (k'.heap.lock = true ∨ n ≠ 0 ∧ ∃ size q s,
        alignUp2 fuel 0x1000 (Word64.mul (Word64.add n k.heap.pages) 0x1000) = some size ∧ q ≠ 0 ∧
        PMemory.realloc k.heap.data k.heap.pages (size / 0x1000) k.phys = some (q, s) ∧
        k' = laidOut k size q s) := by
  obtain ⟨k₁, hk₁, h⟩ := Option.bind_eq_some_iff.mp h
  obtain ⟨-, rfl⟩ := acquire_eq hk₁
  dsimp only at h
  split at h
  · obtain rfl := Option.some.inj h
    exact ⟨rfl, .inl rfl⟩
  rename_i hn
  obtain ⟨size, hsize, h⟩ := Option.bind_eq_some_iff.mp h
  rw [if_neg (by simp [(alignUp2_post hsize).2])] at h
  obtain ⟨⟨q, s⟩, hrealloc, h⟩ := Option.bind_eq_some_iff.mp h
  split at h
  · obtain rfl := Option.some.inj h
    exact ⟨rfl, .inl rfl⟩
  · rename_i hq
    obtain rfl := Option.some.inj h
    exact ⟨rfl, .inr ⟨hn, size, q, s, hsize, hq, hrealloc, rfl⟩⟩

lemma expand_cases (h : expand fuel n k = some k') :
    k'.heap.expansions = k.heap.expansions + 1 ∧
      (k'.heap.lock = true ∨ ∃ size q s, size % 0x1000 = 0 ∧ powerOf2 size = true ∧ q ≠ 0 ∧
        PMemory.realloc k.heap.data k.heap.pages (size / 0x1000) k.phys = some (q, s) ∧
        k' = laidOut k size q s) := by
  obtain ⟨hexp, hheld | ⟨-, size, q, s, hsize, hq, hrealloc, hk'⟩⟩ := expand_sized h
  · exact ⟨hexp, .inl hheld⟩
  · obtain ⟨hmod, hpow⟩ := alignUp2_post hsize
    exact ⟨hexp, .inr ⟨size, q, s, hmod, hpow, hq, hrealloc, hk'⟩⟩

lemma expand_eq {size q : ℕ} {s : Phys} (hlock : k.heap.lock = false) (hn : n ≠ 0)
    (hsize : alignUp2 fuel 0x1000 (Word64.mul (Word64.add n k.heap.pages) 0x1000) = some size)
    (hrealloc : PMemory.realloc k.heap.data k.heap.pages (size / 0x1000) k.phys = some (q, s))
    (hq : q ≠ 0) : expand fuel n k = some (laidOut k size q s) := by
  simp only [expand, acquire, hlock, Bool.false_eq_true, if_false, Option.bind_some, if_neg hn,
    hsize, (alignUp2_post hsize).2, hrealloc, if_neg hq, laidOut]
  simp

/-- The page allocator after a successful `expand`: the new arena is an extent, and it
does not meet the old one. -/
lemma Sound.realloc_pages (hk : Sound g others k bs live) {new q : ℕ} {s : Phys} (hq : q ≠ 0)
    (h : PMemory.realloc k.heap.data k.heap.pages new k.phys = some (q, s)) :
    PMemory.Inv g s (⟨q, new⟩ :: others) ∧
      (k.heap.data ≠ 0 → PMemory.Extent.Apart ⟨q, new⟩ ⟨k.heap.data, k.heap.pages⟩) := by
  have hpages := hk.pages
  have hnew : new ≠ 0 := by
    rintro rfl
    exact hq (PMemory.realloc_zero h)
  by_cases hdata : k.heap.data = 0
  · rw [PMemory.realloc, if_pos hdata] at h
    rw [arena, if_pos hdata, List.nil_append] at hpages
    exact ⟨hpages.alloc (by omega) h hq, fun hne => absurd hdata hne⟩
  · rw [arena, if_neg hdata, List.singleton_append] at hpages
    obtain ⟨hinv, hapart⟩ := hpages.realloc (e := ⟨k.heap.data, k.heap.pages⟩) hnew h hq
    exact ⟨hinv, fun _ => hapart⟩

/-- The new arena is in order, with no allocations. -/
lemma laidOut_sound {size q : ℕ} {s : Phys} (hmod : size % 0x1000 = 0)
    (hpow : powerOf2 size = true) (h : PMemory.Inv g s (⟨q, size / 0x1000⟩ :: others)) :
    Sound g others (laidOut k size q s) [⟨size, true⟩] [] ∧
      (laidOut k size q s).heap.tail = q + size := by
  have hal := h.aligned _ List.mem_cons_self
  obtain ⟨hq, hcount⟩ := h.nonempty _ List.mem_cons_self
  have hbelow := h.below _ List.mem_cons_self
  have hlt := g.pages_lt
  dsimp only [PMemory.Extent.first] at hal hq hcount hbelow
  obtain ⟨j, hj⟩ := exists_pow_of_powerOf2 (v := size) (by omega) (by omega) hpow
  have hsize : blockSize (setFree (setSize s.mem q size) q true) q = size := by
    rw [blockSize_setFree, blockSize_setSize (by omega)]
  have htail : (laidOut k size q s).heap.tail = q + size := by
    simp only [laidOut, next, hsize]
  have h5 : 5 ≤ j := by
    by_contra hlt5
    have : 2 ^ j ≤ 2 ^ 4 := Nat.pow_le_pow_right (by norm_num) (by omega)
    omega
  refine ⟨⟨⟨⟨hsize, blockFree_setFree, htail.symm⟩, ?_, ?_, by rw [htail]; omega, rfl, ?_⟩,
    ⟨by simp, ?_, by simp⟩, ?_⟩, htail⟩
  · intro b hb
    rw [List.mem_singleton.mp hb]
    exact ⟨j, h5, hj⟩
  · simp only [laidOut, total_cons, total_nil]
    omega
  · simp [laidOut, hq]
  · intro c s' hc
    simp [Used] at hc
  · have harena : arena (laidOut k size q s).heap = [⟨q, size / 0x1000⟩] := by
      simp [arena, laidOut, hq]
    rw [harena]
    refine h.of_agree _ _ _ fun x h₁ h₂ => ?_
    have hout : x < q ∨ q + size ≤ x := by
      by_contra hx
      have := h.outside List.mem_cons_self (x := x) ⟨by dsimp only; omega, by dsimp only; omega⟩
      omega
    rw [setFree_outside (by omega), setSize_outside (by omega)]

lemma Sound.expand (hk : Sound g others k bs []) (h : expand fuel n k = some k')
    (hlock : k'.heap.lock = false) :
    (∃ bs', Sound g others k' bs' []) ∧ k'.heap.data ≠ 0 := by
  obtain ⟨-, hheld | ⟨size, q, s, hmod, hpow, hq, hrealloc, rfl⟩⟩ := expand_cases h
  · rw [hlock] at hheld
    exact absurd hheld (by simp)
  · obtain ⟨hinv, -⟩ := hk.realloc_pages hq hrealloc
    exact ⟨⟨_, (laidOut_sound hmod hpow hinv).1⟩, hq⟩

lemma Sound.live_eq_nil (hk : Sound g others k bs live) (hdata : k.heap.data = 0) : live = [] := by
  obtain rfl := hk.shape.empty_iff.mp hdata
  refine List.eq_nil_iff_forall_not_mem.mpr fun al hal => ?_
  obtain ⟨c, s, hc, -, -⟩ := hk.owned.block al hal
  simp [Used] at hc

/-! ## Allocating -/

/-- What a call of `malloc` that returns has done: it laid out the first arena if there was
none, and searched; then it took the block that was found, or gave up, or expanded the heap
and tried once more. -/
lemma malloc_cases (hn : n ≠ 0) (h : malloc (fuel + 1) n k = some (p, k')) :
    ∃ k₁ actual r,
      (if k.heap.data = 0 then expand fuel INIT_PAGES k else some k) = some k₁ ∧
      k₁.heap.lock = false ∧ requiredSize fuel n = some actual ∧
      find fuel { k₁.heap with lock := true } k₁.phys.mem actual = some r ∧
      ((r.1 ≠ 0 ∧ p = r.1 + 16 ∧ k' = {
          phys := { k₁.phys with mem := setFree r.2 r.1 false }
          heap := { k₁.heap with expanded := false, lock := false } }) ∨
        (r.1 = 0 ∧ k₁.heap.expanded = true ∧ p = 0 ∧ k' = {
          phys := { k₁.phys with mem := r.2 }
          heap := { k₁.heap with expanded := false, lock := false } }) ∨
        (r.1 = 0 ∧ k₁.heap.expanded = false ∧ ∃ k₂,
          expand fuel (n / 0x1000 + 1) {
            phys := { k₁.phys with mem := r.2 }
            heap := { k₁.heap with lock := false } } = some k₂ ∧
          malloc fuel n { k₂ with heap := { k₂.heap with expanded := true } } = some (p, k'))) := by
  rw [malloc, if_neg hn] at h
  obtain ⟨k₁, hk₁, h⟩ := Option.bind_eq_some_iff.mp h
  obtain ⟨k₂, hk₂, h⟩ := Option.bind_eq_some_iff.mp h
  obtain ⟨hlock, rfl⟩ := acquire_eq hk₂
  obtain ⟨actual, hactual, h⟩ := Option.bind_eq_some_iff.mp h
  obtain ⟨r, hr, h⟩ := Option.bind_eq_some_iff.mp h
  refine ⟨k₁, actual, r, hk₁, hlock, hactual, hr, ?_⟩
  dsimp only at h
  split at h
  · rename_i hfound
    obtain ⟨rfl, rfl⟩ := Prod.mk.inj (Option.some.inj h)
    exact .inl ⟨hfound, rfl, rfl⟩
  rename_i hnone
  rw [not_not] at hnone
  split at h
  · rename_i hexp
    obtain ⟨rfl, rfl⟩ := Prod.mk.inj (Option.some.inj h)
    exact .inr (.inl ⟨hnone, hexp, rfl, rfl⟩)
  · rename_i hexp
    obtain ⟨k₂, hk₂, h⟩ := Option.bind_eq_some_iff.mp h
    exact .inr (.inr ⟨hnone, by simpa using hexp, k₂, hk₂, h⟩)

section Forward

variable {k₁ : Kernel} {actual : ℕ} {r : ℕ × Mem}

lemma malloc_eq_found (hn : n ≠ 0)
    (hk₁ : (if k.heap.data = 0 then expand fuel INIT_PAGES k else some k) = some k₁)
    (hlock : k₁.heap.lock = false) (hreq : requiredSize fuel n = some actual)
    (hfind : find fuel { k₁.heap with lock := true } k₁.phys.mem actual = some r)
    (hr : r.1 ≠ 0) :
    malloc (fuel + 1) n k = some (r.1 + 16, {
      phys := { k₁.phys with mem := setFree r.2 r.1 false }
      heap := { k₁.heap with expanded := false, lock := false } }) := by
  rw [malloc, if_neg hn, hk₁]
  simp [acquire, hlock, hreq, hfind, hr]

/-- A search that fails makes `malloc` grow the heap and start again. -/
lemma malloc_eq_grown {k₂ : Kernel} (hn : n ≠ 0)
    (hk₁ : (if k.heap.data = 0 then expand fuel INIT_PAGES k else some k) = some k₁)
    (hlock : k₁.heap.lock = false) (hreq : requiredSize fuel n = some actual)
    (hfind : find fuel { k₁.heap with lock := true } k₁.phys.mem actual = some r)
    (hr : r.1 = 0) (hexp : k₁.heap.expanded = false)
    (hk₂ : expand fuel (n / 0x1000 + 1) {
      phys := { k₁.phys with mem := r.2 }
      heap := { k₁.heap with lock := false } } = some k₂) :
    malloc (fuel + 1) n k =
      malloc fuel n { k₂ with heap := { k₂.heap with expanded := true } } := by
  rw [malloc, if_neg hn, hk₁, Option.bind_some, acquire, if_neg (by simp [hlock]),
    Option.bind_some, hreq, Option.bind_some, hfind, Option.bind_some]
  dsimp only [unlock] at hk₂ ⊢
  rw [if_neg (by simp [hr]), if_neg (by simp [hexp]), hk₂, Option.bind_some]

end Forward

/-- `malloc` waits forever when the lock is held, as it is after a failed `expand`. -/
lemma malloc_unlocked (hn : n ≠ 0) (h : malloc fuel n k = some (p, k')) :
    k.heap.lock = false := by
  cases fuel with
  | zero => simp at h
  | succ fuel =>
    obtain ⟨k₁, -, -, hk₁, hlock, -⟩ := malloc_cases hn h
    split at hk₁
    · obtain ⟨k₀, hk₀, -⟩ := Option.bind_eq_some_iff.mp hk₁
      exact (acquire_eq hk₀).1
    · rw [Option.some.inj hk₁]
      exact hlock

lemma Sound.find {k : Kernel} (hk : Sound g others k bs live) (hdata : k.heap.data ≠ 0)
    (hn : n ≠ 0) (hlt : n + 32 ≤ 2 ^ 64) {actual : ℕ} (ha : requiredSize fuel n = some actual)
    {r : ℕ × Mem} (hr : find fuel { k.heap with lock := true } k.phys.mem actual = some r) :
    ∃ bs' s, Sound g others { k with phys := { k.phys with mem := r.2 } } bs' live ∧
      n + 16 ≤ s ∧ (r.1 = 0 ∨ (r.1, ⟨s, true⟩) ∈ spans k.heap.head bs') := by
  obtain ⟨j, hj, rfl, hle⟩ := requiredSize_post hn hlt ha
  have hs := hk.shape
  have hne : bs ≠ [] := fun hnil => hdata (hs.empty_iff.mpr hnil)
  obtain ⟨bs', hrefit, hres⟩ := (find_meets (h := { k.heap with lock := true }) hs.tiles
    hs.powers hne hs.tail_lt hj fuel).post hr
  exact ⟨bs', 2 ^ j, hk.refit hrefit, hle, hres⟩

lemma malloc_expansions (h : malloc fuel n k = some (p, k')) :
    k.heap.expansions ≤ k'.heap.expansions := by
  induction fuel generalizing k with
  | zero => simp at h
  | succ fuel ih =>
    by_cases hn : n = 0
    · rw [hn, malloc_size_zero] at h
      rw [(Prod.mk.inj (Option.some.inj h)).2]
    obtain ⟨k₁, actual, r, hk₁, -, -, -, hcases⟩ := malloc_cases hn h
    have hle : k.heap.expansions ≤ k₁.heap.expansions := by
      split at hk₁
      · rw [(expand_cases hk₁).1]
        omega
      · rw [Option.some.inj hk₁]
    rcases hcases with ⟨-, -, rfl⟩ | ⟨-, -, -, rfl⟩ | ⟨-, -, k₂, hk₂, hrec⟩
    · exact hle
    · exact hle
    · have h₁ := (expand_cases hk₂).1
      have h₂ := ih hrec
      dsimp only at h₁ h₂
      omega

/-- `malloc` adds a live allocation, if it does not expand the heap while others are
live. -/
lemma Sound.malloc (hk : Sound g others k bs live) (hlt : n + 32 ≤ 2 ^ 64)
    (h : malloc fuel n k = some (p, k'))
    (hcalm : live = [] ∨ k'.heap.expansions = k.heap.expansions) :
    ∃ bs', Sound g others k' bs' (if p = 0 then live else ⟨p, n⟩ :: live) := by
  induction fuel generalizing k bs with
  | zero => simp [Heap.malloc] at h
  | succ fuel ih =>
    by_cases hn : n = 0
    · rw [Heap.malloc, if_pos hn] at h
      obtain ⟨rfl, rfl⟩ := Prod.mk.inj (Option.some.inj h)
      exact ⟨bs, by simpa using hk⟩
    obtain ⟨k₁, actual, r, hk₁, hlock, hactual, hr, hcases⟩ := malloc_cases hn h
    -- the heap that is searched is in order, and has an arena
    obtain ⟨⟨bs₁, hs₁⟩, hdata₁, hexp₁⟩ : (∃ bs₁, Sound g others k₁ bs₁ live) ∧
        k₁.heap.data ≠ 0 ∧ k.heap.expansions ≤ k₁.heap.expansions := by
      split at hk₁
      · rename_i hdata
        obtain rfl := hk.live_eq_nil hdata
        obtain ⟨hs₁, hdata₁⟩ := hk.expand hk₁ hlock
        exact ⟨hs₁, hdata₁, by rw [(expand_cases hk₁).1]; omega⟩
      · rename_i hdata
        obtain rfl := Option.some.inj hk₁
        exact ⟨⟨bs, hk⟩, hdata, le_rfl⟩
    obtain ⟨bs₂, s, hs₂, hle, hres⟩ := hs₁.find hdata₁ hn hlt hactual hr
    rcases hcases with ⟨hfound, rfl, rfl⟩ | ⟨-, -, rfl, rfl⟩ | ⟨-, -, k₂, hk₂, hrec⟩
    · obtain ⟨bs₃, hs₃⟩ := hs₂.take (hres.resolve_left hfound) hle
      exact ⟨bs₃, by simpa using hs₃.flags false false _⟩
    · exact ⟨bs₂, by simpa using hs₂.flags false false _⟩
    · obtain rfl : live = [] := by
        refine hcalm.resolve_right fun heq => ?_
        have h₁ := (expand_cases hk₂).1
        have h₂ := malloc_expansions hrec
        dsimp only at h₁ h₂
        omega
      have hlock₂ := malloc_unlocked hn hrec
      obtain ⟨⟨bs₃, hs₃⟩, -⟩ := (hs₂.flags false k₁.heap.expanded _).expand hk₂ hlock₂
      exact ih (hs₃.flags _ true _) hrec (.inl rfl)

lemma malloc_first (hn : n ≠ 0) (hdata : k.heap.data = 0) (h : malloc fuel n k = some (p, k')) :
    k.heap.expansions < k'.heap.expansions := by
  cases fuel with
  | zero => simp at h
  | succ fuel =>
    obtain ⟨k₁, actual, r, hk₁, -, -, -, hcases⟩ := malloc_cases hn h
    rw [if_pos hdata] at hk₁
    have h₁ := (expand_cases hk₁).1
    rcases hcases with ⟨-, -, rfl⟩ | ⟨-, -, -, rfl⟩ | ⟨-, -, k₂, hk₂, hrec⟩
    · dsimp only
      omega
    · dsimp only
      omega
    · have h₂ := (expand_cases hk₂).1
      have h₃ := malloc_expansions hrec
      dsimp only at h₂ h₃
      omega

lemma malloc_null (h : malloc fuel n k = some (0, k')) :
    n = 0 ∨ k.heap.expanded = true ∨ k.heap.expansions < k'.heap.expansions := by
  by_cases hn : n = 0
  · exact .inl hn
  by_cases hdata : k.heap.data = 0
  · exact .inr (.inr (malloc_first hn hdata h))
  cases fuel with
  | zero => simp at h
  | succ fuel =>
    obtain ⟨k₁, actual, r, hk₁, -, -, -, hcases⟩ := malloc_cases hn h
    rw [if_neg hdata] at hk₁
    obtain rfl := Option.some.inj hk₁
    rcases hcases with ⟨-, hp, -⟩ | ⟨-, hexp, -⟩ | ⟨-, -, k₂, hk₂, hrec⟩
    · omega
    · exact .inr (.inl hexp)
    · have h₂ := (expand_cases hk₂).1
      have h₃ := malloc_expansions hrec
      dsimp only at h₂ h₃
      exact .inr (.inr (by omega))

lemma malloc_end (h : malloc fuel n k = some (p, k')) :
    n = 0 ∧ k' = k ∨ k'.heap.lock = false ∧ k'.heap.expanded = false := by
  by_cases hn : n = 0
  · cases fuel with
    | zero => simp at h
    | succ fuel =>
      rw [hn, malloc_size_zero] at h
      exact .inl ⟨hn, (Prod.mk.inj (Option.some.inj h)).2.symm⟩
  right
  induction fuel generalizing k with
  | zero => simp at h
  | succ fuel ih =>
    obtain ⟨k₁, actual, r, -, -, -, -, ⟨-, -, rfl⟩ | ⟨-, -, -, rfl⟩ | ⟨-, -, k₂, -, hrec⟩⟩ :=
      malloc_cases hn h
    · exact ⟨rfl, rfl⟩
    · exact ⟨rfl, rfl⟩
    · exact ih hrec

lemma malloc_expanded (h : malloc fuel n k = some (p, k')) (hexp : k.heap.expanded = false) :
    k'.heap.expanded = false := by
  rcases malloc_end h with ⟨-, rfl⟩ | ⟨-, hreset⟩
  · exact hexp
  · exact hreset

/-! ## Arenas of one block -/

section SingleBlock

variable {h : Heap} {m : Mem} {size : ℕ}

lemma find_whole (hhead : h.head ≠ 0) (hsize : blockSize m h.head = size) (hne : size ≠ 0)
    (htail : h.tail = h.head + size) (hfree : blockFree m h.head = true) :
    find (fuel + 1) h m size = some (h.head, m) := by
  have hnext : next m h.head = h.tail := by rw [next, hsize, htail]
  have hsplit : split (fuel + 1) m h.head size = some (h.head, m) := by
    rw [split, if_pos ⟨hhead, hne⟩]
    simp [loop, hsize]
  rw [find, findBest, if_neg hne, if_pos ⟨hnext, hfree⟩, hsplit]
  simp [hhead]

lemma find_full (hne : size ≠ 0) (htail : next m h.head = h.tail)
    (hused : blockFree m h.head = false) : find (fuel + 1) h m size = some (0, m) := by
  have hbest : findBest (fuel + 1) h m size = some (0, m) := by
    simp [findBest, hne, hused, htail, loop]
  have hcoal : coalescence (fuel + 1) h m = some m := by
    simp [coalescence, sweep, htail, loop]
  simp [find, hbest, hcoal]

end SingleBlock

/-- `calloc` is `malloc`, followed by clearing the payload. -/
lemma calloc_cases {num size : ℕ} (h : calloc fuel num size k = some (p, k')) :
    ∃ k₁, malloc fuel (Word64.mul num size) k = some (p, k₁) ∧
      ((p = 0 ∧ k' = k₁) ∨ (p ≠ 0 ∧ k' = { k₁ with
        phys := { k₁.phys with mem := memset k₁.phys.mem p 0 (Word64.mul num size) } })) := by
  obtain ⟨⟨q, k₁⟩, hmalloc, h⟩ := Option.map_eq_some_iff.mp h
  dsimp only at h
  split at h
  · rename_i hq
    obtain ⟨rfl, rfl⟩ := Prod.mk.inj h
    rw [hq] at hmalloc
    exact ⟨k₁, hmalloc, .inl ⟨rfl, rfl⟩⟩
  · rename_i hq
    obtain ⟨rfl, rfl⟩ := Prod.mk.inj h
    exact ⟨k₁, hmalloc, .inr ⟨hq, rfl⟩⟩

lemma Sound.calloc (hk : Sound g others k bs live) {num size : ℕ} (hlt : num * size + 32 ≤ 2 ^ 64)
    (h : calloc fuel num size k = some (p, k'))
    (hcalm : live = [] ∨ k'.heap.expansions = k.heap.expansions) :
    ∃ bs', Sound g others k' bs' (if p = 0 then live else ⟨p, num * size⟩ :: live) := by
  obtain ⟨k₁, hmalloc, ⟨rfl, rfl⟩ | ⟨hp, rfl⟩⟩ := calloc_cases h
  · rw [Word64.mul_of_lt (by omega)] at hmalloc
    exact hk.malloc hlt hmalloc hcalm
  · rw [Word64.mul_of_lt (by omega)] at hmalloc ⊢
    obtain ⟨bs₁, hs₁⟩ := hk.malloc hlt hmalloc hcalm
    rw [if_neg hp] at hs₁ ⊢
    refine ⟨bs₁, hs₁.write List.mem_cons_self fun x hx => fill_outside ?_⟩
    obtain ⟨c, -, -, hsize⟩ := hs₁.block List.mem_cons_self
    dsimp only at hsize hx
    omega

/-! ## Releasing -/

/-- `free` returns at once, or marks the block and coalesces. -/
lemma free_cases (h : free fuel p k = some k') :
    (k' = k ∧ (k.heap.data = 0 ∨ p = 0 ∨ p < k.heap.head ∨ k.heap.tail ≤ p)) ∨
      ∃ m, coalescence fuel { k.heap with lock := true } (setFree k.phys.mem (p - 16) true) =
        some m ∧
        k' = { phys := { k.phys with mem := m }, heap := { k.heap with lock := false } } := by
  rw [free] at h
  split at h
  · rename_i hdata
    exact .inl ⟨(Option.some.inj h).symm, .inl hdata⟩
  split at h
  · rename_i hp
    exact .inl ⟨(Option.some.inj h).symm, .inr (.inl hp)⟩
  split at h
  · rename_i hhead
    exact .inl ⟨(Option.some.inj h).symm, .inr (.inr (.inl (by omega)))⟩
  split at h
  · rename_i htail
    exact .inl ⟨(Option.some.inj h).symm, .inr (.inr (.inr (by omega)))⟩
  obtain ⟨k₁, hk₁, h⟩ := Option.bind_eq_some_iff.mp h
  obtain ⟨-, rfl⟩ := acquire_eq hk₁
  obtain ⟨m, hm, rfl⟩ := Option.map_eq_some_iff.mp h
  exact .inr ⟨m, hm, rfl⟩

lemma free_heap (h : free fuel p k = some k') :
    k'.heap.expansions = k.heap.expansions ∧ k'.heap.expanded = k.heap.expanded ∧
      k'.heap.data = k.heap.data := by
  rcases free_cases h with ⟨rfl, -⟩ | ⟨m, -, rfl⟩ <;> exact ⟨rfl, rfl, rfl⟩

lemma Sound.free (hk : Sound g others k bs live) (hal : al ∈ live)
    (h : free fuel al.ptr k = some k') : ∃ bs', Sound g others k' bs' (live.erase al) := by
  obtain ⟨c, hc, hptr, -⟩ := hk.block hal
  have hb := spans_bounds hc
  have hend := hk.shape.tiles.end_eq
  have h32 := hk.shape.size_ge _ (mem_of_mem_spans hc)
  dsimp only at hb h32
  have hdata : k.heap.data ≠ 0 := fun hdata => by
    rw [hk.live_eq_nil hdata] at hal
    simp at hal
  rcases free_cases h with ⟨-, hout⟩ | ⟨m, hm, rfl⟩
  · -- a live pointer passes the tests of `free`
    omega
  · obtain ⟨bs₁, hs₁⟩ := hk.give hal
    have hne : bs₁ ≠ [] := fun hnil => hdata (hs₁.shape.empty_iff.mpr hnil)
    obtain ⟨bs₂, hrefit, -⟩ := (coalescence_meets (h := { k.heap with lock := true })
      hs₁.shape.tiles hs₁.shape.powers hne hs₁.shape.tail_lt fuel).post hm
    exact ⟨bs₂, (hs₁.refit hrefit).flags false _ _⟩

/-! ## Moving -/

/-- What a call of `realloc` on a pointer that is not null does when it returns. -/
lemma realloc_cases {q : ℕ} (hp : p ≠ 0) (h : realloc fuel p n k = some (q, k')) :
    (n = 0 ∧ q = 0 ∧ free fuel p k = some k') ∨
      (n ≠ 0 ∧ q = p ∧ malloc fuel n k = some (0, k')) ∨
      (n ≠ 0 ∧ q ≠ 0 ∧ ∃ k₁ len, len ≤ n ∧ malloc fuel n k = some (q, k₁) ∧
        free fuel p { k₁ with phys := { k₁.phys with mem := memcpy k₁.phys.mem q p len } } =
          some k') := by
  rw [realloc, if_neg hp] at h
  dsimp only at h
  split at h
  · rename_i hn
    obtain ⟨k₁, hk₁, heq⟩ := Option.map_eq_some_iff.mp h
    obtain ⟨rfl, rfl⟩ := Prod.mk.inj heq
    exact .inl ⟨hn, rfl, hk₁⟩
  rename_i hn
  obtain ⟨⟨q', k₁⟩, hmalloc, h⟩ := Option.bind_eq_some_iff.mp h
  dsimp only at h
  split at h
  · rename_i hq
    obtain ⟨rfl, rfl⟩ := Prod.mk.inj (Option.some.inj h)
    rw [hq] at hmalloc
    exact .inr (.inl ⟨hn, rfl, hmalloc⟩)
  · rename_i hq
    obtain ⟨k₂, hfree, heq⟩ := Option.map_eq_some_iff.mp h
    obtain ⟨rfl, rfl⟩ := Prod.mk.inj heq
    exact .inr (.inr ⟨hn, hq, k₁, _, by split <;> omega, hmalloc, hfree⟩)

/-- `realloc` replaces a live allocation by another one. -/
lemma Sound.realloc (hk : Sound g others k bs live) (hal : al ∈ live) (hlt : n + 32 ≤ 2 ^ 64)
    (hexp : k.heap.expanded = false) {q : ℕ} (h : realloc fuel al.ptr n k = some (q, k'))
    (hcalm : k'.heap.expansions = k.heap.expansions) :
    ∃ bs', Sound g others k' bs' (if n = 0 then live.erase al else ⟨q, n⟩ :: live.erase al) := by
  have hptr : al.ptr ≠ 0 := by
    obtain ⟨c, -, hptr, -⟩ := hk.block hal
    omega
  rcases realloc_cases hptr h with ⟨hn, -, hfree⟩ | ⟨hn, -, hmalloc⟩ |
    ⟨hn, hq, k₁, len, hlen, hmalloc, hfree⟩
  · rw [if_pos hn]
    exact hk.free hal hfree
  · -- without an expansion `malloc` does not return null
    rcases malloc_null hmalloc with h₁ | h₁ | h₁
    · exact absurd h₁ hn
    · rw [hexp] at h₁
      exact absurd h₁ (by simp)
    · omega
  · rw [if_neg hn]
    have hsame := (free_heap hfree).1
    dsimp only at hsame
    obtain ⟨bs₁, hs₁⟩ := hk.malloc hlt hmalloc (.inr (by omega))
    rw [if_neg hq] at hs₁
    obtain ⟨c, -, -, hsize⟩ := hs₁.block List.mem_cons_self
    have hs₂ := hs₁.write (m := memcpy k₁.phys.mem q al.ptr len) List.mem_cons_self
      fun x hx => copy_outside (by dsimp only at hx hsize; omega)
    have hne : (⟨q, n⟩ : Alloc) ≠ al := by
      rintro rfl
      have := hs₁.owned.nodup
      rw [List.map_cons, List.nodup_cons] at this
      exact this.1 (List.mem_map_of_mem hal)
    obtain ⟨bs₃, hs₃⟩ := hs₂.free (List.mem_cons_of_mem _ hal) hfree
    rw [List.erase_cons_tail (by simpa using hne)] at hs₃
    exact ⟨bs₃, hs₃⟩

end TurbOS.Heap
