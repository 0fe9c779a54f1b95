import TurbOS.Heap.Room

/-!
# The retry of `malloc`

A request that finds no block expands the heap and starts again, and only the flag `expanded`
stops it from doing so for ever.  Here the sizes are such that nothing wraps around: the arena
has at most `2 ^ 62` bytes and the request at most `2 ^ 61`.  Then the second search succeeds,
provided that the physical allocator never fails.

The sizes of the blocks have to be powers of two, as all of them are in a heap that the code has
laid out.  In an arena of 33 pages the halving of `split` loses a byte, and the walk of
`coalescence` ends up in front of a header of size zero.
-/

open ByteMemory Tiling Fuel

namespace TurbOS.Heap

variable {k k' k₁ : Kernel} {m : Mem} {h : Heap} {fuel n p : ℕ}

/-! ## A physical allocator that never fails -/

/-- The physical allocator does not turn down an expansion for which it is asked for pages. -/
def NotRefused (fuel pagecount : ℕ) (k : Kernel) : Prop := ∀ size r,
  alignUp2 fuel 0x1000 (Word64.mul (Word64.add pagecount k.heap.pages) 0x1000) = some size →
  size / 0x1000 ≠ 0 →
  PMemory.realloc k.heap.data k.heap.pages (size / 0x1000) k.phys = some r → r.1 ≠ 0

/-- The physical allocator does not fail during a request: it lays out the first arena, and a
larger one if the request does not find a block. -/
structure NeverFails (fuel n : ℕ) (k : Kernel) : Prop where
  first : k.heap.data = 0 → NotRefused fuel INIT_PAGES k
  larger : ∀ k₁ actual r,
    (if k.heap.data = 0 then expand fuel INIT_PAGES k else some k) = some k₁ →
    k₁.heap.lock = false → requiredSize fuel n = some actual →
    find fuel { k₁.heap with lock := true } k₁.phys.mem actual = some r → r.1 = 0 →
    NotRefused fuel (n / 0x1000 + 1) { k₁ with phys := { k₁.phys with mem := r.2 } }

/-- Below `2 ^ 63` bytes the size of the arena does not wrap around to zero. -/
lemma NotRefused.granted (h : NotRefused fuel n k) (hn : n ≠ 0)
    (hle : (n + k.heap.pages) * 0x1000 ≤ 2 ^ 63) : Traced.Granted PMemory.realloc fuel n k := by
  refine ⟨hn, fun size r hsize hr => h size r hsize ?_ hr⟩
  have hasked : Word64.mul (Word64.add n k.heap.pages) 0x1000 = (n + k.heap.pages) * 0x1000 := by
    rw [Word64.add_of_lt (by omega), Word64.mul_of_lt (by omega)]
  rw [hasked] at hsize
  rcases (alignUp2_meets (by omega) (by omega) fuel).post hsize with ⟨-, hzero | hlarge⟩ |
    ⟨-, hge, -⟩
  · omega
  · omega
  · omega

/-- The first arena has the size that is asked for. -/
lemma alignUp2_first {size : ℕ} (hpages : k.heap.pages = 0)
    (h : alignUp2 fuel 0x1000 (Word64.mul (Word64.add INIT_PAGES k.heap.pages) 0x1000) =
    some size) : size = INIT_PAGES * 0x1000 := by
  have hasked : Word64.mul (Word64.add INIT_PAGES k.heap.pages) 0x1000 = INIT_PAGES * 0x1000 := by
    rw [hpages]
    rfl
  have hexit : ¬ ((INIT_PAGES * 0x1000) % 0x1000 ≠ 0 ∨ powerOf2 (INIT_PAGES * 0x1000) = false) := by
    decide
  rw [hasked] at h
  cases fuel with
  | zero => simp [alignUp2, loop] at h
  | succ fuel =>
    rw [alignUp2, loop_succ, if_neg hexit] at h
    exact (Option.some.inj h).symm

lemma expand_first (hpages : k.heap.pages = 0) (h : expand fuel INIT_PAGES k = some k')
    (hlock : k'.heap.lock = false) : k'.heap.pages = INIT_PAGES := by
  obtain ⟨-, hheld | ⟨-, size, q, s, hsize, -, -, rfl⟩⟩ := expand_sized h
  · rw [hlock] at hheld
    exact absurd hheld (by simp)
  · obtain rfl := alignUp2_first hpages hsize
    rfl

/-- In an arena of at most `2 ^ 62` bytes all calls for pages are for at least one page. -/
lemma NeverFails.supplied (hs : NeverFails fuel n k) (hk : Ready k)
    (hsmall : k.heap.pages * 0x1000 ≤ 2 ^ 62) (hn : n ≤ 2 ^ 61) :
    Traced.Supplied PMemory.realloc (fuel + 1) n k := by
  have hfirst : k.heap.data = 0 → Traced.Granted PMemory.realloc fuel INIT_PAGES k := by
    intro hdata
    refine (hs.first hdata).granted (by norm_num [INIT_PAGES]) ?_
    rw [hk.empty hdata]
    norm_num [INIT_PAGES]
  intro _
  refine ⟨hfirst, fun k₁ actual r hsearched hactual hr hnone _ => ?_⟩
  -- the arena that is searched has at most `2 ^ 62` bytes, too
  obtain ⟨hk₁, hlock, hle⟩ : (if k.heap.data = 0 then expand fuel INIT_PAGES k else some k) =
    some k₁ ∧ k₁.heap.lock = false ∧ k₁.heap.pages * 0x1000 ≤ 2 ^ 62 := by
    rw [Traced.searched] at hsearched
    by_cases hdata : k.heap.data = 0
    · rw [if_pos hdata] at hsearched ⊢
      have hk₁ : expand fuel INIT_PAGES k = some k₁ := by
        rw [← Traced.expand_toOption, hsearched]
        rfl
      have hlock := ((Traced.expand_disciplined_iff hk.unlocked).mpr (hfirst hdata)).released k₁
        hsearched
      refine ⟨hk₁, hlock, ?_⟩
      rw [expand_first (hk.empty hdata) hk₁ hlock]
      norm_num [INIT_PAGES]
    · rw [if_neg hdata] at hsearched ⊢
      obtain rfl := Except.ok.inj hsearched
      exact ⟨rfl, hk.unlocked, hsmall⟩
  have hnext := hs.larger k₁ actual r hk₁ hlock hactual hr hnone
  have hcount : n / 0x1000 ≤ 2 ^ 49 := by omega
  have hpages : k₁.heap.pages ≤ 2 ^ 50 := by omega
  refine hnext.granted (by omega) ?_
  calc (n / 0x1000 + 1 + k₁.heap.pages) * 0x1000 ≤ 2 ^ 51 * 0x1000 :=
        Nat.mul_le_mul_right _ (by omega)
    _ = 2 ^ 63 := by norm_num

/-! ## The main result -/

/-- **The retry ends and succeeds.**  On a heap between two calls whose arena has at most
`2 ^ 62` bytes, or which is empty, a request of at most `2 ^ 61` bytes returns with a pointer, if
the physical allocator never fails.  It expands the heap at most once after the first arena is
there, and leaves the flag `expanded` cleared. -/
theorem malloc_retry_succeeds (hk : Ready k) (hsmall : k.heap.pages * 0x1000 ≤ 2 ^ 62)
    (hpos : 1 ≤ n) (hn : n ≤ 2 ^ 61) (hf : 2 ^ 64 ≤ fuel) (hs : NeverFails fuel n k) :
    ∃ p k', malloc (fuel + 1) n k = some (p, k') ∧ p ≠ 0 ∧ k'.heap.expanded = false ∧
      k'.heap.expansions ≤ k.heap.expansions + (if k.heap.data = 0 then 1 else 0) + 1 := by
  have hsupplied := hs.supplied hk hsmall hn
  obtain ⟨p, k', hm⟩ := hk.malloc_returns (by omega) hsupplied (by omega)
  obtain ⟨hp, hcount⟩ := hk.malloc_post (by omega) (by omega) hm
  exact ⟨p, k', hm, hp, malloc_expanded hm hk.expanded, hcount⟩

/-- The physical allocator of the large machine does not fail at the first request. -/
lemma bigPhys_neverFails : NeverFails (2 ^ 64) 1 (start bigPhys).kernel where
  first := by
    intro _ size r hsize _ hr
    obtain rfl := alignUp2_first rfl hsize
    obtain ⟨s, hs, -⟩ := bigMap_alloc
    rw [← bigPhys_eq] at hs
    have hrealloc : PMemory.realloc 0 0 INIT_PAGES bigPhys = some r := hr
    rw [PMemory.realloc, if_pos rfl, hs] at hrealloc
    rw [← Option.some.inj hrealloc]
    norm_num
  larger := by
    intro k₁ actual r hk₁ hlock hactual hr hnone
    rw [if_pos (by rfl)] at hk₁
    obtain ⟨i, he⟩ := expand_expanded hk₁ hlock
    have hroom : 2 ^ 21 ≤ 2 ^ i := he.room
    have hi : 21 ≤ i := (Nat.pow_le_pow_iff_right (by norm_num : 1 < 2)).mp hroom
    have h32 : requiredSize 2 1 = some (2 ^ 5) := by decide
    obtain rfl := requiredSize_unique hactual h32
    have hf := he.fresh
    have hmeets := Fresh.find_meets (h := { k₁.heap with lock := true })
      ⟨hf.head_ne, hf.next_eq, hf.free, hf.size_eq, hf.lt⟩ 5 (2 ^ 64)
    exact absurd hnone (hmeets.post hr (by omega))

/-- The first request on the large machine. -/
theorem malloc_retry_bigMap :
    ∃ p k', malloc (2 ^ 64 + 1) 1 (start bigPhys).kernel = some (p, k') ∧ p ≠ 0 ∧
      k'.heap.expanded = false ∧
      k'.heap.expansions ≤ (start bigPhys).kernel.heap.expansions +
        (if (start bigPhys).kernel.heap.data = 0 then 1 else 0) + 1 :=
  malloc_retry_succeeds bigPhys_ready (by norm_num [start]) le_rfl (by norm_num) le_rfl
    bigPhys_neverFails

/-! ## Sizes that are no powers of two -/

/-- The walk of `coalescence` stands in front of a header of size zero. -/
def Halted (tail : ℕ) (c : Sweep) : Prop :=
  c.block < tail ∧ c.tmp = c.block ∧ blockSize c.mem c.block = 0

instance (tail : ℕ) (c : Sweep) : Decidable (Halted tail c) :=
  inferInstanceAs (Decidable (_ ∧ _))

/-- After `n` rounds the walk stands in front of a header of size zero. -/
def halts (tail : ℕ) : ℕ → Sweep → Bool
  | 0, c => decide (Halted tail c)
  | n + 1, c => decide (c.block < tail ∧ c.tmp < tail) && halts tail n (sweepStep tail c)

/-- It does not get past that header. -/
lemma Halted.step {tail : ℕ} {c : Sweep} (h : Halted tail c) : Halted tail (sweepStep tail c) := by
  obtain ⟨hlt, htmp, hsize⟩ := h
  have hnext : ∀ m, blockSize m c.block = 0 → next m c.block = c.block := by
    intro m hm
    rw [next, hm, Nat.add_zero]
  rw [sweepStep, htmp, hsize]
  split
  · have hzero : blockSize (setSize c.mem c.block (2 * 0)) c.block = 0 :=
      blockSize_setSize (by norm_num)
    dsimp only
    rw [hnext _ hzero, if_pos hlt, hnext _ hzero]
    exact ⟨hlt, rfl, hzero⟩
  · rw [if_neg (lt_irrefl 0)]
    dsimp only
    rw [hnext _ hsize, if_pos hlt, hnext _ hsize]
    exact ⟨hlt, rfl, hsize⟩

lemma sweep_never {i : ℕ} (hi : halts h.tail i ⟨m, h.head, next m h.head, true⟩ = true) :
    ∀ fuel, sweep fuel h m = none := by
  intro fuel
  rw [sweep]
  refine loop_never (fun c => ∃ i, halts h.tail i c = true) ?_ fuel ⟨i, hi⟩
  rintro c ⟨i, hc⟩
  cases i with
  | zero =>
    have hhalted : Halted h.tail c := of_decide_eq_true hc
    refine ⟨_, if_pos ⟨hhalted.1, by rw [hhalted.2.1]; exact hhalted.1⟩, 0, ?_⟩
    exact decide_eq_true hhalted.step
  | succ i =>
    rw [halts, Bool.and_eq_true, decide_eq_true_iff] at hc
    exact ⟨_, if_pos hc.1, i, hc.2⟩

/-- A result of `split` does not depend on the fuel. -/
lemma split_unique {f c size : ℕ} {r r' : ℕ × Mem} (h : split f m c size = some r)
    (h' : split fuel m c size = some r') : r = r' := by
  rw [split] at h h'
  split at h
  · rename_i hne
    rw [if_pos hne] at h'
    obtain ⟨s, hs, rfl⟩ := Option.map_eq_some_iff.mp h
    obtain ⟨s', hs', rfl⟩ := Option.map_eq_some_iff.mp h'
    have h₁ := loop_mono (Nat.le_max_left f fuel) hs
    have h₂ := loop_mono (Nat.le_max_right f fuel) hs'
    rw [Option.some.inj (h₁.symm.trans h₂)]
  · rename_i hne
    rw [if_neg hne] at h'
    exact Option.some.inj (h.symm.trans h')

/-- A request does not return if its first search gives up and leaves a header of size zero. -/
lemma malloc_halts {actual f i : ℕ} {r : ℕ × Mem} (hn : n ≠ 0) (hdata : k.heap.data ≠ 0)
    (hreq : requiredSize f n = some actual)
    (hbest : ∀ fuel r', findBest fuel { k.heap with lock := true } k.phys.mem actual = some r' →
    r' = r)
    (hnone : r.1 = 0) (hi : halts k.heap.tail i ⟨r.2, k.heap.head, next r.2 k.heap.head, true⟩ =
    true) :
    (∀ fuel r', find fuel { k.heap with lock := true } k.phys.mem actual ≠ some r') ∧
      ∀ fuel, malloc fuel n k = none := by
  have hfind : ∀ fuel r', find fuel { k.heap with lock := true } k.phys.mem actual ≠ some r' := by
    intro fuel r' hr'
    obtain ⟨r₁, hr₁, hr'⟩ := Option.bind_eq_some_iff.mp hr'
    obtain rfl := hbest fuel r₁ hr₁
    rw [if_pos hnone] at hr'
    obtain ⟨m', hm', -⟩ := Option.bind_eq_some_iff.mp hr'
    cases fuel with
    | zero => simp [coalescence, loop] at hm'
    | succ fuel =>
      have hsweep : sweep (fuel + 1) { k.heap with lock := true } r₁.2 = none :=
        sweep_never (h := { k.heap with lock := true }) hi (fuel + 1)
      rw [coalescence, loop_succ, hsweep] at hm'
      exact absurd hm' (by simp)
  refine ⟨hfind, fun fuel => ?_⟩
  cases hm : malloc fuel n k with
  | none => rfl
  | some s =>
    cases fuel with
    | zero => simp at hm
    | succ fuel =>
      obtain ⟨k₁, actual', r', hk₁, -, hactual, hr', -⟩ := malloc_cases hn hm
      rw [if_neg hdata] at hk₁
      obtain rfl := Option.some.inj hk₁
      obtain rfl := requiredSize_unique hreq hactual
      exact absurd hr' (hfind fuel r')

/-- A heap whose arena is one free block of 33 pages. -/
def oddHeap : Heap where
  head := 0x1000
  tail := 0x22000
  data := 0x1000
  pages := 33

def oddKernel : Kernel where
  phys := { mem := setFree (setSize (fun _ => 0) 0x1000 0x21000) 0x1000 true }
  heap := oddHeap

/-- `split` halves the block thirteen times, from 33 bytes to 16, and gives up; the last byte of
the arena looks like a header of size zero. -/
lemma odd_findBest : ∃ r, findBest 14 { oddHeap with lock := true } oddKernel.phys.mem 32 = some r ∧
    r.1 = 0 ∧ halts 0x22000 7 ⟨r.2, 0x1000, next r.2 0x1000, true⟩ = true := by
  have hrun : (findBest 14 { oddHeap with lock := true } oddKernel.phys.mem 32).any (fun r =>
      decide (r.1 = 0 ∧ halts 0x22000 7 ⟨r.2, 0x1000, next r.2 0x1000, true⟩ = true)) = true := by
    decide +kernel
  obtain ⟨r, hr, hres⟩ := (Option.any_eq_true _ _).mp hrun
  obtain ⟨hnone, hhalts⟩ := of_decide_eq_true hres
  exact ⟨r, hr, hnone, hhalts⟩

/-- On a heap whose blocks tile the arena, but are no powers of two, a request for one byte does
not return, although it asks the physical allocator for nothing. -/
theorem odd_malloc_never : ∃ k : Kernel,
    Tiles k.phys.mem k.heap.head [⟨33 * 0x1000, true⟩] k.heap.tail ∧
      total [⟨33 * 0x1000, true⟩] = k.heap.pages * 0x1000 ∧ k.heap.pages * 0x1000 ≤ 2 ^ 62 ∧
      k.heap.expanded = false ∧ k.heap.lock = false ∧ (∀ fuel, NeverFails fuel 1 k) ∧
      ∀ fuel, malloc fuel 1 k = none := by
  obtain ⟨r, hr, hnone, hhalts⟩ := odd_findBest
  have hwhole : ∀ fuel, findBest fuel { oddHeap with lock := true } oddKernel.phys.mem 32 =
      split fuel oddKernel.phys.mem 0x1000 32 := by
    have hblock : next oddKernel.phys.mem 0x1000 = 0x22000 ∧
        blockFree oddKernel.phys.mem 0x1000 = true := by
      decide +kernel
    intro fuel
    rw [findBest, if_neg (by norm_num)]
    exact if_pos hblock
  have hbest : ∀ fuel r',
    findBest fuel { oddHeap with lock := true } oddKernel.phys.mem 32 = some r' → r' = r := by
    intro fuel r' hr'
    rw [hwhole] at hr hr'
    exact split_unique hr' hr
  have h32 : requiredSize 2 1 = some 32 := by decide
  obtain ⟨hfind, hmalloc⟩ := malloc_halts (k := oddKernel) (by norm_num) (by decide) h32 hbest hnone
    hhalts
  refine ⟨oddKernel, by decide +kernel, by decide, by decide, rfl, rfl,
    fun fuel => ⟨fun hdata => absurd hdata (by decide), fun k₁ actual r' hk₁ _ hactual hr' _ => ?_⟩,
    hmalloc⟩
  rw [if_neg (by decide)] at hk₁
  obtain rfl := Option.some.inj hk₁
  obtain rfl := requiredSize_unique hactual h32
  exact absurd hr' (hfind fuel r')

end TurbOS.Heap
