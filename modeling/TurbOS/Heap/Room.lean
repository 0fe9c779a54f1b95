import TurbOS.Heap.Steps
import TurbOS.Heap.Lock

/-!
# Room for every request

The block that a search of the heap returns has exactly the size that was searched for, in any
state of memory: `split` cuts it down, and turns it down if it became too small.  So the room
behind a pointer of `malloc` is what `required_size` computes.

This file goes through the 64-bit range.  `required_size` has the right value up to
`2 ^ 63 - 16`; then its doubling loop does not end; and for the last sizes before `2 ^ 64` the
addition of the header or the rounding wraps around, and it returns the size of a header.
-/

open ByteMemory Tiling Fuel

namespace TurbOS.Heap

variable {k k' k₁ : Kernel} {m : Mem} {h : Heap} {bs : List Block} {fuel n p size : ℕ}

/-! ## The block that is found -/

/-- `split` returns a block of the size asked for, or null. -/
lemma split_size {block : ℕ} {r : ℕ × Mem} (hs : split fuel m block size = some r) (hr : r.1 ≠ 0) :
    blockSize r.2 r.1 = size := by
  rw [split] at hs
  split at hs
  · obtain ⟨c, hc, rfl⟩ := Option.map_eq_some_iff.mp hs
    have hexit : blockSize c.1 c.2 ≤ size := by
      refine loop_post (fun _ => True) (Q := fun c : Mem × ℕ => blockSize c.1 c.2 ≤ size)
        ?_ trivial hc
      rintro s r - hr
      split at hr
      · rw [← Option.some.inj hr]
        trivial
      · rename_i hge
        rw [← Option.some.inj hr]
        exact not_lt.mp hge
    dsimp only at hr ⊢
    split at hr
    · rename_i hle
      rw [if_pos hle]
      omega
    · exact absurd rfl hr
  · rw [← Option.some.inj hs] at hr
    exact absurd rfl hr

lemma findBest_size {r : ℕ × Mem} (hs : findBest fuel h m size = some r) (hr : r.1 ≠ 0) :
    blockSize r.2 r.1 = size := by
  rw [findBest] at hs
  split at hs
  · rw [← Option.some.inj hs] at hr
    exact absurd rfl hr
  split at hs
  · exact split_size hs hr
  · obtain ⟨c, -, hs⟩ := Option.bind_eq_some_iff.mp hs
    split at hs
    · exact split_size hs hr
    · rw [← Option.some.inj hs] at hr
      exact absurd rfl hr

/-- The search of `malloc` returns a block of the size asked for, or null. -/
lemma find_size {r : ℕ × Mem} (hs : find fuel h m size = some r) (hr : r.1 ≠ 0) :
    blockSize r.2 r.1 = size := by
  obtain ⟨r₁, hr₁, hs⟩ := Option.bind_eq_some_iff.mp hs
  split at hs
  · obtain ⟨m', -, hs⟩ := Option.bind_eq_some_iff.mp hs
    exact findBest_size hs hr
  · rw [← Option.some.inj hs] at hr ⊢
    exact findBest_size hr₁ hr

/-- The heap that is searched has an arena. -/
lemma searched_data (hk₁ : (if k.heap.data = 0 then expand fuel INIT_PAGES k else some k) = some k₁)
    (hlock : k₁.heap.lock = false) : k₁.heap.data ≠ 0 := by
  split at hk₁
  · rcases (expand_cases hk₁).2 with hheld | ⟨size, q, s, -, -, hq, -, rfl⟩
    · rw [hlock] at hheld
      exact absurd hheld (by simp)
    · exact hq
  · rename_i hdata
    rw [← Option.some.inj hk₁]
    exact hdata

/-- The room behind a pointer of `malloc`. -/
lemma malloc_allocsize (hn : n ≠ 0) (hp : p ≠ 0) (hm : malloc fuel n k = some (p, k')) :
    16 < p ∧ ∃ f actual, requiredSize f n = some actual ∧
      allocsize p k' = Word64.sub actual 16 := by
  induction fuel generalizing k with
  | zero => simp at hm
  | succ fuel ih =>
    obtain ⟨k₁, actual, r, hk₁, hlock, hactual, hr, hcases⟩ := malloc_cases hn hm
    rcases hcases with ⟨hfound, rfl, rfl⟩ | ⟨-, -, hnull, -⟩ | ⟨-, -, k₂, -, hrec⟩
    · refine ⟨by omega, fuel, actual, hactual, ?_⟩
      have hdata := searched_data hk₁ hlock
      rw [allocsize, if_neg hdata, if_neg hp, Nat.add_sub_cancel, blockSize_setFree,
        find_size hr hfound]
    · exact absurd hnull hp
    · exact ih hrec

/-! ## An arena of one free block -/

/-- Half of a block of a power of two is one of the power before it. -/
lemma halve_pow {c k : ℕ} (hc : c ≠ 0) (hk : k < 64) (hsize : blockSize m c = 2 ^ (k + 1)) :
    (halve m c).2 ≠ 0 ∧ blockSize (halve m c).1 (halve m c).2 = 2 ^ k := by
  have hhalf : blockSize m c / 2 = 2 ^ k := by
    rw [hsize, pow_succ]
    omega
  have hlt : 2 ^ k < 2 ^ 64 := Nat.pow_lt_pow_right (by norm_num) hk
  constructor
  · rw [halve]
    dsimp only [next]
    omega
  · rw [halve, hhalf]
    dsimp only
    rw [blockSize_setFree, blockSize_setSize hlt]

/-- `split` halves a block of a power of two until it has the size asked for. -/
lemma split_pow {c i j : ℕ} (hc : c ≠ 0) (hi : i < 64) (hsize : blockSize m c = 2 ^ i) (fuel : ℕ) :
    Meets (i < fuel) (split fuel m c (2 ^ j)) fun r =>
      if j ≤ i then r.1 ≠ 0 else r = (0, m) := by
  rw [split, if_pos ⟨hc, by positivity⟩]
  refine Meets.map (Q := fun s : Mem × ℕ => s.2 ≠ 0 ∧
      if j ≤ i then 2 ^ j ≤ blockSize s.1 s.2 else s = (m, c)) ?_ ?_
  · -- the block in hand has the size `2 ^ i'`, not less than what is asked for
    refine Meets.of_imp (loop_meets True (fun k (s : Mem × ℕ) => s.2 ≠ 0 ∧
      blockSize s.1 s.2 = 2 ^ k ∧
      k ≤ i ∧ if j ≤ i then j ≤ k else s = (m, c)) ?_ fuel i (m, c) ⟨hc, hsize, le_rfl, by
        split
        · assumption
        · rfl⟩) fun hf => ⟨trivial, hf⟩
    rintro k s ⟨hne, hk, hki, hres⟩
    rw [hk]
    split
    · rename_i hlt
      have hjk : j < k := (Nat.pow_lt_pow_iff_right (by norm_num)).mp hlt
      rw [if_pos (by omega)] at hres
      obtain ⟨k, rfl⟩ : ∃ k', k = k' + 1 := ⟨k - 1, by omega⟩
      obtain ⟨hnext, hhalf⟩ := halve_pow hne (by omega) hk
      refine Meets.pure ⟨k, by omega, hnext, hhalf, by omega, ?_⟩
      rw [if_pos (by omega)]
      omega
    · rename_i hge
      refine Meets.pure ⟨hne, ?_⟩
      split
      · rename_i hle
        rw [if_pos hle] at hres
        rw [hk]
        exact Nat.pow_le_pow_right (by norm_num) hres
      · rename_i hgt
        rwa [if_neg hgt] at hres
  · rintro s ⟨hne, hs⟩
    split
    · rename_i hle
      rw [if_pos hle] at hs
      rw [if_pos hs]
      exact hne
    · rename_i hgt
      rw [if_neg hgt] at hs
      subst hs
      have hlt : 2 ^ i < 2 ^ j := Nat.pow_lt_pow_right (by norm_num) (by omega)
      dsimp only
      rw [hsize, if_neg (by omega)]

/-- The arena is one free block, of a power of two. -/
structure Fresh (h : Heap) (m : Mem) (i : ℕ) : Prop where
  head_ne : h.head ≠ 0
  next_eq : next m h.head = h.tail
  free : blockFree m h.head = true
  size_eq : blockSize m h.head = 2 ^ i
  lt : i < 64

/-- The search in such an arena returns, with a block if the arena is large enough. -/
lemma Fresh.find_meets {i : ℕ} (hf : Fresh h m i) (j fuel : ℕ) :
    Meets (i < fuel) (find fuel h m (2 ^ j)) fun r => j ≤ i → r.1 ≠ 0 := by
  have hbest : findBest fuel h m (2 ^ j) = split fuel m h.head (2 ^ j) := by
    rw [findBest, if_neg (by positivity), if_pos ⟨hf.next_eq, hf.free⟩]
  have hsplit := split_pow (j := j) hf.head_ne hf.lt hf.size_eq fuel
  rw [find, hbest]
  refine Meets.bind hsplit ?_
  rintro r hr
  split
  · rename_i hnull
    have hgt : ¬ j ≤ i := fun hle => by
      rw [if_pos hle] at hr
      exact hr hnull
    rw [if_neg hgt] at hr
    subst hr
    -- there is nothing to coalesce, and the second search gives up like the first one
    have hcoal : Meets (i < fuel) (coalescence fuel h m) (· = m) := by
      cases fuel with
      | zero => exact ⟨by simp [coalescence, loop], fun h => by omega⟩
      | succ fuel =>
        have hsame : coalescence (fuel + 1) h m = some m := by
          simp [coalescence, sweep, loop, hf.next_eq]
        rw [hsame]
        exact Meets.pure rfl
    refine Meets.bind hcoal ?_
    rintro m' rfl
    rw [hbest]
    refine Meets.mono hsplit fun r hr hle => absurd hle hgt
  · rename_i hfound
    exact Meets.pure fun _ => hfound

/-- The arena after an expansion is fresh. -/
lemma laidOut_fresh {q i : ℕ} {s : Phys} (hq : q ≠ 0) (hi : i < 64) :
    Fresh (laidOut k (2 ^ i) q s).heap (laidOut k (2 ^ i) q s).phys.mem i where
  head_ne := hq
  next_eq := rfl
  free := blockFree_setFree
  size_eq := by
    have hlt : 2 ^ i < 2 ^ 64 := Nat.pow_lt_pow_right (by norm_num) hi
    show blockSize (setFree (setSize s.mem q (2 ^ i)) q true) q = 2 ^ i
    rw [blockSize_setFree, blockSize_setSize hlt]
  lt := hi

/-! ## Heaps between two calls -/

/-- The arena is tiled by blocks whose sizes are powers of two and not less than a header. -/
structure Tiled (h : Heap) (m : Mem) (bs : List Block) : Prop where
  head_ne : h.head ≠ 0
  tiles : Tiles m h.head bs h.tail
  powers : PowersFrom 4 bs
  nonempty : bs ≠ []
  tail_lt : h.tail < 2 ^ 64

lemma Tiled.total_pos (ht : Tiled h m bs) : 0 < total bs := by
  obtain ⟨b, rest, rfl⟩ := List.exists_cons_of_ne_nil ht.nonempty
  have := ht.powers.pos b List.mem_cons_self
  rw [total_cons]
  omega

/-- A heap between two calls: no lock is held, and the heap is empty, or its arena is tiled and
has at most `2 ^ 63` bytes. -/
structure Ready (k : Kernel) : Prop where
  unlocked : k.heap.lock = false
  mmUnlocked : k.phys.mmLock = false
  expanded : k.heap.expanded = false
  empty : k.heap.data = 0 → k.heap.pages = 0
  arena : k.heap.data ≠ 0 → k.heap.pages ≤ 2 ^ 51 ∧
    ∃ bs, Tiled k.heap k.phys.mem bs ∧ total bs = k.heap.pages * 0x1000

/-- The heap can be searched. -/
def Searchable (h : Heap) (m : Mem) : Prop := (∃ bs, Tiled h m bs) ∨ ∃ i, Fresh h m i

/-- With enough fuel a search returns. -/
lemma Searchable.find_returns {j : ℕ} (hs : Searchable h m) (hj : 4 ≤ j) (hf : 2 ^ 64 ≤ fuel) :
    ∃ r, find fuel h m (2 ^ j) = some r := by
  rcases hs with ⟨bs, ht⟩ | ⟨i, hfresh⟩
  · have hend := ht.tiles.end_eq
    have hlt := ht.tail_lt
    obtain ⟨r, hr, -⟩ := (find_layout ht.tiles ht.powers ht.nonempty hlt ht.head_ne hj fuel).returns
      (by omega)
    exact ⟨r, hr⟩
  · have hlt := hfresh.lt
    obtain ⟨r, hr, -⟩ := (hfresh.find_meets j fuel).returns (by omega)
    exact ⟨r, hr⟩

/-- The lock does not matter to a search. -/
lemma Searchable.flags (hs : Searchable h m) (lock expanded : Bool) :
    Searchable { h with lock := lock, expanded := expanded } m := by
  rcases hs with ⟨bs, ht⟩ | ⟨i, hf⟩
  · exact .inl ⟨bs, ht.head_ne, ht.tiles, ht.powers, ht.nonempty, ht.tail_lt⟩
  · exact .inr ⟨i, hf.head_ne, hf.next_eq, hf.free, hf.size_eq, hf.lt⟩

/-! ## Expansions -/

lemma Traced.expand_eq_ok (h : Heap.expand fuel n k = some k') :
    Traced.expand PMemory.realloc fuel n k = .ok k' := by
  rw [← Traced.expand_toOption] at h
  cases hres : Traced.expand PMemory.realloc fuel n k with
  | error why =>
    rw [hres] at h
    exact absurd h (by simp)
  | ok k₁ =>
    rw [hres] at h
    rw [Option.some.inj h]

/-- The physical allocator answers while its lock is free, and leaves it free. -/
lemma realloc_answers (ptr old new : ℕ) {s : Phys} (hlock : s.mmLock = false) :
    ∃ q s', PMemory.realloc ptr old new s = some (q, s') ∧ s'.mmLock = false := by
  have halloc : ∀ s : Phys, s.mmLock = false →
      ∃ q s', PMemory.alloc new s = some (q, s') ∧ s'.mmLock = false := by
    intro s hs
    rw [PMemory.alloc, if_neg (by simp [hs])]
    exact ⟨_, _, rfl, rfl⟩
  have hfree : ∀ (s : Phys) n, s.mmLock = false →
      ∃ s', PMemory.free ptr n s = some s' ∧ s'.mmLock = false := by
    intro s n hs
    rw [PMemory.free]
    split
    · exact ⟨_, rfl, hs⟩
    · rw [if_neg (by simp [hs])]
      exact ⟨_, rfl, hs⟩
  rw [PMemory.realloc]
  split
  · exact halloc s hlock
  split
  · obtain ⟨s', hs', hlock'⟩ := hfree s old hlock
    rw [hs']
    exact ⟨_, _, rfl, hlock'⟩
  · dsimp only
    obtain ⟨q, s₁, hs₁, hlock₁⟩ := halloc { s with
      usedRam := Word64.add (Word64.sub s.usedRam (Word64.mul old 0x1000)) (Word64.mul new 0x1000)
      freeRam := Word64.sub (Word64.add s.freeRam (Word64.mul old 0x1000)) (Word64.mul new 0x1000) }
      hlock
    obtain ⟨s₂, hs₂, hlock₂⟩ := hfree
      { s₁ with mem := memcpy s₁.mem q ptr (if new < old then new else old) } 1 hlock₁
    rw [hs₁, Option.bind_some, hs₂]
    exact ⟨_, _, rfl, hlock₂⟩

/-- What a successful `expand` leaves: a fresh arena, at least as large as was asked for. -/
structure Expanded (k k' : Kernel) (n i : ℕ) : Prop where
  fresh : Fresh k'.heap k'.phys.mem i
  unlocked : k'.heap.lock = false
  expanded : k'.heap.expanded = k.heap.expanded
  expansions : k'.heap.expansions = k.heap.expansions + 1
  data_ne : k'.heap.data ≠ 0
  pages_eq : k'.heap.pages * 0x1000 = 2 ^ i
  asked_ne : Word64.mul (Word64.add n k.heap.pages) 0x1000 ≠ 0
  room : Word64.mul (Word64.add n k.heap.pages) 0x1000 ≤ 2 ^ i

/-- An expansion that returns with the lock free has laid out a fresh arena. -/
lemma expand_expanded (h : expand fuel n k = some k') (hlock : k'.heap.lock = false) :
    ∃ i, Expanded k k' n i := by
  obtain ⟨hexp, hheld | ⟨-, size, q, s, hsize, hq, hrealloc, rfl⟩⟩ := expand_sized h
  · rw [hlock] at hheld
    exact absurd hheld (by simp)
  have hmod := (alignUp2_post hsize).1
  rcases (alignUp2_meets (by rw [Word64.mul]; omega) (by rw [Word64.mul]; omega)
    fuel).post hsize with ⟨rfl, -⟩ | ⟨hne, hle, i, hi, rfl⟩
  · -- zero pages are what the physical allocator turns down
    exact absurd (PMemory.realloc_zero hrealloc) hq
  · refine ⟨i, laidOut_fresh hq hi, rfl, rfl, hexp, hq, ?_, hne, hle⟩
    simp only [laidOut]
    omega

/-- An expansion for which the physical allocator has the pages returns, with the lock free. -/
lemma expand_returns (hlock : k.heap.lock = false) (hmm : k.phys.mmLock = false)
    (hg : Traced.Granted PMemory.realloc fuel n k) (hf : 2 ^ 64 ≤ fuel) :
    ∃ k', expand fuel n k = some k' ∧ k'.heap.lock = false ∧ k'.phys.mmLock = false := by
  obtain ⟨size, hsize, -⟩ := (alignUp2_meets (v := Word64.mul (Word64.add n k.heap.pages) 0x1000)
    (by rw [Word64.mul]; omega) (by rw [Word64.mul]; omega) fuel).returns hf
  obtain ⟨q, s, hrealloc, hs⟩ := realloc_answers k.heap.data k.heap.pages (size / 0x1000) hmm
  exact ⟨_, expand_eq hlock hg.1 hsize hrealloc (hg.2 size _ hsize hrealloc), rfl, hs⟩

/-- The size of a fresh arena bounds its pages. -/
lemma Expanded.pages_bounds {i : ℕ} (he : Expanded k k' n i) :
    1 ≤ k'.heap.pages ∧ k'.heap.pages ≤ 2 ^ 51 := by
  have hpages := he.pages_eq
  have hle : 2 ^ i ≤ 2 ^ 63 := Nat.pow_le_pow_right (by norm_num) (by have := he.fresh.lt; omega)
  have hpos : 0 < 2 ^ i := by positivity
  omega

/-- The arena that `malloc` expands to for a request has room for it. -/
lemma Expanded.room_le {i f actual : ℕ} (he : Expanded k k' (n / 0x1000 + 1) i)
    (h₁ : 1 ≤ k.heap.pages) (h₂ : k.heap.pages ≤ 2 ^ 51) (hn : n < 2 ^ 64)
    (hreq : requiredSize f n = some actual) : actual ≤ 2 ^ i := by
  have hne := he.asked_ne
  have hroom := he.room
  simp only [Word64.mul, Word64.add] at hne hroom
  by_cases hsmall : n ≤ 2 ^ 63 - 16
  · have hle : n + 16 ≤ 2 ^ i := by omega
    have hi : 4 ≤ i := (Nat.pow_le_pow_iff_right (by norm_num : 1 < 2)).mp (by omega)
    obtain ⟨actual', hactual', hle'⟩ := requiredSize_le hi he.fresh.lt hle
    rwa [requiredSize_unique hreq hactual']
  by_cases hlarge : n + 32 ≤ 2 ^ 64
  · rw [requiredSize_never (by omega) hlarge] at hreq
    exact absurd hreq (by simp)
  · -- the page count wraps around, and the arena stays as large as it was
    have hwrap := requiredSize_wraps (by omega) hn
    rw [requiredSize_unique hreq hwrap]
    omega

/-! ## A request -/

/-- A request in a fresh arena that is large enough gets a block. -/
lemma Fresh.malloc_meets {i f actual : ℕ} (hf : Fresh k.heap k.phys.mem i) (hdata : k.heap.data ≠ 0)
    (hlock : k.heap.lock = false) (hn : n ≠ 0) (hreq : requiredSize f n = some actual)
    (hle : actual ≤ 2 ^ i) (fuel : ℕ) :
    Meets (max f (i + 1) < fuel) (malloc fuel n k) fun r =>
      r.1 ≠ 0 ∧ r.2.heap.expansions = k.heap.expansions := by
  cases fuel with
  | zero => exact ⟨by simp, fun h => by omega⟩
  | succ fuel =>
    obtain ⟨j, -, rfl⟩ := requiredSize_pow hreq
    have hji : j ≤ i := (Nat.pow_le_pow_iff_right (by norm_num : 1 < 2)).mp hle
    have hfind := Fresh.find_meets (h := { k.heap with lock := true })
      ⟨hf.head_ne, hf.next_eq, hf.free, hf.size_eq, hf.lt⟩ j fuel
    constructor
    · rintro ⟨p, k'⟩ hm
      obtain ⟨k₁, actual, r, hk₁, -, hactual, hr, hcases⟩ := malloc_cases hn hm
      rw [if_neg hdata] at hk₁
      obtain rfl := Option.some.inj hk₁
      obtain rfl := requiredSize_unique hreq hactual
      have hfound := hfind.post hr hji
      rcases hcases with ⟨-, rfl, rfl⟩ | ⟨hnone, -⟩ | ⟨hnone, -⟩
      · exact ⟨by dsimp only; omega, rfl⟩
      · exact absurd hnone hfound
      · exact absurd hnone hfound
    · intro hfuel
      obtain ⟨r, hr, hfound⟩ := hfind.returns (by omega)
      exact ⟨_, malloc_eq_found hn (if_neg hdata) hlock (requiredSize_mono (by omega) hreq) hr
        (hfound hji)⟩

/-- The second search of a request, in the arena that was laid out for it. -/
lemma Expanded.malloc_meets {i f actual : ℕ} (he : Expanded k k' (n / 0x1000 + 1) i)
    (h₁ : 1 ≤ k.heap.pages) (h₂ : k.heap.pages ≤ 2 ^ 51) (hn : n ≠ 0) (hlt : n < 2 ^ 64)
    (hreq : requiredSize f n = some actual) (fuel : ℕ) :
    Meets (max f 64 < fuel) (malloc fuel n { k' with heap := { k'.heap with expanded := true } })
      fun r => r.1 ≠ 0 ∧ r.2.heap.expansions = k.heap.expansions + 1 := by
  have hf := he.fresh
  have hi := hf.lt
  have hfresh : Fresh { k'.heap with expanded := true } k'.phys.mem i :=
    ⟨hf.head_ne, hf.next_eq, hf.free, hf.size_eq, hf.lt⟩
  have hmeets := hfresh.malloc_meets (k := { k' with heap := { k'.heap with expanded := true } })
    he.data_ne he.unlocked hn hreq (he.room_le h₁ h₂ hlt hreq) fuel
  refine Meets.mono (Meets.of_imp hmeets fun h => by omega) ?_
  rintro r ⟨hne, hsame⟩
  exact ⟨hne, hsame.trans he.expansions⟩

/-- The heap that `malloc` searches when it is called between two calls. -/
lemma Ready.searched (hk : Ready k)
    (hk₁ : (if k.heap.data = 0 then expand fuel INIT_PAGES k else some k) = some k₁)
    (hlock : k₁.heap.lock = false) :
    Searchable k₁.heap k₁.phys.mem ∧ k₁.heap.expanded = false ∧ k₁.heap.data ≠ 0 ∧
      1 ≤ k₁.heap.pages ∧ k₁.heap.pages ≤ 2 ^ 51 ∧
      k₁.heap.expansions = k.heap.expansions + if k.heap.data = 0 then 1 else 0 := by
  by_cases hdata : k.heap.data = 0
  · rw [if_pos hdata] at hk₁ ⊢
    obtain ⟨i, he⟩ := expand_expanded hk₁ hlock
    obtain ⟨h₁, h₂⟩ := he.pages_bounds
    exact ⟨.inr ⟨i, he.fresh⟩, he.expanded.trans hk.expanded, he.data_ne, h₁, h₂, he.expansions⟩
  · rw [if_neg hdata] at hk₁ ⊢
    obtain rfl := Option.some.inj hk₁
    obtain ⟨hle, bs, ht, hsum⟩ := hk.arena hdata
    have hpos := ht.total_pos
    exact ⟨.inl ⟨bs, ht⟩, hk.expanded, hdata, by omega, hle, rfl⟩

/-- `malloc` never gives up: what the first search does not find, the second one does. -/
lemma Ready.malloc_post (hk : Ready k) (hn : n ≠ 0) (hlt : n < 2 ^ 64)
    (hm : malloc fuel n k = some (p, k')) :
    p ≠ 0 ∧ k'.heap.expansions ≤ k.heap.expansions + (if k.heap.data = 0 then 1 else 0) + 1 := by
  cases fuel with
  | zero => simp at hm
  | succ fuel =>
    obtain ⟨k₁, actual, r, hk₁, hlock, hactual, hr, hcases⟩ := malloc_cases hn hm
    obtain ⟨-, hexp, -, h₁, h₂, hcount⟩ := hk.searched hk₁ hlock
    rcases hcases with ⟨-, rfl, rfl⟩ | ⟨-, hheld, -⟩ | ⟨-, -, k₂, hk₂, hrec⟩
    · exact ⟨by omega, by dsimp only; omega⟩
    · rw [hexp] at hheld
      exact absurd hheld (by simp)
    · have hlock₂ := malloc_unlocked hn hrec
      dsimp only at hlock₂
      obtain ⟨i, he⟩ := expand_expanded hk₂ hlock₂
      obtain ⟨hne, hcount₂⟩ := (he.malloc_meets h₁ h₂ hn hlt hactual fuel).post hrec
      dsimp only at hne hcount₂
      exact ⟨hne, by omega⟩

/-- `malloc` returns if the physical allocator has the pages and `required_size` returns. -/
lemma Ready.malloc_returns (hk : Ready k) (hle : n ≤ 2 ^ 63 - 16)
    (hs : Traced.Supplied PMemory.realloc fuel n k) (hf : 2 ^ 64 + 1 ≤ fuel) :
    ∃ p k', malloc fuel n k = some (p, k') := by
  obtain ⟨fuel, rfl⟩ : ∃ fuel', fuel = fuel' + 1 := ⟨fuel - 1, by omega⟩
  by_cases hn : n = 0
  · rw [hn, malloc_size_zero]
    exact ⟨_, _, rfl⟩
  obtain ⟨hfirst, hgrow⟩ := hs hn
  -- the heap that is searched
  obtain ⟨k₁, hk₁, hlock, hmm, hsearched⟩ : ∃ k₁,
      (if k.heap.data = 0 then expand fuel INIT_PAGES k else some k) = some k₁ ∧
      k₁.heap.lock = false ∧ k₁.phys.mmLock = false ∧
      Traced.searched PMemory.realloc fuel k = .ok k₁ := by
    rw [Traced.searched]
    split
    · rename_i hdata
      obtain ⟨k₁, hk₁, h₁, h₂⟩ := expand_returns hk.unlocked hk.mmUnlocked (hfirst hdata) (by omega)
      exact ⟨k₁, hk₁, h₁, h₂, Traced.expand_eq_ok hk₁⟩
    · exact ⟨k, rfl, hk.unlocked, hk.mmUnlocked, rfl⟩
  obtain ⟨hsearch, hexp, -, h₁, h₂, -⟩ := hk.searched hk₁ hlock
  obtain ⟨actual, hreq⟩ := requiredSize_returns hle
  have hactual := hreq fuel (by omega)
  obtain ⟨j, hj, rfl⟩ := requiredSize_pow hactual
  obtain ⟨r, hr⟩ : ∃ r, find fuel { k₁.heap with lock := true } k₁.phys.mem (2 ^ j) = some r :=
    (hsearch.flags true k₁.heap.expanded).find_returns hj (by omega)
  by_cases hfound : r.1 = 0
  · -- nothing fits, and the heap is expanded
    have hgranted := hgrow k₁ _ r hsearched hactual hr hfound hexp
    obtain ⟨k₂, hk₂, hlock₂, -⟩ := expand_returns
      (k := { phys := { k₁.phys with mem := r.2 }, heap := { k₁.heap with lock := false } })
      rfl hmm hgranted (by omega)
    obtain ⟨i, he⟩ := expand_expanded hk₂ hlock₂
    obtain ⟨⟨p, k'⟩, hm, -⟩ := (he.malloc_meets h₁ h₂ hn (by omega) (hreq 63 le_rfl) fuel).returns
      (by omega)
    exact ⟨p, k', by rw [malloc_eq_grown hn hk₁ hlock hactual hr hfound hexp hk₂, hm]⟩
  · exact ⟨_, _, malloc_eq_found hn hk₁ hlock hactual hr hfound⟩

/-- A call of `malloc` that returns was supplied with pages. -/
lemma malloc_supplied (hlock : k.heap.lock = false) (hm : malloc fuel n k = some (p, k')) :
    Traced.Supplied PMemory.realloc fuel n k := by
  rw [← Traced.malloc_disciplined_iff hlock]
  have htraced := Traced.malloc_toOption fuel n k
  rw [hm] at htraced
  cases hres : Traced.malloc PMemory.realloc fuel n k with
  | error why =>
    rw [hres] at htraced
    exact absurd htraced (by simp)
  | ok r =>
    rw [hres] at htraced
    rw [Option.some.inj htraced]
    exact Traced.disciplined_ok.mpr (malloc_lock hlock hm)

/-! ## The main result -/

/-- The call returns, and behind a pointer that it returns there is room for `n` bytes. -/
def Roomy (o : Option (ℕ × Kernel)) (n : ℕ) : Prop :=
  ∃ p k', o = some (p, k') ∧ (p ≠ 0 → n ≤ allocsize p k')

/-- A pointer for a large request: there is less room than was asked for. -/
lemma Ready.malloc_large (hk : Ready k) (hgt : 2 ^ 63 - 16 < n) (hlt : n < 2 ^ 64)
    (hm : malloc fuel n k = some (p, k')) : p ≠ 0 ∧ allocsize p k' < n := by
  have hn : n ≠ 0 := by omega
  obtain ⟨hp, -⟩ := hk.malloc_post hn hlt hm
  obtain ⟨-, f, actual, hactual, hroom⟩ := malloc_allocsize hn hp hm
  refine ⟨hp, ?_⟩
  by_cases hle : n + 32 ≤ 2 ^ 64
  · rw [requiredSize_never hgt hle] at hactual
    exact absurd hactual (by simp)
  · have hwrap := requiredSize_wraps (by omega) hlt
    rw [hroom, requiredSize_unique hactual hwrap, Word64.sub_of_le (by norm_num) le_rfl]
    omega

lemma Ready.malloc_roomy_iff (hk : Ready k) (hlt : n < 2 ^ 64) (hf : 2 ^ 64 + 1 ≤ fuel) :
    Roomy (malloc fuel n k) n ↔ n ≤ 2 ^ 63 - 16 ∧ Traced.Supplied PMemory.realloc fuel n k := by
  constructor
  · rintro ⟨p, k', hm, hroom⟩
    refine ⟨?_, malloc_supplied hk.unlocked hm⟩
    by_contra hgt
    obtain ⟨hp, hless⟩ := hk.malloc_large (by omega) hlt hm
    have := hroom hp
    omega
  · rintro ⟨hle, hs⟩
    obtain ⟨p, k', hm⟩ := hk.malloc_returns hle hs hf
    refine ⟨p, k', hm, fun hp => ?_⟩
    by_cases hn : n = 0
    · omega
    obtain ⟨-, f, actual, hactual, hroom⟩ := malloc_allocsize hn hp hm
    obtain ⟨actual', hactual', hle'⟩ := requiredSize_le (j := 63) (n := n) (by norm_num)
      (by norm_num) (by omega)
    obtain ⟨j, -, hj, hge⟩ := requiredSize_post hn (by omega) hactual
    have hword : actual < 2 ^ 64 := by
      rw [requiredSize_unique hactual hactual']
      omega
    rw [hroom, Word64.sub_of_le hword (by omega)]
    omega

/-- The bytes that `calloc` clears come after the header. -/
lemma allocsize_memset (h16 : 16 < p) : allocsize p { k with phys := { k.phys with
    mem := memset k.phys.mem p 0 n } } = allocsize p k := by
  have hsize : blockSize (memset k.phys.mem p 0 n) (p - 16) = blockSize k.phys.mem (p - 16) := by
    refine load_congr fun x _ hx => ?_
    rw [memset, fill_outside (by omega)]
  simp only [allocsize, hsize]

lemma Ready.calloc_roomy_iff (hk : Ready k) {num : ℕ} (hf : 2 ^ 64 + 1 ≤ fuel) :
    Roomy (calloc fuel num size k) (num * size) ↔
      (Word64.mul num size = 0 ∨ num * size ≤ 2 ^ 63 - 16) ∧
        Traced.Supplied PMemory.realloc fuel (Word64.mul num size) k := by
  have hlt : Word64.mul num size < 2 ^ 64 := by
    rw [Word64.mul]
    omega
  constructor
  · rintro ⟨p, k', hc, hroom⟩
    obtain ⟨k₁, hm, hcases⟩ := calloc_cases hc
    refine ⟨?_, malloc_supplied hk.unlocked hm⟩
    by_contra hlarge
    simp only [not_or, not_le] at hlarge
    obtain ⟨hp, -⟩ := hk.malloc_post hlarge.1 hlt hm
    obtain ⟨h16, f, actual, -, hsize⟩ := malloc_allocsize hlarge.1 hp hm
    obtain ⟨-, rfl⟩ := hcases.resolve_left fun h => hp h.1
    have hle := hroom hp
    rw [allocsize_memset h16] at hle
    by_cases hword : num * size < 2 ^ 64
    · -- the product does not wrap around
      rw [Word64.mul_of_lt hword] at hm
      have := (hk.malloc_large hlarge.2 hword hm).2
      omega
    · rw [hsize, Word64.sub] at hle
      omega
  · rintro ⟨hsmall, hs⟩
    by_cases hzero : Word64.mul num size = 0
    · obtain ⟨fuel, rfl⟩ : ∃ fuel', fuel = fuel' + 1 := ⟨fuel - 1, by omega⟩
      refine ⟨0, k, ?_, fun h => absurd rfl h⟩
      rw [calloc, hzero, malloc_size_zero, Option.map_some, if_pos rfl]
    have hle := hsmall.resolve_left hzero
    have hmul : Word64.mul num size = num * size := Word64.mul_of_lt (by omega)
    obtain ⟨p, k', hm, hroom⟩ := (hk.malloc_roomy_iff hlt hf).mpr ⟨by rw [hmul]; exact hle, hs⟩
    rw [Roomy, calloc, hm, Option.map_some]
    by_cases hp : p = 0
    · rw [if_pos hp]
      exact ⟨0, k', rfl, fun h => absurd rfl h⟩
    · rw [if_neg hp]
      refine ⟨p, _, rfl, fun _ => ?_⟩
      rw [allocsize_memset (malloc_allocsize hzero hp hm).1, ← hmul]
      exact hroom hp

/-- **The room behind a pointer.**  A call of `malloc` or `calloc` on a heap between two calls
returns, with room for every byte that was asked for, exactly if the request is at most
`2 ^ 63 - 16` bytes, or is multiplied to zero, and the physical allocator has the pages. -/
theorem enough_room_iff {num : ℕ} (hk : Ready k) (hn : n < 2 ^ 64) (hf : 2 ^ 64 + 1 ≤ fuel) :
    (Roomy (malloc fuel n k) n ↔
      n ≤ 2 ^ 63 - 16 ∧ Traced.Supplied PMemory.realloc fuel n k) ∧
    (Roomy (calloc fuel num size k) (num * size) ↔
      (Word64.mul num size = 0 ∨ num * size ≤ 2 ^ 63 - 16) ∧
        Traced.Supplied PMemory.realloc fuel (Word64.mul num size) k) := by
  constructor
  · exact hk.malloc_roomy_iff hn hf
  · exact hk.calloc_roomy_iff hf

/-- The empty heap is between two calls. -/
lemma start_ready {s : Phys} (hs : s.mmLock = false) : Ready (start s).kernel where
  unlocked := rfl
  mmUnlocked := hs
  expanded := rfl
  empty _ := rfl
  arena h := absurd rfl h

lemma bigPhys_ready : Ready (start bigPhys).kernel := by
  obtain ⟨buffer, hinv, -⟩ := bigPhys_reachable.inv bigMap_bootable
  exact start_ready hinv.unlocked

/-- The two conditions for the first request on the large machine. -/
theorem enough_room_bigMap :
    (Roomy (malloc (2 ^ 64 + 1) 1 (start bigPhys).kernel) 1 ↔
      1 ≤ 2 ^ 63 - 16 ∧ Traced.Supplied PMemory.realloc (2 ^ 64 + 1) 1 (start bigPhys).kernel) ∧
    (Roomy (calloc (2 ^ 64 + 1) 2 3 (start bigPhys).kernel) (2 * 3) ↔
      (Word64.mul 2 3 = 0 ∨ 2 * 3 ≤ 2 ^ 63 - 16) ∧
        Traced.Supplied PMemory.realloc (2 ^ 64 + 1) (Word64.mul 2 3) (start bigPhys).kernel) :=
  enough_room_iff bigPhys_ready (by norm_num) le_rfl

/-- A request for half of the address space does not return. -/
theorem malloc_never :
    Ready (start bigPhys).kernel ∧ ∀ fuel, malloc fuel (2 ^ 63) (start bigPhys).kernel = none := by
  refine ⟨bigPhys_ready, fun fuel => ?_⟩
  cases hm : malloc fuel (2 ^ 63) (start bigPhys).kernel with
  | none => rfl
  | some r =>
    cases fuel with
    | zero => simp at hm
    | succ fuel =>
      obtain ⟨k₁, actual, -, -, -, hactual, -⟩ := malloc_cases (by norm_num) hm
      rw [requiredSize_never (by norm_num) (by norm_num)] at hactual
      exact absurd hactual (by simp)

end TurbOS.Heap
