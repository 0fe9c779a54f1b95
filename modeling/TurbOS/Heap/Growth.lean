import TurbOS.Heap.Client

/-!
# Growing the heap

When no block fits, `malloc` calls `expand`, which asks `pMemory::realloc` for a larger
extent and lays it out as one free block.  The new extent is never the old one: its pages
were free in the bitmap while the old ones were marked.  So the arena moves, the headers
are rewritten, and no pointer of a client points into the heap any more.

Growing is harmless exactly when nothing is live.
-/

open ByteMemory Tiling Fuel

namespace TurbOS.Heap

variable {g : PMemory.Geometry} {others : List PMemory.Extent} {k k' : Kernel}
  {bs : List Block} {live : List Alloc} {fuel n p : ℕ}

/-- The allocation survives a call that turns `k` into `k'` and returns `p`: its block is
not free, its payload is unchanged, its pointer lies in the heap, and the new block does
not overlap its block. -/
structure Kept (k k' : Kernel) (p : ℕ) (al : Alloc) : Prop where
  used : blockFree k'.phys.mem (al.ptr - 16) = false
  payload : ∀ x, al.ptr ≤ x → x < al.ptr + allocsize al.ptr k → k'.phys.mem x = k.phys.mem x
  inside : k'.heap.head ≤ al.ptr ∧ al.ptr < k'.heap.tail
  apart : p + allocsize p k' + 16 ≤ al.ptr ∨ al.ptr + allocsize al.ptr k + 16 ≤ p

/-- After `expand`, the retry of `malloc` stays in the new arena. -/
lemma malloc_retry (hn : n ≠ 0) (hdata : k.heap.data ≠ 0) (hexp : k.heap.expanded = true)
    (h : malloc fuel n k = some (p, k')) :
    k'.heap.head = k.heap.head ∧ k'.heap.tail = k.heap.tail := by
  cases fuel with
  | zero => simp at h
  | succ fuel =>
    obtain ⟨k₁, actual, r, hk₁, -, -, -, hcases⟩ := malloc_cases hn h
    rw [if_neg hdata] at hk₁
    obtain rfl := Option.some.inj hk₁
    rcases hcases with ⟨-, -, rfl⟩ | ⟨-, -, -, rfl⟩ | ⟨-, hfalse, -⟩
    · exact ⟨rfl, rfl⟩
    · exact ⟨rfl, rfl⟩
    · rw [hexp] at hfalse
      exact absurd hfalse (by simp)

/-- A `malloc` that grows the heap moves the arena to other pages. -/
lemma Sound.malloc_moves (hk : Sound g others k bs live) (hlt : n + 32 ≤ 2 ^ 64)
    (hdata : k.heap.data ≠ 0) (h : Heap.malloc fuel n k = some (p, k'))
    (hgrow : k.heap.expansions < k'.heap.expansions) :
    ∃ e : PMemory.Extent, e.ptr = e.first * 0x1000 ∧
      e.Apart ⟨k.heap.data, k.heap.pages⟩ ∧ k'.heap.head = e.ptr ∧
      k'.heap.tail = e.ptr + e.count * 0x1000 := by
  cases fuel with
  | zero => simp [Heap.malloc] at h
  | succ fuel =>
    have hn : n ≠ 0 := by
      rintro rfl
      rw [Heap.malloc, if_pos rfl] at h
      rw [(Prod.mk.inj (Option.some.inj h)).2] at hgrow
      omega
    obtain ⟨k₁, actual, r, hk₁, -, hactual, hr, hcases⟩ := malloc_cases hn h
    rw [if_neg hdata] at hk₁
    obtain rfl := Option.some.inj hk₁
    obtain ⟨bs₂, s, hs₂, -, -⟩ := hk.find hdata hn hlt hactual hr
    rcases hcases with ⟨-, -, rfl⟩ | ⟨-, -, -, rfl⟩ | ⟨-, -, k₂, hk₂, hrec⟩
    · exact absurd hgrow (lt_irrefl _)
    · exact absurd hgrow (lt_irrefl _)
    · obtain ⟨-, hheld | ⟨size, q, s', hmod, hpow, hq, hrealloc, rfl⟩⟩ := expand_cases hk₂
      · have := malloc_unlocked hn hrec
        dsimp only at this
        rw [hheld] at this
        exact absurd this (by simp)
      · obtain ⟨hinv, hapart⟩ := (hs₂.flags false k.heap.expanded _).realloc_pages hq hrealloc
        obtain ⟨h₁, h₂⟩ := malloc_retry hn (by exact hq) rfl hrec
        have htail := (laidOut_sound (k := { k with
          phys := { k.phys with mem := r.2 }, heap := { k.heap with lock := false } })
          hmod hpow hinv).2
        refine ⟨⟨q, size / 0x1000⟩, hinv.aligned _ List.mem_cons_self, hapart hdata, h₁, ?_⟩
        rw [h₂]
        dsimp only at htail ⊢
        omega

/-- No live pointer points into the arena after the heap has grown. -/
lemma Good.grown_outside {c : Client} (hc : Good g others c) (hlt : n + 32 ≤ 2 ^ 64)
    (h : Heap.malloc fuel n c.kernel = some (p, k'))
    (hgrow : c.kernel.heap.expansions < k'.heap.expansions) {al : Alloc} (hal : al ∈ c.live) :
    ¬ (k'.heap.head ≤ al.ptr ∧ al.ptr < k'.heap.tail) := by
  rintro ⟨h₁, h₂⟩
  obtain ⟨bs, hs⟩ := hc.sound
  have hdata : c.kernel.heap.data ≠ 0 := fun hdata => by
    rw [hs.live_eq_nil hdata] at hal
    simp at hal
  obtain ⟨e, hal', hapart, hhead, htail⟩ := hs.malloc_moves hlt hdata h hgrow
  obtain ⟨a, hused, hptr, -⟩ := hs.block hal
  have hb := spans_bounds hused
  have hsum := hs.shape.sum
  have heq := hs.shape.data_eq
  have hmem : (⟨c.kernel.heap.data, c.kernel.heap.pages⟩ : PMemory.Extent) ∈
      arena c.kernel.heap ++ others := by
    simp [arena, hdata]
  have haligned := hs.pages.aligned _ hmem
  have h32 := hs.shape.size_ge _ (mem_of_mem_spans hused)
  dsimp only at hb h32 haligned
  -- the page of the pointer would belong to the old and to the new arena
  exact hapart (al.ptr / 0x1000) ⟨by omega, by omega⟩ ⟨by omega, by dsimp only; omega⟩

/-! ## A second client on the large machine -/

/-- A request that does not fit into an arena of one block in use makes the heap grow. -/
lemma malloc_second {s s' : Phys} {q q' : ℕ} (hq : q ≠ 0) (hq' : q' ≠ 0)
    (hsize : blockSize s.mem q = 2 ^ 21) (hused : blockFree s.mem q = false)
    (hrealloc : PMemory.realloc q INIT_PAGES 1024 s = some (q', s')) :
    ∃ k', malloc 66 (2 ^ 21 - 1) ⟨s, firstHeap q⟩ = some (q' + 16, k') ∧
      k'.heap.expansions = 2 := by
  have hfull : find 65 { firstHeap q with lock := true } s.mem (2 ^ 22) = some (0, s.mem) :=
    find_full (by norm_num) (by rw [next, firstHeap, hsize]) hused
  have hround : alignUp2 65 0x1000 (Word64.mul (Word64.add ((2 ^ 21 - 1) / 0x1000 + 1) INIT_PAGES)
      0x1000) = some (2 ^ 22) := by
    decide +kernel
  have hsize' : blockSize (setFree (setSize s'.mem q' (2 ^ 22)) q' true) q' = 2 ^ 22 := by
    rw [blockSize_setFree, blockSize_setSize (by norm_num)]
  generalize hk : (⟨s, firstHeap q⟩ : Kernel) = k
  have hexp : expand 65 ((2 ^ 21 - 1) / 0x1000 + 1) k = some (laidOut k (2 ^ 22) q' s') := by
    subst hk
    exact expand_eq rfl (by norm_num) hround hrealloc hq'
  have hreq : requiredSize 65 (2 ^ 21 - 1) = some (2 ^ 22) := by decide +kernel
  have hreq' : requiredSize 64 (2 ^ 21 - 1) = some (2 ^ 22) := by decide +kernel
  generalize hk₂ : (⟨(laidOut k (2 ^ 22) q' s').phys,
    { (laidOut k (2 ^ 22) q' s').heap with expanded := true }⟩ : Kernel) = k₂
  have hgrown : malloc 66 (2 ^ 21 - 1) k = malloc 65 (2 ^ 21 - 1) k₂ := by
    subst hk hk₂
    exact malloc_eq_grown (by norm_num) (if_neg hq) rfl hreq hfull rfl rfl hexp
  -- the second search finds the new arena empty, and of the size asked for
  have hwhole : find 64 { k₂.heap with lock := true } k₂.phys.mem (2 ^ 22) =
      some (q', k₂.phys.mem) := by
    subst hk₂
    exact find_whole hq' hsize' (by norm_num) (by simp only [laidOut, next, hsize'])
      blockFree_setFree
  have hdata : (if k₂.heap.data = 0 then expand 64 INIT_PAGES k₂ else some k₂) = some k₂ := by
    subst hk₂
    exact if_neg hq'
  rw [hgrown]
  refine ⟨_, malloc_eq_found (by norm_num) hdata (by subst hk₂; rfl) hreq' hwhole hq', ?_⟩
  subst hk hk₂
  rfl

/-- A client takes the whole arena of the large machine, and another one asks for two
megabytes. -/
lemma bigMap_second :
    ∃ c k', CalmReachable (PMemory.init bigMap { mem := fun _ => 0 }) c ∧
      c.live = [⟨0x2010, 2 ^ 21 - 16⟩] ∧ malloc 66 (2 ^ 21 - 1) c.kernel = some (0x202010, k') ∧
      c.kernel.heap.expansions < k'.heap.expansions := by
  obtain ⟨s, hs, hmem, hbuffer, hhigh, hlast, hlock⟩ := bigMap_alloc
  have hget := fun i hi => bigMap_get (i := i) hi
  generalize PMemory.init bigMap { mem := fun _ => 0 } = s₀ at *
  have hr : CalmReachable s₀ _ :=
    .single ⟨.malloc (by norm_num) (malloc_initial hs (by norm_num)), .inl rfl⟩
  generalize hm : setFree (setFree (setSize s.mem 0x2000 (2 ^ 21)) 0x2000 true) 0x2000 false =
    m at hr
  -- the pages after the arena are still free
  have hclear : ∀ i, 514 ≤ i → i < 514 + 1024 → Bitmap.get m 0x1000 i = false := by
    intro i h₁ h₂
    have hbyte : m (0x1000 + i / 8) = Bitmap.setRange s₀.mem 0x1000 2 true INIT_PAGES
        (0x1000 + i / 8) := by
      rw [← hm, setFree_outside (by omega), setFree_outside (by omega), setSize_outside (by omega),
        hmem, memset, fill_outside (by omega)]
    rw [Bitmap.get_congr hbyte, Bitmap.get_setRange, if_neg (by rw [INIT_PAGES]; omega),
      hget i (by omega), decide_eq_false (by omega)]
  obtain ⟨s', hrealloc⟩ :
      ∃ s', PMemory.realloc 0x2000 INIT_PAGES 1024 { s with mem := m } = some (514 * 0x1000, s') :=
    PMemory.realloc_found (by norm_num) hlock hlast.le (by norm_num) (by norm_num)
      (by rw [hhigh]; norm_num) (fun i h₁ h₂ => by rw [hlast] at h₁; omega)
      (by rw [hbuffer]; exact hclear)
  obtain ⟨k', hk', hexp⟩ := malloc_second (s := { s with mem := m }) (by norm_num) (by norm_num)
    (by rw [← hm, blockSize_setFree, blockSize_setFree, blockSize_setSize (by norm_num)])
    (by rw [← hm]; exact blockFree_setFree) hrealloc
  exact ⟨_, k', hr, rfl, hk', by rw [hexp]; exact one_lt_two⟩

/-! ## The main result -/

/-- **Growing the heap loses what is allocated.**  In a run in which the heap never grew
while something was live, a request that makes the heap grow keeps all live allocations
exactly when there are none. -/
theorem growth_keeps_iff {mm : List PMemory.MmapEntry} {m : Mem} {h : PMemory.Held} {c : Client}
    (hb : PMemory.Bootable mm) (hp : PMemory.Reachable mm m h) (hr : CalmReachable h.phys c)
    (hn : n < 2 ^ 62) (hs : malloc fuel n c.kernel = some (p, k'))
    (hgrow : c.kernel.heap.expansions < k'.heap.expansions) :
    (∀ al ∈ c.live, Kept c.kernel k' p al) ↔ c.live = [] := by
  obtain ⟨buffer, hinv, -⟩ := hp.inv hb
  have hc := hr.good hinv
  constructor
  · intro hkept
    refine List.eq_nil_iff_forall_not_mem.mpr fun al hal => ?_
    exact hc.grown_outside (by omega) hs hgrow hal (hkept al hal).inside
  · intro hnil
    simp [hnil]

/-- On the large machine the pointer of the first client is outside the heap after the
second request. -/
theorem growth_loses_allocation :
    ∃ c p k', CalmReachable (PMemory.init bigMap { mem := fun _ => 0 }) c ∧
      c.live = [⟨0x2010, 2 ^ 21 - 16⟩] ∧ malloc 66 (2 ^ 21 - 1) c.kernel = some (p, k') ∧ p ≠ 0 ∧
      c.kernel.heap.expansions < k'.heap.expansions ∧ ¬ ∀ al ∈ c.live, Kept c.kernel k' p al := by
  have hp : PMemory.Reachable bigMap (fun _ => 0) ⟨PMemory.init bigMap { mem := fun _ => 0 }, []⟩ :=
    .init
  obtain ⟨buffer, hinv, -⟩ := hp.inv bigMap_bootable
  obtain ⟨c, k', hr, hlive, hk', hgrow⟩ := bigMap_second
  generalize PMemory.init bigMap { mem := fun _ => 0 } = s₀ at *
  refine ⟨c, _, k', hr, hlive, hk', by norm_num, hgrow, fun hkept => ?_⟩
  have hal : (⟨0x2010, 2 ^ 21 - 16⟩ : Alloc) ∈ c.live := by simp [hlive]
  exact (hr.good hinv).grown_outside (by norm_num) hk' hgrow hal (hkept _ hal).inside

/-- The condition fails on the large machine, where one allocation is live. -/
theorem growth_keeps_iff_bigMap :
    ∃ (c : Client) (k' : Kernel), malloc 66 (2 ^ 21 - 1) c.kernel = some (0x202010, k') ∧
      c.live = [⟨0x2010, 2 ^ 21 - 16⟩] ∧
      ((∀ al ∈ c.live, Kept c.kernel k' 0x202010 al) ↔ c.live = []) := by
  have hp : PMemory.Reachable bigMap (fun _ => 0) ⟨PMemory.init bigMap { mem := fun _ => 0 }, []⟩ :=
    .init
  obtain ⟨c, k', hr, hlive, hk', hgrow⟩ := bigMap_second
  generalize PMemory.init bigMap { mem := fun _ => 0 } = s₀ at *
  exact ⟨c, k', hk', hlive, growth_keeps_iff bigMap_bootable hp hr (by norm_num) hk' hgrow⟩

end TurbOS.Heap
