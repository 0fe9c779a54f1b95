import TurbOS.Heap.Client
import TurbOS.Heap.Layout

/-!
# The operations on layouts

The headers in memory determine the layout of the arena.  `malloc`, when it finds a block, and
`free` change the layout as the functions of `Layout` say, and they return if they are given
enough fuel.
-/

open ByteMemory Tiling Fuel

namespace TurbOS.Heap

variable {g : PMemory.Geometry} {others : List PMemory.Extent} {k k' : Kernel} {m : Mem} {a t : ℕ}
  {bs bs' : List Block} {live : List Alloc} {al : Alloc} {fuel n p : ℕ}

/-- Mark the block at the address `c`. -/
def Layout.mark (c : ℕ) (free : Bool) : ℕ → List Block → List Block
  | _, [] => []
  | a, b :: bs => if a = c then ⟨b.size, free⟩ :: bs else b :: Layout.mark c free (a + b.size) bs

lemma Layout.mark_append {pre post : List Block} {b : Block} (free : Bool)
    (hpos : ∀ b ∈ pre, 0 < b.size) :
    Layout.mark (a + total pre) free a (pre ++ b :: post) = pre ++ ⟨b.size, free⟩ :: post := by
  induction pre generalizing a with
  | nil => simp [Layout.mark]
  | cons d pre ih =>
    have hd := hpos d (by simp)
    have hih := ih (a := a + d.size) fun b hb => hpos b (by simp [hb])
    rw [List.cons_append, Layout.mark, if_neg (by simp; omega), total_cons, ← Nat.add_assoc, hih,
      List.cons_append]

lemma PowersFrom.mark {j : ℕ} (h : PowersFrom j bs) (c : ℕ) (free : Bool) (a : ℕ) :
    PowersFrom j (Layout.mark c free a bs) := by
  induction bs generalizing a with
  | nil => exact h
  | cons b bs ih =>
    have hb := h b (by simp)
    rw [Layout.mark]
    split
    · intro b' hb'
      rcases List.mem_cons.mp hb' with rfl | hb'
      · exact hb
      · exact h b' (by simp [hb'])
    · intro b' hb'
      rcases List.mem_cons.mp hb' with rfl | hb'
      · exact hb
      · exact ih (fun d hd => h d (by simp [hd])) _ b' hb'

/-- The headers determine the layout. -/
lemma Tiles.unique (h : Tiles m a bs t) (h' : Tiles m a bs' t) (hpos : ∀ b ∈ bs, 0 < b.size)
    (hpos' : ∀ b ∈ bs', 0 < b.size) : bs = bs' := by
  induction bs generalizing a bs' with
  | nil =>
    cases bs' with
    | nil => rfl
    | cons b bs' =>
      have h₁ := h.end_eq
      have h₂ := h'.end_eq
      have h₃ := hpos' b (by simp)
      simp at h₁ h₂
      omega
  | cons b bs ih =>
    cases bs' with
    | nil =>
      have h₁ := h.end_eq
      have h₂ := h'.end_eq
      have h₃ := hpos b (by simp)
      simp at h₁ h₂
      omega
    | cons b' bs' =>
      obtain ⟨hsize, hfree, hrest⟩ := h
      obtain ⟨hsize', hfree', hrest'⟩ := h'
      have hb : b = b' := by
        cases b
        cases b'
        simp_all
      subst hb
      rw [ih hrest hrest' (fun b hb => hpos b (by simp [hb])) fun b hb => hpos' b (by simp [hb])]

lemma PowersFrom.four (h : PowersFrom 5 bs) : PowersFrom 4 bs := by
  intro b hb
  obtain ⟨j, hj, hsize⟩ := h b hb
  exact ⟨j, by omega, hsize⟩

/-- A layout as it is in a heap that is in order. -/
lemma Sound.tiles_unique (hk : Sound g others k bs live)
    (h : Tiles k.phys.mem k.heap.head bs' k.heap.tail) (hpos : ∀ b ∈ bs', 0 < b.size) : bs' = bs :=
  h.unique hk.shape.tiles hpos hk.shape.powers.pos

/-! ## `malloc` -/

/-- The search in a heap that is in order. -/
lemma Sound.find_layout (hk : Sound g others k bs live) (hdata : k.heap.data ≠ 0) {actual f : ℕ}
    (hreq : requiredSize f n = some actual) (fuel : ℕ) :
    Meets (total bs < fuel) (Heap.find fuel { k.heap with lock := true } k.phys.mem actual) fun r =>
      r.1 = (Layout.find actual k.heap.head bs).1 ∧
        Tiles r.2 k.heap.head (Layout.find actual k.heap.head bs).2 k.heap.tail ∧
        PowersFrom 4 (Layout.find actual k.heap.head bs).2 := by
  obtain ⟨j, hj, rfl⟩ := requiredSize_pow hreq
  have hs := hk.shape
  have hhead : k.heap.head ≠ 0 := by rw [← hs.data_eq]; exact hdata
  exact Heap.find_layout (h := { k.heap with lock := true }) hs.tiles (PowersFrom.four hs.powers)
    (fun hnil => hdata (hs.empty_iff.mpr hnil)) hs.tail_lt hhead hj fuel

/-- If the layout has a block for the request, `malloc` takes it. -/
lemma Sound.malloc_found (hk : Sound g others k bs live) (hdata : k.heap.data ≠ 0)
    (hlock : k.heap.lock = false) (hn : n ≠ 0) {actual f : ℕ}
    (hreq : requiredSize f n = some actual)
    (hfound : (Layout.find actual k.heap.head bs).1 ≠ 0) (hfuel : max f (total bs + 1) < fuel) :
    ∃ k', Heap.malloc fuel n k = some ((Layout.find actual k.heap.head bs).1 + 16, k') ∧
      k'.heap = { k.heap with expanded := false, lock := false } := by
  obtain ⟨fuel, rfl⟩ : ∃ fuel', fuel = fuel' + 1 := ⟨fuel - 1, by omega⟩
  obtain ⟨r, hr, haddr, -⟩ := (hk.find_layout hdata hreq fuel).returns (by omega)
  have hmalloc := malloc_eq_found hn (if_neg hdata) hlock (requiredSize_mono (by omega) hreq) hr
    (by rw [haddr]; exact hfound)
  rw [haddr] at hmalloc
  exact ⟨_, hmalloc, rfl⟩

/-- If the layout has no block for the request, `malloc` expands the heap, or gives up after
an expansion. -/
lemma Sound.malloc_not_found (hk : Sound g others k bs live) (hdata : k.heap.data ≠ 0) (hn : n ≠ 0)
    {actual f : ℕ} (hreq : requiredSize f n = some actual)
    (hnone : (Layout.find actual k.heap.head bs).1 = 0)
    (h : Heap.malloc fuel n k = some (p, k')) :
    k.heap.expanded = true ∨ k.heap.expansions < k'.heap.expansions := by
  cases fuel with
  | zero => simp [Heap.malloc] at h
  | succ fuel =>
    obtain ⟨k₁, actual', r, hk₁, -, hactual, hr, hcases⟩ := malloc_cases hn h
    rw [if_neg hdata] at hk₁
    obtain rfl := Option.some.inj hk₁
    obtain rfl := requiredSize_unique hreq hactual
    have haddr := ((hk.find_layout hdata hreq fuel).post hr).1
    rcases hcases with ⟨hne, -⟩ | ⟨-, hexp, -⟩ | ⟨-, -, k₂, hk₂, hrec⟩
    · exact absurd (haddr.trans hnone) hne
    · exact .inl hexp
    · have h₁ := (expand_cases hk₂).1
      have h₂ := malloc_expansions hrec
      dsimp only at h₁ h₂
      exact .inr (by omega)

/-- The layout after a `malloc` that did not expand the heap. -/
lemma Sound.malloc_layout (hk : Sound g others k bs live) (hdata : k.heap.data ≠ 0) (hn : n ≠ 0)
    (hlt : n + 32 ≤ 2 ^ 64) (hexp : k.heap.expanded = false)
    (h : Heap.malloc fuel n k = some (p, k')) (hsame : k'.heap.expansions = k.heap.expansions) :
    ∃ actual f, requiredSize f n = some actual ∧ (Layout.find actual k.heap.head bs).1 ≠ 0 ∧
      p = (Layout.find actual k.heap.head bs).1 + 16 ∧
      k'.heap = { k.heap with expanded := false, lock := false } ∧
      Tiles k'.phys.mem k.heap.head (Layout.mark (Layout.find actual k.heap.head bs).1 false
        k.heap.head (Layout.find actual k.heap.head bs).2) k.heap.tail ∧
      PowersFrom 4 (Layout.find actual k.heap.head bs).2 := by
  cases fuel with
  | zero => simp [Heap.malloc] at h
  | succ fuel =>
    obtain ⟨k₁, actual, r, hk₁, -, hactual, hr, hcases⟩ := malloc_cases hn h
    rw [if_neg hdata] at hk₁
    obtain rfl := Option.some.inj hk₁
    obtain ⟨haddr, htiles, hpow⟩ := (hk.find_layout hdata hactual fuel).post hr
    refine ⟨actual, fuel, hactual, ?_⟩
    rcases hcases with ⟨hne, rfl, rfl⟩ | ⟨-, hexp', -⟩ | ⟨-, -, k₂, hk₂, hrec⟩
    · rw [← haddr]
      refine ⟨hne, rfl, rfl, ?_, hpow⟩
      obtain ⟨bs₂, s, hs₂, -, hres⟩ := hk.find hdata hn hlt hactual hr
      obtain rfl : (Layout.find actual k.heap.head bs).2 = bs₂ :=
        hs₂.tiles_unique htiles hpow.pos
      obtain ⟨pre, post, heq, haddr'⟩ := mem_spans_iff.mp (hres.resolve_left hne)
      rw [heq] at htiles hpow ⊢
      rw [haddr', Layout.mark_append false fun b hb => hpow.pos b (by simp [hb])]
      refine htiles.mark fun b hb => ?_
      have := hpow.le_size hb
      omega
    · rw [hexp] at hexp'
      simp at hexp'
    · have h₁ := (expand_cases hk₂).1
      have h₂ := malloc_expansions hrec
      dsimp only at h₁ h₂
      omega

/-! ## `free` -/

/-- `free` of a live pointer marks the block and coalesces, and returns. -/
lemma Sound.free_layout (hk : Sound g others k bs live) (hal : al ∈ live)
    (hlock : k.heap.lock = false) (fuel : ℕ) :
    Meets (total bs < fuel) (Heap.free fuel al.ptr k) fun k' =>
      k'.heap = { k.heap with lock := false } ∧
        Tiles k'.phys.mem k.heap.head (Layout.coalescence bs.length
          (Layout.mark (al.ptr - 16) true k.heap.head bs)) k.heap.tail := by
  have hs := hk.shape
  obtain ⟨c, s, hc, hptr, -⟩ := hk.owned.block al hal
  have hbounds := spans_bounds hc
  have h32 := hs.size_ge _ (mem_of_mem_spans hc)
  have hend := hs.tiles.end_eq
  have hdata : k.heap.data ≠ 0 := fun hdata => by
    rw [hk.live_eq_nil hdata] at hal
    simp at hal
  obtain ⟨pre, post, rfl, rfl⟩ := mem_spans_iff.mp hc
  dsimp only at hbounds h32
  have hblock : al.ptr - 16 = k.heap.head + total pre := by omega
  have hpow : PowersFrom 4 (pre ++ ⟨s, true⟩ :: post) := by
    intro b hb
    rw [List.mem_append, List.mem_cons] at hb
    rcases hb with hb | rfl | hb
    · exact PowersFrom.four hs.powers b (by simp [hb])
    · exact PowersFrom.four hs.powers ⟨s, false⟩ (by simp)
    · exact PowersFrom.four hs.powers b (by simp [hb])
  rw [hblock, Layout.mark_append true fun b hb => hpow.pos b (by simp [hb]), Heap.free,
    if_neg hdata, if_neg (by omega), if_neg (by omega), if_neg (by omega), acquire,
    if_neg (by simp [hlock]), Option.bind_some, hblock]
  have hm : Tiles (setFree k.phys.mem (k.heap.head + total pre) true) k.heap.head
      (pre ++ ⟨s, true⟩ :: post) k.heap.tail := by
    refine hs.tiles.mark fun b hb => ?_
    have := PowersFrom.le_size (PowersFrom.four hs.powers) hb
    omega
  have hlen : (pre ++ ⟨s, false⟩ :: post).length = (pre ++ ⟨s, true⟩ :: post).length := by simp
  have htotal : total (pre ++ ⟨s, false⟩ :: post) = total (pre ++ ⟨s, true⟩ :: post) := by simp
  rw [hlen, htotal]
  refine Meets.map (coalescence_layout (h := { k.heap with lock := true }) hm hpow (by simp)
    hs.tail_lt fuel) fun m hm => ?_
  exact ⟨rfl, hm⟩

/-! ## Runs -/

variable {c c' : Client}

/-- `malloc` does not return with the lock held. -/
lemma malloc_lock (hlock : k.heap.lock = false) (h : malloc fuel n k = some (p, k')) :
    k'.heap.lock = false := by
  rcases malloc_end h with ⟨-, rfl⟩ | ⟨hreleased, -⟩
  · exact hlock
  · exact hreleased

lemma free_lock (hlock : k.heap.lock = false) (h : free fuel p k = some k') :
    k'.heap.lock = false := by
  rcases free_cases h with ⟨rfl, -⟩ | ⟨m, -, rfl⟩
  · exact hlock
  · rfl

/-- No call returns with the lock held. -/
lemma Step.unlocked (hs : Step c c') (hlock : c.kernel.heap.lock = false) :
    c'.kernel.heap.lock = false := by
  cases hs with
  | malloc hn h => exact malloc_lock hlock h
  | calloc hn h =>
    obtain ⟨k₁, hmalloc, ⟨-, rfl⟩ | ⟨-, rfl⟩⟩ := calloc_cases h
    all_goals
      have hlock₁ := malloc_lock hlock hmalloc
      exact hlock₁
  | reallocNull hn h =>
    rw [Heap.realloc, if_pos rfl] at h
    exact malloc_lock hlock h
  | @realloc al fuel n p k hal hn h =>
    by_cases hp : al.ptr = 0
    · rw [Heap.realloc, if_pos hp] at h
      exact malloc_lock hlock h
    rcases realloc_cases hp h with ⟨-, -, hfree⟩ | ⟨-, -, hmalloc⟩ |
      ⟨-, -, k₁, len, -, hmalloc, hfree⟩
    · exact free_lock hlock hfree
    · exact malloc_lock hlock hmalloc
    · have hlock₁ := malloc_lock hlock hmalloc
      exact free_lock (by exact hlock₁) hfree
  | freeNull h => exact free_lock hlock h
  | free hal h => exact free_lock hlock h
  | write hal h₁ h₂ => exact hlock

lemma Reachable.unlocked {s : Phys} (hr : Reachable s c) : c.kernel.heap.lock = false := by
  induction hr with
  | refl => rfl
  | tail _ hs ih => exact hs.unlocked ih

/-- The first request lays out an arena of one block and starts again there. -/
lemma Sound.malloc_laidOut (hk : Sound g others k bs live) (hdata : k.heap.data = 0) (hn : n ≠ 0)
    (h : Heap.malloc (fuel + 1) n k = some (p, k')) :
    ∃ k₁ size, Sound g others k₁ [⟨size, true⟩] [] ∧ k₁.heap.data ≠ 0 ∧
      k₁.heap.expanded = k.heap.expanded ∧ k.heap.expansions < k₁.heap.expansions ∧
      Heap.malloc (fuel + 1) n k₁ = some (p, k') := by
  have hcall := h
  rw [Heap.malloc, if_neg hn, if_pos hdata] at hcall
  obtain ⟨k₁, hk₁, hcall⟩ := Option.bind_eq_some_iff.mp hcall
  obtain ⟨hexp, hheld | ⟨size, q, s, hmod, hpow, hq, hrealloc, rfl⟩⟩ := expand_cases hk₁
  · -- `expand` has failed, and `malloc` waits for the lock
    obtain ⟨k₂, hk₂, -⟩ := Option.bind_eq_some_iff.mp hcall
    rw [(acquire_eq hk₂).1] at hheld
    simp at hheld
  · obtain ⟨hinv, -⟩ := hk.realloc_pages hq hrealloc
    refine ⟨_, size, (laidOut_sound hmod hpow hinv).1, hq, rfl, by rw [hexp]; omega, ?_⟩
    rw [Heap.malloc, if_neg hn, if_neg (by exact hq), Option.bind_some]
    exact hcall

/-- The layout that `malloc` searches, and the layout that it leaves: the first request searches
the arena that it has laid out. -/
lemma Good.malloc_layout (hc : Good g others c) (hn : n ≠ 0) (hlt : n + 32 ≤ 2 ^ 64)
    (h : Heap.malloc fuel n c.kernel = some (p, k')) (hone : k'.heap.expansions ≤ 1) :
    ∃ bs₀ actual f, PowersFrom 5 bs₀ ∧
      (c.kernel.heap.data = 0 ∧ bs₀ = [⟨total bs₀, true⟩] ∨
        Tiles c.kernel.phys.mem c.kernel.heap.head bs₀ c.kernel.heap.tail ∧
          k'.heap.head = c.kernel.heap.head) ∧
      requiredSize f n = some actual ∧ k'.heap.head ≠ 0 ∧
      p = (Layout.find actual k'.heap.head bs₀).1 + 16 ∧
      Tiles k'.phys.mem k'.heap.head (Layout.mark (Layout.find actual k'.heap.head bs₀).1 false
        k'.heap.head (Layout.find actual k'.heap.head bs₀).2) k'.heap.tail ∧
      PowersFrom 4 (Layout.find actual k'.heap.head bs₀).2 := by
  obtain ⟨bs, hs⟩ := hc.sound
  by_cases hdata : c.kernel.heap.data = 0
  · cases fuel with
    | zero => simp [Heap.malloc] at h
    | succ fuel =>
      obtain ⟨k₁, size, hs₁, hdata₁, hexp₁, hlt₁, h₁⟩ := hs.malloc_laidOut hdata hn h
      have hle := malloc_expansions h₁
      obtain ⟨actual, f, hreq, -, hp, hheap, htiles, hpow⟩ :=
        hs₁.malloc_layout hdata₁ hn hlt (hexp₁.trans hc.expanded) h₁ (by omega)
      have hhead : k'.heap.head = k₁.heap.head := by rw [hheap]
      have htail : k'.heap.tail = k₁.heap.tail := by rw [hheap]
      refine ⟨_, actual, f, hs₁.shape.powers, .inl ⟨hdata, by simp⟩, hreq, ?_⟩
      rw [hhead, htail]
      exact ⟨by rw [← hs₁.shape.data_eq]; exact hdata₁, hp, htiles, hpow⟩
  · have hle := malloc_expansions h
    have hpos : c.kernel.heap.expansions ≠ 0 := fun hzero => hdata (hc.fresh hzero)
    obtain ⟨actual, f, hreq, -, hp, hheap, htiles, hpow⟩ :=
      hs.malloc_layout hdata hn hlt hc.expanded h (by omega)
    have hhead : k'.heap.head = c.kernel.heap.head := by rw [hheap]
    have htail : k'.heap.tail = c.kernel.heap.tail := by rw [hheap]
    refine ⟨bs, actual, f, hs.shape.powers, .inr ⟨hs.shape.tiles, hhead⟩, hreq, ?_⟩
    rw [hhead, htail]
    exact ⟨by rw [← hs.shape.data_eq]; exact hdata, hp, htiles, hpow⟩

/-! ## Runs on the large machine -/

/-- The large machine, after start-up. -/
@[irreducible] def bigPhys : Phys := PMemory.init bigMap { mem := fun _ => 0 }

lemma bigPhys_eq : bigPhys = PMemory.init bigMap { mem := fun _ => 0 } := by
  with_unfolding_all rfl

lemma bigPhys_reachable : PMemory.Reachable bigMap (fun _ => 0) ⟨bigPhys, []⟩ := by
  rw [bigPhys_eq]
  exact .init

/-- A run on the large machine has led to the layout `bs` of the first arena. -/
structure Laid (c : Client) (bs : List Block) : Prop where
  reachable : Reachable bigPhys c
  heap : c.kernel.heap = firstHeap 0x2000
  tiles : Tiles c.kernel.phys.mem 0x2000 bs (0x2000 + 2 ^ 21)
  powers : PowersFrom 4 bs

lemma Laid.sound (hc : Laid c bs) : ∃ g others, Sound g others c.kernel bs c.live := by
  obtain ⟨buffer, hinv, -⟩ := bigPhys_reachable.inv bigMap_bootable
  obtain ⟨bs', hs⟩ := (hc.reachable.good hinv (by simp [hc.heap, firstHeap])).sound
  have htiles : Tiles c.kernel.phys.mem c.kernel.heap.head bs c.kernel.heap.tail := by
    rw [hc.heap]
    exact hc.tiles
  obtain rfl := hs.tiles_unique htiles hc.powers.pos
  exact ⟨_, _, hs⟩

/-- A request that finds a block. -/
lemma Laid.malloc (hc : Laid c bs) (n actual q : ℕ) {bs₁ : List Block} (hn : n ≠ 0)
    (hlt : n < 2 ^ 62) (hreq : requiredSize 64 n = some actual) (hq : q ≠ 0)
    (hfind : Layout.find actual 0x2000 bs = (q, bs₁))
    (hmark : Layout.mark q false 0x2000 bs₁ = bs') :
    ∃ fuel k, Heap.malloc fuel n c.kernel = some (q + 16, k) ∧
      Step c ⟨k, ⟨q + 16, n⟩ :: c.live⟩ ∧ Laid ⟨k, ⟨q + 16, n⟩ :: c.live⟩ bs' := by
  subst hmark
  obtain ⟨g, others, hs⟩ := hc.sound
  have hheap := hc.heap
  have hdata : c.kernel.heap.data ≠ 0 := by rw [hheap, firstHeap]; norm_num
  have hhead : c.kernel.heap.head = 0x2000 := by rw [hheap]; rfl
  have htail : c.kernel.heap.tail = 0x2000 + 2 ^ 21 := by rw [hheap]; rfl
  obtain ⟨k', hmalloc, hk'⟩ := hs.malloc_found hdata (by rw [hheap]; rfl) hn hreq
    (by rw [hhead, hfind]; exact hq) (Nat.lt_succ_self _)
  have hsame : k'.heap.expansions = c.kernel.heap.expansions := by rw [hk']
  obtain ⟨actual', f', hreq', -, -, -, htiles, hpow⟩ :=
    hs.malloc_layout hdata hn (by omega) (by rw [hheap]; rfl) hmalloc hsame
  obtain rfl := requiredSize_unique hreq hreq'
  have hstep := Step.malloc hlt hmalloc
  rw [hhead, hfind] at hmalloc hpow
  rw [hhead, htail, hfind] at htiles
  rw [hhead, hfind, if_neg (by omega)] at hstep
  exact ⟨_, k', hmalloc, hstep, hc.reachable.tail hstep, by rw [hk', hheap]; rfl, htiles,
    PowersFrom.mark hpow q false 0x2000⟩

/-- Giving an allocation back. -/
lemma Laid.free (hc : Laid c bs) (al : Alloc) (hal : al ∈ c.live)
    (hbs' : Layout.coalescence bs.length (Layout.mark (al.ptr - 16) true 0x2000 bs) = bs') :
    ∃ fuel k, Heap.free fuel al.ptr c.kernel = some k ∧ Step c ⟨k, c.live.erase al⟩ ∧
      Laid ⟨k, c.live.erase al⟩ bs' := by
  subst hbs'
  obtain ⟨g, others, hs⟩ := hc.sound
  have hheap := hc.heap
  have hhead : c.kernel.heap.head = 0x2000 := by rw [hheap]; rfl
  have htail : c.kernel.heap.tail = 0x2000 + 2 ^ 21 := by rw [hheap]; rfl
  obtain ⟨k', hfree, hk', htiles⟩ :=
    (hs.free_layout hal (by rw [hheap]; rfl) (total bs + 1)).returns (by omega)
  have hstep := Step.free hal hfree
  rw [hhead, htail] at htiles
  exact ⟨_, k', hfree, hstep, hc.reachable.tail hstep, by rw [hk', hheap]; rfl, htiles,
    (PowersFrom.mark hc.powers _ _ _).merges (Layout.coalescence_merges _ _)⟩

/-- The headers of an arena that is one block in use. -/
lemma tiles_used (m : Mem) (q : ℕ) :
    Tiles (setFree (setFree (setSize m q (2 ^ 21)) q true) q false) q [⟨2 ^ 21, false⟩]
      (q + 2 ^ 21) := by
  refine ⟨?_, blockFree_setFree, rfl⟩
  rw [blockSize_setFree, blockSize_setFree, blockSize_setSize (by norm_num)]

/-- The first request takes the whole arena. -/
lemma laid_used :
    ∃ fuel k, Heap.malloc fuel (2 ^ 21 - 16) (start bigPhys).kernel = some (0x2010, k) ∧
    Step (start bigPhys) ⟨k, [⟨0x2010, 2 ^ 21 - 16⟩]⟩ ∧
    Laid ⟨k, [⟨0x2010, 2 ^ 21 - 16⟩]⟩ [⟨2 ^ 21, false⟩] := by
  obtain ⟨s, hs⟩ : ∃ s, PMemory.alloc INIT_PAGES bigPhys = some (0x2000, s) := by
    obtain ⟨s, hs, -⟩ := bigMap_alloc
    rw [bigPhys_eq]
    exact ⟨s, hs⟩
  have hmalloc := malloc_initial hs (by norm_num)
  have hstep := Step.malloc (c := start bigPhys) (by norm_num) hmalloc
  refine ⟨_, _, hmalloc, hstep, .single hstep, rfl, tiles_used _ _, ?_⟩
  intro b hb
  exact ⟨21, by norm_num, by rw [List.mem_singleton.mp hb]⟩

/-- The whole arena was given back. -/
lemma laid_whole : ∃ k, Laid ⟨k, []⟩ [⟨2 ^ 21, true⟩] := by
  obtain ⟨-, k, -, -, hk⟩ := laid_used
  obtain ⟨-, k', -, -, hk'⟩ := hk.free ⟨0x2010, 2 ^ 21 - 16⟩ (by simp)
    (by decide +kernel : _ = [⟨2 ^ 21, true⟩])
  exact ⟨k', by simpa using hk'⟩

end TurbOS.Heap
