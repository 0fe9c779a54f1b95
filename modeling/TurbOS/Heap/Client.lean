import TurbOS.Heap.Malloc
import TurbOS.Memory.Boot

/-!
# Runs of the heap

A run starts with an empty heap over a page allocator that is already in use, and is a
sequence of calls of the heap and of writes of clients into their own payloads.  Clients
pass to `free` and `realloc` only null or a pointer they hold.

The invariant of `Arena` holds along every run in which the heap expands only while
nothing is live (`Calm`).  A run with at most one expansion is such a run, since nothing
can be live before the first one.
-/

open ByteMemory Tiling Fuel

namespace TurbOS.Heap

/-- The heap together with the allocations its clients hold. -/
structure Client where
  kernel : Kernel
  live : List Alloc

/-- One call of a client, or one write of a client to its payload. -/
inductive Step : Client → Client → Prop
  | malloc {c : Client} {fuel n p : ℕ} {k : Kernel} (hn : n < 2 ^ 62)
      (h : malloc fuel n c.kernel = some (p, k)) :
      Step c ⟨k, if p = 0 then c.live else ⟨p, n⟩ :: c.live⟩
  | calloc {c : Client} {fuel num size p : ℕ} {k : Kernel} (hn : num * size < 2 ^ 62)
      (h : calloc fuel num size c.kernel = some (p, k)) :
      Step c ⟨k, if p = 0 then c.live else ⟨p, num * size⟩ :: c.live⟩
  | reallocNull {c : Client} {fuel n p : ℕ} {k : Kernel} (hn : n < 2 ^ 62)
      (h : realloc fuel 0 n c.kernel = some (p, k)) :
      Step c ⟨k, if p = 0 then c.live else ⟨p, n⟩ :: c.live⟩
  | realloc {c : Client} {al : Alloc} {fuel n p : ℕ} {k : Kernel} (hal : al ∈ c.live)
      (hn : n < 2 ^ 62) (h : realloc fuel al.ptr n c.kernel = some (p, k)) :
      Step c ⟨k, if n = 0 then c.live.erase al else ⟨p, n⟩ :: c.live.erase al⟩
  | freeNull {c : Client} {fuel : ℕ} {k : Kernel} (h : free fuel 0 c.kernel = some k) :
      Step c ⟨k, c.live⟩
  | free {c : Client} {al : Alloc} {fuel : ℕ} {k : Kernel} (hal : al ∈ c.live)
      (h : free fuel al.ptr c.kernel = some k) : Step c ⟨k, c.live.erase al⟩
  | write {c : Client} {al : Alloc} {x : ℕ} {b : UInt8} (hal : al ∈ c.live) (h₁ : al.ptr ≤ x)
      (h₂ : x < al.ptr + allocsize al.ptr c.kernel) :
      Step c ⟨{ c.kernel with phys := { c.kernel.phys with
        mem := Function.update c.kernel.phys.mem x b } }, c.live⟩

/-- The step does not expand the heap while something is live. -/
def Calm (c c' : Client) : Prop :=
  c.live = [] ∨ c'.kernel.heap.expansions = c.kernel.heap.expansions

/-- The empty heap over a page allocator. -/
def start (s : Phys) : Client := ⟨{ phys := s }, []⟩

/-- The states that runs of the heap reach. -/
def Reachable (s : Phys) (c : Client) : Prop := Relation.ReflTransGen Step (start s) c

/-- The states that runs reach in which every step is calm. -/
def CalmReachable (s : Phys) (c : Client) : Prop :=
  Relation.ReflTransGen (fun c c' => Step c c' ∧ Calm c c') (start s) c

/-- The invariant of calm runs. -/
structure Good (g : PMemory.Geometry) (others : List PMemory.Extent) (c : Client) : Prop where
  sound : ∃ bs, Sound g others c.kernel bs c.live
  expanded : c.kernel.heap.expanded = false
  fresh : c.kernel.heap.expansions = 0 → c.kernel.heap.data = 0

variable {g : PMemory.Geometry} {others : List PMemory.Extent} {c c' : Client}

lemma start_good {s : Phys} (h : PMemory.Inv g s others) : Good g others (start s) := by
  refine ⟨⟨[], ⟨rfl, by simp [PowersFrom], by simp [start], by norm_num [start], rfl,
    by simp [start]⟩,
    ⟨by simp [start], by simp [Used], by simp [start]⟩, ?_⟩, rfl, fun _ => rfl⟩
  simpa [arena, start] using h

/-! ## One step -/

/-- No call lowers the number of expansions. -/
lemma Step.expansions_le (hs : Step c c') :
    c.kernel.heap.expansions ≤ c'.kernel.heap.expansions := by
  cases hs with
  | malloc hn h => exact malloc_expansions h
  | calloc hn h =>
    obtain ⟨k₁, hmalloc, ⟨-, rfl⟩ | ⟨-, rfl⟩⟩ := calloc_cases h
    all_goals
      have hle := malloc_expansions hmalloc
      exact hle
  | reallocNull hn h =>
    rw [Heap.realloc, if_pos rfl] at h
    exact malloc_expansions h
  | @realloc al fuel n p k hal hn h =>
    by_cases hp : al.ptr = 0
    · rw [Heap.realloc, if_pos hp] at h
      exact malloc_expansions h
    rcases realloc_cases hp h with ⟨-, -, hfree⟩ | ⟨-, -, hmalloc⟩ |
      ⟨-, -, k₁, len, -, hmalloc, hfree⟩
    · exact (free_heap hfree).1.ge
    · exact malloc_expansions hmalloc
    · have h₁ := malloc_expansions hmalloc
      have h₂ := (free_heap hfree).1
      dsimp only at h₂ ⊢
      omega
  | freeNull h => exact (free_heap h).1.ge
  | free hal h => exact (free_heap h).1.ge
  | write hal h₁ h₂ => exact le_rfl

/-- What `malloc` does to a client in a calm step. -/
lemma Good.malloc (hc : Good g others c) {fuel n p : ℕ} {k : Kernel} (hn : n < 2 ^ 62)
    (h : malloc fuel n c.kernel = some (p, k))
    (hcalm : c.live = [] ∨ k.heap.expansions = c.kernel.heap.expansions) :
    Good g others ⟨k, if p = 0 then c.live else ⟨p, n⟩ :: c.live⟩ := by
  obtain ⟨bs, hs⟩ := hc.sound
  refine ⟨hs.malloc (by omega) h hcalm, malloc_expanded h hc.expanded, fun hzero => ?_⟩
  have hle := malloc_expansions h
  dsimp only at hzero
  have hdata := hc.fresh (by omega)
  by_cases hn0 : n = 0
  · cases fuel with
    | zero => simp [Heap.malloc] at h
    | succ fuel =>
      rw [Heap.malloc, if_pos hn0] at h
      rw [← (Prod.mk.inj (Option.some.inj h)).2]
      exact hdata
  · have := malloc_first hn0 hdata h
    omega

/-- A calm step keeps the invariant. -/
lemma Step.good (hs : Step c c') (hc : Good g others c) (hcalm : Calm c c') : Good g others c' := by
  obtain ⟨bs, hsound⟩ := hc.sound
  cases hs with
  | malloc hn h => exact hc.malloc hn h hcalm
  | @calloc fuel num size p k hn h =>
    have hnext := hsound.calloc (by omega) h hcalm
    obtain ⟨k₁, hmalloc, ⟨-, rfl⟩ | ⟨-, rfl⟩⟩ := calloc_cases h
    all_goals
      rw [Word64.mul_of_lt (by omega)] at hmalloc
      have hgood := hc.malloc hn hmalloc hcalm
      exact ⟨hnext, hgood.expanded, hgood.fresh⟩
  | reallocNull hn h =>
    rw [Heap.realloc, if_pos rfl] at h
    exact hc.malloc hn h hcalm
  | @realloc al fuel n p k hal hn h =>
    have hexp : k.heap.expansions = c.kernel.heap.expansions := by
      refine hcalm.resolve_left fun hnil => ?_
      rw [hnil] at hal
      simp at hal
    refine ⟨hsound.realloc hal (by omega) hc.expanded h hexp, ?_, fun hzero => ?_⟩
    · have hptr : al.ptr ≠ 0 := by
        obtain ⟨b, -, hptr, -⟩ := hsound.block hal
        omega
      rcases realloc_cases hptr h with ⟨-, -, hfree⟩ | ⟨-, -, hmalloc⟩ |
        ⟨-, -, k₁, len, -, hmalloc, hfree⟩
      · exact (free_heap hfree).2.1.trans hc.expanded
      · exact malloc_expanded hmalloc hc.expanded
      · have hexp₁ : k₁.heap.expanded = false := malloc_expanded hmalloc hc.expanded
        exact (free_heap hfree).2.1.trans hexp₁
    · -- something is live, so the heap has an arena and was expanded
      have hdata := hc.fresh (by dsimp only at hzero; omega)
      rw [hsound.live_eq_nil hdata] at hal
      simp at hal
  | freeNull h =>
    rcases free_cases h with ⟨rfl, -⟩ | ⟨m, -, rfl⟩
    · exact hc
    · rw [Heap.free] at h
      split at h
      · rename_i hdata
        rw [← Option.some.inj h]
        exact hc
      · rw [if_pos rfl] at h
        rw [← Option.some.inj h]
        exact hc
  | @free al fuel k hal h =>
    obtain ⟨h₁, h₂, h₃⟩ := free_heap h
    refine ⟨hsound.free hal h, h₂.trans hc.expanded, fun hzero => h₃.trans (hc.fresh ?_)⟩
    exact h₁.symm.trans hzero
  | write hal h₁ h₂ =>
    refine ⟨⟨bs, hsound.write hal fun x hx => Function.update_of_ne ?_ _ _⟩, hc.expanded, hc.fresh⟩
    omega

/-! ## Whole runs -/

/-- The invariant holds along every calm run. -/
lemma CalmReachable.good {s : Phys} (h : PMemory.Inv g s others) (hr : CalmReachable s c) :
    Good g others c := by
  induction hr with
  | refl => exact start_good h
  | tail _ hs ih => exact hs.1.good ih hs.2

/-- The first expansion finds nothing live. -/
lemma Good.calm (hc : Good g others c) {e : ℕ} (hle : c.kernel.heap.expansions ≤ e) (hone : e ≤ 1) :
    c.live = [] ∨ e = c.kernel.heap.expansions := by
  by_cases heq : e = c.kernel.heap.expansions
  · exact .inr heq
  · obtain ⟨bs, hsound⟩ := hc.sound
    exact .inl (hsound.live_eq_nil (hc.fresh (by omega)))

/-- A run that expands the heap at most once is calm. -/
lemma Reachable.good {s : Phys} (h : PMemory.Inv g s others) (hr : Reachable s c)
    (hone : c.kernel.heap.expansions ≤ 1) : Good g others c := by
  induction hr with
  | refl => exact start_good h
  | tail _ hs ih =>
    have hle := hs.expansions_le
    have hb := ih (by omega)
    exact hs.good hb (hb.calm hle hone)

/-! ## A machine with one large client -/

/-- The heap whose first arena starts at `q`. -/
def firstHeap (q : ℕ) : Heap where
  head := q
  tail := q + 2 ^ 21
  data := q
  pages := INIT_PAGES
  expansions := 1

/-- On a heap without an arena, a request that needs all of `INIT_PAGES` gets it. -/
lemma malloc_initial {s s' : Phys} {q : ℕ} (halloc : PMemory.alloc INIT_PAGES s = some (q, s'))
    (hq : q ≠ 0) :
    malloc 65 (2 ^ 21 - 16) (start s).kernel = some (q + 16, {
      phys := { s' with mem := setFree (setFree (setSize s'.mem q (2 ^ 21)) q true) q false }
      heap := firstHeap q }) := by
  have hsize : blockSize (setFree (setSize s'.mem q (2 ^ 21)) q true) q = 2 ^ 21 := by
    rw [blockSize_setFree, blockSize_setSize (by norm_num)]
  have hround : alignUp2 64 0x1000 (Word64.mul (Word64.add INIT_PAGES 0) 0x1000) =
      some (2 ^ 21) := by
    decide +kernel
  have hexp : expand 64 INIT_PAGES (start s).kernel =
      some (laidOut (start s).kernel (2 ^ 21) q s') := expand_eq rfl (by decide) hround halloc hq
  have htail : (laidOut (start s).kernel (2 ^ 21) q s').heap.tail = q + 2 ^ 21 := by
    simp only [laidOut, next, hsize]
  have hfind : find 64 { (laidOut (start s).kernel (2 ^ 21) q s').heap with lock := true }
      (laidOut (start s).kernel (2 ^ 21) q s').phys.mem (2 ^ 21) = some (q, _) :=
    find_whole hq hsize (by norm_num) htail blockFree_setFree
  have hmalloc := malloc_eq_found (n := 2 ^ 21 - 16) (k := (start s).kernel) (by norm_num)
    (by rw [if_pos (by rfl), hexp]) rfl (by decide +kernel) hfind hq
  rw [hmalloc]
  simp only [htail]
  rfl

/-- A machine with eight megabytes of usable memory. -/
def bigMap : List PMemory.MmapEntry := [⟨0x1000, 0x800000, .usable, by norm_num⟩]

lemma bigMap_bootable : PMemory.Bootable bigMap where
  aligned := by simp [bigMap]
  disjoint := List.pairwise_singleton _ _
  room := ⟨⟨0x1000, 0x800000, .usable, by norm_num⟩, by simp [bigMap], rfl, by decide +kernel⟩
  covers := by decide +kernel

lemma bigMap_init : PMemory.init bigMap { mem := fun _ => 0 } = {
    mem := PMemory.release (memset (fun _ => 0) 0x1000 0xFF 0x1000) 0x1000
      [⟨0x2000, 0x7FF000, .usable, by norm_num⟩]
    buffer := 0x1000
    isInit := true
    highPage := 0x801000
    freeRam := 0x7FF000 } := by
  have hplace : PMemory.place (PMemory.bitmapSize 0x801000) bigMap =
      some (0x1000, [⟨0x2000, 0x7FF000, .usable, by norm_num⟩]) := rfl
  have hsurvey : PMemory.survey { mem := fun _ => 0 } bigMap =
      { mem := fun _ => 0, highPage := 0x801000, freeRam := 0x800000 } := rfl
  simp only [PMemory.init, Bool.false_eq_true, if_false, hsurvey, hplace]
  rfl

/-- After start-up the first two pages are in use, and the others are free. -/
lemma bigMap_get {i : ℕ} (hi : i < 0x801) :
    Bitmap.get (PMemory.init bigMap { mem := fun _ => 0 }).mem 0x1000 i = decide (i < 2) := by
  have hrel := PMemory.get_release (memset (fun _ => 0) 0x1000 0xFF 0x1000) 0x1000
    [⟨0x2000, 0x7FF000, .usable, by norm_num⟩] i
  rw [PMemory.get_memset_ones (by omega)] at hrel
  rw [bigMap_init]
  simp only [Bool.true_eq_false, List.mem_singleton, exists_eq_left, false_or,
    PMemory.MmapEntry.Releases, true_and] at hrel
  by_cases hlt : i < 2
  · rw [decide_eq_true hlt, ← Bool.not_eq_false, hrel]
    omega
  · rw [decide_eq_false hlt, hrel]
    omega

/-- The first 512 pages after the bitmap are there for the heap. -/
lemma bigMap_alloc : ∃ s, PMemory.alloc INIT_PAGES (PMemory.init bigMap { mem := fun _ => 0 }) =
      some (0x2000, s) ∧
    s.mem = memset (Bitmap.setRange (PMemory.init bigMap { mem := fun _ => 0 }).mem 0x1000 2 true
      INIT_PAGES) 0x2000 0 0x200000 ∧
    s.buffer = 0x1000 ∧ s.highPage = 0x801000 ∧ s.last = 514 ∧ s.mmLock = false := by
  have hbuffer : (PMemory.init bigMap { mem := fun _ => 0 }).buffer = 0x1000 := by rw [bigMap_init]
  have hhigh : (PMemory.init bigMap { mem := fun _ => 0 }).highPage = 0x801000 := by
    rw [bigMap_init]
  have hlast : (PMemory.init bigMap { mem := fun _ => 0 }).last = 0 := by rw [bigMap_init]
  have hlock : (PMemory.init bigMap { mem := fun _ => 0 }).mmLock = false := by rw [bigMap_init]
  have hget := fun i hi => bigMap_get (i := i) hi
  generalize PMemory.init bigMap { mem := fun _ => 0 } = s₀ at *
  have hset : ∀ i, s₀.last ≤ i → i < 2 → Bitmap.get s₀.mem s₀.buffer i = true := by
    intro i _ hi
    rw [hbuffer, hget i (by omega), decide_eq_true hi]
  have hclear : ∀ i, 2 ≤ i → i < 2 + INIT_PAGES → Bitmap.get s₀.mem s₀.buffer i = false := by
    intro i h₁ h₂
    rw [INIT_PAGES] at h₂
    rw [hbuffer, hget i (by omega), decide_eq_false (by omega)]
  refine ⟨_, PMemory.alloc_found hlock (by omega) (by norm_num) (by decide) (by rw [hhigh]; decide)
    hset hclear, ?_, hbuffer, hhigh, rfl, hlock⟩
  rw [hbuffer]
  rfl

/-! ## The main result -/

/-- **Heap tiling and isolation.**  In every state reached with at most one expansion, the
headers tile the arena from `head` to `tail` by blocks whose sizes are powers of two of at
least 32 and add up to the pages of the heap; the blocks that are not free are the blocks
of the live allocations; and the payloads of live allocations are as large as was asked
for, do not overlap, and contain no header. -/
theorem heap_tiled {mm : List PMemory.MmapEntry} {m : Mem} {h : PMemory.Held}
    (hb : PMemory.Bootable mm) (hp : PMemory.Reachable mm m h) (hr : Reachable h.phys c)
    (hone : c.kernel.heap.expansions ≤ 1) :
    ∃ bs, Tiles c.kernel.phys.mem c.kernel.heap.head bs c.kernel.heap.tail ∧
      (∀ b ∈ bs, ∃ j, 5 ≤ j ∧ b.size = 2 ^ j) ∧
      total bs = c.kernel.heap.pages * 0x1000 ∧
      (∀ a b, (a, b) ∈ spans c.kernel.heap.head bs →
        (b.free = false ↔ ∃ al ∈ c.live, al.ptr = a + 16)) ∧
      (∀ al ∈ c.live, ∃ a, (a, ⟨allocsize al.ptr c.kernel + 16, false⟩) ∈
        spans c.kernel.heap.head bs ∧ al.ptr = a + 16 ∧ al.size ≤ allocsize al.ptr c.kernel) ∧
      (c.live.Pairwise fun al al' =>
        al.ptr + allocsize al.ptr c.kernel ≤ al'.ptr ∨
          al'.ptr + allocsize al'.ptr c.kernel ≤ al.ptr) ∧
      (∀ al ∈ c.live, ∀ a b, (a, b) ∈ spans c.kernel.heap.head bs →
        a + 16 ≤ al.ptr ∨ al.ptr + allocsize al.ptr c.kernel ≤ a) := by
  obtain ⟨buffer, hinv, -⟩ := hp.inv hb
  obtain ⟨bs, hs⟩ := (hr.good hinv hone).sound
  refine ⟨bs, hs.shape.tiles, hs.shape.powers, hs.shape.sum, fun a b hab => ⟨?_, ?_⟩,
    fun al hal => hs.block hal, ?_, fun al hal a b hab => hs.header_apart hal hab⟩
  · intro hfree
    exact hs.owned.owner a b.size (by rw [Used, ← hfree]; exact hab)
  · rintro ⟨al, hal, hptr⟩
    obtain ⟨a', hused, hptr', -⟩ := hs.block hal
    obtain rfl : a = a' := by omega
    rw [spans_inj hs.shape.powers.pos hab hused]
  · have hnodup : c.live.Nodup := hs.owned.nodup.of_map _
    exact hnodup.imp_of_mem fun hal hal' hne => hs.payload_apart hal hal' hne

/-- On the large machine one client takes the whole arena. -/
theorem heap_tiled_bigMap :
    ∃ c, Reachable (PMemory.init bigMap { mem := fun _ => 0 }) c ∧ c.kernel.heap.expansions = 1 ∧
      c.live = [⟨0x2010, 2 ^ 21 - 16⟩] ∧
      ∃ bs, Tiles c.kernel.phys.mem c.kernel.heap.head bs c.kernel.heap.tail ∧
        total bs = c.kernel.heap.pages * 0x1000 := by
  have hp : PMemory.Reachable bigMap (fun _ => 0) ⟨PMemory.init bigMap { mem := fun _ => 0 }, []⟩ :=
    .init
  obtain ⟨s, hs, -⟩ := bigMap_alloc
  generalize PMemory.init bigMap { mem := fun _ => 0 } = s₀ at *
  have hr : Reachable s₀ _ := .single (.malloc (by norm_num) (malloc_initial hs (by norm_num)))
  obtain ⟨bs, h₁, -, h₂, -⟩ := heap_tiled bigMap_bootable hp hr le_rfl
  exact ⟨_, hr, rfl, rfl, bs, h₁, h₂⟩

end TurbOS.Heap
