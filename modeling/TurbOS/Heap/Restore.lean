import TurbOS.Heap.Serve

/-!
# Giving everything back

When the last allocation is given back, all blocks are free, and `coalescence` should leave one
block.  A sweep compares the blocks in pairs and steps over both of them if the left one is
larger, so it only folds the layout if its blocks are in groups: each group consists of `2 ^ i`
blocks of one size, is as long as everything in front of it, and the numbers of blocks do not
grow (`Foldable`).  Then a sweep halves every group that has more than one block.
-/

open ByteMemory Tiling Fuel

namespace TurbOS.Heap

/-- The sizes of blocks behind others of the total length `n`: groups of equal blocks, each as
long as everything in front of it, with at most `2 ^ d` blocks in the first group and no more
in the next one than in the one before. -/
inductive Groups : ℕ → ℕ → List ℕ → Prop
  | nil {n d : ℕ} : Groups n d []
  | cons {n d i s : ℕ} {rest : List ℕ} (hi : i ≤ d) (hs : 2 ^ i * s = n)
      (h : Groups (2 * n) i rest) : Groups n d (List.replicate (2 ^ i) s ++ rest)

/-- The sizes of a layout that `coalescence` folds into one block. -/
def Foldable (xs : List ℕ) : Prop :=
  ∃ d s rest, 0 < s ∧ xs = List.replicate (2 ^ d) s ++ rest ∧ Groups (2 ^ d * s) d rest

/-- Free blocks of the given sizes. -/
def freeBlocks (xs : List ℕ) : List Block := xs.map fun s => ⟨s, true⟩

variable {xs : List ℕ} {n d s : ℕ}

@[simp] lemma freeBlocks_nil : freeBlocks [] = [] := rfl

@[simp] lemma freeBlocks_cons : freeBlocks (s :: xs) = ⟨s, true⟩ :: freeBlocks xs := rfl

@[simp] lemma freeBlocks_append (ys : List ℕ) :
    freeBlocks (xs ++ ys) = freeBlocks xs ++ freeBlocks ys := List.map_append

@[simp] lemma total_freeBlocks : total (freeBlocks xs) = xs.sum := by
  simp [total, freeBlocks, Function.comp_def]

/-! ## One sweep -/

/-- A sweep joins the blocks of an even group in pairs. -/
lemma Layout.sweep_pairs (flag : Bool) (m s : ℕ) (bs : List Block) :
    ∃ flag', (Layout.sweep flag (freeBlocks (List.replicate (2 * m) s) ++ bs)).2 =
      freeBlocks (List.replicate m (2 * s)) ++ (Layout.sweep flag' bs).2 := by
  induction m generalizing flag with
  | zero => exact ⟨flag, by simp⟩
  | succ m ih =>
    have hlist : freeBlocks (List.replicate (2 * (m + 1)) s) ++ bs =
        ⟨s, true⟩ :: ⟨s, true⟩ :: (freeBlocks (List.replicate (2 * m) s) ++ bs) := by
      rw [Nat.mul_succ, List.replicate_succ, List.replicate_succ]
      simp
    obtain ⟨flag', hih⟩ := ih (if freeBlocks (List.replicate (2 * m) s) ++ bs = [] then flag
      else false)
    refine ⟨flag', ?_⟩
    rw [hlist, Layout.sweep, if_pos ⟨rfl, rfl, rfl⟩]
    dsimp only
    rw [hih, List.replicate_succ]
    simp

/-- A sweep halves the groups that have more than one block. -/
lemma Groups.sweep (h : Groups n d xs) (hn : 0 < n) (flag : Bool) :
    ∃ ys, (Layout.sweep flag (freeBlocks xs)).2 = freeBlocks ys ∧ Groups n (d - 1) ys := by
  induction h generalizing flag with
  | nil => exact ⟨[], by simp [Layout.sweep], .nil⟩
  | @cons n d i s rest hi hs h ih =>
    cases i with
    | zero =>
      -- a group of one block, followed by groups of one block of twice the size
      obtain rfl : s = n := by omega
      obtain ⟨ys, hys, hgroups⟩ := ih (by omega) flag
      refine ⟨s :: ys, ?_, .cons (i := 0) (by omega) hs hgroups⟩
      cases h with
      | nil =>
        rw [freeBlocks_cons, ← hys]
        simp [Layout.sweep]
      | @cons _ _ i' s' rest' hi' hs' h' =>
        obtain rfl : i' = 0 := by omega
        obtain rfl : s' = 2 * s := by omega
        rw [freeBlocks_cons, ← hys]
        simp only [pow_zero, List.replicate_one, List.singleton_append, freeBlocks_cons]
        rw [Layout.sweep, if_neg (by simp; omega), if_pos (by dsimp only; omega)]
    | succ i =>
      obtain ⟨flag', hpairs⟩ := Layout.sweep_pairs flag (2 ^ i) s (freeBlocks rest)
      obtain ⟨ys, hys, hgroups⟩ := ih (by omega) flag'
      refine ⟨List.replicate (2 ^ i) (2 * s) ++ ys, ?_, .cons (by omega) ?_ hgroups⟩
      · rw [freeBlocks_append, pow_succ', hpairs, hys, freeBlocks_append]
      · rw [← hs, pow_succ]
        ring

lemma Layout.sweep_false {flag : Bool} (hflag : flag = false) (bs : List Block) :
    (Layout.sweep flag bs).1 = false := by
  fun_induction Layout.sweep flag bs with
  | case1 flag b d rest hjoin r ih => exact ih (by simp [hflag])
  | case2 flag b d rest hjoin hlt r ih => exact ih hflag
  | case3 flag b d rest hjoin hlt r ih => exact ih hflag
  | case4 flag bs hbs => exact hflag

/-- When a sweep joins the first two blocks, another sweep follows unless they were all. -/
lemma Layout.sweep_front {ys tail : List ℕ}
    (hys : (Layout.sweep true (freeBlocks (s :: s :: tail))).2 = freeBlocks ys) :
    (Layout.sweep true (freeBlocks (s :: s :: tail))).1 = false ∨ ys.length = 1 := by
  rw [freeBlocks_cons, freeBlocks_cons, Layout.sweep, if_pos ⟨rfl, rfl, rfl⟩] at hys ⊢
  cases tail with
  | nil =>
    have hlen := congrArg List.length hys
    simp [Layout.sweep, freeBlocks] at hlen
    exact .inr hlen.symm
  | cons t tail => exact .inl (Layout.sweep_false (by simp) _)

/-- One sweep over a foldable layout of several blocks: another one follows, or one block is
left. -/
lemma Foldable.sweep (h : Foldable xs) (hlen : xs.length ≠ 1) :
    ∃ ys, (Layout.sweep true (freeBlocks xs)).2 = freeBlocks ys ∧ Foldable ys ∧
      ((Layout.sweep true (freeBlocks xs)).1 = false ∨ ys.length = 1) := by
  obtain ⟨d, s, rest, hs, rfl, hrest⟩ := h
  cases d with
  | zero =>
    -- the second group is a block of the same size
    rw [pow_zero, one_mul] at hrest
    cases hrest with
    | nil => simp at hlen
    | @cons _ _ i' s' rest' hi' hs' h' =>
      obtain rfl : i' = 0 := by omega
      obtain rfl : s' = s := by omega
      obtain ⟨ys, hys, hgroups⟩ := h'.sweep (by omega)
        (if freeBlocks rest' = [] then true else false)
      have hsweep : (Layout.sweep true (freeBlocks (s' :: s' :: rest'))).2 =
          freeBlocks (2 * s' :: ys) := by
        rw [freeBlocks_cons, freeBlocks_cons, Layout.sweep, if_pos ⟨rfl, rfl, rfl⟩, freeBlocks_cons,
          ← hys]
      exact ⟨_, hsweep, ⟨0, 2 * s', ys, by omega, rfl, by simpa using hgroups⟩,
        Layout.sweep_front hsweep⟩
  | succ d =>
    obtain ⟨flag, hpairs⟩ := Layout.sweep_pairs true (2 ^ d) s (freeBlocks rest)
    obtain ⟨ys, hys, hgroups⟩ := hrest.sweep (by positivity) flag
    rw [hys, ← pow_succ', ← freeBlocks_append, ← freeBlocks_append] at hpairs
    refine ⟨_, hpairs, ⟨d, 2 * s, ys, by omega, rfl, ?_⟩, ?_⟩
    · have hlength : 2 ^ (d + 1) * s = 2 ^ d * (2 * s) := by ring
      rw [← hlength]
      exact hgroups
    · obtain ⟨m, hm⟩ : ∃ m, 2 ^ (d + 1) = m + 2 := by
        have : 2 ≤ 2 ^ (d + 1) := by rw [pow_succ]; have := Nat.one_le_two_pow (n := d); omega
        exact ⟨2 ^ (d + 1) - 2, by omega⟩
      rw [hm, List.replicate_succ, List.replicate_succ, List.cons_append,
        List.cons_append] at hpairs ⊢
      exact Layout.sweep_front hpairs

lemma Foldable.ne_nil (h : Foldable xs) : xs ≠ [] := by
  obtain ⟨d, s, rest, -, rfl, -⟩ := h
  simp

lemma freeBlocks_singleton (h : xs.length = 1) : freeBlocks xs = [⟨xs.sum, true⟩] := by
  obtain ⟨x, rfl⟩ := List.length_eq_one_iff.mp h
  simp

/-- `coalescence` leaves one block of a foldable layout. -/
lemma Foldable.coalescence (h : Foldable xs) (n : ℕ) (hn : xs.length ≤ n) :
    Layout.coalescence n (freeBlocks xs) = [⟨xs.sum, true⟩] := by
  induction n generalizing xs with
  | zero => exact absurd (List.length_eq_zero_iff.mp (Nat.le_zero.mp hn)) h.ne_nil
  | succ n ih =>
    by_cases hlen : xs.length = 1
    · rw [freeBlocks_singleton hlen]
      simp [Layout.coalescence, Layout.sweep]
    obtain ⟨ys, hys, hfold, hflag⟩ := h.sweep hlen
    have hsum : ys.sum = xs.sum := by
      have htotal := (Layout.sweep_merges true (freeBlocks xs)).total_eq
      rwa [hys, total_freeBlocks, total_freeBlocks] at htotal
    have hshorter := Layout.length_sweep true (freeBlocks xs) rfl
    rw [Layout.coalescence]
    split
    · -- no other sweep: one block is left
      rename_i hdone
      have hone := hflag.resolve_left (by simp [hdone])
      rw [hys, freeBlocks_singleton hone, hsum]
    · rename_i hmore
      have hlt := hshorter (by simpa using hmore)
      rw [hys] at hlt ⊢
      rw [ih hfold (by simp [freeBlocks] at hlt; omega), hsum]

/-! ## The last `free` -/

variable {g : PMemory.Geometry} {others : List PMemory.Extent} {k k' : Kernel} {bs : List Block}
  {al : Alloc} {c c' : Client} {fuel : ℕ}

lemma Layout.map_size_mark (x : ℕ) (free : Bool) (a : ℕ) (bs : List Block) :
    (Layout.mark x free a bs).map Block.size = bs.map Block.size := by
  induction bs generalizing a with
  | nil => rfl
  | cons b bs ih =>
    rw [Layout.mark]
    split
    · rfl
    · rw [List.map_cons, ih, List.map_cons]

lemma eq_freeBlocks (h : ∀ b ∈ bs, b.free = true) : bs = freeBlocks (bs.map Block.size) := by
  induction bs with
  | nil => rfl
  | cons b bs ih =>
    have hb := h b (by simp)
    rw [List.map_cons, freeBlocks_cons, ← ih fun d hd => h d (by simp [hd]), ← hb]

/-- With nothing live, all blocks are free. -/
lemma Owned.forall_free {a : ℕ} (h : Owned a bs []) : ∀ b ∈ bs, b.free = true := by
  intro b hb
  by_contra hused
  obtain ⟨pre, post, rfl⟩ := List.append_of_mem hb
  have hmem : Used a (pre ++ b :: post) (a + total pre) b.size := by
    rw [Used, ← (by simpa using hused : b.free = false)]
    simp
  obtain ⟨al, hal, -⟩ := h.owner _ _ hmem
  simp at hal

/-- Giving back the last allocation makes one block of a foldable layout. -/
lemma Sound.free_last (hk : Sound g others k bs [al]) (hlock : k.heap.lock = false)
    (hfold : Foldable (bs.map Block.size)) (h : Heap.free fuel al.ptr k = some k') :
    Tiles k'.phys.mem k'.heap.head [⟨total bs, true⟩] k'.heap.tail := by
  obtain ⟨hheap, htiles⟩ := (hk.free_layout List.mem_cons_self hlock fuel).post h
  have hfree : ∀ b ∈ Layout.mark (al.ptr - 16) true k.heap.head bs, b.free = true := by
    obtain ⟨x, s, hx, hptr, -⟩ := hk.owned.block al List.mem_cons_self
    obtain ⟨pre, post, rfl, rfl⟩ := mem_spans_iff.mp hx
    have hpos := hk.shape.powers.pos
    have hgive := hk.owned.give List.mem_cons_self hptr hpos
    rw [show al.ptr - 16 = k.heap.head + total pre by omega,
      Layout.mark_append true fun b hb => hpos b (by simp [hb])]
    rw [List.erase_cons_head] at hgive
    exact hgive.forall_free
  have hmark := eq_freeBlocks hfree
  rw [Layout.map_size_mark] at hmark
  rw [hmark, hfold.coalescence bs.length (by simp)] at htiles
  rw [hheap]
  exact htiles

/-! ## Runs -/

/-- If the step ends the last allocation, the layout before it is foldable. -/
def Folding (c c' : Client) : Prop :=
  c.live ≠ [] → c'.live = [] → ∀ bs,
    Tiles c.kernel.phys.mem c.kernel.heap.head bs c.kernel.heap.tail → (∀ b ∈ bs, 0 < b.size) →
      Foldable (bs.map Block.size)

/-- The states that runs reach in which every step is folding. -/
def FoldingReachable (s : Phys) (c : Client) : Prop :=
  Relation.ReflTransGen (fun c c' => Step c c' ∧ Folding c c') (start s) c

/-- With nothing live, the arena is one free block. -/
def Restored (c : Client) : Prop :=
  c.live = [] → c.kernel.heap.data ≠ 0 →
    Tiles c.kernel.phys.mem c.kernel.heap.head [⟨c.kernel.heap.pages * 0x1000, true⟩]
      c.kernel.heap.tail

lemma free_null (h : Heap.free fuel 0 k = some k') : k' = k := by
  rw [Heap.free] at h
  split at h
  · exact (Option.some.inj h).symm
  · rw [if_pos rfl] at h
    exact (Option.some.inj h).symm

lemma malloc_null_eq {n p : ℕ} (hn : n = 0) (h : Heap.malloc fuel n k = some (p, k')) :
    p = 0 ∧ k' = k := by
  cases fuel with
  | zero => simp [Heap.malloc] at h
  | succ fuel =>
    rw [Heap.malloc, if_pos hn] at h
    obtain ⟨hp, hk⟩ := Prod.mk.inj (Option.some.inj h)
    exact ⟨hp.symm, hk.symm⟩

/-- A request that succeeds leaves something live, and one that does nothing changes nothing. -/
lemma Good.malloc_restored (hc : Good g others c) {n p : ℕ} (hn : n < 2 ^ 62)
    (h : Heap.malloc fuel n c.kernel = some (p, k')) (hone : k'.heap.expansions ≤ 1)
    (hr : Restored c) : Restored ⟨k', if p = 0 then c.live else ⟨p, n⟩ :: c.live⟩ := by
  by_cases hn0 : n = 0
  · obtain ⟨rfl, rfl⟩ := malloc_null_eq hn0 h
    exact hr
  · obtain ⟨bs₀, actual, f, -, -, -, -, hp, -⟩ := hc.malloc_layout hn0 (by omega) h hone
    intro hlive
    rw [if_neg (by omega)] at hlive
    simp at hlive

/-- Giving back an allocation, under the condition on the last one. -/
lemma Good.free_restored (hc : Good g others c) (hlock : c.kernel.heap.lock = false)
    (hal : al ∈ c.live) (h : Heap.free fuel al.ptr c.kernel = some k')
    (hfold : Folding c ⟨k', c.live.erase al⟩) : Restored ⟨k', c.live.erase al⟩ := by
  intro hlive _
  obtain ⟨bs, hs⟩ := hc.sound
  have hlast : c.live = [al] := by
    have hlen := List.length_erase_of_mem hal
    rw [show c.live.erase al = [] from hlive, List.length_nil] at hlen
    have hpos := List.length_pos_of_mem hal
    obtain ⟨x, hx⟩ := List.length_eq_one_iff.mp (show c.live.length = 1 by omega)
    rw [hx] at hal
    rw [hx, List.mem_singleton.mp hal]
  have hbs := hfold (List.ne_nil_of_mem hal) hlive bs hs.shape.tiles hs.shape.powers.pos
  have hheap := ((hs.free_layout hal hlock fuel).post h).1
  rw [hlast] at hs
  have htiles := hs.free_last hlock hbs h
  have hpages : k'.heap.pages = c.kernel.heap.pages := by rw [hheap]
  dsimp only
  rw [hpages, ← hs.shape.sum]
  exact htiles

/-- A folding step leaves the heap restored, if the heap is expanded at most once. -/
lemma Step.restored (hs : Step c c') (hc : Good g others c) (hlock : c.kernel.heap.lock = false)
    (hfold : Folding c c') (hone : c'.kernel.heap.expansions ≤ 1) (h : Restored c) :
    Restored c' := by
  cases hs with
  | malloc hn hmalloc => exact hc.malloc_restored hn hmalloc hone h
  | @calloc fuel num size p k hn hcalloc =>
    obtain ⟨k₁, hmalloc, ⟨rfl, rfl⟩ | ⟨hp, rfl⟩⟩ := calloc_cases hcalloc
    · rw [Word64.mul_of_lt (by omega)] at hmalloc
      exact hc.malloc_restored hn hmalloc hone h
    · intro hlive
      rw [if_neg hp] at hlive
      simp at hlive
  | reallocNull hn hrealloc =>
    rw [Heap.realloc, if_pos rfl] at hrealloc
    exact hc.malloc_restored hn hrealloc hone h
  | @realloc al fuel n p k hal hn hrealloc =>
    obtain ⟨bs, hsound⟩ := hc.sound
    have hptr : al.ptr ≠ 0 := by
      obtain ⟨b, -, hptr, -⟩ := hsound.block hal
      omega
    rcases realloc_cases hptr hrealloc with ⟨hn0, -, hfree⟩ | ⟨hn0, -⟩ | ⟨hn0, -⟩
    · rw [if_pos hn0] at hfold ⊢
      exact hc.free_restored hlock hal hfree hfold
    · intro hlive
      rw [if_neg hn0] at hlive
      simp at hlive
    · intro hlive
      rw [if_neg hn0] at hlive
      simp at hlive
  | freeNull hfree =>
    rw [free_null hfree]
    exact h
  | free hal hfree => exact hc.free_restored hlock hal hfree hfold
  | write hal h₁ h₂ =>
    intro hlive
    rw [show c.live = [] from hlive] at hal
    simp at hal

lemma FoldingReachable.reachable {s : Phys} (hr : FoldingReachable s c) : Reachable s c :=
  Relation.ReflTransGen.mono (fun _ _ h => h.1) _ _ hr

/-- The heap is restored along every run of folding steps. -/
lemma FoldingReachable.restored {s : Phys} (h : PMemory.Inv g s others) (hr : FoldingReachable s c)
    (hone : c.kernel.heap.expansions ≤ 1) : Restored c := by
  induction hr with
  | refl => exact fun _ hdata => absurd rfl hdata
  | tail hr hs ih =>
    have hle := hs.1.expansions_le
    have hr' := FoldingReachable.reachable hr
    exact hs.1.restored (hr'.good h (by omega)) hr'.unlocked hs.2 hone (ih (by omega))

/-! ## The main result -/

/-- **Giving everything back restores the heap.**  In a run in which the heap is expanded at most
once, and in which the layout is foldable whenever the last allocation is given back, the arena
is one free block while nothing is live, and it serves every request that fits into it. -/
theorem heap_restored {mm : List PMemory.MmapEntry} {m : Mem} {h : PMemory.Held}
    (hb : PMemory.Bootable mm) (hp : PMemory.Reachable mm m h) (hr : FoldingReachable h.phys c)
    (hone : c.kernel.heap.expansions ≤ 1) (hdata : c.kernel.heap.data ≠ 0) (hlive : c.live = []) :
    Tiles c.kernel.phys.mem c.kernel.heap.head [⟨c.kernel.heap.pages * 0x1000, true⟩]
        c.kernel.heap.tail ∧
      ∀ n, n + 16 ≤ c.kernel.heap.pages * 0x1000 → Served c.kernel n := by
  obtain ⟨buffer, hinv, -⟩ := hp.inv hb
  have hone' := hr.restored hinv hone hlive hdata
  have hreach := hr.reachable
  obtain ⟨bs, hs⟩ := (hreach.good hinv hone).sound
  have hpages : 0 < c.kernel.heap.pages * 0x1000 := by
    obtain ⟨b, rest, rfl⟩ :=
      List.exists_cons_of_ne_nil fun hnil => hdata (hs.shape.empty_iff.mpr hnil)
    have hb := hs.shape.powers.pos b (by simp)
    rw [← hs.shape.sum, total_cons]
    omega
  obtain rfl := hs.tiles_unique hone' (by simpa using hpages)
  refine ⟨hone', fun n hn => ?_⟩
  obtain ⟨j, hj, hsize⟩ := hs.shape.powers _ (List.mem_singleton.mpr rfl)
  dsimp only at hsize
  have hj' : j < 64 := by
    have hend := hone'.end_eq
    have hlt := hs.shape.tail_lt
    refine (Nat.pow_lt_pow_iff_right (by norm_num : 1 < 2)).mp ?_
    rw [← hsize]
    simp at hend
    omega
  obtain ⟨actual, hreq, hle⟩ := requiredSize_le (by omega) hj' (hsize ▸ hn)
  exact hs.served hreach.unlocked hreq (.inl ⟨_, rfl, rfl, by dsimp only; omega⟩)

/-- On the large machine, a quarter of the arena was allocated and given back. -/
theorem heap_not_restored : ∃ c : Client,
    PMemory.Reachable bigMap (fun _ => 0) ⟨bigPhys, []⟩ ∧ Reachable bigPhys c ∧
      c.kernel.heap.expansions = 1 ∧ c.live = [] ∧
      ¬ Tiles c.kernel.phys.mem c.kernel.heap.head [⟨c.kernel.heap.pages * 0x1000, true⟩]
        c.kernel.heap.tail := by
  obtain ⟨k₀, hk₀⟩ := laid_whole
  obtain ⟨-, k₁, -, -, hk₁⟩ := hk₀.malloc (2 ^ 19 - 16) (2 ^ 19) 0x182000 (by norm_num)
    (by norm_num) (by decide +kernel) (by norm_num)
    (by decide +kernel : _ = (0x182000, [⟨2 ^ 20, true⟩, ⟨2 ^ 19, true⟩, ⟨2 ^ 19, true⟩]))
    (by decide +kernel : _ = [⟨2 ^ 20, true⟩, ⟨2 ^ 19, true⟩, ⟨2 ^ 19, false⟩])
  obtain ⟨-, k₂, -, -, hk₂⟩ := hk₁.free ⟨0x182010, 2 ^ 19 - 16⟩ (by simp)
    (by decide +kernel : _ = [⟨2 ^ 20, true⟩, ⟨2 ^ 19, true⟩, ⟨2 ^ 19, true⟩])
  have hheap := hk₂.heap
  refine ⟨_, bigPhys_reachable, hk₂.reachable, by rw [hheap]; rfl, by simp, fun htiles => ?_⟩
  obtain ⟨g, others, hs⟩ := hk₂.sound
  have heq := hs.tiles_unique htiles (by rw [hheap]; simp [firstHeap, INIT_PAGES])
  simp at heq

lemma Laid.folding (hc : Laid c bs) (h : Foldable (bs.map Block.size)) : Folding c c' := by
  intro _ _ bs' htiles hpos
  obtain ⟨g, others, hs⟩ := hc.sound
  rw [hs.tiles_unique htiles hpos]
  exact h

/-- On the large machine, half of the arena was allocated and given back. -/
theorem heap_restored_bigMap : ∃ c : Client, FoldingReachable bigPhys c ∧ c.live = [] ∧
    Tiles c.kernel.phys.mem c.kernel.heap.head [⟨c.kernel.heap.pages * 0x1000, true⟩]
        c.kernel.heap.tail ∧
      ∀ n, n + 16 ≤ c.kernel.heap.pages * 0x1000 → Served c.kernel n := by
  obtain ⟨-, k₁, -, hstep₁, hk₁⟩ := laid_used
  obtain ⟨-, k₂, -, hstep₂, hk₂⟩ := hk₁.free ⟨0x2010, 2 ^ 21 - 16⟩ (by simp)
    (by decide +kernel : _ = [⟨2 ^ 21, true⟩])
  obtain ⟨-, k₃, -, hstep₃, hk₃⟩ := hk₂.malloc (2 ^ 20 - 16) (2 ^ 20) 0x102000 (by norm_num)
    (by norm_num) (by decide +kernel) (by norm_num)
    (by decide +kernel : _ = (0x102000, [⟨2 ^ 20, true⟩, ⟨2 ^ 20, true⟩]))
    (by decide +kernel : _ = [⟨2 ^ 20, true⟩, ⟨2 ^ 20, false⟩])
  obtain ⟨-, k₄, -, hstep₄, hk₄⟩ := hk₃.free ⟨0x102010, 2 ^ 20 - 16⟩ (by simp)
    (by decide +kernel : _ = [⟨2 ^ 21, true⟩])
  have hfold₁ : Foldable ([⟨2 ^ 21, false⟩].map Block.size) :=
    ⟨0, 2 ^ 21, [], by norm_num, rfl, .nil⟩
  have hfold₃ : Foldable ([⟨2 ^ 20, true⟩, ⟨2 ^ 20, false⟩].map Block.size) :=
    ⟨1, 2 ^ 20, [], by norm_num, rfl, .nil⟩
  have hr : FoldingReachable bigPhys _ :=
    (((Relation.ReflTransGen.single ⟨hstep₁, fun h => absurd rfl h⟩).tail
      ⟨hstep₂, hk₁.folding hfold₁⟩).tail ⟨hstep₃, fun h => absurd (by simp) h⟩).tail
      ⟨hstep₄, hk₃.folding hfold₃⟩
  have hheap := hk₄.heap
  exact ⟨_, hr, by simp, heap_restored bigMap_bootable bigPhys_reachable hr
    (by rw [hheap]; simp [firstHeap]) (by rw [hheap]; simp [firstHeap]) (by simp)⟩

end TurbOS.Heap
