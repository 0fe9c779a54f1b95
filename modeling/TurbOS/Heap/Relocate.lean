import TurbOS.Heap.Room

/-!
# Moving an allocation

`realloc` asks `malloc` for a new block, copies the payload and gives the old block back.  In
between `malloc` joins and cuts free blocks, and so does the coalescence at the end; the headers
that they write are in blocks that are free at that moment, so no payload is touched.

The length of the copy is taken from the size of the old block, which counts the header as well:
up to 16 bytes behind the old payload are read.
-/

open ByteMemory Tiling Fuel

namespace TurbOS.Heap

variable {k k' k₁ : Kernel} {m : Mem} {bs bs' : List Block} {fuel n p c s : ℕ}

/-! ## Arenas in order -/

/-- The blocks tile the arena, and each of them has room for a header and a payload. -/
structure Orderly (k : Kernel) (bs : List Block) : Prop where
  unlocked : k.heap.lock = false
  data_ne : k.heap.data ≠ 0
  head_ne : k.heap.head ≠ 0
  tiles : Tiles k.phys.mem k.heap.head bs k.heap.tail
  powers : PowersFrom 5 bs
  tail_lt : k.heap.tail < 2 ^ 64

lemma ne_nil_of_used {a : ℕ} (hu : Used a bs c s) : bs ≠ [] := by
  rintro rfl
  simp [Used] at hu

/-- The room behind the pointer to a block in use. -/
lemma Orderly.allocsize_eq (hk : Orderly k bs) (hu : Used k.heap.head bs c s) :
    32 ≤ s ∧ s < 2 ^ 64 ∧ allocsize (c + 16) k = s - 16 := by
  have hsize := (hk.tiles.read hu).1
  have h32 := hk.powers.le_size (mem_of_mem_spans hu)
  have hbounds := spans_bounds hu
  have hend := hk.tiles.end_eq
  have htail := hk.tail_lt
  dsimp only at hsize h32 hbounds
  refine ⟨by omega, by omega, ?_⟩
  rw [allocsize, if_neg hk.data_ne, if_neg (by omega), Nat.add_sub_cancel, hsize,
    Word64.sub_of_le (by omega) (by omega)]

/-- Writing into a payload keeps the arena in order. -/
lemma Orderly.write (hk : Orderly k bs) (hu : Used k.heap.head bs c s)
    (hm : ∀ x, x < c + 16 ∨ c + s ≤ x → m x = k.phys.mem x) :
    Orderly { k with phys := { k.phys with mem := m } } bs := by
  refine ⟨hk.unlocked, hk.data_ne, hk.head_ne, ?_, hk.powers, hk.tail_lt⟩
  refine hk.tiles.congr fun a b hab x h₁ h₂ => hm x ?_
  have h32 := hk.powers.le_size (mem_of_mem_spans hab)
  rcases spans_apart hab hu with heq | hle | hle
  · obtain ⟨rfl, -⟩ := Prod.mk.inj heq
    exact .inl (by omega)
  · exact .inl (by omega)
  · dsimp only at hle
    exact .inr (by omega)

/-- What is in use is not spare. -/
lemma Refit.payload {a t : ℕ} {m m' : Mem} (hr : Refit a t m bs m' bs') (hu : Used a bs c s) {x : ℕ}
    (h₁ : c ≤ x) (h₂ : x < c + s) : m' x = m x := by
  refine hr.frame x fun hx => ?_
  have := hx.2.2 c s hu
  omega

/-! ## Giving a block back -/

/-- `free` of a block in use returns; the other blocks in use stay, with their contents. -/
lemma Orderly.free_meets (hk : Orderly k bs) (hu : Used k.heap.head bs c s) (fuel : ℕ) :
    Meets (total bs < fuel) (free fuel (c + 16) k) fun k' => k'.heap = k.heap ∧ ∃ bs',
      Orderly k' bs' ∧ (∀ c' s', Used k.heap.head bs' c' s' ↔ Used k.heap.head bs c' s' ∧ c' ≠ c) ∧
      ∀ c' s' x, Used k.heap.head bs c' s' → c' ≠ c → c' ≤ x → x < c' + s' →
        k'.phys.mem x = k.phys.mem x := by
  have hend := hk.tiles.end_eq
  have h32 := (hk.allocsize_eq hu).1
  have hbounds := spans_bounds hu
  have hpos := hk.powers.pos
  obtain ⟨pre, post, rfl, rfl⟩ := mem_spans_iff.mp hu
  dsimp only at hbounds
  rw [free, if_neg hk.data_ne, if_neg (by omega), if_neg (by omega), if_neg (by omega), acquire,
    if_neg (by simp [hk.unlocked]), Option.bind_some, Nat.add_sub_cancel]
  have hm : Tiles (setFree k.phys.mem (k.heap.head + total pre) true) k.heap.head
      (pre ++ ⟨s, true⟩ :: post) k.heap.tail :=
    hk.tiles.mark fun b hb => by
      have := hk.powers.le_size hb
      omega
  have hpow : PowersFrom 5 (pre ++ ⟨s, true⟩ :: post) := by
    intro b hb
    rw [List.mem_append, List.mem_cons] at hb
    rcases hb with hb | rfl | hb
    · exact hk.powers b (by simp [hb])
    · exact hk.powers ⟨s, false⟩ (by simp)
    · exact hk.powers b (by simp [hb])
  have htotal : total (pre ++ ⟨s, false⟩ :: post) = total (pre ++ ⟨s, true⟩ :: post) := by simp
  have hgive : ∀ c' s', Used k.heap.head (pre ++ ⟨s, true⟩ :: post) c' s' ↔
      Used k.heap.head (pre ++ ⟨s, false⟩ :: post) c' s' ∧ c' ≠ k.heap.head + total pre :=
    used_give (by omega) fun b hb => hpos b (by simp [hb])
  rw [htotal]
  refine Meets.map (coalescence_meets (h := { k.heap with lock := true }) hm hpow (by simp)
    hk.tail_lt fuel) ?_
  rintro m ⟨bs', hr, -⟩
  refine ⟨by rw [unlock, ← hk.unlocked], bs', ⟨rfl, hk.data_ne, hk.head_ne, hr.tiles, hr.powers,
    hk.tail_lt⟩, fun c' s' => (hr.used_iff c' s').trans (hgive c' s'),
      fun c' s' x hu' hne h₁ h₂ => ?_⟩
  have hx : m x = setFree k.phys.mem (k.heap.head + total pre) true x :=
    hr.payload ((hgive c' s').mpr ⟨hu', hne⟩) h₁ h₂
  refine hx.trans (setFree_outside ?_)
  -- the mark that is written is in another block
  rcases spans_apart hu hu' with heq | hle | hle
  · exact absurd (Prod.mk.inj heq).1.symm hne
  · dsimp only at hle
    omega
  · dsimp only at hle
    omega

/-! ## Taking a block -/

/-- A request that takes a block of `size` bytes at `c`: it joins the blocks in use, and the others
keep their contents. -/
structure Taken (k k₁ : Kernel) (bs bs₁ : List Block) (c size : ℕ) : Prop where
  orderly : Orderly k₁ bs₁
  head_eq : k₁.heap.head = k.heap.head
  expansions_eq : k₁.heap.expansions = k.heap.expansions
  total_eq : total bs₁ = total bs
  used_iff : ∀ c' s', Used k.heap.head bs₁ c' s' ↔ (c' = c ∧ s' = size) ∨ Used k.heap.head bs c' s'
  vacant : ∀ s', ¬ Used k.heap.head bs c s'
  frame : ∀ c' s' x, Used k.heap.head bs c' s' → c' ≤ x → x < c' + s' →
    k₁.phys.mem x = k.phys.mem x

/-- Taking the block that a search has found. -/
lemma Orderly.take {j : ℕ} {r : ℕ × Mem} (hk : Orderly k bs)
    (hr : Refit k.heap.head k.heap.tail k.phys.mem bs r.2 bs')
    (hfree : (r.1, ⟨2 ^ j, true⟩) ∈ spans k.heap.head bs') :
    ∃ bs₁, Taken k {
      phys := { k.phys with mem := setFree r.2 r.1 false }
      heap := { k.heap with expanded := false, lock := false } } bs bs₁ r.1 (2 ^ j) := by
  have hend := hk.tiles.end_eq
  have hend' := hr.tiles.end_eq
  have hpos := hr.powers.pos
  have h32 := hr.powers.le_size (mem_of_mem_spans hfree)
  obtain ⟨pre, post, rfl, haddr⟩ := mem_spans_iff.mp hfree
  have hvacant : ∀ s', ¬ Used k.heap.head bs r.1 s' := by
    intro s' hu
    have heq := spans_inj hpos hfree ((hr.used_iff _ _).mpr hu)
    exact absurd heq (by simp)
  have hpow : PowersFrom 5 (pre ++ ⟨2 ^ j, false⟩ :: post) := by
    intro b hb
    rw [List.mem_append, List.mem_cons] at hb
    rcases hb with hb | rfl | hb
    · exact hr.powers b (by simp [hb])
    · exact hr.powers ⟨2 ^ j, true⟩ (by simp)
    · exact hr.powers b (by simp [hb])
  refine ⟨pre ++ ⟨2 ^ j, false⟩ :: post, ⟨rfl, hk.data_ne, hk.head_ne, ?_, hpow, hk.tail_lt⟩,
    rfl, rfl, by simp at hend' ⊢; omega, fun c' s' => ?_, hvacant, fun c' s' x hu h₁ h₂ => ?_⟩
  · rw [haddr]
    exact hr.tiles.mark fun b hb => by
      have := hr.powers.le_size hb
      omega
  · rw [used_take, hr.used_iff, haddr]
  · have hx := hr.payload hu h₁ h₂
    refine (setFree_outside ?_).trans hx
    -- the block that is taken is not in use before
    rcases spans_apart hfree ((hr.used_iff _ _).mpr hu) with heq | hle | hle
    · exact absurd (Prod.mk.inj heq).2 (by simp)
    · dsimp only at hle h32
      omega
    · dsimp only at hle
      omega

/-- A request that is served without an expansion is served with any larger fuel, too, and takes
a block with room for it. -/
lemma Orderly.malloc_served {f q : ℕ} (hk : Orderly k bs) (hne : bs ≠ []) (hn : n ≠ 0)
    (hlt : n + 32 ≤ 2 ^ 64) (hm : malloc f n k = some (q, k₁)) (hq : q ≠ 0)
    (hsame : k₁.heap.expansions = k.heap.expansions) :
    ∃ c j, n + 16 ≤ 2 ^ j ∧ ∀ fuel, max f (total bs + 2) ≤ fuel →
      ∃ k' bs', malloc fuel n k = some (c + 16, k') ∧ Taken k k' bs bs' c (2 ^ j) := by
  cases f with
  | zero => simp at hm
  | succ f =>
    obtain ⟨k₀, actual, r, hk₀, -, hactual, hr, hcases⟩ := malloc_cases hn hm
    rw [if_neg hk.data_ne] at hk₀
    obtain rfl := Option.some.inj hk₀
    obtain ⟨j, hj, rfl, hroom⟩ := requiredSize_post hn hlt hactual
    have hlayout := fun fuel => find_layout (h := { k.heap with lock := true }) hk.tiles
      (PowersFrom.four hk.powers) hne hk.tail_lt hk.head_ne (show 4 ≤ j by omega) fuel
    have hmeets := fun fuel => find_meets (h := { k.heap with lock := true }) hk.tiles hk.powers hne
      hk.tail_lt hj fuel
    -- the search finds the same block whatever the fuel
    have haddr := ((hlayout f).post hr).1
    have hfound : r.1 ≠ 0 := by
      rcases hcases with ⟨hfound, -⟩ | ⟨-, -, hnull, -⟩ | ⟨-, -, k₂, hk₂, hrec⟩
      · exact hfound
      · exact absurd hnull hq
      · have h₁ := (expand_cases hk₂).1
        have h₂ := malloc_expansions hrec
        dsimp only at h₁ h₂
        omega
    refine ⟨r.1, j, hroom, fun fuel hfuel => ?_⟩
    obtain ⟨fuel, rfl⟩ : ∃ fuel', fuel = fuel' + 1 := ⟨fuel - 1, by omega⟩
    obtain ⟨r', hr', bs', hrefit, hspan⟩ := (hmeets fuel).returns (by omega)
    have haddr' := ((hlayout fuel).post hr').1
    rw [← haddr] at haddr'
    have hfound' : r'.1 ≠ 0 := by rwa [haddr']
    have hmalloc := malloc_eq_found hn (if_neg hk.data_ne) hk.unlocked
      (requiredSize_mono (by omega) hactual) hr' hfound'
    obtain ⟨bs₁, htaken⟩ := hk.take hrefit (hspan.resolve_left hfound')
    rw [haddr'] at hmalloc htaken
    exact ⟨_, bs₁, hmalloc, htaken⟩

/-! ## Copying -/

/-- The length of the copy that `realloc` makes. -/
def copyLength (k : Kernel) (ptr size : ℕ) : ℕ :=
  if size < blockSize k.phys.mem (ptr - 16) then size else blockSize k.phys.mem (ptr - 16)

/-- When the request for the new block is served, `realloc` copies and gives the old block back. -/
lemma realloc_copies {q : ℕ} (hp : p ≠ 0) (hn : n ≠ 0) (hm : malloc fuel n k = some (q, k₁))
    (hq : q ≠ 0) : realloc fuel p n k = (free fuel p { k₁ with
      phys := { k₁.phys with mem := memcpy k₁.phys.mem q p (copyLength k p n) } }).map
        fun k' => (q, k') := by
  rw [realloc, if_neg hp]
  dsimp only
  rw [if_neg hn, hm, Option.bind_some, if_neg hq]
  rfl

lemma Orderly.copyLength_eq (hk : Orderly k bs) (hu : Used k.heap.head bs c s) (n : ℕ) :
    copyLength k (c + 16) n = min n s := by
  have hsize := (hk.tiles.read hu).1
  dsimp only at hsize
  rw [copyLength, Nat.add_sub_cancel, hsize]
  split <;> omega

/-! ## The main results -/

/-- The block at `c` has moved: the pointer `q` is live and has room for `n` bytes, the payload is
there, the block at `c` is no longer in use, and all other blocks in use are as they were. -/
structure Relocated (k k' : Kernel) (bs bs' : List Block) (c q n : ℕ) : Prop where
  orderly : Orderly k' bs'
  live : ∃ c', q = c' + 16 ∧ Used k'.heap.head bs' c' (allocsize q k' + 16)
  room : n ≤ allocsize q k'
  kept : ∀ i, i < n → i < allocsize (c + 16) k → k'.phys.mem (q + i) = k.phys.mem (c + 16 + i)
  released : ∀ s, ¬ Used k'.heap.head bs' c s
  others : ∀ c' s, Used k.heap.head bs c' s → c' ≠ c → Used k'.heap.head bs' c' s ∧
    ∀ x, c' + 16 ≤ x → x < c' + s → k'.phys.mem x = k.phys.mem x

/-- The block that is taken and a block that was in use before do not meet. -/
lemma Taken.apart {d size : ℕ} (ht : Taken k k₁ bs bs' d size) (hu : Used k.heap.head bs c s) :
    d ≠ c ∧ (d + size ≤ c ∨ c + s ≤ d) := by
  have hne : d ≠ c := by
    rintro rfl
    exact ht.vacant s hu
  have hnew : Used k.heap.head bs' d size := (ht.used_iff _ _).mpr (.inl ⟨rfl, rfl⟩)
  have hold : Used k.heap.head bs' c s := (ht.used_iff _ _).mpr (.inr hu)
  refine ⟨hne, ?_⟩
  rcases spans_apart hnew hold with heq | hle | hle
  · exact absurd (Prod.mk.inj heq).1 hne
  · exact .inl hle
  · exact .inr hle

/-- Copying the payload to a block that was taken for it, and giving the old block back. -/
lemma Taken.relocated {d size : ℕ} (ht : Taken k k₁ bs bs' d size) (hk : Orderly k bs)
    (hu : Used k.heap.head bs c s) (hroom : n + 16 ≤ size) (hf : total bs < fuel) :
    ∃ k' bs₂, free fuel (c + 16) { k₁ with phys := { k₁.phys with
        mem := memcpy k₁.phys.mem (d + 16) (c + 16) (copyLength k (c + 16) n) } } = some k' ∧
      Relocated k k' bs bs₂ c (d + 16) n := by
  obtain ⟨h32, -, hsize⟩ := hk.allocsize_eq hu
  obtain ⟨hne, hapart⟩ := ht.apart hu
  have hlen := hk.copyLength_eq hu n
  generalize copyLength k (c + 16) n = len at hlen ⊢
  have hhead := ht.head_eq
  have hnew : Used k₁.heap.head bs' d size := by
    rw [hhead]
    exact (ht.used_iff _ _).mpr (.inl ⟨rfl, rfl⟩)
  have hkept : ∀ c' s', Used k.heap.head bs c' s' → Used k₁.heap.head bs' c' s' := by
    intro c' s' hu'
    rw [hhead]
    exact (ht.used_iff _ _).mpr (.inr hu')
  have hwritten := ht.orderly.write (m := memcpy k₁.phys.mem (d + 16) (c + 16) len) hnew
    fun x hx => copy_outside (by omega)
  obtain ⟨k', hfree, hheap, bs₂, horderly, hused, hframe⟩ :=
    (hwritten.free_meets (hkept c s hu) fuel).returns (by rw [ht.total_eq]; exact hf)
  dsimp only at hheap hused hframe
  have hhead' : k'.heap.head = k₁.heap.head := by rw [hheap]
  have hlive : Used k'.heap.head bs₂ d size := by
    rw [hhead']
    exact (hused _ _).mpr ⟨hnew, hne⟩
  obtain ⟨h32', -, hsize'⟩ := horderly.allocsize_eq hlive
  refine ⟨k', bs₂, hfree, horderly, ⟨d, rfl, ?_⟩, ?_, ?_, ?_, ?_⟩
  · rw [hsize', Nat.sub_add_cancel (by omega)]
    exact hlive
  · rw [hsize']
    omega
  · -- the bytes arrive, and giving the old block back does not change them
    intro i hi hi'
    rw [hsize] at hi'
    rw [hframe d size (d + 16 + i) hnew hne (by omega) (by omega)]
    have hcopy : memcpy k₁.phys.mem (d + 16) (c + 16) len (d + 16 + i) = k₁.phys.mem (c + 16 + i) :=
      copy_inside (by omega) (by omega)
    exact hcopy.trans (ht.frame c s _ hu (by omega) (by omega))
  · intro s' hs'
    rw [hhead'] at hs'
    exact ((hused c s').mp hs').2 rfl
  · intro c' s' hu' hne'
    refine ⟨?_, fun x h₁ h₂ => ?_⟩
    · rw [hhead']
      exact (hused c' s').mpr ⟨hkept c' s' hu', hne'⟩
    · have hmiss := (ht.apart hu').2
      rw [hframe c' s' x (hkept c' s' hu') hne' (by omega) h₂]
      have hcopy : memcpy k₁.phys.mem (d + 16) (c + 16) len x = k₁.phys.mem x :=
        copy_outside (by omega)
      exact hcopy.trans (ht.frame c' s' x hu' (by omega) h₂)

/-- **`realloc` keeps the contents.**  In an arena that is in order, a pointer to a block in use is
moved by every request that can be served without expanding the heap. -/
theorem realloc_keeps (hk : Orderly k bs) (hu : Used k.heap.head bs c s) (hn : 1 ≤ n)
    (hlt : n < 2 ^ 62) (hserved : ∃ fuel q k₁, malloc fuel n k = some (q, k₁) ∧ q ≠ 0 ∧
      k₁.heap.expansions = k.heap.expansions) :
    ∃ enough, ∀ fuel, enough ≤ fuel → ∃ q k' bs', realloc fuel (c + 16) n k = some (q, k') ∧
      Relocated k k' bs bs' c q n := by
  obtain ⟨f, q₀, k₀, hm₀, hq₀, hsame⟩ := hserved
  have hne : n ≠ 0 := by omega
  obtain ⟨d, j, hroom, hmalloc⟩ := hk.malloc_served (ne_nil_of_used hu) hne (by omega) hm₀ hq₀ hsame
  refine ⟨max f (total bs + 2), fun fuel hfuel => ?_⟩
  obtain ⟨k₁, bs₁, hm, ht⟩ := hmalloc fuel hfuel
  have hf : total bs < fuel := by
    have := le_max_right f (total bs + 2)
    omega
  obtain ⟨k', bs₂, hfree, hrel⟩ := ht.relocated hk hu hroom hf
  have hp : c + 16 ≠ 0 := by omega
  have hrealloc := realloc_copies hp hne hm (Nat.succ_ne_zero (d + 15))
  rw [hfree, Option.map_some] at hrealloc
  exact ⟨d + 16, k', bs₂, hrealloc, hrel⟩

/-- **`realloc` copies only payload up to the size of the old one.**  When the request for the new
block succeeds, the bytes that are read lie in the old payload, and those that are written in the
new one, exactly if the request is not larger than the old payload. -/
theorem realloc_copy_iff {q : ℕ} (hk : Orderly k bs) (hu : Used k.heap.head bs c s) (hn : 1 ≤ n)
    (hlt : n < 2 ^ 64) (hm : malloc fuel n k = some (q, k₁)) (hq : q ≠ 0) :
    realloc fuel (c + 16) n k = (free fuel (c + 16) { k₁ with phys := { k₁.phys with
        mem := memcpy k₁.phys.mem q (c + 16) (copyLength k (c + 16) n) } }).map
          (fun k' => (q, k')) ∧
      (((∀ x, c + 16 ≤ x → x < c + 16 + copyLength k (c + 16) n →
            x < c + 16 + allocsize (c + 16) k) ∧
          ∀ x, q ≤ x → x < q + copyLength k (c + 16) n → x < q + allocsize q k₁) ↔
        n ≤ allocsize (c + 16) k) := by
  obtain ⟨h32, hword, hsize⟩ := hk.allocsize_eq hu
  have hlen := hk.copyLength_eq hu n
  have hp : c + 16 ≠ 0 := by omega
  have hne : n ≠ 0 := by omega
  refine ⟨realloc_copies hp hne hm hq, ?_⟩
  rw [hsize, hlen]
  constructor
  · -- the last byte of the copy
    rintro ⟨hread, -⟩
    have hlast := hread (c + 16 + (min n s - 1)) (by omega) (by omega)
    omega
  · intro hle
    -- the new block has room for the request, which the old one bounds
    obtain ⟨j, hj, hpow⟩ := hk.powers _ (mem_of_mem_spans hu)
    dsimp only at hpow
    subst hpow
    have hj64 : j < 64 := (Nat.pow_lt_pow_iff_right (by norm_num : 1 < 2)).mp hword
    have hmax : 2 ^ j ≤ 2 ^ 63 := Nat.pow_le_pow_right (by norm_num) (by omega)
    obtain ⟨-, f, actual, hactual, hroom⟩ := malloc_allocsize hne hq hm
    obtain ⟨actual', hactual', hactual_le⟩ := requiredSize_le (n := n) (show 4 ≤ j by omega) hj64
      (by omega)
    obtain rfl := requiredSize_unique hactual hactual'
    obtain ⟨-, -, -, hge⟩ := requiredSize_post hne (by omega) hactual
    rw [hroom, Word64.sub_of_le (by omega) (by omega)]
    constructor
    · intro x _ hx
      omega
    · intro x _ hx
      omega

/-! ## An arena of one page -/

/-- A heap whose arena is one page. -/
def pageKernel : Kernel where
  phys := { mem := setFree (setSize (fun _ => 0) 0x1000 0x1000) 0x1000 true }
  heap := { head := 0x1000, tail := 0x2000, data := 0x1000, pages := 1 }

lemma pageKernel_orderly : Orderly pageKernel [⟨0x1000, true⟩] where
  unlocked := rfl
  data_ne := by decide
  head_ne := by decide
  tiles := by decide +kernel
  powers b hb := ⟨12, by norm_num, by rw [List.mem_singleton.mp hb]; rfl⟩
  tail_lt := by decide

/-- A request for 16 bytes takes the last block, of 32 bytes, and one for 17 bytes is served after
it. -/
lemma pageKernel_run : ∃ k bs q k₁, Orderly k bs ∧ Used k.heap.head bs 0x1FE0 32 ∧
    malloc 0x2000 17 k = some (q, k₁) ∧ q ≠ 0 ∧ k₁.heap.expansions = k.heap.expansions := by
  have hrun : ((malloc 0x2000 16 pageKernel).bind fun r => (malloc 0x2000 17 r.2).map fun r' =>
      (r.1, r.2.heap.expansions, blockSize r.2.phys.mem 0x1FE0, r'.1, r'.2.heap.expansions)) =
        some (0x1FF0, 0, 32, 0x1F90, 0) := by
    decide +kernel
  obtain ⟨⟨p, k⟩, hm, hrun⟩ := Option.bind_eq_some_iff.mp hrun
  obtain ⟨⟨q, k₁⟩, hm₁, hrun⟩ := Option.map_eq_some_iff.mp hrun
  simp only [Prod.mk.injEq] at hrun
  obtain ⟨rfl, hzero, hsize, rfl, hzero₁⟩ := hrun
  obtain ⟨d, j, -, hserved⟩ := pageKernel_orderly.malloc_served (by simp) (by norm_num)
    (by norm_num) hm (by norm_num) hzero
  obtain ⟨k', bs, hm', ht⟩ := hserved 0x2000 (by decide)
  obtain ⟨hd, rfl⟩ := Prod.mk.inj (Option.some.inj (hm.symm.trans hm'))
  obtain rfl : d = 0x1FE0 := by omega
  have hu : Used k.heap.head bs 0x1FE0 (2 ^ j) := by
    rw [ht.head_eq]
    exact (ht.used_iff _ _).mpr (.inl ⟨rfl, rfl⟩)
  have hread := (ht.orderly.tiles.read hu).1
  rw [hsize] at hread
  dsimp only at hread
  rw [← hread] at hu
  exact ⟨k, bs, _, k₁, ht.orderly, hu, hm₁, by norm_num, hzero₁.trans hzero.symm⟩

/-- The pointer to the 32 bytes is moved by a request for 17 bytes. -/
theorem realloc_keeps_page : ∃ k bs, Orderly k bs ∧ Used k.heap.head bs 0x1FE0 32 ∧
    ∃ enough, ∀ fuel, enough ≤ fuel → ∃ q k' bs', realloc fuel (0x1FE0 + 16) 17 k = some (q, k') ∧
      Relocated k k' bs bs' 0x1FE0 q 17 := by
  obtain ⟨k, bs, q, k₁, hk, hu, hm, hq, hsame⟩ := pageKernel_run
  exact ⟨k, bs, hk, hu, realloc_keeps hk hu (by norm_num) (by norm_num) ⟨_, q, k₁, hm, hq, hsame⟩⟩

/-- The condition fails for this request. -/
theorem realloc_copy_page : ∃ k bs q k₁, Orderly k bs ∧ Used k.heap.head bs 0x1FE0 32 ∧
    malloc 0x2000 17 k = some (q, k₁) ∧
    realloc 0x2000 (0x1FE0 + 16) 17 k = (free 0x2000 (0x1FE0 + 16) { k₁ with phys := { k₁.phys with
        mem := memcpy k₁.phys.mem q (0x1FE0 + 16) (copyLength k (0x1FE0 + 16) 17) } }).map
          (fun k' => (q, k')) ∧
      (((∀ x, 0x1FE0 + 16 ≤ x → x < 0x1FE0 + 16 + copyLength k (0x1FE0 + 16) 17 →
            x < 0x1FE0 + 16 + allocsize (0x1FE0 + 16) k) ∧
          ∀ x, q ≤ x → x < q + copyLength k (0x1FE0 + 16) 17 → x < q + allocsize q k₁) ↔
        17 ≤ allocsize (0x1FE0 + 16) k) := by
  obtain ⟨k, bs, q, k₁, hk, hu, hm, hq, -⟩ := pageKernel_run
  exact ⟨k, bs, q, k₁, hk, hu, hm, realloc_copy_iff hk hu (by norm_num) (by norm_num) hm hq⟩

/-- The byte behind the payload, which is the byte behind the arena, is read. -/
theorem realloc_reads_behind : ∃ k bs q k₁, Orderly k bs ∧ Used k.heap.head bs 0x1FE0 32 ∧
    malloc 0x2000 17 k = some (q, k₁) ∧ q ≠ 0 ∧
    realloc 0x2000 0x1FF0 17 k = (free 0x2000 0x1FF0 { k₁ with phys := { k₁.phys with
      mem := memcpy k₁.phys.mem q 0x1FF0 (copyLength k 0x1FF0 17) } }).map (fun k' => (q, k')) ∧
    ¬ ∀ x, 0x1FF0 ≤ x → x < 0x1FF0 + copyLength k 0x1FF0 17 → x < 0x1FF0 + allocsize 0x1FF0 k := by
  obtain ⟨k, bs, q, k₁, hk, hu, hm, hq, -⟩ := pageKernel_run
  obtain ⟨-, -, hsize⟩ := hk.allocsize_eq hu
  have hlen := hk.copyLength_eq hu 17
  refine ⟨k, bs, q, k₁, hk, hu, hm, hq, realloc_copies (by norm_num) (by norm_num) hm hq, ?_⟩
  rw [hlen, hsize]
  intro hread
  have hlast := hread 0x2000 (by norm_num) (by norm_num)
  omega

end TurbOS.Heap
