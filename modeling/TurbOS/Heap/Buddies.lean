import TurbOS.Heap.Restore
import TurbOS.Lib.Buddies

/-!
# Which blocks are joined

`find_best` and `coalescence` join two free neighbours of one size, wherever they start.  If the
layout that they find has no free neighbours but buddies (`Apart`), they join buddies only, and
every block starts at a multiple of its size.  `malloc` and `free` do not keep `Apart`, so this
is a condition on every call.
-/

open ByteMemory Tiling Fuel

namespace TurbOS.Heap

variable {g : PMemory.Geometry} {others : List PMemory.Extent} {k k' : Kernel} {c c' : Client}
  {bs bs' : List Block} {live : List Alloc} {al : Alloc} {a j n p fuel : ℕ}

/-! ## The searches -/

/-- The blocks that a block was cut into can be joined again. -/
lemma Layout.cut_merges (fuel : ℕ) {i : ℕ} :
    Merges (Layout.cut fuel (2 ^ j) (2 ^ i)) [⟨2 ^ i, true⟩] := by
  induction fuel generalizing i with
  | zero => exact .refl
  | succ fuel ih =>
    rw [Layout.cut]
    split
    · rename_i hlt
      have hji : j < i := (Nat.pow_lt_pow_iff_right (by norm_num)).mp hlt
      obtain ⟨i, rfl⟩ : ∃ i', i = i' + 1 := ⟨i - 1, by omega⟩
      have hhalf : 2 ^ (i + 1) / 2 = 2 ^ i := by rw [pow_succ, Nat.mul_div_cancel _ (by norm_num)]
      rw [hhalf, pow_succ']
      exact (ih.cons _).tail (Merge.mk [] (2 ^ i) [])
    · exact .refl

/-- `split` cuts a block that can be joined again, and does nothing if the block is too small. -/
lemma Layout.split_merges (pre post : List Block) {i : ℕ} (ha : a ≠ 0)
    (hpos : ∀ b ∈ pre, 0 < b.size) :
    Merges (Layout.split (2 ^ j) (a + total pre) a (pre ++ ⟨2 ^ i, true⟩ :: post)).2
        (pre ++ ⟨2 ^ i, true⟩ :: post) ∧
      ((Layout.split (2 ^ j) (a + total pre) a (pre ++ ⟨2 ^ i, true⟩ :: post)).1 = 0 →
        (Layout.split (2 ^ j) (a + total pre) a (pre ++ ⟨2 ^ i, true⟩ :: post)).2 =
          pre ++ ⟨2 ^ i, true⟩ :: post) := by
  rw [Layout.split_append (2 ^ j) hpos]
  dsimp only
  refine ⟨?_, fun hzero => ?_⟩
  · have h := (Layout.cut_merges (j := j) (2 ^ i) (i := i)).append pre post
    simpa using h
  · split at hzero
    · omega
    · rename_i hlt
      have hcut : Layout.cut (2 ^ i) (2 ^ j) (2 ^ i) = [⟨2 ^ i, true⟩] := by
        cases hf : 2 ^ i with
        | zero => rfl
        | succ f => rw [Layout.cut, if_neg (by omega)]
      rw [hcut, List.singleton_append]

/-- `find_best` joins blocks, and then cuts the block that it has found. -/
lemma Layout.findBest_refit {i : ℕ} (ha : a ≠ 0) (hp : PowersFrom i bs) :
    ∃ mid, Merges bs mid ∧ Merges (Layout.findBest (2 ^ j) a bs).2 mid ∧
      ((Layout.findBest (2 ^ j) a bs).1 = 0 → (Layout.findBest (2 ^ j) a bs).2 = mid) := by
  rw [Layout.findBest]
  split
  · -- a single free block
    rename_i heq
    obtain ⟨b, rfl⟩ : ∃ b : Block, bs = [b] := ⟨_, heq⟩
    obtain ⟨e, -, he⟩ := hp b (by simp)
    obtain rfl : b = ⟨2 ^ e, true⟩ := by
      rw [(List.cons.inj heq).1, total_cons, he]
      rfl
    have h := Layout.split_merges (j := j) (i := e) [] [] ha (by simp)
    exact ⟨_, .refl, h⟩
  · have hmerges := Layout.seek_merges (2 ^ j) none a bs
    obtain ⟨x, hchosen⟩ := Layout.seek_chosen (x := a) (a := a) [] (by simp) hp.pos
      (by simp [Chosen] : Chosen (2 ^ j) a ([] ++ bs) a none)
    generalize Layout.seek (2 ^ j) none a bs = res at hchosen hmerges
    obtain ⟨_ | r, bs'⟩ := res
    · exact ⟨bs', hmerges, .refl, fun _ => rfl⟩
    · refine ⟨bs', hmerges, ?_⟩
      obtain ⟨hmem, -, -⟩ := hchosen r rfl
      have hp' := hp.merges hmerges
      dsimp only [List.nil_append] at hmem hp' ⊢
      obtain ⟨pre, post, rfl, haddr⟩ := mem_spans_iff.mp hmem
      obtain ⟨e, -, he⟩ := hp' ⟨r.2, true⟩ (by simp)
      dsimp only at he
      rw [haddr, he]
      exact Layout.split_merges pre post ha fun b hb => hp'.pos b (by simp [hb])

/-- `malloc` joins blocks, and then cuts the block that it has found. -/
lemma Layout.find_refit {i : ℕ} (ha : a ≠ 0) (hp : PowersFrom i bs) :
    ∃ mid, Merges bs mid ∧ Merges (Layout.find (2 ^ j) a bs).2 mid := by
  obtain ⟨mid, h₁, h₂, hzero⟩ := Layout.findBest_refit (j := j) ha hp
  rw [Layout.find]
  split
  · rename_i hnone
    rw [hzero hnone]
    have hcoal := h₁.trans (Layout.coalescence_merges mid.length mid)
    obtain ⟨mid', h₃, h₄, -⟩ := Layout.findBest_refit (j := j) ha (hp.merges hcoal)
    exact ⟨mid', hcoal.trans h₃, h₄⟩
  · exact ⟨mid, h₁, h₂⟩

/-! ## The calls -/

/-- The blocks of the arena start at multiples of their sizes. -/
def AlignedIn (k : Kernel) : Prop :=
  ∀ bs, Tiles k.phys.mem k.heap.head bs k.heap.tail → (∀ b ∈ bs, 0 < b.size) → AlignedFrom 0 bs

/-- The layout in which `malloc` searches has no free neighbours but buddies. -/
def ApartIn (k : Kernel) : Prop :=
  ∀ bs, Tiles k.phys.mem k.heap.head bs k.heap.tail → (∀ b ∈ bs, 0 < b.size) → Apart bs

/-- The layout that `free` coalesces has no free neighbours but buddies. -/
def ApartAfter (k : Kernel) (p : ℕ) : Prop :=
  ∀ bs, Tiles k.phys.mem k.heap.head bs k.heap.tail → (∀ b ∈ bs, 0 < b.size) →
    Apart (Layout.mark (p - 16) true k.heap.head bs)

lemma Sound.alignedIn (hk : Sound g others k bs live) (h : AlignedFrom 0 bs) : AlignedIn k := by
  intro bs' htiles hpos
  rw [hk.tiles_unique htiles hpos]
  exact h

/-- A layout of one block has no neighbours. -/
lemma apart_of_length (h : bs.length ≤ 1) : Apart bs := by
  rintro pre us vs post j heq - - hu hv -
  have hpos : 0 < 2 ^ j := by positivity
  have hus : us ≠ [] := by rintro rfl; simp at hu; omega
  have hvs : vs ≠ [] := by rintro rfl; simp at hv; omega
  have hlen := congrArg List.length heq
  have h₁ := List.length_pos_iff.mpr hus
  have h₂ := List.length_pos_iff.mpr hvs
  simp only [List.length_append] at hlen
  omega

/-- `malloc` on an aligned layout without wrong neighbours. -/
lemma Good.malloc_aligned (hc : Good g others c) (hn : n < 2 ^ 62)
    (h : Heap.malloc fuel n c.kernel = some (p, k')) (hone : k'.heap.expansions ≤ 1)
    (hapart : ApartIn c.kernel) (hal : AlignedIn c.kernel) : AlignedIn k' := by
  by_cases hn0 : n = 0
  · rw [(malloc_null_eq hn0 h).2]
    exact hal
  obtain ⟨bs₀, actual, f, hpow, hbs₀, hreq, hhead, -, htiles, hpow'⟩ :=
    hc.malloc_layout hn0 (by omega) h hone
  obtain ⟨j, -, rfl⟩ := requiredSize_pow hreq
  have hlayout : Apart bs₀ ∧ AlignedFrom 0 bs₀ := by
    rcases hbs₀ with ⟨-, heq⟩ | ⟨htiles₀, -⟩
    · rw [heq]
      exact ⟨apart_of_length (by simp), dvd_zero _, trivial⟩
    · exact ⟨hapart bs₀ htiles₀ hpow.pos, hal bs₀ htiles₀ hpow.pos⟩
  obtain ⟨mid, hjoin, hcut⟩ := Layout.find_refit (j := j) hhead hpow
  have hmid := hjoin.alignedFrom_of_apart hpow hlayout.1 hlayout.2
  intro bs' htiles' hpos'
  rw [htiles'.unique htiles hpos' (PowersFrom.mark hpow' _ _ _).pos]
  exact (hcut.alignedFrom hmid).congr (Layout.map_size_mark _ _ _ _)

/-- `free` on an aligned layout that has no wrong neighbours once the block is free. -/
lemma Sound.free_aligned (hk : Sound g others k bs live) (hal : al ∈ live)
    (hlock : k.heap.lock = false) (h : Heap.free fuel al.ptr k = some k')
    (hapart : ApartAfter k al.ptr) (halign : AlignedIn k) : AlignedIn k' := by
  obtain ⟨hheap, htiles⟩ := (hk.free_layout hal hlock fuel).post h
  have hs := hk.shape
  have hmerges := Layout.coalescence_merges bs.length
    (Layout.mark (al.ptr - 16) true k.heap.head bs)
  have hpow := PowersFrom.mark hs.powers (al.ptr - 16) true k.heap.head
  have haligned := (halign bs hs.tiles hs.powers.pos).congr
    (Layout.map_size_mark (al.ptr - 16) true k.heap.head bs)
  intro bs' htiles' hpos'
  rw [hheap] at htiles'
  rw [Tiles.unique htiles' htiles hpos' (hpow.merges hmerges).pos]
  exact hmerges.alignedFrom_of_apart hpow (hapart bs hs.tiles hs.powers.pos) haligned

/-- Writes into payloads do not change the layout. -/
lemma Sound.write_aligned (hk : Sound g others k bs live) (hal : al ∈ live) {m : Mem}
    (hm : ∀ x, x < al.ptr ∨ al.ptr + allocsize al.ptr k ≤ x → m x = k.phys.mem x)
    (h : AlignedIn k) : AlignedIn { k with phys := { k.phys with mem := m } } :=
  (hk.write hal hm).alignedIn (h bs hk.shape.tiles hk.shape.powers.pos)

/-! ## Runs -/

/-- The steps in which every search and every `coalescence` meets a layout without wrong
neighbours.  `realloc` makes two calls, and the second one meets the layout that the first one
has left. -/
inductive BuddyStep : Client → Client → Prop
  | malloc {c : Client} {fuel n p : ℕ} {k : Kernel} (hapart : ApartIn c.kernel) (hn : n < 2 ^ 62)
      (h : malloc fuel n c.kernel = some (p, k)) :
      BuddyStep c ⟨k, if p = 0 then c.live else ⟨p, n⟩ :: c.live⟩
  | calloc {c : Client} {fuel num size p : ℕ} {k : Kernel} (hapart : ApartIn c.kernel)
      (hn : num * size < 2 ^ 62) (h : calloc fuel num size c.kernel = some (p, k)) :
      BuddyStep c ⟨k, if p = 0 then c.live else ⟨p, num * size⟩ :: c.live⟩
  | reallocNull {c : Client} {fuel n p : ℕ} {k : Kernel} (hapart : ApartIn c.kernel)
      (hn : n < 2 ^ 62) (h : realloc fuel 0 n c.kernel = some (p, k)) :
      BuddyStep c ⟨k, if p = 0 then c.live else ⟨p, n⟩ :: c.live⟩
  | realloc {c : Client} {al : Alloc} {fuel n p : ℕ} {k : Kernel} (hal : al ∈ c.live)
      (hn : n < 2 ^ 62) (hfree : n = 0 → ApartAfter c.kernel al.ptr)
      (hapart : n ≠ 0 → ApartIn c.kernel)
      (hafter : n ≠ 0 → ∀ q k₁, malloc fuel n c.kernel = some (q, k₁) → ApartAfter k₁ al.ptr)
      (h : realloc fuel al.ptr n c.kernel = some (p, k)) :
      BuddyStep c ⟨k, if n = 0 then c.live.erase al else ⟨p, n⟩ :: c.live.erase al⟩
  | freeNull {c : Client} {fuel : ℕ} {k : Kernel} (h : free fuel 0 c.kernel = some k) :
      BuddyStep c ⟨k, c.live⟩
  | free {c : Client} {al : Alloc} {fuel : ℕ} {k : Kernel} (hal : al ∈ c.live)
      (hapart : ApartAfter c.kernel al.ptr) (h : free fuel al.ptr c.kernel = some k) :
      BuddyStep c ⟨k, c.live.erase al⟩
  | write {c : Client} {al : Alloc} {x : ℕ} {b : UInt8} (hal : al ∈ c.live) (h₁ : al.ptr ≤ x)
      (h₂ : x < al.ptr + allocsize al.ptr c.kernel) :
      BuddyStep c ⟨{ c.kernel with phys := { c.kernel.phys with
        mem := Function.update c.kernel.phys.mem x b } }, c.live⟩

/-- The states that runs of such steps reach. -/
def BuddyReachable (s : Phys) (c : Client) : Prop := Relation.ReflTransGen BuddyStep (start s) c

lemma BuddyStep.step (hs : BuddyStep c c') : Step c c' := by
  cases hs with
  | malloc hapart hn h => exact .malloc hn h
  | calloc hapart hn h => exact .calloc hn h
  | reallocNull hapart hn h => exact .reallocNull hn h
  | realloc hal hn hfree hapart hafter h => exact .realloc hal hn h
  | freeNull h => exact .freeNull h
  | free hal hapart h => exact .free hal h
  | write hal h₁ h₂ => exact .write hal h₁ h₂

lemma BuddyReachable.reachable {s : Phys} (hr : BuddyReachable s c) : Reachable s c :=
  Relation.ReflTransGen.mono (fun _ _ h => h.step) _ _ hr

/-- The steps keep the alignment. -/
lemma BuddyStep.alignedIn (hs : BuddyStep c c') (hc : Good g others c)
    (hlock : c.kernel.heap.lock = false) (hone : c'.kernel.heap.expansions ≤ 1)
    (h : AlignedIn c.kernel) : AlignedIn c'.kernel := by
  obtain ⟨bs, hsound⟩ := hc.sound
  cases hs with
  | malloc hapart hn hmalloc => exact hc.malloc_aligned hn hmalloc hone hapart h
  | @calloc fuel num size p k hapart hn hcalloc =>
    obtain ⟨k₁, hmalloc, ⟨rfl, rfl⟩ | ⟨hp, rfl⟩⟩ := calloc_cases hcalloc
    · rw [Word64.mul_of_lt (by omega)] at hmalloc
      exact hc.malloc_aligned hn hmalloc hone hapart h
    · rw [Word64.mul_of_lt (by omega)] at hmalloc ⊢
      obtain ⟨bs₁, hs₁⟩ :=
        hsound.malloc (by omega) hmalloc (hc.calm (malloc_expansions hmalloc) hone)
      rw [if_neg hp] at hs₁
      refine hs₁.write_aligned List.mem_cons_self (fun x hx => fill_outside ?_)
        (hc.malloc_aligned hn hmalloc hone hapart h)
      obtain ⟨b, -, -, hsize⟩ := hs₁.block List.mem_cons_self
      dsimp only at hsize hx
      omega
  | reallocNull hapart hn hrealloc =>
    rw [Heap.realloc, if_pos rfl] at hrealloc
    exact hc.malloc_aligned hn hrealloc hone hapart h
  | @realloc al fuel n p k hal hn hfree hapart hafter hrealloc =>
    have hptr : al.ptr ≠ 0 := by
      obtain ⟨b, -, hptr, -⟩ := hsound.block hal
      omega
    rcases realloc_cases hptr hrealloc with ⟨hn0, -, hcall⟩ | ⟨hn0, -, hmalloc⟩ |
      ⟨hn0, hq, k₁, len, hlen, hmalloc, hcall⟩
    · exact hsound.free_aligned hal hlock hcall (hfree hn0) h
    · exact hc.malloc_aligned hn hmalloc hone (hapart hn0) h
    · -- the layout that `free` meets is the one that `malloc` has left
      have hsame := (free_heap hcall).1
      dsimp only at hsame hone
      have hone₁ : k₁.heap.expansions ≤ 1 := by omega
      obtain ⟨bs₁, hs₁⟩ :=
        hsound.malloc (by omega) hmalloc (hc.calm (malloc_expansions hmalloc) hone₁)
      rw [if_neg hq] at hs₁
      have hcopy : ∀ x, x < p ∨ p + allocsize p k₁ ≤ x →
          memcpy k₁.phys.mem p al.ptr len x = k₁.phys.mem x := by
        intro x hx
        obtain ⟨b, -, -, hsize⟩ := hs₁.block List.mem_cons_self
        exact copy_outside (by dsimp only at hsize; omega)
      have hs₂ := hs₁.write List.mem_cons_self hcopy
      have hlock₁ := malloc_lock hlock hmalloc
      refine hs₂.free_aligned (List.mem_cons_of_mem _ hal) (by exact hlock₁) hcall ?_
        (hs₁.write_aligned List.mem_cons_self hcopy
          (hc.malloc_aligned hn hmalloc hone₁ (hapart hn0) h))
      intro bs₂ htiles hpos
      rw [hs₂.tiles_unique htiles hpos]
      exact hafter hn0 p k₁ hmalloc bs₁ hs₁.shape.tiles hs₁.shape.powers.pos
  | freeNull hfree =>
    rw [free_null hfree]
    exact h
  | free hal hapart hfree => exact hsound.free_aligned hal hlock hfree hapart h
  | write hal h₁ h₂ =>
    exact hsound.write_aligned hal (fun x hx => Function.update_of_ne (by omega) _ _) h

/-- The alignment holds along every run of such steps. -/
lemma BuddyReachable.alignedIn {s : Phys} (h : PMemory.Inv g s others) (hr : BuddyReachable s c)
    (hone : c.kernel.heap.expansions ≤ 1) : AlignedIn c.kernel := by
  induction hr with
  | refl =>
    intro bs htiles hpos
    obtain ⟨bs', hs⟩ := (start_good h).sound
    rw [hs.tiles_unique htiles hpos, hs.shape.empty_iff.mp rfl]
    trivial
  | tail hr hs ih =>
    have hle := hs.step.expansions_le
    have hr' := BuddyReachable.reachable hr
    exact hs.alignedIn (hr'.good h (by omega)) hr'.unlocked hone (ih (by omega))

/-! ## The main result -/

/-- **Only buddies are joined.**  In a run in which the heap is expanded at most once, and in
which no search and no `coalescence` meets free neighbours of one length that are not the
halves of an aligned range, every block starts at a multiple of its size from `head`. -/
theorem blocks_aligned {mm : List PMemory.MmapEntry} {m : Mem} {h : PMemory.Held}
    (hb : PMemory.Bootable mm) (hp : PMemory.Reachable mm m h) (hr : BuddyReachable h.phys c)
    (hone : c.kernel.heap.expansions ≤ 1) :
    ∃ bs, Tiles c.kernel.phys.mem c.kernel.heap.head bs c.kernel.heap.tail ∧
      (∀ b ∈ bs, 0 < b.size) ∧
      ∀ x b, (x, b) ∈ spans c.kernel.heap.head bs → b.size ∣ x - c.kernel.heap.head := by
  obtain ⟨buffer, hinv, -⟩ := hp.inv hb
  obtain ⟨bs, hs⟩ := (hr.reachable.good hinv hone).sound
  have haligned := hr.alignedIn hinv hone bs hs.shape.tiles hs.shape.powers.pos
  refine ⟨bs, hs.shape.tiles, hs.shape.powers.pos, fun x b hx => ?_⟩
  obtain ⟨pre, post, rfl, rfl⟩ := mem_spans_iff.mp hx
  rw [Nat.add_sub_cancel_left]
  exact haligned.dvd (mem_spans_iff.mpr ⟨pre, post, rfl, (Nat.zero_add _).symm⟩)

/-- On the large machine three eighths were allocated, and two of them given back: the two were
joined, although they are no buddies. -/
theorem blocks_not_aligned : ∃ (c : Client) (bs : List Block) (x : ℕ) (b : Block),
    PMemory.Reachable bigMap (fun _ => 0) ⟨bigPhys, []⟩ ∧ Reachable bigPhys c ∧
      c.kernel.heap.expansions = 1 ∧
      Tiles c.kernel.phys.mem c.kernel.heap.head bs c.kernel.heap.tail ∧
      (x, b) ∈ spans c.kernel.heap.head bs ∧ ¬ b.size ∣ x - c.kernel.heap.head := by
  obtain ⟨k₀, hk₀⟩ := laid_whole
  obtain ⟨-, k₁, -, -, hk₁⟩ := hk₀.malloc (2 ^ 18 - 16) (2 ^ 18) 0x1C2000 (by norm_num)
    (by norm_num) (by decide +kernel) (by norm_num)
    (by decide +kernel : _ = (0x1C2000,
      [⟨2 ^ 20, true⟩, ⟨2 ^ 19, true⟩, ⟨2 ^ 18, true⟩, ⟨2 ^ 18, true⟩]))
    (by decide +kernel : _ = [⟨2 ^ 20, true⟩, ⟨2 ^ 19, true⟩, ⟨2 ^ 18, true⟩, ⟨2 ^ 18, false⟩])
  obtain ⟨-, k₂, -, -, hk₂⟩ := hk₁.malloc (2 ^ 18 - 16) (2 ^ 18) 0x182000 (by norm_num)
    (by norm_num) (by decide +kernel) (by norm_num)
    (by decide +kernel : _ = (0x182000,
      [⟨2 ^ 20, true⟩, ⟨2 ^ 19, true⟩, ⟨2 ^ 18, true⟩, ⟨2 ^ 18, false⟩]))
    (by decide +kernel : _ = [⟨2 ^ 20, true⟩, ⟨2 ^ 19, true⟩, ⟨2 ^ 18, false⟩, ⟨2 ^ 18, false⟩])
  obtain ⟨-, k₃, -, -, hk₃⟩ := hk₂.malloc (2 ^ 18 - 16) (2 ^ 18) 0x142000 (by norm_num)
    (by norm_num) (by decide +kernel) (by norm_num)
    (by decide +kernel : _ = (0x142000,
      [⟨2 ^ 20, true⟩, ⟨2 ^ 18, true⟩, ⟨2 ^ 18, true⟩, ⟨2 ^ 18, false⟩, ⟨2 ^ 18, false⟩]))
    (by decide +kernel : _ =
      [⟨2 ^ 20, true⟩, ⟨2 ^ 18, true⟩, ⟨2 ^ 18, false⟩, ⟨2 ^ 18, false⟩, ⟨2 ^ 18, false⟩])
  obtain ⟨-, k₄, -, -, hk₄⟩ := hk₃.free ⟨0x142010, 2 ^ 18 - 16⟩ (by simp)
    (by decide +kernel : _ =
      [⟨2 ^ 20, true⟩, ⟨2 ^ 18, true⟩, ⟨2 ^ 18, true⟩, ⟨2 ^ 18, false⟩, ⟨2 ^ 18, false⟩])
  obtain ⟨-, k₅, -, -, hk₅⟩ := hk₄.free ⟨0x182010, 2 ^ 18 - 16⟩
    (by simp)
    (by decide +kernel : _ = [⟨2 ^ 20, true⟩, ⟨2 ^ 18, true⟩, ⟨2 ^ 19, true⟩, ⟨2 ^ 18, false⟩])
  have hheap := hk₅.heap
  have hhead : k₅.heap.head = 0x2000 := by rw [hheap]; rfl
  obtain ⟨g, others, hs⟩ := hk₅.sound
  refine ⟨_, _, 0x142000, ⟨2 ^ 19, true⟩, bigPhys_reachable, hk₅.reachable,
    by rw [hheap]; rfl, hs.shape.tiles, ?_, ?_⟩
  · rw [hhead]
    decide +kernel
  · rw [hhead]
    decide +kernel

lemma Laid.apartIn (hc : Laid c bs) (h : Apart bs) : ApartIn c.kernel := by
  intro bs' htiles hpos
  obtain ⟨g, others, hs⟩ := hc.sound
  rw [hs.tiles_unique htiles hpos]
  exact h

lemma Laid.apartAfter (hc : Laid c bs) (h : Apart (Layout.mark (p - 16) true 0x2000 bs)) :
    ApartAfter c.kernel p := by
  intro bs' htiles hpos
  obtain ⟨g, others, hs⟩ := hc.sound
  rw [hs.tiles_unique htiles hpos, hc.heap]
  exact h

/-- On the large machine the whole arena was allocated and given back, and then half of it was
allocated. -/
theorem blocks_aligned_bigMap : ∃ (c : Client) (bs : List Block), BuddyReachable bigPhys c ∧
    c.live = [⟨0x102010, 2 ^ 20 - 16⟩] ∧
    Tiles c.kernel.phys.mem c.kernel.heap.head bs c.kernel.heap.tail ∧
    ∀ x b, (x, b) ∈ spans c.kernel.heap.head bs → b.size ∣ x - c.kernel.heap.head := by
  obtain ⟨f₁, k₁, hmalloc₁, -, hk₁⟩ := laid_used
  obtain ⟨f₂, k₂, hfree₂, -, hk₂⟩ := hk₁.free ⟨0x2010, 2 ^ 21 - 16⟩ (by simp)
    (by decide +kernel : _ = [⟨2 ^ 21, true⟩])
  obtain ⟨f₃, k₃, hmalloc₃, -, hk₃⟩ := hk₂.malloc (2 ^ 20 - 16) (2 ^ 20) 0x102000 (by norm_num)
    (by norm_num) (by decide +kernel) (by norm_num)
    (by decide +kernel : _ = (0x102000, [⟨2 ^ 20, true⟩, ⟨2 ^ 20, true⟩]))
    (by decide +kernel : _ = [⟨2 ^ 20, true⟩, ⟨2 ^ 20, false⟩])
  have hstart : ApartIn (start bigPhys).kernel := by
    intro bs htiles hpos
    have hend := htiles.end_eq
    have hlen := length_le_total hpos
    simp only [start] at hend
    exact apart_of_length (by omega)
  have hr : BuddyReachable bigPhys ⟨k₃, [⟨0x102010, 2 ^ 20 - 16⟩]⟩ := by
    refine ((Relation.ReflTransGen.single (.malloc hstart (by norm_num) hmalloc₁)).tail
      (.free (show (⟨0x2010, 2 ^ 21 - 16⟩ : Alloc) ∈ _ by simp)
        (hk₁.apartAfter (apart_of_length (by simp [Layout.mark]))) hfree₂)).tail ?_
    exact .malloc (hk₂.apartIn (apart_of_length (by simp))) (by norm_num) hmalloc₃
  have hheap := hk₃.heap
  obtain ⟨bs, htiles, -, h⟩ := blocks_aligned bigMap_bootable bigPhys_reachable hr
    (by rw [hheap]; simp [firstHeap])
  exact ⟨_, bs, hr, rfl, htiles, h⟩

end TurbOS.Heap
