import TurbOS.Heap.Steps

/-!
# Blocks that the search does not see

`find_best` walks over the layout in pairs.  It steps over both blocks of a pair if the left
one is not larger than the right one, and over the left one otherwise, and it stops when fewer
than two blocks are ahead.  A block that is left over at the end is not looked at; it can only
be the last one of the arena (`LeftOver`).

So a request is served if a block that fits is not the last one, or if the last one is not left
over.  Otherwise the heap may be expanded while it has room.
-/

open ByteMemory Tiling Fuel

namespace TurbOS.Heap

/-- The walk of `find_best` ends in front of the last block. -/
def LeftOver : List Block → Prop
  | [] => False
  | [_] => True
  | b :: d :: rest => if b.size ≤ d.size then LeftOver rest else rest ≠ [] ∧ LeftOver (d :: rest)

/-- The block may be taken for a request of the size. -/
def Fits (size : ℕ) (b : Block) : Prop := b.free = true ∧ size ≤ b.size

/-- The search looks at a block that fits. -/
def Seen (size : ℕ) (bs : List Block) : Prop :=
  (∃ b ∈ bs.dropLast, Fits size b) ∨ ¬ LeftOver bs ∧ ∃ b ∈ bs, Fits size b

variable {g : PMemory.Geometry} {others : List PMemory.Extent} {k : Kernel} {c : Client}
  {bs : List Block} {live : List Alloc} {a size n : ℕ}

/-! ## The walk -/

lemma ite_ne_none {best : Option (ℕ × ℕ)} {q : Prop} [Decidable q] (x : ℕ × ℕ)
    (hbest : best ≠ none) : (if q then some x else best) ≠ none := by
  split
  · simp
  · exact hbest

/-- A block that fits is remembered, unless another one already is. -/
lemma ite_fits_ne_none {best : Option (ℕ × ℕ)} {p : Prop} {q : ℕ × ℕ → Prop}
    [Decidable (p ∧ ∀ r ∈ best, q r)] (x : ℕ × ℕ) (hp : p) :
    (if p ∧ ∀ r ∈ best, q r then some x else best) ≠ none := by
  split
  · simp
  · rename_i hnot
    rintro rfl
    exact hnot ⟨hp, by simp⟩

/-- After looking at a pair, a block is remembered if one of the pair fits. -/
lemma pair_ne_none {best : Option (ℕ × ℕ)} {b d : Block} (x y : ℕ × ℕ) {q : ℕ × ℕ → Prop}
    {q' : ℕ × ℕ → Prop} [DecidablePred q] [DecidablePred q'] (h : Fits size b ∨ Fits size d) :
    (if d.free = true ∧ size ≤ d.size ∧
        ∀ r ∈ (if b.free = true ∧ size ≤ b.size ∧ ∀ r ∈ best, q r then some x else best), q' r
      then some y
      else if b.free = true ∧ size ≤ b.size ∧ ∀ r ∈ best, q r then some x else best) ≠ none := by
  simp only [← and_assoc]
  rcases h with hb | hd
  · exact ite_ne_none _ (ite_fits_ne_none _ hb)
  · exact ite_fits_ne_none _ hd

/-- A remembered block is not forgotten. -/
lemma Layout.seek_isSome (best : Option (ℕ × ℕ)) (hbest : best ≠ none) :
    (Layout.seek size best a bs).1 ≠ none := by
  fun_induction Layout.seek size best a bs with
  | case1 best a b d rest hjoin best₁ best₂ r ih =>
    have hbest₁ : best₁ ≠ none := by simpa [best₁] using hbest
    exact ih (ite_ne_none _ hbest₁)
  | case2 best a b d rest hjoin best₁ best₂ hle r ih =>
    exact ih (ite_ne_none _ (ite_ne_none _ hbest))
  | case3 best a b d rest hjoin best₁ best₂ hle r ih =>
    exact ih (ite_ne_none _ (ite_ne_none _ hbest))
  | case4 best a bs hbs => exact hbest

lemma not_seen_of_length (h : bs.length < 2) : ¬ Seen size bs := by
  rcases bs with _ | ⟨b, _ | ⟨d, rest⟩⟩
  · simp [Seen]
  · simp [Seen, LeftOver]
  · simp at h

/-- If the pair in front does not fit, the walk sees a block behind it. -/
lemma Seen.skip_both {b d : Block} {rest : List Block} (h : Seen size (b :: d :: rest))
    (hb : ¬ Fits size b) (hd : ¬ Fits size d) (hle : b.size ≤ d.size) : Seen size rest := by
  rcases h with ⟨x, hx, hfits⟩ | ⟨hover, x, hx, hfits⟩
  · cases rest with
    | nil =>
      obtain rfl : x = b := by simpa using hx
      exact absurd hfits hb
    | cons e rest =>
      rw [List.dropLast_cons_cons, List.dropLast_cons_cons, List.mem_cons, List.mem_cons] at hx
      rcases hx with rfl | rfl | hx
      · exact absurd hfits hb
      · exact absurd hfits hd
      · exact .inl ⟨x, hx, hfits⟩
  · rw [LeftOver, if_pos hle] at hover
    rw [List.mem_cons, List.mem_cons] at hx
    rcases hx with rfl | rfl | hx
    · exact absurd hfits hb
    · exact absurd hfits hd
    · exact .inr ⟨hover, x, hx, hfits⟩

lemma Seen.skip_left {b d : Block} {rest : List Block} (h : Seen size (b :: d :: rest))
    (hb : ¬ Fits size b) (hd : ¬ Fits size d) (hle : ¬ b.size ≤ d.size) :
    Seen size (d :: rest) := by
  rcases h with ⟨x, hx, hfits⟩ | ⟨hover, x, hx, hfits⟩
  · rw [List.dropLast_cons_cons, List.mem_cons] at hx
    rcases hx with rfl | hx
    · exact absurd hfits hb
    · exact .inl ⟨x, hx, hfits⟩
  · rw [LeftOver, if_neg hle] at hover
    rw [List.mem_cons] at hx
    rcases hx with rfl | hx
    · exact absurd hfits hb
    · by_cases hrest : rest = []
      · subst hrest
        obtain rfl : x = d := by simpa using hx
        exact absurd hfits hd
      · exact .inr ⟨fun h => hover ⟨hrest, h⟩, x, hx, hfits⟩

/-- The walk remembers a block if it looks at one that fits. -/
lemma Layout.seek_ne_none (best : Option (ℕ × ℕ)) (h : Seen size bs) :
    (Layout.seek size best a bs).1 ≠ none := by
  fun_induction Layout.seek size best a bs with
  | case1 best a b d rest hjoin best₁ best₂ r ih =>
    by_cases hfit : size ≤ b.size
    · exact Layout.seek_isSome best₂ (ite_fits_ne_none _ (by omega))
    · refine ih (h.skip_both (fun hb => hfit hb.2) (fun hd => hfit ?_) hjoin.2.2.le)
      rw [hjoin.2.2]
      exact hd.2
  | case2 best a b d rest hjoin best₁ best₂ hle r ih =>
    by_cases hfits : Fits size b ∨ Fits size d
    · exact Layout.seek_isSome best₂ (pair_ne_none _ _ hfits)
    · rw [not_or] at hfits
      exact ih (h.skip_both hfits.1 hfits.2 hle)
  | case3 best a b d rest hjoin best₁ best₂ hle r ih =>
    by_cases hfits : Fits size b ∨ Fits size d
    · exact Layout.seek_isSome best₂ (pair_ne_none _ _ hfits)
    · rw [not_or] at hfits
      exact ih (h.skip_left hfits.1 hfits.2 hle)
  | case4 best a bs hbs =>
    refine absurd h (not_seen_of_length ?_)
    rcases bs with _ | ⟨b, _ | ⟨d, rest⟩⟩
    · simp
    · simp
    · exact (hbs b d rest rfl).elim

/-! ## The block that was found -/

/-- The remembered block is a free block of the arena that fits, not behind the address `x`. -/
def Chosen (size a : ℕ) (bs : List Block) (x : ℕ) (best : Option (ℕ × ℕ)) : Prop :=
  ∀ r ∈ best, (r.1, ⟨r.2, true⟩) ∈ spans a bs ∧ size ≤ r.2 ∧ r.1 ≤ x

lemma Chosen.ite {best : Option (ℕ × ℕ)} {x y s : ℕ} {q : Prop} [Decidable q]
    (h : Chosen size a bs x best)
    (hy : q → (y, ⟨s, true⟩) ∈ spans a bs ∧ size ≤ s ∧ y ≤ x) :
    Chosen size a bs x (if q then some (y, s) else best) := by
  by_cases hq : q
  · rw [if_pos hq]
    rintro r hr
    rw [← Option.some.inj hr]
    exact hy hq
  · rw [if_neg hq]
    exact h

lemma Chosen.mono {best : Option (ℕ × ℕ)} {x y : ℕ} (h : Chosen size a bs x best) (hxy : x ≤ y) :
    Chosen size a bs y best := fun r hr => ⟨(h r hr).1, (h r hr).2.1, (h r hr).2.2.trans hxy⟩

/-- A join keeps the remembered block, or makes it larger. -/
lemma Chosen.join {best : Option (ℕ × ℕ)} {pre post : List Block} {s : ℕ}
    (h : Chosen size a (pre ++ ⟨s, true⟩ :: ⟨s, true⟩ :: post) (a + total pre) best)
    (hpos : ∀ b ∈ pre ++ ⟨s, true⟩ :: ⟨s, true⟩ :: post, 0 < b.size) :
    Chosen size a (pre ++ ⟨2 * s, true⟩ :: post) (a + total pre)
      (best.map fun r => if r.1 = a + total pre then (a + total pre, 2 * s) else r) := by
  intro r hr
  obtain ⟨r', hr', rfl⟩ := Option.map_eq_some_iff.mp hr
  obtain ⟨hmem, hsize, hle⟩ := h r' hr'
  split
  · -- the remembered block is the left partner
    rename_i heq
    rw [heq] at hmem
    have hsame : (⟨r'.2, true⟩ : Block) = ⟨s, true⟩ := spans_inj hpos hmem (by simp)
    have hs : r'.2 = s := congrArg Block.size hsame
    exact ⟨by simp, by dsimp only; omega, le_rfl⟩
  · rename_i hne
    refine ⟨?_, hsize, hle⟩
    rw [spans_append, List.mem_append] at hmem ⊢
    rcases hmem with hmem | hmem
    · exact .inl hmem
    · have := (spans_bounds hmem).1
      omega

/-- Looking at a pair, the walk remembers only what fits. -/
lemma Chosen.pair {best : Option (ℕ × ℕ)} {pre rest : List Block} {b d : Block} {x : ℕ}
    (hx : x = a + total pre) (h : Chosen size a (pre ++ b :: d :: rest) x best) :
    Chosen size a (pre ++ b :: d :: rest) (x + b.size)
      (if d.free = true ∧ size ≤ d.size ∧
          ∀ r ∈ (if b.free = true ∧ size ≤ b.size ∧ ∀ r ∈ best, b.size ≤ r.2
            then some (x, b.size) else best), d.size < r.2
        then some (x + b.size, d.size)
        else if b.free = true ∧ size ≤ b.size ∧ ∀ r ∈ best, b.size ≤ r.2
          then some (x, b.size) else best) := by
  refine Chosen.ite (Chosen.ite (h.mono (by omega)) ?_) ?_
  · rintro ⟨hfree, hsize, -⟩
    exact ⟨by simp [← hfree, hx], hsize, by omega⟩
  · rintro ⟨hfree, hsize, -⟩
    exact ⟨by simp [← hfree, hx], hsize, le_rfl⟩

/-- The walk remembers only free blocks that fit. -/
lemma Layout.seek_chosen {best : Option (ℕ × ℕ)} {a x : ℕ} (pre : List Block)
    (hx : x = a + total pre) (hpos : ∀ b ∈ pre ++ bs, 0 < b.size)
    (h : Chosen size a (pre ++ bs) x best) :
    ∃ y, Chosen size a (pre ++ (Layout.seek size best x bs).2) y
      (Layout.seek size best x bs).1 := by
  fun_induction Layout.seek size best x bs generalizing pre with
  | case1 best x b d rest hjoin best₁ best₂ r ih =>
    obtain ⟨s, f⟩ := b
    obtain ⟨s', f'⟩ := d
    obtain ⟨rfl, rfl, rfl⟩ := hjoin
    subst hx
    have hchosen := (h.join hpos).ite (q := size ≤ 2 * s ∧ ∀ r ∈ best₁, 2 * s ≤ r.2)
      (y := a + total pre) (s := 2 * s) fun hq => ⟨by simp, hq.1, le_rfl⟩
    have hpos' : ∀ b ∈ (pre ++ [⟨2 * s, true⟩]) ++ rest, 0 < b.size := by
      have hs := hpos ⟨s, true⟩ (by simp)
      intro b hb
      simp only [List.append_assoc, List.singleton_append, List.mem_append, List.mem_cons] at hb
      rcases hb with hb | rfl | hb
      · exact hpos b (by simp [hb])
      · dsimp only at hs ⊢
        omega
      · exact hpos b (by simp [hb])
    have := ih (pre ++ [⟨2 * s, true⟩]) (by simp [Nat.add_assoc]) hpos'
      (by simpa using hchosen.mono (Nat.le_add_right _ _))
    simpa using this
  | case2 best x b d rest hjoin best₁ best₂ hle r ih =>
    have := ih (pre ++ [b, d]) (by simp [hx]; omega) (by simpa using hpos)
      (by simpa using (h.pair hx).mono (Nat.le_add_right _ _))
    simpa using this
  | case3 best x b d rest hjoin best₁ best₂ hle r ih =>
    have := ih (pre ++ [b]) (by simp [hx]; omega) (by simpa using hpos)
      (by simpa using h.pair hx)
    simpa using this
  | case4 best x bs hbs => exact ⟨x, h⟩

/-- A single block that fits, or a block that fits and that the walk looks at. -/
def InSight (size : ℕ) (bs : List Block) : Prop := (∃ b, bs = [b] ∧ Fits size b) ∨ Seen size bs

/-- `find_best` finds a block that is in sight. -/
lemma Layout.findBest_inSight {j : ℕ} (hp : PowersFrom j bs) (h : InSight size bs) :
    a ≤ (Layout.findBest size a bs).1 ∧ (Layout.findBest size a bs).1 + size ≤ a + total bs := by
  rw [Layout.findBest]
  split
  · -- a single free block
    rename_i heq
    have hfits : size ≤ total bs := by
      rcases h with ⟨b, rfl, hb⟩ | hseen
      · simpa using hb.2
      · exact absurd hseen (not_seen_of_length (by rw [heq]; simp))
    generalize total bs = n at heq hfits
    rw [heq, Layout.split, if_pos rfl]
    dsimp only
    rw [if_pos hfits]
    omega
  · rename_i hone
    have hseen : Seen size bs := by
      refine h.resolve_left ?_
      rintro ⟨b, rfl, hb⟩
      exact hone (by cases b; simp_all [Fits])
    have hsome := Layout.seek_ne_none (a := a) none hseen
    obtain ⟨x, hchosen⟩ := Layout.seek_chosen (x := a) (a := a) [] (by simp) hp.pos
      (by simp [Chosen] : Chosen size a ([] ++ bs) a none)
    have hmerges := Layout.seek_merges size none a bs
    generalize Layout.seek size none a bs = res at hsome hchosen hmerges
    obtain ⟨_ | r, bs'⟩ := res
    · exact absurd rfl hsome
    · obtain ⟨hmem, hsize, -⟩ := hchosen r rfl
      obtain ⟨pre, post, hbs', haddr⟩ := mem_spans_iff.mp hmem
      have hpos := (hp.merges hmerges).pos
      have htotal := hmerges.total_eq
      dsimp only [List.nil_append] at hbs' hpos htotal ⊢
      rw [hbs'] at hpos htotal ⊢
      rw [haddr, Layout.split_append size fun b hb => hpos b (by simp [hb])]
      rw [total_append, total_cons] at htotal
      dsimp only at htotal ⊢
      rw [if_pos hsize]
      omega

/-- `malloc` returns without expanding the heap, and the block of the pointer is in the arena. -/
def Served (k : Kernel) (n : ℕ) : Prop :=
  ∃ enough, ∀ fuel, enough ≤ fuel → ∃ p k', malloc fuel n k = some (p, k') ∧
    k'.heap.expansions = k.heap.expansions ∧ (n ≠ 0 → k.heap.head + 16 ≤ p ∧ p ≤ k.heap.tail)

lemma InSight.ne_nil (h : InSight size bs) : bs ≠ [] := by
  rintro rfl
  rcases h with ⟨b, hb, -⟩ | hseen
  · simp at hb
  · exact not_seen_of_length (by simp) hseen

/-- A request is served if a block for it is in sight. -/
lemma Sound.served (hk : Sound g others k bs live) (hlock : k.heap.lock = false) {actual f : ℕ}
    (hreq : requiredSize f n = some actual) (h : InSight actual bs) : Served k n := by
  by_cases hn : n = 0
  · refine ⟨1, fun fuel hfuel => ?_⟩
    obtain ⟨fuel, rfl⟩ : ∃ fuel', fuel = fuel' + 1 := ⟨fuel - 1, by omega⟩
    exact ⟨0, k, by rw [Heap.malloc, if_pos hn], rfl, fun hne => absurd hn hne⟩
  have hs := hk.shape
  have hdata : k.heap.data ≠ 0 := fun hdata => h.ne_nil (hs.empty_iff.mp hdata)
  have hhead : k.heap.head ≠ 0 := by rw [← hs.data_eq]; exact hdata
  have hend := hs.tiles.end_eq
  obtain ⟨j, hj, rfl⟩ := requiredSize_pow hreq
  have h16 : 2 ^ 4 ≤ 2 ^ j := Nat.pow_le_pow_right (by norm_num) hj
  obtain ⟨h₁, h₂⟩ := Layout.findBest_inSight (a := k.heap.head) hs.powers h
  have hfind : Layout.find (2 ^ j) k.heap.head bs = Layout.findBest (2 ^ j) k.heap.head bs := by
    rw [Layout.find]
    exact if_neg (by omega)
  refine ⟨max f (total bs + 1) + 1, fun fuel hfuel => ?_⟩
  obtain ⟨k', hmalloc, hk'⟩ := hk.malloc_found hdata hlock hn hreq (by rw [hfind]; omega)
    (show max f (total bs + 1) < fuel by omega)
  rw [hfind] at hmalloc
  exact ⟨_, k', hmalloc, by rw [hk'], fun _ => ⟨by omega, by omega⟩⟩

/-! ## The main result -/

/-- **A request is served if the search sees a block that fits.**  In every state reached with
at most one expansion, a request for which a free block is large enough is served from the
arena if such a block is not the last one of several, or if the walk does not end in front of
the last one. -/
theorem request_served {mm : List PMemory.MmapEntry} {m : Mem} {h : PMemory.Held}
    (hb : PMemory.Bootable mm) (hp : PMemory.Reachable mm m h) (hr : Reachable h.phys c)
    (hone : c.kernel.heap.expansions ≤ 1) :
    ∃ bs, Tiles c.kernel.phys.mem c.kernel.heap.head bs c.kernel.heap.tail ∧
      (∀ b ∈ bs, 0 < b.size) ∧
      ∀ n actual f, requiredSize f n = some actual → InSight actual bs → Served c.kernel n := by
  obtain ⟨buffer, hinv, -⟩ := hp.inv hb
  obtain ⟨bs, hs⟩ := (hr.good hinv hone).sound
  exact ⟨bs, hs.shape.tiles, hs.shape.powers.pos, fun n actual f hreq hsight =>
    hs.served hr.unlocked hreq hsight⟩

/-- Half of the arena was given back, behind two quarters of which one is in use. -/
lemma laid_leftOver : ∃ c, Laid c [⟨2 ^ 19, true⟩, ⟨2 ^ 19, false⟩, ⟨2 ^ 20, true⟩] := by
  obtain ⟨k₀, hk₀⟩ := laid_whole
  obtain ⟨-, k₁, -, -, hk₁⟩ := hk₀.malloc (2 ^ 20 - 16) (2 ^ 20) 0x102000 (by norm_num)
    (by norm_num) (by decide +kernel) (by norm_num)
    (by decide +kernel : _ = (0x102000, [⟨2 ^ 20, true⟩, ⟨2 ^ 20, true⟩]))
    (by decide +kernel : _ = [⟨2 ^ 20, true⟩, ⟨2 ^ 20, false⟩])
  obtain ⟨-, k₂, -, -, hk₂⟩ := hk₁.malloc (2 ^ 19 - 16) (2 ^ 19) 0x82000 (by norm_num)
    (by norm_num) (by decide +kernel) (by norm_num)
    (by decide +kernel : _ = (0x82000, [⟨2 ^ 19, true⟩, ⟨2 ^ 19, true⟩, ⟨2 ^ 20, false⟩]))
    (by decide +kernel : _ = [⟨2 ^ 19, true⟩, ⟨2 ^ 19, false⟩, ⟨2 ^ 20, false⟩])
  obtain ⟨-, k₃, -, -, hk₃⟩ := hk₂.free ⟨0x102010, 2 ^ 20 - 16⟩ (by simp)
    (by decide +kernel : _ = [⟨2 ^ 19, true⟩, ⟨2 ^ 19, false⟩, ⟨2 ^ 20, true⟩])
  exact ⟨_, hk₃⟩

/-- On the large machine a request for half of the arena expands the heap, although a block of
that size is free. -/
theorem request_not_served : ∃ (c : Client) (bs : List Block) (b : Block),
    PMemory.Reachable bigMap (fun _ => 0) ⟨bigPhys, []⟩ ∧ Reachable bigPhys c ∧
      c.kernel.heap.expansions = 1 ∧
      Tiles c.kernel.phys.mem c.kernel.heap.head bs c.kernel.heap.tail ∧ b ∈ bs ∧ b.free = true ∧
      requiredSize 64 (2 ^ 20 - 16) = some b.size ∧ ¬ Served c.kernel (2 ^ 20 - 16) := by
  obtain ⟨c, hc⟩ := laid_leftOver
  have hheap := hc.heap
  have hhead : c.kernel.heap.head = 0x2000 := by rw [hheap]; rfl
  have hreq : requiredSize 64 (2 ^ 20 - 16) = some (2 ^ 20) := by decide +kernel
  obtain ⟨g, others, hs⟩ := hc.sound
  refine ⟨c, _, ⟨2 ^ 20, true⟩, bigPhys_reachable, hc.reachable, by simp [hheap, firstHeap],
    hs.shape.tiles, by simp, rfl, hreq, ?_⟩
  rintro ⟨enough, h⟩
  obtain ⟨p, k', hmalloc, hexp, -⟩ := h enough le_rfl
  rcases hs.malloc_not_found (by simp [hheap, firstHeap]) (by norm_num) hreq
    (by rw [hhead]; decide +kernel) hmalloc with hexpanded | hlt
  · simp [hheap, firstHeap] at hexpanded
  · omega

/-- While nothing is in use, the whole arena is in sight. -/
theorem request_served_bigMap : ∃ c, Reachable bigPhys c ∧ c.kernel.heap.expansions = 1 ∧
    Served c.kernel (2 ^ 20 - 16) := by
  obtain ⟨k, hc⟩ := laid_whole
  have hheap := hc.heap
  have hone : k.heap.expansions = 1 := by rw [hheap]; rfl
  obtain ⟨bs, htiles, hpos, h⟩ :=
    request_served bigMap_bootable bigPhys_reachable hc.reachable hone.le
  obtain ⟨g, others, hs⟩ := hc.sound
  obtain rfl := hs.tiles_unique htiles hpos
  refine ⟨_, hc.reachable, hone, h _ (2 ^ 20) 64 (by decide +kernel) (.inl ⟨_, rfl, rfl, ?_⟩)⟩
  norm_num

end TurbOS.Heap
