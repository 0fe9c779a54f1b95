import TurbOS.Heap.Search
import TurbOS.Memory.Extents

/-!
# The heap and its clients

A client that received a pointer from the heap and has not given it back holds an
*allocation*.  `Sound` relates the state of the heap to the live allocations: the arena is
an extent of the page allocator, its headers form a tiling into blocks of power-of-two
size, and the blocks in use are exactly the blocks of the live allocations.

The lemmas say that the elementary changes keep this: rearranging free blocks, taking a
free block, giving a block back, and writing into a payload.
-/

open ByteMemory Tiling Fuel

namespace TurbOS.Heap

/-- A live allocation: the pointer that was returned, and the number of bytes asked for. -/
structure Alloc where
  ptr : ℕ
  size : ℕ
deriving DecidableEq, Repr

/-- The pages of the heap, as the page allocator sees them. -/
def arena (h : Heap) : List PMemory.Extent := if h.data = 0 then [] else [⟨h.data, h.pages⟩]

/-- The headers in memory tile the arena by the blocks `bs`. -/
structure Shape (h : Heap) (m : Mem) (bs : List Block) : Prop where
  tiles : Tiles m h.head bs h.tail
  powers : PowersFrom 5 bs
  sum : total bs = h.pages * 0x1000
  tail_lt : h.tail < 2 ^ 64
  data_eq : h.data = h.head
  empty_iff : h.data = 0 ↔ bs = []

/-- The blocks in use are the blocks of the live allocations, each large enough. -/
structure Owned (a : ℕ) (bs : List Block) (live : List Alloc) : Prop where
  block : ∀ al ∈ live, ∃ c s, Used a bs c s ∧ al.ptr = c + 16 ∧ al.size + 16 ≤ s
  owner : ∀ c s, Used a bs c s → ∃ al ∈ live, al.ptr = c + 16
  nodup : (live.map Alloc.ptr).Nodup

/-- The heap is in order: `live` are its allocations and `others` the pages that the page
allocator has handed out to others. -/
structure Sound (g : PMemory.Geometry) (others : List PMemory.Extent) (k : Kernel)
    (bs : List Block) (live : List Alloc) : Prop where
  shape : Shape k.heap k.phys.mem bs
  owned : Owned k.heap.head bs live
  pages : PMemory.Inv g k.phys (arena k.heap ++ others)

variable {g : PMemory.Geometry} {others : List PMemory.Extent} {k : Kernel} {h : Heap} {m m' : Mem}
  {a : ℕ} {bs bs' : List Block} {live : List Alloc} {al : Alloc}

/-! ## The tiling -/

lemma Shape.size_ge (hs : Shape h m bs) : ∀ b ∈ bs, 32 ≤ b.size :=
  fun _ hb => hs.powers.le_size hb

lemma Shape.refit (hs : Shape h m bs) (hr : Refit h.head h.tail m bs m' bs') : Shape h m' bs' := by
  have he := hs.tiles.end_eq
  have he' := hr.tiles.end_eq
  have htot : total bs' = total bs := by omega
  refine ⟨hr.tiles, hr.powers, by rw [htot, hs.sum], hs.tail_lt, hs.data_eq, ?_⟩
  rw [hs.empty_iff]
  have hlen := length_le_total hs.powers.pos
  have hlen' := length_le_total hr.powers.pos
  constructor
  · rintro rfl
    rw [htot, total_nil] at hlen'
    exact List.length_eq_zero_iff.mp (by omega)
  · rintro rfl
    rw [← htot, total_nil] at hlen
    exact List.length_eq_zero_iff.mp (by omega)

/-- A change of the memory inside the arena is no concern of the page allocator. -/
lemma Sound.agree (hk : Sound g others k bs live)
    (hm : ∀ x, x < k.heap.head ∨ k.heap.tail ≤ x → m x = k.phys.mem x) :
    PMemory.Inv g { k.phys with mem := m } (arena k.heap ++ others) := by
  refine hk.pages.of_agree m _ _ fun x h₁ h₂ => hm x ?_
  by_contra hx
  have hend := hk.shape.tiles.end_eq
  have hdata : k.heap.data ≠ 0 := by
    rw [Ne, hk.shape.empty_iff]
    rintro rfl
    rw [total_nil] at hend
    omega
  have hmem : (⟨k.heap.data, k.heap.pages⟩ : PMemory.Extent) ∈ arena k.heap ++ others := by
    simp [arena, hdata]
  have hsum := hk.shape.sum
  have heq := hk.shape.data_eq
  have := hk.pages.outside hmem (x := x) ⟨by dsimp only; omega, by dsimp only; omega⟩
  omega

/-- The locks and flags of the heap do not matter. -/
lemma Sound.flags (hk : Sound g others k bs live) (lock expanded : Bool) (n : ℕ) :
    Sound g others { k with heap := { k.heap with
      lock := lock, expanded := expanded, expansions := n } } bs live := by
  obtain ⟨hs, ho, hp⟩ := hk
  exact ⟨⟨hs.tiles, hs.powers, hs.sum, hs.tail_lt, hs.data_eq, hs.empty_iff⟩, ho, hp⟩

/-! ## The allocations -/

lemma Owned.congr (ho : Owned a bs live) (hu : ∀ c s, Used a bs' c s ↔ Used a bs c s) :
    Owned a bs' live := by
  refine ⟨fun al hal => ?_, fun c s hc => ho.owner c s ((hu c s).mp hc), ho.nodup⟩
  obtain ⟨c, s, hc, h₁, h₂⟩ := ho.block al hal
  exact ⟨c, s, (hu c s).mpr hc, h₁, h₂⟩

lemma Owned.eq_of_ptr (ho : Owned a bs live) {al' : Alloc} (hal : al ∈ live) (hal' : al' ∈ live)
    (hp : al.ptr = al'.ptr) : al = al' :=
  List.inj_on_of_nodup_map ho.nodup hal hal' hp

/-- A free block becomes the block of a new allocation. -/
lemma Owned.take {pre post : List Block} {s n : ℕ}
    (ho : Owned a (pre ++ ⟨s, true⟩ :: post) live)
    (hpos : ∀ b ∈ pre ++ ⟨s, true⟩ :: post, 0 < b.size) (hn : n + 16 ≤ s) :
    Owned a (pre ++ ⟨s, false⟩ :: post) (⟨a + total pre + 16, n⟩ :: live) := by
  have hused : ∀ c n, Used a (pre ++ ⟨s, false⟩ :: post) c n ↔
      (c = a + total pre ∧ n = s) ∨ Used a (pre ++ ⟨s, true⟩ :: post) c n := used_take
  refine ⟨?_, ?_, ?_⟩
  · refine List.forall_mem_cons.mpr ⟨⟨a + total pre, s, (hused _ _).mpr (.inl ⟨rfl, rfl⟩), rfl, hn⟩,
      fun al hal => ?_⟩
    obtain ⟨c, s', hc, h₁, h₂⟩ := ho.block al hal
    exact ⟨c, s', (hused _ _).mpr (.inr hc), h₁, h₂⟩
  · intro c s' hc
    rcases (hused _ _).mp hc with ⟨rfl, -⟩ | hc
    · exact ⟨_, List.mem_cons_self, rfl⟩
    · obtain ⟨al, hal, hp⟩ := ho.owner c s' hc
      exact ⟨al, List.mem_cons_of_mem _ hal, hp⟩
  · rw [List.map_cons, List.nodup_cons]
    refine ⟨fun hmem => ?_, ho.nodup⟩
    -- a live allocation at the same address would own a block in use there
    obtain ⟨al, hal, hp⟩ := List.mem_map.mp hmem
    obtain ⟨c, s', hc, h₁, -⟩ := ho.block al hal
    dsimp only at hp
    obtain rfl : c = a + total pre := by omega
    have hsame : (⟨s', false⟩ : Block) = ⟨s, true⟩ := spans_inj hpos hc (by simp)
    exact absurd (congrArg Block.free hsame) (by simp)

/-- The block of an allocation becomes free. -/
lemma Owned.give {pre post : List Block} {s : ℕ}
    (ho : Owned a (pre ++ ⟨s, false⟩ :: post) live) (hal : al ∈ live)
    (hptr : al.ptr = a + total pre + 16)
    (hpos : ∀ b ∈ pre ++ ⟨s, false⟩ :: post, 0 < b.size) :
    Owned a (pre ++ ⟨s, true⟩ :: post) (live.erase al) := by
  have hused : ∀ c n, Used a (pre ++ ⟨s, true⟩ :: post) c n ↔
      Used a (pre ++ ⟨s, false⟩ :: post) c n ∧ c ≠ a + total pre :=
    used_give (hpos ⟨s, false⟩ (by simp)) fun b hb => hpos b (by simp [hb])
  have hnodup : live.Nodup := ho.nodup.of_map _
  refine ⟨fun al' hal' => ?_, fun c s' hc => ?_, ?_⟩
  · obtain ⟨hne, hmem⟩ := hnodup.mem_erase_iff.mp hal'
    obtain ⟨c, s', hc, h₁, h₂⟩ := ho.block al' hmem
    refine ⟨c, s', (hused c s').mpr ⟨hc, ?_⟩, h₁, h₂⟩
    rintro rfl
    exact hne (ho.eq_of_ptr hmem hal (by omega))
  · obtain ⟨hc, hne⟩ := (hused c s').mp hc
    obtain ⟨al', hal', hp⟩ := ho.owner c s' hc
    refine ⟨al', hnodup.mem_erase_iff.mpr ⟨?_, hal'⟩, hp⟩
    rintro rfl
    omega
  · exact ho.nodup.sublist (List.erase_sublist.map _)

/-! ## The elementary changes -/

/-- A rearrangement of the free blocks. -/
lemma Sound.refit (hk : Sound g others k bs live)
    (hr : Refit k.heap.head k.heap.tail k.phys.mem bs m' bs') :
    Sound g others { k with phys := { k.phys with mem := m' } } bs' live := by
  refine ⟨hk.shape.refit hr, hk.owned.congr hr.used_iff, hk.agree fun x hx => hr.frame x ?_⟩
  rintro ⟨h₁, h₂, -⟩
  have := hk.shape.tiles.end_eq
  omega

/-- Marking one block. -/
lemma Sound.mark {pre post : List Block} {s : ℕ} {f f' : Bool} {live' : List Alloc}
    (hk : Sound g others k (pre ++ ⟨s, f⟩ :: post) live)
    (ho : Owned k.heap.head (pre ++ ⟨s, f'⟩ :: post) live') :
    Sound g others { k with phys := { k.phys with
      mem := setFree k.phys.mem (k.heap.head + total pre) f' } } (pre ++ ⟨s, f'⟩ :: post)
        live' := by
  have hs := hk.shape
  have hend := hs.tiles.end_eq
  have hsize := hs.size_ge ⟨s, f⟩ (by simp)
  simp only [total_append, total_cons] at hend hsize
  refine ⟨⟨hs.tiles.mark fun b hb => by have := hs.size_ge b hb; omega, ?_, ?_, hs.tail_lt,
    hs.data_eq, ?_⟩, ho, hk.agree fun x hx => setFree_outside (by omega)⟩
  · intro b hb
    rcases List.mem_append.mp hb with hb | hb
    · exact hs.powers b (by simp [hb])
    · rcases List.mem_cons.mp hb with rfl | hb
      · exact hs.powers ⟨s, f⟩ (by simp)
      · exact hs.powers b (by simp [hb])
  · have := hs.sum
    simpa using this
  · have := hs.empty_iff
    simpa using this

/-- Taking a free block for a new allocation. -/
lemma Sound.take (hk : Sound g others k bs live) {c s n : ℕ}
    (hc : (c, ⟨s, true⟩) ∈ spans k.heap.head bs) (hn : n + 16 ≤ s) :
    ∃ bs', Sound g others { k with phys := { k.phys with mem := setFree k.phys.mem c false } }
      bs' (⟨c + 16, n⟩ :: live) := by
  obtain ⟨pre, post, rfl, rfl⟩ := mem_spans_iff.mp hc
  exact ⟨_, hk.mark (hk.owned.take hk.shape.powers.pos hn)⟩

/-- Giving back the block of an allocation. -/
lemma Sound.give (hk : Sound g others k bs live) (hal : al ∈ live) :
    ∃ bs', Sound g others { k with phys := { k.phys with
      mem := setFree k.phys.mem (al.ptr - 16) true } } bs' (live.erase al) := by
  obtain ⟨c, s, hc, hptr, -⟩ := hk.owned.block al hal
  obtain ⟨pre, post, rfl, rfl⟩ := mem_spans_iff.mp hc
  have hblock : al.ptr - 16 = k.heap.head + total pre := by omega
  rw [hblock]
  exact ⟨_, hk.mark (hk.owned.give hal hptr hk.shape.powers.pos)⟩

/-- The block of a live allocation, with its size as `allocsize` reports it. -/
lemma Sound.block (hk : Sound g others k bs live) (hal : al ∈ live) :
    ∃ c, Used k.heap.head bs c (allocsize al.ptr k + 16) ∧ al.ptr = c + 16 ∧
      al.size ≤ allocsize al.ptr k := by
  obtain ⟨c, s, hc, hptr, hsize⟩ := hk.owned.block al hal
  have hread := (hk.shape.tiles.read hc).1
  have hs := hk.shape.size_ge _ (mem_of_mem_spans hc)
  have hb := (spans_bounds hc).2
  have hend := hk.shape.tiles.end_eq
  have hlt := hk.shape.tail_lt
  have hdata : k.heap.data ≠ 0 := by
    rw [Ne, hk.shape.empty_iff]
    rintro rfl
    simp [Used] at hc
  dsimp only at hread hs hb
  have hval : allocsize al.ptr k = s - 16 := by
    have hblock : al.ptr - 16 = c := by omega
    rw [allocsize, if_neg hdata, if_neg (by omega), hblock, hread, Word64.sub]
    omega
  refine ⟨c, ?_, hptr, by omega⟩
  rw [hval, Nat.sub_add_cancel (by omega)]
  exact hc

/-- No header lies in the payload of a live allocation. -/
lemma Sound.header_apart (hk : Sound g others k bs live) (hal : al ∈ live) {c : ℕ} {b : Block}
    (hb : (c, b) ∈ spans k.heap.head bs) :
    c + 16 ≤ al.ptr ∨ al.ptr + allocsize al.ptr k ≤ c := by
  obtain ⟨c', hc', hptr, -⟩ := hk.block hal
  have h32 := hk.shape.size_ge b (mem_of_mem_spans hb)
  rcases spans_apart hb hc' with heq | hle | hle
  · have := (Prod.mk.inj heq).1
    omega
  · omega
  · dsimp only at hle
    omega

/-- The payloads of two live allocations do not overlap. -/
lemma Sound.payload_apart (hk : Sound g others k bs live) {al' : Alloc} (hal : al ∈ live)
    (hal' : al' ∈ live) (hne : al ≠ al') :
    al.ptr + allocsize al.ptr k ≤ al'.ptr ∨ al'.ptr + allocsize al'.ptr k ≤ al.ptr := by
  obtain ⟨c, hc, hptr, -⟩ := hk.block hal
  obtain ⟨c', hc', hptr', -⟩ := hk.block hal'
  rcases spans_apart hc hc' with heq | hle | hle
  · have := (Prod.mk.inj heq).1
    exact absurd (hk.owned.eq_of_ptr hal hal' (by omega)) hne
  · dsimp only at hle
    omega
  · dsimp only at hle
    omega

/-- Writes into the payload of a live allocation. -/
lemma Sound.write (hk : Sound g others k bs live) (hal : al ∈ live)
    (hm : ∀ x, x < al.ptr ∨ al.ptr + allocsize al.ptr k ≤ x → m x = k.phys.mem x) :
    Sound g others { k with phys := { k.phys with mem := m } } bs live := by
  have hs := hk.shape
  refine ⟨⟨hs.tiles.congr fun c b hb x h₁ h₂ => hm x ?_, hs.powers, hs.sum, hs.tail_lt,
    hs.data_eq, hs.empty_iff⟩, hk.owned, hk.agree fun x hx => hm x ?_⟩
  · have := hk.header_apart hal hb
    omega
  · obtain ⟨c, hc, hptr, -⟩ := hk.block hal
    have hb := spans_bounds hc
    have := hs.tiles.end_eq
    dsimp only at hb
    omega

end TurbOS.Heap
