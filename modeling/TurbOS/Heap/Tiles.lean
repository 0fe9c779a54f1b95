import TurbOS.Heap.Model
import TurbOS.Lib.Tiling

/-!
# The arena as a tiling

`Tiles m a bs t` says that the headers in memory describe the blocks `bs`, one after the
other, from address `a` to address `t`: walking with `next` from `a` meets exactly these
blocks and stops at `t`.  The lemmas of the second part say what the three header writes
of the heap (joining two blocks, halving one, marking one) do to the tiling.

`Refit` is the relation between the arena before and after a search: the searches of the
heap rearrange free blocks, and leave the blocks in use and all memory outside the free
blocks alone.
-/

open ByteMemory Tiling

namespace TurbOS.Heap

/-- The headers from `a` on describe the blocks `bs`, which end at `t`. -/
def Tiles (m : Mem) : ℕ → List Block → ℕ → Prop
  | a, [], t => a = t
  | a, b :: bs, t => blockSize m a = b.size ∧ blockFree m a = b.free ∧ Tiles m (a + b.size) bs t

/-- On a given memory a tiling is checked by walking over the headers. -/
instance decidableTiles (m : Mem) : ∀ a bs t, Decidable (Tiles m a bs t)
  | a, [], t => inferInstanceAs (Decidable (a = t))
  | a, b :: bs, t =>
    have := decidableTiles m (a + b.size) bs t
    inferInstanceAs (Decidable (blockSize m a = b.size ∧ blockFree m a = b.free ∧
      Tiles m (a + b.size) bs t))

variable {m m' : Mem} {a t : ℕ} {bs pre post : List Block}

lemma Tiles.end_eq (h : Tiles m a bs t) : t = a + total bs := by
  induction bs generalizing a with
  | nil => simpa [Tiles] using h.symm
  | cons b bs ih =>
    rw [ih h.2.2]
    simp [Nat.add_assoc]

lemma tiles_append {xs ys : List Block} :
    Tiles m a (xs ++ ys) t ↔ Tiles m a xs (a + total xs) ∧ Tiles m (a + total xs) ys t := by
  induction xs generalizing a with
  | nil => simp [Tiles]
  | cons b xs ih => simp [Tiles, ih, Nat.add_assoc, and_assoc]

/-- A header is what the tiling says. -/
lemma Tiles.read (h : Tiles m a bs t) {c : ℕ} {b : Block} (hb : (c, b) ∈ spans a bs) :
    blockSize m c = b.size ∧ blockFree m c = b.free := by
  obtain ⟨pre, post, rfl, rfl⟩ := mem_spans_iff.mp hb
  obtain ⟨-, hsize, hfree, -⟩ := tiles_append.mp h
  exact ⟨hsize, hfree⟩

lemma Tiles.next_eq (h : Tiles m a bs t) {c : ℕ} {b : Block} (hb : (c, b) ∈ spans a bs) :
    next m c = c + b.size := by
  rw [next, (h.read hb).1]

/-! ## Frames -/

/-- The fields of a header are its first nine bytes. -/
lemma header_congr {c : ℕ} (h : ∀ x, c ≤ x → x < c + 9 → m' x = m x) :
    blockSize m' c = blockSize m c ∧ blockFree m' c = blockFree m c := by
  constructor
  · exact load_congr fun x h₁ h₂ => h x h₁ (by omega)
  · rw [blockFree, blockFree, h (c + 8) (by omega) (by omega)]

/-- A tiling survives every write that misses the headers. -/
lemma Tiles.congr (h : Tiles m a bs t)
    (hm : ∀ c b, (c, b) ∈ spans a bs → ∀ x, c ≤ x → x < c + 9 → m' x = m x) :
    Tiles m' a bs t := by
  induction bs generalizing a with
  | nil => exact h
  | cons b bs ih =>
    obtain ⟨hsize, hfree, hrest⟩ := h
    obtain ⟨h₁, h₂⟩ := header_congr fun x => hm a b (by simp) x
    exact ⟨by rw [h₁, hsize], by rw [h₂, hfree],
      ih hrest fun c d hd => hm c d (List.mem_cons_of_mem _ hd)⟩

/-- A tiling depends on its own range only. -/
lemma Tiles.of_agree (h : Tiles m a bs t) (hs : ∀ b ∈ bs, 9 ≤ b.size)
    (hm : ∀ x, a ≤ x → x < a + total bs → m' x = m x) : Tiles m' a bs t := by
  refine h.congr fun c b hb x h₁ h₂ => ?_
  have hbounds := spans_bounds hb
  have := hs b (mem_of_mem_spans hb)
  exact hm x (by omega) (by omega)

/-- Rewriting the headers of some consecutive blocks. -/
lemma Tiles.replace {xs ys : List Block} (h : Tiles m a (pre ++ xs ++ post) t)
    (hpre : ∀ b ∈ pre, 9 ≤ b.size) (ht : total ys = total xs)
    (hm : ∀ x, x < a + total pre ∨ a + total pre + total xs ≤ x → m' x = m x)
    (hy : Tiles m' (a + total pre) ys (a + total pre + total ys)) :
    Tiles m' a (pre ++ ys ++ post) t := by
  rw [tiles_append, tiles_append, total_append] at h ⊢
  obtain ⟨⟨h₁, -⟩, h₂⟩ := h
  refine ⟨⟨h₁.of_agree hpre fun x _ hx => hm x (by omega), ?_⟩, ?_⟩
  · rw [← Nat.add_assoc]
    exact hy
  · rw [ht]
    exact h₂.congr fun c b hb x hx _ => hm x (by have := (spans_bounds hb).1; omega)

/-- The size and the flag of no block reach into the next block. -/
def HeadersFit (bs : List Block) : Prop := ∀ b ∈ bs.dropLast, 9 ≤ b.size

lemma HeadersFit.of_powers {k : ℕ} (h : PowersFrom k bs) (hk : 4 ≤ k) : HeadersFit bs := by
  intro b hb
  have hpow : 2 ^ 4 ≤ 2 ^ k := Nat.pow_le_pow_right (by norm_num) hk
  have := h.le_size (List.dropLast_subset _ hb)
  omega

/-- The blocks before another one have room for their headers. -/
lemma HeadersFit.before {d : Block} (h : HeadersFit (pre ++ d :: post)) :
    ∀ b ∈ pre, 9 ≤ b.size := by
  intro b hb
  refine h b ?_
  rw [List.dropLast_append_cons]
  exact List.mem_append_left _ hb

lemma HeadersFit.merge {xs ys : List Block} (h : HeadersFit xs) (hm : Merge xs ys) :
    HeadersFit ys := by
  cases hm with
  | mk pre s post =>
    have hpre := h.before
    rw [List.append_cons] at h
    have hs : 9 ≤ s := h.before ⟨s, true⟩ (by simp)
    intro b hb
    rw [List.dropLast_append_cons, List.mem_append] at hb
    rcases hb with hb | hb
    · exact hpre b hb
    · rcases post with _ | ⟨e, post⟩
      · simp at hb
      · rw [List.dropLast_cons_cons, List.mem_cons] at hb
        rcases hb with rfl | hb
        · dsimp only
          omega
        · refine h b ?_
          rw [List.dropLast_append_cons, List.dropLast_cons_cons]
          simp [hb]

lemma HeadersFit.merges {xs ys : List Block} (h : HeadersFit xs) (hm : Merges xs ys) :
    HeadersFit ys := by
  induction hm with
  | refl => exact h
  | tail _ hm ih => exact ih.merge hm

/-! ## The header writes -/

lemma setSize_outside {c v x : ℕ} (h : x < c ∨ c + 8 ≤ x) : setSize m c v x = m x :=
  store_outside h

lemma setFree_outside {c x : ℕ} {f : Bool} (h : x ≠ c + 8) : setFree m c f x = m x :=
  Function.update_of_ne h _ _

lemma blockSize_setSize {c v : ℕ} (hv : v < 2 ^ 64) : blockSize (setSize m c v) c = v := by
  rw [blockSize, setSize, load_store_self]
  exact Nat.mod_eq_of_lt (by norm_num at hv ⊢; exact hv)

lemma blockFree_setSize {c v : ℕ} : blockFree (setSize m c v) c = blockFree m c := by
  rw [blockFree, blockFree, setSize_outside (by omega)]

lemma blockSize_setFree {c : ℕ} {f : Bool} : blockSize (setFree m c f) c = blockSize m c :=
  load_congr fun _ _ _ => setFree_outside (by omega)

lemma blockFree_setFree {c : ℕ} {f : Bool} : blockFree (setFree m c f) c = f := by
  cases f <;> simp [blockFree, setFree]

/-- Doubling the size of a free block joins it with a free neighbour of its size. -/
lemma Tiles.join {s : ℕ} (h : Tiles m a (pre ++ ⟨s, true⟩ :: ⟨s, true⟩ :: post) t)
    (hpre : ∀ b ∈ pre, 9 ≤ b.size) (hs : 9 ≤ s) (hlt : 2 * s < 2 ^ 64) :
    Tiles (setSize m (a + total pre) (2 * s)) a (pre ++ ⟨2 * s, true⟩ :: post) t := by
  have h' : Tiles m a (pre ++ [⟨s, true⟩, ⟨s, true⟩] ++ post) t := by simpa using h
  have hfree := (h.read (c := a + total pre) (b := ⟨s, true⟩) (by simp)).2
  have hrep : Tiles (setSize m (a + total pre) (2 * s)) a (pre ++ [⟨2 * s, true⟩] ++ post) t :=
    h'.replace hpre (by simp; omega) (fun x hx => setSize_outside (by simp at hx; omega))
      ⟨blockSize_setSize hlt, by rw [blockFree_setSize, hfree], by simp [Tiles]⟩
  simpa using hrep

/-- Halving a free block of even size gives two free blocks; the right one is returned. -/
lemma Tiles.halve {s : ℕ} (h : Tiles m a (pre ++ ⟨2 * s, true⟩ :: post) t)
    (hpre : ∀ b ∈ pre, 9 ≤ b.size) (hs : 9 ≤ s) (hlt : 2 * s < 2 ^ 64) :
    (halve m (a + total pre)).2 = a + total pre + s ∧
      Tiles (halve m (a + total pre)).1 a (pre ++ ⟨s, true⟩ :: ⟨s, true⟩ :: post) t ∧
      ∀ x, x < a + total pre ∨ a + total pre + 2 * s ≤ x →
        (Heap.halve m (a + total pre)).1 x = m x := by
  obtain ⟨hsize, hfree⟩ := h.read (c := a + total pre) (b := ⟨2 * s, true⟩) (by simp)
  dsimp only at hsize hfree
  have hhalf : 2 * s / 2 = s := by omega
  have hnext : next (setSize m (a + total pre) s) (a + total pre) = a + total pre + s := by
    rw [next, blockSize_setSize (by omega)]
  have hval : Heap.halve m (a + total pre) =
      (setFree (setSize (setSize m (a + total pre) s) (a + total pre + s) s)
        (a + total pre + s) true, a + total pre + s) := by
    simp only [Heap.halve, hsize, hhalf, hnext]
  rw [hval]
  dsimp only
  generalize hm₁ : setSize m (a + total pre) s = m₁ at hnext ⊢
  generalize hm₂ : setFree (setSize m₁ (a + total pre + s) s) (a + total pre + s) true = m₂
  have hout : ∀ x, x < a + total pre ∨ a + total pre + 2 * s ≤ x → m₂ x = m x := by
    intro x hx
    rw [← hm₂, setFree_outside (by omega), setSize_outside (by omega), ← hm₁,
      setSize_outside (by omega)]
  have hleft : blockSize m₂ (a + total pre) = blockSize m₁ (a + total pre) ∧
      blockFree m₂ (a + total pre) = blockFree m₁ (a + total pre) :=
    header_congr fun x h₁ h₂ => by
      rw [← hm₂, setFree_outside (by omega), setSize_outside (by omega)]
  have hnew : Tiles m₂ (a + total pre) [⟨s, true⟩, ⟨s, true⟩] (a + total pre + 2 * s) := by
    refine ⟨?_, ?_, ?_, ?_, ?_⟩
    · rw [hleft.1, ← hm₁, blockSize_setSize (by omega)]
    · rw [hleft.2, ← hm₁, blockFree_setSize, hfree]
    · rw [← hm₂, blockSize_setFree, blockSize_setSize (by omega)]
    · rw [← hm₂, blockFree_setFree]
    · simp only [Tiles]
      omega
  refine ⟨rfl, ?_, hout⟩
  have h' : Tiles m a (pre ++ [⟨2 * s, true⟩] ++ post) t := by simpa using h
  have hrep : Tiles m₂ a (pre ++ [⟨s, true⟩, ⟨s, true⟩] ++ post) t :=
    h'.replace hpre (by simp; omega) (fun x hx => hout x (by simp at hx; omega))
      (by simpa [← two_mul] using hnew)
  simpa using hrep

/-- Changing the mark of a block. -/
lemma Tiles.mark {s : ℕ} {f f' : Bool} (h : Tiles m a (pre ++ ⟨s, f⟩ :: post) t)
    (hs : ∀ b ∈ pre ++ ⟨s, f⟩ :: post, 9 ≤ b.size) :
    Tiles (setFree m (a + total pre) f') a (pre ++ ⟨s, f'⟩ :: post) t := by
  have h9 : 9 ≤ s := hs ⟨s, f⟩ (by simp)
  have hsize := (h.read (c := a + total pre) (b := ⟨s, f⟩) (by simp)).1
  have h' : Tiles m a (pre ++ [⟨s, f⟩] ++ post) t := by simpa using h
  have hrep : Tiles (setFree m (a + total pre) f') a (pre ++ [⟨s, f'⟩] ++ post) t :=
    h'.replace (fun b hb => hs b (by simp [hb])) (by simp)
      (fun x hx => setFree_outside (by simp at hx; omega))
      ⟨by rw [blockSize_setFree, hsize], blockFree_setFree, by simp [Tiles]⟩
  simpa using hrep

/-! ## Rearranging free blocks -/

/-- The address belongs to the arena and to no block in use. -/
def Spare (a : ℕ) (bs : List Block) (x : ℕ) : Prop :=
  a ≤ x ∧ x < a + total bs ∧ ∀ c s, Used a bs c s → x < c ∨ c + s ≤ x

/-- An address of a free block is spare. -/
lemma spare_of_free {c s x : ℕ} (h : (c, ⟨s, true⟩) ∈ spans a bs) (h₁ : c ≤ x) (h₂ : x < c + s) :
    Spare a bs x := by
  have hb := spans_bounds h
  dsimp only at hb
  refine ⟨by omega, by omega, fun c' s' hu => ?_⟩
  rcases spans_apart h hu with heq | hle | hle
  · exact absurd (Prod.mk.inj heq).2 (by simp)
  · dsimp only at hle
    omega
  · dsimp only at hle
    omega

/-- The arena from `a` to `t` was rearranged: the free blocks changed, the blocks in use
and all memory outside the free blocks did not. -/
structure Refit (a t : ℕ) (m : Mem) (bs : List Block) (m' : Mem) (bs' : List Block) : Prop where
  tiles : Tiles m' a bs' t
  powers : PowersFrom 5 bs'
  used_iff : ∀ c s, Used a bs' c s ↔ Used a bs c s
  frame : ∀ x, ¬ Spare a bs x → m' x = m x

namespace Refit

lemma refl (h : Tiles m a bs t) (hp : PowersFrom 5 bs) : Refit a t m bs m bs :=
  ⟨h, hp, fun _ _ => Iff.rfl, fun _ _ => rfl⟩

lemma trans {bs₁ bs₂ : List Block} {m₁ m₂ : Mem} (h : Tiles m a bs t)
    (h₁ : Refit a t m bs m₁ bs₁) (h₂ : Refit a t m₁ bs₁ m₂ bs₂) : Refit a t m bs m₂ bs₂ := by
  refine ⟨h₂.tiles, h₂.powers, fun c s => (h₂.used_iff c s).trans (h₁.used_iff c s), ?_⟩
  intro x hx
  rw [h₂.frame x, h₁.frame x hx]
  rintro ⟨hx₁, hx₂, hx₃⟩
  have he := h.end_eq
  have he₁ := h₁.tiles.end_eq
  exact hx ⟨hx₁, by omega, fun c s hu => hx₃ c s ((h₁.used_iff c s).mpr hu)⟩

end Refit

/-- Joining two free blocks is a rearrangement. -/
lemma Tiles.refit_join {s : ℕ} (h : Tiles m a (pre ++ ⟨s, true⟩ :: ⟨s, true⟩ :: post) t)
    (hp : PowersFrom 5 (pre ++ ⟨s, true⟩ :: ⟨s, true⟩ :: post)) (ht : t < 2 ^ 64) :
    Refit a t m (pre ++ ⟨s, true⟩ :: ⟨s, true⟩ :: post)
      (setSize m (a + total pre) (2 * s)) (pre ++ ⟨2 * s, true⟩ :: post) := by
  have hmerge := Merge.mk pre s post
  have hend := h.end_eq
  simp at hend
  have h32 : 32 ≤ s := hp.le_size (b := ⟨s, true⟩) (by simp)
  have hfit := HeadersFit.of_powers hp (by norm_num)
  refine ⟨h.join hfit.before (by omega) (by omega), hp.merges (.single hmerge),
    hmerge.used_iff a, fun x hx => ?_⟩
  refine setSize_outside ?_
  by_contra hc
  exact hx (spare_of_free (c := a + total pre) (s := s) (by simp) (by omega) (by omega))

/-- Halving a free block is a rearrangement. -/
lemma Tiles.refit_halve {s : ℕ} (h : Tiles m a (pre ++ ⟨2 * s, true⟩ :: post) t)
    (hp : PowersFrom 5 (pre ++ ⟨2 * s, true⟩ :: post)) (ht : t < 2 ^ 64)
    (hs : ∃ j, 5 ≤ j ∧ s = 2 ^ j) :
    (Heap.halve m (a + total pre)).2 = a + total pre + s ∧
      Refit a t m (pre ++ ⟨2 * s, true⟩ :: post) (Heap.halve m (a + total pre)).1
        (pre ++ ⟨s, true⟩ :: ⟨s, true⟩ :: post) := by
  have hend := h.end_eq
  simp at hend
  have h32 : 32 ≤ s := by
    obtain ⟨j, hj, rfl⟩ := hs
    calc 32 = 2 ^ 5 := by norm_num
      _ ≤ 2 ^ j := Nat.pow_le_pow_right (by norm_num) hj
  obtain ⟨hnext, htiles, hout⟩ := h.halve
    (HeadersFit.of_powers hp (by norm_num)).before (by omega) (by omega)
  refine ⟨hnext, htiles, hp.halve hs, fun c n => ((Merge.mk pre s post).used_iff a c n).symm,
    fun x hx => hout x ?_⟩
  by_contra hc
  exact hx (spare_of_free (c := a + total pre) (s := 2 * s) (by simp) (by omega) (by omega))

end TurbOS.Heap
