import Mathlib

/-!
# Ranges tiled by blocks

A range of addresses is cut into consecutive blocks, each of which is free or in use.
The tiling is the list of blocks in address order; `spans a bs` attaches the addresses
when the first block starts at `a`.

What an allocator does to a tiling is of two kinds.  Cutting and joining *free* blocks
replaces a run of free blocks by another one of the same length (`used_replace`), so it
does not change which ranges are in use.  Taking or giving back a block changes the mark
of one block (`used_take`, `used_give`).  After joins of equal neighbours every block is an old
one or covers a run of old free ones (`Merges.origin`).
-/

namespace Tiling

/-- A block of a tiling. -/
structure Block where
  size : ℕ
  free : Bool
deriving DecidableEq, Repr

/-- The length of the range that a list of blocks tiles. -/
def total (bs : List Block) : ℕ := (bs.map Block.size).sum

@[simp] lemma total_nil : total [] = 0 := rfl

@[simp] lemma total_cons (b : Block) (bs : List Block) : total (b :: bs) = b.size + total bs := by
  simp [total]

@[simp] lemma total_append (xs ys : List Block) : total (xs ++ ys) = total xs + total ys := by
  simp [total]

/-- The blocks with their addresses, when the first one starts at `a`. -/
def spans (a : ℕ) : List Block → List (ℕ × Block)
  | [] => []
  | b :: bs => (a, b) :: spans (a + b.size) bs

@[simp] lemma spans_nil (a : ℕ) : spans a [] = [] := rfl

@[simp] lemma spans_cons (a : ℕ) (b : Block) (bs : List Block) :
    spans a (b :: bs) = (a, b) :: spans (a + b.size) bs := rfl

@[simp] lemma spans_append (a : ℕ) (xs ys : List Block) :
    spans a (xs ++ ys) = spans a xs ++ spans (a + total xs) ys := by
  induction xs generalizing a with
  | nil => simp
  | cons b xs ih => simp [ih, Nat.add_assoc]

/-- A block stands at an address exactly when it is preceded by the blocks that tile the
range up to there. -/
lemma mem_spans_iff {a c : ℕ} {b : Block} {bs : List Block} :
    (c, b) ∈ spans a bs ↔ ∃ pre post, bs = pre ++ b :: post ∧ c = a + total pre := by
  constructor
  · intro h
    induction bs generalizing a with
    | nil => simp at h
    | cons d bs ih =>
      rcases List.mem_cons.mp h with heq | h
      · obtain ⟨rfl, rfl⟩ := Prod.mk.inj heq
        exact ⟨[], bs, rfl, rfl⟩
      · obtain ⟨pre, post, rfl, rfl⟩ := ih h
        exact ⟨d :: pre, post, rfl, by simp; omega⟩
  · rintro ⟨pre, post, rfl, rfl⟩
    simp

lemma mem_of_mem_spans {a c : ℕ} {b : Block} {bs : List Block} (h : (c, b) ∈ spans a bs) :
    b ∈ bs := by
  obtain ⟨pre, post, rfl, -⟩ := mem_spans_iff.mp h
  simp

/-- A block lies inside the range. -/
lemma spans_bounds {a c : ℕ} {b : Block} {bs : List Block} (h : (c, b) ∈ spans a bs) :
    a ≤ c ∧ c + b.size ≤ a + total bs := by
  obtain ⟨pre, post, rfl, rfl⟩ := mem_spans_iff.mp h
  simp
  omega

/-- Two blocks of a tiling are the same or do not overlap. -/
lemma spans_apart {a c c' : ℕ} {b b' : Block} {bs : List Block} (h : (c, b) ∈ spans a bs)
    (h' : (c', b') ∈ spans a bs) :
    (c, b) = (c', b') ∨ c + b.size ≤ c' ∨ c' + b'.size ≤ c := by
  induction bs generalizing a with
  | nil => simp at h
  | cons d bs ih =>
    rcases List.mem_cons.mp h with heq | h
    · obtain ⟨rfl, rfl⟩ := Prod.mk.inj heq
      rcases List.mem_cons.mp h' with heq' | h'
      · exact Or.inl heq'.symm
      · exact Or.inr (Or.inl (spans_bounds h').1)
    · rcases List.mem_cons.mp h' with heq' | h'
      · obtain ⟨rfl, rfl⟩ := Prod.mk.inj heq'
        exact Or.inr (Or.inr (spans_bounds h).1)
      · exact ih h h'

/-- With nonempty blocks, the address determines the block. -/
lemma spans_inj {a c : ℕ} {b b' : Block} {bs : List Block} (hpos : ∀ b ∈ bs, 0 < b.size)
    (h : (c, b) ∈ spans a bs) (h' : (c, b') ∈ spans a bs) : b = b' := by
  have h₁ := hpos b (mem_of_mem_spans h)
  have h₂ := hpos b' (mem_of_mem_spans h')
  rcases spans_apart h h' with heq | hle | hle
  · exact (Prod.mk.inj heq).2
  · omega
  · omega

/-! ## Ranges in use -/

/-- The `s` addresses from `c` on are a block in use. -/
def Used (a : ℕ) (bs : List Block) (c s : ℕ) : Prop := (c, ⟨s, false⟩) ∈ spans a bs

lemma not_used_of_free {a : ℕ} {bs : List Block} (h : ∀ b ∈ bs, b.free = true) (c s : ℕ) :
    ¬ Used a bs c s := fun hu => absurd (h _ (mem_of_mem_spans hu)) (by simp)

lemma used_append {a : ℕ} {xs ys : List Block} {c s : ℕ} :
    Used a (xs ++ ys) c s ↔ Used a xs c s ∨ Used (a + total xs) ys c s := by
  simp [Used]

/-- Free blocks may be exchanged for other free blocks of the same total length. -/
lemma used_replace {a : ℕ} {pre xs ys post : List Block} (hx : ∀ b ∈ xs, b.free = true)
    (hy : ∀ b ∈ ys, b.free = true) (ht : total xs = total ys) (c s : ℕ) :
    Used a (pre ++ xs ++ post) c s ↔ Used a (pre ++ ys ++ post) c s := by
  rw [used_append, used_append, used_append, used_append, total_append, total_append, ht]
  have h₁ := not_used_of_free (a := a + total pre) hx c s
  have h₂ := not_used_of_free (a := a + total pre) hy c s
  tauto

/-- Taking a free block adds its range. -/
lemma used_take {a : ℕ} {pre post : List Block} {n : ℕ} (c s : ℕ) :
    Used a (pre ++ ⟨n, false⟩ :: post) c s ↔
      (c = a + total pre ∧ s = n) ∨ Used a (pre ++ ⟨n, true⟩ :: post) c s := by
  simp only [Used, spans_append, spans_cons, List.mem_append, List.mem_cons, Prod.mk.injEq,
    Block.mk.injEq]
  tauto

/-- Giving back a block removes its range. -/
lemma used_give {a : ℕ} {pre post : List Block} {n : ℕ} (hn : 0 < n)
    (hpos : ∀ b ∈ pre, 0 < b.size) (c s : ℕ) :
    Used a (pre ++ ⟨n, true⟩ :: post) c s ↔
      Used a (pre ++ ⟨n, false⟩ :: post) c s ∧ c ≠ a + total pre := by
  rw [used_take]
  constructor
  · intro h
    refine ⟨Or.inr h, ?_⟩
    rintro rfl
    -- the block at the address is the free one, and there is only one
    rw [used_append] at h
    rcases h with hpre | hpost
    · have hb := (spans_bounds hpre).2
      have := hpos _ (mem_of_mem_spans hpre)
      dsimp only at hb this
      omega
    · rcases List.mem_cons.mp hpost with heq | hpost
      · exact absurd (Prod.mk.inj heq).2 (by simp)
      · have := (spans_bounds hpost).1
        dsimp only at this
        omega
  · rintro ⟨h | h, hne⟩
    · exact absurd h.1 hne
    · exact h

/-! ## Joining neighbours -/

/-- Two free neighbours of one size become one free block. -/
inductive Merge : List Block → List Block → Prop
  | mk (pre : List Block) (s : ℕ) (post : List Block) :
      Merge (pre ++ ⟨s, true⟩ :: ⟨s, true⟩ :: post) (pre ++ ⟨2 * s, true⟩ :: post)

/-- Any number of joins. -/
abbrev Merges : List Block → List Block → Prop := Relation.ReflTransGen Merge

namespace Merge

variable {xs ys : List Block}

lemma total_eq (h : Merge xs ys) : total ys = total xs := by
  cases h with
  | mk pre s post => simp; omega

lemma used_iff (h : Merge xs ys) (a c s : ℕ) : Used a ys c s ↔ Used a xs c s := by
  cases h with
  | mk pre n post =>
    have hrep : Used a (pre ++ [⟨2 * n, true⟩] ++ post) c s ↔
        Used a (pre ++ [⟨n, true⟩, ⟨n, true⟩] ++ post) c s :=
      used_replace (by simp) (by simp) (by simp; omega) c s
    simpa using hrep

lemma length_eq (h : Merge xs ys) : xs.length = ys.length + 1 := by
  cases h with
  | mk pre n post => simp; omega

/-- A property of block sizes that doubling keeps holds after a join. -/
lemma forall_size (h : Merge xs ys) {P : ℕ → Prop} (hP : ∀ n, P n → P (2 * n))
    (hx : ∀ b ∈ xs, P b.size) : ∀ b ∈ ys, P b.size := by
  cases h with
  | mk pre n post =>
    intro b hb
    rcases List.mem_append.mp hb with hb | hb
    · exact hx b (List.mem_append_left _ hb)
    · rcases List.mem_cons.mp hb with rfl | hb
      · exact hP n (hx ⟨n, true⟩ (by simp))
      · exact hx b (by simp [hb])

end Merge

namespace Merges

variable {xs ys : List Block}

lemma total_eq (h : Merges xs ys) : total ys = total xs := by
  induction h with
  | refl => rfl
  | tail _ hm ih => rw [hm.total_eq, ih]

lemma used_iff (h : Merges xs ys) (a c s : ℕ) : Used a ys c s ↔ Used a xs c s := by
  induction h with
  | refl => exact Iff.rfl
  | tail _ hm ih => exact (hm.used_iff a c s).trans ih

lemma cons (h : Merges xs ys) (b : Block) : Merges (b :: xs) (b :: ys) := by
  induction h with
  | refl => exact .refl
  | tail _ hm ih =>
    cases hm with
    | mk pre s post => exact ih.tail (Merge.mk (b :: pre) s post)

lemma length_le (h : Merges xs ys) : ys.length ≤ xs.length := by
  induction h with
  | refl => exact le_rfl
  | tail _ hm ih =>
    have := hm.length_eq
    omega

lemma forall_size (h : Merges xs ys) {P : ℕ → Prop} (hP : ∀ n, P n → P (2 * n))
    (hx : ∀ b ∈ xs, P b.size) : ∀ b ∈ ys, P b.size := by
  induction h with
  | refl => exact hx
  | tail _ hm ih => exact hm.forall_size hP ih

lemma pos (h : Merges xs ys) (hx : ∀ b ∈ xs, 0 < b.size) : ∀ b ∈ ys, 0 < b.size :=
  h.forall_size (P := (0 < ·)) (fun _ hn => by omega) hx

end Merges

/-! ## What joined blocks are made of -/

/-- Consecutive blocks as one; it is free if all of them are. -/
def fuse (g : List Block) : Block := ⟨total g, g.all Block.free⟩

@[simp] lemma fuse_singleton (b : Block) : fuse [b] = b := by
  simp [fuse]

lemma total_fuse (gs : List (List Block)) : total (gs.map fuse) = total gs.flatten := by
  induction gs with
  | nil => rfl
  | cons g gs ih => simp [fuse, ih]

/-- The block covers some consecutive blocks, which are all free. -/
def FreeRun (a : ℕ) (bs : List Block) (c : ℕ) (b : Block) : Prop :=
  ∃ pre run post, bs = pre ++ run ++ post ∧ run ≠ [] ∧ (∀ e ∈ run, e.free = true) ∧
    c = a + total pre ∧ b = ⟨total run, true⟩

/-- The second list has a block for each group of the first: a group is one block, or consists
of free blocks. -/
def Grouped (xs ys : List Block) (gs : List (List Block)) : Prop :=
  gs.flatten = xs ∧ gs.map fuse = ys ∧
    ∀ g ∈ gs, g ≠ [] ∧ ((∃ b, g = [b]) ∨ ∀ e ∈ g, e.free = true)

lemma Grouped.refl (xs : List Block) : Grouped xs xs (xs.map ([·])) := by
  refine ⟨?_, ?_, ?_⟩
  · rw [← List.flatMap_def, List.flatMap_singleton']
  · rw [List.map_map]
    exact List.map_id'' (fun b => fuse_singleton b) xs
  · intro g hg
    obtain ⟨b, -, rfl⟩ := List.mem_map.mp hg
    exact ⟨by simp, .inl ⟨b, rfl⟩⟩

/-- A join makes one group of two. -/
lemma Grouped.merge {xs ys zs : List Block} {gs : List (List Block)} (h : Grouped xs ys gs)
    (hm : Merge ys zs) : ∃ gs', Grouped xs zs gs' := by
  cases hm with
  | mk pre s post =>
    obtain ⟨hflat, hmap, hgs⟩ := h
    obtain ⟨gpre, gs', rfl, hpre, hmap⟩ := List.map_eq_append_iff.mp hmap
    obtain ⟨g₁, gs', rfl, h₁, hmap⟩ := List.map_eq_cons_iff.mp hmap
    obtain ⟨g₂, gpost, rfl, h₂, hpost⟩ := List.map_eq_cons_iff.mp hmap
    obtain ⟨hsize₁, hfree₁⟩ := Block.mk.inj h₁
    obtain ⟨hsize₂, hfree₂⟩ := Block.mk.inj h₂
    rw [List.all_eq_true] at hfree₁ hfree₂
    refine ⟨gpre ++ (g₁ ++ g₂) :: gpost, by simpa using hflat, ?_, ?_⟩
    · have hfuse : fuse (g₁ ++ g₂) = ⟨2 * s, true⟩ := by
        rw [fuse, total_append, hsize₁, hsize₂, List.all_append, List.all_eq_true.mpr hfree₁,
          List.all_eq_true.mpr hfree₂, two_mul]
        rfl
      simp [hpre, hfuse, hpost]
    · intro g hg
      rcases List.mem_append.mp hg with hg | hg
      · exact hgs g (by simp [hg])
      rcases List.mem_cons.mp hg with rfl | hg
      · refine ⟨by simp [(hgs g₁ (by simp)).1], .inr fun e he => ?_⟩
        exact (List.mem_append.mp he).elim (hfree₁ e) (hfree₂ e)
      · exact hgs g (by simp [hg])

lemma Merges.groups {xs ys : List Block} (h : Merges xs ys) : ∃ gs, Grouped xs ys gs := by
  induction h with
  | refl => exact ⟨_, .refl xs⟩
  | tail _ hm ih =>
    obtain ⟨gs, hgs⟩ := ih
    exact hgs.merge hm

/-- After any number of joins a block is one of the old ones, or a run of free ones. -/
lemma Merges.origin {xs ys : List Block} (h : Merges xs ys) {a c : ℕ} {b : Block}
    (hb : (c, b) ∈ spans a ys) : (c, b) ∈ spans a xs ∨ FreeRun a xs c b := by
  obtain ⟨gs, rfl, rfl, hgs⟩ := h.groups
  obtain ⟨pre, post, hmap, rfl⟩ := mem_spans_iff.mp hb
  obtain ⟨gpre, gs', rfl, rfl, hrest⟩ := List.map_eq_append_iff.mp hmap
  obtain ⟨g, gpost, rfl, rfl, rfl⟩ := List.map_eq_cons_iff.mp hrest
  rw [total_fuse]
  obtain ⟨hne, ⟨b, rfl⟩ | hfree⟩ := hgs g (by simp)
  · exact .inl (by simp)
  · refine .inr ⟨gpre.flatten, g, gpost.flatten, by simp, hne, hfree, rfl, ?_⟩
    rw [fuse, List.all_eq_true.mpr hfree]

/-! ## Sizes that are powers of two -/

/-- Every block size is a power of two, of at least `2 ^ k`. -/
def PowersFrom (k : ℕ) (bs : List Block) : Prop := ∀ b ∈ bs, ∃ j, k ≤ j ∧ b.size = 2 ^ j

lemma PowersFrom.le_size {k : ℕ} {bs : List Block} (h : PowersFrom k bs) {b : Block}
    (hb : b ∈ bs) : 2 ^ k ≤ b.size := by
  obtain ⟨j, hj, hsize⟩ := h b hb
  rw [hsize]
  exact Nat.pow_le_pow_right (by norm_num) hj

lemma PowersFrom.pos {k : ℕ} {bs : List Block} (h : PowersFrom k bs) :
    ∀ b ∈ bs, 0 < b.size := fun _ hb => lt_of_lt_of_le (by positivity) (h.le_size hb)

lemma PowersFrom.merges {k : ℕ} {xs ys : List Block} (h : PowersFrom k xs) (hm : Merges xs ys) :
    PowersFrom k ys := by
  refine hm.forall_size (P := fun n => ∃ j, k ≤ j ∧ n = 2 ^ j) ?_ h
  rintro n ⟨j, hj, rfl⟩
  exact ⟨j + 1, by omega, by rw [pow_succ']⟩

/-- Halving a block into two that are large enough. -/
lemma PowersFrom.halve {k s : ℕ} {pre post : List Block} {b : Block}
    (h : PowersFrom k (pre ++ b :: post)) (hs : ∃ j, k ≤ j ∧ s = 2 ^ j) :
    PowersFrom k (pre ++ ⟨s, true⟩ :: ⟨s, true⟩ :: post) := by
  intro d hd
  simp only [List.mem_append, List.mem_cons] at hd
  rcases hd with hd | rfl | rfl | hd
  · exact h d (by simp [hd])
  · exact hs
  · exact hs
  · exact h d (by simp [hd])

end Tiling
