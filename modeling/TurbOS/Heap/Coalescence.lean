import TurbOS.Heap.Search

/-!
# Coalescence of any layout

The sizes of the blocks need not be powers of two here.  What `coalescence` needs of a layout is
that the headers of the blocks do not overlap: a block that is followed by another one has nine
bytes at least, for its size and its flag.  Then every round of a sweep joins two free blocks or
leaves memory alone, and a sweep that is followed by another one has made the layout shorter.

A smaller block has its flag in the size of the next block, and a join changes that size.
-/

open ByteMemory Tiling Fuel

namespace TurbOS.Heap

variable {m : Mem} {a t : ℕ} {bs : List Block}

/-- `coalescence` ends.  Afterwards the headers describe a layout of the same range in which the
blocks in use are still there, and every block is an old one or a run of old free ones. -/
def Coalesces (h : Heap) (m : Mem) (bs : List Block) : Prop :=
  ∃ m' bs', (∃ enough, ∀ fuel, enough ≤ fuel → coalescence fuel h m = some m') ∧
    Tiles m' h.head bs' h.tail ∧
    (∀ c s, Used h.head bs c s → Used h.head bs' c s) ∧
    ∀ c b, (c, b) ∈ spans h.head bs' → (c, b) ∈ spans h.head bs ∨ FreeRun h.head bs c b

/-! ## Sweeps -/

/-- What holds during a sweep that began with the layout `bs`: joins have led to the layout, and
the flag is cleared only after one of them.  `k` bounds the length of the range ahead. -/
def Joining (a t : ℕ) (bs : List Block) (k : ℕ) (c : Sweep) : Prop :=
  ∃ pre cur, Tiles c.mem a (pre ++ cur) t ∧ Merges bs (pre ++ cur) ∧ At a pre cur c.block c.tmp ∧
    (c.noCoalescence = false → (pre ++ cur).length < bs.length) ∧ total cur ≤ k

/-- One round of a sweep. -/
lemma sweepStep_joining {k : ℕ} {c : Sweep} {pre rest : List Block} {b d : Block} (ht : t < 2 ^ 64)
    (hpos : ∀ b ∈ bs, 0 < b.size) (hfit : HeadersFit bs)
    (hm : Tiles c.mem a (pre ++ b :: d :: rest) t) (hmerges : Merges bs (pre ++ b :: d :: rest))
    (hat : At a pre (b :: d :: rest) c.block c.tmp)
    (hno : c.noCoalescence = false → (pre ++ b :: d :: rest).length < bs.length)
    (hk : total (b :: d :: rest) ≤ k) : ∃ k' < k, Joining a t bs k' (sweepStep t c) := by
  have hpos' := hmerges.pos hpos
  have hb := hpos' b (by simp)
  have hd := hpos' d (by simp)
  simp only [total_cons] at hk
  rcases sweepStep_cases ht hm hpos' (hfit.merges hmerges) hat with
    ⟨s, rfl, rfl, -, hm', hat', -⟩ | ⟨-, -, hmem, hat', hflag⟩ | ⟨-, -, hmem, hat', hflag⟩
  · have hle := hmerges.length_le
    have hmerges' := hmerges.tail (Merge.mk pre s rest)
    rw [List.append_cons] at hmerges'
    refine ⟨total rest, by omega, _, rest, hm', hmerges', hat', fun _ => ?_, le_rfl⟩
    simp at hle ⊢
    omega
  · rw [List.append_cons] at hm hmerges hno
    rw [← hmem] at hm
    rw [← hflag] at hno
    exact ⟨total (d :: rest), by simp; omega, pre ++ [b], d :: rest, hm, hmerges, hat', hno, le_rfl⟩
  · have hcur : pre ++ b :: d :: rest = pre ++ [b, d] ++ rest := by simp
    rw [hcur] at hm hmerges hno
    rw [← hmem] at hm
    rw [← hflag] at hno
    exact ⟨total rest, by omega, pre ++ [b, d], rest, hm, hmerges, hat', hno, le_rfl⟩

/-- A sweep joins free blocks, and reports a join only if the layout got shorter. -/
lemma sweep_joins {h : Heap} (hm : Tiles m h.head bs h.tail) (ht : h.tail < 2 ^ 64)
    (hpos : ∀ b ∈ bs, 0 < b.size) (hfit : HeadersFit bs) (fuel : ℕ) :
    Meets (total bs < fuel) (sweep fuel h m) fun c =>
      ∃ bs', Tiles c.mem h.head bs' h.tail ∧ Merges bs bs' ∧
        (c.noCoalescence = false → bs'.length < bs.length) := by
  rw [sweep]
  refine Meets.of_imp (Meets.mono (loop_meets True (Joining h.head h.tail bs)
    (Q := fun c => ∃ k, Joining h.head h.tail bs k c) ?_ fuel (total bs) _ ?_) ?_)
    fun hf => ⟨trivial, hf⟩
  · rintro k c ⟨pre, cur, hm', hmerges, hat, hno, hk⟩
    have hahead := hat.ahead hm' (hmerges.pos hpos)
    split
    · rename_i hgo
      obtain ⟨b, d, rest, rfl⟩ := hahead.mp hgo
      exact Meets.pure (sweepStep_joining ht hpos hfit hm' hmerges hat hno hk)
    · exact Meets.pure ⟨k, pre, cur, hm', hmerges, hat, hno, hk⟩
  · exact ⟨[], bs, hm, .refl, at_start hm, by simp, le_rfl⟩
  · rintro c ⟨k, pre, cur, hm', hmerges, -, hno, -⟩
    exact ⟨pre ++ cur, hm', hmerges, hno⟩

/-! ## All sweeps -/

/-- `coalescence` ends after joins of free blocks. -/
lemma coalescence_joins {h : Heap} (hm : Tiles m h.head bs h.tail) (ht : h.tail < 2 ^ 64)
    (hpos : ∀ b ∈ bs, 0 < b.size) (hfit : HeadersFit bs) (fuel : ℕ) :
    Meets (total bs < fuel) (coalescence fuel h m) fun m' =>
      ∃ bs', Tiles m' h.head bs' h.tail ∧ Merges bs bs' := by
  rw [coalescence]
  -- the sweeps to come are bounded by the number of blocks
  let Holds (k : ℕ) (m' : Mem) : Prop :=
    ∃ bs', Tiles m' h.head bs' h.tail ∧ Merges bs bs' ∧ bs'.length ≤ k
  refine Meets.of_imp (loop_meets (total bs < fuel) Holds ?_ fuel bs.length m
    ⟨bs, hm, .refl, le_rfl⟩) fun hf => ⟨hf, by have := length_le_total hpos; omega⟩
  rintro k m₁ ⟨bs₁, hm₁, hmerges, hk⟩
  have hbound : total bs < fuel → total bs₁ < fuel := fun hf => by rw [hmerges.total_eq]; exact hf
  refine Meets.map (Meets.of_imp (sweep_joins hm₁ ht (hmerges.pos hpos)
    (hfit.merges hmerges) fuel) hbound) ?_
  rintro c ⟨bs₂, hm₂, hmerges₂, hno⟩
  cases hq : c.noCoalescence with
  | true => exact ⟨bs₂, hm₂, hmerges.trans hmerges₂⟩
  | false =>
    have := hno hq
    exact ⟨bs₂.length, by omega, bs₂, hm₂, hmerges.trans hmerges₂, le_rfl⟩

/-- A result of `coalescence` does not depend on the fuel. -/
lemma coalescence_mono {h : Heap} {n n' : ℕ} (hn : n ≤ n') {m' : Mem}
    (hm : coalescence n h m = some m') : coalescence n' h m = some m' :=
  loop_le (fun _ => (loop_le (fun _ => .refl _) hn _).map _) hn m m' hm

/-- In every layout of nonempty blocks whose headers do not overlap, `coalescence` ends and joins
nothing but free blocks. -/
theorem coalescence_coalesces (h : Heap) (m : Mem) (bs : List Block)
    (htiles : Tiles m h.head bs h.tail) (htail : h.tail < 2 ^ 64) (hpos : ∀ b ∈ bs, 0 < b.size)
    (hfit : HeadersFit bs) : Coalesces h m bs := by
  obtain ⟨m', hm', bs', hm₂, hmerges⟩ :=
    (coalescence_joins htiles htail hpos hfit (total bs + 1)).returns (by omega)
  refine ⟨m', bs', ⟨total bs + 1, fun fuel hf => coalescence_mono hf hm'⟩, hm₂, ?_, ?_⟩
  · exact fun c s hu => (hmerges.used_iff h.head c s).mpr hu
  · exact fun c b hb => hmerges.origin hb

/-! ## A joined pair, and a block that is too small -/

/-- The memory with the headers of free blocks of the given sizes, one after the other. -/
def freeHeaders : ℕ → List ℕ → Mem
  | _, [] => fun _ => 0
  | a, s :: sizes => setFree (setSize (freeHeaders (a + s) sizes) a s) a true

lemma oddSizes_tiles :
    Tiles (freeHeaders 0x1000 [24, 24, 40]) 0x1000 [⟨24, true⟩, ⟨24, true⟩, ⟨40, true⟩] 0x1058 := by
  decide +kernel

theorem oddSizes_coalesces : Coalesces { head := 0x1000, tail := 0x1058 }
    (freeHeaders 0x1000 [24, 24, 40]) [⟨24, true⟩, ⟨24, true⟩, ⟨40, true⟩] :=
  coalescence_coalesces { head := 0x1000, tail := 0x1058 } _ _ oddSizes_tiles (by norm_num)
    (by simp) (by simp [HeadersFit])

/-- A block of 8 bytes has its flag in the lowest byte of the size of the next block. -/
def overlapping : Mem :=
  setSize (setFree (setSize (setFree (setSize (fun _ => 0) 0x1088 128) 0x1088 true) 0x1008 128)
    0x1008 true) 0x1000 8

/-- The join of the other two blocks clears the flag of the first one. -/
theorem overlapping_not_coalesces :
    Tiles overlapping 0x1000 [⟨8, true⟩, ⟨128, true⟩, ⟨128, true⟩] 0x1108 ∧
      (∀ b ∈ [(⟨8, true⟩ : Block), ⟨128, true⟩, ⟨128, true⟩], 0 < b.size) ∧
      ¬ Coalesces { head := 0x1000, tail := 0x1108 } overlapping
        [⟨8, true⟩, ⟨128, true⟩, ⟨128, true⟩] := by
  refine ⟨by decide +kernel, by simp, ?_⟩
  rintro ⟨m', bs', ⟨enough, henough⟩, hm', -, horigin⟩
  have hrun : (coalescence 4 { head := 0x1000, tail := 0x1108 } overlapping).map
      (fun m => (blockSize m 0x1000, blockFree m 0x1000)) = some (8, false) := by
    decide +kernel
  obtain ⟨m₂, hm₂, hhead⟩ := Option.map_eq_some_iff.mp hrun
  obtain ⟨hsize, hfree⟩ := Prod.mk.inj hhead
  -- enough fuel gives the result of the run
  have hsame := henough (enough + 4) (by omega)
  rw [coalescence_mono (by omega) hm₂, Option.some.injEq] at hsame
  subst hsame
  rcases bs' with _ | ⟨b, bs'⟩
  · simp [Tiles] at hm'
  obtain ⟨hbsize, hbfree, -⟩ := hm'
  obtain ⟨s, f⟩ := b
  obtain rfl : s = 8 := hbsize.symm.trans hsize
  obtain rfl : f = false := hbfree.symm.trans hfree
  rcases horigin 0x1000 ⟨8, false⟩ (by simp) with hold | ⟨pre, run, post, -, -, -, -, hb⟩
  · simp at hold
  · simp at hb

end TurbOS.Heap
