import TurbOS.Heap.Tiles

/-!
# Searching the arena

`split`, `find_best` and `coalescence` walk over the headers of the arena while they
change them.  The loops are described by the part of the tiling that lies behind the
cursor and the part that is still ahead; a round moves blocks from the second part to
the first, after joining two of them at times.

`find_best` remembers a block and goes on joining.  The remembered block may grow, since
it may be the left partner of a later join, but it is never swallowed: the cursor has
already reached it, and only blocks ahead of the cursor disappear.

What one round of a loop does is said once, in `findBestStep_cases` and `sweepStep_cases`, and
the invariants are derived from that.
-/

open ByteMemory Tiling Fuel

namespace TurbOS.Heap

variable {m : Mem} {a t : ℕ} {bs : List Block}

/-! ## Splitting -/

lemma double_of_lt {i j n : ℕ} (hn : n = 2 ^ i) (hlt : 2 ^ j < n) :
    j < i ∧ n = 2 * 2 ^ (i - 1) := by
  have hji : j < i := by
    rw [hn] at hlt
    exact (Nat.pow_lt_pow_iff_right (by norm_num)).mp hlt
  refine ⟨hji, ?_⟩
  rw [hn, ← pow_succ', Nat.sub_add_cancel (by omega)]

/-- `split` cuts a free block down to the size asked for, or finds it too small. -/
lemma split_meets {pre post : List Block} {n j : ℕ} (h : Tiles m a (pre ++ ⟨n, true⟩ :: post) t)
    (hp : PowersFrom 5 (pre ++ ⟨n, true⟩ :: post)) (ht : t < 2 ^ 64) (hj : 5 ≤ j) (fuel : ℕ) :
    Meets (n < fuel) (split fuel m (a + total pre) (2 ^ j)) fun r =>
      ∃ bs', Refit a t m (pre ++ ⟨n, true⟩ :: post) r.2 bs' ∧
        (r.1 = 0 ∨ (r.1, ⟨2 ^ j, true⟩) ∈ spans a bs') := by
  rw [split]
  split
  case isFalse => exact Meets.pure ⟨_, Refit.refl h hp, Or.inl rfl⟩
  -- the block in hand has the size `n'`, which halves in every round
  let Holds (k : ℕ) (c : Mem × ℕ) : Prop := ∃ pre' n' post',
    Refit a t m (pre ++ ⟨n, true⟩ :: post) c.1 (pre' ++ ⟨n', true⟩ :: post') ∧
      c.2 = a + total pre' ∧ n' ≤ k
  refine Meets.of_imp (Meets.map (Q := Holds (2 ^ j)) (loop_meets True Holds ?step fuel n _
    ⟨pre, n, post, Refit.refl h hp, rfl, le_rfl⟩) ?done) fun hf => ⟨trivial, hf⟩
  case done =>
    rintro c ⟨pre', n', post', hr, hblock, hle⟩
    refine ⟨_, hr, ?_⟩
    have hsize := (hr.tiles.read (c := a + total pre') (b := ⟨n', true⟩) (by simp)).1
    dsimp only at hsize
    rw [hblock, hsize]
    split
    · have : n' = 2 ^ j := by omega
      subst this
      exact Or.inr (by simp)
    · exact Or.inl rfl
  case step =>
    rintro k ⟨m', block⟩ ⟨pre', n', post', hr, hblock, hk⟩
    dsimp only at hr hblock
    subst hblock
    have hsize := (hr.tiles.read (c := a + total pre') (b := ⟨n', true⟩) (by simp)).1
    dsimp only at hsize ⊢
    rw [hsize]
    split
    case isFalse hge => exact Meets.pure ⟨pre', n', post', hr, rfl, by omega⟩
    case isTrue hlt =>
      obtain ⟨i, hi, hn'⟩ := hr.powers ⟨n', true⟩ (by simp)
      dsimp only at hn'
      obtain ⟨hji, hdouble⟩ := double_of_lt hn' hlt
      have hpos : 0 < 2 ^ (i - 1) := by positivity
      rw [hdouble] at hr hk
      obtain ⟨hnext, hrefit⟩ := hr.tiles.refit_halve hr.powers ht ⟨i - 1, by omega, rfl⟩
      refine Meets.pure ⟨2 ^ (i - 1), by omega, pre' ++ [⟨2 ^ (i - 1), true⟩], 2 ^ (i - 1), post',
        ?_, by simp [hnext, Nat.add_assoc], le_rfl⟩
      simpa using hr.trans h hrefit

/-! ## The cursor -/

/-- The cursor stands between `pre` and `cur`: `block` is the address of the first block
ahead, and `tmp` that of the second. -/
def At (a : ℕ) (pre cur : List Block) (block tmp : ℕ) : Prop :=
  block = a + total pre ∧ ∀ b rest, cur = b :: rest → tmp = block + b.size

lemma at_start (h : Tiles m a bs t) : At a [] bs a (next m a) := by
  refine ⟨by simp, ?_⟩
  rintro b rest rfl
  exact h.next_eq (by simp)

lemma Tiles.next_block {pre rest : List Block} {b : Block} {block : ℕ}
    (h : Tiles m a (pre ++ b :: rest) t)
    (hblock : block = a + total pre) : next m block = a + total (pre ++ [b]) := by
  rw [h.next_eq (b := b) (by simp [hblock]), hblock]
  simp
  omega

lemma At.ahead {pre cur : List Block} {block tmp : ℕ} (hat : At a pre cur block tmp)
    (h : Tiles m a (pre ++ cur) t) (hpos : ∀ b ∈ pre ++ cur, 0 < b.size) :
    block < t ∧ tmp < t ↔ ∃ b d rest, cur = b :: d :: rest := by
  have hend := h.end_eq
  rw [total_append] at hend
  obtain ⟨hblock, htmp⟩ := hat
  constructor
  · rintro ⟨h₁, h₂⟩
    rcases cur with _ | ⟨b, _ | ⟨d, rest⟩⟩
    · simp at hend
      omega
    · have := htmp b [] rfl
      simp at hend
      omega
    · exact ⟨b, d, rest, rfl⟩
  · rintro ⟨b, d, rest, rfl⟩
    have h₁ := htmp b _ rfl
    have h₂ := hpos b (by simp)
    have h₃ := hpos d (by simp)
    simp at hend
    omega

lemma At.short {pre cur : List Block} {block tmp : ℕ} (hat : At a pre cur block tmp)
    (h : Tiles m a (pre ++ cur) t) (hpos : ∀ b ∈ pre ++ cur, 0 < b.size)
    (hstop : ¬ (block < t ∧ tmp < t)) : cur = [] ∨ ∃ b, cur = [b] := by
  rcases cur with _ | ⟨b, _ | ⟨d, rest⟩⟩
  · exact .inl rfl
  · exact .inr ⟨b, rfl⟩
  · exact absurd ((hat.ahead h hpos).mpr ⟨b, d, rest, rfl⟩) hstop

/-- How the loops find the second block after they moved the first. -/
lemma at_next {pre cur : List Block} {block : ℕ} (tmp : ℕ) (h : Tiles m a (pre ++ cur) t)
    (hpos : ∀ b ∈ pre ++ cur, 0 < b.size) (hblock : block = a + total pre) :
    At a pre cur block (if block < t then next m block else tmp) := by
  refine ⟨hblock, ?_⟩
  rintro b rest rfl
  have hend := h.end_eq
  have hb := hpos b (by simp)
  simp at hend
  rw [if_pos (by omega), h.next_eq (b := b) (by rw [hblock]; simp)]

lemma At.pair {pre rest : List Block} {b d : Block} {block tmp : ℕ}
    (hat : At a pre (b :: d :: rest) block tmp) (hpos : ∀ b' ∈ pre ++ b :: d :: rest, 0 < b'.size) :
    block = a + total pre ∧ tmp = block + b.size ∧ 0 < b.size ∧ 0 < d.size ∧
      (block, b) ∈ spans a (pre ++ b :: d :: rest) ∧
        (tmp, d) ∈ spans a (pre ++ b :: d :: rest) := by
  obtain ⟨hblock, htmp⟩ := hat
  have htmp := htmp b _ rfl
  exact ⟨hblock, htmp, hpos b (by simp), hpos d (by simp), by simp [hblock], by simp [htmp, hblock]⟩

lemma At.one {pre rest : List Block} {b d : Block} {block tmp : ℕ}
    (hat : At a pre (b :: d :: rest) block tmp)
    (h : Tiles m a (pre ++ b :: d :: rest) t) : At a (pre ++ [b]) (d :: rest) tmp (next m tmp) := by
  obtain ⟨hblock, htmp⟩ := hat
  have htmp := htmp b _ rfl
  have hsecond : tmp = a + total (pre ++ [b]) := by
    rw [htmp, hblock]
    simp
    omega
  refine ⟨hsecond, ?_⟩
  rintro b' rest' heq
  rw [h.next_eq (b := d) (by simp [htmp, hblock]), (List.cons.inj heq).1]

lemma At.next_two {pre rest : List Block} {b d : Block} {block tmp : ℕ}
    (hat : At a pre (b :: d :: rest) block tmp) (h : Tiles m a (pre ++ b :: d :: rest) t) :
    next m tmp = a + total (pre ++ [b, d]) := by
  obtain ⟨hblock, htmp⟩ := hat
  have htmp := htmp b _ rfl
  rw [h.next_eq (b := d) (by simp [htmp, hblock]), htmp, hblock]
  simp
  omega

/-- A join leaves the header of the second block as it is, so it still leads to the blocks
behind. -/
lemma At.next_joined {pre rest : List Block} {block tmp s : ℕ}
    (hat : At a pre (⟨s, true⟩ :: ⟨s, true⟩ :: rest) block tmp)
    (h : Tiles m a (pre ++ ⟨s, true⟩ :: ⟨s, true⟩ :: rest) t) (hs : 8 ≤ s) :
    next (setSize m block (2 * s)) tmp = a + total (pre ++ [⟨2 * s, true⟩]) := by
  have htmp := hat.2 _ _ rfl
  dsimp only at htmp
  have hhead : blockSize (setSize m block (2 * s)) tmp = blockSize m tmp :=
    (header_congr fun x h₁ h₂ => setSize_outside (by omega)).1
  have htwo := hat.next_two h
  rw [next] at htwo
  rw [next, hhead, htwo]
  simp
  omega

lemma joined_eq {b d : Block} (h : b.free = true ∧ d.free = true ∧ b.size = d.size) :
    ∃ s, b = ⟨s, true⟩ ∧ d = ⟨s, true⟩ := by
  obtain ⟨s, f⟩ := b
  obtain ⟨s', f'⟩ := d
  obtain ⟨rfl, rfl, rfl⟩ := h
  exact ⟨s, rfl, rfl⟩

lemma At.joined {pre rest : List Block} {block tmp s : ℕ}
    (hat : At a pre (⟨s, true⟩ :: ⟨s, true⟩ :: rest) block tmp)
    (h : Tiles m a (pre ++ ⟨s, true⟩ :: ⟨s, true⟩ :: rest) t) (ht : t < 2 ^ 64)
    (hpos : ∀ b ∈ pre ++ ⟨s, true⟩ :: ⟨s, true⟩ :: rest, 0 < b.size)
    (hfit : HeadersFit (pre ++ ⟨s, true⟩ :: ⟨s, true⟩ :: rest)) :
    9 ≤ s ∧ Tiles (setSize m block (2 * s)) a (pre ++ [⟨2 * s, true⟩] ++ rest) t ∧
      ∀ b ∈ pre ++ [⟨2 * s, true⟩] ++ rest, 0 < b.size := by
  have hend := h.end_eq
  simp only [total_append, total_cons] at hend
  have hroom : 9 ≤ s := by
    rw [List.append_cons] at hfit
    exact hfit.before ⟨s, true⟩ (by simp)
  rw [← List.append_cons, hat.1]
  exact ⟨hroom, h.join hfit.before hroom (by omega), Merges.pos (.single (.mk pre s rest)) hpos⟩

/-- A free block starts at the address. -/
def FreeAt (a : ℕ) (bs : List Block) (c : ℕ) : Prop := ∃ n, (c, ⟨n, true⟩) ∈ spans a bs

/-- A free block that starts at or before the left partner of a join is still there. -/
lemma FreeAt.join {pre post : List Block} {s c : ℕ}
    (h : FreeAt a (pre ++ ⟨s, true⟩ :: ⟨s, true⟩ :: post) c) (hc : c ≤ a + total pre)
    (hs : 0 < s) : FreeAt a (pre ++ ⟨2 * s, true⟩ :: post) c := by
  obtain ⟨n, hn⟩ := h
  rw [spans_append, List.mem_append] at hn
  rcases hn with hn | hn
  · exact ⟨n, by rw [spans_append, List.mem_append]; exact Or.inl hn⟩
  · rcases List.mem_cons.mp hn with heq | hn
    · rw [(Prod.mk.inj heq).1]
      exact ⟨2 * s, by simp⟩
    · have := (spans_bounds hn).1
      dsimp only at this
      omega

/-! ## Finding a block -/

/-- What a round of `find_best` remembers that joins the two blocks ahead into one of the size
`s`. -/
def bestJoined (size s : ℕ) (m : Mem) (c : Cursor) : ℕ :=
  if size ≤ s ∧ (c.best = 0 ∨ s ≤ blockSize m c.best) then c.block else c.best

/-- What a round of `find_best` remembers that leaves the two blocks ahead as they are. -/
def bestPassed (size : ℕ) (b d : Block) (c : Cursor) : ℕ :=
  let best := if b.free ∧ size ≤ b.size ∧ (c.best = 0 ∨ b.size ≤ blockSize c.mem c.best)
    then c.block else c.best
  if d.free ∧ size ≤ d.size ∧ (best = 0 ∨ d.size < blockSize c.mem best) then c.tmp else best

/-- What one round of `find_best` does: it joins the two blocks ahead, or passes both, or passes the
first of them. -/
lemma findBestStep_cases {c : Cursor} {pre rest : List Block} {b d : Block} (size : ℕ)
    (ht : t < 2 ^ 64) (hm : Tiles c.mem a (pre ++ b :: d :: rest) t)
    (hpos : ∀ e ∈ pre ++ b :: d :: rest, 0 < e.size)
    (hfit : HeadersFit (pre ++ b :: d :: rest)) (hat : At a pre (b :: d :: rest) c.block c.tmp) :
    (∃ s, b = ⟨s, true⟩ ∧ d = ⟨s, true⟩ ∧
      (findBestStep t size c).mem = setSize c.mem (a + total pre) (2 * s) ∧
      Tiles (findBestStep t size c).mem a (pre ++ [⟨2 * s, true⟩] ++ rest) t ∧
      At a (pre ++ [⟨2 * s, true⟩]) rest (findBestStep t size c).block (findBestStep t size c).tmp ∧
      (findBestStep t size c).best = bestJoined size (2 * s) (findBestStep t size c).mem c) ∨
    (¬ (b.free ∧ d.free ∧ b.size = d.size) ∧ b.size ≤ d.size ∧ (findBestStep t size c).mem = c.mem ∧
      At a (pre ++ [b, d]) rest (findBestStep t size c).block (findBestStep t size c).tmp ∧
      (findBestStep t size c).best = bestPassed size b d c) ∨
    (¬ (b.free ∧ d.free ∧ b.size = d.size) ∧ ¬ b.size ≤ d.size ∧
      (findBestStep t size c).mem = c.mem ∧
      At a (pre ++ [b]) (d :: rest) (findBestStep t size c).block (findBestStep t size c).tmp ∧
      (findBestStep t size c).best = bestPassed size b d c) := by
  obtain ⟨hblock, htmp, hb, hd, hbmem, hdmem⟩ := hat.pair hpos
  obtain ⟨hbsize, hbfree⟩ := hm.read hbmem
  obtain ⟨hdsize, hdfree⟩ := hm.read hdmem
  have hend := hm.end_eq
  rw [findBestStep]
  simp only [hbsize, hbfree, hdsize, hdfree]
  split
  · rename_i hjoin
    obtain ⟨s, rfl, rfl⟩ := joined_eq hjoin
    obtain ⟨hroom, hm', hpos'⟩ := hat.joined hm ht hpos hfit
    have hread := (hm'.read (c := c.block) (b := ⟨2 * s, true⟩) (by simp [hblock])).1
    have hat' := at_next c.tmp hm' hpos' (hat.next_joined hm (by omega))
    rw [← hblock]
    exact .inl ⟨s, rfl, rfl, rfl, hm', hat', by simp only [hread, bestJoined]⟩
  · rename_i hjoin
    split
    · rename_i hle
      have hm' : Tiles c.mem a ((pre ++ [b, d]) ++ rest) t := by simpa using hm
      have hpos' : ∀ e ∈ (pre ++ [b, d]) ++ rest, 0 < e.size := by simpa using hpos
      exact .inr (.inl ⟨hjoin, hle, rfl, at_next c.tmp hm' hpos' (hat.next_two hm), rfl⟩)
    · rename_i hgt
      exact .inr (.inr ⟨hjoin, hgt, rfl, hat.one hm, rfl⟩)

/-- What holds during the search: the arena was rearranged, and the remembered block is
free and not ahead of the cursor.  `k` bounds the length of the range ahead. -/
def Seeking (a t : ℕ) (m : Mem) (bs : List Block) (k : ℕ) (c : Cursor) : Prop :=
  ∃ pre cur, Refit a t m bs c.mem (pre ++ cur) ∧ At a pre cur c.block c.tmp ∧
    (c.best ≠ 0 → FreeAt a (pre ++ cur) c.best ∧ c.best ≤ c.block) ∧ total cur ≤ k

lemma bestPassed_cases (size : ℕ) (b d : Block) (c : Cursor) :
    bestPassed size b d c = c.best ∨ (bestPassed size b d c = c.block ∧ b.free = true) ∨
      (bestPassed size b d c = c.tmp ∧ d.free = true) := by
  rw [bestPassed]
  split_ifs <;> simp_all

lemma findBestStep_seeking {k size : ℕ} {c : Cursor} {pre rest : List Block} {b d : Block}
    (h : Tiles m a bs t) (ht : t < 2 ^ 64)
    (hr : Refit a t m bs c.mem (pre ++ b :: d :: rest))
    (hat : At a pre (b :: d :: rest) c.block c.tmp)
    (hbest : c.best ≠ 0 → FreeAt a (pre ++ b :: d :: rest) c.best ∧ c.best ≤ c.block)
    (hk : total (b :: d :: rest) ≤ k) :
    ∃ k' < k, Seeking a t m bs k' (findBestStep t size c) := by
  have hpos := hr.powers.pos
  obtain ⟨hblock, htmp, hb, hd, hbmem, hdmem⟩ := hat.pair hpos
  simp only [total_cons] at hk
  -- a block that is passed may be remembered
  have hpassed : bestPassed size b d c ≠ 0 →
      FreeAt a (pre ++ b :: d :: rest) (bestPassed size b d c) ∧ bestPassed size b d c ≤ c.tmp := by
    intro hne
    rcases bestPassed_cases size b d c with heq | ⟨heq, hf⟩ | ⟨heq, hf⟩
    · rw [heq] at hne ⊢
      obtain ⟨hf, hle⟩ := hbest hne
      exact ⟨hf, by omega⟩
    · rw [heq]
      exact ⟨⟨b.size, by rw [← hf]; exact hbmem⟩, by omega⟩
    · rw [heq]
      exact ⟨⟨d.size, by rw [← hf]; exact hdmem⟩, le_rfl⟩
  rcases findBestStep_cases size ht hr.tiles hpos (.of_powers hr.powers (by norm_num)) hat with
    ⟨s, rfl, rfl, hmem, -, hat', hbest'⟩ | ⟨-, -, hmem, hat', hbest'⟩ | ⟨-, -, hmem, hat', hbest'⟩
  · have hr' := hr.trans h (hr.tiles.refit_join hr.powers ht)
    rw [← hmem, List.append_cons] at hr'
    have hstep := hat'.1
    rw [total_append] at hstep
    refine ⟨total rest, by omega, _, rest, hr', hat', fun hne => ?_, le_rfl⟩
    rw [hbest', bestJoined] at hne ⊢
    split at hne
    · rename_i hsel
      rw [if_pos hsel]
      exact ⟨⟨2 * s, by simp [hblock]⟩, by omega⟩
    · rename_i hsel
      rw [if_neg hsel]
      obtain ⟨hf, hle⟩ := hbest hne
      refine ⟨?_, by omega⟩
      rw [← List.append_cons]
      exact hf.join (by omega) hb
  · have hcur : pre ++ b :: d :: rest = pre ++ [b, d] ++ rest := by simp
    have hstep := hat'.1
    simp only [total_append, total_cons] at hstep
    rw [hcur] at hr hpassed
    rw [← hmem] at hr
    rw [← hbest'] at hpassed
    refine ⟨total rest, by omega, pre ++ [b, d], rest, hr, hat', fun hne => ?_, le_rfl⟩
    obtain ⟨hf, hle⟩ := hpassed hne
    exact ⟨hf, by omega⟩
  · have hstep := hat'.1
    simp only [total_append, total_cons, total_nil] at hstep
    rw [List.append_cons] at hr hpassed
    rw [← hmem] at hr
    rw [← hbest'] at hpassed
    refine ⟨total (d :: rest), by simp; omega, pre ++ [b], d :: rest, hr, hat', fun hne => ?_,
      le_rfl⟩
    obtain ⟨hf, hle⟩ := hpassed hne
    exact ⟨hf, by omega⟩

/-- `find_best` rearranges free blocks and returns null or a free block of exactly the
size asked for. -/
lemma findBest_meets {h : Heap} {j : ℕ} (htiles : Tiles m h.head bs h.tail)
    (hp : PowersFrom 5 bs) (hne : bs ≠ []) (ht : h.tail < 2 ^ 64) (hj : 5 ≤ j) (fuel : ℕ) :
    Meets (total bs < fuel) (findBest fuel h m (2 ^ j)) fun r =>
      ∃ bs', Refit h.head h.tail m bs r.2 bs' ∧
        (r.1 = 0 ∨ (r.1, ⟨2 ^ j, true⟩) ∈ spans h.head bs') := by
  rw [findBest, if_neg (by positivity)]
  obtain ⟨b, rest, rfl⟩ := List.exists_cons_of_ne_nil hne
  have hbmem : (h.head, b) ∈ spans h.head (b :: rest) := by simp
  split
  · -- a single free block
    rename_i hsingle
    obtain ⟨s, rfl⟩ : ∃ s, b = ⟨s, true⟩ := ⟨b.size, by
      rw [← hsingle.2, (htiles.read hbmem).2]⟩
    have hs : Meets (s < fuel) (split fuel m (h.head + total []) (2 ^ j)) _ :=
      split_meets htiles hp ht hj fuel
    refine Meets.of_imp (by simpa using hs) fun hf => ?_
    simp at hf
    omega
  · refine Meets.bind (Q := fun c => ∃ k, Seeking h.head h.tail m (b :: rest) k c) ?_ ?_
    · refine Meets.of_imp (loop_meets True (Seeking h.head h.tail m (b :: rest))
        ?_ fuel (total (b :: rest)) _ ?_) fun hf => ⟨trivial, hf⟩
      · rintro k c ⟨pre, cur, hr, hat, hbest, hk⟩
        have hahead := hat.ahead hr.tiles hr.powers.pos
        split
        · rename_i hgo
          obtain ⟨b', d', rest', rfl⟩ := hahead.mp hgo
          exact Meets.pure (findBestStep_seeking htiles ht hr hat hbest hk)
        · exact Meets.pure ⟨k, pre, cur, hr, hat, hbest, hk⟩
      · exact ⟨[], b :: rest, Refit.refl htiles hp, at_start htiles, by simp, le_rfl⟩
    · rintro c ⟨k, pre, cur, hr, hat, hbest, -⟩
      split
      · rename_i hne'
        obtain ⟨⟨n, hn⟩, -⟩ := hbest hne'
        obtain ⟨pre', post', heq, hc⟩ := mem_spans_iff.mp hn
        rw [heq] at hr
        have htot := hr.tiles.end_eq
        have htot' := htiles.end_eq
        rw [hc]
        refine Meets.of_imp ((split_meets hr.tiles hr.powers ht hj fuel).mono ?_) fun hf => ?_
        · rintro r ⟨bs', hr', hres⟩
          exact ⟨bs', hr.trans htiles hr', hres⟩
        · rw [total_append, total_cons] at htot
          dsimp only at htot
          omega
      · exact Meets.pure ⟨_, hr, Or.inl rfl⟩

/-! ## Coalescing -/

/-- What holds during a sweep of `coalescence`. -/
def Sweeping (a t : ℕ) (m : Mem) (bs : List Block) (k : ℕ) (c : Sweep) : Prop :=
  ∃ pre cur, Refit a t m bs c.mem (pre ++ cur) ∧ At a pre cur c.block c.tmp ∧
    (pre ++ cur).length ≤ bs.length ∧
    (c.noCoalescence = false → (pre ++ cur).length < bs.length) ∧ total cur ≤ k

lemma total_pos_iff (hp : ∀ b ∈ bs, 0 < b.size) : 0 < total bs ↔ bs ≠ [] := by
  cases bs with
  | nil => simp
  | cons b bs =>
    have := hp b (by simp)
    simp
    omega

/-- What one round of a sweep does: it joins the two blocks ahead, or passes the first of them, or
passes both.  The flag is cleared by a join with blocks behind it. -/
lemma sweepStep_cases {c : Sweep} {pre rest : List Block} {b d : Block} (ht : t < 2 ^ 64)
    (hm : Tiles c.mem a (pre ++ b :: d :: rest) t) (hpos : ∀ e ∈ pre ++ b :: d :: rest, 0 < e.size)
    (hfit : HeadersFit (pre ++ b :: d :: rest)) (hat : At a pre (b :: d :: rest) c.block c.tmp) :
    (∃ s, b = ⟨s, true⟩ ∧ d = ⟨s, true⟩ ∧
      (sweepStep t c).mem = setSize c.mem (a + total pre) (2 * s) ∧
      Tiles (sweepStep t c).mem a (pre ++ [⟨2 * s, true⟩] ++ rest) t ∧
      At a (pre ++ [⟨2 * s, true⟩]) rest (sweepStep t c).block (sweepStep t c).tmp ∧
      (sweepStep t c).noCoalescence = (if rest = [] then c.noCoalescence else false)) ∨
    (¬ (b.free ∧ d.free ∧ b.size = d.size) ∧ b.size < d.size ∧ (sweepStep t c).mem = c.mem ∧
      At a (pre ++ [b]) (d :: rest) (sweepStep t c).block (sweepStep t c).tmp ∧
      (sweepStep t c).noCoalescence = c.noCoalescence) ∨
    (¬ (b.free ∧ d.free ∧ b.size = d.size) ∧ ¬ b.size < d.size ∧ (sweepStep t c).mem = c.mem ∧
      At a (pre ++ [b, d]) rest (sweepStep t c).block (sweepStep t c).tmp ∧
      (sweepStep t c).noCoalescence = c.noCoalescence) := by
  obtain ⟨hblock, htmp, hb, hd, hbmem, hdmem⟩ := hat.pair hpos
  obtain ⟨hbsize, hbfree⟩ := hm.read hbmem
  obtain ⟨hdsize, hdfree⟩ := hm.read hdmem
  have hend := hm.end_eq
  rw [sweepStep]
  simp only [hbsize, hbfree, hdsize, hdfree]
  split
  · rename_i hjoin
    obtain ⟨s, rfl, rfl⟩ := joined_eq hjoin
    obtain ⟨-, hm', hpos'⟩ := hat.joined hm ht hpos hfit
    have hnext : next (setSize c.mem c.block (2 * s)) c.block = a + total
        (pre ++ [⟨2 * s, true⟩]) := by
      rw [← List.append_cons] at hm'
      exact hm'.next_block hblock
    have hat' := at_next c.tmp hm' hpos' hnext
    simp only [total_append, total_cons] at hend
    -- the walk goes on exactly if there are blocks behind
    have hbehind : a + total (pre ++ [⟨2 * s, true⟩]) < t ↔ rest ≠ [] := by
      have hrest : 0 < total rest ↔ rest ≠ [] := total_pos_iff fun e he => hpos' e (by simp [he])
      rw [← hrest]
      simp
      omega
    rw [hnext] at hat' ⊢
    rw [← hblock]
    refine .inl ⟨s, rfl, rfl, ?_⟩
    by_cases hnil : rest = []
    · have hstop := hbehind.not.mpr (not_not.mpr hnil)
      rw [if_neg hstop] at hat' ⊢
      exact ⟨rfl, hm', hat', by rw [if_pos hnil]⟩
    · rw [if_pos (hbehind.mpr hnil)] at hat' ⊢
      exact ⟨rfl, hm', hat', by rw [if_neg hnil]⟩
  · rename_i hjoin
    split
    · rename_i hlt
      exact .inr (.inl ⟨hjoin, hlt, rfl, hat.one hm, rfl⟩)
    · rename_i hge
      have hm' : Tiles c.mem a ((pre ++ [b, d]) ++ rest) t := by simpa using hm
      have hpos' : ∀ e ∈ (pre ++ [b, d]) ++ rest, 0 < e.size := by simpa using hpos
      exact .inr (.inr ⟨hjoin, hge, rfl, at_next c.tmp hm' hpos' (hat.next_two hm), rfl⟩)

lemma sweepStep_sweeping {k : ℕ} {c : Sweep} {pre rest : List Block} {b d : Block}
    (h : Tiles m a bs t) (ht : t < 2 ^ 64)
    (hr : Refit a t m bs c.mem (pre ++ b :: d :: rest))
    (hat : At a pre (b :: d :: rest) c.block c.tmp)
    (hlen : (pre ++ b :: d :: rest).length ≤ bs.length)
    (hno : c.noCoalescence = false → (pre ++ b :: d :: rest).length < bs.length)
    (hk : total (b :: d :: rest) ≤ k) :
    ∃ k' < k, Sweeping a t m bs k' (sweepStep t c) := by
  have hpos := hr.powers.pos
  have hb := hpos b (by simp)
  have hd := hpos d (by simp)
  simp only [total_cons] at hk
  rcases sweepStep_cases ht hr.tiles hpos (.of_powers hr.powers (by norm_num)) hat with
    ⟨s, rfl, rfl, hmem, -, hat', -⟩ | ⟨-, -, hmem, hat', hflag⟩ | ⟨-, -, hmem, hat', hflag⟩
  · -- a join makes the tiling shorter
    have hr' := hr.trans h (hr.tiles.refit_join hr.powers ht)
    rw [← hmem, List.append_cons] at hr'
    have hlen' : (pre ++ [(⟨2 * s, true⟩ : Block)] ++ rest).length < bs.length := by
      simp at hlen ⊢
      omega
    exact ⟨total rest, by omega, _, rest, hr', hat', hlen'.le, fun _ => hlen', le_rfl⟩
  · rw [List.append_cons] at hr hlen hno
    rw [← hmem] at hr
    rw [← hflag] at hno
    exact ⟨total (d :: rest), by simp; omega, pre ++ [b], d :: rest, hr, hat', hlen, hno, le_rfl⟩
  · have hcur : pre ++ b :: d :: rest = pre ++ [b, d] ++ rest := by simp
    rw [hcur] at hr hlen hno
    rw [← hmem] at hr
    rw [← hflag] at hno
    exact ⟨total rest, by omega, pre ++ [b, d], rest, hr, hat', hlen, hno, le_rfl⟩

/-- A sweep rearranges free blocks, and reports a join only if the tiling got shorter. -/
lemma sweep_meets {h : Heap} (htiles : Tiles m h.head bs h.tail) (hp : PowersFrom 5 bs)
    (hne : bs ≠ []) (ht : h.tail < 2 ^ 64) (fuel : ℕ) :
    Meets (total bs < fuel) (sweep fuel h m) fun c =>
      ∃ bs', Refit h.head h.tail m bs c.mem bs' ∧ bs' ≠ [] ∧
        (c.noCoalescence = false → bs'.length < bs.length) := by
  obtain ⟨b, rest, rfl⟩ := List.exists_cons_of_ne_nil hne
  rw [sweep]
  refine Meets.of_imp (Meets.mono (loop_meets True (Sweeping h.head h.tail m (b :: rest))
    (Q := fun c => ∃ k, Sweeping h.head h.tail m (b :: rest) k c) ?_ fuel (total (b :: rest)) _ ?_)
    ?_) fun hf => ⟨trivial, hf⟩
  · rintro k c ⟨pre, cur, hr, hat, hlen, hno, hk⟩
    have hahead := hat.ahead hr.tiles hr.powers.pos
    split
    · rename_i hgo
      obtain ⟨b', d', rest', rfl⟩ := hahead.mp hgo
      exact Meets.pure (sweepStep_sweeping htiles ht hr hat hlen hno hk)
    · exact Meets.pure ⟨k, pre, cur, hr, hat, hlen, hno, hk⟩
  · exact ⟨[], b :: rest, Refit.refl htiles hp, at_start htiles, le_rfl, by simp, le_rfl⟩
  · rintro c ⟨k, pre, cur, hr, -, -, hno, -⟩
    refine ⟨pre ++ cur, hr, ?_, hno⟩
    intro hnil
    have h₁ := hr.tiles.end_eq
    have h₂ := htiles.end_eq
    have h₃ := hp.pos b (by simp)
    rw [hnil, total_nil] at h₁
    rw [total_cons] at h₂
    omega

lemma length_le_total (hp : ∀ b ∈ bs, 0 < b.size) : bs.length ≤ total bs := by
  induction bs with
  | nil => simp
  | cons b bs ih =>
    have := hp b (by simp)
    have := ih fun b hb => hp b (by simp [hb])
    simp
    omega

/-- `coalescence` rearranges free blocks, and it ends: every sweep that is followed by
another one shortened the tiling. -/
lemma coalescence_meets {h : Heap} (htiles : Tiles m h.head bs h.tail) (hp : PowersFrom 5 bs)
    (hne : bs ≠ []) (ht : h.tail < 2 ^ 64) (fuel : ℕ) :
    Meets (total bs < fuel) (coalescence fuel h m) fun m' =>
      ∃ bs', Refit h.head h.tail m bs m' bs' ∧ bs' ≠ [] := by
  rw [coalescence]
  have htot := htiles.end_eq
  refine Meets.of_imp (loop_meets (total bs < fuel)
    (fun k m' => ∃ bs', Refit h.head h.tail m bs m' bs' ∧ bs' ≠ [] ∧ bs'.length ≤ k)
    ?_ fuel bs.length m ⟨bs, Refit.refl htiles hp, hne, le_rfl⟩) fun hf =>
      ⟨hf, by have := length_le_total hp.pos; omega⟩
  rintro k m₁ ⟨bs₁, hr₁, hne₁, hk⟩
  have htot₁ := hr₁.tiles.end_eq
  have hbound : total bs < fuel → total bs₁ < fuel := fun hf => by omega
  refine Meets.map (Meets.of_imp (sweep_meets hr₁.tiles hr₁.powers hne₁ ht fuel) hbound) ?_
  rintro c ⟨bs₂, hr₂, hne₂, hno⟩
  have hr := hr₁.trans htiles hr₂
  cases hq : c.noCoalescence with
  | true => exact ⟨bs₂, hr, hne₂⟩
  | false =>
    have := hno hq
    exact ⟨bs₂.length, by omega, bs₂, hr, hne₂, le_rfl⟩

lemma find_meets {h : Heap} {j : ℕ} (htiles : Tiles m h.head bs h.tail) (hp : PowersFrom 5 bs)
    (hne : bs ≠ []) (ht : h.tail < 2 ^ 64) (hj : 5 ≤ j) (fuel : ℕ) :
    Meets (total bs < fuel) (find fuel h m (2 ^ j)) fun r =>
      ∃ bs', Refit h.head h.tail m bs r.2 bs' ∧
        (r.1 = 0 ∨ (r.1, ⟨2 ^ j, true⟩) ∈ spans h.head bs') := by
  rw [find]
  have htot := htiles.end_eq
  have hb := hp.pos
  refine Meets.bind (findBest_meets htiles hp hne ht hj fuel) ?_
  rintro r ⟨bs₁, hr₁, hres⟩
  have htot₁ := hr₁.tiles.end_eq
  split
  · have hne₁ : bs₁ ≠ [] := by
      rintro rfl
      obtain ⟨b, rest, rfl⟩ := List.exists_cons_of_ne_nil hne
      have := hb b (by simp)
      simp at htot htot₁
      omega
    refine Meets.bind (Meets.of_imp (coalescence_meets hr₁.tiles hr₁.powers hne₁ ht fuel)
      fun hf => by omega) ?_
    rintro m₂ ⟨bs₂, hr₂, hne₂⟩
    have hr := hr₁.trans htiles hr₂
    have htot₂ := hr.tiles.end_eq
    refine Meets.of_imp ((findBest_meets hr.tiles hr.powers hne₂ ht hj fuel).mono ?_)
      fun hf => by omega
    rintro r' ⟨bs₃, hr₃, hres₃⟩
    exact ⟨bs₃, hr.trans htiles hr₃, hres₃⟩
  · exact Meets.pure ⟨bs₁, hr₁, hres⟩

end TurbOS.Heap
