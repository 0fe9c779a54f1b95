import TurbOS.Heap.Search

/-!
# The searches on layouts

`find_best` and `coalescence` read and write nothing but the headers of the arena.  Here they
are functions on the list of its blocks, and the searches of the heap are shown to do in
memory what these functions do to the list.

A block is remembered by its address and its size.  In `find_best` the remembered block may
be the left partner of the next join; then its size changes with it.
-/

open ByteMemory Tiling Fuel

namespace TurbOS.Heap

namespace Layout

/-- The loop of `find_best`, from the address `a` on. -/
def seek (size : ℕ) : Option (ℕ × ℕ) → ℕ → List Block → Option (ℕ × ℕ) × List Block
  | best, a, b :: d :: rest =>
    if b.free ∧ d.free ∧ b.size = d.size then
      let best := best.map fun r => if r.1 = a then (a, 2 * b.size) else r
      let best := if size ≤ 2 * b.size ∧ ∀ r ∈ best, 2 * b.size ≤ r.2 then some (a, 2 * b.size)
        else best
      let r := seek size best (a + 2 * b.size) rest
      (r.1, ⟨2 * b.size, true⟩ :: r.2)
    else
      let best := if b.free ∧ size ≤ b.size ∧ ∀ r ∈ best, b.size ≤ r.2 then some (a, b.size)
        else best
      let best := if d.free ∧ size ≤ d.size ∧ ∀ r ∈ best, d.size < r.2
        then some (a + b.size, d.size) else best
      if b.size ≤ d.size then
        let r := seek size best (a + b.size + d.size) rest
        (r.1, b :: d :: r.2)
      else
        let r := seek size best (a + b.size) (d :: rest)
        (r.1, b :: r.2)
  | best, _, bs => (best, bs)

/-- The blocks into which `split` cuts a free block of the size `n`; the last one has the size
asked for. -/
def cut : ℕ → ℕ → ℕ → List Block
  | 0, _, n => [⟨n, true⟩]
  | fuel + 1, size, n =>
    if size < n then ⟨n / 2, true⟩ :: cut fuel size (n / 2) else [⟨n, true⟩]

/-- `split` on the block at the address `c`. -/
def split (size c : ℕ) : ℕ → List Block → ℕ × List Block
  | _, [] => (0, [])
  | a, b :: bs =>
    if a = c then (if size ≤ b.size then a + (b.size - size) else 0, cut b.size size b.size ++ bs)
    else
      let r := split size c (a + b.size) bs
      (r.1, b :: r.2)

/-- `find_best`: the address of the block that was found, or `0`. -/
def findBest (size a : ℕ) (bs : List Block) : ℕ × List Block :=
  if bs = [⟨total bs, true⟩] then split size a a bs
  else
    match seek size none a bs with
    | (none, bs) => (0, bs)
    | (some r, bs) => split size r.1 a bs

/-- The inner loop of `coalescence`; the flag is `no_coalescence`. -/
def sweep : Bool → List Block → Bool × List Block
  | flag, b :: d :: rest =>
    if b.free ∧ d.free ∧ b.size = d.size then
      let r := sweep (if rest = [] then flag else false) rest
      (r.1, ⟨2 * b.size, true⟩ :: r.2)
    else if b.size < d.size then
      let r := sweep flag (d :: rest)
      (r.1, b :: r.2)
    else
      let r := sweep flag rest
      (r.1, b :: d :: r.2)
  | flag, bs => (flag, bs)

/-- `coalescence`, with a bound on the number of sweeps. -/
def coalescence : ℕ → List Block → List Block
  | 0, bs => bs
  | n + 1, bs => if (sweep true bs).1 then (sweep true bs).2 else coalescence n (sweep true bs).2

/-- The search of `malloc`. -/
def find (size a : ℕ) (bs : List Block) : ℕ × List Block :=
  let r := findBest size a bs
  if r.1 = 0 then findBest size a (coalescence r.2.length r.2) else r

end Layout

variable {m : Mem} {a t : ℕ} {bs : List Block}

/-! ## The remembered block -/

/-- The variable `best_block` holds the address of the remembered block. -/
def Remembers (a : ℕ) (bs : List Block) (best : Option (ℕ × ℕ)) (c : ℕ) : Prop :=
  best.elim (c = 0) fun r => c = r.1 ∧ r.1 ≠ 0 ∧ (r.1, ⟨r.2, true⟩) ∈ spans a bs

/-- What is asked about the size of the remembered block. -/
lemma Remembers.iff {best : Option (ℕ × ℕ)} {c : ℕ} (h : Remembers a bs best c)
    (hm : Tiles m a bs t) (P : ℕ → Prop) :
    (c = 0 ∨ P (blockSize m c)) ↔ ∀ r ∈ best, P r.2 := by
  cases best with
  | none =>
    have hc : c = 0 := h
    simp [hc]
  | some r =>
    obtain ⟨rfl, hne, hmem⟩ := h
    have hsize := (hm.read hmem).1
    dsimp only at hsize
    simp [hne, hsize]

/-- A free block is remembered if a condition holds. -/
lemma Remembers.ite {best : Option (ℕ × ℕ)} {c x s : ℕ} {p q : Prop} [Decidable p] [Decidable q]
    (hiff : p ↔ q) (h : Remembers a bs best c)
    (hx : q → x ≠ 0 ∧ (x, ⟨s, true⟩) ∈ spans a bs) :
    Remembers a bs (if q then some (x, s) else best) (if p then x else c) := by
  by_cases hq : q
  · rw [if_pos hq, if_pos (hiff.mpr hq)]
    exact ⟨rfl, hx hq⟩
  · rw [if_neg hq, if_neg (hiff.not.mpr hq)]
    exact h

lemma forall_mem_ite {best : Option (ℕ × ℕ)} {x : ℕ × ℕ} {q : Prop} [Decidable q]
    {P : ℕ × ℕ → Prop} (hbest : ∀ r ∈ best, P r) (hx : P x) :
    ∀ r ∈ (if q then some x else best), P r := by
  intro r hr
  split at hr
  · rwa [← Option.some.inj hr]
  · exact hbest r hr

/-- After a join the remembered block is the same, or it is the block that grew. -/
lemma Remembers.join {best : Option (ℕ × ℕ)} {pre post : List Block} {s c : ℕ}
    (h : Remembers a (pre ++ ⟨s, true⟩ :: ⟨s, true⟩ :: post) best c)
    (hle : ∀ r ∈ best, r.1 ≤ a + total pre) :
    Remembers a (pre ++ ⟨2 * s, true⟩ :: post)
      (best.map fun r => if r.1 = a + total pre then (a + total pre, 2 * s) else r) c := by
  cases best with
  | none => exact h
  | some r =>
    obtain ⟨rfl, hne, hmem⟩ := h
    have hle := hle r rfl
    rw [Option.map_some]
    by_cases hr : r.1 = a + total pre
    · rw [if_pos hr]
      exact ⟨hr, hr ▸ hne, by simp⟩
    · rw [if_neg hr]
      refine ⟨rfl, hne, ?_⟩
      rw [spans_append, List.mem_append] at hmem ⊢
      rcases hmem with hmem | hmem
      · exact .inl hmem
      · have hge := (spans_bounds hmem).1
        omega

/-! ## `find_best` -/

/-- The loop has reached the blocks `cur`; what it still has to do leads to the result. -/
def Seeks (a t size : ℕ) (result : Option (ℕ × ℕ) × List Block) (k : ℕ) (c : Cursor) : Prop :=
  ∃ pre cur best, Tiles c.mem a (pre ++ cur) t ∧ PowersFrom 4 (pre ++ cur) ∧
    At a pre cur c.block c.tmp ∧ Remembers a (pre ++ cur) best c.best ∧
    (∀ r ∈ best, r.1 ≤ c.block) ∧
    result = ((Layout.seek size best (a + total pre) cur).1,
      pre ++ (Layout.seek size best (a + total pre) cur).2) ∧
    total cur ≤ k

/-- What the loop remembers when it joins the two blocks at `x` into one of the size `s`. -/
def Layout.bestJoined (size s x : ℕ) (best : Option (ℕ × ℕ)) : Option (ℕ × ℕ) :=
  let best := best.map fun r => if r.1 = x then (x, s) else r
  if size ≤ s ∧ ∀ r ∈ best, s ≤ r.2 then some (x, s) else best

/-- What the loop remembers when it leaves the two blocks at `x` as they are. -/
def Layout.bestPassed (size : ℕ) (b d : Block) (x : ℕ) (best : Option (ℕ × ℕ)) : Option (ℕ × ℕ) :=
  let best := if b.free ∧ size ≤ b.size ∧ ∀ r ∈ best, b.size ≤ r.2 then some (x, b.size) else best
  if d.free ∧ size ≤ d.size ∧ ∀ r ∈ best, d.size < r.2 then some (x + b.size, d.size) else best

/-- A round that joins two blocks remembers the same in memory and in the list. -/
lemma Remembers.joined {best : Option (ℕ × ℕ)} {pre rest : List Block} {c : Cursor} {m : Mem}
    {s : ℕ} (size : ℕ) (h : Remembers a (pre ++ ⟨s, true⟩ :: ⟨s, true⟩ :: rest) best c.best)
    (hblock : c.block = a + total pre) (hne : c.block ≠ 0) (hle : ∀ r ∈ best, r.1 ≤ c.block)
    (hm : Tiles m a (pre ++ ⟨2 * s, true⟩ :: rest) t) :
    Remembers a (pre ++ ⟨2 * s, true⟩ :: rest) (Layout.bestJoined size (2 * s) c.block best)
      (bestJoined size (2 * s) m c) := by
  have h' := h.join (by rw [← hblock]; exact hle)
  rw [← hblock] at h'
  exact h'.ite (and_congr Iff.rfl (h'.iff hm (2 * s ≤ ·))) fun _ => ⟨hne, by simp [hblock]⟩

/-- A round that passes two blocks remembers the same in memory and in the list. -/
lemma Remembers.passed {best : Option (ℕ × ℕ)} {c : Cursor} {b d : Block} (size : ℕ)
    (h : Remembers a bs best c.best) (hm : Tiles c.mem a bs t) (hne : c.block ≠ 0)
    (htmp : c.tmp = c.block + b.size) (hb : (c.block, b) ∈ spans a bs)
    (hd : (c.tmp, d) ∈ spans a bs) :
    Remembers a bs (Layout.bestPassed size b d c.block best) (bestPassed size b d c) := by
  have h₁ := h.ite (x := c.block) (s := b.size)
    (and_congr_right fun _ => and_congr_right fun _ => h.iff hm (b.size ≤ ·))
    fun (hq : b.free = true ∧ size ≤ b.size ∧ _) => ⟨hne, by rw [← hq.1]; exact hb⟩
  have h₂ := h₁.ite (x := c.tmp) (s := d.size)
    (and_congr_right fun _ => and_congr_right fun _ => h₁.iff hm (d.size < ·))
    fun (hq : d.free = true ∧ size ≤ d.size ∧ _) => ⟨by omega, by rw [← hq.1]; exact hd⟩
  rw [htmp] at h₂
  rw [bestPassed, htmp]
  exact h₂

/-- One round of the loop. -/
lemma findBestStep_seeks {result : Option (ℕ × ℕ) × List Block} {k size : ℕ} {c : Cursor}
    {pre rest : List Block} {b d : Block} {best : Option (ℕ × ℕ)} (ht : t < 2 ^ 64) (ha : a ≠ 0)
    (hm : Tiles c.mem a (pre ++ b :: d :: rest) t) (hp : PowersFrom 4 (pre ++ b :: d :: rest))
    (hat : At a pre (b :: d :: rest) c.block c.tmp)
    (hbest : Remembers a (pre ++ b :: d :: rest) best c.best)
    (hle : ∀ r ∈ best, r.1 ≤ c.block)
    (hres : result = ((Layout.seek size best (a + total pre) (b :: d :: rest)).1,
      pre ++ (Layout.seek size best (a + total pre) (b :: d :: rest)).2))
    (hk : total (b :: d :: rest) ≤ k) :
    ∃ k' < k, Seeks a t size result k' (findBestStep t size c) := by
  obtain ⟨hblock, htmp, hb, hd, hbmem, hdmem⟩ := hat.pair hp.pos
  simp only [total_cons] at hk
  have hpassed := hbest.passed size hm (by omega) htmp hbmem hdmem
  have hle₂ : ∀ r ∈ Layout.bestPassed size b d c.block best, r.1 ≤ c.tmp :=
    forall_mem_ite (forall_mem_ite (fun r hr => by have := hle r hr; omega) (by dsimp only; omega))
      (by dsimp only; omega)
  rw [Layout.seek, ← hblock] at hres
  rcases findBestStep_cases size ht hm hp.pos (.of_powers hp le_rfl) hat with
    ⟨s, rfl, rfl, -, hm', hat', hbest'⟩ | ⟨hjoin, hsizes, hmem, hat', hbest'⟩ |
      ⟨hjoin, hsizes, hmem, hat', hbest'⟩
  · rw [if_pos (by simp)] at hres
    have hstep := hat'.1
    simp only [total_append, total_cons, total_nil] at hstep
    have hp' := hp.merges (.single (Merge.mk pre s rest))
    have hjoined := hbest.joined size hblock (by omega) hle (by rwa [List.append_cons])
    rw [← hbest', List.append_cons] at hjoined
    rw [List.append_cons] at hp'
    refine ⟨total rest, by omega, pre ++ [⟨2 * s, true⟩], rest, _, hm', hp', hat', hjoined, ?_, ?_,
      le_rfl⟩
    · refine forall_mem_ite (fun r hr => ?_) (by dsimp only; omega)
      obtain ⟨r', hr', rfl⟩ := Option.map_eq_some_iff.mp hr
      have := hle r' hr'
      split
      · dsimp only
        omega
      · omega
    · rw [hres, ← hat'.1, hstep, hblock, Layout.bestJoined]
      simp [Nat.add_assoc]
  · rw [if_neg hjoin, if_pos hsizes] at hres
    have hcur : pre ++ b :: d :: rest = pre ++ [b, d] ++ rest := by simp
    have hstep := hat'.1
    simp only [total_append, total_cons, total_nil] at hstep
    rw [hcur] at hm hp hpassed
    rw [← hmem] at hm
    rw [← hbest'] at hpassed
    refine ⟨total rest, by omega, pre ++ [b, d], rest, _, hm, hp, hat', hpassed, fun r hr => ?_, ?_,
      le_rfl⟩
    · have := hle₂ r hr
      omega
    · rw [hres, ← hat'.1, hstep, hblock, Layout.bestPassed]
      simp [Nat.add_assoc]
  · rw [if_neg hjoin, if_neg hsizes] at hres
    have hstep := hat'.1
    simp only [total_append, total_cons, total_nil] at hstep
    rw [List.append_cons] at hm hp hpassed
    rw [← hmem] at hm
    rw [← hbest'] at hpassed
    refine ⟨total (d :: rest), by simp; omega, pre ++ [b], d :: rest, _, hm, hp, hat', hpassed,
      fun r hr => ?_, ?_, le_rfl⟩
    · have := hle₂ r hr
      omega
    · rw [hres, ← hat'.1, hstep, hblock, Layout.bestPassed]
      simp [Nat.add_assoc]

/-- The loop only joins blocks. -/
lemma Layout.seek_merges (size : ℕ) (best : Option (ℕ × ℕ)) (a : ℕ) (bs : List Block) :
    Merges bs (Layout.seek size best a bs).2 := by
  fun_induction Layout.seek size best a bs with
  | case1 best a b d rest hjoin best₁ best₂ r ih =>
    obtain ⟨s, rfl, rfl⟩ := joined_eq hjoin
    exact .head (Merge.mk [] s rest) (ih.cons _)
  | case2 best a b d rest hjoin best₁ best₂ hle r ih => exact (ih.cons d).cons b
  | case3 best a b d rest hjoin best₁ best₂ hle r ih => exact ih.cons b
  | case4 best a bs hbs => exact .refl

/-! ## `split` -/

lemma Layout.split_append {pre post : List Block} {b : Block} (size : ℕ)
    (hpos : ∀ b ∈ pre, 0 < b.size) :
    Layout.split size (a + total pre) a (pre ++ b :: post) =
      (if size ≤ b.size then a + total pre + (b.size - size) else 0,
        pre ++ (Layout.cut b.size size b.size ++ post)) := by
  induction pre generalizing a with
  | nil => simp [Layout.split]
  | cons d pre ih =>
    have hd := hpos d (by simp)
    have hih := ih (a := a + d.size) fun b hb => hpos b (by simp [hb])
    rw [List.cons_append, Layout.split, if_neg (by simp; omega), total_cons, ← Nat.add_assoc, hih]
    rfl

/-- `split` cuts the block in memory as it does in the list. -/
lemma split_layout {pre post : List Block} {n j : ℕ} (hm : Tiles m a (pre ++ ⟨n, true⟩ :: post) t)
    (hp : PowersFrom 4 (pre ++ ⟨n, true⟩ :: post)) (ht : t < 2 ^ 64) (ha : a ≠ 0) (hj : 4 ≤ j)
    (fuel : ℕ) :
    Meets (n < fuel) (split fuel m (a + total pre) (2 ^ j)) fun r =>
      r.1 = (Layout.split (2 ^ j) (a + total pre) a (pre ++ ⟨n, true⟩ :: post)).1 ∧
        Tiles r.2 a (Layout.split (2 ^ j) (a + total pre) a (pre ++ ⟨n, true⟩ :: post)).2 t ∧
        PowersFrom 4 (Layout.split (2 ^ j) (a + total pre) a (pre ++ ⟨n, true⟩ :: post)).2 := by
  rw [Layout.split_append (2 ^ j) fun b hb => hp.pos b (by simp [hb]), split,
    if_pos ⟨by omega, by positivity⟩]
  dsimp only
  -- the block in hand has the size `n'`; what is cut off it leads to the result
  let Holds (k : ℕ) (c : Mem × ℕ) : Prop := ∃ pre' n' f,
    Tiles c.1 a (pre' ++ ⟨n', true⟩ :: post) t ∧ PowersFrom 4 (pre' ++ ⟨n', true⟩ :: post) ∧
      c.2 = a + total pre' ∧ n' ≤ f ∧
      pre' ++ (Layout.cut f (2 ^ j) n' ++ post) = pre ++ (Layout.cut n (2 ^ j) n ++ post) ∧
      total pre' + n' = total pre + n ∧ (2 ^ j ≤ n ↔ 2 ^ j ≤ n') ∧ n' ≤ k
  refine Meets.of_imp (Meets.map (Q := Holds (2 ^ j)) (loop_meets True Holds ?step fuel n _
    ⟨pre, n, n, hm, hp, rfl, le_rfl, rfl, rfl, Iff.rfl, le_rfl⟩) ?done)
    fun hf => ⟨trivial, hf⟩
  case done =>
    rintro c ⟨pre', n', f, hm', hp', hblock, hf, hlist, htotal, hfits, hle⟩
    have hsize := (hm'.read (c := a + total pre') (b := ⟨n', true⟩) (by simp)).1
    have hcut : Layout.cut f (2 ^ j) n' = [⟨n', true⟩] := by
      cases f with
      | zero => rfl
      | succ f => rw [Layout.cut, if_neg (by omega)]
    dsimp only at hsize
    rw [hcut, List.singleton_append] at hlist
    rw [hblock, hsize, ← hlist]
    refine ⟨?_, hm', hp'⟩
    by_cases hn : 2 ^ j ≤ n
    · have := hfits.mp hn
      rw [if_pos hn, if_pos this]
      omega
    · rw [if_neg hn, if_neg fun h => hn (hfits.mpr h)]
  case step =>
    rintro k ⟨m', block⟩ ⟨pre', n', f, hm', hp', hblock, hf, hlist, htotal, hfits, hk⟩
    dsimp only at hm' hblock
    subst hblock
    have hsize := (hm'.read (c := a + total pre') (b := ⟨n', true⟩) (by simp)).1
    dsimp only at hsize ⊢
    rw [hsize]
    split
    case isFalse hge =>
      exact Meets.pure ⟨pre', n', f, hm', hp', rfl, hf, hlist, htotal, hfits, by omega⟩
    case isTrue hlt =>
      obtain ⟨i, hi, hn'⟩ := hp' ⟨n', true⟩ (by simp)
      dsimp only at hn'
      obtain ⟨hji, hdouble⟩ := double_of_lt hn' hlt
      have hjs : 2 ^ j ≤ 2 ^ (i - 1) := Nat.pow_le_pow_right (by norm_num) (by omega)
      have h16 : 16 ≤ 2 ^ (i - 1) := by
        calc 16 = 2 ^ 4 := by norm_num
          _ ≤ 2 ^ (i - 1) := Nat.pow_le_pow_right (by norm_num) (by omega)
      have hend := hm'.end_eq
      simp only [total_append, total_cons] at hend
      rw [hdouble] at hm' hp'
      obtain ⟨hnext, htiles, -⟩ := hm'.halve (HeadersFit.of_powers hp' le_rfl).before (by omega)
        (by omega)
      have hpow := hp'.halve ⟨i - 1, (by omega : 4 ≤ i - 1), rfl⟩
      obtain ⟨f, rfl⟩ : ∃ f', f = f' + 1 := ⟨f - 1, by omega⟩
      rw [Layout.cut, if_pos hlt, hdouble, Nat.mul_div_cancel_left _ (by norm_num)] at hlist
      refine Meets.pure ⟨2 ^ (i - 1), by omega, pre' ++ [⟨2 ^ (i - 1), true⟩], 2 ^ (i - 1), f,
        by simpa using htiles, by simpa using hpow, by simp [hnext, Nat.add_assoc], by omega,
        by simpa using hlist, by simp; omega, iff_of_true (hfits.mpr (by omega)) hjs, le_rfl⟩

/-- The test at the beginning of `find_best`: there is only one block, and it is free. -/
lemma single_iff {b : Block} {rest : List Block} (hm : Tiles m a (b :: rest) t)
    (hp : PowersFrom 4 (b :: rest)) :
    (next m a = t ∧ blockFree m a = true) ↔ b :: rest = [⟨total (b :: rest), true⟩] := by
  have hbmem : (a, b) ∈ spans a (b :: rest) := by simp
  rw [hm.next_eq hbmem, (hm.read hbmem).2, hm.end_eq]
  constructor
  · rintro ⟨hnext, hfree⟩
    have hrest : rest = [] := by
      cases rest with
      | nil => rfl
      | cons d rest =>
        have := hp.pos d (by simp)
        simp at hnext
        omega
    subst hrest
    cases b
    simp_all
  · intro heq
    obtain ⟨hb, rfl⟩ := List.cons.inj heq
    rw [hb]
    simp

/-- `find_best` does in memory what it does to the list. -/
lemma findBest_layout {h : Heap} {j : ℕ} (hm : Tiles m h.head bs h.tail) (hp : PowersFrom 4 bs)
    (hne : bs ≠ []) (ht : h.tail < 2 ^ 64) (hhead : h.head ≠ 0) (hj : 4 ≤ j) (fuel : ℕ) :
    Meets (total bs < fuel) (findBest fuel h m (2 ^ j)) fun r =>
      r.1 = (Layout.findBest (2 ^ j) h.head bs).1 ∧
        Tiles r.2 h.head (Layout.findBest (2 ^ j) h.head bs).2 h.tail ∧
        PowersFrom 4 (Layout.findBest (2 ^ j) h.head bs).2 := by
  obtain ⟨b, rest, rfl⟩ := List.exists_cons_of_ne_nil hne
  have hsingle := single_iff hm hp
  have hend := hm.end_eq
  rw [findBest, if_neg (by positivity), Layout.findBest]
  split
  · -- a single free block
    rename_i hone
    have heq := hsingle.mp hone
    rw [if_pos heq]
    have hm' : Tiles m h.head ([] ++ ⟨total (b :: rest), true⟩ :: []) h.tail := by
      rw [List.nil_append, ← heq]
      exact hm
    have hs := split_layout hm' (by rw [List.nil_append, ← heq]; exact hp) ht hhead hj fuel
    rw [List.nil_append, ← heq] at hs
    exact hs
  · rename_i hone
    rw [if_neg (hsingle.not.mp hone)]
    refine Meets.bind (Q := fun c => ∃ k,
      Seeks h.head h.tail (2 ^ j) (Layout.seek (2 ^ j) none h.head (b :: rest)) k c ∧
        ¬ (c.block < h.tail ∧ c.tmp < h.tail)) ?_ ?_
    · refine Meets.of_imp (loop_meets True
        (Seeks h.head h.tail (2 ^ j) (Layout.seek (2 ^ j) none h.head (b :: rest)))
        ?_ fuel (total (b :: rest)) _ ?_) fun hf => ⟨trivial, hf⟩
      · rintro k c ⟨pre, cur, best, hm', hp', hat, hbest, hle, hres, hk⟩
        have hahead := hat.ahead hm' hp'.pos
        split
        · rename_i hgo
          obtain ⟨b', d', rest', rfl⟩ := hahead.mp hgo
          exact Meets.pure (findBestStep_seeks ht hhead hm' hp' hat hbest hle hres hk)
        · rename_i hstop
          exact Meets.pure ⟨k, ⟨pre, cur, best, hm', hp', hat, hbest, hle, hres, hk⟩, hstop⟩
      · exact ⟨[], b :: rest, none, hm, hp, at_start hm, rfl, by simp, by simp, le_rfl⟩
    · rintro c ⟨k, ⟨pre, cur, best, hm', hp', hat, hbest, hle, hres, hk⟩, hstop⟩
      -- fewer than two blocks are ahead
      have hcur : Layout.seek (2 ^ j) best (h.head + total pre) cur = (best, cur) := by
        rcases hat.short hm' hp'.pos hstop with rfl | ⟨b', rfl⟩ <;> rfl
      rw [hcur] at hres
      rw [hres]
      cases best with
      | none =>
        have hzero : c.best = 0 := hbest
        rw [if_neg (by simp [hzero])]
        exact Meets.pure ⟨rfl, hm', hp'⟩
      | some r =>
        obtain ⟨hc, hr, hmem⟩ := hbest
        rw [if_pos (by rw [hc]; exact hr), hc]
        obtain ⟨pre', post', heq, haddr⟩ := mem_spans_iff.mp hmem
        dsimp only
        rw [heq] at hm' hp' ⊢
        have hend' := hm'.end_eq
        rw [total_append, total_cons] at hend'
        dsimp only at hend'
        rw [haddr]
        exact Meets.of_imp (split_layout hm' hp' ht hhead hj fuel) fun hf => by omega

/-! ## `coalescence` -/

/-- The sweep has reached the blocks `cur`; what it still has to do leads to the result. -/
def Sweeps (a t : ℕ) (result : Bool × List Block) (k : ℕ) (c : Sweep) : Prop :=
  ∃ pre cur, Tiles c.mem a (pre ++ cur) t ∧ PowersFrom 4 (pre ++ cur) ∧
    At a pre cur c.block c.tmp ∧
    result = ((Layout.sweep c.noCoalescence cur).1, pre ++ (Layout.sweep c.noCoalescence cur).2) ∧
    total cur ≤ k

/-- One round of a sweep. -/
lemma sweepStep_sweeps {result : Bool × List Block} {k : ℕ} {c : Sweep} {pre rest : List Block}
    {b d : Block} (ht : t < 2 ^ 64) (hm : Tiles c.mem a (pre ++ b :: d :: rest) t)
    (hp : PowersFrom 4 (pre ++ b :: d :: rest)) (hat : At a pre (b :: d :: rest) c.block c.tmp)
    (hres : result = ((Layout.sweep c.noCoalescence (b :: d :: rest)).1,
      pre ++ (Layout.sweep c.noCoalescence (b :: d :: rest)).2))
    (hk : total (b :: d :: rest) ≤ k) : ∃ k' < k, Sweeps a t result k' (sweepStep t c) := by
  have hb := hp.pos b (by simp)
  have hd := hp.pos d (by simp)
  simp only [total_cons] at hk
  rw [Layout.sweep] at hres
  rcases sweepStep_cases ht hm hp.pos (.of_powers hp le_rfl) hat with
    ⟨s, rfl, rfl, -, hm', hat', hflag⟩ | ⟨hjoin, hlt, hmem, hat', hflag⟩ |
      ⟨hjoin, hge, hmem, hat', hflag⟩
  · have hp' := hp.merges (.single (Merge.mk pre s rest))
    rw [List.append_cons] at hp'
    rw [if_pos (by simp), ← hflag] at hres
    exact ⟨total rest, by omega, _, rest, hm', hp', hat', by rw [hres]; simp, le_rfl⟩
  · rw [if_neg hjoin, if_pos hlt, ← hflag] at hres
    exact ⟨total (d :: rest), by simp; omega, pre ++ [b], d :: rest, by simpa [hmem] using hm,
      by simpa using hp, hat', by rw [hres]; simp, le_rfl⟩
  · rw [if_neg hjoin, if_neg hge, ← hflag] at hres
    exact ⟨total rest, by omega, pre ++ [b, d], rest, by simpa [hmem] using hm, by simpa using hp,
      hat', by rw [hres]; simp, le_rfl⟩

/-- A sweep does in memory what it does to the list. -/
lemma sweep_layout {h : Heap} (hm : Tiles m h.head bs h.tail) (hp : PowersFrom 4 bs)
    (hne : bs ≠ []) (ht : h.tail < 2 ^ 64) (fuel : ℕ) :
    Meets (total bs < fuel) (sweep fuel h m) fun c =>
      c.noCoalescence = (Layout.sweep true bs).1 ∧
        Tiles c.mem h.head (Layout.sweep true bs).2 h.tail ∧
        PowersFrom 4 (Layout.sweep true bs).2 := by
  obtain ⟨b, rest, rfl⟩ := List.exists_cons_of_ne_nil hne
  rw [sweep]
  refine Meets.of_imp (Meets.mono (loop_meets True
    (Sweeps h.head h.tail (Layout.sweep true (b :: rest)))
    (Q := fun c => ∃ k, Sweeps h.head h.tail (Layout.sweep true (b :: rest)) k c ∧
      ¬ (c.block < h.tail ∧ c.tmp < h.tail)) ?_ fuel (total (b :: rest)) _ ?_) ?_)
    fun hf => ⟨trivial, hf⟩
  · rintro k c ⟨pre, cur, hm', hp', hat, hres, hk⟩
    have hahead := hat.ahead hm' hp'.pos
    split
    · rename_i hgo
      obtain ⟨b', d', rest', rfl⟩ := hahead.mp hgo
      exact Meets.pure (sweepStep_sweeps ht hm' hp' hat hres hk)
    · rename_i hstop
      exact Meets.pure ⟨k, ⟨pre, cur, hm', hp', hat, hres, hk⟩, hstop⟩
  · exact ⟨[], b :: rest, hm, hp, at_start hm, by simp, le_rfl⟩
  · rintro c ⟨k, ⟨pre, cur, hm', hp', hat, hres, hk⟩, hstop⟩
    have hcur : Layout.sweep c.noCoalescence cur = (c.noCoalescence, cur) := by
      rcases hat.short hm' hp'.pos hstop with rfl | ⟨b', rfl⟩ <;> rfl
    rw [hcur] at hres
    rw [hres]
    exact ⟨rfl, hm', hp'⟩

/-- A sweep only joins blocks. -/
lemma Layout.sweep_merges (flag : Bool) (bs : List Block) : Merges bs (Layout.sweep flag bs).2 := by
  fun_induction Layout.sweep flag bs with
  | case1 flag b d rest hjoin r ih =>
    obtain ⟨s, rfl, rfl⟩ := joined_eq hjoin
    exact .head (Merge.mk [] s rest) (ih.cons _)
  | case2 flag b d rest hjoin hlt r ih => exact ih.cons b
  | case3 flag b d rest hjoin hlt r ih => exact (ih.cons d).cons b
  | case4 flag bs hbs => exact .refl

/-- A sweep that sets the flag has made the list shorter. -/
lemma Layout.length_sweep (flag : Bool) (bs : List Block) :
    flag = true → (Layout.sweep flag bs).1 = false →
      (Layout.sweep flag bs).2.length < bs.length := by
  fun_induction Layout.sweep flag bs with
  | case1 flag b d rest hjoin r ih =>
    intro _ _
    have := (Layout.sweep_merges (if rest = [] then flag else false) rest).length_le
    simp
    omega
  | case2 flag b d rest hjoin hlt r ih =>
    intro hflag h
    have := ih hflag h
    simpa using this
  | case3 flag b d rest hjoin hlt r ih =>
    intro hflag h
    have := ih hflag h
    simp
    omega
  | case4 flag bs hbs =>
    intro hflag h
    rw [hflag] at h
    simp at h

lemma Layout.coalescence_merges (n : ℕ) (bs : List Block) :
    Merges bs (Layout.coalescence n bs) := by
  induction n generalizing bs with
  | zero => exact .refl
  | succ n ih =>
    rw [Layout.coalescence]
    split
    · exact Layout.sweep_merges true bs
    · exact (Layout.sweep_merges true bs).trans (ih _)

lemma ne_nil_of_merges {bs' : List Block} (h : Merges bs bs') (hp : PowersFrom 4 bs)
    (hne : bs ≠ []) : bs' ≠ [] := by
  rintro rfl
  obtain ⟨b, rest, rfl⟩ := List.exists_cons_of_ne_nil hne
  have := h.total_eq
  have := hp.pos b (by simp)
  simp at *
  omega

/-- `coalescence` does in memory what it does to the list. -/
lemma coalescence_layout {h : Heap} (hm : Tiles m h.head bs h.tail) (hp : PowersFrom 4 bs)
    (hne : bs ≠ []) (ht : h.tail < 2 ^ 64) (fuel : ℕ) :
    Meets (total bs < fuel) (coalescence fuel h m) fun m' =>
      Tiles m' h.head (Layout.coalescence bs.length bs) h.tail := by
  rw [coalescence]
  -- every sweep that is followed by another one has made the list shorter
  let Holds (k : ℕ) (m' : Mem) : Prop := ∃ bs' n, Tiles m' h.head bs' h.tail ∧ Merges bs bs' ∧
    Layout.coalescence n bs' = Layout.coalescence bs.length bs ∧ bs'.length ≤ n ∧ bs'.length ≤ k
  refine Meets.of_imp (loop_meets (total bs < fuel) Holds ?_ fuel bs.length m
    ⟨bs, bs.length, hm, .refl, rfl, le_rfl, le_rfl⟩) fun hf =>
      ⟨hf, by have := length_le_total hp.pos; omega⟩
  rintro k m₁ ⟨bs₁, n, hm₁, hmerges, hres, hn, hk⟩
  have hne₁ := ne_nil_of_merges hmerges hp hne
  have hlen : 0 < bs₁.length := List.length_pos_iff.mpr hne₁
  have hbound : total bs < fuel → total bs₁ < fuel := fun hf => by rw [hmerges.total_eq]; exact hf
  refine Meets.map (Meets.of_imp (sweep_layout hm₁ (hp.merges hmerges) hne₁ ht fuel) hbound) ?_
  rintro c ⟨hflag, hm₂, -⟩
  obtain ⟨n, rfl⟩ : ∃ n', n = n' + 1 := ⟨n - 1, by omega⟩
  rw [Layout.coalescence] at hres
  cases hq : c.noCoalescence with
  | true =>
    rw [if_pos (by rw [← hflag, hq])] at hres
    rw [← hres]
    exact hm₂
  | false =>
    rw [hq] at hflag
    rw [if_neg (by simp [← hflag])] at hres
    have := Layout.length_sweep true bs₁ rfl hflag.symm
    exact ⟨_, by omega, _, n, hm₂, hmerges.trans (Layout.sweep_merges true bs₁), hres, by omega,
      le_rfl⟩

/-- The search of `malloc` does in memory what it does to the list. -/
lemma find_layout {h : Heap} {j : ℕ} (hm : Tiles m h.head bs h.tail) (hp : PowersFrom 4 bs)
    (hne : bs ≠ []) (ht : h.tail < 2 ^ 64) (hhead : h.head ≠ 0) (hj : 4 ≤ j) (fuel : ℕ) :
    Meets (total bs < fuel) (find fuel h m (2 ^ j)) fun r =>
      r.1 = (Layout.find (2 ^ j) h.head bs).1 ∧
        Tiles r.2 h.head (Layout.find (2 ^ j) h.head bs).2 h.tail ∧
        PowersFrom 4 (Layout.find (2 ^ j) h.head bs).2 := by
  rw [find, Layout.find]
  have hend := hm.end_eq
  refine Meets.bind (findBest_layout hm hp hne ht hhead hj fuel) ?_
  rintro r ⟨hr, hm₁, hp₁⟩
  have hend₁ := hm₁.end_eq
  rw [hr]
  generalize Layout.findBest (2 ^ j) h.head bs = r₁ at hr hm₁ hp₁ hend₁ ⊢
  split
  · have htotal : total r₁.2 = total bs := by omega
    have hne₁ : r₁.2 ≠ [] := by
      intro hnil
      obtain ⟨b, rest, rfl⟩ := List.exists_cons_of_ne_nil hne
      have := hp.pos b (by simp)
      rw [hnil] at htotal
      simp at htotal
      omega
    have hmerges := Layout.coalescence_merges r₁.2.length r₁.2
    refine Meets.bind (Meets.of_imp (coalescence_layout hm₁ hp₁ hne₁ ht fuel)
      fun hf => by omega) ?_
    rintro m₂ hm₂
    refine Meets.of_imp (findBest_layout hm₂ (hp₁.merges hmerges)
      (ne_nil_of_merges hmerges hp₁ hne₁) ht hhead hj fuel) fun hf => ?_
    rw [hmerges.total_eq]
    omega
  · exact Meets.pure ⟨hr, hm₁, hp₁⟩

end TurbOS.Heap
