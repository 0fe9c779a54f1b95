import TurbOS.Lib.Runs
import TurbOS.Memory.Boot

/-!
# Requests that the allocator turns down

`alloc` searches from `last` to the end of memory and then from the start up to where it began.
This file says which requests it serves and what a request leaves behind that it does not serve.

A run of free pages that lies on both sides of `last` is seen by neither search, and a run that
starts at page `0` is taken for a failure.  After a failure `alloc` clears memory from address
`0` on and moves both counters as if it had succeeded.  The states are those of all runs from
start-up in which clients call `alloc` and `realloc`, with or without success, give extents back
and write to them.
-/

open ByteMemory Runs

namespace TurbOS.PMemory

variable {s s' : Phys} {count limit page : ℕ}

/-! ## What a search finds -/

/-- The `count` pages from `page` on are free. -/
def FreeRun (s : Phys) (page count : ℕ) : Prop :=
  ∀ i, page ≤ i → i < page + count → Bitmap.get s.mem s.buffer i = false

/-- There are `count` consecutive free pages from `first` on and below `limit`. -/
def Offers (s : Phys) (first limit count : ℕ) : Prop :=
  ∃ page, first ≤ page ∧ page + count ≤ limit ∧ FreeRun s page count

/-- A search does not pass a run: it stops at it or at an earlier one.  The `p` pages before
`last` are free and too few. -/
lemma scan_complete {m : Mem} {buffer : ℕ} (n p last : ℕ) (hp : p < count) (hpage : last - p ≤ page)
    (hrun : ∀ i, page ≤ i → i < page + count → Bitmap.get m buffer i = false)
    (hend : page + count ≤ last + n) :
    ∃ found, (scan m buffer count n p last).1 = some found ∧ found ≤ page := by
  induction n generalizing p last with
  | zero => omega
  | succ n ih =>
    rw [scan]
    split
    · split
      · exact ⟨_, rfl, by omega⟩
      · exact ih _ _ (by omega) (by omega) (by omega)
    · -- a page in use: the run lies behind it
      rename_i hused
      have hlt : last < page := by
        by_contra hle
        exact hused (hrun last (by omega) (by omega))
      exact ih _ _ (by omega) (by omega) (by omega)

/-- `ohMyAlloc` takes the first run of its window. -/
lemma ohMyAlloc_le (limit : ℕ) (hcount : 1 ≤ count) (hfirst : s.last ≤ page)
    (hend : page + count ≤ limit) (hrun : FreeRun s page count) :
    ∃ found, (ohMyAlloc count limit s).1 = found * 0x1000 ∧ s.last ≤ found ∧ found ≤ page ∧
      FreeRun s found count := by
  obtain ⟨found, hfound, hle⟩ := scan_complete (limit - s.last) 0 s.last
    (by omega) (by omega) hrun (by omega)
  obtain ⟨-, -, hspec⟩ := scan_spec s.mem s.buffer count (limit - s.last) 0 s.last (by omega)
    fun i h₁ h₂ => by omega
  obtain ⟨-, hge, hfree⟩ := hspec found hfound
  refine ⟨found, ?_, by omega, hle, hfree⟩
  rw [ohMyAlloc]
  rcases hscan : scan s.mem s.buffer count (limit - s.last) 0 s.last with ⟨_ | found', l⟩
  · rw [hscan] at hfound
    simp at hfound
  · rw [hscan] at hfound
    rw [Option.some.inj hfound]

/-- `ohMyAlloc` gives a pointer if there is a run in its window, unless it starts at page `0`
and that page begins a run. -/
lemma ohMyAlloc_ne_zero_iff (s : Phys) (limit : ℕ) (hcount : 1 ≤ count) :
    (ohMyAlloc count limit s).1 ≠ 0 ↔
      Offers s s.last limit count ∧ (s.last = 0 → ¬ FreeRun s 0 count) := by
  constructor
  · intro hne
    rcases ohMyAlloc_cases count limit s with ⟨l, -, -, heq⟩ | ⟨page, hfirst, hend, hclear, heq⟩
    · exact absurd (by rw [heq]) hne
    · refine ⟨⟨page, hfirst, by omega, hclear⟩, fun hlast hzero => ?_⟩
      -- the search would have stopped at page `0`
      obtain ⟨found, hfound, -, hle, -⟩ :=
        ohMyAlloc_le limit hcount (by omega) (by omega) hzero
      omega
  · rintro ⟨⟨page, hfirst, hend, hclear⟩, hzero⟩
    obtain ⟨found, hfound, hge, -, hfree⟩ := ohMyAlloc_le limit hcount hfirst hend hclear
    intro hnull
    have hpage : found = 0 := by omega
    subst hpage
    exact hzero (by omega) hfree

/-- `ohMyAlloc` moves `last` and marks pages; the rest stays. -/
lemma ohMyAlloc_fixed (count limit : ℕ) (hlast : s.last ≤ limit) :
    (ohMyAlloc count limit s).2 =
      { s with
        mem := (ohMyAlloc count limit s).2.mem
        last := (ohMyAlloc count limit s).2.last } ∧
      (ohMyAlloc count limit s).2.last ≤ limit := by
  rcases ohMyAlloc_cases count limit s with ⟨l, -, hl, heq⟩ | ⟨page, -, hend, -, heq⟩
  · rw [heq]
    exact ⟨rfl, by dsimp only; omega⟩
  · rw [heq]
    exact ⟨rfl, by dsimp only; omega⟩

/-! ## Both searches -/

/-- The condition under which `alloc` serves a request: a run lies on one side of `last`, and
if page `0` begins a run, then there is one from `last` on and `last` is not `0`. -/
def Serves (s : Phys) (count : ℕ) : Prop :=
  (Offers s s.last (s.highPage / 0x1000) count ∨ Offers s 0 s.last count) ∧
    (FreeRun s 0 count → s.last ≠ 0 ∧ Offers s s.last (s.highPage / 0x1000) count)

/-- Both searches of `alloc` give a null pointer. -/
def BothFail (s : Phys) (count : ℕ) : Prop :=
  (ohMyAlloc count (s.highPage / 0x1000) s).1 = 0 ∧
    (ohMyAlloc count s.last
      { (ohMyAlloc count (s.highPage / 0x1000) s).2 with last := 0 }).1 = 0

lemma search_fst_eq_zero_iff : (search count s).1 = 0 ↔ BothFail s count := by
  rw [search, BothFail]
  split
  · rename_i hfirst
    simp [hfirst]
  · rename_i hfirst
    simp [hfirst]

/-- The second search sees the bitmap that the first one saw, if `last` is not `0`. -/
lemma second_search (hlast : s.last ≠ 0) (hfirst : (ohMyAlloc count limit s).1 = 0) :
    { (ohMyAlloc count limit s).2 with last := 0 } = { s with last := 0 } := by
  rcases ohMyAlloc_cases count limit s with ⟨l, -, -, heq⟩ | ⟨page, hpage, -, -, heq⟩
  · rw [heq]
  · rw [heq] at hfirst
    dsimp only at hfirst
    omega

lemma not_bothFail_iff (hcount : 1 ≤ count) : ¬ BothFail s count ↔ Serves s count := by
  have hfirst := ohMyAlloc_ne_zero_iff s (s.highPage / 0x1000) hcount
  rw [BothFail, not_and_or]
  by_cases hnull : (ohMyAlloc count (s.highPage / 0x1000) s).1 = 0
  · by_cases hlast : s.last = 0
    · -- nothing is left for the second search
      have hnone : ∀ t : Phys, ¬ Offers t 0 s.last count := by
        rintro t ⟨page, -, hend, -⟩
        omega
      have hsecond := ohMyAlloc_ne_zero_iff
        { (ohMyAlloc count (s.highPage / 0x1000) s).2 with last := 0 } s.last hcount
      refine iff_of_false ?_ ?_
      · rintro (hne | hne)
        · exact hne hnull
        · exact hnone _ (hsecond.mp hne).1
      · rintro ⟨hoffer | hoffer, hzero⟩
        · exact hfirst.mpr ⟨hoffer, fun _ hrun => (hzero hrun).1 hlast⟩ hnull
        · exact hnone s hoffer
    · have hsecond := ohMyAlloc_ne_zero_iff { s with last := 0 } s.last hcount
      have hnone : ¬ Offers s s.last (s.highPage / 0x1000) count :=
        fun hoffer => hfirst.mpr ⟨hoffer, fun h => absurd h hlast⟩ hnull
      rw [second_search hlast hnull]
      constructor
      · rintro (hne | hne)
        · exact absurd hnull hne
        · obtain ⟨hoffer, hzero⟩ := hsecond.mp hne
          exact ⟨.inr hoffer, fun hrun => absurd hrun (hzero rfl)⟩
      · rintro ⟨hoffer | hoffer, hzero⟩
        · exact absurd hoffer hnone
        · exact .inr (hsecond.mpr ⟨hoffer, fun _ hrun => hnone (hzero hrun).2⟩)
  · obtain ⟨hoffer, hzero⟩ := hfirst.mp hnull
    exact iff_of_true (.inl hnull)
      ⟨.inl hoffer, fun hrun => ⟨fun hlast => hzero hlast hrun, hoffer⟩⟩

/-- `alloc` in terms of the two searches. -/
lemma alloc_eq (hlock : s.mmLock = false) (count : ℕ) :
    alloc count s = some ((search count { s with mmLock := true }).1,
      { (search count { s with mmLock := true }).2 with
        mem := memset (search count { s with mmLock := true }).2.mem
          (search count { s with mmLock := true }).1 0 (Word64.mul count 0x1000)
        usedRam := Word64.add (search count { s with mmLock := true }).2.usedRam
          (Word64.mul count 0x1000)
        freeRam := Word64.sub (search count { s with mmLock := true }).2.freeRam
          (Word64.mul count 0x1000)
        mmLock := false }) := by
  rw [alloc, if_neg (by simp [hlock])]

/-- The two searches move `last` and mark pages; the rest stays. -/
lemma search_fixed (count : ℕ) (hlast : s.last ≤ s.highPage / 0x1000) :
    (search count s).2 =
      { s with mem := (search count s).2.mem, last := (search count s).2.last } ∧
      (search count s).2.last ≤ s.highPage / 0x1000 := by
  obtain ⟨hfirst, hle⟩ := ohMyAlloc_fixed count _ hlast
  rw [search]
  dsimp only
  split
  · obtain ⟨hsecond, hle'⟩ := ohMyAlloc_fixed count s.last
      (s := { (ohMyAlloc count (s.highPage / 0x1000) s).2 with last := 0 }) (Nat.zero_le _)
    refine ⟨?_, hle'.trans hlast⟩
    rw [hsecond]
    dsimp only
    rw [hfirst]
  · exact ⟨hfirst, hle⟩

/-! ## Runs -/

/-- A call of a client, or a write of a client to its pages. -/
inductive Call where
  | alloc (count : ℕ)
  | free (e : Extent)
  | realloc (e : Extent) (new : ℕ)
  | write (e : Extent) (k : ℕ) (b : UInt8)
deriving DecidableEq, Repr

/-- The effect of a call.  A request that fails adds no extent, and only an extent that the
clients hold is given back, moved or written. -/
def call : Call → Held → Option Held
  | .alloc count, h => (alloc count h.phys).map fun r =>
      ⟨r.2, if r.1 = 0 then h.live else ⟨r.1, count⟩ :: h.live⟩
  | .free e, h =>
    if e ∈ h.live then (free e.ptr e.count h.phys).map fun s => ⟨s, h.live.erase e⟩ else none
  | .realloc e new, h =>
    if e ∈ h.live then
      (realloc e.ptr e.count new h.phys).map fun r =>
        ⟨r.2, if r.1 = 0 then h.live.erase e else ⟨r.1, new⟩ :: h.live.erase e⟩
    else none
  | .write e k b, h =>
    if e ∈ h.live ∧ k < e.count * 0x1000 then
      some ⟨{ h.phys with mem := Function.update h.phys.mem (e.ptr + k) b }, h.live⟩
    else none

/-- The allocator after start-up. -/
def boot (mm : List MmapEntry) (m : Mem) : Held := ⟨init mm { mem := m }, []⟩

/-- What every state of a run satisfies, on any memory map. -/
structure Ready (h : Held) : Prop where
  unlocked : h.phys.mmLock = false
  high : h.phys.highPage < 2 ^ 64
  last_le : h.phys.last ≤ h.phys.highPage / 0x1000
  used : h.phys.usedRam < 2 ^ 64
  free : h.phys.freeRam < 2 ^ 64

lemma survey_freeRam_lt (h : s.freeRam < 2 ^ 64) (mm : List MmapEntry) :
    (survey s mm).freeRam < 2 ^ 64 := by
  induction mm generalizing s with
  | nil => exact h
  | cons e mm ih =>
    rw [survey_cons]
    refine ih ?_
    by_cases he : e.type = .usable
    · simp only [survey, List.foldl_cons, List.foldl_nil, he, ne_eq, not_true_eq_false, if_false]
      exact Nat.mod_lt _ (by norm_num)
    · simpa [survey, he] using h

lemma boot_ready (mm : List MmapEntry) (m : Mem) : Ready (boot mm m) := by
  have hsurvey := survey_eq { mem := m } mm
  have hhigh := survey_highPage_lt (s := { mem := m }) (by norm_num) mm
  have hfree := survey_freeRam_lt (s := { mem := m }) (by norm_num) mm
  rw [boot, init]
  generalize survey { mem := m } mm = s at hsurvey hhigh hfree
  have hlast : s.last = 0 := by rw [hsurvey]
  have hused : s.usedRam = 0 := by rw [hsurvey]
  have hlock : s.mmLock = false := by rw [hsurvey]
  dsimp only
  rw [if_neg (by simp)]
  split
  · exact ⟨hlock, hhigh, by simp [hlast], by simp [hused], hfree⟩
  · exact ⟨hlock, hhigh, by simp [hlast], by simp [hused], Nat.mod_lt _ (by norm_num)⟩

section

variable {p : ℕ} {live' : List Extent}

lemma ready_alloc (live : List Extent) (hr : Ready ⟨s, live⟩)
    (halloc : PMemory.alloc count s = some (p, s')) :
    Ready ⟨s', live'⟩ := by
  rw [alloc_eq hr.unlocked] at halloc
  obtain ⟨hsearch, hle⟩ := search_fixed count (s := { s with mmLock := true }) hr.last_le
  obtain ⟨-, rfl⟩ := Prod.mk.inj (Option.some.inj halloc)
  rw [hsearch]
  exact ⟨rfl, hr.high, hle, Nat.mod_lt _ (by norm_num), Nat.mod_lt _ (by norm_num)⟩

lemma ready_free (live : List Extent) (hr : Ready ⟨s, live⟩)
    (hfree : PMemory.free p count s = some s') :
    Ready ⟨s', live'⟩ := by
  by_cases hp : p = 0
  · rw [PMemory.free, if_pos hp] at hfree
    rw [← Option.some.inj hfree]
    exact ⟨hr.unlocked, hr.high, hr.last_le, hr.used, hr.free⟩
  · obtain ⟨-, rfl⟩ := free_eq hfree hp
    have hlast := hr.last_le
    exact ⟨hr.unlocked, hr.high, by dsimp only at *; omega, Nat.mod_lt _ (by norm_num),
      Nat.mod_lt _ (by norm_num)⟩

/-- `realloc` moves both counters and then calls `alloc` and `free`. -/
lemma ready_realloc {old new q : ℕ} (live : List Extent) (hr : Ready ⟨s, live⟩)
    (hrealloc : PMemory.realloc p old new s = some (q, s')) : Ready ⟨s', live'⟩ := by
  rw [PMemory.realloc] at hrealloc
  split at hrealloc
  · exact ready_alloc _ hr hrealloc
  split at hrealloc
  · obtain ⟨s₁, hfree, heq⟩ := Option.map_eq_some_iff.mp hrealloc
    obtain ⟨-, rfl⟩ := Prod.mk.inj heq
    exact ready_free _ hr hfree
  · obtain ⟨⟨q', s₁⟩, halloc, hrealloc⟩ := Option.bind_eq_some_iff.mp hrealloc
    obtain ⟨s₂, hfree, heq⟩ := Option.map_eq_some_iff.mp hrealloc
    obtain ⟨-, rfl⟩ := Prod.mk.inj heq
    have h₁ : Ready ⟨s₁, live⟩ := by
      refine ready_alloc live ?_ halloc
      exact ⟨hr.unlocked, hr.high, hr.last_le, Nat.mod_lt _ (by norm_num),
        Nat.mod_lt _ (by norm_num)⟩
    refine ready_free live ?_ hfree
    exact ⟨h₁.unlocked, h₁.high, h₁.last_le, h₁.used, h₁.free⟩

end

/-- One call keeps the invariant. -/
lemma Ready.call {h h' : Held} {c : Call} (hr : Ready h) (hs : call c h = some h') : Ready h' := by
  cases c with
  | alloc count =>
    obtain ⟨⟨p, s⟩, halloc, rfl⟩ := Option.map_eq_some_iff.mp hs
    exact ready_alloc _ hr halloc
  | free e =>
    rw [PMemory.call] at hs
    split at hs
    · obtain ⟨s, hfree, rfl⟩ := Option.map_eq_some_iff.mp hs
      exact ready_free _ hr hfree
    · simp at hs
  | realloc e new =>
    rw [PMemory.call] at hs
    split at hs
    · obtain ⟨⟨p, s⟩, hrealloc, rfl⟩ := Option.map_eq_some_iff.mp hs
      exact ready_realloc _ hr hrealloc
    · simp at hs
  | write e k b =>
    rw [PMemory.call] at hs
    split at hs
    · rw [← Option.some.inj hs]
      exact ⟨hr.unlocked, hr.high, hr.last_le, hr.used, hr.free⟩
    · simp at hs

/-- The invariant holds along every run. -/
lemma ready_exec {mm : List MmapEntry} {m : Mem} {calls : List Call} {h : Held}
    (hr : exec call calls (boot mm m) = some h) : Ready h :=
  exec_inv (fun _ _ _ hr hs => hr.call hs) (boot_ready mm m) hr

/-- The lock does not matter to a search. -/
lemma ohMyAlloc_mmLock (count limit : ℕ) (s : Phys) (b : Bool) :
    ohMyAlloc count limit { s with mmLock := b } =
      ((ohMyAlloc count limit s).1, { (ohMyAlloc count limit s).2 with mmLock := b }) := by
  rw [ohMyAlloc, ohMyAlloc]
  dsimp only
  split
  · rfl
  · rfl

lemma bothFail_mmLock (b : Bool) : BothFail { s with mmLock := b } count ↔ BothFail s count := by
  rw [BothFail, BothFail]
  dsimp only
  rw [ohMyAlloc_mmLock]
  have hsecond := ohMyAlloc_mmLock count s.last
    { (ohMyAlloc count (s.highPage / 0x1000) s).2 with last := 0 } b
  dsimp only at hsecond ⊢
  rw [hsecond]

/-- `alloc` returns a null pointer exactly if both searches fail. -/
lemma Ready.alloc_ne_zero_iff {h : Held} (hr : Ready h) :
    (∃ p s', alloc count h.phys = some (p, s') ∧ p ≠ 0) ↔ ¬ BothFail h.phys count := by
  rw [alloc_eq hr.unlocked, ← bothFail_mmLock true, ← search_fst_eq_zero_iff]
  constructor
  · rintro ⟨p, s', heq, hp⟩
    rw [(Prod.mk.inj (Option.some.inj heq)).1]
    exact hp
  · intro hne
    exact ⟨_, _, rfl, hne⟩

/-! ## Which requests are served -/

/-- **A request is served if one of the searches can see its pages.**  In every state of a run,
`alloc` finds `count` consecutive free pages, if there are any from page `1` on, exactly if such
pages lie on one side of `last` and the pages from `0` on do not get in the way. -/
theorem alloc_complete_iff {mm : List MmapEntry} {m : Mem} {calls : List Call} {h : Held}
    (hr : exec call calls (boot mm m) = some h) (hcount : 1 ≤ count) :
    (Offers h.phys 1 (h.phys.highPage / 0x1000) count →
        ∃ p s', alloc count h.phys = some (p, s') ∧ p ≠ 0) ↔
      (Offers h.phys 1 (h.phys.highPage / 0x1000) count → Serves h.phys count) := by
  rw [(ready_exec hr).alloc_ne_zero_iff, not_bothFail_iff hcount]

/-- After start-up the seven free pages of the small machine are served at once. -/
theorem alloc_complete_smallMap :
    ∃ h, exec call [] (boot smallMap fun _ => 0) = some h ∧
      Offers h.phys 1 (h.phys.highPage / 0x1000) 7 ∧ Serves h.phys 7 ∧
      ∃ p s', alloc 7 h.phys = some (p, s') ∧ p ≠ 0 := by
  have hcheck : (boot smallMap fun _ => 0).phys.highPage = 0x9000 ∧
      (boot smallMap fun _ => 0).phys.last = 0 ∧
      Bitmap.get (boot smallMap fun _ => 0).phys.mem (boot smallMap fun _ => 0).phys.buffer 0 =
        true ∧ ∀ i ∈ List.range 7,
        Bitmap.get (boot smallMap fun _ => 0).phys.mem (boot smallMap fun _ => 0).phys.buffer
          (2 + i) = false := by
    decide +kernel
  obtain ⟨h, hboot⟩ : ∃ h, boot smallMap (fun _ => 0) = h := ⟨_, rfl⟩
  have hrun : exec call [] (boot smallMap fun _ => 0) = some h := by rw [hboot]; rfl
  rw [hboot] at hcheck
  obtain ⟨hhigh, hlast, hzero, hfree⟩ := hcheck
  have hrunFree : FreeRun h.phys 2 7 := by
    intro i h₁ h₂
    have hi := hfree (i - 2) (by simp; omega)
    rwa [Nat.add_sub_cancel' h₁] at hi
  have hoffers : Offers h.phys 1 (h.phys.highPage / 0x1000) 7 :=
    ⟨2, by norm_num, by rw [hhigh], hrunFree⟩
  have hserves : Serves h.phys 7 := by
    refine ⟨.inl ⟨2, by omega, by rw [hhigh], hrunFree⟩, fun hpage => ?_⟩
    have hbit := hpage 0 le_rfl (by norm_num)
    rw [hzero] at hbit
    simp at hbit
  refine ⟨h, hrun, hoffers, hserves, ?_⟩
  exact (alloc_complete_iff hrun (by norm_num)).mpr (fun _ => hserves) hoffers

/-- Three pages are taken, the first is given back, two larger requests go above the third, and
the second page is given back: the free pages `2` and `3` lie on both sides of `last`. -/
def straddling : List Call :=
  [.alloc 1, .alloc 1, .alloc 1, .free ⟨0x2000, 1⟩, .alloc 2, .alloc 2, .free ⟨0x3000, 1⟩]

lemma straddling_runs : (exec call straddling (boot smallMap fun _ => 0)).any (fun h =>
    decide (h.phys.highPage = 0x9000) && !Bitmap.get h.phys.mem h.phys.buffer 2 &&
      !Bitmap.get h.phys.mem h.phys.buffer 3 &&
      (alloc 2 h.phys).any fun r => decide (r.1 = 0)) = true := by
  decide +kernel

/-- Two consecutive pages are free, and a request for two pages fails. -/
theorem alloc_misses_straddling_run :
    ∃ h s', exec call straddling (boot smallMap fun _ => 0) = some h ∧
      Offers h.phys 1 (h.phys.highPage / 0x1000) 2 ∧ alloc 2 h.phys = some (0, s') := by
  obtain ⟨h, hrun, hcheck⟩ := (Option.any_eq_true _ _).mp straddling_runs
  simp only [Bool.and_eq_true, decide_eq_true_eq, Bool.not_eq_true'] at hcheck
  obtain ⟨⟨⟨hhigh, htwo⟩, hthree⟩, halloc⟩ := hcheck
  obtain ⟨⟨p, s'⟩, hs', hp⟩ := (Option.any_eq_true _ _).mp halloc
  obtain rfl : p = 0 := by simpa using hp
  refine ⟨h, s', hrun, ⟨2, by norm_num, by rw [hhigh]; norm_num, ?_⟩, hs'⟩
  intro i h₁ h₂
  obtain rfl | rfl : i = 2 ∨ i = 3 := by omega
  · exact htwo
  · exact hthree

/-! ## What a request that fails leaves behind -/

/-- A search for so many pages that their size wraps to zero marks nothing. -/
lemma ohMyAlloc_mem (limit : ℕ) (hcount : 2 ^ 52 ∣ count) (hlimit : max s.last limit < 2 ^ 52) :
    (ohMyAlloc count limit s).2.mem = s.mem := by
  rcases ohMyAlloc_cases count limit s with ⟨l, -, -, heq⟩ | ⟨page, -, hend, -, heq⟩
  · rw [heq]
  · obtain rfl : count = 0 := by
      obtain ⟨k, rfl⟩ := hcount
      rcases k with _ | k
      · rfl
      · omega
    rw [heq]
    rfl

lemma search_mem (hcount : 2 ^ 52 ∣ count) (hlast : s.last ≤ s.highPage / 0x1000)
    (hhigh : s.highPage < 2 ^ 64) : (search count s).2.mem = s.mem := by
  have hfirst := ohMyAlloc_mem (s := s) (s.highPage / 0x1000) hcount (by omega)
  rw [search]
  dsimp only
  split
  · rw [ohMyAlloc_mem _ hcount (by dsimp only; omega)]
    exact hfirst
  · exact hfirst

/-- **A request that fails changes nothing only if its size wraps to zero.**  In every state of
a run and for every count for which both searches fail, `alloc` returns a null pointer, releases
the lock and leaves memory, bitmap and counters alone exactly if `2 ^ 52` divides the count. -/
theorem failed_alloc_iff {mm : List MmapEntry} {m : Mem} {calls : List Call} {h : Held}
    (hr : exec call calls (boot mm m) = some h) (hfail : BothFail h.phys count) :
    (∃ s', alloc count h.phys = some (0, s') ∧ s'.mmLock = false ∧ s'.mem = h.phys.mem ∧
        s'.usedRam = h.phys.usedRam ∧ s'.freeRam = h.phys.freeRam) ↔ 2 ^ 52 ∣ count := by
  have hready := ready_exec hr
  obtain ⟨hsearch, -⟩ := search_fixed count
    (s := { h.phys with mmLock := true }) hready.last_le
  have hnull := search_fst_eq_zero_iff.mpr ((bothFail_mmLock true).mpr hfail)
  have hused := hready.used
  have hfree := hready.free
  rw [alloc_eq hready.unlocked, hnull]
  constructor
  · rintro ⟨s', heq, -, -, hused', -⟩
    obtain ⟨-, rfl⟩ := Prod.mk.inj (Option.some.inj heq)
    rw [hsearch] at hused'
    simp only [Word64.add, Word64.mul] at hused'
    omega
  · intro hdvd
    have hsize : Word64.mul count 0x1000 = 0 := by
      rw [Word64.mul]
      omega
    refine ⟨_, rfl, rfl, ?_, ?_, ?_⟩
    · dsimp only
      rw [hsize, memset,
        search_mem (s := { h.phys with mmLock := true }) hdvd hready.last_le hready.high]
      funext x
      exact fill_outside (by omega)
    · rw [hsearch, hsize]
      exact Nat.mod_eq_of_lt hused
    · rw [hsearch, hsize]
      simp only [Word64.sub]
      omega

/-- A request for `2 ^ 52` pages fails on the small machine and leaves it as it was. -/
theorem failed_alloc_smallMap :
    ∃ h s', exec call [] (boot smallMap fun _ => 0) = some h ∧ BothFail h.phys (2 ^ 52) ∧
      alloc (2 ^ 52) h.phys = some (0, s') ∧ s'.mem = h.phys.mem := by
  have hfail : BothFail (boot smallMap fun _ => 0).phys (2 ^ 52) := by
    rw [BothFail]
    decide +kernel
  have hrun : exec call [] (boot smallMap fun _ => 0) = some (boot smallMap fun _ => 0) := rfl
  obtain ⟨s', hs', -, hmem, -⟩ := (failed_alloc_iff hrun hfail).mpr (dvd_refl _)
  exact ⟨_, s', hrun, hfail, hs', hmem⟩

lemma eight_pages_runs : (alloc 8 (boot smallMap fun _ => 0).phys).any (fun r =>
    decide (r.1 = 0) && decide (r.2.usedRam = 0x8000) && !Bitmap.get r.2.mem r.2.buffer 1) =
      true := by
  decide +kernel

/-- A request for eight of the seven free pages is counted as used memory, and it clears the
bitmap: the page that holds the bitmap is free from then on. -/
theorem failed_alloc_clears_bitmap :
    ∃ h s', exec call [] (boot smallMap fun _ => 0) = some h ∧ BothFail h.phys 8 ∧
      alloc 8 h.phys = some (0, s') ∧ h.phys.usedRam = 0 ∧ s'.usedRam = 0x8000 ∧
      Bitmap.get h.phys.mem h.phys.buffer 1 = true ∧
      Bitmap.get s'.mem s'.buffer 1 = false := by
  have hfail : BothFail (boot smallMap fun _ => 0).phys 8 := by
    rw [BothFail]
    decide +kernel
  have hbefore : (boot smallMap fun _ => 0).phys.usedRam = 0 ∧
      Bitmap.get (boot smallMap fun _ => 0).phys.mem (boot smallMap fun _ => 0).phys.buffer 1 =
        true := by
    decide +kernel
  obtain ⟨⟨p, s'⟩, hs', hcheck⟩ := (Option.any_eq_true _ _).mp eight_pages_runs
  simp only [Bool.and_eq_true, decide_eq_true_eq, Bool.not_eq_true'] at hcheck
  obtain ⟨⟨rfl, hused⟩, hbit⟩ := hcheck
  exact ⟨_, s', rfl, hfail, hs', hbefore.1, hused, hbefore.2, hbit⟩

end TurbOS.PMemory
