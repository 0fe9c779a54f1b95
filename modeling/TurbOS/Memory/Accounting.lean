import TurbOS.Memory.FreeMap
import TurbOS.Memory.Requests

/-!
# The two counters

`usedRam` and `freeRam` are kept beside the bitmap.  This file compares the two along runs of
successful requests and of writes of clients to their own pages.

`alloc` and `free` move the counters by the pages they mark and clear.  `realloc` moves them by
the difference of the two sizes and leaves the rest to `alloc` and `free`, which move them by
the same pages once more.  The counters agree with the bitmap as long as no extent changes its
size.
-/

open ByteMemory Runs Counting

namespace TurbOS.PMemory

variable {g : Geometry} {s s' : Phys} {live : List Extent} {e : Extent} {h h' : Held}

/-! ## Requests -/

/-- A request of a client, or a write to one of its pages. -/
inductive Request where
  | alloc (count : ℕ)
  | free (e : Extent)
  | realloc (e : Extent) (new : ℕ)
  | write (e : Extent) (k : ℕ) (b : UInt8)
deriving DecidableEq, Repr

/-- The effect of a request that succeeds.  Only live extents are given back, moved or written,
with their own counts, and a null pointer is no success. -/
def request : Request → Held → Option Held
  | .alloc count, h => (alloc count h.phys).bind fun r =>
      if r.1 = 0 then none else some ⟨r.2, ⟨r.1, count⟩ :: h.live⟩
  | .free e, h =>
    if e ∈ h.live then (free e.ptr e.count h.phys).map fun s => ⟨s, h.live.erase e⟩ else none
  | .realloc e new, h =>
    if e ∈ h.live ∧ 1 ≤ new then
      (realloc e.ptr e.count new h.phys).bind fun r =>
        if r.1 = 0 then none else some ⟨r.2, ⟨r.1, new⟩ :: h.live.erase e⟩
    else none
  | .write e k b, h =>
    if e ∈ h.live ∧ k < e.count * 0x1000 then
      some ⟨{ h.phys with mem := Function.update h.phys.mem (e.ptr + k) b }, h.live⟩
    else none

/-- The subtractions on the two counters that a request carries out, in their order: what is
subtracted from, and what is subtracted. -/
def subtractions : Request → Held → List (ℕ × ℕ)
  | .alloc count, h => [(h.phys.freeRam, Word64.mul count 0x1000)]
  | .free e, h => [(h.phys.usedRam, Word64.mul e.count 0x1000)]
  | .realloc e new, h =>
    let old := Word64.mul e.count 0x1000
    let size := Word64.mul new 0x1000
    let used := Word64.add (Word64.sub h.phys.usedRam old) size
    let free := Word64.sub (Word64.add h.phys.freeRam old) size
    -- two in `realloc` itself, one in `alloc(newSize)`, one in `free(ptr)`
    [(h.phys.usedRam, old), (Word64.add h.phys.freeRam old, size), (free, size),
      (Word64.add used size, 0x1000)]
  | .write _ _ _, _ => []

/-- No subtraction of the request goes below zero. -/
def NoUnderflow (h : Held) (r : Request) : Prop := ∀ d ∈ subtractions r h, d.2 ≤ d.1

/-- `freeRam` is the size of the free pages, and together the counters hold `total` bytes. -/
def Accounted (total : ℕ) (h : Held) : Prop :=
  h.phys.freeRam = 0x1000 * clearPages h.phys ∧ h.phys.usedRam + h.phys.freeRam = total

/-- The request leaves the size of every extent as it is. -/
def Request.KeepsSize : Request → Prop
  | .realloc e new => new = e.count
  | _ => True

/-! ## What a request does to the bitmap -/

lemma clearPages_congr (hpages : s'.highPage / 0x1000 = s.highPage / 0x1000)
    (hbits : ∀ i < s.highPage / 0x1000,
      Bitmap.get s'.mem s'.buffer i = Bitmap.get s.mem s.buffer i) :
    clearPages s' = clearPages s := by
  rw [clearPages, clearPages, hpages]
  exact count_congr fun i hi => by rw [hbits i hi]

/-- A new extent takes its pages from the free ones. -/
lemma clearPages_alloc (hi : Inv g s live) {count p : ℕ} (hcount : 1 ≤ count)
    (hs : alloc count s = some (p, s')) (hp : p ≠ 0) :
    clearPages s = clearPages s' + count := by
  have hi' := hi.alloc hcount hs hp
  obtain ⟨page, -, hle, hclear, hbits, -⟩ := hi.alloc_spec hcount hs hp
  rw [clearPages, clearPages, hi.pages_eq, hi'.pages_eq, hi.buffer_eq, hi'.buffer_eq]
  refine count_add_run hle (fun i h₁ h₂ => ?_) fun i hlt => ?_
  · rw [hbits i (by omega), if_pos ⟨h₁, h₂⟩]
    simp
  · rw [hbits i hlt]
    by_cases hrun : page ≤ i ∧ i < page + count
    · simp [hrun, hclear i hrun.1 hrun.2]
    · simp [hrun]

/-- The pages of an extent that is given back are free. -/
lemma clearPages_free (hi : Inv g s live) (he : e ∈ live)
    (hs : free e.ptr e.count s = some s') : clearPages s' = clearPages s + e.count := by
  obtain ⟨hne, -⟩ := hi.nonempty e he
  have hi' := (hi.perm (List.perm_cons_erase he)).freePages le_rfl hs
  have hbelow := hi.below e he
  obtain ⟨hbits, -⟩ := hi.free_spec hne (by rw [← Extent.first]; exact hbelow) hs
  rw [clearPages, clearPages, hi.pages_eq, hi'.pages_eq, hi.buffer_eq, hi'.buffer_eq]
  refine count_add_run (a := e.first) hbelow (fun i h₁ h₂ => ?_) fun i hlt => ?_
  · rw [hi.marked e he i ⟨h₁, h₂⟩]
    simp
  · rw [hbits i, ← Extent.first]
    by_cases hrun : e.first ≤ i ∧ i < e.first + e.count
    · simp [hrun]
    · simp [hrun]

/-- A moved extent takes `new` pages and gives one back. -/
lemma clearPages_realloc (hi : Inv g s live) (he : e ∈ live) {new q : ℕ} (hnew : 1 ≤ new)
    (hs : realloc e.ptr e.count new s = some (q, s')) (hq : q ≠ 0) :
    clearPages s + 1 = clearPages s' + new := by
  obtain ⟨-, hone⟩ := hi.nonempty e he
  have hbelow := hi.below e he
  have hi' := ((hi.perm (List.perm_cons_erase he)).realloc (by omega) hs hq).1
  obtain ⟨page, -, hle, hclear, hbits, -⟩ := hi.realloc_spec he hnew hs hq
  have hmarked := hi.marked e he e.first ⟨le_rfl, by omega⟩
  rw [clearPages, clearPages, hi.pages_eq, hi'.pages_eq, hi.buffer_eq, hi'.buffer_eq]
  -- between the two stands the bitmap in which both extents are free
  have hold : count g.pages (fun i => Bitmap.get s.mem g.buffer i = false ∨ i = e.first) =
      count g.pages (fun i => Bitmap.get s.mem g.buffer i = false) + 1 := by
    refine count_add_run (a := e.first) (by omega) (fun i h₁ h₂ => ?_) fun i _ => ?_
    · obtain rfl : i = e.first := by omega
      simp [hmarked]
    · refine or_congr_right ⟨fun h => ?_, fun h => ?_⟩
      · omega
      · omega
  have hrun : count g.pages (fun i => Bitmap.get s.mem g.buffer i = false ∨ i = e.first) =
      count g.pages (fun i => Bitmap.get s'.mem g.buffer i = false) + new := by
    have hne : ∀ i, page ≤ i → i < page + new → i ≠ e.first := by
      rintro i h₁ h₂ rfl
      rw [hclear _ h₁ h₂] at hmarked
      exact absurd hmarked (by simp)
    refine count_add_run hle (fun i h₁ h₂ => ?_) fun i hlt => ?_
    · rw [hbits i (by omega), if_neg (hne i h₁ h₂), if_pos ⟨h₁, h₂⟩]
      simp
    · rw [hbits i hlt]
      by_cases hfirst : i = e.first
      · simp [hfirst]
      · by_cases hrun : page ≤ i ∧ i < page + new
        · simp [hfirst, hrun, hclear i hrun.1 hrun.2]
        · simp [hfirst, hrun]
  rw [← hold, hrun]

/-! ## What a request does to the counters -/

/-- The counters agree with the bitmap, and the live extents are counted as used. -/
structure Counted (g : Geometry) (total : ℕ) (h : Held) : Prop where
  inv : Inv g h.phys h.live
  accounted : Accounted total h
  live_le : 0x1000 * (h.live.map Extent.count).sum ≤ h.phys.usedRam
  total_lt : total < 2 ^ 64

variable {total : ℕ} {r : Request}

/-- What a request that succeeds is made of. -/
lemma request_cases (hs : request r h = some h') :
    (∃ count p s, r = .alloc count ∧ alloc count h.phys = some (p, s) ∧ p ≠ 0 ∧ 1 ≤ count ∧
        h' = ⟨s, ⟨p, count⟩ :: h.live⟩) ∨
      (∃ e s, r = .free e ∧ e ∈ h.live ∧ free e.ptr e.count h.phys = some s ∧
        h' = ⟨s, h.live.erase e⟩) ∨
      (∃ e new q s, r = .realloc e new ∧ e ∈ h.live ∧ 1 ≤ new ∧
        realloc e.ptr e.count new h.phys = some (q, s) ∧ q ≠ 0 ∧
        h' = ⟨s, ⟨q, new⟩ :: h.live.erase e⟩) ∨
      (∃ e k b, r = .write e k b ∧ e ∈ h.live ∧ k < e.count * 0x1000 ∧
        h' = ⟨{ h.phys with mem := Function.update h.phys.mem (e.ptr + k) b }, h.live⟩) := by
  cases r with
  | alloc count =>
    obtain ⟨⟨p, s⟩, halloc, hs⟩ := Option.bind_eq_some_iff.mp hs
    split at hs
    · simp at hs
    · rename_i hp
      have hcount : 1 ≤ count := by
        rcases Nat.eq_zero_or_pos count with rfl | hpos
        · exact absurd (alloc_zero halloc) hp
        · exact hpos
      exact .inl ⟨count, p, s, rfl, halloc, hp, hcount, (Option.some.inj hs).symm⟩
  | free e =>
    rw [request] at hs
    split at hs
    · rename_i he
      obtain ⟨s, hfree, rfl⟩ := Option.map_eq_some_iff.mp hs
      exact .inr (.inl ⟨e, s, rfl, he, hfree, rfl⟩)
    · simp at hs
  | realloc e new =>
    rw [request] at hs
    split at hs
    · rename_i he
      obtain ⟨⟨q, s⟩, hrealloc, hs⟩ := Option.bind_eq_some_iff.mp hs
      split at hs
      · simp at hs
      · rename_i hq
        exact .inr (.inr (.inl
          ⟨e, new, q, s, rfl, he.1, he.2, hrealloc, hq, (Option.some.inj hs).symm⟩))
    · simp at hs
  | write e k b =>
    rw [request] at hs
    split at hs
    · rename_i he
      exact .inr (.inr (.inr ⟨e, k, b, rfl, he.1, he.2, (Option.some.inj hs).symm⟩))
    · simp at hs

/-- A request that succeeds is a step of the allocator and its clients. -/
lemma request_step (hs : request r h = some h') : Step h h' := by
  obtain ⟨count, p, s, -, halloc, hp, hcount, rfl⟩ | ⟨e, s, -, he, hfree, rfl⟩ |
    ⟨e, new, q, s, -, he, hnew, hrealloc, hq, rfl⟩ | ⟨e, k, b, -, he, hk, rfl⟩ := request_cases hs
  · exact .alloc hcount halloc hp
  · exact .free he hfree
  · have hstep := Step.realloc he hrealloc fun _ => hq
    rwa [if_neg (by omega)] at hstep
  · exact .write he ⟨by omega, by omega⟩

/-- The effect of `alloc` on the counters. -/
lemma Counted.alloc (hc : Counted g total h) {count p : ℕ} (hcount : 1 ≤ count)
    (hs : PMemory.alloc count h.phys = some (p, s)) (hp : p ≠ 0) :
    NoUnderflow h (.alloc count) ∧ Counted g total ⟨s, ⟨p, count⟩ :: h.live⟩ := by
  have hi := hc.inv
  obtain ⟨hfreeRam, htotal⟩ := hc.accounted
  have hlive := hc.live_le
  have hlt := hc.total_lt
  have hclear := clearPages_alloc hi hcount hs hp
  obtain ⟨page, -, hle, -, -, -, hused', hfree'⟩ := hi.alloc_spec hcount hs hp
  have hmul := mul_page_lt hle
  rw [Word64.add_of_lt (by omega)] at hused'
  rw [Word64.sub_of_le (by omega) (by omega)] at hfree'
  refine ⟨?_, hi.alloc hcount hs hp, ⟨?_, ?_⟩, ?_, hlt⟩
  · intro d hd
    obtain rfl := List.mem_singleton.mp hd
    dsimp only
    omega
  · dsimp only
    omega
  · dsimp only
    omega
  · dsimp only
    rw [List.map_cons, List.sum_cons]
    dsimp only
    omega

/-- What one live extent adds to the sum. -/
lemma sum_erase (he : e ∈ live) :
    e.count + ((live.erase e).map Extent.count).sum = (live.map Extent.count).sum :=
  List.sum_map_erase Extent.count he

/-- The effect of `free` on the counters. -/
lemma Counted.free (hc : Counted g total h) (he : e ∈ h.live)
    (hs : PMemory.free e.ptr e.count h.phys = some s) :
    NoUnderflow h (.free e) ∧ Counted g total ⟨s, h.live.erase e⟩ := by
  have hi := hc.inv
  obtain ⟨hfreeRam, htotal⟩ := hc.accounted
  have hlive := hc.live_le
  have hlt := hc.total_lt
  have hclear := clearPages_free hi he hs
  have hsum := sum_erase he
  have hbelow := hi.below e he
  obtain ⟨-, -, hused', hfree'⟩ := hi.free_spec (hi.nonempty e he).1 hbelow hs
  have hmul := mul_page_lt hbelow
  rw [Word64.sub_of_le (by omega) (by omega)] at hused'
  rw [Word64.add_of_lt (by omega)] at hfree'
  refine ⟨?_, (hi.perm (List.perm_cons_erase he)).freePages le_rfl hs, ⟨?_, ?_⟩, ?_, hlt⟩
  · intro d hd
    obtain rfl := List.mem_singleton.mp hd
    dsimp only
    omega
  · dsimp only
    omega
  · dsimp only
    omega
  · dsimp only
    omega

/-- The effect of `realloc` on the counters if the size stays. -/
lemma Counted.realloc (hc : Counted g total h) (he : e ∈ h.live) {q : ℕ}
    (hs : PMemory.realloc e.ptr e.count e.count h.phys = some (q, s)) (hq : q ≠ 0) :
    NoUnderflow h (.realloc e e.count) ∧
      Counted g total ⟨s, ⟨q, e.count⟩ :: h.live.erase e⟩ := by
  have hi := hc.inv
  obtain ⟨hfreeRam, htotal⟩ := hc.accounted
  have hlive := hc.live_le
  have hlt := hc.total_lt
  have hone := (hi.nonempty e he).2
  have hclear := clearPages_realloc hi he hone hs hq
  have hsum := sum_erase he
  obtain ⟨page, -, hle, hrun, -, -, hused', hfree'⟩ := hi.realloc_spec he hone hs hq
  have hmul := mul_page_lt hle
  have hroom : e.count ≤ clearPages h.phys := by
    rw [clearPages, hi.pages_eq, hi.buffer_eq]
    exact le_count_of_run hle hrun
  -- the difference of the sizes is zero, and what remains is that of `alloc` and `free`
  have husedSame : Word64.add (Word64.sub h.phys.usedRam (e.count * 0x1000)) (e.count * 0x1000) =
      h.phys.usedRam := by
    rw [Word64.sub_of_le (by omega) (by omega), Word64.add_of_lt (by omega)]
    omega
  have hfreeSum : Word64.add h.phys.freeRam (e.count * 0x1000) =
      h.phys.freeRam + e.count * 0x1000 := Word64.add_of_lt (by omega)
  have hfreeSame : Word64.sub (h.phys.freeRam + e.count * 0x1000) (e.count * 0x1000) =
      h.phys.freeRam := by
    rw [Word64.sub_of_le (by omega) (by omega)]
    omega
  have husedSum : Word64.add h.phys.usedRam (e.count * 0x1000) =
      h.phys.usedRam + e.count * 0x1000 := Word64.add_of_lt (by omega)
  rw [husedSame, husedSum, Word64.sub_of_le (by omega) (by omega)] at hused'
  rw [hfreeSum, hfreeSame, Word64.sub_of_le (by omega) (by omega),
    Word64.add_of_lt (by omega)] at hfree'
  have hi' := ((hi.perm (List.perm_cons_erase he)).realloc (by omega) hs hq).1
  refine ⟨?_, hi', ⟨?_, ?_⟩, ?_, hlt⟩
  · intro d hd
    simp only [subtractions, hmul, husedSame, hfreeSame, hfreeSum, husedSum, List.mem_cons,
      List.not_mem_nil, or_false] at hd
    rcases hd with rfl | rfl | rfl | rfl
    · dsimp only
      omega
    · dsimp only
      omega
    · dsimp only
      omega
    · dsimp only
      omega
  · dsimp only
    omega
  · dsimp only
    omega
  · dsimp only
    rw [List.map_cons, List.sum_cons]
    dsimp only
    omega

/-- A write of a client goes to no byte of the bitmap. -/
lemma Counted.write (hc : Counted g total h) (he : e ∈ h.live) {k : ℕ} (b : UInt8)
    (hk : k < e.count * 0x1000) :
    NoUnderflow h (.write e k b) ∧
      Counted g total ⟨{ h.phys with mem := Function.update h.phys.mem (e.ptr + k) b },
        h.live⟩ := by
  have hi := hc.inv
  obtain ⟨hfreeRam, htotal⟩ := hc.accounted
  have hx : e.Contains (e.ptr + k) := ⟨by omega, by omega⟩
  have hi' := (Step.write (b := b) he hx).inv hi
  have hclear : clearPages { h.phys with mem := Function.update h.phys.mem (e.ptr + k) b } =
      clearPages h.phys := by
    refine clearPages_congr rfl fun i hlt => Bitmap.get_congr (Function.update_of_ne ?_ _ _)
    have hout := hi.outside he hx
    have hpages := hi.pages_eq
    have hbuffer := hi.buffer_eq
    have hbyte := g.byte_lt (i := i) (by omega)
    dsimp only
    omega
  refine ⟨?_, hi', ⟨?_, htotal⟩, hc.live_le, hc.total_lt⟩
  · intro d hd
    exact absurd hd (by simp [subtractions])
  · rw [hclear]
    exact hfreeRam

/-- A request that keeps the sizes of the extents keeps the counters in agreement with the
bitmap, and none of its subtractions goes below zero. -/
lemma Counted.request (hc : Counted g total h) (hk : r.KeepsSize)
    (hs : PMemory.request r h = some h') : NoUnderflow h r ∧ Counted g total h' := by
  obtain ⟨count, p, s, rfl, halloc, hp, hcount, rfl⟩ | ⟨e, s, rfl, he, hfree, rfl⟩ |
    ⟨e, new, q, s, rfl, he, -, hrealloc, hq, rfl⟩ | ⟨e, k, b, rfl, he, hk, rfl⟩ := request_cases hs
  · exact hc.alloc hcount halloc hp
  · exact hc.free he hfree
  · obtain rfl : new = e.count := hk
    exact hc.realloc he hrealloc hq
  · exact hc.write he b hk

/-- A `realloc` to another size moves `freeRam` away from the bitmap. -/
lemma Counted.not_accounted (hc : Counted g total h) (hk : ¬ r.KeepsSize)
    (hs : PMemory.request r h = some h') : ¬ Accounted total h' := by
  obtain ⟨count, p, s, rfl, -⟩ | ⟨e, s, rfl, -⟩ | ⟨e, new, q, s, rfl, he, hnew, hrealloc, hq, rfl⟩ |
    ⟨e, k, b, rfl, -⟩ := request_cases hs
  · exact absurd trivial hk
  · exact absurd trivial hk
  · have hi := hc.inv
    rintro ⟨hfree, -⟩
    obtain ⟨hfreeRam, -⟩ := hc.accounted
    have hclear := clearPages_realloc hi he hnew hrealloc hq
    obtain ⟨page, -, hle, -, -, -, -, hfree'⟩ := hi.realloc_spec he hnew hrealloc hq
    have hpages := g.pages_lt
    have hbelow := hi.below e he
    have hne : new ≠ e.count := hk
    simp only [Word64.add, Word64.sub] at hfree'
    dsimp only at hfree
    omega
  · exact absurd trivial hk

/-! ## Runs -/

/-- After start-up the counters agree with the bitmap. -/
lemma boot_counted {mm : List MmapEntry} (hb : Bootable mm) (m : Mem) :
    ∃ g, Counted g ((boot mm m).phys.usedRam + (boot mm m).phys.freeRam) (boot mm m) := by
  obtain ⟨buffer, hi, -, hhigh⟩ := init_inv hb m
  have hfreeRam := init_freeRam hb m
  have hused : (boot mm m).phys.usedRam = 0 := by
    obtain ⟨pre, e, post, -, -, -, hinit⟩ := init_eq hb m
    rw [boot, hinit, survey_eq]
  have hlt : (boot mm m).phys.freeRam < 2 ^ 64 := (boot_ready mm m).free
  refine ⟨geometry mm buffer hb, hi, ⟨hfreeRam, rfl⟩, ?_, by omega⟩
  simp [boot]

/-- **The counters agree with the bitmap as long as no extent changes its size.**  In a run of
successful requests from start-up on, `freeRam` is the size of the free pages and
`usedRam + freeRam` stays as it was in every state, and no subtraction goes below zero, exactly
if every `realloc` asks for as many pages as the extent has. -/
theorem accounting_iff {mm : List MmapEntry} {m : Mem} {reqs : List Request} (hb : Bootable mm)
    (hr : exec PMemory.request reqs (boot mm m) = some h) :
    Always PMemory.request (Accounted ((boot mm m).phys.usedRam + (boot mm m).phys.freeRam)) reqs
        (boot mm m) ∧
      Along PMemory.request NoUnderflow reqs (boot mm m) ↔ ∀ r ∈ reqs, r.KeepsSize := by
  obtain ⟨g, hc⟩ := boot_counted hb m
  constructor
  · rintro ⟨halways, -⟩
    exact forall_mem_of_always (fun _ _ _ hc hk hs => (hc.request hk hs).2)
      (fun _ _ _ hc hk hs => hc.not_accounted hk hs) halways hr hc
  · intro hk
    exact along_always (fun _ _ _ hc hk hs => hc.request hk hs) (fun _ hc => hc.accounted) hk hr hc

lemma kept_sizes_runs : (exec request [.alloc 2, .write ⟨0x2000, 2⟩ 5 1, .realloc ⟨0x2000, 2⟩ 2,
    .free ⟨0x4000, 2⟩] (boot smallMap fun _ => 0)).isSome = true := by
  decide +kernel

/-- Two pages are handed out, written, moved and given back. -/
theorem accounting_smallMap :
    ∃ h, exec request [.alloc 2, .write ⟨0x2000, 2⟩ 5 1, .realloc ⟨0x2000, 2⟩ 2, .free ⟨0x4000, 2⟩]
        (boot smallMap fun _ => 0) = some h ∧
      Always request (Accounted ((boot smallMap fun _ => 0).phys.usedRam +
        (boot smallMap fun _ => 0).phys.freeRam))
        [.alloc 2, .write ⟨0x2000, 2⟩ 5 1, .realloc ⟨0x2000, 2⟩ 2, .free ⟨0x4000, 2⟩]
        (boot smallMap fun _ => 0) := by
  obtain ⟨h, hr⟩ := Option.isSome_iff_exists.mp kept_sizes_runs
  have hkeeps : ∀ r ∈ [Request.alloc 2, .write ⟨0x2000, 2⟩ 5 1, .realloc ⟨0x2000, 2⟩ 2,
      .free ⟨0x4000, 2⟩], r.KeepsSize := by
    simp [Request.KeepsSize]
  exact ⟨h, hr, ((accounting_iff smallMap_bootable hr).mpr hkeeps).1⟩

lemma grown_extent_runs : (exec request [.alloc 1, .realloc ⟨0x2000, 1⟩ 2]
    (boot smallMap fun _ => 0)).any
      (fun h => decide (h.phys.freeRam = 0x4000) && decide (clearPages h.phys = 5)) = true := by
  decide +kernel

/-- One page is exchanged for two: five pages are free, and `freeRam` says four. -/
theorem realloc_miscounts :
    ∃ h, exec request [.alloc 1, .realloc ⟨0x2000, 1⟩ 2] (boot smallMap fun _ => 0) = some h ∧
      h.phys.freeRam = 0x4000 ∧ clearPages h.phys = 5 ∧
      h.phys.freeRam ≠ 0x1000 * clearPages h.phys := by
  obtain ⟨h, hr, hcheck⟩ := (Option.any_eq_true _ _).mp grown_extent_runs
  simp only [Bool.and_eq_true, decide_eq_true_eq] at hcheck
  obtain ⟨hfree, hclear⟩ := hcheck
  exact ⟨h, hr, hfree, hclear, by rw [hfree, hclear]; norm_num⟩

end TurbOS.PMemory
