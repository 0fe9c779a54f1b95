import TurbOS.Memory.Extents

/-!
# The allocator from start-up on

`init` builds the bitmap from the memory map of the boot loader.  This file computes the
geometry that `init` fixes, shows that the invariant of `Extents` holds after it, and
carries it along every run of `alloc`, `free`, `realloc` and writes of clients to their
own pages.
-/

open ByteMemory

namespace TurbOS.PMemory

/-- The page lies inside a usable entry of the memory map. -/
def UsablePage (mm : List MmapEntry) (i : ℕ) : Prop :=
  ∃ e ∈ mm, e.type = .usable ∧ e.base ≤ i * 0x1000 ∧ (i + 1) * 0x1000 ≤ e.base + e.length

/-- The page holds a byte of the bitmap. -/
def StoragePage (s : Phys) (i : ℕ) : Prop :=
  ∃ x, i * 0x1000 ≤ x ∧ x < (i + 1) * 0x1000 ∧
    s.buffer ≤ x ∧ x < s.buffer + bitmapSize s.highPage

/-- The end of the highest usable entry, as the first loop of `init` computes it. -/
def highPage (mm : List MmapEntry) : ℕ := (survey { mem := fun _ => 0 } mm).highPage

/-- What `init` takes for granted about the memory map: usable entries are page aligned
and disjoint, one of them has room for the bitmap, and the bitmap has a bit for every
page. -/
structure Bootable (mm : List MmapEntry) : Prop where
  aligned : ∀ e ∈ mm, e.type = .usable → 0x1000 ∣ e.base ∧ 0x1000 ∣ e.length
  disjoint : mm.Pairwise fun e e' => e.type = .usable → e'.type = .usable →
    ∀ x, e.base ≤ x → x < e.base + e.length → ¬ (e'.base ≤ x ∧ x < e'.base + e'.length)
  room : ∃ e ∈ mm, e.type = .usable ∧ bitmapSize (highPage mm) ≤ e.length
  covers : highPage mm / 0x1000 ≤ 8 * bitmapSize (highPage mm)

/-! ## The three loops of `init` -/

lemma survey_cons (s : Phys) (e : MmapEntry) (mm : List MmapEntry) :
    survey s (e :: mm) = survey (survey s [e]) mm := rfl

/-- The survey changes the counters only. -/
lemma survey_eq (s : Phys) (mm : List MmapEntry) :
    survey s mm =
      { s with freeRam := (survey s mm).freeRam, highPage := (survey s mm).highPage } := by
  induction mm generalizing s with
  | nil => rfl
  | cons e mm ih =>
    have hone : survey s [e] =
        { s with freeRam := (survey s [e]).freeRam, highPage := (survey s [e]).highPage } := by
      by_cases he : e.type = .usable <;> simp [survey, he]
    rw [survey_cons, ih (survey s [e])]
    generalize survey (survey s [e]) mm = t
    rw [hone]

/-- The highest top does not depend on the rest of the state. -/
lemma survey_highPage {s t : Phys} (h : s.highPage = t.highPage) (mm : List MmapEntry) :
    (survey s mm).highPage = (survey t mm).highPage := by
  induction mm generalizing s t with
  | nil => exact h
  | cons e mm ih =>
    rw [survey_cons, survey_cons t]
    refine ih ?_
    by_cases he : e.type = .usable <;> simp [survey, he, h]

lemma survey_highPage_lt {s : Phys} (h : s.highPage < 2 ^ 64) (mm : List MmapEntry) :
    (survey s mm).highPage < 2 ^ 64 := by
  induction mm generalizing s with
  | nil => exact h
  | cons e mm ih =>
    rw [survey_cons]
    refine ih ?_
    have := e.top_lt
    by_cases he : e.type = .usable
    · simp only [survey, List.foldl_cons, List.foldl_nil, he, ne_eq, not_true_eq_false, if_false]
      split <;> omega
    · simpa [survey, he] using h

lemma highPage_lt (mm : List MmapEntry) : highPage mm < 2 ^ 64 :=
  survey_highPage_lt (by norm_num) mm

/-- The entry that gives up its start to the bitmap. -/
lemma place_spec {size base : ℕ} {mm mm' : List MmapEntry} (h : place size mm = some (base, mm')) :
    ∃ pre e post, mm = pre ++ e :: post ∧ mm' = pre ++ e.shrink size :: post ∧
      e.type = .usable ∧ size ≤ e.length ∧ base = e.base := by
  induction mm generalizing mm' with
  | nil => simp [place] at h
  | cons e mm ih =>
    rw [place] at h
    split at h
    · rename_i he
      obtain ⟨rfl, rfl⟩ := Prod.mk.inj (Option.some.inj h)
      exact ⟨[], e, mm, rfl, rfl, he.1, he.2, rfl⟩
    · obtain ⟨⟨b, mm₁⟩, hplace, heq⟩ := Option.map_eq_some_iff.mp h
      obtain ⟨rfl, rfl⟩ := Prod.mk.inj heq
      obtain ⟨pre, e', post, rfl, rfl, h₁, h₂, h₃⟩ := ih hplace
      exact ⟨e :: pre, e', post, rfl, rfl, h₁, h₂, h₃⟩

lemma place_isSome {size : ℕ} {mm : List MmapEntry}
    (h : ∃ e ∈ mm, e.type = .usable ∧ size ≤ e.length) : ∃ r, place size mm = some r := by
  induction mm with
  | nil => simp at h
  | cons e mm ih =>
    rw [place]
    split
    · exact ⟨_, rfl⟩
    · rename_i hne
      obtain ⟨e', he', hus, hlen⟩ := h
      rcases List.mem_cons.mp he' with rfl | hmem
      · exact absurd ⟨hus, hlen⟩ hne
      · obtain ⟨r, hr⟩ := ih ⟨e', hmem, hus, hlen⟩
        exact ⟨(r.1, e :: r.2), by rw [hr]; rfl⟩

lemma MmapEntry.shrink_base {e : MmapEntry} {n : ℕ} (h : n ≤ e.length) :
    (e.shrink n).base = e.base + n := by
  rw [MmapEntry.shrink, dif_pos h]

lemma MmapEntry.shrink_length {e : MmapEntry} {n : ℕ} (h : n ≤ e.length) :
    (e.shrink n).length = e.length - n := by
  rw [MmapEntry.shrink, dif_pos h]

/-- The pages that the third loop releases for one entry. -/
def MmapEntry.Releases (e : MmapEntry) (i : ℕ) : Prop :=
  e.type = .usable ∧ e.base / 0x1000 ≤ i ∧
    i < e.base / 0x1000 + (e.length + (0x1000 - 1)) / 0x1000

/-- After the third loop a page is free when it was before or an entry released it. -/
lemma get_release (m : Mem) (buffer : ℕ) (mm : List MmapEntry) (i : ℕ) :
    Bitmap.get (release m buffer mm) buffer i = false ↔
      Bitmap.get m buffer i = false ∨ ∃ e ∈ mm, e.Releases i := by
  induction mm generalizing m with
  | nil => simp [release]
  | cons e mm ih =>
    rw [release, List.foldl_cons, ← release, ih]
    by_cases he : e.type = .usable
    · rw [if_neg (by simp [he]), Bitmap.get_setRange]
      by_cases hr : e.base / 0x1000 ≤ i ∧ i < e.base / 0x1000 + (e.length + (0x1000 - 1)) / 0x1000
      · simp [hr, MmapEntry.Releases, he]
      · rw [if_neg hr]
        simp [MmapEntry.Releases, he, hr]
    · simp [he, MmapEntry.Releases]

/-- Page alignment turns the released page numbers into an address range. -/
lemma MmapEntry.Releases.range {e : MmapEntry} {i : ℕ} (h : e.Releases i)
    (hb : 0x1000 ∣ e.base) (hl : 0x1000 ∣ e.length) :
    e.base ≤ i * 0x1000 ∧ (i + 1) * 0x1000 ≤ e.base + e.length := by
  obtain ⟨-, h₁, h₂⟩ := h
  omega

/-- A page of the freshly filled bitmap is marked. -/
lemma get_memset_ones {m : Mem} {buffer size i : ℕ} (hi : i < 8 * size) :
    Bitmap.get (memset m buffer 0xFF size) buffer i = true := by
  have hbyte : memset m buffer 0xFF size (buffer + i / 8) = 0xFF :=
    fill_inside (by omega) (by omega)
  have hk : 7 - i % 8 < 8 := by omega
  rw [Bitmap.get_eq, hbyte]
  generalize 7 - i % 8 = k at hk
  interval_cases k <;> rfl

/-! ## The geometry that `init` fixes -/

lemma dvd_bitmapSize {n : ℕ} (h : n < 2 ^ 64) : 0x1000 ∣ bitmapSize n :=
  dvd_alignUp (by norm_num) (by omega)

/-- The page `i` keeps clear of the `size` bytes from `buffer` on. -/
def ClearOf (buffer size i : ℕ) : Prop :=
  (i + 1) * 0x1000 ≤ buffer ∨ buffer + size ≤ i * 0x1000

/-- After `init` a free page is usable and holds no part of the bitmap. -/
lemma clearOf_of_releases {mm pre post : List MmapEntry} {e : MmapEntry} (hb : Bootable mm)
    (hmm : mm = pre ++ e :: post) (hus : e.type = .usable)
    (hlen : bitmapSize (highPage mm) ≤ e.length) {e' : MmapEntry} {i : ℕ}
    (he' : e' ∈ pre ++ e.shrink (bitmapSize (highPage mm)) :: post) (hrel : e'.Releases i) :
    UsablePage mm i ∧ ClearOf e.base (bitmapSize (highPage mm)) i := by
  have hsize := dvd_bitmapSize (highPage_lt mm)
  have hemem : e ∈ mm := by simp [hmm]
  obtain ⟨hdb, hdl⟩ := hb.aligned e hemem hus
  generalize bitmapSize (highPage mm) = size at *
  by_cases hshrink : e' = e.shrink size
  · subst hshrink
    have hr := hrel.range
      (by rw [MmapEntry.shrink_base hlen]; exact dvd_add hdb hsize)
      (by rw [MmapEntry.shrink_length hlen]; exact Nat.dvd_sub hdl hsize)
    rw [MmapEntry.shrink_base hlen, MmapEntry.shrink_length hlen] at hr
    exact ⟨⟨e, hemem, hus, by omega, by omega⟩, Or.inr (by omega)⟩
  · -- another entry: it does not meet `e`, and the bitmap lies in `e`
    have hmem : e' ∈ pre ∨ e' ∈ post := by
      simp only [List.mem_append, List.mem_cons] at he'
      tauto
    have hmem' : e' ∈ mm := by
      rw [hmm]
      simp only [List.mem_append, List.mem_cons]
      tauto
    obtain ⟨hdb', hdl'⟩ := hb.aligned e' hmem' hrel.1
    have hr := hrel.range hdb' hdl'
    refine ⟨⟨e', hmem', hrel.1, hr.1, hr.2⟩, ?_⟩
    have hmiss : ¬ (e.base ≤ i * 0x1000 ∧ i * 0x1000 < e.base + e.length) := by
      have hd := hb.disjoint
      rw [hmm, List.pairwise_append, List.pairwise_cons] at hd
      rcases hmem with hpre | hpost
      · exact hd.2.2 e' hpre e List.mem_cons_self hrel.1 hus (i * 0x1000) hr.1 (by omega)
      · rintro ⟨h₁, h₂⟩
        exact hd.2.1.1 e' hpost hus hrel.1 (i * 0x1000) h₁ h₂ ⟨hr.1, by omega⟩
    rw [ClearOf]
    omega

/-- What a memory map fixes: the pages below its highest usable address, and the bitmap
at the start of one usable entry. -/
def geometry (mm : List MmapEntry) (buffer : ℕ) (hb : Bootable mm) : Geometry where
  pages := highPage mm / 0x1000
  buffer := buffer
  size := bitmapSize (highPage mm)
  Ok i := UsablePage mm i ∧ ClearOf buffer (bitmapSize (highPage mm)) i
  pages_lt := by have := highPage_lt mm; omega
  covers := hb.covers
  apart := fun _ h => h.2

/-- What `init` makes of the memory map: the first entry with room gives up its start to the
bitmap, and the entries that are left are released. -/
lemma init_eq {mm : List MmapEntry} (hb : Bootable mm) (m : Mem) :
    ∃ pre e post, mm = pre ++ e :: post ∧ e.type = .usable ∧
      bitmapSize (highPage mm) ≤ e.length ∧
      init mm { mem := m } =
        { survey { mem := m } mm with
          mem := release (memset m e.base 0xFF (bitmapSize (highPage mm))) e.base
            (pre ++ e.shrink (bitmapSize (highPage mm)) :: post)
          buffer := e.base
          freeRam := Word64.sub (survey { mem := m } mm).freeRam (bitmapSize (highPage mm))
          isInit := true } := by
  have hhigh : (survey { mem := m } mm).highPage = highPage mm :=
    survey_highPage (s := { mem := m }) (t := { mem := fun _ => 0 }) rfl mm
  have hmem : (survey { mem := m } mm).mem = m := by rw [survey_eq]
  obtain ⟨⟨base, mm'⟩, hplace⟩ := place_isSome hb.room
  obtain ⟨pre, e, post, hmm, rfl, hus, hlen, rfl⟩ := place_spec hplace
  refine ⟨pre, e, post, hmm, hus, hlen, ?_⟩
  rw [init]
  simp only [Bool.false_eq_true, if_false, hhigh, hplace, hmem]

/-- After `init` nothing is live and the bitmap offers usable pages only. -/
lemma init_inv {mm : List MmapEntry} (hb : Bootable mm) (m : Mem) :
    ∃ buffer, Inv (geometry mm buffer hb) (init mm { mem := m }) [] ∧
      (init mm { mem := m }).buffer = buffer ∧
      (init mm { mem := m }).highPage = highPage mm := by
  have hhigh : (survey { mem := m } mm).highPage = highPage mm :=
    survey_highPage (s := { mem := m }) (t := { mem := fun _ => 0 }) rfl mm
  obtain ⟨pre, e, post, hmm, hus, hlen, hinit⟩ := init_eq hb m
  have hlast : (survey { mem := m } mm).last = 0 := by rw [survey_eq]
  have hlock : (survey { mem := m } mm).mmLock = false := by rw [survey_eq]
  refine ⟨e.base, ?_, by rw [hinit], by rw [hinit]; exact hhigh⟩
  rw [hinit]
  refine ⟨hlock, rfl, by simp only [hhigh]; rfl, by simp [hlast], ?_, by simp, by simp, by simp,
    by simp, by simp, List.Pairwise.nil⟩
  intro i hi hclear
  rcases (get_release _ _ _ _).mp hclear with hones | ⟨e', he', hrel⟩
  · have hbit : i < 8 * bitmapSize (highPage mm) := lt_of_lt_of_le hi hb.covers
    rw [get_memset_ones hbit] at hones
    exact absurd hones (by simp)
  · exact clearOf_of_releases hb hmm hus hlen he' hrel

/-! ## Runs -/

/-- The allocator together with what its clients hold. -/
structure Held where
  phys : Phys
  live : List Extent

/-- One call of a client, or one write of a client to a page it holds. -/
inductive Step : Held → Held → Prop
  | alloc {h : Held} {count p : ℕ} {s : Phys} (hcount : 1 ≤ count)
      (hs : alloc count h.phys = some (p, s)) (hp : p ≠ 0) :
      Step h ⟨s, ⟨p, count⟩ :: h.live⟩
  | free {h : Held} {e : Extent} {s : Phys} (he : e ∈ h.live)
      (hs : free e.ptr e.count h.phys = some s) : Step h ⟨s, h.live.erase e⟩
  | realloc {h : Held} {e : Extent} {new q : ℕ} {s : Phys} (he : e ∈ h.live)
      (hs : realloc e.ptr e.count new h.phys = some (q, s)) (hq : new ≠ 0 → q ≠ 0) :
      Step h ⟨s, if new = 0 then h.live.erase e else ⟨q, new⟩ :: h.live.erase e⟩
  | write {h : Held} {e : Extent} {x : ℕ} {b : UInt8} (he : e ∈ h.live) (hx : e.Contains x) :
      Step h ⟨{ h.phys with mem := Function.update h.phys.mem x b }, h.live⟩

/-- The states that runs from start-up reach; `m` is what memory held before. -/
inductive Reachable (mm : List MmapEntry) (m : Mem) : Held → Prop
  | init : Reachable mm m ⟨init mm { mem := m }, []⟩
  | step {h h' : Held} : Reachable mm m h → Step h h' → Reachable mm m h'

/-- One step keeps the invariant. -/
lemma Step.inv {g : Geometry} {h h' : Held} (hs : Step h h') (hi : Inv g h.phys h.live) :
    Inv g h'.phys h'.live := by
  cases hs with
  | alloc hcount hs hp => exact hi.alloc hcount hs hp
  | free he hs => exact (hi.perm (List.perm_cons_erase he)).freePages le_rfl hs
  | @realloc e new q s he hs hq =>
    have hi' := hi.perm (List.perm_cons_erase he)
    dsimp only
    split
    · rename_i hnew
      subst hnew
      rw [PMemory.realloc, if_neg (hi.nonempty e he).1, if_pos rfl] at hs
      obtain ⟨s₁, hfree, heq⟩ := Option.map_eq_some_iff.mp hs
      obtain ⟨-, rfl⟩ := Prod.mk.inj heq
      exact hi'.freePages le_rfl hfree
    · rename_i hnew
      exact (hi'.realloc hnew hs (hq hnew)).1
  | write he hx =>
    refine hi.of_agree _ _ _ fun x h₁ h₂ => Function.update_of_ne ?_ _ _
    rintro rfl
    have := hi.outside he hx
    omega

/-- No step moves the bitmap or the end of memory. -/
lemma Step.fixed {g : Geometry} {h h' : Held} (hs : Step h h') (hi : Inv g h.phys h.live) :
    h'.phys.buffer = h.phys.buffer ∧ h'.phys.highPage = h.phys.highPage := by
  have hlast : h.phys.last ≤ h.phys.highPage / 0x1000 := by rw [hi.pages_eq]; exact hi.last_le
  cases hs with
  | alloc hcount hs hp =>
    obtain ⟨-, page, -, -, -, rfl⟩ := alloc_cases hs hp hlast
    exact ⟨rfl, rfl⟩
  | free he hs =>
    obtain ⟨-, rfl⟩ := free_eq hs (hi.nonempty _ he).1
    exact ⟨rfl, rfl⟩
  | @realloc e new q s he hs hq =>
    rw [PMemory.realloc, if_neg (hi.nonempty e he).1] at hs
    split at hs
    · obtain ⟨s₁, hfree, heq⟩ := Option.map_eq_some_iff.mp hs
      obtain ⟨-, rfl⟩ := Prod.mk.inj heq
      obtain ⟨-, rfl⟩ := free_eq hfree (hi.nonempty _ he).1
      exact ⟨rfl, rfl⟩
    · rename_i hnew
      obtain ⟨⟨q', s₁⟩, halloc, hs⟩ := Option.bind_eq_some_iff.mp hs
      obtain ⟨s₂, hfree, heq⟩ := Option.map_eq_some_iff.mp hs
      obtain ⟨rfl, rfl⟩ := Prod.mk.inj heq
      obtain ⟨-, page, -, -, -, rfl⟩ := alloc_cases halloc (hq hnew) hlast
      obtain ⟨-, rfl⟩ := free_eq hfree (hi.nonempty _ he).1
      exact ⟨rfl, rfl⟩
  | write he hx => exact ⟨rfl, rfl⟩

/-- The invariant holds along every run. -/
lemma Reachable.inv {mm : List MmapEntry} {m : Mem} {h : Held} (hb : Bootable mm)
    (hr : Reachable mm m h) :
    ∃ buffer, Inv (geometry mm buffer hb) h.phys h.live ∧ h.phys.buffer = buffer ∧
      h.phys.highPage = highPage mm := by
  induction hr with
  | init => exact init_inv hb m
  | step _ hs ih =>
    obtain ⟨buffer, hi, hbuf, hhigh⟩ := ih
    obtain ⟨h₁, h₂⟩ := hs.fixed hi
    exact ⟨buffer, hs.inv hi, by rw [h₁, hbuf], by rw [h₂, hhigh]⟩

/-- **Physical pages are never handed out twice.**  In every state that a run reaches, a
live extent consists of consecutive pages below `highPage` that lie in usable memory and
hold no part of the bitmap, and no page belongs to two live extents. -/
theorem extents_sound {mm : List MmapEntry} {m : Mem} {h : Held} (hb : Bootable mm)
    (hr : Reachable mm m h) :
    (∀ e ∈ h.live, e.ptr = e.first * 0x1000 ∧
      (e.first + e.count) * 0x1000 ≤ h.phys.highPage ∧
      ∀ i, e.Covers i → UsablePage mm i ∧ ¬ StoragePage h.phys i) ∧
    h.live.Pairwise Extent.Apart := by
  obtain ⟨buffer, hi, hbuf, hhigh⟩ := hr.inv hb
  refine ⟨fun e he => ⟨hi.aligned e he, ?_, fun i hcov => ?_⟩, hi.apart⟩
  · have := hi.below e he
    have hpages := hi.pages_eq
    omega
  · obtain ⟨husable, hclear⟩ := hi.ok_of_covers e he i hcov
    refine ⟨husable, ?_⟩
    rintro ⟨x, h₁, h₂, h₃, h₄⟩
    rw [hbuf] at h₃ h₄
    rw [hhigh] at h₄
    rcases hclear with hc | hc
    · omega
    · omega

/-- A machine with eight usable pages; the bitmap takes the first of them. -/
def smallMap : List MmapEntry := [⟨0x1000, 0x8000, .usable, by norm_num⟩]

lemma smallMap_bootable : Bootable smallMap where
  aligned := by simp [smallMap]
  disjoint := List.pairwise_singleton _ _
  room := ⟨⟨0x1000, 0x8000, .usable, by norm_num⟩, by simp [smallMap], rfl, by decide⟩
  covers := by decide

/-- On the small machine three pages are handed out, and then one page more. -/
theorem extents_sound_smallMap :
    ∃ h, Reachable smallMap (fun _ => 0) h ∧ h.live = [⟨0x5000, 1⟩, ⟨0x2000, 3⟩] ∧
      Bootable smallMap ∧ h.live.Pairwise Extent.Apart := by
  have hfirst : (alloc 3 (init smallMap { mem := fun _ => 0 })).map Prod.fst = some 0x2000 := by
    decide +kernel
  have hsecond : ((alloc 3 (init smallMap { mem := fun _ => 0 })).bind
      fun r => (alloc 1 r.2).map Prod.fst) = some 0x5000 := by
    decide +kernel
  have hinit : Reachable smallMap (fun _ => 0) ⟨init smallMap { mem := fun _ => 0 }, []⟩ := .init
  generalize init smallMap { mem := fun _ => 0 } = s₀ at hfirst hsecond hinit
  obtain ⟨⟨p, s⟩, hs, rfl⟩ := Option.map_eq_some_iff.mp hfirst
  rw [hs, Option.bind_some] at hsecond
  obtain ⟨⟨q, t⟩, ht, rfl⟩ := Option.map_eq_some_iff.mp hsecond
  have hr := (hinit.step (.alloc (by norm_num) hs (by norm_num))).step
    (.alloc (by norm_num) ht (by norm_num))
  exact ⟨_, hr, rfl, smallMap_bootable, (extents_sound smallMap_bootable hr).2⟩

end TurbOS.PMemory
