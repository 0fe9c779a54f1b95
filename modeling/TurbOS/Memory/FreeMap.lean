import TurbOS.Lib.Counting
import TurbOS.Memory.Boot

/-!
# The free map after start-up

`init` goes over the memory map three times: it sums up the usable lengths, it takes the
bitmap out of the first entry with room, and it clears the bits of what is left.  This file
shows that the three agree.  A page is free exactly if it is usable and holds no part of the
bitmap, and `freeRam` is the size of the free pages.

The count goes through `Counting`: the pages of disjoint entries are disjoint runs below
`highPage`, and so are the pages of the bitmap and the free ones.
-/

open ByteMemory Counting

namespace TurbOS.PMemory

/-- The number of free pages below `highPage`. -/
def clearPages (s : Phys) : ℕ :=
  count (s.highPage / 0x1000) fun i => Bitmap.get s.mem s.buffer i = false

/-- The bytes of the usable entries. -/
def usableLength (mm : List MmapEntry) : ℕ :=
  (mm.map fun e => if e.type = .usable then e.length else 0).sum

instance (e : MmapEntry) : DecidablePred e.Releases := fun _ => inferInstanceAs (Decidable (_ ∧ _))

variable {mm : List MmapEntry}

/-! ## The sum of the usable lengths -/

lemma survey_top_le {s : Phys} {e : MmapEntry} (he : e ∈ mm) (hus : e.type = .usable) :
    e.base + e.length ≤ (survey s mm).highPage := by
  have hmono : ∀ (mm : List MmapEntry) (s : Phys), s.highPage ≤ (survey s mm).highPage := by
    intro mm
    induction mm with
    | nil => exact fun s => le_rfl
    | cons e mm ih =>
      intro s
      rw [survey_cons]
      refine le_trans ?_ (ih _)
      by_cases he : e.type = .usable
      · simp only [survey, List.foldl_cons, List.foldl_nil, he, ne_eq, not_true_eq_false, if_false]
        split <;> omega
      · simp [survey, he]
  induction mm generalizing s with
  | nil => simp at he
  | cons e' mm ih =>
    rw [survey_cons]
    rcases List.mem_cons.mp he with rfl | hmem
    · refine le_trans ?_ (hmono mm _)
      simp only [survey, List.foldl_cons, List.foldl_nil, hus, ne_eq, not_true_eq_false, if_false]
      split <;> omega
    · exact ih hmem

lemma top_le_highPage {e : MmapEntry} (he : e ∈ mm) (hus : e.type = .usable) :
    e.base + e.length ≤ highPage mm :=
  survey_top_le he hus

/-- The first loop of `init` adds up the usable lengths. -/
lemma survey_freeRam (s : Phys) (h : s.freeRam < 2 ^ 64) :
    (survey s mm).freeRam = (s.freeRam + usableLength mm) % 2 ^ 64 := by
  induction mm generalizing s with
  | nil => exact (Nat.mod_eq_of_lt h).symm
  | cons e mm ih =>
    rw [survey_cons]
    by_cases he : e.type = .usable
    · rw [ih _ (by simp [survey, he, Word64.add, Nat.mod_lt])]
      simp only [survey, List.foldl_cons, List.foldl_nil, he, ne_eq, not_true_eq_false, if_false,
        usableLength, List.map_cons, if_true, List.sum_cons, Word64.add]
      omega
    · rw [ih _ (by simpa [survey, he] using h)]
      simp [survey, he, usableLength]

/-! ## Counting the pages of the entries -/

/-- The pages of aligned entries that do not meet are as many as their lengths say. -/
lemma count_releases {n : ℕ}
    (haligned : ∀ e ∈ mm, e.type = .usable → 0x1000 ∣ e.base ∧ 0x1000 ∣ e.length)
    (hdisjoint : mm.Pairwise fun e e' => e.type = .usable → e'.type = .usable →
      ∀ x, e.base ≤ x → x < e.base + e.length → ¬ (e'.base ≤ x ∧ x < e'.base + e'.length))
    (htop : ∀ e ∈ mm, e.type = .usable → e.base + e.length ≤ n * 0x1000) :
    0x1000 * count n (fun i => ∃ e ∈ mm, e.Releases i) = usableLength mm := by
  induction mm with
  | nil =>
    rw [count_eq_zero (by simp)]
    rfl
  | cons e mm ih =>
    obtain ⟨hmiss, hrest⟩ := List.pairwise_cons.mp hdisjoint
    have ih := ih (fun e' he' => haligned e' (List.mem_cons_of_mem _ he')) hrest
      fun e' he' => htop e' (List.mem_cons_of_mem _ he')
    by_cases hus : e.type = .usable
    · obtain ⟨hbase, hlen⟩ := haligned e List.mem_cons_self hus
      have htop := htop e List.mem_cons_self hus
      have hadd : count n (fun i => ∃ e' ∈ e :: mm, e'.Releases i) =
          count n (fun i => ∃ e' ∈ mm, e'.Releases i) + e.length / 0x1000 := by
        refine count_add_run (a := e.base / 0x1000) (by omega) ?_ fun i _ => ?_
        · rintro i h₁ h₂ ⟨e', he', hrel⟩
          -- the first byte of a common page would belong to both entries
          obtain ⟨hbase', hlen'⟩ := haligned e' (List.mem_cons_of_mem _ he') hrel.1
          have hr := hrel.range hbase' hlen'
          exact hmiss e' he' hus hrel.1 (i * 0x1000) (by omega) (by omega) ⟨hr.1, by omega⟩
        · have hrel : e.Releases i ↔
              e.base / 0x1000 ≤ i ∧ i < e.base / 0x1000 + e.length / 0x1000 := by
            rw [MmapEntry.Releases]
            constructor
            · rintro ⟨-, h₁, h₂⟩
              exact ⟨h₁, by omega⟩
            · rintro ⟨h₁, h₂⟩
              exact ⟨hus, h₁, by omega⟩
          simp only [List.mem_cons, exists_eq_or_imp, hrel]
          exact or_comm
      rw [hadd, usableLength, List.map_cons, List.sum_cons, if_pos hus, ← usableLength, ← ih]
      omega
    · have hsame : count n (fun i => ∃ e' ∈ e :: mm, e'.Releases i) =
          count n (fun i => ∃ e' ∈ mm, e'.Releases i) :=
        count_congr fun i _ => by simp [MmapEntry.Releases, hus]
      rw [hsame, ih, usableLength, usableLength, List.map_cons, List.sum_cons, if_neg hus]
      omega

/-- The usable entries fit below `highPage`. -/
lemma Bootable.count_usable (hb : Bootable mm) :
    0x1000 * count (highPage mm / 0x1000) (fun i => ∃ e ∈ mm, e.Releases i) = usableLength mm := by
  refine count_releases hb.aligned hb.disjoint fun e he hus => ?_
  obtain ⟨hbase, hlen⟩ := hb.aligned e he hus
  have htop := top_le_highPage he hus
  omega

/-! ## The free pages -/

/-- An aligned entry releases the pages that lie inside of it. -/
lemma Bootable.releases_iff (hb : Bootable mm) (i : ℕ) :
    (∃ e ∈ mm, e.Releases i) ↔ UsablePage mm i := by
  constructor
  · rintro ⟨e, he, hrel⟩
    obtain ⟨hbase, hlen⟩ := hb.aligned e he hrel.1
    have hr := hrel.range hbase hlen
    exact ⟨e, he, hrel.1, hr.1, hr.2⟩
  · rintro ⟨e, he, hus, h₁, h₂⟩
    obtain ⟨hbase, hlen⟩ := hb.aligned e he hus
    exact ⟨e, he, hus, by omega, by omega⟩

/-- The bits that `init` leaves clear. -/
lemma init_get (hb : Bootable mm) (m : Mem) :
    ∃ e ∈ mm, e.type = .usable ∧ bitmapSize (highPage mm) ≤ e.length ∧
      (init mm { mem := m }).buffer = e.base ∧ ∀ i < highPage mm / 0x1000,
        Bitmap.get (init mm { mem := m }).mem (init mm { mem := m }).buffer i = false ↔
          UsablePage mm i ∧ ClearOf e.base (bitmapSize (highPage mm)) i := by
  obtain ⟨pre, e, post, hmm, hus, hlen, hinit⟩ := init_eq hb m
  have hemem : e ∈ mm := by simp [hmm]
  have hsize := dvd_bitmapSize (highPage_lt mm)
  refine ⟨e, hemem, hus, hlen, by rw [hinit], fun i hi => ?_⟩
  rw [hinit]
  dsimp only
  rw [get_release]
  constructor
  · rintro (hones | ⟨e', he', hrel⟩)
    · rw [get_memset_ones (lt_of_lt_of_le hi hb.covers)] at hones
      exact absurd hones (by simp)
    · exact clearOf_of_releases hb hmm hus hlen he' hrel
  · rintro ⟨⟨e', he', hus', h₁, h₂⟩, hclear⟩
    right
    obtain ⟨hbase, hlength⟩ := hb.aligned e' he' hus'
    have hcases : e' = e ∨ e' ∈ pre ∨ e' ∈ post := by
      rw [hmm, List.mem_append, List.mem_cons] at he'
      tauto
    rcases hcases with rfl | hother
    · -- the page comes after the bitmap, in what is left of the entry
      refine ⟨e'.shrink (bitmapSize (highPage mm)), by simp, ?_⟩
      have htype : (e'.shrink (bitmapSize (highPage mm))).type = .usable := by
        rw [MmapEntry.shrink, dif_pos hlen]
        exact hus'
      refine ⟨htype, ?_, ?_⟩
      · rw [MmapEntry.shrink_base hlen]
        rcases hclear with hc | hc <;> omega
      · rw [MmapEntry.shrink_base hlen, MmapEntry.shrink_length hlen]
        omega
    · refine ⟨e', ?_, hus', by omega, by omega⟩
      rw [List.mem_append, List.mem_cons]
      tauto

/-- A page holds no part of the bitmap exactly if it keeps clear of the whole of it. -/
lemma not_storagePage_iff {s : Phys} {i : ℕ} (hsize : 0 < bitmapSize s.highPage) :
    ¬ StoragePage s i ↔ ClearOf s.buffer (bitmapSize s.highPage) i := by
  constructor
  · intro h
    by_contra hclear
    rw [ClearOf] at hclear
    exact h ⟨max (i * 0x1000) s.buffer, by omega, by omega, by omega, by omega⟩
  · rintro hclear ⟨x, h₁, h₂, h₃, h₄⟩
    rcases hclear with hc | hc
    · omega
    · omega

/-- The free pages and the pages of the bitmap make up the usable pages. -/
lemma init_count (hb : Bootable mm) (m : Mem) :
    usableLength mm =
      0x1000 * clearPages (init mm { mem := m }) + bitmapSize (highPage mm) := by
  obtain ⟨e, he, hus, hlen, -, hget⟩ := init_get hb m
  have hhigh : (init mm { mem := m }).highPage = highPage mm := (init_inv hb m).choose_spec.2.2
  obtain ⟨hbase, hlength⟩ := hb.aligned e he hus
  have hsize := dvd_bitmapSize (highPage_lt mm)
  have htop := top_le_highPage he hus
  have hadd : count (highPage mm / 0x1000) (fun i => ∃ e ∈ mm, e.Releases i) =
      clearPages (init mm { mem := m }) + bitmapSize (highPage mm) / 0x1000 := by
    rw [clearPages, hhigh]
    refine count_add_run (a := e.base / 0x1000) (by omega) (fun i h₁ h₂ hclear => ?_) fun i hi => ?_
    · obtain ⟨-, hc⟩ := (hget i (by omega)).mp hclear
      rw [ClearOf] at hc
      omega
    · rw [hget i hi, hb.releases_iff, ClearOf]
      constructor
      · intro husable
        by_cases hrun : e.base / 0x1000 ≤ i ∧
          i < e.base / 0x1000 + bitmapSize (highPage mm) / 0x1000
        · exact .inr hrun
        · exact .inl ⟨husable, by omega⟩
      · rintro (⟨husable, -⟩ | ⟨h₁, h₂⟩)
        · exact husable
        · exact ⟨e, he, hus, by omega, by omega⟩
  rw [← hb.count_usable, hadd]
  omega

/-- The counter holds the bytes of the free pages. -/
lemma init_freeRam (hb : Bootable mm) (m : Mem) :
    (init mm { mem := m }).freeRam = 0x1000 * clearPages (init mm { mem := m }) := by
  have hcount := init_count hb m
  have hle : 0x1000 * count (highPage mm / 0x1000) (fun i => ∃ e ∈ mm, e.Releases i) ≤
      highPage mm := by
    have := count_le (n := highPage mm / 0x1000) (p := fun i => ∃ e ∈ mm, e.Releases i)
    omega
  have hhigh := highPage_lt mm
  have hsum : (survey { mem := m } mm).freeRam = usableLength mm % 2 ^ 64 := by
    rw [survey_freeRam { mem := m } (by norm_num), Nat.zero_add]
  obtain ⟨pre, e, post, -, -, -, hinit⟩ := init_eq hb m
  have hfree : (init mm { mem := m }).freeRam =
      Word64.sub (survey { mem := m } mm).freeRam (bitmapSize (highPage mm)) := by rw [hinit]
  rw [hb.count_usable] at hle
  rw [hfree, hsum, Word64.sub]
  omega

/-- **The initial free map.**  After `init` a page below `highPage` is free exactly if it lies in
a usable entry of the memory map and holds no part of the bitmap, and `freeRam` counts the free
pages. -/
theorem initial_free_map (hb : Bootable mm) (m : Mem) :
    (∀ i < (init mm { mem := m }).highPage / 0x1000,
      Bitmap.get (init mm { mem := m }).mem (init mm { mem := m }).buffer i = false ↔
        UsablePage mm i ∧ ¬ StoragePage (init mm { mem := m }) i) ∧
      (init mm { mem := m }).freeRam = 0x1000 * clearPages (init mm { mem := m }) := by
  obtain ⟨e, -, -, -, hbuffer, hget⟩ := init_get hb m
  have hhigh : (init mm { mem := m }).highPage = highPage mm := (init_inv hb m).choose_spec.2.2
  refine ⟨fun i hi => ?_, init_freeRam hb m⟩
  rw [hhigh] at hi
  have hcovers := hb.covers
  rw [not_storagePage_iff (by rw [hhigh]; omega), hhigh, hbuffer, ← hget i hi, hbuffer]

/-- On the small machine the pages `2` to `8` are free. -/
theorem initial_free_map_smallMap :
    Bootable smallMap ∧
      (init smallMap { mem := fun _ => 0 }).freeRam =
        0x1000 * clearPages (init smallMap { mem := fun _ => 0 }) ∧
      (init smallMap { mem := fun _ => 0 }).freeRam = 0x7000 :=
  ⟨smallMap_bootable, (initial_free_map smallMap_bootable _).2, by decide +kernel⟩

end TurbOS.PMemory
