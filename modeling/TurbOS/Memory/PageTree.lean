import TurbOS.Lib.LinkedTrie
import TurbOS.Memory.VMemory

/-!
# Page tables as tries

The tables of page maps are the nodes of tries: a table is named by the number of its page,
and a present entry in a table above the last level links the table whose page it holds.
The walk of `virt2pte` links new tables where one is missing, and the operations write one
entry of a last table at its end.
-/

open ByteMemory LinkedTrie

namespace TurbOS.VMemory

variable {s s' : Machine} {R : Set ℕ} {d n t : ℕ} {i : Fin 512} {e : PDEntry}

/-! ## Tables in memory -/

/-- The entries of the table in page `n`. -/
def cells (s : Machine) (n : ℕ) (i : Fin 512) : PDEntry := s.entry (0x1000 * n) i

/-- The page of the table that a present entry links. -/
def PDEntry.next (e : PDEntry) : Option ℕ :=
  if e.getFlag .present then some e.getAddress.toNat else none

/-- The number of levels. -/
def Machine.levels (s : Machine) : ℕ := if s.lvl5 then 5 else 4

lemma toNat_getAddress_lt (e : PDEntry) : e.getAddress.toNat < 2 ^ 40 := by
  refine Nat.lt_pow_two_of_testBit _ fun j hj => ?_
  rw [BitVec.testBit_toNat, PDEntry.getLsbD_getAddress, decide_eq_false (by omega), Bool.false_and]

lemma toNat_getAddress_shiftLeft (e : PDEntry) :
    (e.getAddress <<< 12).toNat = 0x1000 * e.getAddress.toNat := by
  have hlt := toNat_getAddress_lt e
  rw [BitVec.toNat_shiftLeft, Nat.shiftLeft_eq, Nat.mod_eq_of_lt (by omega)]
  omega

lemma cells_setEntry (s : Machine) (n : ℕ) (i : Fin 512) (e : PDEntry) :
    cells (s.setEntry (0x1000 * n) i e) = put (cells s) n i e := by
  funext m j
  by_cases hcell : m = n ∧ j = i
  · obtain ⟨rfl, rfl⟩ := hcell
    rw [put_self, cells, Machine.entry, Machine.setEntry, load_store_self]
    simp [Nat.mod_eq_of_lt e.value.isLt]
  · rw [put_of_ne (by tauto), cells, cells, Machine.entry, Machine.setEntry, Machine.entry,
      load_store_disjoint]
    have hi := i.isLt
    have hj := j.isLt
    have hne : m ≠ n ∨ (j : ℕ) ≠ i := by
      by_contra hboth
      push Not at hboth
      exact hcell ⟨hboth.1, Fin.ext hboth.2⟩
    omega

lemma cells_modifyEntry (s : Machine) (n : ℕ) (i : Fin 512) (f : PDEntry → PDEntry) :
    cells (s.modifyEntry (0x1000 * n) i f) = put (cells s) n i (f (cells s n i)) :=
  cells_setEntry s n i _

/-- The cells of a page that was filled with zeros. -/
lemma cells_fill (s : Machine) (p : ℕ) (pages : List ℕ) :
    cells { s with mem := fill s.mem (0x1000 * p) 0 0x1000, pages := pages } =
      clear ⟨0⟩ (cells s) p := by
  funext m j
  have hj := j.isLt
  rw [clear, cells, cells, Machine.entry, Machine.entry]
  split
  · rename_i hm
    have hzero : ∀ n a, 0x1000 * p ≤ a → a + n ≤ 0x1000 * p + 0x1000 →
        load (fill s.mem (0x1000 * p) 0 0x1000) a n = 0 := by
      intro n
      induction n with
      | zero => exact fun _ _ _ => rfl
      | succ n ih =>
        intro a h₁ h₂
        rw [load, fill_inside h₁ (by omega), ih (a + 1) (by omega) (by omega)]
        rfl
    rw [hzero _ _ (by omega) (by omega)]
    rfl
  · rename_i hm
    have hsame : load (fill s.mem (0x1000 * p) 0 0x1000) (0x1000 * m + 8 * j) 8 =
        load s.mem (0x1000 * m + 8 * j) 8 :=
      load_congr fun x h₁ h₂ => fill_outside (by omega)
    rw [hsame]

/-! ## Linking a table -/

/-- What `pMemory::alloc` is relied on for: the pages that it returns are page-aligned, below
`2 ^ 52`, and not tables. -/
structure Granted (R : Set ℕ) (d : ℕ) (s : Machine) : Prop where
  aligned : ∀ a ∈ s.pages, a % 0x1000 = 0
  lt : ∀ a ∈ s.pages, a < 2 ^ 52
  fresh : ∀ a ∈ s.pages, Fresh PDEntry.next (cells s) R d (a / 0x1000)
  nodup : s.pages.Nodup

/-- No entry of the tables in level `k` has the bit `largerPages`. -/
def SmallAt (R : Set ℕ) (k : ℕ) (s : Machine) : Prop :=
  ∀ n i, Below PDEntry.next (cells s) R k n → (cells s n i).value.getLsbD 7 = false

/-- The entry that `get_next_lvl` makes of a missing one. -/
def linkEntry (e : PDEntry) (a : ℕ) : PDEntry :=
  (e.setAddress (BitVec.ofNat 64 a >>> 12)).setFlags
    (PT_Flag.present.value ||| PT_Flag.readNwrite.value ||| PT_Flag.userSuper.value) true

lemma getLsbD_linkFlags (j : ℕ) :
    (PT_Flag.present.value ||| PT_Flag.readNwrite.value ||| PT_Flag.userSuper.value).getLsbD j =
      decide (j < 3) :=
  getLsbD_eq_decide (P := fun j => j < 3) (by decide) (fun _ h => by omega) j

lemma linkEntry_next {a : ℕ} (hlt : a < 2 ^ 52) :
    (linkEntry e a).next = some (a / 0x1000) := by
  have hpresent : (linkEntry e a).getFlag .present = true := by
    rw [PDEntry.getFlag_present, linkEntry, PDEntry.getLsbD_setFlags, getLsbD_linkFlags]
    rfl
  rw [PDEntry.next, if_pos hpresent]
  congr 1
  refine Nat.eq_of_testBit_eq fun j => ?_
  rw [BitVec.testBit_toNat, PDEntry.getLsbD_getAddress, linkEntry, PDEntry.getLsbD_setFlags,
    getLsbD_linkFlags, PDEntry.getLsbD_setAddress, show 0x1000 = 2 ^ 12 by rfl,
    Nat.testBit_div_two_pow]
  by_cases hj : j < 40
  · have hbit : (BitVec.ofNat 64 a).getLsbD (j + 12) = a.testBit (j + 12) := by
      rw [BitVec.getLsbD_ofNat, decide_eq_true (by omega), Bool.true_and]
    rw [decide_eq_true hj, Bool.true_and, if_neg (by simp), if_pos (by omega), Nat.add_sub_cancel,
      BitVec.getLsbD_ushiftRight, Nat.add_comm 12 j, hbit]
  · have hlow : a.testBit (j + 12) = false :=
      Nat.testBit_lt_two_pow (lt_of_lt_of_le hlt (Nat.pow_le_pow_right (by omega) (by omega)))
    simp [hj, hlow]

/-- What linking tables leaves as it was. -/
structure Extends (R : Set ℕ) (d : ℕ) (s s' : Machine) : Prop where
  forest : Forest PDEntry.next (cells s') R d
  granted : Granted R d s'
  walks : ∀ r ∈ R, ∀ path n, path.length < d → reach PDEntry.next (cells s) r path = some n →
    reach PDEntry.next (cells s') r path = some n
  lookups : ∀ r ∈ R, ∀ path j, path.length + 1 = d →
    lookup PDEntry.next ⟨0⟩ (cells s') r path j = lookup PDEntry.next ⟨0⟩ (cells s) r path j
  shared : ∀ r ∈ R, ∀ r' ∈ R, r ≠ r' → ∀ j, Shared PDEntry.next (cells s') r r' j ↔
    Shared PDEntry.next (cells s) r r' j
  small : ∀ k < d, SmallAt R k s → SmallAt R k s'
  lvl5 : s'.lvl5 = s.lvl5
  kernel : s'.kernel_pagemap = s.kernel_pagemap
  supply : s'.pages <:+ s.pages

lemma Extends.refl (h : Forest PDEntry.next (cells s) R d) (hg : Granted R d s) :
    Extends R d s s where
  forest := h
  granted := hg
  walks := fun _ _ _ _ _ hreach => hreach
  lookups := fun _ _ _ _ _ => rfl
  shared := fun _ _ _ _ _ _ => Iff.rfl
  small := fun _ _ hs => hs
  lvl5 := rfl
  kernel := rfl
  supply := List.suffix_rfl

lemma Extends.trans {s₁ s₂ s₃ : Machine} (h : Extends R d s₁ s₂) (h' : Extends R d s₂ s₃) :
    Extends R d s₁ s₃ where
  forest := h'.forest
  granted := h'.granted
  walks := fun r hr path n hlen hreach =>
    h'.walks r hr path n hlen (h.walks r hr path n hlen hreach)
  lookups := fun r hr path j hlen =>
    (h'.lookups r hr path j hlen).trans (h.lookups r hr path j hlen)
  shared := fun r hr r' hr' hne j =>
    (h'.shared r hr r' hr' hne j).trans (h.shared r hr r' hr' hne j)
  small := fun k hk hs => h'.small k hk (h.small k hk hs)
  lvl5 := h'.lvl5.trans h.lvl5
  kernel := h'.kernel.trans h.kernel
  supply := h'.supply.trans h.supply

lemma getLsbD_linkEntry (e : PDEntry) (a : ℕ) :
    (linkEntry e a).value.getLsbD 7 = e.value.getLsbD 7 := by
  rw [linkEntry, PDEntry.getLsbD_setFlags, getLsbD_linkFlags, PDEntry.getLsbD_setAddress]
  rfl

lemma blank_next : PDEntry.next ⟨0⟩ = none := by decide

/-- Linking the next page that is granted. -/
lemma grow_extends {k q : ℕ} (h : Forest PDEntry.next (cells s) R d) (hg : Granted R d s)
    (hn : Below PDEntry.next (cells s) R k n) (hk : k + 1 < d) (hnone : (cells s n i).next = none)
    (hpages : s.pages = 0x1000 * q :: s'.pages)
    (hcells : cells s' = grow ⟨0⟩ (cells s) n i q (linkEntry (cells s n i) (0x1000 * q)))
    (hlvl5 : s'.lvl5 = s.lvl5) (hkernel : s'.kernel_pagemap = s.kernel_pagemap) :
    (cells s' n i).next = some q ∧ Extends R d s s' := by
  have hmem : 0x1000 * q ∈ s.pages := by simp [hpages]
  have hp : Fresh PDEntry.next (cells s) R d q := by
    have := hg.fresh _ hmem
    rwa [Nat.mul_div_cancel_left q (by omega)] at this
  have he : (linkEntry (cells s n i) (0x1000 * q)).next = some q := by
    rw [linkEntry_next (hg.lt _ hmem), Nat.mul_div_cancel_left q (by omega)]
  have hsub : ∀ a ∈ s'.pages, a ∈ s.pages := fun a ha => by simp [hpages, ha]
  have hnodup : (0x1000 * q) ∉ s'.pages ∧ s'.pages.Nodup := by
    have := hg.nodup
    rwa [hpages, List.nodup_cons] at this
  refine ⟨by rw [hcells, grow_self, he], ?_⟩
  refine ⟨?_, ⟨fun a ha => hg.aligned a (hsub a ha), fun a ha => hg.lt a (hsub a ha),
    fun a ha => ?_, hnodup.2⟩, fun r hr path m hlen hreach => ?_, fun r hr path j hlen => ?_,
    fun r hr r' hr' hne j => ?_, fun l hl hs m j hm => ?_, hlvl5, hkernel, ?_⟩
  · rw [hcells]
    exact h.grow hn hk hnone hp he blank_next
  · rw [hcells]
    refine Fresh.grow hn hk hnone hp he blank_next (hg.fresh a (hsub a ha)) ?_
    rintro rfl
    have ha' := hg.aligned a (hsub a ha)
    exact hnodup.1 (by rwa [show 0x1000 * (a / 0x1000) = a by omega])
  · rw [hcells]
    exact grow_reach_of_some hnone hp hr hlen hreach
  · rw [hcells]
    exact grow_lookup h hn hk hnone hp he blank_next hr hlen j
  · rw [hcells]
    exact grow_shared hn hk hnone hp he hr hr' hne
  · rw [hcells] at hm ⊢
    rcases grow_below hn hk hnone hp he blank_next hl hm with hold | rfl
    · by_cases hcell : m = n ∧ j = i
      · obtain ⟨rfl, rfl⟩ := hcell
        rw [grow_self, getLsbD_linkEntry]
        exact hs m j hold
      · rw [grow_of_ne (hp.ne hold hl) (by tauto)]
        exact hs m j hold
    · rw [grow_new (hp.ne hn (by omega)).symm]
      simp
  · rw [hpages]
    exact List.suffix_cons _ _

/-- `get_next_lvl` returns the table that the entry links, after linking a new one if it was
missing. -/
lemma get_next_lvl_extends {k ret : ℕ} (h : Forest PDEntry.next (cells s) R d) (hg : Granted R d s)
    (hn : Below PDEntry.next (cells s) R k n) (hk : k + 1 < d)
    (hret : get_next_lvl (0x1000 * n) i s = some (ret, s')) :
    ∃ q, ret = 0x1000 * q ∧ (cells s' n i).next = some q ∧ Extends R d s s' := by
  rw [get_next_lvl] at hret
  split at hret
  · rename_i hpresent
    obtain ⟨rfl, rfl⟩ := Prod.mk.inj (Option.some.inj hret)
    exact ⟨(cells s n i).getAddress.toNat, toNat_getAddress_shiftLeft _, if_pos hpresent,
      .refl h hg⟩
  · rename_i habsent
    have hnone : (cells s n i).next = none := if_neg habsent
    obtain ⟨⟨a, s₁⟩, halloc, hret⟩ := Option.map_eq_some_iff.mp hret
    obtain ⟨rfl, hs'⟩ := Prod.mk.inj hret
    rw [Machine.alloc] at halloc
    split at halloc
    · simp at halloc
    rename_i p ps hpages
    obtain ⟨rfl, hs₁⟩ := Prod.mk.inj (Option.some.inj halloc)
    have hmem : p ∈ s.pages := by simp [hpages]
    obtain ⟨q, rfl⟩ : ∃ q, p = 0x1000 * q :=
      ⟨p / 0x1000, by have := hg.aligned p hmem; omega⟩
    have hnq : n ≠ q := by
      have hfresh := hg.fresh _ hmem
      rw [Nat.mul_div_cancel_left q (by omega)] at hfresh
      exact hfresh.ne hn (by omega)
    -- the two assignments to the entry are one
    have hcells : cells s' = grow ⟨0⟩ (cells s) n i q (linkEntry (cells s n i) (0x1000 * q)) := by
      rw [← hs', cells_modifyEntry, cells_modifyEntry, ← hs₁, cells_fill, put_put, put_self, grow,
        linkEntry]
      simp [clear, hnq]
    have hrest : s'.pages = ps ∧ s'.lvl5 = s.lvl5 ∧ s'.kernel_pagemap = s.kernel_pagemap := by
      rw [← hs', ← hs₁]
      exact ⟨rfl, rfl, rfl⟩
    obtain ⟨hnext, hext⟩ := grow_extends h hg hn hk hnone (by rw [hpages, hrest.1]) hcells
      hrest.2.1 hrest.2.2
    exact ⟨q, rfl, hnext, hext⟩

/-! ## Walking down -/

/-- The walk of `virt2pte` along a list of indices. -/
def descend : List (Fin 512) → ℕ → Machine → Option (ℕ × Machine)
  | [], table, s => some (table, s)
  | i :: path, table, s => (get_next_lvl table i s).bind fun r => descend path r.1 r.2

/-- A walk ends in the table that its indices reach, and changes nothing else. -/
lemma descend_extends {r ret : ℕ} {init path : List (Fin 512)}
    (h : Forest PDEntry.next (cells s) R d) (hg : Granted R d s) (hr : r ∈ R)
    (hreach : reach PDEntry.next (cells s) r init = some n) (hlen : init.length + path.length < d)
    (hret : descend path (0x1000 * n) s = some (ret, s')) :
    ∃ q, ret = 0x1000 * q ∧ reach PDEntry.next (cells s') r (init ++ path) = some q ∧
      Extends R d s s' := by
  induction path generalizing init n s with
  | nil =>
    obtain ⟨rfl, rfl⟩ := Prod.mk.inj (Option.some.inj hret)
    exact ⟨n, rfl, by rw [List.append_nil]; exact hreach, .refl h hg⟩
  | cons i path ih =>
    rw [List.length_cons] at hlen
    obtain ⟨⟨t, s₁⟩, hnext, hret⟩ := Option.bind_eq_some_iff.mp hret
    obtain ⟨q, rfl, hq, hext⟩ :=
      get_next_lvl_extends h hg (.of_reach hr hreach) (by omega) hnext
    have hreach₁ : reach PDEntry.next (cells s₁) r (init ++ [i]) = some q := by
      rw [reach_append_singleton, hext.walks r hr init n (by omega) hreach]
      exact hq
    obtain ⟨q', rfl, hq', hext'⟩ := ih hext.forest hext.granted hreach₁ (by simp; omega) hret
    rw [List.append_assoc, List.singleton_append] at hq'
    exact ⟨q', rfl, hq', hext.trans hext'⟩

/-- With a page for every level, a walk returns. -/
lemma descend_returns {path : List (Fin 512)} (hpages : path.length ≤ s.pages.length) (table : ℕ) :
    ∃ r, descend path table s = some r ∧ s.pages.length ≤ r.2.pages.length + path.length := by
  induction path generalizing table s with
  | nil => exact ⟨(table, s), rfl, by simp⟩
  | cons i path ih =>
    rw [List.length_cons] at hpages ⊢
    obtain ⟨r, hr, hlen⟩ : ∃ r, get_next_lvl table i s = some r ∧
        s.pages.length ≤ r.2.pages.length + 1 := by
      rw [get_next_lvl]
      split
      · exact ⟨_, rfl, by simp⟩
      · cases hp : s.pages with
        | nil => simp [hp] at hpages
        | cons p ps =>
          rw [Machine.alloc, hp, Option.map_some]
          exact ⟨_, rfl, by simp [Machine.modifyEntry, Machine.setEntry]⟩
    obtain ⟨r', hr', hlen'⟩ := ih (s := r.2) (by omega) r.1
    exact ⟨r', by rw [descend, hr]; exact hr', by omega⟩

/-! ## Addresses -/

/-- The index of an address in a table, as the processor takes it. -/
def index (vaddr : BitVec 64) (shift : ℕ) : Fin 512 := Fin.ofNat 512 (vaddr.toNat / 2 ^ shift)

/-- The indices that lead to the last table, from the top. -/
def upper (lvl5 : Bool) (vaddr : BitVec 64) : List (Fin 512) :=
  (if lvl5 then [index vaddr 48] else []) ++ [index vaddr 39, index vaddr 30, index vaddr 21]

/-- The number of the virtual page: the bits `12` to `47` of the address, or to `56` with
five levels. -/
def pageOf (lvl5 : Bool) (vaddr : BitVec 64) : ℕ :=
  vaddr.toNat / 2 ^ 12 % 2 ^ (if lvl5 then 45 else 36)

lemma length_upper (lvl5 : Bool) (vaddr : BitVec 64) :
    (upper lvl5 vaddr).length + 1 = if lvl5 then 5 else 4 := by
  cases lvl5 <;> rfl

lemma tableIndex_eq (vaddr : BitVec 64) {shift : ℕ} (h : shift + 9 ≤ 64) :
    tableIndex vaddr shift = index vaddr shift := by
  have hmask : ∀ j, (0x1FF#64).getLsbD j = decide (j < 9) :=
    getLsbD_eq_decide (P := fun j => j < 9) (by decide) fun _ h => by omega
  refine Nat.eq_of_testBit_eq fun j => ?_
  rw [tableIndex, index, Fin.val_ofNat, show 512 = 2 ^ 9 by rfl, Nat.testBit_mod_two_pow,
    Nat.testBit_div_two_pow, BitVec.testBit_toNat, BitVec.testBit_toNat,
    BitVec.getLsbD_ushiftRight, BitVec.getLsbD_and, BitVec.getLsbD_shiftLeft, hmask,
    Nat.add_comm shift j, Nat.add_sub_cancel]
  by_cases hj : j < 9
  · simp [hj]
    omega
  · simp [hj]

/-- The indices of an address say which page it is in. -/
lemma pageOf_eq {lvl5 : Bool} {v v' : BitVec 64} (hupper : upper lvl5 v = upper lvl5 v')
    (hlast : index v 12 = index v' 12) : pageOf lvl5 v = pageOf lvl5 v' := by
  simp only [index, Fin.ext_iff, Fin.val_ofNat] at hlast
  cases lvl5 with
  | false =>
    simp only [upper, index, Bool.false_eq_true, if_false, List.nil_append, List.cons.injEq,
      Fin.ext_iff, Fin.val_ofNat, and_true] at hupper
    simp only [pageOf, Bool.false_eq_true, if_false]
    omega
  | true =>
    simp only [upper, index, if_true, List.cons_append, List.nil_append, List.cons.injEq,
      Fin.ext_iff, Fin.val_ofNat, and_true] at hupper
    simp only [pageOf, if_true]
    omega

lemma virt2pte_eq (pagemap : Pagemap) (vaddr : BitVec 64) (s : Machine) :
    pagemap.virt2pte vaddr s = (descend (upper s.lvl5 vaddr) pagemap.TOPLVL s).map fun r =>
      ((r.1, (index vaddr 12 : ℕ)), r.2) := by
  rw [Pagemap.virt2pte, tableIndex_eq _ (by omega), tableIndex_eq _ (by omega),
    tableIndex_eq _ (by omega), tableIndex_eq _ (by omega), tableIndex_eq _ (by omega), upper]
  cases s.lvl5 <;> simp [descend, Option.bind_assoc, Option.map_eq_bind]

end TurbOS.VMemory
