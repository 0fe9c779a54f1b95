import TurbOS.Memory.PageTree

/-!
# Page tables as a map

The translation of a virtual address is its entry in the last table, or zero if a table on
the way is missing.  An operation on the page of an address changes the translation of that
page and of no other, as long as the tables form a tree.
-/

open ByteMemory LinkedTrie

namespace TurbOS.VMemory

variable {s s' : Machine} {R : Set ℕ} {r : ℕ} {pagemap : Pagemap} {v v' : BitVec 64}
  {f : PDEntry → PDEntry}

/-- The entry of an address in its last table: whether it is present, the physical page and
the flags.  It is zero where a table is missing. -/
def translate (s : Machine) (r : ℕ) (v : BitVec 64) : PDEntry :=
  lookup PDEntry.next ⟨0⟩ (cells s) r (upper s.lvl5 v) (index v 12)

/-- The index of an address in the top table. -/
def topIndex (lvl5 : Bool) (v : BitVec 64) : Fin 512 := if lvl5 then index v 48 else index v 39

lemma upper_cons (lvl5 : Bool) (v : BitVec 64) :
    ∃ rest, upper lvl5 v = topIndex lvl5 v :: rest := by
  cases lvl5 <;> exact ⟨_, rfl⟩

/-- What changing the entry of the page of `v` through the top table `r` by `f` does to the
translations through all top tables in `R`. -/
structure Changes (R : Set ℕ) (r : ℕ) (v : BitVec 64) (f : PDEntry → PDEntry) (s s' : Machine) :
    Prop where
  lvl5 : s'.lvl5 = s.lvl5
  kernel : s'.kernel_pagemap = s.kernel_pagemap
  forest : Forest PDEntry.next (cells s') R s'.levels
  granted : Granted R s'.levels s'
  own : translate s' r v = f (translate s r v)
  frame : ∀ r' ∈ R, ∀ v', pageOf s.lvl5 v' ≠ pageOf s.lvl5 v →
    translate s' r' v' = translate s r' v'
  apart : ∀ r' ∈ R, r ≠ r' → ∀ v', ¬ Shared PDEntry.next (cells s) r r' (topIndex s.lvl5 v') →
    translate s' r' v' = translate s r' v'
  shared : ∀ r₁ ∈ R, ∀ r₂ ∈ R, r₁ ≠ r₂ → ∀ j,
    Shared PDEntry.next (cells s') r₁ r₂ j ↔ Shared PDEntry.next (cells s) r₁ r₂ j
  inner : ∀ k, k + 1 < s.levels → SmallAt R k s → SmallAt R k s'
  last : (∀ e, e.value.getLsbD 7 = false → (f e).value.getLsbD 7 = false) →
    ∀ k, k + 1 = s.levels → SmallAt R k s → SmallAt R k s'

/-- `change` walks down, links what is missing, and writes one entry of the last table. -/
lemma change_cases (htop : pagemap.TOPLVL = 0x1000 * r) (hr : r ∈ R)
    (h : Forest PDEntry.next (cells s) R s.levels) (hg : Granted R s.levels s)
    (hs' : pagemap.change v f s = some s') :
    ∃ s₁ n, Extends R s.levels s s₁ ∧
      reach PDEntry.next (cells s₁) r (upper s.lvl5 v) = some n ∧
      cells s' = put (cells s₁) n (index v 12) (f (cells s₁ n (index v 12))) ∧
      s'.pages = s₁.pages ∧ s'.lvl5 = s.lvl5 ∧ s'.kernel_pagemap = s.kernel_pagemap := by
  rw [Pagemap.change, virt2pte_eq, Option.map_map] at hs'
  obtain ⟨⟨t, s₁⟩, hwalk, hs'⟩ := Option.map_eq_some_iff.mp hs'
  rw [htop] at hwalk
  have hlen := length_upper s.lvl5 v
  have hnil : reach PDEntry.next (cells s) r [] = some r := rfl
  obtain ⟨n, rfl, hn, hext⟩ := descend_extends h hg hr hnil
    (by rw [Machine.levels, ← hlen]; simp) hwalk
  rw [List.nil_append] at hn
  refine ⟨s₁, n, hext, hn, ?_⟩
  rw [← hs']
  exact ⟨cells_modifyEntry s₁ n _ f, rfl, hext.lvl5, hext.kernel⟩

lemma change_changes (htop : pagemap.TOPLVL = 0x1000 * r) (hr : r ∈ R)
    (h : Forest PDEntry.next (cells s) R s.levels) (hg : Granted R s.levels s)
    (hs' : pagemap.change v f s = some s') : Changes R r v f s s' := by
  obtain ⟨s₁, n, hext, hn, hcells, hpages, hlvl5, hkernel⟩ := change_cases htop hr h hg hs'
  have hlevels : s'.levels = s.levels := by rw [Machine.levels, hlvl5, Machine.levels]
  have hlen : ∀ v, (upper s.lvl5 v).length + 1 = s.levels := length_upper s.lvl5
  have hbelow : Below PDEntry.next (cells s₁) R (upper s.lvl5 v).length n := .of_reach hr hn
  -- the translations afterwards
  have htrans : ∀ r' ∈ R, ∀ v', translate s' r' v' =
      if reach PDEntry.next (cells s₁) r' (upper s.lvl5 v') = some n ∧ index v' 12 = index v 12
      then f (cells s₁ n (index v 12)) else translate s r' v' := by
    intro r' hr' v'
    rw [translate, translate, hlvl5, hcells,
      put_lookup hext.forest hbelow (hlen v) hr' (hlen v') (index v' 12),
      hext.lookups r' hr' _ _ (hlen v')]
  have hpath : ∀ r' ∈ R, ∀ v', reach PDEntry.next (cells s₁) r' (upper s.lvl5 v') = some n →
      upper s.lvl5 v' = upper s.lvl5 v := by
    intro r' hr' v' hreach
    have hlt : ∀ v, (upper s.lvl5 v).length < s.levels := fun v => by have := hlen v; omega
    exact hext.forest.path_unique hr' hr (hlt v') (hlt v) hreach hn
  refine ⟨hlvl5, hkernel, ?_, ?_, ?_, fun r' hr' v' hne => ?_, fun r' hr' hne v' hns => ?_,
    fun r₁ hr₁ r₂ hr₂ hne j => ?_, fun k hk hs m j hm => ?_, fun hf k hk hs m j hm => ?_⟩
  · rw [hlevels, hcells]
    exact hext.forest.put hbelow (hlen v)
  · rw [hlevels]
    refine ⟨fun a ha => ?_, fun a ha => ?_, fun a ha => ?_, ?_⟩
    · exact hext.granted.aligned a (by rwa [hpages] at ha)
    · exact hext.granted.lt a (by rwa [hpages] at ha)
    · rw [hcells]
      exact Fresh.put hext.forest hbelow (hlen v)
        (hext.granted.fresh a (by rwa [hpages] at ha))
    · rw [hpages]
      exact hext.granted.nodup
  · -- the entry itself
    have hentry : translate s r v = cells s₁ n (index v 12) := by
      rw [translate, ← hext.lookups r hr _ _ (hlen v), lookup, hn]
      rfl
    rw [htrans r hr v, if_pos ⟨hn, rfl⟩, hentry]
  · rw [htrans r' hr' v', if_neg]
    rintro ⟨hreach, hindex⟩
    exact hne (pageOf_eq (hpath r' hr' v' hreach) hindex)
  · -- another top table reaches the last table only through a shared entry
    rw [htrans r' hr' v', if_neg]
    rintro ⟨hreach, -⟩
    have hsame := hpath r' hr' v' hreach
    obtain ⟨rest, hupper⟩ := upper_cons s.lvl5 v'
    rw [← hsame] at hn
    have hlt : (upper s.lvl5 v').length < s.levels := by have := hlen v'; omega
    rcases hext.forest.shared_of_reach hr hr' hlt hn hreach with heq | ⟨i, rest', hi, hshared⟩
    · exact hne heq
    · rw [hupper] at hi
      rw [← (List.cons.inj hi).1, hext.shared r hr r' hr' hne] at hshared
      exact hns hshared
  · have hd : 1 < s.levels := by
      rw [Machine.levels]
      split <;> omega
    rw [hcells, put_shared hext.forest hbelow (hlen v) hr₁ hr₂ hd, hext.shared r₁ hr₁ r₂ hr₂ hne]
  · rw [hcells] at hm ⊢
    rw [put_below hext.forest hbelow (hlen v) (by omega)] at hm
    rw [put_of_ne (.inl (hext.forest.ne_of_inner hbelow (hlen v) hk hm))]
    exact hext.small k (by omega) hs m j hm
  · rw [hcells] at hm ⊢
    rw [put_below hext.forest hbelow (hlen v) (by omega)] at hm
    have hold := hext.small k (by omega) hs
    by_cases hcell : m = n ∧ j = index v 12
    · obtain ⟨rfl, rfl⟩ := hcell
      rw [put_self]
      exact hf _ (hold m _ hm)
    · rw [put_of_ne (by tauto)]
      exact hold m j hm

/-- With a page for every level below the top, an operation returns. -/
lemma change_returns (hpages : 4 ≤ s.pages.length) (pagemap : Pagemap) (v : BitVec 64)
    (f : PDEntry → PDEntry) :
    ∃ s', pagemap.change v f s = some s' ∧ s.pages.length ≤ s'.pages.length + 4 := by
  have hlen : (upper s.lvl5 v).length ≤ 4 := by
    have := length_upper s.lvl5 v
    split at this <;> omega
  have henough : (upper s.lvl5 v).length ≤ s.pages.length := by omega
  obtain ⟨r, hr, hle⟩ := descend_returns henough pagemap.TOPLVL
  refine ⟨_, by rw [Pagemap.change, virt2pte_eq, hr]; rfl, ?_⟩
  simp only [Machine.modifyEntry, Machine.setEntry]
  omega

/-! ## One page at a time -/

/-- The operations on the page of an address. -/
inductive PageOp where
  | mapMem (vaddr paddr flags : BitVec 64)
  | unmapMem (vaddr : BitVec 64)
  | remapMem (vaddr_old vaddr_new flags : BitVec 64)
  | setFlags (vaddr flags : BitVec 64)
  | remFlags (vaddr flags : BitVec 64)
deriving DecidableEq, Repr

namespace PageOp

/-- Perform the operation. -/
def run (pagemap : Pagemap) : PageOp → Machine → Option Machine
  | mapMem vaddr paddr flags, s => pagemap.mapMem vaddr paddr flags s
  | unmapMem vaddr, s => pagemap.unmapMem vaddr s
  | remapMem vaddr_old vaddr_new flags, s => pagemap.remapMem vaddr_old vaddr_new flags s
  | setFlags vaddr flags, s => pagemap.setFlags vaddr flags s
  | remFlags vaddr flags, s => pagemap.remFlags vaddr flags s

/-- The addresses that the operation names. -/
def addresses : PageOp → List (BitVec 64)
  | mapMem vaddr _ _ => [vaddr]
  | unmapMem vaddr => [vaddr]
  | remapMem vaddr_old vaddr_new _ => [vaddr_old, vaddr_new]
  | setFlags vaddr _ => [vaddr]
  | remFlags vaddr _ => [vaddr]

/-- The flags that the operation sets. -/
def sets : PageOp → BitVec 64
  | mapMem _ _ flags => flags
  | unmapMem _ => 0
  | remapMem _ _ flags => flags
  | setFlags _ flags => flags
  | remFlags _ _ => 0

end PageOp

/-- The page of the top table. -/
def Pagemap.top (pagemap : Pagemap) : ℕ := pagemap.TOPLVL / 0x1000

/-- The tables of a page map form a tree: every table below the top one is linked from one
entry, the top one from none, and no entry that could link a table has the bit
`largerPages`. -/
structure Tree (pagemap : Pagemap) (s : Machine) : Prop where
  aligned : pagemap.TOPLVL % 0x1000 = 0
  top : ∀ k n i, Below PDEntry.next (cells s) {pagemap.top} k n → k + 1 < s.levels →
    (cells s n i).next ≠ some pagemap.top
  once : ∀ k n i k' n' i' m, Below PDEntry.next (cells s) {pagemap.top} k n →
    Below PDEntry.next (cells s) {pagemap.top} k' n' → k + 1 < s.levels → k' + 1 < s.levels →
    (cells s n i).next = some m → (cells s n' i').next = some m → n = n' ∧ i = i'
  small : ∀ k, k + 1 < s.levels → SmallAt {pagemap.top} k s

/-- No entry of any table has the bit `largerPages`, not even in the last tables. -/
def NoLarger (pagemap : Pagemap) (s : Machine) : Prop :=
  ∀ k < s.levels, SmallAt {pagemap.top} k s

lemma Tree.forest (h : Tree pagemap s) :
    Forest PDEntry.next (cells s) {pagemap.top} s.levels := by
  refine ⟨fun k n i r hn hk hr => ?_, fun k n i k' n' i' m hn hn' hk hk' hm hm' => ?_⟩
  · rw [Set.mem_singleton_iff.mp hr]
    exact h.top k n i hn hk
  · obtain ⟨rfl, rfl⟩ := h.once k n i k' n' i' m hn hn' hk hk' hm hm'
    exact ⟨rfl, .inl rfl⟩

lemma Tree.TOPLVL_eq (h : Tree pagemap s) : pagemap.TOPLVL = 0x1000 * pagemap.top := by
  have := h.aligned
  rw [Pagemap.top]
  omega

/-- One changed entry keeps the tree. -/
lemma Changes.tree (hc : Changes {pagemap.top} r v f s s') (h : Tree pagemap s) :
    Tree pagemap s' := by
  have hlevels : s'.levels = s.levels := by rw [Machine.levels, hc.lvl5, Machine.levels]
  refine ⟨h.aligned, fun k n i hn hk => hc.forest.root k n i _ hn hk rfl,
    fun k n i k' n' i' m hn hn' hk hk' hm hm' => ?_, fun k hk => ?_⟩
  · obtain ⟨rfl, rfl | ⟨hR, hR'⟩⟩ := hc.forest.once k n i k' n' i' m hn hn' hk hk' hm hm'
    · exact ⟨rfl, rfl⟩
    · exact ⟨hR.trans hR'.symm, rfl⟩
  · rw [hlevels] at hk
    exact hc.inner k hk (h.small k hk)

lemma Changes.noLarger (hc : Changes {pagemap.top} r v f s s')
    (hf : ∀ e, e.value.getLsbD 7 = false → (f e).value.getLsbD 7 = false)
    (h : NoLarger pagemap s) : NoLarger pagemap s' := by
  have hlevels : s'.levels = s.levels := by rw [Machine.levels, hc.lvl5, Machine.levels]
  intro k hk
  rw [hlevels] at hk
  by_cases hinner : k + 1 < s.levels
  · exact hc.inner k hinner (h k hk)
  · exact hc.last hf k (by omega) (h k hk)

/-- What an operation keeps that names the addresses `vs`; `sets` are the flags it sets. -/
structure Kept (pagemap : Pagemap) (vs : List (BitVec 64)) (sets : BitVec 64) (s s' : Machine) :
    Prop where
  lvl5 : s'.lvl5 = s.lvl5
  tree : Tree pagemap s'
  granted : Granted {pagemap.top} s'.levels s'
  noLarger : sets.getLsbD 7 = false → NoLarger pagemap s → NoLarger pagemap s'
  frame : ∀ v', (∀ v ∈ vs, pageOf s.lvl5 v' ≠ pageOf s.lvl5 v) →
    translate s' pagemap.top v' = translate s pagemap.top v'

lemma Kept.trans {s₁ s₂ s₃ : Machine} {vs vs' : List (BitVec 64)} {sets : BitVec 64}
    (h : Kept pagemap vs sets s₁ s₂) (h' : Kept pagemap vs' sets s₂ s₃) :
    Kept pagemap (vs ++ vs') sets s₁ s₃ where
  lvl5 := h'.lvl5.trans h.lvl5
  tree := h'.tree
  granted := h'.granted
  noLarger := fun hsets hs => h'.noLarger hsets (h.noLarger hsets hs)
  frame := fun v' hv' => by
    rw [h'.frame v' fun v hv => ?_, h.frame v' fun v hv => hv' v (List.mem_append_left _ hv)]
    rw [h.lvl5]
    exact hv' v (List.mem_append_right _ hv)

/-- One changed entry. -/
lemma change_kept {sets : BitVec 64} (h : Tree pagemap s)
    (hg : Granted {pagemap.top} s.levels s)
    (hf : sets.getLsbD 7 = false →
      ∀ e, e.value.getLsbD 7 = false → (f e).value.getLsbD 7 = false)
    (hs' : pagemap.change v f s = some s') : Kept pagemap [v] sets s s' := by
  have hc := change_changes h.TOPLVL_eq (Set.mem_singleton _) h.forest hg hs'
  refine ⟨hc.lvl5, hc.tree h, hc.granted, fun hsets => hc.noLarger (hf hsets), fun v' hv' => ?_⟩
  exact hc.frame _ (Set.mem_singleton _) v' (hv' v List.mem_cons_self)

lemma mapMem_kept {paddr flags : BitVec 64} (h : Tree pagemap s)
    (hg : Granted {pagemap.top} s.levels s) (hs' : pagemap.mapMem v paddr flags s = some s') :
    Kept pagemap [v] flags s s' := by
  refine change_kept h hg (fun hsets e he => ?_) hs'
  rw [PDEntry.getLsbD_setFlags, hsets, PDEntry.getLsbD_setAddress]
  simpa using he

/-- `remapMem` unmaps one address and maps the other. -/
lemma remapMem_cases {flags : BitVec 64} (hs' : pagemap.remapMem v v' flags s = some s') :
    ∃ s₁ paddr, pagemap.change v (fun _ => ⟨0⟩) s = some s₁ ∧
      pagemap.mapMem v' paddr flags s₁ = some s' := by
  obtain ⟨r, hr, hs'⟩ := Option.bind_eq_some_iff.mp hs'
  exact ⟨_, _, by rw [Pagemap.change, hr]; rfl, hs'⟩

lemma PageOp.kept {op : PageOp} (h : Tree pagemap s) (hg : Granted {pagemap.top} s.levels s)
    (hs' : op.run pagemap s = some s') : Kept pagemap op.addresses op.sets s s' := by
  cases op with
  | mapMem vaddr paddr flags => exact mapMem_kept h hg hs'
  | unmapMem vaddr => exact change_kept h hg (fun _ _ _ => by simp) hs'
  | remapMem vaddr_old vaddr_new flags =>
    obtain ⟨s₁, paddr, hs₁, hs'⟩ := remapMem_cases hs'
    have h₁ : Kept pagemap [vaddr_old] flags s s₁ :=
      change_kept h hg (fun _ _ _ => by simp) hs₁
    exact h₁.trans (mapMem_kept h₁.tree h₁.granted hs')
  | setFlags vaddr flags =>
    refine change_kept h hg (fun hsets e he => ?_) hs'
    have hflags : flags.getLsbD 7 = false := hsets
    rw [PDEntry.getLsbD_setFlags, hflags]
    simpa using he
  | remFlags vaddr flags =>
    refine change_kept h hg (fun _ e he => ?_) hs'
    rw [PDEntry.getLsbD_setFlags, he]
    simp

/-- An operation returns when there is a page for every table that may be missing. -/
lemma PageOp.returns (op : PageOp) (hpages : 4 * op.addresses.length ≤ s.pages.length) :
    ∃ s', op.run pagemap s = some s' := by
  have hone : ∀ (v : BitVec 64) (f : PDEntry → PDEntry), 4 ≤ s.pages.length →
      ∃ s', pagemap.change v f s = some s' := fun v f hlen => by
    obtain ⟨s', hs', -⟩ := change_returns hlen pagemap v f
    exact ⟨s', hs'⟩
  cases op with
  | mapMem vaddr paddr flags => exact hone vaddr _ hpages
  | unmapMem vaddr => exact hone vaddr _ hpages
  | remapMem vaddr_old vaddr_new flags =>
    have hpages : 8 ≤ s.pages.length := hpages
    have hold : 4 ≤ s.pages.length := by omega
    obtain ⟨s₁, hs₁, hlen⟩ := change_returns hold pagemap vaddr_old fun _ => ⟨0⟩
    obtain ⟨r, hr, rfl⟩ := Option.map_eq_some_iff.mp hs₁
    rw [run, Pagemap.remapMem, hr, Option.bind_some]
    have hnew : 4 ≤ (r.2.modifyEntry r.1.1 r.1.2 fun _ => ⟨0⟩).pages.length := by omega
    obtain ⟨s₂, hs₂, -⟩ := change_returns hnew pagemap vaddr_new _
    exact ⟨s₂, hs₂⟩
  | setFlags vaddr flags => exact hone vaddr _ hpages
  | remFlags vaddr flags => exact hone vaddr _ hpages

/-- **Page tables behave as a map, one page at a time.**  Every operation on a page map whose
tables form a tree returns (with enough pages), keeps the tree, and leaves the translation of
every page that it does not name as it was.  It brings the bit `largerPages` into an entry of
a last table only if it is told to set it. -/
theorem page_op_frame (op : PageOp) (h : Tree pagemap s) (hg : Granted {pagemap.top} s.levels s) :
    (4 * op.addresses.length ≤ s.pages.length → ∃ s', op.run pagemap s = some s') ∧
      ∀ s', op.run pagemap s = some s' →
        Tree pagemap s' ∧
        (op.sets &&& PT_Flag.largerPages.value = 0 → NoLarger pagemap s → NoLarger pagemap s') ∧
        ∀ v', (∀ v ∈ op.addresses, pageOf s.lvl5 v' ≠ pageOf s.lvl5 v) →
          translate s' pagemap.top v' = translate s pagemap.top v' := by
  refine ⟨op.returns, fun s' hs' => ?_⟩
  have hk := op.kept h hg hs'
  refine ⟨hk.tree, fun hsets => hk.noLarger ?_, hk.frame⟩
  have hbit : (op.sets &&& PT_Flag.largerPages.value).getLsbD 7 = op.sets.getLsbD 7 := by
    rw [BitVec.getLsbD_and, show PT_Flag.largerPages.value.getLsbD 7 = true by decide,
      Bool.and_true]
  rw [← hbit, hsets]
  simp

/-! ## Empty page maps -/

/-- A page map whose top table is blank has no other table. -/
lemma below_of_blank {k n : ℕ} (hblank : ∀ i, cells s r i = ⟨0⟩)
    (hn : Below PDEntry.next (cells s) {r} k n) : k = 0 ∧ n = r := by
  obtain ⟨r', hr', path, rfl, hreach⟩ := hn
  obtain rfl := Set.mem_singleton_iff.mp hr'
  cases path with
  | nil => exact ⟨rfl, (Option.some.inj hreach).symm⟩
  | cons i path =>
    rw [reach, hblank, blank_next] at hreach
    simp at hreach

lemma tree_of_blank (haligned : pagemap.TOPLVL % 0x1000 = 0)
    (hblank : ∀ i, cells s pagemap.top i = ⟨0⟩) : Tree pagemap s ∧ NoLarger pagemap s := by
  have hcell : ∀ {k n}, Below PDEntry.next (cells s) {pagemap.top} k n → ∀ i,
      cells s n i = ⟨0⟩ := by
    intro k n hn i
    rw [(below_of_blank hblank hn).2]
    exact hblank i
  have hsmall : ∀ k, SmallAt {pagemap.top} k s := fun k n i hn => by
    rw [hcell hn]
    simp
  refine ⟨⟨haligned, fun k n i hn _ => ?_, fun k n i k' n' i' m hn _ _ _ hm _ => ?_,
    fun k _ => hsmall k⟩, fun k _ => hsmall k⟩
  · rw [hcell hn, blank_next]
    simp
  · rw [hcell hn, blank_next] at hm
    simp at hm

/-- Pages other than that of the top table may be granted to an empty page map. -/
lemma granted_of_blank (hblank : ∀ i, cells s pagemap.top i = ⟨0⟩)
    (hpages : ∀ a ∈ s.pages, a % 0x1000 = 0 ∧ a < 2 ^ 52 ∧ a / 0x1000 ≠ pagemap.top)
    (hnodup : s.pages.Nodup) : Granted {pagemap.top} s.levels s := by
  refine ⟨fun a ha => (hpages a ha).1, fun a ha => (hpages a ha).2.1, fun a ha k _ hn => ?_, hnodup⟩
  exact (hpages a ha).2.2 (below_of_blank hblank hn).2

/-- In a page map without `largerPages` no translation has it. -/
lemma NoLarger.translate (h : NoLarger pagemap s) (v : BitVec 64) :
    (translate s pagemap.top v).value.getLsbD 7 = false := by
  have hlen : (upper s.lvl5 v).length + 1 = s.levels := length_upper s.lvl5 v
  rw [VMemory.translate, lookup]
  cases hreach : reach PDEntry.next (cells s) pagemap.top (upper s.lvl5 v) with
  | none => simp
  | some n =>
    exact h _ (by omega) n _ (.of_reach (Set.mem_singleton _) hreach)

/-- Blank memory, a top table at `0x1000`, and four pages for further tables. -/
def blankMachine : Machine :=
  { mem := fun _ => 0, pages := [0x2000, 0x3000, 0x4000, 0x5000] }

lemma blankMachine_cells (n : ℕ) (i : Fin 512) : cells blankMachine n i = ⟨0⟩ := by
  have hload : ∀ k a, load (fun _ => 0) a k = 0 := by
    intro k
    induction k with
    | zero => exact fun _ => rfl
    | succ k ih =>
      intro a
      rw [load, ih]
      rfl
  rw [cells, Machine.entry, blankMachine, hload]
  rfl

lemma blankMachine_granted : Granted {(⟨0x1000⟩ : Pagemap).top} blankMachine.levels blankMachine :=
  granted_of_blank (blankMachine_cells _) (by simp [blankMachine, Pagemap.top]) (by decide)

/-- Mapping the page at `0x7000` leaves the page at `0x8000` unmapped. -/
theorem page_op_frame_blankMachine :
    ∃ s', PageOp.run ⟨0x1000⟩ (.mapMem 0x7000 0x9000 3) blankMachine = some s' ∧
      Tree ⟨0x1000⟩ s' ∧ NoLarger ⟨0x1000⟩ s' ∧
      translate s' (⟨0x1000⟩ : Pagemap).top 0x8000 =
        translate blankMachine (⟨0x1000⟩ : Pagemap).top 0x8000 := by
  obtain ⟨htree, hsmall⟩ : Tree ⟨0x1000⟩ blankMachine ∧ NoLarger ⟨0x1000⟩ blankMachine :=
    tree_of_blank rfl (blankMachine_cells _)
  obtain ⟨hreturns, hpost⟩ := page_op_frame (.mapMem 0x7000 0x9000 3) htree blankMachine_granted
  obtain ⟨s', hs'⟩ := hreturns (by decide)
  obtain ⟨htree', hsmall', hframe⟩ := hpost s' hs'
  exact ⟨s', hs', htree', hsmall' (by decide) hsmall,
    hframe 0x8000 (by simp [PageOp.addresses, pageOf, blankMachine])⟩

/-- `mapMem` with the flag `largerPages` puts it into an entry of the last table. -/
theorem mapMem_sets_largerPages :
    Tree ⟨0x1000⟩ blankMachine ∧ NoLarger ⟨0x1000⟩ blankMachine ∧
      Granted {(⟨0x1000⟩ : Pagemap).top} blankMachine.levels blankMachine ∧
      ∃ s', PageOp.run ⟨0x1000⟩
        (.mapMem 0x7000 0x9000 (PT_Flag.present.value ||| PT_Flag.largerPages.value))
        blankMachine = some s' ∧ ¬ NoLarger ⟨0x1000⟩ s' := by
  obtain ⟨htree, hsmall⟩ : Tree ⟨0x1000⟩ blankMachine ∧ NoLarger ⟨0x1000⟩ blankMachine :=
    tree_of_blank rfl (blankMachine_cells _)
  have hg := blankMachine_granted
  obtain ⟨s', hs', -⟩ := change_returns (s := blankMachine) (by decide) ⟨0x1000⟩ 0x7000
    fun e => (e.setAddress (0x9000 >>> 12)).setFlags
      (PT_Flag.present.value ||| PT_Flag.largerPages.value) true
  refine ⟨htree, hsmall, hg, s', hs', fun hno => ?_⟩
  have hc := change_changes htree.TOPLVL_eq (Set.mem_singleton _) htree.forest hg hs'
  have hbit := hno.translate 0x7000
  rw [hc.own, PDEntry.getLsbD_setFlags, if_pos (by decide)] at hbit
  exact absurd hbit (by simp)

end TurbOS.VMemory
