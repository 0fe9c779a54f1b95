import TurbOS.Memory.Translation

/-!
# Address spaces

Every process gets a page map of its own.  `newPagemap` and `clonePagemap` copy the top table
of another page map, and nothing below it: what was mapped at that time hangs on tables that
both page maps use from then on.  So two page maps are apart exactly where their top tables
do not link the same table (`Shared`), and where they do they translate alike.
-/

open ByteMemory LinkedTrie

namespace TurbOS.VMemory

variable {s s' : Machine} {R : Set ℕ} {a b p r : ℕ} {v : BitVec 64}

/-! ## Copying a top table -/

lemma copyEntries_cells (s : Machine) (hpr : p ≠ r) {n : ℕ} (hn : n ≤ 512) (m : ℕ) (j : Fin 512) :
    cells (copyEntries (0x1000 * p) (0x1000 * r) n s) m j =
      if m = p ∧ (j : ℕ) < n then cells s r j else cells s m j := by
  induction n generalizing m j with
  | zero => simp [copyEntries]
  | succ n ih =>
    have hcells : cells (copyEntries (0x1000 * p) (0x1000 * r) (n + 1) s) =
        put (cells (copyEntries (0x1000 * p) (0x1000 * r) n s)) p ⟨n, by omega⟩
          (cells s r ⟨n, by omega⟩) := by
      have hold : (copyEntries (0x1000 * p) (0x1000 * r) n s).entry (0x1000 * r) n =
          cells s r ⟨n, by omega⟩ := by
        have := ih (by omega) r ⟨n, by omega⟩
        rw [if_neg (by simp)] at this
        exact this
      rw [copyEntries, hold]
      exact cells_setEntry _ p ⟨n, by omega⟩ _
    rw [hcells]
    by_cases hcell : m = p ∧ j = ⟨n, by omega⟩
    · obtain ⟨rfl, rfl⟩ := hcell
      rw [put_self, if_pos ⟨rfl, by simp⟩]
    · rw [put_of_ne (by tauto), ih (by omega)]
      have hiff : (m = p ∧ (j : ℕ) < n) ↔ (m = p ∧ (j : ℕ) < n + 1) := by
        constructor
        · rintro ⟨hm, hj⟩
          exact ⟨hm, by omega⟩
        · rintro ⟨hm, hj⟩
          refine ⟨hm, ?_⟩
          have hjn : (j : ℕ) ≠ n := fun h => hcell ⟨hm, Fin.ext h⟩
          omega
      simp only [hiff]

lemma copyEntries_rest (new old n : ℕ) (s : Machine) :
    (copyEntries new old n s).pages = s.pages ∧ (copyEntries new old n s).lvl5 = s.lvl5 ∧
      (copyEntries new old n s).kernel_pagemap = s.kernel_pagemap := by
  induction n with
  | zero => exact ⟨rfl, rfl, rfl⟩
  | succ n ih => exact ih

/-- What copying the top table `r` does; the new one is `p`. -/
structure Copied (R : Set ℕ) (r p : ℕ) (s s' : Machine) : Prop where
  fresh : Fresh PDEntry.next (cells s) R s.levels p
  tables : cells s' = copyRoot (cells s) r p
  forest : Forest PDEntry.next (cells s') (insert p R) s'.levels
  granted : Granted (insert p R) s'.levels s'
  lvl5 : s'.lvl5 = s.lvl5
  kernel : s'.kernel_pagemap = s.kernel_pagemap

lemma copy_copied {a : ℕ} {s₁ : Machine} (hr : r ∈ R)
    (h : Forest PDEntry.next (cells s) R s.levels) (hg : Granted R s.levels s)
    (halloc : s.alloc = some (a, s₁)) (hs' : s' = copyEntries a (0x1000 * r) 512 s₁) :
    ∃ p, a = 0x1000 * p ∧ Copied R r p s s' := by
  rw [Machine.alloc] at halloc
  split at halloc
  · simp at halloc
  rename_i a' ps hpages
  obtain ⟨rfl, hs₁⟩ := Prod.mk.inj (Option.some.inj halloc)
  have hmem : a' ∈ s.pages := by simp [hpages]
  obtain ⟨p, rfl⟩ : ∃ p, a' = 0x1000 * p := ⟨a' / 0x1000, by have := hg.aligned a' hmem; omega⟩
  have hfresh : Fresh PDEntry.next (cells s) R s.levels p := by
    have := hg.fresh _ hmem
    rwa [Nat.mul_div_cancel_left p (by omega)] at this
  have hd : 0 < s.levels := by
    rw [Machine.levels]
    split <;> omega
  have hrp : r ≠ p := hfresh.ne (below_zero hr) hd
  obtain ⟨hpages', hlvl5, hkernel⟩ := copyEntries_rest (0x1000 * p) (0x1000 * r) 512 s₁
  rw [← hs'] at hpages' hlvl5 hkernel
  rw [← hs₁] at hpages' hlvl5 hkernel hs'
  have hlevels : s'.levels = s.levels := by rw [Machine.levels, hlvl5, Machine.levels]
  have hcells : cells s' = copyRoot (cells s) r p := by
    funext m j
    rw [hs', copyEntries_cells _ hrp.symm le_rfl, cells_fill, copyRoot]
    by_cases hm : m = p
    · rw [if_pos ⟨hm, j.isLt⟩, if_pos hm, clear, if_neg hrp]
    · rw [if_neg (by tauto), if_neg hm, clear, if_neg hm]
  refine ⟨p, rfl, hfresh, hcells, ?_, ?_, hlvl5, hkernel⟩
  · rw [hlevels, hcells]
    exact h.copyRoot hr hfresh
  · have hsub : ∀ x ∈ s'.pages, x ∈ s.pages := fun x hx => by
      rw [hpages'] at hx
      simp [hpages, hx]
    have hnodup : (0x1000 * p) ∉ ps ∧ ps.Nodup := by
      have := hg.nodup
      rwa [hpages, List.nodup_cons] at this
    rw [hlevels]
    refine ⟨fun x hx => hg.aligned x (hsub x hx), fun x hx => hg.lt x (hsub x hx),
      fun x hx k hk hbelow => ?_, by rw [hpages']; exact hnodup.2⟩
    rw [hcells] at hbelow
    rcases copyRoot_below hr hfresh hk hbelow with hold | ⟨-, heq⟩
    · exact hg.fresh x (hsub x hx) k hk hold
    · -- the page of the new top table is granted only once
      have hx' := hg.aligned x (hsub x hx)
      rw [hpages'] at hx
      exact hnodup.1 (by rwa [show 0x1000 * p = x by omega])

/-! ## Histories -/

/-- The operations that map and unmap pages. -/
inductive MapOp where
  | mapMem (vaddr paddr flags : BitVec 64)
  | mapUserMem (vaddr paddr flags : BitVec 64)
  | unmapMem (vaddr : BitVec 64)
deriving DecidableEq, Repr

/-- Perform the operation. -/
def MapOp.run (pagemap : Pagemap) : MapOp → Machine → Option Machine
  | .mapMem vaddr paddr flags, s => pagemap.mapMem vaddr paddr flags s
  | .mapUserMem vaddr paddr flags, s => pagemap.mapUserMem vaddr paddr flags s
  | .unmapMem vaddr, s => pagemap.unmapMem vaddr s

/-- Perform a sequence of operations through one page map. -/
def runOps (pagemap : Pagemap) : List MapOp → Machine → Option Machine
  | [], s => some s
  | op :: ops, s => (op.run pagemap s).bind (runOps pagemap ops)

/-- Every operation changes the entry of one page. -/
lemma MapOp.run_eq (pagemap : Pagemap) (op : MapOp) (s : Machine) :
    ∃ v f, op.run pagemap s = pagemap.change v f s := by
  cases op with
  | mapMem vaddr paddr flags => exact ⟨_, _, rfl⟩
  | mapUserMem vaddr paddr flags => exact ⟨_, _, rfl⟩
  | unmapMem vaddr => exact ⟨_, _, rfl⟩

/-- The page maps that exist, named by the pages of their top tables, and the machine.  At
first there is the page map of the kernel, whose tables form a tree; page maps are created
from it and from one another, and pages are mapped and unmapped through all of them. -/
inductive Spaces : Set ℕ → Machine → Prop
  | boot {k : ℕ} {s : Machine} (hkernel : s.kernel_pagemap = some (0x1000 * k))
      (hforest : Forest PDEntry.next (cells s) {k} s.levels) (hgranted : Granted {k} s.levels s) :
      Spaces {k} s
  | newPagemap {R : Set ℕ} {s s' : Machine} {pagemap : Pagemap} (h : Spaces R s)
      (hs' : newPagemap s = some (pagemap, s')) : Spaces (insert pagemap.top R) s'
  | clonePagemap {R : Set ℕ} {s s' : Machine} {r : ℕ} {pagemap : Pagemap} (h : Spaces R s)
      (hr : r ∈ R) (hs' : clonePagemap ⟨0x1000 * r⟩ s = some (pagemap, s')) :
      Spaces (insert pagemap.top R) s'
  | op {R : Set ℕ} {s s' : Machine} {r : ℕ} {op : MapOp} (h : Spaces R s) (hr : r ∈ R)
      (hs' : op.run ⟨0x1000 * r⟩ s = some s') : Spaces R s'

/-- The tables of all page maps together. -/
structure Sound (R : Set ℕ) (s : Machine) : Prop where
  forest : Forest PDEntry.next (cells s) R s.levels
  granted : Granted R s.levels s
  kernel : ∃ k ∈ R, s.kernel_pagemap = some (0x1000 * k)

lemma Copied.sound (hc : Copied R r p s s') (h : Sound R s) : Sound (insert p R) s' := by
  obtain ⟨k, hk, hkernel⟩ := h.kernel
  exact ⟨hc.forest, hc.granted, k, Set.mem_insert_of_mem _ hk, hc.kernel.trans hkernel⟩

lemma clonePagemap_copied {pagemap : Pagemap} (h : Sound R s) (hr : r ∈ R)
    (hs' : clonePagemap ⟨0x1000 * r⟩ s = some (pagemap, s')) : Copied R r pagemap.top s s' := by
  obtain ⟨⟨a, s₁⟩, halloc, heq⟩ := Option.map_eq_some_iff.mp hs'
  obtain ⟨rfl, hcopy⟩ := Prod.mk.inj heq
  obtain ⟨p, rfl, hc⟩ := copy_copied hr h.forest h.granted halloc hcopy.symm
  rwa [Pagemap.top, Nat.mul_div_cancel_left p (by omega)]

/-- `newPagemap` is `clonePagemap` of the page map of the kernel. -/
lemma newPagemap_eq {k : ℕ} (hk : s.kernel_pagemap = some k) :
    newPagemap s = clonePagemap ⟨k⟩ s := by
  rw [newPagemap, hk, clonePagemap]

lemma MapOp.changes {op : MapOp} (h : Sound R s) (hr : r ∈ R)
    (hs' : op.run ⟨0x1000 * r⟩ s = some s') : ∃ v f, Changes R r v f s s' := by
  obtain ⟨v, f, heq⟩ := op.run_eq ⟨0x1000 * r⟩ s
  rw [heq] at hs'
  exact ⟨v, f, change_changes rfl hr h.forest h.granted hs'⟩

lemma Changes.sound {v : BitVec 64} {f : PDEntry → PDEntry} (hc : Changes R r v f s s')
    (h : Sound R s) : Sound R s' := by
  obtain ⟨k, hk, hkernel⟩ := h.kernel
  exact ⟨hc.forest, hc.granted, k, hk, hc.kernel.trans hkernel⟩

/-- In every history the tables of all page maps form a forest. -/
lemma Spaces.sound (h : Spaces R s) : Sound R s := by
  induction h with
  | boot hkernel hforest hgranted => exact ⟨hforest, hgranted, _, rfl, hkernel⟩
  | newPagemap _ hs' ih =>
    obtain ⟨k, hk, hkernel⟩ := ih.kernel
    rw [newPagemap_eq hkernel] at hs'
    exact (clonePagemap_copied ih hk hs').sound ih
  | clonePagemap _ hr hs' ih => exact (clonePagemap_copied ih hr hs').sound ih
  | op _ hr hs' ih =>
    obtain ⟨v, f, hc⟩ := MapOp.changes ih hr hs'
    exact hc.sound ih

/-- What a sequence of operations through the page map `a` keeps. -/
lemma runOps_apart {ops : List MapOp} (h : Sound R s) (ha : a ∈ R) (hb : b ∈ R) (hne : a ≠ b)
    (hrun : runOps ⟨0x1000 * a⟩ ops s = some s') :
    s'.lvl5 = s.lvl5 ∧
      (∀ j, Shared PDEntry.next (cells s') a b j ↔ Shared PDEntry.next (cells s) a b j) ∧
      ∀ v, ¬ Shared PDEntry.next (cells s) a b (topIndex s.lvl5 v) →
        translate s' b v = translate s b v := by
  induction ops generalizing s with
  | nil =>
    obtain rfl := Option.some.inj hrun
    exact ⟨rfl, fun _ => Iff.rfl, fun _ _ => rfl⟩
  | cons op ops ih =>
    obtain ⟨s₁, hs₁, hrest⟩ := Option.bind_eq_some_iff.mp hrun
    obtain ⟨v₁, f, hc⟩ := MapOp.changes h ha hs₁
    obtain ⟨hlvl5, hshared, hapart⟩ := ih (hc.sound h) hrest
    refine ⟨hlvl5.trans hc.lvl5, fun j => (hshared j).trans (hc.shared a ha b hb hne j),
      fun v hv => ?_⟩
    rw [hapart v, hc.apart b hb hne v hv]
    rw [hc.lvl5, hc.shared a ha b hb hne]
    exact hv

/-- **Address spaces.**  Whatever is mapped and unmapped through the page map `a`, the
translations through another page map `b` stay as they were, except for the addresses whose
tables the two page maps share; these they translate alike. -/
theorem spaces_apart {ops : List MapOp} (h : Spaces R s) (ha : a ∈ R) (hb : b ∈ R) (hne : a ≠ b)
    (hrun : runOps ⟨0x1000 * a⟩ ops s = some s') (v : BitVec 64) :
    (¬ Shared PDEntry.next (cells s) a b (topIndex s.lvl5 v) →
      translate s' b v = translate s b v) ∧
    (Shared PDEntry.next (cells s) a b (topIndex s.lvl5 v) →
      translate s' b v = translate s' a v) := by
  obtain ⟨hlvl5, hshared, hapart⟩ := runOps_apart h.sound ha hb hne hrun
  refine ⟨hapart v, fun hv => ?_⟩
  obtain ⟨rest, hupper⟩ := upper_cons s'.lvl5 v
  rw [← hlvl5, ← hshared] at hv
  rw [translate, translate, hupper]
  exact (hv.lookup_eq rest _).symm

/-! ## Two processes -/

/-- Blank memory, the top table of the kernel at `0x1000`, and pages for further tables. -/
def kernelMachine : Machine :=
  { blankMachine with
    pages := [0x2000, 0x3000, 0x4000, 0x5000, 0x6000, 0x7000, 0x8000, 0x9000]
    kernel_pagemap := some 0x1000 }

/-- The kernel maps the page at `0x7000`, two page maps are created, and then the first one
maps the page at `vaddr`: the two page maps, and the machine before and after that. -/
def twoSpaces (vaddr : BitVec 64) : Option (Pagemap × Pagemap × Machine × Machine) :=
  ((⟨0x1000⟩ : Pagemap).mapMem 0x7000 0x9000 3 kernelMachine).bind fun s =>
    (newPagemap s).bind fun a => (newPagemap a.2).bind fun b =>
      (a.1.mapMem vaddr 0xA000 3 b.2).map fun s' => (a.1, b.1, b.2, s')

lemma kernelMachine_spaces : Spaces {1} kernelMachine := by
  have hblank : ∀ i, cells kernelMachine (⟨0x1000⟩ : Pagemap).top i = ⟨0⟩ := fun i =>
    blankMachine_cells 1 i
  have htree : Tree ⟨0x1000⟩ kernelMachine ∧ NoLarger ⟨0x1000⟩ kernelMachine :=
    tree_of_blank rfl hblank
  exact .boot rfl htree.1.forest
    (granted_of_blank hblank (by simp [kernelMachine, Pagemap.top]) (by decide))

lemma twoSpaces_spaces {vaddr : BitVec 64} {pa pb : Pagemap}
    (h : twoSpaces vaddr = some (pa, pb, s, s')) :
    Spaces {pb.top, pa.top, 1} s ∧ pa.mapMem vaddr 0xA000 3 s = some s' := by
  obtain ⟨s₁, hs₁, h⟩ := Option.bind_eq_some_iff.mp h
  obtain ⟨⟨a, sa⟩, hsa, h⟩ := Option.bind_eq_some_iff.mp h
  obtain ⟨⟨b, sb⟩, hsb, h⟩ := Option.bind_eq_some_iff.mp h
  obtain ⟨s₂, hs₂, h⟩ := Option.map_eq_some_iff.mp h
  obtain ⟨rfl, rfl, rfl, rfl⟩ : a = pa ∧ b = pb ∧ sb = s ∧ s₂ = s' := by simpa using h
  have hop : MapOp.run ⟨0x1000 * 1⟩ (.mapMem 0x7000 0x9000 3) kernelMachine = some s₁ := hs₁
  have h₁ : Spaces {1} s₁ := .op kernelMachine_spaces rfl hop
  exact ⟨.newPagemap (.newPagemap h₁ hsa) hsb, hs₂⟩

/-- The second page map does not see what the first one maps at `2 ^ 39`. -/
theorem spaces_apart_twoSpaces :
    ∃ s s', Spaces {6, 5, 1} s ∧
      runOps ⟨0x1000 * 5⟩ [.mapMem 0x8000000000 0xA000 3] s = some s' ∧
      translate s' 5 0x8000000000 = ⟨0xA003⟩ ∧
      translate s' 6 0x8000000000 = translate s 6 0x8000000000 := by
  have hrun : (twoSpaces 0x8000000000).any (fun r => r.1 = ⟨0x5000⟩ ∧ r.2.1 = ⟨0x6000⟩ ∧
      (cells r.2.2.1 5 1).next = none ∧ r.2.2.1.lvl5 = false ∧
      translate r.2.2.2 5 0x8000000000 = ⟨0xA003⟩) := by
    decide +kernel
  obtain ⟨⟨pa, pb, s, s'⟩, hs, heq⟩ := (Option.any_eq_true _ _).mp hrun
  obtain ⟨hpa, hpb, hnone, hlvl5, htrans⟩ := of_decide_eq_true heq
  dsimp only at hpa hpb hnone hlvl5 htrans
  rw [hpa, hpb] at hs
  obtain ⟨hspaces, hmap⟩ := twoSpaces_spaces hs
  have hops : runOps ⟨0x1000 * 5⟩ [.mapMem 0x8000000000 0xA000 3] s = some s' := by
    rw [runOps, MapOp.run, hmap]
    rfl
  refine ⟨s, s', hspaces, hops, htrans, ?_⟩
  refine (spaces_apart hspaces (by simp [Pagemap.top]) (by simp [Pagemap.top]) (by decide)
    hops 0x8000000000).1 ?_
  rintro ⟨m, hm, -⟩
  have hindex : topIndex s.lvl5 0x8000000000 = 1 := by
    rw [hlvl5]
    decide +kernel
  rw [hindex, hnone] at hm
  simp at hm

/-- The second page map sees what the first one maps at `0x8000`, since the kernel had mapped
a page below the same entry of the top table before. -/
theorem mapping_shows_through :
    ∃ s s', Spaces {6, 5, 1} s ∧ runOps ⟨0x1000 * 5⟩ [.mapMem 0x8000 0xA000 3] s = some s' ∧
      translate s 6 0x8000 = ⟨0⟩ ∧ translate s' 6 0x8000 = ⟨0xA003⟩ := by
  have hrun : (twoSpaces 0x8000).any (fun r => r.1 = ⟨0x5000⟩ ∧ r.2.1 = ⟨0x6000⟩ ∧
      translate r.2.2.1 6 0x8000 = ⟨0⟩ ∧ translate r.2.2.2 6 0x8000 = ⟨0xA003⟩) := by
    decide +kernel
  obtain ⟨⟨pa, pb, s, s'⟩, hs, heq⟩ := (Option.any_eq_true _ _).mp hrun
  obtain ⟨hpa, hpb, hbefore, hafter⟩ := of_decide_eq_true heq
  dsimp only at hpa hpb hbefore hafter
  rw [hpa, hpb] at hs
  obtain ⟨hspaces, hmap⟩ := twoSpaces_spaces hs
  refine ⟨s, s', hspaces, ?_, hbefore, hafter⟩
  rw [runOps, MapOp.run, hmap]
  rfl

end TurbOS.VMemory
