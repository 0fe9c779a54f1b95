import TurbOS.Memory.Translation

/-!
# What a mapping holds

`mapMem` writes the address into the entry and adds the flags; `setAddress` keeps the flags that
the entry had, and `setFlags` only adds to them.  `remapMem` does not ask whether the page that it
moves was mapped.  So the entry holds exactly what was asked for if no other flag was left in it,
and, for `remapMem`, if there was a mapping to move.
-/

open ByteMemory LinkedTrie

namespace TurbOS.VMemory

variable {s s' : Machine} {pagemap : Pagemap} {v a b : BitVec 64} {fs : List PT_Flag}

/-! ## Flag sets -/

/-- The bits of some flags. -/
def flagSet : List PT_Flag → BitVec 64
  | [] => 0
  | flag :: fs => flag.value ||| flagSet fs

/-- No flag is a bit of the address. -/
lemma flagSet_address {j : ℕ} (h₁ : 12 ≤ j) (h₂ : j < 52) : (flagSet fs).getLsbD j = false := by
  have hflag : ∀ (flag : PT_Flag) (i : Fin 64), 12 ≤ i.val → i.val < 52 →
      flag.value.getLsbD i = false := by
    intro flag
    cases flag <;> decide
  induction fs with
  | nil => exact BitVec.getLsbD_zero
  | cons flag fs ih =>
    rw [flagSet, BitVec.getLsbD_or, hflag flag ⟨j, by omega⟩ h₁ h₂, ih]
    rfl

lemma flagSet_present : (flagSet fs).getLsbD 0 = decide (PT_Flag.present ∈ fs) := by
  have hflag : ∀ flag : PT_Flag, flag.value.getLsbD 0 = decide (PT_Flag.present = flag) := by
    intro flag
    cases flag <;> decide
  induction fs with
  | nil => rfl
  | cons flag fs ih =>
    rw [flagSet, BitVec.getLsbD_or, hflag, ih, ← Bool.decide_or]
    exact decide_eq_decide.mpr List.mem_cons.symm

/-! ## Entries -/

namespace PDEntry

variable (e : PDEntry)

/-- The bits of an entry that do not belong to the address. -/
def flags : BitVec 64 := e.value &&& 0xFFF0000000000FFF#64

lemma getLsbD_flags (j : ℕ) :
    e.flags.getLsbD j = (e.value.getLsbD j && decide (j < 12 ∨ 52 ≤ j ∧ j < 64)) := by
  have hmask : (0xFFF0000000000FFF#64).getLsbD j = decide (j < 12 ∨ 52 ≤ j ∧ j < 64) :=
    getLsbD_eq_decide (P := fun j => j < 12 ∨ 52 ≤ j ∧ j < 64) (by decide) (fun _ h => by omega) _
  rw [flags, BitVec.getLsbD_and, hmask]

/-- The entry holds the page and exactly the flags. -/
structure Holds (page flags : BitVec 64) : Prop where
  address : e.getAddress = page
  flags : e.flags = flags

/-- The entry that `mapMem` writes. -/
def mapped (paddr flags : BitVec 64) : PDEntry := (e.setAddress (paddr >>> 12)).setFlags flags true

lemma getLsbD_mapped (paddr : BitVec 64) (fs : List PT_Flag) (j : ℕ) :
    (e.mapped paddr (flagSet fs)).value.getLsbD j =
      ((flagSet fs).getLsbD j ||
        if 12 ≤ j ∧ j < 52 then paddr.getLsbD j else e.value.getLsbD j) := by
  rw [mapped, getLsbD_setFlags, getLsbD_setAddress]
  cases hf : (flagSet fs).getLsbD j with
  | true => simp
  | false =>
    rw [if_neg (by simp), Bool.false_or]
    split
    · rw [BitVec.getLsbD_ushiftRight, show 12 + (j - 12) = j by omega]
    · rfl

lemma getAddress_mapped {paddr : BitVec 64} (hp : paddr.toNat < 2 ^ 52) :
    (e.mapped paddr (flagSet fs)).getAddress = paddr >>> 12 := by
  refine BitVec.eq_of_getLsbD_eq fun j _ => ?_
  rw [getLsbD_getAddress, getLsbD_mapped, BitVec.getLsbD_ushiftRight, Nat.add_comm 12 j]
  by_cases hj : j < 40
  · rw [flagSet_address (by omega) (by omega), if_pos (by omega), decide_eq_true hj, Bool.true_and,
      Bool.false_or]
  · have hhigh : paddr.getLsbD (j + 12) = false := by
      rw [← BitVec.testBit_toNat]
      exact Nat.testBit_lt_two_pow (lt_of_lt_of_le hp (Nat.pow_le_pow_right (by omega) (by omega)))
    rw [hhigh, decide_eq_false hj, Bool.false_and]

/-- The flags are added to those that are there. -/
lemma flags_mapped (paddr : BitVec 64) :
    (e.mapped paddr (flagSet fs)).flags = e.flags ||| flagSet fs := by
  refine BitVec.eq_of_getLsbD_eq fun j hj => ?_
  rw [BitVec.getLsbD_or, getLsbD_flags, getLsbD_flags, getLsbD_mapped]
  by_cases haddr : 12 ≤ j ∧ j < 52
  · rw [flagSet_address haddr.1 haddr.2, decide_eq_false (by omega)]
    simp
  · rw [if_neg haddr, decide_eq_true (by omega), Bool.and_true, Bool.and_true, Bool.or_comm]

lemma holds_mapped_iff {paddr : BitVec 64} (hp : paddr.toNat < 2 ^ 52) :
    (e.mapped paddr (flagSet fs)).Holds (paddr >>> 12) (flagSet fs) ↔
      e.flags ||| flagSet fs = flagSet fs := by
  rw [← flags_mapped e paddr]
  constructor
  · intro h
    exact h.flags
  · intro h
    exact ⟨getAddress_mapped e hp, h⟩

lemma present_mapped (paddr : BitVec 64) :
    (e.mapped paddr (flagSet fs)).getFlag .present =
      (decide (PT_Flag.present ∈ fs) || e.getFlag .present) := by
  rw [getFlag_present, getLsbD_mapped, flagSet_present, getFlag_present, if_neg (by omega)]

/-- The address of an entry as a physical address. -/
lemma getAddress_shift :
    (e.getAddress <<< 12).toNat < 2 ^ 52 ∧ e.getAddress <<< 12 >>> 12 = e.getAddress := by
  have hlt := toNat_getAddress_lt e
  have hshift := toNat_getAddress_shiftLeft e
  refine ⟨by omega, BitVec.eq_of_toNat_eq ?_⟩
  rw [BitVec.toNat_ushiftRight, hshift, Nat.shiftRight_eq_div_pow]
  omega

end PDEntry

/-! ## The operations -/

/-- The entry that `virt2pte` finds, also where it has just linked the table. -/
lemma virt2pte_entry (h : Tree pagemap s) (hg : Granted {pagemap.top} s.levels s)
    {t : (ℕ × ℕ) × Machine} (ht : pagemap.virt2pte v s = some t) :
    t.2.entry t.1.1 t.1.2 = translate s pagemap.top v := by
  rw [virt2pte_eq] at ht
  obtain ⟨⟨table, s₁⟩, hwalk, rfl⟩ := Option.map_eq_some_iff.mp ht
  rw [h.TOPLVL_eq] at hwalk
  have hlen := length_upper s.lvl5 v
  have hr : pagemap.top ∈ ({pagemap.top} : Set ℕ) := Set.mem_singleton _
  have hnil : reach PDEntry.next (cells s) pagemap.top [] = some pagemap.top := rfl
  obtain ⟨n, rfl, hn, hext⟩ := descend_extends h.forest hg hr hnil
    (by rw [Machine.levels, ← hlen]; simp) hwalk
  rw [List.nil_append] at hn
  rw [translate, ← hext.lookups _ hr _ _ hlen, lookup, hn]
  rfl

/-- The entry of the page after `mapMem`. -/
lemma mapMem_own {paddr flags : BitVec 64} (h : Tree pagemap s)
    (hg : Granted {pagemap.top} s.levels s) (hs' : pagemap.mapMem v paddr flags s = some s') :
    translate s' pagemap.top v = (translate s pagemap.top v).mapped paddr flags :=
  (change_changes h.TOPLVL_eq (Set.mem_singleton _) h.forest hg hs').own

/-- The entries of both pages after `remapMem`. -/
lemma remapMem_own {flags : BitVec 64} (h : Tree pagemap s) (hg : Granted {pagemap.top} s.levels s)
    (hne : pageOf s.lvl5 a ≠ pageOf s.lvl5 b) (hs' : pagemap.remapMem a b flags s = some s') :
    translate s' pagemap.top a = ⟨0⟩ ∧ translate s' pagemap.top b =
      (translate s pagemap.top b).mapped ((translate s pagemap.top a).getAddress <<< 12) flags := by
  obtain ⟨t, ht, hs'⟩ := Option.bind_eq_some_iff.mp hs'
  dsimp only at hs'
  rw [virt2pte_entry h hg ht] at hs'
  have hs₁ : pagemap.change a (fun _ => ⟨0⟩) s =
      some (t.2.modifyEntry t.1.1 t.1.2 fun _ => ⟨0⟩) := by
    rw [Pagemap.change, ht]
    rfl
  generalize t.2.modifyEntry t.1.1 t.1.2 (fun _ => ⟨0⟩) = s₁ at hs' hs₁
  have hc := change_changes h.TOPLVL_eq (Set.mem_singleton _) h.forest hg hs₁
  have hk := mapMem_kept (hc.tree h) hc.granted hs'
  constructor
  · -- the second step does not touch the page of the first one
    rw [hk.frame a fun v hv => ?_, hc.own]
    rw [List.mem_singleton.mp hv, hc.lvl5]
    exact hne
  · rw [mapMem_own (hc.tree h) hc.granted hs', hc.frame _ (Set.mem_singleton _) b hne.symm]

/-! ## The main result -/

/-- What `remapMem` is asked for: the page of `a` is unmapped, and that of `b` is mapped to the
physical page that `a` had, with exactly the flags, if there was one. -/
structure Remapped (s s' : Machine) (top : ℕ) (a b flags : BitVec 64) : Prop where
  unmapped : (translate s' top a).getFlag .present = false
  moved : (translate s top a).getFlag .present = true →
    (translate s' top b).Holds (translate s top a).getAddress flags
  absent : (translate s top a).getFlag .present = false →
    (translate s' top b).getFlag .present = false

/-- **A mapping is exactly what was asked for if the entry held nothing else.**  After `mapMem`
the entry of the page holds the physical page and exactly the flags if and only if its old flags
are among them.  `remapMem` does what it is asked for if and only if the same holds for the new
page, when the old one was mapped, and when it was not, if the new one was not mapped either and
`present` is not among the flags. -/
theorem mapping_exact_iff {p : BitVec 64} (h : Tree pagemap s)
    (hg : Granted {pagemap.top} s.levels s) (hp : p.toNat < 2 ^ 52)
    (hne : pageOf s.lvl5 a ≠ pageOf s.lvl5 b) :
    (8 ≤ s.pages.length → (∃ s', pagemap.mapMem v p (flagSet fs) s = some s') ∧
      ∃ s', pagemap.remapMem a b (flagSet fs) s = some s') ∧
    (∀ s', pagemap.mapMem v p (flagSet fs) s = some s' →
      ((translate s' pagemap.top v).Holds (p >>> 12) (flagSet fs) ↔
        (translate s pagemap.top v).flags ||| flagSet fs = flagSet fs)) ∧
    ∀ s', pagemap.remapMem a b (flagSet fs) s = some s' →
      (Remapped s s' pagemap.top a b (flagSet fs) ↔
        if (translate s pagemap.top a).getFlag .present
        then (translate s pagemap.top b).flags ||| flagSet fs = flagSet fs
        else PT_Flag.present ∉ fs ∧ (translate s pagemap.top b).getFlag .present = false) := by
  refine ⟨fun hpages => ⟨?_, ?_⟩, fun s' hs' => ?_, fun s' hs' => ?_⟩
  · exact (PageOp.mapMem v p (flagSet fs)).returns
      (show 4 * 1 ≤ s.pages.length by omega)
  · exact (PageOp.remapMem a b (flagSet fs)).returns hpages
  · rw [mapMem_own h hg hs']
    exact PDEntry.holds_mapped_iff _ hp
  · obtain ⟨hown, hnew⟩ := remapMem_own h hg hne hs'
    obtain ⟨hlt, hshift⟩ := (translate s pagemap.top a).getAddress_shift
    have hholds : (translate s' pagemap.top b).Holds (translate s pagemap.top a).getAddress
      (flagSet fs) ↔ (translate s pagemap.top b).flags ||| flagSet fs = flagSet fs := by
      rw [hnew, ← PDEntry.holds_mapped_iff _ hlt, hshift]
    have hunmapped : (translate s' pagemap.top a).getFlag .present = false := by
      rw [hown]
      rfl
    have hpresent : (translate s' pagemap.top b).getFlag .present =
        (decide (PT_Flag.present ∈ fs) || (translate s pagemap.top b).getFlag .present) := by
      rw [hnew, PDEntry.present_mapped]
    cases hold : (translate s pagemap.top a).getFlag .present with
    | true =>
      rw [if_pos rfl, ← hholds]
      constructor
      · intro hr
        exact hr.moved hold
      · intro hmoved
        exact ⟨hunmapped, fun _ => hmoved, fun hfalse => by rw [hold] at hfalse; simp at hfalse⟩
    | false =>
      rw [if_neg (by simp)]
      constructor
      · intro hr
        have hb := hr.absent hold
        rw [hpresent, Bool.or_eq_false_iff, decide_eq_false_iff_not] at hb
        exact hb
      · rintro ⟨hfs, hb⟩
        refine ⟨hunmapped, fun htrue => ?_, fun _ => ?_⟩
        · rw [hold] at htrue
          simp at htrue
        · rw [hpresent, hb, decide_eq_false hfs]
          rfl

/-! ## An empty page map -/

lemma translate_of_blank (hblank : ∀ i, cells s pagemap.top i = ⟨0⟩) (v : BitVec 64) :
    translate s pagemap.top v = ⟨0⟩ := by
  obtain ⟨rest, hupper⟩ := upper_cons s.lvl5 v
  rw [translate, lookup, hupper, reach, hblank, blank_next]
  rfl

/-- Blank memory, a top table at `0x1000`, and eight pages for further tables. -/
def roomyMachine : Machine :=
  { blankMachine with
    pages := [0x2000, 0x3000, 0x4000, 0x5000, 0x6000, 0x7000, 0x8000, 0x9000] }

lemma roomyMachine_tree :
    (∀ i, cells roomyMachine (⟨0x1000⟩ : Pagemap).top i = ⟨0⟩) ∧ Tree ⟨0x1000⟩ roomyMachine ∧
      Granted {(⟨0x1000⟩ : Pagemap).top} roomyMachine.levels roomyMachine := by
  have hblank : ∀ i, cells roomyMachine (⟨0x1000⟩ : Pagemap).top i = ⟨0⟩ := blankMachine_cells _
  exact ⟨hblank, (tree_of_blank rfl hblank).1,
    granted_of_blank hblank (by simp [roomyMachine, Pagemap.top]) (by decide)⟩

/-- The conditions on an empty page map. -/
theorem mapping_exact_roomyMachine :
    (8 ≤ roomyMachine.pages.length →
      (∃ s', (⟨0x1000⟩ : Pagemap).mapMem 0x7000 0x9000 (flagSet [.present, .readNwrite])
        roomyMachine = some s') ∧
      ∃ s', (⟨0x1000⟩ : Pagemap).remapMem 0x7000 0x8000 (flagSet [.present, .readNwrite])
        roomyMachine = some s') ∧
    (∀ s', (⟨0x1000⟩ : Pagemap).mapMem 0x7000 0x9000 (flagSet [.present, .readNwrite])
        roomyMachine = some s' →
      ((translate s' (⟨0x1000⟩ : Pagemap).top 0x7000).Holds ((0x9000 : BitVec 64) >>> 12)
          (flagSet [.present, .readNwrite]) ↔
        (translate roomyMachine (⟨0x1000⟩ : Pagemap).top 0x7000).flags |||
          flagSet [.present, .readNwrite] = flagSet [.present, .readNwrite])) ∧
    ∀ s', (⟨0x1000⟩ : Pagemap).remapMem 0x7000 0x8000 (flagSet [.present, .readNwrite])
        roomyMachine = some s' →
      (Remapped roomyMachine s' (⟨0x1000⟩ : Pagemap).top 0x7000 0x8000
          (flagSet [.present, .readNwrite]) ↔
        if (translate roomyMachine (⟨0x1000⟩ : Pagemap).top 0x7000).getFlag .present
        then (translate roomyMachine (⟨0x1000⟩ : Pagemap).top 0x8000).flags |||
          flagSet [.present, .readNwrite] = flagSet [.present, .readNwrite]
        else PT_Flag.present ∉ [PT_Flag.present, PT_Flag.readNwrite] ∧
          (translate roomyMachine (⟨0x1000⟩ : Pagemap).top 0x8000).getFlag .present = false) :=
  mapping_exact_iff roomyMachine_tree.2.1 roomyMachine_tree.2.2 (by decide)
    (by simp [pageOf, roomyMachine, blankMachine])

/-- A page that was mapped as writable stays writable when it is mapped again without that flag,
and moving a page that was never mapped maps the new one. -/
theorem mapping_keeps_old_flags :
    (∃ s s', Tree ⟨0x1000⟩ s ∧ Granted {(⟨0x1000⟩ : Pagemap).top} s.levels s ∧
      (⟨0x1000⟩ : Pagemap).mapMem 0x7000 0xA000 (flagSet [.present]) s = some s' ∧
      ¬ (translate s' (⟨0x1000⟩ : Pagemap).top 0x7000).Holds ((0xA000 : BitVec 64) >>> 12)
        (flagSet [.present])) ∧
    ∃ s', (⟨0x1000⟩ : Pagemap).remapMem 0x7000 0x8000 (flagSet [.present, .readNwrite])
        roomyMachine = some s' ∧
      ¬ Remapped roomyMachine s' (⟨0x1000⟩ : Pagemap).top 0x7000 0x8000
        (flagSet [.present, .readNwrite]) := by
  obtain ⟨hblank, htree, hg⟩ := roomyMachine_tree
  constructor
  · obtain ⟨s, hs, hlen⟩ := change_returns (s := roomyMachine) (by decide) ⟨0x1000⟩ 0x7000
      fun e => e.mapped 0x9000 (flagSet [.present, .readNwrite])
    have hk := mapMem_kept htree hg hs
    have hown := mapMem_own htree hg hs
    have hpages : 4 ≤ s.pages.length := by
      have hroom : roomyMachine.pages.length = 8 := rfl
      omega
    obtain ⟨s', hs', -⟩ := change_returns hpages ⟨0x1000⟩ 0x7000
      fun e => e.mapped 0xA000 (flagSet [.present])
    refine ⟨s, s', hk.tree, hk.granted, hs', fun hholds => ?_⟩
    have hflags := hholds.flags
    rw [mapMem_own hk.tree hk.granted hs', PDEntry.flags_mapped, hown, PDEntry.flags_mapped,
      translate_of_blank hblank] at hflags
    exact absurd hflags (by decide)
  · have hreturns : ∃ s', PageOp.run ⟨0x1000⟩
        (.remapMem 0x7000 0x8000 (flagSet [.present, .readNwrite])) roomyMachine = some s' :=
      PageOp.returns _ (by decide)
    obtain ⟨s', hs'⟩ := hreturns
    refine ⟨s', hs', fun hr => ?_⟩
    have hb := hr.absent (by rw [translate_of_blank hblank]; rfl)
    rw [(remapMem_own htree hg (by simp [pageOf, roomyMachine, blankMachine]) hs').2,
      PDEntry.present_mapped] at hb
    simp at hb

end TurbOS.VMemory
