import TurbOS.Lib.ByteMemory

/-!
# Page tables

`vMemory.cpp` builds the page tables of the processor.  A table is a page of 512 entries of
64 bits; an entry holds the address of a page and flags.  The operations walk down the four
or five levels of tables and allocate the tables that are missing.

Tables are used at their physical addresses.  The pages that `pMemory::alloc` will return
are part of the state (`pages`); it fills a page with zeros before it returns it.  The lock
of a `Pagemap` is left out: an operation runs with the lock held, so the operations on one
`Pagemap` follow one another.
-/

open ByteMemory

namespace TurbOS.VMemory

/-- `PT_Flag`. -/
inductive PT_Flag where
  | present | readNwrite | userSuper | writeThrough | cacheDisable | accessed | largerPages
  | custom0 | custom1 | custom2 | NX
deriving DecidableEq, Repr

/-- The bit of a flag. -/
def PT_Flag.value : PT_Flag → BitVec 64
  | present => 1 <<< 0
  | readNwrite => 1 <<< 1
  | userSuper => 1 <<< 2
  | writeThrough => 1 <<< 3
  | cacheDisable => 1 <<< 4
  | accessed => 1 <<< 5
  | largerPages => 1 <<< 7
  | custom0 => 1 <<< 9
  | custom1 => 1 <<< 10
  | custom2 => 1 <<< 11
  | NX => 1 <<< 63

/-- `PDEntry`. -/
structure PDEntry where
  value : BitVec 64 := 0
deriving DecidableEq, Repr

namespace PDEntry

/-- `setFlags`. -/
def setFlags (e : PDEntry) (flags : BitVec 64) (enabled : Bool) : PDEntry :=
  let value := e.value &&& ~~~flags
  ⟨if enabled then value ||| flags else value⟩

/-- `setFlag`. -/
def setFlag (e : PDEntry) (flag : PT_Flag) (enabled : Bool) : PDEntry :=
  e.setFlags flag.value enabled

/-- `getFlags`.  The mask is the truth value of `flags > 0`, whatever the flags are. -/
def getFlags (e : PDEntry) (flags : BitVec 64) : Bool :=
  e.value &&& (if 0 < flags then 1 else 0) ≠ 0

/-- `getFlag`. -/
def getFlag (e : PDEntry) (flag : PT_Flag) : Bool := e.getFlags flag.value

/-- `getAddress`. -/
def getAddress (e : PDEntry) : BitVec 64 := (e.value &&& 0x000FFFFFFFFFF000#64) >>> 12

/-- `setAddress`. -/
def setAddress (e : PDEntry) (address : BitVec 64) : PDEntry :=
  let address := address &&& 0x000000FFFFFFFFFF#64
  ⟨(e.value &&& 0xFFF0000000000FFF#64) ||| (address <<< 12)⟩

end PDEntry

/-- Memory, the pages that `pMemory::alloc` returns next, and the variables of the
namespace.  The page map of the kernel is given by its top table. -/
structure Machine where
  mem : Mem
  pages : List ℕ
  lvl5 : Bool := false
  kernel_pagemap : Option ℕ := none
  /-- The value of the register CR3. -/
  cr3 : ℕ := 0

/-- `Pagemap`. -/
structure Pagemap where
  TOPLVL : ℕ
deriving DecidableEq, Repr

namespace Machine

/-- `table->entries[entry]`. -/
def entry (s : Machine) (table entry : ℕ) : PDEntry :=
  ⟨BitVec.ofNat 64 (load s.mem (table + 8 * entry) 8)⟩

/-- Assign to `table->entries[entry]`. -/
def setEntry (s : Machine) (table entry : ℕ) (e : PDEntry) : Machine :=
  { s with mem := store s.mem (table + 8 * entry) 8 e.value.toNat }

/-- Call a method of `table->entries[entry]` that changes it. -/
def modifyEntry (s : Machine) (table entry : ℕ) (f : PDEntry → PDEntry) : Machine :=
  s.setEntry table entry (f (s.entry table entry))

/-- `pMemory::alloc()`. -/
def alloc (s : Machine) : Option (ℕ × Machine) :=
  match s.pages with
  | [] => none
  | p :: ps => some (p, { s with mem := fill s.mem p 0 0x1000, pages := ps })

end Machine

/-- `get_next_lvl`. -/
def get_next_lvl (curr_lvl entry : ℕ) (s : Machine) : Option (ℕ × Machine) :=
  if (s.entry curr_lvl entry).getFlag .present then
    some (((s.entry curr_lvl entry).getAddress <<< 12).toNat, s)
  else
    s.alloc.map fun r =>
      let s := r.2.modifyEntry curr_lvl entry fun e => e.setAddress (BitVec.ofNat 64 r.1 >>> 12)
      let s := s.modifyEntry curr_lvl entry fun e =>
        e.setFlags (PT_Flag.present.value ||| PT_Flag.readNwrite.value |||
          PT_Flag.userSuper.value) true
      (r.1, s)

/-- The index of an address in a table: `(vaddr & ((uint64_t)0x1FF << shift)) >> shift`. -/
def tableIndex (vaddr : BitVec 64) (shift : ℕ) : ℕ :=
  ((vaddr &&& (0x1FF#64 <<< shift)) >>> shift).toNat

namespace Pagemap

variable (pagemap : Pagemap)

/-- `virt2pte`: the table and the index of the entry in it. -/
def virt2pte (vaddr : BitVec 64) (s : Machine) : Option ((ℕ × ℕ) × Machine) :=
  let pml5_entry := tableIndex vaddr 48
  let pml4_entry := tableIndex vaddr 39
  let pml3_entry := tableIndex vaddr 30
  let pml2_entry := tableIndex vaddr 21
  let pml1_entry := tableIndex vaddr 12
  (if s.lvl5 then get_next_lvl pagemap.TOPLVL pml5_entry s else some (pagemap.TOPLVL, s)).bind
    fun (pml4, s) => (get_next_lvl pml4 pml4_entry s).bind
    fun (pml3, s) => (get_next_lvl pml3 pml3_entry s).bind
    fun (pml2, s) => (get_next_lvl pml2 pml2_entry s).map
    fun (pml1, s) => ((pml1, pml1_entry), s)

/-- Change the entry that `virt2pte` finds. -/
def change (vaddr : BitVec 64) (f : PDEntry → PDEntry) (s : Machine) : Option Machine :=
  (pagemap.virt2pte vaddr s).map fun r => r.2.modifyEntry r.1.1 r.1.2 f

/-- `mapMem`. -/
def mapMem (vaddr paddr flags : BitVec 64) (s : Machine) : Option Machine :=
  pagemap.change vaddr (fun e => (e.setAddress (paddr >>> 12)).setFlags flags true) s

/-- `remapMem`. -/
def remapMem (vaddr_old vaddr_new flags : BitVec 64) (s : Machine) : Option Machine :=
  (pagemap.virt2pte vaddr_old s).bind fun r =>
    let paddr := (r.2.entry r.1.1 r.1.2).getAddress <<< 12
    let s := r.2.modifyEntry r.1.1 r.1.2 fun _ => ⟨0⟩
    pagemap.mapMem vaddr_new paddr flags s

/-- `mapUserMem`. -/
def mapUserMem (vaddr paddr flags : BitVec 64) (s : Machine) : Option Machine :=
  pagemap.mapMem vaddr paddr (flags ||| PT_Flag.userSuper.value) s

/-- `mapHHMem`; the argument `hhdm` is `hhdm_tag->addr`. -/
def mapHHMem (hhdm paddr flags : BitVec 64) (s : Machine) : Option Machine :=
  pagemap.mapMem (paddr + hhdm) paddr flags s

/-- `unmapMem`. -/
def unmapMem (vaddr : BitVec 64) (s : Machine) : Option Machine :=
  pagemap.change vaddr (fun _ => ⟨0⟩) s

/-- `setFlags`. -/
def setFlags (vaddr flags : BitVec 64) (s : Machine) : Option Machine :=
  pagemap.change vaddr (fun e => e.setFlags flags true) s

/-- `remFlags`. -/
def remFlags (vaddr flags : BitVec 64) (s : Machine) : Option Machine :=
  pagemap.change vaddr (fun e => e.setFlags flags false) s

end Pagemap

/-- The loops of `newPagemap` and `clonePagemap`: copy `n` entries of a table. -/
def copyEntries (new old : ℕ) : ℕ → Machine → Machine
  | 0, s => s
  | n + 1, s =>
    let s := copyEntries new old n s
    s.setEntry new n (s.entry old n)

/-- `clonePagemap`. -/
def clonePagemap (old : Pagemap) (s : Machine) : Option (Pagemap × Machine) :=
  s.alloc.map fun r => (⟨r.1⟩, copyEntries r.1 old.TOPLVL 512 r.2)

/-- `newPagemap`. -/
def newPagemap (s : Machine) : Option (Pagemap × Machine) :=
  match s.kernel_pagemap with
  | none => some (⟨s.cr3⟩, s)
  | some kernel => s.alloc.map fun r => (⟨r.1⟩, copyEntries r.1 kernel 512 r.2)

/-! ## The bits of an entry -/

/-- A mask of 64 bits is known from its bits. -/
lemma getLsbD_eq_decide {mask : BitVec 64} {P : ℕ → Prop} [DecidablePred P]
    (h : ∀ j : Fin 64, mask.getLsbD j = decide (P j)) (hP : ∀ j, P j → j < 64) (j : ℕ) :
    mask.getLsbD j = decide (P j) := by
  by_cases hj : j < 64
  · exact h ⟨j, hj⟩
  · rw [BitVec.getLsbD_of_ge _ _ (by omega), eq_comm, decide_eq_false_iff_not]
    exact fun hPj => hj (hP j hPj)

namespace PDEntry

variable (e : PDEntry)

@[simp] lemma getLsbD_setFlags (flags : BitVec 64) (enabled : Bool) (j : ℕ) :
    (e.setFlags flags enabled).value.getLsbD j =
      if flags.getLsbD j then enabled else e.value.getLsbD j := by
  have hlt : flags.getLsbD j = true → j < 64 := BitVec.lt_of_getLsbD
  have hlt' : e.value.getLsbD j = true → j < 64 := BitVec.lt_of_getLsbD
  cases enabled <;> cases hf : flags.getLsbD j <;> cases he : e.value.getLsbD j <;>
    simp_all [setFlags]

@[simp] lemma getLsbD_setAddress (address : BitVec 64) (j : ℕ) :
    (e.setAddress address).value.getLsbD j =
      if 12 ≤ j ∧ j < 52 then address.getLsbD (j - 12) else e.value.getLsbD j := by
  have hlow : (0x000000FFFFFFFFFF#64).getLsbD (j - 12) = decide (j - 12 < 40) :=
    getLsbD_eq_decide (P := fun j => j < 40) (by decide) (fun _ h => by omega) _
  have hkeep : (0xFFF0000000000FFF#64).getLsbD j = decide (j < 12 ∨ 52 ≤ j ∧ j < 64) :=
    getLsbD_eq_decide (P := fun j => j < 12 ∨ 52 ≤ j ∧ j < 64) (by decide) (fun _ h => by omega) _
  have hlt : e.value.getLsbD j = true → j < 64 := BitVec.lt_of_getLsbD
  rw [setAddress, BitVec.getLsbD_or, BitVec.getLsbD_and, BitVec.getLsbD_shiftLeft,
    BitVec.getLsbD_and, hlow, hkeep]
  split
  · rename_i hj
    have hout : decide (j < 12 ∨ 52 ≤ j ∧ j < 64) = false := by
      rw [decide_eq_false_iff_not]
      omega
    rw [hout, Bool.and_false, Bool.false_or]
    simp [show ¬ j < 12 by omega, show j - 12 < 40 by omega, show j < 64 by omega]
  · rename_i hj
    cases he : e.value.getLsbD j
    · simp
      omega
    · have := hlt he
      simp [show j < 12 ∨ 52 ≤ j by omega, this]

lemma getLsbD_getAddress (j : ℕ) :
    e.getAddress.getLsbD j = (decide (j < 40) && e.value.getLsbD (j + 12)) := by
  have hmask : (0x000FFFFFFFFFF000#64).getLsbD (12 + j) =
      decide (12 ≤ 12 + j ∧ 12 + j < 52) :=
    getLsbD_eq_decide (P := fun j => 12 ≤ j ∧ j < 52) (by decide) (fun _ h => by omega) _
  rw [getAddress, BitVec.getLsbD_ushiftRight, BitVec.getLsbD_and, hmask, Nat.add_comm 12 j,
    Bool.and_comm]
  congr 1
  simp
  omega

lemma getFlag_present : e.getFlag .present = e.value.getLsbD 0 := by
  have hmask : e.getFlag .present = decide (e.value &&& 1#64 ≠ 0) := rfl
  rw [hmask, BitVec.and_one_eq_setWidth_ofBool_getLsbD]
  cases e.value.getLsbD 0 <;> decide

end PDEntry

end TurbOS.VMemory
