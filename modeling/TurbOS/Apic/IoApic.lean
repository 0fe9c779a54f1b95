import Mathlib

/-!
# Redirecting interrupts

An I/O APIC has a register that selects another one and a window through which that one is read and
written.  Each of its redirection entries has two registers.  The interrupts are numbered over all
I/O APICs: each of them serves a range that begins at its `gsib`.

The version register holds the number of the last entry, and `getGSICount` takes it for the number
of entries.  So the last interrupt of an I/O APIC is not found.  The index of an entry is cut to
eight bits, and the bits for the polarity and the trigger mode of an entry are set but never
cleared.
-/

namespace TurbOS.Apic

/-- The fields of `MADTIOApic` that are read. -/
structure MADTIOApic where
  addr : BitVec 32
  gsib : BitVec 32
deriving DecidableEq, Repr

/-- The I/O APICs by their addresses: the register that is selected, the registers, and which of
them were written so far. -/
structure IoApics where
  select : BitVec 32 → BitVec 32
  regs : BitVec 32 → ℕ → BitVec 32
  written : List (BitVec 32 × ℕ) := []

/-! ## The functions -/

/-- Write the register that selects. -/
def IoApics.choose (s : IoApics) (ioapicAddress reg : BitVec 32) : IoApics :=
  { s with select := Function.update s.select ioapicAddress reg }

/-- Read the window. -/
def IoApics.window (s : IoApics) (ioapicAddress : BitVec 32) : BitVec 32 :=
  s.regs ioapicAddress (s.select ioapicAddress).toNat

/-- Write the window. -/
def IoApics.setWindow (s : IoApics) (ioapicAddress data : BitVec 32) : IoApics :=
  { s with
    regs := Function.update s.regs ioapicAddress
      (Function.update (s.regs ioapicAddress) (s.select ioapicAddress).toNat data)
    written := s.written ++ [(ioapicAddress, (s.select ioapicAddress).toNat)] }

/-- `ioapicRead`. -/
def ioapicRead (ioapicAddress reg : BitVec 32) (s : IoApics) : BitVec 32 × IoApics :=
  let s := s.choose ioapicAddress (reg &&& 0xFF)
  (s.window ioapicAddress, s)

/-- `ioapicWrite`. -/
def ioapicWrite (ioapicAddress reg data : BitVec 32) (s : IoApics) : IoApics :=
  (s.choose ioapicAddress (reg &&& 0xFF)).setWindow ioapicAddress data

/-- `getGSICount`. -/
def getGSICount (ioapicAddress : BitVec 32) (s : IoApics) : BitVec 32 × IoApics :=
  let version := ioapicRead ioapicAddress 1 s
  ((version.1 &&& 0xFF0000) >>> 16, version.2)

/-- `getIOapicGSI`; `none` is the null pointer. -/
def getIOapicGSI (gsi : BitVec 32) : List MADTIOApic → IoApics → Option MADTIOApic × IoApics
  | [], s => (none, s)
  | ioapic :: ioapics, s =>
    if ioapic.gsib ≤ gsi then
      let count := getGSICount ioapic.addr s
      if ioapic.gsib + count.1 > gsi then (some ioapic, count.2)
      else getIOapicGSI gsi ioapics count.2
    else getIOapicGSI gsi ioapics s

/-- The low word of an entry. -/
def lowWord (low : BitVec 32) (vec : BitVec 8) (flags : BitVec 16) : BitVec 32 :=
  let low := low &&& ~~~(1#32 <<< 16)
  let low := low &&& ~~~(1#32 <<< 11)
  let low := low &&& ~~~0x700#32
  let low := low &&& ~~~0xFF#32
  let low := low ||| vec.setWidth 32
  let low := if flags &&& 2 ≠ 0 then low ||| 1#32 <<< 13 else low
  if flags &&& 8 ≠ 0 then low ||| 1#32 <<< 15 else low

/-- The high word of an entry; the interrupt goes to the identifier of the I/O APIC. -/
def highWord (high id : BitVec 32) : BitVec 32 := high &&& ~~~0xFF000000#32 ||| id <<< 24

/-- The entry is read, changed and written. -/
def redirect (io_apic low_index : BitVec 32) (vec : BitVec 8) (flags : BitVec 16) (s : IoApics) :
    IoApics :=
  let high_index := low_index + 1
  let high := ioapicRead io_apic high_index s
  let id := ioapicRead io_apic 0 high.2
  let s := ioapicWrite io_apic high_index (highWord high.1 id.1) id.2
  let low := ioapicRead io_apic low_index s
  ioapicWrite io_apic low_index (lowWord low.1 vec flags) low.2

/-- `ioapicRedirectGSI`; following the null pointer is a fault. -/
def ioapicRedirectGSI (ioapics : List MADTIOApic) (gsi : BitVec 32) (vec : BitVec 8)
    (flags : BitVec 16) (s : IoApics) : Option IoApics :=
  let first := getIOapicGSI gsi ioapics s
  first.1.bind fun found =>
    let second := getIOapicGSI gsi ioapics first.2
    second.1.map fun again => redirect found.addr (0x10 + (gsi - again.gsib) * 2) vec flags second.2

/-! ## Wiring -/

/-- The number of the redirection entries: the version register holds one less. -/
def entries (s : IoApics) (ioapic : MADTIOApic) : ℕ :=
  ((s.regs ioapic.addr 1 &&& 0xFF0000) >>> 16).toNat + 1

/-- The interrupt belongs to an entry of the I/O APIC. -/
structure Serves (s : IoApics) (ioapic : MADTIOApic) (gsi : BitVec 32) : Prop where
  first : ioapic.gsib.toNat ≤ gsi.toNat
  last : gsi.toNat < ioapic.gsib.toNat + entries s ioapic

/-- The ranges of the I/O APICs are disjoint. -/
structure Wired (s : IoApics) (ioapics : List MADTIOApic) : Prop where
  fits : ∀ ioapic ∈ ioapics, ioapic.gsib.toNat + entries s ioapic ≤ 2 ^ 32
  disjoint : ioapics.Pairwise fun x y =>
    x.gsib.toNat + entries s x ≤ y.gsib.toNat ∨ y.gsib.toNat + entries s y ≤ x.gsib.toNat

/-- The number of the entry for an interrupt. -/
def entryIndex (ioapic : MADTIOApic) (gsi : BitVec 32) : ℕ := gsi.toNat - ioapic.gsib.toNat

/-- The register is one of the two of the entry. -/
def OfEntry (ioapic : MADTIOApic) (gsi : BitVec 32) (r : BitVec 32 × ℕ) : Prop :=
  r.1 = ioapic.addr ∧ (r.2 = 0x10 + 2 * entryIndex ioapic gsi ∨
    r.2 = 0x11 + 2 * entryIndex ioapic gsi)

/-- The low word holds the vector, is not masked, and has the polarity and the trigger mode of the
flags. -/
structure Holds (low : BitVec 32) (vec : BitVec 8) (flags : BitVec 16) : Prop where
  vector : low.setWidth 8 = vec
  unmasked : low.getLsbD 16 = false
  polarity : low.getLsbD 13 = flags.getLsbD 1
  trigger : low.getLsbD 15 = flags.getLsbD 3

/-- The interrupt finds its entry: exactly the two registers of the entry are written, all others
are as they were, and the entry is as it should be. -/
structure Redirects (ioapics : List MADTIOApic) (s : IoApics) (ioapic : MADTIOApic)
    (gsi : BitVec 32) (vec : BitVec 8) (flags : BitVec 16) : Prop where
  found : (getIOapicGSI gsi ioapics s).1 = some ioapic
  written : ∃ s' rs, ioapicRedirectGSI ioapics gsi vec flags s = some s' ∧
    s'.written = s.written ++ rs ∧ (∀ r, r ∈ rs ↔ OfEntry ioapic gsi r) ∧
    (∀ r, ¬ OfEntry ioapic gsi r → s'.regs r.1 r.2 = s.regs r.1 r.2) ∧
    Holds (s'.regs ioapic.addr (0x10 + 2 * entryIndex ioapic gsi)) vec flags

variable {s : IoApics} {ioapics : List MADTIOApic} {ioapic : MADTIOApic}
  {a reg data gsi low : BitVec 32} {vec : BitVec 8} {flags : BitVec 16}

/-! ## Registers -/

lemma ioapicRead_fst : (ioapicRead a reg s).1 = s.regs a (reg &&& 0xFF).toNat := by
  simp [ioapicRead, IoApics.choose, IoApics.window]

@[simp] lemma regs_ioapicRead : (ioapicRead a reg s).2.regs = s.regs := rfl

@[simp] lemma written_ioapicRead : (ioapicRead a reg s).2.written = s.written := rfl

lemma regs_ioapicWrite : (ioapicWrite a reg data s).regs =
    Function.update s.regs a (Function.update (s.regs a) (reg &&& 0xFF).toNat data) := by
  simp [ioapicWrite, IoApics.choose, IoApics.setWindow]

lemma written_ioapicWrite :
    (ioapicWrite a reg data s).written = s.written ++ [(a, (reg &&& 0xFF).toNat)] := by
  simp [ioapicWrite, IoApics.choose, IoApics.setWindow]

/-- Looking for an I/O APIC changes no register but those that select. -/
lemma getIOapicGSI_keeps (gsi : BitVec 32) (ioapics : List MADTIOApic) (s : IoApics) :
    (getIOapicGSI gsi ioapics s).2.regs = s.regs ∧
      (getIOapicGSI gsi ioapics s).2.written = s.written := by
  induction ioapics generalizing s with
  | nil => exact ⟨rfl, rfl⟩
  | cons ioapic ioapics ih =>
    rw [getIOapicGSI]
    split
    · dsimp only [getGSICount]
      split
      · exact ⟨rfl, rfl⟩
      · exact ih _
    · exact ih s

lemma entries_congr {s' : IoApics} (h : s'.regs = s.regs) :
    entries s' ioapic = entries s ioapic := by
  rw [entries, entries, h]

/-- The search as a search in the list: the last interrupt of an I/O APIC is left out. -/
lemma getIOapicGSI_fst (hfits : ∀ ioapic ∈ ioapics, ioapic.gsib.toNat + entries s ioapic ≤ 2 ^ 32) :
    (getIOapicGSI gsi ioapics s).1 = ioapics.find? fun ioapic =>
      ioapic.gsib.toNat ≤ gsi.toNat ∧ gsi.toNat + 1 < ioapic.gsib.toNat + entries s ioapic := by
  induction ioapics generalizing s with
  | nil => rfl
  | cons ioapic ioapics ih =>
    have hrest : ∀ ioapic ∈ ioapics, ioapic.gsib.toNat + entries s ioapic ≤ 2 ^ 32 := fun x hx =>
      hfits x (List.mem_cons_of_mem _ hx)
    have hfit := hfits ioapic List.mem_cons_self
    rw [getIOapicGSI, List.find?_cons]
    by_cases hfirst : ioapic.gsib.toNat ≤ gsi.toNat
    · rw [if_pos (BitVec.le_def.mpr hfirst)]
      have hcount : (getGSICount ioapic.addr s).1.toNat + 1 = entries s ioapic := by
        rw [getGSICount, ioapicRead_fst, entries]
        rfl
      have hsum : (ioapic.gsib + (getGSICount ioapic.addr s).1).toNat + 1 =
          ioapic.gsib.toNat + entries s ioapic := by
        rw [BitVec.toNat_add, Nat.mod_eq_of_lt (by omega)]
        omega
      by_cases hlast : gsi.toNat + 1 < ioapic.gsib.toNat + entries s ioapic
      · have hfound : ioapic.gsib + (getGSICount ioapic.addr s).1 > gsi :=
          BitVec.lt_def.mpr (by omega)
        rw [if_pos hfound, decide_eq_true ⟨hfirst, hlast⟩]
      · have hmissed : ¬ ioapic.gsib + (getGSICount ioapic.addr s).1 > gsi := fun h => by
          have := BitVec.lt_def.mp h
          omega
        rw [if_neg hmissed, decide_eq_false fun h => hlast h.2]
        exact ih (s := (getGSICount ioapic.addr s).2) hrest
    · rw [if_neg fun h => hfirst (BitVec.le_def.mp h), decide_eq_false fun h => hfirst h.1]
      exact ih hrest

/-- Only one I/O APIC serves an interrupt. -/
lemma Wired.unique (h : Wired s ioapics) {x y : MADTIOApic} (hx : x ∈ ioapics) (hy : y ∈ ioapics)
    (hsx : Serves s x gsi) (hsy : Serves s y gsi) : x = y := by
  by_contra hne
  have hsymm : Std.Symm fun x y : MADTIOApic =>
      x.gsib.toNat + entries s x ≤ y.gsib.toNat ∨ y.gsib.toNat + entries s y ≤ x.gsib.toNat :=
    ⟨fun _ _ h => h.symm⟩
  have hapart := h.disjoint.forall hx hy hne
  have := hsx.first
  have := hsx.last
  have := hsy.first
  have := hsy.last
  omega

/-- What is found for an interrupt that an I/O APIC serves. -/
lemma getIOapicGSI_served (h : Wired s ioapics) (hmem : ioapic ∈ ioapics)
    (hserves : Serves s ioapic gsi) : (getIOapicGSI gsi ioapics s).1 =
      if gsi.toNat + 1 < ioapic.gsib.toNat + entries s ioapic then some ioapic else none := by
  have hserved : ∀ x : MADTIOApic, x.gsib.toNat ≤ gsi.toNat ∧
      gsi.toNat + 1 < x.gsib.toNat + entries s x → Serves s x gsi := fun x hx => ⟨hx.1, by omega⟩
  rw [getIOapicGSI_fst h.fits]
  split
  · rename_i hlast
    cases hfind : ioapics.find? _ with
    | none =>
      have hnone := List.find?_eq_none.mp hfind ioapic hmem
      rw [decide_eq_true ⟨hserves.first, hlast⟩] at hnone
      exact absurd rfl hnone
    | some x =>
      have hx := hserved x (of_decide_eq_true (List.find?_some (a := x) hfind))
      rw [h.unique (List.mem_of_find?_eq_some hfind) hmem hx hserves]
  · rename_i hlast
    refine List.find?_eq_none.mpr fun x hx hfound => hlast ?_
    rw [← h.unique hx hmem (hserved x (of_decide_eq_true hfound)) hserves]
    exact (of_decide_eq_true hfound).2

/-! ## The entry -/

lemma and_two_ne_zero (flags : BitVec 16) : flags &&& 2 ≠ 0 ↔ flags.getLsbD 1 = true := by
  have htwo : (2 : BitVec 16) = BitVec.twoPow 16 1 := by decide
  rw [htwo, BitVec.and_twoPow]
  cases flags.getLsbD 1 <;> decide

lemma and_eight_ne_zero (flags : BitVec 16) : flags &&& 8 ≠ 0 ↔ flags.getLsbD 3 = true := by
  have height : (8 : BitVec 16) = BitVec.twoPow 16 3 := by decide
  rw [height, BitVec.and_twoPow]
  cases flags.getLsbD 3 <;> decide

/-- The bits of the low word that are kept. -/
def keptBits : BitVec 32 := ~~~(1#32 <<< 16) &&& ~~~(1#32 <<< 11) &&& ~~~0x700#32 &&& ~~~0xFF#32

lemma and_keptBits (low : BitVec 32) :
    low &&& ~~~(1#32 <<< 16) &&& ~~~(1#32 <<< 11) &&& ~~~0x700#32 &&& ~~~0xFF#32 = low &&&
      keptBits := by
  simp only [keptBits, BitVec.and_assoc]

/-- The bits of the low word that is written. -/
lemma getLsbD_lowWord (low : BitVec 32) (vec : BitVec 8) (flags : BitVec 16) (j : Fin 32) :
    (lowWord low vec flags).getLsbD j =
      (low.getLsbD j && decide (12 ≤ j.val ∧ j.val ≠ 16) || vec.getLsbD j ||
        flags.getLsbD 1 && decide (j.val = 13) || flags.getLsbD 3 && decide (j.val = 15)) := by
  have hkept : keptBits.getLsbD j = decide (12 ≤ j.val ∧ j.val ≠ 16) := by
    revert j
    decide
  have h13 : (1#32 <<< 13).getLsbD j = decide (j.val = 13) := by
    revert j
    decide
  have h15 : (1#32 <<< 15).getLsbD j = decide (j.val = 15) := by
    revert j
    decide
  have hvec : (vec.setWidth 32).getLsbD j = vec.getLsbD j := by
    rw [BitVec.getLsbD_setWidth, decide_eq_true j.isLt, Bool.true_and]
  simp only [lowWord, and_two_ne_zero, and_eight_ne_zero, and_keptBits]
  cases flags.getLsbD 1 <;> cases flags.getLsbD 3 <;>
    simp only [BitVec.getLsbD_or, BitVec.getLsbD_and, hkept, hvec, h13, h15, if_true, if_false,
      Bool.false_and, Bool.true_and, Bool.or_false, Bool.false_eq_true]

lemma holds_lowWord_iff : Holds (lowWord low vec flags) vec flags ↔
    (low.getLsbD 13 = true → flags.getLsbD 1 = true) ∧
      (low.getLsbD 15 = true → flags.getLsbD 3 = true) := by
  have h13 : (lowWord low vec flags).getLsbD 13 = (low.getLsbD 13 || flags.getLsbD 1) := by
    simpa using getLsbD_lowWord low vec flags 13
  have h15 : (lowWord low vec flags).getLsbD 15 = (low.getLsbD 15 || flags.getLsbD 3) := by
    simpa using getLsbD_lowWord low vec flags 15
  have h16 : (lowWord low vec flags).getLsbD 16 = false := by
    simpa using getLsbD_lowWord low vec flags 16
  have hvector : (lowWord low vec flags).setWidth 8 = vec := by
    refine BitVec.eq_of_getLsbD_eq fun j hj => ?_
    have hbit := getLsbD_lowWord low vec flags ⟨j, by omega⟩
    rw [BitVec.getLsbD_setWidth, decide_eq_true hj, Bool.true_and, hbit]
    simp [show ¬ 12 ≤ j by omega, show j ≠ 13 by omega, show j ≠ 15 by omega]
  constructor
  · rintro ⟨-, -, hpolarity, htrigger⟩
    rw [h13, Bool.or_eq_right_iff_imp] at hpolarity
    rw [h15, Bool.or_eq_right_iff_imp] at htrigger
    exact ⟨hpolarity, htrigger⟩
  · rintro ⟨hpolarity, htrigger⟩
    refine ⟨hvector, h16, ?_, ?_⟩
    · rwa [h13, Bool.or_eq_right_iff_imp]
    · rwa [h15, Bool.or_eq_right_iff_imp]

/-- The registers that are written. -/
lemma written_redirect {low_index : BitVec 32} : (redirect a low_index vec flags s).written =
    s.written ++ [(a, (low_index + 1 &&& 0xFF).toNat), (a, (low_index &&& 0xFF).toNat)] := by
  rw [redirect, written_ioapicWrite, written_ioapicRead, written_ioapicWrite, List.append_assoc]
  rfl

/-- If the two registers are different ones, the other registers stay as they are. -/
lemma regs_redirect {low_index : BitVec 32}
    (hne : (low_index &&& 0xFF).toNat ≠ (low_index + 1 &&& 0xFF).toNat) :
    (redirect a low_index vec flags s).regs =
      Function.update s.regs a (Function.update
        (Function.update (s.regs a) (low_index + 1 &&& 0xFF).toNat
          (highWord (s.regs a (low_index + 1 &&& 0xFF).toNat) (s.regs a 0)))
        (low_index &&& 0xFF).toNat (lowWord (s.regs a (low_index &&& 0xFF).toNat) vec flags)) := by
  rw [redirect, regs_ioapicWrite, regs_ioapicRead, ioapicRead_fst, regs_ioapicWrite,
    regs_ioapicRead, regs_ioapicRead, ioapicRead_fst, ioapicRead_fst, regs_ioapicRead,
    regs_ioapicWrite, regs_ioapicRead, regs_ioapicRead, Function.update_self, Function.update_idem,
    Function.update_of_ne hne]
  rfl

lemma toNat_and_255 (x : BitVec 32) : (x &&& 0xFF).toNat = x.toNat % 256 := by
  rw [BitVec.toNat_and]
  exact Nat.and_two_pow_sub_one_eq_mod _ 8

lemma entries_le (s : IoApics) (ioapic : MADTIOApic) : entries s ioapic ≤ 256 := by
  have hand : (s.regs ioapic.addr 1 &&& 0xFF0000).toNat ≤ 0xFF0000 := by
    rw [BitVec.toNat_and]
    exact Nat.and_le_right
  rw [entries, BitVec.toNat_ushiftRight, Nat.shiftRight_eq_div_pow]
  omega

/-- The index of the low word. -/
lemma toNat_low_index (hserves : Serves s ioapic gsi) :
    (0x10 + (gsi - ioapic.gsib) * 2).toNat = 0x10 + 2 * entryIndex ioapic gsi := by
  have hle := entries_le s ioapic
  have hfirst := hserves.first
  have hlast := hserves.last
  have hsub : (gsi - ioapic.gsib).toNat = gsi.toNat - ioapic.gsib.toNat :=
    BitVec.toNat_sub_of_le (BitVec.le_def.mpr hfirst)
  have hten : (0x10 : BitVec 32).toNat = 0x10 := rfl
  have htwo : (2 : BitVec 32).toNat = 2 := rfl
  rw [BitVec.toNat_add, BitVec.toNat_mul, hsub, hten, htwo, entryIndex]
  omega

/-- The entry of an interrupt that is found. -/
lemma ioapicRedirectGSI_eq (vec : BitVec 8) (flags : BitVec 16) (h : Wired s ioapics)
    (hmem : ioapic ∈ ioapics) (hserves : Serves s ioapic gsi)
    (hlast : gsi.toNat + 1 < ioapic.gsib.toNat + entries s ioapic) :
    ∃ s₂, s₂.regs = s.regs ∧ s₂.written = s.written ∧ ioapicRedirectGSI ioapics gsi vec flags s =
      some (redirect ioapic.addr (0x10 + (gsi - ioapic.gsib) * 2) vec flags s₂) := by
  obtain ⟨hregs₁, hwritten₁⟩ := getIOapicGSI_keeps gsi ioapics s
  obtain ⟨hregs₂, hwritten₂⟩ := getIOapicGSI_keeps gsi ioapics (getIOapicGSI gsi ioapics s).2
  have hentries : ∀ x, entries (getIOapicGSI gsi ioapics s).2 x = entries s x := fun x =>
    entries_congr hregs₁
  have hwired : Wired (getIOapicGSI gsi ioapics s).2 ioapics := by
    refine ⟨fun x hx => ?_, ?_⟩
    · rw [hentries]
      exact h.fits x hx
    · simp only [hentries]
      exact h.disjoint
  have hagain : Serves (getIOapicGSI gsi ioapics s).2 ioapic gsi :=
    ⟨hserves.first, by rw [hentries]; exact hserves.last⟩
  refine ⟨_, hregs₂.trans hregs₁, hwritten₂.trans hwritten₁, ?_⟩
  rw [ioapicRedirectGSI, getIOapicGSI_served h hmem hserves, if_pos hlast, Option.bind_some]
  dsimp only
  rw [getIOapicGSI_served hwired hmem hagain, hentries, if_pos hlast, Option.map_some]

/-- The numbers of the two registers are cut to eight bits. -/
lemma toNat_registers (hserves : Serves s ioapic gsi) :
    (0x10 + (gsi - ioapic.gsib) * 2 &&& 0xFF).toNat = (0x10 + 2 * entryIndex ioapic gsi) % 256 ∧
      (0x10 + (gsi - ioapic.gsib) * 2 + 1 &&& 0xFF).toNat =
        (0x11 + 2 * entryIndex ioapic gsi) % 256 := by
  have hindex := toNat_low_index hserves
  have hone : (1 : BitVec 32).toNat = 1 := rfl
  constructor
  · rw [toNat_and_255, hindex]
  · rw [toNat_and_255, BitVec.toNat_add, hindex, hone]
    omega

section Written

variable {s₂ : IoApics} (hserves : Serves s ioapic gsi) (hfits : entryIndex ioapic gsi < 120)
  (hregs : s₂.regs = s.regs)

include hserves hfits hregs

/-- The registers afterwards, if the number of the entry fits. -/
lemma regs_redirect_entry (vec : BitVec 8) (flags : BitVec 16) :
    (redirect ioapic.addr (0x10 + (gsi - ioapic.gsib) * 2) vec flags s₂).regs =
      Function.update s.regs ioapic.addr (Function.update
        (Function.update (s.regs ioapic.addr) (0x11 + 2 * entryIndex ioapic gsi)
          (highWord (s.regs ioapic.addr (0x11 + 2 * entryIndex ioapic gsi)) (s.regs ioapic.addr 0)))
        (0x10 + 2 * entryIndex ioapic gsi)
        (lowWord (s.regs ioapic.addr (0x10 + 2 * entryIndex ioapic gsi)) vec flags)) := by
  obtain ⟨hlo, hhi⟩ := toNat_registers hserves
  rw [Nat.mod_eq_of_lt (by omega)] at hlo hhi
  rw [regs_redirect (by omega), hlo, hhi, hregs]

/-- The low word of the entry afterwards. -/
lemma low_redirect (vec : BitVec 8) (flags : BitVec 16) :
    (redirect ioapic.addr (0x10 + (gsi - ioapic.gsib) * 2) vec flags s₂).regs ioapic.addr
        (0x10 + 2 * entryIndex ioapic gsi) =
      lowWord (s.regs ioapic.addr (0x10 + 2 * entryIndex ioapic gsi)) vec flags := by
  rw [regs_redirect_entry hserves hfits hregs, Function.update_self, Function.update_self]

/-- All registers but the two of the entry stay as they are. -/
lemma redirect_keeps (vec : BitVec 8) (flags : BitVec 16) {r : BitVec 32 × ℕ}
    (hout : ¬ OfEntry ioapic gsi r) :
    (redirect ioapic.addr (0x10 + (gsi - ioapic.gsib) * 2) vec flags s₂).regs r.1 r.2 =
      s.regs r.1 r.2 := by
  obtain ⟨b, i⟩ := r
  rw [regs_redirect_entry hserves hfits hregs]
  by_cases hb : b = ioapic.addr
  · subst hb
    have hlow : i ≠ 0x10 + 2 * entryIndex ioapic gsi := fun hi => hout ⟨rfl, .inl hi⟩
    have hhigh : i ≠ 0x11 + 2 * entryIndex ioapic gsi := fun hi => hout ⟨rfl, .inr hi⟩
    rw [Function.update_self, Function.update_of_ne hlow, Function.update_of_ne hhigh]
  · rw [Function.update_of_ne hb]

end Written

/-- The registers that are written are those of the entry exactly if the number of the entry
fits. -/
lemma written_ofEntry_iff (hserves : Serves s ioapic gsi) :
    (∀ r, r ∈ [(ioapic.addr, (0x10 + (gsi - ioapic.gsib) * 2 + 1 &&& 0xFF).toNat),
        (ioapic.addr, (0x10 + (gsi - ioapic.gsib) * 2 &&& 0xFF).toNat)] ↔ OfEntry ioapic gsi r) ↔
      entryIndex ioapic gsi < 120 := by
  obtain ⟨hlo, hhi⟩ := toNat_registers hserves
  constructor
  · intro hrs
    obtain ⟨-, hlow⟩ := (hrs (ioapic.addr, _)).mp (List.mem_cons_of_mem _ List.mem_cons_self)
    dsimp only at hlow
    omega
  · rintro hfits ⟨b, i⟩
    rw [hlo, hhi, Nat.mod_eq_of_lt (by omega), Nat.mod_eq_of_lt (by omega), OfEntry]
    simp only [List.mem_cons, List.not_mem_nil, or_false, Prod.mk.injEq]
    tauto

/-! ## The main result -/

/-- **Which interrupts find their entry.**  The interrupt must not be the last one of its I/O APIC,
the number of its entry must fit into the register that selects, and the entry must not have a bit
for the polarity or the trigger mode that the flags do not ask for. -/
theorem redirects_iff (h : Wired s ioapics) (hmem : ioapic ∈ ioapics)
    (hserves : Serves s ioapic gsi) (vec : BitVec 8) (flags : BitVec 16) :
    Redirects ioapics s ioapic gsi vec flags ↔
      gsi.toNat + 1 < ioapic.gsib.toNat + entries s ioapic ∧ entryIndex ioapic gsi < 120 ∧
      ((s.regs ioapic.addr (0x10 + 2 * entryIndex ioapic gsi)).getLsbD 13 = true →
        flags.getLsbD 1 = true) ∧
      ((s.regs ioapic.addr (0x10 + 2 * entryIndex ioapic gsi)).getLsbD 15 = true →
        flags.getLsbD 3 = true) := by
  constructor
  · rintro ⟨hfound, s', rs, hs', hwritten, hrs, -, hholds⟩
    have hlast : gsi.toNat + 1 < ioapic.gsib.toNat + entries s ioapic := by
      by_contra hlast
      rw [getIOapicGSI_served h hmem hserves, if_neg hlast] at hfound
      simp at hfound
    obtain ⟨s₂, hregs, hwritten₂, heq⟩ := ioapicRedirectGSI_eq vec flags h hmem hserves hlast
    obtain rfl := Option.some.inj (hs'.symm.trans heq)
    rw [written_redirect, hwritten₂, List.append_cancel_left_eq] at hwritten
    rw [← hwritten] at hrs
    have hfits : entryIndex ioapic gsi < 120 := (written_ofEntry_iff hserves).mp hrs
    rw [low_redirect hserves hfits hregs, holds_lowWord_iff] at hholds
    exact ⟨hlast, hfits, hholds⟩
  · rintro ⟨hlast, hfits, hbits⟩
    obtain ⟨s₂, hregs, hwritten₂, heq⟩ := ioapicRedirectGSI_eq vec flags h hmem hserves hlast
    refine ⟨by rw [getIOapicGSI_served h hmem hserves, if_pos hlast], _, _, heq,
      by rw [written_redirect, hwritten₂], (written_ofEntry_iff hserves).mpr hfits,
      fun r hout => redirect_keeps hserves hfits hregs vec flags hout, ?_⟩
    rw [low_redirect hserves hfits hregs, holds_lowWord_iff]
    exact hbits

/-- An I/O APIC with 24 entries, all of them masked; the one with the number `9` is for a signal
that is active when low. -/
def oneIoApic : MADTIOApic := ⟨0xFEC00000, 0⟩

/-- The registers of this I/O APIC. -/
def oneIoApicRegs : IoApics where
  select := fun _ => 0
  regs := fun _ i => if i = 1 then 0x170011 else if i = 0x10 + 2 * 9 then 0x12000 else 0x10000

lemma oneIoApic_wired : Wired oneIoApicRegs [oneIoApic] :=
  ⟨by decide, List.pairwise_singleton _ _⟩

/-- The interrupt of the keyboard finds its entry. -/
theorem redirects_iff_keyboard : Redirects [oneIoApic] oneIoApicRegs oneIoApic 1 33 0 :=
  (redirects_iff oneIoApic_wired List.mem_cons_self ⟨by decide, by decide⟩ 33 0).mpr
    ⟨by decide, by decide, by decide, by decide⟩

/-- The last interrupt is not found, and following the null pointer is a fault; an entry stays
active when low. -/
theorem redirects_fails :
    Wired oneIoApicRegs [oneIoApic] ∧ Serves oneIoApicRegs oneIoApic 23 ∧
      (ioapicRedirectGSI [oneIoApic] 23 33 0 oneIoApicRegs).isNone ∧
      ¬ Redirects [oneIoApic] oneIoApicRegs oneIoApic 23 33 0 ∧ Serves oneIoApicRegs oneIoApic 9 ∧
      ¬ Redirects [oneIoApic] oneIoApicRegs oneIoApic 9 33 0 := by
  have hnone : ioapicRedirectGSI [oneIoApic] 23 33 0 oneIoApicRegs = none :=
    Option.isNone_iff_eq_none.mp (by decide)
  have hlow : (ioapicRedirectGSI [oneIoApic] 9 33 0 oneIoApicRegs).map
      (fun s => (s.regs 0xFEC00000 (0x10 + 2 * 9)).getLsbD 13) = some true := by decide
  refine ⟨oneIoApic_wired, ⟨by decide, by decide⟩, by rw [hnone]; rfl, fun h => ?_,
    ⟨by decide, by decide⟩, fun h => ?_⟩
  · obtain ⟨s', rs, hs', -⟩ := h.written
    rw [hnone] at hs'
    simp at hs'
  · obtain ⟨s', rs, hs', -, -, -, hholds⟩ := h.written
    rw [hs', Option.map_some, Option.some.injEq] at hlow
    have hpolarity := hholds.polarity
    rw [show entryIndex oneIoApic 9 = 9 by decide] at hpolarity
    exact absurd (hlow.symm.trans hpolarity) (by decide)

end TurbOS.Apic
