import TurbOS.Acpi.Madt

/-!
# Malformed tables of interrupt controllers

The loop of `madtInit` goes from an entry to the next one by the length byte that stands in the
table, and it only asks whether the first byte of an entry is in the table.  So it comes to its end,
and stays inside, exactly if no length byte on its way is zero and every structure on its way fits
into what is left of the table.
-/

open ByteMemory Fuel Relation

namespace TurbOS.Acpi

variable {m : Mem} {A : Allocator ℕ} {madthdr a first last : ℕ} {t t' : Madt} {xs : UInt8 → List ℕ}
  {s s' : ℕ × Madt}

/-- The length field of the table. -/
def tableLength (m : Mem) (madthdr : ℕ) : ℕ := load m (madthdr + 4) 4

lemma tableLength_lt (m : Mem) (madthdr : ℕ) : tableLength m madthdr < 2 ^ 32 := by
  simp only [tableLength, load]
  have h0 := (m (madthdr + 4)).toNat_lt
  have h1 := (m (madthdr + 4 + 1)).toNat_lt
  have h2 := (m (madthdr + 4 + 1 + 1)).toNat_lt
  have h3 := (m (madthdr + 4 + 1 + 1 + 1)).toNat_lt
  omega

/-- Where the loop of `madtInit` begins. -/
def madtStart (m : Mem) (A : Allocator ℕ) (madthdr : ℕ) : ℕ × Madt :=
  (Word64.add madthdr ENTRIES_BEGIN,
    { lapics := .init A 1
      ioapics := .init A 1
      isos := .init A 1
      nmis := .init A 1
      lapicAddress := load m (madthdr + 36) 4 })

lemma madtInit_eq (fuel : ℕ) (m : Mem) (A : Allocator ℕ) (madthdr : ℕ) :
    madtInit fuel m A madthdr = loop (madtRound m A madthdr) fuel (madtStart m A madthdr) := rfl

/-- One round leads to the next one. -/
def Goes (m : Mem) (A : Allocator ℕ) (madthdr : ℕ) (s s' : ℕ × Madt) : Prop :=
  madtRound m A madthdr s = some (.inl s')

/-- The `switch` is reached for the entry at `x`. -/
def Visits (m : Mem) (A : Allocator ℕ) (madthdr x : ℕ) : Prop :=
  ∃ t, ReflTransGen (Goes m A madthdr) (madtStart m A madthdr) (x, t) ∧
    x < madthdr + tableLength m madthdr

/-- The structure that is recorded or read for an entry of this type is in the table. -/
def Inside (m : Mem) (madthdr x : ℕ) (type : UInt8) : Prop :=
  madthdr + ENTRIES_BEGIN ≤ x ∧ x + structSize type ≤ madthdr + tableLength m madthdr

/-- The table does no harm: `madtInit` ends, and what it records or reads is in the table. -/
structure Survives (m : Mem) (A : Allocator ℕ) (madthdr : ℕ) : Prop where
  ends : ∃ n t xs, (∀ fuel ≥ n, madtInit fuel m A madthdr = some t) ∧ Collects t xs ∧
    ∀ type, ∀ x ∈ xs type, Inside m madthdr x type
  reads : ∀ x, Visits m A madthdr x → Inside m madthdr x (m x)

/-- The length bytes lead from `a` to the end of the table: none of them is zero or leads over the
top of memory, and every structure on the way fits. -/
inductive Chained (m : Mem) (last : ℕ) : ℕ → Prop
  | stop {a : ℕ} (hlast : last ≤ a) : Chained m last a
  | entry {a : ℕ} (hpos : m (a + 1) ≠ 0) (hfits : a + structSize (m a) ≤ last)
      (htop : a + (m (a + 1)).toNat < 2 ^ 64) (hrest : Chained m last (a + (m (a + 1)).toNat)) :
      Chained m last a

/-! ## One round -/

section Round

variable (hlast : Word64.add madthdr (tableLength m madthdr) = last)

include hlast

lemma madtRound_stop (h : last ≤ a) : madtRound m A madthdr (a, t) = some (.inr t) := by
  rw [tableLength] at hlast
  rw [madtRound, hlast, if_neg (Nat.not_lt.mpr h)]

/-- In front of the end a round reads one entry. -/
lemma madtRound_entry (hA : A.Succeeds) (ht : Collects t xs) (h : a < last) :
    ∃ t', Goes m A madthdr (a, t) (Word64.add a (m (a + 1)).toNat, t') ∧
      Collects t' (addEntry xs a (m a)) := by
  obtain ⟨t', ht', hcollects, -⟩ := madtEntry_collects (m := m) hA ht a
  rw [tableLength] at hlast
  refine ⟨t', ?_, hcollects⟩
  rw [Goes, madtRound, hlast, if_pos h, ht', Option.map_some]

/-- Every round reads an entry in front of the end. -/
lemma Goes.inv (h : Goes m A madthdr s s') :
    s.1 < last ∧ s'.1 = Word64.add s.1 (m (s.1 + 1)).toNat := by
  rw [tableLength] at hlast
  rw [Goes, madtRound, hlast] at h
  split at h
  · rename_i hlt
    obtain ⟨t', -, hnext⟩ := Option.map_eq_some_iff.mp h
    exact ⟨hlt, (congrArg Prod.fst (Sum.inl.inj hnext)).symm⟩
  · simp at h

/-- An entry with the length zero is read again and again. -/
lemma loop_zero (hA : A.Succeeds) (ht : Collects t xs) (h : a < last) (hzero : m (a + 1) = 0)
    (ha : a < 2 ^ 64) (n : ℕ) : loop (madtRound m A madthdr) n (a, t) = none := by
  refine loop_never (fun s => s.1 = a ∧ ∃ xs, Collects s.2 xs) ?_ n ⟨rfl, xs, ht⟩
  rintro ⟨_, t⟩ ⟨rfl, xs, hcollects⟩
  obtain ⟨t', hgoes, hcollects'⟩ := madtRound_entry hlast hA hcollects h
  refine ⟨_, hgoes, ?_, _, hcollects'⟩
  rw [hzero, UInt8.toNat_zero, Word64.add_of_lt (by omega), Nat.add_zero]

/-! ## Runs -/

/-- On a chain the loop ends, and what it records is in the table. -/
lemma Chained.loop (hA : A.Succeeds) (h : Chained m last a) (hfirst : first ≤ a)
    (ht : Collects t xs) (hxs : ∀ type, ∀ x ∈ xs type, first ≤ x ∧ x + structSize type ≤ last) :
    ∃ n t' xs', Fuel.loop (madtRound m A madthdr) n (a, t) = some t' ∧ Collects t' xs' ∧
      ∀ type, ∀ x ∈ xs' type, first ≤ x ∧ x + structSize type ≤ last := by
  induction h generalizing t xs with
  | stop h => exact ⟨1, t, xs, by rw [loop_succ, madtRound_stop hlast h]; rfl, ht, hxs⟩
  | entry hpos hfits htop hrest ih =>
    rename_i a
    by_cases hlt : a < last
    · obtain ⟨t₁, hgoes, hcollects⟩ := madtRound_entry hlast hA ht hlt
      obtain ⟨n, t', xs', hloop, hcollects', hxs'⟩ := ih (by omega) hcollects (by
        intro type x hx
        by_cases htype : type = m a
        · subst htype
          rw [addEntry, Function.update_self, List.mem_append, List.mem_singleton] at hx
          rcases hx with hx | rfl
          · exact hxs _ x hx
          · exact ⟨hfirst, hfits⟩
        · rw [addEntry, Function.update_of_ne htype] at hx
          exact hxs type x hx)
      refine ⟨n + 1, t', xs', ?_, hcollects', hxs'⟩
      rw [Goes, Word64.add_of_lt htop] at hgoes
      rw [loop_succ, hgoes]
      exact hloop
    · exact ⟨1, t, xs, by rw [loop_succ, madtRound_stop hlast (by omega)]; rfl, ht, hxs⟩

/-- Every entry that is reached on a chain is on the chain. -/
lemma Chained.reaches (h : Chained m last s.1) (hfirst : first ≤ s.1)
    (hr : ReflTransGen (Goes m A madthdr) s s') : Chained m last s'.1 ∧ first ≤ s'.1 := by
  induction hr with
  | refl => exact ⟨h, hfirst⟩
  | tail _ hgoes ih =>
    obtain ⟨hchained, hle⟩ := ih
    obtain ⟨hlt, hnext⟩ := hgoes.inv hlast
    cases hchained with
    | stop h => omega
    | entry hpos hfits htop hrest =>
      rw [hnext, Word64.add_of_lt htop]
      exact ⟨hrest, by omega⟩

/-- A loop that ends and stays inside runs along a chain. -/
lemma chained_of_loop (hA : A.Succeeds) (hwide : last < first + 2 ^ 32) (htop : last < 2 ^ 64)
    {n : ℕ} (hloop : Fuel.loop (madtRound m A madthdr) n (a, t) = some t') (ht : Collects t xs)
    (hreads : ∀ x t', ReflTransGen (Goes m A madthdr) (a, t) (x, t') → x < last →
      first ≤ x ∧ x + structSize (m x) ≤ last) : Chained m last a := by
  induction n generalizing a t xs with
  | zero => simp [Fuel.loop] at hloop
  | succ n ih =>
    by_cases hlt : a < last
    · obtain ⟨hfirst, hfits⟩ := hreads a t .refl hlt
      obtain ⟨t₁, hgoes, hcollects⟩ := madtRound_entry hlast hA ht hlt
      have hpos : m (a + 1) ≠ 0 := by
        intro hzero
        rw [loop_zero hlast hA ht hlt hzero (by omega)] at hloop
        simp at hloop
      have hnext : a + (m (a + 1)).toNat < 2 ^ 64 := by
        -- an entry behind the top of memory would be in front of the table
        by_contra hover
        have hlen := (m (a + 1)).toNat_lt
        have hwrap : Word64.add a (m (a + 1)).toNat = a + (m (a + 1)).toNat - 2 ^ 64 := by
          rw [Word64.add, Nat.mod_eq_sub_mod (by omega), Nat.mod_eq_of_lt (by omega)]
        obtain ⟨hback, -⟩ := hreads _ t₁ (.single hgoes) (by omega)
        omega
      rw [Goes, Word64.add_of_lt hnext] at hgoes
      rw [loop_succ, hgoes, Option.bind_some, Sum.elim_inl] at hloop
      exact .entry hpos hfits hnext
        (ih hloop hcollects fun x t' hr hx => hreads x t' (.head hgoes hr) hx)
    · exact .stop (by omega)

end Round

/-! ## The main result -/

/-- **Which tables do no harm.**  `madtInit` ends, and every entry that it records or reads is in
the table, exactly if the length bytes lead from the first entry to the end, none of them is zero,
and every structure on the way fits into the rest of the table. -/
theorem survives_iff (hA : A.Succeeds) (hlength : ENTRIES_BEGIN ≤ tableLength m madthdr)
    (hends : madthdr + tableLength m madthdr < 2 ^ 64) :
    Survives m A madthdr ↔
      Chained m (madthdr + tableLength m madthdr) (madthdr + ENTRIES_BEGIN) := by
  have hlast : Word64.add madthdr (tableLength m madthdr) = madthdr + tableLength m madthdr :=
    Word64.add_of_lt hends
  have hstart : madtStart m A madthdr = (madthdr + ENTRIES_BEGIN, (madtStart m A madthdr).2) := by
    rw [madtStart, Word64.add_of_lt (by omega)]
  have hinit : Collects (madtStart m A madthdr).2 fun _ => [] := .init hA _
  constructor
  · rintro ⟨⟨n, t, xs, hreturns, -, -⟩, hreads⟩
    have hloop := hreturns n le_rfl
    rw [madtInit_eq, hstart] at hloop
    have hlt := tableLength_lt m madthdr
    have hwide : madthdr + tableLength m madthdr < madthdr + ENTRIES_BEGIN + 2 ^ 32 := by omega
    refine chained_of_loop hlast hA hwide hends hloop hinit ?_
    intro x t' hr hx
    rw [← hstart] at hr
    exact hreads x ⟨t', hr, hx⟩
  · intro h
    constructor
    · obtain ⟨n, t, xs, hloop, hcollects, hxs⟩ := h.loop hlast hA le_rfl hinit (by simp)
      refine ⟨n, t, xs, fun fuel hfuel => ?_, hcollects, hxs⟩
      rw [madtInit_eq, hstart]
      exact loop_mono hfuel hloop
    · rintro x ⟨t, hr, hx⟩
      rw [hstart] at hr
      obtain ⟨hchained, hfirst⟩ := Chained.reaches hlast h le_rfl hr
      cases hchained with
      | stop hle => exact absurd hx (Nat.not_lt.mpr hle)
      | entry hpos hfits htop hrest => exact ⟨hfirst, hfits⟩

/-- A well-formed table does no harm. -/
theorem survives_iff_smallTable : Survives smallMemory zeroAllocator 0x1000 := by
  refine (survives_iff zeroAllocator_succeeds (by decide +kernel) (by decide +kernel)).mpr ?_
  have hlast : 0x1000 + tableLength smallMemory 0x1000 = 0x1040 := by decide +kernel
  rw [hlast]
  refine .entry (by decide +kernel) (by decide +kernel) (by decide +kernel) ?_
  have hfirst : 0x1000 + ENTRIES_BEGIN + (smallMemory (0x1000 + ENTRIES_BEGIN + 1)).toNat =
      0x1034 := by
    decide +kernel
  rw [hfirst]
  exact .entry (by decide +kernel) (by decide +kernel) (by decide +kernel)
    (.stop (by decide +kernel))

/-- A table at `0x1000` whose only entry consists of its type and its length byte. -/
def shortMemory (type length : UInt8) : Mem := fun x =>
  ("APIC".toList.map (fun c : Char => UInt8.ofNat c.toNat) ++ [46, 0, 0, 0] ++
    List.replicate 36 0 ++ [type, length]).getD (x - 0x1000) 0

/-- With the length zero `madtInit` does not end; a local APIC of two bytes at the end of the table
is recorded although its structure has eight. -/
theorem short_tables_harm :
    (44 ≤ tableLength (shortMemory 3 0) 0x1000 ∧
      (∀ fuel, madtInit fuel (shortMemory 3 0) zeroAllocator 0x1000 = none) ∧
      ¬ Survives (shortMemory 3 0) zeroAllocator 0x1000) ∧
    44 ≤ tableLength (shortMemory 0 2) 0x1000 ∧
      Visits (shortMemory 0 2) zeroAllocator 0x1000 0x102c ∧ shortMemory 0 2 0x102c = 0 ∧
        0x1000 + tableLength (shortMemory 0 2) 0x1000 < 0x102c + structSize 0 ∧
      ¬ Survives (shortMemory 0 2) zeroAllocator 0x1000 := by
  have hnever : ∀ fuel, madtInit fuel (shortMemory 3 0) zeroAllocator 0x1000 = none := by
    have hlast : Word64.add 0x1000 (tableLength (shortMemory 3 0) 0x1000) = 0x102e := by
      decide +kernel
    exact loop_zero (a := 0x102c) hlast zeroAllocator_succeeds (.init zeroAllocator_succeeds _)
      (by decide) (by decide +kernel) (by decide)
  have hvisits : Visits (shortMemory 0 2) zeroAllocator 0x1000 0x102c :=
    ⟨_, .refl, by decide +kernel⟩
  have hcut : 0x1000 + tableLength (shortMemory 0 2) 0x1000 < 0x102c + structSize 0 := by
    decide +kernel
  have htype : shortMemory 0 2 0x102c = 0 := by decide +kernel
  refine ⟨⟨by decide +kernel, hnever, fun h => ?_⟩, by decide +kernel, hvisits, htype, hcut,
    fun h => ?_⟩
  · obtain ⟨n, t, xs, hreturns, -, -⟩ := h.ends
    have hloop := hreturns n le_rfl
    rw [hnever] at hloop
    simp at hloop
  · have hinside := (h.reads _ hvisits).2
    rw [htype] at hinside
    omega

end TurbOS.Acpi
