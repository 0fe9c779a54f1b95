import TurbOS.Lib.ByteMemory
import TurbOS.Lib.Fuel
import TurbOS.Lib.Word64
import TurbOS.Vector.Storage

/-!
# The multiple APIC description table

`madtInit` walks over the entries of the table.  An entry starts with its type and its length in
bytes, and the next one stands behind it.  Pointers to the entries of four types are collected, and
an entry of type `5` sets the address of the local APIC.

The main result says what is found in a table that is laid out as it should be.  The messages that
are logged are left out.
-/

open ByteMemory Fuel

namespace TurbOS.Acpi

/-! ## The function -/

/-- The variables that `madtInit` sets. -/
structure Madt where
  lapics : StoredVector ℕ
  ioapics : StoredVector ℕ
  isos : StoredVector ℕ
  nmis : StoredVector ℕ
  lapicAddress : ℕ

/-- The offset of `entriesBegin` in `MADTHeader`. -/
def ENTRIES_BEGIN : ℕ := 44

/-- The `switch` of `madtInit`. -/
def madtEntry (m : Mem) (A : Allocator ℕ) (madt_ptr : ℕ) (t : Madt) : Option Madt :=
  match m madt_ptr with
  | 0 => (t.lapics.pushBack A madt_ptr).map fun v => { t with lapics := v }
  | 1 => (t.ioapics.pushBack A madt_ptr).map fun v => { t with ioapics := v }
  | 2 => (t.isos.pushBack A madt_ptr).map fun v => { t with isos := v }
  | 4 => (t.nmis.pushBack A madt_ptr).map fun v => { t with nmis := v }
  | 5 => some { t with lapicAddress := load m (madt_ptr + 4) 8 }
  | _ => some t

/-- A round of the loop of `madtInit`. -/
def madtRound (m : Mem) (A : Allocator ℕ) (madthdr : ℕ) (x : ℕ × Madt) :
    Option ((ℕ × Madt) ⊕ Madt) :=
  if x.1 < Word64.add madthdr (load m (madthdr + 4) 4) then
    (madtEntry m A x.1 x.2).map fun t => .inl (Word64.add x.1 (m (x.1 + 1)).toNat, t)
  else some (.inr x.2)

/-- `madtInit`; `madthdr` is the address of the table. -/
def madtInit (fuel : ℕ) (m : Mem) (A : Allocator ℕ) (madthdr : ℕ) : Option Madt :=
  loop (madtRound m A madthdr) fuel (Word64.add madthdr ENTRIES_BEGIN,
    { lapics := .init A 1
      ioapics := .init A 1
      isos := .init A 1
      nmis := .init A 1
      lapicAddress := load m (madthdr + 36) 4 })

/-! ## Tables -/

/-- The size of the structure for a type of entry; of an entry of type `5` the eight bytes at
offset `4` are read. -/
def structSize (type : UInt8) : ℕ :=
  match type with
  | 0 => 8
  | 1 => 12
  | 2 => 10
  | 4 => 6
  | 5 => 12
  | _ => 2

/-- An entry: its length fits into a byte, and it is long enough for its type. -/
structure Entry where
  type : UInt8
  payload : List UInt8
  length_lt : payload.length + 2 < 256
  fits : structSize type ≤ payload.length + 2

namespace Entry

/-- The length of the entry in bytes. -/
def size (e : Entry) : ℕ := e.payload.length + 2

/-- The bytes of the entry. -/
def bytes (e : Entry) : List UInt8 := e.type :: UInt8.ofNat e.size :: e.payload

/-- The address in an entry of type `5`. -/
def address (e : Entry) : ℕ := value ((e.payload.drop 2).take 8)

lemma length_bytes (e : Entry) : e.bytes.length = e.size := by simp [bytes, size]

end Entry

/-- The entries with their addresses. -/
def placed (a : ℕ) : List Entry → List (ℕ × Entry)
  | [] => []
  | e :: entries => (a, e) :: placed (a + e.size) entries

/-- The addresses of the entries of a type, in the order of the table. -/
def ofType (a : ℕ) (entries : List Entry) (type : UInt8) : List ℕ :=
  ((placed a entries).filter fun p => p.2.type = type).map Prod.fst

/-- The table stands in memory: the entries follow the header, and its length is that of the
whole table, which ends below `2 ^ 64`. -/
structure LaidOut (m : Mem) (madthdr : ℕ) (entries : List Entry) : Prop where
  stored : Stored m (madthdr + ENTRIES_BEGIN) (entries.flatMap Entry.bytes)
  length : load m (madthdr + 4) 4 = ENTRIES_BEGIN + (entries.flatMap Entry.bytes).length
  ends : madthdr + ENTRIES_BEGIN + (entries.flatMap Entry.bytes).length < 2 ^ 64

/-! ## The walk -/

variable {m : Mem} {A : Allocator ℕ} {madthdr a : ℕ} {entries : List Entry} {e : Entry} {t : Madt}

/-- The vectors hold the addresses of the entries of their types. -/
structure Collects (t : Madt) (xs : UInt8 → List ℕ) : Prop where
  lapics : t.lapics.Holds (xs 0)
  ioapics : t.ioapics.Holds (xs 1)
  isos : t.isos.Holds (xs 2)
  nmis : t.nmis.Holds (xs 4)

/-- The lists with an entry more. -/
def addEntry (xs : UInt8 → List ℕ) (a : ℕ) (type : UInt8) : UInt8 → List ℕ :=
  Function.update xs type (xs type ++ [a])

/-- At the beginning the vectors are empty. -/
lemma Collects.init (hA : A.Succeeds) (lapicAddress : ℕ) :
    Collects ⟨.init A 1, .init A 1, .init A 1, .init A 1, lapicAddress⟩ fun _ => [] := by
  have hholds : (StoredVector.init A 1).Holds [] := StoredVector.holds_init hA Nat.one_pos
  exact ⟨hholds, hholds, hholds, hholds⟩

/-- An entry of another type leaves the vectors alone. -/
lemma Collects.other {xs : UInt8 → List ℕ} {type : UInt8} (h : Collects t xs)
    (htype : type ≠ 0 ∧ type ≠ 1 ∧ type ≠ 2 ∧ type ≠ 4) : Collects t (addEntry xs a type) := by
  obtain ⟨h0, h1, h2, h4⟩ := htype
  constructor
  · rw [addEntry, Function.update_of_ne h0.symm]
    exact h.lapics
  · rw [addEntry, Function.update_of_ne h1.symm]
    exact h.ioapics
  · rw [addEntry, Function.update_of_ne h2.symm]
    exact h.isos
  · rw [addEntry, Function.update_of_ne h4.symm]
    exact h.nmis

/-- The eight bytes that are read from an entry of type `5`. -/
lemma load_address (he : Stored m a e.bytes) (htype : e.type = 5) :
    load m (a + 4) 8 = e.address := by
  obtain ⟨-, hrest⟩ := stored_cons.mp he
  obtain ⟨-, hpayload⟩ := stored_cons.mp hrest
  have hlen : 10 ≤ e.payload.length := by
    have := e.fits
    rw [htype] at this
    simpa [structSize] using this
  have hsplit : e.payload = e.payload.take 2 ++
      ((e.payload.drop 2).take 8 ++ e.payload.drop 10) := by
    rw [show e.payload.drop 10 = (e.payload.drop 2).drop 8 by rw [List.drop_drop],
      List.take_append_drop, List.take_append_drop]
  rw [hsplit] at hpayload
  obtain ⟨-, hpayload⟩ := stored_append.mp hpayload
  obtain ⟨hword, -⟩ := stored_append.mp hpayload
  have hload := load_of_stored hword
  rwa [show ((e.payload.drop 2).take 8).length = 8 by simp; omega,
    show a + 1 + 1 + (e.payload.take 2).length = a + 4 by simp; omega] at hload

/-- One entry is put into the vector of its type, whatever its other bytes are. -/
lemma madtEntry_collects {xs : UInt8 → List ℕ} (hA : A.Succeeds) (ht : Collects t xs) (a : ℕ) :
    ∃ t', madtEntry m A a t = some t' ∧ Collects t' (addEntry xs a (m a)) ∧
      t'.lapicAddress = if m a = 5 then load m (a + 4) 8 else t.lapicAddress := by
  rw [madtEntry]
  split
  · rename_i h0
    obtain ⟨v, hv, hholds⟩ := ht.lapics.pushBack hA a
    rw [h0, hv]
    exact ⟨_, rfl, ⟨hholds, ht.ioapics, ht.isos, ht.nmis⟩, rfl⟩
  · rename_i h1
    obtain ⟨v, hv, hholds⟩ := ht.ioapics.pushBack hA a
    rw [h1, hv]
    exact ⟨_, rfl, ⟨ht.lapics, hholds, ht.isos, ht.nmis⟩, rfl⟩
  · rename_i h2
    obtain ⟨v, hv, hholds⟩ := ht.isos.pushBack hA a
    rw [h2, hv]
    exact ⟨_, rfl, ⟨ht.lapics, ht.ioapics, hholds, ht.nmis⟩, rfl⟩
  · rename_i h4
    obtain ⟨v, hv, hholds⟩ := ht.nmis.pushBack hA a
    rw [h4, hv]
    exact ⟨_, rfl, ⟨ht.lapics, ht.ioapics, ht.isos, hholds⟩, rfl⟩
  · rename_i h5
    have hother : Collects t (addEntry xs a 5) := ht.other (by decide)
    rw [h5]
    exact ⟨_, rfl, ⟨hother.lapics, hother.ioapics, hother.isos, hother.nmis⟩, rfl⟩
  · rename_i h0 h1 h2 h4 h5
    exact ⟨t, rfl, ht.other ⟨h0, h1, h2, h4⟩, (if_neg h5).symm⟩

/-- One entry of a table that is laid out as it should be. -/
lemma madtEntry_spec {xs : UInt8 → List ℕ} (hA : A.Succeeds) (ht : Collects t xs)
    (he : Stored m a e.bytes) :
    ∃ t', madtEntry m A a t = some t' ∧ Collects t' (addEntry xs a e.type) ∧
      t'.lapicAddress = if e.type = 5 then e.address else t.lapicAddress := by
  have htype : m a = e.type := (stored_cons.mp he).1
  obtain ⟨t', ht', hcollects, haddress⟩ := madtEntry_collects (m := m) hA ht a
  rw [htype] at hcollects haddress
  refine ⟨t', ht', hcollects, ?_⟩
  rw [haddress]
  by_cases h5 : e.type = 5
  · rw [if_pos h5, if_pos h5, load_address he h5]
  · rw [if_neg h5, if_neg h5]

/-- The address in the last entry of type `5`, or `address` if there is none. -/
def lastAddress (address : ℕ) (entries : List Entry) : ℕ :=
  (((entries.filter fun e => e.type = 5).getLast?).map Entry.address).getD address

lemma lastAddress_cons (address : ℕ) (e : Entry) (entries : List Entry) :
    lastAddress address (e :: entries) =
      lastAddress (if e.type = 5 then e.address else address) entries := by
  rw [lastAddress, lastAddress]
  by_cases h5 : e.type = 5
  · rw [List.filter_cons_of_pos (by simpa using h5), List.getLast?_cons, if_pos h5]
    cases (entries.filter fun e => e.type = 5).getLast? with
    | none => rfl
    | some e' => rfl
  · rw [List.filter_cons_of_neg (by simpa using h5), if_neg h5]

/-- The lists of addresses after the entries from `a` on. -/
def collected (xs : UInt8 → List ℕ) (a : ℕ) (entries : List Entry) : UInt8 → List ℕ :=
  fun type => xs type ++ ofType a entries type

lemma collected_cons (xs : UInt8 → List ℕ) (a : ℕ) (e : Entry) (entries : List Entry) :
    collected xs a (e :: entries) = collected (addEntry xs a e.type) (a + e.size) entries := by
  ext1 type
  rw [collected, collected, ofType, ofType, placed, addEntry]
  by_cases htype : e.type = type
  · subst htype
    rw [List.filter_cons_of_pos (by simp), List.map_cons, Function.update_self, List.append_assoc]
    rfl
  · rw [List.filter_cons_of_neg (by simpa using htype), Function.update_of_ne (Ne.symm htype)]

/-- The walk over the entries from `a` on, where `last` is the end of the table. -/
lemma walk_spec {xs : UInt8 → List ℕ} {last fuel : ℕ} (hA : A.Succeeds)
    (hlast : Word64.add madthdr (load m (madthdr + 4) 4) = last) (hlt : last < 2 ^ 64)
    (ht : Collects t xs) (hstored : Stored m a (entries.flatMap Entry.bytes))
    (hend : a + (entries.flatMap Entry.bytes).length = last) (hfuel : entries.length < fuel) :
    ∃ t', loop (madtRound m A madthdr) fuel (a, t) = some t' ∧
      Collects t' (collected xs a entries) ∧
      t'.lapicAddress = lastAddress t.lapicAddress entries := by
  induction entries generalizing a t xs fuel with
  | nil =>
    obtain ⟨n, rfl⟩ : ∃ n, fuel = n + 1 := ⟨fuel - 1, by simp at hfuel; omega⟩
    refine ⟨t, ?_, ?_, rfl⟩
    · rw [loop_succ, madtRound, hlast, if_neg (by simp at hend; omega)]
      rfl
    · have hxs : collected xs a [] = xs := by
        ext1 type
        simp [collected, ofType, placed]
      rwa [hxs]
  | cons e entries ih =>
    obtain ⟨n, rfl⟩ : ∃ n, fuel = n + 1 := ⟨fuel - 1, by simp at hfuel; omega⟩
    rw [List.flatMap_cons] at hstored hend
    obtain ⟨he, hrest⟩ := stored_append.mp hstored
    rw [List.length_append, e.length_bytes] at hend
    rw [e.length_bytes] at hrest
    obtain ⟨t₁, ht₁, hcollects, haddress⟩ := madtEntry_spec hA ht he
    have hpos : 0 < e.size := Nat.succ_pos _
    -- the length byte leads to the next entry
    have hsize : (m (a + 1)).toNat = e.size := by
      rw [(stored_cons.mp (stored_cons.mp he).2).1, UInt8.toNat_ofNat']
      exact Nat.mod_eq_of_lt e.length_lt
    have hround : madtRound m A madthdr (a, t) = some (.inl (a + e.size, t₁)) := by
      rw [madtRound, hlast, if_pos (by dsimp only; omega), ht₁, Option.map_some, hsize,
        Word64.add_of_lt (by omega)]
    obtain ⟨t', ht', hcollects', haddress'⟩ :=
      ih hcollects hrest (by omega) (by simpa using hfuel)
    refine ⟨t', ?_, ?_, ?_⟩
    · rw [loop_succ, hround]
      exact ht'
    · rwa [collected_cons]
    · rw [haddress', haddress, lastAddress_cons]

/-! ## The main result -/

/-- **`madtInit` finds what is in the table.**  On a table that is laid out as it should be it ends;
the four vectors hold the addresses of the entries of their types, each once and in the order of the
table; and the address of the local APIC is that of the last entry of type `5`, or the one in the
header if there is none. -/
theorem madtInit_exact (hA : A.Succeeds) (h : LaidOut m madthdr entries) :
    ∃ t, (∀ fuel > entries.length, madtInit fuel m A madthdr = some t) ∧
      t.lapics.Holds (ofType (madthdr + ENTRIES_BEGIN) entries 0) ∧
      t.ioapics.Holds (ofType (madthdr + ENTRIES_BEGIN) entries 1) ∧
      t.isos.Holds (ofType (madthdr + ENTRIES_BEGIN) entries 2) ∧
      t.nmis.Holds (ofType (madthdr + ENTRIES_BEGIN) entries 4) ∧
      t.lapicAddress = lastAddress (load m (madthdr + 36) 4) entries := by
  have hends := h.ends
  have hlast : Word64.add madthdr (load m (madthdr + 4) 4) =
      madthdr + ENTRIES_BEGIN + (entries.flatMap Entry.bytes).length := by
    rw [h.length, Word64.add_of_lt (by omega), Nat.add_assoc]
  obtain ⟨t, ht, hcollects, haddress⟩ :=
    walk_spec hA hlast hends (.init hA (load m (madthdr + 36) 4)) h.stored rfl (Nat.lt_succ_self _)
  refine ⟨t, fun fuel hfuel => ?_, hcollects.lapics, hcollects.ioapics, hcollects.isos,
    hcollects.nmis, haddress⟩
  rw [madtInit, Word64.add_of_lt (by omega)]
  exact loop_mono hfuel ht

/-- An allocator that always succeeds; new cells hold zero. -/
def zeroAllocator : Allocator ℕ where
  new := fun n => some (List.replicate n 0)
  realloc := fun cells n => cells.map fun cells => cells ++ List.replicate (n - cells.length) 0

lemma zeroAllocator_succeeds : zeroAllocator.Succeeds where
  new := fun n => ⟨_, rfl, List.length_replicate⟩
  realloc := by
    intro cells n h
    refine ⟨_, rfl, ?_⟩
    rw [List.length_append, List.length_replicate]
    omega

/-- A local APIC, and an address that replaces the one in the header. -/
def smallEntries : List Entry :=
  [⟨0, [0, 0, 1, 0, 0, 0], by decide, by decide⟩,
    ⟨5, [0, 0, 0, 0, 0xe0, 0xfe, 1, 0, 0, 0], by decide, by decide⟩]

/-- The bytes of the table with these entries. -/
def smallTable : List UInt8 :=
  "APIC".toList.map (fun c => UInt8.ofNat c.toNat) ++ [64, 0, 0, 0] ++ List.replicate 28 0 ++
    [0, 0, 0xe0, 0xfe] ++ [1, 0, 0, 0] ++ smallEntries.flatMap Entry.bytes

/-- The table stands at `0x1000`. -/
def smallMemory : Mem := fun x => smallTable.getD (x - 0x1000) 0

lemma smallTable_laidOut : LaidOut smallMemory 0x1000 smallEntries where
  stored := by
    intro i b hb
    obtain ⟨hi, rfl⟩ := List.getElem?_eq_some_iff.mp hb
    have hall : ∀ (i : ℕ) (hi : i < (smallEntries.flatMap Entry.bytes).length),
        smallMemory (0x1000 + ENTRIES_BEGIN + i) = (smallEntries.flatMap Entry.bytes)[i] := by
      decide +kernel
    exact hall i hi
  length := by decide +kernel
  ends := by decide +kernel

/-- The entry at offset `44` is found, and the address is that of the second entry. -/
theorem madtInit_exact_smallTable :
    ∃ t, (∀ fuel > 2, madtInit fuel smallMemory zeroAllocator 0x1000 = some t) ∧
      t.lapics.Holds [0x1000 + 44] ∧ t.lapicAddress = 0x1fee00000 := by
  obtain ⟨t, ht, hlapics, -, -, -, haddress⟩ :=
    madtInit_exact zeroAllocator_succeeds smallTable_laidOut
  have htype : ofType (0x1000 + ENTRIES_BEGIN) smallEntries 0 = [0x1000 + 44] := by
    decide +kernel
  have hlast : lastAddress (load smallMemory (0x1000 + 36) 4) smallEntries = 0x1fee00000 := by
    decide +kernel
  rw [htype] at hlapics
  rw [hlast] at haddress
  exact ⟨t, ht, hlapics, haddress⟩

end TurbOS.Acpi
