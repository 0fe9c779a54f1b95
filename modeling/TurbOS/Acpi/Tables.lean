import TurbOS.Lib.Searching
import TurbOS.Lib.Word64
import TurbOS.Str.Compare

/-!
# Looking up a table

`findtable` goes through the addresses in the root table.  The old root table holds them in four
bytes each, the extended one in eight.  A null address and a table with a blank signature are passed
over, and so are the first `skip` tables with the signature.

Both encodings are read back entry by entry, so the loop is the same search in the list of
addresses.
-/

open ByteMemory MappedMemory Searching

namespace TurbOS.Acpi

open Str.Raw

/-- `sizeof(SDTHeader)`. -/
def SDT_HEADER_SIZE : ℕ := 36

/-- The bytes of an address in the root table. -/
def entryWidth (useXSTD : Bool) : ℕ := if useXSTD then 8 else 4

/-- The address in an entry of the root table. -/
def newsdthdr (m : Memory) (rsdt : ℕ) (useXSTD : Bool) (i : ℕ) : Option ℕ :=
  if useXSTD then m.readBytes (Word64.add (Word64.add rsdt SDT_HEADER_SIZE) (Word64.mul i 8)) 8
  else m.readBytes (Word64.add (Word64.add rsdt SDT_HEADER_SIZE) (Word64.mul i 4)) 4

/-- The test for an entry that is passed over; `empty` is the address of the literal `""`. -/
def blank (m : Memory) (fuel empty table : ℕ) : Option Bool :=
  if table = 0 then some true else (strcmp m fuel table empty).map fun r => decide (r = 0)

/-- The loop of `findtable` from the entry `i` on, with `n` entries to go. -/
def findFrom (m : Memory) (fuel rsdt : ℕ) (useXSTD : Bool) (empty signature : ℕ) :
    ℕ → ℕ → ℕ → Option ℕ
  | 0, _, _ => some 0
  | n + 1, i, skip =>
    (newsdthdr m rsdt useXSTD i).bind fun table =>
      (blank m fuel empty table).bind fun passed =>
        if passed then findFrom m fuel rsdt useXSTD empty signature n (i + 1) skip
        else
          (strncmp m table signature 4).bind fun r =>
            if r = 0 then
              if skip = 0 then some table
              else findFrom m fuel rsdt useXSTD empty signature n (i + 1) (skip - 1)
            else findFrom m fuel rsdt useXSTD empty signature n (i + 1) skip

/-- `findtable`; a null pointer is `0`.  The test `skip < 0` is never true. -/
def findtable (m : Memory) (fuel rsdt : ℕ) (useXSTD : Bool) (empty signature skip : ℕ) : Option ℕ :=
  (m.readBytes (rsdt + 4) 4).bind fun length =>
    findFrom m fuel rsdt useXSTD empty signature
      (Word64.sub length SDT_HEADER_SIZE / entryWidth useXSTD) 0 skip

/-! ## Root tables -/

/-- The root table lists the tables. -/
structure Lists (m : Memory) (rsdt : ℕ) (useXSTD : Bool) (tables : List ℕ) : Prop where
  length : m.readBytes (rsdt + 4) 4 = some (SDT_HEADER_SIZE + entryWidth useXSTD * tables.length)
  entries : Bytes m (rsdt + SDT_HEADER_SIZE)
    (tables.flatMap fun t => bytesOf t (entryWidth useXSTD))

/-- The tables that are listed have signatures. -/
structure Signed (m : Memory) (tables : List ℕ) (signature : ℕ → List UInt8) : Prop where
  stored : ∀ t ∈ tables, t ≠ 0 → Bytes m t (signature t)
  length : ∀ t ∈ tables, t ≠ 0 → (signature t).length = 4

/-- The table has the signature. -/
def HasSignature (signature : ℕ → List UInt8) (s : List UInt8) (t : ℕ) : Prop :=
  t ≠ 0 ∧ signature t = s

instance (signature : ℕ → List UInt8) (s : List UInt8) : DecidablePred (HasSignature signature s) :=
  fun _ => inferInstanceAs (Decidable (_ ∧ _))

/-- What the lookup is for: the table with the signature behind `skip` others, or a null pointer. -/
def lookup (signature : ℕ → List UInt8) (s : List UInt8) (tables : List ℕ) (skip : ℕ) : ℕ :=
  ((tables.filter fun t => HasSignature signature s t)[skip]?).getD 0

variable {m : Memory} {fuel rsdt empty sig skip i : ℕ} {useXSTD : Bool} {tables ts : List ℕ}
  {signature : ℕ → List UInt8} {s : List UInt8} {t : ℕ}

/-- An entry is read back; nothing wraps around, since what is mapped has canonical addresses. -/
lemma newsdthdr_eq (h : Bytes m (rsdt + SDT_HEADER_SIZE + entryWidth useXSTD * i)
    (bytesOf t (entryWidth useXSTD))) (ht : t < 2 ^ 32) :
    newsdthdr m rsdt useXSTD i = some t := by
  have hpos : 0 < entryWidth useXSTD := by
    cases useXSTD <;> decide
  have hlt : rsdt + SDT_HEADER_SIZE + entryWidth useXSTD * i < 2 ^ 64 :=
    (m.canonical _ (h.mapped 0 (by rwa [length_bytesOf]))).lt
  have hread := h.readBytes
  rw [length_bytesOf, value_bytesOf] at hread
  have hstart : Word64.add rsdt SDT_HEADER_SIZE = rsdt + SDT_HEADER_SIZE :=
    Word64.add_of_lt (by omega)
  cases useXSTD with
  | false =>
    have hword : t % 256 ^ 4 = t := Nat.mod_eq_of_lt (by omega)
    rw [entryWidth, if_neg (by decide)] at hlt hread
    have hoffset : Word64.mul i 4 = 4 * i := by rw [Word64.mul_of_lt (by omega), Nat.mul_comm]
    rw [newsdthdr, if_neg (by decide), hstart, hoffset, Word64.add_of_lt hlt, hread, hword]
  | true =>
    have hword : t % 256 ^ 8 = t := Nat.mod_eq_of_lt (by omega)
    rw [entryWidth, if_pos rfl] at hlt hread
    have hoffset : Word64.mul i 8 = 8 * i := by rw [Word64.mul_of_lt (by omega), Nat.mul_comm]
    rw [newsdthdr, if_pos rfl, hstart, hoffset, Word64.add_of_lt hlt, hread, hword]

/-- An entry is passed over if it is null or its signature is blank; such a signature is not the one
that is looked for. -/
lemma blank_eq (hempty : Text m empty []) (hfuel : 0 < fuel)
    (hsigned : t ≠ 0 → Bytes m t (signature t) ∧ (signature t).length = 4) (hs : 0 ∉ s) :
    ∃ passed, blank m fuel empty t = some passed ∧ (passed = true → ¬ HasSignature signature s t) ∧
      (passed = false → t ≠ 0) := by
  by_cases ht : t = 0
  · refine ⟨true, by rw [blank, if_pos ht], fun _ h => h.1 ht, by simp⟩
  · obtain ⟨hbytes, hfour⟩ := hsigned ht
    obtain ⟨x, rest, hx⟩ : ∃ x rest, signature t = x :: rest :=
      List.exists_cons_of_ne_nil (by intro heq; rw [heq] at hfour; simp at hfour)
    rw [hx] at hbytes
    obtain ⟨hread, -⟩ := Bytes.cons_iff.mp hbytes
    refine ⟨decide ((x.toNat : ℤ) = 0), ?_, fun hzero h => ?_, fun _ => ht⟩
    · rw [blank, if_neg ht, strcmp_empty hread hempty hfuel, Option.map_some]
    · have hx0 : x = 0 := by
        rw [decide_eq_true_eq, Nat.cast_eq_zero] at hzero
        exact UInt8.toNat_inj.mp hzero
      rw [HasSignature, hx, hx0] at h
      exact hs (h.2 ▸ List.mem_cons_self)

/-- The loop is a search in the list. -/
lemma findFrom_eq (hempty : Text m empty []) (hfuel : 0 < fuel) (hsig : Bytes m sig s) (hs : 0 ∉ s)
    (hlen : s.length = 4) (hts : ∀ t ∈ ts, t < 2 ^ 32) (hsigned : Signed m ts signature)
    (hentries : Bytes m (rsdt + SDT_HEADER_SIZE + entryWidth useXSTD * i)
      (ts.flatMap fun t => bytesOf t (entryWidth useXSTD))) :
    findFrom m fuel rsdt useXSTD empty sig ts.length i skip =
      some ((pick (HasSignature signature s) skip ts).getD 0) := by
  induction ts generalizing i skip with
  | nil => cases skip <;> rfl
  | cons t ts ih =>
    rw [List.flatMap_cons] at hentries
    obtain ⟨hentry, hrest⟩ := Bytes.append_iff.mp hentries
    rw [length_bytesOf, Nat.add_assoc, ← Nat.mul_succ] at hrest
    have ih : ∀ skip, _ := fun skip =>
      @ih skip (i + 1) (fun t' ht' => hts t' (List.mem_cons_of_mem t ht'))
      ⟨fun t' ht' => hsigned.stored t' (List.mem_cons_of_mem t ht'),
        fun t' ht' => hsigned.length t' (List.mem_cons_of_mem t ht')⟩ hrest
    have hthis : t ≠ 0 → Bytes m t (signature t) ∧ (signature t).length = 4 := fun ht =>
      ⟨hsigned.stored t List.mem_cons_self ht, hsigned.length t List.mem_cons_self ht⟩
    obtain ⟨passed, hpassed, hyes, hno⟩ := blank_eq hempty hfuel hthis hs
    rw [List.length_cons, findFrom, newsdthdr_eq hentry (hts t List.mem_cons_self),
      Option.bind_some, hpassed, Option.bind_some]
    cases passed with
    | true => rw [if_pos rfl, ih, pick_of_not (hyes rfl)]
    | false =>
      have ht := hno rfl
      obtain ⟨hbytes, hfour⟩ := hthis ht
      have hcompare : strncmp m t sig 4 = some (if signature t = s then 0 else 1) := by
        rw [← hfour]
        exact strncmp_eq hbytes hsig (by rw [hfour, hlen])
      rw [if_neg (by decide), hcompare, Option.bind_some]
      by_cases heq : signature t = s
      · have hhas : HasSignature signature s t := ⟨ht, heq⟩
        rw [if_pos heq, if_pos rfl]
        cases skip with
        | zero => rw [if_pos rfl, pick, if_pos hhas, Option.getD_some]
        | succ skip => rw [if_neg (by omega), Nat.add_sub_cancel, ih, pick, if_pos hhas]
      · rw [if_neg heq, if_neg (by decide), ih, pick_of_not fun h => heq h.2]

/-- `findtable` on a root table of either kind. -/
lemma findtable_eq (h : Lists m rsdt useXSTD tables) (hsigned : Signed m tables signature)
    (htables : ∀ t ∈ tables, t < 2 ^ 32) (hempty : Text m empty []) (hfuel : 0 < fuel)
    (hsig : Bytes m sig s) (hs : 0 ∉ s) (hlen : s.length = 4) (skip : ℕ) :
    findtable m fuel rsdt useXSTD empty sig skip = some (lookup signature s tables skip) := by
  have hpos : 0 < entryWidth useXSTD := by
    cases useXSTD <;> decide
  have hbound : SDT_HEADER_SIZE + entryWidth useXSTD * tables.length < 2 ^ 64 := by
    have hlt := Memory.readBytes_lt h.length
    omega
  rw [findtable, h.length, Option.bind_some, Word64.sub_of_le hbound (Nat.le_add_right _ _),
    Nat.add_sub_cancel_left, Nat.mul_div_cancel_left _ hpos,
    findFrom_eq hempty hfuel hsig hs hlen htables hsigned (i := 0) (by simpa using h.entries),
    pick_eq, lookup]

/-! ## The main result -/

/-- **Both root tables give the same answer.**  The tables are listed in four bytes each in one
memory and in eight bytes each in another one.  In both of them `findtable` returns the table with
the signature that stands behind `skip` others, or a null pointer if there are not so many, and
follows no pointer that may not be followed. -/
theorem findtable_finds {m₁ m₂ : Memory} {rsdt₁ rsdt₂ empty₁ empty₂ sig₁ sig₂ : ℕ}
    (htables : ∀ t ∈ tables, t < 2 ^ 32) (h₁ : Lists m₁ rsdt₁ false tables)
    (h₂ : Lists m₂ rsdt₂ true tables) (hsigned₁ : Signed m₁ tables signature)
    (hsigned₂ : Signed m₂ tables signature) (hempty₁ : Text m₁ empty₁ [])
    (hempty₂ : Text m₂ empty₂ [])
    (hsig₁ : Bytes m₁ sig₁ s) (hsig₂ : Bytes m₂ sig₂ s) (hs : 0 ∉ s) (hlen : s.length = 4)
    (hfuel : 0 < fuel) (skip : ℕ) :
    findtable m₁ fuel rsdt₁ false empty₁ sig₁ skip = some (lookup signature s tables skip) ∧
      findtable m₂ fuel rsdt₂ true empty₂ sig₂ skip = some (lookup signature s tables skip) :=
  ⟨findtable_eq h₁ hsigned₁ htables hempty₁ hfuel hsig₁ hs hlen skip,
    findtable_eq h₂ hsigned₂ htables hempty₂ hfuel hsig₂ hs hlen skip⟩

/-- `"FACP"`. -/
def facp : List UInt8 := [70, 65, 67, 80]

/-- `"APIC"`. -/
def apic : List UInt8 := [65, 80, 73, 67]

/-- Two tables at `100` and `104`, the two literals, and a root table at `113`. -/
def rootBytes (useXSTD : Bool) : List UInt8 :=
  facp ++ apic ++ apic ++ [0] ++
    ([0, 0, 0, 0] ++ bytesOf (36 + entryWidth useXSTD * 3) 4 ++ List.replicate 28 0 ++
      [0, 100, 104].flatMap fun t => bytesOf t (entryWidth useXSTD))

/-- The memory with the root table of this kind. -/
def rootMemory (useXSTD : Bool) : Memory :=
  ofList 100 (rootBytes useXSTD) (by cases useXSTD <;> decide)

/-- The signatures of the two tables. -/
def twoSignatures (t : ℕ) : List UInt8 := if t = 100 then facp else apic

lemma rootMemory_lists (useXSTD : Bool) : Lists (rootMemory useXSTD) 113 useXSTD [0, 100, 104] := by
  cases useXSTD with
  | false => exact ⟨by decide, Bytes.of_getElem? (by decide) (by decide)⟩
  | true => exact ⟨by decide, Bytes.of_getElem? (by decide) (by decide)⟩

lemma rootMemory_signed (useXSTD : Bool) :
    Signed (rootMemory useXSTD) [0, 100, 104] twoSignatures := by
  have hfacp : Bytes (rootMemory useXSTD) 100 facp := by
    cases useXSTD <;> exact Bytes.of_getElem? (by decide) (by decide)
  have hapic : Bytes (rootMemory useXSTD) 104 apic := by
    cases useXSTD <;> exact Bytes.of_getElem? (by decide) (by decide)
  refine ⟨fun t ht hne => ?_, by decide⟩
  simp only [List.mem_cons, List.not_mem_nil, or_false] at ht
  rcases ht with rfl | rfl | rfl
  · exact absurd rfl hne
  · exact hfacp
  · exact hapic

lemma rootMemory_literals (useXSTD : Bool) :
    Bytes (rootMemory useXSTD) 108 apic ∧ Text (rootMemory useXSTD) 112 [] := by
  cases useXSTD with
  | false =>
    exact ⟨Bytes.of_getElem? (by decide) (by decide), .of_bytes (by decide) (by decide) (by simp)⟩
  | true =>
    exact ⟨Bytes.of_getElem? (by decide) (by decide), .of_bytes (by decide) (by decide) (by simp)⟩

/-- The second table is found behind the null entry and the first table. -/
theorem findtable_finds_apic :
    findtable (rootMemory false) 1 113 false 112 108 0 = some 104 ∧
      findtable (rootMemory true) 1 113 true 112 108 0 = some 104 :=
  findtable_finds (by decide) (rootMemory_lists false) (rootMemory_lists true)
    (rootMemory_signed false)
    (rootMemory_signed true) (rootMemory_literals false).2 (rootMemory_literals true).2
    (rootMemory_literals false).1 (rootMemory_literals true).1 (by decide) (by decide) Nat.one_pos 0

end TurbOS.Acpi
