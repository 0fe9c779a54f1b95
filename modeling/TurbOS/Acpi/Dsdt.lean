import TurbOS.Lib.Occurrences
import TurbOS.Str.Compare

/-!
# The sleep types in the DSDT

`dsdtInit` looks for the name `_S5_` in the table that holds the code of the firmware.  The package
behind the name has the two sleep types as its first elements, and these are what has to be written
to the power management registers to switch the machine off.

The search begins behind the header but runs over as many places as the whole table has bytes, and
the comparison does not see the last letter of the name.  Only the bytes of the table may be read
here, so a result says that no other byte was read.
-/

open ByteMemory MappedMemory Occurrences

namespace TurbOS.Acpi

open Str.Raw

/-! ## The function -/

/-- The fields of `FADTHeader` that are read. -/
structure FADTHeader where
  X_Dsdt : UInt64
  Dsdt : UInt32
  SMI_CommandPort : UInt32
  AcpiEnable : UInt8
  AcpiDisable : UInt8
  PM1aControlBlock : UInt32
  PM1bControlBlock : UInt32
  PM1ControlLength : UInt8

/-- The variables for the power management registers, and the messages. -/
structure Power where
  SMI_CMD : UInt32
  ACPI_ENABLE : UInt8
  ACPI_DISABLE : UInt8
  PM1a_CNT : UInt32
  PM1b_CNT : UInt32
  SLP_TYPa : UInt16
  SLP_TYPb : UInt16
  SLP_EN : UInt16
  SCI_EN : UInt16
  PM1_CNT_LEN : UInt8
  log : List String

/-- `is_canonical`. -/
def is_canonical (addr : UInt64) : Bool :=
  addr ≤ 0x00007FFFFFFFFFFF || addr ≥ 0xFFFF800000000000 && addr ≤ 0xFFFFFFFFFFFFFFFF

/-- The address of the table. -/
def dsdtaddr (fadthdr : FADTHeader) (useXSTD : Bool) : ℕ :=
  if is_canonical fadthdr.X_Dsdt && useXSTD then fadthdr.X_Dsdt.toNat else fadthdr.Dsdt.toNat

/-- `"_S5_"`. -/
def nameS5 : List UInt8 := [95, 83, 53, 95]

/-- The search: `S5Addr` and `dsdtlength` behind it.  The length is counted down once more when it
is zero. -/
def search (m : Memory) : ℕ → ℕ → Option (ℕ × ℕ)
  | 0, S5Addr => some (S5Addr, 2 ^ 64 - 1)
  | dsdtlength + 1, S5Addr => (memcmp m S5Addr nameS5).bind fun r =>
      if r = 0 then some (S5Addr, dsdtlength) else search m dsdtlength (S5Addr + 1)

/-- A name op stands in front of the name. -/
def isNamed (m : Memory) (S5Addr : ℕ) : Option Bool :=
  (m.read (S5Addr - 1)).bind fun x =>
    if x = 0x8 then some true else (m.read (S5Addr - 2)).map fun y => decide (y = 0x8 ∧ x = 92)

/-- A name op stands in front of the name and a package op behind it. -/
def isPackage (m : Memory) (S5Addr : ℕ) : Option Bool :=
  (isNamed m S5Addr).bind fun named =>
    if named then (m.read (S5Addr + 4)).map fun x => decide (x = 0x12) else some false

/-- The byte that is taken for the sleep type: the length of the package has up to four bytes, then
comes the number of the elements, and a byte prefix is passed over. -/
def element (m : Memory) (S5Addr : ℕ) : Option UInt8 :=
  (m.read (S5Addr + 5)).bind fun lead =>
    let S5Addr := S5Addr + 5 + (((lead &&& 0xC0) >>> 6).toNat + 2)
    (m.read S5Addr).bind fun x => if x = 0xA then m.read (S5Addr + 1) else some x

/-- The message for a table without the name. -/
def notPresent : String := "_S5 not present in ACPI"

/-- The variables that are set when the package was found. -/
def parsed (fadthdr : FADTHeader) (x : UInt8) (s : Power) : Power :=
  { s with
    SLP_TYPb := x.toUInt16 <<< (10 : UInt16)
    SMI_CMD := fadthdr.SMI_CommandPort
    ACPI_ENABLE := fadthdr.AcpiEnable
    ACPI_DISABLE := fadthdr.AcpiDisable
    PM1a_CNT := fadthdr.PM1aControlBlock
    PM1b_CNT := fadthdr.PM1bControlBlock
    PM1_CNT_LEN := fadthdr.PM1ControlLength
    SLP_EN := (1 : UInt16) <<< (13 : UInt16)
    SCI_EN := 1 }

/-- The variables when no package was found. -/
def failed (s : Power) : Power :=
  { s with
    SCI_EN := 0
    log := s.log ++ ["Failed to parse _S5 in ACPI", "ACPI shutdown may not be possible"] }

/-- What is done with the place at which the search has stopped. -/
def parse (m : Memory) (fadthdr : FADTHeader) (S5Addr : ℕ) (s : Power) : Option Power :=
  (isPackage m S5Addr).bind fun package =>
    if package then (element m S5Addr).map fun x => parsed fadthdr x s else some (failed s)

/-- `dsdtInit`. -/
def dsdtInit (m : Memory) (fadthdr : FADTHeader) (useXSTD : Bool) (s : Power) : Option Power :=
  (m.readBytes (dsdtaddr fadthdr useXSTD + 4) 4).bind fun dsdtlength =>
    (search m dsdtlength (dsdtaddr fadthdr useXSTD + 36)).bind fun r =>
      if r.2 = 0 then some { s with log := s.log ++ [notPresent] } else parse m fadthdr r.1 s

/-! ## Tables -/

/-- The table stands at `a`, and no other byte may be read. -/
structure Table (m : Memory) (a : ℕ) (image : List UInt8) : Prop where
  stored : Bytes m a image
  only : ∀ x, m.mapped x = true → a ≤ x ∧ x < a + image.length
  length : m.readBytes (a + 4) 4 = some image.length
  header : 36 ≤ image.length

/-- The encodings of an integer. -/
inductive Encodes : ℕ → List UInt8 → Prop
  | zero : Encodes 0 [0x00]
  | one : Encodes 1 [0x01]
  | ones : Encodes (2 ^ 64 - 1) [0xFF]
  | byte (bs : List UInt8) (hlen : bs.length = 1) : Encodes (value bs) (0x0A :: bs)
  | word (bs : List UInt8) (hlen : bs.length = 2) : Encodes (value bs) (0x0B :: bs)
  | dword (bs : List UInt8) (hlen : bs.length = 4) : Encodes (value bs) (0x0C :: bs)
  | qword (bs : List UInt8) (hlen : bs.length = 8) : Encodes (value bs) (0x0E :: bs)

/-- A package of which `x` and `y` are the first two elements.  The upper two bits of the lead byte
give the number of the further bytes of its length. -/
structure Package (x y : ℕ) (bytes : List UInt8) : Prop where
  parts : ∃ lead rest count front second others, bytes =
    0x12 :: lead :: (rest ++ count :: (front ++ (second ++ others))) ∧
    rest.length = lead.toNat / 64 ∧ 2 ≤ count.toNat ∧ Encodes x front ∧ Encodes y second

/-- The name stands in the body behind a name op, and a package with the sleep types follows. -/
def Sleeps (body : List UInt8) (a b : ℕ) : Prop :=
  ∃ front op package, body = front ++ op ++ nameS5 ++ package ∧ (op = [0x8] ∨ op = [0x8, 92]) ∧
    Package a b package

/-- What `dsdtInit` is for. -/
structure Parses (m : Memory) (fadthdr : FADTHeader) (useXSTD : Bool) (image : List UInt8)
    (s : Power) : Prop where
  found : ∀ a b, Sleeps (image.drop 36) a b → ∃ s', dsdtInit m fadthdr useXSTD s = some s' ∧
    s'.SLP_TYPa = UInt16.ofNat (a * 2 ^ 10) ∧ s'.SLP_TYPb = UInt16.ofNat (b * 2 ^ 10) ∧
      s'.SCI_EN = 1
  absent : ¬ nameS5 <:+: image.drop 36 → ∃ s', dsdtInit m fadthdr useXSTD s = some s' ∧
    s'.log = s.log ++ [notPresent] ∧ s'.SLP_TYPa = s.SLP_TYPa ∧ s'.SLP_TYPb = s.SLP_TYPb ∧
      s'.SCI_EN = s.SCI_EN

/-- The first place in the body at which the three letters `_S5` stand is at `k`; there is a name op
in front, a package op four bytes on, and `v` stands where the first element of the package has its
byte. -/
structure Taken (image : List UInt8) (k : ℕ) (v : UInt8) : Prop where
  first : First [95, 83, 53] (image.drop 36) k
  named : image[k + 35]? = some 0x8 ∨ image[k + 34]? = some 0x8 ∧ image[k + 35]? = some 92
  package : image[k + 40]? = some 0x12
  element : ∃ lead, image[k + 41]? = some lead ∧
    (image[k + 43 + lead.toNat / 64]? = some v ∧ v ≠ 0xA ∨
      image[k + 43 + lead.toNat / 64]? = some 0xA ∧ image[k + 44 + lead.toNat / 64]? = some v)

variable {m : Memory} {fadthdr : FADTHeader} {useXSTD : Bool} {image body : List UInt8}
  {s s' : Power} {a b k j n : ℕ} {v : UInt8}

namespace Table

lemma read (h : Table m a image) (i : ℕ) : m.read (a + i) = image[i]? := by
  by_cases hi : i < image.length
  · have hmapped := h.stored.mapped i hi
    rw [Memory.read_of_mapped hmapped, List.getElem?_eq_getElem hi,
      h.stored.stored i _ (List.getElem?_eq_getElem hi)]
  · have hunmapped : m.mapped (a + i) = false := by
      by_contra hmapped
      have hlt := (h.only _ (by simpa using hmapped)).2
      omega
    rw [Memory.read, hunmapped, List.getElem?_eq_none (by omega), if_neg (by simp)]

/-- The bytes of the body. -/
lemma bytes_iff (h : Table m a image) (ys : List UInt8) :
    Bytes m (a + 36 + k) ys ↔ ys <+: (image.drop 36).drop k := by
  induction ys generalizing k with
  | nil => exact ⟨fun _ => List.nil_prefix, fun _ => .nil⟩
  | cons y ys ih =>
    have hread : m.read (a + 36 + k) = (image.drop 36)[k]? := by
      rw [Nat.add_assoc, h.read, List.getElem?_drop]
    rw [Bytes.cons_iff, hread, Nat.add_assoc _ k, ih, ← List.drop_drop]
    cases hdrop : (image.drop 36).drop k with
    | nil =>
      have hnone : (image.drop 36)[k]? = none := by
        rw [List.getElem?_eq_none_iff]
        exact List.drop_eq_nil_iff.mp hdrop
      simp [hnone]
    | cons z zs =>
      have hsome : (image.drop 36)[k]? = some z := by
        rw [← Nat.add_zero k, ← List.getElem?_drop, hdrop, List.getElem?_cons_zero]
      rw [hsome, Option.some.injEq, List.drop_succ_cons, List.drop_zero, List.cons_prefix_cons,
        eq_comm]

end Table

/-! ## The search -/

/-- The letters that the comparison sees. -/
lemma nameS5_eq : nameS5 = [95, 83, 53] ++ [95] := rfl

/-- The comparison at a place of the body. -/
lemma memcmp_body (h : Table m a image) :
    memcmp m (a + 36 + k) nameS5 = some 0 ↔
      [95, 83, 53] <+: (image.drop 36).drop k ∧ k + 3 < (image.drop 36).length := by
  have hread : m.read (a + 36 + k + 3) = (image.drop 36)[k + 3]? := by
    rw [Nat.add_assoc a, Nat.add_assoc a, h.read, Nat.add_assoc, ← List.getElem?_drop]
  rw [nameS5_eq, memcmp_eq_zero_iff, h.bytes_iff, List.length_cons, List.length_cons,
    List.length_singleton, hread]
  refine and_congr_right fun _ => ⟨?_, fun hlt => ⟨_, List.getElem?_eq_getElem hlt⟩⟩
  rintro ⟨x, hx⟩
  exact (List.getElem?_eq_some_iff.mp hx).1

/-- The search stops at the first place with the three letters. -/
lemma search_eq (h : Table m a image) (hfirst : First [95, 83, 53] ((image.drop 36).drop k) j)
    (hj : k + j + 3 < (image.drop 36).length) (hn : j < n) :
    search m n (a + 36 + k) = some (a + 36 + (k + j), n - 1 - j) := by
  induction j generalizing k n with
  | zero =>
    obtain ⟨n, rfl⟩ : ∃ n', n = n' + 1 := ⟨n - 1, by omega⟩
    have hzero : memcmp m (a + 36 + k) nameS5 = some 0 := (memcmp_body h).mpr ⟨hfirst.1, hj⟩
    rw [search, hzero, Option.bind_some, if_pos rfl]
    simp
  | succ j ih =>
    obtain ⟨n, rfl⟩ : ∃ n', n = n' + 1 := ⟨n - 1, by omega⟩
    obtain ⟨hne, hnext⟩ := hfirst.of_succ
    rw [List.drop_drop] at hnext
    have hfour : Bytes m (a + 36 + k) (((image.drop 36).drop k).take 4) :=
      (h.bytes_iff _).mpr (List.take_prefix _ _)
    obtain ⟨r, hr⟩ := memcmp_returns (t := nameS5) hfour (by
      rw [List.length_take, List.length_drop, Nat.min_eq_left (by omega)]
      rfl)
    have hr0 : r ≠ 0 := by
      rintro rfl
      exact hne ((memcmp_body h).mp hr).1
    rw [search, hr, Option.bind_some, if_neg hr0, Nat.add_assoc (a + 36),
      ih hnext (by omega) (by omega)]
    congr 2 <;> omega

/-- A search that stops has found the first place with the three letters: it cannot run to its end,
since it would leave the table before. -/
lemma search_some {r : ℕ × ℕ} (h : Table m a image) (hr : search m n (a + 36 + k) = some r)
    (hk : k ≤ (image.drop 36).length) (hn : (image.drop 36).length < k + n) :
    ∃ j, First [95, 83, 53] ((image.drop 36).drop k) j ∧ k + j + 3 < (image.drop 36).length ∧
      r = (a + 36 + (k + j), n - 1 - j) := by
  induction n generalizing k with
  | zero => omega
  | succ n ih =>
    rw [search, Option.bind_eq_some_iff] at hr
    obtain ⟨c, hc, hrest⟩ := hr
    by_cases hzero : c = 0
    · subst hzero
      obtain ⟨hmatch, hlt⟩ := (memcmp_body h).mp hc
      rw [if_pos rfl, Option.some.injEq] at hrest
      exact ⟨0, .zero hmatch, hlt, by rw [← hrest]; simp⟩
    · rw [if_neg hzero, Nat.add_assoc (a + 36)] at hrest
      have hread : ∃ x, m.read (a + 36 + k) = some x := by
        rw [nameS5, memcmp, Option.bind_eq_some_iff] at hc
        exact ⟨_, hc.choose_spec.1⟩
      obtain ⟨x, hx⟩ := hread
      rw [Nat.add_assoc, h.read, ← List.getElem?_drop] at hx
      have hlt := (List.getElem?_eq_some_iff.mp hx).1
      obtain ⟨j, hfirst, hj, heq⟩ := ih hrest (by omega) (by omega)
      have hne : ¬ [95, 83, 53] <+: (image.drop 36).drop k := by
        intro hmatch
        rw [nameS5_eq, memcmp_of_bytes ((h.bytes_iff _).mpr hmatch), Option.map_eq_some_iff] at hc
        obtain ⟨-, -, rfl⟩ := hc
        exact hzero rfl
      have hcons := List.drop_eq_getElem_cons hlt
      rw [hcons] at hne ⊢
      exact ⟨j + 1, hfirst.cons hne, by omega, by rw [heq]; congr 1 <;> omega⟩

/-! ## What stands around the name -/

/-- The number of the further bytes of the length. -/
lemma lead_count (lead : UInt8) : ((lead &&& 0xC0) >>> 6).toNat = lead.toNat / 64 := by
  revert lead
  decide +kernel

section Around

variable (h : Table m a image)

include h

lemma isPackage_iff : isPackage m (a + 36 + k) = some true ↔
    (image[k + 35]? = some 0x8 ∨ image[k + 34]? = some 0x8 ∧ image[k + 35]? = some 92) ∧
      image[k + 40]? = some 0x12 := by
  have hfront : m.read (a + 36 + k - 1) = image[k + 35]? := by
    rw [show a + 36 + k - 1 = a + (k + 35) by omega, h.read]
  have hsecond : m.read (a + 36 + k - 2) = image[k + 34]? := by
    rw [show a + 36 + k - 2 = a + (k + 34) by omega, h.read]
  have hbehind : m.read (a + 36 + k + 4) = image[k + 40]? := by
    rw [show a + 36 + k + 4 = a + (k + 40) by omega, h.read]
  rw [isPackage, isNamed, hfront, hsecond, hbehind]
  cases image[k + 35]? with
  | none => simp
  | some x =>
    by_cases h8 : x = 0x8
    · simp [h8]
    · cases image[k + 34]? with
      | none => simp [h8]
      | some y =>
        by_cases hroot : y = 0x8 ∧ x = 92
        · simp [hroot]
        · simp [h8, hroot]

lemma element_iff : element m (a + 36 + k) = some v ↔ ∃ lead, image[k + 41]? = some lead ∧
    (image[k + 43 + lead.toNat / 64]? = some v ∧ v ≠ 0xA ∨
      image[k + 43 + lead.toNat / 64]? = some 0xA ∧ image[k + 44 + lead.toNat / 64]? = some v) := by
  have hlead : m.read (a + 36 + k + 5) = image[k + 41]? := by
    rw [show a + 36 + k + 5 = a + (k + 41) by omega, h.read]
  rw [element, hlead, Option.bind_eq_some_iff]
  refine exists_congr fun lead => and_congr_right fun _ => ?_
  dsimp only
  have hnext : ∀ i, a + 36 + k + 5 + (i + 2) = a + (k + 43 + i) := fun i => by omega
  rw [lead_count, hnext, Nat.add_assoc a, h.read, h.read, Option.bind_eq_some_iff]
  constructor
  · rintro ⟨x, hx, hv⟩
    split at hv
    · rename_i hprefixed
      exact .inr ⟨hprefixed ▸ hx, by rwa [Nat.add_right_comm] at hv⟩
    · rename_i hplain
      rw [Option.some.injEq] at hv
      subst hv
      exact .inl ⟨hx, hplain⟩
  · rintro (⟨hx, hplain⟩ | ⟨hx, hv⟩)
    · exact ⟨v, hx, if_neg hplain⟩
    · exact ⟨0xA, hx, by rwa [if_pos rfl, Nat.add_right_comm]⟩

end Around

/-! ## The whole function -/

/-- What a search that stops leads to. -/
lemma dsdtInit_eq (h : Table m (dsdtaddr fadthdr useXSTD) image)
    (hfirst : First [95, 83, 53] (image.drop 36) k) (hk : k + 3 < (image.drop 36).length) :
    dsdtInit m fadthdr useXSTD s = parse m fadthdr (dsdtaddr fadthdr useXSTD + 36 + k) s := by
  have hbody : (image.drop 36).length = image.length - 36 := List.length_drop
  have hsearch := search_eq (k := 0) (n := image.length) h hfirst (by omega) (by omega)
  rw [Nat.add_zero, Nat.zero_add] at hsearch
  rw [dsdtInit, h.length, Option.bind_some, hsearch, Option.bind_some,
    if_neg (by dsimp only; omega)]

/-- A run that leaves the table alone has found the three letters. -/
lemma dsdtInit_some (h : Table m (dsdtaddr fadthdr useXSTD) image)
    (hs : dsdtInit m fadthdr useXSTD s = some s') :
    ∃ k, First [95, 83, 53] (image.drop 36) k ∧
      parse m fadthdr (dsdtaddr fadthdr useXSTD + 36 + k) s = some s' := by
  have hbody : (image.drop 36).length = image.length - 36 := List.length_drop
  have hheader := h.header
  have hrun := hs
  rw [dsdtInit, h.length, Option.bind_some, Option.bind_eq_some_iff] at hs
  obtain ⟨r, hr, -⟩ := hs
  obtain ⟨k, hfirst, hk, -⟩ := search_some (k := 0) h hr (Nat.zero_le _) (by omega)
  rw [List.drop_zero] at hfirst
  rw [dsdtInit_eq h hfirst (by omega)] at hrun
  exact ⟨k, hfirst, hrun⟩

lemma parse_some {S5Addr : ℕ} (hs : parse m fadthdr S5Addr s = some s') :
    s' = failed s ∨ isPackage m S5Addr = some true ∧ ∃ v, element m S5Addr = some v ∧
      s' = parsed fadthdr v s := by
  rw [parse, Option.bind_eq_some_iff] at hs
  obtain ⟨package, hpackage, hs⟩ := hs
  cases package with
  | false => exact .inl (Option.some.inj hs).symm
  | true =>
    obtain ⟨v, hv, rfl⟩ := Option.map_eq_some_iff.mp hs
    exact .inr ⟨hpackage, v, hv, rfl⟩

/-! ## The main result -/

/-- **When the sleep types are found.**  The name must stand in the table.  For every package with
sleep types behind the name, `SLP_TYPa` must hold the first one already; and the bytes around the
first place with the three letters `_S5` must give the second one for the first element. -/
theorem parses_iff (h : Table m (dsdtaddr fadthdr useXSTD) image) (s : Power) :
    Parses m fadthdr useXSTD image s ↔ nameS5 <:+: image.drop 36 ∧
      ∀ a b, Sleeps (image.drop 36) a b → s.SLP_TYPa = UInt16.ofNat (a * 2 ^ 10) ∧
        ∃ k v, Taken image k v ∧ v.toUInt16 <<< (10 : UInt16) = UInt16.ofNat (b * 2 ^ 10) := by
  constructor
  · intro hparses
    constructor
    · by_contra habsent
      obtain ⟨s', hs', hlog, -⟩ := hparses.absent habsent
      obtain ⟨k, -, hparse⟩ := dsdtInit_some h hs'
      have hlength := congrArg List.length hlog
      rcases parse_some hparse with rfl | ⟨-, v, -, rfl⟩
      · simp [failed] at hlength
      · simp [parsed] at hlength
    · intro a b hsleeps
      obtain ⟨s', hs', ha, hb, hsci⟩ := hparses.found a b hsleeps
      obtain ⟨k, hfirst, hparse⟩ := dsdtInit_some h hs'
      rcases parse_some hparse with rfl | ⟨hpackage, v, hv, rfl⟩
      · simp [failed] at hsci
      · obtain ⟨hnamed, hop⟩ := (isPackage_iff h).mp hpackage
        exact ⟨ha, k, v, ⟨hfirst, hnamed, hop, (element_iff h).mp hv⟩, hb⟩
  · rintro ⟨hname, hall⟩
    refine ⟨fun a b hsleeps => ?_, fun habsent => absurd hname habsent⟩
    obtain ⟨ha, k, v, htaken, hb⟩ := hall a b hsleeps
    have hbody : (image.drop 36).length = image.length - 36 := List.length_drop
    have hlt := (List.getElem?_eq_some_iff.mp htaken.package).1
    have hpackage := (isPackage_iff h).mpr ⟨htaken.named, htaken.package⟩
    have hv := (element_iff h).mpr htaken.element
    refine ⟨parsed fadthdr v s, ?_, ha, hb, rfl⟩
    rw [dsdtInit_eq h htaken.first (by omega), parse, hpackage, Option.bind_some, if_pos rfl, hv,
      Option.map_some]

/-- A name with the package of two sleep types `5`. -/
def smallBody : List UInt8 := [0x08] ++ nameS5 ++ [0x12, 8, 4, 0x0A, 5, 0x0A, 5, 0, 0]

/-- A table with this body. -/
def tableWith (body : List UInt8) : List UInt8 :=
  [68, 83, 68, 84] ++ bytesOf (36 + body.length) 4 ++ List.replicate 28 0 ++ body

/-- The only bytes that may be read are those of the table at `0x1000`. -/
def smallDsdt : Memory := ofList 0x1000 (tableWith smallBody) (by decide)

/-- The table without a body. -/
def emptyDsdt : Memory := ofList 0x1000 (tableWith []) (by decide)

/-- The fields for the table at `0x1000`. -/
def smallFadt : FADTHeader where
  X_Dsdt := 0x1000
  Dsdt := 0
  SMI_CommandPort := 0xB2
  AcpiEnable := 2
  AcpiDisable := 3
  PM1aControlBlock := 0x404
  PM1bControlBlock := 0
  PM1ControlLength := 2

/-- The variables before the first call, but for `SLP_TYPa`. -/
def bootPower (SLP_TYPa : UInt16) : Power where
  SMI_CMD := 0
  ACPI_ENABLE := 0
  ACPI_DISABLE := 0
  PM1a_CNT := 0
  PM1b_CNT := 0
  SLP_TYPa := SLP_TYPa
  SLP_TYPb := 0
  SLP_EN := 0
  SCI_EN := 0
  PM1_CNT_LEN := 0
  log := []

lemma table_ofList {bytes : List UInt8} (ha : a + bytes.length ≤ 2 ^ 47)
    (hheader : 36 ≤ bytes.length)
    (hlength : (ofList a bytes ha).readBytes (a + 4) 4 = some bytes.length) :
    Table (ofList a bytes ha) a bytes :=
  ⟨.ofList ha, fun _ hx => of_decide_eq_true hx, hlength, hheader⟩

lemma smallDsdt_table : Table smallDsdt (dsdtaddr smallFadt true) (tableWith smallBody) :=
  table_ofList (by decide) (by decide) (by decide +kernel)

/-- An element with a byte prefix. -/
lemma Encodes.of_byte {x : ℕ} {y : UInt8} {ys zs bs : List UInt8} (h : Encodes x bs)
    (heq : 0x0A :: y :: ys = bs ++ zs) : x = y.toNat ∧ ys = zs := by
  cases h with
  | byte bs hlen =>
    obtain ⟨z, rfl⟩ := List.length_eq_one_iff.mp hlen
    simp only [List.cons_append, List.nil_append, List.cons.injEq, true_and] at heq
    obtain ⟨rfl, rfl⟩ := heq
    exact ⟨by simp [value], rfl⟩
  | _ => simp at heq

/-- The sleep types in the small table. -/
lemma smallBody_sleeps {a b : ℕ} (h : Sleeps smallBody a b) : a = 5 ∧ b = 5 := by
  obtain ⟨front, op, package, hbody, -, hpackage⟩ := h
  have hdrop : smallBody.drop (front ++ op).length = nameS5 ++ package := by
    rw [hbody, List.append_assoc _ nameS5, List.drop_left]
  have hlt : (front ++ op).length < 14 := by
    have hlength := congrArg List.length hbody
    rw [List.length_append, List.length_append] at hlength
    have hfour : smallBody.length = 14 ∧ nameS5.length = 4 := by decide
    omega
  have hplace : (front ++ op).length = 1 := by
    generalize (front ++ op).length = i at hdrop hlt
    interval_cases i <;> simp [smallBody, nameS5] at hdrop ⊢
  rw [hplace] at hdrop
  have hcode : package = [0x12, 8, 4, 0x0A, 5, 0x0A, 5, 0, 0] := by
    simpa [smallBody, nameS5] using hdrop.symm
  obtain ⟨lead, rest, count, first, second, others, hparts, hrest, -, ha, hb⟩ := hpackage.parts
  rw [hcode, List.cons.injEq, List.cons.injEq] at hparts
  obtain ⟨-, rfl, hparts⟩ := hparts
  obtain rfl : rest = [] := List.eq_nil_of_length_eq_zero hrest
  rw [List.nil_append, List.cons.injEq] at hparts
  obtain ⟨-, helements⟩ := hparts
  obtain ⟨rfl, hsecond⟩ := ha.of_byte helements
  obtain ⟨rfl, -⟩ := hb.of_byte hsecond
  exact ⟨rfl, rfl⟩

/-- If the variable holds the first sleep type already, the second one is found. -/
theorem parses_iff_smallDsdt :
    Parses smallDsdt smallFadt true (tableWith smallBody) (bootPower (5 <<< (10 : UInt16))) := by
  refine (parses_iff smallDsdt_table _).mpr ⟨⟨[8],
    [0x12, 8, 4, 0x0A, 5, 0x0A, 5, 0, 0], by decide⟩, ?_⟩
  intro a b hsleeps
  obtain ⟨rfl, rfl⟩ := smallBody_sleeps hsleeps
  refine ⟨by decide, 1, 5, ⟨?_, by decide, by decide, 8, by decide, by decide⟩, by decide⟩
  exact find_eq_some.mp (by decide)

/-- In a well-formed table the first sleep type is not found, and a table without a body is left. -/
theorem dsdtInit_fails :
    Sleeps ((tableWith smallBody).drop 36) 5 5 ∧
      (dsdtInit smallDsdt smallFadt true (bootPower 0)).map Power.SLP_TYPa = some 0 ∧
      ¬ Parses smallDsdt smallFadt true (tableWith smallBody) (bootPower 0) ∧
      ¬ nameS5 <:+: (tableWith []).drop 36 ∧
        dsdtInit emptyDsdt smallFadt true (bootPower 0) = none ∧
      ¬ Parses emptyDsdt smallFadt true (tableWith []) (bootPower 0) := by
  have hsleeps : Sleeps ((tableWith smallBody).drop 36) 5 5 := by
    refine ⟨[], [0x8], [0x12, 8, 4, 0x0A, 5, 0x0A, 5, 0, 0], by decide, .inl rfl,
      ⟨8, [], 4, [0x0A, 5], [0x0A, 5], [0, 0], by decide, by decide, by decide, ?_, ?_⟩⟩
    · exact .byte [5] rfl
    · exact .byte [5] rfl
  have htype : (dsdtInit smallDsdt smallFadt true (bootPower 0)).map Power.SLP_TYPa = some 0 := by
    decide +kernel
  have habsent : ¬ nameS5 <:+: (tableWith []).drop 36 := by decide
  have hnone : dsdtInit emptyDsdt smallFadt true (bootPower 0) = none := by decide +kernel
  refine ⟨hsleeps, htype, fun h => ?_, habsent, hnone, fun h => ?_⟩
  · obtain ⟨s', hs', ha, -⟩ := h.found 5 5 hsleeps
    rw [hs', Option.map_some, ha] at htype
    simp at htype
  · obtain ⟨s', hs', -⟩ := h.absent habsent
    rw [hnone] at hs'
    simp at hs'

end TurbOS.Acpi
