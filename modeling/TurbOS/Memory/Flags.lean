import TurbOS.Memory.Mapping
import TurbOS.Lib.LastWrite

/-!
# Flags of an entry

The setters of an entry write the bits that they are told to write, and the address is read back.
The getters for flags do not look at their bits: the mask is the truth value of `flags > 0`, so they
always read the lowest bit, which is the flag `present`.

So a flag reads back as it was written exactly if the flag `present` has the same value.
-/

namespace TurbOS.VMemory

/-! ## Calls -/

/-- A call that changes an entry; flags are given by a list of them. -/
inductive Write where
  | setAddress (address : BitVec 64)
  | setFlag (flag : PT_Flag) (enabled : Bool)
  | setFlags (fs : List PT_Flag) (enabled : Bool)

namespace Write

/-- The entry after the call. -/
def apply : Write → PDEntry → PDEntry
  | setAddress address, e => e.setAddress address
  | setFlag flag enabled, e => e.setFlag flag enabled
  | setFlags fs enabled, e => e.setFlags (flagSet fs) enabled

/-- What the call writes to a flag. -/
def toFlag (f : PT_Flag) : Write → Option Bool
  | setAddress _ => none
  | setFlag flag enabled => if f = flag then some enabled else none
  | setFlags fs enabled => if f ∈ fs then some enabled else none

/-- The address that the call writes. -/
def toAddress : Write → Option (BitVec 64)
  | setAddress address => some address
  | _ => none

end Write

/-- The entry after some calls. -/
def writes (ws : List Write) (e : PDEntry) : PDEntry := ws.foldl (fun e w => w.apply e) e

/-- What was written to a flag last. -/
def lastFlag (ws : List Write) (f : PT_Flag) : Option Bool :=
  (ws.filterMap (Write.toFlag f)).getLast?

/-- The address that was written last. -/
def lastAddress (ws : List Write) : Option (BitVec 64) := (ws.filterMap Write.toAddress).getLast?

/-- What is written is read back: the address modulo `2 ^ 40`, and the flags of every mask that is
not empty. -/
structure ReadsBack (e : PDEntry) (ws : List Write) : Prop where
  address : ∀ a, lastAddress ws = some a → (writes ws e).getAddress.toNat = a.toNat % 2 ^ 40
  flag : ∀ f b, lastFlag ws f = some b → (writes ws e).getFlag f = b
  flags : ∀ fs ≠ [], ∀ b, (∀ f ∈ fs, lastFlag ws f = some b) →
    (writes ws e).getFlags (flagSet fs) = b

variable {e : PDEntry} {ws : List Write} {fs : List PT_Flag} {f : PT_Flag}

/-! ## The bits of the flags -/

/-- The number of the bit of a flag. -/
def PT_Flag.bit (f : PT_Flag) : ℕ := f.value.toNat.log2

lemma PT_Flag.getLsbD_value (f g : PT_Flag) : g.value.getLsbD f.bit = decide (f = g) := by
  cases f <;> cases g <;> decide

lemma PT_Flag.bit_outside (f : PT_Flag) : ¬ (12 ≤ f.bit ∧ f.bit < 52) := by
  cases f <;> decide

lemma getLsbD_flagSet (f : PT_Flag) (fs : List PT_Flag) :
    (flagSet fs).getLsbD f.bit = decide (f ∈ fs) := by
  induction fs with
  | nil => exact BitVec.getLsbD_zero
  | cons g fs ih =>
    rw [flagSet, BitVec.getLsbD_or, PT_Flag.getLsbD_value, ih, ← Bool.decide_or]
    exact decide_eq_decide.mpr List.mem_cons.symm

/-- The bit of a flag holds what was written last. -/
lemma writes_bit (ws : List Write) (e : PDEntry) (f : PT_Flag) :
    (writes ws e).value.getLsbD f.bit = (lastFlag ws f).getD (e.value.getLsbD f.bit) := by
  refine LastWrite.part_foldl _ (fun e => e.value.getLsbD f.bit) (Write.toFlag f) ?_ ws e
  intro e w
  cases w with
  | setAddress address =>
    rw [Write.apply, PDEntry.getLsbD_setAddress, if_neg f.bit_outside, Write.toFlag,
      Option.getD_none]
  | setFlag flag enabled =>
    rw [Write.apply, PDEntry.setFlag, PDEntry.getLsbD_setFlags, PT_Flag.getLsbD_value, Write.toFlag]
    by_cases h : f = flag <;> simp [h]
  | setFlags fs enabled =>
    rw [Write.apply, PDEntry.getLsbD_setFlags, getLsbD_flagSet, Write.toFlag]
    by_cases h : f ∈ fs <;> simp [h]

/-- The bits of an address that an entry holds. -/
def addressBits (address : BitVec 64) : BitVec 64 := address &&& 0xFFFFFFFFFF#64

lemma toNat_addressBits (address : BitVec 64) :
    (addressBits address).toNat = address.toNat % 2 ^ 40 := by
  rw [addressBits, BitVec.toNat_and]
  exact Nat.and_two_pow_sub_one_eq_mod _ 40

lemma getAddress_setAddress (e : PDEntry) (address : BitVec 64) :
    (e.setAddress address).getAddress = addressBits address := by
  have hmask : ∀ j, (0xFFFFFFFFFF#64).getLsbD j = decide (j < 40) := fun j =>
    getLsbD_eq_decide (P := fun j => j < 40) (by decide) (fun _ h => by omega) j
  refine BitVec.eq_of_getLsbD_eq fun j _ => ?_
  rw [PDEntry.getLsbD_getAddress, PDEntry.getLsbD_setAddress, addressBits, BitVec.getLsbD_and,
    hmask, Bool.and_comm]
  by_cases hj : j < 40
  · rw [if_pos (by omega), Nat.add_sub_cancel]
  · rw [decide_eq_false hj, Bool.and_false, Bool.and_false]

lemma getAddress_setFlags (e : PDEntry) (fs : List PT_Flag) (enabled : Bool) :
    (e.setFlags (flagSet fs) enabled).getAddress = e.getAddress := by
  refine BitVec.eq_of_getLsbD_eq fun j _ => ?_
  rw [PDEntry.getLsbD_getAddress, PDEntry.getLsbD_getAddress, PDEntry.getLsbD_setFlags]
  by_cases hj : j < 40
  · rw [flagSet_address (by omega) (by omega), if_neg (by simp)]
  · rw [decide_eq_false hj, Bool.false_and, Bool.false_and]

lemma flagSet_singleton (f : PT_Flag) : flagSet [f] = f.value := BitVec.or_zero

/-- The address is the one that was written last. -/
lemma writes_address (ws : List Write) (e : PDEntry) :
    (writes ws e).getAddress = ((lastAddress ws).map addressBits).getD e.getAddress := by
  have hpart := LastWrite.part_foldl (fun e w => Write.apply w e) PDEntry.getAddress
    (fun w => w.toAddress.map addressBits) ?_ ws e
  · rw [writes, hpart, LastWrite.last, lastAddress, ← List.getLast?_map, List.map_filterMap]
  · intro e w
    cases w with
    | setAddress address => exact getAddress_setAddress e address
    | setFlag flag enabled =>
      rw [Write.apply, PDEntry.setFlag, ← flagSet_singleton, getAddress_setFlags]
      rfl
    | setFlags fs enabled =>
      rw [Write.apply, getAddress_setFlags]
      rfl

/-- A getter reads the flag `present`, whatever flags it is asked for. -/
lemma getFlags_eq {flags : BitVec 64} (h : flags ≠ 0#64) :
    e.getFlags flags = e.value.getLsbD 0 := by
  have hpos : (0 : BitVec 64) < flags := (BitVec.pos_iff_ne_zero flags).mpr h
  rw [← PDEntry.getFlag_present, PDEntry.getFlags, if_pos hpos]
  rfl

lemma flagSet_ne_zero (h : fs ≠ []) : flagSet fs ≠ 0#64 := by
  obtain ⟨f, rest, rfl⟩ := List.exists_cons_of_ne_nil h
  intro hzero
  have hbit := getLsbD_flagSet f (f :: rest)
  rw [hzero, BitVec.getLsbD_zero, decide_eq_true List.mem_cons_self] at hbit
  exact Bool.false_ne_true hbit

/-! ## The main result -/

/-- **When an entry is read back.**  The address always is.  The flags are exactly if every flag
that was written was last written with the value that the flag `present` has in the end: the one
that was written to it last, or the lowest bit of the entry. -/
theorem readsBack_iff (e : PDEntry) (ws : List Write) :
    ReadsBack e ws ↔
      ∀ f b, lastFlag ws f = some b → b = (lastFlag ws .present).getD (e.value.getLsbD 0) := by
  have hget : ∀ fs ≠ [], (writes ws e).getFlags (flagSet fs) =
      (lastFlag ws .present).getD (e.value.getLsbD 0) := fun fs hfs =>
    (getFlags_eq (flagSet_ne_zero hfs)).trans (writes_bit ws e .present)
  have hflag : ∀ f, (writes ws e).getFlag f = (writes ws e).getFlags (flagSet [f]) := fun f => by
    rw [flagSet_singleton, PDEntry.getFlag]
  constructor
  · intro h f b hb
    rw [← hget [f] (by simp), ← hflag, h.flag f b hb]
  · intro h
    refine ⟨fun a ha => ?_, fun f b hb => ?_, fun fs hfs b hb => ?_⟩
    · rw [writes_address, ha, Option.map_some, Option.getD_some, toNat_addressBits]
    · rw [hflag, hget [f] (by simp), h f b hb]
    · obtain ⟨f, rest, rfl⟩ := List.exists_cons_of_ne_nil hfs
      rw [hget _ hfs, h f b (hb f List.mem_cons_self)]

/-- A flag of an entry that is not present does not read back; of a present one, a flag that was
taken away seems to be there. -/
theorem flags_not_read_back :
    ¬ ReadsBack ⟨0⟩ [.setFlag .readNwrite true] ∧
      ¬ ReadsBack ⟨0⟩ [.setFlags [.present, .NX] true, .setFlag .NX false] := by
  constructor
  · intro h
    exact absurd (h.flag .readNwrite true (by decide)) (by decide)
  · intro h
    exact absurd (h.flag .NX false (by decide)) (by decide)

end TurbOS.VMemory
