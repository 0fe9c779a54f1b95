import TurbOS.Lib.Searching
import TurbOS.Pci.Model

/-!
# Searching and counting devices

There are two pairs of functions that search the enumerated devices and count them: by the class
codes, and by the vendor and the device id.  They differ only in what they compare.  The vector
holds pointers; what a pointer is does not matter here, only what stands where it leads.
-/

open Searching

namespace TurbOS.Pci

/-! ## The functions -/

/-- The variables `isInit` and `PCIdevices`; a pointer leads to a device structure. -/
structure Devices (Pointer : Type*) where
  isInit : Bool
  PCIdevices : List Pointer
  device : Pointer → PCIdevice

/-- The devices that an enumeration has recorded. -/
def State.devices (s : State) : Devices TranslatedPCIdevice := ⟨true, s.PCIdevices, (·.device)⟩

namespace Devices

variable {Pointer : Type*} (t : Devices Pointer)

/-- The loop of both functions `search`. -/
def searchFrom (key : PCIdevice → Prop) [DecidablePred key] : ℤ → List Pointer → Option Pointer
  | _, [] => none
  | skip, p :: ps =>
    if key (t.device p) then
      if skip > 0 then searchFrom key (skip - 1) ps
      else some p
    else searchFrom key skip ps

/-- The loop of both functions `count`. -/
def countFrom (key : PCIdevice → Prop) [DecidablePred key] (num : ℕ) : List Pointer → ℕ
  | [] => num
  | p :: ps => countFrom key (if key (t.device p) then num + 1 else num) ps

/-- The test for the class codes. -/
def OfClass (classID subclass progIF : ℕ) (d : PCIdevice) : Prop :=
  d.classID = classID ∧ d.subclass = subclass ∧ d.progIF = progIF

/-- The test for the ids. -/
def OfID (vendorID deviceID : ℕ) (d : PCIdevice) : Prop :=
  d.vendorID = vendorID ∧ d.deviceID = deviceID

instance (classID subclass progIF : ℕ) : DecidablePred (OfClass classID subclass progIF) :=
  fun _ => inferInstanceAs (Decidable (_ ∧ _ ∧ _))

instance (vendorID deviceID : ℕ) : DecidablePred (OfID vendorID deviceID) :=
  fun _ => inferInstanceAs (Decidable (_ ∧ _))

/-- `search` by the class codes. -/
def searchClass (classID subclass progIF : ℕ) (skip : ℤ) : Option Pointer :=
  if t.isInit then t.searchFrom (OfClass classID subclass progIF) skip t.PCIdevices else none

/-- `search` by the ids. -/
def searchID (vendorID deviceID : ℕ) (skip : ℤ) : Option Pointer :=
  if t.isInit then t.searchFrom (OfID vendorID deviceID) skip t.PCIdevices else none

/-- `count` by the ids. -/
def countID (vendorID deviceID : ℕ) : ℕ :=
  if t.isInit then t.countFrom (OfID vendorID deviceID) 0 t.PCIdevices else 0

/-- `count` by the class codes. -/
def countClass (classID subclass progIF : ℕ) : ℕ :=
  if t.isInit then t.countFrom (OfClass classID subclass progIF) 0 t.PCIdevices else 0

/-- The devices with a key, in the order of the enumeration. -/
def having (key : PCIdevice → Prop) [DecidablePred key] : List Pointer :=
  t.PCIdevices.filter fun p => key (t.device p)

/-! ## The loops -/

variable {t} {key : PCIdevice → Prop} [DecidablePred key]

/-- A negative number of devices to skip is as good as none. -/
lemma searchFrom_eq (skip : ℤ) (ps : List Pointer) :
    t.searchFrom key skip ps = pick (fun p => key (t.device p)) skip.toNat ps := by
  induction ps generalizing skip with
  | nil => cases skip.toNat <;> rfl
  | cons p ps ih =>
    rw [searchFrom]
    split
    · rename_i hkey
      split
      · rename_i hskip
        obtain ⟨n, hn⟩ : ∃ n, skip.toNat = n + 1 := ⟨skip.toNat - 1, by omega⟩
        rw [ih, hn, pick, if_pos hkey, show (skip - 1).toNat = n by omega]
      · rename_i hskip
        rw [show skip.toNat = 0 by omega, pick, if_pos hkey]
    · rename_i hkey
      rw [ih]
      exact (pick_of_not (p := fun p => key (t.device p)) hkey).symm

lemma countFrom_eq (num : ℕ) (ps : List Pointer) :
    t.countFrom key num ps = num + ps.countP fun p => key (t.device p) := by
  induction ps generalizing num with
  | nil => rfl
  | cons p ps ih =>
    rw [countFrom, ih, List.countP_cons]
    split
    · simp_all
      omega
    · simp_all

/-- What a search finds, and when it finds nothing. -/
lemma searchFrom_countFrom (k : ℕ) :
    t.searchFrom key k t.PCIdevices = (t.having key)[k]? ∧
      (t.searchFrom key k t.PCIdevices = none ↔ t.countFrom key 0 t.PCIdevices ≤ k) := by
  have hpick : t.searchFrom key k t.PCIdevices = pick (fun p => key (t.device p)) k t.PCIdevices :=
    searchFrom_eq k t.PCIdevices
  rw [hpick, countFrom_eq, Nat.zero_add]
  exact ⟨pick_eq k _, pick_eq_none_iff⟩

/-! ## The main result -/

/-- **Search and count agree.**  After the initialisation both searches return the device that
stands behind `k` others among those with the key, in the order of the enumeration, and they return
a null pointer exactly if the count of these devices is at most `k`. -/
theorem search_agrees (h : t.isInit = true) (k : ℕ) :
    (∀ classID subclass progIF,
      t.searchClass classID subclass progIF k = (t.having (OfClass classID subclass progIF))[k]? ∧
        (t.searchClass classID subclass progIF k = none ↔
          k ≥ t.countClass classID subclass progIF)) ∧
    ∀ vendorID deviceID,
      t.searchID vendorID deviceID k = (t.having (OfID vendorID deviceID))[k]? ∧
        (t.searchID vendorID deviceID k = none ↔ k ≥ t.countID vendorID deviceID) := by
  refine ⟨fun classID subclass progIF => ?_, fun vendorID deviceID => ?_⟩
  · rw [searchClass, countClass, if_pos h, if_pos h]
    exact searchFrom_countFrom k
  · rw [searchID, countID, if_pos h, if_pos h]
    exact searchFrom_countFrom k

/-- Two network cards of one kind, and a bridge between them. -/
def twoCards : Devices TranslatedPCIdevice :=
  let card : PCIdevice := ⟨0x8086, 0x100E, 7, 0, 3, 0, 0, 2, 0, 0, 0, 0⟩
  let bridge : PCIdevice := ⟨0x8086, 0x7000, 7, 0, 0, 0, 1, 6, 0, 0, 0, 0⟩
  State.devices { PCIdevices := [⟨card, 0, 3, 0⟩, ⟨bridge, 0, 4, 0⟩, ⟨card, 0, 5, 0⟩] }

/-- The second card is found behind the bridge, and there is no third one. -/
theorem search_agrees_twoCards :
    (twoCards.searchID 0x8086 0x100E 1).map (·.dev) = some 5 ∧
      twoCards.searchID 0x8086 0x100E 2 = none := by
  have hone := ((search_agrees (t := twoCards) rfl 1).2 0x8086 0x100E).1
  have htwo := ((search_agrees (t := twoCards) rfl 2).2 0x8086 0x100E).2
  refine ⟨?_, htwo.mpr (by decide)⟩
  rw [Nat.cast_one] at hone
  rw [hone]
  decide

end Devices

end TurbOS.Pci
