import TurbOS.Lib.Collect
import TurbOS.Pci.Model

/-!
# The two enumerations compared

Both enumerations are turned into lists of records that depend on the configuration space only, and
then the records are counted.  Through memory a function is found if the first function of its bus,
the first function of its device and the function itself have a device id that is neither `0` nor
`0xFFFF`, once for every range of the MCFG table that contains its bus, where the last bus of a
range does not count.  Through ports a function is found if its first word is not `0xFFFFFFFF`.
-/

namespace TurbOS.Pci

variable {cfg : ConfigSpace} {memory : ℕ → UInt32} {mcfg : List DeviceConfig} {e : DeviceConfig}
  {freed : ℕ → ℕ → ℕ → PCIdevice → PCIdevice} {s : State} {bus dev func : ℕ}

/-! ## Records -/

/-- What is compared of a record. -/
structure Record where
  bus : ℕ
  dev : ℕ
  func : ℕ
  vendorID : ℕ
  deviceID : ℕ
deriving DecidableEq, Repr

/-- The record of a function with a device structure. -/
def recordOf (bus dev func : ℕ) (d : PCIdevice) : Record := ⟨bus, dev, func, d.vendorID, d.deviceID⟩

/-- What an enumeration recorded. -/
def State.records (s : State) : List Record :=
  s.PCIdevices.map fun t => recordOf t.bus t.dev t.func t.device

lemma records_record (s : State) (d : PCIdevice) :
    (s.record d).records =
      s.records ++ [recordOf s.currentBus s.currentDev s.currentFunc d] := by
  simp [State.records, State.record]

/-! ## Through memory -/

/-- The address of the configuration space of a function. -/
def configAddress (baseaddr bus dev func : ℕ) : ℕ :=
  Word64.add (Word64.add (Word64.add baseaddr (bus <<< 20)) (dev <<< 15)) (func <<< 12)

/-- The memory of every range of the MCFG table is the configuration space of its buses. -/
def Decodes (memory : ℕ → UInt32) (cfg : ConfigSpace) (mcfg : List DeviceConfig) : Prop :=
  ∀ e ∈ mcfg, ∀ bus, e.startbus.toNat ≤ bus → bus ≤ e.endbus.toNat → ∀ dev < 32, ∀ func < 8,
    ∀ k < 4, memory (configAddress e.baseaddr bus dev func + 4 * k) = cfg bus dev func k

lemma mem_buses : bus ∈ e.buses ↔ e.startbus.toNat ≤ bus ∧ bus < e.endbus.toNat := by
  rw [DeviceConfig.buses, List.mem_range'_1]
  omega

lemma deviceAt_configAddress (h : Decodes memory cfg mcfg) (he : e ∈ mcfg) (hbus : bus ∈ e.buses)
    (hdev : dev < 32) (hfunc : func < 8) :
    deviceAt memory (configAddress e.baseaddr bus dev func) = cfg.device bus dev func := by
  obtain ⟨hstart, hend⟩ := mem_buses.mp hbus
  have hword := h e he bus hstart hend.le dev hdev func hfunc
  generalize configAddress e.baseaddr bus dev func = address at hword ⊢
  rw [deviceAt, ConfigSpace.device, ← hword 0 (by omega), ← hword 1 (by omega),
    ← hword 2 (by omega), ← hword 3 (by omega)]
  rfl

/-- The records of a function, a device and a bus. -/
def funcRecords (cfg : ConfigSpace) (bus dev func : ℕ) : List Record :=
  if (cfg.device bus dev func).Skipped then []
  else [recordOf bus dev func (cfg.device bus dev func)]

/-- The records of a device. -/
def deviceRecords (cfg : ConfigSpace) (bus dev : ℕ) : List Record :=
  if (cfg.device bus dev 0).Skipped then []
  else (List.range 8).flatMap (funcRecords cfg bus dev)

/-- The records of a bus. -/
def busRecords (cfg : ConfigSpace) (bus : ℕ) : List Record :=
  if (cfg.device bus 0 0).Skipped then []
  else (List.range 32).flatMap (deviceRecords cfg bus)

/-- The first function of a device, and the first device of a bus. -/
lemma add_zero_shift (a b n : ℕ) : Word64.add (Word64.add a b) (0 <<< n) = Word64.add a b := by
  simp [Word64.add]

lemma enumfunc_records (h : Decodes memory cfg mcfg) (he : e ∈ mcfg) (hbus : bus ∈ e.buses)
    (hdev : dev < 32) (hfunc : func < 8) (hs : s.currentBus = bus ∧ s.currentDev = dev) :
    let s' := enumfunc memory
      (Word64.add (Word64.add e.baseaddr (bus <<< 20)) (dev <<< 15)) func s
    (s'.currentBus = bus ∧ s'.currentDev = dev) ∧
      s'.records = s.records ++ funcRecords cfg bus dev func := by
  have hdevice := deviceAt_configAddress h he hbus hdev hfunc
  rw [configAddress] at hdevice
  dsimp only
  rw [enumfunc, hdevice, funcRecords]
  split
  · exact ⟨hs, by simp⟩
  · refine ⟨hs, ?_⟩
    rw [records_record, hs.1, hs.2]
    rfl

lemma enumdevice_records (h : Decodes memory cfg mcfg) (he : e ∈ mcfg) (hbus : bus ∈ e.buses)
    (hdev : dev < 32) (hs : s.currentBus = bus) :
    let s' := enumdevice memory (Word64.add e.baseaddr (bus <<< 20)) dev s
    s'.currentBus = bus ∧ s'.records = s.records ++ deviceRecords cfg bus dev := by
  have hdevice := deviceAt_configAddress h he hbus hdev (show 0 < 8 by omega)
  rw [configAddress, add_zero_shift] at hdevice
  dsimp only
  rw [enumdevice, hdevice, deviceRecords]
  split
  · exact ⟨hs, by simp⟩
  · obtain ⟨hinv, hout⟩ := Collect.foldl_out State.records (funcRecords cfg bus dev)
      (fun s : State => s.currentBus = bus ∧ s.currentDev = dev)
      (fun func hfunc s hs => enumfunc_records h he hbus hdev (List.mem_range.mp hfunc) hs)
      (s := { s with currentDev := dev }) ⟨hs, rfl⟩
    exact ⟨hinv.1, hout⟩

lemma enumbus_records (h : Decodes memory cfg mcfg) (he : e ∈ mcfg) (hbus : bus ∈ e.buses)
    (s : State) :
    (enumbus memory e.baseaddr bus s).records = s.records ++ busRecords cfg bus := by
  have hdevice := deviceAt_configAddress h he hbus (show 0 < 32 by omega) (show 0 < 8 by omega)
  rw [configAddress, add_zero_shift, add_zero_shift] at hdevice
  rw [enumbus, hdevice, busRecords]
  split
  · simp
  · exact (Collect.foldl_out State.records (deviceRecords cfg bus)
      (fun s : State => s.currentBus = bus)
      (fun dev hdev s hs => enumdevice_records h he hbus (List.mem_range.mp hdev) hs)
      (s := { s with currentBus := bus }) rfl).2

/-- What is recorded through memory. -/
lemma enumMemory_records (h : Decodes memory cfg mcfg) :
    (enumMemory memory mcfg).records =
      (mcfg.flatMap DeviceConfig.buses).flatMap (busRecords cfg) := by
  have hentry : ∀ e ∈ mcfg, ∀ s : State,
      (e.buses.foldl (fun s bus => enumbus memory e.baseaddr bus s) s).records =
        s.records ++ e.buses.flatMap (busRecords cfg) := by
    intro e he s
    exact (Collect.foldl_out State.records (busRecords cfg) (fun _ => True)
      (fun bus hbus s _ => ⟨trivial, enumbus_records h he hbus s⟩) trivial).2
  have hall := (Collect.foldl_out State.records
    (fun e : DeviceConfig => e.buses.flatMap (busRecords cfg)) (fun _ => True)
    (fun e he s _ => ⟨trivial, hentry e he s⟩) (s := ({} : State)) trivial).2
  rw [List.flatMap_assoc]
  exact hall

/-! ## Through ports -/

/-- The parts of an address do not overlap. -/
lemma getAddress_eq {k : ℕ} (hbus : bus < 256) (hdev : dev < 32) (hfunc : func < 8) (hk : k < 64) :
    getAddress bus dev func (4 * k) =
      2 ^ 31 + bus * 2 ^ 16 + dev * 2 ^ 11 + func * 2 ^ 8 + 4 * k := by
  have h₁ : bus <<< 16 ||| dev <<< 11 = 2 ^ 11 * (32 * bus + dev) := by
    rw [Nat.shiftLeft_eq, Nat.shiftLeft_eq, Nat.mul_comm bus,
      ← Nat.two_pow_add_eq_or_of_lt (by omega : dev * 2 ^ 11 < 2 ^ 16)]
    omega
  have h₂ : 2 ^ 11 * (32 * bus + dev) ||| func <<< 8 = 2 ^ 8 * (8 * (32 * bus + dev) + func) := by
    rw [Nat.shiftLeft_eq, ← Nat.two_pow_add_eq_or_of_lt (by omega : func * 2 ^ 8 < 2 ^ 11)]
    omega
  have h₃ : 2 ^ 8 * (8 * (32 * bus + dev) + func) ||| 4 * k =
      2 ^ 8 * (8 * (32 * bus + dev) + func) + 4 * k :=
    (Nat.two_pow_add_eq_or_of_lt (by omega : 4 * k < 2 ^ 8) _).symm
  have h₄ : 2 ^ 8 * (8 * (32 * bus + dev) + func) + 4 * k ||| 0x80000000 =
      2 ^ 31 * 1 + (2 ^ 8 * (8 * (32 * bus + dev) + func) + 4 * k) := by
    rw [Nat.or_comm]
    exact (Nat.two_pow_add_eq_or_of_lt (i := 31) (by omega) 1).symm
  rw [getAddress, show 4 * k / 4 * 4 = 4 * k by omega, h₁, h₂, h₃, h₄]
  omega

lemma readl_eq {k : ℕ} (hbus : bus < 256) (hdev : dev < 32) (hfunc : func < 8) (hk : k < 64) :
    readl cfg bus dev func (4 * k) = cfg bus dev func k := by
  rw [readl, getAddress_eq hbus hdev hfunc hk, portWord]
  congr 1
  all_goals omega

/-- The records of a function. -/
def portRecords (cfg : ConfigSpace) (freed : ℕ → ℕ → ℕ → PCIdevice → PCIdevice)
    (bus dev func : ℕ) : List Record :=
  if cfg bus dev func 0 = 0xFFFFFFFF then []
  else [recordOf bus dev func (freed bus dev func (cfg.device bus dev func))]

lemma enumPort_records (hbus : bus < 256) (hdev : dev < 32) (hfunc : func < 8) (s : State) :
    (enumPort cfg freed bus dev func s).records =
      s.records ++ portRecords cfg freed bus dev func := by
  have hword : ∀ k < 64, readl cfg bus dev func (4 * k) = cfg bus dev func k :=
    fun k hk => readl_eq hbus hdev hfunc hk
  have h₀ : readl cfg bus dev func 0 = cfg bus dev func 0 := hword 0 (by omega)
  have h₁ : readl cfg bus dev func 0x4 = cfg bus dev func 1 := hword 1 (by omega)
  have h₂ : readl cfg bus dev func 0x8 = cfg bus dev func 2 := hword 2 (by omega)
  have h₃ : readl cfg bus dev func 0xc = cfg bus dev func 3 := hword 3 (by omega)
  rw [enumPort, h₀, h₁, h₂, h₃, portRecords]
  dsimp only
  split
  · simp
  · rw [records_record]
    rfl

/-- What is recorded through ports. -/
lemma enumPorts_records (cfg : ConfigSpace) (freed : ℕ → ℕ → ℕ → PCIdevice → PCIdevice) :
    (enumPorts cfg freed).records =
      (List.range 256).flatMap fun bus => (List.range 32).flatMap fun dev =>
        (List.range 8).flatMap (portRecords cfg freed bus dev) := by
  have hfunc : ∀ bus < 256, ∀ dev < 32, ∀ s : State,
      ((List.range 8).foldl (fun s func => enumPort cfg freed bus dev func s) s).records =
        s.records ++ (List.range 8).flatMap (portRecords cfg freed bus dev) := by
    intro bus hbus dev hdev s
    exact (Collect.foldl_out State.records (portRecords cfg freed bus dev) (fun _ => True)
      (fun func hfunc s _ =>
        ⟨trivial, enumPort_records hbus hdev (List.mem_range.mp hfunc) s⟩) trivial).2
  have hdev : ∀ bus < 256, ∀ s : State,
      ((List.range 32).foldl (fun s dev =>
        (List.range 8).foldl (fun s func => enumPort cfg freed bus dev func s) s) s).records =
        s.records ++ (List.range 32).flatMap fun dev =>
          (List.range 8).flatMap (portRecords cfg freed bus dev) := by
    intro bus hbus s
    exact (Collect.foldl_out State.records _ (fun _ => True)
      (fun dev hdev s _ => ⟨trivial, hfunc bus hbus dev (List.mem_range.mp hdev) s⟩) trivial).2
  have hall := (Collect.foldl_out State.records _ (fun _ => True)
    (fun bus hbus s _ => ⟨trivial, hdev bus (List.mem_range.mp hbus) s⟩) (s := ({} : State))
    trivial).2
  have hempty : ({} : State).records = [] := rfl
  rw [hempty, List.nil_append] at hall
  rw [enumPorts, hall]

/-! ## Counting -/

variable {r : Record}

/-- How many ranges of the table contain a bus; the last bus of a range does not count. -/
def ranges (mcfg : List DeviceConfig) (bus : ℕ) : ℕ :=
  mcfg.countP fun e => e.startbus.toNat ≤ bus ∧ bus < e.endbus.toNat

lemma count_buses (mcfg : List DeviceConfig) (bus : ℕ) :
    (mcfg.flatMap DeviceConfig.buses).count bus = ranges mcfg bus := by
  induction mcfg with
  | nil => rfl
  | cons e mcfg ih =>
    rw [List.flatMap_cons, List.count_append, ih, ranges, ranges, List.countP_cons, Nat.add_comm]
    congr 1
    by_cases h : e.startbus.toNat ≤ bus ∧ bus < e.endbus.toNat
    · rw [if_pos (by simpa using h)]
      exact List.count_eq_one_of_mem (List.nodup_range' ..) (mem_buses.mpr h)
    · rw [if_neg (by simpa using h)]
      exact List.count_eq_zero.mpr fun hbus => h (mem_buses.mp hbus)

/-- A function is seen through memory. -/
def Seen (cfg : ConfigSpace) (bus dev func : ℕ) : Prop :=
  ¬ (cfg.device bus 0 0).Skipped ∧ ¬ (cfg.device bus dev 0).Skipped ∧
    ¬ (cfg.device bus dev func).Skipped

instance : Decidable (Seen cfg bus dev func) := inferInstanceAs (Decidable (_ ∧ _ ∧ _))

lemma funcRecords_mark {x : Record} (h : x ∈ funcRecords cfg bus dev func) :
    x = recordOf bus dev func (cfg.device bus dev func) := by
  rw [funcRecords] at h
  split at h
  · simp at h
  · simpa using h

lemma deviceRecords_mark {x : Record} (h : x ∈ deviceRecords cfg bus dev) :
    x.bus = bus ∧ x.dev = dev := by
  rw [deviceRecords] at h
  split at h
  · simp at h
  · obtain ⟨func, -, hx⟩ := List.mem_flatMap.mp h
    rw [funcRecords_mark hx]
    exact ⟨rfl, rfl⟩

lemma busRecords_mark {x : Record} (h : x ∈ busRecords cfg bus) : x.bus = bus := by
  rw [busRecords] at h
  split at h
  · simp at h
  · obtain ⟨dev, -, hx⟩ := List.mem_flatMap.mp h
    exact (deviceRecords_mark hx).1

/-- The record says of a function what the configuration space says. -/
structure IsSlot (cfg : ConfigSpace) (r : Record) : Prop where
  dev : r.dev < 32
  func : r.func < 8
  vendorID : r.vendorID = (cfg.device r.bus r.dev r.func).vendorID
  deviceID : r.deviceID = (cfg.device r.bus r.dev r.func).deviceID

lemma IsSlot.eq (h : IsSlot cfg r) :
    r = recordOf r.bus r.dev r.func (cfg.device r.bus r.dev r.func) := by
  rw [recordOf, ← h.vendorID, ← h.deviceID]

/-- How often a record is made for its bus through memory. -/
lemma count_busRecords (cfg : ConfigSpace) (r : Record) [Decidable (IsSlot cfg r)] :
    (busRecords cfg r.bus).count r = if IsSlot cfg r ∧ Seen cfg r.bus r.dev r.func then 1
      else 0 := by
  split
  · rename_i h
    obtain ⟨hslot, hbus, hdev, hfunc⟩ := h
    rw [busRecords, if_neg hbus, Collect.count_flatMap _ (fun _ _ hx => (deviceRecords_mark hx).2),
      Collect.count_range, if_pos hslot.dev, one_mul, deviceRecords, if_neg hdev,
      Collect.count_flatMap (m := Record.func) _ (fun _ _ hx => by rw [funcRecords_mark hx]; rfl),
      Collect.count_range, if_pos hslot.func, one_mul, funcRecords, if_neg hfunc, ← hslot.eq]
    simp
  · rename_i h
    refine List.count_eq_zero.mpr fun hr => h ?_
    rw [busRecords] at hr
    split at hr
    · simp at hr
    · rename_i hbus
      obtain ⟨dev, hdev, hr⟩ := List.mem_flatMap.mp hr
      obtain rfl := (deviceRecords_mark hr).2
      rw [deviceRecords] at hr
      split at hr
      · simp at hr
      · rename_i hskip
        obtain ⟨func, hfunc, hr⟩ := List.mem_flatMap.mp hr
        have heq := funcRecords_mark hr
        obtain rfl : r.func = func := by rw [heq]; rfl
        rw [funcRecords] at hr
        split at hr
        · simp at hr
        · rename_i hown
          have hvendor := congrArg Record.vendorID heq
          have hdevice := congrArg Record.deviceID heq
          exact ⟨⟨List.mem_range.mp hdev, List.mem_range.mp hfunc, hvendor, hdevice⟩, hbus,
            hskip, hown⟩

/-- How often a record is made through memory. -/
lemma count_enumMemory (h : Decodes memory cfg mcfg) (r : Record) [Decidable (IsSlot cfg r)] :
    (enumMemory memory mcfg).records.count r =
      if IsSlot cfg r ∧ Seen cfg r.bus r.dev r.func then ranges mcfg r.bus else 0 := by
  rw [enumMemory_records h, Collect.count_flatMap _ (fun _ _ hx => busRecords_mark hx),
    count_buses, count_busRecords]
  split <;> simp

lemma portRecords_mark {x : Record} (h : x ∈ portRecords cfg freed bus dev func) :
    x = recordOf bus dev func (freed bus dev func (cfg.device bus dev func)) := by
  rw [portRecords] at h
  split at h
  · simp at h
  · simpa using h

/-- How often a record is made through ports, on a bus with a number below `256`. -/
lemma count_enumPorts (hbus : r.bus < 256) (hdev : r.dev < 32) (hfunc : r.func < 8) :
    (enumPorts cfg freed).records.count r =
      (portRecords cfg freed r.bus r.dev r.func).count r := by
  rw [enumPorts_records, Collect.count_flatMap (m := Record.bus), Collect.count_range, if_pos hbus,
    one_mul, Collect.count_flatMap (m := Record.dev), Collect.count_range, if_pos hdev, one_mul,
    Collect.count_flatMap (m := Record.func), Collect.count_range, if_pos hfunc, one_mul]
  · intro func x hx
    rw [portRecords_mark hx]
    rfl
  · intro dev x hx
    obtain ⟨func, -, hx⟩ := List.mem_flatMap.mp hx
    rw [portRecords_mark hx]
    rfl
  · intro bus x hx
    obtain ⟨dev, -, hx⟩ := List.mem_flatMap.mp hx
    obtain ⟨func, -, hx⟩ := List.mem_flatMap.mp hx
    rw [portRecords_mark hx]
    rfl

/-! ## The main result -/

/-- The bus is one of `startbus` to `endbus` of an entry, both included. -/
def InTable (mcfg : List DeviceConfig) (bus : ℕ) : Prop :=
  ∃ e ∈ mcfg, e.startbus.toNat ≤ bus ∧ bus ≤ e.endbus.toNat

lemma InTable.lt (h : InTable mcfg bus) : bus < 256 := by
  obtain ⟨e, -, -, hend⟩ := h
  exact hend.trans_lt e.endbus.toNat_lt

/-- A function that should be found: it has a vendor, and so has the first function of its
device. -/
def Present (cfg : ConfigSpace) (bus dev func : ℕ) : Prop :=
  (cfg.device bus dev func).vendorID ≠ 0xFFFF ∧ (cfg.device bus dev 0).vendorID ≠ 0xFFFF

/-- On the buses of the table, exactly the functions that should be found are recorded, each
once. -/
def Exact (cfg : ConfigSpace) (mcfg : List DeviceConfig) (records : List Record) : Prop :=
  ∀ r : Record, InTable mcfg r.bus →
    (IsSlot cfg r ∧ Present cfg r.bus r.dev r.func → records.count r = 1) ∧
      (r ∈ records → IsSlot cfg r ∧ Present cfg r.bus r.dev r.func)

/-- There is something at the function: its first word is not all ones. -/
def Populated (cfg : ConfigSpace) (bus dev func : ℕ) : Prop := cfg bus dev func 0 ≠ 0xFFFFFFFF

/-- The condition: where there is something, it and the first function of its device have a
vendor, it is seen through memory, its bus belongs to one range without its end, and the freed
structure still has its ids. -/
def Regular (cfg : ConfigSpace) (mcfg : List DeviceConfig)
    (freed : ℕ → ℕ → ℕ → PCIdevice → PCIdevice) : Prop :=
  ∀ bus dev func, InTable mcfg bus → dev < 32 → func < 8 → Populated cfg bus dev func →
    Present cfg bus dev func ∧ Seen cfg bus dev func ∧ ranges mcfg bus = 1 ∧
      recordOf bus dev func (freed bus dev func (cfg.device bus dev func)) =
        recordOf bus dev func (cfg.device bus dev func)

lemma not_populated_ids (h : ¬ Populated cfg bus dev func) :
    (cfg.device bus dev func).vendorID = 0xFFFF ∧ (cfg.device bus dev func).deviceID = 0xFFFF := by
  have hword : cfg bus dev func 0 = 0xFFFFFFFF := not_not.mp h
  rw [ConfigSpace.device, hword]
  exact ⟨rfl, rfl⟩

lemma Present.populated (h : Present cfg bus dev func) : Populated cfg bus dev func := by
  by_contra hnot
  exact h.1 (not_populated_ids hnot).1

lemma Seen.populated (h : Seen cfg bus dev func) : Populated cfg bus dev func := by
  by_contra hnot
  exact h.2.2 (.inr (not_populated_ids hnot).2)

lemma isSlot_recordOf (hdev : dev < 32) (hfunc : func < 8) :
    IsSlot cfg (recordOf bus dev func (cfg.device bus dev func)) := ⟨hdev, hfunc, rfl, rfl⟩

/-- A function with something in it is recorded through ports. -/
lemma mem_enumPorts_iff :
    r ∈ (enumPorts cfg freed).records ↔ r.bus < 256 ∧ r.dev < 32 ∧ r.func < 8 ∧
      Populated cfg r.bus r.dev r.func ∧
      r = recordOf r.bus r.dev r.func (freed r.bus r.dev r.func
        (cfg.device r.bus r.dev r.func)) := by
  rw [enumPorts_records]
  simp only [List.mem_flatMap, List.mem_range]
  constructor
  · rintro ⟨bus, hbus, dev, hdev, func, hfunc, hr⟩
    have heq := portRecords_mark hr
    have hpop : Populated cfg bus dev func := by
      intro hword
      rw [portRecords, if_pos hword] at hr
      simp at hr
    obtain rfl : r.bus = bus := by rw [heq]; rfl
    obtain rfl : r.dev = dev := by rw [heq]; rfl
    obtain rfl : r.func = func := by rw [heq]; rfl
    exact ⟨hbus, hdev, hfunc, hpop, heq⟩
  · rintro ⟨hbus, hdev, hfunc, hpop, heq⟩
    refine ⟨r.bus, hbus, r.dev, hdev, r.func, hfunc, ?_⟩
    rw [portRecords, if_neg hpop]
    exact List.mem_singleton.mpr heq

lemma regular_of_exact (h : Decodes memory cfg mcfg)
    (hmemory : Exact cfg mcfg (enumMemory memory mcfg).records)
    (hports : Exact cfg mcfg (enumPorts cfg freed).records) : Regular cfg mcfg freed := by
  classical
  intro bus dev func hbus hdev hfunc hpop
  -- the record that is made through ports has to be right
  have hport : recordOf bus dev func (freed bus dev func (cfg.device bus dev func)) ∈
      (enumPorts cfg freed).records := mem_enumPorts_iff.mpr ⟨hbus.lt, hdev, hfunc, hpop, rfl⟩
  obtain ⟨hslot, hpresent⟩ := (hports _ hbus).2 hport
  have heq : recordOf bus dev func (freed bus dev func (cfg.device bus dev func)) =
      recordOf bus dev func (cfg.device bus dev func) := hslot.eq
  -- and there has to be one through memory
  have hcount := (hmemory (recordOf bus dev func (cfg.device bus dev func)) hbus).1
    ⟨isSlot_recordOf hdev hfunc, hpresent⟩
  rw [count_enumMemory h] at hcount
  split at hcount
  · rename_i hseen
    exact ⟨hpresent, hseen.2, hcount, heq⟩
  · simp at hcount

lemma exact_enumMemory (h : Decodes memory cfg mcfg) (hregular : Regular cfg mcfg freed) :
    Exact cfg mcfg (enumMemory memory mcfg).records := by
  classical
  intro r hbus
  constructor
  · rintro ⟨hslot, hpresent⟩
    obtain ⟨-, hseen, hone, -⟩ :=
      hregular r.bus r.dev r.func hbus hslot.dev hslot.func hpresent.populated
    rw [count_enumMemory h, if_pos ⟨hslot, hseen⟩, hone]
  · intro hr
    have hpos := List.count_pos_iff.mpr hr
    rw [count_enumMemory h] at hpos
    split at hpos
    · rename_i hseen
      obtain ⟨hslot, hseen⟩ := hseen
      exact ⟨hslot, (hregular r.bus r.dev r.func hbus hslot.dev hslot.func hseen.populated).1⟩
    · simp at hpos

lemma exact_enumPorts (hregular : Regular cfg mcfg freed) :
    Exact cfg mcfg (enumPorts cfg freed).records := by
  intro r hbus
  constructor
  · rintro ⟨hslot, hpresent⟩
    obtain ⟨-, -, -, heq⟩ :=
      hregular r.bus r.dev r.func hbus hslot.dev hslot.func hpresent.populated
    rw [count_enumPorts hbus.lt hslot.dev hslot.func, portRecords, if_neg hpresent.populated, heq,
      ← hslot.eq]
    simp
  · intro hr
    obtain ⟨-, hdev, hfunc, hpop, heq⟩ := mem_enumPorts_iff.mp hr
    obtain ⟨hpresent, -, -, hids⟩ := hregular r.bus r.dev r.func hbus hdev hfunc hpop
    rw [hids] at heq
    have hvendor := congrArg Record.vendorID heq
    have hdevice := congrArg Record.deviceID heq
    exact ⟨⟨hdev, hfunc, hvendor, hdevice⟩, hpresent⟩

/-- **When the two enumerations are complete.**  On the buses of the MCFG table both record exactly
the functions that have a vendor, each once, if and only if the condition holds for every function
that has something in it. -/
theorem enumerations_exact_iff (h : Decodes memory cfg mcfg) :
    Exact cfg mcfg (enumMemory memory mcfg).records ∧ Exact cfg mcfg (enumPorts cfg freed).records ↔
      Regular cfg mcfg freed := by
  constructor
  · rintro ⟨hmemory, hports⟩
    exact regular_of_exact h hmemory hports
  · intro hregular
    exact ⟨exact_enumMemory h hregular, exact_enumPorts hregular⟩

/-! ## One host bridge -/

/-- The memory from `baseaddr` on as a window to the configuration space. -/
def window (baseaddr : ℕ) (cfg : ConfigSpace) : ℕ → UInt32 := fun address =>
  cfg ((address - baseaddr) / 2 ^ 20) ((address - baseaddr) / 2 ^ 15 % 2 ^ 5)
    ((address - baseaddr) / 2 ^ 12 % 2 ^ 3) ((address - baseaddr) % 2 ^ 12 / 4)

lemma configAddress_eq {baseaddr : ℕ} (hbase : baseaddr + 2 ^ 28 ≤ 2 ^ 64) (hbus : bus < 256)
    (hdev : dev < 32) (hfunc : func < 8) :
    configAddress baseaddr bus dev func = baseaddr + bus * 2 ^ 20 + dev * 2 ^ 15 + func *
      2 ^ 12 := by
  rw [configAddress, Nat.shiftLeft_eq, Nat.shiftLeft_eq, Nat.shiftLeft_eq,
    Word64.add_of_lt (a := baseaddr) (by omega),
    Word64.add_of_lt (a := baseaddr + bus * 2 ^ 20) (by omega), Word64.add_of_lt (by omega)]

lemma decodes_window {baseaddr : ℕ} (hbase : baseaddr + 2 ^ 28 ≤ 2 ^ 64)
    (hmcfg : ∀ e ∈ mcfg, e.baseaddr = baseaddr) : Decodes (window baseaddr cfg) cfg mcfg := by
  intro e he bus _ hend dev hdev func hfunc k hk
  have hbus : bus < 256 := hend.trans_lt e.endbus.toNat_lt
  rw [hmcfg e he, configAddress_eq hbase hbus hdev hfunc, window]
  congr 1
  all_goals omega

/-- There is one function, a host bridge. -/
def hostBridge : ConfigSpace := fun bus dev func k =>
  if bus = 0 ∧ dev = 0 ∧ func = 0 then (if k = 0 then 0x12378086 else 0) else 0xFFFFFFFF

lemma hostBridge_populated (h : Populated hostBridge bus dev func) :
    bus = 0 ∧ dev = 0 ∧ func = 0 := by
  by_contra hne
  exact h (if_neg hne)

/-- With a range of the buses `0` and `1` the host bridge is found. -/
theorem enumerations_exact_hostBridge :
    Exact hostBridge [⟨0xE0000000, 0, 1⟩]
        (enumMemory (window 0xE0000000 hostBridge) [⟨0xE0000000, 0, 1⟩]).records ∧
      Exact hostBridge [⟨0xE0000000, 0, 1⟩] (enumPorts hostBridge fun _ _ _ d => d).records := by
  refine (enumerations_exact_iff (decodes_window (by decide) (by simp))).mpr ?_
  intro bus dev func _ _ _ hpop
  obtain ⟨rfl, rfl, rfl⟩ := hostBridge_populated hpop
  refine ⟨⟨by decide, by decide⟩, by decide, by decide, rfl⟩

/-- With a range of the bus `0` only it is not found through memory. -/
theorem last_bus_is_missed :
    (enumMemory (window 0xE0000000 hostBridge) [⟨0xE0000000, 0, 0⟩]).records = [] ∧
      Decodes (window 0xE0000000 hostBridge) hostBridge [⟨0xE0000000, 0, 0⟩] ∧
      ¬ Exact hostBridge [⟨0xE0000000, 0, 0⟩]
        (enumMemory (window 0xE0000000 hostBridge) [⟨0xE0000000, 0, 0⟩]).records := by
  refine ⟨rfl, decodes_window (by decide) (by simp), fun hexact => ?_⟩
  have hslot : IsSlot hostBridge (recordOf 0 0 0 (hostBridge.device 0 0 0)) :=
    isSlot_recordOf (by decide) (by decide)
  have hcount := (hexact (recordOf 0 0 0 (hostBridge.device 0 0 0))
    ⟨_, List.mem_singleton_self _, by decide, by decide⟩).1 ⟨hslot, by decide, by decide⟩
  simp [enumMemory, DeviceConfig.buses, State.records] at hcount

end TurbOS.Pci
