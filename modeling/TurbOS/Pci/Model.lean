import TurbOS.Lib.Word64

/-!
# Enumerating the PCI devices

`pci::init` finds the devices in one of two ways.  With an MCFG table it reads the configuration
space through memory: `enumbus`, `enumdevice` and `enumfunc` look at the device id of the first
function of a bus, of a device, and of every function.  Without it, it would read the configuration
space of all buses through ports, and look at the first word of every function.

A record keeps a pointer to a device structure.  In the first case this is the configuration space
itself.  In the second case it is a block that is freed as soon as the record is made, so what the
record says about the device is whatever the freed block holds when it is read.

The strings of a record, which are looked up in tables, are left out, and so is the log.
-/

namespace TurbOS.Pci

/-- `PCIdevice_t`. -/
structure PCIdevice where
  vendorID : ℕ
  deviceID : ℕ
  command : ℕ
  status : ℕ
  revisionID : ℕ
  progIF : ℕ
  subclass : ℕ
  classID : ℕ
  cacheLineSize : ℕ
  latencyTimer : ℕ
  headerType : ℕ
  bist : ℕ
deriving DecidableEq, Repr

/-- The device structure that four words of 32 bits make up. -/
def PCIdevice.ofWords (config_0 config_4 config_8 config_c : UInt32) : PCIdevice where
  vendorID := config_0.toNat % 2 ^ 16
  deviceID := config_0.toNat >>> 16 % 2 ^ 16
  command := config_4.toNat % 2 ^ 16
  status := config_4.toNat >>> 16 % 2 ^ 16
  revisionID := config_8.toNat % 2 ^ 8
  progIF := config_8.toNat >>> 8 % 2 ^ 8
  subclass := config_8.toNat >>> 16 % 2 ^ 8
  classID := config_8.toNat >>> 24 % 2 ^ 8
  cacheLineSize := config_c.toNat % 2 ^ 8
  latencyTimer := config_c.toNat >>> 8 % 2 ^ 8
  headerType := config_c.toNat >>> 16 % 2 ^ 8
  bist := config_c.toNat >>> 24 % 2 ^ 8

/-- The configuration space: for a bus, a device and a function, the word with a number. -/
abbrev ConfigSpace := ℕ → ℕ → ℕ → ℕ → UInt32

/-- The device structure at the start of the configuration space of a function. -/
def ConfigSpace.device (cfg : ConfigSpace) (bus dev func : ℕ) : PCIdevice :=
  .ofWords (cfg bus dev func 0) (cfg bus dev func 1) (cfg bus dev func 2) (cfg bus dev func 3)

/-- `TranslatedPCIdevice_t`; `device` is what stands where the pointer leads. -/
structure TranslatedPCIdevice where
  device : PCIdevice
  bus : ℕ
  dev : ℕ
  func : ℕ
deriving DecidableEq, Repr

/-- The variables of the enumeration. -/
structure State where
  currentBus : ℕ := 0
  currentDev : ℕ := 0
  currentFunc : ℕ := 0
  PCIdevices : List TranslatedPCIdevice := []

/-- `PCIdevices.push_back(translate(pcidevice))`. -/
def State.record (s : State) (device : PCIdevice) : State :=
  { s with PCIdevices := s.PCIdevices ++ [⟨device, s.currentBus, s.currentDev, s.currentFunc⟩] }

/-! ## Through memory -/

/-- The device structure at an address; memory is read in words of 32 bits. -/
def deviceAt (memory : ℕ → UInt32) (address : ℕ) : PCIdevice :=
  .ofWords (memory address) (memory (address + 4)) (memory (address + 8)) (memory (address + 12))

/-- `pcidevice->deviceID == 0 || pcidevice->deviceID == 0xFFFF`. -/
def PCIdevice.Skipped (d : PCIdevice) : Prop := d.deviceID = 0 ∨ d.deviceID = 0xFFFF

instance (d : PCIdevice) : Decidable d.Skipped := inferInstanceAs (Decidable (_ ∨ _))

/-- `enumfunc`. -/
def enumfunc (memory : ℕ → UInt32) (devAddress func : ℕ) (s : State) : State :=
  let pcidevice := deviceAt memory (Word64.add devAddress (func <<< 12))
  if pcidevice.Skipped then s
  else { s with currentFunc := func }.record pcidevice

/-- `enumdevice`. -/
def enumdevice (memory : ℕ → UInt32) (busAddress dev : ℕ) (s : State) : State :=
  let devAddress := Word64.add busAddress (dev <<< 15)
  if (deviceAt memory devAddress).Skipped then s
  else (List.range 8).foldl (fun s func => enumfunc memory devAddress func s)
    { s with currentDev := dev }

/-- `enumbus`. -/
def enumbus (memory : ℕ → UInt32) (baseAddress bus : ℕ) (s : State) : State :=
  let busAddress := Word64.add baseAddress (bus <<< 20)
  if (deviceAt memory busAddress).Skipped then s
  else (List.range 32).foldl (fun s dev => enumdevice memory busAddress dev s)
    { s with currentBus := bus }

/-- `deviceconfig`, an entry of the MCFG table; the segment group is not used. -/
structure DeviceConfig where
  baseaddr : ℕ
  startbus : UInt8
  endbus : UInt8
deriving DecidableEq, Repr

/-- The buses of the loop `for(bus = startbus; bus < endbus; bus++)`. -/
def DeviceConfig.buses (e : DeviceConfig) : List ℕ :=
  List.range' e.startbus.toNat (e.endbus.toNat - e.startbus.toNat)

/-- The part of `init` that goes through the MCFG table. -/
def enumMemory (memory : ℕ → UInt32) (mcfg : List DeviceConfig) : State :=
  mcfg.foldl (fun s e => e.buses.foldl (fun s bus => enumbus memory e.baseaddr bus s) s) {}

/-! ## Through ports -/

/-- The address that `getAddress` writes to the port `0xcf8`. -/
def getAddress (bus dev func offset : ℕ) : ℕ :=
  bus <<< 16 ||| dev <<< 11 ||| func <<< 8 ||| offset / 4 * 4 ||| 0x80000000

/-- The word that can be read at the port `0xcfc` after an address was written. -/
def portWord (cfg : ConfigSpace) (address : ℕ) : UInt32 :=
  cfg (address / 2 ^ 16 % 2 ^ 8) (address / 2 ^ 11 % 2 ^ 5) (address / 2 ^ 8 % 2 ^ 3)
    (address / 4 % 2 ^ 6)

/-- `readl`. -/
def readl (cfg : ConfigSpace) (bus dev func offset : ℕ) : UInt32 :=
  portWord cfg (getAddress bus dev func offset)

/-- The body of the innermost loop of `init`; `freed` is what the freed structure holds when the
record is read.  It stands for what the heap of `heap.cpp` leaves in freed memory and for what later
owners of the memory write there. -/
def enumPort (cfg : ConfigSpace) (freed : ℕ → ℕ → ℕ → PCIdevice → PCIdevice) (bus dev func : ℕ)
    (s : State) : State :=
  let config_0 := readl cfg bus dev func 0
  if config_0 = 0xFFFFFFFF then s
  else
    let config_4 := readl cfg bus dev func 0x4
    let config_8 := readl cfg bus dev func 0x8
    let config_c := readl cfg bus dev func 0xc
    let pcidevice := PCIdevice.ofWords config_0 config_4 config_8 config_c
    { s with currentBus := bus, currentDev := dev, currentFunc := func }.record
      (freed bus dev func pcidevice)

/-- The part of `init` that goes through all buses. -/
def enumPorts (cfg : ConfigSpace) (freed : ℕ → ℕ → ℕ → PCIdevice → PCIdevice) : State :=
  (List.range 256).foldl (fun s bus =>
    (List.range 32).foldl (fun s dev =>
      (List.range 8).foldl (fun s func => enumPort cfg freed bus dev func s) s) s) {}

end TurbOS.Pci
