import TurbOS.Lib.Runs

/-!
# Bringing up the processors

`gdt::init` allocates the array `tss` with an element for every entry of the SMP table.
`smp::init` goes through the table, fills the element at the position of the entry, and starts the
processor, which runs `cpu_init` at some later time; the boot processor runs it at once.
`cpu_init` calls `reloadAll`, which writes the address of an element into the descriptor that all
processors share and loads the task register from it.  It runs while `cpu_lock` is held, so it is
one step here.

A processor is named by the position of its entry in the table.  A stack is named by what it was
allocated for: no two blocks that `malloc` returns are the same.
-/

namespace TurbOS.Smp

/-- The stacks that are written into the elements. -/
inductive Stack where
  /-- What `calloc` leaves. -/
  | null
  /-- `kernelStack`. -/
  | kernelStack
  /-- `sched_stack` in the round for an entry. -/
  | sched (i : ℕ)
  /-- `stack` in the round for an entry. -/
  | stack (i : ℕ)
deriving DecidableEq, Repr

/-- The fields of `TSS` that are used. -/
structure TSS where
  RSP0 : Stack := .null
  IST0 : Stack := .null
deriving DecidableEq, Repr

/-- `sizeof(TSS)`; the structure is packed. -/
def TSS_SIZE : ℕ := 104

/-- `TSSEntry`. -/
structure TSSEntry where
  length : ℕ := 0
  base0 : ℕ := 0
  base1 : ℕ := 0
  flag1 : ℕ := 0x89
  flag2 : ℕ := 0
  base2 : ℕ := 0
  base3 : ℕ := 0
  Reserved : ℕ := 0
deriving DecidableEq, Repr

/-- The fields of `cpu_t` that are used; `tss` is an address. -/
structure Cpu where
  cpuID : ℕ := 0
  lapicID : UInt32 := 0
  tss : ℕ := 0
  isUp : Bool := false
deriving DecidableEq, Repr

/-- The SMP table: the LAPIC ids of its entries. -/
structure SmpTag where
  bsp_lapic_id : UInt32
  smp_info : List UInt32
deriving DecidableEq, Repr

/-- `cpu_count`. -/
def SmpTag.cpu_count (tag : SmpTag) : ℕ := tag.smp_info.length

/-- The variables, and the task register of every processor. -/
structure State where
  tss : ℕ → TSS := fun _ => {}
  /-- `DefaultGDT.Tss`. -/
  descriptor : TSSEntry := {}
  /-- The base in the task register. -/
  loaded : ℕ → Option ℕ := fun _ => none
  cpus : ℕ → Cpu := fun _ => {}
  /-- The loop variable of `smp::init`. -/
  i : ℕ := 0
  /-- The first part of the round is done. -/
  filled : Bool := false
  /-- `goto_address` is set. -/
  started : ℕ → Bool := fun _ => false
  cpusUp : ℕ := 0

/-- `&tss[cpu]` for an `int`; addresses have 64 bits. -/
def elementAddress (tss : ℕ) (cpu : ℤ) : ℕ := (((tss : ℤ) + TSS_SIZE * cpu) % 2 ^ 64).toNat

/-- What `reloadAll` writes into the descriptor. -/
def tssEntry (base : ℕ) : TSSEntry where
  length := (base + TSS_SIZE) % 2 ^ 16
  base0 := base % 2 ^ 16
  base1 := (base >>> 16) % 2 ^ 8
  flag1 := 0x89
  flag2 := 0
  base2 := (base >>> 24) % 2 ^ 8
  base3 := (base >>> 32) % 2 ^ 32
  Reserved := 0

/-- The base that `ltr` takes from a descriptor. -/
def TSSEntry.base (d : TSSEntry) : ℕ :=
  d.base0 + d.base1 * 2 ^ 16 + d.base2 * 2 ^ 24 + d.base3 * 2 ^ 32

/-- `reloadAll`, on the processor `j`. -/
def reloadAll (tss : ℕ) (j : ℕ) (cpu : ℤ) (s : State) : State :=
  let descriptor := tssEntry (elementAddress tss cpu)
  { s with descriptor := descriptor, loaded := Function.update s.loaded j (some descriptor.base) }

/-- `gdt::init`, on the processor `boot`. -/
def gdtInit (tag : SmpTag) (tss boot : ℕ) : State :=
  let s := reloadAll tss boot tag.bsp_lapic_id.toInt32.toInt {}
  { s with tss := Function.update s.tss 0 { s.tss 0 with RSP0 := .kernelStack } }

/-- The part of `cpu_init` until it gives `cpu_lock` back, on the processor `j`.  `thisCPU` is
found through `cpuID`, the first field of the structure that `extra_argument` points to. -/
def cpuInit (tss j : ℕ) (lapic_id : UInt32) (s : State) : State :=
  let s := reloadAll tss j lapic_id.toInt32.toInt s
  let this := (s.cpus j).cpuID
  { s with
    cpus := Function.update s.cpus this
      { s.cpus this with
        lapicID := lapic_id
        tss := elementAddress tss lapic_id.toNat
        isUp := true }
    cpusUp := s.cpusUp + 1 }

/-- The actions: the two parts of a round of the loop in `smp::init`, and `cpu_init` on a processor
that was started. -/
inductive Action where
  | fill
  | launch
  | run (j : ℕ)
deriving DecidableEq, Repr

/-- A step; `none` if it is not possible. -/
def step (tag : SmpTag) (tss : ℕ) : Action → State → Option State
  | .fill, s =>
    if s.filled then none
    else tag.smp_info[s.i]?.map fun _ =>
      { s with
        cpus := Function.update s.cpus s.i { s.cpus s.i with cpuID := s.i }
        tss := Function.update s.tss s.i { s.tss s.i with IST0 := .sched s.i }
        filled := true }
  | .launch, s =>
    if s.filled then
      tag.smp_info[s.i]?.map fun lapic_id =>
        let s' :=
          if tag.bsp_lapic_id ≠ lapic_id then
            { s with
              tss := Function.update s.tss s.i { s.tss s.i with RSP0 := .stack s.i }
              started := Function.update s.started s.i true }
          else cpuInit tss s.i lapic_id s
        { s' with i := s.i + 1, filled := false }
    else none
  | .run j, s =>
    if s.started j ∧ ¬ (s.cpus j).isUp then
      tag.smp_info[j]?.map fun lapic_id => cpuInit tss j lapic_id s
    else none

end TurbOS.Smp
