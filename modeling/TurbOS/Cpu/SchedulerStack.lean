import TurbOS.Cpu.Idt
import TurbOS.Cpu.Interrupt
import TurbOS.Heap.Steps
import TurbOS.Smp.Tss

/-!
# The stack of the scheduler

`scheduler::init` moves its vector to the stack `IST[0]`.  `smp::init` allocates that stack for
every processor, and writes the address that `malloc` returns into the element of the array `tss`,
which is where the stack begins.  A stack grows downwards, so an interrupt does not touch the block
at all: it writes over the header in front of it, and over what stands before.

The theorem joins the runs of the heap, of `smp::init` and of the table of interrupts.
-/

open X86 ByteMemory Tiling

namespace TurbOS.Asm

variable {code : UInt64 → Option Instr} {int_handler int_common_stub isr_n : UInt64} {m m' : State}
  {ws : List UInt64} {n : ℕ} {cs stack : UInt64} {error : Option UInt64}

/-! ## Which stack the processor takes -/

/-- The element of the array `tss` that a processor has loaded. -/
def task (tag : Smp.SmpTag) (tss : ℕ) (s : Smp.State) (i : ℕ) : Option Smp.TSS :=
  ((List.range tag.cpu_count).find? fun k : ℕ => s.loaded i =
    some (Smp.elementAddress tss k)).map s.tss

/-- A stack of the interrupt stack table.  Nothing but `IST[0]` is ever written. -/
def ist (t : Smp.TSS) (number : UInt8) : Smp.Stack := if number = 1 then t.IST0 else .null

/-- The stack that the processor takes when an interrupt goes through a gate. -/
def gateStack (gate : Idt.Gate) (t : Smp.TSS) (address : Smp.Stack → ℕ) (m : State) : UInt64 :=
  if gate.stack ≠ 0 then UInt64.ofNat (address (ist t gate.stack))
  else if m.cs &&& 3 = 0 then m.reg .rsp
  else UInt64.ofNat (address t.RSP0)

/-- An interrupt goes through a gate. -/
def throughGate (gate : Idt.Gate) (t : Smp.TSS) (address : Smp.Stack → ℕ) (error : Option UInt64)
    (m : State) : State :=
  interrupt gate.address gate.selector.toUInt64 (gateStack gate t address m) error m

/-- When `smp::init` has gone through the table, the stack `IST[0]` of a processor is the one of
some round. -/
lemma ist_of_task {tag : Smp.SmpTag} {tss boot i : ℕ} {as : List Smp.Action} {s : Smp.State}
    {t : Smp.TSS} (hrun : Runs.exec (Smp.step tag tss) as (Smp.gdtInit tag tss boot) = some s)
    (hdone : s.i = tag.cpu_count) (htask : task tag tss s i = some t) :
    ∃ k < tag.cpu_count, t.IST0 = .sched k := by
  have hinv : Smp.Inv tag tss s :=
    Runs.exec_inv (fun _ _ _ hinv hstep => hinv.step hstep) (Smp.inv_gdtInit tag tss boot) hrun
  obtain ⟨k, hk, rfl⟩ := Option.map_eq_some_iff.mp htask
  have hlt : k < tag.cpu_count := List.mem_range.mp (List.mem_of_find?_eq_some hk)
  exact ⟨k, hlt, hinv.ist k (.inl (by omega))⟩

/-! ## The blocks of the heap -/

/-- Every block of the heap stands at a multiple of sixteen, and not on the first page. -/
lemma block_aligned {g : PMemory.Geometry} {others : List PMemory.Extent} {k : Kernel}
    {bs : List Block} {live : List Heap.Alloc} {c : ℕ} {b : Block}
    (hs : Heap.Sound g others k bs live) (hb : (c, b) ∈ spans k.heap.head bs) :
    16 ∣ c ∧ 0x1000 ≤ c := by
  have hne : k.heap.data ≠ 0 := by
    rw [Ne, hs.shape.empty_iff]
    rintro rfl
    simp at hb
  have hmem : (⟨k.heap.data, k.heap.pages⟩ : PMemory.Extent) ∈ Heap.arena k.heap ++ others := by
    rw [Heap.arena, if_neg hne]
    exact List.mem_cons_self
  have hhead : k.heap.head = k.heap.data / 0x1000 * 0x1000 := by
    rw [← hs.shape.data_eq]
    exact hs.pages.aligned _ hmem
  obtain ⟨pre, post, hbs, rfl⟩ := mem_spans_iff.mp hb
  have hpre : 16 ∣ total pre := by
    refine List.dvd_sum fun size hsize => ?_
    obtain ⟨d, hd, rfl⟩ := List.mem_map.mp hsize
    obtain ⟨j, hj, hd⟩ := hs.shape.powers d (by rw [hbs]; exact List.mem_append_left _ hd)
    rw [hd]
    exact pow_dvd_pow 2 (show 4 ≤ j by omega)
  have hdata := hs.shape.data_eq
  constructor <;> omega

/-! ## What the interrupt overwrites -/

/-- A word that stands in memory, by its number. -/
lemma words_getElem {mem : Mem} {a i : ℕ} (h : Words mem a ws) {w : UInt64} (hi : ws[i]? = some w) :
    UInt64.ofNat (load mem (a + 8 * i) 8) = w := by
  induction ws generalizing a i with
  | nil => simp at hi
  | cons v vs ih =>
    cases i with
    | zero =>
      obtain rfl : v = w := Option.some.inj hi
      exact h.1
    | succ i =>
      have hnext : a + 8 * (i + 1) = a + 8 + 8 * i := by ring
      rw [hnext]
      exact ih h.2 hi

lemma load_lt_pow (mem : Mem) (a k : ℕ) : load mem a k < 256 ^ k := by
  induction k generalizing a with
  | zero => exact Nat.one_pos
  | succ k ih =>
    have hbyte := (mem a).toNat_lt
    have hrest := ih (a + 1)
    rw [load, pow_succ]
    omega

/-- A word of the stack as a number. -/
lemma load_of_words {mem : Mem} {a i : ℕ} (h : Words mem a ws) {w : UInt64} (hi : ws[i]? = some w) :
    load mem (a + 8 * i) 8 = w.toNat := by
  have hlt : load mem (a + 8 * i) 8 < 2 ^ 64 := load_lt_pow mem (a + 8 * i) 8
  rw [← words_getElem h hi, UInt64.toNat_ofNat', Nat.mod_eq_of_lt hlt]

/-- The processor does not move a stack that is aligned. -/
lemma aligned_stack (h : 16 ∣ stack.toNat) : stack &&& ~~~ 15 = stack := by
  have hlow : stack &&& 15 = 0 := by
    refine UInt64.toNat_inj.mp ?_
    rw [toNat_and_fifteen, Nat.mod_eq_zero_of_dvd h]
    rfl
  have hsplit : stack = stack &&& ~~~ 15 ||| stack &&& 15 := by
    refine UInt64.toBitVec_inj.mp ?_
    ext i hi
    simp only [UInt64.toBitVec_or, UInt64.toBitVec_and, UInt64.toBitVec_not, BitVec.getElem_or,
      BitVec.getElem_and, BitVec.getElem_not]
    cases stack.toBitVec[i] <;> simp
  rw [hlow, UInt64.or_zero] at hsplit
  exact hsplit.symm

/-- The stack begins at the end of the header of a block. -/
lemma stack_overwrites {block : ℕ} (hlinked : Linked code int_handler int_common_stub isr_n n)
    (herror : error.isSome = pushesError n) (hptr : stack.toNat = block + 16)
    (haligned : 16 ∣ block) (hroom : 168 ≤ block) :
    Reaches code (fun m' => HandlerCalled int_handler int_common_stub m n (error.getD 0) stack m' ∧
      Heap.blockSize m'.mem block = (m.reg .rsp).toNat ∧
      (Heap.blockFree m'.mem block = true ↔ m.ss.toNat % 256 ≠ 0) ∧
      ∀ x, block + 16 ≤ x → m'.mem x = m.mem x) (interrupt isr_n cs stack error m) := by
  have hsame : stack &&& ~~~ 15 = stack := aligned_stack (by omega)
  have hroom' : 184 ≤ (stack &&& ~~~ 15).toNat := by
    rw [hsame]
    omega
  refine (reaches_handler hlinked herror hroom').bind fun m' ⟨hcalled, _⟩ => ?_
  rw [hsame] at hcalled
  refine .done ⟨hcalled, ?_⟩
  have hframe : (m'.reg .rdi).toNat = block + 16 - 176 := by
    have hle : (176 : UInt64) ≤ stack := UInt64.le_iff_toNat_le.mpr
      (show 176 ≤ stack.toNat by omega)
    rw [hcalled.frame, UInt64.toNat_sub_of_le _ _ hle, hptr]
    rfl
  have hsize : Heap.blockSize m'.mem block = (m.reg .rsp).toNat := by
    have hload := load_of_words hcalled.registers (i := 20) (w := m.reg .rsp) rfl
    have haddr : block + 16 - 176 + 8 * 20 = block := by omega
    rw [hframe, haddr] at hload
    exact hload
  have hss : load m'.mem (block + 8) 8 = m.ss.toNat := by
    have hload := load_of_words hcalled.registers (i := 21) (w := m.ss) rfl
    have haddr : block + 16 - 176 + 8 * 21 = block + 8 := by omega
    rw [hframe, haddr] at hload
    exact hload
  refine ⟨hsize, ?_, fun x hx => hcalled.outside x (.inr (by omega))⟩
  have hbyte : (m'.mem (block + 8)).toNat = m.ss.toNat % 256 := by
    have hlt := (m'.mem (block + 8)).toNat_lt
    rw [← hss, load]
    omega
  rw [Heap.blockFree, decide_eq_true_eq, ← hbyte, ne_eq, ne_eq, ← UInt8.toNat_inj]
  rfl

/-- **An interrupt of the scheduler's vector overwrites the header of a heap block.**  The heap, the
array `tss` and the table of interrupts are what any runs have made of them, and the stacks of the
rounds are allocations that are live.  Before, the header was that of a block in use; when the
handler is called, its size is the stack pointer of the interrupted program, and it counts as free
unless the lowest byte of the stack segment is zero.  The block itself is not touched. -/
theorem scheduler_stack_overwrites {mm : List PMemory.MmapEntry} {mem : Mem} {h : PMemory.Held}
    {c : Heap.Client} {tag : Smp.SmpTag} {tss boot i : ℕ} {as : List Smp.Action} {s : Smp.State}
    {t : Smp.TSS} {Handler : Type*} {calls : List (Idt.Call Handler)} (int_table : UInt8 → UInt64)
    (switchTask : Handler) (address : Smp.Stack → ℕ) (hb : PMemory.Bootable mm)
    (hp : PMemory.Reachable mm mem h) (hr : Heap.Reachable h.phys c)
    (hone : c.kernel.heap.expansions ≤ 1)
    (hrun : Runs.exec (Smp.step tag tss) as (Smp.gdtInit tag tss boot) = some s)
    (hdone : s.i = tag.cpu_count) (htask : task tag tss s i = some t)
    (hmalloc : ∀ k < tag.cpu_count, ⟨address (.sched k), 0x2000⟩ ∈ c.live)
    (hlate : Idt.Late calls) (hlinked : Linked code int_handler int_common_stub (int_table 49) 49)
    (hmem : m.mem = c.kernel.phys.mem) :
    ∃ k < tag.cpu_count, ∃ block, address (.sched k) = block + 16 ∧
      0x2010 ≤ Heap.blockSize m.mem block ∧ Heap.blockFree m.mem block = false ∧
      Reaches code (fun m' =>
          HandlerCalled int_handler int_common_stub m 49 0 (UInt64.ofNat (block + 16)) m' ∧
          Heap.blockSize m'.mem block = (m.reg .rsp).toNat ∧
          (Heap.blockFree m'.mem block = true ↔ m.ss.toNat % 256 ≠ 0) ∧
          ∀ x, block + 16 ≤ x → m'.mem x = m.mem x)
        (throughGate ((Idt.run int_table switchTask calls).idt 49).gate t address none m) := by
  obtain ⟨k, hk, hist⟩ := ist_of_task hrun hdone htask
  obtain ⟨buffer, hinv, -⟩ := hp.inv hb
  obtain ⟨bs, hs⟩ := (hr.good hinv hone).sound
  obtain ⟨block, hused, hptr, hsize⟩ := hs.block (hmalloc k hk)
  obtain ⟨haligned, hroom⟩ := block_aligned hs hused
  obtain ⟨hread, hfree⟩ := hs.shape.tiles.read hused
  -- the block ends below `2 ^ 64`
  have hbound := (spans_bounds hused).2
  have hend := hs.shape.tiles.end_eq
  have htail := hs.shape.tail_lt
  dsimp only at hptr hsize hread hfree hbound
  have hstack : (UInt64.ofNat (block + 16)).toNat = block + 16 := by
    rw [UInt64.toNat_ofNat', Nat.mod_eq_of_lt (by omega)]
  have hgate := Idt.gates_of_run int_table switchTask calls 49
  have hnumber : (49 : UInt8) = 0 ∧ Idt.Early calls ∨ (49 : UInt8) = 49 ∧ Idt.Late calls :=
    .inr ⟨rfl, hlate⟩
  refine ⟨k, hk, block, hptr, ?_, ?_, ?_⟩
  · rw [hmem, hread]
    omega
  · rw [hmem, hfree]
  · rw [if_neg fun h₀ => absurd h₀.1 (by decide), if_pos hnumber] at hgate
    rw [throughGate, gateStack, hgate, if_pos (show (1 : UInt8) ≠ 0 by decide), ist, if_pos rfl,
      hist, hptr]
    exact stack_overwrites hlinked rfl hstack haligned (by omega)

/-- The stacks of two rounds, as the heap hands them out. -/
def twoStacks : Smp.Stack → ℕ
  | .sched 0 => 0x1FE010
  | .sched _ => 0x1FA010
  | _ => 0

/-- A kernel thread is interrupted on the boot processor of a machine with two processors.  A block
in use becomes a free one of 4000 bytes. -/
theorem scheduler_stack_overwrites_kernel : ∃ (m : State) (t : Smp.TSS) (block : ℕ),
    0x2010 ≤ Heap.blockSize m.mem block ∧ Heap.blockFree m.mem block = false ∧
      Reaches (returning 49)
        (fun m' => Heap.blockSize m'.mem block = 4000 ∧ Heap.blockFree m'.mem block = true)
        (throughGate ((Idt.run (fun _ => 34) ()
          [.apicInit true 9 (), .schedulerInit]).idt 49).gate t twoStacks none m) := by
  obtain ⟨k₀, hk₀⟩ := Heap.laid_whole
  obtain ⟨-, k₁, -, -, hk₁⟩ := hk₀.malloc 0x2000 0x4000 0x1FE000 (by norm_num) (by norm_num)
    (by decide +kernel) (by norm_num)
    (by decide +kernel : _ = (0x1FE000,
      [⟨2 ^ 20, true⟩, ⟨2 ^ 19, true⟩, ⟨2 ^ 18, true⟩, ⟨2 ^ 17, true⟩,
      ⟨2 ^ 16, true⟩, ⟨2 ^ 15, true⟩, ⟨2 ^ 14, true⟩, ⟨2 ^ 14, true⟩]))
    (by decide +kernel : _ = [⟨2 ^ 20, true⟩, ⟨2 ^ 19, true⟩, ⟨2 ^ 18, true⟩, ⟨2 ^ 17, true⟩,
      ⟨2 ^ 16, true⟩, ⟨2 ^ 15, true⟩, ⟨2 ^ 14, true⟩, ⟨2 ^ 14, false⟩])
  obtain ⟨-, k₂, -, -, hk₂⟩ := hk₁.malloc 0x2000 0x4000 0x1FA000 (by norm_num) (by norm_num)
    (by decide +kernel) (by norm_num)
    (by decide +kernel : _ = (0x1FA000,
      [⟨2 ^ 20, true⟩, ⟨2 ^ 19, true⟩, ⟨2 ^ 18, true⟩, ⟨2 ^ 17, true⟩,
      ⟨2 ^ 16, true⟩, ⟨2 ^ 15, true⟩, ⟨2 ^ 14, true⟩, ⟨2 ^ 14, false⟩])) rfl
  have hrun : (Runs.exec (Smp.step Smp.orderedTag 0x1000) Smp.inOrder
      (Smp.gdtInit Smp.orderedTag 0x1000 0)).any
        (fun s => decide (s.i = Smp.orderedTag.cpu_count ∧
          (task Smp.orderedTag 0x1000 s 0).isSome)) = true := by
    decide +kernel
  obtain ⟨s, hs, hcheck⟩ := (Option.any_eq_true _ _).mp hrun
  obtain ⟨hdone, hsome⟩ := of_decide_eq_true hcheck
  obtain ⟨t, htask⟩ := Option.isSome_iff_exists.mp hsome
  let m : State := { busy with reg := fun _ => 4000, mem := k₂.phys.mem }
  have hlate : Idt.Late ([.apicInit true 9 (), .schedulerInit] : List (Idt.Call Unit)) :=
    ⟨[.apicInit true 9 ()], [], rfl, 9, (), List.mem_cons_self⟩
  have hmalloc : ∀ k < Smp.orderedTag.cpu_count, (⟨twoStacks (.sched k), 0x2000⟩ : Heap.Alloc) ∈
      [⟨0x1FA010, 0x2000⟩, ⟨0x1FE010, 0x2000⟩] := by decide
  obtain ⟨k, -, block, -, hsize, hused, hreaches⟩ :=
    scheduler_stack_overwrites (m := m) (fun _ => 34) () twoStacks Heap.bigMap_bootable
      Heap.bigPhys_reachable hk₂.reachable (by rw [hk₂.heap, Heap.firstHeap]) hs hdone htask hmalloc
      hlate (linked_returning rfl) rfl
  refine ⟨m, t, block, hsize, hused, hreaches.bind fun m' h => .done ?_⟩
  obtain ⟨-, hsize', hfree', -⟩ := h
  exact ⟨hsize', hfree'.mpr (show busy.ss.toNat % 256 ≠ 0 by decide)⟩

end TurbOS.Asm
