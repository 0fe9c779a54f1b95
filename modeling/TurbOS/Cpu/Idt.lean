import Mathlib
import TurbOS.Lib.LastWrite

/-!
# The table of interrupts

`idt::init` writes a gate for every vector and lets user programs through the gate of `SYSCALL`
only; `scheduler::init` takes a vector from `allocVector` and moves it to a stack of its own, or,
when there is no APIC, does so with the vector of the timer, but under the number 0.

What the processor reads from a descriptor is a `Gate`.  The gate of every vector is known after any
run: without an APIC a division by zero ends in the stub of the timer.  So is the handler that an
interrupt calls.  The vectors that `allocVector` returns are known as well: the counter behind it
goes back to the vectors of the exceptions after 255.
-/

namespace TurbOS.Idt

/-- The vector of the system calls. -/
def SYSCALL : UInt8 := 0x69

/-- The vector of the timer. -/
def IRQ0 : UInt8 := 32

structure IDTEntry where
  Offset1 : UInt16
  Selector : UInt16
  IST : UInt8
  TypeAttr : UInt8
  Offset2 : UInt16
  Offset3 : UInt32
  Zero : UInt32

/-- The descriptor that `idtSetDescriptor` writes. -/
def descriptor (isr : UInt64) (typeattr ist : UInt8) : IDTEntry where
  Offset1 := isr.toUInt16
  Selector := 0x28
  IST := ist
  TypeAttr := typeattr
  Offset2 := (isr >>> 16).toUInt16
  Offset3 := (isr >>> 32).toUInt32
  Zero := 0

/-- What the functions of the table and of the scheduler keep; `apic` is the flag `apic::isInit`. -/
structure State (Handler : Type*) where
  idt : UInt8 → IDTEntry
  interrupt_handlers : UInt8 → Option Handler
  isInit : Bool
  next_free : UInt8
  apic : Bool
  sched_vector : UInt8
  isScheduling : Bool

section Code

variable {Handler : Type*} (int_table : UInt8 → UInt64) (switchTask : Handler) (s : State Handler)

/-- The state when the kernel is loaded. -/
def boot : State Handler where
  idt _ := ⟨0, 0, 0, 0, 0, 0, 0⟩
  interrupt_handlers _ := none
  isInit := false
  next_free := 48
  apic := false
  sched_vector := 0
  isScheduling := false

def idtSetDescriptor (vector : UInt8) (isr : UInt64) (typeattr ist : UInt8) : State Handler :=
  { s with idt := Function.update s.idt vector (descriptor isr typeattr ist) }

/-- `idt::init`, with the 256 rounds of its loop. -/
def init : State Handler :=
  if s.isInit then s
  else
    let s := (List.range 256).foldl
      (fun s i => idtSetDescriptor s (UInt8.ofNat i) (int_table (UInt8.ofNat i)) 0x8E 0) s
    let s := idtSetDescriptor s SYSCALL (int_table SYSCALL) 0xEE 0
    { s with isInit := true }

/-- The vector, and the number that is kept for the next one. -/
def allocVector : UInt8 × State Handler :=
  let next := s.next_free + 1
  let next := if next = SYSCALL then next + 1 else next
  (next, { s with next_free := next })

/-- The routing of the I/O APIC is left out. -/
def registerInterruptHandler (vector : UInt8) (handler : Handler) : State Handler :=
  { s with interrupt_handlers := Function.update s.interrupt_handlers vector (some handler) }

/-- `scheduler::init`; the timer of the local APIC is left out. -/
def schedulerInit : State Handler :=
  if s.apic then
    if s.sched_vector = 0 then
      let (vector, s) := allocVector s
      let s := { s with sched_vector := vector }
      let s := registerInterruptHandler s s.sched_vector switchTask
      idtSetDescriptor s s.sched_vector (int_table s.sched_vector) 0x8E 1
    else s
  else
    let s := idtSetDescriptor s s.sched_vector (int_table IRQ0) 0x8E 1
    { s with isScheduling := true }

/-- `apic::init`, as far as the table is concerned: `madt` says whether that table was found, and
`SCI` is the interrupt of the ACPI. -/
def apicInit (madt : Bool) (SCI : UInt16) (SCIHandler : Handler) : State Handler :=
  if s.apic then s
  else if madt then { registerInterruptHandler s (SCI + 32).toUInt8 SCIHandler with apic := true }
  else s

/-- What is done when an interrupt was taken; of an exception only that it was handled. -/
inductive Event (Handler : Type*) where
  | exception
  | call (handler : Handler)
  | lapicEndOfInterrupt
  | outb (port value : UInt8)
  | panic

/-- `pic::endOfInterrupt`, first for the second PIC. -/
def picEndOfInterrupt (Handler : Type*) (interruptNumber : UInt64) : List (Event Handler) :=
  (if interruptNumber ≥ 40 then [.outb 0xA0 0x20] else []) ++ [.outb 0x20 0x20]

def irq_handler (int_no : UInt64) : List (Event Handler) :=
  ((s.interrupt_handlers int_no.toUInt8).map .call).toList ++
    if s.apic then [.lapicEndOfInterrupt] else picEndOfInterrupt Handler int_no

def int_handler (int_no : UInt64) : List (Event Handler) :=
  if int_no < 32 then [.exception]
  else if int_no < 256 then irq_handler s int_no
  else [.panic]

/-- A call of one of the functions. -/
inductive Call (Handler : Type*) where
  | init
  | registerInterruptHandler (vector : UInt8) (handler : Handler)
  | apicInit (madt : Bool) (SCI : UInt16) (SCIHandler : Handler)
  | schedulerInit

def step : State Handler → Call Handler → State Handler
  | s, .init => init int_table s
  | s, .registerInterruptHandler vector handler => registerInterruptHandler s vector handler
  | s, .apicInit madt SCI SCIHandler => apicInit s madt SCI SCIHandler
  | s, .schedulerInit => schedulerInit int_table switchTask s

/-- The state behind `idt::init` and the given calls. -/
def run (calls : List (Call Handler)) : State Handler :=
  calls.foldl (step int_table switchTask) (init int_table boot)

end Code

/-! ## What the processor reads -/

/-- A descriptor as the processor reads it. -/
structure Gate where
  address : UInt64
  selector : UInt16
  /-- The stack that is taken from the table of the processor; 0 for none. -/
  stack : UInt8
  /-- An interrupt gate turns interrupts off. -/
  interruptsOff : Bool
  /-- The privilege that a program needs to call the gate. -/
  level : UInt8
  present : Bool

def IDTEntry.gate (d : IDTEntry) : Gate where
  address := d.Offset1.toUInt64 ||| d.Offset2.toUInt64 <<< 16 ||| d.Offset3.toUInt64 <<< 32
  selector := d.Selector
  stack := d.IST &&& 7
  interruptsOff := d.TypeAttr &&& 0xF = 0xE
  level := d.TypeAttr >>> 5 &&& 3
  present := d.TypeAttr >>> 7 = 1

/-- An address that was divided among three fields. -/
lemma joined_address (a : UInt64) :
    a.toUInt16.toUInt64 ||| (a >>> 16).toUInt16.toUInt64 <<< 16 |||
      (a >>> 32).toUInt32.toUInt64 <<< 32 = a := by
  refine UInt64.toBitVec_inj.mp (BitVec.eq_of_getLsbD_eq fun i hi => ?_)
  simp only [UInt64.toBitVec_or, UInt64.toBitVec_shiftLeft, UInt64.toBitVec_shiftRight,
    UInt64.toBitVec_toUInt32, UInt32.toBitVec_toUInt64, UInt64.toBitVec_toUInt16,
    UInt16.toBitVec_toUInt64]
  have h₁ : (16 : UInt64).toBitVec % 64 = 16#64 := rfl
  have h₂ : (32 : UInt64).toBitVec % 64 = 32#64 := rfl
  simp only [h₁, h₂, BitVec.getLsbD_or, BitVec.shiftLeft_eq', BitVec.ushiftRight_eq',
    BitVec.getLsbD_shiftLeft, BitVec.getLsbD_setWidth, BitVec.getLsbD_ushiftRight,
    BitVec.toNat_ofNat]
  rcases lt_or_ge i 16 with h₁₆ | h₁₆
  · have h₃₂ : i < 32 := by omega
    simp only [hi, h₁₆, h₃₂, Nat.reducePow, Nat.reduceMod, decide_true, Bool.true_and,
      Bool.not_true, Bool.false_and, Bool.or_false]
  · have hback : 16 + (i - 16) = i := by omega
    rcases lt_or_ge i 32 with h₃₂ | h₃₂
    · have hin : i - 16 < 16 := by omega
      have hword : i - 16 < 64 := by omega
      simp [hi, hback, hin, hword, h₃₂, Nat.not_lt.mpr h₁₆]
    · have hback' : 32 + (i - 32) = i := by omega
      have hout : ¬ i - 16 < 16 := by omega
      have hin : i - 32 < 32 := by omega
      have hword : i - 32 < 64 := by omega
      simp [hi, hback', hout, hin, hword, Nat.not_lt.mpr h₁₆, Nat.not_lt.mpr h₃₂]

variable {Handler : Type*} {int_table : UInt8 → UInt64} {switchTask : Handler} {s : State Handler}
  {calls : List (Call Handler)}

section Fields

variable (s : State Handler) (vector typeattr ist : UInt8) (isr : UInt64) (handler : Handler)

@[simp] lemma idt_idtSetDescriptor :
    (idtSetDescriptor s vector isr typeattr ist).idt =
      Function.update s.idt vector (descriptor isr typeattr ist) := rfl

@[simp] lemma idt_registerInterruptHandler :
    (registerInterruptHandler s vector handler).idt = s.idt := rfl

@[simp] lemma idt_allocVector : (allocVector s).2.idt = s.idt := rfl

end Fields

/-! ## The gates in a run -/

lemma idt_foldl_setDescriptor {n : ℕ} (hn : n ≤ 256) (v : UInt8) :
    ((List.range n).foldl
      (fun s i => idtSetDescriptor s (UInt8.ofNat i) (int_table (UInt8.ofNat i)) 0x8E 0) s).idt v =
      if v.toNat < n then descriptor (int_table v) 0x8E 0 else s.idt v := by
  induction n with
  | zero => rfl
  | succ n ih =>
    have hnum : (UInt8.ofNat n).toNat = n := by
      rw [UInt8.toNat_ofNat', Nat.mod_eq_of_lt (by omega)]
    rw [List.range_succ, List.foldl_append, List.foldl_cons, List.foldl_nil, idt_idtSetDescriptor]
    by_cases hv : v = UInt8.ofNat n
    · subst hv
      rw [Function.update_self, if_pos (by omega)]
    · have hne : v.toNat ≠ n := fun h => hv (UInt8.toNat_inj.mp (h.trans hnum.symm))
      rw [Function.update_of_ne hv, ih (by omega)]
      exact if_congr (by omega) rfl rfl

lemma idt_init (v : UInt8) :
    (init int_table (boot : State Handler)).idt v =
      descriptor (int_table v) (if v = SYSCALL then 0xEE else 0x8E) 0 := by
  have hall : v.toNat < 256 := v.toNat_lt
  rw [init, if_neg (by simp [boot])]
  change Function.update _ _ _ v = _
  by_cases hv : v = SYSCALL
  · subst hv
    rw [Function.update_self, if_pos rfl]
  · rw [Function.update_of_ne hv, idt_foldl_setDescriptor le_rfl, if_pos hall, if_neg hv]

/-- The loop of `idt::init` writes the table only. -/
lemma foldl_setDescriptor (n : ℕ) (s : State Handler) :
    (List.range n).foldl
      (fun s i => idtSetDescriptor s (UInt8.ofNat i) (int_table (UInt8.ofNat i)) 0x8E 0) s =
      { s with
        idt := ((List.range n).foldl
          (fun s i => idtSetDescriptor s (UInt8.ofNat i) (int_table (UInt8.ofNat i)) 0x8E 0)
            s).idt } := by
  induction n with
  | zero => rfl
  | succ n ih =>
    rw [List.range_succ, List.foldl_append, List.foldl_cons, List.foldl_nil, ih]
    rfl

lemma init_boot :
    init int_table (boot : State Handler) =
      { (boot : State Handler) with
        isInit := true
        idt := (init int_table (boot : State Handler)).idt } := by
  have hfirst : (boot : State Handler).isInit = false := rfl
  rw [init, hfirst, if_neg Bool.false_ne_true, foldl_setDescriptor]
  rfl

/-- The APIC was initialised in one of these calls. -/
def ApicReady (calls : List (Call Handler)) : Prop := ∃ SCI h, .apicInit true SCI h ∈ calls

/-- `scheduler::init` was called when the calls before it were such. -/
def SchedulerInit (p : List (Call Handler) → Prop) (calls : List (Call Handler)) : Prop :=
  ∃ before after, calls = before ++ .schedulerInit :: after ∧ p before

lemma apicReady_snoc {c : Call Handler} :
    ApicReady (calls ++ [c]) ↔ ApicReady calls ∨ ∃ SCI h, c = .apicInit true SCI h := by
  simp only [ApicReady, List.mem_append, List.mem_singleton, exists_or, eq_comm (a := c)]

lemma schedulerInit_snoc {p : List (Call Handler) → Prop} {c : Call Handler} :
    SchedulerInit p (calls ++ [c]) ↔ SchedulerInit p calls ∨ c = .schedulerInit ∧ p calls := by
  constructor
  · rintro ⟨before, after, hcalls, hp⟩
    obtain rfl | ⟨after, last, rfl⟩ := after.eq_nil_or_concat
    · obtain ⟨rfl, rfl⟩ := List.append_inj' hcalls rfl |>.imp id List.singleton_inj.mp
      exact .inr ⟨rfl, hp⟩
    · rw [List.concat_eq_append, ← List.cons_append, ← List.append_assoc] at hcalls
      exact .inl ⟨before, after, (List.append_inj' hcalls rfl).1, hp⟩
  · rintro (⟨before, after, rfl, hp⟩ | ⟨rfl, hp⟩)
    · exact ⟨before, after ++ [c], by simp, hp⟩
    · exact ⟨calls, [], rfl, hp⟩

/-- `scheduler::init` was called without an APIC. -/
def Early (calls : List (Call Handler)) : Prop := SchedulerInit (¬ ApicReady ·) calls

/-- `scheduler::init` was called when there was an APIC. -/
def Late (calls : List (Call Handler)) : Prop := SchedulerInit ApicReady calls

lemma Late.apicReady (h : Late calls) : ApicReady calls := by
  obtain ⟨before, after, rfl, SCI, handler, hmem⟩ := h
  exact ⟨SCI, handler, List.mem_append_left _ hmem⟩

lemma early_snoc {c : Call Handler} :
    Early (calls ++ [c]) ↔ Early calls ∨ c = .schedulerInit ∧ ¬ ApicReady calls :=
  schedulerInit_snoc

lemma late_snoc {c : Call Handler} :
    Late (calls ++ [c]) ↔ Late calls ∨ c = .schedulerInit ∧ ApicReady calls :=
  schedulerInit_snoc

open Classical in
/-- The descriptor of a vector after the calls. -/
noncomputable def expected (int_table : UInt8 → UInt64) (calls : List (Call Handler)) (v : UInt8) :
    IDTEntry :=
  descriptor (int_table (if v = 0 ∧ Early calls then IRQ0 else v))
    (if v = SYSCALL then 0xEE else 0x8E)
    (if v = 0 ∧ Early calls ∨ v = 49 ∧ Late calls then 1 else 0)

open Classical in
lemma expected_congr {calls' : List (Call Handler)} {v : UInt8}
    (hearly : v = 0 → (Early calls' ↔ Early calls)) (hlate : v = 49 → (Late calls' ↔ Late calls)) :
    expected int_table calls' v = expected int_table calls v :=
  have h₁ : v = 0 ∧ Early calls' ↔ v = 0 ∧ Early calls := and_congr_right hearly
  have h₂ : v = 49 ∧ Late calls' ↔ v = 49 ∧ Late calls := and_congr_right hlate
  congrArg₂ (fun a ist => descriptor (int_table a) (if v = SYSCALL then 0xEE else 0x8E) ist)
    (if_congr h₁ rfl rfl) (if_congr (or_congr h₁ h₂) rfl rfl)

/-- What the state is after the calls. -/
structure Ran (int_table : UInt8 → UInt64) (calls : List (Call Handler))
    (s : State Handler) : Prop where
  isInit : s.isInit = true
  apic : s.apic = true ↔ ApicReady calls
  waiting : ¬ Late calls → s.sched_vector = 0 ∧ s.next_free = 48
  started : Late calls → s.sched_vector = 49
  idt : ∀ v, s.idt v = expected int_table calls v

namespace Ran

lemma start : Ran int_table ([] : List (Call Handler)) (init int_table boot) where
  isInit := by rw [init_boot]
  apic := by
    rw [init_boot]
    simp [ApicReady, boot]
  waiting _ := by
    rw [init_boot]
    exact ⟨rfl, rfl⟩
  started h := by simp [Late, SchedulerInit] at h
  idt v := by
    have hearly : ¬ Early ([] : List (Call Handler)) := by simp [Early, SchedulerInit]
    have hlate : ¬ Late ([] : List (Call Handler)) := by simp [Late, SchedulerInit]
    simp only [idt_init, expected, hearly, hlate, and_false, or_self, if_false]

/-- The scheduler takes its vector once. -/
lemma taken (h : Ran int_table calls s) (hlate : Late calls) : s.sched_vector ≠ 0 := by
  rw [h.started hlate]
  decide

lemma allocates (h : Ran int_table calls s) (hlate : ¬ Late calls) :
    allocVector s = (49, { s with next_free := 49 }) := by
  rw [allocVector, (h.waiting hlate).2]
  rfl

/-- A call that neither finds an APIC nor starts the scheduler, and leaves the table alone. -/
lemma keep {s' : State Handler} {c : Call Handler} (h : Ran int_table calls s)
    (hready : ∀ SCI handler, c ≠ .apicInit true SCI handler) (hsched : c ≠ .schedulerInit)
    (hinit : s'.isInit = s.isInit) (hapic : s'.apic = s.apic)
    (hvector : s'.sched_vector = s.sched_vector)
    (hnext : s'.next_free = s.next_free) (hidt : s'.idt = s.idt) :
    Ran int_table (calls ++ [c]) s' := by
  have hearly : Early (calls ++ [c]) ↔ Early calls := by simp [early_snoc, hsched]
  have hlate : Late (calls ++ [c]) ↔ Late calls := by simp [late_snoc, hsched]
  refine ⟨hinit.trans h.isInit, ?_, ?_, ?_, fun v => ?_⟩
  · rw [hapic, h.apic, apicReady_snoc]
    exact (or_iff_left fun ⟨SCI, handler, hc⟩ => hready SCI handler hc).symm
  · rw [hlate, hvector, hnext]
    exact h.waiting
  · rw [hlate, hvector]
    exact h.started
  · rw [hidt, h.idt, expected_congr (fun _ => hearly) fun _ => hlate]

lemma apicInit (h : Ran int_table calls s) (madt : Bool) (SCI : UInt16) (SCIHandler : Handler) :
    Ran int_table (calls ++ [.apicInit madt SCI SCIHandler]) (apicInit s madt SCI SCIHandler) := by
  cases madt with
  | false =>
    have hsame : Idt.apicInit s false SCI SCIHandler = s := by simp [Idt.apicInit]
    rw [hsame]
    exact h.keep (by simp) (by simp) rfl rfl rfl rfl rfl
  | true =>
    have hearly : Early (calls ++ [.apicInit true SCI SCIHandler]) ↔ Early calls := by
      simp [early_snoc]
    have hlate : Late (calls ++ [.apicInit true SCI SCIHandler]) ↔ Late calls := by simp [late_snoc]
    have hready : ApicReady (calls ++ [.apicInit true SCI SCIHandler]) :=
      apicReady_snoc.mpr (.inr ⟨SCI, SCIHandler, rfl⟩)
    have hidt : ∀ v, s.idt v = expected int_table (calls ++ [.apicInit true SCI SCIHandler])
        v := fun v =>
      (h.idt v).trans (expected_congr (fun _ => hearly) fun _ => hlate).symm
    have hwaiting : ¬ Late (calls ++ [.apicInit true SCI SCIHandler]) → s.sched_vector = 0 ∧
        s.next_free = 48 :=
      fun hno => h.waiting (hlate.not.mp hno)
    have hstarted : Late (calls ++ [.apicInit true SCI SCIHandler]) → s.sched_vector = 49 :=
      fun hyes => h.started (hlate.mp hyes)
    rw [Idt.apicInit]
    split
    case isTrue hapic => exact ⟨h.isInit, iff_of_true hapic hready, hwaiting, hstarted, hidt⟩
    case isFalse => exact ⟨h.isInit, iff_of_true rfl hready, hwaiting, hstarted, hidt⟩

/-- The first call that finds an APIC takes a vector; without one, the number of the vector is still
0. -/
lemma schedulerInit (h : Ran int_table calls s) :
    Ran int_table (calls ++ [.schedulerInit]) (schedulerInit int_table switchTask s) := by
  have hready : ApicReady (calls ++ [.schedulerInit]) ↔ ApicReady calls := by simp [apicReady_snoc]
  have hearly : Early (calls ++ [.schedulerInit]) ↔ Early calls ∨ ¬ ApicReady calls := by
    simp [early_snoc]
  have hlate : Late (calls ++ [.schedulerInit]) ↔ ApicReady calls := by
    rw [late_snoc]
    exact ⟨fun h => h.elim Late.apicReady And.right, fun h => .inr ⟨rfl, h⟩⟩
  by_cases hapic : s.apic = true
  · have hcalls := h.apic.mp hapic
    have hsame : Early (calls ++ [.schedulerInit]) ↔ Early calls :=
      hearly.trans (or_iff_left (not_not_intro hcalls))
    by_cases hstarted : Late calls
    · rw [Idt.schedulerInit, if_pos hapic, if_neg (h.taken hstarted)]
      refine ⟨h.isInit, iff_of_true hapic (hready.mpr hcalls),
        fun hno => absurd (hlate.mpr hcalls) hno,
        fun _ => h.started hstarted, fun v =>
          (h.idt v).trans (expected_congr (fun _ => hsame) fun _ => ?_).symm⟩
      exact iff_of_true (hlate.mpr hcalls) hstarted
    · rw [Idt.schedulerInit, if_pos hapic, if_pos (h.waiting hstarted).1, h.allocates hstarted]
      refine ⟨h.isInit, iff_of_true hapic (hready.mpr hcalls),
        fun hno => absurd (hlate.mpr hcalls) hno,
        fun _ => rfl, fun v => ?_⟩
      change Function.update s.idt 49 (descriptor (int_table 49) 0x8E 1) v = _
      by_cases hv : v = 49
      · subst hv
        rw [Function.update_self]
        simp [expected, hlate.mpr hcalls, SYSCALL]
      · rw [Function.update_of_ne hv, h.idt, expected_congr (fun _ => hsame) fun h => absurd h hv]
  · have hcalls : ¬ ApicReady calls := fun hready => hapic (h.apic.mpr hready)
    obtain ⟨hvector, hnext⟩ := h.waiting fun hlate => hcalls hlate.apicReady
    rw [Idt.schedulerInit, if_neg hapic]
    refine ⟨h.isInit, iff_of_false hapic (hready.not.mpr hcalls), fun _ => ⟨hvector, hnext⟩,
      fun hlate' => absurd (hlate.mp hlate') hcalls, fun v => ?_⟩
    change Function.update s.idt s.sched_vector (descriptor (int_table IRQ0) 0x8E 1) v = _
    rw [hvector]
    by_cases hv : v = 0
    · subst hv
      rw [Function.update_self]
      simp [expected, hearly.mpr (.inr hcalls), SYSCALL]
    · rw [Function.update_of_ne hv, h.idt, expected_congr (fun h => absurd h hv) fun _ => ?_]
      exact iff_of_false (fun hlate => hcalls hlate.apicReady) (hlate.not.mpr hcalls)

lemma step (h : Ran int_table calls s) (c : Call Handler) :
    Ran int_table (calls ++ [c]) (step int_table switchTask s c) := by
  cases c with
  | init =>
    have hsame : init int_table s = s := if_pos h.isInit
    rw [Idt.step, hsame]
    exact h.keep (by simp) (by simp) rfl rfl rfl rfl rfl
  | registerInterruptHandler vector handler => exact h.keep (by simp) (by simp) rfl rfl rfl rfl rfl
  | apicInit madt SCI SCIHandler => exact h.apicInit madt SCI SCIHandler
  | schedulerInit => exact h.schedulerInit

lemma run (calls : List (Call Handler)) : Ran int_table calls (run int_table switchTask calls) := by
  induction calls using List.reverseRecOn with
  | nil => exact start
  | append_singleton calls c ih =>
    rw [Idt.run, List.foldl_append]
    exact ih.step c

end Ran

open Classical in
/-- **The gates after any run.**  The gate of every vector leads to its own stub with interrupts
off, and user programs may call that of `SYSCALL` only; but where `scheduler::init` was called
before there was an APIC, a division by zero leads to the stub of the timer. -/
theorem gates_of_run (int_table : UInt8 → UInt64) (switchTask : Handler)
    (calls : List (Call Handler)) (v : UInt8) : ((run int_table switchTask calls).idt v).gate =
      { address := int_table (if v = 0 ∧ Early calls then IRQ0 else v)
        selector := 0x28
        stack := if v = 0 ∧ Early calls ∨ v = 49 ∧ Late calls then 1 else 0
        interruptsOff := true
        level := if v = SYSCALL then 3 else 0
        present := true } := by
  have hran : Ran int_table calls (run int_table switchTask calls) := .run calls
  rw [hran.idt v, expected]
  generalize int_table (if v = 0 ∧ Early calls then IRQ0 else v) = address
  rw [IDTEntry.gate, descriptor]
  simp only [joined_address]
  split <;> split <;> rfl

/-! ## The handlers that are called -/

open Classical in
/-- What a call registers when the calls `before` were made before it. -/
noncomputable def registers (switchTask : Handler) (before : List (Call Handler)) :
    Call Handler → Option (UInt8 × Handler)
  | .init => none
  | .registerInterruptHandler vector handler => some (vector, handler)
  | .apicInit madt SCI SCIHandler =>
    if madt ∧ ¬ ApicReady before then some ((SCI + 32).toUInt8, SCIHandler) else none
  | .schedulerInit => if ApicReady before ∧ ¬ Late before then some (49, switchTask) else none

/-- All that the calls register, in order. -/
noncomputable def registrations (switchTask : Handler)
    (calls : List (Call Handler)) : List (UInt8 × Handler) :=
  (List.range calls.length).filterMap fun i => calls[i]?.bind (registers switchTask (calls.take i))

/-- The handler that was registered last for a vector. -/
noncomputable def lastRegistered (switchTask : Handler) (calls : List (Call Handler)) (v : UInt8) :
    Option Handler :=
  LastWrite.last (fun r => if r.1 = v then some r.2 else none) (registrations switchTask calls)

lemma registrations_snoc (calls : List (Call Handler)) (c : Call Handler) :
    registrations switchTask (calls ++ [c]) =
      registrations switchTask calls ++ (registers switchTask calls c).toList := by
  have hold : ∀ i ∈ List.range calls.length,
      (calls ++ [c])[i]?.bind (registers switchTask ((calls ++ [c]).take i)) =
        calls[i]?.bind (registers switchTask (calls.take i)) := fun i hi => by
    have hlt : i < calls.length := List.mem_range.mp hi
    rw [List.getElem?_append_left hlt, List.take_append_of_le_length hlt.le]
  have hnew : (calls ++ [c])[calls.length]?.bind
    (registers switchTask ((calls ++ [c]).take calls.length)) = registers switchTask calls c := by
    rw [List.getElem?_concat_length, List.take_left]
    rfl
  rw [registrations, List.length_append, List.length_singleton, List.range_succ,
    List.filterMap_append, List.filterMap_congr hold, registrations]
  congr 1
  rw [List.filterMap_cons, hnew, List.filterMap_nil]
  cases registers switchTask calls c <;> rfl

lemma lastRegistered_snoc (calls : List (Call Handler)) (c : Call Handler) (v : UInt8) :
    lastRegistered switchTask (calls ++ [c]) v =
      match registers switchTask calls c with
      | some r => if r.1 = v then some r.2 else lastRegistered switchTask calls v
      | none => lastRegistered switchTask calls v := by
  rw [lastRegistered, lastRegistered, LastWrite.last, LastWrite.last, registrations_snoc,
    List.filterMap_append]
  cases registers switchTask calls c with
  | none => simp
  | some r => by_cases h : r.1 = v <;> simp [h]

lemma update_handler (handlers : UInt8 → Option Handler) (vector v : UInt8) (handler : Handler) :
    Function.update handlers vector (some handler) v = if vector = v then some handler
      else handlers v := by
  rw [Function.update_apply]
  exact if_congr eq_comm rfl rfl

/-- A call writes the handler that it registers. -/
lemma Ran.handlers_step (h : Ran int_table calls s) (c : Call Handler) (v : UInt8) :
    (Idt.step int_table switchTask s c).interrupt_handlers v =
      match registers switchTask calls c with
      | some r => if r.1 = v then some r.2 else s.interrupt_handlers v
      | none => s.interrupt_handlers v := by
  cases c with
  | init =>
    have hsame : init int_table s = s := if_pos h.isInit
    rw [Idt.step, hsame]
    rfl
  | registerInterruptHandler vector handler => exact update_handler _ vector v handler
  | apicInit madt SCI SCIHandler =>
    rw [Idt.step, Idt.apicInit, registers]
    by_cases hapic : s.apic = true
    · have hcalls := h.apic.mp hapic
      rw [if_pos hapic, if_neg fun hno => hno.2 hcalls]
    · have hcalls : ¬ ApicReady calls := fun hready => hapic (h.apic.mpr hready)
      rw [if_neg hapic]
      cases madt with
      | false => rw [if_neg Bool.false_ne_true, if_neg fun hno => Bool.false_ne_true hno.1]
      | true =>
        rw [if_pos rfl, if_pos ⟨rfl, hcalls⟩]
        exact update_handler _ _ v SCIHandler
  | schedulerInit =>
    rw [Idt.step, Idt.schedulerInit, registers]
    by_cases hapic : s.apic = true
    · have hcalls := h.apic.mp hapic
      by_cases hlate : Late calls
      · rw [if_pos hapic, if_neg (h.taken hlate), if_neg fun hno => hno.2 hlate]
      · rw [if_pos hapic, if_pos (h.waiting hlate).1, h.allocates hlate, if_pos ⟨hcalls, hlate⟩]
        exact update_handler _ 49 v switchTask
    · have hcalls : ¬ ApicReady calls := fun hready => hapic (h.apic.mpr hready)
      rw [if_neg hapic, if_neg fun hno => hcalls hno.1]
      rfl

lemma handlers_run (int_table : UInt8 → UInt64) (switchTask : Handler) (calls : List (Call Handler))
    (v : UInt8) :
    (run int_table switchTask calls).interrupt_handlers v = lastRegistered switchTask calls v := by
  induction calls using List.reverseRecOn with
  | nil =>
    change (init int_table boot).interrupt_handlers v = none
    rw [init_boot]
    rfl
  | append_singleton calls c ih =>
    have hran : Ran int_table calls (run int_table switchTask calls) := .run calls
    have hrun : run int_table switchTask (calls ++ [c]) =
        Idt.step int_table switchTask (run int_table switchTask calls) c := by
      rw [run, List.foldl_append]
      rfl
    rw [hrun, hran.handlers_step, lastRegistered_snoc, ih]

open Classical in
/-- **The handlers that are called after any run.**  An interrupt of a device calls the handler that
was registered last for its vector, if there is one, and then ends the interrupt: at the local APIC
if there is one, and else at the PIC. -/
theorem interrupt_calls_last (int_table : UInt8 → UInt64) (switchTask : Handler)
    (calls : List (Call Handler)) (v : UInt8) :
    int_handler (run int_table switchTask calls) v.toUInt64 =
      if v < 32 then [.exception]
      else ((lastRegistered switchTask calls v).map .call).toList ++
        if ApicReady calls then [.lapicEndOfInterrupt]
        else picEndOfInterrupt Handler v.toUInt64 := by
  have hran : Ran int_table calls (run int_table switchTask calls) := .run calls
  have hlow : v.toUInt64 < 32 ↔ v < 32 := by
    rw [UInt64.lt_iff_toNat_lt, UInt8.lt_iff_toNat_lt, UInt8.toNat_toUInt64]
    rfl
  have hhigh : v.toUInt64 < 256 := by
    rw [UInt64.lt_iff_toNat_lt, UInt8.toNat_toUInt64]
    exact v.toNat_lt
  have hvector : v.toUInt64.toUInt8 = v := UInt8.toUInt8_toUInt64 v
  rw [int_handler, if_pos hhigh, irq_handler, hvector, handlers_run]
  exact if_congr hlow rfl (congrArg _ (if_congr hran.apic rfl rfl))

/-! ## The vectors that are allocated -/

/-- The state after `n` calls of `allocVector`. -/
def allocates (Handler : Type*) (n : ℕ) : State Handler := (fun s => (allocVector s).2)^[n] boot

/-- What call number `n` of `allocVector` returns. -/
def vector (Handler : Type*) (n : ℕ) : UInt8 := (allocVector (allocates Handler n)).1

lemma toNat_allocVector (s : State Handler) :
    (allocVector s).2.next_free.toNat =
      if s.next_free.toNat = 104 then 106 else (s.next_free.toNat + 1) % 256 := by
  have hnext : (s.next_free + 1).toNat = (s.next_free.toNat + 1) % 256 := UInt8.toNat_add _ _
  by_cases h : s.next_free.toNat = 104
  · have hsyscall : s.next_free + 1 = SYSCALL := UInt8.toNat_inj.mp (by rw [hnext, h]; rfl)
    rw [if_pos h, allocVector, hsyscall]
    rfl
  · have hsyscall : s.next_free + 1 ≠ SYSCALL := fun heq => by
      rw [heq] at hnext
      change 105 = _ at hnext
      have hlt := s.next_free.toNat_lt
      omega
    rw [if_neg h, allocVector, if_neg hsyscall, hnext]

lemma next_free_allocates (Handler : Type*) (n : ℕ) :
    (allocates Handler n).next_free.toNat = (if n % 255 < 57 then 48 + n % 255
      else 49 + n % 255) % 256 := by
  induction n with
  | zero => rfl
  | succ n ih =>
    rw [allocates, Function.iterate_succ_apply']
    change (allocVector (allocates Handler n)).2.next_free.toNat = _
    rw [toNat_allocVector, ih]
    split_ifs <;> omega

lemma toNat_vector (Handler : Type*) (n : ℕ) :
    (vector Handler n).toNat = (if (n + 1) % 255 < 57 then 48 + (n + 1) % 255
      else 49 + (n + 1) % 255) % 256 := by
  have hnext := next_free_allocates Handler (n + 1)
  rw [allocates, Function.iterate_succ_apply'] at hnext
  exact hnext

/-- `allocVector` never returns the vector of the system calls.  It returns a vector again after 255
calls, and the last 49 of these are for the vectors of exceptions and devices, and for 48. -/
theorem allocVector_returns (Handler : Type*) (n m : ℕ) :
    vector Handler n ≠ SYSCALL ∧ (vector Handler n = vector Handler m ↔ n % 255 = m % 255) ∧
      ((vector Handler n).toNat < 49 ↔ 206 ≤ n % 255) := by
  refine ⟨fun h => ?_, ?_, ?_⟩
  · have hn := toNat_vector Handler n
    rw [h] at hn
    change 105 = _ at hn
    split at hn <;> omega
  · rw [← UInt8.toNat_inj, toNat_vector, toNat_vector]
    split <;> split <;> omega
  · rw [toNat_vector]
    split <;> omega

end TurbOS.Idt
