import Mathlib

/-!
# The timer of the local APIC

`lapicOneShot` and `lapicPeriodic` measure once how many ticks the timer makes in a millisecond, and
program the timer of the processor that calls them: its vector, its mode, and the number of ticks,
of which the register keeps 32 bits.  The measured number is shared by all processors, the registers
are not.

A call holds a lock from its first access to its last, so calls are carried out one after the other.
-/

namespace TurbOS.Apic.Timer

def INTERRUPT_COMMAND_REGISTER : UInt32 := 0x310

def LVT_TIMER_REGISTER : UInt32 := 0x320

def INITIAL_COUNT_REGISTER : UInt32 := 0x380

def DIVIDE_CONF_REGISTER : UInt32 := 0x3E0

/-- Where a register is: a register of the processor, or a word in memory. -/
inductive Place where
  | msr (reg : UInt32)
  | memory (address : UInt64)
deriving DecidableEq

/-- The variables of the file, and the registers of every processor's local APIC. -/
structure State where
  x2apic : Bool
  lapicAddress : UInt64
  tickCountInMS : UInt64
  regs : ℕ → Place → UInt32

section Code

variable (s : State) (cpu : ℕ)

def reg2x2apic (reg : UInt32) : UInt32 :=
  (if reg = INTERRUPT_COMMAND_REGISTER then (0x30 : UInt32) else reg >>> 4) + 0x800

def State.place (reg : UInt32) : Place :=
  if s.x2apic then .msr (reg2x2apic reg) else .memory (s.lapicAddress + reg.toUInt64)

def lapicRead (reg : UInt32) : UInt32 := s.regs cpu (s.place reg)

def lapicWrite (reg value : UInt32) : State :=
  { s with regs := Function.update s.regs cpu (Function.update (s.regs cpu) (s.place reg) value) }

def lapicTimerMask (isMasked : Bool) : State :=
  if isMasked then lapicWrite s cpu LVT_TIMER_REGISTER
    (lapicRead s cpu LVT_TIMER_REGISTER ||| (1 : UInt32) <<< 0x10)
  else lapicWrite s cpu LVT_TIMER_REGISTER (lapicRead s cpu LVT_TIMER_REGISTER &&&
    ~~~((1 : UInt32) <<< 0x10))

/-- `count` is what the device has in `CURRENT_COUNT_REGISTER` after a millisecond. -/
def lapicTimerInit (count : UInt32) : State :=
  if s.tickCountInMS = 0 then
    let s := lapicWrite s cpu DIVIDE_CONF_REGISTER 0x03
    let s := lapicWrite s cpu INITIAL_COUNT_REGISTER 0xFFFFFFFF
    let s := lapicTimerMask s cpu false
    let s := lapicTimerMask s cpu true
    { s with tickCountInMS := (0xFFFFFFFF - count).toUInt64 }
  else s

/-- The body of `lapicOneShot` and of `lapicPeriodic`, which differ in the mode. -/
def lapicTimer (mode : UInt32) (vector : UInt8) (mSeconds : UInt64) (count : UInt32) : State :=
  let s := lapicTimerInit s cpu count
  let s := lapicTimerMask s cpu true
  let s := lapicWrite s cpu DIVIDE_CONF_REGISTER 0x03
  let s := lapicWrite s cpu LVT_TIMER_REGISTER
    ((lapicRead s cpu LVT_TIMER_REGISTER &&& ~~~((0x03 : UInt32) <<< 17) ||| mode <<< 17) &&&
      0xFFFFFF00 ||| vector.toUInt32)
  let s := lapicWrite s cpu INITIAL_COUNT_REGISTER (s.tickCountInMS * mSeconds).toUInt32
  lapicTimerMask s cpu false

def lapicOneShot : UInt8 → UInt64 → UInt32 → State := lapicTimer s cpu 0x00

def lapicPeriodic : UInt8 → UInt64 → UInt32 → State := lapicTimer s cpu 0x01

end Code

/-- A call on a processor, with what the device counts in a millisecond. -/
structure Call where
  cpu : ℕ
  periodic : Bool
  vector : UInt8
  mSeconds : UInt64
  count : UInt32

def step (s : State) (call : Call) : State :=
  if call.periodic then lapicPeriodic s call.cpu call.vector call.mSeconds call.count
  else lapicOneShot s call.cpu call.vector call.mSeconds call.count

def run (s : State) (calls : List Call) : State := calls.foldl step s

/-! ## Registers -/

variable {s s' : State} {cpu : ℕ} {reg value : UInt32}

/-- Two registers that are never at one place. -/
def Apart (reg reg' : UInt32) : Prop :=
  reg2x2apic reg ≠ reg2x2apic reg' ∧ reg.toUInt64 ≠ reg'.toUInt64

instance (reg reg' : UInt32) : Decidable (Apart reg reg') := inferInstanceAs (Decidable (_ ∧ _))

lemma Apart.place {reg' : UInt32} (h : Apart reg reg') (s : State) :
    s.place reg ≠ s.place reg' := by
  rw [State.place, State.place]
  split
  · exact fun heq => h.1 (Place.msr.inj heq)
  · exact fun heq => h.2 ((UInt64.add_right_inj _).mp (Place.memory.inj heq))

@[simp] lemma place_lapicWrite (s : State) (cpu : ℕ) (reg value reg' : UInt32) :
    (lapicWrite s cpu reg value).place reg' = s.place reg' := rfl

@[simp] lemma tickCountInMS_lapicWrite (s : State) (cpu : ℕ) (reg value : UInt32) :
    (lapicWrite s cpu reg value).tickCountInMS = s.tickCountInMS := rfl

@[simp] lemma lapicRead_lapicWrite (s : State) (cpu : ℕ) (reg value : UInt32) :
    lapicRead (lapicWrite s cpu reg value) cpu reg = value := by
  rw [lapicRead, place_lapicWrite]
  simp [lapicWrite]

lemma lapicRead_of_apart {reg' : UInt32} (h : Apart reg' reg) :
    lapicRead (lapicWrite s cpu reg value) cpu reg' = lapicRead s cpu reg' := by
  rw [lapicRead, place_lapicWrite, lapicRead]
  simp [lapicWrite, h.place s]

/-- What a call may change: the registers of one processor, and the measured number. -/
structure OnlyOn (cpu : ℕ) (s s' : State) : Prop where
  x2apic : s'.x2apic = s.x2apic
  lapicAddress : s'.lapicAddress = s.lapicAddress
  regs : ∀ c, c ≠ cpu → s'.regs c = s.regs c

namespace OnlyOn

lemma refl (s : State) : OnlyOn cpu s s := ⟨rfl, rfl, fun _ _ => rfl⟩

lemma trans {s'' : State} (h : OnlyOn cpu s s') (h' : OnlyOn cpu s' s'') : OnlyOn cpu s s'' where
  x2apic := h'.x2apic.trans h.x2apic
  lapicAddress := h'.lapicAddress.trans h.lapicAddress
  regs c hc := (h'.regs c hc).trans (h.regs c hc)

lemma lapicWrite (s : State) (reg value : UInt32) : OnlyOn cpu s (lapicWrite s cpu reg value) :=
  ⟨rfl, rfl, fun _ hc => Function.update_of_ne hc _ _⟩

lemma lapicTimerMask (s : State) (isMasked : Bool) :
    OnlyOn cpu s (lapicTimerMask s cpu isMasked) := by
  cases isMasked
  all_goals exact .lapicWrite s _ _

lemma measured (h : OnlyOn cpu s s') (ticks : UInt64) :
    OnlyOn cpu s { s' with tickCountInMS := ticks } :=
  ⟨h.x2apic, h.lapicAddress, h.regs⟩

lemma lapicTimerInit (s : State) (count : UInt32) : OnlyOn cpu s (lapicTimerInit s cpu count) := by
  rw [Timer.lapicTimerInit]
  split
  · refine measured ?_ _
    refine trans ?_ (.lapicTimerMask _ true)
    refine trans ?_ (.lapicTimerMask _ false)
    refine trans ?_ (.lapicWrite _ INITIAL_COUNT_REGISTER _)
    exact .lapicWrite s DIVIDE_CONF_REGISTER _
  · exact .refl s

lemma lapicTimer (s : State) (mode : UInt32) (vector : UInt8) (mSeconds : UInt64) (count : UInt32) :
    OnlyOn cpu s (lapicTimer s cpu mode vector mSeconds count) := by
  rw [Timer.lapicTimer]
  refine trans ?_ (.lapicTimerMask _ false)
  refine trans ?_ (.lapicWrite _ INITIAL_COUNT_REGISTER _)
  refine trans ?_ (.lapicWrite _ LVT_TIMER_REGISTER _)
  refine trans ?_ (.lapicWrite _ DIVIDE_CONF_REGISTER _)
  exact (lapicTimerInit s count).trans (.lapicTimerMask _ true)

lemma lapicRead (h : OnlyOn cpu s s') {c : ℕ} (hc : c ≠ cpu) (reg : UInt32) :
    lapicRead s' c reg = lapicRead s c reg := by
  rw [Timer.lapicRead, Timer.lapicRead, State.place, State.place, h.x2apic, h.lapicAddress,
    h.regs c hc]

end OnlyOn

/-! ## What a call programs -/

lemma tickCountInMS_lapicTimerMask (s : State) (cpu : ℕ) (isMasked : Bool) :
    (lapicTimerMask s cpu isMasked).tickCountInMS = s.tickCountInMS := by
  cases isMasked <;> rfl

lemma lapicRead_lapicTimerMask (h : Apart reg LVT_TIMER_REGISTER) (isMasked : Bool) :
    lapicRead (lapicTimerMask s cpu isMasked) cpu reg = lapicRead s cpu reg := by
  cases isMasked
  all_goals exact lapicRead_of_apart h

lemma mask_lapicTimerMask :
    lapicRead (lapicTimerMask s cpu true) cpu LVT_TIMER_REGISTER =
      lapicRead s cpu LVT_TIMER_REGISTER ||| (1 : UInt32) <<< 0x10 := by
  rw [lapicTimerMask, if_pos rfl, lapicRead_lapicWrite]

lemma unmask_lapicTimerMask :
    lapicRead (lapicTimerMask s cpu false) cpu LVT_TIMER_REGISTER =
      lapicRead s cpu LVT_TIMER_REGISTER &&& ~~~((1 : UInt32) <<< 0x10) := by
  rw [lapicTimerMask, if_neg Bool.false_ne_true, lapicRead_lapicWrite]

/-- The bits that belong to the vector, the mask and the mode are programmed; the others are
kept. -/
def programmed (lvt mode : UInt32) (vector : UInt8) : UInt32 :=
  lvt &&& (0xFFF8FF00 : UInt32) ||| mode <<< 17 ||| vector.toUInt32

/-- Bit by bit; the bit for the mask is set before and cleared again. -/
lemma programmed_eq (lvt : UInt32) (vector : UInt8) {mode : UInt32} (hmode : mode = 0 ∨ mode = 1) :
    (((lvt ||| (1 : UInt32) <<< 0x10) &&& ~~~((0x03 : UInt32) <<< 17) ||| mode <<< 17) &&&
      (0xFFFFFF00 : UInt32) ||| vector.toUInt32) &&& ~~~((1 : UInt32) <<< 0x10) =
        programmed lvt mode vector := by
  rw [programmed]
  refine UInt32.toBitVec_inj.mp (BitVec.eq_of_getLsbD_eq fun i hi => ?_)
  rcases hmode with rfl | rfl
  · interval_cases i <;> simp
  · interval_cases i <;> simp

lemma programmed_programmed (lvt : UInt32) (vector vector' : UInt8) {mode : UInt32} (mode' : UInt32)
    (hmode : mode = 0 ∨ mode = 1) :
    programmed (programmed lvt mode vector) mode' vector' = programmed lvt mode' vector' := by
  have hkept : (lvt &&& (0xFFF8FF00 : UInt32) ||| mode <<< 17 ||| vector.toUInt32) &&&
    (0xFFF8FF00 : UInt32) = lvt &&& (0xFFF8FF00 : UInt32) := by
    refine UInt32.toBitVec_inj.mp (BitVec.eq_of_getLsbD_eq fun i hi => ?_)
    rcases hmode with rfl | rfl
    · interval_cases i <;> simp
    · interval_cases i <;> simp
  rw [programmed, programmed, hkept, programmed]

/-- The number of ticks after a call that could measure it. -/
def ticksAfter (ticks : UInt64) (count : UInt32) : UInt64 :=
  if ticks = 0 then (0xFFFFFFFF - count).toUInt64 else ticks

lemma tickCountInMS_lapicTimerInit (s : State) (cpu : ℕ) (count : UInt32) :
    (lapicTimerInit s cpu count).tickCountInMS = ticksAfter s.tickCountInMS count := by
  rw [lapicTimerInit, ticksAfter]
  split <;> rfl

/-- The timer is masked before it is programmed, whether or not it was used to measure. -/
lemma mask_lapicTimerInit (count : UInt32) :
    lapicRead (lapicTimerMask (lapicTimerInit s cpu count) cpu true) cpu LVT_TIMER_REGISTER =
      lapicRead s cpu LVT_TIMER_REGISTER ||| (1 : UInt32) <<< 0x10 := by
  rw [mask_lapicTimerMask, lapicTimerInit]
  split
  · have hmeasured : ∀ (t : State) (ticks : UInt64), lapicRead { t with tickCountInMS := ticks } cpu
        LVT_TIMER_REGISTER = lapicRead t cpu LVT_TIMER_REGISTER := fun _ _ => rfl
    rw [hmeasured, mask_lapicTimerMask, unmask_lapicTimerMask, lapicRead_of_apart (by decide),
      lapicRead_of_apart (by decide)]
    refine UInt32.toBitVec_inj.mp (BitVec.eq_of_getLsbD_eq fun i hi => ?_)
    interval_cases i <;> simp
  · rfl

/-- The mode of the timer. -/
def Call.mode (call : Call) : UInt32 := if call.periodic then 0x01 else 0x00

lemma Call.mode_cases (call : Call) : call.mode = 0 ∨ call.mode = 1 := by
  rw [mode]
  split
  · exact .inr rfl
  · exact .inl rfl

lemma step_eq (s : State) (call : Call) :
    step s call = lapicTimer s call.cpu call.mode call.vector call.mSeconds call.count := by
  rw [step, Call.mode]
  split <;> rfl

/-- What the registers are behind a call. -/
structure Programmed (s : State) (call : Call) (s' : State) : Prop where
  only : OnlyOn call.cpu s s'
  ticks : s'.tickCountInMS = ticksAfter s.tickCountInMS call.count
  lvt : lapicRead s' call.cpu LVT_TIMER_REGISTER =
    programmed (lapicRead s call.cpu LVT_TIMER_REGISTER) call.mode call.vector
  divide : lapicRead s' call.cpu DIVIDE_CONF_REGISTER = 0x03
  initial : lapicRead s' call.cpu INITIAL_COUNT_REGISTER =
    (s'.tickCountInMS * call.mSeconds).toUInt32

lemma step_programmed (s : State) (call : Call) : Programmed s call (step s call) := by
  rw [step_eq]
  have hticks : (lapicTimer s call.cpu call.mode call.vector call.mSeconds
    call.count).tickCountInMS = ticksAfter s.tickCountInMS call.count := by
    rw [lapicTimer, tickCountInMS_lapicTimerMask, tickCountInMS_lapicWrite,
      tickCountInMS_lapicWrite, tickCountInMS_lapicWrite, tickCountInMS_lapicTimerMask,
      tickCountInMS_lapicTimerInit]
  refine ⟨.lapicTimer s _ _ _ _, hticks, ?_, ?_, ?_⟩
  · rw [lapicTimer, unmask_lapicTimerMask, lapicRead_of_apart (by decide), lapicRead_lapicWrite,
      lapicRead_of_apart (by decide), mask_lapicTimerInit, programmed_eq _ _ call.mode_cases]
  · rw [lapicTimer, lapicRead_lapicTimerMask (by decide), lapicRead_of_apart (by decide),
      lapicRead_of_apart (by decide), lapicRead_lapicWrite]
  · rw [hticks, lapicTimer, lapicRead_lapicTimerMask (by decide), lapicRead_lapicWrite,
      tickCountInMS_lapicWrite, tickCountInMS_lapicWrite, tickCountInMS_lapicTimerMask,
      tickCountInMS_lapicTimerInit]

/-! ## Runs -/

/-- The first number that is not zero, of the one that is known and of those that are measured. -/
def measuredTicks (ticks : UInt64) (calls : List Call) : UInt64 :=
  ((ticks :: calls.map fun call => (0xFFFFFFFF - call.count).toUInt64).find? (· ≠ 0)).getD 0

lemma measuredTicks_cons (ticks : UInt64) (call : Call) (calls : List Call) :
    measuredTicks ticks (call :: calls) = measuredTicks (ticksAfter ticks call.count) calls := by
  by_cases h : ticks = 0
  · simp [measuredTicks, ticksAfter, h]
  · simp [measuredTicks, ticksAfter, h]

lemma tickCountInMS_run (s : State) (calls : List Call) :
    (run s calls).tickCountInMS = measuredTicks s.tickCountInMS calls := by
  induction calls generalizing s with
  | nil =>
    by_cases h : s.tickCountInMS = 0
    · simp [run, measuredTicks, h]
    · simp [run, measuredTicks, h]
  | cons call calls ih =>
    change (run (step s call) calls).tickCountInMS = _
    rw [ih, (step_programmed s call).ticks, measuredTicks_cons]

lemma lapicRead_run_others {calls : List Call} {c : ℕ} (h : ∀ call ∈ calls, call.cpu ≠ c)
    (s : State) (reg : UInt32) : lapicRead (run s calls) c reg = lapicRead s c reg := by
  induction calls generalizing s with
  | nil => rfl
  | cons call calls ih =>
    have hc : c ≠ call.cpu := (h call (List.mem_cons_self ..)).symm
    change lapicRead (run (step s call) calls) c reg = _
    rw [ih (fun d hd => h d (List.mem_cons_of_mem _ hd)),
      (step_programmed s call).only.lapicRead hc]

/-- The bits that are not programmed are the ones from the beginning. -/
lemma programmed_run (s : State) (calls : List Call) (c : ℕ) (mode : UInt32) (vector : UInt8) :
    programmed (lapicRead (run s calls) c LVT_TIMER_REGISTER) mode vector =
      programmed (lapicRead s c LVT_TIMER_REGISTER) mode vector := by
  induction calls generalizing s with
  | nil => rfl
  | cons call calls ih =>
    change programmed (lapicRead (run (step s call) calls) c LVT_TIMER_REGISTER) mode vector = _
    have hstep := step_programmed s call
    rw [ih]
    by_cases hc : c = call.cpu
    · rw [hc, hstep.lvt, programmed_programmed _ _ _ _ call.mode_cases]
    · rw [hstep.only.lapicRead hc]

/-- **The timer of a processor after any run.**  It is programmed as the last call on the processor
says, and its other bits are those from the beginning.  It counts the ticks that were measured
first, times the milliseconds of the call, as far as 32 bits hold that number. -/
theorem timer_of_run (s : State) (before after : List Call) (call : Call)
    (hlast : ∀ d ∈ after, d.cpu ≠ call.cpu) :
    lapicRead (run s (before ++ call :: after)) call.cpu LVT_TIMER_REGISTER =
        programmed (lapicRead s call.cpu LVT_TIMER_REGISTER) call.mode call.vector ∧
      lapicRead (run s (before ++ call :: after)) call.cpu DIVIDE_CONF_REGISTER = 0x03 ∧
      (lapicRead (run s (before ++ call :: after)) call.cpu INITIAL_COUNT_REGISTER).toNat =
        (measuredTicks s.tickCountInMS (before ++ [call])).toNat *
          call.mSeconds.toNat % 2 ^ 32 := by
  have hrun : run s (before ++ call :: after) = run (step (run s before) call) after := by
    rw [run, List.foldl_append]
    rfl
  have hbefore : step (run s before) call = run s (before ++ [call]) := by
    rw [run, run, List.foldl_append]
    rfl
  have hstep := step_programmed (run s before) call
  rw [hrun, lapicRead_run_others hlast, lapicRead_run_others hlast, lapicRead_run_others hlast]
  refine ⟨?_, hstep.divide, ?_⟩
  · rw [hstep.lvt, programmed_run]
  · rw [hstep.initial, hbefore, tickCountInMS_run, UInt64.toNat_toUInt32, UInt64.toNat_mul,
      Nat.mod_mod_of_dvd _ (by decide)]

/-- The timer is set to a millisecond, and then to 300 of them, where a millisecond has 2 ^ 24
ticks. -/
theorem timer_of_run_long :
    (lapicRead (run ⟨true, 0, 0, fun _ _ => 0x10000⟩
      [⟨0, true, 49, 1, 0xFEFFFFFF⟩, ⟨0, false, 49, 300, 0⟩, ⟨1, true, 49, 1, 0⟩]) 0
        INITIAL_COUNT_REGISTER).toNat = 44 * 2 ^ 24 := by
  obtain ⟨-, -, hinitial⟩ := timer_of_run ⟨true, 0, 0, fun _ _ => 0x10000⟩
    [⟨0, true, 49, 1, 0xFEFFFFFF⟩] [⟨1, true, 49, 1, 0⟩] ⟨0, false, 49, 300, 0⟩ (by simp)
  exact hinitial.trans (by decide)

end TurbOS.Apic.Timer
