import TurbOS.Lib.ByteMemory

/-!
# A part of the x86-64 processor

The instructions that hand-written parts of a kernel consist of: moves, a few sums, comparisons and
jumps, the string instructions with their prefixes, the stack, and the way into an interrupt handler
and out of it.  Every instruction has an address of its own, and the next one stands at the next
address; how many bytes it takes does not matter here.

A repeated string instruction makes one round in one step, so an interrupt may come between two
rounds, as it does on the processor.
-/

open ByteMemory

namespace X86

/-! ## The state -/

/-- The general registers. -/
inductive Reg where
  | rax | rbx | rcx | rdx | rsi | rdi | rbp | rsp | r8 | r9 | r10 | r11 | r12 | r13 | r14 | r15
deriving DecidableEq, Repr

/-- The state of a processor, with the memory. -/
@[ext]
structure State where
  reg : Reg → UInt64
  rip : UInt64
  rflags : UInt64
  cs : UInt64
  ss : UInt64
  mem : Mem

/-- A bit of a word. -/
def bit (k : ℕ) (w : UInt64) : Bool := w.toBitVec.getLsbD k

/-- A word with another bit in one place. -/
def setBit (k : ℕ) (b : Bool) (w : UInt64) : UInt64 :=
  if b then ⟨w.toBitVec ||| BitVec.twoPow 64 k⟩ else ⟨w.toBitVec &&& ~~~ BitVec.twoPow 64 k⟩

/-- The places of the flags in `rflags`. -/
def CF : ℕ := 0
def PF : ℕ := 2
def AF : ℕ := 4
def ZF : ℕ := 6
def SF : ℕ := 7
def TF : ℕ := 8
def IF : ℕ := 9
def DF : ℕ := 10
def OF : ℕ := 11
def NT : ℕ := 14
def RF : ℕ := 16
def VM : ℕ := 17

/-- The lowest byte of a word. -/
def low (w : UInt64) : UInt8 := w.toUInt8

namespace State

variable (m : State)

/-- Write a register. -/
def set (r : Reg) (v : UInt64) : State := { m with reg := Function.update m.reg r v }

/-- Go to the next instruction. -/
def next : State := { m with rip := m.rip + 1 }

def setFlag (k : ℕ) (b : Bool) : State := { m with rflags := setBit k b m.rflags }

def flag (k : ℕ) : Bool := bit k m.rflags

/-- The word at an address. -/
def word (a : UInt64) : UInt64 := UInt64.ofNat (load m.mem a.toNat 8)

/-- Put a word on the stack. -/
def push (v : UInt64) : State :=
  let rsp := m.reg .rsp - 8
  { m.set .rsp rsp with mem := store m.mem rsp.toNat 8 v.toNat }

/-- The word on top of the stack. -/
def top : UInt64 := m.word (m.reg .rsp)

/-- Take a word from the stack. -/
def drop : State := m.set .rsp (m.reg .rsp + 8)

/-- The step of a string instruction: up, or down if the direction flag is set. -/
def advance (a : UInt64) : UInt64 := if m.flag DF then a - 1 else a + 1

end State

/-! ## Flags of sums and differences -/

/-- Whether the number of ones in the lowest byte is even. -/
def parity (r : ℕ) : Bool := ((List.range 8).countP fun k => r.testBit k) % 2 = 0

/-- The flags that all sums and differences set, for the result `r` of `width` bits. -/
def resultFlags (width r : ℕ) (carry half overflow : Bool) (w : UInt64) : UInt64 :=
  setBit CF carry (setBit PF (parity r) (setBit AF half (setBit ZF (r = 0)
    (setBit SF (r.testBit (width - 1)) (setBit OF overflow w)))))

/-- The flags of a difference. -/
def subFlags (width a b : ℕ) (w : UInt64) : UInt64 :=
  let r := (2 ^ width + a - b) % 2 ^ width
  let sign n := Nat.testBit n (width - 1)
  resultFlags width r (a < b) (a % 16 < b % 16) (sign a != sign b && sign a != sign r) w

/-- The flags of a sum. -/
def addFlags (width a b : ℕ) (w : UInt64) : UInt64 :=
  let r := (a + b) % 2 ^ width
  let sign n := Nat.testBit n (width - 1)
  resultFlags width r (2 ^ width ≤ a + b) (16 ≤ a % 16 + b % 16)
    (sign a == sign b && sign a != sign r) w

/-! ## Instructions -/

/-- The instructions.  A jump names the address it goes to. -/
inductive Instr where
  | mov (dst src : Reg)
  | lea (dst base index : Reg) (disp : UInt64)
  | add (dst : Reg) (imm : UInt64)
  | cmp (a b : Reg)
  | xor32 (dst src : Reg)
  | movByte (dst base : Reg) (disp : UInt64)
  | subByte (dst base : Reg) (disp : UInt64)
  | movsxByte (dst src : Reg)
  | ja (target : UInt64)
  | jmp (target : UInt64)
  | jecxz (target : UInt64)
  | std
  | cld
  | repMovsb
  | repStosb
  | repeCmpsb
  | push (src : Reg)
  | pushImm (imm : UInt64)
  | pop (dst : Reg)
  | call (target : UInt64)
  | ret
  | iretq
deriving DecidableEq, Repr

/-- What an instruction does. -/
def exec (i : Instr) (m : State) : State :=
  match i with
  | .mov dst src => (m.set dst (m.reg src)).next
  | .lea dst base index disp => (m.set dst (m.reg base + m.reg index + disp)).next
  | .add dst imm =>
    ({ m with rflags := addFlags 64 (m.reg dst).toNat imm.toNat m.rflags }.set dst
      (m.reg dst + imm)).next
  | .cmp a b => { m with rflags := subFlags 64 (m.reg a).toNat (m.reg b).toNat m.rflags }.next
  | .xor32 dst src =>
    let r := ((m.reg dst).toUInt32 ^^^ (m.reg src).toUInt32).toUInt64
    ({ m with rflags := resultFlags 32 r.toNat false (m.flag AF) false m.rflags }.set dst r).next
  | .movByte dst base disp =>
    (m.set dst (m.reg dst - (low (m.reg dst)).toUInt64 +
      (m.mem (m.reg base + disp).toNat).toUInt64)).next
  | .subByte dst base disp =>
    let a := low (m.reg dst)
    let b := m.mem (m.reg base + disp).toNat
    ({ m with rflags := subFlags 8 a.toNat b.toNat m.rflags }.set dst
      (m.reg dst - a.toUInt64 + (a - b).toUInt64)).next
  | .movsxByte dst src => (m.set dst (low (m.reg src)).toInt8.toInt64.toUInt64).next
  | .ja target => if !m.flag CF && !m.flag ZF then { m with rip := target } else m.next
  | .jmp target => { m with rip := target }
  | .jecxz target => if (m.reg .rcx).toUInt32 = 0 then { m with rip := target } else m.next
  | .std => (m.setFlag DF true).next
  | .cld => (m.setFlag DF false).next
  | .repMovsb =>
    if m.reg .rcx = 0 then m.next
    else
      let b := m.mem (m.reg .rsi).toNat
      { ((m.set .rsi (m.advance (m.reg .rsi))).set .rdi (m.advance (m.reg .rdi))).set .rcx
        (m.reg .rcx - 1) with
        mem := Function.update m.mem (m.reg .rdi).toNat b }
  | .repStosb =>
    if m.reg .rcx = 0 then m.next
    else
      { (m.set .rdi (m.advance (m.reg .rdi))).set .rcx (m.reg .rcx - 1) with
        mem := Function.update m.mem (m.reg .rdi).toNat (low (m.reg .rax)) }
  | .repeCmpsb =>
    if m.reg .rcx = 0 then m.next
    else
      let a := m.mem (m.reg .rsi).toNat
      let b := m.mem (m.reg .rdi).toNat
      let m' := { ((m.set .rsi (m.advance (m.reg .rsi))).set .rdi (m.advance (m.reg .rdi))).set .rcx
          (m.reg .rcx - 1) with
        rflags := subFlags 8 a.toNat b.toNat m.rflags }
      if a = b then m' else m'.next
  | .push src => (m.push (m.reg src)).next
  | .pushImm imm => (m.push imm).next
  | .pop dst => (m.drop.set dst m.top).next
  | .call target => { m.push (m.rip + 1) with rip := target }
  | .ret => { m.drop with rip := m.top }
  -- for a context that it accepts: the checks of the selectors, the addresses and the flags, which
  -- end in an exception, are left out
  | .iretq =>
    let rsp := m.reg .rsp
    { m.set .rsp (m.word (rsp + 24)) with
      rip := m.word rsp
      cs := m.word (rsp + 8)
      rflags := m.word (rsp + 16)
      ss := m.word (rsp + 32) }

/-- What the processor does for an interrupt that goes through an interrupt gate.  The new stack
begins at `stack`, rounded down to sixteen bytes, and some exceptions put an error code on it. -/
def interrupt (isr cs stack : UInt64) (error : Option UInt64) (m : State) : State :=
  let m₁ := m.set .rsp (stack &&& ~~~ 15)
  let m₂ := ((((m₁.push m.ss).push (m.reg .rsp)).push m.rflags).push m.cs).push m.rip
  let m₃ := match error with
    | some e => m₂.push e
    | none => m₂
  { m₃ with
    rip := isr
    cs := cs
    rflags := setBit IF false (setBit TF false
      (setBit NT false (setBit RF false (setBit VM false m.rflags)))) }

/-! ## Runs -/

variable (code : UInt64 → Option Instr)

/-- One step of the processor. -/
def step (m : State) : Option State := (code m.rip).map fun i => exec i m

/-- The processor comes from one state to another. -/
def Runs : State → State → Prop := Relation.ReflTransGen fun m m' => step code m = some m'

/-- The processor comes to a state with a property. -/
def Reaches (P : State → Prop) (m : State) : Prop := ∃ m', Runs code m m' ∧ P m'

/-- Instructions stand in memory from an address on. -/
def Loaded : UInt64 → List Instr → Prop
  | _, [] => True
  | a, i :: is => code a = some i ∧ Loaded (a + 1) is

variable {code} {m m' m'' : State} {i : Instr} {is is' : List Instr} {a : UInt64}
  {P Q : State → Prop}

lemma Runs.refl : Runs code m m := Relation.ReflTransGen.refl

lemma Runs.trans (h : Runs code m m') (h' : Runs code m' m'') : Runs code m m'' :=
  Relation.ReflTransGen.trans h h'

lemma Runs.single (h : step code m = some m') : Runs code m m' := Relation.ReflTransGen.single h

/-- A loop, round by round. -/
lemma Runs.rounds {S : ℕ → State} {n : ℕ} (h : ∀ k < n, step code (S k) = some (S (k + 1))) :
    Runs code (S 0) (S n) := by
  induction n with
  | zero => exact .refl
  | succ n ih => exact (ih fun k hk => h k (by omega)).trans (.single (h n (by omega)))

lemma step_of_code (h : code m.rip = some i) :
    step code m = some (exec i m) := by rw [step, h, Option.map_some]

/-- The processor is deterministic, so what it comes to lies on one line. -/
lemma Runs.total (h : Runs code m m') (h' : Runs code m m'') :
    Runs code m' m'' ∨ Runs code m'' m' :=
  Relation.ReflTransGen.total_of_right_unique
    (fun _ _ _ h₁ h₂ => Option.some.inj (h₁.symm.trans h₂)) h h'

lemma Reaches.done (h : P m) : Reaches code P m := ⟨m, .refl, h⟩

lemma Reaches.step (h : code m.rip = some i) (hr : Reaches code P (exec i m)) :
    Reaches code P m := by
  obtain ⟨m', hruns, hp⟩ := hr
  exact ⟨m', .trans (.single (step_of_code h)) hruns, hp⟩

lemma Reaches.runs (h : Runs code m m') (hr : Reaches code P m') : Reaches code P m := by
  obtain ⟨m'', hruns, hp⟩ := hr
  exact ⟨m'', h.trans hruns, hp⟩

lemma Reaches.bind (h : Reaches code P m) (hpq : ∀ m', P m' → Reaches code Q m') :
    Reaches code Q m := by
  obtain ⟨m', hruns, hp⟩ := h
  exact .runs hruns (hpq m' hp)

lemma loaded_append : Loaded code a (is ++ is') ↔
    Loaded code a is ∧ Loaded code (a + UInt64.ofNat is.length) is' := by
  induction is generalizing a with
  | nil => simp [Loaded]
  | cons i is ih =>
    have hlen : a + UInt64.ofNat (i :: is).length = a + 1 + UInt64.ofNat is.length := by
      rw [List.length_cons, Nat.add_comm, UInt64.ofNat_add, ← add_assoc]
      rfl
    rw [List.cons_append, Loaded, ih, Loaded, and_assoc, hlen]

/-- Memory that holds instructions from an address on. -/
def codeAt (a : UInt64) (is : List Instr) : UInt64 → Option Instr := fun x => is[(x - a).toNat]?

lemma loaded_codeAt_append {before : List Instr} (h : (before ++ is).length < 2 ^ 64) :
    Loaded (codeAt a (before ++ is)) (a + UInt64.ofNat before.length) is := by
  induction is generalizing before with
  | nil => trivial
  | cons i is ih =>
    have hsplit : before ++ i :: is = before ++ [i] ++ is := by simp
    have hnext : a + UInt64.ofNat before.length + 1 = a + UInt64.ofNat (before ++ [i]).length := by
      rw [List.length_append, UInt64.ofNat_add, ← add_assoc]
      rfl
    have hlt : before.length < 2 ^ 64 := by
      rw [List.length_append] at h
      omega
    refine ⟨?_, ?_⟩
    · rw [codeAt, add_sub_cancel_left, UInt64.toNat_ofNat', Nat.mod_eq_of_lt hlt]
      simp
    · rw [hnext, hsplit]
      exact ih (by rw [← hsplit]; exact h)

lemma loaded_codeAt (h : is.length < 2 ^ 64) : Loaded (codeAt a is) a is := by
  have hzero : a + UInt64.ofNat 0 = a := add_zero a
  have hall := @loaded_codeAt_append is a [] h
  rw [List.length_nil, hzero] at hall
  exact hall

/-! ## The flags -/

lemma bit_setBit (k l : ℕ) (b : Bool) (w : UInt64) (hk : k < 64) :
    bit l (setBit k b w) = if l = k then b else bit l w := by
  rw [setBit]
  cases b with
  | true =>
    by_cases h : l = k
    · subst h
      simp [bit, hk]
    · simp [bit, h, Ne.symm h]
  | false =>
    by_cases h : l = k
    · subst h
      simp [bit, hk]
    · by_cases hl : l < 64
      · simp [bit, h, hl]
      · simp [bit, h, BitVec.getLsbD_of_ge _ _ (Nat.le_of_not_lt hl)]

lemma bit_setBit_self (k : ℕ) (b : Bool) (w : UInt64) (hk : k < 64) : bit k (setBit k b w) = b := by
  rw [bit_setBit k k b w hk, if_pos rfl]

/-- Sums and differences leave the direction flag alone. -/
lemma bit_DF_resultFlags (width r : ℕ) (carry half overflow : Bool) (w : UInt64) :
    bit DF (resultFlags width r carry half overflow w) = bit DF w := by
  simp [resultFlags, bit_setBit, DF, CF, PF, AF, ZF, SF, OF]

lemma bit_CF_subFlags (width a b : ℕ) (w : UInt64) :
    bit CF (subFlags width a b w) = decide (a < b) := by
  simp [subFlags, resultFlags, bit_setBit, CF]

lemma bit_ZF_subFlags {width a b : ℕ} (w : UInt64) (ha : a < 2 ^ width) (hb : b < 2 ^ width) :
    bit ZF (subFlags width a b w) = decide (a = b) := by
  have hzero : (2 ^ width + a - b) % 2 ^ width = 0 ↔ a = b := by
    rcases lt_trichotomy a b with h | rfl | h
    · rw [Nat.mod_eq_of_lt (by omega)]
      omega
    · simp
    · have heq : 2 ^ width + a - b = a - b + 2 ^ width := by omega
      rw [heq, Nat.add_mod_right, Nat.mod_eq_of_lt (by omega)]
      omega
  simp [subFlags, resultFlags, bit_setBit, CF, PF, AF, ZF, hzero]

/-! ## Words in memory -/

/-- A word reads back. -/
lemma ofNat_load_store (mem : Mem) (a : ℕ) (v : UInt64) :
    UInt64.ofNat (load (store mem a 8 v.toNat) a 8) = v := by
  have hlt : v.toNat < 256 ^ 8 := v.toNat_lt
  rw [load_store_self, Nat.mod_eq_of_lt hlt, UInt64.ofNat_toNat]

/-- A word that was not written. -/
lemma word_congr {a : UInt64} (h : ∀ x, a.toNat ≤ x → x < a.toNat + 8 → m'.mem x = m.mem x) :
    m'.word a = m.word a := by
  rw [State.word, State.word, load_congr h]

/-! ## Registers and flags after an instruction -/

namespace State

@[simp] lemma set_self (m : State) (r : Reg) (v : UInt64) : (m.set r v).reg r = v :=
  Function.update_self ..

lemma set_of_ne {r r' : Reg} (m : State) (v : UInt64) (h : r' ≠ r) :
    (m.set r v).reg r' = m.reg r' :=
  Function.update_of_ne h ..

@[simp] lemma set_mem (m : State) (r : Reg) (v : UInt64) : (m.set r v).mem = m.mem := rfl

@[simp] lemma set_rip (m : State) (r : Reg) (v : UInt64) : (m.set r v).rip = m.rip := rfl

@[simp] lemma set_rflags (m : State) (r : Reg) (v : UInt64) : (m.set r v).rflags = m.rflags := rfl

@[simp] lemma next_reg (m : State) : m.next.reg = m.reg := rfl

@[simp] lemma next_mem (m : State) : m.next.mem = m.mem := rfl

@[simp] lemma next_rip (m : State) : m.next.rip = m.rip + 1 := rfl

@[simp] lemma next_rflags (m : State) : m.next.rflags = m.rflags := rfl

end State

end X86
