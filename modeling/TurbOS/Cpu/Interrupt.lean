import TurbOS.Lib.X86Stack

/-!
# Into the handler of interrupts and out of it

Every vector has a stub of its own.  It pushes a zero where the processor has not pushed an error
code, then its number, and goes on in `int_common_stub`, which pushes the registers, calls
`int_handler` with the address of all these words, and takes everything off the stack again.  So the
handler sees the interrupted program as a `registers_t`, and what it leaves there is what runs next,
if it is a context that `iretq` accepts.
-/

open X86 ByteMemory

namespace TurbOS.Asm

/-! ## The code -/

/-- `pushall`. -/
def pushall : List Reg :=
  [.rax, .rbx, .rcx, .rdx, .rsi, .rdi, .rbp, .r8, .r9, .r10, .r11, .r12, .r13, .r14, .r15]

/-- `popall`. -/
def popall : List Reg :=
  [.r15, .r14, .r13, .r12, .r11, .r10, .r9, .r8, .rbp, .rdi, .rsi, .rdx, .rcx, .rbx, .rax]

/-- The condition of the macro `isr`: the vectors for which the processor pushes an error code. -/
def pushesError (n : ℕ) : Bool :=
  n = 8 || (10 ≤ n && n ≤ 14) || n = 17 || n = 21 || n = 29 || n = 30

/-- The macro `isr`. -/
def isr (int_common_stub : UInt64) (n : ℕ) : List Instr :=
  (if pushesError n then [] else [.pushImm 0]) ++ [.pushImm (UInt64.ofNat n), .jmp int_common_stub]

/-- The first part of `int_common_stub`. -/
def saveAll (int_handler : UInt64) : List Instr :=
  pushall.map .push ++ [.mov .rdi .rsp, .call int_handler]

/-- The second part, behind the call. -/
def restoreAll : List Instr := popall.map .pop ++ [.add .rsp 16, .iretq]

/-- `int_common_stub`. -/
def intCommonStub (int_handler : UInt64) : List Instr := saveAll int_handler ++ restoreAll

/-- The code where the kernel put it: the common stub, and the one of a vector. -/
structure Linked (code : UInt64 → Option Instr) (int_handler int_common_stub isr_n : UInt64)
    (n : ℕ) : Prop where
  stub : Loaded code int_common_stub (intCommonStub int_handler)
  isr : Loaded code isr_n (isr int_common_stub n)

/-! ## What an interrupted program is known by -/

/-- The registers of the processor. -/
@[ext]
structure Context where
  reg : Reg → UInt64
  rip : UInt64
  rflags : UInt64
  cs : UInt64
  ss : UInt64

/-- The registers in a state. -/
def context (m : State) : Context := ⟨m.reg, m.rip, m.rflags, m.cs, m.ss⟩

/-- The words of a `registers_t`. -/
def Context.frame (c : Context) (int_no error_code : UInt64) : List UInt64 :=
  popall.map c.reg ++ [int_no, error_code, c.rip, c.cs, c.rflags, c.reg .rsp, c.ss]

variable {code : UInt64 → Option Instr} {int_handler int_common_stub isr_n : UInt64} {m : State}
  {ws : List UInt64} {n : ℕ}

lemma holds_of_eq {m' : State} (h : m.Holds ws) (hmem : m'.mem = m.mem)
    (hrsp : m'.reg .rsp = m.reg .rsp) : m'.Holds ws := by
  refine ⟨?_, ?_⟩
  · rw [hmem, hrsp]
    exact h.words
  · rw [hrsp]
    exact h.space

/-! ## Out of the handler -/

/-- Two words are taken away at once. -/
lemma holds_add {v w : UInt64} (h : m.Holds (v :: w :: ws)) : (exec (.add .rsp 16) m).Holds ws := by
  refine holds_of_eq h.drop.drop rfl ?_
  show m.reg .rsp + 16 = m.reg .rsp + 8 + 8
  rw [add_assoc]
  rfl

/-- What `iretq` reads. -/
lemma iretq_words {rip cs rflags rsp ss : UInt64} (h : m.Holds [rip, cs, rflags, rsp, ss]) :
    m.word (m.reg .rsp) = rip ∧ m.word (m.reg .rsp + 8) = cs ∧ m.word (m.reg .rsp + 16) = rflags ∧
      m.word (m.reg .rsp + 24) = rsp ∧ m.word (m.reg .rsp + 32) = ss := by
  obtain ⟨h₀, h₁, h₂, h₃, h₄, -⟩ := h.words
  have hspace : (m.reg .rsp).toNat + 8 * 5 ≤ 2 ^ 64 := h.space
  have hadd : ∀ k : UInt64, k.toNat ≤ 32 →
      (m.reg .rsp + k).toNat = (m.reg .rsp).toNat + k.toNat := by
    intro k hk
    rw [UInt64.toNat_add]
    exact Nat.mod_eq_of_lt (by omega)
  refine ⟨h₀, ?_, ?_, ?_, ?_⟩
  · rw [State.word, hadd 8 (by decide)]
    exact h₁
  · rw [State.word, hadd 16 (by decide)]
    exact h₂
  · rw [State.word, hadd 24 (by decide)]
    exact h₃
  · rw [State.word, hadd 32 (by decide)]
    exact h₄

lemma reg_iretq_rsp : (exec .iretq m).reg .rsp = m.word (m.reg .rsp + 24) :=
  State.set_self m .rsp (m.word (m.reg .rsp + 24))

lemma reg_iretq_of_ne {r : Reg} (h : r ≠ .rsp) : (exec .iretq m).reg r = m.reg r :=
  State.set_of_ne m (m.word (m.reg .rsp + 24)) h

lemma reg_add_of_ne {r r' : Reg} {v : UInt64} (h : r' ≠ r) :
    (exec (.add r v) m).reg r' = m.reg r' := by
  show Function.update m.reg r (m.reg r + v) r' = m.reg r'
  exact Function.update_of_ne h _ _

lemma mem_popall {r : Reg} (h : r ≠ .rsp) : r ∈ popall := by
  cases r <;> first | contradiction | decide

/-- The second part of the stub loads the registers from the words on the stack. -/
lemma restoreAll_eq {c : Context} {int_no error_code : UInt64}
    (h : m.Holds (c.frame int_no error_code)) :
    context (execAll restoreAll m) = c ∧ (execAll restoreAll m).mem = m.mem := by
  obtain ⟨hpopped, hregs, hrest⟩ := pops (show .rsp ∉ popall by decide) (by decide)
    (by rw [List.length_map]) h
  obtain ⟨m₁, hm₁⟩ : ∃ m₁, execAll (popall.map .pop) m = m₁ := ⟨_, rfl⟩
  rw [hm₁] at hpopped hregs hrest
  obtain ⟨hrip, hcs, hrflags, hrsp, hss⟩ := iretq_words (holds_add hrest)
  have hall : execAll restoreAll m = exec .iretq (exec (.add .rsp 16) m₁) := by
    rw [restoreAll, execAll_append, hm₁]
    rfl
  have hreg : ∀ r, (exec .iretq (exec (.add .rsp 16) m₁)).reg r = c.reg r := by
    intro r
    by_cases hr : r = .rsp
    · subst hr
      exact reg_iretq_rsp.trans hrsp
    · rw [reg_iretq_of_ne hr, reg_add_of_ne hr]
      exact List.map_inj_left.mp hregs r (mem_popall hr)
  rw [hall]
  exact ⟨Context.ext (funext hreg) hrip hrflags hcs hss, hpopped.mem⟩

lemma path_restoreAll (h : Loaded code m.rip restoreAll) : Path code restoreAll m := by
  obtain ⟨hpath, hrest, hlast, -⟩ := path_of_loaded_append h fun i hi => by
    obtain ⟨r, -, rfl⟩ := List.mem_map.mp hi
    exact straight_pop r
  exact path_append.mpr ⟨hpath, hrest, hlast, trivial⟩

/-! ## Into the handler -/

variable {m' : State} {top : UInt64}

/-- The words that the processor pushes. -/
def hardwareFrame (m : State) : List UInt64 := [m.rip, m.cs, m.rflags, m.reg .rsp, m.ss]

/-- The stack behind an interrupt. -/
lemma stacked_interrupt {cs stack : UInt64} (a : UInt64) (error : Option UInt64)
    (hroom : 48 ≤ (stack &&& ~~~ 15).toNat) :
    Stacked m (interrupt a cs stack error m) (stack &&& ~~~ 15)
      (error.toList ++ hardwareFrame m) := by
  have hlen : ∀ k ≤ 5, 8 * (k + 1) ≤ (stack &&& ~~~ 15).toNat := fun k hk => by omega
  have h₁ := (stacked_nil m (stack &&& ~~~ 15)).push (hlen 0 (by decide)) m.ss
  have h₂ := h₁.push (hlen 1 (by decide)) (m.reg .rsp)
  have h₃ := h₂.push (hlen 2 (by decide)) m.rflags
  have h₄ := h₃.push (hlen 3 (by decide)) m.cs
  have h₅ := h₄.push (hlen 4 (by decide)) m.rip
  cases error with
  | none => exact h₅.of_eq rfl rfl
  | some e => exact (h₅.push (hlen 5 (by decide)) e).of_eq rfl rfl

/-- The stub of a vector brings the number and an error code on the stack in any case. -/
lemma stacked_isr {m₀ : State} {ws : List UInt64} {error : Option UInt64} (n : ℕ)
    (hcode : Loaded code m₀.rip (isr int_common_stub n)) (herror : error.isSome = pushesError n)
    (hroom : 8 * (ws.length + 2) ≤ top.toNat) (h : Stacked m m₀ top (error.toList ++ ws)) :
    Reaches code (fun m' => m'.rip = int_common_stub ∧ m'.rflags = m₀.rflags ∧
      Stacked m m' top (UInt64.ofNat n :: error.getD 0 :: ws)) m₀ := by
  cases error with
  | none =>
    have hnone : pushesError n = false := herror.symm
    rw [isr, hnone] at hcode
    obtain ⟨h₀, h₁, h₂, -⟩ := hcode
    refine .step h₀ (.step h₁ (.step h₂ (.done ⟨rfl, rfl, ?_⟩)))
    exact ((h.push (by simp; omega) 0).push (by simp; omega) (UInt64.ofNat n)).of_eq rfl rfl
  | some e =>
    have hsome : pushesError n = true := herror.symm
    rw [isr, hsome] at hcode
    obtain ⟨h₀, h₁, -⟩ := hcode
    refine .step h₀ (.step h₁ (.done ⟨rfl, rfl, ?_⟩))
    exact (h.push (by simp; omega) (UInt64.ofNat n)).of_eq rfl rfl

/-- A program was interrupted, and the handler is called. -/
structure HandlerCalled (int_handler int_common_stub : UInt64) (m : State) (n : ℕ)
    (error top : UInt64) (m' : State) : Prop where
  rip : m'.rip = int_handler
  frame : m'.reg .rdi = top - 176
  registers : Words m'.mem (m'.reg .rdi).toNat ((context m).frame (UInt64.ofNat n) error)
  rsp : m'.reg .rsp = m'.reg .rdi - 8
  ret : m'.top = int_common_stub + 17
  outside : ∀ x, x + 184 < top.toNat ∨ top.toNat ≤ x → m'.mem x = m.mem x

lemma calls_handler {m₀ : State} {error : UInt64}
    (hcode : Loaded code m₀.rip (intCommonStub int_handler))
    (hrip : m₀.rip = int_common_stub) (hroom : 184 ≤ top.toNat)
    (h : Stacked m m₀ top (UInt64.ofNat n :: error :: hardwareFrame m)) :
    Reaches code (fun m' => m'.rflags = m₀.rflags ∧
      HandlerCalled int_handler int_common_stub m n error top m') m₀ := by
  rw [intCommonStub, saveAll, List.append_assoc] at hcode
  obtain ⟨hpath, hmov, hcall, -⟩ := path_of_loaded_append hcode fun i hi => by
    obtain ⟨r, -, rfl⟩ := List.mem_map.mp hi
    exact straight_push r
  obtain ⟨hpushed, hrflags⟩ := h.pushes (show .rsp ∉ pushall by decide)
    (by simp [pushall, hardwareFrame]; omega)
  have hrip₁ : (execAll (pushall.map .push) m₀).rip = int_common_stub + 15 := by
    rw [← hrip]
    exact rip_execAll fun i hi => by
      obtain ⟨r, -, rfl⟩ := List.mem_map.mp hi
      exact straight_push r
  refine .runs hpath.runs ?_
  obtain ⟨m₁, hm₁⟩ : ∃ m₁, execAll (pushall.map .push) m₀ = m₁ := ⟨_, rfl⟩
  rw [hm₁] at hpushed hrflags hrip₁ hmov hcall ⊢
  -- the words are those of the interrupted program
  have hwords : m₁.Holds ((context m).frame (UInt64.ofNat n) error) := hpushed.holds
  have hlen : ((context m).frame (UInt64.ofNat n) error).length = 22 := rfl
  have hrsp : (m₁.reg .rsp).toNat = top.toNat - 176 :=
    hpushed.toNat_rsp (show 176 ≤ top.toNat by omega)
  have hbelow : ∀ x, x + 184 < top.toNat ∨ top.toNat - 176 ≤ x →
      (exec (.call int_handler) (exec (.mov .rdi .rsp) m₁)).mem x = m₁.mem x := fun x hx =>
    State.push_outside (m := exec (.mov .rdi .rsp) m₁) (show 8 ≤ (m₁.reg .rsp).toNat by omega)
      (show x + 8 < (m₁.reg .rsp).toNat ∨ (m₁.reg .rsp).toNat ≤ x by omega)
  refine .step hmov (.step hcall (.done ⟨hrflags, rfl, hpushed.rsp, ?_, rfl, ?_, fun x hx => ?_⟩))
  · refine hwords.words.congr fun x hx _ => hbelow x (.inr ?_)
    rw [← hrsp]
    exact hx
  · show UInt64.ofNat (load (store m₁.mem (m₁.reg .rsp - 8).toNat 8 (m₁.rip + 1 + 1).toNat)
      (m₁.reg .rsp - 8).toNat 8) = _
    rw [ofNat_load_store, hrip₁]
    simp only [add_assoc]
    rfl
  · rw [hbelow x (by omega)]
    exact hpushed.mem x (show x + 176 < top.toNat ∨ top.toNat ≤ x by omega)

/-! ## Through a whole interrupt -/

variable {cs stack : UInt64} {error : Option UInt64}

lemma flag_interrupt (a cs stack : UInt64) (error : Option UInt64) (m : State) :
    (interrupt a cs stack error m).flag IF = false ∧
      (interrupt a cs stack error m).flag DF = m.flag DF := by
  have hflags : (interrupt a cs stack error m).rflags =
      setBit IF false (setBit TF false (setBit NT false
        (setBit RF false (setBit VM false m.rflags)))) := rfl
  rw [State.flag, State.flag, hflags]
  refine ⟨bit_setBit_self IF false _ (by decide), ?_⟩
  simp [State.flag, bit_setBit, IF, TF, NT, RF, VM, DF]

lemma toNat_and_fifteen (a : UInt64) : (a &&& 15).toNat = a.toNat % 16 := by
  rw [UInt64.toNat_and]
  exact Nat.and_two_pow_sub_one_eq_mod a.toNat 4

/-- The processor has aligned the stack, and the words are eleven times sixteen bytes. -/
lemma aligned_frame (stack : UInt64) : ((stack &&& ~~~ 15) - 176) &&& 15 = 0 := by
  have hmask : (stack &&& ~~~ 15 : UInt64) &&& 15 = 0 := by
    rw [UInt64.and_assoc]
    exact UInt64.and_zero
  have hmod : (stack &&& ~~~ 15).toNat % 16 = 0 := by rw [← toNat_and_fifteen, hmask]; rfl
  refine UInt64.toNat_inj.mp ?_
  rw [toNat_and_fifteen, UInt64.toNat_sub]
  show (2 ^ 64 - 176 + (stack &&& ~~~ 15).toNat) % 2 ^ 64 % 16 = 0
  omega

/-- An interrupt calls the handler with the registers of the interrupted program.  Interrupts are
off then, and the stack is as a C function expects it; the direction flag is the one that the
program had. -/
lemma reaches_handler (hlinked : Linked code int_handler int_common_stub isr_n n)
    (herror : error.isSome = pushesError n) (hroom : 184 ≤ (stack &&& ~~~ 15).toNat) :
    Reaches code (fun m' => HandlerCalled int_handler int_common_stub m n (error.getD 0)
      (stack &&& ~~~ 15) m' ∧ m'.rflags = (interrupt isr_n cs stack error m).rflags)
        (interrupt isr_n cs stack error m) := by
  obtain ⟨m₀, hm₀⟩ : ∃ m₀, interrupt isr_n cs stack error m = m₀ := ⟨_, rfl⟩
  have hentry : Stacked m m₀ (stack &&& ~~~ 15) (error.toList ++ hardwareFrame m) := by
    rw [← hm₀]
    exact stacked_interrupt isr_n error (by omega)
  have hisr : Loaded code m₀.rip (isr int_common_stub n) := by
    rw [← hm₀]
    exact hlinked.isr
  have hlen : (hardwareFrame m).length = 5 := rfl
  rw [hm₀]
  refine (stacked_isr n hisr herror (by omega) hentry).bind fun m₁ ⟨hrip, hrflags, hstacked⟩ => ?_
  have hstub : Loaded code m₁.rip (intCommonStub int_handler) := by
    rw [hrip]
    exact hlinked.stub
  exact (calls_handler hstub hrip hroom hstacked).bind fun m' ⟨hrflags', hcalled⟩ =>
    .done ⟨hcalled, hrflags'.trans hrflags⟩

theorem handler_called (hlinked : Linked code int_handler int_common_stub isr_n n)
    (herror : error.isSome = pushesError n) (hroom : 184 ≤ (stack &&& ~~~ 15).toNat) :
    Reaches code (fun m' => HandlerCalled int_handler int_common_stub m n (error.getD 0)
      (stack &&& ~~~ 15) m' ∧ m'.reg .rdi &&& 15 = 0 ∧ m'.flag IF = false ∧ m'.flag DF = m.flag DF)
        (interrupt isr_n cs stack error m) := by
  obtain ⟨hif, hdf⟩ := flag_interrupt isr_n cs stack error m
  refine (reaches_handler hlinked herror hroom).bind fun m' ⟨hcalled, hrflags⟩ =>
    .done ⟨hcalled, ?_, ?_, ?_⟩
  · rw [hcalled.frame]
    exact aligned_frame stack
  · rw [State.flag, hrflags]
    exact hif
  · rw [State.flag, hrflags]
    exact hdf

/-- The stubs of one vector and a handler that only returns, from the address 0 on. -/
def returning (n : ℕ) : UInt64 → Option Instr := codeAt 0 (intCommonStub 37 ++ (isr 0 n ++ [.ret]))

lemma linked_returning (h : pushesError n = false) : Linked (returning n) 37 0 34 n := by
  have hloaded : Loaded (returning n) 0 (intCommonStub 37 ++ (isr 0 n ++ [.ret])) :=
    loaded_codeAt (by simp [intCommonStub, saveAll, restoreAll, isr, pushall, popall, h])
  obtain ⟨hstub, hisr⟩ := loaded_append.mp hloaded
  exact ⟨hstub, (loaded_append.mp hisr).1⟩

lemma ret_returning (h : pushesError n = false) : returning n 37 = some .ret := by
  simp [returning, codeAt, intCommonStub, saveAll, restoreAll, isr, pushall, popall, h]

/-- A program that is about to be interrupted, with the direction flag set. -/
def busy : State where
  reg r := if r = .rsp then 4096 else 7
  rip := 1000
  rflags := 0x602
  cs := 0x28
  ss := 0x30
  mem _ := 0

theorem handler_called_timer :
    Reaches (returning 32) (fun m' => HandlerCalled 37 0 busy 32 0 4096 m' ∧
      m'.reg .rdi &&& 15 = 0 ∧
      m'.flag IF = false ∧ m'.flag DF = true) (interrupt 34 0x28 4096 none busy) :=
  handler_called (linked_returning rfl) rfl (by decide)

/-- What `int_handler` promises when it was called in the state `m'`: it returns, and leaves a
`registers_t` where it found one, and a memory with a property. -/
def Handles (code : UInt64 → Option Instr) (int_common_stub : UInt64) (c : Context) (P : Mem → Prop)
    (m' : State) : Prop :=
  ∃ int_no error_code, Reaches code (fun m'' => m''.rip = int_common_stub + 17 ∧
    m''.reg .rsp = m'.reg .rdi ∧
    Words m''.mem (m'.reg .rdi).toNat (c.frame int_no error_code) ∧ P m''.mem) m'

/-- What runs behind the interrupt is what the handler has left on the stack. -/
lemma reaches_context {c : Context} {P : Mem → Prop} {error : UInt64}
    (hlinked : Linked code int_handler int_common_stub isr_n n)
    (hroom : 184 ≤ top.toNat) (hcalled : HandlerCalled int_handler int_common_stub m n error top m')
    (hhandles : Handles code int_common_stub c P m') :
    Reaches code (fun m'' => context m'' = c ∧ P m''.mem) m' := by
  obtain ⟨int_no, error_code, hreaches⟩ := hhandles
  refine hreaches.bind fun m₁ ⟨hrip, hrsp, hwords, hp⟩ => ?_
  have hframe : (m'.reg .rdi).toNat = top.toNat - 176 := by
    have hle : (176 : UInt64) ≤ top := UInt64.le_iff_toNat_le.mpr (show 176 ≤ top.toNat by omega)
    rw [hcalled.frame, UInt64.toNat_sub_of_le _ _ hle]
    rfl
  have hholds : m₁.Holds (c.frame int_no error_code) := by
    refine ⟨?_, ?_⟩
    · rw [hrsp]
      exact hwords
    · have hlen : (c.frame int_no error_code).length = 22 := rfl
      have hlt := top.toNat_lt
      rw [hrsp, hframe, hlen]
      omega
  have hcode : Loaded code m₁.rip restoreAll := by
    rw [hrip]
    exact (loaded_append.mp hlinked.stub).2
  obtain ⟨hcontext, hmem⟩ := restoreAll_eq hholds
  refine .runs (path_restoreAll hcode).runs (.done ⟨hcontext, ?_⟩)
  rw [hmem]
  exact hp

theorem interrupt_resumes {c : Context} {P : Mem → Prop}
    (hlinked : Linked code int_handler int_common_stub isr_n n)
    (herror : error.isSome = pushesError n) (hroom : 184 ≤ (stack &&& ~~~ 15).toNat)
    (hhandles : ∀ m', HandlerCalled int_handler int_common_stub m n (error.getD 0)
    (stack &&& ~~~ 15) m' → Handles code int_common_stub c P m') :
    Reaches code (fun m' => context m' = c ∧ P m'.mem) (interrupt isr_n cs stack error m) :=
  (reaches_handler hlinked herror hroom).bind fun m' ⟨hcalled, _⟩ =>
    reaches_context hlinked hroom hcalled (hhandles m' hcalled)

/-- A handler that returns at once. -/
lemma handles_returning {error : UInt64} (h : pushesError n = false) {m' : State}
    (hcalled : HandlerCalled 37 0 m n error top m') :
    Handles (returning n) 0 (context m)
      (fun mem => ∀ x, x + 184 < top.toNat ∨ top.toNat ≤ x → mem x = m.mem x) m' := by
  refine ⟨UInt64.ofNat n, error,
    .step (i := .ret) ?_ (.done ⟨?_, ?_, hcalled.registers, hcalled.outside⟩)⟩
  · rw [hcalled.rip]
    exact ret_returning h
  · exact hcalled.ret
  · show m'.drop.reg .rsp = m'.reg .rdi
    rw [State.drop, State.set_self, hcalled.rsp, sub_add_cancel]

theorem interrupt_resumes_timer :
    Reaches (returning 32) (fun m' => context m' = context busy ∧
      ∀ x, x + 184 < 4096 ∨ 4096 ≤ x → m'.mem x = 0) (interrupt 34 0x28 4096 none busy) :=
  interrupt_resumes (linked_returning rfl) rfl (by decide) fun _ hcalled =>
    handles_returning rfl hcalled

end TurbOS.Asm
