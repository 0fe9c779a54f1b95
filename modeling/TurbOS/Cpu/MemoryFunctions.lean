import TurbOS.Lib.X86String
import TurbOS.Memory.PMemory
import TurbOS.Str.Compare

/-!
# The memory functions

`memory.asm` is written for the string instructions of the processor.  `memcpy` copies upwards,
`memset` fills, `memmove` chooses the direction that suits the ranges, and `memcmp` stops behind the
first difference.

The other parts of this development use the effects that these functions have on memory; here the
effects are those of the instructions.
-/

open X86 ByteMemory

namespace TurbOS.Asm

/-! ## The code -/

/-- `memcpy`. -/
def memcpy (_ : UInt64) : List Instr := [.mov .rcx .rdx, .mov .rax .rdi, .repMovsb, .ret]

/-- `memset`. -/
def memset (_ : UInt64) : List Instr :=
  [.push .rdi, .mov .rax .rsi, .mov .rcx .rdx, .repStosb, .pop .rax, .ret]

/-- `memmove`, at the address `a`. -/
def memmove (a : UInt64) : List Instr :=
  let copy_backwards := a + 6
  let done := a + 11
  [.mov .rcx .rdx, .mov .rax .rdi, .cmp .rdi .rsi, .ja copy_backwards, .repMovsb, .jmp done,
    .lea .rdi .rdi .rcx (-1), .lea .rsi .rsi .rcx (-1), .std, .repMovsb, .cld, .ret]

/-- `memcmp`, at the address `a`. -/
def memcmp (a : UInt64) : List Instr :=
  let equal := a + 7
  let done := a + 8
  [.mov .rcx .rdx, .repeCmpsb, .jecxz equal, .movByte .rax .rdi (-1), .subByte .rax .rsi (-1),
    .movsxByte .rax .rax, .jmp done, .xor32 .rax .rax, .ret]

/-! ## Calls -/

/-- The registers that a function leaves as they were. -/
def calleeSaved : List Reg := [.rbx, .rbp, .r12, .r13, .r14, .r15]

/-- A function is called: its instructions stand where the processor is, the direction flag is
clear, and the stack lies within the address space. -/
structure Called (code : UInt64 → Option Instr) (f : UInt64 → List Instr) (m : State) : Prop where
  loaded : Loaded code m.rip (f m.rip)
  up : m.flag DF = false
  room : 8 ≤ (m.reg .rsp).toNat
  stack : (m.reg .rsp).toNat + 8 ≤ 2 ^ 64

/-- A function returns. -/
structure Returned (m m' : State) : Prop where
  rip : m'.rip = m.top
  rsp : m'.reg .rsp = m.reg .rsp + 8
  kept : ∀ r ∈ calleeSaved, m'.reg r = m.reg r
  up : m'.flag DF = false

/-- A range does not meet the words of the stack from `room` bytes below its top to the return
address. -/
def OffStack (m : State) (room a n : ℕ) : Prop :=
  a + n + room ≤ (m.reg .rsp).toNat ∨ (m.reg .rsp).toNat + 8 ≤ a

variable {code : UInt64 → Option Instr} {m m' : State} {n : ℕ}

lemma reg_ret {r : Reg} (h : r ≠ .rsp) : (exec .ret m).reg r = m.reg r :=
  State.set_of_ne m (m.reg .rsp + 8) h

/-- The end of a function that left the stack as it was. -/
lemma returned_ret {m₁ : State} (hrsp : m₁.reg .rsp = m.reg .rsp)
    (hmem : ∀ x, (m.reg .rsp).toNat ≤ x → x < (m.reg .rsp).toNat + 8 → m₁.mem x = m.mem x)
    (hkept : ∀ r ∈ calleeSaved, m₁.reg r = m.reg r) (hdf : m₁.flag DF = false) :
    Returned m (exec .ret m₁) where
  rip := by
    show m₁.top = m.top
    rw [State.top, State.top, hrsp]
    exact word_congr hmem
  rsp := by
    show (m₁.set .rsp (m₁.reg .rsp + 8)).reg .rsp = _
    rw [State.set_self, hrsp]
  kept r hr := by
    have hne : r ≠ .rsp := by
      rintro rfl
      simp [calleeSaved] at hr
    rw [← hkept r hr]
    exact reg_ret hne
  up := hdf

/-- A call with its arguments.  Every byte of the memory is the last one of its address. -/
def called (rdi rsi rdx : UInt64) : State where
  reg := fun r =>
    match r with
    | .rdi => rdi
    | .rsi => rsi
    | .rdx => rdx
    | .rsp => 0x8000
    | _ => 0
  rip := 0x1000
  rflags := 2
  cs := 0x28
  ss := 0x30
  mem := fun a => UInt8.ofNat a

lemma called_ready (f : UInt64 → List Instr) (h : (f 0x1000).length < 2 ^ 64)
    (rdi rsi rdx : UInt64) : Called (codeAt 0x1000 (f 0x1000)) f (called rdi rsi rdx) where
  loaded := loaded_codeAt h
  up := show bit DF 2 = false by decide
  room := show 8 ≤ (0x8000 : UInt64).toNat by decide
  stack := show (0x8000 : UInt64).toNat + 8 ≤ 2 ^ 64 by decide

/-! ## The functions -/

/-- **`memcpy` copies byte by byte, upwards.** -/
theorem memcpy_copies (h : Called code memcpy m)
    (hs : (m.reg .rsi).toNat + (m.reg .rdx).toNat ≤ 2 ^ 64)
    (hd : (m.reg .rdi).toNat + (m.reg .rdx).toNat ≤ 2 ^ 64)
    (hstack : OffStack m 0 (m.reg .rdi).toNat (m.reg .rdx).toNat) :
    Reaches code (fun m' => Returned m m' ∧ m'.reg .rax = m.reg .rdi ∧
      m'.mem = TurbOS.memcpy m.mem (m.reg .rdi).toNat (m.reg .rsi).toNat (m.reg .rdx).toNat) m := by
  obtain ⟨h₀, h₁, h₂, h₃, -⟩ := h.loaded
  have hkept : ∀ x, (m.reg .rsp).toNat ≤ x → x < (m.reg .rsp).toNat + 8 →
      copy m.mem (m.reg .rdi).toNat (m.reg .rsi).toNat (m.reg .rdx).toNat x =
        m.mem x := fun x hx hx' =>
    copy_outside (by rcases hstack with h | h <;> omega)
  apply Reaches.step h₀
  apply Reaches.step h₁
  refine .runs (runs_repMovsb_up h₂ h.up rfl hs hd) ?_
  apply Reaches.step h₃
  exact .done ⟨returned_ret rfl hkept (fun r hr => by fin_cases hr <;> rfl) h.up, rfl, rfl⟩

/-- The range that is read lies two bytes below the one that is written, so its first bytes are
repeated. -/
theorem memcpy_copies_upwards :
    ∃ m', Runs (codeAt 0x1000 (memcpy 0x1000)) (called 0x2002 0x2000 4) m' ∧
    (List.range 6).map (fun k => m'.mem (0x2000 + k)) = [0, 1, 0, 1, 0, 1] := by
  obtain ⟨m', hruns, -, -, hmem⟩ := memcpy_copies
    (called_ready memcpy (by decide) 0x2002 0x2000 4) (by decide) (by decide) (.inl (by decide))
  refine ⟨m', hruns, ?_⟩
  rw [hmem]
  decide +kernel

/-- **`memset` fills a range**, and uses one word below the stack pointer. -/
theorem memset_fills (h : Called code memset m)
    (hd : (m.reg .rdi).toNat + (m.reg .rdx).toNat ≤ 2 ^ 64)
    (hstack : OffStack m 8 (m.reg .rdi).toNat (m.reg .rdx).toNat) :
    Reaches code (fun m' => Returned m m' ∧ m'.reg .rax = m.reg .rdi ∧
      ∀ x, x + 8 < (m.reg .rsp).toNat ∨ (m.reg .rsp).toNat ≤ x →
        m'.mem x =
          TurbOS.memset m.mem (m.reg .rdi).toNat (low (m.reg .rsi)) (m.reg .rdx).toNat x) m := by
  obtain ⟨h₀, h₁, h₂, h₃, h₄, h₅, -⟩ := h.loaded
  have hroom := h.room
  have hlow : (m.reg .rsp - 8).toNat = (m.reg .rsp).toNat - 8 := toNat_sub_ofNat hroom
  have hfill : ∀ x, (m.reg .rsp).toNat ≤ x + 8 → x < (m.reg .rsp).toNat + 8 →
      fill (store m.mem (m.reg .rsp - 8).toNat 8 (m.reg .rdi).toNat) (m.reg .rdi).toNat
        (low (m.reg .rsi)) (m.reg .rdx).toNat x = store m.mem (m.reg .rsp - 8).toNat 8
          (m.reg .rdi).toNat x := fun x hx hx' =>
    fill_outside (by rcases hstack with h | h <;> omega)
  -- the word that was pushed is found again
  have hpop : UInt64.ofNat (load (fill (store m.mem (m.reg .rsp - 8).toNat 8 (m.reg .rdi).toNat)
    (m.reg .rdi).toNat
      (low (m.reg .rsi)) (m.reg .rdx).toNat) (m.reg .rsp - 8).toNat 8) = m.reg .rdi := by
    rw [load_congr fun x hx hx' => hfill x (by omega) (by omega), ofNat_load_store]
  have hkept : ∀ x, (m.reg .rsp).toNat ≤ x → x < (m.reg .rsp).toNat + 8 →
      fill (store m.mem (m.reg .rsp - 8).toNat 8 (m.reg .rdi).toNat) (m.reg .rdi).toNat
        (low (m.reg .rsi)) (m.reg .rdx).toNat x = m.mem x := fun x hx hx' => by
    rw [hfill x (by omega) hx', store_outside (by omega)]
  apply Reaches.step h₀
  apply Reaches.step h₁
  apply Reaches.step h₂
  refine .runs (runs_repStosb_up h₃ h.up rfl hd) ?_
  apply Reaches.step h₄
  apply Reaches.step h₅
  refine .done ⟨returned_ret (sub_add_cancel (m.reg .rsp) 8) hkept (fun r hr => ?_) h.up, hpop,
    fun x hx => ?_⟩
  · fin_cases hr <;> rfl
  · show fill (store m.mem (m.reg .rsp - 8).toNat 8 (m.reg .rdi).toNat) _ _ _ x = fill m.mem _ _ _ x
    rw [fill, fill, store_outside (by omega)]
    rfl

/-- Three bytes. -/
theorem memset_fills_three : ∃ m', Runs (codeAt 0x1000 (memset 0x1000)) (called 0x2000 0x1FF 3) m' ∧
    (List.range 4).map (fun k => m'.mem (0x2000 + k)) = [255, 255, 255, 3] := by
  obtain ⟨m', hruns, -, -, hmem⟩ := memset_fills
    (called_ready memset (by decide) 0x2000 0x1FF 3) (by decide) (.inl (by decide))
  have hbyte : ∀ k < 4, m'.mem (0x2000 + k) = TurbOS.memset (called 0x2000 0x1FF 3).mem 0x2000 255 3
      (0x2000 + k) := by
    intro k hk
    exact hmem _ (.inl (show 0x2000 + k + 8 < 0x8000 by omega))
  refine ⟨m', hruns, ?_⟩
  rw [List.map_congr_left fun k hk => hbyte k (List.mem_range.mp hk)]
  decide +kernel

/-- The last address of a range. -/
lemma toNat_last {a c : UInt64} (hc : 0 < c.toNat) (h : a.toNat + c.toNat ≤ 2 ^ 64) :
    (a + c + -1).toNat = a.toNat + c.toNat - 1 := by
  have hone : (-1 : UInt64).toNat = 2 ^ 64 - 1 := rfl
  rw [UInt64.toNat_add, UInt64.toNat_add, hone]
  omega

/-- `ja` behind a comparison. -/
lemma exec_ja_cmp (a b : Reg) (t : UInt64) (m : State) : exec (.ja t) (exec (.cmp a b) m) =
    if (m.reg b).toNat < (m.reg a).toNat then { exec (.cmp a b) m with rip := t }
    else (exec (.cmp a b) m).next := by
  have hcf : (exec (.cmp a b) m).flag CF = decide ((m.reg a).toNat < (m.reg b).toNat) :=
    bit_CF_subFlags ..
  have hzf : (exec (.cmp a b) m).flag ZF = decide ((m.reg a).toNat = (m.reg b).toNat) :=
    bit_ZF_subFlags _ (m.reg a).toNat_lt (m.reg b).toNat_lt
  have hja : ∀ m', exec (.ja t) m' = if !m'.flag CF && !m'.flag ZF then { m' with rip := t }
      else m'.next :=
    fun m' => rfl
  rw [hja, hcf, hzf]
  by_cases h : (m.reg b).toNat < (m.reg a).toNat
  · rw [if_pos h, if_pos (by simp; omega)]
  · rw [if_neg h, if_neg (by simp; omega)]

/-- What `memmove` has done in front of its last instruction. -/
structure Moved (m m' : State) : Prop where
  kept : ∀ r, r ≠ .rcx → r ≠ .rsi → r ≠ .rdi → m'.reg r = m.reg r
  mem : m'.mem = move m.mem (m.reg .rdi).toNat (m.reg .rsi).toNat (m.reg .rcx).toNat
  up : m'.flag DF = false

/-- The part of `memmove` behind the label `copy_backwards`. -/
lemma copy_backwards {a : UInt64} (ha : a = m.rip + 1 + 1 + 1 + 1 + 1)
    (hcode : Loaded code m.rip [.lea .rdi .rdi .rcx (-1), .lea .rsi .rsi .rcx (-1), .std, .repMovsb,
    .cld])
    (hs : (m.reg .rsi).toNat + (m.reg .rcx).toNat ≤ 2 ^ 64)
    (hd : (m.reg .rdi).toNat + (m.reg .rcx).toNat ≤ 2 ^ 64)
    (hlt : (m.reg .rsi).toNat < (m.reg .rdi).toNat) :
    Reaches code (fun m' => m'.rip = a ∧ Moved m m') m := by
  obtain ⟨h₀, h₁, h₂, h₃, h₄, -⟩ := hcode
  apply Reaches.step h₀
  apply Reaches.step h₁
  apply Reaches.step h₂
  obtain ⟨m₁, hm₁⟩ : ∃ m₁,
      exec .std (exec (.lea .rsi .rsi .rcx (-1)) (exec (.lea .rdi .rdi .rcx (-1)) m)) = m₁ :=
    ⟨_, rfl⟩
  have hrip : m₁.rip = m.rip + 1 + 1 + 1 := by rw [← hm₁]; rfl
  have hrsi : m₁.reg .rsi = m.reg .rsi + m.reg .rcx + -1 := by rw [← hm₁]; rfl
  have hrdi : m₁.reg .rdi = m.reg .rdi + m.reg .rcx + -1 := by rw [← hm₁]; rfl
  have hrcx : m₁.reg .rcx = m.reg .rcx := by rw [← hm₁]; rfl
  have hkept : ∀ r, r ≠ .rcx → r ≠ .rsi → r ≠ .rdi → m₁.reg r = m.reg r := by
    intro r _ hr hr'
    rw [← hm₁]
    cases r <;> first | contradiction | rfl
  have hmem : m₁.mem = m.mem := by rw [← hm₁]; rfl
  have hdf : m₁.flag DF = true := by rw [← hm₁]; exact bit_setBit_self _ _ _ (by decide)
  rw [hm₁]
  have hlast : ∀ hn : 0 < (m.reg .rcx).toNat,
      (m₁.reg .rsi).toNat = (m.reg .rsi).toNat + (m.reg .rcx).toNat - 1 ∧
        (m₁.reg .rdi).toNat = (m.reg .rdi).toNat + (m.reg .rcx).toNat - 1 := by
    intro hn
    rw [hrsi, hrdi]
    exact ⟨toNat_last hn hs, toNat_last hn hd⟩
  have hcode : code m₁.rip = some .repMovsb := by rw [hrip]; exact h₃
  apply Reaches.runs (runs_repMovsb_down hcode hdf (by rw [hrcx]) (fun hn => (hlast hn).1)
    (fun hn => (hlast hn).2) hlt.le)
  apply Reaches.step (i := .cld) (by rw [State.next_rip, State.str_rip, hrip]; exact h₄)
  refine .done ⟨by rw [ha, ← hrip]; rfl,
    ⟨fun r hr hr' hr'' => ?_, ?_, bit_setBit_self _ _ _ (by decide)⟩⟩
  · rw [← hkept r hr hr' hr'']
    cases r <;> first | contradiction | rfl
  · rw [← hmem]
    rfl

/-- The part of `memmove` in front of the label. -/
lemma copy_forwards {done : UInt64} (h₀ : code m.rip = some .repMovsb)
    (h₁ : code (m.rip + 1) = some (.jmp done))
    (hdf : m.flag DF = false) (hs : (m.reg .rsi).toNat + (m.reg .rcx).toNat ≤ 2 ^ 64)
    (hd : (m.reg .rdi).toNat + (m.reg .rcx).toNat ≤ 2 ^ 64)
    (hle : (m.reg .rdi).toNat ≤ (m.reg .rsi).toNat) :
    Reaches code (fun m' => m'.rip = done ∧ Moved m m') m := by
  apply Reaches.runs (runs_repMovsb_up h₀ hdf rfl hs hd)
  apply Reaches.step (i := .jmp done) h₁
  refine .done ⟨rfl, ⟨fun r hr hr' hr'' => ?_, ?_, hdf⟩⟩
  · cases r <;> first | contradiction | rfl
  · rw [← copy_eq_move (.inr hle)]
    rfl

/-- The end of `memmove`. -/
lemma memmove_ret {m₁ m₂ : State} (hcode : code m₂.rip = some .ret) (h : Moved m₁ m₂)
    (hkept : ∀ r, r ≠ .rcx → r ≠ .rax → m₁.reg r = m.reg r) (hrax : m₁.reg .rax = m.reg .rdi)
    (hrcx : m₁.reg .rcx = m.reg .rdx) (hmem : m₁.mem = m.mem)
    (hstack : OffStack m 0 (m.reg .rdi).toNat (m.reg .rdx).toNat) :
    Reaches code (fun m' => Returned m m' ∧ m'.reg .rax = m.reg .rdi ∧
      m'.mem = move m.mem (m.reg .rdi).toNat (m.reg .rsi).toNat (m.reg .rdx).toNat) m₂ := by
  have hmoved : m₂.mem = move m.mem (m.reg .rdi).toNat (m.reg .rsi).toNat (m.reg .rdx).toNat := by
    rw [h.mem, hkept .rdi (by decide) (by decide), hkept .rsi (by decide) (by decide), hrcx, hmem]
  have hregs : ∀ r, r ≠ .rcx → r ≠ .rsi → r ≠ .rdi → r ≠ .rax → m₂.reg r = m.reg r := by
    intro r hr hr' hr'' hax
    rw [h.kept r hr hr' hr'', hkept r hr hax]
  refine .step hcode (.done ⟨returned_ret ?_ (fun x hx hx' => ?_) (fun r hr => ?_) h.up, ?_,
    hmoved⟩)
  · exact hregs _ (by decide) (by decide) (by decide) (by decide)
  · rw [hmoved]
    exact if_neg (by rcases hstack with h | h <;> omega)
  · fin_cases hr <;> exact hregs _ (by decide) (by decide) (by decide) (by decide)
  · rw [reg_ret (by decide), h.kept .rax (by decide) (by decide) (by decide), hrax]

/-- **`memmove` moves a range to where it is asked to**, however the two ranges overlap, and leaves
the direction flag clear. -/
theorem memmove_moves (h : Called code memmove m)
    (hs : (m.reg .rsi).toNat + (m.reg .rdx).toNat ≤ 2 ^ 64)
    (hd : (m.reg .rdi).toNat + (m.reg .rdx).toNat ≤ 2 ^ 64)
    (hstack : OffStack m 0 (m.reg .rdi).toNat (m.reg .rdx).toNat) :
    Reaches code (fun m' => Returned m m' ∧ m'.reg .rax = m.reg .rdi ∧
      m'.mem = move m.mem (m.reg .rdi).toNat (m.reg .rsi).toNat (m.reg .rdx).toNat) m := by
  obtain ⟨h₀, h₁, h₂, h₃, h₄, h₅, h₆, h₇, h₈, h₉, h₁₀, h₁₁, -⟩ := h.loaded
  have hlabel : m.rip + 1 + 1 + 1 + 1 + 1 + 1 = m.rip + 6 := by
    simp only [add_assoc]
    rfl
  have hdone : m.rip + 6 + 1 + 1 + 1 + 1 + 1 = m.rip + 11 := by
    simp only [add_assoc]
    rfl
  rw [hlabel] at h₆ h₇ h₈ h₉ h₁₀ h₁₁
  rw [hdone] at h₁₁
  obtain ⟨m₁, hm₁⟩ : ∃ m₁,
    exec (.cmp .rdi .rsi) (exec (.mov .rax .rdi) (exec (.mov .rcx .rdx) m)) = m₁ := ⟨_, rfl⟩
  have hfacts : m₁.rip = m.rip + 1 + 1 + 1 ∧ m₁.reg .rcx = m.reg .rdx ∧ m₁.reg .rax = m.reg .rdi ∧
      m₁.mem = m.mem ∧ m₁.flag DF = false := by
    rw [← hm₁]
    exact ⟨rfl, rfl, rfl, rfl, (bit_DF_resultFlags ..).trans h.up⟩
  obtain ⟨hrip, hrcx, hrax, hmem, hdf⟩ := hfacts
  have hkept : ∀ r, r ≠ .rcx → r ≠ .rax → m₁.reg r = m.reg r := by
    intro r _ _
    rw [← hm₁]
    cases r <;> first | contradiction | rfl
  have hrdi := hkept .rdi (by decide) (by decide)
  have hrsi := hkept .rsi (by decide) (by decide)
  rw [← hrcx, ← hrsi] at hs
  rw [← hrcx, ← hrdi] at hd
  -- both ways lead to the last instruction
  have hend : ∀ m₂, m₂.rip = m.rip + 11 ∧ Moved m₁ m₂ → Reaches code (fun m' => Returned m m' ∧
      m'.reg .rax = m.reg .rdi ∧
        m'.mem = move m.mem (m.reg .rdi).toNat (m.reg .rsi).toNat (m.reg .rdx).toNat) m₂ :=
    fun m₂ ⟨hrip₂, hmoved⟩ =>
      memmove_ret (by rw [hrip₂]; exact h₁₁) hmoved hkept hrax hrcx hmem hstack
  have hja : exec (.ja (m.rip + 6)) m₁ =
      if (m₁.reg .rsi).toNat < (m₁.reg .rdi).toNat then { m₁ with rip := m.rip + 6 }
      else m₁.next := by
    rw [hrsi, hrdi, ← hm₁]
    exact exec_ja_cmp ..
  apply Reaches.step h₀
  apply Reaches.step h₁
  apply Reaches.step h₂
  rw [hm₁]
  apply Reaches.step (i := .ja (m.rip + 6)) (by rw [hrip]; exact h₃)
  rw [hja]
  split
  · rename_i hlt
    exact .bind (copy_backwards (m := { m₁ with rip := m.rip + 6 }) hdone.symm
      ⟨h₆, h₇, h₈, h₉, h₁₀, trivial⟩ hs hd hlt)
      fun m₂ ⟨hrip₂, hmoved⟩ => hend m₂ ⟨hrip₂, ⟨hmoved.kept, hmoved.mem, hmoved.up⟩⟩
  · rename_i hle
    exact .bind (copy_forwards (m := m₁.next) (by rw [State.next_rip, hrip]; exact h₄)
      (by rw [State.next_rip, hrip]; exact h₅) hdf hs hd (Nat.le_of_not_lt hle))
      fun m₂ ⟨hrip₂, hmoved⟩ => hend m₂ ⟨hrip₂, ⟨hmoved.kept, hmoved.mem, hmoved.up⟩⟩

/-- A range that is moved up by two bytes arrives as it was. -/
theorem memmove_moves_upwards :
    ∃ m', Runs (codeAt 0x1000 (memmove 0x1000)) (called 0x2002 0x2000 4) m' ∧
    (List.range 6).map (fun k => m'.mem (0x2000 + k)) = [0, 1, 0, 1, 2, 3] := by
  obtain ⟨m', hruns, -, -, hmem⟩ := memmove_moves
    (called_ready memmove (by decide) 0x2002 0x2000 4) (by decide)
    (by decide) (.inl (by decide))
  refine ⟨m', hruns, ?_⟩
  rw [hmem]
  decide +kernel

/-! ## `memcmp` -/

lemma low_setLow (v : UInt64) (b : UInt8) : low (v - (low v).toUInt64 + b.toUInt64) = b := by
  have h : (low v).toUInt64.toUInt8 = low v := UInt8.toUInt8_toUInt64 _
  rw [low, UInt64.toUInt8_add, UInt64.toUInt8_sub, h, UInt8.toUInt8_toUInt64, low, sub_self,
    zero_add]

/-- The `int` that `movsx` makes of a byte. -/
lemma toInt_movsx (b : UInt8) :
    b.toInt8.toInt64.toUInt64.toUInt32.toInt32.toInt = b.toBitVec.toInt := by
  have hcut : (b.toBitVec.signExtend 64).setWidth 32 = b.toBitVec.signExtend 32 := by
    ext k hk
    have hlt : k < 64 := by omega
    rw [BitVec.getElem_setWidth, BitVec.getLsbD_signExtend, BitVec.getElem_signExtend]
    simp only [hlt, decide_true, Bool.true_and]
    split <;> simp [*]
  have hle := b.toBitVec.le_toInt
  have hlt := b.toBitVec.toInt_lt
  show ((b.toBitVec.signExtend 64).setWidth 32).toInt = b.toBitVec.toInt
  rw [hcut, BitVec.toInt_signExtend]
  exact Int.bmod_eq_of_le (by simp at hle ⊢; omega) (by simp at hlt ⊢; omega)

lemma toUInt32_eq_zero_iff (v : UInt64) : v.toUInt32 = 0 ↔ 2 ^ 32 ∣ v.toNat := by
  have hnat : v.toUInt32.toNat = v.toNat % 2 ^ 32 := rfl
  have hzero : (0 : UInt32).toNat = 0 := rfl
  rw [← UInt32.toNat_inj, hnat, hzero, Nat.dvd_iff_mod_eq_zero]

/-- The part of `memcmp` behind the comparison. -/
lemma memcmp_result {m₁ : State} (hcode : Loaded code m.rip (memcmp m.rip))
    (hrip : m₁.rip = m.rip + 1 + 1)
    (hkept : ∀ r, r ≠ .rcx → r ≠ .rsi → r ≠ .rdi → m₁.reg r = m.reg r) (hmem : m₁.mem = m.mem)
    (hdf : m₁.flag DF = false) :
    Reaches code (fun m' => Returned m m' ∧ m'.mem = m.mem ∧ m'.reg .rax =
      if 2 ^ 32 ∣ (m₁.reg .rcx).toNat then 0
      else (m.mem (m₁.reg .rdi + -1).toNat - m.mem
        (m₁.reg .rsi + -1).toNat).toInt8.toInt64.toUInt64) m₁ := by
  obtain ⟨-, -, h₂, h₃, h₄, h₅, h₆, h₇, h₈, -⟩ := hcode
  -- the last instruction, with the result in `rax`
  have hret : ∀ (m₂ : State) (v : UInt64), m₂.rip = m.rip + 8 →
    (∀ r, r ≠ .rax → m₂.reg r = m₁.reg r) → m₂.mem = m.mem → m₂.flag DF = false → m₂.reg .rax = v →
      Reaches code (fun m' => Returned m m' ∧ m'.mem = m.mem ∧ m'.reg .rax = v) m₂ := by
    intro m₂ v hrip₂ hkept₂ hmem₂ hdf₂ hrax
    have hret : code m₂.rip = some .ret := by
      rw [hrip₂, ← h₈]
      simp only [add_assoc]
      rfl
    refine .step hret (.done ⟨returned_ret ?_ (fun x _ _ => by rw [hmem₂]) (fun r hr => ?_) hdf₂,
      hmem₂, ?_⟩)
    · rw [hkept₂ _ (by decide), hkept _ (by decide) (by decide) (by decide)]
    · fin_cases hr <;> rw [hkept₂ _ (by decide), hkept _ (by decide) (by decide) (by decide)]
    · rw [← hrax]
      exact reg_ret (by decide)
  have hjecxz : exec (.jecxz (m.rip + 7)) m₁ =
      if 2 ^ 32 ∣ (m₁.reg .rcx).toNat then { m₁ with rip := m.rip + 7 } else m₁.next := by
    rw [exec]
    simp only [toUInt32_eq_zero_iff]
  apply Reaches.step (i := .jecxz (m.rip + 7)) (by rw [hrip]; exact h₂)
  rw [hjecxz]
  by_cases hcount : 2 ^ 32 ∣ (m₁.reg .rcx).toNat
  · -- taken for equality
    rw [if_pos hcount, if_pos hcount]
    obtain ⟨m₂, hm₂⟩ : ∃ m₂ : State, { m₁ with rip := m.rip + 7 } = m₂ := ⟨_, rfl⟩
    have hreg₂ : m₂.reg = m₁.reg ∧ m₂.mem = m₁.mem ∧ m₂.rip = m.rip + 7 ∧ m₂.flag DF = false := by
      rw [← hm₂]
      exact ⟨rfl, rfl, rfl, hdf⟩
    obtain ⟨hreg, hmem₂, hrip₂, hdf₂⟩ := hreg₂
    have hcode : code m₂.rip = some (.xor32 .rax .rax) := by
      rw [hrip₂, ← h₇]
      simp only [add_assoc]
      rfl
    rw [hm₂]
    apply Reaches.step hcode
    refine hret _ 0 ?_ (fun r hr => ?_) (hmem₂.trans hmem) ((bit_DF_resultFlags ..).trans hdf₂) ?_
    · show m₂.rip + 1 = m.rip + 8
      rw [hrip₂, add_assoc]
      rfl
    · rw [← hreg]
      exact State.set_of_ne _ _ hr
    · show ((m₂.reg .rax).toUInt32 ^^^ (m₂.reg .rax).toUInt32).toUInt64 = 0
      rw [UInt32.xor_self]
      rfl
  · rw [if_neg hcount, if_neg hcount]
    obtain ⟨m₂, hm₂⟩ : ∃ m₂, exec (.movsxByte .rax .rax) (exec (.subByte .rax .rsi (-1))
        (exec (.movByte .rax .rdi (-1)) m₁.next)) = m₂ := ⟨_, rfl⟩
    have hkept₂ : ∀ r, r ≠ .rax → m₂.reg r = m₁.reg r := by
      intro r _
      rw [← hm₂]
      cases r <;> first | contradiction | rfl
    have hrip₂ : m₂.rip = m.rip + 1 + 1 + 1 + 1 + 1 + 1 := by
      rw [← hm₂, ← hrip]
      rfl
    have hmem₂ : m₂.mem = m.mem := by
      rw [← hm₂, ← hmem]
      rfl
    have hdf₂ : m₂.flag DF = false := by
      rw [← hm₂]
      exact (bit_DF_resultFlags ..).trans hdf
    have hrax : m₂.reg .rax =
        (m.mem (m₁.reg .rdi + -1).toNat - m.mem
          (m₁.reg .rsi + -1).toNat).toInt8.toInt64.toUInt64 := by
      obtain ⟨v, hv⟩ : ∃ v, m₁.reg .rax - (low (m₁.reg .rax)).toUInt64 +
          (m₁.mem (m₁.reg .rdi + -1).toNat).toUInt64 = v := ⟨_, rfl⟩
      have hlow : low v = m.mem (m₁.reg .rdi + -1).toNat := by rw [← hv, low_setLow, hmem]
      have hregs : m₂.reg .rax = (low (v - (low v).toUInt64 +
          (low v - m₁.mem (m₁.reg .rsi + -1).toNat).toUInt64)).toInt8.toInt64.toUInt64 := by
        rw [← hm₂, ← hv]
        rfl
      rw [hregs, low_setLow, hlow, hmem]
    apply Reaches.step (i := .movByte .rax .rdi (-1)) (by rw [State.next_rip, hrip]; exact h₃)
    apply Reaches.step (i := .subByte .rax .rsi (-1)) (by rw [← h₄, ← hrip]; rfl)
    apply Reaches.step (i := .movsxByte .rax .rax) (by rw [← h₅, ← hrip]; rfl)
    rw [hm₂]
    apply Reaches.step (i := .jmp (m.rip + 8)) (by rw [hrip₂]; exact h₆)
    exact hret _ _ rfl hkept₂ hmem₂ hdf₂ hrax

/-- The address of the last byte that was compared. -/
lemma add_ofNat_pred {v : UInt64} {k : ℕ} (h : v.toNat + k < 2 ^ 64) :
    (v + UInt64.ofNat (k + 1) + -1).toNat = v.toNat + k := by
  rw [← add_ofNat_succ, add_neg_cancel_right, toNat_add_ofNat h]

/-- The bytes from an address on. -/
def bytesAt (mem : Mem) (a : ℕ) : ℕ → List UInt8
  | 0 => []
  | n + 1 => mem a :: bytesAt mem (a + 1) n

section Raw

variable {mm : MappedMemory.Memory} {a s : ℕ}

lemma read_mapped (hn : 0 < n) (h : ∀ k < n, mm.mapped (a + k)) : mm.read a = some (mm.bytes a) :=
  if_pos (h 0 hn)

lemma raw_memcmp_equal (hmapped : ∀ k < n, mm.mapped (a + k))
    (heq : ∀ k < n, mm.bytes (a + k) = mm.bytes (s + k)) :
    Str.Raw.memcmp mm a (bytesAt mm.bytes s n) = some 0 := by
  induction n generalizing a s with
  | zero => rfl
  | succ n ih =>
    rw [bytesAt, Str.Raw.memcmp, read_mapped (by omega) hmapped, Option.bind_some,
      if_pos (show mm.bytes a = mm.bytes s from heq 0 (by omega))]
    refine ih (fun k hk => ?_) fun k hk => ?_
    · rw [add_assoc, add_comm 1]
      exact hmapped (k + 1) (by omega)
    · rw [add_assoc, add_assoc, add_comm 1]
      exact heq (k + 1) (by omega)

lemma raw_memcmp_differ {j : ℕ} (hj : j < n) (hmapped : ∀ k < n, mm.mapped (a + k))
    (heq : ∀ k < j, mm.bytes (a + k) = mm.bytes (s + k))
    (hne : mm.bytes (a + j) ≠ mm.bytes (s + j)) :
    Str.Raw.memcmp mm a (bytesAt mm.bytes s n) =
      some (if n = j + 1 then 0 else (mm.bytes (a + j) - mm.bytes (s + j)).toBitVec.toInt) := by
  induction j generalizing a s n with
  | zero =>
    obtain ⟨n, rfl⟩ : ∃ k, n = k + 1 := ⟨n - 1, by omega⟩
    rw [bytesAt, Str.Raw.memcmp, read_mapped (by omega) hmapped, Option.bind_some,
      if_neg (show mm.bytes a ≠ mm.bytes s from hne)]
    cases n with
    | zero => rfl
    | succ n => rw [bytesAt, if_neg (by simp), if_neg (by omega)]; rfl
  | succ j ih =>
    obtain ⟨n, rfl⟩ : ∃ k, n = k + 1 := ⟨n - 1, by omega⟩
    have hshift : ∀ b k, b + 1 + k = b + (k + 1) := fun b k => by omega
    rw [bytesAt, Str.Raw.memcmp, read_mapped (by omega) hmapped, Option.bind_some,
      if_pos (show mm.bytes a = mm.bytes s from heq 0 (by omega)),
      ih (by omega) (fun k hk => by rw [hshift]; exact hmapped (k + 1) (by omega))
        (fun k hk => by rw [hshift, hshift]; exact heq (k + 1) (by omega))
          (by rw [hshift, hshift]; exact hne),
      hshift, hshift]
    simp only [Nat.add_right_cancel_iff]

end Raw

/-- What `memcmp` leaves in `rax`, for `n` bytes at `d` and at `s`: zero for equal ranges, and
otherwise the difference of the first two bytes that differ, as a signed byte, unless the number of
the bytes behind this place is a multiple of `2 ^ 32`. -/
structure Compared (mem : Mem) (d s n : ℕ) (rax : UInt64) : Prop where
  equal : (∀ k < n, mem (d + k) = mem (s + k)) → rax = 0
  differ : ∀ j < n, (∀ k < j, mem (d + k) = mem (s + k)) → mem (d + j) ≠ mem (s + j) →
    rax = if 2 ^ 32 ∣ n - (j + 1) then 0 else (mem (d + j) - mem (s + j)).toInt8.toInt64.toUInt64

/-- The first place where two ranges differ. -/
lemma exists_first {mem : Mem} {d s : ℕ} (h : ¬ ∀ k < n, mem (d + k) = mem (s + k)) :
    ∃ j < n, (∀ k < j, mem (d + k) = mem (s + k)) ∧ mem (d + j) ≠ mem (s + j) := by
  simp only [not_forall] at h
  obtain ⟨hlt, hne⟩ := Nat.find_spec h
  refine ⟨Nat.find h, hlt, fun k hk => ?_, hne⟩
  by_contra hk'
  exact Nat.find_min h hk ⟨by omega, hk'⟩

/-- Below `2 ^ 32` bytes it is what the functions for strings take `memcmp` for. -/
lemma Compared.raw {mem : Mem} {d s : ℕ} {rax : UInt64} (h : Compared mem d s n rax)
    (hn : n < 2 ^ 32)
    {mm : MappedMemory.Memory} (hmm : mm.bytes = mem) (hmapped : ∀ k < n, mm.mapped (d + k)) :
    Str.Raw.memcmp mm d (bytesAt mem s n) = some rax.toUInt32.toInt32.toInt := by
  subst hmm
  by_cases heq : ∀ k < n, mm.bytes (d + k) = mm.bytes (s + k)
  · rw [raw_memcmp_equal hmapped heq, h.equal heq]
    rfl
  · obtain ⟨j, hj, hfirst, hne⟩ := exists_first heq
    have hdvd : 2 ^ 32 ∣ n - (j + 1) ↔ n = j + 1 := by
      refine ⟨fun ⟨q, hq⟩ => ?_, fun h => ⟨0, by omega⟩⟩
      rcases Nat.eq_zero_or_pos q with rfl | hq' <;> omega
    rw [raw_memcmp_differ hj hmapped hfirst hne, h.differ j hj hfirst hne]
    simp only [hdvd]
    split
    · rfl
    · rw [toInt_movsx]

/-- **What `memcmp` returns.**  A difference in the last byte is not seen. -/
theorem memcmp_compares (h : Called code memcmp m)
    (hs : (m.reg .rsi).toNat + (m.reg .rdx).toNat ≤ 2 ^ 64)
    (hd : (m.reg .rdi).toNat + (m.reg .rdx).toNat ≤ 2 ^ 64) :
    Reaches code (fun m' => Returned m m' ∧ m'.mem = m.mem ∧
      Compared m.mem (m.reg .rdi).toNat (m.reg .rsi).toNat (m.reg .rdx).toNat (m'.reg .rax)) m := by
  obtain ⟨m₁, hm₁⟩ : ∃ m₁, exec (.mov .rcx .rdx) m = m₁ := ⟨_, rfl⟩
  have hregs : m₁.reg .rdi = m.reg .rdi ∧ m₁.reg .rsi = m.reg .rsi ∧ m₁.reg .rcx = m.reg .rdx ∧
    m₁.mem = m.mem ∧ m₁.rip = m.rip + 1 ∧ m₁.flag DF = false := by
    rw [← hm₁]
    exact ⟨rfl, rfl, rfl, rfl, rfl, h.up⟩
  obtain ⟨hrdi, hrsi, hrcx, hmem, hrip, hdf⟩ := hregs
  have hkept : ∀ k r, r ≠ .rcx → r ≠ .rsi → r ≠ .rdi → (m₁.compared k).next.reg r = m.reg r := by
    intro k r _ _ _
    rw [← hm₁]
    cases r <;> first | contradiction | rfl
  have hdf' : ∀ k, (m₁.compared k).next.flag DF = false := fun k => (bit_DF_cmpFlags ..).trans hdf
  have hrip' : ∀ k, (m₁.compared k).next.rip = m.rip + 1 + 1 := fun k => by rw [← hrip]; rfl
  have hcount : ∀ k ≤ (m.reg .rdx).toNat,
      ((m₁.compared k).next.reg .rcx).toNat = (m.reg .rdx).toNat - k := by
    intro k hk
    have hreg : (m₁.compared k).next.reg .rcx = m₁.reg .rcx - UInt64.ofNat k := rfl
    rw [hreg, hrcx, toNat_sub_ofNat hk]
  have hcode : code m₁.rip = some .repeCmpsb := by
    rw [hrip]
    exact h.loaded.2.1
  apply Reaches.step h.loaded.1
  rw [hm₁]
  by_cases heq : ∀ k < (m.reg .rdx).toNat,
    m.mem ((m.reg .rdi).toNat + k) = m.mem ((m.reg .rsi).toNat + k)
  · -- equal ranges
    apply Reaches.runs (runs_repeCmpsb_equal (n := (m.reg .rdx).toNat) hcode hdf (by rw [hrcx])
      (by rw [hrsi]; exact hs)
      (by rw [hrdi]; exact hd) (by rw [hrsi, hrdi, hmem]; exact fun k hk => (heq k hk).symm))
    refine (memcmp_result h.loaded (hrip' _) (hkept _) hmem (hdf' _)).bind fun m'
      ⟨hret, hmem', hrax⟩ =>
      .done ⟨hret, hmem', ⟨fun _ => ?_, fun j hj _ hne => absurd (heq j hj) hne⟩⟩
    rw [hrax, if_pos (by rw [hcount _ le_rfl, Nat.sub_self]; exact dvd_zero _)]
  · -- the first difference
    obtain ⟨j, hj, hfirst, hne⟩ := exists_first heq
    apply Reaches.runs (runs_repeCmpsb_differ (j := j) hcode hdf (by rw [hrcx]; exact hj)
      (by rw [hrsi]; omega)
      (by rw [hrdi]; omega) (by rw [hrsi, hrdi, hmem]; exact fun k hk => (hfirst k hk).symm)
      (by rw [hrsi, hrdi, hmem]; exact hne.symm))
    have hdst : ((m₁.compared (j + 1)).next.reg .rdi + -1).toNat = (m.reg .rdi).toNat + j := by
      rw [← hrdi]
      exact add_ofNat_pred (by rw [hrdi]; omega)
    have hsrc : ((m₁.compared (j + 1)).next.reg .rsi + -1).toNat = (m.reg .rsi).toNat + j := by
      rw [← hrsi]
      exact add_ofNat_pred (by rw [hrsi]; omega)
    refine (memcmp_result h.loaded (hrip' _) (hkept _) hmem (hdf' _)).bind fun m'
      ⟨hret, hmem', hrax⟩ =>
      .done ⟨hret, hmem', ⟨fun hall => absurd hall heq, fun j' hj' hfirst' hne' => ?_⟩⟩
    have hsame : j' = j := by
      rcases lt_trichotomy j' j with hlt | heq' | hlt
      · exact absurd (hfirst j' hlt) hne'
      · exact heq'
      · exact absurd (hfirst' j hlt) hne
    rw [hrax, hcount _ hj, hdst, hsrc, hsame]

/-- A difference is seen in the first of two bytes, and not in the only one. -/
theorem memcmp_compares_two :
    (∃ m', Runs (codeAt 0x1000 (memcmp 0x1000)) (called 0x2002 0x2001 2) m' ∧ m'.reg .rax = 1) ∧
      ∃ m', Runs (codeAt 0x1000 (memcmp 0x1000)) (called 0x2002 0x2001 1) m' ∧ m'.reg .rax = 0 := by
  obtain ⟨m₁, hruns₁, -, -, hcompared₁⟩ := memcmp_compares
    (called_ready memcmp (by decide) 0x2002 0x2001 2) (by decide) (by decide)
  obtain ⟨m₂, hruns₂, -, -, hcompared₂⟩ := memcmp_compares
    (called_ready memcmp (by decide) 0x2002 0x2001 1) (by decide) (by decide)
  refine ⟨⟨m₁, hruns₁, ?_⟩, ⟨m₂, hruns₂, ?_⟩⟩
  · rw [hcompared₁.differ 0 (by decide) (fun k hk => absurd hk (Nat.not_lt_zero k))
      (by decide +kernel)]
    decide +kernel
  · rw [hcompared₂.differ 0 (by decide) (fun k hk => absurd hk (Nat.not_lt_zero k))
      (by decide +kernel)]
    decide +kernel

end TurbOS.Asm
