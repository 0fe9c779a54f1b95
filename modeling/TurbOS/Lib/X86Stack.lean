import TurbOS.Lib.X86

/-!
# The stack

`Holds` says which words stand on the stack, the top of the stack first.  A push puts a word in
front of them and a pop takes one away, so a sequence of pushes and pops is followed on the list of
the words.

`Path` is the other half: the instructions that the processor carries out one after the other.
-/

open ByteMemory

namespace X86

variable {code : UInt64 → Option Instr} {m m' : State} {i : Instr} {is is' : List Instr}
  {v w : UInt64} {ws vs : List UInt64} {a : ℕ}

/-! ## Words on the stack -/

/-- These words stand in memory, from an address on. -/
def Words (mem : Mem) : ℕ → List UInt64 → Prop
  | _, [] => True
  | a, w :: ws => UInt64.ofNat (load mem a 8) = w ∧ Words mem (a + 8) ws

/-- These words stand on the stack, which lies within the address space. -/
structure State.Holds (m : State) (ws : List UInt64) : Prop where
  words : Words m.mem (m.reg .rsp).toNat ws
  space : (m.reg .rsp).toNat + 8 * ws.length ≤ 2 ^ 64

lemma Words.congr {mem mem' : Mem} (h : Words mem a ws)
    (heq : ∀ x, a ≤ x → x < a + 8 * ws.length → mem' x = mem x) : Words mem' a ws := by
  induction ws generalizing a with
  | nil => trivial
  | cons w ws ih =>
    rw [List.length_cons] at heq
    refine ⟨?_, ih h.2 fun x hx hx' => heq x (by omega) (by omega)⟩
    rw [load_congr fun x hx hx' => heq x hx (by omega)]
    exact h.1

namespace State

lemma push_rsp (m : State) (v : UInt64) : (m.push v).reg .rsp = m.reg .rsp - 8 :=
  set_self m .rsp (m.reg .rsp - 8)

lemma push_of_ne {r : Reg} (h : r ≠ .rsp) : (m.push v).reg r = m.reg r :=
  set_of_ne m (m.reg .rsp - 8) h

lemma push_outside {x : ℕ} (hroom : 8 ≤ (m.reg .rsp).toNat)
    (h : x + 8 < (m.reg .rsp).toNat ∨ (m.reg .rsp).toNat ≤ x) : (m.push v).mem x = m.mem x := by
  have hlow : (m.reg .rsp - 8).toNat = (m.reg .rsp).toNat - 8 := UInt64.toNat_sub_of_le _ _ hroom
  exact store_outside (by rw [hlow]; omega)

/-- A push puts a word in front. -/
lemma Holds.push (h : m.Holds ws) (hroom : 8 ≤ (m.reg .rsp).toNat) (v : UInt64) :
    (m.push v).Holds (v :: ws) := by
  have hlow : (m.reg .rsp - 8).toNat = (m.reg .rsp).toNat - 8 := UInt64.toNat_sub_of_le _ _ hroom
  have hspace := h.space
  refine ⟨?_, ?_⟩
  · rw [push_rsp]
    refine ⟨ofNat_load_store .., ?_⟩
    have hnext : (m.reg .rsp - 8).toNat + 8 = (m.reg .rsp).toNat := by omega
    rw [hnext]
    exact h.words.congr fun x hx _ => push_outside hroom (.inr hx)
  · rw [push_rsp, List.length_cons]
    omega

lemma Holds.next (h : m.Holds ws) : m.next.Holds ws := ⟨h.words, h.space⟩

lemma Holds.top (h : m.Holds (w :: ws)) : m.top = w := h.words.1

/-- A pop takes a word away. -/
lemma Holds.drop (h : m.Holds (w :: ws)) : m.drop.Holds ws := by
  have hspace := h.space
  rw [List.length_cons] at hspace
  have hrsp : m.drop.reg .rsp = m.reg .rsp + 8 := set_self ..
  have hsum : (m.reg .rsp + 8).toNat = ((m.reg .rsp).toNat + 8) % 2 ^ 64 := UInt64.toNat_add ..
  refine ⟨?_, ?_⟩
  · cases ws with
    | nil => trivial
    | cons v ws =>
      rw [List.length_cons] at hspace
      have hnext : (m.reg .rsp + 8).toNat = (m.reg .rsp).toNat + 8 := by
        rw [hsum]
        omega
      rw [hrsp, hnext]
      exact h.words.2
  · rw [hrsp, hsum]
    omega

end State

/-! ## Instructions one after the other -/

/-- Carry out instructions. -/
def execAll (is : List Instr) (m : State) : State := is.foldl (fun m i => exec i m) m

/-- The processor carries out these instructions. -/
def Path (code : UInt64 → Option Instr) : List Instr → State → Prop
  | [], _ => True
  | i :: is, m => code m.rip = some i ∧ Path code is (exec i m)

lemma Path.runs (h : Path code is m) : Runs code m (execAll is m) := by
  induction is generalizing m with
  | nil => exact .refl
  | cons i is ih => exact .trans (.single (step_of_code h.1)) (ih h.2)

lemma execAll_append : execAll (is ++ is') m = execAll is' (execAll is m) := List.foldl_append

lemma path_append : Path code (is ++ is') m ↔ Path code is m ∧ Path code is' (execAll is m) := by
  induction is generalizing m with
  | nil => simp [Path, execAll]
  | cons i is ih =>
    rw [List.cons_append, Path, ih, Path, and_assoc]
    rfl

/-- An instruction behind which the next one is carried out. -/
def Straight (i : Instr) : Prop := ∀ m, (exec i m).rip = m.rip + 1

lemma path_of_loaded (h : Loaded code m.rip is) (hs : ∀ i ∈ is, Straight i) : Path code is m := by
  induction is generalizing m with
  | nil => trivial
  | cons i is ih =>
    refine ⟨h.1, ih ?_ fun j hj => hs j (List.mem_cons_of_mem i hj)⟩
    rw [hs i List.mem_cons_self m]
    exact h.2

lemma rip_execAll (hs : ∀ i ∈ is, Straight i) :
    (execAll is m).rip = m.rip + UInt64.ofNat is.length := by
  induction is generalizing m with
  | nil => exact (add_zero _).symm
  | cons i is ih =>
    have hall : execAll (i :: is) m = execAll is (exec i m) := rfl
    rw [hall, ih fun j hj => hs j (List.mem_cons_of_mem i hj), hs i List.mem_cons_self m,
      List.length_cons, Nat.add_comm is.length, UInt64.ofNat_add, ← add_assoc]
    rfl

/-- Straight instructions, and what is loaded behind them. -/
lemma path_of_loaded_append (h : Loaded code m.rip (is ++ is')) (hs : ∀ i ∈ is, Straight i) :
    Path code is m ∧ Loaded code (execAll is m).rip is' := by
  obtain ⟨h₁, h₂⟩ := loaded_append.mp h
  rw [← rip_execAll hs] at h₂
  exact ⟨path_of_loaded h₁ hs, h₂⟩

lemma straight_push (r : Reg) : Straight (.push r) := fun _ => rfl

lemma straight_pop (r : Reg) : Straight (.pop r) := fun _ => rfl

/-! ## Registers on the stack -/

/-- A state in which the words `ws` were pushed on a stack that began at `top`; nothing else
happened to the registers and to the memory. -/
structure Stacked (m m' : State) (top : UInt64) (ws : List UInt64) : Prop where
  rsp : m'.reg .rsp = top - UInt64.ofNat (8 * ws.length)
  reg : ∀ r, r ≠ .rsp → m'.reg r = m.reg r
  mem : ∀ x, x + 8 * ws.length < top.toNat ∨ top.toNat ≤ x → m'.mem x = m.mem x
  holds : m'.Holds ws

variable {top : UInt64}

lemma Stacked.toNat_rsp (h : Stacked m m' top ws) (hroom : 8 * ws.length ≤ top.toNat) :
    (m'.reg .rsp).toNat = top.toNat - 8 * ws.length := by
  have hlt := top.toNat_lt
  have hnat : (UInt64.ofNat (8 * ws.length)).toNat = 8 * ws.length := by
    rw [UInt64.toNat_ofNat', Nat.mod_eq_of_lt (by omega)]
  rw [h.rsp, UInt64.toNat_sub_of_le _ _ (by rw [UInt64.le_iff_toNat_le, hnat]; exact hroom), hnat]

/-- A stack without words. -/
lemma stacked_nil (m : State) (top : UInt64) : Stacked m (m.set .rsp top) top [] where
  rsp := by
    rw [State.set_self]
    exact (sub_zero top).symm
  reg r hr := State.set_of_ne m top hr
  mem _ _ := rfl
  holds := ⟨trivial, ((m.set .rsp top).reg .rsp).toNat_lt.le⟩

lemma Stacked.push (h : Stacked m m' top ws) (hroom : 8 * (ws.length + 1) ≤ top.toNat)
    (v : UInt64) : Stacked m (m'.push v) top (v :: ws) := by
  have hrsp := h.toNat_rsp (by omega)
  refine ⟨?_, fun r hr => ?_, fun x hx => ?_, h.holds.push (by omega) v⟩
  · rw [State.push_rsp, h.rsp, List.length_cons, Nat.mul_succ, UInt64.ofNat_add, ← sub_sub]
    rfl
  · rw [State.push_of_ne hr, h.reg r hr]
  · rw [List.length_cons] at hx
    rw [State.push_outside (by omega) (by omega), h.mem x (by omega)]

/-- It does not matter where the processor is, or what its flags are. -/
lemma Stacked.of_eq {m'' : State} (h : Stacked m m' top ws) (hreg : m''.reg = m'.reg)
    (hmem : m''.mem = m'.mem) : Stacked m m'' top ws := by
  refine ⟨?_, fun r hr => ?_, fun x hx => ?_, ⟨?_, ?_⟩⟩
  · rw [hreg]
    exact h.rsp
  · rw [hreg]
    exact h.reg r hr
  · rw [hmem]
    exact h.mem x hx
  · rw [hreg, hmem]
    exact h.holds.words
  · rw [hreg]
    exact h.holds.space

/-- Registers are pushed one after the other. -/
lemma Stacked.pushes {rs : List Reg} (hrsp : .rsp ∉ rs)
    (hroom : 8 * (rs.length + ws.length) ≤ top.toNat) (h : Stacked m m' top ws) :
    Stacked m (execAll (rs.map .push) m') top ((rs.map m.reg).reverse ++ ws) ∧
      (execAll (rs.map .push) m').rflags = m'.rflags := by
  induction rs generalizing m' ws with
  | nil => exact ⟨h, rfl⟩
  | cons r rs ih =>
    rw [List.mem_cons, not_or] at hrsp
    rw [List.length_cons] at hroom
    have hpush : Stacked m (exec (.push r) m') top (m.reg r :: ws) := by
      rw [← h.reg r (Ne.symm hrsp.1)]
      exact (h.push (by omega) (m'.reg r)).of_eq rfl rfl
    obtain ⟨hall, hrflags⟩ := ih hrsp.2 (by rw [List.length_cons]; omega) hpush
    refine ⟨?_, hrflags⟩
    rw [List.map_cons, List.map_cons, List.reverse_cons, List.append_assoc, List.singleton_append]
    exact hall

/-- What pops leave alone, and where they end. -/
structure Popped (m m' : State) (rs : List Reg) : Prop where
  rip : m'.rip = m.rip + UInt64.ofNat rs.length
  reg : ∀ r, r ∉ rs → r ≠ .rsp → m'.reg r = m.reg r
  rflags : m'.rflags = m.rflags
  mem : m'.mem = m.mem

/-- Registers are popped one after the other. -/
lemma pops {rs : List Reg} (hrsp : .rsp ∉ rs) (hnodup : rs.Nodup) (hlen : vs.length = rs.length)
    (h : m.Holds (vs ++ ws)) :
    Popped m (execAll (rs.map .pop) m) rs ∧ rs.map (execAll (rs.map .pop) m).reg = vs ∧
      (execAll (rs.map .pop) m).Holds ws := by
  induction rs generalizing m vs with
  | nil =>
    obtain rfl : vs = [] := List.eq_nil_of_length_eq_zero hlen
    exact ⟨⟨(add_zero _).symm, fun _ _ _ => rfl, rfl, rfl⟩, rfl, h⟩
  | cons r rs ih =>
    obtain ⟨v, vs, rfl⟩ : ∃ v vs', vs = v :: vs' :=
      List.exists_cons_of_ne_nil (by rintro rfl; simp at hlen)
    rw [List.mem_cons, not_or] at hrsp
    rw [List.nodup_cons] at hnodup
    obtain ⟨m₁, hm₁⟩ : ∃ m₁, exec (.pop r) m = m₁ := ⟨_, rfl⟩
    have hr₁ : m₁.reg r = v := by
      rw [← hm₁, ← h.top]
      exact State.set_self ..
    have hreg₁ : ∀ r', r' ≠ r → r' ≠ .rsp → m₁.reg r' = m.reg r' := fun r' hr' hr'' => by
      rw [← hm₁]
      exact (State.set_of_ne _ _ hr').trans (State.set_of_ne m _ hr'')
    have hholds : m₁.Holds (vs ++ ws) := by
      have hdrop := State.Holds.drop h
      have hsame : m₁.reg .rsp = m.drop.reg .rsp := by
        rw [← hm₁]
        exact State.set_of_ne _ _ hrsp.1
      refine ⟨?_, ?_⟩
      · rw [hsame, ← hm₁]
        exact hdrop.words
      · rw [hsame]
        exact hdrop.space
    obtain ⟨hpopped, hregs, hrest⟩ := ih hrsp.2 hnodup.2 (by simpa using hlen) hholds
    have hall : execAll ((r :: rs).map .pop) m = execAll (rs.map .pop) m₁ := by rw [← hm₁]; rfl
    rw [hall]
    refine ⟨⟨?_, fun r' hr' hr'' => ?_, ?_, ?_⟩, ?_, hrest⟩
    · rw [hpopped.rip, ← hm₁, List.length_cons, Nat.add_comm, UInt64.ofNat_add, ← add_assoc]
      rfl
    · rw [List.mem_cons, not_or] at hr'
      rw [hpopped.reg r' hr'.2 hr'', hreg₁ r' hr'.1 hr'']
    · rw [hpopped.rflags, ← hm₁]
      rfl
    · rw [hpopped.mem, ← hm₁]
      rfl
    · rw [List.map_cons, hregs, hpopped.reg r hnodup.1 (Ne.symm hrsp.1), hr₁]

end X86
