import TurbOS.Lib.Runs
import TurbOS.Scheduler.Switch
import TurbOS.Scheduler.Dangling
import TurbOS.Scheduler.RoundRobin

/-!
# Locks and interrupts on one processor

`switchTask` is the handler of the timer.  It is entered with interrupts disabled, but `this_proc`
and `this_thread` enable them again while `sched_lock` is held.  So another tick may come, and its
handler waits for the lock that the first one holds.  And a tick may come while a thread holds the
lock of the heap, which `switchTask` takes when it frees something or creates the idle process.

The model keeps what matters for this: the flag, the four locks, and for every thread the frames on
its stack with the code that is left.  The code of a call is the sequence of its locks and of its
changes of the flag; what `switchTask` does is computed from the tables of the scheduler by the
functions of the model.  How often a call takes the lock of the heap depends on the heap, and
how often it looks at the current thread on the lengths of vectors; these numbers are
parameters (`Effort`).
-/

open Runs

namespace TurbOS.Scheduler

/-! ## The code -/

/-- The locks: `sched_lock`, `proc_lock`, `thread_lock`, and the lock of the heap. -/
inductive Lock where
  | sched | proc | thread | heap
deriving DecidableEq, Repr

/-- What the code does to the flag and the locks, and the assignment to `currentThread`, after which
the handler returns to another thread. -/
inductive Instr where
  | cli
  | sti
  | lock (l : Lock)
  | unlock (l : Lock)
  | resume (t : ℕ)
deriving DecidableEq, Repr

/-- How often the lock of the heap is taken by the allocations of a call, and how often the handler
looks at the current thread before and after its choice. -/
structure Effort where
  /-- `new process_t` -/
  process : ℕ := 1
  /-- `new Pagemap` -/
  pagemap : ℕ := 1
  /-- `new thread_t` -/
  thread : ℕ := 1
  /-- `malloc(STACK_SIZE)` -/
  stack : ℕ := 1
  /-- `threadsVec.push_back` -/
  threadsVec : ℕ := 1
  /-- `proc_table.push_back` -/
  table : ℕ := 1
  before : ℕ := 2
  after : ℕ := 3
deriving DecidableEq, Repr

/-- `this_proc` or `this_thread`. -/
def look : List Instr := [.cli, .sti]

/-- `n` times the same code. -/
def times (n : ℕ) (code : List Instr) : List Instr := (List.replicate n code).flatten

/-- Code that runs under a lock. -/
def critical (l : Lock) (code : List Instr) : List Instr := .lock l :: code ++ [.unlock l]

/-- Calls of `malloc` and `free`: every attempt, every `expand` and every `free` takes the lock. -/
def useHeap (n : ℕ) : List Instr := times n (critical .heap [])

/-- The code of `allocThread`. -/
def allocThreadCode (n : Effort) : List Instr :=
  critical .thread (useHeap n.thread ++ useHeap n.stack)

/-- The code of `createThread`. -/
def createThreadCode (n : Effort) : List Instr :=
  allocThreadCode n ++ useHeap n.threadsVec ++ critical .thread []

/-- The code of `allocProc`. -/
def allocProcCode (addr : ℕ) (n : Effort) : List Instr :=
  useHeap n.process ++
    critical .proc (useHeap n.pagemap ++ if addr ≠ 0 then createThreadCode n else [])

/-- The code of `createProc`. -/
def createProcCode (addr : ℕ) (n : Effort) : List Instr :=
  allocProcCode addr n ++ useHeap n.table ++ critical .proc []

/-- How many objects were freed from `s` to `s'`. -/
def freed (s s' : Sched) : ℕ :=
  ((List.range s.threads.next).countP fun t => (s.threads.get t).isSome &&
    (s'.threads.get t).isNone) +
    (List.range s.procs.next).countP fun p => (s.procs.get p).isSome && (s'.procs.get p).isNone

/-- The calls of `free` in `clean_proc`: a thread with its stack, a process with its page map. -/
def cleanCode (s s' : Sched) : List Instr := useHeap (2 * freed s s')

/-- The code at the label `nofree`. -/
def idleCode (fuel : ℕ) (g : Grant) (c : ℕ) (n : Effort) (s : Sched) : Option (List Instr) :=
  (clean fuel (s.cpus c).currentProcess s).bind fun s₁ =>
    (idleProcess g c s₁).bind fun r =>
      (r.2.procs.get r.1).bind fun I =>
        I.threadsVec.items[0]?.map fun t =>
          cleanCode s s₁ ++ (if (s₁.cpus c).idleP = none then allocProcCode s₁.idle n else []) ++
            [.resume t]

/-- The code of `switchTask` between the first look at the current thread and the last ones. -/
def choiceCode (fuel : ℕ) (g : Grant) (c : ℕ) (regs : Regs) (n : Effort) (s : Sched) :
    Option (List Instr) :=
  match (s.cpus c).currentProcess, (s.cpus c).currentThread with
  | some p, some t =>
    let s := save t regs s
    (laterThread s p t).bind fun r =>
      match r with
      | some t' => some [.resume t']
      | none =>
        (scanProcs s (s.proc_table.items.drop (Word64.add (s.proc_table.find p) 1))).bind fun r =>
          match r with
          | some (_, t') => (cleanProc fuel p s).map fun s₁ => cleanCode s s₁ ++ [.resume t']
          | none => idleCode fuel g c n s
  | _, _ =>
    (firstReady fuel s.proc_table.items s).bind fun r =>
      match r.1 with
      | some (_, t) => some (cleanCode s r.2 ++ [.resume t])
      | none => (idleCode fuel g c n r.2).map fun code => cleanCode s r.2 ++ code

/-- The code of `switchTask`. -/
def switchCode (fuel : ℕ) (g : Grant) (c : ℕ) (regs : Regs) (n : Effort) (s : Sched) :
    Option (List Instr) :=
  if s.isInit = false then some []
  else (choiceCode fuel g c regs n s).map fun code =>
    critical .sched (times n.before look ++ code ++ times n.after look)

/-! ## The processor -/

/-- A function that was interrupted or runs, and the code that is left of it: a thread, or a call of
`switchTask` for an interrupt. -/
structure Frame where
  handler : Bool
  code : List Instr
deriving DecidableEq, Repr

/-- The processor.  Every thread has a stack of frames; the thread itself is the lowest one. -/
structure Core where
  intFlag : Bool := true
  held : Lock → Bool := fun _ => false
  current : ℕ := 0
  stackOf : ℕ → List Frame := fun _ => [⟨false, []⟩]

/-- What a thread may call. -/
inductive Request where
  | malloc (n : ℕ)
  | free (n : ℕ)
  | createThread (n : Effort)
  | createProc (addr : ℕ) (n : Effort)
deriving DecidableEq, Repr

/-- The code of a call. -/
def Request.code : Request → List Instr
  | .malloc n => useHeap n
  | .free n => useHeap n
  | .createThread n => createThreadCode n
  | .createProc addr n => createProcCode addr n

/-- The timer ticks while the tables of the scheduler are `s`, the current frame runs on, or the
current thread makes a call. -/
inductive CpuEvent where
  | timer (fuel : ℕ) (g : Grant) (c : ℕ) (regs : Regs) (n : Effort) (s : Sched)
  | run
  | call (r : Request)

/-- The frames of the current thread. -/
def Core.frames (m : Core) : List Frame := m.stackOf m.current

/-- Replace the frames of the current thread. -/
def Core.setFrames (m : Core) (fs : List Frame) : Core :=
  { m with stackOf := Function.update m.stackOf m.current fs }

/-- One instruction of the frame on top; `f` is the frame after it, and `fs` are the frames below.
A lock that is held is tried again. -/
def Core.exec (m : Core) (f : Frame) (fs : List Frame) : Instr → Core
  | .cli => { m.setFrames (f :: fs) with intFlag := false }
  | .sti => { m.setFrames (f :: fs) with intFlag := true }
  | .lock l =>
    if m.held l then m
    else { m.setFrames (f :: fs) with held := Function.update m.held l true }
  | .unlock l => { m.setFrames (f :: fs) with held := Function.update m.held l false }
  | .resume t =>
    { m with
      current := t
      stackOf := Function.update (Function.update m.stackOf m.current fs) t
        (f :: Function.update m.stackOf m.current fs t) }

/-- One event.  With interrupts disabled the timer has to wait.  A handler that has come to its end
returns to the frame below with interrupts enabled: only such frames are interrupted. -/
def tick : CpuEvent → Core → Option Core
  | .timer fuel g c regs n s, m =>
    if m.intFlag then
      (switchCode fuel g c regs n s).map fun code =>
        { m.setFrames (⟨true, code⟩ :: m.frames) with intFlag := false }
    else some m
  | .run, m =>
    match m.frames with
    | [] => some m
    | ⟨handler, []⟩ :: fs => some (if handler then { m.setFrames fs with intFlag := true } else m)
    | ⟨handler, i :: code⟩ :: fs => some (m.exec ⟨handler, code⟩ fs i)
  | .call r, m =>
    match m.frames with
    | ⟨false, []⟩ :: fs => some (m.setFrames (⟨false, r.code⟩ :: fs))
    | _ => some m

/-- If `switchTask` is about to take a lock, the lock is free.  On one processor a lock that is held
is held by a frame that was interrupted. -/
def Unobstructed (m : Core) : Prop :=
  ∀ l code fs, m.frames = ⟨true, .lock l :: code⟩ :: fs → m.held l = false

/-! ## The code and the model of `switchTask` -/

section Connection

variable {s s' : Sched} {c fuel : ℕ} {g : Grant} {regs regs' : Regs} {n : Effort}

/-- The code resumes the thread that is current afterwards. -/
def Resumes (c : ℕ) (code : Option (List Instr)) (s' : Sched) : Prop :=
  ∃ code' t, code = some code' ∧ .resume t ∈ code' ∧ (s'.cpus c).currentThread = some t

lemma resumes_dispatch {p t : ℕ} {ms : Option ℕ} {code : Option (List Instr)} {a : List Instr}
    (hcode : code = some (a ++ [.resume t])) (h : dispatch c p t ms s = some (regs', s')) :
    Resumes c code s' := by
  obtain ⟨T, -, hd⟩ := dispatch_eq h
  exact ⟨_, t, hcode, by simp, hd.current.1⟩

lemma resumes_goIdle (h : goIdle fuel g c s = some (regs', s')) :
    Resumes c (idleCode fuel g c n s) s' := by
  obtain ⟨s₁, hclean, h⟩ := Option.bind_eq_some_iff.mp h
  obtain ⟨r, hr, h⟩ := Option.bind_eq_some_iff.mp h
  obtain ⟨I, hI, h⟩ := Option.bind_eq_some_iff.mp h
  obtain ⟨t, ht, h⟩ := Option.bind_eq_some_iff.mp h
  have hcode : idleCode fuel g c n s = some (cleanCode s s₁ ++
      (if (s₁.cpus c).idleP = none then allocProcCode s₁.idle n else []) ++ [.resume t]) := by
    rw [idleCode, hclean, Option.bind_some, hr, Option.bind_some, hI, Option.bind_some, ht,
      Option.map_some]
  exact resumes_dispatch hcode h

/-- The choice of a processor without a current thread. -/
lemma resumes_table
    (h : ((firstReady fuel s.proc_table.items s).bind fun r =>
      match r.1 with
      | some (p, t) => dispatch c p t none r.2
      | none => goIdle fuel g c r.2) = some (regs', s')) :
    Resumes c ((firstReady fuel s.proc_table.items s).bind fun r =>
      match r.1 with
      | some (_, t) => some (cleanCode s r.2 ++ [.resume t])
      | none => (idleCode fuel g c n r.2).map fun code => cleanCode s r.2 ++ code) s' := by
  obtain ⟨⟨o, s₁⟩, hfirst, h⟩ := Option.bind_eq_some_iff.mp h
  rw [hfirst, Option.bind_some]
  cases o with
  | some q => exact resumes_dispatch rfl h
  | none =>
    obtain ⟨code, t, hcode, hmem, hcur⟩ := resumes_goIdle (n := n) h
    dsimp only
    rw [hcode, Option.map_some]
    exact ⟨_, t, rfl, List.mem_append_right _ hmem, hcur⟩

/-- The code of a call of `switchTask` resumes the thread that the call makes current. -/
lemma switchCode_resumes (hinit : s.isInit = true)
    (h : switchTask fuel g c regs s = some (regs', s')) :
    Resumes c (switchCode fuel g c regs n s) s' := by
  suffices Resumes c (choiceCode fuel g c regs n s) s' by
    obtain ⟨code, t, hcode, hmem, hcur⟩ := this
    rw [switchCode, if_neg (by simp [hinit]), hcode, Option.map_some]
    exact ⟨_, t, rfl, by simp [critical, hmem], hcur⟩
  rw [switchTask, if_neg (by simp [hinit])] at h
  rw [choiceCode]
  cases hp : (s.cpus c).currentProcess with
  | none =>
    rw [hp] at h
    exact resumes_table h
  | some p =>
    cases ht : (s.cpus c).currentThread with
    | none =>
      rw [hp, ht] at h
      exact resumes_table h
    | some t =>
      rw [hp, ht] at h
      obtain ⟨T, -, h⟩ := Option.bind_eq_some_iff.mp h
      obtain ⟨o, ho, h⟩ := Option.bind_eq_some_iff.mp h
      dsimp only
      rw [ho, Option.bind_some]
      cases o with
      | some t' => exact resumes_dispatch (a := []) rfl h
      | none =>
        obtain ⟨o, ho, h⟩ := Option.bind_eq_some_iff.mp h
        dsimp only
        rw [ho, Option.bind_some]
        cases o with
        | some q =>
          obtain ⟨s₁, hclean, h⟩ := Option.bind_eq_some_iff.mp h
          dsimp only
          rw [hclean, Option.map_some]
          exact resumes_dispatch rfl h
        | none => exact resumes_goIdle h

end Connection

/-! ## Code that waits for no lock -/

/-- The code finds every lock free that it takes.  Interrupts are enabled only under `sched_lock`,
which is released at the end. -/
def Safe : (Lock → Bool) → List Instr → Prop
  | _, [] => True
  | held, .lock l :: code => held l = false ∧ Safe (Function.update held l true) code
  | held, .unlock l :: code => (l = .sched → code = []) ∧ Safe (Function.update held l false) code
  | held, .sti :: code => held .sched = true ∧ Safe held code
  | held, _ :: code => Safe held code

/-- Code that may stand in front of other code: it gives back what it takes. -/
def Neutral (held : Lock → Bool) (code : List Instr) : Prop :=
  ∀ rest, Safe held rest → Safe held (code ++ rest)

variable {held : Lock → Bool} {code code' : List Instr} {l : Lock} {n : Effort} {k : ℕ}

lemma neutral_nil : Neutral held [] := fun _ h => h

lemma Neutral.append (h : Neutral held code) (h' : Neutral held code') :
    Neutral held (code ++ code') := by
  intro rest hrest
  rw [List.append_assoc]
  exact h _ (h' _ hrest)

lemma Neutral.times (h : Neutral held code) (k : ℕ) : Neutral held (times k code) := by
  induction k with
  | zero => exact neutral_nil
  | succ k ih =>
    rw [Scheduler.times, List.replicate_succ, List.flatten_cons]
    exact h.append ih

lemma neutral_look (h : held .sched = true) : Neutral held look := fun _ hrest => ⟨h, hrest⟩

lemma neutral_resume (t : ℕ) : Neutral held [.resume t] := fun _ hrest => hrest

lemma neutral_critical (hl : l ≠ .sched) (hfree : held l = false)
    (h : Neutral (Function.update held l true) code) : Neutral held (critical l code) := by
  intro rest hrest
  have hback : Function.update (Function.update held l true) l false = held := by
    rw [Function.update_idem, ← hfree, Function.update_eq_self]
  rw [critical, List.append_assoc]
  refine ⟨hfree, h _ ⟨fun heq => absurd heq hl, ?_⟩⟩
  rw [hback]
  exact hrest

lemma neutral_useHeap (h : held .heap = false) (k : ℕ) : Neutral held (useHeap k) :=
  (neutral_critical (by decide) h neutral_nil).times k

lemma neutral_createThreadCode (hheap : held .heap = false) (hthread : held .thread = false) :
    Neutral held (createThreadCode n) := by
  refine (Neutral.append ?_ (neutral_useHeap hheap _)).append
    (neutral_critical (by decide) hthread neutral_nil)
  have hheap' : Function.update held .thread true .heap = false := by
    rwa [Function.update_of_ne (by decide)]
  exact neutral_critical (by decide) hthread
    ((neutral_useHeap hheap' _).append (neutral_useHeap hheap' _))

lemma neutral_allocProcCode (addr : ℕ) (hheap : held .heap = false) (hthread : held .thread = false)
    (hproc : held .proc = false) : Neutral held (allocProcCode addr n) := by
  have hheap' : Function.update held .proc true .heap = false := by
    rwa [Function.update_of_ne (by decide)]
  have hthread' : Function.update held .proc true .thread = false := by
    rwa [Function.update_of_ne (by decide)]
  refine (neutral_useHeap hheap _).append (neutral_critical (by decide) hproc ?_)
  refine (neutral_useHeap hheap' _).append ?_
  split
  · exact neutral_createThreadCode hheap' hthread'
  · exact neutral_nil

/-! ## The code of `switchTask` -/

variable {s s' s₁ : Sched} {c p t fuel : ℕ} {g : Grant} {regs regs' : Regs}

/-- The lock of the heap is free, and the other two locks of the allocations are, if the idle
process of the processor does not exist yet. -/
structure Spare (c : ℕ) (held : Lock → Bool) (s : Sched) : Prop where
  heap : held .heap = false
  idle : (s.cpus c).idleP ≠ none ∨ held .thread = false ∧ held .proc = false

lemma Spare.cleanCode (h : Spare c held s₁) (s s' : Sched) : Neutral held (cleanCode s s') :=
  neutral_useHeap h.heap _

lemma Spare.reduces (h : Spare c held s) (hr : Reduces s s') : Spare c held s' :=
  ⟨h.heap, by rw [hr.cpus]; exact h.idle⟩

lemma Spare.idleCode (h : Spare c held s) (hcode : idleCode fuel g c n s = some code) :
    Neutral held code := by
  obtain ⟨s₁, hclean, hcode⟩ := Option.bind_eq_some_iff.mp hcode
  obtain ⟨r, -, hcode⟩ := Option.bind_eq_some_iff.mp hcode
  obtain ⟨I, -, hcode⟩ := Option.bind_eq_some_iff.mp hcode
  obtain ⟨t, -, rfl⟩ := Option.map_eq_some_iff.mp hcode
  refine ((h.cleanCode s s₁).append ?_).append (neutral_resume t)
  split
  · rename_i hnone
    obtain ⟨hthread, hproc⟩ := (h.reduces (clean_reduces hclean)).idle.resolve_left
      fun hne => hne hnone
    exact neutral_allocProcCode _ h.heap hthread hproc
  · exact neutral_nil

/-- With these locks free, every branch is safe. -/
lemma Spare.choiceCode (h : Spare c held s) (hcode : choiceCode fuel g c regs n s = some code) :
    Neutral held code := by
  rw [Scheduler.choiceCode] at hcode
  split at hcode
  · rename_i p t hp ht
    obtain ⟨o, -, hcode⟩ := Option.bind_eq_some_iff.mp hcode
    cases o with
    | some t' =>
      obtain rfl := Option.some.inj hcode
      exact neutral_resume t'
    | none =>
      obtain ⟨o, -, hcode⟩ := Option.bind_eq_some_iff.mp hcode
      cases o with
      | some q =>
        obtain ⟨s₁, -, rfl⟩ := Option.map_eq_some_iff.mp hcode
        exact (h.cleanCode _ _).append (neutral_resume _)
      | none =>
        have hsaved : Spare c held (save t regs s) := ⟨h.heap, h.idle⟩
        exact hsaved.idleCode hcode
  · obtain ⟨⟨o, s₁⟩, hfirst, hcode⟩ := Option.bind_eq_some_iff.mp hcode
    cases o with
    | some q =>
      obtain rfl := Option.some.inj hcode
      exact (h.cleanCode _ _).append (neutral_resume _)
    | none =>
      obtain ⟨code', hcode', rfl⟩ := Option.map_eq_some_iff.mp hcode
      exact (h.cleanCode _ _).append ((h.reduces (firstReady_reduces hfirst)).idleCode hcode')

/-- `switchTask` finds a thread that is `READY`. -/
def Finds (c : ℕ) (regs : Regs) (s : Sched) : Prop :=
  match (s.cpus c).currentProcess, (s.cpus c).currentThread with
  | some p, some t =>
    (laterThread (save t regs s) p t).join ≠ none ∨
      (scanProcs (save t regs s) (s.proc_table.items.drop
        (Word64.add (s.proc_table.find p) 1))).join ≠ none
  | _, _ => (scanProcs s s.proc_table.items).join ≠ none

/-- `switchTask` frees nothing and needs no new idle process. -/
def Light (c : ℕ) (regs : Regs) (s : Sched) : Prop :=
  Quiet c regs s ∧ ((s.cpus c).idleP ≠ none ∨ Finds c regs s)

lemma freed_self (s : Sched) : freed s s = 0 := by
  have hnot : ∀ {α : Type} (o : Option α), ¬ (o.isSome && o.isNone) = true := by
    intro α o
    cases o <;> simp
  rw [freed, List.countP_eq_zero.mpr fun t _ => hnot _, List.countP_eq_zero.mpr fun p _ => hnot _]

lemma cleanCode_self (s : Sched) : cleanCode s s = [] := by
  rw [cleanCode, freed_self]
  rfl

lemma clean_eq_of_settled {o : Option ℕ} (hq : ∀ p, o = some p → ∃ P, Settled s p P)
    (h : clean fuel o s = some s₁) : s₁ = s := by
  cases o with
  | none => exact (Option.some.inj h).symm
  | some p =>
    obtain ⟨P, hP⟩ := hq p rfl
    exact cleanProc_eq_of_settled hP h

lemma neutral_idleCode (hq : ∀ p, (s.cpus c).currentProcess = some p → ∃ P, Settled s p P)
    (hidle : (s.cpus c).idleP ≠ none) (hcode : idleCode fuel g c n s = some code) :
    Neutral held code := by
  obtain ⟨s₁, hclean, hcode⟩ := Option.bind_eq_some_iff.mp hcode
  obtain ⟨r, -, hcode⟩ := Option.bind_eq_some_iff.mp hcode
  obtain ⟨I, -, hcode⟩ := Option.bind_eq_some_iff.mp hcode
  obtain ⟨t, -, rfl⟩ := Option.map_eq_some_iff.mp hcode
  rw [clean_eq_of_settled hq hclean, cleanCode_self, if_neg hidle]
  exact neutral_resume t

/-- With nothing to free and nothing to allocate, every branch is safe. -/
lemma Light.choiceCode (h : Light c regs s) (hcode : choiceCode fuel g c regs n s = some code) :
    Neutral held code := by
  obtain ⟨hq, hfinds⟩ := h
  rw [Quiet, cleaned] at hq
  rw [Finds] at hfinds
  rw [Scheduler.choiceCode] at hcode
  split at hcode
  · rename_i p t hp ht
    simp only [hp, ht] at hq hfinds
    obtain ⟨o, ho, hcode⟩ := Option.bind_eq_some_iff.mp hcode
    cases o with
    | some t' =>
      obtain rfl := Option.some.inj hcode
      exact neutral_resume t'
    | none =>
      obtain ⟨P, hP⟩ := hq p (by simp [ho])
      have hsettled := hP.save t regs
      obtain ⟨o, hscan, hcode⟩ := Option.bind_eq_some_iff.mp hcode
      cases o with
      | some q =>
        obtain ⟨s₁, hclean, rfl⟩ := Option.map_eq_some_iff.mp hcode
        rw [cleanProc_eq_of_settled hsettled hclean, cleanCode_self]
        exact neutral_resume _
      | none =>
        -- no thread was found, so there is an idle process
        have hidle : ((save t regs s).cpus c).idleP ≠ none := by
          refine hfinds.resolve_right ?_
          rintro (hlater | hother)
          · simp [ho] at hlater
          · exact hother (congrArg Option.join hscan)
        refine neutral_idleCode (s := save t regs s) (fun q hcur => ?_) hidle hcode
        rw [save, setThread_cpus, hp] at hcur
        obtain rfl := Option.some.inj hcur
        exact ⟨P, hsettled⟩
  · rename_i hnot
    have hq' : ∀ p ∈ passed s s.proc_table.items ++
        (if scanProcs s s.proc_table.items = some none then (s.cpus c).currentProcess.toList
          else []), ∃ P, Settled s p P := by
      cases hp : (s.cpus c).currentProcess with
      | none =>
        rw [hp] at hq
        exact hq
      | some p =>
        cases ht : (s.cpus c).currentThread with
        | none =>
          rw [hp, ht] at hq
          exact hq
        | some t => exact absurd ht (hnot p t hp)
    obtain ⟨⟨o, s₁⟩, hfirst, hcode⟩ := Option.bind_eq_some_iff.mp hcode
    obtain ⟨hs₁, hscan⟩ := firstReady_eq (fun p hp => hq' p (List.mem_append_left _ hp)) hfirst
    dsimp only at hs₁ hscan hcode
    rw [hs₁, cleanCode_self] at hcode
    cases o with
    | some q =>
      obtain rfl := Option.some.inj hcode
      exact neutral_resume _
    | none =>
      have hidle : (s.cpus c).idleP ≠ none := by
        refine hfinds.resolve_right ?_
        cases hp : (s.cpus c).currentProcess with
        | none => simp [hscan]
        | some p =>
          cases ht : (s.cpus c).currentThread with
          | none => simp [hscan]
          | some t => exact absurd ht (hnot p t hp)
      obtain ⟨code', hcode', rfl⟩ := Option.map_eq_some_iff.mp hcode
      refine neutral_idleCode (fun p hcur => hq' p (List.mem_append_right _ ?_)) hidle hcode'
      rw [if_pos hscan, hcur]
      exact List.mem_singleton.mpr rfl

/-- The condition on the ticks: they come while `sched_lock` is free, and if a lock of the
allocations is held, `switchTask` has no need of it.  Cleaning up takes the lock of the heap, and
creating the idle process takes all three. -/
def Timely (m : Core) : CpuEvent → Prop
  | .timer _ _ c regs _ s => m.intFlag = true → m.held .sched = false ∧
      (Light c regs s ∨ (m.held .heap = false ∧
        ((s.cpus c).idleP ≠ none ∨ m.held .thread = false ∧ m.held .proc = false)))
  | _ => True

lemma safe_switchCode (hsched : held .sched = false)
    (h : Light c regs s ∨ (held .heap = false ∧
      ((s.cpus c).idleP ≠ none ∨ held .thread = false ∧ held .proc = false)))
    (hcode : switchCode fuel g c regs n s = some code) : Safe held code := by
  rw [switchCode] at hcode
  split at hcode
  · rw [← Option.some.inj hcode]
    trivial
  · obtain ⟨choice, hchoice, rfl⟩ := Option.map_eq_some_iff.mp hcode
    have hlook : Neutral (Function.update held .sched true) look :=
      neutral_look (Function.update_self ..)
    have hneutral : Neutral (Function.update held .sched true) choice := by
      rcases h with hlight | ⟨hheap, hidle⟩
      · exact hlight.choiceCode hchoice
      · refine Spare.choiceCode ⟨?_, ?_⟩ hchoice
        · rwa [Function.update_of_ne (by decide)]
        · rwa [Function.update_of_ne (by decide), Function.update_of_ne (by decide)]
    exact ⟨hsched, ((hlook.times _).append hneutral).append (hlook.times _) _
      ⟨fun _ => rfl, trivial⟩⟩

/-! ## Runs -/

/-- The frame may stay below another one: it is a thread, or a handler that has only to return. -/
def Frame.Idle (f : Frame) : Prop := f.handler = true → f.code = []

/-- What holds of the frame that runs: a handler is at its end, or its code is safe and no tick can
come. -/
def Core.Top (m : Core) (f : Frame) : Prop :=
  f.Idle ∨ (Safe m.held f.code ∧ (m.held .sched = true ∨ m.intFlag = false))

/-- The invariant of runs under the condition. -/
structure Calm (m : Core) : Prop where
  others : ∀ t, t ≠ m.current → ∀ f ∈ m.stackOf t, f.Idle
  below : ∀ f fs, m.frames = f :: fs → ∀ f' ∈ fs, f'.Idle
  top : ∀ f fs, m.frames = f :: fs → m.Top f

variable {m m' : Core} {f : Frame} {fs : List Frame} {e : CpuEvent}

@[simp] lemma setFrames_frames (m : Core) (fs : List Frame) : (m.setFrames fs).frames = fs :=
  Function.update_self ..

@[simp] lemma setFrames_current (m : Core) (fs : List Frame) :
    (m.setFrames fs).current = m.current := rfl

lemma setFrames_stackOf (m : Core) (fs : List Frame) (h : t ≠ m.current) :
    (m.setFrames fs).stackOf t = m.stackOf t :=
  Function.update_of_ne h ..

/-- The current thread gets a new frame on top, or its frame changes; the flag and the locks may
change too. -/
lemma Calm.replace (h : Calm m) {intFlag : Bool} (hfs : ∀ f' ∈ fs, f'.Idle)
    (htop : Core.Top { m.setFrames (f :: fs) with intFlag := intFlag, held := held } f) :
    Calm { m.setFrames (f :: fs) with intFlag := intFlag, held := held } := by
  refine ⟨fun t ht f' hf' => ?_, fun f₁ fs₁ heq => ?_, fun f₁ fs₁ heq => ?_⟩
  · rw [show ({ m.setFrames (f :: fs) with intFlag := intFlag, held := held } : Core).stackOf t =
      m.stackOf t from setFrames_stackOf m _ ht] at hf'
    exact h.others t ht f' hf'
  · obtain ⟨rfl, rfl⟩ := List.cons.inj ((setFrames_frames m (f :: fs)).symm.trans heq)
    exact hfs
  · obtain ⟨rfl, rfl⟩ := List.cons.inj ((setFrames_frames m (f :: fs)).symm.trans heq)
    exact htop

lemma calm_boot : Calm {} := by
  have hidle : Frame.Idle ⟨false, []⟩ := fun h => absurd h (by simp)
  refine ⟨fun t _ f hf => ?_, fun f fs heq f' hf' => ?_, fun f fs heq => .inl ?_⟩
  · rw [List.mem_singleton.mp hf]
    exact hidle
  · obtain ⟨-, rfl⟩ := List.cons.inj heq
    exact absurd hf' List.not_mem_nil
  · obtain ⟨rfl, -⟩ := List.cons.inj heq
    exact hidle

/-- The handler continues on the stack of another thread. -/
lemma Calm.resume (h : Calm m) {f₀ : Frame} (heq : m.frames = f₀ :: fs) (htop : m.Top f) :
    Calm (m.exec f fs (.resume t)) := by
  have hrest : ∀ u, ∀ f' ∈ Function.update m.stackOf m.current fs u, f'.Idle := by
    intro u f' hf'
    by_cases hu : u = m.current
    · rw [hu, Function.update_self] at hf'
      exact h.below f₀ fs heq f' hf'
    · rw [Function.update_of_ne hu] at hf'
      exact h.others u hu f' hf'
  have hframes : (m.exec f fs (.resume t)).frames =
      f :: Function.update m.stackOf m.current fs t := Function.update_self ..
  refine ⟨fun u hu f' hf' => ?_, fun f₁ fs₁ heq₁ => ?_, fun f₁ fs₁ heq₁ => ?_⟩
  · refine hrest u f' ?_
    rwa [show (m.exec f fs (.resume t)).stackOf u = _ from Function.update_of_ne hu ..] at hf'
  · obtain ⟨-, rfl⟩ := List.cons.inj (hframes.symm.trans heq₁)
    exact hrest t
  · obtain ⟨rfl, -⟩ := List.cons.inj (hframes.symm.trans heq₁)
    exact htop

/-- One instruction of a thread. -/
lemma Calm.exec_thread (h : Calm m) {i : Instr} (heq : m.frames = ⟨false, i :: code⟩ :: fs) :
    Calm (m.exec ⟨false, code⟩ fs i) := by
  have hbelow := h.below _ fs heq
  have hidle : Frame.Idle ⟨false, code⟩ := fun h => absurd h (by simp)
  cases i with
  | cli => exact h.replace hbelow (.inl hidle)
  | sti => exact h.replace hbelow (.inl hidle)
  | lock l =>
    rw [Core.exec]
    split
    · exact h
    · exact h.replace hbelow (.inl hidle)
  | unlock l => exact h.replace hbelow (.inl hidle)
  | resume t => exact h.resume heq (.inl hidle)

/-- One instruction of a handler. -/
lemma Calm.exec_handler (h : Calm m) {i : Instr} (heq : m.frames = ⟨true, i :: code⟩ :: fs) :
    Calm (m.exec ⟨true, code⟩ fs i) := by
  have hbelow := h.below _ fs heq
  obtain ⟨hsafe, hquiet⟩ := (h.top _ fs heq).resolve_left fun hidle => absurd (hidle rfl) (by simp)
  cases i with
  | cli => exact h.replace hbelow (.inr ⟨hsafe, .inr rfl⟩)
  | sti => exact h.replace hbelow (.inr ⟨hsafe.2, .inl hsafe.1⟩)
  | lock l =>
    rw [Core.exec, if_neg (by simp [hsafe.1])]
    refine h.replace hbelow (.inr ⟨hsafe.2, hquiet.imp_left fun hsched => ?_⟩)
    dsimp only
    by_cases hl : l = .sched
    · rw [hl, Function.update_self]
    · rw [Function.update_of_ne (Ne.symm hl), hsched]
  | unlock l =>
    by_cases hl : l = .sched
    · -- `sched_lock` is released last
      exact h.replace hbelow (.inl fun _ => hsafe.1 hl)
    · refine h.replace hbelow (.inr ⟨hsafe.2, hquiet.imp_left fun hsched => ?_⟩)
      dsimp only
      rw [Function.update_of_ne (Ne.symm hl), hsched]
  | resume t => exact h.resume heq (.inr ⟨hsafe, hquiet⟩)

/-- A handler has come to its end. -/
lemma Calm.iret (h : Calm m) (heq : m.frames = f :: fs) :
    Calm { m.setFrames fs with intFlag := true } := by
  have hbelow := h.below f fs heq
  have hframes : ({ m.setFrames fs with intFlag := true } : Core).frames = fs :=
    setFrames_frames m fs
  refine ⟨fun t ht f' hf' => ?_, fun f₁ fs₁ heq₁ f' hf' => ?_, fun f₁ fs₁ heq₁ => .inl ?_⟩
  · rw [show ({ m.setFrames fs with intFlag := true } : Core).stackOf t = m.stackOf t from
      setFrames_stackOf m _ ht] at hf'
    exact h.others t ht f' hf'
  · rw [hframes] at heq₁
    exact hbelow f' (by rw [heq₁]; exact List.mem_cons_of_mem _ hf')
  · rw [hframes] at heq₁
    exact hbelow f₁ (by rw [heq₁]; exact List.mem_cons_self)

/-- A tick under the condition. -/
lemma Calm.timer (h : Calm m) (hflag : m.intFlag = true) (hsched : m.held .sched = false)
    (hsafe : Safe m.held code) :
    Calm { m.setFrames (⟨true, code⟩ :: m.frames) with intFlag := false } := by
  refine h.replace (fun f' hf' => ?_) (.inr ⟨hsafe, .inr rfl⟩)
  cases hframes : m.frames with
  | nil =>
    rw [hframes] at hf'
    exact absurd hf' List.not_mem_nil
  | cons f fs =>
    rw [hframes] at hf'
    rcases List.mem_cons.mp hf' with rfl | hf'
    · -- a handler that holds `sched_lock` is not interrupted
      rcases h.top f' fs hframes with hidle | ⟨-, hheld | hoff⟩
      · exact hidle
      · rw [hsched] at hheld
        exact absurd hheld (by simp)
      · rw [hflag] at hoff
        exact absurd hoff (by simp)
    · exact h.below f fs hframes f' hf'

/-- An event under the condition keeps the invariant. -/
lemma Calm.tick (h : Calm m) (ht : Timely m e) (hm : tick e m = some m') : Calm m' := by
  cases e with
  | timer fuel g c regs n s =>
    rw [Scheduler.tick] at hm
    split at hm
    · rename_i hflag
      obtain ⟨hsched, hlocks⟩ := ht hflag
      obtain ⟨code, hcode, rfl⟩ := Option.map_eq_some_iff.mp hm
      exact h.timer hflag hsched (safe_switchCode hsched hlocks hcode)
    · rw [← Option.some.inj hm]
      exact h
  | run =>
    rw [Scheduler.tick] at hm
    split at hm
    · rw [← Option.some.inj hm]
      exact h
    · rename_i handler fs heq
      rw [← Option.some.inj hm]
      split
      · exact h.iret heq
      · exact h
    · rename_i handler i code fs heq
      rw [← Option.some.inj hm]
      cases handler with
      | false => exact h.exec_thread heq
      | true => exact h.exec_handler heq
  | call r =>
    rw [Scheduler.tick] at hm
    split at hm
    · rename_i fs heq
      rw [← Option.some.inj hm]
      exact h.replace (h.below _ fs heq) (.inl fun hfalse => absurd hfalse (by simp))
    · rw [← Option.some.inj hm]
      exact h

lemma Calm.unobstructed (h : Calm m) : Unobstructed m := by
  intro l code fs heq
  rcases h.top _ fs heq with hidle | ⟨hsafe, -⟩
  · exact absurd (hidle rfl) (by simp)
  · exact hsafe.1

/-- **No self-deadlock.**  In every interleaving of ticks, calls of threads and steps of the running
code on one processor, `switchTask` finds every lock free that it takes, if the ticks meet the
condition. -/
theorem switchTask_unobstructed {es : List CpuEvent} (h : Along tick Timely es {}) :
    Always tick Unobstructed es {} :=
  h.always (fun _ _ _ hm ht hs => hm.tick ht hs) (fun _ hm => hm.unobstructed) calm_boot

/-- A process with one thread, which runs. -/
def oneProcess : Sched :=
  (Scheduler.run 5 [.createProc 0x4000 0 {}, .switchTask 0 {} {}] (start 1)).getD (start 1)

/-- A tick while the tables of the scheduler are these. -/
def oneTick : CpuEvent := .timer 5 {} 0 {} {} oneProcess

/-- The thread allocates, and the timer ticks when it is done: the idle process is created, and its
thread runs. -/
theorem switchTask_unobstructed_idle :
    Always tick Unobstructed ([.call (.malloc 1), .run, .run, oneTick] ++
      List.replicate 33 .run) {} ∧
      (exec tick ([.call (.malloc 1), .run, .run, oneTick] ++ List.replicate 33 .run) {}).map
        (fun m => (m.current, m.frames, m.intFlag)) = some (1, [⟨false, []⟩], true) := by
  refine ⟨switchTask_unobstructed ?_, by decide +kernel⟩
  have hcheck : Along tick (fun m e =>
      (match e with
        | .timer _ _ _ _ _ _ =>
          decide (m.held .sched = false ∧ m.held .heap = false ∧ m.held .thread = false ∧
            m.held .proc = false)
        | _ => true) = true)
      ([.call (.malloc 1), .run, .run, oneTick] ++ List.replicate 33 .run) {} := by
    decide +kernel
  refine hcheck.mono fun m e he => ?_
  cases e with
  | timer fuel g c regs n s =>
    obtain ⟨hsched, hheap, hrest⟩ := of_decide_eq_true he
    exact fun _ => ⟨hsched, .inr ⟨hheap, .inr hrest⟩⟩
  | run => trivial
  | call r => trivial

/-- `switchTask` is about to take a lock that is held. -/
def Core.obstructed (m : Core) : Bool :=
  match m.frames with
  | ⟨true, .lock l :: _⟩ :: _ => m.held l
  | _ => false

lemma not_unobstructed (h : m.obstructed = true) : ¬ Unobstructed m := by
  intro hm
  rw [Core.obstructed] at h
  split at h
  · rename_i l code fs heq
    rw [hm l code fs heq] at h
    exact absurd h (by simp)
  · exact absurd h (by simp)

/-- A second tick comes after `this_proc` has enabled interrupts: its handler waits for
`sched_lock`.  A tick comes while the thread holds the lock of the heap: the handler creates the
idle process, and waits for that lock. -/
theorem switchTask_obstructed :
    ¬ Always tick Unobstructed [oneTick, .run, .run, .run, oneTick] {} ∧
      ¬ Always tick Unobstructed ([.call (.malloc 1), .run, oneTick] ++ List.replicate 5 .run)
        {} := by
  refine ⟨fun h => ?_, fun h => ?_⟩
  · have hrun : (exec tick [oneTick, .run, .run, .run, oneTick] {}).map Core.obstructed =
        some true := by
      decide +kernel
    obtain ⟨m, hm, hobs⟩ := Option.map_eq_some_iff.mp hrun
    exact not_unobstructed hobs (h.exec hm)
  · have hrun : (exec tick ([.call (.malloc 1), .run, oneTick] ++ List.replicate 5 .run) {}).map
        Core.obstructed = some true := by
      decide +kernel
    obtain ⟨m, hm, hobs⟩ := Option.map_eq_some_iff.mp hrun
    exact not_unobstructed hobs (h.exec hm)

end TurbOS.Scheduler
