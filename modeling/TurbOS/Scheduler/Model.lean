import TurbOS.Lib.Fuel
import TurbOS.Lib.Store
import TurbOS.Scheduler.TurboVector

/-!
# The scheduler

Threads and processes are objects in two stores, and pointers to them are handles; a null
pointer is `none`.  Reading an object that was freed is a fault: the computation returns
`none`, as it does when its fuel is not enough.

Each function of `scheduler.cpp` runs as one atomic step: `switchTask` holds `sched_lock`,
and the locks inside the other functions protect single assignments.  What the allocators
return is a parameter (`Grant`): the address of a stack, the contents of the memory of a
new `thread_t`, which its constructor leaves alone, and a page map.  The stack of a thread
is freed together with the thread, and the page map of a process together with the
process.  Names, log messages and the object counters are left out.
-/

open Fuel

namespace TurbOS.Scheduler

/-- `state_t`. -/
inductive State where
  | initial | ready | running | blocked | sleeping | killed
deriving DecidableEq, Repr

/-- `registers_t`. -/
structure Regs where
  r15 : ℕ := 0
  r14 : ℕ := 0
  r13 : ℕ := 0
  r12 : ℕ := 0
  r11 : ℕ := 0
  r10 : ℕ := 0
  r9 : ℕ := 0
  r8 : ℕ := 0
  rbp : ℕ := 0
  rdi : ℕ := 0
  rsi : ℕ := 0
  rdx : ℕ := 0
  rcx : ℕ := 0
  rbx : ℕ := 0
  rax : ℕ := 0
  int_no : ℕ := 0
  error_code : ℕ := 0
  rip : ℕ := 0
  cs : ℕ := 0
  rflags : ℕ := 0
  rsp : ℕ := 0
  ss : ℕ := 0
deriving DecidableEq, Repr

/-- `DEFAULT_TIMESLICE`. -/
def DEFAULT_TIMESLICE : ℕ := 5

/-- `STACK_SIZE`. -/
def STACK_SIZE : ℕ := 0x2000

/-- `thread_t`. -/
structure Thread where
  TID : Int32 := 1
  state : State
  thread_stack : ℕ
  thread_regs : Regs
  parent_proc : Option ℕ
  sliceOfTime : ℕ := DEFAULT_TIMESLICE
deriving DecidableEq, Repr

/-- `process_t`. -/
structure Process where
  PID : Int32
  nextTID : Int32 := 1
  state : State
  pagemap : ℕ
  threadsVec : TurboVector ℕ := {}
  children : TurboVector ℕ := {}
  parent : Option ℕ
deriving DecidableEq, Repr

/-- The fields of `cpu_t` that the scheduler uses, and what it does to the processor: the
page map that is loaded and the time for which the timer was set. -/
structure Cpu where
  currentThread : Option ℕ := none
  currentProcess : Option ℕ := none
  idleP : Option ℕ := none
  pagemap : ℕ := 0
  timer : ℕ := 0
deriving DecidableEq, Repr

/-- The state of the scheduler.  The processors are numbered; how many there are does not
matter. -/
structure Sched where
  threads : Store Thread := Store.empty
  procs : Store Process := Store.empty
  proc_table : TurboVector ℕ := {}
  initproc : Option ℕ := none
  isInit : Bool := false
  next_pid : UInt64 := 1
  cpus : ℕ → Cpu := fun _ => {}
  /-- The address of the function `idle`. -/
  idle : ℕ+ := 1

/-- What the allocators hand out when a thread or a process is created. -/
structure Grant where
  stack : ℕ := 0
  raw : Regs := {}
  pagemap : ℕ := 0
deriving DecidableEq, Repr

/-- Change a thread. -/
def Sched.setThread (s : Sched) (t : ℕ) (f : Thread → Thread) : Sched :=
  { s with threads := s.threads.modify t f }

/-- Change a process. -/
def Sched.setProc (s : Sched) (p : ℕ) (f : Process → Process) : Sched :=
  { s with procs := s.procs.modify p f }

/-- Change a processor. -/
def Sched.setCpu (s : Sched) (c : ℕ) (f : Cpu → Cpu) : Sched :=
  { s with cpus := Function.update s.cpus c (f (s.cpus c)) }

/-! ## Creating -/

/-- The registers with which a new thread starts. -/
def initialRegs (addr args : ℕ) (g : Grant) : Regs :=
  { g.raw with
    rflags := 0x202
    cs := 0x28
    ss := 0x30
    rip := addr
    rdi := args
    rsp := Word64.add g.stack STACK_SIZE }

/-- `allocThread`. -/
def allocThread (addr args : ℕ) (g : Grant) (s : Sched) : ℕ × Sched :=
  (s.threads.next, { s with threads := s.threads.alloc {
    state := .initial
    thread_stack := g.stack
    thread_regs := initialRegs addr args g
    parent_proc := none } })

/-- `createThread`. -/
def createThread (addr args : ℕ) (parent : Option ℕ) (g : Grant) (s : Sched) :
    Option (ℕ × Sched) :=
  let r := allocThread addr args g s
  let t := r.1
  let s := r.2
  match parent with
  | none => some (t, s.setThread t fun T => { T with state := .ready })
  | some p =>
    (s.procs.get p).map fun P =>
      let s := s.setThread t fun T => { T with TID := P.nextTID, parent_proc := some p }
      let s := s.setProc p fun P =>
        { P with nextTID := P.nextTID + 1, threadsVec := P.threadsVec.pushBack t }
      (t, s.setThread t fun T => { T with state := .ready })

/-- `allocProc`. -/
def allocProc (addr args : ℕ) (g : Grant) (s : Sched) : Option (ℕ × Sched) :=
  let p := s.procs.next
  let s := { s with
    procs := s.procs.alloc
      { PID := s.next_pid.toUInt32.toInt32
        state := .initial
        pagemap := g.pagemap
        parent := none }
    next_pid := s.next_pid + 1 }
  (if addr ≠ 0 then (createThread addr args (some p) g s).map Prod.snd else some s).map fun s =>
    (p, if s.isInit then s else { s with initproc := some p, isInit := true })

/-- `createProc`. -/
def createProc (addr args : ℕ) (g : Grant) (s : Sched) : Option (ℕ × Sched) :=
  (allocProc addr args g s).map fun r =>
    let s := { r.2 with proc_table := r.2.proc_table.pushBack r.1 }
    (r.1, s.setProc r.1 fun P => { P with state := .ready })

/-! ## Blocking and exiting -/

/-- `_yield`: set the timer of the processor. -/
def yield (c ms : ℕ) (s : Sched) : Sched := s.setCpu c fun C => { C with timer := ms }

/-- `blockThread()`, called on processor `c`. -/
def blockThread (c : ℕ) (s : Sched) : Option Sched :=
  (s.cpus c).currentThread.bind fun t =>
    (s.threads.get t).map fun T =>
      yield c 1 (if T.state = .ready ∨ T.state = .running then
        s.setThread t fun T => { T with state := .blocked } else s)

/-- `blockThread(thread)`, called on processor `c`: the guard looks at the thread that calls. -/
def blockThreadOf (c t : ℕ) (s : Sched) : Option Sched :=
  (s.cpus c).currentThread.bind fun u =>
    (s.threads.get u).bind fun U =>
      if U.state = .ready ∨ U.state = .running then
        (s.threads.get t).map fun _ => s.setThread t fun T => { T with state := .blocked }
      else some s

/-- `blockProc()`, called on processor `c`. -/
def blockProc (c : ℕ) (s : Sched) : Option Sched :=
  if (s.cpus c).currentProcess = s.initproc then some s
  else
    (s.cpus c).currentProcess.bind fun p =>
      (s.procs.get p).map fun P =>
        yield c 1 (if P.state = .ready ∨ P.state = .running then
          s.setProc p fun P => { P with state := .blocked } else s)

/-- `blockProc(proc)`, called on processor `c`: the guard looks at the process that calls. -/
def blockProcOf (c p : ℕ) (s : Sched) : Option Sched :=
  (s.cpus c).currentProcess.bind fun q =>
    (s.procs.get q).bind fun Q =>
      if Q.state = .ready ∨ Q.state = .running then
        (s.procs.get p).map fun _ => s.setProc p fun P => { P with state := .blocked }
      else some s

/-- `thread_unblock`. -/
def threadUnblock (t : ℕ) (s : Sched) : Option Sched :=
  (s.threads.get t).map fun T =>
    if T.state = .blocked then s.setThread t fun T => { T with state := .ready } else s

/-- `proc_unblock`. -/
def procUnblock (p : ℕ) (s : Sched) : Option Sched :=
  (s.procs.get p).map fun P =>
    if P.state = .blocked then s.setProc p fun P => { P with state := .ready } else s

/-- `exitThread()`, called on processor `c`. -/
def exitThread (c : ℕ) (s : Sched) : Option Sched :=
  (s.cpus c).currentProcess.bind fun p =>
    (s.procs.get p).bind fun P =>
      if some p = s.initproc ∧ P.threadsVec.size = 1 ∧ P.children.size = 0 then some s
      else
        (s.cpus c).currentThread.bind fun t =>
          (s.threads.get t).map fun _ =>
            yield c 1 (s.setThread t fun T => { T with state := .killed })

/-- `exitProc()`, called on processor `c`. -/
def exitProc (c : ℕ) (s : Sched) : Option Sched :=
  if (s.cpus c).currentProcess = s.initproc then some s
  else
    (s.cpus c).currentProcess.bind fun p =>
      (s.procs.get p).map fun _ =>
        yield c 1 (s.setProc p fun P => { P with state := .killed })

/-! ## Cleaning up -/

/-- `free(thread->thread_stack); free(thread);`. -/
def freeThread (t : ℕ) (s : Sched) : Option Sched :=
  (s.threads.get t).map fun _ => { s with threads := s.threads.free t }

/-- `free(proc->pagemap); free(proc);`. -/
def freeProc (p : ℕ) (s : Sched) : Option Sched :=
  (s.procs.get p).map fun _ => { s with procs := s.procs.free p }

/-- The loops of `clean_proc` over the threads of a process: those that `sel` selects are
removed from the vector, as far as `find` and `remove` do that, and freed. -/
def releaseThreads (sel : Thread → Bool) (fuel p : ℕ) (s : Sched) : Option Sched :=
  loop (fun c : Sched × ℕ =>
    (c.1.procs.get p).bind fun P =>
      if c.2 < P.threadsVec.size then
        P.threadsVec.items[c.2]?.bind fun t =>
          (c.1.threads.get t).bind fun T =>
            if sel T then
              (P.threadsVec.remove (P.threadsVec.find t)).bind fun v =>
                (freeThread t (c.1.setProc p fun P => { P with threadsVec := v })).map fun s =>
                  .inl (s, c.2 + 1)
            else some (.inl (c.1, c.2 + 1))
      else some (.inr c.1)) fuel (s, 0)

/-- The loop of `clean_proc` over the children of a process, where `clean` is the recursive
call. -/
def killChildren (clean : ℕ → Sched → Option Sched) (fuel p : ℕ) (s : Sched) : Option Sched :=
  loop (fun c : Sched × ℕ =>
    (c.1.procs.get p).bind fun P =>
      if c.2 < P.children.size then
        P.children.items[c.2]?.bind fun child =>
          (c.1.procs.get child).bind fun _ =>
            (clean child (c.1.setProc child fun P => { P with state := .killed })).map fun s =>
              .inl (s, c.2 + 1)
      else some (.inr c.1)) fuel (s, 0)

/-- The part of `clean_proc` that tells the parent of a killed process. -/
def leaveParent (clean : ℕ → Sched → Option Sched) (p : ℕ) (s : Sched) : Option Sched :=
  (s.procs.get p).bind fun P =>
    match P.parent with
    | none => some s
    | some q =>
      (s.procs.get q).bind fun Q =>
        (Q.children.remove (Q.children.find p)).bind fun v =>
          let s := s.setProc q fun Q => { Q with children := v }
          if v.size = 0 ∧ P.threadsVec.size = 0 then
            clean q (s.setProc q fun Q => { Q with state := .killed })
          else some s

/-- `clean_proc`, for a pointer that is not null. -/
def cleanProc : ℕ → ℕ → Sched → Option Sched
  | 0, _, _ => none
  | fuel + 1, p, s =>
    (s.procs.get p).bind fun P =>
      if P.state = .killed then
        (killChildren (cleanProc fuel) fuel p s).bind fun s =>
          (releaseThreads (fun _ => true) fuel p s).bind fun s =>
            (leaveParent (cleanProc fuel) p s).bind fun s => freeProc p s
      else
        (releaseThreads (fun T => T.state = .killed) fuel p s).bind fun s =>
          (s.procs.get p).bind fun P =>
            if P.children.size = 0 ∧ P.threadsVec.size = 0 then
              cleanProc fuel p (s.setProc p fun P => { P with state := .killed })
            else some s

/-- `clean_proc`. -/
def clean (fuel : ℕ) (proc : Option ℕ) (s : Sched) : Option Sched :=
  match proc with
  | none => some s
  | some p => cleanProc fuel p s

/-! ## Switching -/

/-- The loops over the threads of a process: the first one that is `READY`. -/
def scanThreads (s : Sched) : List ℕ → Option (Option ℕ)
  | [] => some none
  | t :: ts => (s.threads.get t).bind fun T =>
      if T.state ≠ .ready then scanThreads s ts else some (some t)

/-- The loop over later threads of the current process `p`; `t` is the current thread. -/
def laterThread (s : Sched) (p t : ℕ) : Option (Option ℕ) :=
  (s.procs.get p).bind fun P =>
    if P.state ≠ .ready then some none
    else scanThreads s (P.threadsVec.items.drop (Word64.add (P.threadsVec.find t) 1))

/-- The loop over later processes: the first `READY` thread of the first `READY` process
that has one. -/
def scanProcs (s : Sched) : List ℕ → Option (Option (ℕ × ℕ))
  | [] => some none
  | p :: ps => (s.procs.get p).bind fun P =>
      if P.state ≠ .ready then scanProcs s ps
      else (scanThreads s P.threadsVec.items).bind fun r =>
        match r with
        | some t => some (some (p, t))
        | none => scanProcs s ps

/-- The loop of a processor without a current thread: like the other one, but it calls
`clean_proc` on the processes that are not `READY`. -/
def firstReady (fuel : ℕ) : List ℕ → Sched → Option (Option (ℕ × ℕ) × Sched)
  | [], s => some (none, s)
  | p :: ps, s => (s.procs.get p).bind fun P =>
      if P.state ≠ .ready then (cleanProc fuel p s).bind fun s => firstReady fuel ps s
      else (scanThreads s P.threadsVec.items).bind fun r =>
        match r with
        | some t => some (some (p, t), s)
        | none => firstReady fuel ps s

/-- Make `t` of `p` the current thread of processor `c`, for `ms` milliseconds or for its
own time slice, and continue with its registers. -/
def dispatch (c p t : ℕ) (ms : Option ℕ) (s : Sched) : Option (Regs × Sched) :=
  (s.threads.get t).bind fun T =>
    (s.procs.get p).map fun P =>
      let s := s.setCpu c fun C =>
        { C with currentProcess := some p, currentThread := some t, pagemap := P.pagemap }
      (T.thread_regs, yield c (ms.getD T.sliceOfTime)
        (s.setThread t fun T => { T with state := .running }))

/-- The idle process of the processor, which is created when it is first needed. -/
def idleProcess (g : Grant) (c : ℕ) (s : Sched) : Option (ℕ × Sched) :=
  match (s.cpus c).idleP with
  | some i => some (i, s)
  | none => (allocProc s.idle 0 g s).map fun r =>
      (r.1, r.2.setCpu c fun C => { C with idleP := some r.1 })

/-- The label `nofree`: continue with the idle process of the processor. -/
def goIdle (fuel : ℕ) (g : Grant) (c : ℕ) (s : Sched) : Option (Regs × Sched) :=
  (clean fuel (s.cpus c).currentProcess s).bind fun s =>
    (idleProcess g c s).bind fun r =>
      (r.2.procs.get r.1).bind fun I =>
        I.threadsVec.items[0]?.bind fun t => dispatch c r.1 t (some 1) r.2

/-- The registers of the interrupted thread are saved, and it may be chosen again. -/
def save (t : ℕ) (regs : Regs) (s : Sched) : Sched :=
  s.setThread t fun T => { T with
    thread_regs := regs
    state := if T.state = .running then .ready else T.state }

/-- `switchTask` on processor `c`; the result is what it leaves in `*regs`. -/
def switchTask (fuel : ℕ) (g : Grant) (c : ℕ) (regs : Regs) (s : Sched) :
    Option (Regs × Sched) :=
  if s.isInit = false then some (regs, s)
  else
    match (s.cpus c).currentProcess, (s.cpus c).currentThread with
    | some p, some t =>
      (s.threads.get t).bind fun _ =>
        let s := save t regs s
        (laterThread s p t).bind fun r =>
          match r with
          | some t' => dispatch c p t' none s
          | none =>
            (scanProcs s (s.proc_table.items.drop
              (Word64.add (s.proc_table.find p) 1))).bind fun r =>
              match r with
              | some (p', t') => (cleanProc fuel p s).bind fun s => dispatch c p' t' none s
              | none => goIdle fuel g c s
    | _, _ =>
      (firstReady fuel s.proc_table.items s).bind fun r =>
        match r.1 with
        | some (p, t) => dispatch c p t none r.2
        | none => goIdle fuel g c r.2

end TurbOS.Scheduler
