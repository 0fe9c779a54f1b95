import TurbOS.Scheduler.Switch

/-!
# What creating and dispatching change

`createThread`, `allocProc`, `createProc` and `dispatch` make several assignments each.
The structures of this file describe the states after them object by object, and the
lemmas say that the functions do that.
-/

namespace TurbOS.Scheduler

variable {s s' : Sched} {c p t addr args fuel : ℕ} {g : Grant} {regs regs' : Regs}

/-! ## Threads -/

/-- `T` is a thread as `createThread` leaves it. -/
structure NewThread (addr args : ℕ) (g : Grant) (parent : Option ℕ) (T : Thread) : Prop where
  state : T.state = .ready
  regs : T.thread_regs = initialRegs addr args g
  parent_proc : T.parent_proc = parent

/-- The state after `createThread`. -/
structure Spawned (s s' : Sched) (parent : Option ℕ) (T : Thread) : Prop where
  threads : ∀ u, s'.threads.get u = if u = s.threads.next then some T else s.threads.get u
  threads_next : s'.threads.next = s.threads.next + 1
  procs : ∀ q, s'.procs.get q =
    if parent = some q then (s.procs.get q).map fun P =>
      { P with nextTID := P.nextTID + 1, threadsVec := P.threadsVec.pushBack s.threads.next }
    else s.procs.get q
  procs_next : s'.procs.next = s.procs.next
  parent_some : ∀ q, parent = some q → (s.procs.get q).isSome
  cpus : s'.cpus = s.cpus
  table : s'.proc_table = s.proc_table

lemma createThread_spawned {parent : Option ℕ}
    (h : createThread addr args parent g s = some (t, s')) :
    t = s.threads.next ∧ ∃ T, NewThread addr args g parent T ∧ Spawned s s' parent T := by
  cases parent with
  | none =>
    rw [createThread] at h
    obtain ⟨rfl, rfl⟩ := Prod.mk.inj (Option.some.inj h)
    let T : Thread := {
      state := .ready
      thread_stack := g.stack
      thread_regs := initialRegs addr args g
      parent_proc := none }
    refine ⟨rfl, T, ⟨rfl, rfl, rfl⟩, fun u => ?_, rfl, fun q => by simp [allocThread], rfl, by simp,
      rfl, rfl⟩
    by_cases hu : u = s.threads.next
    · simp [hu, allocThread, T]
    · simp [hu, allocThread, Store.get_modify_of_ne, Store.get_alloc]
  | some p =>
    rw [createThread] at h
    obtain ⟨P, hP, h⟩ := Option.map_eq_some_iff.mp h
    obtain ⟨rfl, rfl⟩ := Prod.mk.inj h
    let T : Thread := {
      TID := P.nextTID
      state := .ready
      thread_stack := g.stack
      thread_regs := initialRegs addr args g
      parent_proc := some p }
    refine ⟨rfl, T, ⟨rfl, rfl, rfl⟩, fun u => ?_, rfl, fun q => ?_, rfl, ?_, rfl, rfl⟩
    · by_cases hu : u = s.threads.next
      · simp [hu, allocThread, T]
      · simp [hu, allocThread, Store.get_modify_of_ne, Store.get_alloc]
    · by_cases hq : p = q
      · simp [hq, allocThread]
      · simp [hq, allocThread, Store.get_modify_of_ne _ (Ne.symm hq)]
    · rintro q hq
      rw [← Option.some.inj hq, show s.procs.get p = some P from hP]
      rfl

/-! ## Processes -/

/-- The state after `allocProc`: there is one process more, and one thread more unless the
entry address is null. -/
structure Born (addr args : ℕ) (g : Grant) (s s' : Sched) (P : Process) : Prop where
  procs : ∀ q, s'.procs.get q = if q = s.procs.next then some P else s.procs.get q
  procs_next : s'.procs.next = s.procs.next + 1
  children : P.children.items = []
  threads : (addr = 0 ∧ P.threadsVec.items = [] ∧ s'.threads = s.threads) ∨
    (addr ≠ 0 ∧ P.threadsVec.items = [s.threads.next] ∧
      s'.threads.next = s.threads.next + 1 ∧
      ∃ T, NewThread addr args g (some s.procs.next) T ∧
        ∀ u, s'.threads.get u = if u = s.threads.next then some T else s.threads.get u)
  cpus : s'.cpus = s.cpus

lemma allocProc_born (h : allocProc addr args g s = some (p, s')) :
    p = s.procs.next ∧ s'.proc_table = s.proc_table ∧
      ∃ P, P.state = .initial ∧ Born addr args g s s' P := by
  obtain ⟨s₁, hs₁, h⟩ := Option.map_eq_some_iff.mp h
  obtain ⟨rfl, hs'⟩ := Prod.mk.inj h
  -- the flag and `initproc` do not matter
  obtain ⟨hprocs, hthreads, hcpus, htable⟩ : s'.procs = s₁.procs ∧ s'.threads = s₁.threads ∧
      s'.cpus = s₁.cpus ∧ s'.proc_table = s₁.proc_table := by
    rw [← hs']
    split <;> exact ⟨rfl, rfl, rfl, rfl⟩
  split at hs₁
  · rename_i haddr
    obtain ⟨⟨t, s₂⟩, hs₂, rfl⟩ := Option.map_eq_some_iff.mp hs₁
    obtain ⟨-, T, hT, hsp⟩ := createThread_spawned hs₂
    refine ⟨rfl, htable.trans hsp.table, {
      PID := s.next_pid.toUInt32.toInt32
      nextTID := 1 + 1
      state := .initial
      pagemap := g.pagemap
      threadsVec := TurboVector.pushBack {} s.threads.next
      parent := none }, rfl, fun q => ?_, ?_, rfl, .inr ⟨haddr, rfl, ?_, T, hT, ?_⟩, ?_⟩
    · rw [hprocs, hsp.procs q, Store.get_alloc]
      by_cases hq : q = s.procs.next
      · simp [hq]
      · simp [hq, Ne.symm hq]
    · rw [hprocs]
      exact hsp.procs_next
    · rw [hthreads]
      exact hsp.threads_next
    · rw [hthreads]
      exact hsp.threads
    · rw [hcpus]
      exact hsp.cpus
  · rename_i haddr
    obtain rfl := Option.some.inj hs₁
    refine ⟨rfl, htable, {
      PID := s.next_pid.toUInt32.toInt32
      state := .initial
      pagemap := g.pagemap
      parent := none }, rfl, fun q => ?_, ?_, rfl, .inl ⟨by simpa using haddr, rfl, hthreads⟩,
        hcpus⟩
    · rw [hprocs]
      exact Store.get_alloc _ _ q
    · rw [hprocs]
      rfl

lemma createProc_born (h : createProc addr args g s = some (p, s')) :
    p = s.procs.next ∧ s'.proc_table.items = s.proc_table.items ++ [p] ∧
      ∃ P, P.state = .ready ∧ Born addr args g s s' P := by
  obtain ⟨⟨q, s₁⟩, halloc, h⟩ := Option.map_eq_some_iff.mp h
  obtain ⟨rfl, rfl⟩ := Prod.mk.inj h
  obtain ⟨rfl, htable, P, -, hb⟩ := allocProc_born halloc
  refine ⟨rfl, ?_, { P with state := .ready }, rfl, fun u => ?_, hb.procs_next, hb.children,
    hb.threads, hb.cpus⟩
  · simp [TurboVector.pushBack, htable]
  · rw [setProc_procs, Store.get_modify, hb.procs, hb.procs u, if_pos rfl, Option.map_some]
    by_cases hu : u = s.procs.next
    · rw [if_pos hu, if_pos hu]
    · rw [if_neg hu, if_neg hu, if_neg hu]

/-! ## Dispatching -/

/-- `yield` leaves all processors what they refer to. -/
lemma yield_cpus (c ms d : ℕ) (s : Sched) :
    ((yield c ms s).cpus d).currentThread = (s.cpus d).currentThread ∧
      ((yield c ms s).cpus d).currentProcess = (s.cpus d).currentProcess ∧
      ((yield c ms s).cpus d).idleP = (s.cpus d).idleP := by
  by_cases hd : d = c
  · simp [yield, hd]
  · simp [yield, hd]

/-- The state after `dispatch`. -/
structure Dispatched (c p t : ℕ) (s s' : Sched) (T : Thread) : Prop where
  get : s.threads.get t = some T
  threads : ∀ u, s'.threads.get u =
    if u = t then some { T with state := .running } else s.threads.get u
  threads_next : s'.threads.next = s.threads.next
  procs : s'.procs = s.procs
  exists_proc : (s.procs.get p).isSome
  current : (s'.cpus c).currentThread = some t ∧ (s'.cpus c).currentProcess = some p ∧
    (s'.cpus c).idleP = (s.cpus c).idleP
  others : ∀ d, d ≠ c → s'.cpus d = s.cpus d
  table : s'.proc_table = s.proc_table

lemma dispatch_eq {ms : Option ℕ} (h : dispatch c p t ms s = some (regs', s')) :
    ∃ T, regs' = T.thread_regs ∧ Dispatched c p t s s' T := by
  obtain ⟨T, hT, h⟩ := Option.bind_eq_some_iff.mp h
  obtain ⟨P, hP, h⟩ := Option.map_eq_some_iff.mp h
  obtain ⟨rfl, rfl⟩ := Prod.mk.inj h
  refine ⟨T, rfl, hT, fun u => ?_, rfl, rfl, by rw [hP]; rfl, ?_, fun d hd => ?_, rfl⟩
  · rw [yield, setCpu_threads, setThread_threads, setCpu_threads, Store.get_modify, hT,
      Option.map_some]
  · simp [yield]
  · simp [yield, hd]

section

variable {d q u : ℕ} {T U : Thread}

/-- No processor gets another idle process. -/
lemma Dispatched.idleP (h : Dispatched c p t s s' T) (d : ℕ) :
    (s'.cpus d).idleP = (s.cpus d).idleP := by
  by_cases hdc : d = c
  · rw [hdc, h.current.2.2]
  · rw [h.others d hdc]

/-- A thread afterwards: the dispatched one, or an old one. -/
lemma Dispatched.thread_cases (h : Dispatched c p t s s' T) (hU : s'.threads.get u = some U) :
    (u = t ∧ U = { T with state := .running }) ∨ (u ≠ t ∧ s.threads.get u = some U) := by
  rw [h.threads u] at hU
  split at hU
  · rename_i hu
    exact .inl ⟨hu, (Option.some.inj hU).symm⟩
  · rename_i hu
    exact .inr ⟨hu, hU⟩

/-- The current thread of a processor afterwards. -/
lemma Dispatched.currentThread_cases (h : Dispatched c p t s s' T)
    (hu : (s'.cpus d).currentThread = some u) :
    (d = c ∧ u = t) ∨ (d ≠ c ∧ (s.cpus d).currentThread = some u) := by
  by_cases hdc : d = c
  · rw [hdc, h.current.1] at hu
    exact .inl ⟨hdc, (Option.some.inj hu).symm⟩
  · rw [h.others d hdc] at hu
    exact .inr ⟨hdc, hu⟩

/-- The current process of a processor afterwards. -/
lemma Dispatched.currentProcess_cases (h : Dispatched c p t s s' T)
    (hq : (s'.cpus d).currentProcess = some q) :
    (d = c ∧ q = p) ∨ (d ≠ c ∧ (s.cpus d).currentProcess = some q) := by
  by_cases hdc : d = c
  · rw [hdc, h.current.2.1] at hq
    exact .inl ⟨hdc, (Option.some.inj hq).symm⟩
  · rw [h.others d hdc] at hq
    exact .inr ⟨hdc, hq⟩

end

/-- What `idleProcess` does: it returns the idle process, and creates it if there is none. -/
lemma idleProcess_cases {r : ℕ × Sched} (h : idleProcess g c s = some r) :
    ((s.cpus c).idleP = some r.1 ∧ r.2 = s) ∨
      ((s.cpus c).idleP = none ∧ r.1 = s.procs.next ∧
        ∃ s₁ P, P.state = .initial ∧ Born s.idle 0 g s s₁ P ∧ s₁.proc_table = s.proc_table ∧
          r.2 = s₁.setCpu c fun C => { C with idleP := some r.1 }) := by
  rw [idleProcess] at h
  split at h
  · rename_i i hi
    obtain rfl := Option.some.inj h
    exact .inl ⟨hi, rfl⟩
  · rename_i hi
    obtain ⟨⟨q, s₁⟩, halloc, rfl⟩ := Option.map_eq_some_iff.mp h
    obtain ⟨rfl, htable, P, hstate, hb⟩ := allocProc_born halloc
    exact .inr ⟨hi, rfl, s₁, P, hstate, hb, htable, rfl⟩

end TurbOS.Scheduler
