import TurbOS.Scheduler.Create

/-!
# References and cleaning up

The scheduler refers to threads and processes from `proc_table`, from the thread vectors
of processes, and from every processor.  No reference dangles as long as `clean_proc` is
called on settled processes only.

When `clean_proc` does release something, references dangle: it frees a process and leaves
it in `proc_table`, and the vector operation that should remove the thread it frees removes
other elements.
-/

namespace TurbOS.Scheduler

variable {s s' : Sched} {c p t addr args fuel : ℕ} {g : Grant} {regs regs' : Regs}

/-! ## Runs -/

/-- The calls of the scheduler.  A call that acts on the current thread names the processor
on which it is made. -/
inductive Op where
  | createProc (addr args : ℕ) (g : Grant)
  | createThread (addr args : ℕ) (parent : Option ℕ) (g : Grant)
  | switchTask (c : ℕ) (regs : Regs) (g : Grant)
  | blockThread (c : ℕ)
  | exitThread (c : ℕ)
  | exitProc (c : ℕ)
deriving DecidableEq, Repr

/-- One call. -/
def step (fuel : ℕ) : Op → Sched → Option Sched
  | .createProc addr args g, s => (createProc addr args g s).map Prod.snd
  | .createThread addr args parent g, s => (createThread addr args parent g s).map Prod.snd
  | .switchTask c regs g, s => (switchTask fuel g c regs s).map Prod.snd
  | .blockThread c, s => blockThread c s
  | .exitThread c, s => exitThread c s
  | .exitProc c, s => exitProc c s

/-- A sequence of calls. -/
def run (fuel : ℕ) : List Op → Sched → Option Sched
  | [], s => some s
  | op :: ops, s => (step fuel op s).bind (run fuel ops)

/-- A sequence of calls is a sequence of steps of any relation that the calls satisfy. -/
lemma run_reaches {R : Sched → Sched → Prop} {ops : List Op}
    (hops : ∀ op ∈ ops, ∀ s s', step fuel op s = some s' → R s s')
    (h : run fuel ops s = some s') : Relation.ReflTransGen R s s' := by
  induction ops generalizing s with
  | nil =>
    obtain rfl := Option.some.inj h
    exact .refl
  | cons op ops ih =>
    obtain ⟨s₁, hs₁, h⟩ := Option.bind_eq_some_iff.mp h
    exact .head (hops op List.mem_cons_self s s₁ hs₁)
      (ih (fun op' hop' => hops op' (List.mem_cons_of_mem _ hop')) h)

/-- The scheduler before the first call; the function `idle` is at the given address. -/
def start (idle : ℕ+) : Sched := { idle := idle }

/-- A call in which `clean_proc` finds nothing to release. -/
def QuietStep (s s' : Sched) : Prop :=
  ∃ fuel op, step fuel op s = some s' ∧ ∀ c regs g, op = .switchTask c regs g → Quiet c regs s

/-! ## References -/

/-- Every reference refers to an object that exists. -/
structure NoDangling (s : Sched) : Prop where
  table : ∀ p ∈ s.proc_table.items, (s.procs.get p).isSome
  threads : ∀ p P, s.procs.get p = some P → ∀ t ∈ P.threadsVec.items, (s.threads.get t).isSome
  currentThread : ∀ c t, (s.cpus c).currentThread = some t → (s.threads.get t).isSome
  currentProcess : ∀ c p, (s.cpus c).currentProcess = some p → (s.procs.get p).isSome

/-- Every object of `s` exists in `s'`. -/
structure Keeps (s s' : Sched) : Prop where
  threads : ∀ t, (s.threads.get t).isSome → (s'.threads.get t).isSome
  procs : ∀ p, (s.procs.get p).isSome → (s'.procs.get p).isSome

lemma Keeps.refl (s : Sched) : Keeps s s := ⟨fun _ h => h, fun _ h => h⟩

lemma Keeps.trans {s₁ s₂ s₃ : Sched} (h : Keeps s₁ s₂) (h' : Keeps s₂ s₃) : Keeps s₁ s₃ :=
  ⟨fun t ht => h'.threads t (h.threads t ht), fun p hp => h'.procs p (h.procs p hp)⟩

/-- Changing threads and processors but no reference. -/
lemma NoDangling.setThread (h : NoDangling s) (t : ℕ) (f : Thread → Thread) :
    NoDangling (s.setThread t f) :=
  ⟨h.table, fun p P hP u hu => by simpa using h.threads p P hP u hu,
    fun c u hu => by simpa using h.currentThread c u hu, h.currentProcess⟩

lemma NoDangling.yield (h : NoDangling s) (c ms : ℕ) : NoDangling (yield c ms s) := by
  have hcpus : ∀ d, ((Scheduler.yield c ms s).cpus d).currentThread = (s.cpus d).currentThread ∧
      ((Scheduler.yield c ms s).cpus d).currentProcess = (s.cpus d).currentProcess := by
    intro d
    by_cases hd : d = c
    · simp [Scheduler.yield, hd]
    · simp [Scheduler.yield, hd]
  exact ⟨h.table, h.threads, fun d t ht => h.currentThread d t (by rw [← (hcpus d).1]; exact ht),
    fun d p hp => h.currentProcess d p (by rw [← (hcpus d).2]; exact hp)⟩

/-- Killing a process changes no reference. -/
lemma NoDangling.setState (h : NoDangling s) (p : ℕ) (state : State) :
    NoDangling (s.setProc p fun P => { P with state := state }) := by
  refine ⟨fun q hq => by simpa using h.table q hq, fun q Q hQ t ht => ?_, h.currentThread,
    fun c q hq => by simpa using h.currentProcess c q hq⟩
  obtain ⟨P, hP, rfl⟩ := Store.get_modify_eq_some hQ
  refine h.threads q P hP t ?_
  split at ht <;> exact ht

/-! ## The calls -/

lemma Spawned.keeps {parent : Option ℕ} {T : Thread} (h : Spawned s s' parent T) : Keeps s s' := by
  refine ⟨fun u hu => ?_, fun q hq => ?_⟩
  · rw [h.threads u]
    split
    · rfl
    · exact hu
  · rw [h.procs q]
    split
    · rw [Option.isSome_map]
      exact hq
    · exact hq

lemma Spawned.noDangling {parent : Option ℕ} {T : Thread} (h : Spawned s s' parent T)
    (hs : NoDangling s) : NoDangling s' := by
  have hk := h.keeps
  refine ⟨fun q hq => hk.procs q (hs.table q (by rwa [h.table] at hq)), fun q Q hQ u hu => ?_,
    fun d u hu => hk.threads u (hs.currentThread d u (by rwa [h.cpus] at hu)),
    fun d q hq => hk.procs q (hs.currentProcess d q (by rwa [h.cpus] at hq))⟩
  rw [h.procs q] at hQ
  split at hQ
  · obtain ⟨P, hP, rfl⟩ := Option.map_eq_some_iff.mp hQ
    rcases List.mem_append.mp hu with hu | hu
    · exact hk.threads u (hs.threads q P hP u hu)
    · rw [h.threads u, if_pos (List.mem_singleton.mp hu)]
      rfl
  · exact hk.threads u (hs.threads q Q hQ u hu)

lemma Born.keeps {P : Process} (h : Born addr args g s s' P) : Keeps s s' := by
  refine ⟨fun u hu => ?_, fun q hq => ?_⟩
  · rcases h.threads with ⟨-, -, heq⟩ | ⟨-, -, -, T, -, hget⟩
    · rw [heq]
      exact hu
    · rw [hget u]
      split
      · rfl
      · exact hu
  · rw [h.procs q]
    split
    · rfl
    · exact hq

lemma Born.noDangling {P : Process} (h : Born addr args g s s' P) (hs : NoDangling s)
    (htable : ∀ q ∈ s'.proc_table.items, q = s.procs.next ∨ q ∈ s.proc_table.items) :
    NoDangling s' := by
  have hk := h.keeps
  refine ⟨fun q hq => ?_, fun q Q hQ u hu => ?_,
    fun d u hu => hk.threads u (hs.currentThread d u (by rwa [h.cpus] at hu)),
    fun d q hq => hk.procs q (hs.currentProcess d q (by rwa [h.cpus] at hq))⟩
  · rcases htable q hq with rfl | hq
    · rw [h.procs, if_pos rfl]
      rfl
    · exact hk.procs q (hs.table q hq)
  · rw [h.procs q] at hQ
    split at hQ
    · obtain rfl := Option.some.inj hQ
      rcases h.threads with ⟨-, hnil, -⟩ | ⟨-, hone, -, T, -, hget⟩
      · rw [hnil] at hu
        simp at hu
      · rw [hone] at hu
        rw [hget u, if_pos (List.mem_singleton.mp hu)]
        rfl
    · exact hk.threads u (hs.threads q Q hQ u hu)

lemma Dispatched.noDangling {T : Thread} (h : Dispatched c p t s s' T) (hs : NoDangling s) :
    NoDangling s' ∧ Keeps s s' := by
  have hk : Keeps s s' := by
    refine ⟨fun u hu => ?_, fun q hq => by rw [h.procs]; exact hq⟩
    rw [h.threads u]
    split
    · rfl
    · exact hu
  refine ⟨⟨fun q hq => hk.procs q (hs.table q (by rwa [h.table] at hq)), fun q Q hQ u hu => ?_,
    fun d u hu => ?_, fun d q hq => ?_⟩, hk⟩
  · rw [h.procs] at hQ
    exact hk.threads u (hs.threads q Q hQ u hu)
  · rcases h.currentThread_cases hu with ⟨-, rfl⟩ | ⟨-, hu⟩
    · exact hk.threads _ (by rw [h.get]; rfl)
    · exact hk.threads u (hs.currentThread d u hu)
  · rcases h.currentProcess_cases hq with ⟨-, rfl⟩ | ⟨-, hq⟩
    · exact hk.procs _ h.exists_proc
    · exact hk.procs q (hs.currentProcess d q hq)

lemma saved_noDangling (hs : NoDangling s) (c : ℕ) (regs : Regs) :
    NoDangling (saved c regs s) ∧ Keeps s (saved c regs s) := by
  rw [saved]
  split
  · exact ⟨hs.setThread _ _, fun u hu => by simpa [save] using hu, fun q hq => hq⟩
  · exact ⟨hs, Keeps.refl s⟩

/-- A quiet `switchTask` leaves no reference dangling and frees nothing. -/
lemma switchTask_noDangling (hs : NoDangling s) (hq : Quiet c regs s)
    (h : switchTask fuel g c regs s = some (regs', s')) : NoDangling s' ∧ Keeps s s' := by
  obtain ⟨hsaved, hkeeps⟩ := saved_noDangling hs c regs
  rcases switchTask_cases hq h with ⟨-, -, rfl⟩ | ⟨p, t, -, hd⟩ | ⟨r, I, t, hidle, -, -, hd⟩
  · exact ⟨hs, Keeps.refl s'⟩
  · obtain ⟨T, -, hd⟩ := dispatch_eq hd
    obtain ⟨h₁, h₂⟩ := hd.noDangling hsaved
    exact ⟨h₁, hkeeps.trans h₂⟩
  · obtain ⟨T, -, hd⟩ := dispatch_eq hd
    rcases idleProcess_cases hidle with ⟨-, hr⟩ | ⟨-, -, s₁, P, -, hb, htable, hr⟩
    · rw [hr] at hd
      obtain ⟨h₁, h₂⟩ := hd.noDangling hsaved
      exact ⟨h₁, hkeeps.trans h₂⟩
    · have hs₁ := hb.noDangling hsaved fun q hq => .inr (by rwa [htable] at hq)
      have hr₁ : NoDangling r.2 := by
        rw [hr]
        refine ⟨hs₁.table, hs₁.threads, fun d u hu => hs₁.currentThread d u ?_,
          fun d q hq => hs₁.currentProcess d q ?_⟩
        · by_cases hdc : d = c <;> simpa [hdc] using hu
        · by_cases hdc : d = c <;> simpa [hdc] using hq
      have hk₁ : Keeps (saved c regs s) r.2 := by
        rw [hr]
        exact ⟨hb.keeps.threads, hb.keeps.procs⟩
      obtain ⟨h₁, h₂⟩ := hd.noDangling hr₁
      exact ⟨h₁, (hkeeps.trans hk₁).trans h₂⟩

/-- A quiet call leaves no reference dangling and frees nothing. -/
lemma QuietStep.noDangling (h : QuietStep s s') (hs : NoDangling s) :
    NoDangling s' ∧ Keeps s s' := by
  obtain ⟨fuel, op, hstep, hquiet⟩ := h
  cases op with
  | createProc addr args g =>
    obtain ⟨⟨p, s₁⟩, hcreate, rfl⟩ := Option.map_eq_some_iff.mp hstep
    obtain ⟨rfl, htable, P, -, hb⟩ := createProc_born hcreate
    refine ⟨hb.noDangling hs fun q hq => ?_, hb.keeps⟩
    rw [htable] at hq
    rcases List.mem_append.mp hq with hq | hq
    · exact .inr hq
    · exact .inl (List.mem_singleton.mp hq)
  | createThread addr args parent g =>
    obtain ⟨⟨t, s₁⟩, hcreate, rfl⟩ := Option.map_eq_some_iff.mp hstep
    obtain ⟨-, T, -, hsp⟩ := createThread_spawned hcreate
    exact ⟨hsp.noDangling hs, hsp.keeps⟩
  | switchTask c regs g =>
    obtain ⟨⟨regs', s₁⟩, hswitch, rfl⟩ := Option.map_eq_some_iff.mp hstep
    exact switchTask_noDangling hs (hquiet c regs g rfl) hswitch
  | blockThread c =>
    obtain ⟨t, -, hstep⟩ := Option.bind_eq_some_iff.mp hstep
    obtain ⟨T, -, rfl⟩ := Option.map_eq_some_iff.mp hstep
    split
    · exact ⟨(hs.setThread t _).yield c 1, fun u hu => by simpa [yield] using hu, fun q hq => hq⟩
    · exact ⟨hs.yield c 1, fun u hu => hu, fun q hq => hq⟩
  | exitThread c =>
    obtain ⟨p, -, hstep⟩ := Option.bind_eq_some_iff.mp hstep
    obtain ⟨P, -, hstep⟩ := Option.bind_eq_some_iff.mp hstep
    split at hstep
    · obtain rfl := Option.some.inj hstep
      exact ⟨hs, Keeps.refl s⟩
    · obtain ⟨t, -, hstep⟩ := Option.bind_eq_some_iff.mp hstep
      obtain ⟨T, -, rfl⟩ := Option.map_eq_some_iff.mp hstep
      exact ⟨(hs.setThread t _).yield c 1, fun u hu => by simpa [yield] using hu, fun q hq => hq⟩
  | exitProc c =>
    rw [step, exitProc] at hstep
    split at hstep
    · obtain rfl := Option.some.inj hstep
      exact ⟨hs, Keeps.refl s⟩
    · obtain ⟨p, -, hstep⟩ := Option.bind_eq_some_iff.mp hstep
      obtain ⟨P, -, rfl⟩ := Option.map_eq_some_iff.mp hstep
      exact ⟨(hs.setState p _).yield c 1, fun u hu => hu, fun q hq => by simpa [yield] using hq⟩

lemma start_noDangling (idle : ℕ+) : NoDangling (start idle) :=
  ⟨by simp [start], by simp [start], by simp [start], by simp [start]⟩

/-- **No dangling references.**  In every run in which `clean_proc` is only called on
processes in which there is nothing to release, every reference refers to an object that
exists, and the next such call frees nothing. -/
theorem no_dangling {idle : ℕ+} (hr : Relation.ReflTransGen QuietStep (start idle) s) :
    NoDangling s ∧ ∀ s', QuietStep s s' → Keeps s s' := by
  have hs : NoDangling s := by
    induction hr with
    | refl => exact start_noDangling idle
    | tail _ hstep ih => exact (hstep.noDangling ih).1
  exact ⟨hs, fun s' hstep => (hstep.noDangling hs).2⟩

/-- Two processes are created and the first one is dispatched, with nothing to clean. -/
theorem no_dangling_two_processes :
    ∃ s, Relation.ReflTransGen QuietStep (start 1) s ∧ (s.cpus 0).currentThread = some 0 ∧
      NoDangling s := by
  have hrun : (run 5 [.createProc 0x4000 0 {}, .createProc 0x5000 0 {}] (start 1)).map
      (fun s => (cleaned 0 {} s, (switchTask 5 {} 0 {} s).map
        fun r => (r.2.cpus 0).currentThread)) = some ([], some (some 0)) := by
    decide +kernel
  obtain ⟨s₁, hs₁, heq⟩ := Option.map_eq_some_iff.mp hrun
  obtain ⟨hclean, hswitch⟩ := Prod.mk.inj heq
  obtain ⟨⟨regs, s⟩, hs, hcur⟩ := Option.map_eq_some_iff.mp hswitch
  have hr₁ : Relation.ReflTransGen QuietStep (start 1) s₁ := by
    refine run_reaches (fun op hop s s' hstep => ⟨5, op, hstep, ?_⟩) hs₁
    rintro c regs g rfl
    simp at hop
  have hr : Relation.ReflTransGen QuietStep (start 1) s := by
    refine hr₁.tail ⟨5, .switchTask 0 {} {}, by rw [step, hs]; rfl, ?_⟩
    rintro c regs g heq p hp
    obtain ⟨rfl, rfl, -⟩ := Op.switchTask.inj heq
    rw [hclean] at hp
    simp at hp
  exact ⟨s, hr, hcur, (no_dangling hr).1⟩

/-! ## A process that exits -/

/-- Two processes are created; the processor runs the first one, then the second one; the
second one exits, and the timer ticks. -/
def exitTrace : List Op :=
  [.createProc 0x4000 0 {}, .createProc 0x5000 0 {}, .switchTask 0 {} {}, .switchTask 0 {} {},
    .exitProc 0, .switchTask 0 {} {}]

/-- The second process is freed and is still in `proc_table`. -/
theorem freed_process_stays_listed :
    ∃ s, run 5 exitTrace (start 1) = some s ∧ s.procs.get 1 = none ∧ 1 ∈ s.proc_table.items ∧
      ¬ NoDangling s := by
  have hrun : (run 5 exitTrace (start 1)).map (fun s => (s.procs.get 1, s.proc_table.items)) =
      some (none, [0, 1]) := by
    decide +kernel
  obtain ⟨s, hs, heq⟩ := Option.map_eq_some_iff.mp hrun
  obtain ⟨hget, htable⟩ := Prod.mk.inj heq
  have hmem : 1 ∈ s.proc_table.items := by simp [htable]
  refine ⟨s, hs, hget, hmem, fun hd => ?_⟩
  have := hd.table 1 hmem
  rw [hget] at this
  exact absurd this (by simp)

end TurbOS.Scheduler
