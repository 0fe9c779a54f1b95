import TurbOS.Scheduler.Exclusive

/-!
# Register contexts

What a thread sees of the scheduler is that it continues where it was interrupted.  The
history of a run records only what threads can observe: that a thread was created with some
registers, and that it was switched out with some registers.  `resume` reads off a history
how a thread has to continue, without looking at the scheduler.  The scheduler refines this:
what `switchTask` writes to `*regs` is what the history says.  Of a thread that was created it says
what `allocThread` was asked for.
-/

namespace TurbOS.Scheduler

variable {s s' : Sched} {c p t addr args fuel : ℕ} {g : Grant} {regs regs' : Regs} {idle : ℕ+}

/-- What happens to the registers of threads. -/
inductive Event where
  /-- The thread was created to run the function at `addr` with the argument `args`. -/
  | created (t addr args : ℕ) (g : Grant)
  /-- The thread was interrupted with these registers, and `switchTask` was called. -/
  | switchedOut (t : ℕ) (regs : Regs)
deriving DecidableEq, Repr

/-- The thread of an event. -/
def Event.thread : Event → ℕ
  | .created t _ _ _ => t
  | .switchedOut t _ => t

/-- The registers with which the thread of an event has to continue. -/
def Event.frame : Event → Regs
  | .created _ addr args g => initialRegs addr args g
  | .switchedOut _ regs => regs

/-- What happened to a thread last, in a history whose latest event comes first. -/
def latest (es : List Event) (t : ℕ) : Option Event := es.find? fun e => e.thread = t

/-- The registers with which a thread has to continue: those of its last switch, or the initial
ones. -/
def resume (es : List Event) (t : ℕ) : Option Regs := (latest es t).map Event.frame

/-- The frame that is built for a new thread: it starts at the function with its argument,
interrupts are on, and the stack pointer is the end of its stack. -/
structure InitialFrame (addr args : ℕ) (g : Grant) (regs : Regs) : Prop where
  rip : regs.rip = addr
  rdi : regs.rdi = args
  rsp : regs.rsp = Word64.add g.stack STACK_SIZE
  rflags : regs.rflags = 0x202
  cs : regs.cs = 0x28
  ss : regs.ss = 0x30

lemma initialRegs_frame (addr args : ℕ) (g : Grant) :
    InitialFrame addr args g (initialRegs addr args g) :=
  ⟨rfl, rfl, rfl, rfl, rfl, rfl⟩

/-- The current thread of processor `c` is switched out. -/
def outEvents (c : ℕ) (regs : Regs) (s : Sched) : List Event :=
  match (s.cpus c).currentThread with
  | none => []
  | some t => [.switchedOut t regs]

/-- The events of a call of `switchTask` on processor `c`: the current thread is switched
out, and the idle thread may be created. -/
def switchEvents (c : ℕ) (regs : Regs) (g : Grant) (s s' : Sched) : List Event :=
  (if (s'.cpus c).idleP = (s.cpus c).idleP then []
    else [.created s.threads.next s.idle 0 g]) ++ outEvents c regs s

/-- The histories of runs in which nothing exits, with the states they lead to. -/
inductive Traced (idle : ℕ+) : List Event → Sched → Prop
  | start : Traced idle [] (start idle)
  | createProc {es : List Event} {s s' : Sched} {addr args p : ℕ} {g : Grant}
      (h : Traced idle es s) (haddr : addr ≠ 0) (hs : createProc addr args g s = some (p, s')) :
      Traced idle (.created s.threads.next addr args g :: es) s'
  | createThread {es : List Event} {s s' : Sched} {addr args t : ℕ} {parent : Option ℕ} {g : Grant}
      (h : Traced idle es s) (hs : createThread addr args parent g s = some (t, s')) :
      Traced idle (.created t addr args g :: es) s'
  | blockThread {es : List Event} {s s' : Sched} {c : ℕ} (h : Traced idle es s)
      (hs : blockThread c s = some s') : Traced idle es s'
  | switchTask {es : List Event} {s s' : Sched} {c fuel : ℕ} {g : Grant} {regs regs' : Regs}
      (h : Traced idle es s) (hinit : s.isInit = true)
      (hs : switchTask fuel g c regs s = some (regs', s')) :
      Traced idle (switchEvents c regs g s s' ++ es) s'

/-- The saved registers of every thread are what the history says. -/
def Recorded (es : List Event) (s : Sched) : Prop :=
  ∀ t T, s.threads.get t = some T → resume es t = some T.thread_regs

lemma resume_cons (e : Event) (es : List Event) (t : ℕ) :
    resume (e :: es) t = if e.thread = t then some e.frame else resume es t := by
  rw [resume, resume, latest, List.find?_cons]
  by_cases h : e.thread = t <;> simp [h, latest]

/-! ## One call -/

/-- A new thread enters the history with its initial registers. -/
lemma Recorded.created {es : List Event} {T : Thread} (h : Recorded es s)
    (hregs : T.thread_regs = initialRegs addr args g)
    (hget : ∀ u, s'.threads.get u = if u = s.threads.next then some T else s.threads.get u) :
    Recorded (.created s.threads.next addr args g :: es) s' := by
  intro u U hU
  rw [hget u] at hU
  rw [resume_cons]
  split at hU
  · rename_i hu
    rw [← Option.some.inj hU, if_pos (by simp [Event.thread, hu]), hregs]
    rfl
  · rename_i hu
    rw [if_neg (by simpa [Event.thread] using Ne.symm hu)]
    exact h u U hU

/-- Saving the registers of the current thread enters them into the history. -/
lemma Recorded.saved {es : List Event} (h : Recorded es s) (hx : Exclusive none s) (c : ℕ)
    (regs : Regs) : Recorded (outEvents c regs s ++ es) (saved c regs s) := by
  rw [Scheduler.saved, outEvents]
  cases ht : (s.cpus c).currentThread with
  | none =>
    cases hp : (s.cpus c).currentProcess with
    | none => exact h
    | some p => exact h
  | some t =>
    obtain ⟨p, P, hp, -⟩ := hx.current c t ht
    simp only [hp]
    intro u U hU
    obtain ⟨U₀, hU₀, rfl⟩ := Store.get_modify_eq_some hU
    rw [List.singleton_append, resume_cons]
    by_cases hu : u = t
    · rw [if_pos (by simp [Event.thread, hu]), if_pos hu]
      rfl
    · rw [if_neg (by simpa [Event.thread] using Ne.symm hu), if_neg hu]
      exact h u U₀ hU₀

/-- Dispatching changes no saved registers. -/
lemma Recorded.dispatched {es : List Event} {T : Thread} (h : Recorded es s)
    (hd : Dispatched c p t s s' T) : Recorded es s' ∧ resume es t = some T.thread_regs := by
  refine ⟨fun u U hU => ?_, h t T hd.get⟩
  rcases hd.thread_cases hU with ⟨rfl, rfl⟩ | ⟨-, hU⟩
  · exact h u T hd.get
  · exact h u U hU

lemma saved_threads_next (c : ℕ) (regs : Regs) (s : Sched) :
    (saved c regs s).threads.next = s.threads.next := by
  rw [saved]
  split <;> rfl

/-- `switchTask` continues a thread with what the history says. -/
lemma Recorded.switchTask {es : List Event} (h : Recorded es s) (hx : Exclusive none s)
    (hinit : s.isInit = true) (hs : switchTask fuel g c regs s = some (regs', s')) :
    ∃ t, (s'.cpus c).currentThread = some t ∧
      Recorded (switchEvents c regs g s s' ++ es) s' ∧
      resume (switchEvents c regs g s s' ++ es) t = some regs' ∧
      ∀ d, d ≠ c → (s.cpus d).currentThread ≠ some t := by
  have hsaved := h.saved hx c regs
  have hxs := hx.saved c regs
  rcases switchTask_cases (hx.quiet c regs) hs with ⟨hno, -, -⟩ | ⟨p, t, hready, hdisp⟩ |
    ⟨r, I, t, hr, hI, ht, hdisp⟩
  · rw [hinit] at hno
    exact absurd hno (by simp)
  · obtain ⟨T, rfl, hd⟩ := dispatch_eq hdisp
    have hev : switchEvents c regs g s s' = outEvents c regs s := by
      rw [switchEvents, if_pos (by rw [hd.current.2.2, saved_cpus]), List.nil_append]
    rw [hev]
    obtain ⟨h₁, h₂⟩ := hsaved.dispatched hd
    refine ⟨t, hd.current.1, h₁, h₂, fun d hdc => ?_⟩
    rw [← saved_cpus c regs s]
    exact hxs.not_current_of_ready hready d hdc
  · obtain ⟨T, rfl, hd⟩ := dispatch_eq hdisp
    obtain ⟨hxr, hir⟩ := hxs.idleProcess hr
    have hfree := hxr.not_current_of_idle hir hI (List.mem_of_getElem? ht)
    rcases idleProcess_cases hr with ⟨hi, heq⟩ | ⟨hnone, -, s₁, P, -, hb, -, heq⟩
    · have hev : switchEvents c regs g s s' = outEvents c regs s := by
        rw [switchEvents, if_pos (by rw [hd.current.2.2, heq, saved_cpus]), List.nil_append]
      rw [hev]
      rw [heq] at hd
      rw [heq, saved_cpus] at hfree
      obtain ⟨h₁, h₂⟩ := hsaved.dispatched hd
      exact ⟨t, hd.current.1, h₁, h₂, hfree⟩
    · -- the idle thread was created in this call
      obtain ⟨-, -, -, T', hT', hget⟩ := hb.threads.resolve_left fun h => absurd h.1 (by simp)
      have hev : switchEvents c regs g s s' =
          .created s.threads.next s.idle 0 g :: outEvents c regs s := by
        rw [switchEvents, if_neg, List.singleton_append]
        rw [hd.current.2.2, hir, ← saved_cpus c regs s, hnone]
        simp
      rw [hev]
      have hrec : Recorded (.created s.threads.next s.idle 0 g ::
          (outEvents c regs s ++ es)) r.2 := by
        rw [heq, ← saved_threads_next c regs, ← saved_idle c regs]
        exact hsaved.created hT'.regs hget
      obtain ⟨h₁, h₂⟩ := hrec.dispatched hd
      refine ⟨t, hd.current.1, h₁, h₂, fun d hdc => ?_⟩
      have hnot := hfree d hdc
      rw [heq, setCpu_cpus, Function.update_of_ne hdc, hb.cpus, saved_cpus] at hnot
      exact hnot

/-! ## Whole runs -/

lemma Traced.inv {es : List Event} (h : Traced idle es s) : Exclusive none s ∧ Recorded es s := by
  induction h with
  | start => exact ⟨start_exclusive idle, by simp [Recorded, Scheduler.start]⟩
  | createProc _ haddr hs ih =>
    obtain ⟨-, -, P, hstate, hb⟩ := createProc_born hs
    obtain ⟨-, -, -, T, hT, hget⟩ := hb.threads.resolve_left fun h => haddr h.1
    exact ⟨ih.1.born haddr hb (by simp [hstate]), ih.2.created hT.regs hget⟩
  | createThread _ hs ih =>
    obtain ⟨rfl, T, hT, hsp⟩ := createThread_spawned hs
    exact ⟨ih.1.spawned hT hsp, ih.2.created hT.regs hsp.threads⟩
  | @blockThread es s s' c _ hs ih =>
    refine ⟨ih.1.blockThread hs, ?_⟩
    obtain ⟨t, -, hs⟩ := Option.bind_eq_some_iff.mp hs
    obtain ⟨T, -, rfl⟩ := Option.map_eq_some_iff.mp hs
    intro u U hU
    rw [yield, setCpu_threads] at hU
    split at hU
    · obtain ⟨U₀, hU₀, rfl⟩ := Store.get_modify_eq_some hU
      rw [ih.2 u U₀ hU₀]
      split <;> rfl
    · exact ih.2 u U hU
  | switchTask _ hinit hs ih =>
    obtain ⟨t, -, h₁, -, -⟩ := ih.2.switchTask ih.1 hinit hs
    exact ⟨ih.1.switchTask hs, h₁⟩

/-- The step changes the saved registers of the outgoing thread only. -/
lemma switchTask_frame (hx : Exclusive none s) (hs : switchTask fuel g c regs s = some (regs', s'))
    {u : ℕ} {U : Thread} (hU : s.threads.get u = some U) (hne : (s.cpus c).currentThread ≠ some u) :
    ∃ U', s'.threads.get u = some U' ∧ U'.thread_regs = U.thread_regs := by
  have hsaved : (saved c regs s).threads.get u = some U := by
    rw [saved]
    split
    · rename_i q t hq ht
      rw [save, setThread_threads, Store.get_modify_of_ne]
      · exact hU
      · rintro rfl
        exact hne ht
    · exact hU
  have hdisp : ∀ {s₁ : Sched} {p t : ℕ} {T : Thread}, s₁.threads.get u = some U →
      Dispatched c p t s₁ s' T → ∃ U', s'.threads.get u = some U' ∧
        U'.thread_regs = U.thread_regs := by
    intro s₁ p t T h₁ hd
    rw [hd.threads u]
    split
    · rename_i hut
      rw [hut, hd.get] at h₁
      rw [← Option.some.inj h₁]
      exact ⟨_, rfl, rfl⟩
    · exact ⟨U, h₁, rfl⟩
  rcases switchTask_cases (hx.quiet c regs) hs with ⟨-, -, rfl⟩ | ⟨p, t, -, hd⟩ |
    ⟨r, I, t, hr, -, -, hd⟩
  · exact ⟨U, hU, rfl⟩
  · obtain ⟨T, -, hd⟩ := dispatch_eq hd
    exact hdisp hsaved hd
  · obtain ⟨T, -, hd⟩ := dispatch_eq hd
    refine hdisp ?_ hd
    rcases idleProcess_cases hr with ⟨-, heq⟩ | ⟨-, -, s₁, P, -, hb, -, heq⟩
    · rw [heq]
      exact hsaved
    · obtain ⟨-, -, -, T', hT', hget⟩ := hb.threads.resolve_left fun h => absurd h.1 (by simp)
      rw [heq, setCpu_threads, hget u, if_neg (Store.lt_next hsaved).ne]
      exact hsaved

/-- **Register contexts survive scheduling.**  Whenever `switchTask` is called in a run, it
dispatches a thread that is current on no other processor, with the registers that were
passed to `switchTask` when the thread was last switched out, or with the frame that was built for
it if it never ran; and it changes the saved registers of no other thread than the outgoing one. -/
theorem contexts_survive {es : List Event} (h : Traced idle es s) (hinit : s.isInit = true)
    (hs : switchTask fuel g c regs s = some (regs', s')) :
    (∃ t, (s'.cpus c).currentThread = some t ∧
      resume (switchEvents c regs g s s' ++ es) t = some regs' ∧
      (∀ saved, latest (switchEvents c regs g s s' ++ es) t = some (.switchedOut t saved) →
        regs' = saved) ∧
      (∀ addr args g', latest (switchEvents c regs g s s' ++ es) t =
        some (.created t addr args g') → InitialFrame addr args g' regs') ∧
      ∀ d, d ≠ c → (s.cpus d).currentThread ≠ some t) ∧
    ∀ u U, s.threads.get u = some U → (s.cpus c).currentThread ≠ some u →
      ∃ U', s'.threads.get u = some U' ∧ U'.thread_regs = U.thread_regs := by
  obtain ⟨hx, hrec⟩ := h.inv
  obtain ⟨t, ht, -, hres, hfree⟩ := hrec.switchTask hx hinit hs
  refine ⟨⟨t, ht, hres, fun saved hlatest => ?_, fun addr args g' hlatest => ?_, hfree⟩,
    fun u U hU hne => switchTask_frame hx hs hU hne⟩
  · rw [resume, hlatest] at hres
    exact (Option.some.inj hres).symm
  · rw [resume, hlatest] at hres
    rw [← Option.some.inj hres]
    exact initialRegs_frame addr args g'

/-- A thread is switched out with `rax = 7`, another one runs, and the first one continues
with `rax = 7` on another processor. -/
theorem contexts_survive_migration :
    ∃ es s regs' s', Traced 1 es s ∧ switchTask 5 {} 1 {} s = some (regs', s') ∧
      regs'.rax = 7 ∧ ∃ t, (s'.cpus 1).currentThread = some t ∧
        resume (switchEvents 1 {} {} s s' ++ es) t = some regs' := by
  have hrun : ((createProc 0x4000 0 {} (start 1)).bind fun a =>
      (createThread 0x5000 0 (some 0) {} a.2).bind fun b =>
        (switchTask 5 {} 0 {} b.2).bind fun d =>
          (switchTask 5 {} 0 { rax := 7 } d.2).map fun e =>
            (a.2.isInit, b.2.isInit, d.2.isInit, e.2.isInit,
              (switchTask 5 {} 1 {} e.2).map fun r => r.1.rax)) =
      some (true, true, true, true, some 7) := by
    decide +kernel
  obtain ⟨⟨p, s₁⟩, hs₁, hrun⟩ := Option.bind_eq_some_iff.mp hrun
  obtain ⟨⟨t, s₂⟩, hs₂, hrun⟩ := Option.bind_eq_some_iff.mp hrun
  obtain ⟨⟨regs₃, s₃⟩, hs₃, hrun⟩ := Option.bind_eq_some_iff.mp hrun
  obtain ⟨⟨regs₄, s₄⟩, hs₄, hrun⟩ := Option.map_eq_some_iff.mp hrun
  simp only [Prod.mk.injEq, Option.map_eq_some_iff] at hrun
  obtain ⟨-, h₂, h₃, h₄, ⟨regs', s'⟩, hs', hrax⟩ := hrun
  have htraced := (((Traced.start.createProc (by norm_num) hs₁).createThread hs₂).switchTask
    h₂ hs₃).switchTask h₃ hs₄
  obtain ⟨t, ht, hres, -⟩ := (contexts_survive htraced h₄ hs').1
  exact ⟨_, s₄, regs', s', htraced, hs', hrax, t, ht, hres⟩

end TurbOS.Scheduler
