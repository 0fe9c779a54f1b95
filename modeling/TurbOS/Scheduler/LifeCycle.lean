import TurbOS.Scheduler.Unblock

/-!
# The life cycle of threads and processes

A state once `KILLED` is only to be followed by the end of the object.  Three calls do not see to
that: `blockThread(thread)` and `blockProc(proc)` test the state of the caller and write the state
of their argument, and `switchTask` dispatches the idle thread whatever its state is.  In runs
without these calls, `KILLED` is final.

And `thread_unblock` makes a thread `READY` that a processor has not left yet, if it comes before
the next `switchTask` of that processor.
-/

open Runs

namespace TurbOS.Scheduler

variable {s s' s₁ : Sched} {c p t addr args fuel : ℕ} {g : Grant} {regs regs' : Regs} {P : Process}
  {T : Thread} {a : Call}

/-- From `s` to `s'`: handles are not used again, and what is `KILLED` in `s` is `KILLED` or gone
in `s'`. -/
structure Ages (s s' : Sched) : Prop where
  threads_next : s.threads.next ≤ s'.threads.next
  procs_next : s.procs.next ≤ s'.procs.next
  threads_gone : ∀ t, t < s.threads.next → s.threads.get t = none → s'.threads.get t = none
  procs_gone : ∀ p, p < s.procs.next → s.procs.get p = none → s'.procs.get p = none
  threads_killed : ∀ t T, s.threads.get t = some T → T.state = .killed →
    ∀ T', s'.threads.get t = some T' → T'.state = .killed
  procs_killed : ∀ p P, s.procs.get p = some P → P.state = .killed →
    ∀ P', s'.procs.get p = some P' → P'.state = .killed

lemma Ages.refl (s : Sched) : Ages s s := by
  refine ⟨le_rfl, le_rfl, fun _ _ h => h, fun _ _ h => h, fun t T hT hk T' hT' => ?_,
    fun p P hP hk P' hP' => ?_⟩
  · rwa [← Option.some.inj (hT.symm.trans hT')]
  · rwa [← Option.some.inj (hP.symm.trans hP')]

lemma Ages.trans {s₂ : Sched} (h : Ages s s₁) (h' : Ages s₁ s₂) : Ages s s₂ := by
  refine ⟨h.threads_next.trans h'.threads_next, h.procs_next.trans h'.procs_next,
    fun t ht hnone => h'.threads_gone t (ht.trans_le h.threads_next) (h.threads_gone t ht hnone),
    fun p hp hnone => h'.procs_gone p (hp.trans_le h.procs_next) (h.procs_gone p hp hnone),
    fun t T hT hk T₂ hT₂ => ?_, fun p P hP hk P₂ hP₂ => ?_⟩
  · cases hT₁ : s₁.threads.get t with
    | none =>
      -- what is gone does not come back
      rw [h'.threads_gone t ((Store.lt_next hT).trans_le h.threads_next) hT₁] at hT₂
      exact absurd hT₂ (by simp)
    | some T₁ => exact h'.threads_killed t T₁ hT₁ (h.threads_killed t T hT hk T₁ hT₁) T₂ hT₂
  · cases hP₁ : s₁.procs.get p with
    | none =>
      rw [h'.procs_gone p ((Store.lt_next hP).trans_le h.procs_next) hP₁] at hP₂
      exact absurd hP₂ (by simp)
    | some P₁ => exact h'.procs_killed p P₁ hP₁ (h.procs_killed p P hP hk P₁ hP₁) P₂ hP₂

/-! ## The condition -/

/-- The condition on the calls under which `KILLED` is final. -/
def Disciplined (s : Sched) : Call → Prop
  | .blockThreadOf c t => ∀ T u U, s.threads.get t = some T → T.state = .killed →
      (s.cpus c).currentThread = some u → s.threads.get u = some U →
      ¬ (U.state = .ready ∨ U.state = .running)
  | .blockProcOf c p => ∀ P q Q, s.procs.get p = some P → P.state = .killed →
      (s.cpus c).currentProcess = some q → s.procs.get q = some Q →
      ¬ (Q.state = .ready ∨ Q.state = .running)
  | .op (.exitThread c) => (s.cpus c).currentProcess ≠ (s.cpus c).idleP
  | _ => True

/-- The condition on the order of the calls: a thread that is `BLOCKED` is not unblocked before the
processors that ran it have called `switchTask`. -/
def Unhurried (fuel : ℕ) (idle : ℕ+) (calls : List Call) : Prop :=
  ∀ xs t ys s T, calls = xs ++ .threadUnblock t :: ys → exec (call fuel) xs (start idle) = some s →
    s.threads.get t = some T → T.state = .blocked → Left fuel idle xs t

/-- The threads of idle processes are not killed. -/
def IdleAlive (s : Sched) : Prop :=
  ∀ c i, (s.cpus c).idleP = some i → ∀ t T, s.threads.get t = some T → T.parent_proc = some i →
    T.state ≠ .killed

/-! ## Blocking, unblocking and exiting -/

lemma Ages.setThread {f : Thread → Thread}
    (hf : ∀ T, s.threads.get t = some T → T.state = .killed → (f T).state = .killed) :
    Ages s (s.setThread t f) := by
  refine ⟨le_rfl, le_rfl, fun u _ hnone => ?_, fun _ _ h => h, fun u U hU hk U' hU' => ?_,
    (Ages.refl s).procs_killed⟩
  · rw [setThread_threads, Store.get_modify]
    split
    · rename_i hu
      rw [← hu, hnone, Option.map_none]
    · exact hnone
  · obtain ⟨V, hV, rfl⟩ := Store.get_modify_eq_some hU'
    obtain rfl := Option.some.inj (hU.symm.trans hV)
    split
    · rename_i hu
      rw [hu] at hU
      exact hf U hU hk
    · exact hk

lemma Ages.threadState {state : State} (hT : s.threads.get t = some T)
    (hstate : T.state = .killed → state = .killed) : Ages s (s.threadState t state) := by
  refine Ages.setThread fun U hU hk => ?_
  obtain rfl := Option.some.inj (hT.symm.trans hU)
  exact hstate hk

lemma Ages.procState {state : State} (hP : s.procs.get p = some P)
    (hstate : P.state = .killed → state = .killed) : Ages s (s.procState p state) := by
  refine ⟨le_rfl, le_rfl, fun _ _ h => h, fun q _ hnone => ?_, (Ages.refl s).threads_killed,
    fun q Q hQ hk Q' hQ' => ?_⟩
  · rw [Sched.procState, setProc_procs, Store.get_modify]
    split
    · rename_i hq
      rw [← hq, hnone, Option.map_none]
    · exact hnone
  · obtain ⟨R, hR, rfl⟩ := Store.get_modify_eq_some hQ'
    obtain rfl := Option.some.inj (hQ.symm.trans hR)
    split
    · rename_i hq
      rw [hq] at hQ
      obtain rfl := Option.some.inj (hQ.symm.trans hP)
      exact hstate hk
    · exact hk

lemma Ages.acts {s₀ : Sched} (hd : Disciplined s a) (h : Acts s a s₀) : Ages s s₀ := by
  cases h with
  | skip => exact Ages.refl s
  | blockThread hc hT hstate =>
    refine Ages.threadState hT fun hk => ?_
    rw [hk] at hstate
    simp at hstate
  | blockThreadOf hc hU hstate hT =>
    exact Ages.threadState hT fun hk => absurd hstate (hd _ _ _ hT hk hc hU)
  | threadUnblock hT hstate =>
    refine Ages.threadState hT fun hk => ?_
    rw [hk] at hstate
    simp at hstate
  | exitThread hp hP hguard ht hT => exact Ages.threadState hT fun _ => rfl
  | blockProc hc hne hP hstate =>
    refine Ages.procState hP fun hk => ?_
    rw [hk] at hstate
    simp at hstate
  | blockProcOf hc hQ hstate hP =>
    exact Ages.procState hP fun hk => absurd hstate (hd _ _ _ hP hk hc hQ)
  | procUnblock hP hstate =>
    refine Ages.procState hP fun hk => ?_
    rw [hk] at hstate
    simp at hstate
  | exitProc hc hne hP => exact Ages.procState hP fun _ => rfl

lemma Ages.yield (h : Ages s s') (c ms : ℕ) : Ages s (yield c ms s') :=
  ⟨h.threads_next, h.procs_next, h.threads_gone, h.procs_gone, h.threads_killed, h.procs_killed⟩

lemma IdleAlive.threadState {state : State} (h : IdleAlive s)
    (hstate : state = .killed → ∀ T, s.threads.get t = some T →
      ∀ d i, (s.cpus d).idleP = some i → T.parent_proc ≠ some i) :
    IdleAlive (s.threadState t state) := by
  intro d i hi u U hU hparent
  obtain ⟨V, hV, rfl⟩ := Store.get_modify_eq_some hU
  split
  · rename_i hu
    subst hu
    rw [if_pos rfl] at hparent
    intro hk
    exact hstate hk V hV d i hi hparent
  · rename_i hu
    rw [if_neg hu] at hparent
    exact h d i hi u V hV hparent

lemma IdleAlive.yield (h : IdleAlive s) (c ms : ℕ) : IdleAlive (yield c ms s) := by
  intro d i hi
  rw [(yield_cpus c ms d s).2.2] at hi
  exact h d i hi

lemma IdleAlive.acts {s₀ : Sched} (h : IdleAlive s) (hl : Linked s) (hd : Disciplined s a)
    (ha : Acts s a s₀) : IdleAlive s₀ := by
  cases ha with
  | skip => exact h
  | blockThread => exact h.threadState fun hk => absurd hk (by simp)
  | blockThreadOf => exact h.threadState fun hk => absurd hk (by simp)
  | threadUnblock => exact h.threadState fun hk => absurd hk (by simp)
  | @exitThread c p t P T hp hP hguard ht hT =>
    -- the thread belongs to the current process, which is not idle
    refine h.threadState fun _ U hU d i hi hparent => hd ?_
    obtain ⟨-, q, hq, hown⟩ := hl.current c t ht
    have hqi : q = i := Option.some.inj ((hown U hU).symm.trans hparent)
    have hdc : c = d := hl.cur_idle c d q hq (by rw [hqi]; exact hi)
    rw [hq, hdc, hi, hqi]
  | blockProc => exact h
  | blockProcOf => exact h
  | procUnblock => exact h
  | exitProc => exact h

/-! ## Creating -/

lemma Ages.spawned {parent : Option ℕ} (h : Spawned s s' parent T) : Ages s s' := by
  refine ⟨by rw [h.threads_next]; omega, h.procs_next.ge, fun u hu hnone => ?_, fun q _ hnone => ?_,
    fun u U hU hk U' hU' => ?_, fun q Q hQ hk Q' hQ' => ?_⟩
  · rw [h.threads u, if_neg (by omega), hnone]
  · rw [h.procs q, hnone]
    simp
  · rw [h.threads u, if_neg (Store.lt_next hU).ne] at hU'
    rwa [← Option.some.inj (hU.symm.trans hU')]
  · rw [h.procs q, hQ] at hQ'
    split at hQ'
    · rw [← Option.some.inj hQ']
      exact hk
    · rwa [← Option.some.inj hQ']

lemma Ages.born (h : Born addr args g s s' P) : Ages s s' := by
  refine ⟨h.threads_next_le, by rw [h.procs_next]; omega, fun u hu hnone => ?_,
    fun q hq hnone => ?_, fun u U hU hk U' hU' => ?_, fun q Q hQ hk Q' hQ' => ?_⟩
  · cases hget : s'.threads.get u with
    | none => rfl
    | some U =>
      rcases h.thread_cases hget with hU | ⟨rfl, -⟩
      · rw [hnone] at hU
        exact absurd hU (by simp)
      · omega
  · rw [h.procs q, if_neg (by omega), hnone]
  · rcases h.thread_cases hU' with hU' | ⟨rfl, -⟩
    · rwa [← Option.some.inj (hU.symm.trans hU')]
    · exact absurd (Store.lt_next hU) (lt_irrefl _)
  · rw [h.procs q, if_neg (Store.lt_next hQ).ne] at hQ'
    rwa [← Option.some.inj (hQ.symm.trans hQ')]

lemma IdleAlive.spawned {parent : Option ℕ} (h : IdleAlive s) (hsp : Spawned s s' parent T)
    (hT : T.state = .ready) : IdleAlive s' := by
  intro d i hi u U hU hparent
  rw [hsp.cpus] at hi
  rw [hsp.threads u] at hU
  split at hU
  · rw [← Option.some.inj hU, hT]
    simp
  · exact h d i hi u U hU hparent

lemma IdleAlive.born (h : IdleAlive s) (hb : Born addr args g s s' P) : IdleAlive s' := by
  intro d i hi u U hU hparent
  rw [hb.cpus] at hi
  rcases hb.thread_cases hU with hU | ⟨-, hT⟩
  · exact h d i hi u U hU hparent
  · rw [hT.state]
    simp

/-! ## Switching -/

lemma Ages.shrunk (h : Shrunk s s') : Ages s s' := by
  refine ⟨h.threads_next.ge, h.procs_next.ge, fun u _ hnone => ?_, fun q _ hnone => ?_,
    fun u U hU hk U' hU' => ?_, fun q Q hQ hk Q' hQ' => ?_⟩
  · cases hget : s'.threads.get u with
    | none => rfl
    | some U =>
      rw [h.threads u U hget] at hnone
      exact absurd hnone (by simp)
  · cases hget : s'.procs.get q with
    | none => rfl
    | some Q =>
      obtain ⟨R, hR, -⟩ := h.procs q Q hget
      rw [hR] at hnone
      exact absurd hnone (by simp)
  · rwa [← Option.some.inj (hU.symm.trans (h.threads u U' hU'))]
  · obtain ⟨R, hR, heq, -⟩ := h.procs q Q' hQ'
    obtain rfl := Option.some.inj (hQ.symm.trans hR)
    rw [heq]
    exact hk

lemma Ages.dispatched (h : Dispatched c p t s s' T) (hT : T.state ≠ .killed) : Ages s s' := by
  refine ⟨h.threads_next.ge, by rw [h.procs],
    fun u _ hnone => ?_, by rw [h.procs]; exact fun _ _ h => h,
    fun u U hU hk U' hU' => ?_, by rw [h.procs]; exact (Ages.refl s).procs_killed⟩
  · rw [h.threads u]
    split
    · rename_i hu
      rw [hu, h.get] at hnone
      exact absurd hnone (by simp)
    · exact hnone
  · rcases h.thread_cases hU' with ⟨rfl, -⟩ | ⟨-, hU'⟩
    · rw [Option.some.inj (hU.symm.trans h.get)] at hk
      exact absurd hk hT
    · rwa [← Option.some.inj (hU.symm.trans hU')]

lemma Ages.saved : Ages s (saved c regs s) := by
  rw [Scheduler.saved]
  split
  · refine Ages.setThread fun T _ hk => ?_
    dsimp only
    rw [if_neg (by simp [hk]), hk]
  · exact Ages.refl s

lemma IdleAlive.saved (h : IdleAlive s) : IdleAlive (saved c regs s) := by
  rw [Scheduler.saved]
  split
  · intro d i hi u U hU hparent
    obtain ⟨V, hV, rfl⟩ := Store.get_modify_eq_some hU
    split
    · rename_i hu
      rw [if_pos hu] at hparent
      dsimp only
      split
      · simp
      · exact h d i hi u V hV hparent
    · rename_i hu
      rw [if_neg hu] at hparent
      exact h d i hi u V hV hparent
  · exact h

lemma IdleAlive.shrunk (h : IdleAlive s) (hs : Shrunk s s') : IdleAlive s' := by
  intro d i hi u U hU hparent
  rw [hs.cpus] at hi
  exact h d i hi u U (hs.threads u U hU) hparent

lemma IdleAlive.dispatched (h : IdleAlive s) (hd : Dispatched c p t s s' T) : IdleAlive s' := by
  intro d i hi u U hU hparent
  rw [hd.idleP] at hi
  rcases hd.thread_cases hU with ⟨-, rfl⟩ | ⟨-, hU⟩
  · simp
  · exact h d i hi u U hU hparent

/-- The idle process of the processor, old or new. -/
lemma IdleAlive.idleProcess {r : ℕ × Sched} (h : IdleAlive s) (hl : Linked s)
    (hr : idleProcess g c s = some r) : IdleAlive r.2 ∧ Ages s r.2 := by
  rcases idleProcess_cases hr with ⟨-, heq⟩ | ⟨-, hnext, s₁, P, -, hb, -, heq⟩
  · rw [heq]
    exact ⟨h, Ages.refl s⟩
  · rw [heq]
    have hages := Ages.born hb
    refine ⟨?_, hages.threads_next, hages.procs_next, hages.threads_gone, hages.procs_gone,
      hages.threads_killed, hages.procs_killed⟩
    intro d i hi u U hU hparent
    by_cases hnew : i = s.procs.next
    · -- only the new thread belongs to the new process
      rcases hb.thread_cases hU with hU | ⟨-, hT⟩
      · have := hl.parents u U i hU hparent
        omega
      · rw [hT.state]
        simp
    · refine h.born hb d i ?_ u U hU hparent
      by_cases hd : d = c
      · rw [hd] at hi
        simp only [setCpu_cpus, Function.update_self] at hi
        rw [← Option.some.inj hi] at hnew
        exact absurd hnext hnew
      · simpa [hd] using hi

lemma IdleAlive.continues (h : IdleAlive s) (hl : Linked s) (hinit : s.isInit = true)
    (hs : Continues g c regs s (regs', s')) : IdleAlive s' ∧ Ages s s' := by
  obtain ⟨s₁, htidied, hs⟩ := hs
  have hshrunk := htidied.shrunk hl.childless
  have hages : Ages s s₁ := Ages.saved.trans (Ages.shrunk hshrunk)
  have h₁ : IdleAlive s₁ := h.saved.shrunk hshrunk
  have hl₁ : Linked s₁ := hl.saved.shrunk hshrunk
  rcases hs with ⟨p, t, hpicked, hd⟩ | ⟨r, I, t, hr, hI, ht, hd⟩
  · obtain ⟨T, -, hd⟩ := dispatch_eq hd
    obtain ⟨T', hT', hready⟩ := hpicked.thread
    obtain rfl := Option.some.inj (hd.get.symm.trans hT')
    exact ⟨h₁.dispatched hd, hages.trans (Ages.dispatched hd (by simp [hready]))⟩
  · have hinit₁ : s₁.isInit = true := by
      rw [hshrunk.isInit, Scheduler.saved]
      split <;> exact hinit
    obtain ⟨h₂, hages₂⟩ := h₁.idleProcess hl₁ hr
    obtain ⟨hl₂, hidle, -⟩ := hl₁.idleProcess hinit₁ hr
    obtain ⟨T, -, hd⟩ := dispatch_eq hd
    have hT := (hl₂.owned r.1 I hI t (List.mem_of_getElem? ht)).2 T hd.get
    have halive := h₂ c r.1 hidle t T hd.get hT
    exact ⟨h₂.dispatched hd, (hages.trans hages₂).trans (Ages.dispatched hd halive)⟩

/-! ## Runs -/

/-- The invariant of runs under the condition. -/
structure Orderly (s : Sched) : Prop where
  linked : Linked s
  idle : IdleAlive s

lemma start_orderly (idle : ℕ+) : Orderly (start idle) :=
  ⟨start_linked idle, fun _ _ hi => absurd hi (by simp [start])⟩

/-- A call under the condition. -/
lemma Orderly.call (h : Orderly s) (hd : Disciplined s a) (hs : call fuel a s = some s') :
    Orderly s' ∧ Ages s s' := by
  have hl := h.linked.call hs
  cases did_of_call hs with
  | createProc hcreate =>
    obtain ⟨-, -, P, -, hb⟩ := createProc_born hcreate
    exact ⟨⟨hl, h.idle.born hb⟩, Ages.born hb⟩
  | createThread hcreate =>
    obtain ⟨-, T, hT, hsp⟩ := createThread_spawned hcreate
    exact ⟨⟨hl, h.idle.spawned hsp hT.state⟩, Ages.spawned hsp⟩
  | switchTask hswitch =>
    rcases switchTask_steps h.linked.childless (h.linked.paired _) hswitch with ⟨-, rfl⟩ |
      ⟨hinit, hs⟩
    · exact ⟨h, Ages.refl _⟩
    · obtain ⟨hidle, hages⟩ := h.idle.continues h.linked hinit hs
      exact ⟨⟨hl, hidle⟩, hages⟩
  | acts ha hs =>
    have hidle := h.idle.acts h.linked hd ha
    have hages := Ages.acts hd ha
    rcases hs with rfl | ⟨c, rfl⟩
    · exact ⟨⟨hl, hidle⟩, hages⟩
    · exact ⟨⟨hl, hidle.yield c 1⟩, hages.yield c 1⟩

/-- A run under the condition, from any state that such a run reaches. -/
lemma Orderly.exec {calls : List Call} (h : Orderly s)
    (hd : Along (Scheduler.call fuel) Disciplined calls s)
    (hs : exec (Scheduler.call fuel) calls s = some s') : Orderly s' ∧ Ages s s' := by
  induction calls generalizing s with
  | nil =>
    obtain rfl := Option.some.inj hs
    exact ⟨h, Ages.refl s⟩
  | cons a calls ih =>
    obtain ⟨s₁, hs₁, hs⟩ := Option.bind_eq_some_iff.mp hs
    obtain ⟨h₁, hages₁⟩ := h.call hd.1 hs₁
    obtain ⟨h', hages⟩ := ih h₁ (hd.2 s₁ hs₁) hs
    exact ⟨h', hages₁.trans hages⟩

/-- **The life cycle.**  In a run in which every call meets the condition, what is `KILLED` at one
time is `KILLED` or freed at every later time; and a thread that `thread_unblock` makes `READY` is
never the current thread of a processor, exactly if the processors that ran a thread when it was
blocked call `switchTask` before it is unblocked. -/
theorem life_cycle (fuel : ℕ) (idle : ℕ+) (calls : List Call) :
    (Along (call fuel) Disciplined calls (start idle) →
      ∀ xs ys s₁ s₂, calls = xs ++ ys → exec (call fuel) xs (start idle) = some s₁ →
        exec (call fuel) ys s₁ = some s₂ → Ages s₁ s₂) ∧
    (Unhurried fuel idle calls ↔
      ∀ xs t ys s₁ s₂, calls = xs ++ .threadUnblock t :: ys →
        exec (call fuel) xs (start idle) = some s₁ → call fuel (.threadUnblock t) s₁ = some s₂ →
        ∀ T T', s₁.threads.get t = some T → T.state ≠ .ready →
          s₂.threads.get t = some T' → T'.state = .ready →
          ∀ d, (s₂.cpus d).currentThread ≠ some t) := by
  refine ⟨?_, ?_, ?_⟩
  · rintro hd xs ys s₁ s₂ rfl hs₁ hs₂
    obtain ⟨h₁, -⟩ := (start_orderly idle).exec hd.first hs₁
    exact (h₁.exec (hd.rest hs₁) hs₂).2
  · intro hleft xs t ys s₁ s₂ hcalls hs₁ hs₂ T T' hT hne hT' hready d
    obtain ⟨U, hU, rfl⟩ := Option.map_eq_some_iff.mp hs₂
    obtain rfl := Option.some.inj (hT.symm.trans hU)
    split at hT'
    · rename_i hblocked
      rw [if_pos hblocked]
      exact (left_iff hs₁ hT hblocked).mp (hleft xs t ys s₁ T hcalls hs₁ hT hblocked) d
    · -- nothing was done
      obtain rfl := Option.some.inj (hT.symm.trans hT')
      exact absurd hready hne
  · intro hsafe xs t ys s T hcalls hs hT hblocked
    refine (left_iff hs hT hblocked).mpr fun d => ?_
    have hunblock : call fuel (.threadUnblock t) s =
        some (s.setThread t fun T => { T with state := .ready }) := by
      rw [call, threadUnblock, hT, Option.map_some, if_pos hblocked]
    have hT' : (s.setThread t fun T => { T with state := .ready }).threads.get t =
        some { T with state := .ready } := by
      rw [setThread_threads, Store.get_modify_self, hT, Option.map_some]
    exact hsafe xs t ys s _ hcalls hs hunblock T _ hT (by simp [hblocked]) hT' rfl d

/-- A process with two threads and a process with one.  The processor runs the first thread, which
blocks the thread of the other process, and then the second thread, which exits. -/
def exitCalls : List Call :=
  [.op (.createProc 0x4000 0 {}), .op (.createThread 0x4100 0 (some 0) {}),
    .op (.createProc 0x5000 0 {}), .op (.switchTask 0 {} {}), .blockThreadOf 0 2,
    .op (.switchTask 0 {} {}), .op (.exitThread 0)]

/-- The second thread is killed after these calls, and it stays so until the next switch frees
it. -/
theorem life_cycle_exit :
    ∃ s₁ s₂, exec (call 9) exitCalls (start 1) = some s₁ ∧
      exec (call 9) [.op (.switchTask 0 {} {})] s₁ = some s₂ ∧
      (s₁.threads.get 1).map (·.state) = some .killed ∧ s₂.threads.get 1 = none ∧ Ages s₁ s₂ := by
  have hd : Along (call 9) Disciplined (exitCalls ++ [.op (.switchTask 0 {} {})]) (start 1) := by
    have hcheck : Along (call 9) (fun s a =>
        (match a with
          | .blockThreadOf _ t => (s.threads.get t).all fun T => T.state ≠ .killed
          | .op (.exitThread c) => decide ((s.cpus c).currentProcess ≠ (s.cpus c).idleP)
          | .op _ => true
          | _ => false) = true) (exitCalls ++ [.op (.switchTask 0 {} {})]) (start 1) := by
      decide +kernel
    refine hcheck.mono fun s a ha => ?_
    cases a with
    | op o =>
      cases o with
      | exitThread c =>
        have hne : (s.cpus c).currentProcess ≠ (s.cpus c).idleP := of_decide_eq_true ha
        exact hne
      | _ => trivial
    | blockThreadOf c t =>
      intro T u U hT hk
      simp [hT, hk] at ha
    | _ => simp at ha
  have hrun : (exec (call 9) exitCalls (start 1)).map (fun s₁ =>
      ((s₁.threads.get 1).map (·.state),
        (exec (call 9) [.op (.switchTask 0 {} {})] s₁).map fun s₂ => s₂.threads.get 1)) =
      some (some .killed, some none) := by
    decide +kernel
  obtain ⟨s₁, hs₁, heq⟩ := Option.map_eq_some_iff.mp hrun
  obtain ⟨hkilled, hrest⟩ := Prod.mk.inj heq
  obtain ⟨s₂, hs₂, hgone⟩ := Option.map_eq_some_iff.mp hrest
  exact ⟨s₁, s₂, hs₁, hs₂, hkilled, hgone, (life_cycle 9 1 _).1 hd _ _ s₁ s₂ rfl hs₁ hs₂⟩

/-- A thread exits on one processor, and a thread on another processor blocks it: it is `BLOCKED`
after it was `KILLED`.  A thread blocks itself and is unblocked before its processor leaves it: it
is `READY` and current. -/
theorem killed_thread_gets_blocked :
    (∃ s₁ s₂, exec (call 9) [.op (.createProc 0x4000 0 {}), .op (.createProc 0x5000 0 {}),
        .op (.switchTask 0 {} {}), .op (.switchTask 1 {} {}), .op (.exitThread 1)] (start 1) =
          some s₁ ∧
      call 9 (.blockThreadOf 0 1) s₁ = some s₂ ∧ (s₁.threads.get 1).map (·.state) = some .killed ∧
      (s₂.threads.get 1).map (·.state) = some .blocked ∧ ¬ Ages s₁ s₂) ∧
    (exec (call 9) [.op (.createProc 0x4000 0 {}), .op (.switchTask 0 {} {}), .op (.blockThread 0),
      .threadUnblock 0] (start 1)).map (fun s => ((s.threads.get 0).map (·.state),
        (s.cpus 0).currentThread)) = some (some .ready, some 0) := by
  refine ⟨?_, by decide +kernel⟩
  have hrun : (exec (call 9) [.op (.createProc 0x4000 0 {}), .op (.createProc 0x5000 0 {}),
      .op (.switchTask 0 {} {}), .op (.switchTask 1 {} {}), .op (.exitThread 1)] (start 1)).map
      (fun s₁ => ((s₁.threads.get 1).map (·.state),
        (call 9 (.blockThreadOf 0 1) s₁).map fun s₂ => (s₂.threads.get 1).map (·.state))) =
      some (some .killed, some (some .blocked)) := by
    decide +kernel
  obtain ⟨s₁, hs₁, heq⟩ := Option.map_eq_some_iff.mp hrun
  obtain ⟨hkilled, hrest⟩ := Prod.mk.inj heq
  obtain ⟨s₂, hs₂, hblocked⟩ := Option.map_eq_some_iff.mp hrest
  refine ⟨s₁, s₂, hs₁, hs₂, hkilled, hblocked, fun hages => ?_⟩
  obtain ⟨T, hT, hk⟩ := Option.map_eq_some_iff.mp hkilled
  obtain ⟨T', hT', hb⟩ := Option.map_eq_some_iff.mp hblocked
  rw [hages.threads_killed 1 T hT hk T' hT'] at hb
  simp at hb

end TurbOS.Scheduler
