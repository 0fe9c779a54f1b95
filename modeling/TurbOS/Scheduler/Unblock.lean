import TurbOS.Scheduler.Calls

/-!
# Blocking and unblocking

`blockThread` makes a thread `BLOCKED` while a processor still runs it; the processor leaves it at
its next `switchTask`.  `thread_unblock` does not wait for that.

So the order of the calls decides.  A thread that is `BLOCKED` and still current was blocked on that
processor, and the processor has not called `switchTask` since then.
-/

open Runs

namespace TurbOS.Scheduler

variable {s s' : Sched} {c d t fuel : ℕ} {g : Grant} {regs regs' : Regs} {T : Thread} {a : Call}
  {calls : List Call} {idle : ℕ+}

/-- The call makes the thread `BLOCKED`. -/
def Blocks (s : Sched) (t : ℕ) : Call → Prop
  | .op (.blockThread c) => (s.cpus c).currentThread = some t ∧
      ∃ T, s.threads.get t = some T ∧ (T.state = .ready ∨ T.state = .running)
  | .blockThreadOf c u => u = t ∧ ∃ v V, (s.cpus c).currentThread = some v ∧
      s.threads.get v = some V ∧ (V.state = .ready ∨ V.state = .running)
  | _ => False

/-- One of the calls is a `switchTask` on the processor. -/
def Switches (d : ℕ) (calls : List Call) : Prop := ∃ regs g, .op (.switchTask d regs g) ∈ calls

/-- Every processor that ran the thread when a call blocked it has called `switchTask` since
then. -/
def Left (fuel : ℕ) (idle : ℕ+) (calls : List Call) (t : ℕ) : Prop :=
  ∀ xs a ys s, calls = xs ++ a :: ys → exec (call fuel) xs (start idle) = some s → Blocks s t a →
    ∀ d, (s.cpus d).currentThread = some t → Switches d ys

/-! ## One call -/

/-- A processor changes its current thread in `switchTask` only. -/
lemma currentThread_call (hl : Linked s) (hs : call fuel a s = some s')
    (hno : (∀ regs g, a ≠ .op (.switchTask d regs g)) ∨ s.isInit = false) :
    (s'.cpus d).currentThread = (s.cpus d).currentThread := by
  cases did_of_call hs with
  | createProc hcreate =>
    obtain ⟨-, -, P, -, hb⟩ := createProc_born hcreate
    rw [hb.cpus]
  | createThread hcreate =>
    obtain ⟨-, T, -, hsp⟩ := createThread_spawned hcreate
    rw [hsp.cpus]
  | @switchTask _ c regs regs' g hswitch =>
    rcases switchTask_steps hl.childless (hl.paired _) hswitch with ⟨-, rfl⟩ |
      ⟨hinit, s₁, htidied, hs₁⟩
    · rfl
    have hdc : d ≠ c := by
      rintro rfl
      rcases hno with hno | hno
      · exact hno regs g rfl
      · rw [hinit] at hno
        exact absurd hno (by simp)
    have h₁ : s₁.cpus = s.cpus := by rw [(htidied.shrunk hl.childless).cpus, saved_cpus]
    rcases hs₁ with ⟨p, t, -, hd⟩ | ⟨r, I, t, hr, -, -, hd⟩
    · obtain ⟨T, -, hd⟩ := dispatch_eq hd
      rw [hd.others d hdc, h₁]
    · obtain ⟨T, -, hd⟩ := dispatch_eq hd
      rw [hd.others d hdc]
      rcases idleProcess_cases hr with ⟨-, heq⟩ | ⟨-, -, s₂, P, -, hb, -, heq⟩
      · rw [heq, h₁]
      · rw [heq, setCpu_cpus, Function.update_of_ne hdc, hb.cpus, h₁]
  | acts ha hs =>
    have hcpus : ∀ {s₀}, Acts s a s₀ → s₀.cpus = s.cpus := fun ha => by cases ha <;> rfl
    rcases hs with rfl | ⟨c, rfl⟩
    · rw [hcpus ha]
    · rw [(yield_cpus c 1 d _).1, hcpus ha]

/-- What `switchTask` saves was `BLOCKED` before. -/
lemma blocked_saved (hT : (saved c regs s).threads.get t = some T) (hblocked : T.state = .blocked) :
    ∃ U, s.threads.get t = some U ∧ U.state = .blocked := by
  rw [saved] at hT
  split at hT
  · obtain ⟨U, hU, rfl⟩ := Store.get_modify_eq_some hT
    refine ⟨U, hU, ?_⟩
    split at hblocked
    · dsimp only at hblocked
      split at hblocked
      · exact absurd hblocked (by simp)
      · exact hblocked
    · exact hblocked
  · exact ⟨T, hT, hblocked⟩

lemma Dispatched.blocked {p u : ℕ} {T U : Thread} (hd : Dispatched c p u s s' U)
    (hT : s'.threads.get t = some T) (hblocked : T.state = .blocked) :
    s.threads.get t = some T := by
  rcases hd.thread_cases hT with ⟨-, rfl⟩ | ⟨-, hT⟩
  · exact absurd hblocked (by simp)
  · exact hT

/-- After a call of `switchTask` the threads that are `BLOCKED` were so before. -/
lemma blocked_switchTask (hl : Linked s) (hs : switchTask fuel g c regs s = some (regs', s'))
    (hT : s'.threads.get t = some T) (hblocked : T.state = .blocked) :
    ∃ U, s.threads.get t = some U ∧ U.state = .blocked := by
  rcases switchTask_steps hl.childless (hl.paired _) hs with ⟨-, rfl⟩ | ⟨-, s₁, htidied, hs₁⟩
  · exact ⟨T, hT, hblocked⟩
  have hold : ∀ {U}, s₁.threads.get t = some U → U.state = .blocked →
      ∃ V, s.threads.get t = some V ∧ V.state = .blocked := fun hU =>
    blocked_saved ((htidied.shrunk hl.childless).threads t _ hU)
  rcases hs₁ with ⟨p, u, -, hd⟩ | ⟨r, I, u, hr, -, -, hd⟩
  · obtain ⟨U, -, hd⟩ := dispatch_eq hd
    exact hold (hd.blocked hT hblocked) hblocked
  · obtain ⟨U, -, hd⟩ := dispatch_eq hd
    have hT₂ := hd.blocked hT hblocked
    rcases idleProcess_cases hr with ⟨-, heq⟩ | ⟨-, -, s₂, P, -, hb, -, heq⟩
    · rw [heq] at hT₂
      exact hold hT₂ hblocked
    · rw [heq, setCpu_threads] at hT₂
      rcases hb.thread_cases hT₂ with hT₂ | ⟨-, hnew⟩
      · exact hold hT₂ hblocked
      · rw [hnew.state] at hblocked
        exact absurd hblocked (by simp)

/-- The thread that `switchTask` continues is `RUNNING`. -/
lemma running_switchTask (hl : Linked s) (hs : switchTask fuel g c regs s = some (regs', s'))
    (hinit : s.isInit = true) (hc : (s'.cpus c).currentThread = some t)
    (hT : s'.threads.get t = some T) : T.state = .running := by
  have hdispatched : ∀ {s₁ : Sched} {p u : ℕ} {U : Thread}, Dispatched c p u s₁ s' U →
      T.state = .running := by
    intro s₁ p u U hd
    obtain rfl := Option.some.inj (hd.current.1.symm.trans hc)
    rw [hd.threads, if_pos rfl] at hT
    rw [← Option.some.inj hT]
  rcases switchTask_steps hl.childless (hl.paired _) hs with ⟨hno, -⟩ | ⟨-, s₁, -, hs₁⟩
  · rw [hinit] at hno
    exact absurd hno (by simp)
  rcases hs₁ with ⟨p, u, -, hd⟩ | ⟨r, I, u, -, -, -, hd⟩
  · obtain ⟨U, -, hd⟩ := dispatch_eq hd
    exact hdispatched hd
  · obtain ⟨U, -, hd⟩ := dispatch_eq hd
    exact hdispatched hd

lemma blocked_threadState {u : ℕ} {state : State}
    (hT : (s.threadState u state).threads.get t = some T) (hblocked : T.state = .blocked) :
    (∃ U, s.threads.get t = some U ∧ U.state = .blocked) ∨ t = u ∧ state = .blocked := by
  obtain ⟨U, hU, rfl⟩ := Store.get_modify_eq_some hT
  split at hblocked
  · rename_i htu
    exact .inr ⟨htu, hblocked⟩
  · exact .inl ⟨U, hU, hblocked⟩

lemma blocked_acts {s₀ : Sched} (ha : Acts s a s₀) (hT : s₀.threads.get t = some T)
    (hblocked : T.state = .blocked) :
    (∃ U, s.threads.get t = some U ∧ U.state = .blocked) ∨ Blocks s t a := by
  cases ha with
  | skip => exact .inl ⟨T, hT, hblocked⟩
  | blockThread hc hU hstate =>
    refine (blocked_threadState hT hblocked).imp_right fun ⟨htu, _⟩ => ?_
    rw [htu]
    exact ⟨hc, _, hU, hstate⟩
  | blockThreadOf hc hV hstate hU =>
    exact (blocked_threadState hT hblocked).imp_right fun ⟨htu, _⟩ =>
      ⟨htu.symm, _, _, hc, hV, hstate⟩
  | threadUnblock => exact .inl ((blocked_threadState hT hblocked).resolve_right (by simp))
  | exitThread => exact .inl ((blocked_threadState hT hblocked).resolve_right (by simp))
  | blockProc => exact .inl ⟨T, hT, hblocked⟩
  | blockProcOf => exact .inl ⟨T, hT, hblocked⟩
  | procUnblock => exact .inl ⟨T, hT, hblocked⟩
  | exitProc => exact .inl ⟨T, hT, hblocked⟩

/-- A thread becomes `BLOCKED` by a call that blocks it. -/
lemma blocked_call (hl : Linked s) (hs : call fuel a s = some s') (hT : s'.threads.get t = some T)
    (hblocked : T.state = .blocked) :
    (∃ U, s.threads.get t = some U ∧ U.state = .blocked) ∨ Blocks s t a := by
  cases did_of_call hs with
  | createProc hcreate =>
    obtain ⟨-, -, P, -, hb⟩ := createProc_born hcreate
    rcases hb.thread_cases hT with hT | ⟨-, hnew⟩
    · exact .inl ⟨T, hT, hblocked⟩
    · rw [hnew.state] at hblocked
      exact absurd hblocked (by simp)
  | createThread hcreate =>
    obtain ⟨-, U, hU, hsp⟩ := createThread_spawned hcreate
    rw [hsp.threads t] at hT
    split at hT
    · rw [← Option.some.inj hT, hU.state] at hblocked
      exact absurd hblocked (by simp)
    · exact .inl ⟨T, hT, hblocked⟩
  | switchTask hswitch => exact .inl (blocked_switchTask hl hswitch hT hblocked)
  | acts ha hs =>
    rcases hs with rfl | ⟨c, rfl⟩
    · exact blocked_acts ha hT hblocked
    · exact blocked_acts ha hT hblocked

/-! ## Runs -/

/-- The scheduler is initialised once a processor runs a thread. -/
def Started (s : Sched) : Prop := ∀ d t, (s.cpus d).currentThread = some t → s.isInit = true

/-- The scheduler stays initialised. -/
lemma isInit_call (hl : Linked s) (hs : call fuel a s = some s') (hinit : s.isInit = true) :
    s'.isInit = true := by
  cases did_of_call hs with
  | createProc hcreate => exact (createProc_init hcreate).2.1
  | createThread hcreate => rw [(createThread_init hcreate).2, hinit]
  | switchTask hswitch =>
    rcases switchTask_steps hl.childless (hl.paired _) hswitch with ⟨-, rfl⟩ | ⟨-, s₁, htidied, hs₁⟩
    · exact hinit
    have h₁ : s₁.isInit = true := by
      rw [(htidied.shrunk hl.childless).isInit, saved_isInit, hinit]
    rcases hs₁ with ⟨p, u, -, hd⟩ | ⟨r, I, u, hr, -, -, hd⟩
    · rw [(dispatch_init hd).2, h₁]
    · rw [(dispatch_init hd).2]
      rw [idleProcess] at hr
      split at hr
      · rw [← Option.some.inj hr, h₁]
      · obtain ⟨r₁, halloc, rfl⟩ := Option.map_eq_some_iff.mp hr
        exact (allocProc_init halloc).2.1
  | acts ha hs =>
    have hacts : ∀ {s₀}, Acts s a s₀ → s₀.isInit = true := fun ha => by cases ha <;> exact hinit
    have h₀ := hacts ha
    rcases hs with rfl | ⟨c, rfl⟩
    · exact h₀
    · exact h₀

lemma Started.call (h : Started s) (hl : Linked s) (hs : call fuel a s = some s') : Started s' := by
  intro d t hd
  cases hinit : s.isInit with
  | true => exact isInit_call hl hs hinit
  | false =>
    rw [currentThread_call hl hs (.inr hinit)] at hd
    rw [h d t hd] at hinit
    exact absurd hinit (by simp)

/-- What blocked a thread that a processor still runs. -/
structure Pending (fuel : ℕ) (idle : ℕ+) (calls : List Call) (t d : ℕ) (xs : List Call) (a : Call)
    (ys : List Call) (s : Sched) : Prop where
  calls_eq : calls = xs ++ a :: ys
  exec_eq : exec (call fuel) xs (start idle) = some s
  blocks : Blocks s t a
  current : (s.cpus d).currentThread = some t
  stays : ¬ Switches d ys

/-- In a run, a thread that is `BLOCKED` and current was blocked by a call, and its processor has
not called `switchTask` since then. -/
structure History (fuel : ℕ) (idle : ℕ+) (calls : List Call) (s : Sched) : Prop where
  linked : Linked s
  started : Started s
  pending : ∀ t T d, s.threads.get t = some T → T.state = .blocked →
    (s.cpus d).currentThread = some t → ∃ xs a ys s₀, Pending fuel idle calls t d xs a ys s₀

lemma switches_snoc : Switches d (calls ++ [a]) ↔
    Switches d calls ∨ ∃ regs g, a = .op (.switchTask d regs g) := by
  simp only [Switches, List.mem_append, List.mem_singleton, exists_or, eq_comm (b := a)]

lemma Pending.snoc {xs ys : List Call} {b : Call} {s₀ : Sched}
    (h : Pending fuel idle calls t d xs b ys s₀) (ha : ∀ regs g, a ≠ .op (.switchTask d regs g)) :
    Pending fuel idle (calls ++ [a]) t d xs b (ys ++ [a]) s₀ where
  calls_eq := by rw [h.calls_eq, List.append_assoc, List.cons_append]
  exec_eq := h.exec_eq
  blocks := h.blocks
  current := h.current
  stays := by
    rw [switches_snoc]
    rintro (hys | ⟨regs, g, rfl⟩)
    · exact h.stays hys
    · exact ha regs g rfl

lemma start_history (fuel : ℕ) (idle : ℕ+) : History fuel idle [] (start idle) where
  linked := start_linked idle
  started d t hd := by simp [start] at hd
  pending t T d hT := by simp [start] at hT

lemma History.call (h : History fuel idle calls s)
    (he : exec (call fuel) calls (start idle) = some s)
    (hs : Scheduler.call fuel a s = some s') : History fuel idle (calls ++ [a]) s' := by
  refine ⟨h.linked.call hs, h.started.call h.linked hs, fun t T d hT hblocked hd => ?_⟩
  have hno : ∀ regs g, a ≠ .op (.switchTask d regs g) := by
    rintro regs g rfl
    cases hinit : s.isInit with
    | true =>
      obtain ⟨⟨regs', s₁⟩, hswitch, rfl⟩ := Option.map_eq_some_iff.mp hs
      rw [running_switchTask h.linked hswitch hinit hd hT] at hblocked
      exact absurd hblocked (by simp)
    | false =>
      rw [currentThread_call h.linked hs (.inr hinit)] at hd
      rw [h.started d t hd] at hinit
      exact absurd hinit (by simp)
  rw [currentThread_call h.linked hs (.inl hno)] at hd
  rcases blocked_call h.linked hs hT hblocked with ⟨U, hU, hold⟩ | hblocks
  · obtain ⟨xs, b, ys, s₀, hpending⟩ := h.pending t U d hU hold hd
    exact ⟨xs, b, ys ++ [a], s₀, hpending.snoc hno⟩
  · exact ⟨calls, a, [], s, rfl, he, hblocks, hd, by simp [Switches]⟩

lemma history_run (he : exec (call fuel) calls (start idle) = some s) :
    History fuel idle calls s := by
  induction calls using List.reverseRecOn generalizing s with
  | nil =>
    obtain rfl := Option.some.inj he
    exact start_history fuel idle
  | append_singleton calls a ih =>
    rw [exec_append] at he
    obtain ⟨s₁, hs₁, he⟩ := Option.bind_eq_some_iff.mp he
    obtain ⟨s₂, hs₂, he⟩ := Option.bind_eq_some_iff.mp he
    obtain rfl := Option.some.inj he
    exact (ih hs₁).call hs₁ hs₂

/-- Without a `switchTask` a processor keeps its current thread. -/
lemma currentThread_exec (hl : Linked s) (he : exec (call fuel) calls s = some s')
    (hno : ¬ Switches d calls) : (s'.cpus d).currentThread = (s.cpus d).currentThread := by
  induction calls generalizing s with
  | nil => rw [Option.some.inj he]
  | cons a calls ih =>
    obtain ⟨s₁, hs₁, he⟩ := Option.bind_eq_some_iff.mp he
    rw [ih (hl.call hs₁) he fun ⟨regs, g, hmem⟩ => hno ⟨regs, g, List.mem_cons_of_mem _ hmem⟩,
      currentThread_call hl hs₁ (.inl fun regs g ha => hno ⟨regs, g, by simp [ha]⟩)]

/-- A thread that is `BLOCKED` was left by all processors exactly if each of them that ran it when
it was blocked has called `switchTask`. -/
lemma left_iff (he : exec (call fuel) calls (start idle) = some s) (hT : s.threads.get t = some T)
    (hblocked : T.state = .blocked) :
    Left fuel idle calls t ↔ ∀ d, (s.cpus d).currentThread ≠ some t := by
  constructor
  · intro hleft d hd
    obtain ⟨xs, a, ys, s₀, hpending⟩ := (history_run he).pending t T d hT hblocked hd
    exact hpending.stays
      (hleft xs a ys s₀ hpending.calls_eq hpending.exec_eq hpending.blocks d hpending.current)
  · rintro hno xs a ys s₀ rfl hs₀ hblocks d hd
    by_contra hstays
    have hl : Linked s₀ := (history_run hs₀).linked
    rw [exec_append, hs₀, Option.bind_some] at he
    have hswitches : ¬ Switches d (a :: ys) := by
      rintro ⟨regs, g, hmem⟩
      rcases List.mem_cons.mp hmem with rfl | hmem
      · exact hblocks
      · exact hstays ⟨regs, g, hmem⟩
    exact hno d ((currentThread_exec hl he hswitches).trans hd)

end TurbOS.Scheduler
