import TurbOS.Scheduler.Dangling

/-!
# A thread runs on one processor

The only protection against running a thread twice is its state: `switchTask` chooses
`READY` threads, and a thread that is current somewhere is `RUNNING` or `BLOCKED`.  The idle
thread is dispatched whatever its state is; it is safe because its process belongs to one
processor and is never `READY`.

`switchTask` turns the outgoing thread back to `READY` before it chooses, so the invariant
is stated with an exception: one processor may be in the middle of a switch.
-/

namespace TurbOS.Scheduler

variable {s s' : Sched} {c p t addr args fuel : ℕ} {g : Grant} {regs regs' : Regs}
  {exc : Option ℕ}

/-- The links between the states of threads and the current threads of the processors.
For the processor `exc`, if there is one, the current thread may be in any state. -/
structure Exclusive (exc : Option ℕ) (s : Sched) : Prop where
  parent : ∀ p P, s.procs.get p = some P → ∀ t ∈ P.threadsVec.items,
    ∃ T, s.threads.get t = some T ∧ T.parent_proc = some p
  inhabited : ∀ p P, s.procs.get p = some P → P.threadsVec.items ≠ []
  proc_alive : ∀ p P, s.procs.get p = some P → P.state ≠ .killed
  thread_alive : ∀ t T, s.threads.get t = some T → T.state ≠ .killed
  process : ∀ c p, (s.cpus c).currentProcess = some p → (s.procs.get p).isSome
  idle : ∀ c i, (s.cpus c).idleP = some i → ∃ I, s.procs.get i = some I ∧ I.state ≠ .ready
  idle_inj : ∀ c d i, (s.cpus c).idleP = some i → (s.cpus d).idleP = some i → c = d
  current : ∀ c t, (s.cpus c).currentThread = some t → ∃ p P,
    (s.cpus c).currentProcess = some p ∧ s.procs.get p = some P ∧ t ∈ P.threadsVec.items ∧
      (P.state = .ready ∨ (s.cpus c).idleP = some p)
  busy : ∀ c t T, some c ≠ exc → (s.cpus c).currentThread = some t → s.threads.get t = some T →
    T.state = .running ∨ T.state = .blocked
  excl : ∀ c d t, (s.cpus c).currentThread = some t → (s.cpus d).currentThread = some t → c = d
  running : ∀ t T, s.threads.get t = some T → T.state = .running →
    ∃ c, some c ≠ exc ∧ (s.cpus c).currentThread = some t

/-- Before the first call there is nothing to check. -/
lemma start_exclusive (idle : ℕ+) : Exclusive none (start idle) := by
  constructor <;> simp [start]

/-- There is nothing to clean up. -/
lemma Exclusive.settled (h : Exclusive exc s) {P : Process} (hP : s.procs.get p = some P) :
    Settled s p P := by
  refine ⟨hP, h.proc_alive p P hP, fun t ht => ?_, .inl (h.inhabited p P hP)⟩
  obtain ⟨T, hT, -⟩ := h.parent p P hP t ht
  exact ⟨T, hT, h.thread_alive t T hT⟩

lemma exists_of_mem_passed {ps : List ℕ} (h : p ∈ passed s ps) : ∃ P, s.procs.get p = some P := by
  induction ps with
  | nil => simp [passed] at h
  | cons q ps ih =>
    rw [passed] at h
    split at h
    · simp at h
    · rename_i Q hQ
      split at h
      · rcases List.mem_cons.mp h with rfl | h
        · exact ⟨Q, hQ⟩
        · exact ih h
      · split at h
        · exact ih h
        · simp at h

lemma Exclusive.quiet (h : Exclusive exc s) (c : ℕ) (regs : Regs) : Quiet c regs s := by
  intro p hp
  have hex : ∃ P, s.procs.get p = some P := by
    rw [cleaned] at hp
    split at hp
    · rename_i q t hq ht
      split at hp
      · rw [List.mem_singleton.mp hp]
        exact Option.isSome_iff_exists.mp (h.process c q hq)
      · simp at hp
    · rcases List.mem_append.mp hp with hp | hp
      · exact exists_of_mem_passed hp
      · split at hp
        · exact Option.isSome_iff_exists.mp (h.process c p (by simpa using hp))
        · simp at hp
  obtain ⟨P, hP⟩ := hex
  exact ⟨P, h.settled hP⟩

/-! ## Creating -/

/-- Objects may be added: threads that are `READY`, processes with threads of their own,
and threads of old processes. -/
lemma Exclusive.extend (h : Exclusive exc s) (hcpus : s'.cpus = s.cpus)
    (hnew : ∀ u U, s'.threads.get u = some U →
      s.threads.get u = some U ∨ (s.threads.get u = none ∧ U.state = .ready))
    (hproc : ∀ q P, s.procs.get q = some P → ∃ Q, s'.procs.get q = some Q ∧
      Q.state = P.state ∧ ∀ u ∈ P.threadsVec.items, u ∈ Q.threadsVec.items)
    (hown : ∀ q Q, s'.procs.get q = some Q → Q.state ≠ .killed ∧ Q.threadsVec.items ≠ [] ∧
      ∀ u ∈ Q.threadsVec.items, ∃ U, s'.threads.get u = some U ∧ U.parent_proc = some q) :
    Exclusive exc s' := by
  refine ⟨fun q Q hQ => (hown q Q hQ).2.2, fun q Q hQ => (hown q Q hQ).2.1,
    fun q Q hQ => (hown q Q hQ).1, fun u U hU => ?_, fun d q hq => ?_, fun d i hi => ?_,
    by rw [hcpus]; exact h.idle_inj, fun d u hu => ?_, fun d u U hd hu hU => ?_,
    by rw [hcpus]; exact h.excl, fun u U hU hrun => ?_⟩
  · rcases hnew u U hU with hU | ⟨-, hstate⟩
    · exact h.thread_alive u U hU
    · simp [hstate]
  · rw [hcpus] at hq
    obtain ⟨P, hP⟩ := Option.isSome_iff_exists.mp (h.process d q hq)
    obtain ⟨Q, hQ, -⟩ := hproc q P hP
    rw [hQ]
    rfl
  · rw [hcpus] at hi
    obtain ⟨I, hI, hready⟩ := h.idle d i hi
    obtain ⟨Q, hQ, hstate, -⟩ := hproc i I hI
    exact ⟨Q, hQ, by rw [hstate]; exact hready⟩
  · rw [hcpus] at hu ⊢
    obtain ⟨q, P, hq, hP, hmem, hor⟩ := h.current d u hu
    obtain ⟨Q, hQ, hstate, hsub⟩ := hproc q P hP
    exact ⟨q, Q, hq, hQ, hsub u hmem, by rw [hstate]; exact hor⟩
  · rw [hcpus] at hu
    rcases hnew u U hU with hU | ⟨hnone, -⟩
    · exact h.busy d u U hd hu hU
    · -- a new thread is nowhere current
      obtain ⟨q, P, -, hP, hmem, -⟩ := h.current d u hu
      obtain ⟨U', hU', -⟩ := h.parent q P hP u hmem
      rw [hnone] at hU'
      exact absurd hU' (by simp)
  · rw [hcpus]
    rcases hnew u U hU with hU | ⟨-, hstate⟩
    · exact h.running u U hU hrun
    · rw [hstate] at hrun
      exact absurd hrun (by simp)

/-- The thread at the next handle is the new one, and the others are old. -/
lemma get_new {T : Thread}
    (hget : ∀ u, s'.threads.get u = if u = s.threads.next then some T else s.threads.get u) :
    (∀ u U, s.threads.get u = some U → s'.threads.get u = some U) ∧
      ∀ u U, s'.threads.get u = some U →
        s.threads.get u = some U ∨ (s.threads.get u = none ∧ U = T) := by
  refine ⟨fun u U hU => ?_, fun u U hU => ?_⟩
  · rw [hget u, if_neg (Store.lt_next hU).ne]
    exact hU
  · rw [hget u] at hU
    split at hU
    · rename_i hu
      exact .inr ⟨s.threads.fresh u (by omega), (Option.some.inj hU).symm⟩
    · exact .inl hU

lemma Exclusive.spawned {parent : Option ℕ} {T : Thread} (h : Exclusive exc s)
    (hT : NewThread addr args g parent T) (hs : Spawned s s' parent T) : Exclusive exc s' := by
  obtain ⟨hold, hnew⟩ := get_new hs.threads
  refine h.extend hs.cpus (fun u U hU => ?_) (fun q P hP => ?_) fun q Q hQ => ?_
  · rcases hnew u U hU with hU | ⟨hnone, rfl⟩
    · exact .inl hU
    · exact .inr ⟨hnone, hT.state⟩
  · rw [hs.procs q, hP]
    split
    · exact ⟨_, rfl, rfl, fun u hu => List.mem_append_left _ hu⟩
    · exact ⟨P, rfl, rfl, fun u hu => hu⟩
  · have hkept : ∀ P, s.procs.get q = some P → ∀ u ∈ P.threadsVec.items,
        ∃ U, s'.threads.get u = some U ∧ U.parent_proc = some q := by
      intro P hP u hu
      obtain ⟨U, hU, hparent⟩ := h.parent q P hP u hu
      exact ⟨U, hold u U hU, hparent⟩
    rw [hs.procs q] at hQ
    split at hQ
    · rename_i hpar
      obtain ⟨P, hP, rfl⟩ := Option.map_eq_some_iff.mp hQ
      refine ⟨h.proc_alive q P hP, by simp [TurboVector.pushBack], fun u hu => ?_⟩
      rcases List.mem_append.mp hu with hu | hu
      · exact hkept P hP u hu
      · rw [List.mem_singleton.mp hu]
        exact ⟨T, by rw [hs.threads, if_pos rfl], by rw [hT.parent_proc, hpar]⟩
    · exact ⟨h.proc_alive q Q hQ, h.inhabited q Q hQ, hkept Q hQ⟩

lemma Exclusive.born {P : Process} (h : Exclusive exc s) (haddr : addr ≠ 0)
    (hb : Born addr args g s s' P) (hstate : P.state ≠ .killed) : Exclusive exc s' := by
  obtain ⟨-, hone, -, T, hT, hget⟩ := hb.threads.resolve_left fun h => haddr h.1
  obtain ⟨hold, hnew⟩ := get_new hget
  refine h.extend hb.cpus (fun u U hU => ?_) (fun q Q hQ => ?_) fun q Q hQ => ?_
  · rcases hnew u U hU with hU | ⟨hnone, rfl⟩
    · exact .inl hU
    · exact .inr ⟨hnone, hT.state⟩
  · rw [hb.procs q, if_neg (Store.lt_next hQ).ne]
    exact ⟨Q, hQ, rfl, fun u hu => hu⟩
  · rw [hb.procs q] at hQ
    split at hQ
    · rename_i hq
      obtain rfl := Option.some.inj hQ
      refine ⟨hstate, by simp [hone], fun u hu => ?_⟩
      rw [hone] at hu
      rw [List.mem_singleton.mp hu]
      exact ⟨T, by rw [hget, if_pos rfl], by rw [hT.parent_proc, hq]⟩
    · refine ⟨h.proc_alive q Q hQ, h.inhabited q Q hQ, fun u hu => ?_⟩
      obtain ⟨U, hU, hparent⟩ := h.parent q Q hQ u hu
      exact ⟨U, hold u U hU, hparent⟩

/-! ## Switching -/

/-- While a processor switches, its outgoing thread may be `READY`. -/
lemma Exclusive.saved (h : Exclusive none s) (c : ℕ) (regs : Regs) :
    Exclusive (some c) (saved c regs s) := by
  rw [Scheduler.saved]
  split
  · rename_i q t hq ht
    have hold : ∀ u U, (save t regs s).threads.get u = some U → ∃ U₀, s.threads.get u = some U₀ ∧
        U.parent_proc = U₀.parent_proc ∧ (u ≠ t → U = U₀) ∧
        (U.state = U₀.state ∨ U.state = .ready) ∧ (u = t → U.state ≠ .running) := by
      intro u U hU
      obtain ⟨U₀, hU₀, rfl⟩ := Store.get_modify_eq_some hU
      refine ⟨U₀, hU₀, ?_⟩
      by_cases hu : u = t
      · rw [if_pos hu]
        by_cases hrun : U₀.state = .running
        · simp [hu, hrun]
        · simp [hu, hrun]
      · simp [hu]
    have hkeep : ∀ u U₀, s.threads.get u = some U₀ → ∃ U, (save t regs s).threads.get u = some U ∧
        U.parent_proc = U₀.parent_proc := by
      intro u U₀ hU₀
      refine ⟨_, Store.get_modify_of_eq_some _ hU₀, ?_⟩
      split <;> rfl
    refine ⟨fun p P hP u hu => ?_, h.inhabited, h.proc_alive, fun u U hU => ?_, h.process, h.idle,
      h.idle_inj, h.current, fun d u U hd hu hU => ?_, h.excl, fun u U hU hrun => ?_⟩
    · obtain ⟨U₀, hU₀, hparent⟩ := h.parent p P hP u hu
      obtain ⟨U, hU, heq⟩ := hkeep u U₀ hU₀
      exact ⟨U, hU, heq.trans hparent⟩
    · obtain ⟨U₀, hU₀, -, -, hstate, -⟩ := hold u U hU
      rcases hstate with hstate | hstate
      · rw [hstate]
        exact h.thread_alive u U₀ hU₀
      · simp [hstate]
    · obtain ⟨U₀, hU₀, -, hne, -, -⟩ := hold u U hU
      have hut : u ≠ t := by
        rintro rfl
        exact hd (congrArg some (h.excl d c u hu ht))
      rw [hne hut]
      exact h.busy d u U₀ (by simp) hu hU₀
    · obtain ⟨U₀, hU₀, -, hne, -, hnot⟩ := hold u U hU
      have hut : u ≠ t := fun hut => hnot hut hrun
      rw [hne hut] at hrun
      obtain ⟨d, -, hd⟩ := h.running u U₀ hU₀ hrun
      refine ⟨d, ?_, hd⟩
      rintro hdc
      obtain rfl := Option.some.inj hdc
      rw [show (s.cpus d).currentThread = some t from ht] at hd
      exact hut (Option.some.inj hd).symm
  · rename_i hnone
    refine ⟨h.parent, h.inhabited, h.proc_alive, h.thread_alive, h.process, h.idle, h.idle_inj,
      h.current, fun d u U _ hu hU => h.busy d u U (by simp) hu hU, h.excl, fun u U hU hrun => ?_⟩
    obtain ⟨d, -, hd⟩ := h.running u U hU hrun
    refine ⟨d, ?_, hd⟩
    rintro hdc
    -- a processor with a current thread has a current process too
    obtain rfl := Option.some.inj hdc
    obtain ⟨p, P, hp, -⟩ := h.current d u hd
    exact hnone p u hp hd

/-- A thread that is current nowhere else is dispatched. -/
lemma Exclusive.dispatched {T : Thread} {P : Process} (h : Exclusive (some c) s)
    (hd : Dispatched c p t s s' T) (hP : s.procs.get p = some P) (hmem : t ∈ P.threadsVec.items)
    (hor : P.state = .ready ∨ (s.cpus c).idleP = some p)
    (hfree : ∀ d, d ≠ c → (s.cpus d).currentThread ≠ some t) : Exclusive none s' := by
  have hcur : ∀ d u, (s'.cpus d).currentThread = some u →
      (d = c ∧ u = t) ∨ (d ≠ c ∧ (s.cpus d).currentThread = some u ∧ u ≠ t) := by
    intro d u hu
    rcases hd.currentThread_cases hu with hct | ⟨hdc, hu⟩
    · exact .inl hct
    · exact .inr ⟨hdc, hu, fun hut => hfree d hdc (by rw [hu, hut])⟩
  refine ⟨fun q Q hQ u hu => ?_, by rw [hd.procs]; exact h.inhabited,
    by rw [hd.procs]; exact h.proc_alive, fun u U hU => ?_, fun d q hq => ?_, fun d i hi => ?_,
    fun d e i hdi hei => ?_, fun d u hu => ?_, fun d u U _ hu hU => ?_, fun d e u hdu heu => ?_,
    fun u U hU hrun => ?_⟩
  · rw [hd.procs] at hQ
    obtain ⟨U, hU, hparent⟩ := h.parent q Q hQ u hu
    rw [hd.threads u]
    split
    · rename_i hut
      rw [hut, hd.get] at hU
      obtain rfl := Option.some.inj hU
      exact ⟨_, rfl, hparent⟩
    · exact ⟨U, hU, hparent⟩
  · rcases hd.thread_cases hU with ⟨-, rfl⟩ | ⟨-, hU⟩
    · simp
    · exact h.thread_alive u U hU
  · rw [hd.procs]
    rcases hd.currentProcess_cases hq with ⟨-, rfl⟩ | ⟨-, hq⟩
    · exact hd.exists_proc
    · exact h.process d q hq
  · rw [hd.procs]
    rw [hd.idleP] at hi
    exact h.idle d i hi
  · rw [hd.idleP] at hdi hei
    exact h.idle_inj d e i hdi hei
  · rw [hd.procs, hd.idleP]
    rcases hcur d u hu with ⟨rfl, rfl⟩ | ⟨hdc, hu', -⟩
    · exact ⟨p, P, hd.current.2.1, hP, hmem, hor⟩
    · rw [hd.others d hdc]
      exact h.current d u hu'
  · rcases hd.thread_cases hU with ⟨-, rfl⟩ | ⟨hut, hU⟩
    · exact .inl rfl
    · rcases hcur d u hu with ⟨-, hut'⟩ | ⟨hdc, hu', -⟩
      · exact absurd hut' hut
      · exact h.busy d u U (by simpa using hdc) hu' hU
  · rcases hcur d u hdu with ⟨rfl, rfl⟩ | ⟨-, hdu', hut⟩
    · rcases hcur e u heu with ⟨rfl, -⟩ | ⟨-, -, hut⟩
      · rfl
      · exact absurd rfl hut
    · rcases hcur e u heu with ⟨-, rfl⟩ | ⟨-, heu', -⟩
      · exact absurd rfl hut
      · exact h.excl d e u hdu' heu'
  · rcases hd.thread_cases hU with ⟨rfl, -⟩ | ⟨-, hU⟩
    · exact ⟨c, by simp, hd.current.1⟩
    · obtain ⟨d, hdc, hdu⟩ := h.running u U hU hrun
      exact ⟨d, by simp, by rw [hd.others d (by simpa using hdc)]; exact hdu⟩

/-- A thread that is `READY` is current nowhere else. -/
lemma Exclusive.not_current_of_ready (h : Exclusive (some c) s) (hr : Ready s p t) :
    ∀ d, d ≠ c → (s.cpus d).currentThread ≠ some t := by
  intro d hdc hd
  obtain ⟨T, hT, hready⟩ := hr.thread
  rcases h.busy d t T (by simpa using hdc) hd hT with hstate | hstate
  · rw [hready] at hstate
    exact absurd hstate (by simp)
  · rw [hready] at hstate
    exact absurd hstate (by simp)

/-- A thread of the idle process is current nowhere else. -/
lemma Exclusive.not_current_of_idle {I : Process} (h : Exclusive (some c) s)
    (hi : (s.cpus c).idleP = some p) (hI : s.procs.get p = some I)
    (hmem : t ∈ I.threadsVec.items) : ∀ d, d ≠ c → (s.cpus d).currentThread ≠ some t := by
  intro d hdc hd
  obtain ⟨q, Q, -, hQ, hmemQ, hor⟩ := h.current d t hd
  -- the thread has one parent, which is the idle process of `c`
  obtain ⟨T, hT, hpar⟩ := h.parent p I hI t hmem
  obtain ⟨T', hT', hpar'⟩ := h.parent q Q hQ t hmemQ
  rw [hT] at hT'
  obtain rfl := Option.some.inj hT'
  rw [hpar] at hpar'
  obtain rfl := Option.some.inj hpar'
  rcases hor with hready | hidle
  · obtain ⟨I', hI', hnot⟩ := h.idle c p hi
    rw [hQ] at hI'
    obtain rfl := Option.some.inj hI'
    exact hnot hready
  · exact hdc (h.idle_inj d c p hidle hi)

/-- The idle process is there when it is needed, and belongs to its processor. -/
lemma Exclusive.idleProcess {r : ℕ × Sched} (h : Exclusive (some c) s)
    (hr : idleProcess g c s = some r) :
    Exclusive (some c) r.2 ∧ (r.2.cpus c).idleP = some r.1 := by
  rcases idleProcess_cases hr with ⟨hi, heq⟩ | ⟨hnone, hnext, s₁, P, hstate, hb, -, heq⟩
  · rw [heq]
    exact ⟨h, hi⟩
  have hs₁ : Exclusive (some c) s₁ := h.born s.idle.ne_zero hb (by simp [hstate])
  have hP : s₁.procs.get r.1 = some P := by rw [hb.procs, if_pos hnext]
  have hfields : ∀ d, (r.2.cpus d).currentThread = (s₁.cpus d).currentThread ∧
      (r.2.cpus d).currentProcess = (s₁.cpus d).currentProcess ∧
      (r.2.cpus d).idleP = if d = c then some r.1 else (s₁.cpus d).idleP := by
    intro d
    rw [heq]
    by_cases hdc : d = c <;> simp [hdc]
  -- no other processor has the new process as its idle process
  have hother : ∀ d, (s₁.cpus d).idleP ≠ some r.1 := by
    intro d hd
    rw [hb.cpus] at hd
    obtain ⟨I, hI, -⟩ := h.idle d r.1 hd
    exact absurd (Store.lt_next hI) (by omega)
  refine ⟨⟨by rw [heq]; exact hs₁.parent, by rw [heq]; exact hs₁.inhabited,
    by rw [heq]; exact hs₁.proc_alive, by rw [heq]; exact hs₁.thread_alive, fun d q hq => ?_,
    fun d i hi => ?_, fun d e i hdi hei => ?_, fun d u hu => ?_, fun d u U hdc hu hU => ?_,
    fun d e u hdu heu => ?_, fun u U hU hrun => ?_⟩, by rw [(hfields c).2.2, if_pos rfl]⟩
  · rw [(hfields d).2.1] at hq
    rw [heq]
    exact hs₁.process d q hq
  · rw [(hfields d).2.2] at hi
    rw [heq]
    split at hi
    · rw [← Option.some.inj hi]
      exact ⟨P, hP, by simp [hstate]⟩
    · exact hs₁.idle d i hi
  · rw [(hfields _).2.2] at hdi hei
    split at hdi <;> split at hei
    · rename_i hdc hec
      rw [hdc, hec]
    · rw [← hdi] at hei
      exact absurd hei (hother e)
    · rw [← hei] at hdi
      exact absurd hdi (hother d)
    · exact hs₁.idle_inj d e i hdi hei
  · rw [(hfields d).1] at hu
    obtain ⟨q, Q, hq, hQ, hmem, hor⟩ := hs₁.current d u hu
    refine ⟨q, Q, by rw [(hfields d).2.1]; exact hq, by rw [heq]; exact hQ, hmem, ?_⟩
    rcases hor with hready | hidle
    · exact .inl hready
    · rw [(hfields d).2.2]
      split
      · -- the processor had no idle process before
        rename_i hdc
        rw [hdc, hb.cpus, hnone] at hidle
        exact absurd hidle (by simp)
      · exact .inr hidle
  · rw [(hfields d).1] at hu
    rw [heq] at hU
    exact hs₁.busy d u U hdc hu hU
  · rw [(hfields _).1] at hdu heu
    exact hs₁.excl d e u hdu heu
  · rw [heq] at hU
    obtain ⟨d, hdc, hd⟩ := hs₁.running u U hU hrun
    exact ⟨d, hdc, by rw [(hfields d).1]; exact hd⟩

/-- `switchTask` keeps the invariant. -/
lemma Exclusive.switchTask (h : Exclusive none s)
    (hs : switchTask fuel g c regs s = some (regs', s')) : Exclusive none s' := by
  have hsaved := h.saved c regs
  rcases switchTask_cases (h.quiet c regs) hs with ⟨-, -, rfl⟩ | ⟨p, t, hready, hd⟩ |
    ⟨r, I, t, hidle, hI, ht, hd⟩
  · exact h
  · obtain ⟨T, -, hd⟩ := dispatch_eq hd
    obtain ⟨P, hP, hstate, hmem⟩ := hready.process
    exact hsaved.dispatched hd hP hmem (.inl hstate) (hsaved.not_current_of_ready hready)
  · obtain ⟨T, -, hd⟩ := dispatch_eq hd
    obtain ⟨hr, hi⟩ := hsaved.idleProcess hidle
    have hmem := List.mem_of_getElem? ht
    exact hr.dispatched hd hI hmem (.inr hi) (hr.not_current_of_idle hi hI hmem)

/-! ## Blocking -/

/-- A change of the processors in which every processor keeps what it refers to. -/
lemma Exclusive.of_cpus (h : Exclusive exc s) (hthreads : s'.threads = s.threads)
    (hprocs : s'.procs = s.procs)
    (hcpus : ∀ d, (s'.cpus d).currentThread = (s.cpus d).currentThread ∧
      (s'.cpus d).currentProcess = (s.cpus d).currentProcess ∧
        (s'.cpus d).idleP = (s.cpus d).idleP) : Exclusive exc s' := by
  refine ⟨by rw [hprocs, hthreads]; exact h.parent, by rw [hprocs]; exact h.inhabited,
    by rw [hprocs]; exact h.proc_alive, by rw [hthreads]; exact h.thread_alive, fun d q hq => ?_,
    fun d i hi => ?_, fun d e i hdi hei => ?_, fun d u hu => ?_, fun d u U hd hu hU => ?_,
    fun d e u hdu heu => ?_, fun u U hU hrun => ?_⟩
  · rw [(hcpus d).2.1] at hq
    rw [hprocs]
    exact h.process d q hq
  · rw [(hcpus d).2.2] at hi
    rw [hprocs]
    exact h.idle d i hi
  · rw [(hcpus _).2.2] at hdi hei
    exact h.idle_inj d e i hdi hei
  · rw [(hcpus d).1] at hu
    rw [(hcpus d).2.1, (hcpus d).2.2, hprocs]
    exact h.current d u hu
  · rw [(hcpus d).1] at hu
    rw [hthreads] at hU
    exact h.busy d u U hd hu hU
  · rw [(hcpus _).1] at hdu heu
    exact h.excl d e u hdu heu
  · rw [hthreads] at hU
    obtain ⟨d, hd, hu⟩ := h.running u U hU hrun
    exact ⟨d, hd, by rw [(hcpus d).1]; exact hu⟩

lemma Exclusive.yield (h : Exclusive exc s) (c ms : ℕ) : Exclusive exc (yield c ms s) :=
  h.of_cpus rfl rfl fun d => yield_cpus c ms d s

/-- A thread may be blocked at any time. -/
lemma Exclusive.blocked (h : Exclusive none s) (t : ℕ) :
    Exclusive none (s.setThread t fun T => { T with state := .blocked }) := by
  have hthread : ∀ u U, (s.setThread t fun T => { T with state := .blocked }).threads.get u =
    some U → ∃ U₀, s.threads.get u = some U₀ ∧ (U = U₀ ∨ U.state = .blocked) := by
    intro u U hU
    obtain ⟨U₀, hU₀, rfl⟩ := Store.get_modify_eq_some hU
    refine ⟨U₀, hU₀, ?_⟩
    split
    · exact .inr rfl
    · exact .inl rfl
  refine ⟨fun p P hP u hu => ?_, h.inhabited, h.proc_alive, fun u U hU => ?_, h.process, h.idle,
    h.idle_inj, h.current, fun d u U hd hu hU => ?_, h.excl, fun u U hU hrun => ?_⟩
  · obtain ⟨U₀, hU₀, hparent⟩ := h.parent p P hP u hu
    refine ⟨_, Store.get_modify_of_eq_some _ hU₀, ?_⟩
    split <;> exact hparent
  · obtain ⟨U₀, hU₀, rfl | hblocked⟩ := hthread u U hU
    · exact h.thread_alive u U hU₀
    · simp [hblocked]
  · obtain ⟨U₀, hU₀, rfl | hblocked⟩ := hthread u U hU
    · exact h.busy d u U hd hu hU₀
    · exact .inr hblocked
  · obtain ⟨U₀, hU₀, rfl | hblocked⟩ := hthread u U hU
    · exact h.running u U hU₀ hrun
    · rw [hblocked] at hrun
      exact absurd hrun (by simp)

/-- A current thread blocks itself. -/
lemma Exclusive.blockThread (h : Exclusive none s) (hs : blockThread c s = some s') :
    Exclusive none s' := by
  obtain ⟨t, ht, hs⟩ := Option.bind_eq_some_iff.mp hs
  obtain ⟨T, hT, rfl⟩ := Option.map_eq_some_iff.mp hs
  refine Exclusive.yield ?_ c 1
  split
  · exact h.blocked t
  · exact h

/-! ## Runs -/

/-- The calls of runs in which nothing exits: every process starts with a thread. -/
def Op.Running : Op → Prop
  | .createProc addr _ _ => addr ≠ 0
  | .createThread .. | .switchTask .. | .blockThread _ => True
  | .exitThread _ | .exitProc _ => False

/-- One call of such a run. -/
def RunningStep (s s' : Sched) : Prop := ∃ fuel op, op.Running ∧ step fuel op s = some s'

lemma RunningStep.exclusive (hs : RunningStep s s') (h : Exclusive none s) : Exclusive none s' := by
  obtain ⟨fuel, op, hop, hstep⟩ := hs
  cases op with
  | createProc addr args g =>
    obtain ⟨⟨p, s₁⟩, hcreate, rfl⟩ := Option.map_eq_some_iff.mp hstep
    obtain ⟨-, -, P, hstate, hb⟩ := createProc_born hcreate
    exact h.born hop hb (by simp [hstate])
  | createThread addr args parent g =>
    obtain ⟨⟨t, s₁⟩, hcreate, rfl⟩ := Option.map_eq_some_iff.mp hstep
    obtain ⟨-, T, hT, hsp⟩ := createThread_spawned hcreate
    exact h.spawned hT hsp
  | switchTask c regs g =>
    obtain ⟨⟨regs', s₁⟩, hswitch, rfl⟩ := Option.map_eq_some_iff.mp hstep
    exact h.switchTask hswitch
  | blockThread c => exact h.blockThread hstep
  | exitThread c => exact absurd hop (by simp [Op.Running])
  | exitProc c => exact absurd hop (by simp [Op.Running])

/-- **A thread runs on at most one processor.**  In every state that a run reaches, no
thread is current on two processors, a thread that is `RUNNING` is current on exactly one,
and a current thread is `RUNNING` or `BLOCKED`. -/
theorem one_processor {idle : ℕ+} (hr : Relation.ReflTransGen RunningStep (start idle) s) :
    (∀ c d t, (s.cpus c).currentThread = some t → (s.cpus d).currentThread = some t → c = d) ∧
      (∀ t T, s.threads.get t = some T → T.state = .running →
        ∃! c, (s.cpus c).currentThread = some t) ∧
      ∀ c t, (s.cpus c).currentThread = some t →
        ∃ T, s.threads.get t = some T ∧ (T.state = .running ∨ T.state = .blocked) := by
  have h : Exclusive none s := by
    induction hr with
    | refl => exact start_exclusive idle
    | tail _ hs ih => exact hs.exclusive ih
  refine ⟨h.excl, fun t T hT hrun => ?_, fun c t ht => ?_⟩
  · obtain ⟨c, -, hc⟩ := h.running t T hT hrun
    exact ⟨c, hc, fun d hd => h.excl d c t hd hc⟩
  · obtain ⟨p, P, -, hP, hmem, -⟩ := h.current c t ht
    obtain ⟨T, hT, -⟩ := h.parent p P hP t hmem
    exact ⟨T, hT, h.busy c t T (by simp) ht hT⟩

/-- Two processors run the two threads of a process. -/
theorem one_processor_two_threads :
    ∃ s, Relation.ReflTransGen RunningStep (start 1) s ∧ (s.cpus 0).currentThread = some 0 ∧
      (s.cpus 1).currentThread = some 1 ∧ ∃! c, (s.cpus c).currentThread = some 1 := by
  have hrun : (run 5 [.createProc 0x4000 0 {}, .createThread 0x5000 0 (some 0) {},
      .switchTask 0 {} {}, .switchTask 1 {} {}] (start 1)).map (fun s =>
        ((s.cpus 0).currentThread, (s.cpus 1).currentThread,
          (s.threads.get 1).map Thread.state)) = some (some 0, some 1, some .running) := by
    decide +kernel
  obtain ⟨s, hs, heq⟩ := Option.map_eq_some_iff.mp hrun
  simp only [Prod.mk.injEq, Option.map_eq_some_iff] at heq
  obtain ⟨h₀, h₁, T, hT, hstate⟩ := heq
  have hr : Relation.ReflTransGen RunningStep (start 1) s :=
    run_reaches (fun op hop s s' hstep => ⟨5, op, by
      simp only [List.mem_cons, List.not_mem_nil, or_false] at hop
      rcases hop with rfl | rfl | rfl | rfl <;> simp [Op.Running], hstep⟩) hs
  exact ⟨s, hr, h₀, h₁, (one_processor hr).2.1 1 T hT hstate⟩

end TurbOS.Scheduler
