import TurbOS.Scheduler.Model

/-!
# What `switchTask` does

`switchTask` saves the registers of the interrupted thread, chooses a thread, and makes it
current.  In between it calls `clean_proc`.  A process is *settled* when `clean_proc` finds
nothing to release in it; as long as `clean_proc` is only called on settled processes it
changes nothing, and `switchTask_cases` lists what a call can do.
-/

open Fuel

namespace TurbOS.Scheduler

variable {s s' : Sched} {c p t fuel : ℕ} {g : Grant} {regs regs' : Regs}

section Fields

variable (s : Sched) (i : ℕ)

@[simp] lemma setThread_procs (f : Thread → Thread) : (s.setThread i f).procs = s.procs := rfl

@[simp] lemma setThread_threads (f : Thread → Thread) :
    (s.setThread i f).threads = s.threads.modify i f := rfl

@[simp] lemma setThread_cpus (f : Thread → Thread) : (s.setThread i f).cpus = s.cpus := rfl

@[simp] lemma setThread_table (f : Thread → Thread) :
    (s.setThread i f).proc_table = s.proc_table := rfl

@[simp] lemma setProc_procs (f : Process → Process) :
    (s.setProc i f).procs = s.procs.modify i f := rfl

@[simp] lemma setProc_threads (f : Process → Process) : (s.setProc i f).threads = s.threads := rfl

@[simp] lemma setProc_cpus (f : Process → Process) : (s.setProc i f).cpus = s.cpus := rfl

@[simp] lemma setProc_table (f : Process → Process) :
    (s.setProc i f).proc_table = s.proc_table := rfl

@[simp] lemma setCpu_procs (f : Cpu → Cpu) : (s.setCpu i f).procs = s.procs := rfl

@[simp] lemma setCpu_threads (f : Cpu → Cpu) : (s.setCpu i f).threads = s.threads := rfl

@[simp] lemma setCpu_cpus (f : Cpu → Cpu) :
    (s.setCpu i f).cpus = Function.update s.cpus i (f (s.cpus i)) := rfl

@[simp] lemma setCpu_table (f : Cpu → Cpu) : (s.setCpu i f).proc_table = s.proc_table := rfl

end Fields

/-! ## Settled processes -/

/-- `clean_proc` finds nothing to release: the process is not killed, none of its threads
is, and it has a thread or a child. -/
structure Settled (s : Sched) (p : ℕ) (P : Process) : Prop where
  get : s.procs.get p = some P
  alive : P.state ≠ .killed
  threads : ∀ t ∈ P.threadsVec.items, ∃ T, s.threads.get t = some T ∧ T.state ≠ .killed
  inhabited : P.threadsVec.items ≠ [] ∨ P.children.items ≠ []

/-- On a settled process `clean_proc` does nothing, and it returns. -/
lemma cleanProc_settled {P : Process} (h : Settled s p P) :
    Meets (P.threadsVec.size < fuel) (cleanProc (fuel + 1) p s) (· = s) := by
  have hloop : Meets (P.threadsVec.size < fuel)
      (releaseThreads (fun T => T.state = .killed) fuel p s) (· = s) := by
    refine Meets.of_imp (loop_meets True
      (fun k c => c.1 = s ∧ P.threadsVec.size - c.2 ≤ k) ?_ fuel P.threadsVec.size (s, 0)
      ⟨rfl, by simp⟩) fun hf => ⟨trivial, hf⟩
    rintro k ⟨s₁, i⟩ ⟨hs₁, hk⟩
    dsimp only at hs₁ hk ⊢
    rw [hs₁, h.get, Option.bind_some]
    split
    · rename_i hi
      obtain ⟨t, ht⟩ : ∃ t, P.threadsVec.items[i]? = some t :=
        ⟨_, List.getElem?_eq_getElem hi⟩
      obtain ⟨T, hT, halive⟩ := h.threads t (List.mem_of_getElem? ht)
      rw [ht, Option.bind_some, hT, Option.bind_some, if_neg (by simpa using halive)]
      exact Meets.pure ⟨P.threadsVec.size - (i + 1), by omega, rfl, le_rfl⟩
    · exact Meets.pure rfl
  rw [cleanProc, h.get, Option.bind_some, if_neg h.alive]
  refine Meets.bind hloop fun s₁ hs₁ => ?_
  rw [hs₁, h.get, Option.bind_some, if_neg]
  · exact Meets.pure rfl
  · rintro ⟨hc, ht⟩
    rcases h.inhabited with hne | hne
    · exact hne (List.length_eq_zero_iff.mp ht)
    · exact hne (List.length_eq_zero_iff.mp hc)

lemma cleanProc_eq_of_settled {P : Process} (h : Settled s p P)
    (hs : cleanProc fuel p s = some s') : s' = s := by
  cases fuel with
  | zero => simp [cleanProc] at hs
  | succ fuel => exact (cleanProc_settled h).post hs

lemma cleanProc_returns_of_settled {P : Process} (h : Settled s p P)
    (hfuel : P.threadsVec.size + 1 < fuel) : cleanProc fuel p s = some s := by
  obtain ⟨f, rfl⟩ : ∃ f, fuel = f + 1 := ⟨fuel - 1, by omega⟩
  have hmeets : Meets (P.threadsVec.size < f) (cleanProc (f + 1) p s) (· = s) :=
    cleanProc_settled h
  obtain ⟨s', hs', rfl⟩ := hmeets.returns (by omega)
  exact hs'

/-! ## Choosing -/

/-- The thread may be dispatched: it and its process are `READY`. -/
structure Ready (s : Sched) (p t : ℕ) : Prop where
  process : ∃ P, s.procs.get p = some P ∧ P.state = .ready ∧ t ∈ P.threadsVec.items
  thread : ∃ T, s.threads.get t = some T ∧ T.state = .ready

lemma scanThreads_some {ts : List ℕ} (h : scanThreads s ts = some (some t)) :
    t ∈ ts ∧ ∃ T, s.threads.get t = some T ∧ T.state = .ready := by
  induction ts with
  | nil => simp [scanThreads] at h
  | cons u ts ih =>
    obtain ⟨T, hT, h⟩ := Option.bind_eq_some_iff.mp h
    split at h
    · obtain ⟨hmem, hready⟩ := ih h
      exact ⟨List.mem_cons_of_mem _ hmem, hready⟩
    · rename_i hstate
      obtain rfl := Option.some.inj (Option.some.inj h)
      exact ⟨List.mem_cons_self, T, hT, by simpa using hstate⟩

lemma laterThread_some {t' : ℕ} (h : laterThread s p t = some (some t')) : Ready s p t' := by
  obtain ⟨P, hP, h⟩ := Option.bind_eq_some_iff.mp h
  split at h
  · simp at h
  · rename_i hstate
    obtain ⟨hmem, hready⟩ := scanThreads_some h
    exact ⟨⟨P, hP, by simpa using hstate, List.mem_of_mem_drop hmem⟩, hready⟩

lemma scanProcs_some {ps : List ℕ} {r : ℕ × ℕ} (h : scanProcs s ps = some (some r)) :
    Ready s r.1 r.2 := by
  induction ps with
  | nil => simp [scanProcs] at h
  | cons q ps ih =>
    obtain ⟨P, hP, h⟩ := Option.bind_eq_some_iff.mp h
    split at h
    · exact ih h
    · rename_i hstate
      obtain ⟨o, ho, h⟩ := Option.bind_eq_some_iff.mp h
      cases o with
      | none => exact ih h
      | some u =>
        obtain rfl := Option.some.inj (Option.some.inj h)
        obtain ⟨hmem, hready⟩ := scanThreads_some ho
        exact ⟨⟨P, hP, by simpa using hstate, hmem⟩, hready⟩

/-! ## The calls of `clean_proc` -/

/-- The processes of a list that `firstReady` hands to `clean_proc`. -/
def passed (s : Sched) : List ℕ → List ℕ
  | [] => []
  | p :: ps =>
    match s.procs.get p with
    | none => []
    | some P =>
      if P.state ≠ .ready then p :: passed s ps
      else if scanThreads s P.threadsVec.items = some none then passed s ps else []

/-- The state in which `switchTask` chooses: the registers of the interrupted thread are
saved, if there is one. -/
def saved (c : ℕ) (regs : Regs) (s : Sched) : Sched :=
  match (s.cpus c).currentProcess, (s.cpus c).currentThread with
  | some _, some t => save t regs s
  | _, _ => s

section Saved

variable (c : ℕ) (regs : Regs) (s : Sched)

/-- Saving the registers touches the threads only. -/
lemma saved_eq : saved c regs s = { s with threads := (saved c regs s).threads } := by
  rw [saved]
  split <;> rfl

@[simp] lemma saved_procs : (saved c regs s).procs = s.procs := by rw [saved_eq]

@[simp] lemma saved_cpus : (saved c regs s).cpus = s.cpus := by rw [saved_eq]

@[simp] lemma saved_isInit : (saved c regs s).isInit = s.isInit := by rw [saved_eq]

@[simp] lemma saved_initproc : (saved c regs s).initproc = s.initproc := by rw [saved_eq]

@[simp] lemma saved_idle : (saved c regs s).idle = s.idle := by rw [saved_eq]

end Saved

/-- The processes that `switchTask` hands to `clean_proc`: the current process, unless
another thread of it follows, and before there is a current thread all processes that are
passed over. -/
def cleaned (c : ℕ) (regs : Regs) (s : Sched) : List ℕ :=
  match (s.cpus c).currentProcess, (s.cpus c).currentThread with
  | some p, some t => if (laterThread (save t regs s) p t).join = none then [p] else []
  | cur, _ =>
    passed s s.proc_table.items ++
      if scanProcs s s.proc_table.items = some none then cur.toList else []

/-- Every process that `switchTask` hands to `clean_proc` is settled. -/
def Quiet (c : ℕ) (regs : Regs) (s : Sched) : Prop :=
  ∀ p ∈ cleaned c regs s, ∃ P, Settled s p P

/-- Saving the registers settles nothing and unsettles nothing. -/
lemma Settled.save {P : Process} (h : Settled s p P) (t : ℕ) (regs : Regs) :
    Settled (save t regs s) p P := by
  refine ⟨h.get, h.alive, fun u hu => ?_, h.inhabited⟩
  obtain ⟨T, hT, halive⟩ := h.threads u hu
  refine ⟨_, Store.get_modify_of_eq_some _ hT, ?_⟩
  split
  · dsimp only
    split
    · simp
    · exact halive
  · exact halive

lemma firstReady_eq {ps : List ℕ} {r : Option (ℕ × ℕ) × Sched}
    (hq : ∀ p ∈ passed s ps, ∃ P, Settled s p P) (h : firstReady fuel ps s = some r) :
    r.2 = s ∧ scanProcs s ps = some r.1 := by
  induction ps with
  | nil =>
    obtain rfl := Option.some.inj h
    exact ⟨rfl, rfl⟩
  | cons p ps ih =>
    rw [firstReady] at h
    obtain ⟨P, hP, h⟩ := Option.bind_eq_some_iff.mp h
    rw [passed, hP] at hq
    rw [scanProcs, hP, Option.bind_some]
    dsimp only at hq
    split at h
    · rename_i hstate
      rw [if_pos hstate] at hq ⊢
      obtain ⟨s₁, hclean, hrest⟩ := Option.bind_eq_some_iff.mp h
      obtain ⟨Q, hQ⟩ := hq p List.mem_cons_self
      rw [cleanProc_eq_of_settled hQ hclean] at hrest
      exact ih (fun q hmem => hq q (List.mem_cons_of_mem _ hmem)) hrest
    · rename_i hstate
      rw [if_neg hstate] at hq ⊢
      obtain ⟨o, ho, h⟩ := Option.bind_eq_some_iff.mp h
      rw [ho, Option.bind_some]
      rw [ho] at hq
      cases o with
      | none => exact ih (by simpa using hq) h
      | some t =>
        obtain rfl := Option.some.inj h
        exact ⟨rfl, rfl⟩

/-! ## The cases of a switch -/

/-- The fallback to the idle process, when there is nothing to clean. -/
def Idles (g : Grant) (c : ℕ) (s : Sched) (out : Regs × Sched) : Prop :=
  ∃ r I t, idleProcess g c s = some r ∧ r.2.procs.get r.1 = some I ∧
    I.threadsVec.items[0]? = some t ∧ dispatch c r.1 t (some 1) r.2 = some out

lemma goIdle_cases {out : Regs × Sched} (h : goIdle fuel g c s = some out)
    (hq : ∀ p, (s.cpus c).currentProcess = some p → ∃ P, Settled s p P) : Idles g c s out := by
  obtain ⟨s₁, hclean, hrest⟩ := Option.bind_eq_some_iff.mp h
  have hs₁ : s₁ = s := by
    cases hcur : (s.cpus c).currentProcess with
    | none =>
      rw [hcur] at hclean
      exact (Option.some.inj hclean).symm
    | some p =>
      rw [hcur] at hclean
      obtain ⟨P, hP⟩ := hq p hcur
      exact cleanProc_eq_of_settled hP hclean
  rw [hs₁] at hrest
  obtain ⟨r, hr, hrest⟩ := Option.bind_eq_some_iff.mp hrest
  obtain ⟨I, hI, hrest⟩ := Option.bind_eq_some_iff.mp hrest
  obtain ⟨t, ht, hrest⟩ := Option.bind_eq_some_iff.mp hrest
  exact ⟨r, I, t, hr, hI, ht, hrest⟩

/-- The choice of a processor without a current thread. -/
lemma first_cases {out : Regs × Sched}
    (hq : ∀ p ∈ passed s s.proc_table.items ++
      (if scanProcs s s.proc_table.items = some none then (s.cpus c).currentProcess.toList else []),
      ∃ P, Settled s p P)
    (h : ((firstReady fuel s.proc_table.items s).bind fun r =>
      match r.1 with
      | some (p, t) => dispatch c p t none r.2
      | none => goIdle fuel g c r.2) = some out) :
    (∃ p t, Ready s p t ∧ dispatch c p t none s = some out) ∨ Idles g c s out := by
  obtain ⟨⟨o, s₁⟩, hfirst, h⟩ := Option.bind_eq_some_iff.mp h
  obtain ⟨hs₁, hscan⟩ := firstReady_eq (fun p hp => hq p (List.mem_append_left _ hp)) hfirst
  dsimp only at hs₁ hscan h
  rw [hs₁] at h
  cases o with
  | some r => exact .inl ⟨r.1, r.2, scanProcs_some hscan, h⟩
  | none =>
    refine .inr (goIdle_cases h fun p hp => hq p (List.mem_append_right _ ?_))
    rw [if_pos hscan, hp]
    exact List.mem_singleton.mpr rfl

/-- What a call of `switchTask` can do when there is nothing to clean: nothing before the
scheduler is initialised; else save the registers, and dispatch a thread that is ready or
the idle thread. -/
lemma switchTask_cases (hq : Quiet c regs s) (h : switchTask fuel g c regs s = some (regs', s')) :
    (s.isInit = false ∧ regs' = regs ∧ s' = s) ∨
      (∃ p t, Ready (saved c regs s) p t ∧
        dispatch c p t none (saved c regs s) = some (regs', s')) ∨
      Idles g c (saved c regs s) (regs', s') := by
  rw [switchTask] at h
  split at h
  · rename_i hinit
    obtain ⟨rfl, rfl⟩ := Prod.mk.inj (Option.some.inj h)
    exact .inl ⟨hinit, rfl, rfl⟩
  right
  rw [Quiet, cleaned] at hq
  rw [saved]
  cases hp : (s.cpus c).currentProcess with
  | none =>
    simp only [hp] at h hq ⊢
    exact first_cases (by rw [hp]; exact hq) h
  | some p =>
    cases ht : (s.cpus c).currentThread with
    | none =>
      simp only [hp, ht] at h hq ⊢
      exact first_cases (by rw [hp]; exact hq) h
    | some t =>
      simp only [hp, ht] at h hq ⊢
      obtain ⟨T, hT, h⟩ := Option.bind_eq_some_iff.mp h
      obtain ⟨o, ho, h⟩ := Option.bind_eq_some_iff.mp h
      cases o with
      | some t' => exact .inl ⟨p, t', laterThread_some ho, h⟩
      | none =>
        obtain ⟨P, hP⟩ := hq p (by simp [ho])
        have hsettled := hP.save t regs
        obtain ⟨o, ho, h⟩ := Option.bind_eq_some_iff.mp h
        cases o with
        | some r =>
          obtain ⟨s₁, hclean, hrest⟩ := Option.bind_eq_some_iff.mp h
          rw [cleanProc_eq_of_settled hsettled hclean] at hrest
          exact .inl ⟨r.1, r.2, scanProcs_some ho, hrest⟩
        | none =>
          refine .inr (goIdle_cases h fun q hcur => ?_)
          rw [save, setThread_cpus, hp] at hcur
          obtain rfl := Option.some.inj hcur
          exact ⟨P, hsettled⟩

end TurbOS.Scheduler
