import TurbOS.Scheduler.Calls

/-!
# The init process

`blockProc()` and `exitProc()` refuse to touch `initproc`, and `exitThread()` does so when it would
end the last thread.  `blockProc(proc)` has no such test.  And `exitThread()` counts the entries of
`threadsVec`, in which `clean_proc` removes the wrong one: when a thread in front of the last one
has exited, the vector keeps the thread that was freed.

In runs in which `initproc` is not passed to `blockProc(proc)`, and only its last thread has exited
whenever it is cleaned up, it stays `READY` and is not freed, and its threads exist.
-/

open Fuel Runs

namespace TurbOS.Scheduler

variable {s s' s₁ : Sched} {c p t i addr args fuel : ℕ} {g : Grant} {regs regs' : Regs}
  {P : Process} {T : Thread} {a : Call}

/-- `initproc` exists, it is neither blocked nor killed, and it lists no thread that was freed. -/
def Protected (s : Sched) : Prop :=
  ∀ i, s.initproc = some i → ∃ P, s.procs.get i = some P ∧ P.state ≠ .blocked ∧
    P.state ≠ .killed ∧ ∀ t ∈ P.threadsVec.items, (s.threads.get t).isSome

/-- The condition on the calls. -/
def Spares (s : Sched) : Call → Prop
  | .blockProcOf c p => some p = s.initproc → ∀ q Q, (s.cpus c).currentProcess = some q →
      s.procs.get q = some Q → ¬ (Q.state = .ready ∨ Q.state = .running)
  | .op (.switchTask c regs _) => ∀ i P, s.initproc = some i → i ∈ cleaned c regs s →
      s.procs.get i = some P → ∀ t ∈ P.threadsVec.items.dropLast, ∀ T, s.threads.get t = some T →
      T.state ≠ .killed
  | _ => True

/-- What is kept of the process `i`. -/
structure Upright (i : ℕ) (s : Sched) (P : Process) : Prop where
  get : s.procs.get i = some P
  ready : P.state = .ready
  listed : ∀ t ∈ P.threadsVec.items, ∃ T, s.threads.get t = some T
  single : ∀ t T, P.threadsVec.items = [t] → s.threads.get t = some T → T.state ≠ .killed
  current : ∀ c, (s.cpus c).currentProcess = some i → P.threadsVec.items ≠ []

/-! ## Cleaning up -/

/-- The last thread was killed, an entry was taken from the vector, and the thread freed. -/
def LastReleased (p t : ℕ) (P : Process) (s s' : Sched) : Prop :=
  ∃ v T, P.threadsVec.remove (P.threadsVec.find t) = some v ∧ s.threads.get t = some T ∧
    T.state = .killed ∧ freeThread t (s.setProc p fun P => { P with threadsVec := v }) = some s'

/-- If the threads in front of the last one are alive, the loop finds the last one at most. -/
lemma releaseThreads_last {xs : List ℕ} (hP : s.procs.get p = some P)
    (hvec : P.threadsVec.isInit = true) (hitems : P.threadsVec.items = xs ++ [t])
    (hfront : ∀ u ∈ xs, ∀ U, s.threads.get u = some U → U.state ≠ .killed)
    (h : releaseThreads (fun T => T.state = .killed) fuel p s = some s') :
    s' = s ∨ LastReleased p t P s s' := by
  have hsize : P.threadsVec.size = xs.length + 1 := by
    rw [TurboVector.size, hitems, List.length_append, List.length_singleton]
  refine loop_post (Q := fun s' => s' = s ∨ LastReleased p t P s s')
    (fun c : Sched × ℕ => c.1 = s ∨ (xs.length + 1 ≤ c.2 ∧ LastReleased p t P s c.1)) ?_
      (.inl rfl) h
  rintro ⟨s₁, j⟩ r hs₁ hr
  rcases hs₁ with hs₁ | ⟨hj, v, T, hv, hT, hkilled, hs₁⟩
  · dsimp only at hs₁ hr
    rw [hs₁, hP, Option.bind_some] at hr
    split at hr
    · rename_i hj
      obtain ⟨u, hu, hr⟩ := Option.bind_eq_some_iff.mp hr
      obtain ⟨U, hU, hr⟩ := Option.bind_eq_some_iff.mp hr
      split at hr
      · rename_i hkilled
        have hkilled : U.state = .killed := by simpa using hkilled
        -- only the last thread can be killed
        have hlast : j = xs.length ∧ u = t := by
          rw [hitems, List.getElem?_append] at hu
          split at hu
          · exact absurd hkilled (hfront u (List.mem_of_getElem? hu) U hU)
          · have hj' : j = xs.length := by omega
            rw [hj'] at hu
            refine ⟨hj', ?_⟩
            simpa using hu.symm
        obtain ⟨v, hv, hr⟩ := Option.bind_eq_some_iff.mp hr
        obtain ⟨s₂, hs₂, rfl⟩ := Option.map_eq_some_iff.mp hr
        obtain ⟨hj', rfl⟩ := hlast
        exact .inr ⟨by dsimp only; omega, v, U, hv, hU, hkilled, hs₂⟩
      · rw [← Option.some.inj hr]
        exact .inl rfl
    · rw [← Option.some.inj hr]
      exact .inl rfl
  · -- the vector has become shorter, so the loop ends
    dsimp only at hj hs₁ hr
    have hlen := ((remove_find_spec (by rw [hitems]; simp) hv).2 hvec).2
    obtain ⟨V, hV, rfl⟩ := Option.map_eq_some_iff.mp hs₁
    have hget : (s.procs.modify p fun P => { P with threadsVec := v }).get p =
        some { P with threadsVec := v } := by
      rw [Store.get_modify_self, hP, Option.map_some]
    rw [setProc_procs, hget, Option.bind_some, if_neg] at hr
    · rw [← Option.some.inj hr]
      exact .inr ⟨v, T, hv, hT, hkilled, Option.map_eq_some_iff.mpr ⟨V, hV, rfl⟩⟩
    · rw [TurboVector.size, hlen, hitems, List.length_append, List.length_singleton]
      omega

/-- Both threads of the init process exit before it is cleaned up: it lists the first one after
that was freed. -/
example : (exec (call 9) [.op (.createProc 0x4000 0 {}), .op (.createThread 0x4100 0 (some 0) {}),
    .op (.createProc 0x5000 0 {}), .op (.switchTask 0 {} {}), .op (.exitThread 0),
    .op (.switchTask 0 {} {}), .op (.exitThread 0), .op (.switchTask 0 {} {})] (start 1)).map
      (fun s => (s.initproc, (s.procs.get 0).map (·.threadsVec.items), s.threads.get 0)) =
    some (some 0, some [0], none) := by
  decide +kernel

/-- Cleaning up a process of which the last thread at most has exited. -/
lemma Upright.cleanProc (h : Upright i s P) (hvec : P.threadsVec.isInit = true)
    (hne : P.threadsVec.items ≠ [])
    (hfront : ∀ t ∈ P.threadsVec.items.dropLast, ∀ T, s.threads.get t = some T → T.state ≠ .killed)
    (hs : cleanProc fuel i s = some s') : ∃ P', Upright i s' P' ∧ P'.threadsVec.items ≠ [] := by
  obtain ⟨xs, t, hitems⟩ : ∃ xs t, P.threadsVec.items = xs ++ [t] := by
    obtain ⟨xs, t, heq⟩ := (List.eq_nil_or_concat P.threadsVec.items).resolve_left hne
    exact ⟨xs, t, by rw [heq, List.concat_eq_append]⟩
  rw [hitems, List.dropLast_concat] at hfront
  cases fuel with
  | zero => simp [Scheduler.cleanProc] at hs
  | succ fuel =>
    rw [Scheduler.cleanProc, h.get, Option.bind_some, if_neg (by simp [h.ready])] at hs
    obtain ⟨s₁, hs₁, hs⟩ := Option.bind_eq_some_iff.mp hs
    rcases releaseThreads_last h.get hvec hitems hfront hs₁ with heq |
      ⟨v, T, hv, hT, hkilled, hfree⟩
    · -- nothing was released
      rw [heq, h.get, Option.bind_some,
        if_neg (by rintro ⟨-, h₀⟩; exact hne (List.length_eq_zero_iff.mp h₀))] at hs
      rw [← Option.some.inj hs]
      exact ⟨P, h, hne⟩
    · obtain ⟨hsub, hlen⟩ := (remove_find_spec hne hv).2 hvec
      rw [hitems, List.dropLast_concat] at hsub
      obtain ⟨V, hV, rfl⟩ := Option.map_eq_some_iff.mp hfree
      have hget : (s.procs.modify i fun P => { P with threadsVec := v }).get i =
          some { P with threadsVec := v } := by
        rw [Store.get_modify_self, h.get, Option.map_some]
      have hxs : xs ≠ [] := by
        rintro rfl
        exact h.single t T hitems hT hkilled
      have hvne : v.items ≠ [] := by
        intro hnil
        rw [hnil, hitems, List.length_append, List.length_singleton] at hlen
        simp only [List.length_nil, Nat.add_sub_cancel] at hlen
        exact hxs (List.length_eq_zero_iff.mp hlen.symm)
      rw [setProc_procs, hget, Option.bind_some,
        if_neg (by rintro ⟨-, h₀⟩; exact hvne (List.length_eq_zero_iff.mp h₀))] at hs
      rw [← Option.some.inj hs]
      -- the thread that was freed is not among the entries that are left
      have hleft : ∀ u ∈ v.items, ∃ U, s.threads.get u = some U ∧ U.state ≠ .killed ∧
          (s.threads.free t).get u = some U := by
        intro u hu
        obtain ⟨U, hU⟩ := h.listed u (by rw [hitems]; exact List.mem_append_left _ (hsub u hu))
        have halive := hfront u (hsub u hu) U hU
        refine ⟨U, hU, halive, ?_⟩
        rw [Store.get_free, if_neg, hU]
        rintro rfl
        exact halive (by rw [Option.some.inj (hU.symm.trans hT), hkilled])
      refine ⟨{ P with threadsVec := v }, ⟨hget, h.ready, fun u hu => ?_, fun u U hu hU => ?_,
        fun _ _ => hvne⟩, hvne⟩
      · obtain ⟨U, -, -, hU⟩ := hleft u hu
        exact ⟨U, hU⟩
      · obtain ⟨U', -, halive, hU'⟩ := hleft u (by rw [show v.items = [u] from hu]; simp)
        rw [Option.some.inj (hU.symm.trans hU')]
        exact halive

/-- Cleaning up another process. -/
lemma Upright.cleaned (h : Upright i s P) (hl : Linked s) (hp : p ≠ i) (hs : Cleaned p s s') :
    Upright i s' P := by
  have hthreads : ∀ t ∈ P.threadsVec.items, s'.threads.get t = s.threads.get t := by
    intro t ht
    rcases hs.threads t with heq | ⟨-, Q, hQ, hmem⟩
    · exact heq
    · -- a thread has one parent
      obtain ⟨T, hT⟩ := h.listed t ht
      have h₁ := (hl.owned i P h.get t ht).2 T hT
      have h₂ := (hl.owned p Q hQ t hmem).2 T hT
      exact absurd (Option.some.inj (h₂.symm.trans h₁)) hp
  refine ⟨by rw [hs.procs i (Ne.symm hp)]; exact h.get, h.ready, fun t ht => ?_,
    fun t T ht hT => ?_, by rw [hs.cpus]; exact h.current⟩
  · rw [hthreads t ht]
    exact h.listed t ht
  · rw [hthreads t (by rw [ht]; simp)] at hT
    exact h.single t T ht hT

lemma Upright.swept (h : Upright i s P) (hl : Linked s) (hs : Swept s s') : Upright i s' P := by
  suffices Upright i s' P ∧ Linked s' from this.1
  induction hs with
  | refl => exact ⟨h, hl⟩
  | tail _ hstep ih =>
    obtain ⟨h₁, hl₁⟩ := ih
    obtain ⟨p, Q, hQ, hready, hclean⟩ := hstep
    have hp : p ≠ i := by
      rintro rfl
      rw [Option.some.inj (hQ.symm.trans h₁.get)] at hready
      exact hready h₁.ready
    exact ⟨h₁.cleaned hl₁ hp hclean, hl₁.shrunk hclean.shrunk⟩

/-! ## Changes of states -/

/-- A change that keeps the process; its only thread is not killed by it. -/
lemma Upright.keep (h : Upright i s P) (hget : s'.procs.get i = some P)
    (hthreads : ∀ t ∈ P.threadsVec.items, ∀ T, s.threads.get t = some T →
      ∃ T', s'.threads.get t = some T' ∧
        (T'.state = .killed → T.state = .killed ∨ P.threadsVec.items ≠ [t]))
    (hcur : ∀ c, (s'.cpus c).currentProcess = some i → P.threadsVec.items ≠ []) :
    Upright i s' P := by
  refine ⟨hget, h.ready, fun t ht => ?_, fun t T' ht hT' hkilled => ?_, hcur⟩
  · obtain ⟨T, hT⟩ := h.listed t ht
    obtain ⟨T', hT', -⟩ := hthreads t ht T hT
    exact ⟨T', hT'⟩
  · have hmem : t ∈ P.threadsVec.items := by
      rw [ht]
      exact List.mem_singleton_self t
    obtain ⟨T, hT⟩ := h.listed t hmem
    obtain ⟨T'', hT'', hstate⟩ := hthreads t hmem T hT
    obtain rfl := Option.some.inj (hT'.symm.trans hT'')
    rcases hstate hkilled with hk | hne
    · exact h.single t T ht hT hk
    · exact hne ht

lemma Upright.threadState {state : State} (h : Upright i s P)
    (hstate : state = .killed → P.threadsVec.items ≠ [t]) :
    Upright i (s.threadState t state) P := by
  refine h.keep h.get (fun u _ U hU => ?_) h.current
  refine ⟨_, Store.get_modify_of_eq_some _ hU, ?_⟩
  split
  · rename_i hu
    rw [hu]
    exact fun hk => .inr (hstate hk)
  · exact .inl

lemma Upright.procState {state : State} (h : Upright i s P) (hp : p ≠ i) :
    Upright i (s.procState p state) P :=
  h.keep (by rw [Sched.procState, setProc_procs, Store.get_modify_of_ne _ (Ne.symm hp), h.get])
    (fun _ _ U hU => ⟨U, hU, .inl⟩) h.current

lemma Upright.yield (h : Upright i s P) (c ms : ℕ) : Upright i (yield c ms s) P :=
  h.keep h.get (fun _ _ U hU => ⟨U, hU, .inl⟩) fun d hd =>
    h.current d (by rw [← (yield_cpus c ms d s).2.1]; exact hd)

lemma Upright.acts {s₀ : Sched} (h : Upright i s P) (hl : Linked s) (hinit : s.initproc = some i)
    (hspares : Spares s a) (ha : Acts s a s₀) : Upright i s₀ P := by
  cases ha with
  | skip => exact h
  | blockThread => exact h.threadState fun hk => absurd hk (by simp)
  | blockThreadOf => exact h.threadState fun hk => absurd hk (by simp)
  | threadUnblock => exact h.threadState fun hk => absurd hk (by simp)
  | @exitThread c p t Q T hp hQ hguard ht hT =>
    -- the guard of `exitThread` refuses to kill the only thread
    refine h.threadState fun _ hsingle => hguard ?_
    obtain ⟨-, q, hq, hown⟩ := hl.current c t ht
    have h₁ := hown T hT
    have h₂ := (hl.owned i P h.get t (by rw [hsingle]; exact List.mem_singleton_self t)).2 T hT
    have hqi : q = i := Option.some.inj (h₁.symm.trans h₂)
    have hpi : p = i := (Option.some.inj (hp.symm.trans hq)).trans hqi
    subst hpi
    obtain rfl := Option.some.inj (hQ.symm.trans h.get)
    refine ⟨hinit.symm, by rw [TurboVector.size, hsingle]; rfl, ?_⟩
    rw [TurboVector.size, (hl.childless p Q hQ).1]
    rfl
  | blockProc hc hne hP hstate =>
    exact h.procState fun hpi => hne (by rw [hpi, hinit])
  | blockProcOf hc hQ hstate hP =>
    exact h.procState fun hpi => hspares (by rw [hpi, hinit]) _ _ hc hQ hstate
  | procUnblock hP hstate =>
    refine h.procState fun hpi => ?_
    subst hpi
    rw [Option.some.inj (hP.symm.trans h.get), h.ready] at hstate
    simp at hstate
  | exitProc hc hne hP =>
    exact h.procState fun hpi => hne (by rw [hpi, hinit])

/-! ## Creating -/

lemma Upright.spawned {parent : Option ℕ} (h : Upright i s P) (hsp : Spawned s s' parent T)
    (hT : T.state = .ready) : ∃ P', Upright i s' P' := by
  have hold : ∀ u U, s.threads.get u = some U → s'.threads.get u = some U := by
    intro u U hU
    rw [hsp.threads u, if_neg (Store.lt_next hU).ne, hU]
  have hget := hsp.procs i
  by_cases hparent : parent = some i
  · rw [if_pos hparent, h.get, Option.map_some] at hget
    refine ⟨_, hget, h.ready, fun u hu => ?_, fun u U hu hU => ?_, fun d _ => ?_⟩
    · rcases List.mem_append.mp hu with hu | hu
      · obtain ⟨U, hU⟩ := h.listed u hu
        exact ⟨U, hold u U hU⟩
      · refine ⟨T, ?_⟩
        rw [hsp.threads u, if_pos (List.mem_singleton.mp hu)]
    · -- a single entry is the new thread
      have hlen := congrArg List.length hu
      simp only [TurboVector.pushBack, List.length_append, List.length_singleton] at hlen
      have hnil : P.threadsVec.items = [] := List.length_eq_zero_iff.mp (by omega)
      simp only [TurboVector.pushBack, hnil, List.nil_append, List.cons.injEq, and_true] at hu
      rw [hsp.threads u, if_pos hu.symm] at hU
      rw [← Option.some.inj hU, hT]
      simp
    · simp [TurboVector.pushBack]
  · rw [if_neg hparent, h.get] at hget
    exact ⟨P, h.keep hget (fun u _ U hU => ⟨U, hold u U hU, .inl⟩) fun d hd =>
      h.current d (by rw [← hsp.cpus]; exact hd)⟩

lemma Upright.born {Q : Process} (h : Upright i s P) (hb : Born addr args g s s' Q) :
    Upright i s' P := by
  refine h.keep ?_ (fun u _ U hU => ?_) fun d hd => h.current d (by rw [← hb.cpus]; exact hd)
  · rw [hb.procs, if_neg (Store.lt_next h.get).ne, h.get]
  · refine ⟨U, ?_, .inl⟩
    rcases hb.threads with ⟨-, -, heq⟩ | ⟨-, -, -, T, -, hget⟩
    · rw [heq, hU]
    · rw [hget u, if_neg (Store.lt_next hU).ne, hU]

/-- The first process. -/
lemma upright_new (hl : Linked s) (hb : Born addr args g s s' P) (hready : P.state = .ready) :
    Upright s.procs.next s' P := by
  have hcur : ∀ d, (s'.cpus d).currentProcess ≠ some s.procs.next := by
    intro d hd
    rw [hb.cpus] at hd
    exact absurd (hl.process d _ hd) (lt_irrefl _)
  refine ⟨by rw [hb.procs, if_pos rfl], hready, fun u hu => ?_, fun u U hu hU => ?_,
    fun d hd => absurd hd (hcur d)⟩
  · rcases hb.threads with ⟨-, hnil, -⟩ | ⟨-, hone, -, T, -, hget⟩
    · rw [hnil] at hu
      exact absurd hu List.not_mem_nil
    · rw [hone] at hu
      exact ⟨T, by rw [hget u, if_pos (List.mem_singleton.mp hu)]⟩
  · rcases hb.threads with ⟨-, hnil, -⟩ | ⟨-, hone, -, T, hT, hget⟩
    · rw [hnil] at hu
      exact absurd hu (by simp)
    · rw [hone] at hu
      rw [hget u, if_pos (List.singleton_inj.mp hu).symm] at hU
      rw [← Option.some.inj hU, hT.state]
      simp

/-! ## Switching -/

/-- Saving the registers kills no thread. -/
lemma saved_thread (c : ℕ) (regs : Regs) {u : ℕ} {U : Thread} (hU : s.threads.get u = some U) :
    ∃ U', (saved c regs s).threads.get u = some U' ∧ (U'.state = .killed → U.state = .killed) := by
  rw [saved]
  split
  · refine ⟨_, Store.get_modify_of_eq_some _ hU, ?_⟩
    split
    · dsimp only
      split
      · simp
      · exact id
    · exact id
  · exact ⟨U, hU, id⟩

lemma Upright.saved (h : Upright i s P) : Upright i (saved c regs s) P := by
  refine h.keep (by rw [saved_procs, h.get]) (fun u _ U hU => ?_)
    (by rw [saved_cpus]; exact h.current)
  obtain ⟨U', hU', hk⟩ := saved_thread c regs hU
  exact ⟨U', hU', fun hkilled => .inl (hk hkilled)⟩

lemma Upright.tidied (h : Upright i s P) (hl : Linked s) (hinit : s.initproc = some i)
    (hspares : Spares s (.op (.switchTask c regs g))) (hs : Tidied c regs s s₁) :
    ∃ P', Upright i s₁ P' ∧ (P.threadsVec.items ≠ [] → P'.threadsVec.items ≠ []) := by
  rcases hs with ⟨p, fuel, hcur, hcleaned, hclean⟩ | hswept
  · by_cases hp : p = i
    · subst hp
      have hne := h.current c hcur
      have hfront : ∀ t ∈ P.threadsVec.items.dropLast, ∀ T',
          (Scheduler.saved c regs s).threads.get t = some T' → T'.state ≠ .killed := by
        intro t ht T' hT' hk
        obtain ⟨T, hT⟩ := h.listed t (List.dropLast_subset _ ht)
        obtain ⟨T'', hT'', hkilled⟩ := saved_thread c regs hT
        obtain rfl := Option.some.inj (hT'.symm.trans hT'')
        exact hspares p P hinit hcleaned h.get t ht T hT (hkilled hk)
      obtain ⟨P', hP', hne'⟩ := h.saved.cleanProc (hl.vector p P h.get hne) hne hfront hclean
      exact ⟨P', hP', fun _ => hne'⟩
    · exact ⟨P, h.saved.cleaned hl.saved hp (cleanProc_cleaned hl.saved.childless hclean), id⟩
  · exact ⟨P, h.saved.swept hl.saved hswept, id⟩

lemma Upright.dispatched (h : Upright i s P) (hd : Dispatched c p t s s' T)
    (hp : p = i → P.threadsVec.items ≠ []) : Upright i s' P := by
  refine h.keep (by rw [hd.procs, h.get]) (fun u _ U hU => ?_) fun d hcur => ?_
  · rw [hd.threads u]
    split
    · exact ⟨_, rfl, fun hk => absurd hk (by simp)⟩
    · exact ⟨U, hU, .inl⟩
  · rcases hd.currentProcess_cases hcur with ⟨-, heq⟩ | ⟨-, hcur⟩
    · exact hp heq.symm
    · exact h.current d hcur

/-- The idle process of the processor, old or new. -/
lemma Upright.idleProcess {r : ℕ × Sched} (h : Upright i s P) (hr : idleProcess g c s = some r) :
    Upright i r.2 P := by
  rcases idleProcess_cases hr with ⟨-, heq⟩ | ⟨-, -, s₁, Q, -, hb, -, heq⟩
  · rw [heq]
    exact h
  · rw [heq]
    refine (h.born hb).keep (h.born hb).get (fun u _ U hU => ⟨U, hU, .inl⟩) fun d hd => ?_
    refine (h.born hb).current d ?_
    by_cases hdc : d = c
    · rw [hdc] at hd ⊢
      simpa using hd
    · simpa [hdc] using hd

lemma Upright.continues (h : Upright i s P) (hl : Linked s) (hinit : s.initproc = some i)
    (hisInit : s.isInit = true) (hspares : Spares s (.op (.switchTask c regs g)))
    (hs : Continues g c regs s (regs', s')) : ∃ P', Upright i s' P' := by
  obtain ⟨s₁, htidied, hs⟩ := hs
  have hshrunk := htidied.shrunk hl.childless
  have hl₁ : Linked s₁ := hl.saved.shrunk hshrunk
  obtain ⟨P₁, h₁, hne⟩ := h.tidied hl hinit hspares htidied
  rcases hs with ⟨p, t, hpicked, hd⟩ | ⟨r, I, t, hr, hI, ht, hd⟩
  · obtain ⟨T, -, hd⟩ := dispatch_eq hd
    refine ⟨P₁, h₁.dispatched hd fun hp => hne ?_⟩
    obtain ⟨Q, hQ, hmem⟩ := hpicked.process
    rw [saved_procs, hp] at hQ
    rw [Option.some.inj (h.get.symm.trans hQ)]
    exact List.ne_nil_of_mem hmem
  · -- the idle process is not listed, so it is another one
    obtain ⟨hl₂, hidle, hinit₂⟩ := hl₁.idleProcess
      (by rw [hshrunk.isInit, saved_isInit, hisInit]) hr
    obtain ⟨T, -, hd⟩ := dispatch_eq hd
    refine ⟨P₁, (h₁.idleProcess hr).dispatched hd fun hp => ?_⟩
    have hmem := hl₂.init i (by rw [hinit₂, hshrunk.initproc, saved_initproc, hinit])
    rw [← hp] at hmem
    exact absurd hidle ((hl₂.table _ hmem).2 c)

lemma Continues.initproc (hs : Continues g c regs s (regs', s')) (hl : Linked s)
    (hisInit : s.isInit = true) : s'.initproc = s.initproc := by
  obtain ⟨s₁, htidied, hs⟩ := hs
  have hshrunk := htidied.shrunk hl.childless
  have h₁ : s₁.initproc = s.initproc := by rw [hshrunk.initproc, saved_initproc]
  rcases hs with ⟨p, t, -, hd⟩ | ⟨r, I, t, hr, -, -, hd⟩
  · rw [(dispatch_init hd).1, h₁]
  · obtain ⟨-, -, hinit⟩ := (hl.saved.shrunk hshrunk).idleProcess
      (by rw [hshrunk.isInit, saved_isInit, hisInit]) hr
    rw [(dispatch_init hd).1, hinit, h₁]

lemma Acts.initproc {s₀ : Sched} (ha : Acts s a s₀) : s₀.initproc = s.initproc := by
  cases ha <;> rfl

/-! ## Runs -/

/-- The invariant of runs under the condition. -/
structure Guarded (s : Sched) : Prop where
  linked : Linked s
  init : ∀ i, s.initproc = some i → ∃ P, Upright i s P

lemma start_guarded (idle : ℕ+) : Guarded (start idle) :=
  ⟨start_linked idle, fun _ hi => absurd hi (by simp [start])⟩

lemma Guarded.protected (h : Guarded s) : Protected s := by
  intro i hi
  obtain ⟨P, hP⟩ := h.init i hi
  refine ⟨P, hP.get, by simp [hP.ready], by simp [hP.ready], fun t ht => ?_⟩
  obtain ⟨T, hT⟩ := hP.listed t ht
  rw [hT]
  rfl

/-- A call under the condition. -/
lemma Guarded.call (h : Guarded s) (hspares : Spares s a) (hs : call fuel a s = some s') :
    Guarded s' := by
  refine ⟨h.linked.call hs, fun i hi => ?_⟩
  cases did_of_call hs with
  | createProc hcreate =>
    obtain ⟨rfl, -, P, hready, hb⟩ := createProc_born hcreate
    have hinit := (createProc_init hcreate).1
    rw [hinit] at hi
    split at hi
    · obtain ⟨Q, hQ⟩ := h.init i hi
      exact ⟨Q, hQ.born hb⟩
    · obtain rfl := Option.some.inj hi
      exact ⟨P, upright_new h.linked hb hready⟩
  | createThread hcreate =>
    obtain ⟨-, T, hT, hsp⟩ := createThread_spawned hcreate
    rw [(createThread_init hcreate).1] at hi
    obtain ⟨P, hP⟩ := h.init i hi
    exact hP.spawned hsp hT.state
  | switchTask hswitch =>
    rcases switchTask_steps h.linked.childless (h.linked.paired _) hswitch with
      ⟨-, rfl⟩ | ⟨hisInit, hs⟩
    · exact h.init i hi
    · have hinit : s.initproc = some i := by
        rw [← hs.initproc h.linked hisInit, hi]
      obtain ⟨P, hP⟩ := h.init i hinit
      exact hP.continues h.linked hinit hisInit hspares hs
  | @acts _ s₀ ha hs =>
    have hinit : s.initproc = some i := by
      rw [← ha.initproc]
      rcases hs with rfl | ⟨c, rfl⟩ <;> exact hi
    obtain ⟨P, hP⟩ := h.init i hinit
    have hP₀ := hP.acts h.linked hinit hspares ha
    rcases hs with rfl | ⟨c, rfl⟩
    · exact ⟨P, hP₀⟩
    · exact ⟨P, hP₀.yield c 1⟩

/-- **The init process is protected.**  In a run in which every call meets the condition,
`initproc` is never blocked, killed or freed, and the threads that it lists exist. -/
theorem init_protected {idle : ℕ+} {calls : List Call}
    (h : Along (call fuel) Spares calls (start idle)) :
    Always (call fuel) Protected calls (start idle) :=
  h.always (fun _ _ _ hs hspares hcall => hs.call hspares hcall) (fun _ hs => hs.protected)
    (start_guarded idle)

/-- The init process has two threads; the second one exits, and the processor leaves the process,
which cleans it up. -/
def leaveCalls : List Call :=
  [.op (.createProc 0x4000 0 {}), .op (.createThread 0x4100 0 (some 0) {}),
    .op (.createProc 0x5000 0 {}), .op (.switchTask 0 {} {}), .op (.switchTask 0 {} {}),
    .op (.exitThread 0), .op (.switchTask 0 {} {})]

/-- The first thread is left. -/
theorem init_protected_leave :
    ∃ s, exec (call 9) leaveCalls (start 1) = some s ∧ s.initproc = some 0 ∧
      (s.procs.get 0).map (fun P => (P.state, P.threadsVec.items)) = some (.ready, [0]) ∧
      Protected s := by
  have hspares : Along (call 9) Spares leaveCalls (start 1) := by
    have hcheck : Along (call 9) (fun s a =>
        (match a with
          | .op (.switchTask _ _ _) => s.initproc.all fun i => (s.procs.get i).all fun P =>
              P.threadsVec.items.dropLast.all fun t => (s.threads.get t).all fun T =>
                decide (T.state ≠ .killed)
          | .op _ => true
          | _ => false) = true) leaveCalls (start 1) := by
      decide +kernel
    refine hcheck.mono fun s a ha => ?_
    cases a with
    | op o =>
      cases o with
      | switchTask c regs g =>
        intro i P hi _ hP t ht T hT
        simp only [hi, Option.all_some, hP, List.all_eq_true] at ha
        have halive := ha t ht
        rw [hT, Option.all_some] at halive
        exact of_decide_eq_true halive
      | _ => trivial
    | _ => simp at ha
  have hrun : (exec (call 9) leaveCalls (start 1)).map (fun s => (s.initproc,
      (s.procs.get 0).map (fun P => (P.state, P.threadsVec.items)))) =
      some (some 0, some (.ready, [0])) := by
    decide +kernel
  obtain ⟨s, hs, heq⟩ := Option.map_eq_some_iff.mp hrun
  obtain ⟨hinit, hproc⟩ := Prod.mk.inj heq
  exact ⟨s, hs, hinit, hproc, (init_protected hspares).exec hs⟩

/-- A thread of another process blocks the init process. -/
theorem init_gets_blocked :
    ∃ s, exec (call 9) [.op (.createProc 0x4000 0 {}), .op (.createProc 0x5000 0 {}),
        .op (.switchTask 0 {} {}), .op (.switchTask 0 {} {}), .blockProcOf 0 0] (start 1) = some s ∧
      s.initproc = some 0 ∧ (s.procs.get 0).map (·.state) = some .blocked ∧ ¬ Protected s := by
  have hrun : (exec (call 9) [.op (.createProc 0x4000 0 {}), .op (.createProc 0x5000 0 {}),
      .op (.switchTask 0 {} {}), .op (.switchTask 0 {} {}), .blockProcOf 0 0] (start 1)).map
      (fun s => (s.initproc, (s.procs.get 0).map (·.state))) = some (some 0, some .blocked) := by
    decide +kernel
  obtain ⟨s, hs, heq⟩ := Option.map_eq_some_iff.mp hrun
  obtain ⟨hinit, hstate⟩ := Prod.mk.inj heq
  refine ⟨s, hs, hinit, hstate, fun hprotected => ?_⟩
  obtain ⟨P, hP, hblocked, -⟩ := hprotected 0 hinit
  rw [hP] at hstate
  exact hblocked (Option.some.inj hstate)

end TurbOS.Scheduler
