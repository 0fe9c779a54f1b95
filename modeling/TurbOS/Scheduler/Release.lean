import TurbOS.Scheduler.Calls

/-!
# What `clean_proc` releases

`clean_proc` takes every thread that it frees out of the vector it is going through.  Since
`find` returns `0` and `remove` drops the last element, the thread that leaves the vector is not
the one that is freed, unless the two agree.

To count, `clean_proc` is run once more with what it hands to `free` and with the counters
`thread_count` and `proc_count`; apart from these it is the function of the model
(`Counted.cleanProc_sched`).
-/

open Fuel

namespace TurbOS.Scheduler

/-- The state of the scheduler with its counters and with what was freed: the threads, each with
its stack, and the processes, as they were when they were freed. -/
structure Books where
  sched : Sched
  thread_count : BitVec 64
  proc_count : BitVec 64
  threads : List (ℕ × Thread) := []
  procs : List (ℕ × Process) := []

/-- Nothing was freed yet. -/
def Books.blank (s : Sched) (thread_count proc_count : BitVec 64) : Books :=
  { sched := s, thread_count := thread_count, proc_count := proc_count }

namespace Counted

/-! ## Cleaning with books -/

/-- Change a process. -/
def setProc (b : Books) (p : ℕ) (f : Process → Process) : Books :=
  { b with sched := b.sched.setProc p f }

/-- `free(thread->thread_stack); free(thread); thread_count--;`. -/
def freeThread (t : ℕ) (b : Books) : Option Books :=
  (b.sched.threads.get t).map fun T =>
    { b with
      sched := { b.sched with threads := b.sched.threads.free t }
      thread_count := b.thread_count - 1
      threads := b.threads ++ [(t, T)] }

/-- `free(proc->pagemap); free(proc); proc_count--;`. -/
def freeProc (p : ℕ) (b : Books) : Option Books :=
  (b.sched.procs.get p).map fun P =>
    { b with
      sched := { b.sched with procs := b.sched.procs.free p }
      proc_count := b.proc_count - 1
      procs := b.procs ++ [(p, P)] }

/-- One round of the loops over the threads; the second component is the index. -/
def releaseRound (sel : Thread → Bool) (p : ℕ) (c : Books × ℕ) : Option ((Books × ℕ) ⊕ Books) :=
  (c.1.sched.procs.get p).bind fun P =>
    if c.2 < P.threadsVec.size then
      P.threadsVec.items[c.2]?.bind fun t =>
        (c.1.sched.threads.get t).bind fun T =>
          if sel T then
            (P.threadsVec.remove (P.threadsVec.find t)).bind fun v =>
              (freeThread t (setProc c.1 p fun P => { P with threadsVec := v })).map fun b =>
                .inl (b, c.2 + 1)
          else some (.inl (c.1, c.2 + 1))
    else some (.inr c.1)

/-- The loops of `clean_proc` over the threads of a process. -/
def releaseThreads (sel : Thread → Bool) (fuel p : ℕ) (b : Books) : Option Books :=
  loop (releaseRound sel p) fuel (b, 0)

/-- One round of the loop over the children. -/
def killRound (clean : ℕ → Books → Option Books) (p : ℕ) (c : Books × ℕ) :
    Option ((Books × ℕ) ⊕ Books) :=
  (c.1.sched.procs.get p).bind fun P =>
    if c.2 < P.children.size then
      P.children.items[c.2]?.bind fun child =>
        (c.1.sched.procs.get child).bind fun _ =>
          (clean child (setProc c.1 child fun P => { P with state := .killed })).map fun b =>
            .inl (b, c.2 + 1)
    else some (.inr c.1)

/-- The loop of `clean_proc` over the children of a process. -/
def killChildren (clean : ℕ → Books → Option Books) (fuel p : ℕ) (b : Books) : Option Books :=
  loop (killRound clean p) fuel (b, 0)

/-- The part of `clean_proc` that tells the parent of a killed process. -/
def leaveParent (clean : ℕ → Books → Option Books) (p : ℕ) (b : Books) : Option Books :=
  (b.sched.procs.get p).bind fun P =>
    match P.parent with
    | none => some b
    | some q =>
      (b.sched.procs.get q).bind fun Q =>
        (Q.children.remove (Q.children.find p)).bind fun v =>
          let b := setProc b q fun Q => { Q with children := v }
          if v.size = 0 ∧ P.threadsVec.size = 0 then
            clean q (setProc b q fun Q => { Q with state := .killed })
          else some b

/-- `clean_proc`, for a pointer that is not null. -/
def cleanProc : ℕ → ℕ → Books → Option Books
  | 0, _, _ => none
  | fuel + 1, p, b =>
    (b.sched.procs.get p).bind fun P =>
      if P.state = .killed then
        (killChildren (cleanProc fuel) fuel p b).bind fun b =>
          (releaseThreads (fun _ => true) fuel p b).bind fun b =>
            (leaveParent (cleanProc fuel) p b).bind fun b => freeProc p b
      else
        (releaseThreads (fun T => T.state = .killed) fuel p b).bind fun b =>
          (b.sched.procs.get p).bind fun P =>
            if P.children.size = 0 ∧ P.threadsVec.size = 0 then
              cleanProc fuel p (setProc b p fun P => { P with state := .killed })
            else some b

variable {b b' b₁ : Books} {p t fuel : ℕ} {P : Process} {sel : Thread → Bool}

lemma freeThread_sched (t : ℕ) (b : Books) :
    (freeThread t b).map Books.sched = Scheduler.freeThread t b.sched := by
  rw [freeThread, Scheduler.freeThread, Option.map_map]
  rfl

lemma freeProc_sched (p : ℕ) (b : Books) :
    (freeProc p b).map Books.sched = Scheduler.freeProc p b.sched := by
  rw [freeProc, Scheduler.freeProc, Option.map_map]
  rfl

lemma releaseThreads_sched (sel : Thread → Bool) (fuel p : ℕ) (b : Books) :
    (releaseThreads sel fuel p b).map Books.sched =
      Scheduler.releaseThreads sel fuel p b.sched := by
  refine loop_map (f := fun c : Books × ℕ => (c.1.sched, c.2)) ?_ fuel (b, 0)
  rintro ⟨b, i⟩
  refine map_bind_congr fun P => ?_
  dsimp only
  split
  · refine map_bind_congr fun t => map_bind_congr fun T => ?_
    split
    · refine map_bind_congr fun v => ?_
      show _ = Option.map _ (Scheduler.freeThread t (setProc b p _).sched)
      rw [← freeThread_sched, Option.map_map, Option.map_map]
      rfl
    · rfl
  · rfl

lemma killChildren_sched {clean : ℕ → Books → Option Books}
    {clean' : ℕ → Sched → Option Sched}
    (hclean : ∀ q b, (clean q b).map Books.sched = clean' q b.sched) (fuel p : ℕ) (b : Books) :
    (killChildren clean fuel p b).map Books.sched =
      Scheduler.killChildren clean' fuel p b.sched := by
  refine loop_map (f := fun c : Books × ℕ => (c.1.sched, c.2)) ?_ fuel (b, 0)
  rintro ⟨b, i⟩
  refine map_bind_congr fun P => ?_
  dsimp only
  split
  · refine map_bind_congr fun child => map_bind_congr fun _ => ?_
    show _ = Option.map _ (clean' child (setProc b child _).sched)
    rw [← hclean, Option.map_map, Option.map_map]
    rfl
  · rfl

lemma leaveParent_sched {clean : ℕ → Books → Option Books} {clean' : ℕ → Sched → Option Sched}
    (hclean : ∀ q b, (clean q b).map Books.sched = clean' q b.sched) (p : ℕ) (b : Books) :
    (leaveParent clean p b).map Books.sched = Scheduler.leaveParent clean' p b.sched := by
  refine map_bind_congr fun P => ?_
  cases P.parent with
  | none => rfl
  | some q =>
    refine map_bind_congr fun Q => map_bind_congr fun v => ?_
    dsimp only
    split
    · exact hclean q _
    · rfl

/-- Apart from the books, the functions of this section are those of the model. -/
lemma cleanProc_sched (fuel p : ℕ) (b : Books) :
    (cleanProc fuel p b).map Books.sched = Scheduler.cleanProc fuel p b.sched := by
  induction fuel generalizing p b with
  | zero => rfl
  | succ fuel ih =>
    refine map_bind_congr fun P => ?_
    split
    · refine map_bind_eq (killChildren_sched ih fuel p b) fun b₁ => ?_
      refine map_bind_eq (releaseThreads_sched _ fuel p b₁) fun b₂ => ?_
      exact map_bind_eq (leaveParent_sched ih p b₂) fun b₃ => freeProc_sched p b₃
    · refine map_bind_eq (releaseThreads_sched _ fuel p b) fun b₁ => map_bind_congr fun Q => ?_
      split
      · exact ih p _
      · rfl

/-! ## The rounds of the loop -/

/-- The thread `t` was freed, and the process was left with the vector `v`. -/
def taken (p t : ℕ) (T : Thread) (v : TurboVector ℕ) (b : Books) : Books :=
  let b := setProc b p fun P => { P with threadsVec := v }
  { b with
    sched := { b.sched with threads := b.sched.threads.free t }
    thread_count := b.thread_count - 1
    threads := b.threads ++ [(t, T)] }

lemma taken_get {T : Thread} (v : TurboVector ℕ) (hP : b.sched.procs.get p = some P) :
    (taken p t T v b).sched.procs.get p = some { P with threadsVec := v } := by
  show (b.sched.procs.modify p _).get p = _
  rw [Store.get_modify_self, hP]
  rfl

/-- `sel` selects the thread `t`. -/
def selected (sel : Thread → Bool) (s : Sched) (t : ℕ) : Bool := (s.threads.get t).any sel

lemma selected_eq (sel : Thread → Bool) {T : Thread} (hT : b.sched.threads.get t = some T) :
    selected sel b.sched t = sel T := by
  rw [selected, hT, Option.any_some]

lemma releaseRound_end {i : ℕ} (hP : b.sched.procs.get p = some P) (hi : P.threadsVec.size ≤ i) :
    releaseRound sel p (b, i) = some (.inr b) := by
  rw [releaseRound, hP, Option.bind_some, if_neg (by dsimp only; omega)]

lemma releaseRound_skip {T : Thread} {i : ℕ} (hP : b.sched.procs.get p = some P)
    (ht : P.threadsVec.items[i]? = some t) (hT : b.sched.threads.get t = some T)
    (hsel : sel T = false) : releaseRound sel p (b, i) = some (.inl (b, i + 1)) := by
  have hi : i < P.threadsVec.size := (List.getElem?_eq_some_iff.mp ht).1
  rw [releaseRound, hP, Option.bind_some, if_pos hi, ht, Option.bind_some, hT, Option.bind_some,
    if_neg (by rw [hsel]; simp)]

lemma releaseRound_take {T : Thread} {i : ℕ} (hP : b.sched.procs.get p = some P)
    (ht : P.threadsVec.items[i]? = some t) (hT : b.sched.threads.get t = some T)
    (hsel : sel T = true) : releaseRound sel p (b, i) =
      (P.threadsVec.remove (P.threadsVec.find t)).map fun v => .inl (taken p t T v b, i + 1) := by
  have hi : i < P.threadsVec.size := (List.getElem?_eq_some_iff.mp ht).1
  rw [releaseRound, hP, Option.bind_some, if_pos hi, ht, Option.bind_some, hT, Option.bind_some,
    if_pos hsel, Option.map_eq_bind]
  refine Option.bind_congr fun v _ => ?_
  rw [freeThread]
  show Option.map _ (Option.map _ (b.sched.threads.get t)) = _
  rw [hT]
  rfl

/-- What a round may do. -/
lemma releaseRound_cases {c : Books × ℕ} {r : (Books × ℕ) ⊕ Books}
    (h : releaseRound sel p c = some r) : ∃ P, c.1.sched.procs.get p = some P ∧
      ((P.threadsVec.size ≤ c.2 ∧ r = .inr c.1) ∨ ∃ t T, P.threadsVec.items[c.2]? = some t ∧
        c.1.sched.threads.get t = some T ∧ ((sel T = false ∧ r = .inl (c.1, c.2 + 1)) ∨
          (sel T = true ∧ ∃ v, P.threadsVec.remove (P.threadsVec.find t) = some v ∧
            r = .inl (taken p t T v c.1, c.2 + 1)))) := by
  obtain ⟨b, i⟩ := c
  obtain ⟨P, hP, h'⟩ := Option.bind_eq_some_iff.mp h
  refine ⟨P, hP, ?_⟩
  split at h'
  · obtain ⟨t, ht, h'⟩ := Option.bind_eq_some_iff.mp h'
    obtain ⟨T, hT, -⟩ := Option.bind_eq_some_iff.mp h'
    refine .inr ⟨t, T, ht, hT, ?_⟩
    cases hsel : sel T with
    | false =>
      rw [releaseRound_skip hP ht hT hsel] at h
      exact .inl ⟨rfl, (Option.some.inj h).symm⟩
    | true =>
      rw [releaseRound_take hP ht hT hsel] at h
      obtain ⟨v, hv, rfl⟩ := Option.map_eq_some_iff.mp h
      exact .inr ⟨rfl, v, hv, rfl⟩
  · rename_i hi
    exact .inl ⟨by simpa using hi, (Option.some.inj h').symm⟩

/-- The loop passes the threads that are not selected. -/
lemma loop_skip (hP : b.sched.procs.get p = some P)
    (hlive : ∀ t ∈ P.threadsVec.items, (b.sched.threads.get t).isSome) {i : ℕ}
    (hi : i ≤ P.threadsVec.size)
    (hfront : ∀ t ∈ P.threadsVec.items.take i, selected sel b.sched t = false) (fuel : ℕ) :
    loop (releaseRound sel p) (fuel + i) (b, 0) = loop (releaseRound sel p) fuel (b, i) := by
  induction i generalizing fuel with
  | zero => rfl
  | succ i ih =>
    have hget : P.threadsVec.items[i]? = some P.threadsVec.items[i] := List.getElem?_eq_getElem hi
    obtain ⟨T, hT⟩ := Option.isSome_iff_exists.mp (hlive _ (List.mem_of_getElem? hget))
    have hsel : sel T = false := by
      rw [← selected_eq sel hT]
      exact hfront _ (List.mem_take_iff_getElem.mpr ⟨i, by rw [TurboVector.size] at hi; omega, rfl⟩)
    have hfront' : ∀ t ∈ P.threadsVec.items.take i, selected sel b.sched t = false :=
      fun t ht => hfront t (List.take_subset_take_left _ (by omega) ht)
    rw [show fuel + (i + 1) = fuel + 1 + i by omega, ih (by omega) hfront' (fuel + 1), loop_succ,
      releaseRound_skip hP hget hT hsel]
    rfl

/-! ## When the loop releases what it should -/

/-- Every thread of `gone` was freed once, with the stack it had; the vector of the process, which
may have been freed itself, lists `kept` and the other threads are as they were. -/
structure Releases (p : ℕ) (gone kept : List ℕ) (b b' : Books) : Prop where
  freed : (b'.threads.map Prod.fst).Perm gone
  stack : ∀ e ∈ b'.threads, b.sched.threads.get e.1 = some e.2
  others : ∀ t ∉ gone, b'.sched.threads.get t = b.sched.threads.get t
  listed : ∃ Q, (b'.sched.procs.get p = some Q ∨ (p, Q) ∈ b'.procs) ∧ Q.threadsVec.items = kept
  thread_count : b'.thread_count = b.thread_count - BitVec.ofNat 64 gone.length

/-- No thread in front of the last one is selected, and none at all if there are more than two. -/
def Fits (sel : Thread → Bool) (s : Sched) (ts : List ℕ) : Prop :=
  (∀ t ∈ ts.dropLast, selected sel s t = false) ∧
    (2 < ts.length → ∀ t ∈ ts, selected sel s t = false)

lemma remove_short {v : TurboVector ℕ} (hinit : v.isInit = true) (hne : v.items ≠ [])
    (hshort : v.size ≤ 2) :
    v.remove (v.find t) = some { v with items := v.items.dropLast } := by
  have hsize : v.size ≠ 0 := fun h => hne (List.length_eq_zero_iff.mp h)
  have hrounds : v.size - 2 = 0 := by omega
  rw [TurboVector.find_eq, if_neg hne, TurboVector.remove, if_pos hinit, if_neg hsize, hrounds,
    TurboVector.shift, Option.map_some, List.dropLast_eq_take]
  rfl

/-- The process after the loop; nothing was noted about processes. -/
structure Looped (p : ℕ) (P : Process) (kept : List ℕ) (b b' : Books) : Prop where
  proc : ∃ v : TurboVector ℕ, b'.sched.procs.get p = some { P with threadsVec := v } ∧
    v.items = kept
  procs : b'.procs = b.procs
  proc_count : b'.proc_count = b.proc_count

lemma Fits.cases {s : Sched} {ts : List ℕ} (h : Fits sel s ts) :
    (∀ t ∈ ts, selected sel s t = false) ∨ ∃ us t, ts = us ++ [t] ∧ us.length ≤ 1 ∧
      (∀ u ∈ us, selected sel s u = false) ∧ selected sel s t = true := by
  obtain ⟨hfront, hmany⟩ := h
  by_cases hall : ∀ t ∈ ts, selected sel s t = false
  · exact .inl hall
  have hne : ts ≠ [] := by
    rintro rfl
    simp at hall
  refine .inr ⟨ts.dropLast, ts.getLast hne, (List.dropLast_append_getLast hne).symm, ?_, hfront, ?_⟩
  · rw [List.length_dropLast]
    by_contra hlong
    exact hall (hmany (by omega))
  · by_contra hnot
    refine hall fun t ht => ?_
    rw [← List.dropLast_append_getLast hne] at ht
    rcases List.mem_append.mp ht with ht | ht
    · exact hfront t ht
    · rw [List.mem_singleton.mp ht]
      simpa using hnot

/-- No thread is selected. -/
lemma releaseThreads_none (hP : b.sched.procs.get p = some P)
    (hlive : ∀ t ∈ P.threadsVec.items, (b.sched.threads.get t).isSome)
    (hall : ∀ t ∈ P.threadsVec.items, selected sel b.sched t = false) :
    releaseThreads sel (P.threadsVec.size + 1) p b = some b := by
  rw [releaseThreads, add_comm, loop_skip hP hlive le_rfl
    (fun t ht => hall t (List.mem_of_mem_take ht)), loop_succ, releaseRound_end hP le_rfl]
  rfl

lemma releaseThreads_nil (hP : b.sched.procs.get p = some P) (hempty : P.threadsVec.items = []) :
    releaseThreads sel (fuel + 1) p b = some b := by
  have hsize : P.threadsVec.size ≤ 0 := by rw [TurboVector.size, hempty, List.length_nil]
  rw [releaseThreads, loop_succ, releaseRound_end hP hsize]
  rfl

/-- The last thread is selected, and no other one. -/
lemma releaseThreads_last {us : List ℕ} {T : Thread} (hP : b.sched.procs.get p = some P)
    (hinit : P.threadsVec.isInit = true)
    (hlive : ∀ t ∈ P.threadsVec.items, (b.sched.threads.get t).isSome)
    (hitems : P.threadsVec.items = us ++ [t]) (hshort : us.length ≤ 1)
    (hfront : ∀ u ∈ us, selected sel b.sched u = false) (hT : b.sched.threads.get t = some T)
    (hsel : sel T = true) : releaseThreads sel (P.threadsVec.size + 1) p b =
      some (taken p t T { P.threadsVec with items := us } b) := by
  have hne : P.threadsVec.items ≠ [] := by
    rw [hitems]
    simp
  have hsize : P.threadsVec.size = us.length + 1 := by
    rw [TurboVector.size, hitems, List.length_append, List.length_singleton]
  have hdrop : P.threadsVec.items.dropLast = us := by rw [hitems, List.dropLast_concat]
  have htake : P.threadsVec.items.take us.length = us := by rw [hitems, List.take_left]
  have hget : P.threadsVec.items[us.length]? = some t := by
    rw [hitems, List.getElem?_concat_length]
  have hproc := taken_get (t := t) (T := T) { P.threadsVec with items := us } hP
  have hend : TurboVector.size { P.threadsVec with items := us } ≤ us.length + 1 := by
    show us.length ≤ _
    omega
  rw [releaseThreads, show P.threadsVec.size + 1 = 2 + us.length by omega,
    loop_skip hP hlive (by omega) (by rw [htake]; exact hfront), loop_succ,
    releaseRound_take hP hget hT hsel, remove_short hinit hne (by omega), hdrop,
    Option.map_some, Option.bind_some, Sum.elim_inl, loop_succ, releaseRound_end hproc hend]
  rfl

/-- Nothing was released. -/
lemma releases_none (hP : b.sched.procs.get p = some P) (hnone : b.threads = []) :
    Releases p [] P.threadsVec.items b b := by
  constructor
  · rw [hnone, List.map_nil]
  · rw [hnone]
    intro e he
    simp at he
  · intro t _
    rfl
  · exact ⟨P, .inl hP, rfl⟩
  · simp

/-- One thread was released. -/
lemma releases_taken {T : Thread} (v : TurboVector ℕ) (hP : b.sched.procs.get p = some P)
    (hnone : b.threads = []) (hT : b.sched.threads.get t = some T) :
    Releases p [t] v.items b (taken p t T v b) := by
  constructor
  · show ((b.threads ++ [(t, T)]).map Prod.fst).Perm [t]
    rw [hnone]
    exact .rfl
  · show ∀ e ∈ b.threads ++ [(t, T)], _
    rw [hnone]
    intro e he
    rw [List.nil_append, List.mem_singleton] at he
    rw [he, hT]
  · intro u hu
    show (b.sched.threads.free t).get u = _
    rw [Store.get_free, if_neg (by simpa using hu)]
  · exact ⟨_, .inl (taken_get v hP), rfl⟩
  · rfl

lemma filter_front {s : Sched} {us : List ℕ} (hfront : ∀ u ∈ us, selected sel s u = false) :
    us.filter (selected sel s) = [] ∧ (us.filter fun t => !selected sel s t) = us := by
  constructor
  · exact List.filter_eq_nil_iff.mpr fun u hu => by simp [hfront u hu]
  · exact List.filter_eq_self.mpr fun u hu => by simp [hfront u hu]

lemma releaseThreads_fits (hP : b.sched.procs.get p = some P)
    (hinit : P.threadsVec.items ≠ [] → P.threadsVec.isInit = true)
    (hlive : ∀ t ∈ P.threadsVec.items, (b.sched.threads.get t).isSome) (hnone : b.threads = [])
    (hfits : Fits sel b.sched P.threadsVec.items) :
    ∃ b', releaseThreads sel (P.threadsVec.size + 1) p b = some b' ∧
      Releases p (P.threadsVec.items.filter (selected sel b.sched))
        (P.threadsVec.items.filter fun t => !selected sel b.sched t) b b' ∧
      Looped p P (P.threadsVec.items.filter fun t => !selected sel b.sched t) b b' := by
  rcases hfits.cases with hall | ⟨us, t, hitems, hshort, hfront, hlast⟩
  · obtain ⟨hgone, hkept⟩ := filter_front hall
    rw [hgone, hkept]
    exact ⟨b, releaseThreads_none hP hlive hall, releases_none hP hnone, ⟨P.threadsVec, hP, rfl⟩,
      rfl, rfl⟩
  · obtain ⟨hgone, hkept⟩ := filter_front hfront
    obtain ⟨T, hT⟩ := Option.isSome_iff_exists.mp (hlive t (by rw [hitems]; simp))
    have hsel : sel T = true := by rwa [selected_eq sel hT] at hlast
    have hloop := releaseThreads_last hP (hinit (by rw [hitems]; simp)) hlive hitems hshort hfront
      hT hsel
    have hgone' : P.threadsVec.items.filter (selected sel b.sched) = [t] := by
      rw [hitems, List.filter_append, hgone, List.filter_singleton, hlast]
      rfl
    have hkept' : (P.threadsVec.items.filter fun t => !selected sel b.sched t) = us := by
      rw [hitems, List.filter_append, hkept, List.filter_singleton, hlast]
      simp
    rw [hgone', hkept']
    refine ⟨_, hloop, ?_, ⟨_, taken_get _ hP, rfl⟩, rfl, rfl⟩
    exact releases_taken { P.threadsVec with items := us } hP hnone hT

/-! ## When it does not -/

/-- The thread `x` is no longer listed by the process, and it was not freed. -/
structure Lost (p x : ℕ) (b : Books) : Prop where
  unlisted : ∀ Q, b.sched.procs.get p = some Q ∨ (p, Q) ∈ b.procs → x ∉ Q.threadsVec.items
  unfreed : x ∉ b.threads.map Prod.fst

/-- What was taken from the vector stays out of it. -/
lemma Lost.taken {x : ℕ} {T : Thread} {v : TurboVector ℕ} (hx : Lost p x b)
    (hP : b.sched.procs.get p = some P) (ht : t ∈ P.threadsVec.items)
    (hv : P.threadsVec.remove (P.threadsVec.find t) = some v) : Lost p x (taken p t T v b) := by
  have hunlisted := hx.unlisted P (.inl hP)
  obtain ⟨hsub, -⟩ := remove_find_spec (List.ne_nil_of_mem ht) hv
  constructor
  · rintro Q (hQ | hQ)
    · obtain ⟨R, hR, rfl⟩ := Store.get_modify_eq_some hQ
      rw [if_pos rfl]
      exact fun hmem => hunlisted (hsub x hmem)
    · exact hx.unlisted Q (.inr hQ)
  · show x ∉ (b.threads ++ [(t, T)]).map Prod.fst
    rw [List.map_append, List.mem_append]
    rintro (hmem | hmem)
    · exact hx.unfreed hmem
    · obtain rfl : x = t := by simpa using hmem
      exact hunlisted ht

/-- The last element of a vector without repetitions is dropped by `remove(find(..))`. -/
lemma getLast_not_mem_remove {v w : TurboVector ℕ} (hne : v.items ≠ []) (hinit : v.isInit = true)
    (hdistinct : v.items.Nodup) (h : v.remove (v.find t) = some w) :
    v.items.getLast hne ∉ w.items := by
  intro hmem
  have hdrop := ((remove_find_spec hne h).2 hinit).1 _ hmem
  rw [← List.dropLast_append_getLast hne] at hdistinct
  exact List.disjoint_of_nodup_append hdistinct hdrop (List.mem_singleton.mpr rfl)

/-- So is the first one, if there are more than two. -/
lemma head_not_mem_remove {v w : TurboVector ℕ} (hlong : 2 < v.items.length)
    (hinit : v.isInit = true) (hdistinct : v.items.Nodup) (h : v.remove (v.find t) = some w) :
    v.items[0] ∉ w.items := by
  have hne : v.items ≠ [] := List.ne_nil_of_length_pos (by omega)
  have hsize : v.size = v.items.length := rfl
  rw [TurboVector.find_eq, if_neg hne, TurboVector.remove, if_pos hinit, if_neg (by omega)] at h
  obtain ⟨ys, hys, rfl⟩ := Option.map_eq_some_iff.mp h
  obtain ⟨-, hget⟩ := TurboVector.shift_spec hys
  intro hmem
  obtain ⟨j, hj, hjy⟩ := List.mem_take_iff_getElem.mp hmem
  have hjy' : ys[j]? = some v.items[0] := by rw [List.getElem?_eq_getElem (by omega), hjy]
  rw [hget j] at hjy'
  split at hjy'
  · obtain ⟨hlt, heq⟩ := List.getElem?_eq_some_iff.mp hjy'
    have := (hdistinct.getElem_inj_iff).mp heq
    omega
  · obtain ⟨hlt, heq⟩ := List.getElem?_eq_some_iff.mp hjy'
    have := (hdistinct.getElem_inj_iff).mp heq
    omega

/-- The round that frees the first selected thread: unless it is the last of at most two threads,
another thread gets lost. -/
lemma lost_of_taken {T : Thread} {v : TurboVector ℕ} {i : ℕ}
    (hinit : P.threadsVec.items ≠ [] → P.threadsVec.isInit = true)
    (hdistinct : P.threadsVec.items.Nodup) (hnone : b.threads = []) (hnoprocs : b.procs = [])
    (ht : P.threadsVec.items[i]? = some t)
    (hv : P.threadsVec.remove (P.threadsVec.find t) = some v)
    (hi : i + 1 < P.threadsVec.size ∨ 2 < P.threadsVec.size) :
    ∃ x ∈ P.threadsVec.items, Lost p x (taken p t T v b) := by
  have hne : P.threadsVec.items ≠ [] := List.ne_nil_of_mem (List.mem_of_getElem? ht)
  have hlt : i < P.threadsVec.items.length := (List.getElem?_eq_some_iff.mp ht).1
  -- any other thread that is not in the new vector is lost
  have hlost : ∀ x, x ≠ t → x ∉ v.items → Lost p x (Counted.taken p t T v b) := by
    intro x hxt hxv
    constructor
    · rintro Q (hQ | hQ)
      · obtain ⟨R, hR, rfl⟩ := Store.get_modify_eq_some hQ
        rw [if_pos rfl]
        exact hxv
      · rw [show (Counted.taken p t T v b).procs = [] from hnoprocs] at hQ
        simp at hQ
    · show x ∉ (b.threads ++ [(t, T)]).map Prod.fst
      rw [hnone]
      simpa using hxt
  have ht' : P.threadsVec.items[i] = t := (List.getElem?_eq_some_iff.mp ht).2
  have hsize : P.threadsVec.size = P.threadsVec.items.length := rfl
  by_cases hend : i + 1 < P.threadsVec.size
  · refine ⟨P.threadsVec.items.getLast hne, List.getLast_mem hne, hlost _ ?_
      (getLast_not_mem_remove hne (hinit hne) hdistinct hv)⟩
    rw [List.getLast_eq_getElem, ← ht']
    intro heq
    have := (hdistinct.getElem_inj_iff).mp heq
    omega
  · have hlong : 2 < P.threadsVec.items.length := by omega
    refine ⟨P.threadsVec.items[0], List.getElem_mem _, hlost _ ?_
      (head_not_mem_remove hlong (hinit hne) hdistinct hv)⟩
    rw [← ht']
    intro heq
    have := (hdistinct.getElem_inj_iff).mp heq
    omega

lemma not_fits {i : ℕ} {s : Sched} {ts : List ℕ}
    (hfront : ∀ u ∈ ts.take i, selected sel s u = false) (hi : i < ts.length)
    (hfits : ¬ Fits sel s ts) : i + 1 < ts.length ∨ 2 < ts.length := by
  by_contra hend
  refine hfits ⟨fun u hu => hfront u ?_, fun hlong => absurd hlong (by omega)⟩
  rw [List.dropLast_eq_take, show ts.length - 1 = i by omega] at hu
  exact hu

/-- When the selected threads do not fit, the loop loses a thread. -/
lemma releaseThreads_lost (hP : b.sched.procs.get p = some P)
    (hinit : P.threadsVec.items ≠ [] → P.threadsVec.isInit = true)
    (hdistinct : P.threadsVec.items.Nodup) (hnone : b.threads = []) (hnoprocs : b.procs = [])
    (hfits : ¬ Fits sel b.sched P.threadsVec.items) (h : releaseThreads sel fuel p b = some b') :
    ∃ x ∈ P.threadsVec.items, Lost p x b' := by
  refine loop_post (Q := fun b' => ∃ x ∈ P.threadsVec.items, Lost p x b')
    (fun c : Books × ℕ => (c.1 = b ∧
      ∀ t ∈ P.threadsVec.items.take c.2, selected sel b.sched t = false) ∨
        ∃ x ∈ P.threadsVec.items, Lost p x c.1) ?_ (.inl ⟨rfl, by simp⟩) h
  rintro ⟨b₁, i⟩ r hinv hr
  obtain ⟨Q, hQ, hcases⟩ := releaseRound_cases hr
  dsimp only at hQ hcases hinv
  rcases hinv with ⟨rfl, hfront⟩ | ⟨x, hmem, hx⟩
  · obtain rfl := Option.some.inj (hP.symm.trans hQ)
    rcases hcases with ⟨hi, -⟩ | ⟨t, T, ht, hT, ⟨hsel, rfl⟩ | ⟨hsel, v, hv, rfl⟩⟩
    · -- all threads were passed
      have hall : ∀ t ∈ P.threadsVec.items, selected sel b₁.sched t = false := by
        rwa [List.take_of_length_le hi] at hfront
      exact absurd ⟨fun t ht => hall t (List.mem_of_mem_dropLast ht), fun _ => hall⟩ hfits
    · refine .inl ⟨rfl, fun u hu => ?_⟩
      rw [List.take_add_one, ht, List.mem_append] at hu
      rcases hu with hu | hu
      · exact hfront u hu
      · rw [List.mem_singleton.mp hu, selected_eq sel hT, hsel]
    · have hi : i < P.threadsVec.items.length := (List.getElem?_eq_some_iff.mp ht).1
      exact .inr (lost_of_taken hinit hdistinct hnone hnoprocs ht hv (not_fits hfront hi hfits))
  · rcases hcases with ⟨-, rfl⟩ | ⟨t, T, ht, -, ⟨-, rfl⟩ | ⟨-, v, hv, rfl⟩⟩
    · exact ⟨x, hmem, hx⟩
    · exact .inr ⟨x, hmem, hx⟩
    · exact .inr ⟨x, hmem, hx.taken hQ (List.mem_of_getElem? ht) hv⟩

/-- A thread that is lost stays lost. -/
lemma Lost.releaseThreads {x : ℕ} (hx : Lost p x b) (h : releaseThreads sel fuel p b = some b') :
    Lost p x b' := by
  refine loop_post (fun c : Books × ℕ => Lost p x c.1) ?_ hx h
  rintro c r hinv hr
  obtain ⟨Q, hQ, hcases⟩ := releaseRound_cases hr
  rcases hcases with ⟨-, rfl⟩ | ⟨t, T, ht, -, ⟨-, rfl⟩ | ⟨-, v, hv, rfl⟩⟩
  · exact hinv
  · exact hinv
  · exact hinv.taken hQ (List.mem_of_getElem? ht) hv

/-! ## The rest of `clean_proc` -/

lemma releaseThreads_mono {fuel' : ℕ} (hf : fuel ≤ fuel')
    (h : releaseThreads sel fuel p b = some b') :
    releaseThreads sel fuel' p b = some b' := loop_mono hf h

lemma releaseThreads_parent {Q : Process} (hP : b.sched.procs.get p = some P)
    (h : releaseThreads sel fuel p b = some b') (hQ : b'.sched.procs.get p = some Q) :
    Q.parent = P.parent := by
  have hsched := releaseThreads_sched sel fuel p b
  rw [h, Option.map_some] at hsched
  obtain ⟨R, hR, heq, -, -⟩ := (releaseThreads_cleaned hsched.symm).proc Q hQ
  obtain rfl := Option.some.inj (hP.symm.trans hR)
  rw [heq]

lemma killChildren_nil {clean : ℕ → Books → Option Books} (hP : b.sched.procs.get p = some P)
    (hchildren : P.children.items = []) : killChildren clean (fuel + 1) p b = some b := by
  rw [killChildren, loop_succ, killRound, hP, Option.bind_some,
    if_neg (by simp [TurboVector.size, hchildren])]
  rfl

lemma leaveParent_none {clean : ℕ → Books → Option Books} (hP : b.sched.procs.get p = some P)
    (hparent : P.parent = none) : leaveParent clean p b = some b := by
  rw [leaveParent, hP, Option.bind_some, hparent]

/-- A killed process without parent and children releases its threads and is freed. -/
lemma cleanProc_killed_eq {Q : Process} (hP : b.sched.procs.get p = some P)
    (hkilled : P.state = .killed) (hchildren : P.children.items = []) (hparent : P.parent = none)
    (h : releaseThreads (fun _ => true) (fuel + 1) p b = some b₁)
    (hQ : b₁.sched.procs.get p = some Q) : cleanProc (fuel + 2) p b = freeProc p b₁ := by
  have hleave : leaveParent (cleanProc (fuel + 1)) p b₁ = some b₁ :=
    leaveParent_none hQ ((releaseThreads_parent hP h hQ).trans hparent)
  rw [cleanProc, hP, Option.bind_some, if_pos hkilled, killChildren_nil hP hchildren,
    Option.bind_some, h, Option.bind_some, hleave, Option.bind_some]

lemma cleanProc_killed_cases (hP : b.sched.procs.get p = some P) (hkilled : P.state = .killed)
    (hchildren : P.children.items = []) (hparent : P.parent = none)
    (h : cleanProc fuel p b = some b') :
    ∃ f b₁, releaseThreads (fun _ => true) f p b = some b₁ ∧ freeProc p b₁ = some b' := by
  rcases fuel with _ | _ | fuel
  · simp [cleanProc] at h
  · rw [cleanProc, hP, Option.bind_some, if_pos hkilled] at h
    simp [killChildren, loop] at h
  · rw [cleanProc, hP, Option.bind_some, if_pos hkilled, killChildren_nil hP hchildren,
      Option.bind_some] at h
    obtain ⟨b₁, hrel, h⟩ := Option.bind_eq_some_iff.mp h
    obtain ⟨b₂, hleave, h⟩ := Option.bind_eq_some_iff.mp h
    obtain ⟨Q, hQ, -⟩ := Option.bind_eq_some_iff.mp hleave
    rw [leaveParent_none hQ ((releaseThreads_parent hP hrel hQ).trans hparent)] at hleave
    obtain rfl := Option.some.inj hleave
    exact ⟨_, b₁, hrel, h⟩

lemma Lost.freeProc {x : ℕ} (hx : Lost p x b) (h : freeProc p b = some b') : Lost p x b' := by
  obtain ⟨P, hP, rfl⟩ := Option.map_eq_some_iff.mp h
  refine ⟨?_, hx.unfreed⟩
  rintro Q (hQ | hQ)
  · dsimp only at hQ
    rw [Store.get_free, if_pos rfl] at hQ
    simp at hQ
  · rcases List.mem_append.mp hQ with hQ | hQ
    · exact hx.unlisted Q (.inr hQ)
    · obtain rfl : Q = P := by simpa using hQ
      exact hx.unlisted Q (.inl hP)

lemma Releases.freeProc {gone kept : List ℕ} (hb : Releases p gone kept b b₁)
    (h : freeProc p b₁ = some b') : Releases p gone kept b b' := by
  obtain ⟨P, hP, rfl⟩ := Option.map_eq_some_iff.mp h
  obtain ⟨Q, hQ, hitems⟩ := hb.listed
  refine ⟨hb.freed, hb.stack, hb.others, ⟨Q, .inr ?_, hitems⟩, hb.thread_count⟩
  rcases hQ with hQ | hQ
  · obtain rfl := Option.some.inj (hP.symm.trans hQ)
    exact List.mem_append_right _ (List.mem_singleton.mpr rfl)
  · exact List.mem_append_left _ hQ

/-- A thread that is lost was to be freed, or to be kept. -/
lemma Releases.not_lost {x : ℕ} {gone kept : List ℕ} (hb : Releases p gone kept b b')
    (hx : x ∈ gone ∨ x ∈ kept) : ¬ Lost p x b' := by
  intro hlost
  rcases hx with hx | hx
  · exact hlost.unfreed (hb.freed.mem_iff.mpr hx)
  · obtain ⟨Q, hQ, hitems⟩ := hb.listed
    rw [← hitems] at hx
    exact hlost.unlisted Q hQ hx

/-- The process is killed, and the books do not change. -/
def kill (p : ℕ) (b : Books) : Books := setProc b p fun P => { P with state := .killed }

lemma kill_get (hP : b.sched.procs.get p = some P) :
    (kill p b).sched.procs.get p = some { P with state := .killed } := by
  show (b.sched.procs.modify p _).get p = _
  rw [Store.get_modify_self, hP]
  rfl

lemma Lost.kill {x : ℕ} (hx : Lost p x b) : Lost p x (kill p b) := by
  refine ⟨?_, hx.unfreed⟩
  rintro Q (hQ | hQ)
  · obtain ⟨R, hR, rfl⟩ := Store.get_modify_eq_some hQ
    rw [if_pos rfl]
    exact hx.unlisted R (.inl hR)
  · exact hx.unlisted Q (.inr hQ)

lemma Releases.kill {gone kept : List ℕ} (hb : Releases p gone kept b b₁) :
    Releases p gone kept b (kill p b₁) := by
  obtain ⟨Q, hQ, hitems⟩ := hb.listed
  refine ⟨hb.freed, hb.stack, hb.others, ?_, hb.thread_count⟩
  rcases hQ with hQ | hQ
  · exact ⟨_, .inl (kill_get hQ), hitems⟩
  · exact ⟨Q, .inr hQ, hitems⟩

/-- A process that has no thread left is killed and cleaned once more. -/
lemma Lost.cleanProc_kill {x : ℕ} (hx : Lost p x b) (hP : b.sched.procs.get p = some P)
    (hchildren : P.children.size = 0) (hparent : P.parent = none)
    (h : cleanProc fuel p (Counted.kill p b) = some b') : Lost p x b' := by
  obtain ⟨f, b₁, hloop, hfree⟩ := cleanProc_killed_cases (kill_get hP) rfl
    (List.length_eq_zero_iff.mp hchildren) hparent h
  exact (hx.kill.releaseThreads hloop).freeProc hfree

lemma Releases.cleanProc_kill {gone kept : List ℕ} (hb : Releases p gone kept b b₁)
    (hP : b₁.sched.procs.get p = some P) (hchildren : P.children.size = 0)
    (hparent : P.parent = none) (hempty : P.threadsVec.items = []) (fuel : ℕ) :
    ∃ b', cleanProc (fuel + 2) p (Counted.kill p b₁) = some b' ∧ Releases p gone kept b b' := by
  have hkill := kill_get hP
  have hloop : releaseThreads (fun _ => true) (fuel + 1) p (Counted.kill p b₁) =
      some (Counted.kill p b₁) := releaseThreads_nil hkill hempty
  obtain ⟨b', hfree⟩ : ∃ b', Counted.freeProc p (Counted.kill p b₁) = some b' :=
    ⟨_, Option.map_eq_some_iff.mpr ⟨_, hkill, rfl⟩⟩
  exact ⟨b', (cleanProc_killed_eq hkill rfl (List.length_eq_zero_iff.mp hchildren) hparent hloop
    hkill).trans hfree, hb.kill.freeProc hfree⟩

end Counted

/-! ## `clean_proc` -/

/-- The process `p` has no parent, as all processes of the kernel, and its vector lists threads
that exist and that are distinct. -/
structure Registered (s : Sched) (p : ℕ) (P : Process) : Prop where
  get : s.procs.get p = some P
  parent : P.parent = none
  isInit : P.threadsVec.items ≠ [] → P.threadsVec.isInit = true
  distinct : P.threadsVec.items.Nodup
  live : ∀ t ∈ P.threadsVec.items, (s.threads.get t).isSome

/-- In a state that the calls of the scheduler reach, only the threads matter. -/
lemma Linked.registered {s : Sched} {p : ℕ} {P : Process} (h : Linked s)
    (hP : s.procs.get p = some P) (hdistinct : P.threadsVec.items.Nodup)
    (hlive : ∀ t ∈ P.threadsVec.items, (s.threads.get t).isSome) : Registered s p P :=
  ⟨hP, (h.childless p P hP).2, h.vector p P hP, hdistinct, hlive⟩

/-- The thread is `KILLED`. -/
def killed (s : Sched) (t : ℕ) : Bool := Counted.selected (fun T => T.state = .killed) s t

section

variable {s : Sched} {p : ℕ} {P : Process} {b' : Books}

lemma selected_all {ts : List ℕ} (hlive : ∀ t ∈ ts, (s.threads.get t).isSome) :
    ∀ t ∈ ts, Counted.selected (fun _ => true) s t = true := by
  intro t ht
  obtain ⟨T, hT⟩ := Option.isSome_iff_exists.mp (hlive t ht)
  rw [Counted.selected, hT, Option.any_some]

lemma fits_all {ts : List ℕ} (hlive : ∀ t ∈ ts, (s.threads.get t).isSome) :
    Counted.Fits (fun _ => true) s ts ↔ ts.length ≤ 1 := by
  have hall := selected_all hlive
  constructor
  · rintro ⟨hfront, -⟩
    by_contra hlong
    have hpos : 0 < ts.dropLast.length := by
      rw [List.length_dropLast]
      omega
    have hmem : ts.dropLast[0] ∈ ts.dropLast := List.getElem_mem hpos
    have hnot := hfront _ hmem
    rw [hall _ (List.mem_of_mem_dropLast hmem)] at hnot
    exact absurd hnot (by simp)
  · intro hshort
    refine ⟨fun t ht => ?_, fun hlong => absurd hlong (by omega)⟩
    rw [List.dropLast_eq_take, show ts.length - 1 = 0 by omega] at ht
    simp at ht

/-- A killed process is released if and only if it has one thread at most. -/
lemma cleanProc_killed_iff (h : Registered s p P) (hkilled : P.state = .killed)
    (hchildren : P.children.items = []) (thread_count proc_count : BitVec 64) :
    (∃ fuel b', Counted.cleanProc fuel p (Books.blank s thread_count proc_count) = some b' ∧
      Counted.Releases p P.threadsVec.items [] (Books.blank s thread_count proc_count) b' ∧
      b'.procs.map Prod.fst = [p] ∧ b'.proc_count = proc_count - 1) ↔
        P.threadsVec.size ≤ 1 := by
  generalize hb : Books.blank s thread_count proc_count = b
  obtain rfl : b.sched = s := by rw [← hb]; rfl
  have hnone : b.threads = [] := by rw [← hb]; rfl
  have hnoprocs : b.procs = [] := by rw [← hb]; rfl
  have hcount : b.proc_count = proc_count := by rw [← hb]; rfl
  constructor
  · rintro ⟨fuel, b', hclean, hrel, -, -⟩
    by_contra hlong
    have hfits : ¬ Counted.Fits (fun _ => true) b.sched P.threadsVec.items :=
      fun hfits => hlong ((fits_all h.live).mp hfits)
    obtain ⟨f, b₁, hloop, hfree⟩ :=
      Counted.cleanProc_killed_cases h.get hkilled hchildren h.parent hclean
    obtain ⟨x, hmem, hx⟩ :=
      Counted.releaseThreads_lost h.get h.isInit h.distinct hnone hnoprocs hfits hloop
    exact hrel.not_lost (.inl hmem) (hx.freeProc hfree)
  · intro hshort
    obtain ⟨b₁, hloop, hrel, hlooped⟩ := Counted.releaseThreads_fits h.get h.isInit h.live hnone
      ((fits_all h.live).mpr hshort)
    have hall := selected_all h.live
    rw [List.filter_eq_self.mpr hall,
      List.filter_eq_nil_iff.mpr fun t ht => by simp [hall t ht]] at hrel
    obtain ⟨v, hQ, -⟩ := hlooped.proc
    have heq := Counted.cleanProc_killed_eq h.get hkilled hchildren h.parent hloop hQ
    obtain ⟨b', hb'⟩ : ∃ b', Counted.freeProc p b₁ = some b' :=
      ⟨_, Option.map_eq_some_iff.mpr ⟨_, hQ, rfl⟩⟩
    refine ⟨_, b', heq.trans hb', hrel.freeProc hb', ?_⟩
    obtain ⟨R, -, rfl⟩ := Option.map_eq_some_iff.mp hb'
    constructor
    · show (b₁.procs ++ [(p, R)]).map Prod.fst = [p]
      rw [hlooped.procs, hnoprocs]
      rfl
    · show b₁.proc_count - 1 = _
      rw [hlooped.proc_count, hcount]

/-- Of another process, exactly the killed threads are released if and only if none of them is in
front of the last thread, and the last one is not killed either when there are more than two. -/
lemma cleanProc_alive_iff (h : Registered s p P) (halive : P.state ≠ .killed)
    (thread_count proc_count : BitVec 64) :
    (∃ fuel b', Counted.cleanProc fuel p (Books.blank s thread_count proc_count) = some b' ∧
      Counted.Releases p (P.threadsVec.items.filter (killed s))
        (P.threadsVec.items.filter fun t => !killed s t)
        (Books.blank s thread_count proc_count) b') ↔
      (∀ t ∈ P.threadsVec.items.dropLast, killed s t = false) ∧
        (2 < P.threadsVec.size → ∀ t ∈ P.threadsVec.items, killed s t = false) := by
  generalize hb : Books.blank s thread_count proc_count = b
  obtain rfl : b.sched = s := by rw [← hb]; rfl
  have hnone : b.threads = [] := by rw [← hb]; rfl
  have hnoprocs : b.procs = [] := by rw [← hb]; rfl
  constructor
  · rintro ⟨fuel, b', hclean, hrel⟩
    by_contra hfits
    cases fuel with
    | zero => simp [Counted.cleanProc] at hclean
    | succ fuel =>
      rw [Counted.cleanProc, h.get, Option.bind_some, if_neg halive] at hclean
      obtain ⟨b₁, hloop, hclean⟩ := Option.bind_eq_some_iff.mp hclean
      obtain ⟨Q, hQ, hclean⟩ := Option.bind_eq_some_iff.mp hclean
      obtain ⟨x, hmem, hx⟩ :=
        Counted.releaseThreads_lost h.get h.isInit h.distinct hnone hnoprocs hfits hloop
      have hparent := (Counted.releaseThreads_parent h.get hloop hQ).trans h.parent
      refine hrel.not_lost (x := x) ?_ ?_
      · rw [List.mem_filter, List.mem_filter]
        cases killed b.sched x with
        | true => exact .inl ⟨hmem, rfl⟩
        | false => exact .inr ⟨hmem, rfl⟩
      · split at hclean
        · rename_i hempty
          exact hx.cleanProc_kill hQ hempty.1 hparent hclean
        · rw [← Option.some.inj hclean]
          exact hx
  · intro hfits
    obtain ⟨b₁, hloop, hrel, hlooped⟩ :=
      Counted.releaseThreads_fits h.get h.isInit h.live hnone hfits
    obtain ⟨v, hQ, hitems⟩ := hlooped.proc
    have hround : Counted.releaseThreads (fun T => T.state = .killed) (P.threadsVec.size + 2) p b =
        some b₁ := Counted.releaseThreads_mono (by omega) hloop
    by_cases hempty : P.children.size = 0 ∧ v.size = 0
    · obtain ⟨b', hclean, hrel'⟩ := hrel.cleanProc_kill hQ hempty.1 h.parent
        (List.length_eq_zero_iff.mp hempty.2) P.threadsVec.size
      refine ⟨P.threadsVec.size + 3, b', ?_, hrel'⟩
      rw [Counted.cleanProc, h.get, Option.bind_some, if_neg halive, hround, Option.bind_some, hQ,
        Option.bind_some, if_pos hempty]
      exact hclean
    · refine ⟨P.threadsVec.size + 3, b₁, ?_, hrel⟩
      rw [Counted.cleanProc, h.get, Option.bind_some, if_neg halive, hround, Option.bind_some, hQ,
        Option.bind_some, if_neg hempty]

/-- When `clean_proc` releases what it should: a killed process when it has one thread at most,
and of another process the killed threads when none of them is in front of the last thread, and
with more than two threads the last one is not killed either. -/
theorem cleanProc_releases_iff (h : Registered s p P) (thread_count proc_count : BitVec 64) :
    (P.state = .killed → P.children.items = [] →
      ((∃ fuel b', Counted.cleanProc fuel p (Books.blank s thread_count proc_count) = some b' ∧
        Counted.Releases p P.threadsVec.items [] (Books.blank s thread_count proc_count) b' ∧
        b'.procs.map Prod.fst = [p] ∧ b'.proc_count = proc_count - 1) ↔
          P.threadsVec.size ≤ 1)) ∧
    (P.state ≠ .killed →
      ((∃ fuel b', Counted.cleanProc fuel p (Books.blank s thread_count proc_count) = some b' ∧
        Counted.Releases p (P.threadsVec.items.filter (killed s))
          (P.threadsVec.items.filter fun t => !killed s t)
          (Books.blank s thread_count proc_count) b') ↔
        (∀ t ∈ P.threadsVec.items.dropLast, killed s t = false) ∧
          (2 < P.threadsVec.size → ∀ t ∈ P.threadsVec.items, killed s t = false))) := by
  constructor
  · intro hkilled hchildren
    exact cleanProc_killed_iff h hkilled hchildren thread_count proc_count
  · intro halive
    exact cleanProc_alive_iff h halive thread_count proc_count

/-- A process with `n` threads. -/
def sampleProcess (state : State) (n : ℕ) : Process :=
  { PID := 1, state := state, pagemap := 0, threadsVec := ⟨true, List.range n⟩, parent := none }

/-- The scheduler with one process, whose threads are in the given states. -/
def sample (state : State) (states : List State) : Sched :=
  { threads := states.foldl (fun threads state => threads.alloc
      { state := state, thread_stack := 0x4000, thread_regs := {}, parent_proc := some 0 })
        Store.empty
    procs := Store.empty.alloc (sampleProcess state states.length)
    idle := ⟨1, Nat.one_pos⟩ }

lemma sample_killed_registered :
    Registered (sample .killed [.ready]) 0 (sampleProcess .killed 1) :=
  ⟨rfl, rfl, fun _ => rfl, by decide, by decide⟩

lemma sample_ready_registered :
    Registered (sample .ready [.ready, .killed]) 0 (sampleProcess .ready 2) :=
  ⟨rfl, rfl, fun _ => rfl, by decide, by decide⟩

lemma sample_two_registered :
    Registered (sample .killed [.ready, .ready]) 0 (sampleProcess .killed 2) :=
  ⟨rfl, rfl, fun _ => rfl, by decide, by decide⟩

theorem cleanProc_releases_sample :
    (∃ fuel b',
      Counted.cleanProc fuel 0 (Books.blank (sample .killed [.ready]) 1 1) = some b' ∧
      Counted.Releases 0 [0] [] (Books.blank (sample .killed [.ready]) 1 1) b' ∧
      b'.procs.map Prod.fst = [0] ∧ b'.proc_count = 0) ∧
    (∃ fuel b',
      Counted.cleanProc fuel 0 (Books.blank (sample .ready [.ready, .killed]) 2 1) = some b' ∧
      Counted.Releases 0 [1] [0] (Books.blank (sample .ready [.ready, .killed]) 2 1) b') := by
  constructor
  · exact ((cleanProc_releases_iff sample_killed_registered 1 1).1 rfl rfl).mpr (by decide)
  · exact ((cleanProc_releases_iff sample_ready_registered 2 1).2 (by decide)).mpr (by decide)

/-- Of two threads, only the first is freed, and the vector keeps it; the same happens when the
process is not killed but its first thread is. -/
theorem cleanProc_keeps_freed :
    ((Counted.cleanProc 4 0 (Books.blank (sample .killed [.ready, .ready]) 2 1)).map fun b =>
      (b.threads.map Prod.fst, b.procs.map fun e => e.2.threadsVec.items, b.thread_count)) =
        some ([0], [[0]], 1) ∧
    ((Counted.cleanProc 4 0 (Books.blank (sample .ready [.killed, .ready]) 2 1)).map fun b =>
      (b.threads.map Prod.fst, (b.sched.procs.get 0).map fun P => P.threadsVec.items)) =
        some ([0], some [0]) ∧
    ¬ ∃ fuel b',
      Counted.cleanProc fuel 0 (Books.blank (sample .killed [.ready, .ready]) 2 1) = some b' ∧
      Counted.Releases 0 [0, 1] [] (Books.blank (sample .killed [.ready, .ready]) 2 1) b' ∧
      b'.procs.map Prod.fst = [0] ∧ b'.proc_count = 0 := by
  refine ⟨by decide, by decide, ?_⟩
  intro h
  have hsize := (cleanProc_killed_iff sample_two_registered rfl rfl 2 1).mp h
  exact absurd hsize (by decide)

end

end TurbOS.Scheduler
