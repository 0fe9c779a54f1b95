import TurbOS.Heap.Client

/-!
# The heap lock

The functions of `Model` return `none` both when their fuel is not enough and when they wait for
a lock.  Here the operations say why they do not return, and the physical allocator is a
parameter, so that every answer it may give is covered.  With `PMemory.realloc` in its place they
are the functions of `Model` (`Traced.malloc_toOption` and its companions).

The checks of `expand` return with the lock held.  An operation keeps to the discipline of the
lock, it gives the lock back and does not wait for itself, exactly if none of its calls of
`expand` fails.
-/

open ByteMemory Fuel

namespace TurbOS.Heap

/-- Why a call does not return. -/
inductive Stuck where
  /-- It waits for the heap lock, which it holds itself. -/
  | lock
  /-- A loop needs more rounds. -/
  | fuel
  /-- The physical allocator does not return. -/
  | pages
deriving DecidableEq, Repr

/-- A computation that gives its reason when it does not return. -/
def because {α : Type} (why : Stuck) : Option α → Except Stuck α
  | none => .error why
  | some a => .ok a

/-- The physical allocator: `pMemory::realloc`, or anything else with its arguments. -/
abbrev Pages := ℕ → ℕ → ℕ → Phys → Option (ℕ × Phys)

namespace Traced

variable (pages : Pages)

/-- `Heap::expand`. -/
def expand (fuel pagecount : ℕ) (k : Kernel) : Except Stuck Kernel :=
  (because .lock (acquire k)).bind fun k =>
    let k := { k with heap := { k.heap with expansions := k.heap.expansions + 1 } }
    if pagecount = 0 then .ok k
    else
      (because .fuel (alignUp2 fuel 0x1000
        (Word64.mul (Word64.add pagecount k.heap.pages) 0x1000))).bind fun size =>
          if powerOf2 size = false then .ok k
          else
            (because .pages (pages k.heap.data k.heap.pages (size / 0x1000) k.phys)).bind fun r =>
              if r.1 = 0 then .ok { phys := r.2, heap := { k.heap with data := 0 } }
              else
                let m := setFree (setSize r.2.mem r.1 size) r.1 true
                .ok {
                  phys := { r.2 with mem := m }
                  heap := { k.heap with
                    data := r.1
                    head := r.1
                    tail := next m r.1
                    pages := size / 0x1000
                    lock := false } }

/-- `Heap::setsize`. -/
def setsize (fuel pagecount : ℕ) (k : Kernel) : Except Stuck Kernel :=
  if pagecount = 0 then .ok k
  else if ¬ k.heap.pages < pagecount then .ok k
  else expand pages fuel (pagecount - k.heap.pages) k

/-- `Heap::malloc`. -/
def malloc : ℕ → ℕ → Kernel → Except Stuck (ℕ × Kernel)
  | 0, _, _ => .error .fuel
  | fuel + 1, size, k =>
    if size = 0 then .ok (0, k)
    else
      (if k.heap.data = 0 then expand pages fuel INIT_PAGES k else .ok k).bind fun k =>
        (because .lock (acquire k)).bind fun k =>
          (because .fuel (requiredSize fuel size)).bind fun actualSize =>
            (because .fuel (find fuel k.heap k.phys.mem actualSize)).bind fun r =>
              let k := { k with phys := { k.phys with mem := r.2 } }
              if r.1 ≠ 0 then
                .ok (r.1 + 16, {
                  phys := { k.phys with mem := setFree r.2 r.1 false }
                  heap := { k.heap with expanded := false, lock := false } })
              else if k.heap.expanded then
                .ok (0, { k with heap := { k.heap with expanded := false, lock := false } })
              else
                (expand pages fuel (size / 0x1000 + 1) (unlock k)).bind fun k =>
                  malloc fuel size { k with heap := { k.heap with expanded := true } }

/-- `Heap::calloc`. -/
def calloc (fuel num size : ℕ) (k : Kernel) : Except Stuck (ℕ × Kernel) :=
  (malloc pages fuel (Word64.mul num size) k).map fun r =>
    if r.1 = 0 then (0, r.2)
    else (r.1, { r.2 with
      phys := { r.2.phys with mem := memset r.2.phys.mem r.1 0 (Word64.mul num size) } })

/-- `Heap::free`, which does not need the physical allocator. -/
def free (fuel ptr : ℕ) (k : Kernel) : Except Stuck Kernel :=
  if k.heap.data = 0 then .ok k
  else if ptr = 0 then .ok k
  else if ¬ k.heap.head ≤ ptr then .ok k
  else if ¬ ptr < k.heap.tail then .ok k
  else
    (because .lock (acquire k)).bind fun k =>
      (because .fuel (coalescence fuel k.heap (setFree k.phys.mem (ptr - 16) true))).map fun m =>
        unlock { k with phys := { k.phys with mem := m } }

/-- `Heap::realloc`. -/
def realloc (fuel ptr size : ℕ) (k : Kernel) : Except Stuck (ℕ × Kernel) :=
  if ptr = 0 then malloc pages fuel size k
  else
    let oldsize := blockSize k.phys.mem (ptr - 16)
    if size = 0 then (free fuel ptr k).map fun k => (0, k)
    else
      let oldsize := if size < oldsize then size else oldsize
      (malloc pages fuel size k).bind fun r =>
        if r.1 = 0 then .ok (ptr, r.2)
        else
          (free fuel ptr { r.2 with
            phys := { r.2.phys with mem := memcpy r.2.phys.mem r.1 ptr oldsize } }).map
              fun k => (r.1, k)

/-! ## The functions of the model -/

variable {α β : Type} {why : Stuck}

@[simp] lemma toOption_because (o : Option α) : (because why o).toOption = o := by
  cases o <;> rfl

lemma toOption_bind (o : Except Stuck α) (f : α → Except Stuck β) :
    (o.bind f).toOption = o.toOption.bind fun a => (f a).toOption := by
  cases o <;> rfl

lemma toOption_map (o : Except Stuck α) (f : α → β) : (o.map f).toOption = o.toOption.map f := by
  cases o <;> rfl

lemma toOption_ite (p : Prop) [Decidable p] (a b : Except Stuck α) :
    (if p then a else b).toOption = if p then a.toOption else b.toOption := by
  split <;> rfl

@[simp] lemma toOption_ok (a : α) : (Except.ok a : Except Stuck α).toOption = some a := rfl

@[simp] lemma toOption_error : (Except.error why : Except Stuck α).toOption = none := rfl

lemma expand_toOption (fuel n : ℕ) (k : Kernel) :
    (expand PMemory.realloc fuel n k).toOption = Heap.expand fuel n k := by
  simp only [expand, Heap.expand, toOption_bind, toOption_because, toOption_ite, toOption_ok]

lemma malloc_toOption (fuel n : ℕ) (k : Kernel) :
    (malloc PMemory.realloc fuel n k).toOption = Heap.malloc fuel n k := by
  induction fuel generalizing k with
  | zero => rfl
  | succ fuel ih =>
    simp only [malloc, Heap.malloc, toOption_bind, toOption_because, toOption_ite, toOption_ok,
      expand_toOption, ih]

lemma calloc_toOption (fuel num size : ℕ) (k : Kernel) :
    (calloc PMemory.realloc fuel num size k).toOption = Heap.calloc fuel num size k := by
  rw [calloc, Heap.calloc, toOption_map, malloc_toOption]

lemma free_toOption (fuel ptr : ℕ) (k : Kernel) :
    (free fuel ptr k).toOption = Heap.free fuel ptr k := by
  simp only [free, Heap.free, toOption_bind, toOption_because, toOption_ite, toOption_ok,
    toOption_map]

lemma realloc_toOption (fuel ptr size : ℕ) (k : Kernel) :
    (realloc PMemory.realloc fuel ptr size k).toOption = Heap.realloc fuel ptr size k := by
  simp only [realloc, Heap.realloc, toOption_bind, toOption_ite, toOption_ok, toOption_map,
    malloc_toOption, free_toOption]

/-! ## The discipline -/

/-- The call gives the lock back, and it does not wait for itself. -/
structure Disciplined (o : Except Stuck Kernel) : Prop where
  released : ∀ k, o = .ok k → k.heap.lock = false
  not_waiting : o ≠ .error .lock

@[simp] lemma disciplined_ok {k : Kernel} : Disciplined (.ok k) ↔ k.heap.lock = false := by
  constructor
  · intro h
    exact h.released k rfl
  · intro hlock
    refine ⟨fun k' hk' => ?_, by simp⟩
    rw [← Except.ok.inj hk']
    exact hlock

@[simp] lemma disciplined_error : Disciplined (.error why) ↔ why ≠ .lock := by
  constructor
  · rintro h rfl
    exact h.not_waiting rfl
  · intro hwhy
    refine ⟨by simp, fun h => hwhy ?_⟩
    exact Except.error.inj h

/-- The expansion by `pagecount` pages is one, and the physical allocator has the pages. -/
def Granted (fuel pagecount : ℕ) (k : Kernel) : Prop :=
  pagecount ≠ 0 ∧ ∀ size r,
    alignUp2 fuel 0x1000 (Word64.mul (Word64.add pagecount k.heap.pages) 0x1000) = some size →
    pages k.heap.data k.heap.pages (size / 0x1000) k.phys = some r → r.1 ≠ 0

/-- The heap that `malloc` searches: a heap without an arena is expanded first. -/
def searched (fuel : ℕ) (k : Kernel) : Except Stuck Kernel :=
  if k.heap.data = 0 then expand pages fuel INIT_PAGES k else .ok k

/-- The physical allocator has the pages that `malloc` asks it for: those of the first arena,
and those of a larger one if no block fits the request and the heap was not expanded for it
before. -/
def Supplied : ℕ → ℕ → Kernel → Prop
  | 0, _, _ => True
  | fuel + 1, size, k => size ≠ 0 →
      (k.heap.data = 0 → Granted pages fuel INIT_PAGES k) ∧
      ∀ k₁ actualSize r, searched pages fuel k = .ok k₁ → requiredSize fuel size = some actualSize →
        find fuel { k₁.heap with lock := true } k₁.phys.mem actualSize = some r → r.1 = 0 →
        k₁.heap.expanded = false →
        Granted pages fuel (size / 0x1000 + 1) { k₁ with phys := { k₁.phys with mem := r.2 } }

variable {pages} {fuel n : ℕ} {k : Kernel}

/-- What `expand` can do when it is called without the lock. -/
lemma expand_cases (pages) (fuel n : ℕ) (hlock : k.heap.lock = false) :
    (∃ why, expand pages fuel n k = .error why ∧ why ≠ .lock ∧ Granted pages fuel n k) ∨
      (∃ k', expand pages fuel n k = .ok k' ∧ k'.heap.lock = true ∧ ¬ Granted pages fuel n k) ∨
      ∃ k', expand pages fuel n k = .ok k' ∧ k'.heap.lock = false ∧ k'.heap.data ≠ 0 ∧
        k'.heap.expanded = k.heap.expanded ∧ Granted pages fuel n k := by
  rw [expand, acquire, if_neg (by simp [hlock]), because, Except.bind]
  dsimp only
  by_cases hn : n = 0
  · rw [if_pos hn]
    exact .inr (.inl ⟨_, rfl, rfl, fun hg => hg.1 hn⟩)
  rw [if_neg hn]
  cases hsize : alignUp2 fuel 0x1000 (Word64.mul (Word64.add n k.heap.pages) 0x1000) with
  | none =>
    refine .inl ⟨.fuel, rfl, by simp, hn, fun size r hs => ?_⟩
    rw [hsize] at hs
    simp at hs
  | some size =>
    rw [because, Except.bind, if_neg (by simp [(alignUp2_post hsize).2])]
    cases hpages : pages k.heap.data k.heap.pages (size / 0x1000) k.phys with
    | none =>
      refine .inl ⟨.pages, rfl, by simp, hn, fun size' r hs hr => ?_⟩
      obtain rfl : size = size' := Option.some.inj (hsize.symm.trans hs)
      rw [hpages] at hr
      simp at hr
    | some r =>
      rw [because, Except.bind]
      by_cases hr : r.1 = 0
      · rw [if_pos hr]
        exact .inr (.inl ⟨_, rfl, rfl, fun hg => hg.2 size r hsize hpages hr⟩)
      · rw [if_neg hr]
        refine .inr (.inr ⟨_, rfl, rfl, hr, rfl, hn, fun size' r' hs hr' => ?_⟩)
        obtain rfl : size = size' := Option.some.inj (hsize.symm.trans hs)
        obtain rfl : r = r' := Option.some.inj (hpages.symm.trans hr')
        exact hr

lemma expand_disciplined_iff (hlock : k.heap.lock = false) :
    Disciplined (expand pages fuel n k) ↔ Granted pages fuel n k := by
  rcases expand_cases pages fuel n hlock with
    ⟨why, heq, hwhy, hg⟩ | ⟨k', heq, hheld, hg⟩ | ⟨k', heq, hfree, -, -, hg⟩
  · rw [heq]
    exact iff_of_true (disciplined_error.mpr hwhy) hg
  · rw [heq]
    exact iff_of_false (by simp [hheld]) hg
  · rw [heq]
    exact iff_of_true (disciplined_ok.mpr hfree) hg

/-- After a failed `expand` the lock is held, and `malloc` waits for it. -/
lemma malloc_held (hn : n ≠ 0) (hheld : k.heap.lock = true) :
    malloc pages (fuel + 1) n k = .error .lock := by
  have hacquire : acquire k = none := by rw [acquire, if_pos hheld]
  rw [malloc, if_neg hn]
  by_cases hdata : k.heap.data = 0
  · rw [if_pos hdata, expand, hacquire]
    rfl
  · rw [if_neg hdata, Except.bind, hacquire]
    rfl

/-- The search of `malloc` in a heap with an arena. -/
lemma malloc_arena (hn : n ≠ 0) (hdata : k.heap.data ≠ 0) (hlock : k.heap.lock = false) :
    malloc pages (fuel + 1) n k =
      (because .fuel (requiredSize fuel n)).bind fun actualSize =>
        (because .fuel (find fuel { k.heap with lock := true } k.phys.mem actualSize)).bind fun r =>
          if r.1 ≠ 0 then
            .ok (r.1 + 16, {
              phys := { k.phys with mem := setFree r.2 r.1 false }
              heap := { k.heap with expanded := false, lock := false } })
          else if k.heap.expanded then
            .ok (0, {
              phys := { k.phys with mem := r.2 }
              heap := { k.heap with expanded := false, lock := false } })
          else
            (expand pages fuel (n / 0x1000 + 1) {
              phys := { k.phys with mem := r.2 }
              heap := { k.heap with lock := false } }).bind fun k =>
                malloc pages fuel n { k with heap := { k.heap with expanded := true } } := by
  rw [malloc, if_neg hn, if_neg hdata, Except.bind, acquire, if_neg (by simp [hlock]), because,
    Except.bind]
  rfl

/-- `malloc` does not expand the heap a second time for one request. -/
lemma malloc_expanded (hdata : k.heap.data ≠ 0) (hlock : k.heap.lock = false)
    (hexp : k.heap.expanded = true) : Disciplined ((malloc pages fuel n k).map Prod.snd) := by
  cases fuel with
  | zero => simp [malloc, Except.map]
  | succ fuel =>
    by_cases hn : n = 0
    · rw [malloc, if_pos hn]
      exact disciplined_ok.mpr hlock
    rw [malloc_arena hn hdata hlock]
    cases requiredSize fuel n with
    | none => simp [because, Except.bind, Except.map]
    | some actualSize =>
      rw [because, Except.bind]
      cases find fuel { k.heap with lock := true } k.phys.mem actualSize with
      | none => simp [because, Except.bind, Except.map]
      | some r =>
        rw [because, Except.bind]
        by_cases hr : r.1 = 0
        · rw [if_neg (by simp [hr]), if_pos hexp]
          exact disciplined_ok.mpr rfl
        · rw [if_pos hr]
          exact disciplined_ok.mpr rfl

/-- In a heap with an arena only the expansion for a larger one can go wrong. -/
lemma malloc_arena_disciplined_iff (hn : n ≠ 0) (hdata : k.heap.data ≠ 0)
    (hlock : k.heap.lock = false) :
    Disciplined ((malloc pages (fuel + 1) n k).map Prod.snd) ↔
      ∀ actualSize r, requiredSize fuel n = some actualSize →
        find fuel { k.heap with lock := true } k.phys.mem actualSize = some r → r.1 = 0 →
        k.heap.expanded = false →
        Granted pages fuel (n / 0x1000 + 1) { k with phys := { k.phys with mem := r.2 } } := by
  rw [malloc_arena hn hdata hlock]
  cases hreq : requiredSize fuel n with
  | none => simp [because, Except.bind, Except.map]
  | some actualSize =>
    rw [because, Except.bind]
    cases hfind : find fuel { k.heap with lock := true } k.phys.mem actualSize with
    | none =>
      refine iff_of_true (by simp [because, Except.bind, Except.map]) ?_
      intro actualSize' r hactual hr
      obtain rfl := Option.some.inj hactual
      rw [hfind] at hr
      simp at hr
    | some r =>
      -- the search returns: only one pair is meant on the right
      have hone : (∀ actualSize' r', some actualSize = some actualSize' →
          find fuel { k.heap with lock := true } k.phys.mem actualSize' = some r' → r'.1 = 0 →
          k.heap.expanded = false → Granted pages fuel (n / 0x1000 + 1)
            { k with phys := { k.phys with mem := r'.2 } }) ↔
          (r.1 = 0 → k.heap.expanded = false → Granted pages fuel (n / 0x1000 + 1)
            { k with phys := { k.phys with mem := r.2 } }) := by
        constructor
        · intro h
          exact h actualSize r rfl hfind
        · intro h actualSize' r' hactual hr'
          obtain rfl := Option.some.inj hactual
          obtain rfl : r = r' := Option.some.inj (hfind.symm.trans hr')
          exact h
      rw [hone, because, Except.bind]
      by_cases hr : r.1 = 0
      · rw [if_neg (by simp [hr])]
        cases hexp : k.heap.expanded with
        | true =>
          rw [if_pos rfl]
          exact iff_of_true (disciplined_ok.mpr rfl) (by simp)
        | false =>
          rw [if_neg (by simp)]
          simp only [hr, true_imp_iff]
          rcases expand_cases pages fuel (n / 0x1000 + 1)
            (k := { phys := { k.phys with mem := r.2 }, heap := { k.heap with lock := false } })
            rfl with ⟨why, heq, hwhy, hg⟩ | ⟨k', heq, hheld, hg⟩ | ⟨k', heq, hfree, hdata', -, hg⟩
          · rw [heq]
            exact iff_of_true (disciplined_error.mpr hwhy) hg
          · refine iff_of_false ?_ hg
            rw [heq, Except.bind]
            cases fuel with
            | zero =>
              -- without fuel `expand` does not get to its request
              refine absurd ⟨by omega, fun size r hsize => ?_⟩ hg
              simp [alignUp2, loop] at hsize
            | succ fuel =>
              rw [malloc_held hn (by exact hheld)]
              simp [Except.map]
          · rw [heq]
            exact iff_of_true (malloc_expanded (by exact hdata') (by exact hfree) rfl) hg
      · rw [if_pos hr]
        exact iff_of_true (disciplined_ok.mpr rfl) fun h => absurd h hr

/-- `malloc` keeps to the discipline exactly if the physical allocator has the pages. -/
lemma malloc_disciplined_iff (hlock : k.heap.lock = false) :
    Disciplined ((malloc pages fuel n k).map Prod.snd) ↔ Supplied pages fuel n k := by
  cases fuel with
  | zero => simp [malloc, Except.map, Supplied]
  | succ fuel =>
    rw [Supplied]
    by_cases hn : n = 0
    · rw [malloc, if_pos hn]
      exact iff_of_true (disciplined_ok.mpr hlock) fun h => absurd hn h
    simp only [hn, ne_eq, not_false_eq_true, true_imp_iff]
    by_cases hdata : k.heap.data = 0
    · simp only [hdata, true_imp_iff, searched, if_true]
      rcases expand_cases pages fuel INIT_PAGES hlock with
        ⟨why, heq, hwhy, hg⟩ | ⟨k₁, heq, hheld, hg⟩ | ⟨k₁, heq, hfree, hdata₁, -, hg⟩
      · rw [malloc, if_neg hn, if_pos hdata, heq]
        exact iff_of_true (disciplined_error.mpr hwhy) ⟨hg, fun k₁ actualSize r h => by simp at h⟩
      · rw [malloc, if_neg hn, if_pos hdata, heq, Except.bind, acquire, if_pos hheld]
        exact iff_of_false (by simp [because, Except.bind, Except.map])
          fun h => hg h.1
      · -- the request starts again in the new arena
        have hsame : malloc pages (fuel + 1) n k = malloc pages (fuel + 1) n k₁ := by
          rw [malloc, if_neg hn, if_pos hdata, heq, malloc, if_neg hn, if_neg hdata₁]
        rw [hsame, malloc_arena_disciplined_iff hn hdata₁ hfree, heq]
        simp only [hg, true_and, Except.ok.injEq]
        constructor
        · rintro h k₂ actualSize r rfl
          exact h actualSize r
        · intro h actualSize r
          exact h k₁ actualSize r rfl
    · rw [malloc_arena_disciplined_iff hn hdata hlock]
      simp only [hdata, false_imp_iff, true_and, searched, if_false, Except.ok.injEq]
      constructor
      · rintro h k₁ actualSize r rfl
        exact h actualSize r
      · intro h actualSize r
        exact h k actualSize r rfl

/-- `free` leaves the lock as it found it, or waits for it. -/
lemma free_disciplined_iff (ptr : ℕ) : Disciplined (free fuel ptr k) ↔ k.heap.lock = false := by
  rw [free]
  by_cases hearly : k.heap.data = 0 ∨ ptr = 0 ∨ ¬ k.heap.head ≤ ptr ∨ ¬ ptr < k.heap.tail
  · have hsame : free fuel ptr k = .ok k := by
      rw [free]
      split_ifs <;> first | rfl | omega
    rw [← free, hsame]
    exact disciplined_ok
  · simp only [not_or] at hearly
    rw [if_neg hearly.1, if_neg hearly.2.1, if_neg hearly.2.2.1, if_neg hearly.2.2.2, acquire]
    cases hlock : k.heap.lock with
    | true => simp [because, Except.bind]
    | false =>
      rw [if_neg (by simp), because, Except.bind]
      cases coalescence fuel { k.heap with lock := true } (setFree k.phys.mem (ptr - 16) true) with
      | none => simp [because, Except.map]
      | some m => exact iff_of_true (disciplined_ok.mpr rfl) rfl

lemma disciplined_pair_iff (p : ℕ) (o : Except Stuck Kernel) :
    Disciplined ((o.map fun k => (p, k)).map Prod.snd) ↔ Disciplined o := by
  cases o with
  | error why => exact Iff.rfl
  | ok k => exact Iff.rfl

lemma calloc_disciplined_iff (num size : ℕ) :
    Disciplined ((calloc pages fuel num size k).map Prod.snd) ↔
      Disciplined ((malloc pages fuel (Word64.mul num size) k).map Prod.snd) := by
  rw [calloc]
  cases malloc pages fuel (Word64.mul num size) k with
  | error why => exact Iff.rfl
  | ok r =>
    dsimp only [Except.map]
    split
    · exact Iff.rfl
    · rw [disciplined_ok, disciplined_ok]

lemma supplied_zero : Supplied pages fuel 0 k := by
  cases fuel with
  | zero => trivial
  | succ fuel => exact fun h => absurd rfl h

lemma realloc_disciplined_iff (ptr size : ℕ) (hlock : k.heap.lock = false) :
    Disciplined ((realloc pages fuel ptr size k).map Prod.snd) ↔ Supplied pages fuel size k := by
  rw [realloc]
  by_cases hptr : ptr = 0
  · rw [if_pos hptr]
    exact malloc_disciplined_iff hlock
  rw [if_neg hptr]
  by_cases hsize : size = 0
  · rw [if_pos hsize]
    subst hsize
    rw [disciplined_pair_iff, free_disciplined_iff]
    exact iff_of_true hlock supplied_zero
  · rw [if_neg hsize, ← malloc_disciplined_iff hlock]
    cases malloc pages fuel size k with
    | error why => exact Iff.rfl
    | ok r =>
      dsimp only [Except.bind]
      by_cases hr : r.1 = 0
      · rw [if_pos hr]
        exact Iff.rfl
      · rw [if_neg hr, disciplined_pair_iff, free_disciplined_iff, Except.map, disciplined_ok]

lemma setsize_disciplined_iff (hlock : k.heap.lock = false) :
    Disciplined (setsize pages fuel n k) ↔
      (k.heap.pages < n → Granted pages fuel (n - k.heap.pages) k) := by
  rw [setsize]
  by_cases hn : n = 0
  · rw [if_pos hn]
    exact iff_of_true (disciplined_ok.mpr hlock) fun h => by omega
  rw [if_neg hn]
  by_cases hlt : k.heap.pages < n
  · rw [if_neg (by simpa using hlt), expand_disciplined_iff hlock]
    simp [hlt]
  · rw [if_pos hlt]
    exact iff_of_true (disciplined_ok.mpr hlock) fun h => absurd h hlt

end Traced

/-! ## The main result -/

open Traced

/-- The operations of the heap with their arguments. -/
inductive Op where
  | malloc (size : ℕ)
  | calloc (num size : ℕ)
  | realloc (ptr size : ℕ)
  | free (ptr : ℕ)
  | expand (pagecount : ℕ)
  | setsize (pagecount : ℕ)
deriving DecidableEq, Repr

/-- A call of an operation; what it returns to its caller is left out. -/
def Op.run (pages : Pages) (fuel : ℕ) : Op → Kernel → Except Stuck Kernel
  | .malloc size, k => (Traced.malloc pages fuel size k).map Prod.snd
  | .calloc num size, k => (Traced.calloc pages fuel num size k).map Prod.snd
  | .realloc ptr size, k => (Traced.realloc pages fuel ptr size k).map Prod.snd
  | .free ptr, k => Traced.free fuel ptr k
  | .expand pagecount, k => Traced.expand pages fuel pagecount k
  | .setsize pagecount, k => Traced.setsize pages fuel pagecount k

/-- No call of `expand` that the operation makes is for zero pages or turned down by the
physical allocator. -/
def Op.Supplied (pages : Pages) (fuel : ℕ) : Op → Kernel → Prop
  | .malloc size, k => Traced.Supplied pages fuel size k
  | .calloc num size, k => Traced.Supplied pages fuel (Word64.mul num size) k
  | .realloc _ size, k => Traced.Supplied pages fuel size k
  | .free _, _ => True
  | .expand pagecount, k => Granted pages fuel pagecount k
  | .setsize pagecount, k =>
    k.heap.pages < pagecount → Granted pages fuel (pagecount - k.heap.pages) k

/-- **The heap lock is given back unless the physical allocator fails.**  Whatever the heap and
the physical allocator, a call that is made while the lock is free returns with the lock free
and never waits for a lock that it holds, exactly if every expansion it makes is supplied. -/
theorem heap_lock_iff (pages : Pages) (op : Op) (fuel : ℕ) {k : Kernel}
    (hlock : k.heap.lock = false) :
    Disciplined (op.run pages fuel k) ↔ op.Supplied pages fuel k := by
  cases op with
  | malloc size => exact malloc_disciplined_iff hlock
  | calloc num size => exact (calloc_disciplined_iff num size).trans (malloc_disciplined_iff hlock)
  | realloc ptr size => exact realloc_disciplined_iff ptr size hlock
  | free ptr => exact iff_of_true ((free_disciplined_iff ptr).mpr hlock) trivial
  | expand pagecount => exact expand_disciplined_iff hlock
  | setsize pagecount => exact setsize_disciplined_iff hlock

/-- The first request on the large machine gives the lock back. -/
theorem heap_lock_bigMap :
    ∃ k : Kernel, k.heap.lock = false ∧
      Disciplined ((Op.malloc (2 ^ 21 - 16)).run PMemory.realloc 65 k) ∧
      (Op.malloc (2 ^ 21 - 16)).Supplied PMemory.realloc 65 k := by
  obtain ⟨s, hs, -⟩ := bigMap_alloc
  generalize PMemory.init bigMap { mem := fun _ => 0 } = s₀ at hs
  have hmalloc := malloc_initial hs (by norm_num)
  have hdisciplined :
      Disciplined ((Op.malloc (2 ^ 21 - 16)).run PMemory.realloc 65 (start s₀).kernel) := by
    rw [← malloc_toOption] at hmalloc
    rw [Op.run]
    cases hres : Traced.malloc PMemory.realloc 65 (2 ^ 21 - 16) (start s₀).kernel with
    | error why =>
      rw [hres] at hmalloc
      simp at hmalloc
    | ok r =>
      rw [hres] at hmalloc
      rw [Option.some.inj hmalloc]
      exact disciplined_ok.mpr rfl
  have hlock : (start s₀).kernel.heap.lock = false := rfl
  have hsupplied := (heap_lock_iff PMemory.realloc (.malloc (2 ^ 21 - 16)) 65 hlock).mp
  refine ⟨(start s₀).kernel, hlock, ?_, ?_⟩
  · exact hdisciplined
  · exact hsupplied hdisciplined

/-- The call waits for a lock that it holds. -/
def awaitsLock (o : Except Stuck Kernel) : Bool :=
  match o with
  | .error .lock => true
  | _ => false

lemma not_disciplined_of_awaitsLock {o : Except Stuck Kernel} (h : awaitsLock o = true) :
    ¬ Disciplined o := by
  cases o with
  | ok k => simp [awaitsLock] at h
  | error why =>
    cases why with
    | lock => simp
    | fuel => simp [awaitsLock] at h
    | pages => simp [awaitsLock] at h

/-- On a machine with seven free pages there is no room for the first arena: `expand` returns
with the lock held, and `malloc` waits for it. -/
theorem malloc_waits_for_itself :
    ∃ k : Kernel, k.heap.lock = false ∧ ¬ Disciplined ((Op.malloc 1).run PMemory.realloc 2 k) := by
  have hstuck : awaitsLock ((Op.malloc 1).run PMemory.realloc 2
      (start (PMemory.init PMemory.smallMap { mem := fun _ => 0 })).kernel) = true := by
    decide +kernel
  exact ⟨_, rfl, not_disciplined_of_awaitsLock hstuck⟩

end TurbOS.Heap
