import Mathlib.Algebra.BigOperators.Group.Finset.Basic
import Mathlib.Algebra.Order.BigOperators.Group.Finset
import Mathlib.Algebra.Order.Group.Multiset
import Mathlib.Data.Fintype.BigOperators
import Mathlib.Tactic.Abel

/-!
# A spin lock around a device

Processors write texts to one device, each text between taking a lock and giving it back.  Their
steps come in any order, and a processor may be called at any time, also by an interrupt in the
middle of a text: then it puts off whatever it does until the texts of the call are written.  So a
processor is one flow of control; threads that take turns are several.

The device gets one whole text after the other, so texts are neither mixed nor lost nor written
twice.  But a processor that is called while it holds the lock waits for itself.
-/

namespace SpinLock

variable {ι α : Type*}

/-! ## Processors -/

/-- What a processor does. -/
inductive Instr (α : Type*) where
  | lock
  | write (a : α)
  | unlock
deriving DecidableEq, Repr

/-- A text is written while the lock is held. -/
def critical (text : List α) : List (Instr α) := .lock :: (text.map .write ++ [.unlock])

/-- The lock, what the processors still have to do, and what the device has got. -/
structure State (ι α : Type*) where
  locked : Bool
  code : ι → List (Instr α)
  out : List α

/-- Nobody has anything to do. -/
def idle (ι α : Type*) : State ι α where
  locked := false
  code _ := []
  out := []

/-- What happens: a processor is called to write texts, or makes a step. -/
inductive Event (ι α : Type*) where
  | call (p : ι) (texts : List (List α))
  | step (p : ι)

variable [DecidableEq ι]

/-- A processor makes a step.  The lock is a test-and-set in a loop, and one step is one test. -/
def tick (p : ι) (s : State ι α) : State ι α :=
  match s.code p with
  | [] => s
  | .lock :: is =>
    if s.locked then s else { s with locked := true, code := Function.update s.code p is }
  | .write a :: is => { s with code := Function.update s.code p is, out := s.out ++ [a] }
  | .unlock :: is => { s with locked := false, code := Function.update s.code p is }

/-- One event. -/
def Event.apply (s : State ι α) : Event ι α → State ι α
  | .call p texts =>
    { s with code := Function.update s.code p (texts.flatMap critical ++ s.code p) }
  | .step p => tick p s

/-- A run. -/
def run (es : List (Event ι α)) (s : State ι α) : State ι α := es.foldl Event.apply s

omit [DecidableEq ι] in
/-- The texts that an event asks for. -/
def Event.asked : Event ι α → List (List α)
  | .call _ texts => texts
  | .step _ => []

/-- The texts that a run asks for. -/
def asked (es : List (Event ι α)) : Multiset (List α) := es.flatMap Event.asked

/-- A processor has taken the lock and has not given it back. -/
def Inside (s : State ι α) (p : ι) : Prop :=
  (s.code p).countP (· matches .lock) < (s.code p).countP (· matches .unlock)

/-- A processor waits for the lock that it holds itself. -/
def Obstructed (s : State ι α) : Prop := ∃ p, Inside s p ∧ ∃ is, s.code p = .lock :: is

/-! ## The work of a processor -/

/-- The texts of a processor: those it was called for last, the rest of the one in which it holds
the lock, and those that it put off. -/
structure Work (α : Type*) where
  above : List (List α)
  current : Option (List α)
  below : List (List α)

namespace Work

/-- The instructions of a text in which the lock was taken. -/
def rest : Option (List α) → List (Instr α)
  | none => []
  | some text => text.map .write ++ [.unlock]

def code (w : Work α) : List (Instr α) :=
  w.above.flatMap critical ++ (rest w.current ++ w.below.flatMap critical)

/-- The text that was begun, of which the device has got `front`. -/
def begun (front : List α) : Option (List α) → Multiset (List α)
  | none => 0
  | some text => {front ++ text}

/-- All texts of a processor. -/
def texts (front : List α) (w : Work α) : Multiset (List α) :=
  w.above + (begun front w.current + w.below)

variable {w : Work α} {front : List α}

lemma texts_of_none (h : w.current = none) (front front' : List α) :
    w.texts front = w.texts front' := by
  rw [texts, texts, h]
  rfl

lemma countP_critical (texts : List (List α)) :
    (texts.flatMap critical).countP (· matches .lock) = texts.length ∧
      (texts.flatMap critical).countP (· matches .unlock) = texts.length := by
  induction texts with
  | nil => exact ⟨rfl, rfl⟩
  | cons t ts ih =>
    have hwrite : ∀ f : Instr α → Bool, (∀ a, f (.write a) = false) →
        (t.map Instr.write).countP f = 0 :=
      fun f hf => by simp [List.countP_eq_zero, hf]
    rw [List.flatMap_cons, List.countP_append, List.countP_append, ih.1, ih.2, critical,
      List.length_cons]
    simp [List.countP_append, hwrite, Nat.add_comm]

lemma lt_countP_code_iff : w.code.countP (· matches .lock) < w.code.countP (· matches .unlock) ↔
    w.current.isSome = true := by
  obtain ⟨habove, habove'⟩ := countP_critical w.above
  obtain ⟨hbelow, hbelow'⟩ := countP_critical w.below
  rw [code, List.countP_append, List.countP_append, List.countP_append, List.countP_append, habove,
    habove', hbelow, hbelow']
  cases w.current with
  | none => simp [rest]
  | some text =>
    have hwrite : ∀ f : Instr α → Bool, (∀ a, f (.write a) = false) →
        (text.map Instr.write).countP f = 0 :=
      fun f hf => by simp [List.countP_eq_zero, hf]
    simp [rest, List.countP_append, hwrite]

/-- A processor that does not hold the lock has nothing to do or asks for it. -/
lemma code_of_none (h : w.current = none) : w.code = [] ∨ ∃ is, w.code = .lock :: is := by
  rw [code, h, rest, List.nil_append, ← List.flatMap_append]
  cases w.above ++ w.below with
  | nil => exact .inl rfl
  | cons t ts => exact .inr ⟨_, rfl⟩

end Work

/-! ## What holds in every run -/

variable [Fintype ι]

/-- Texts were written as a whole, and at most one processor is in the middle of one more. -/
structure Serial (s : State ι α) (asked : Multiset (List α)) (done : List (List α)) (front : List α)
    (work : ι → Work α) : Prop where
  code : ∀ p, s.code p = (work p).code
  unique : ∀ p q, (work p).current.isSome → (work q).current.isSome → p = q
  locked : s.locked = true ↔ ∃ p, (work p).current.isSome
  out : s.out = done.flatten ++ front
  fresh : (∀ p, (work p).current = none) → front = []
  asked : asked = (done : Multiset (List α)) + ∑ p, (work p).texts front

/-- No processor was called while it held the lock. -/
def Calm (work : ι → Work α) : Prop := ∀ p, (work p).current.isSome → (work p).above = []

variable {s : State ι α} {todo : Multiset (List α)} {done : List (List α)} {front : List α}
  {work : ι → Work α} {p : ι}

/-- The work of one processor changes, and the others hold no lock. -/
lemma sum_texts_update (hothers : ∀ q, q ≠ p → (work q).current = none) (front front' : List α)
    (w : Work α) : ∑ q, (Function.update work p w q).texts front' + (work p).texts front =
      ∑ q, (work q).texts front + w.texts front' := by
  have hrest : ∑ q ∈ Finset.univ.erase p, (Function.update work p w q).texts front' =
      ∑ q ∈ Finset.univ.erase p, (work q).texts front := by
    refine Finset.sum_congr rfl fun q hq => ?_
    have hne : q ≠ p := Finset.ne_of_mem_erase hq
    rw [Function.update_of_ne hne]
    exact Work.texts_of_none (hothers q hne) front' front
  rw [← Finset.add_sum_erase _ _ (Finset.mem_univ p),
    ← Finset.add_sum_erase _ (fun q => (work q).texts front) (Finset.mem_univ p), hrest,
    Function.update_self]
  abel

omit [DecidableEq ι] in
lemma serial_idle : Serial (idle ι α) 0 [] [] fun _ => ⟨[], none, []⟩ where
  code _ := rfl
  unique _ _ h := absurd h (by simp)
  locked := by simp [idle]
  out := rfl
  fresh _ := rfl
  asked := by simp [Work.texts, Work.begun]

omit [DecidableEq ι] in
lemma Serial.none_of_ne (h : Serial s todo done front work) {q : ι} (hp : (work p).current.isSome)
    (hq : q ≠ p) : (work q).current = none := by
  rw [← Option.not_isSome_iff_eq_none]
  exact fun hsome => hq (h.unique q p hsome hp)

omit [DecidableEq ι] in
lemma Serial.none_of_unlocked (h : Serial s todo done front work) (hs : s.locked = false) (q : ι) :
    (work q).current = none := by
  rw [← Option.not_isSome_iff_eq_none]
  intro hsome
  rw [h.locked.mpr ⟨q, hsome⟩] at hs
  contradiction

omit [Fintype ι] in
/-- A processor that waits. -/
lemma tick_lock {is : List (Instr α)} (hs : s.locked = true) (hp : s.code p = .lock :: is) :
    tick p s = s := by
  simp [tick, hp, hs]

/-- A processor is called. -/
lemma Serial.call (h : Serial s todo done front work) (p : ι) (texts : List (List α)) :
    Serial (Event.apply s (.call p texts)) (texts + todo) done front
      (Function.update work p ⟨texts ++ (work p).above, (work p).current, (work p).below⟩) := by
  have hcurrent : ∀ q, (Function.update work p
    ⟨texts ++ (work p).above, (work p).current, (work p).below⟩ q).current = (work q).current := by
    intro q
    by_cases hq : q = p
    · subst hq
      rw [Function.update_self]
    · rw [Function.update_of_ne hq]
  refine ⟨fun q => ?_, fun q r => ?_, ?_, h.out, fun hnone => ?_, ?_⟩
  · by_cases hq : q = p
    · subst hq
      simp [Event.apply, Work.code, h.code]
    · simp [Event.apply, Function.update_of_ne hq, h.code]
  · rw [hcurrent, hcurrent]
    exact h.unique q r
  · simp only [hcurrent]
    exact h.locked
  · simp only [hcurrent] at hnone
    exact h.fresh hnone
  · have hsum : ∑ q, (Function.update work p
      ⟨texts ++ (work p).above, (work p).current, (work p).below⟩ q).texts front =
        (texts : Multiset (List α)) + ∑ q, (work q).texts front := by
      rw [← Finset.add_sum_erase _ _ (Finset.mem_univ p),
        ← Finset.add_sum_erase _ (fun q => (work q).texts front) (Finset.mem_univ p),
        Function.update_self]
      have hrest : ∑ q ∈ Finset.univ.erase p,
          (Function.update work p ⟨texts ++ (work p).above, (work p).current, (work p).below⟩
            q).texts front = ∑ q ∈ Finset.univ.erase p, (work q).texts front :=
        Finset.sum_congr rfl fun q hq => by rw [Function.update_of_ne (Finset.ne_of_mem_erase hq)]
      rw [hrest, Work.texts, Work.texts, ← Multiset.coe_add]
      dsimp only
      abel
    rw [hsum, h.asked]
    abel

/-- A processor takes the lock for the first of its texts. -/
lemma Serial.take (h : Serial s todo done front work) (hs : s.locked = false) {t : List α}
    {ts : List (List α)} (hp : (work p).above ++ (work p).below = t :: ts) :
    s.code p = .lock :: Work.code ⟨[], some t, ts⟩ ∧
      (tick p s).code = Function.update s.code p (Work.code ⟨[], some t, ts⟩) ∧
      Serial (tick p s) todo done front (Function.update work p ⟨[], some t, ts⟩) := by
  have hnone := h.none_of_unlocked hs
  have hfront : front = [] := h.fresh hnone
  have hcode : s.code p = .lock :: Work.code ⟨[], some t, ts⟩ := by
    rw [h.code p, Work.code, hnone p, Work.rest, List.nil_append, ← List.flatMap_append, hp,
      List.flatMap_cons]
    simp [critical, Work.code, Work.rest]
  have htick : tick p s =
      { s with locked := true, code := Function.update s.code p (Work.code ⟨[], some t, ts⟩) } := by
    simp [tick, hcode, hs]
  refine ⟨hcode, by rw [htick], ?_⟩
  rw [htick]
  have hcurrent : ∀ q, (Function.update work p ⟨[], some t, ts⟩ q).current.isSome ↔ q = p := by
    intro q
    by_cases hq : q = p
    · subst hq
      simp
    · simp [hnone q, hq]
  refine ⟨fun q => ?_, fun q r hq hr => ?_, ?_, h.out, fun hall => ?_, ?_⟩
  · by_cases hq : q = p
    · subst hq
      simp
    · simp [Function.update_of_ne hq, h.code]
  · rw [(hcurrent q).mp hq, (hcurrent r).mp hr]
  · exact iff_of_true rfl ⟨p, (hcurrent p).mpr rfl⟩
  · exact hfront
  · have htexts : (work p).texts front = Work.texts front ⟨[], some t, ts⟩ := by
      have happend : ((work p).above : Multiset (List α)) + (work p).below = t ::ₘ
          (ts : Multiset (List α)) := by
        rw [Multiset.coe_add, hp, Multiset.cons_coe]
      rw [Work.texts, Work.texts, hnone p, Work.begun, Work.begun, zero_add, happend, hfront]
      simp
    have hsum := sum_texts_update (p := p) (fun q _ => hnone q) front front ⟨[], some t, ts⟩
    rw [htexts] at hsum
    rw [add_right_cancel hsum]
    exact h.asked

/-- The processor that holds the lock writes. -/
lemma Serial.write (h : Serial s todo done front work) {a : α} {text : List α} {ts : List (List α)}
    (hp : work p = ⟨[], some (a :: text), ts⟩) :
    s.code p = .write a :: Work.code ⟨[], some text, ts⟩ ∧
      (tick p s).code = Function.update s.code p (Work.code ⟨[], some text, ts⟩) ∧
      Serial (tick p s) todo done (front ++ [a]) (Function.update work p ⟨[], some text, ts⟩) := by
  have hsome : (work p).current.isSome := by rw [hp]; rfl
  have hcode : s.code p = .write a :: Work.code ⟨[], some text, ts⟩ := by
    rw [h.code p, hp]
    rfl
  have htick : tick p s =
      { s with
        code := Function.update s.code p (Work.code ⟨[], some text, ts⟩)
        out := s.out ++ [a] } := by
    simp [tick, hcode]
  refine ⟨hcode, by rw [htick], ?_⟩
  rw [htick]
  have hcurrent : ∀ q, (Function.update work p ⟨[], some text, ts⟩ q).current.isSome ↔ q = p := by
    intro q
    by_cases hq : q = p
    · subst hq
      simp
    · simp [h.none_of_ne hsome hq, hq]
  refine ⟨fun q => ?_, fun q r hq hr => ?_, ?_, ?_, fun hall => ?_, ?_⟩
  · by_cases hq : q = p
    · subst hq
      simp
    · simp [Function.update_of_ne hq, h.code]
  · rw [(hcurrent q).mp hq, (hcurrent r).mp hr]
  · exact iff_of_true (h.locked.mpr ⟨p, hsome⟩) ⟨p, (hcurrent p).mpr rfl⟩
  · rw [h.out, List.append_assoc]
  · have hnone := hall p
    rw [Function.update_self] at hnone
    contradiction
  · have htexts : (work p).texts front = Work.texts (front ++ [a]) ⟨[], some text, ts⟩ := by
      rw [hp]
      simp [Work.texts, Work.begun]
    have hsum := sum_texts_update (p := p) (fun q hq => h.none_of_ne hsome hq) front (front ++ [a])
      ⟨[], some text, ts⟩
    rw [htexts] at hsum
    rw [add_right_cancel hsum]
    exact h.asked

/-- The processor that holds the lock gives it back. -/
lemma Serial.release (h : Serial s todo done front work) {ts : List (List α)}
    (hp : work p = ⟨[], some [], ts⟩) : s.code p = .unlock :: Work.code ⟨[], none, ts⟩ ∧
      (tick p s).code = Function.update s.code p (Work.code ⟨[], none, ts⟩) ∧
      Serial (tick p s) todo (done ++ [front]) [] (Function.update work p ⟨[], none, ts⟩) := by
  have hsome : (work p).current.isSome := by rw [hp]; rfl
  have hcode : s.code p = .unlock :: Work.code ⟨[], none, ts⟩ := by
    rw [h.code p, hp]
    rfl
  have htick : tick p s =
      { s with locked := false, code := Function.update s.code p (Work.code ⟨[], none, ts⟩) } := by
    simp [tick, hcode]
  refine ⟨hcode, by rw [htick], ?_⟩
  rw [htick]
  have hnone : ∀ q, (Function.update work p ⟨[], none, ts⟩ q).current = none := by
    intro q
    by_cases hq : q = p
    · subst hq
      simp
    · rw [Function.update_of_ne hq, h.none_of_ne hsome hq]
  refine ⟨fun q => ?_, fun q r hq => ?_, ?_, ?_, fun _ => rfl, ?_⟩
  · by_cases hq : q = p
    · subst hq
      simp
    · simp [Function.update_of_ne hq, h.code]
  · rw [hnone q] at hq
    contradiction
  · refine iff_of_false (by simp) ?_
    rintro ⟨q, hq⟩
    rw [hnone q] at hq
    contradiction
  · simp [h.out]
  · have htexts : (work p).texts front = {front} + Work.texts [] ⟨[], none, ts⟩ := by
      rw [hp]
      simp [Work.texts, Work.begun]
    have hsum := sum_texts_update (p := p) (fun q hq => h.none_of_ne hsome hq) front []
      ⟨[], none, ts⟩
    rw [htexts, ← add_assoc] at hsum
    have hdone : ((done ++ [front] : List (List α)) : Multiset (List α)) = done + {front} := by
      rw [← Multiset.coe_add]
      rfl
    rw [h.asked, hdone, ← add_right_cancel hsum]
    abel

/-- What a step of a processor can be. -/
lemma Serial.tick_cases (h : Serial s todo done front work) (p : ι) :
    tick p s = s ∧ (s.code p = [] ∨ s.locked = true ∧ ∃ is, s.code p = .lock :: is) ∨
      ∃ done' front' w i, s.code p = i :: Work.code w ∧
        (tick p s).code = Function.update s.code p w.code ∧
        Serial (tick p s) todo done' front' (Function.update work p w) ∧ w.above = [] := by
  -- a processor that wants the lock waits or takes it
  have hlock : ∀ t ts is, s.code p = .lock :: is →
      (s.locked = false → (work p).above ++ (work p).below = t :: ts) →
      tick p s = s ∧ (s.code p = [] ∨ s.locked = true ∧ ∃ is, s.code p = .lock :: is) ∨
        ∃ done' front' w i, s.code p = i :: Work.code w ∧
          (tick p s).code = Function.update s.code p w.code ∧
          Serial (tick p s) todo done' front' (Function.update work p w) ∧ w.above = [] := by
    intro t ts is his hp
    cases hs : s.locked with
    | true => exact .inl ⟨tick_lock hs his, .inr ⟨rfl, is, his⟩⟩
    | false =>
      obtain ⟨hcode, hupdate, hserial⟩ := h.take hs (hp hs)
      exact .inr ⟨_, _, _, _, hcode, hupdate, hserial, rfl⟩
  have hcode := h.code p
  rcases hw : work p with ⟨_ | ⟨t, ts⟩, _ | _ | ⟨a, text⟩, below⟩
  · rw [hw] at hcode hlock
    cases below with
    | nil =>
      have hnil : s.code p = [] := hcode
      exact .inl ⟨by simp [tick, hnil], .inl hnil⟩
    | cons t ts => exact hlock t ts _ hcode fun _ => rfl
  · obtain ⟨hcode, hupdate, hserial⟩ := h.release hw
    exact .inr ⟨_, _, _, _, hcode, hupdate, hserial, rfl⟩
  · obtain ⟨hcode, hupdate, hserial⟩ := h.write hw
    exact .inr ⟨_, _, _, _, hcode, hupdate, hserial, rfl⟩
  all_goals
    rw [hw] at hcode hlock
    exact hlock t (ts ++ below) _ hcode fun _ => rfl

/-! ## Runs -/

omit [DecidableEq ι] [Fintype ι] in
lemma asked_append (es : List (Event ι α)) (e : Event ι α) :
    asked (es ++ [e]) = (e.asked : Multiset (List α)) + asked es := by
  rw [asked, asked, List.flatMap_append, ← Multiset.coe_add, add_comm, List.flatMap_singleton]

/-- The texts that were asked for are written, or a processor has them. -/
lemma exists_serial (es : List (Event ι α)) :
    ∃ done front work, Serial (run es (idle ι α)) (asked es) done front work := by
  induction es using List.reverseRecOn with
  | nil => exact ⟨_, _, _, serial_idle⟩
  | append_singleton es e ih =>
    obtain ⟨done, front, work, h⟩ := ih
    have hrun : run (es ++ [e]) (idle ι α) = e.apply (run es (idle ι α)) := List.foldl_append
    rw [hrun, asked_append]
    cases e with
    | call p texts => exact ⟨_, _, _, h.call p texts⟩
    | step p =>
      have hnone : ((Event.step p : Event ι α).asked : Multiset (List α)) = 0 := rfl
      rw [hnone, zero_add]
      rcases h.tick_cases p with ⟨heq, -⟩ | ⟨done', front', w, i, -, -, hserial, -⟩
      · rw [Event.apply, heq]
        exact ⟨_, _, _, h⟩
      · exact ⟨_, _, _, hserial⟩

omit [DecidableEq ι] in
/-- The device has got whole texts, and the beginning of one more. -/
lemma Serial.whole (h : Serial s todo done front work) :
    (done : Multiset (List α)) ≤ todo ∧
      (front = [] ∨ ∃ text, front <+: text ∧ (done : Multiset (List α)) + {text} ≤ todo) := by
  have hle : (done : Multiset (List α)) ≤ todo := by
    rw [h.asked]
    exact Multiset.le_add_right _ _
  refine ⟨hle, ?_⟩
  by_cases hnone : ∀ p, (work p).current = none
  · exact .inl (h.fresh hnone)
  · obtain ⟨p, hp⟩ := not_forall.mp hnone
    obtain ⟨text, htext⟩ := Option.ne_none_iff_exists'.mp hp
    refine .inr ⟨front ++ text, List.prefix_append front text, ?_⟩
    have hsingle : ({front ++ text} : Multiset (List α)) ≤ (work p).texts front := by
      rw [Work.texts, htext, Work.begun]
      exact (Multiset.le_add_right _ _).trans (Multiset.le_add_left _ _)
    rw [h.asked]
    exact add_le_add le_rfl (hsingle.trans (Finset.single_le_sum (fun _ _ => Multiset.zero_le _)
      (Finset.mem_univ p)))

/-- **Texts are neither mixed nor written twice**, in whatever order the processors make their
steps. -/
theorem written_whole (es : List (Event ι α)) :
    ∃ (done : List (List α)) (front : List α), (run es (idle ι α)).out = done.flatten ++ front ∧
      (done : Multiset (List α)) ≤ asked es ∧
      (front = [] ∨ ∃ text, front <+: text ∧ (done : Multiset (List α)) + {text} ≤ asked es) := by
  obtain ⟨done, front, work, h⟩ := exists_serial es
  exact ⟨done, front, h.out, h.whole⟩

/-! ## Waiting for the lock -/

omit [DecidableEq ι] in
lemma Serial.holds_iff (h : Serial s todo done front work) :
    Inside s p ↔ (work p).current.isSome := by
  rw [Inside, h.code p]
  exact Work.lt_countP_code_iff

/-- When a processor waits for itself, all processors wait. -/
lemma Serial.stuck (h : Serial s todo done front work) (ho : Obstructed s) (q : ι) :
    tick q s = s := by
  obtain ⟨p, hp, is, his⟩ := ho
  have hsome := h.holds_iff.mp hp
  have hlocked : s.locked = true := h.locked.mpr ⟨p, hsome⟩
  by_cases hq : q = p
  · rw [hq]
    exact tick_lock hlocked his
  · rcases Work.code_of_none (h.none_of_ne hsome hq) with hnil | ⟨is', his'⟩
    · rw [← h.code q] at hnil
      simp [tick, hnil]
    · rw [← h.code q] at his'
      exact tick_lock hlocked his'

omit [Fintype ι] in
lemma Calm.update (h : Calm work) {w : Work α} (hw : w.current.isSome → w.above = []) :
    Calm (Function.update work p w) := by
  intro q hq
  by_cases hqp : q = p
  · subst hqp
    rw [Function.update_self] at hq ⊢
    exact hw hq
  · rw [Function.update_of_ne hqp] at hq ⊢
    exact h q hq

/-- The number of instructions that are left. -/
def left (s : State ι α) : ℕ := ∑ p, (s.code p).length

/-- A step of a processor that does not wait takes one instruction away. -/
lemma Serial.advance (h : Serial s todo done front work) (hcalm : Calm work)
    (hp : ¬ (s.code p = [] ∨ s.locked = true ∧ ∃ is, s.code p = .lock :: is)) :
    ∃ done' front' work', Serial (tick p s) todo done' front' work' ∧ Calm work' ∧
      left (tick p s) < left s := by
  rcases h.tick_cases p with ⟨-, hwaits⟩ | ⟨done', front', w, i, hcode, hupdate, hserial, habove⟩
  · exact absurd hwaits hp
  refine ⟨done', front', _, hserial, hcalm.update fun _ => habove, ?_⟩
  have hrest : ∀ q ∈ Finset.univ.erase p,
      ((tick p s).code q).length = (s.code q).length := fun q hq => by
    rw [hupdate, Function.update_of_ne (Finset.ne_of_mem_erase hq)]
  rw [left, left, ← Finset.add_sum_erase _ _ (Finset.mem_univ p),
    ← Finset.add_sum_erase _ (fun q => (s.code q).length) (Finset.mem_univ p),
    Finset.sum_congr rfl hrest, hcode, hupdate, Function.update_self, List.length_cons]
  omega

omit [DecidableEq ι] in
/-- When nothing is left, all texts are written. -/
lemma Serial.written (h : Serial s todo done front work) (hcode : ∀ p, s.code p = []) :
    (done : Multiset (List α)) = todo ∧ s.out = done.flatten := by
  have hempty : ∀ p, work p = ⟨[], none, []⟩ := by
    intro p
    have hp := hcode p
    rw [h.code p] at hp
    rcases hw : work p with ⟨_ | ⟨t, ts⟩, _ | _ | ⟨a, text⟩, _ | ⟨u, us⟩⟩ <;> rw [hw] at hp <;>
      first | rfl | simp [Work.code, Work.rest, critical] at hp
  have hfront : front = [] := h.fresh fun p => by rw [hempty p]
  refine ⟨?_, by rw [h.out, hfront, List.append_nil]⟩
  rw [h.asked]
  simp [hempty, Work.texts, Work.begun]

end SpinLock
