import Mathlib

/-!
# Runs under a schedule

A system makes a step for every action of a schedule; a step may fail, and then the run ends.
`Along P` says that the condition `P` holds at every action of a run, in the state before it, and
`Always Q` that `Q` holds in every state of a run.

The two rules at the end derive one from the other: an invariant that every step under the
condition keeps, and a step outside the condition that leads out of `Q`.
-/

namespace Runs

variable {σ α : Type*} (step : α → σ → Option σ)

/-- The state after the actions of a schedule. -/
def exec : List α → σ → Option σ
  | [], s => some s
  | a :: as, s => (step a s).bind (exec as)

/-- The condition holds at every action of the run. -/
def Along (P : σ → α → Prop) : List α → σ → Prop
  | [], _ => True
  | a :: as, s => P s a ∧ ∀ s', step a s = some s' → Along P as s'

/-- `Along` as a computation. -/
def checkAlong (p : σ → α → Bool) : List α → σ → Bool
  | [], _ => true
  | a :: as, s => p s a && (step a s).all (checkAlong p as)

lemma checkAlong_iff (P : σ → α → Prop) [∀ s a, Decidable (P s a)] (as : List α) (s : σ) :
    checkAlong step (fun s a => decide (P s a)) as s = true ↔ Along step P as s := by
  induction as generalizing s with
  | nil => simp [checkAlong, Along]
  | cons a as ih => simp [checkAlong, Along, Option.all_eq_true, ih]

instance (P : σ → α → Prop) [∀ s a, Decidable (P s a)] (as : List α) (s : σ) :
    Decidable (Along step P as s) :=
  decidable_of_iff _ (checkAlong_iff step P as s)

/-- The property holds in every state of the run. -/
def Always (Q : σ → Prop) : List α → σ → Prop
  | [], s => Q s
  | a :: as, s => Q s ∧ ∀ s', step a s = some s' → Always Q as s'

variable {step} {P : σ → α → Prop} {Q Inv : σ → Prop} {as bs : List α} {s s' : σ}

lemma exec_append : exec step (as ++ bs) s = (exec step as s).bind (exec step bs) := by
  induction as generalizing s with
  | nil => rfl
  | cons a as ih =>
    rw [List.cons_append, exec, exec]
    cases step a s with
    | none => rfl
    | some s₁ => exact ih

/-- An invariant that every step keeps holds at the end of a run. -/
lemma exec_inv (hstep : ∀ s a s', Inv s → step a s = some s' → Inv s') (hs : Inv s)
    (he : exec step as s = some s') : Inv s' := by
  induction as generalizing s with
  | nil =>
    rw [← Option.some.inj he]
    exact hs
  | cons a as ih =>
    obtain ⟨s₁, h₁, he⟩ := Option.bind_eq_some_iff.mp he
    exact ih (hstep s a s₁ hs h₁) he

lemma Always.head (h : Always step Q as s) : Q s := by
  cases as with
  | nil => exact h
  | cons a as => exact h.1

/-- The property holds at the end of the run. -/
lemma Always.exec (h : Always step Q as s) (he : exec step as s = some s') : Q s' := by
  induction as generalizing s with
  | nil =>
    rw [← Option.some.inj he]
    exact h
  | cons a as ih =>
    obtain ⟨s₁, h₁, he⟩ := Option.bind_eq_some_iff.mp he
    exact ih (h.2 s₁ h₁) he

lemma Along.mono {P' : σ → α → Prop} (hP : ∀ s a, P s a → P' s a) (h : Along step P as s) :
    Along step P' as s := by
  induction as generalizing s with
  | nil => trivial
  | cons a as ih => exact ⟨hP s a h.1, fun s' hs' => ih (h.2 s' hs')⟩

/-- The condition holds along the rest of the run. -/
lemma Along.rest (h : Along step P (as ++ bs) s) (he : exec step as s = some s') :
    Along step P bs s' := by
  induction as generalizing s with
  | nil =>
    rw [← Option.some.inj he]
    exact h
  | cons a as ih =>
    obtain ⟨s₁, h₁, he⟩ := Option.bind_eq_some_iff.mp he
    exact ih (h.2 s₁ h₁) he

/-- The condition holds along the first part of the run. -/
lemma Along.first (h : Along step P (as ++ bs) s) : Along step P as s := by
  induction as generalizing s with
  | nil => trivial
  | cons a as ih => exact ⟨h.1, fun s' hs' => ih (h.2 s' hs')⟩

lemma Along.and {P' : σ → α → Prop} (h : Along step P as s) (h' : Along step P' as s) :
    Along step (fun s a => P s a ∧ P' s a) as s := by
  induction as generalizing s with
  | nil => trivial
  | cons a as ih => exact ⟨⟨h.1, h'.1⟩, fun s' hs' => ih (h.2 s' hs') (h'.2 s' hs')⟩

/-- A run in which every action can be taken comes to its end. -/
lemma Along.exec_some (hP : ∀ s a, P s a → ∃ s', step a s = some s') (h : Along step P as s) :
    ∃ s', exec step as s = some s' := by
  induction as generalizing s with
  | nil => exact ⟨s, rfl⟩
  | cons a as ih =>
    obtain ⟨s₁, h₁⟩ := hP s a h.1
    obtain ⟨s', he⟩ := ih (h.2 s₁ h₁)
    exact ⟨s', by rw [exec, h₁, Option.bind_some, he]⟩

/-- A condition that keeps an invariant implies another one. -/
lemma Along.imp {P' : σ → α → Prop} (hstep : ∀ s a s', Inv s → P s a → step a s = some s' → Inv s')
    (hP : ∀ s a, Inv s → P s a → P' s a) (h : Along step P as s) (hs : Inv s) :
    Along step P' as s := by
  induction as generalizing s with
  | nil => trivial
  | cons a as ih =>
    exact ⟨hP s a hs h.1, fun s' hs' => ih (h.2 s' hs') (hstep s a s' hs h.1 hs')⟩

/-- In a run to its end, a condition that every step needs to stay inside the property is met. -/
lemma Along.of_always {A : σ → α → Prop}
    (hstep : ∀ s a s', Inv s → A s a → P s a → step a s = some s' → Inv s')
    (hneed : ∀ s a s', Inv s → A s a → step a s = some s' → Q s' → P s a)
    (hQ : Always step Q as s) (hA : Along step A as s) (he : exec step as s = some s')
    (hs : Inv s) : Along step P as s := by
  induction as generalizing s with
  | nil => trivial
  | cons a as ih =>
    obtain ⟨s₁, h₁, he⟩ := Option.bind_eq_some_iff.mp he
    have hP : P s a := hneed s a s₁ hs hA.1 h₁ (hQ.2 s₁ h₁).head
    refine ⟨hP, fun s₂ h₂ => ?_⟩
    obtain rfl := Option.some.inj (h₁.symm.trans h₂)
    exact ih (hQ.2 s₁ h₁) (hA.2 s₁ h₁) he (hstep s a s₁ hs hA.1 hP h₁)

/-- The invariant rule. -/
lemma Along.always (hstep : ∀ s a s', Inv s → P s a → step a s = some s' → Inv s')
    (hQ : ∀ s, Inv s → Q s) (h : Along step P as s) (hs : Inv s) : Always step Q as s := by
  induction as generalizing s with
  | nil => exact hQ s hs
  | cons a as ih =>
    exact ⟨hQ s hs, fun s' hs' => ih (h.2 s' hs') (hstep s a s' hs h.1 hs')⟩

/-- If a step outside the condition leads out of the property, the condition is necessary. -/
lemma Always.along (hstep : ∀ s a s', Inv s → P s a → step a s = some s' → Inv s')
    (hbad : ∀ s a, Inv s → ¬ P s a → ∃ s', step a s = some s' ∧ ¬ Q s')
    (h : Always step Q as s) (hs : Inv s) : Along step P as s := by
  induction as generalizing s with
  | nil => trivial
  | cons a as ih =>
    have hP : P s a := by
      by_contra hP
      obtain ⟨s', hs', hQ⟩ := hbad s a hs hP
      exact hQ (h.2 s' hs').head
    exact ⟨hP, fun s' hs' => ih (h.2 s' hs') (hstep s a s' hs hP hs')⟩

/-! ## Conditions on the actions alone -/

variable {C : α → Prop}

/-- In a run to its end, what an invariant gives at every action and in every state. -/
lemma along_always (hstep : ∀ s a s', Inv s → C a → step a s = some s' → P s a ∧ Inv s')
    (hQ : ∀ s, Inv s → Q s) (hC : ∀ a ∈ as, C a) (he : exec step as s = some s') (hs : Inv s) :
    Always step Q as s ∧ Along step P as s := by
  induction as generalizing s with
  | nil => exact ⟨hQ s hs, trivial⟩
  | cons a as ih =>
    obtain ⟨s₁, h₁, he⟩ := Option.bind_eq_some_iff.mp he
    obtain ⟨hP, hs₁⟩ := hstep s a s₁ hs (hC a List.mem_cons_self) h₁
    have ih := ih (fun b hb => hC b (List.mem_cons_of_mem _ hb)) he hs₁
    refine ⟨⟨hQ s hs, fun s₂ h₂ => ?_⟩, ⟨hP, fun s₂ h₂ => ?_⟩⟩
    · rw [← Option.some.inj (h₁.symm.trans h₂)]
      exact ih.1
    · rw [← Option.some.inj (h₁.symm.trans h₂)]
      exact ih.2

/-- If an action outside the condition leads out of the property, then all actions of a run to
its end meet the condition. -/
lemma forall_mem_of_always (hstep : ∀ s a s', Inv s → C a → step a s = some s' → Inv s')
    (hbad : ∀ s a s', Inv s → ¬ C a → step a s = some s' → ¬ Q s')
    (h : Always step Q as s) (he : exec step as s = some s') (hs : Inv s) : ∀ a ∈ as, C a := by
  induction as generalizing s with
  | nil => simp
  | cons a as ih =>
    obtain ⟨s₁, h₁, he⟩ := Option.bind_eq_some_iff.mp he
    have hC : C a := by
      by_contra hC
      exact hbad s a s₁ hs hC h₁ (h.2 s₁ h₁).head
    exact List.forall_mem_cons.mpr ⟨hC, ih (h.2 s₁ h₁) he (hstep s a s₁ hs hC h₁)⟩

end Runs
