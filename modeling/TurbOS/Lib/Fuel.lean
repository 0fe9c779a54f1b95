import Mathlib

/-!
# Computations with fuel

A loop that need not end is run with a bound on its number of rounds: `none` means
that the bound was too small, or that the program waits forever or faults.  A result,
once it is there, does not depend on the bound.

`Meets enough o Q` is the specification of such a computation: if it returns, its
result satisfies `Q`, and under the condition `enough` it does return.  The rules
below build specifications along `bind`, conditionals and loops; the loop rule asks
for an invariant with a bound on the rounds to come, which every round lowers.
-/

namespace Fuel

variable {σ α β : Type*}

/-- Run a loop body until it produces a result: the body either goes round again with
a new state or leaves the loop with a result. -/
def loop (body : σ → Option (σ ⊕ α)) : ℕ → σ → Option α
  | 0, _ => none
  | n + 1, s =>
    match body s with
    | none => none
    | some (.inl s') => loop body n s'
    | some (.inr a) => some a

/-- The computation `o` returns only results in `Q`, and it does return one when
`enough` holds. -/
def Meets (enough : Prop) (o : Option α) (Q : α → Prop) : Prop :=
  (∀ a, o = some a → Q a) ∧ (enough → ∃ a, o = some a)

namespace Meets

variable {enough : Prop} {o : Option α} {Q R : α → Prop}

lemma post (h : Meets enough o Q) {a : α} (ha : o = some a) : Q a := h.1 a ha

lemma returns (h : Meets enough o Q) (he : enough) : ∃ a, o = some a ∧ Q a := by
  obtain ⟨a, ha⟩ := h.2 he
  exact ⟨a, ha, h.1 a ha⟩

lemma pure {a : α} (h : Q a) : Meets enough (some a) Q := by
  refine ⟨fun b hb => ?_, fun _ => ⟨a, rfl⟩⟩
  rw [← Option.some.inj hb]
  exact h

lemma mono (h : Meets enough o Q) (hQ : ∀ a, Q a → R a) : Meets enough o R :=
  ⟨fun a ha => hQ a (h.1 a ha), h.2⟩

lemma of_imp {enough' : Prop} (h : Meets enough o Q) (he : enough' → enough) :
    Meets enough' o Q :=
  ⟨h.1, fun h' => h.2 (he h')⟩

lemma bind {f : α → Option β} {S : β → Prop} (h : Meets enough o Q)
    (hf : ∀ a, Q a → Meets enough (f a) S) : Meets enough (o.bind f) S := by
  refine ⟨fun b hb => ?_, fun he => ?_⟩
  · obtain ⟨a, ha, hfa⟩ := Option.bind_eq_some_iff.mp hb
    exact (hf a (h.1 a ha)).1 b hfa
  · obtain ⟨a, ha, hQ⟩ := h.returns he
    obtain ⟨b, hb⟩ := (hf a hQ).2 he
    exact ⟨b, by rw [ha]; exact hb⟩

lemma map {f : α → β} {S : β → Prop} (h : Meets enough o Q) (hf : ∀ a, Q a → S (f a)) :
    Meets enough (o.map f) S := by
  rw [Option.map_eq_bind]
  exact h.bind fun a ha => pure (hf a ha)

end Meets

/-! ## More results -/

/-- What the first computation returns, the second one returns too. -/
def Le (o o' : Option α) : Prop := ∀ a, o = some a → o' = some a

namespace Le

lemma refl (o : Option α) : Le o o := fun _ h => h

lemma none (o : Option α) : Le none o := fun _ h => by simp at h

lemma bind {o o' : Option α} {f f' : α → Option β} (h : Le o o') (hf : ∀ a, Le (f a) (f' a)) :
    Le (o.bind f) (o'.bind f') := by
  intro b hb
  obtain ⟨a, ha, hb⟩ := Option.bind_eq_some_iff.mp hb
  rw [h a ha]
  exact hf a b hb

lemma map {o o' : Option α} (h : Le o o') (f : α → β) : Le (o.map f) (o'.map f) := by
  rw [Option.map_eq_bind, Option.map_eq_bind]
  exact h.bind fun a => refl _

end Le

/-! ## Loops -/

section Loop

variable {body : σ → Option (σ ⊕ α)}

lemma loop_succ (n : ℕ) (s : σ) :
    loop body (n + 1) s = (body s).bind (Sum.elim (loop body n) some) := by
  rw [loop]
  rcases body s with _ | s' | a <;> rfl

/-- A result does not depend on the fuel. -/
lemma loop_mono {n n' : ℕ} (hn : n ≤ n') {s : σ} {a : α} (h : loop body n s = some a) :
    loop body n' s = some a := by
  induction n generalizing n' s with
  | zero => simp [loop] at h
  | succ n ih =>
    obtain ⟨k, rfl⟩ : ∃ k, n' = k + 1 := ⟨n' - 1, by omega⟩
    rw [loop_succ] at h ⊢
    rcases hb : body s with _ | s' | b
    · simp [hb] at h
    · simp only [hb, Option.bind_some, Sum.elim_inl] at h ⊢
      exact ih (by omega) h
    · simpa [hb] using h

/-- A loop whose body returns more returns more. -/
lemma loop_le {body' : σ → Option (σ ⊕ α)} (hbody : ∀ s, Le (body s) (body' s)) {n n' : ℕ}
    (hn : n ≤ n') (s : σ) : Le (loop body n s) (loop body' n' s) := by
  induction n generalizing n' s with
  | zero => exact .none _
  | succ n ih =>
    obtain ⟨k, rfl⟩ : ∃ k, n' = k + 1 := ⟨n' - 1, by omega⟩
    rw [loop_succ, loop_succ]
    refine (hbody s).bind fun r => ?_
    cases r with
    | inl s' => exact ih (by omega) s'
    | inr a => exact .refl _

/-- The loop rule.  `Inv k s` says that the state `s` is fine and that `k` bounds the
rounds to come.  Every round keeps it for a smaller bound, or leaves the loop with a
result in `Q`; then the loop meets `Q`, and fuel above the bound suffices. -/
lemma loop_meets (enough : Prop) (Inv : ℕ → σ → Prop) {Q : α → Prop}
    (hbody : ∀ k s, Inv k s →
      Meets enough (body s) (Sum.elim (fun s' => ∃ k' < k, Inv k' s') Q))
    (n k : ℕ) (s : σ) (hs : Inv k s) : Meets (enough ∧ k < n) (loop body n s) Q := by
  induction n generalizing k s with
  | zero => exact ⟨by simp [loop], fun h => absurd h.2 (by omega)⟩
  | succ n ih =>
    rw [loop_succ]
    refine Meets.bind (Meets.of_imp (hbody k s hs) And.left) ?_
    rintro (s' | a) hr
    · obtain ⟨k', hk', hs'⟩ := hr
      exact Meets.of_imp (ih k' s' hs') fun h => ⟨h.1, by omega⟩
    · exact Meets.pure hr

/-- The loop rule for a loop that need not end: a round keeps `Inv`, or leaves the loop
with a result in `Q`. -/
lemma loop_post (Inv : σ → Prop) {Q : α → Prop}
    (hbody : ∀ s r, Inv s → body s = some r → Sum.elim Inv Q r) {n : ℕ} {s : σ} (hs : Inv s)
    {a : α} (h : loop body n s = some a) : Q a := by
  induction n generalizing s with
  | zero => simp [loop] at h
  | succ n ih =>
    rw [loop_succ] at h
    obtain ⟨r, hr, h⟩ := Option.bind_eq_some_iff.mp h
    have hstep := hbody s r hs hr
    rcases r with s' | b
    · exact ih hstep h
    · rw [← Option.some.inj h]
      exact hstep

/-- Two computations that agree up to `g` are continued by two that agree up to `h`. -/
lemma map_bind_eq {τ γ : Type*} {o : Option σ} {o' : Option τ} {g : σ → τ}
    {f : σ → Option α} {f' : τ → Option γ} {h : α → γ} (ho : o.map g = o')
    (hf : ∀ a, (f a).map h = f' (g a)) : (o.bind f).map h = o'.bind f' := by
  subst ho
  cases o with
  | none => rfl
  | some a => exact hf a

lemma map_bind_congr {o : Option σ} {f : σ → Option α} {f' : σ → Option β} {h : α → β}
    (hf : ∀ a, (f a).map h = f' a) : (o.bind f).map h = o.bind f' :=
  map_bind_eq (g := fun a => a) Option.map_id' hf

/-- A loop that carries more than another one returns the same, apart from what it carries. -/
lemma loop_map {τ β : Type*} {body' : τ → Option (τ ⊕ β)} {f : σ → τ} {g : α → β}
    (hbody : ∀ s, (body s).map (Sum.map f g) = body' (f s)) (n : ℕ) (s : σ) :
    (loop body n s).map g = loop body' n (f s) := by
  induction n generalizing s with
  | zero => rfl
  | succ n ih =>
    rw [loop_succ, loop_succ, ← hbody s]
    rcases body s with _ | s' | a
    · rfl
    · exact ih s'
    · rfl

/-- A loop that can only go round never returns. -/
lemma loop_never (Inv : σ → Prop) (hbody : ∀ s, Inv s → ∃ s', body s = some (.inl s') ∧ Inv s')
    (n : ℕ) {s : σ} (hs : Inv s) : loop body n s = none := by
  induction n generalizing s with
  | zero => rfl
  | succ n ih =>
    obtain ⟨s', hs', hinv⟩ := hbody s hs
    rw [loop_succ, hs']
    exact ih hinv

end Loop

end Fuel
