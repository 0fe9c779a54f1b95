import TurbOS.Smp.Tss

/-!
# All processors come up

`smp::init` starts the processors one after the other, and they run `cpu_init` whenever they get to
it.  Then it waits until `cpusUp` is the number of entries of the table.  In whatever order all this
happens, the counter counts the processors that are up, and the wait ends when all are.
-/

namespace TurbOS.Smp

variable {tag : SmpTag} {tss : ℕ} {s s' : State} {as : List Action} {a : Action} {j boot : ℕ}
  {lapic : UInt32}

/-- The processors that are up. -/
def upSet (tag : SmpTag) (s : State) : Finset ℕ :=
  (Finset.range tag.cpu_count).filter fun j => (s.cpus j).isUp

/-- How far the processors are. -/
def progress (s : State) : ℕ := 2 * s.i + (if s.filled then 1 else 0) + s.cpusUp

/-- What is known about the counters. -/
structure Counted (tag : SmpTag) (s : State) : Prop where
  le : s.i ≤ tag.cpu_count
  filled : s.filled → s.i < tag.cpu_count
  launched : ∀ k < s.i, s.started k ∨ (s.cpus k).isUp
  counted : s.cpusUp = (upSet tag s).card

lemma mem_upSet {k : ℕ} : k ∈ upSet tag s ↔ k < tag.cpu_count ∧ (s.cpus k).isUp := by
  rw [upSet, Finset.mem_filter, Finset.mem_range]

/-- One more processor is up. -/
lemma card_upSet_cpuInit (hj : j < tag.cpu_count) (hid : (s.cpus j).cpuID = j)
    (hdown : ¬ (s.cpus j).isUp)
    (lapic : UInt32) : (upSet tag (cpuInit tss j lapic s)).card = (upSet tag s).card + 1 := by
  have hinsert : upSet tag (cpuInit tss j lapic s) = insert j (upSet tag s) := by
    ext k
    rw [Finset.mem_insert, mem_upSet, mem_upSet, cpuInit_eq hid]
    by_cases hk : k = j
    · subst hk
      simp [hj]
    · simp [hk]
  rw [hinsert, Finset.card_insert_of_notMem]
  exact fun hmem => hdown (mem_upSet.mp hmem).2

/-- A processor that is up stays up, and `cpu_init` brings its own up. -/
lemma isUp_cpuInit (hid : (s.cpus j).cpuID = j) {k : ℕ} :
    ((cpuInit tss j lapic s).cpus k).isUp = true ↔ k = j ∨ (s.cpus k).isUp := by
  rw [cpuInit_eq hid]
  by_cases hk : k = j
  · subst hk
    simp
  · simp [hk]

lemma counted_gdtInit (tag : SmpTag) (tss boot : ℕ) : Counted tag (gdtInit tag tss boot) where
  le := Nat.zero_le _
  filled h := by simp [gdtInit, reloadAll] at h
  launched k hk := absurd hk (Nat.not_lt_zero k)
  counted := by simp [gdtInit, reloadAll, upSet]

/-- What one action changes: it brings the processors forward. -/
lemma Counted.step (h : Counted tag s) (hinv : Inv tag tss s)
    (hs : Smp.step tag tss a s = some s') : Counted tag s' ∧ progress s < progress s' := by
  cases a with
  | fill =>
    rw [Smp.step] at hs
    split at hs
    · simp at hs
    rename_i hfilled
    obtain ⟨lapic, hlapic, rfl⟩ := Option.map_eq_some_iff.mp hs
    have hlt : s.i < tag.cpu_count := (List.getElem?_eq_some_iff.mp hlapic).1
    have hup : ∀ k, ((Function.update s.cpus s.i { s.cpus s.i with cpuID := s.i }) k).isUp =
        (s.cpus k).isUp := by
      intro k
      by_cases hk : k = s.i
      · subst hk
        simp
      · simp [hk]
    refine ⟨⟨h.le, fun _ => hlt, fun k hk => ?_, ?_⟩, by simp [progress, hfilled]⟩
    · rw [hup]
      exact h.launched k hk
    · simp only [upSet, hup]
      exact h.counted
  | launch =>
    rw [Smp.step] at hs
    split at hs
    swap
    · simp at hs
    rename_i hfilled
    obtain ⟨lapic, hlapic, rfl⟩ := Option.map_eq_some_iff.mp hs
    have hlt : s.i < tag.cpu_count := (List.getElem?_eq_some_iff.mp hlapic).1
    have hid : (s.cpus s.i).cpuID = s.i := hinv.id s.i (.inr ⟨rfl, hfilled⟩)
    have hdown : ¬ (s.cpus s.i).isUp := fun hup => absurd (hinv.up s.i hup).1 (lt_irrefl _)
    dsimp only
    split
    · -- another processor is started
      refine ⟨⟨hlt, by simp, fun k hk => ?_, h.counted⟩, ?_⟩
      · by_cases hki : k = s.i
        · simp [hki]
        · simpa [hki] using h.launched k (by simp only at hk; omega)
      · simp only [progress, hfilled, if_true]
        simp
        omega
    · -- the boot processor runs `cpu_init` itself
      refine ⟨⟨hlt, by simp, fun k hk => ?_, ?_⟩, ?_⟩
      · have hk : k < s.i + 1 := hk
        show _ ∨ ((cpuInit tss s.i lapic s).cpus k).isUp = true
        rw [isUp_cpuInit hid]
        by_cases hki : k = s.i
        · exact .inr (.inl hki)
        · exact (h.launched k (by omega)).imp_right .inr
      · show s.cpusUp + 1 = (upSet tag (cpuInit tss s.i lapic s)).card
        rw [card_upSet_cpuInit hlt hid hdown, h.counted]
      · have hcount : (cpuInit tss s.i lapic s).cpusUp = s.cpusUp + 1 := rfl
        simp only [progress, hfilled, hcount, if_true]
        simp
        omega
  | run j =>
    rw [Smp.step] at hs
    split at hs
    swap
    · simp at hs
    rename_i hstarted
    obtain ⟨lapic, hlapic, rfl⟩ := Option.map_eq_some_iff.mp hs
    have hlt : j < tag.cpu_count := (List.getElem?_eq_some_iff.mp hlapic).1
    have hid : (s.cpus j).cpuID = j := hinv.id j (.inl (hinv.started j hstarted.1))
    refine ⟨⟨h.le, h.filled, fun k hk => ?_, ?_⟩, ?_⟩
    · rw [isUp_cpuInit hid]
      exact (h.launched k hk).imp_right .inr
    · show s.cpusUp + 1 = (upSet tag (cpuInit tss j lapic s)).card
      rw [card_upSet_cpuInit hlt hid hstarted.2, h.counted]
    · have hcount : (cpuInit tss j lapic s).cpusUp = s.cpusUp + 1 := rfl
      have hi : (cpuInit tss j lapic s).i = s.i := rfl
      have hfilled : (cpuInit tss j lapic s).filled = s.filled := rfl
      rw [progress, progress, hcount, hi, hfilled]
      omega

/-- All processors are up exactly if the counter says so. -/
lemma Counted.all_up_iff (h : Counted tag s) :
    s.cpusUp = tag.cpu_count ↔ ∀ k < tag.cpu_count, (s.cpus k).isUp := by
  have hrange : (Finset.range tag.cpu_count).card = tag.cpu_count := Finset.card_range _
  rw [h.counted, upSet]
  nth_rewrite 2 [← hrange]
  rw [Finset.card_filter_eq_iff]
  simp only [Finset.mem_range]

lemma Counted.progress_le (h : Counted tag s) : progress s ≤ 3 * tag.cpu_count := by
  have hcard : (upSet tag s).card ≤ tag.cpu_count :=
    (Finset.card_filter_le _ _).trans (Finset.card_range _).le
  have hle := h.le
  rw [progress, h.counted]
  split
  · have hlt := h.filled (by assumption)
    omega
  · omega

/-- As long as not all are up, something can happen. -/
lemma Counted.can_step_iff (h : Counted tag s) (hinv : Inv tag tss s) :
    (∃ a s', Smp.step tag tss a s = some s') ↔ s.cpusUp ≠ tag.cpu_count := by
  rw [ne_eq, h.all_up_iff, not_forall]
  constructor
  · rintro ⟨a, s', hs⟩
    by_contra hall
    push Not at hall
    -- the loop is over, and nobody is left to run `cpu_init`
    have hi : ∀ k < tag.cpu_count, k < s.i := fun k hk => (hinv.up k (hall k hk)).1
    have hover : ∀ lapic, tag.smp_info[s.i]? ≠ some lapic := fun lapic hlapic =>
      lt_irrefl _ (hi s.i (List.getElem?_eq_some_iff.mp hlapic).1)
    cases a with
    | fill =>
      rw [Smp.step] at hs
      split at hs
      · simp at hs
      · obtain ⟨lapic, hlapic, -⟩ := Option.map_eq_some_iff.mp hs
        exact hover lapic hlapic
    | launch =>
      rw [Smp.step] at hs
      split at hs
      · obtain ⟨lapic, hlapic, -⟩ := Option.map_eq_some_iff.mp hs
        exact hover lapic hlapic
      · simp at hs
    | run j =>
      rw [Smp.step] at hs
      split at hs
      · rename_i hstarted
        obtain ⟨lapic, hlapic, -⟩ := Option.map_eq_some_iff.mp hs
        exact hstarted.2 (hall j (List.getElem?_eq_some_iff.mp hlapic).1)
      · simp at hs
  · rintro ⟨k, hk⟩
    obtain ⟨hlt, hdown⟩ := Classical.not_imp.mp hk
    obtain ⟨lapic, hlapic⟩ : ∃ lapic, tag.smp_info[k]? = some lapic :=
      ⟨_, List.getElem?_eq_getElem hlt⟩
    by_cases hki : k < s.i
    · have hstarted : s.started k := (h.launched k hki).resolve_right hdown
      exact ⟨.run k, _, by rw [Smp.step, if_pos ⟨hstarted, hdown⟩, hlapic, Option.map_some]⟩
    · obtain ⟨lapic', hlapic'⟩ : ∃ lapic, tag.smp_info[s.i]? = some lapic :=
        ⟨_, List.getElem?_eq_getElem (show s.i < tag.cpu_count by omega)⟩
      cases hfilled : s.filled with
      | false =>
        exact ⟨.fill, _, by rw [Smp.step, hfilled, if_neg (by simp), hlapic', Option.map_some]⟩
      | true => exact ⟨.launch, _, by rw [Smp.step, if_pos hfilled, hlapic', Option.map_some]⟩

lemma counted_of_run (hrun : Runs.exec (Smp.step tag tss) as (gdtInit tag tss boot) = some s) :
    (Inv tag tss s ∧ Counted tag s) ∧ as.length ≤ progress s := by
  induction as using List.reverseRecOn generalizing s with
  | nil =>
    obtain rfl := Option.some.inj hrun
    exact ⟨⟨inv_gdtInit tag tss boot, counted_gdtInit tag tss boot⟩, Nat.zero_le _⟩
  | append_singleton as a ih =>
    rw [Runs.exec_append] at hrun
    obtain ⟨s₁, hs₁, hrun⟩ := Option.bind_eq_some_iff.mp hrun
    obtain ⟨⟨hinv, hcounted⟩, hlen⟩ := ih hs₁
    have hstep : Smp.step tag tss a s₁ = some s := by
      simpa [Runs.exec] using hrun
    obtain ⟨hcounted', hlt⟩ := hcounted.step hinv hstep
    refine ⟨⟨hinv.step hstep, hcounted'⟩, ?_⟩
    rw [List.length_append, List.length_singleton]
    omega

/-- **All processors come up**, in whatever order they run.  The counter is the number of the
processors that are up, so the wait of `smp::init` ends when all of them are and not before; until
then something can always happen, and it takes at most three actions for each entry of the table. -/
theorem bring_up (hrun : Runs.exec (Smp.step tag tss) as (gdtInit tag tss boot) = some s) :
    s.cpusUp = ((Finset.range tag.cpu_count).filter fun k => (s.cpus k).isUp).card ∧
      (s.cpusUp = tag.cpu_count ↔ ∀ k < tag.cpu_count, (s.cpus k).isUp) ∧
      ((∃ a s', Smp.step tag tss a s = some s') ↔ s.cpusUp ≠ tag.cpu_count) ∧
        as.length ≤ 3 * tag.cpu_count := by
  obtain ⟨⟨hinv, hcounted⟩, hlen⟩ := counted_of_run hrun
  exact ⟨hcounted.counted, hcounted.all_up_iff, hcounted.can_step_iff hinv,
    hlen.trans hcounted.progress_le⟩

/-- The second processor is up only at the end. -/
theorem bring_up_ordered :
    ∃ s, Runs.exec (Smp.step orderedTag 0x1000) inOrder (gdtInit orderedTag 0x1000 0) = some s ∧
      s.cpusUp = 2 ∧ ∀ a, Smp.step orderedTag 0x1000 a s = none := by
  have hrun : (Runs.exec (Smp.step orderedTag 0x1000) inOrder (gdtInit orderedTag 0x1000 0)).any
      (fun s => s.cpusUp = 2) = true := by
    decide +kernel
  obtain ⟨s, hs, hup⟩ := (Option.any_eq_true _ _).mp hrun
  replace hup := of_decide_eq_true hup
  refine ⟨s, hs, hup, fun a => ?_⟩
  by_contra hstep
  obtain ⟨s', hs'⟩ := Option.ne_none_iff_exists'.mp hstep
  exact (bring_up hs).2.2.1.mp ⟨a, s', hs'⟩ hup

end TurbOS.Smp
