import TurbOS.Smp.Model

/-!
# Which processor loads which task state segment

`smp::init` fills the element at the position of an entry, and `cpu_init` loads the element at its
LAPIC id.  These are the same elements exactly if the ids are the positions.
-/

namespace TurbOS.Smp

variable {tag : SmpTag} {tss : ℕ} {s s' : State} {as : List Action} {a : Action} {i j boot : ℕ}
  {id : UInt32}

/-! ## Addresses -/

/-- The parts of the base are put together again. -/
lemma base_tssEntry {base : ℕ} (h : base < 2 ^ 64) : (tssEntry base).base = base := by
  simp only [tssEntry, TSSEntry.base, Nat.shiftRight_eq_div_pow]
  omega

lemma elementAddress_lt (tss : ℕ) (cpu : ℤ) : elementAddress tss cpu < 2 ^ 64 := by
  rw [elementAddress]
  omega

lemma elementAddress_of_lt (h : tss + TSS_SIZE * tag.cpu_count ≤ 2 ^ 64) (hj : j < tag.cpu_count) :
    elementAddress tss j = tss + TSS_SIZE * j := by
  rw [elementAddress, TSS_SIZE] at *
  omega

/-- The size of an element is eight times an odd number. -/
lemma elementAddress_modEq {m n : ℤ} (h : elementAddress tss m = elementAddress tss n) :
    m ≡ n [ZMOD 2 ^ 61] := by
  have hm : 0 ≤ ((tss : ℤ) + TSS_SIZE * m) % 2 ^ 64 := Int.emod_nonneg _ (by norm_num)
  have hn : 0 ≤ ((tss : ℤ) + TSS_SIZE * n) % 2 ^ 64 := Int.emod_nonneg _ (by norm_num)
  have hmod : (tss : ℤ) + TSS_SIZE * m ≡ tss + TSS_SIZE * n [ZMOD 2 ^ 64] := by
    rw [elementAddress, elementAddress] at h
    rw [Int.ModEq, ← Int.toNat_of_nonneg hm, ← Int.toNat_of_nonneg hn, h]
  exact (Int.ModEq.add_left_cancel' _ hmod).cancel_left_div_gcd (by norm_num)

/-- An index that leads to an element of the array is the index of the element. -/
lemma elementAddress_inj {cpu : ℤ} (h : tss + TSS_SIZE * tag.cpu_count ≤ 2 ^ 64)
    (hj : j < tag.cpu_count) (hlow : -2 ^ 31 ≤ cpu) (hhigh : cpu < 2 ^ 31)
    (heq : elementAddress tss cpu = elementAddress tss j) : cpu = j := by
  have hcount : (j : ℤ) < 2 ^ 60 := by
    rw [TSS_SIZE] at h
    norm_num at h ⊢
    omega
  have hsmall : |(j : ℤ) - cpu| < 2 ^ 61 := by
    rw [abs_lt]
    constructor <;> linarith
  have hzero : (j : ℤ) - cpu = 0 := Int.eq_zero_of_abs_lt_dvd (elementAddress_modEq heq).dvd hsmall
  linarith

/-! ## The invariant -/

/-- What is known while the processors are brought up.  Up to the loop variable the elements are
filled; a processor that is up has loaded the element at its LAPIC id. -/
structure Inv (tag : SmpTag) (tss : ℕ) (s : State) : Prop where
  id : ∀ j, j < s.i ∨ j = s.i ∧ s.filled → (s.cpus j).cpuID = j
  ist : ∀ j, j < s.i ∨ j = s.i ∧ s.filled → (s.tss j).IST0 = .sched j
  rsp : ∀ j lapic, j < s.i → tag.smp_info[j]? = some lapic → tag.bsp_lapic_id ≠ lapic →
    (s.tss j).RSP0 = .stack j
  started : ∀ j, s.started j → j < s.i
  up : ∀ j, (s.cpus j).isUp → j < s.i ∧ ∀ lapic, tag.smp_info[j]? = some lapic →
    s.loaded j = some (elementAddress tss lapic.toInt32.toInt)

lemma inv_gdtInit (tag : SmpTag) (tss boot : ℕ) : Inv tag tss (gdtInit tag tss boot) where
  id := by
    rintro j (h | ⟨-, h⟩)
    · exact absurd h (Nat.not_lt_zero j)
    · simp [gdtInit, reloadAll] at h
  ist := by
    rintro j (h | ⟨-, h⟩)
    · exact absurd h (Nat.not_lt_zero j)
    · simp [gdtInit, reloadAll] at h
  rsp := fun j lapic h => absurd h (Nat.not_lt_zero j)
  started := by
    intro j h
    simp [gdtInit, reloadAll] at h
  up := by
    intro j h
    simp [gdtInit, reloadAll] at h

/-- `cpu_init` on a processor whose structure is set up changes only what belongs to it. -/
lemma cpuInit_eq (hid : (s.cpus j).cpuID = j) (lapic : UInt32) :
    cpuInit tss j lapic s = { s with
      descriptor := tssEntry (elementAddress tss lapic.toInt32.toInt)
      loaded := Function.update s.loaded j (some (elementAddress tss lapic.toInt32.toInt))
      cpus := Function.update s.cpus j
        { s.cpus j with
          cpuID := j
          lapicID := lapic
          tss := elementAddress tss lapic.toNat
          isUp := true }
      cpusUp := s.cpusUp + 1 } := by
  simp only [cpuInit, reloadAll, base_tssEntry (elementAddress_lt _ _), hid]

/-- The processor `j` runs `cpu_init` in a round `n` after its own, or at its end. -/
lemma Inv.cpuInit {n : ℕ} {filled : Bool} {lapic : UInt32}
    (hj : tag.smp_info[j]? = some lapic) (hid : (s.cpus j).cpuID = j) (hjn : j < n)
    (hn : Inv tag tss { s with i := n, filled := filled }) :
    Inv tag tss { cpuInit tss j lapic s with i := n, filled := filled } := by
  rw [cpuInit_eq hid]
  refine ⟨fun k hk => ?_, hn.ist, hn.rsp, hn.started, fun k hk => ?_⟩
  · by_cases hkj : k = j
    · subst hkj
      simp
    · simpa [hkj] using hn.id k hk
  · by_cases hkj : k = j
    · subst hkj
      refine ⟨hjn, fun lapic' hlapic' => ?_⟩
      obtain rfl : lapic = lapic' := Option.some.inj (hj.symm.trans hlapic')
      simp
    · simp only [Function.update_of_ne hkj] at hk ⊢
      exact hn.up k hk

lemma Inv.fill (h : Inv tag tss s) (hs : step tag tss .fill s = some s') : Inv tag tss s' := by
  rw [step] at hs
  split at hs
  · simp at hs
  rename_i hfilled
  obtain ⟨lapic, -, rfl⟩ := Option.map_eq_some_iff.mp hs
  -- what was filled before stays, and the element of this round is filled now
  have hcases : ∀ k, k < s.i ∨ k = s.i ∧ true = true → k ≠ s.i → k < s.i ∨ k = s.i ∧ s.filled := by
    intro k hk hne
    exact .inl (hk.resolve_right fun heq => hne heq.1)
  refine ⟨fun k hk => ?_, fun k hk => ?_, fun k lapic' hk hlapic' hboot => ?_, h.started,
    fun k hk => ?_⟩
  · by_cases hki : k = s.i
    · simp [hki]
    · simpa [hki] using h.id k (hcases k hk hki)
  · by_cases hki : k = s.i
    · simp [hki]
    · simpa [hki] using h.ist k (hcases k hk hki)
  · simpa [Nat.ne_of_lt hk] using h.rsp k lapic' hk hlapic' hboot
  · by_cases hki : k = s.i
    · subst hki
      exact h.up s.i (by simpa using hk)
    · exact h.up k (by simpa [hki] using hk)

lemma Inv.launch (h : Inv tag tss s) (hs : step tag tss .launch s = some s') : Inv tag tss s' := by
  rw [step] at hs
  split at hs
  swap
  · simp at hs
  rename_i hfilled
  obtain ⟨lapic, hlapic, rfl⟩ := Option.map_eq_some_iff.mp hs
  have hcases : ∀ k, k < s.i + 1 ∨ k = s.i + 1 ∧ false = true → k < s.i ∨ k = s.i ∧ s.filled := by
    intro k hk
    rcases Nat.lt_succ_iff_lt_or_eq.mp (hk.resolve_right (by simp)) with hlt | heq
    · exact .inl hlt
    · exact .inr ⟨heq, hfilled⟩
  dsimp only
  split
  · -- another processor is started
    refine ⟨fun k hk => h.id k (hcases k hk), fun k hk => ?_, fun k lapic' hk hlapic' hboot => ?_,
      fun k hk => ?_, fun k hk => ?_⟩
    · have hist := h.ist k (hcases k hk)
      by_cases hki : k = s.i
      · subst hki
        simpa using hist
      · simpa [hki] using hist
    · by_cases hki : k = s.i
      · simp [hki]
      · simpa [hki] using h.rsp k lapic' (by simp only at hk; omega) hlapic' hboot
    · by_cases hki : k = s.i
      · simp [hki]
      · exact (h.started k (by simpa [hki] using hk)).trans (Nat.lt_succ_self _)
    · obtain ⟨hlt, hloaded⟩ := h.up k hk
      exact ⟨hlt.trans (Nat.lt_succ_self _), hloaded⟩
  · -- the boot processor runs `cpu_init` itself
    rename_i hboot
    have hid : (s.cpus s.i).cpuID = s.i := h.id s.i (.inr ⟨rfl, hfilled⟩)
    refine Inv.cpuInit hlapic hid (Nat.lt_succ_self _) ?_
    refine ⟨fun k hk => h.id k (hcases k hk), fun k hk => h.ist k (hcases k hk),
      fun k lapic' hk hlapic' hne => ?_, fun k hk => (h.started k hk).trans (Nat.lt_succ_self _),
      fun k hk => ⟨(h.up k hk).1.trans (Nat.lt_succ_self _), (h.up k hk).2⟩⟩
    rcases Nat.lt_succ_iff_lt_or_eq.mp hk with hlt | rfl
    · exact h.rsp k lapic' hlt hlapic' hne
    · obtain rfl : lapic = lapic' := Option.some.inj (hlapic.symm.trans hlapic')
      exact absurd hne hboot

lemma Inv.run (h : Inv tag tss s) (hs : step tag tss (.run j) s = some s') : Inv tag tss s' := by
  rw [step] at hs
  split at hs
  · rename_i hstarted
    obtain ⟨lapic, hlapic, rfl⟩ := Option.map_eq_some_iff.mp hs
    have hj : j < s.i := h.started j hstarted.1
    exact Inv.cpuInit hlapic (h.id j (.inl hj)) hj h
  · simp at hs

lemma Inv.step (h : Inv tag tss s) (hs : Smp.step tag tss a s = some s') : Inv tag tss s' := by
  cases a with
  | fill => exact h.fill hs
  | launch => exact h.launch hs
  | run j => exact h.run hs

/-! ## The main result -/

/-- Every processor has loaded an element of the array, no two of them the same, and the element of
a processor is the one that was filled with its stacks. -/
structure OwnTss (tag : SmpTag) (tss : ℕ) (s : State) : Prop where
  own : ∀ i lapic, tag.smp_info[i]? = some lapic →
    ∃ k < tag.cpu_count, s.loaded i = some (elementAddress tss k) ∧ (s.tss k).IST0 = .sched i ∧
      (tag.bsp_lapic_id ≠ lapic → (s.tss k).RSP0 = .stack i)
  distinct : ∀ i < tag.cpu_count, ∀ j < tag.cpu_count, i ≠ j → s.loaded i ≠ s.loaded j

/-- **Every processor gets its own task state segment exactly if the LAPIC ids are the positions.**
The array ends below `2 ^ 64`, and all processors have run `cpu_init`, in any order. -/
theorem own_tss_iff (h : tss + TSS_SIZE * tag.cpu_count ≤ 2 ^ 64)
    (hrun : Runs.exec (Smp.step tag tss) as (gdtInit tag tss boot) = some s)
    (hup : ∀ i < tag.cpu_count, (s.cpus i).isUp) :
    OwnTss tag tss s ↔
      ∀ (i : ℕ) (lapic : UInt32), tag.smp_info[i]? = some lapic → lapic.toInt32.toInt = i := by
  have hinv : Inv tag tss s :=
    Runs.exec_inv (fun _ _ _ hinv hstep => hinv.step hstep) (inv_gdtInit tag tss boot) hrun
  have hlt : ∀ {i lapic}, tag.smp_info[i]? = some lapic → i < tag.cpu_count :=
    fun hi => (List.getElem?_eq_some_iff.mp hi).1
  constructor
  · intro hown i lapic hi
    obtain ⟨k, hk, hloaded, hist, -⟩ := hown.own i lapic hi
    -- the element that is loaded was filled in the round for `k`
    have hkist : (s.tss k).IST0 = .sched k := hinv.ist k (.inl (hinv.up k (hup k hk)).1)
    obtain rfl : k = i := by simpa [hkist] using hist
    have hloaded' := (hinv.up k (hup k hk)).2 lapic hi
    exact elementAddress_inj h hk lapic.toInt32.le_toInt lapic.toInt32.toInt_lt
      (Option.some.inj (hloaded'.symm.trans hloaded))
  · intro hid
    have hloaded : ∀ i < tag.cpu_count, s.loaded i = some (elementAddress tss i) := by
      intro i hi
      obtain ⟨lapic, hlapic⟩ : ∃ lapic, tag.smp_info[i]? = some lapic :=
        ⟨_, List.getElem?_eq_getElem hi⟩
      rw [(hinv.up i (hup i hi)).2 lapic hlapic, hid i lapic hlapic]
    constructor
    · intro i lapic hi
      have hpos := (hinv.up i (hup i (hlt hi))).1
      exact ⟨i, hlt hi, hloaded i (hlt hi), hinv.ist i (.inl hpos), hinv.rsp i lapic hpos hi⟩
    · intro i hi j hj hne heq
      rw [hloaded i hi, hloaded j hj, Option.some.injEq, elementAddress_of_lt h hi,
        elementAddress_of_lt h hj, TSS_SIZE] at heq
      omega

/-- Two processors whose ids are their positions. -/
def orderedTag : SmpTag := ⟨0, [0, 1]⟩

/-- Two processors; the id `1` is not used. -/
def sparseTag : SmpTag := ⟨0, [0, 2]⟩

/-- The boot processor is the first one, and the other one starts when the loop is over. -/
def inOrder : List Action := [.fill, .launch, .fill, .launch, .run 1]

theorem own_tss_ordered :
    ∃ s, Runs.exec (Smp.step orderedTag 0x1000) inOrder (gdtInit orderedTag 0x1000 0) = some s ∧
      (∀ i < orderedTag.cpu_count, (s.cpus i).isUp) ∧ OwnTss orderedTag 0x1000 s := by
  have hrun : (Runs.exec (Smp.step orderedTag 0x1000) inOrder (gdtInit orderedTag 0x1000 0)).any
      (fun s => decide (∀ i < orderedTag.cpu_count, (s.cpus i).isUp)) = true := by
    decide +kernel
  obtain ⟨s, hs, hup⟩ := (Option.any_eq_true _ _).mp hrun
  replace hup := of_decide_eq_true hup
  refine ⟨s, hs, hup, (own_tss_iff (by decide) hs hup).mpr ?_⟩
  intro i lapic hi
  rcases i with _ | _ | i
  · obtain rfl : 0 = lapic := Option.some.inj hi
    rfl
  · obtain rfl : 1 = lapic := Option.some.inj hi
    rfl
  · simp [orderedTag] at hi

/-- The processor with the id `2` loads the third element of an array of two. -/
theorem sparse_loads_outside :
    ∃ s, Runs.exec (Smp.step sparseTag 0x1000) inOrder (gdtInit sparseTag 0x1000 0) = some s ∧
      (∀ i < sparseTag.cpu_count, (s.cpus i).isUp) ∧
      s.loaded 1 = some (elementAddress 0x1000 2) ∧ ¬ OwnTss sparseTag 0x1000 s := by
  have hrun : (Runs.exec (Smp.step sparseTag 0x1000) inOrder (gdtInit sparseTag 0x1000 0)).any
      (fun s => decide ((∀ i < sparseTag.cpu_count, (s.cpus i).isUp) ∧
        s.loaded 1 = some (elementAddress 0x1000 2))) = true := by
    decide +kernel
  obtain ⟨s, hs, hcheck⟩ := (Option.any_eq_true _ _).mp hrun
  obtain ⟨hup, hloaded⟩ := of_decide_eq_true hcheck
  refine ⟨s, hs, hup, hloaded, fun hown => ?_⟩
  obtain ⟨k, hk, hk', -⟩ := hown.own 1 2 rfl
  rw [hloaded] at hk'
  have hnot : ∀ k < sparseTag.cpu_count, elementAddress 0x1000 2 ≠ elementAddress 0x1000 k := by
    decide
  exact hnot k hk (Option.some.inj hk')

end TurbOS.Smp
