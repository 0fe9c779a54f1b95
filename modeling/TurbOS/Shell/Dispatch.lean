import TurbOS.Shell.Model

/-!
# Commands are dispatched by their hashes

The hash of a word is a number written in base `33`, modulo `2 ^ 32`: the last digit is the first
character, and the digits are not bounded by `33`.  So words collide.  Taking `33` from a character
and adding `1` to the next one does not change the hash, which turns `help` into `Gflp`.

A word is dispatched by its name exactly if it collides with no name but its own.
-/

namespace TurbOS.Shell

variable {w : List UInt8} {b : Builtin}

/-! ## The hash as a number -/

/-- A byte as a signed character. -/
def signed (c : UInt8) : ℤ := c.toInt8.toInt

/-- The word as a number in base `33`, with `5381` in front of the last character. -/
def weight (w : List UInt8) : ℤ :=
  ∑ i ∈ Finset.range w.length, signed (w.getD i 0) * 33 ^ i + 5381 * 33 ^ w.length

lemma weight_nil : weight [] = 5381 := by simp [weight]

lemma weight_cons (c : UInt8) (w : List UInt8) : weight (c :: w) = signed c + 33 * weight w := by
  rw [weight, weight, List.length_cons, Finset.sum_range_succ']
  simp only [List.getD_cons_succ, List.getD_cons_zero, pow_succ, pow_zero, mul_one]
  rw [mul_add, Finset.mul_sum]
  have hshift : ∀ i ∈ Finset.range w.length,
      signed (w.getD i 0) * (33 ^ i * 33) = 33 * (signed (w.getD i 0) * 33 ^ i) := by
    intro i _
    ring
  rw [Finset.sum_congr rfl hshift]
  ring

lemma extend_eq (c : UInt8) : c.toInt8.toInt32.toUInt32 = UInt32.ofInt (signed c) := by
  have hmod : 0 ≤ c.toBitVec.toInt % 2 ^ 32 := Int.emod_nonneg _ (by norm_num)
  apply UInt32.toNat_inj.mp
  -- both sides are the signed value modulo `2 ^ 32`
  show (BitVec.ofInt 32 c.toBitVec.toInt).toNat =
    (UInt32.ofNat (c.toBitVec.toInt % 2 ^ 32).toNat).toNat
  rw [BitVec.toNat_ofInt, UInt32.toNat_ofNat']
  omega

/-- The hash is the number modulo `2 ^ 32`. -/
lemma hash_eq_weight (w : List UInt8) : Str.hash w = UInt32.ofInt (weight w) := by
  induction w with
  | nil =>
    rw [weight_nil]
    rfl
  | cons c w ih =>
    have h33 : (33 : UInt32) = UInt32.ofInt 33 := rfl
    rw [Str.hash, ih, weight_cons, extend_eq, h33, UInt32.ofInt_add, UInt32.ofInt_mul]

lemma ofInt_eq_iff (x y : ℤ) : UInt32.ofInt x = UInt32.ofInt y ↔ x ≡ y [ZMOD 2 ^ 32] := by
  have hx : 0 ≤ x % 2 ^ 32 ∧ x % 2 ^ 32 < 2 ^ 32 := by omega
  have hy : 0 ≤ y % 2 ^ 32 ∧ y % 2 ^ 32 < 2 ^ 32 := by omega
  rw [UInt32.ofInt, UInt32.ofInt, Int.ModEq, ← UInt32.toNat_inj, UInt32.toNat_ofNat',
    UInt32.toNat_ofNat']
  constructor
  · intro h
    omega
  · intro h
    rw [h]

lemma hash_eq_iff (w w' : List UInt8) :
    Str.hash w = Str.hash w' ↔ weight w ≡ weight w' [ZMOD 2 ^ 32] := by
  rw [hash_eq_weight, hash_eq_weight, ofInt_eq_iff]

/-! ## The branch that is taken -/

lemma mem_builtins (b : Builtin) : b ∈ builtins := by
  cases b <;> decide

/-- The labels of the `switch` are different. -/
lemma hash_name_injective {b b' : Builtin} (h : Str.hash b.name = Str.hash b'.name) : b = b' := by
  have hall : ∀ b ∈ builtins, ∀ b' ∈ builtins, Str.hash b.name = Str.hash b'.name → b = b' := by
    decide +kernel
  exact hall b (mem_builtins b) b' (mem_builtins b') h

lemma dispatch_eq_some_iff : dispatch w = some b ↔ Str.hash w = Str.hash b.name := by
  constructor
  · intro h
    simpa using List.find?_some h
  · intro h
    have hsome : (dispatch w).isSome := by
      rw [dispatch, List.find?_isSome]
      exact ⟨b, mem_builtins b, by simpa using h⟩
    obtain ⟨b', hb'⟩ := Option.isSome_iff_exists.mp hsome
    have hhash : Str.hash w = Str.hash b'.name := by simpa using List.find?_some hb'
    rw [hb', hash_name_injective (h.symm.trans hhash)]

lemma dispatch_eq_none_iff : dispatch w = none ↔ ∀ b : Builtin, Str.hash w ≠ Str.hash b.name := by
  constructor
  · intro h b hb
    rw [dispatch_eq_some_iff.mpr hb] at h
    simp at h
  · intro h
    cases hd : dispatch w with
    | none => rfl
    | some b => exact absurd (dispatch_eq_some_iff.mp hd) (h b)

/-- Taking `33` from the first character and adding `1` to the second one changes nothing. -/
lemma weight_shift {c d c' d' : UInt8} (hc : signed c = signed c' + 33)
    (hd : signed d' = signed d + 1)
    (w : List UInt8) : weight (c' :: d' :: w) = weight (c :: d :: w) := by
  simp only [weight_cons]
  rw [hc, hd]
  ring

/-- The word takes the branch of a command exactly if it is its name, and the default branch
exactly if it is the name of none. -/
def ByName (w : List UInt8) : Prop :=
  (∀ b : Builtin, dispatch w = some b ↔ w = b.name) ∧
    (dispatch w = none ↔ ∀ b : Builtin, w ≠ b.name)

/-- **Dispatch by name.**  A word is dispatched by its name exactly if there is no command with
another name whose number in base `33` is the same modulo `2 ^ 32`. -/
theorem dispatch_byName_iff (w : List UInt8) :
    ByName w ↔ ∀ b : Builtin, weight w ≡ weight b.name [ZMOD 2 ^ 32] → w = b.name := by
  constructor
  · rintro ⟨hsome, -⟩ b hb
    exact (hsome b).mp (dispatch_eq_some_iff.mpr ((hash_eq_iff w b.name).mpr hb))
  · intro h
    have hname : ∀ b : Builtin, Str.hash w = Str.hash b.name ↔ w = b.name := by
      intro b
      constructor
      · intro hb
        exact h b ((hash_eq_iff w b.name).mp hb)
      · rintro rfl
        rfl
    refine ⟨fun b => dispatch_eq_some_iff.trans (hname b), dispatch_eq_none_iff.trans ?_⟩
    simp only [ne_eq, hname]

/-- `Gflp` is the name of no command, and prints the help. -/
theorem gflp_is_help :
    dispatch [0x47, 0x66, 0x6c, 0x70] = some .help ∧ ¬ ByName [0x47, 0x66, 0x6c, 0x70] := by
  have hname : Builtin.help.name = [0x68, 0x65, 0x6c, 0x70] := by
    decide +kernel
  have hd : dispatch [0x47, 0x66, 0x6c, 0x70] = some .help := by
    rw [dispatch_eq_some_iff, hash_eq_iff, hname, weight_shift (c := 0x68) (d := 0x65) rfl rfl]
  refine ⟨hd, fun h => ?_⟩
  have heq := (h.1 .help).mp hd
  rw [hname] at heq
  simp at heq

end TurbOS.Shell
