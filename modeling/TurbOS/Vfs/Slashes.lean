import TurbOS.Vfs.Resolve

/-!
# Slashes at the ends of a path

`open` passes all slashes in front of a path, and does not count the empty components behind it,
however many there are.  They stay in the array, where `openNext` may read the first one of them.

More fuel and a longer array change nothing in a walk that returns: so what is known of `openNext`
for one slash at the end is known for more.
-/

open Fuel

namespace TurbOS.Vfs

variable {N : Store Node} {rec rec' : Recursion} {words extra comps : List (List Char)}
  {v : FileSystem} {fuel fuel' start a b : ℕ} {path : List Char}

/-! ## Fuel, and more words -/

lemma getElem?_le (words extra : List (List Char)) (k : ℕ) : Le words[k]? (words ++ extra)[k]? := by
  intro w hw
  rw [List.getElem?_append_left (List.getElem?_eq_some_iff.mp hw).1, hw]

section

variable (hrec : ∀ c v, Le (rec c v) (rec' c v)) (c : Cursor) (v : FileSystem)

include hrec

lemma followNode_le : Le (followNode rec c v) (followNode rec' c v) := by
  refine (Le.refl _).bind fun node => ?_
  split
  · exact (hrec _ _).map _
  · exact .refl _

lemma openDotDot_le : Le (openDotDot rec words c v) (openDotDot rec' (words ++ extra) c v) := by
  refine (getElem?_le words extra _).bind fun word => ?_
  split
  · refine (Le.refl _).bind fun node => ?_
    exact (hrec _ _).map _
  · exact .refl _

lemma openDot_le : Le (openDot rec words c v) (openDot rec' (words ++ extra) c v) := by
  refine (getElem?_le words extra _).bind fun word => ?_
  split
  · exact (hrec _ _).map _
  · exact .refl _

lemma openChild_le (x : ℕ × Cursor × FileSystem) :
    Le (openChild rec words x) (openChild rec' (words ++ extra) x) := by
  refine (Le.refl _).bind fun parent => ?_
  split
  · refine (Le.refl _).bind fun child => (Le.refl _).bind fun node =>
      (Le.refl _).bind fun target => ?_
    refine (getElem?_le words extra _).bind fun word => ?_
    split
    · exact (hrec _ _).map _
    · exact .refl _
  · exact .refl _

lemma openChilds_le (hfuel : fuel ≤ fuel') :
    Le (openChilds rec words fuel c v) (openChilds rec' (words ++ extra) fuel' c v) :=
  loop_le (openChild_le hrec) hfuel _

end

/-- With more fuel, and more words behind the array, a walk that returns stays the same. -/
lemma openNext_le (words extra : List (List Char)) (hfuel : fuel ≤ fuel') (c : Cursor)
    (v : FileSystem) : Le (openNext words fuel c v) (openNext (words ++ extra) fuel' c v) := by
  induction fuel generalizing fuel' c v with
  | zero => exact .none _
  | succ fuel ih =>
    obtain ⟨n, rfl⟩ : ∃ n, fuel' = n + 1 := ⟨fuel' - 1, by omega⟩
    have hrec : ∀ c v, Le (openNext words fuel c v) (openNext (words ++ extra) n c v) :=
      fun c v => ih (by omega) c v
    rw [openNext, openNext]
    split
    · refine (followNode_le hrec c v).bind fun r => ?_
      refine (openDotDot_le hrec r.1 r.2).bind fun r => ?_
      refine (openDot_le hrec r.1 r.2).bind fun r => ?_
      exact (openChilds_le hrec r.1 r.2 (by omega)).map _
    · exact .refl _

/-- The lock is free at the end. -/
lemma openNext_unlocked {c : Cursor} {r : Option ℕ × FileSystem}
    (h : openNext words fuel c v = some r) : r.2.locked = false := by
  cases fuel with
  | zero => simp [openNext] at h
  | succ fuel =>
    rw [openNext] at h
    split at h
    · obtain ⟨r₁, -, h⟩ := Option.bind_eq_some_iff.mp h
      obtain ⟨r₂, -, h⟩ := Option.bind_eq_some_iff.mp h
      obtain ⟨r₃, -, h⟩ := Option.bind_eq_some_iff.mp h
      obtain ⟨r₄, -, rfl⟩ := Option.map_eq_some_iff.mp h
      rfl
    · rw [← Option.some.inj h]
      rfl

/-! ## The call of `open` -/

/-- The components of a path, with slashes in front and at the end. -/
def Words (path : List Char) (a b : ℕ) (comps : List (List Char)) : Prop :=
  path.splitOn '/' = List.replicate a [] ++ comps ++ List.replicate b []

lemma stripFront_replicate {w : List Char} {rest : List (List Char)} (hw : w ≠ []) (a : ℕ) :
    stripFront (List.replicate a [] ++ w :: rest) = some (w :: rest) := by
  induction a with
  | zero => exact stripFront_cons hw rest
  | succ a ih => rw [List.replicate_succ, List.cons_append, stripFront, if_pos rfl, ih]

lemma stripBack_replicate (hne : comps ≠ []) (hcomps : ∀ w ∈ comps, IsComponent w) (b k : ℕ)
    (hk : k ≤ b) :
    stripBack (comps ++ List.replicate b []) (comps.length + k) = some comps.length := by
  induction k with
  | zero =>
    obtain ⟨n, hn⟩ : ∃ n, comps.length = n + 1 :=
      Nat.exists_eq_succ_of_ne_zero (by simpa using hne)
    obtain ⟨w, hw⟩ : ∃ w, comps[n]? = some w := ⟨_, List.getElem?_eq_getElem (by omega)⟩
    have hword : (comps ++ List.replicate b [])[n]? = some w := by
      rw [List.getElem?_append_left (by omega), hw]
    rw [Nat.add_zero, hn, stripBack, hword, Option.bind_some,
      if_neg (hcomps w (List.mem_of_getElem? hw)).1]
  | succ k ih =>
    have hempty : (comps ++ List.replicate b [])[comps.length + k]? = some [] := by
      rw [List.getElem?_append_right (by omega), Nat.add_sub_cancel_left,
        List.getElem?_replicate_of_lt (by omega)]
    rw [← Nat.add_assoc, stripBack, hempty, Option.bind_some, if_pos rfl, ih (by omega)]

lemma Words.mem {w : List Char} (h : Words path a b comps) (hw : w ∈ path.splitOn '/') :
    w = [] ∨ w ∈ comps := by
  rw [h, List.mem_append, List.mem_append, List.mem_replicate, List.mem_replicate] at hw
  tauto

lemma Words.space (h : Words path a b comps) (hcomps : ∀ w ∈ comps, IsComponent w) :
    ' ' ∉ path := by
  intro hmem
  have hpath : List.intercalate ['/'] (path.splitOn '/') = path := List.intercalate_splitOn '/'
  rw [← hpath] at hmem
  rcases mem_intercalate hmem with hslash | ⟨w, hw, hc⟩
  · exact absurd hslash (by decide)
  · rcases h.mem hw with rfl | hw
    · simp at hc
    · exact (hcomps w hw).2.2 hc

lemma Words.ne_slash (h : Words path a b comps) (hne : comps ≠ [])
    (hcomps : ∀ w ∈ comps, IsComponent w) : path ≠ ['/'] := by
  rintro rfl
  obtain ⟨w, hw⟩ := List.exists_mem_of_ne_nil comps hne
  have hmem : w ∈ ['/'].splitOn '/' := by
    rw [h]
    simp [hw]
  have hsplit : ['/'].splitOn '/' = [[], []] := by decide
  have hempty : w = [] := by simpa [hsplit] using hmem
  exact (hcomps w hw).1 hempty

/-- With enough fuel `open` calls `openNext` with the components. -/
lemma vfsOpen_words (h : Words path a b comps) (hlock : v.locked = false) (hne : comps ≠ [])
    (hcomps : ∀ w ∈ comps, IsComponent w) (hfuel : path.length < fuel) :
    vfsOpen fuel true (some start) (some path) v =
      openNext (comps ++ List.replicate b []) fuel ⟨some start, none, comps.length, 0⟩ v.lock := by
  have hslash := h.ne_slash hne hcomps
  have hlocked : vfsOpen.openLocked fuel true (some start) v path =
      openNext (comps ++ List.replicate b []) fuel ⟨some start, none, comps.length, 0⟩ v.lock := by
    obtain ⟨w, rest, hw⟩ := List.exists_cons_of_ne_nil hne
    have hfront : stripFront (path.splitOn '/') = some (comps ++ List.replicate b []) := by
      rw [h, List.append_assoc, hw, List.cons_append]
      exact stripFront_replicate (hcomps w (by rw [hw]; exact List.mem_cons_self)).1 a
    have hback : stripBack (comps ++ List.replicate b []) (comps ++ List.replicate b []).length
        = some comps.length := by
      rw [List.length_append, List.length_replicate]
      exact stripBack_replicate hne hcomps b b le_rfl
    rw [vfsOpen.openLocked, if_neg (by simp [hlock])]
    dsimp only
    rw [if_neg (h.space hcomps), Option.bind_some, if_neg (by simp), if_neg hslash,
      Str.strsplit_count_slash hfuel, Option.bind_some]
    rw [if_pos rfl]
    dsimp only
    rw [hfront, Option.bind_some, hback, Option.bind_some]
  rw [vfsOpen]
  split
  · rw [Option.bind_some, if_neg hslash, hlocked]
  · exact hlocked

/-- What the path means is returned, and the file system is as before. -/
lemma vfsOpen_returns {node : Node} (h : Words path a b comps) (hT : Tree v.nodes)
    (hlock : v.locked = false) (hp : v.nodes.get start = some node) (hne : comps ≠ [])
    (hcomps : ∀ w ∈ comps,
    IsComponent w) (hopens : PathOpens v.nodes start (decide (0 < b)) comps) :
    ∃ F v', (∀ fuel ≥ F, vfsOpen fuel true (some start) (some path) v
        = some (resolve v.nodes start comps, v')) ∧
      v'.nodes = v.nodes ∧ v'.tfs_root = v.tfs_root ∧ v'.locked = false := by
  obtain ⟨up, stay, names, heq, hnames, hgives⟩ := hopens
  obtain ⟨F, hF⟩ : Calls v.nodes start (decide (0 < b)) comps v.lock := by
    subst heq
    exact (calls_iff hT v.nodes_lock hp hnames hne).mpr hgives
  obtain ⟨v', hv'⟩ := hF F le_rfl
  have hwords : comps ++ List.replicate b []
      = pathArray (decide (0 < b)) comps ++ List.replicate (b - 1) [] := by
    rw [pathArray, List.append_assoc]
    cases b with
    | zero => simp
    | succ b => simp [List.replicate_succ]
  refine ⟨max F (path.length + 1), v', fun fuel hfuel => ?_, ?_, ?_, openNext_unlocked hv'⟩
  · rw [vfsOpen_words h hlock hne hcomps (by omega), hwords]
    exact openNext_le _ _ (by omega) _ _ _ hv'
  · exact openNext_keeps _ _ _ _ _ hv'
  · have hroot : v.lock.tfs_root = v.tfs_root := rfl
    exact openNext_inv (P := fun v'' => v''.tfs_root = v.tfs_root) (fun _ => id) _ _ _ _ _ hroot hv'

end TurbOS.Vfs
