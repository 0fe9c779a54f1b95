import TurbOS.Vfs.Create

/-!
# Stripping a path

`open` and `create` take the empty components from both ends of the array of components, so that
slashes in front of a path and behind it do not count.  Neither of the two loops looks at the number
of components: they rely on a component that is not empty.
-/

namespace TurbOS.Vfs

variable {words : List (List Char)} {path : List Char}

/-- The components between the first and the last one that is not empty. -/
def trimmed (words : List (List Char)) : List (List Char) :=
  (words.dropWhile (· = [])).rdropWhile (· = [])

/-- The first loop drops the empty components in front, or reads on to the null pointer. -/
lemma stripFront_eq (words : List (List Char)) :
    stripFront words = if ∃ w ∈ words, w ≠ [] then some (words.dropWhile (· = [])) else none := by
  induction words with
  | nil => rfl
  | cons w words ih =>
    rw [stripFront]
    by_cases hw : w = []
    · have hsame : (∃ x ∈ w :: words, x ≠ []) ↔ ∃ x ∈ words, x ≠ [] := by simp [hw]
      rw [if_pos hw, ih, List.dropWhile_cons_of_pos (by simpa using hw)]
      simp only [hsame]
    · rw [if_neg hw, if_pos ⟨w, List.mem_cons_self, hw⟩,
        List.dropWhile_cons_of_neg (by simpa using hw)]

/-- The second loop drops the empty components at the end. -/
lemma stripBack_eq {n : ℕ} (hn : n ≤ words.length) (h : ∃ w ∈ words.take n, w ≠ []) :
    ∃ items, stripBack words n = some items ∧
      words.take items = (words.take n).rdropWhile (· = []) := by
  induction n with
  | zero => simp at h
  | succ n ih =>
    have hget : words[n]? = some words[n] := List.getElem?_eq_getElem hn
    have htake : words.take (n + 1) = words.take n ++ [words[n]] := by
      rw [List.take_add_one, hget, Option.toList_some]
    rw [stripBack, hget, Option.bind_some, htake]
    by_cases hlast : words[n] = []
    · have hrest : ∃ w ∈ words.take n, w ≠ [] := by
        obtain ⟨w, hw, hne⟩ := h
        rw [htake, List.mem_append, List.mem_singleton] at hw
        refine ⟨w, hw.resolve_right ?_, hne⟩
        rintro rfl
        exact hne hlast
      rw [if_pos hlast, List.rdropWhile_concat_pos _ _ _ (by simpa using hlast)]
      exact ih (by omega) hrest
    · rw [if_neg hlast, List.rdropWhile_concat_neg _ _ _ (by simpa using hlast)]
      exact ⟨n + 1, rfl, htake⟩

lemma exists_ne_slash_iff (path : List Char) :
    (∃ w ∈ path.splitOn '/', w ≠ []) ↔ ∃ c ∈ path, c ≠ '/' := by
  induction path with
  | nil => simp
  | cons c path ih =>
    rw [List.splitOn_cons_eq_if_modifyHead]
    by_cases hc : c = '/'
    · have hskip : (∃ x ∈ c :: path, x ≠ '/') ↔ ∃ x ∈ path, x ≠ '/' := by simp [hc]
      rw [if_pos (by simpa using hc), hskip, ← ih]
      simp
    · obtain ⟨w, ws, hsplit⟩ := List.exists_cons_of_ne_nil (List.splitOn_ne_nil '/' path)
      rw [if_neg (by simpa using hc), hsplit]
      exact ⟨fun _ => ⟨c, List.mem_cons_self, hc⟩, fun _ => ⟨c :: w, List.mem_cons_self, by simp⟩⟩

lemma exists_mem_dropWhile (h : ∃ w ∈ words, w ≠ []) : ∃ w ∈ words.dropWhile (· = []), w ≠ [] := by
  obtain ⟨w, hw, hne⟩ := h
  rw [← List.takeWhile_append_dropWhile (p := (· = [])) (l := words), List.mem_append] at hw
  refine ⟨w, hw.resolve_left fun hfront => ?_, hne⟩
  exact hne (by simpa using List.mem_takeWhile_imp hfront)

/-- **Path components are normalised safely** if the path has a character that is not a slash:
both loops of `open` and `create` end inside the array of components, and leave those between the
first and the last one that is not empty.  On any other path the first loop reads the null pointer
at the end of the array. -/
theorem strip_normalises_iff (path : List Char) :
    (∀ fuel, path.length < fuel →
      Str.strsplit_count fuel true path ['/'] = some (some (path.splitOn '/'))) ∧
    ((∃ pathArray items, stripFront (path.splitOn '/') = some pathArray ∧
        stripBack pathArray pathArray.length = some items ∧
        pathArray.take items = trimmed (path.splitOn '/')) ↔
      ∃ c ∈ path, c ≠ '/') := by
  refine ⟨fun fuel hfuel => Str.strsplit_count_slash hfuel true, ?_⟩
  rw [← exists_ne_slash_iff]
  constructor
  · rintro ⟨pathArray, items, hfront, -⟩
    rw [stripFront_eq] at hfront
    by_contra hall
    rw [if_neg hall] at hfront
    simp at hfront
  · intro h
    obtain ⟨items, hback, htake⟩ := stripBack_eq
      (n := ((path.splitOn '/').dropWhile (· = [])).length)
      le_rfl (by rw [List.take_length]; exact exists_mem_dropWhile h)
    rw [List.take_length] at htake
    exact ⟨_, items, by rw [stripFront_eq, if_pos h], hback, htake⟩

theorem strip_faults :
    stripFront (([] : List Char).splitOn '/') = none ∧
    ¬ ∃ pathArray items, stripFront (['/', '/'].splitOn '/') = some pathArray ∧
        stripBack pathArray pathArray.length = some items ∧
        pathArray.take items = trimmed (['/', '/'].splitOn '/') := by
  refine ⟨by decide, ?_⟩
  rintro ⟨pathArray, items, hfront, -⟩
  exact absurd hfront (by rw [show stripFront (['/', '/'].splitOn '/') = none by decide]; simp)

/-! ## The calls -/

variable {v : FileSystem} {g : ℕ → Garbage} {fuel p : ℕ}

lemma stripFront_slashes (h : ∀ c ∈ path, c = '/')
    (hwords : Str.strsplit_count fuel true path ['/'] = some (some words)) :
    stripFront words = none := by
  obtain ⟨found, hfound, heq⟩ := Option.map_eq_some_iff.mp hwords
  obtain rfl := Option.some.inj heq
  obtain ⟨found', hfound', heq'⟩ :=
    Option.map_eq_some_iff.mp (Str.strsplit_count_slash (Nat.lt_succ_self path.length) true)
  obtain rfl := Option.some.inj heq'
  rw [Str.splitWords_unique hfound hfound', stripFront_eq, if_neg]
  rw [exists_ne_slash_iff]
  rintro ⟨c, hc, hne⟩
  exact hne (h c hc)

lemma split_slashes {β : Type} {f : List (List Char) → Option β} {r : Option β}
    (h : ∀ c ∈ path, c = '/') :
    ((Str.strsplit_count fuel true path ['/']).bind fun pathArray =>
      match pathArray with
      | none => r
      | some pathArray => (stripFront pathArray).bind f) = none := by
  cases hwords : Str.strsplit_count fuel true path ['/'] with
  | none => rfl
  | some found =>
    cases found with
    | none =>
      obtain ⟨words, -, heq⟩ := Option.map_eq_some_iff.mp hwords
      simp at heq
    | some words =>
      rw [Option.bind_some]
      dsimp only
      rw [stripFront_slashes h hwords, Option.bind_none]

/-- `open` faults on such a path, unless it is a single slash. -/
lemma vfsOpen_slashes (h : ∀ c ∈ path, c = '/') (hne : path ≠ ['/']) :
    vfsOpen fuel true (some p) (some path) v = none := by
  have hspace : ' ' ∉ path := fun hmem => absurd (h ' ' hmem) (by decide)
  have hlocked : vfsOpen.openLocked fuel true (some p) v path = none := by
    rw [vfsOpen.openLocked]
    by_cases hlock : v.locked = true
    · rw [if_pos hlock]
    · rw [if_neg hlock]
      dsimp only
      rw [if_neg hspace, Option.bind_some, if_neg (Option.some_ne_none p), if_neg hne]
      exact split_slashes h
  rw [vfsOpen]
  split
  · rw [Option.bind_some, if_neg hne, hlocked]
  · exact hlocked

lemma vfsCreate_slashes (h : ∀ c ∈ path, c = '/') (hne : path ≠ ['/'] ∨ some p ≠ v.tfs_root) :
    vfsCreate g fuel true (some p) (some path) v = none := by
  have hspace : ' ' ∉ path := fun hmem => absurd (h ' ' hmem) (by decide)
  have hlocked : vfsCreate.createLocked g fuel true (some p) v path = none := by
    rw [vfsCreate.createLocked]
    by_cases hlock : v.locked = true
    · rw [if_pos hlock]
    · rw [if_neg hlock]
      dsimp only
      rw [if_neg hspace, Option.bind_some, if_neg (Option.some_ne_none p)]
      exact split_slashes h
  rw [vfsCreate]
  split
  · rename_i hroot
    have hpath : path ≠ ['/'] := hne.resolve_right (not_not_intro (hroot.resolve_left (by simp)))
    rw [Option.bind_some, if_neg hpath, hlocked]
  · exact hlocked

end TurbOS.Vfs
