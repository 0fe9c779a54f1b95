import TurbOS.Vfs.Create

/-!
# The lock of the file system

`open` and `create` take `vfs_lock`, and the functions they call give it back: `openNext` and
`createNext` at their end, whether they were called by `open` or by themselves, and `notFound`
once more.  This file counts.

A walk of `openNext` over at least one component gives the lock back at least twice.  A walk of
`createNext` gives it back once only if it does not call itself, that is, if the first component
is to be added.
-/

open Fuel

namespace TurbOS.Vfs

variable {v v' v'' : FileSystem} {g : ℕ → Garbage} {words : List (List Char)} {c : Cursor}
  {rec : Recursion} {fuel n k : ℕ} {ok : Bool} {parent start : Option ℕ}

/-! ## Counting -/

/-- From `v` to `v'` the lock was given back `n` times, and not taken. -/
def Releases (v v' : FileSystem) (n : ℕ) : Prop :=
  v'.events = List.replicate n LockEvent.release ++ v.events

lemma Releases.refl (v : FileSystem) : Releases v v 0 := rfl

lemma Releases.trans (h : Releases v v' n) (h' : Releases v' v'' k) : Releases v v'' (k + n) := by
  rw [Releases, h', h, ← List.append_assoc, ← List.replicate_add]

lemma releases_unlock (v : FileSystem) : Releases v v.unlock 1 := rfl

/-- A recursive call gives the lock back at least once. -/
def Unlocks (rec : Recursion) : Prop := ∀ c v r, rec c v = some r → ∃ n, 1 ≤ n ∧ Releases v r.2 n

lemma Unlocks.releases (hrec : Unlocks rec) {r : Option ℕ × FileSystem} (h : rec c v = some r) :
    ∃ n, Releases v r.2 n := by
  obtain ⟨n, -, hn⟩ := hrec c v r h
  exact ⟨n, hn⟩

/-! ## `openNext` -/

/-- The calls of a walk give the lock back some number of times. -/
lemma Unlocks.preserves (hrec : Unlocks rec) (v : FileSystem) :
    Preserves (fun v' => ∃ n, Releases v v' n) rec := by
  rintro c v' r ⟨n, hn⟩ h
  obtain ⟨k, hk⟩ := hrec.releases h
  exact ⟨k + n, hn.trans hk⟩

/-- A walk over at least one component gives the lock back twice. -/
lemma openNext_releases (hrec : Unlocks (openNext words fuel)) {r : Option ℕ × FileSystem}
    (hitems : 0 < c.items) (h : openNext words (fuel + 1) c v = some r) :
    ∃ n, 2 ≤ n ∧ Releases v r.2 n := by
  obtain ⟨v', ⟨n, hn⟩, heq⟩ := (hrec.preserves v).openNext_succ ⟨0, .refl v⟩ hitems h
  refine ⟨1 + (1 + n), by omega, ?_⟩
  rw [heq]
  exact (hn.trans (releases_unlock v')).trans (releases_unlock _)

lemma openNext_unlocks (words : List (List Char)) (fuel : ℕ) : Unlocks (openNext words fuel) := by
  refine openNext_results (fun c v => ⟨1, le_rfl, releases_unlock v⟩)
    (fun fuel ih c v r hitems h => ?_) fuel
  obtain ⟨n, hn, hr⟩ := openNext_releases ih hitems h
  exact ⟨n, by omega, hr⟩

/-! ## `createNext` -/

/-- The component at the cursor is neither a child of the directory nor `..` or `.`. -/
def IsNew (words : List (List Char)) (c : Cursor) (v : FileSystem) : Prop :=
  ∃ word, words[c.cleared]? = some word ∧ getChild c.parentNode word v = some none ∧
    word ≠ ['.', '.'] ∧ word ≠ ['.']

/-- For a component that does not exist nothing happens, for the others there is a call. -/
lemma Unlocks.createFound (hrec : Unlocks rec) {r : Cursor × FileSystem}
    (h : createFound rec words c v = some r) :
    ∃ word temp, words[c.cleared]? = some word ∧ getChild c.parentNode word v = some temp ∧
      (temp = none ∧ r = (c, v) ∨ temp ≠ none ∧ ∃ n, 1 ≤ n ∧ Releases v r.2 n) := by
  obtain ⟨word, hword, h⟩ := Option.bind_eq_some_iff.mp h
  obtain ⟨temp, htemp, h⟩ := Option.bind_eq_some_iff.mp h
  refine ⟨word, temp, hword, htemp, ?_⟩
  cases temp with
  | none => exact .inl ⟨rfl, (Option.some.inj h).symm⟩
  | some child =>
    obtain ⟨out, hout, rfl⟩ := Option.map_eq_some_iff.mp h
    exact .inr ⟨by simp, hrec _ _ _ hout⟩

lemma Unlocks.createParent (hrec : Unlocks rec) {dots : List Char} {r : Cursor × FileSystem}
    (h : createParent rec dots words c v = some r) :
    ∃ word, words[c.cleared]? = some word ∧
      (word ≠ dots ∧ r = (c, v) ∨ word = dots ∧ ∃ n, 1 ≤ n ∧ Releases v r.2 n) := by
  obtain ⟨word, hword, h⟩ := Option.bind_eq_some_iff.mp h
  refine ⟨word, hword, ?_⟩
  split at h
  · rename_i hdots
    obtain ⟨node, -, h⟩ := Option.bind_eq_some_iff.mp h
    obtain ⟨out, hout, rfl⟩ := Option.map_eq_some_iff.mp h
    exact .inr ⟨hdots, hrec _ _ _ hout⟩
  · rename_i hdots
    exact .inl ⟨hdots, (Option.some.inj h).symm⟩

lemma Unlocks.createParent_releases (hrec : Unlocks rec) {dots : List Char}
    {r : Cursor × FileSystem} (h : Vfs.createParent rec dots words c v = some r) :
    ∃ n, Releases v r.2 n := by
  obtain ⟨word, -, ⟨-, rfl⟩ | ⟨-, n, -, hn⟩⟩ := hrec.createParent h
  · exact ⟨0, .refl v⟩
  · exact ⟨n, hn⟩

/-- Adding a child does not touch the lock. -/
lemma addChild_events {name : List Char} {garbage : Garbage} {r : ℕ × FileSystem}
    (h : addChild garbage parent name v = some r) : r.2.events = v.events := by
  obtain ⟨p, -, h⟩ := Option.bind_eq_some_iff.mp h
  obtain ⟨parentNode, -, h⟩ := Option.bind_eq_some_iff.mp h
  split at h
  · obtain ⟨node, -, rfl⟩ := Option.map_eq_some_iff.mp h
    rfl
  · simp at h

lemma createChild_releases {r : Cursor × FileSystem} (h : createChild g words c v = some r) :
    Releases v r.2 0 := by
  obtain ⟨word, -, h⟩ := Option.bind_eq_some_iff.mp h
  obtain ⟨out, hout, rfl⟩ := Option.map_eq_some_iff.mp h
  exact addChild_events hout

/-- A walk over at least one component gives the lock back once exactly if the first one is to
be added. -/
lemma createNext_releases (hrec : Unlocks (createNext g words fuel)) {r : Option ℕ × FileSystem}
    (hitems : 0 < c.items) (h : createNext g words (fuel + 1) c v = some r) :
    ∃ n, 1 ≤ n ∧ Releases v r.2 n ∧ (n = 1 ↔ IsNew words c v) := by
  obtain ⟨c₁, v₁, c₂, v₂, c₃, v₃, c₄, v₄, h₁, h₂, h₃, h₄, rfl⟩ := createNext_cases hitems h
  have hend := (createChild_releases h₄).trans (releases_unlock _)
  obtain ⟨word, temp, hword, htemp, ⟨rfl, heq₁⟩ | ⟨hfound, n₁, hn₁, hr₁⟩⟩ := hrec.createFound h₁
  · obtain ⟨rfl, rfl⟩ := Prod.mk.inj heq₁
    obtain ⟨word₂, hword₂, ⟨hdots₂, heq₂⟩ | ⟨rfl, n₂, hn₂, hr₂⟩⟩ := hrec.createParent h₂
    · obtain ⟨rfl, rfl⟩ := Prod.mk.inj heq₂
      obtain rfl : word = word₂ := Option.some.inj (hword.symm.trans hword₂)
      obtain ⟨word₃, hword₃, ⟨hdots₃, heq₃⟩ | ⟨rfl, n₃, hn₃, hr₃⟩⟩ := hrec.createParent h₃
      · obtain ⟨rfl, rfl⟩ := Prod.mk.inj heq₃
        obtain rfl : word = word₃ := Option.some.inj (hword.symm.trans hword₃)
        exact ⟨1, le_rfl, hend, iff_of_true rfl ⟨word, hword, htemp, hdots₂, hdots₃⟩⟩
      · refine ⟨_, by omega, hr₃.trans hend, iff_of_false (by omega) ?_⟩
        rintro ⟨word', hword', -, -, hdots⟩
        exact hdots (Option.some.inj (hword'.symm.trans hword₃))
    · obtain ⟨n₃, hr₃⟩ := hrec.createParent_releases h₃
      refine ⟨_, by omega, (hr₂.trans hr₃).trans hend, iff_of_false (by omega) ?_⟩
      rintro ⟨word', hword', -, hdots, -⟩
      exact hdots (Option.some.inj (hword'.symm.trans hword₂))
  · obtain ⟨n₂, hr₂⟩ := hrec.createParent_releases h₂
    obtain ⟨n₃, hr₃⟩ := hrec.createParent_releases h₃
    refine ⟨_, by omega, ((hr₁.trans hr₂).trans hr₃).trans hend, iff_of_false (by omega) ?_⟩
    rintro ⟨word', hword', hnone, -⟩
    obtain rfl : word = word' := Option.some.inj (hword.symm.trans hword')
    exact hfound (Option.some.inj (htemp.symm.trans hnone))

lemma createNext_unlocks (g : ℕ → Garbage) (words : List (List Char)) (fuel : ℕ) :
    Unlocks (createNext g words fuel) := by
  refine createNext_results (fun c v => ⟨1, le_rfl, releases_unlock v⟩)
    (fun fuel ih c v r hitems h => ?_) fuel
  obtain ⟨n, hn, hr, -⟩ := createNext_releases ih hitems h
  exact ⟨n, hn, hr⟩

/-! ## Calls -/

/-- The call took the lock and gave it back once, or it did neither. -/
def Balanced (v v' : FileSystem) : Prop :=
  v'.events = v.events ∨ v'.events = .release :: .acquire :: v.events

lemma balanced_iff (h : Releases v.lock v' n) : Balanced v v' ↔ n = 1 := by
  have hevents : v'.events = List.replicate n .release ++ .acquire :: v.events := h
  constructor
  · rintro (heq | heq)
    all_goals
      have hlength := congrArg List.length (hevents.symm.trans heq)
      simp at hlength
      omega
  · rintro rfl
    exact .inr hevents

/-- A call that returns with the lock. -/
lemma not_balanced_lock (v : FileSystem) : ¬ Balanced v v.lock := by
  intro hb
  simpa using (balanced_iff (Releases.refl v.lock)).mp hb

/-- The node at which `open` and `create` start; the outer `none` is a fault. -/
def startNode (v : FileSystem) : Option ℕ → Option (Option ℕ)
  | none => (v.deref v.tfs_root).map Node.ptr
  | some p => some (some p)

/-- The call does not get as far as the components of the path: it asks for the root, the path
is null or contains a space, or there is no node to start at. -/
def EndsEarly (v : FileSystem) (parent : Option ℕ) (path : Option (List Char)) : Prop :=
  (parent = none ∨ parent = v.tfs_root) ∧ path = some ['/'] ∨ path = none ∨
    (∃ p, path = some p ∧ ' ' ∈ p) ∨ startNode v parent = some none

/-- The first component of the path is to be added at the node where `create` starts. -/
def StartsNew (fuel : ℕ) (v : FileSystem) (parent : Option ℕ) (path : Option (List Char)) : Prop :=
  ∃ p words stripped start, path = some p ∧ Str.splitWords ['/'] fuel p = some words ∧
    stripFront words = some stripped ∧ startNode v parent = some (some start) ∧
    IsNew stripped ⟨some start, none, 0, 0⟩ v

lemma startNode_cases (h : (match parent with
      | none => (FileSystem.deref v.lock v.lock.tfs_root).map Node.ptr
      | some p => some (some p)) = some start) : startNode v parent = some start := by
  cases parent with
  | none => exact h
  | some p => exact h

lemma not_early {path : List Char} (hspace : ' ' ∉ path) (hstart : startNode v parent = some start)
    (hnode : start ≠ none) : ¬ (' ' ∈ path ∨ startNode v parent = some none) := by
  rintro (h | h)
  · exact hspace h
  · exact hnode (Option.some.inj (hstart.symm.trans h))

/-- `open` after it has taken the lock. -/
lemma openLocked_balanced_iff {path : List Char} {r : Option ℕ × FileSystem}
    (h : vfsOpen.openLocked fuel ok parent v path = some r) :
    Balanced v r.2 ↔ ' ' ∈ path ∨ startNode v parent = some none := by
  rw [vfsOpen.openLocked] at h
  split at h
  · simp at h
  dsimp only at h
  split at h
  · rename_i hspace
    obtain rfl := Option.some.inj h
    exact iff_of_true (.inr rfl) (.inl hspace)
  · rename_i hspace
    obtain ⟨start, hstart, h⟩ := Option.bind_eq_some_iff.mp h
    replace hstart := startNode_cases hstart
    split at h
    · rename_i hnull
      obtain rfl := Option.some.inj h
      subst hnull
      exact iff_of_true (.inr rfl) (.inr hstart)
    · rename_i hnode
      have hright := not_early hspace hstart hnode
      split at h
      · -- the path is `/`, and the lock is kept
        obtain rfl := Option.some.inj h
        exact iff_of_false (not_balanced_lock v) hright
      · obtain ⟨split, -, h⟩ := Option.bind_eq_some_iff.mp h
        cases split with
        | none =>
          obtain rfl := Option.some.inj h
          exact iff_of_false (not_balanced_lock v) hright
        | some words =>
          obtain ⟨stripped, -, h⟩ := Option.bind_eq_some_iff.mp h
          obtain ⟨items, hitems, h⟩ := Option.bind_eq_some_iff.mp h
          cases fuel with
          | zero => simp [openNext] at h
          | succ fuel =>
            obtain ⟨n, hn, hr⟩ :=
              openNext_releases (openNext_unlocks stripped fuel) (stripBack_pos hitems) h
            refine iff_of_false (fun hb => ?_) hright
            have := (balanced_iff hr).mp hb
            omega

lemma findIndex_lock (name : List Char) (cs : List ℕ) :
    findIndex v.lock name cs = findIndex v name cs := by
  induction cs with
  | nil => rfl
  | cons c cs ih => rw [findIndex, findIndex, ih, FileSystem.nodes_lock]

lemma isNew_lock : IsNew words c v.lock ↔ IsNew words c v := by
  have hchild : ∀ word, getChild c.parentNode word v.lock = getChild c.parentNode word v := by
    intro word
    rw [getChild, getChild]
    simp only [findIndex_lock]
    rfl
  simp only [IsNew, hchild]

/-- `create` after it has taken the lock. -/
lemma createLocked_balanced_iff {path : List Char} {r : Option ℕ × FileSystem}
    (h : vfsCreate.createLocked g fuel ok parent v path = some r) :
    Balanced v r.2 ↔ (' ' ∈ path ∨ startNode v parent = some none) ∨
      ok = true ∧ StartsNew fuel v parent (some path) := by
  rw [vfsCreate.createLocked] at h
  split at h
  · simp at h
  dsimp only at h
  split at h
  · rename_i hspace
    obtain rfl := Option.some.inj h
    exact iff_of_true (.inr rfl) (.inl (.inl hspace))
  · rename_i hspace
    obtain ⟨start, hstart, h⟩ := Option.bind_eq_some_iff.mp h
    replace hstart := startNode_cases hstart
    split at h
    · rename_i hnull
      obtain rfl := Option.some.inj h
      subst hnull
      exact iff_of_true (.inr rfl) (.inl (.inr hstart))
    · rename_i hnode
      obtain ⟨start, rfl⟩ := Option.ne_none_iff_exists'.mp hnode
      have hright := not_early hspace hstart hnode
      rw [or_iff_right hright]
      obtain ⟨split, hsplit, h⟩ := Option.bind_eq_some_iff.mp h
      obtain ⟨words, hwords, rfl⟩ := Option.map_eq_some_iff.mp hsplit
      cases ok with
      | false =>
        obtain rfl := Option.some.inj h
        exact iff_of_false (not_balanced_lock v) (by simp)
      | true =>
        obtain ⟨stripped, hstripped, h⟩ := Option.bind_eq_some_iff.mp h
        obtain ⟨items, hitems, h⟩ := Option.bind_eq_some_iff.mp h
        cases fuel with
        | zero => simp [createNext] at h
        | succ fuel =>
          obtain ⟨n, -, hr, hone⟩ :=
            createNext_releases (createNext_unlocks g stripped fuel) (stripBack_pos hitems) h
          rw [balanced_iff hr, hone, isNew_lock]
          constructor
          · intro hnew
            exact ⟨rfl, path, words, stripped, start, rfl, hwords, hstripped, hstart, hnew⟩
          · rintro ⟨-, path', words', stripped', start', hpath, hwords', hstripped', hstart', hnew⟩
            obtain rfl := Option.some.inj hpath
            obtain rfl : words = words' := Option.some.inj (hwords.symm.trans hwords')
            obtain rfl : stripped = stripped' := Option.some.inj (hstripped.symm.trans hstripped')
            obtain rfl : start = start' :=
              Option.some.inj (Option.some.inj (hstart.symm.trans hstart'))
            exact hnew

/-! ## The main result -/

/-- The two calls that walk along a path. -/
inductive PathCall where
  | opens
  | creates (g : ℕ → Garbage)

/-- The call; `ok` says whether the allocation in `strsplit_count` succeeds. -/
def PathCall.run (call : PathCall) (fuel : ℕ) (ok : Bool) (parent : Option ℕ)
    (path : Option (List Char)) (v : FileSystem) : Option (Option ℕ × FileSystem) :=
  match call with
  | .opens => vfsOpen fuel ok parent path v
  | .creates g => vfsCreate g fuel ok parent path v

/-- The condition under which a call keeps the discipline of the lock: it ends early, or it is a
call of `create` for a path whose first component is to be added. -/
def PathCall.Keeps (call : PathCall) (fuel : ℕ) (ok : Bool) (parent : Option ℕ)
    (path : Option (List Char)) (v : FileSystem) : Prop :=
  match call with
  | .opens => EndsEarly v parent path
  | .creates _ => EndsEarly v parent path ∨ ok = true ∧ StartsNew fuel v parent path

lemma endsEarly_some_iff {p : List Char}
    (h : ¬ ((parent = none ∨ parent = v.tfs_root) ∧ p = ['/'])) :
    EndsEarly v parent (some p) ↔ ' ' ∈ p ∨ startNode v parent = some none := by
  constructor
  · rintro (⟨hroot, hp⟩ | hnull | ⟨p', hp', hspace⟩ | hstart)
    · exact absurd ⟨hroot, Option.some.inj hp⟩ h
    · simp at hnull
    · exact .inl (Option.some.inj hp' ▸ hspace)
    · exact .inr hstart
  · rintro (hspace | hstart)
    · exact .inr (.inr (.inl ⟨p, rfl, hspace⟩))
    · exact .inr (.inr (.inr hstart))

/-- What `open` and `create` do before they look at the path: `locked` is the rest of the call. -/
lemma path_call_cases {path : Option (List Char)} {r : Option ℕ × FileSystem}
    {locked : List Char → Option (Option ℕ × FileSystem)}
    (h : (if parent = none ∨ parent = v.tfs_root then
        path.bind fun p =>
          if p = ['/'] then (v.deref v.tfs_root).map fun root => (root.ptr, v) else locked p
      else
        match path with
        | none => if v.locked then none else some (none, v.lock.unlock)
        | some p => locked p) = some r) :
    Balanced v r.2 ∧ EndsEarly v parent path ∨
      ∃ p, path = some p ∧ locked p = some r ∧
        ¬ ((parent = none ∨ parent = v.tfs_root) ∧ p = ['/']) := by
  split at h
  · rename_i hroot
    obtain ⟨p, rfl, hpath⟩ := Option.bind_eq_some_iff.mp h
    split at hpath
    · rename_i hp
      obtain ⟨root, -, rfl⟩ := Option.map_eq_some_iff.mp hpath
      exact .inl ⟨.inl rfl, .inl ⟨hroot, by rw [hp]⟩⟩
    · rename_i hp
      exact .inr ⟨p, rfl, hpath, fun hslash => hp hslash.2⟩
  · rename_i hroot
    cases path with
    | none =>
      dsimp only at h
      split at h
      · simp at h
      · obtain rfl := Option.some.inj h
        exact .inl ⟨.inr rfl, .inr (.inl rfl)⟩
    | some p => exact .inr ⟨p, rfl, h, fun hslash => hroot hslash.1⟩

/-- **The lock is given back once only on short walks.**  A call of `open` or `create` that
returns has taken the lock and given it back once, or has done neither, exactly if it ends before
the components of the path, or if it is a call of `create` whose first component is new. -/
theorem vfs_lock_iff (call : PathCall) {path : Option (List Char)} {r : Option ℕ × FileSystem}
    (h : call.run fuel ok parent path v = some r) :
    Balanced v r.2 ↔ call.Keeps fuel ok parent path v := by
  cases call with
  | opens =>
    rcases path_call_cases h with ⟨hbalanced, hearly⟩ | ⟨p, rfl, hlocked, hroot⟩
    · exact iff_of_true hbalanced hearly
    · rw [openLocked_balanced_iff hlocked]
      exact (endsEarly_some_iff hroot).symm
  | creates g =>
    rcases path_call_cases h with ⟨hbalanced, hearly⟩ | ⟨p, rfl, hlocked, hroot⟩
    · exact iff_of_true hbalanced (.inl hearly)
    · rw [createLocked_balanced_iff hlocked, ← endsEarly_some_iff hroot]
      exact Iff.rfl

/-- A new file in an empty directory is created, and the lock is given back once. -/
theorem vfs_lock_emptyDirectory :
    ∃ r, (PathCall.creates fun _ => clearMemory).run 5 true (some 0) (some ['a']) emptyDirectory =
        some r ∧
      (PathCall.creates fun _ => clearMemory).Keeps 5 true (some 0) (some ['a']) emptyDirectory ∧
      Balanced emptyDirectory r.2 := by
  have hrun : ((PathCall.creates fun _ => clearMemory).run 5 true (some 0) (some ['a'])
      emptyDirectory).any (fun r => decide (r.2.events = [.release, .acquire])) = true := by
    decide +kernel
  obtain ⟨r, hr, hevents⟩ := (Option.any_eq_true _ _).mp hrun
  have hbalanced : Balanced emptyDirectory r.2 := .inr (of_decide_eq_true hevents)
  exact ⟨r, hr, (vfs_lock_iff _ hr).mp hbalanced, hbalanced⟩

/-- Opening a child of a directory gives the lock back three times. -/
theorem open_releases_three_times :
    ∃ r, PathCall.opens.run 5 true (some 0) (some ['a']) { nodes := smallTree } = some r ∧
      r.2.events = [.release, .release, .release, .acquire] ∧
      ¬ Balanced { nodes := smallTree } r.2 := by
  have hrun : (PathCall.opens.run 5 true (some 0) (some ['a']) { nodes := smallTree }).any
      (fun r => decide (r.2.events = [.release, .release, .release, .acquire])) = true := by
    decide +kernel
  obtain ⟨r, hr, hcheck⟩ := (Option.any_eq_true _ _).mp hrun
  have hevents : r.2.events = [.release, .release, .release, .acquire] := by simpa using hcheck
  refine ⟨r, hr, hevents, ?_⟩
  rintro (h | h)
  · rw [hevents] at h
    simp at h
  · rw [hevents] at h
    simp at h

end TurbOS.Vfs
