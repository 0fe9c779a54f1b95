import Mathlib

/-!
# Tries whose nodes live in memory

A trie of depth `d` is a structure of linked nodes.  A node has one cell for every index.
In the nodes of the upper `d - 1` levels the cells link the nodes below (`next`), and in the
lowest level they hold the values.  A walk follows a list of indices (`reach`), and a value
is looked up in the node where the walk ends (`lookup`); where a link is missing it is
`blank`.

Several tries may live in one memory.  They form a *forest* if every node is linked from one
cell only, except that the roots may share what they link under the same index (this is what
copying a root gives).  Three operations keep a forest: `grow` links a new blank node, `put`
writes a value, and `copyRoot` makes a new root with the links of another one.  For the first
two this file says what the lookups are afterwards, through every root.
-/

namespace LinkedTrie

variable {N I E : Type*}

section Walk

variable (next : E → Option N) (blank : E) (c : N → I → E)

/-- The node at the end of a walk. -/
def reach (n : N) : List I → Option N
  | [] => some n
  | i :: path => (next (c n i)).bind fun m => reach m path

/-- The value in cell `i` of the node at the end of a walk. -/
def lookup (n : N) (path : List I) (i : I) : E :=
  ((reach next c n path).map fun m => c m i).getD blank

/-- The node is `k` levels below a root. -/
def Below (R : Set N) (k : ℕ) (n : N) : Prop :=
  ∃ r ∈ R, ∃ path : List I, path.length = k ∧ reach next c r path = some n

/-- Every node is linked from one cell, except for what roots share. -/
structure Forest (R : Set N) (d : ℕ) : Prop where
  root : ∀ k n i r, Below next c R k n → k + 1 < d → r ∈ R → next (c n i) ≠ some r
  once : ∀ k n i k' n' i' m, Below next c R k n → Below next c R k' n' → k + 1 < d → k' + 1 < d →
    next (c n i) = some m → next (c n' i') = some m → i = i' ∧ (n = n' ∨ n ∈ R ∧ n' ∈ R)

/-- The node occurs nowhere in the forest. -/
def Fresh (R : Set N) (d : ℕ) (n : N) : Prop := ∀ k < d, ¬ Below next c R k n

/-- The two roots link the same node under the index. -/
def Shared (r r' : N) (i : I) : Prop := ∃ m, next (c r i) = some m ∧ next (c r' i) = some m

end Walk

variable {next : E → Option N} {blank : E} {c c' : N → I → E} {R : Set N} {d k : ℕ}
  {n m p r r' : N} {i j : I} {e : E} {path path' : List I}

lemma reach_append_singleton (c : N → I → E) (n : N) (path : List I) (i : I) :
    reach next c n (path ++ [i]) = (reach next c n path).bind fun m => next (c m i) := by
  induction path generalizing n with
  | nil =>
    rw [List.nil_append, reach, reach, Option.bind_some]
    cases next (c n i) <;> rfl
  | cons j path ih =>
    rw [List.cons_append, reach, reach, Option.bind_assoc]
    congr 1
    funext m
    exact ih m

/-- The last link of a walk. -/
lemma reach_append_eq_some (h : reach next c n (path ++ [i]) = some p) :
    ∃ m, reach next c n path = some m ∧ next (c m i) = some p := by
  rw [reach_append_singleton] at h
  exact Option.bind_eq_some_iff.mp h

lemma Below.of_reach (hr : r ∈ R) (h : reach next c r path = some n) :
    Below next c R path.length n := ⟨r, hr, path, rfl, h⟩

lemma Below.link (h : Below next c R k n) (hm : next (c n i) = some m) :
    Below next c R (k + 1) m := by
  obtain ⟨r, hr, path, rfl, hreach⟩ := h
  refine ⟨r, hr, path ++ [i], by simp, ?_⟩
  rw [reach_append_singleton, hreach]
  exact hm

lemma below_zero (hr : r ∈ R) : Below next c R 0 r := ⟨r, hr, [], rfl, rfl⟩

lemma Fresh.ne (hp : Fresh next c R d p) (hn : Below next c R k n) (hk : k < d) : n ≠ p := by
  rintro rfl
  exact hp k hk hn

lemma Fresh.notMem (hp : Fresh next c R d p) (hd : 0 < d) : p ∉ R := fun h =>
  hp 0 hd (below_zero h)

/-! ## Walks in a forest -/

/-- A root is reached by the empty walk only. -/
lemma Forest.path_of_root (h : Forest next c R d) (hr : r ∈ R) (hr' : r' ∈ R)
    (hlen : path.length < d) (hreach : reach next c r path = some r') : path = [] := by
  rcases List.eq_nil_or_concat path with hnil | ⟨init, i, rfl⟩
  · exact hnil
  · rw [List.concat_eq_append] at hreach hlen
    obtain ⟨m, hm, hlink⟩ := reach_append_eq_some hreach
    simp only [List.length_append, List.length_singleton] at hlen
    exact absurd hlink (h.root _ m i r' (.of_reach hr hm) hlen hr')

/-- A node is reached by one walk only. -/
lemma Forest.path_unique (h : Forest next c R d) (hr : r ∈ R) (hr' : r' ∈ R)
    (hlen : path.length < d) (hlen' : path'.length < d) (hreach : reach next c r path = some n)
    (hreach' : reach next c r' path' = some n) : path = path' := by
  induction path using List.reverseRecOn generalizing path' n with
  | nil =>
    obtain rfl := Option.some.inj hreach
    exact (h.path_of_root hr' hr hlen' hreach').symm
  | append_singleton init i ih =>
    obtain ⟨m, hm, hlink⟩ := reach_append_eq_some hreach
    simp only [List.length_append, List.length_singleton] at hlen
    rcases List.eq_nil_or_concat path' with rfl | ⟨init', i', rfl⟩
    · obtain rfl := Option.some.inj hreach'
      exact absurd hlink (h.root _ m i r' (.of_reach hr hm) hlen hr')
    · rw [List.concat_eq_append] at hreach' hlen' ⊢
      obtain ⟨m', hm', hlink'⟩ := reach_append_eq_some hreach'
      simp only [List.length_append, List.length_singleton] at hlen'
      obtain ⟨rfl, rfl | ⟨hmR, hmR'⟩⟩ := h.once _ m i _ m' i' n (.of_reach hr hm)
        (.of_reach hr' hm') hlen hlen' hlink hlink'
      · rw [ih (by omega) (by omega) hm hm']
      · -- both cells are in roots
        rw [h.path_of_root hr hmR (by omega) hm, h.path_of_root hr' hmR' (by omega) hm']

/-- A node has one level. -/
lemma Forest.level_unique {k' : ℕ} (h : Forest next c R d) (hk : k < d) (hk' : k' < d)
    (hn : Below next c R k n) (hn' : Below next c R k' n) : k = k' := by
  obtain ⟨r, hr, path, rfl, hreach⟩ := hn
  obtain ⟨r', hr', path', rfl, hreach'⟩ := hn'
  rw [h.path_unique hr hr' hk hk' hreach hreach']

/-- The nodes of the lowest level are not inner ones. -/
lemma Forest.ne_of_inner {l : ℕ} (h : Forest next c R d) (hn : Below next c R k n)
    (hk : k + 1 = d) (hl : l + 1 < d) (hm : Below next c R l m) : m ≠ n := by
  rintro rfl
  have := h.level_unique (by omega) (by omega) hm hn
  omega

/-- Two roots from which the same walk leads to the same node share its first link. -/
lemma Forest.shared_of_reach (h : Forest next c R d) (hr : r ∈ R) (hr' : r' ∈ R)
    (hlen : path.length < d) (hreach : reach next c r path = some n)
    (hreach' : reach next c r' path = some n) :
    r = r' ∨ ∃ i rest, path = i :: rest ∧ Shared next c r r' i := by
  induction path using List.reverseRecOn generalizing n with
  | nil => exact .inl (Option.some.inj (hreach.trans hreach'.symm))
  | append_singleton init i ih =>
    obtain ⟨m, hm, hlink⟩ := reach_append_eq_some hreach
    obtain ⟨m', hm', hlink'⟩ := reach_append_eq_some hreach'
    simp only [List.length_append, List.length_singleton] at hlen
    obtain ⟨-, rfl | ⟨hmR, hmR'⟩⟩ := h.once _ m i _ m' i n (.of_reach hr hm)
      (.of_reach hr' hm') hlen hlen hlink hlink'
    · rcases ih (by omega) hm hm' with hrr | ⟨j, rest, rfl, hshared⟩
      · exact .inl hrr
      · exact .inr ⟨j, rest ++ [i], rfl, hshared⟩
    · obtain rfl := h.path_of_root hr hmR (by omega) hm
      obtain rfl := Option.some.inj hm
      obtain rfl := Option.some.inj hm'
      exact .inr ⟨i, [], rfl, n, hlink, hlink'⟩

/-- Under a shared index two roots have the same values. -/
lemma Shared.lookup_eq (h : Shared next c r r' i) (rest : List I) (j : I) :
    lookup next blank c r (i :: rest) j = lookup next blank c r' (i :: rest) j := by
  obtain ⟨m, hm, hm'⟩ := h
  rw [lookup, lookup, reach, reach, hm, hm']

/-! ## Copying a root -/

variable [DecidableEq N]

/-- Copy the cells of a root to a new node. -/
def copyRoot (c : N → I → E) (r p : N) : N → I → E := fun m j =>
  if m = p then c r j else c m j

section CopyRoot

variable (h : Forest next c R d) (hr : r ∈ R) (hp : Fresh next c R d p)
include hp

/-- The old walks are as before. -/
lemma copyRoot_reach_old (hr' : r' ∈ R) (hlen : path.length < d) :
    reach next (copyRoot c r p) r' path = reach next c r' path := by
  induction path using List.reverseRecOn with
  | nil => rfl
  | append_singleton init j ih =>
    simp only [List.length_append, List.length_singleton] at hlen
    rw [reach_append_singleton, reach_append_singleton, ih (by omega)]
    cases hinit : reach next c r' init with
    | none => rfl
    | some m =>
      rw [Option.bind_some, Option.bind_some, copyRoot,
        if_neg (hp.ne (.of_reach hr' hinit) (by omega))]

include hr

/-- Walks from the new root go where those from its original go. -/
lemma copyRoot_reach_new (hne : path ≠ []) (hlen : path.length < d) :
    reach next (copyRoot c r p) p path = reach next c r path := by
  induction path using List.reverseRecOn with
  | nil => exact absurd rfl hne
  | append_singleton init j ih =>
    simp only [List.length_append, List.length_singleton] at hlen
    rw [reach_append_singleton, reach_append_singleton]
    by_cases hinit : init = []
    · rw [hinit, reach, reach, Option.bind_some, Option.bind_some, copyRoot, if_pos rfl]
    · rw [ih hinit (by omega)]
      cases hm : reach next c r init with
      | none => rfl
      | some m =>
        rw [Option.bind_some, Option.bind_some, copyRoot,
          if_neg (hp.ne (.of_reach hr hm) (by omega))]

/-- The nodes afterwards: those from before, and the new root. -/
lemma copyRoot_below {l : ℕ} (hl : l < d)
    (hm : Below next (copyRoot c r p) (insert p R) l m) :
    Below next c R l m ∨ (l = 0 ∧ m = p) := by
  obtain ⟨r', hr', path, rfl, hreach⟩ := hm
  rcases hr' with rfl | hr'
  · by_cases hnil : path = []
    · subst hnil
      exact .inr ⟨rfl, (Option.some.inj hreach).symm⟩
    · rw [copyRoot_reach_new hr hp hnil hl] at hreach
      exact .inl (.of_reach hr hreach)
  · rw [copyRoot_reach_old hp hr' hl] at hreach
    exact .inl (.of_reach hr' hreach)

/-- The links afterwards: a link of the new root is a link of its original. -/
lemma copyRoot_link {l : ℕ} {q : N} (hl : l + 1 < d)
    (hm : Below next (copyRoot c r p) (insert p R) l m)
    (hlink : next (copyRoot c r p m j) = some q) :
    ∃ l' m', Below next c R l' m' ∧ l' + 1 < d ∧ next (c m' j) = some q ∧
      (m' = m ∨ m = p ∧ m' = r) := by
  rcases copyRoot_below hr hp (by omega) hm with hm | ⟨rfl, rfl⟩
  · rw [copyRoot, if_neg (hp.ne hm (by omega))] at hlink
    exact ⟨l, m, hm, hl, hlink, .inl rfl⟩
  · rw [copyRoot, if_pos rfl] at hlink
    exact ⟨0, r, below_zero hr, hl, hlink, .inr ⟨rfl, rfl⟩⟩

include h

/-- Copying a root keeps the forest. -/
lemma Forest.copyRoot : Forest next (copyRoot c r p) (insert p R) d := by
  refine ⟨fun l m j r' hm hl hr' hlink => ?_, fun l m j l' m' j' q hm hm' hl hl' hlink hlink' => ?_⟩
  · obtain ⟨l₁, m₁, hm₁, hl₁, hlink₁, -⟩ := copyRoot_link hr hp hl hm hlink
    rcases hr' with rfl | hr'
    · exact hp _ hl₁ (hm₁.link hlink₁)
    · exact h.root l₁ m₁ j r' hm₁ hl₁ hr' hlink₁
  · obtain ⟨l₁, m₁, hm₁, hl₁, hlink₁, hsame⟩ := copyRoot_link hr hp hl hm hlink
    obtain ⟨l₂, m₂, hm₂, hl₂, hlink₂, hsame'⟩ := copyRoot_link hr hp hl' hm' hlink'
    obtain ⟨rfl, hroots⟩ := h.once l₁ m₁ j l₂ m₂ j' q hm₁ hm₂ hl₁ hl₂ hlink₁ hlink₂
    refine ⟨rfl, ?_⟩
    -- a cell that was copied is in a root, and so is every cell with the same link
    have hroot : ∀ {m m₁}, m₁ = m ∨ m = p ∧ m₁ = r → m₁ ∈ R → m ∈ insert p R := by
      rintro m m₁ (rfl | ⟨rfl, -⟩) hm₁
      · exact Set.mem_insert_of_mem _ hm₁
      · exact Set.mem_insert _ _
    rcases hroots with rfl | ⟨hR₁, hR₂⟩
    · rcases hsame with rfl | ⟨rfl, hm₁r⟩
      · rcases hsame' with rfl | ⟨rfl, hm₂r⟩
        · exact .inl rfl
        · rw [hm₂r]
          exact .inr ⟨Set.mem_insert_of_mem _ hr, Set.mem_insert _ _⟩
      · rw [hm₁r] at hsame'
        exact .inr ⟨Set.mem_insert _ _, hroot hsame' hr⟩
    · exact .inr ⟨hroot hsame hR₁, hroot hsame' hR₂⟩

end CopyRoot

/-! ## Writing cells -/

variable [DecidableEq I]

/-- Write a cell. -/
def put (c : N → I → E) (n : N) (i : I) (e : E) : N → I → E := fun m j =>
  if m = n ∧ j = i then e else c m j

/-- Blank all cells of a node. -/
def clear (blank : E) (c : N → I → E) (p : N) : N → I → E := fun m j =>
  if m = p then blank else c m j

/-- Link a new blank node `p` from a cell: `e` is the link. -/
def grow (blank : E) (c : N → I → E) (n : N) (i : I) (p : N) (e : E) : N → I → E :=
  put (clear blank c p) n i e

lemma put_of_ne (h : m ≠ n ∨ j ≠ i) : put c n i e m j = c m j := by
  rw [put, if_neg]
  rintro ⟨rfl, rfl⟩
  simp at h

lemma put_self (c : N → I → E) (n : N) (i : I) (e : E) : put c n i e n i = e := by simp [put]

lemma put_put (c : N → I → E) (n : N) (i : I) (e e' : E) :
    put (put c n i e) n i e' = put c n i e' := by
  funext m j
  by_cases h : m = n ∧ j = i <;> simp [put, h]

lemma grow_of_ne (hm : m ≠ p) (h : m ≠ n ∨ j ≠ i) : grow blank c n i p e m j = c m j := by
  rw [grow, put_of_ne h, clear, if_neg hm]

lemma grow_self (c : N → I → E) (n : N) (i : I) (p : N) (e : E) :
    grow blank c n i p e n i = e := put_self _ _ _ _

lemma grow_new (hn : p ≠ n) : grow blank c n i p e p j = blank := by
  rw [grow, put_of_ne (.inl hn), clear, if_pos rfl]

/-! ### Linking a new node -/

section Grow

variable (h : Forest next c R d) (hn : Below next c R k n) (hk : k + 1 < d)
  (hnone : next (c n i) = none) (hp : Fresh next c R d p) (he : next e = some p)
  (hblank : next blank = none)
include hnone hp

/-- Walks that were complete are still there. -/
lemma grow_reach_of_some (hr : r ∈ R) (hlen : path.length < d)
    (hreach : reach next c r path = some m) :
    reach next (grow blank c n i p e) r path = some m := by
  induction path using List.reverseRecOn generalizing m with
  | nil => exact hreach
  | append_singleton init j ih =>
    obtain ⟨m₁, hm₁, hlink⟩ := reach_append_eq_some hreach
    simp only [List.length_append, List.length_singleton] at hlen
    rw [reach_append_singleton, ih (by omega) hm₁, Option.bind_some, grow_of_ne, hlink]
    · exact hp.ne (.of_reach hr hm₁) (by omega)
    · by_contra hcell
      push Not at hcell
      obtain ⟨rfl, rfl⟩ := hcell
      rw [hnone] at hlink
      simp at hlink

include hn hk he hblank

/-- Walks that were incomplete end in the new node, if anywhere. -/
lemma grow_reach_of_none (hr : r ∈ R) (hlen : path.length < d)
    (hreach : reach next c r path = none) :
    reach next (grow blank c n i p e) r path = none ∨
      reach next (grow blank c n i p e) r path = some p := by
  induction path using List.reverseRecOn with
  | nil => simp [reach] at hreach
  | append_singleton init j ih =>
    simp only [List.length_append, List.length_singleton] at hlen
    rw [reach_append_singleton] at hreach ⊢
    cases hinit : reach next c r init with
    | some m =>
      rw [hinit, Option.bind_some] at hreach
      rw [grow_reach_of_some hnone hp hr (by omega) hinit, Option.bind_some]
      by_cases hcell : m = n ∧ j = i
      · obtain ⟨rfl, rfl⟩ := hcell
        rw [grow_self, he]
        exact .inr rfl
      · rw [grow_of_ne (hp.ne (.of_reach hr hinit) (by omega)) (by tauto), hreach]
        exact .inl rfl
    | none =>
      left
      rcases ih (by omega) hinit with hnew | hnew
      · rw [hnew, Option.bind_none]
      · rw [hnew, Option.bind_some, grow_new (hp.ne hn (by omega)).symm, hblank]

/-- The nodes afterwards: those from before, and the new one. -/
lemma grow_below {l : ℕ} (hl : l < d) (hm : Below next (grow blank c n i p e) R l m) :
    Below next c R l m ∨ m = p := by
  obtain ⟨r, hr, path, rfl, hreach⟩ := hm
  cases hold : reach next c r path with
  | some m' =>
    rw [grow_reach_of_some hnone hp hr hl hold] at hreach
    rw [Option.some.inj hreach] at hold
    exact .inl (.of_reach hr hold)
  | none =>
    right
    rcases grow_reach_of_none hn hk hnone hp he hblank hr hl hold with hnew | hnew
    · rw [hnew] at hreach
      simp at hreach
    · rw [hnew] at hreach
      exact (Option.some.inj hreach).symm

/-- The links afterwards: those from before, and the new one. -/
lemma grow_link {l : ℕ} {q : N} (hl : l + 1 < d)
    (hm : Below next (grow blank c n i p e) R l m)
    (hlink : next (grow blank c n i p e m j) = some q) :
    (Below next c R l m ∧ next (c m j) = some q) ∨ (m = n ∧ j = i ∧ q = p) := by
  rcases grow_below hn hk hnone hp he hblank (by omega) hm with hold | rfl
  · by_cases hcell : m = n ∧ j = i
    · obtain ⟨rfl, rfl⟩ := hcell
      rw [grow_self, he] at hlink
      exact .inr ⟨rfl, rfl, (Option.some.inj hlink).symm⟩
    · rw [grow_of_ne (hp.ne hold (by omega)) (by tauto)] at hlink
      exact .inl ⟨hold, hlink⟩
  · rw [grow_new (hp.ne hn (by omega)).symm, hblank] at hlink
    simp at hlink

/-- What else was fresh still is. -/
lemma Fresh.grow {q : N} (hq : Fresh next c R d q) (hqp : q ≠ p) :
    Fresh next (grow blank c n i p e) R d q := by
  intro l hl hbelow
  rcases grow_below hn hk hnone hp he hblank hl hbelow with hold | heq
  · exact hq l hl hold
  · exact hqp heq

include h

/-- Linking a new blank node changes no value. -/
lemma grow_lookup (hr : r ∈ R) (hlen : path.length + 1 = d) (j : I) :
    lookup next blank (grow blank c n i p e) r path j = lookup next blank c r path j := by
  rw [lookup, lookup]
  cases hold : reach next c r path with
  | some m =>
    have hm : Below next c R path.length m := .of_reach hr hold
    have hmn : m ≠ n := by
      rintro rfl
      have := h.level_unique (by omega) (by omega) hm hn
      omega
    rw [grow_reach_of_some hnone hp hr (by omega) hold, Option.map_some,
      grow_of_ne (hp.ne hm (by omega)) (.inl hmn), Option.map_some]
  | none =>
    rcases grow_reach_of_none hn hk hnone hp he hblank hr (by omega) hold with hnew | hnew
    · rw [hnew]
      rfl
    · rw [hnew, Option.map_some, grow_new (hp.ne hn (by omega)).symm]
      rfl

/-- Linking a new blank node keeps the forest. -/
lemma Forest.grow : Forest next (grow blank c n i p e) R d := by
  refine ⟨fun l m j r hm hl hr hlink => ?_, fun l m j l' m' j' q hm hm' hl hl' hlink hlink' => ?_⟩
  · rcases grow_link hn hk hnone hp he hblank hl hm hlink with ⟨hold, hlink⟩ | ⟨-, -, rfl⟩
    · exact h.root l m j r hold hl hr hlink
    · exact hp.notMem (by omega) hr
  · -- the new node is linked from nowhere else
    have hnew : ∀ {l m j}, l + 1 < d → Below next c R l m → next (c m j) ≠ some p :=
      fun hl hm hlink => hp _ hl (hm.link hlink)
    rcases grow_link hn hk hnone hp he hblank hl hm hlink with ⟨hold, hlk⟩ | ⟨hmn, hji, hq⟩ <;>
      rcases grow_link hn hk hnone hp he hblank hl' hm' hlink' with
        ⟨hold', hlk'⟩ | ⟨hmn', hji', hq'⟩
    · exact h.once l m j l' m' j' q hold hold' hl hl' hlk hlk'
    · rw [hq'] at hlk
      exact absurd hlk (hnew hl hold)
    · rw [hq] at hlk'
      exact absurd hlk' (hnew hl' hold')
    · exact ⟨hji.trans hji'.symm, .inl (hmn.trans hmn'.symm)⟩

omit h hblank in
/-- Two roots share what they shared before. -/
lemma grow_shared (hr : r ∈ R) (hr' : r' ∈ R) (hne : r ≠ r') :
    Shared next (grow blank c n i p e) r r' j ↔ Shared next c r r' j := by
  have hnot : ∀ {r}, r ∈ R → next (c r j) ≠ some p := fun hr hlink =>
    hp 1 (by omega) ((below_zero hr).link hlink)
  have hp₁ : r ≠ p := hp.ne (below_zero hr) (by omega)
  have hp₂ : r' ≠ p := hp.ne (below_zero hr') (by omega)
  rw [Shared, Shared]
  by_cases hcell : r = n ∧ j = i
  · obtain ⟨rfl, rfl⟩ := hcell
    rw [grow_self, he, grow_of_ne hp₂ (.inl hne.symm), hnone]
    refine iff_of_false ?_ (by simp)
    rintro ⟨m, hm, hm'⟩
    exact hnot hr' (by rw [hm', hm])
  by_cases hcell' : r' = n ∧ j = i
  · obtain ⟨rfl, rfl⟩ := hcell'
    rw [grow_self, he, grow_of_ne hp₁ (.inl hne), hnone]
    refine iff_of_false ?_ (by simp)
    rintro ⟨m, hm, hm'⟩
    exact hnot hr (by rw [hm, hm'])
  rw [grow_of_ne hp₁ (by tauto), grow_of_ne hp₂ (by tauto)]

end Grow

/-! ### Writing a value -/

section Put

variable (h : Forest next c R d) (hn : Below next c R k n) (hk : k + 1 = d)
include h hn hk

/-- Writing a value changes no walk. -/
lemma put_reach (hr : r ∈ R) (hlen : path.length < d) :
    reach next (put c n i e) r path = reach next c r path := by
  induction path using List.reverseRecOn with
  | nil => rfl
  | append_singleton init j ih =>
    simp only [List.length_append, List.length_singleton] at hlen
    rw [reach_append_singleton, reach_append_singleton, ih (by omega)]
    cases hinit : reach next c r init with
    | none => rfl
    | some m =>
      rw [Option.bind_some, Option.bind_some,
        put_of_ne (.inl (h.ne_of_inner hn hk hlen (.of_reach hr hinit)))]

/-- The value is found afterwards, and all other values are as before. -/
lemma put_lookup (hr : r ∈ R) (hlen : path.length + 1 = d) (j : I) :
    lookup next blank (put c n i e) r path j =
      if reach next c r path = some n ∧ j = i then e else lookup next blank c r path j := by
  rw [lookup, lookup, put_reach h hn hk hr (by omega)]
  cases hreach : reach next c r path with
  | none => simp
  | some m => simp [put]

lemma put_below {l : ℕ} (hl : l < d) :
    Below next (put c n i e) R l m ↔ Below next c R l m := by
  constructor
  · rintro ⟨r, hr, path, rfl, hreach⟩
    rw [put_reach h hn hk hr hl] at hreach
    exact .of_reach hr hreach
  · rintro ⟨r, hr, path, rfl, hreach⟩
    rw [← put_reach h hn hk hr hl] at hreach
    exact .of_reach hr hreach

/-- Writing a value keeps the forest. -/
lemma Forest.put : Forest next (put c n i e) R d := by
  have hcell : ∀ {l m}, l + 1 < d → Below next (LinkedTrie.put c n i e) R l m →
      Below next c R l m ∧ ∀ j, LinkedTrie.put c n i e m j = c m j := by
    intro l m hl hm
    rw [put_below h hn hk (by omega)] at hm
    exact ⟨hm, fun j => put_of_ne (.inl (h.ne_of_inner hn hk hl hm))⟩
  refine ⟨fun l m j r hm hl hr => ?_, fun l m j l' m' j' q hm hm' hl hl' hlink hlink' => ?_⟩
  · obtain ⟨hm, heq⟩ := hcell hl hm
    rw [heq]
    exact h.root l m j r hm hl hr
  · obtain ⟨hm, heq⟩ := hcell hl hm
    obtain ⟨hm', heq'⟩ := hcell hl' hm'
    rw [heq] at hlink
    rw [heq'] at hlink'
    exact h.once l m j l' m' j' q hm hm' hl hl' hlink hlink'

lemma Fresh.put {q : N} (hq : Fresh next c R d q) : Fresh next (put c n i e) R d q :=
  fun l hl hbelow => hq l hl ((put_below h hn hk hl).mp hbelow)

/-- Two roots share what they shared before. -/
lemma put_shared (hr : r ∈ R) (hr' : r' ∈ R) (hd : 1 < d) :
    Shared next (put c n i e) r r' j ↔ Shared next c r r' j := by
  rw [Shared, Shared, put_of_ne (.inl (h.ne_of_inner hn hk (by omega) (below_zero hr))),
    put_of_ne (.inl (h.ne_of_inner hn hk (by omega) (below_zero hr')))]

end Put

end LinkedTrie
