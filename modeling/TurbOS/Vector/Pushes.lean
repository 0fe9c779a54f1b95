import TurbOS.Vector.Backed
import TurbOS.Vector.Storage

/-!
# Runs of `push_back`

The vectors of the kernel are tables that are built by `push_back` alone.  If the heap answers
every request, the vector lists what was pushed, whatever the number of times its block moved.

It is the vector that owns its storage then: `pushes_agree` relates the two.

If the heap does not, `realloc` returns the old pointer, and `push_back` doubles the capacity all
the same.  The vector survives this only if the old block has enough slack.
-/

open Runs

namespace TurbOS.HeapVector

variable {α : Type} {w : ℕ+} {v v' : HeapVector α}

/-- A `push_back` of an item, with what the heap answers to `init` and to `realloc`. -/
structure Push (α : Type) (w : ℕ+) where
  new : Answer α w
  grow : Answer α w
  item : α

/-- One `push_back`. -/
def push (p : Push α w) (v : HeapVector α) : Option (HeapVector α) := v.pushBack p.new p.grow p.item

/-- The `realloc` of the `push_back` succeeds if there is one. -/
def Answered (v : HeapVector α) (p : Push α w) : Prop := Supplied v (.pushBack p.new p.grow p.item)

instance (v : HeapVector α) (p : Push α w) : Decidable (Answered v p) :=
  inferInstanceAs (Decidable (Supplied v _))

/-! ## The list that is built -/

/-- A vector that was not used yet, or that was initialised with room for `k` elements. -/
inductive Starts (w : ℕ+) : ℕ → HeapVector α → Prop
  | fresh (blocks : Store (List α)) : Starts w 1 (fresh blocks)
  | init (new : Answer α w) (v : HeapVector α) : Starts w 1 (init new v)
  | initSize (new : Answer α w) (k : ℕ) (v : HeapVector α) : 1 ≤ k → Starts w k (initSize new k v)

/-- The vector lists the items, and has doubled its capacity some number of times. -/
structure Built (k : ℕ) (items : List α) (v : HeapVector α) : Prop where
  size : v.length = items.length
  «at» : ∀ i < items.length, v.at i = items[i]?
  last : items ≠ [] → v.last = items.getLast?
  room : v.length ≤ v.capacity
  isInit : items ≠ [] → v.isInit = true
  capacity : v.isInit = true → k ≤ v.capacity ∧ ∃ j, v.capacity = k * 2 ^ j

/-- A `push_back` keeps the capacity of an initialised vector, or doubles it. -/
def Doubles (v : HeapVector α) (p : Push α w) : Prop :=
  ∀ v', push p v = some v' → v'.capacity = v.room ∨ v'.capacity = 2 * v.room

/-- The storage that was asked for in the beginning was given: by `init` before the first push, or
in the first push. -/
def Given (v : HeapVector α) : List (Push α w) → Prop
  | [] => True
  | p :: _ => if v.isInit then v.data ≠ none else (p.new w).isSome

/-- What holds after the items were pushed. -/
structure Listed (w : ℕ+) (k : ℕ) (items : List α) (v : HeapVector α) : Prop where
  sound : Sound w v
  size : v.length = items.length
  «at» : ∀ i < items.length, v.at i = items[i]?
  positive : 0 < k
  room : ∃ j, v.room = k * 2 ^ j
  isInit : items ≠ [] → v.isInit = true

lemma Listed.room_pos {k : ℕ} {items : List α} (h : Listed w k items v) : 0 < v.room := by
  obtain ⟨j, hj⟩ := h.room
  rw [hj]
  exact Nat.mul_pos h.positive (by positivity)

/-- The vector can take another element, if it is initialised or `init` gets its memory. -/
lemma Listed.fits {k : ℕ} {items : List α} {p : Push α w} (h : Listed w k items v)
    (hnew : v.isInit = false → (p.new w).isSome) : Fits v (.pushBack p.new p.grow p.item) := by
  have hpos := h.room_pos
  rw [HeapVector.room] at hpos
  rw [Fits]
  cases hinit : v.isInit with
  | false => exact hnew hinit
  | true =>
    rw [if_pos hinit] at hpos
    exact hpos

/-- A vector that lists the items lists one more after a push. -/
lemma Pushed.snoc {item : α} {items : List α} (h : Pushed item v v')
    (hsize : v.length = items.length) (hat : ∀ i < items.length, v.at i = items[i]?) :
    v'.length = (items ++ [item]).length ∧
      ∀ i < (items ++ [item]).length, v'.at i = (items ++ [item])[i]? := by
  rw [List.length_append, List.length_singleton]
  refine ⟨by rw [h.length, hsize], fun i hi => ?_⟩
  by_cases hlast : i = v.length
  · rw [hlast, h.last, hsize, List.getElem?_concat_length]
  · have hold : i < items.length := by omega
    rw [h.kept i (by omega), hat i hold, List.getElem?_append_left hold]

/-- One more item. -/
lemma Listed.snoc {k : ℕ} {items : List α} {p : Push α w} (h : Listed w k items v)
    (hs : Answered v p) (hnew : v.isInit = false → (p.new w).isSome) :
    ∃ v', push p v = some v' ∧ Listed w k (items ++ [p.item]) v' ∧ v'.isInit = true ∧
      (v'.capacity = v.room ∨ v'.capacity = 2 * v.room) := by
  obtain ⟨v', hv', hpushed, hsound, hcap⟩ := h.sound.pushBack hs (h.fits hnew)
  obtain ⟨hsize, hat⟩ := hpushed.snoc h.size h.at
  have hroom : v'.room = v'.capacity := by rw [HeapVector.room, if_pos hpushed.isInit]
  refine ⟨v', hv', ⟨hsound, hsize, hat, h.positive, ?_, fun _ => hpushed.isInit⟩,
    hpushed.isInit, hcap⟩
  obtain ⟨j, hj⟩ := h.room
  rw [hroom]
  rcases hcap with hsame | hdouble
  · exact ⟨j, hsame.trans hj⟩
  · exact ⟨j + 1, by rw [hdouble, hj, pow_succ]; ring⟩

/-- A run of pushes on a vector that has its storage. -/
lemma Listed.append {k : ℕ} {items : List α} {ps : List (Push α w)} (h : Listed w k items v)
    (hs : Along push Answered ps v) (hinit : v.isInit = true) :
    ∃ v', exec push ps v = some v' ∧ Listed w k (items ++ ps.map Push.item) v' ∧
      v'.isInit = true := by
  induction ps generalizing v items with
  | nil => exact ⟨v, rfl, by rwa [List.map_nil, List.append_nil], hinit⟩
  | cons p ps ih =>
    obtain ⟨v₁, hv₁, hlisted, hinit₁, -⟩ := h.snoc hs.1 (by simp [hinit])
    obtain ⟨v', hv', hlisted', hinit'⟩ := ih hlisted (hs.2 v₁ hv₁) hinit₁
    refine ⟨v', ?_, ?_, hinit'⟩
    · rw [exec, hv₁, Option.bind_some, hv']
    · rw [List.map_cons, ← List.singleton_append, ← List.append_assoc]
      exact hlisted'

lemma Listed.built {k : ℕ} {items : List α} (h : Listed w k items v) : Built k items v := by
  refine ⟨h.size, h.at, ?_, h.sound.backed.length_le, h.isInit, ?_⟩
  · intro hne
    have hpos : 0 < items.length := List.length_pos_of_ne_nil hne
    have hlt := h.sound.capacity_lt
    have hle := h.sound.backed.length_le
    rw [last, sub_one (by rw [h.size]; exact hpos) (by omega), h.size, h.at _ (by omega),
      List.getLast?_eq_getElem?]
  · intro hinit
    obtain ⟨j, hj⟩ := h.room
    rw [HeapVector.room, if_pos hinit] at hj
    exact ⟨by rw [hj]; exact Nat.le_mul_of_pos_right k (by positivity), j, hj⟩

/-- A run of pushes doubles the capacity now and then. -/
lemma Listed.doubles {k : ℕ} {items : List α} {ps : List (Push α w)} (h : Listed w k items v)
    (hs : Along push Answered ps v) (hinit : v.isInit = true) : Along push Doubles ps v := by
  induction ps generalizing v items with
  | nil => trivial
  | cons p ps ih =>
    obtain ⟨v₁, hv₁, hlisted, hinit₁, hcap⟩ := h.snoc hs.1 (by simp [hinit])
    constructor
    · intro v' hv'
      rw [← Option.some.inj (hv₁.symm.trans hv')]
      exact hcap
    · intro v' hv'
      obtain rfl := Option.some.inj (hv₁.symm.trans hv')
      exact ih hlisted (hs.2 v₁ hv₁) hinit₁

/-! ### The first push -/

lemma init_data_ne {new : Answer α w} : (init new v).data ≠ none ↔ (new w).isSome := by
  cases hb : new w with
  | none => simp [init_failed hb]
  | some b =>
    have hne : (w : ℕ) ≠ 0 := w.pos.ne'
    simp [init, malloc_some hne hb]

lemma initSize_data {new : Answer α w} {k : ℕ} (h : (initSize new k v).data ≠ none) :
    (new (arrayBytes w k)).isSome := by
  by_contra hfail
  refine h ?_
  rw [initSize, malloc_none (.inr (by simpa using hfail))]

/-- An initialised vector without storage writes through the null pointer. -/
lemma push_null {p : Push α w} (hinit : v.isInit = true) (hdata : v.data = none)
    (hroom : v.length < v.capacity) : push p v = none := by
  rw [push, pushBack, if_pos hinit, if_pos hroom, write, hdata, Option.bind_none]

section Starts

variable {k : ℕ} {p : Push α w} {ps : List (Push α w)}

lemma Starts.length (h : Starts w k v) : v.length = 0 := by
  cases h <;> rfl

lemma Starts.positive (h : Starts w k v) : 0 < k := by
  cases h with
  | fresh | init => exact Nat.one_pos
  | initSize new k v hk => exact hk

/-- The first push looks for room for `k` elements. -/
lemma Starts.room (h : Starts w k v) : v.room = k := by
  cases h <;> rfl

lemma Starts.sound (h : Starts w k v) (hg : v.isInit = true → v.data ≠ none) : Sound w v := by
  cases h with
  | fresh blocks => exact fresh_sound blocks
  | init new v => exact init_sound (init_data_ne.mp (hg rfl)) v
  | initSize new k v hk => exact initSize_sound (.inr (initSize_data (hg rfl))) v

lemma Starts.built (h : Starts w k v) : Built k [] v := by
  refine ⟨h.length, by simp, by simp, by simp [h.length], by simp, fun hinit => ?_⟩
  have hroom := h.room
  rw [HeapVector.room, if_pos hinit] at hroom
  exact ⟨hroom.ge, 0, by rw [hroom, pow_zero, mul_one]⟩

/-- A vector that gets its storage lists nothing yet. -/
lemma Starts.listed (h : Starts w k v) (hg : Given v (p :: ps)) :
    Listed w k [] v ∧ (v.isInit = false → (p.new w).isSome) := by
  rw [Given] at hg
  refine ⟨⟨h.sound fun hinit => ?_, h.length, by simp, h.positive, ⟨0, ?_⟩, by simp⟩,
    fun hinit => ?_⟩
  · rwa [if_pos hinit] at hg
  · rw [h.room, pow_zero, mul_one]
  · rwa [if_neg (by simp [hinit])] at hg

/-- The first push of a vector that does not get its storage. -/
lemma Starts.stuck (h : Starts w k v) (hg : ¬ Given v (p :: ps)) : push p v = none := by
  have hroom := h.room
  have hpos := h.positive
  rw [Given] at hg
  rw [HeapVector.room] at hroom
  cases hinit : v.isInit with
  | false =>
    rw [if_neg (by simp [hinit])] at hg
    rw [push, pushBack_fresh hinit, init_failed (by simpa using hg)]
    exact push_null (p := p) rfl rfl Nat.one_pos
  | true =>
    rw [if_pos hinit] at hg hroom
    have hlen := h.length
    exact push_null hinit (by simpa using hg) (by omega)

end Starts

/-- **`push_back` builds the list.** If every `realloc` succeeds, the pushes return, given that the
storage of the beginning was given; the vector lists the items, and its capacity only doubles. -/
theorem pushes_build {k : ℕ} {ps : List (Push α w)} (h : Starts w k v)
    (hs : Along push Answered ps v) :
    ((exec push ps v).isSome ↔ Given v ps) ∧ Along push Doubles ps v ∧
      ∀ v', exec push ps v = some v' → Built k (ps.map Push.item) v' := by
  cases ps with
  | nil =>
    refine ⟨⟨fun _ => trivial, fun _ => rfl⟩, trivial, fun v' hv' => ?_⟩
    rw [← Option.some.inj hv']
    exact h.built
  | cons p ps =>
    by_cases hg : Given v (p :: ps)
    · obtain ⟨hlisted, hnew⟩ := h.listed hg
      obtain ⟨v₁, hv₁, hfirst, hinit, hcap⟩ := hlisted.snoc hs.1 hnew
      have hrest := hs.2 v₁ hv₁
      obtain ⟨v', hv', hall, -⟩ := hfirst.append hrest hinit
      have he : exec push (p :: ps) v = some v' := by rw [exec, hv₁, Option.bind_some, hv']
      refine ⟨⟨fun _ => hg, fun _ => by rw [he]; rfl⟩, ⟨fun v₂ hv₂ => ?_, fun v₂ hv₂ => ?_⟩,
        fun v₂ hv₂ => ?_⟩
      · rw [← Option.some.inj (hv₁.symm.trans hv₂)]
        exact hcap
      · rw [← Option.some.inj (hv₁.symm.trans hv₂)]
        exact hfirst.doubles hrest hinit
      · rw [← Option.some.inj (he.symm.trans hv₂)]
        exact hall.built
    · have hstuck := h.stuck hg
      have he : exec push (p :: ps) v = none := by rw [exec, hstuck, Option.bind_none]
      refine ⟨⟨fun hsome => ?_, fun hgiven => absurd hgiven hg⟩,
        ⟨fun v₂ hv₂ => ?_, fun v₂ hv₂ => ?_⟩, fun v₂ hv₂ => ?_⟩
      · rw [he] at hsome
        simp at hsome
      · rw [hstuck] at hv₂
        simp at hv₂
      · rw [hstuck] at hv₂
        simp at hv₂
      · rw [he] at hv₂
        simp at hv₂

theorem pushes_build_three :
    ((exec push [⟨plenty, plenty, 7⟩, ⟨plenty, plenty, 8⟩, ⟨plenty, plenty, 9⟩]
        (init plenty (fresh Store.empty))).isSome ↔
      Given (init plenty (fresh Store.empty)) [⟨plenty, plenty, 7⟩, ⟨plenty, plenty, 8⟩,
        ⟨plenty, plenty, 9⟩]) ∧
    Along push Doubles [⟨plenty, plenty, 7⟩, ⟨plenty, plenty, 8⟩, ⟨plenty, plenty, 9⟩]
      (init plenty (fresh Store.empty)) ∧
    ∀ v', exec push [⟨plenty, plenty, 7⟩, ⟨plenty, plenty, 8⟩, ⟨plenty, plenty, 9⟩]
      (init plenty (fresh Store.empty)) = some v' → Built 1 [7, 8, 9] v' :=
  pushes_build (.init plenty _) (by decide)

/-! ## A vector with its storage -/

/-- The vector on the heap and the one that owns its storage list the same items, and have room for
the same number of them. -/
structure Agrees (w : ℕ+) (items : List α) (u : StoredVector α) (v : HeapVector α) : Prop where
  holds : u.Holds items
  sound : Sound w v
  isInit : v.isInit = true
  size : v.length = items.length
  «at» : ∀ i < items.length, v.at i = items[i]?
  capacity : v.capacity = u.capacity

section Stored

variable {A : Allocator α} {u : StoredVector α} {items : List α}

lemma agrees_init {new : Answer α w} (hA : A.Succeeds) (hnew : (new w).isSome) (v : HeapVector α) :
    Agrees w [] (StoredVector.init A 1) (init new v) :=
  ⟨StoredVector.holds_init hA Nat.one_pos, init_sound hnew v, rfl, rfl, by simp, rfl⟩

/-- One more item. -/
lemma Agrees.snoc {p : Push α w} (h : Agrees w items u v) (hA : A.Succeeds) (hs : Answered v p) :
    ∃ u' v', u.pushBack A p.item = some u' ∧ push p v = some v' ∧
      Agrees w (items ++ [p.item]) u' v' := by
  obtain ⟨u', hu', hholds⟩ := h.holds.pushBack hA p.item
  have hcap := StoredVector.capacity_pushBack h.holds.isInit hu'
  have hpos : 0 < v.capacity := by
    rw [h.capacity]
    exact h.holds.pos
  have hlen : u.length = v.length := h.holds.length.trans h.size.symm
  obtain ⟨v', hv', hpushed, hsound, hcap'⟩ : ∃ v', push p v = some v' ∧ Pushed p.item v v' ∧
      Sound w v' ∧ v'.capacity = if v.length < v.capacity then v.capacity else 2 * v.capacity := by
    by_cases hroom : v.length < v.capacity
    · rw [if_pos hroom]
      exact pushBack_room h.sound h.isInit hroom
    · rw [if_neg hroom]
      have hfull : v.length = v.capacity := le_antisymm h.sound.backed.length_le (by omega)
      refine pushBack_grows h.sound h.isInit hfull hpos ?_
      rw [← h.sound.doubled.1]
      exact hs h.isInit hfull hpos
  obtain ⟨hsize, hat⟩ := hpushed.snoc h.size h.at
  refine ⟨u', v', hu', hv', hholds, hsound, hpushed.isInit, hsize, hat, ?_⟩
  rw [hcap', hcap, h.capacity, hlen]

lemma Agrees.append {ps : List (Push α w)} (h : Agrees w items u v) (hA : A.Succeeds)
    (hs : Along push Answered ps v) :
    ∃ u' v', exec (fun p u => u.pushBack A p.item) ps u = some u' ∧ exec push ps v = some v' ∧
      Agrees w (items ++ ps.map Push.item) u' v' := by
  induction ps generalizing u v items with
  | nil => exact ⟨u, v, rfl, rfl, by rwa [List.map_nil, List.append_nil]⟩
  | cons p ps ih =>
    obtain ⟨u₁, v₁, hu₁, hv₁, hagrees⟩ := h.snoc hA hs.1
    obtain ⟨u', v', hu', hv', hagrees'⟩ := ih hagrees (hs.2 v₁ hv₁)
    refine ⟨u', v', ?_, ?_, ?_⟩
    · rw [exec, hu₁, Option.bind_some, hu']
    · rw [exec, hv₁, Option.bind_some, hv']
    · rw [List.map_cons, ← List.singleton_append, ← List.append_assoc]
      exact hagrees'

/-- Pushes behind `init` make the two vectors alike, whatever the blocks of the heap hold behind the
elements. -/
theorem pushes_agree {new : Answer α w} {ps : List (Push α w)} (hA : A.Succeeds)
    (hnew : (new w).isSome) (hs : Along push Answered ps (init new v)) :
    ∃ u' v', exec (fun p u => u.pushBack A p.item) ps (StoredVector.init A 1) = some u' ∧
      exec push ps (init new v) = some v' ∧ Agrees w (ps.map Push.item) u' v' :=
  (agrees_init hA hnew v).append hA hs

end Stored

/-! ## Pushes without memory -/

/-- How many elements the vector stores. -/
def stored (v : HeapVector α) : ℕ := if v.isInit then v.length else 0

/-- The `push_back` writes only where the block at `data` has an element, and leaves what was
stored. -/
def Safe (v : HeapVector α) (p : Push α w) : Prop :=
  ∃ v', push p v = some v' ∧ ∀ i < v.stored, v'.at i = v.at i

/-- There is storage for the capacity. -/
def Allocated (v : HeapVector α) : Prop :=
  v.isInit = true → 0 < v.capacity → ∃ cells, v.block = some cells ∧ v.capacity ≤ cells.length

/-- A first push gets its memory; and where a full vector does not get more, the block that it has
is twice as long as the capacity says. -/
def Lasts (v : HeapVector α) (p : Push α w) : Prop :=
  if v.isInit then
    v.length = v.capacity → 0 < v.capacity → p.grow (2 * v.capacity * w) = none →
      ∃ cells, v.block = some cells ∧ 2 * v.capacity ≤ cells.length
  else (p.new w).isSome

section Starved

variable {p : Push α w}

lemma Sound.block (h : Sound w v) (hpos : 0 < v.capacity) :
    ∃ q cells, v.data = some q ∧ v.blocks.get q = some cells ∧ v.block = some cells ∧
      v.capacity ≤ cells.length := by
  obtain ⟨q, cells, hdata, hcells, hle⟩ := h.backed.storage hpos
  exact ⟨q, cells, hdata, hcells, by rw [HeapVector.block, hdata, Option.bind_some, hcells], hle⟩

lemma Sound.allocated (h : Sound w v) : v.Allocated := by
  intro _ hpos
  obtain ⟨q, cells, -, -, hblock, hle⟩ := h.block hpos
  exact ⟨cells, hblock, hle⟩

/-- A vector whose capacity was doubled inside the slack of its block. -/
lemma Sound.stretch (h : Sound w v) (hinit : v.isInit = true) (hpos : 0 < v.capacity)
    {cells : List α} (hblock : v.block = some cells) (hle : 2 * v.capacity ≤ cells.length) :
    Sound w (stretched v) := by
  obtain ⟨q, cells', hdata, hcells, hblock', -⟩ := h.block hpos
  obtain rfl := Option.some.inj (hblock.symm.trans hblock')
  have hlen := h.backed.length_le
  refine ⟨⟨show v.length ≤ 2 * v.capacity by omega, fun _ => ⟨q, cells, hdata, hcells, hle⟩⟩,
    h.small, fun hzero => ?_, fun hidle => ?_⟩
  · rw [stretched] at hzero
    dsimp only at hzero
    omega
  · exact absurd (hinit.symm.trans hidle) (by simp)

/-- What a push does that the vector survives. -/
lemma Lasts.push (hl : Lasts v p) (h : v.isInit = true → Sound w v) :
    ∃ v', push p v = some v' ∧ (∀ i < v.stored, v'.at i = v.at i) ∧ Sound w v' := by
  rw [Lasts] at hl
  rw [HeapVector.push, stored]
  cases hinit : v.isInit with
  | false =>
    rw [if_neg (by simp [hinit])] at hl
    rw [pushBack_fresh hinit]
    obtain ⟨v', hv', -, hsound, -⟩ := pushBack_room (init_sound hl v) rfl Nat.one_pos
    exact ⟨v', hv', fun i hi => absurd hi (Nat.not_lt_zero i), hsound⟩
  | true =>
    rw [if_pos hinit] at hl
    rw [if_pos rfl]
    have hsound := h hinit
    by_cases hroom : v.length < v.capacity
    · obtain ⟨v', hv', hpushed, hsound', -⟩ := pushBack_room hsound hinit hroom
      exact ⟨v', hv', hpushed.kept, hsound'⟩
    have hfull : v.length = v.capacity := le_antisymm hsound.backed.length_le (by omega)
    by_cases hpos : 0 < v.capacity
    · cases hgrow : p.grow (2 * v.capacity * w) with
      | some b =>
        obtain ⟨v', hv', hpushed, hsound', -⟩ :=
          pushBack_grows hsound hinit hfull hpos (Option.isSome_of_eq_some hgrow)
        exact ⟨v', hv', hpushed.kept, hsound'⟩
      | none =>
        -- the old block is kept, and the element goes into its slack
        obtain ⟨cells, hblock, hle⟩ := hl hfull hpos hgrow
        have hstretch := hsound.stretch hinit hpos hblock hle
        rw [pushBack_starved hsound hinit hfull hpos hgrow]
        obtain ⟨q, cells', hdata, hcells, -, hle'⟩ := hstretch.block
          (show 0 < 2 * v.capacity by omega)
        have hlt : v.length < cells'.length := by
          rw [stretched] at hle'
          dsimp only at hle'
          omega
        refine ⟨_, write_eq hdata hcells hlt (hstretch.small q cells' hdata hcells), ?_, ?_⟩
        · exact (written_pushed hinit hdata hcells hlt).kept
        · exact written_sound hstretch hdata hcells (show v.length < 2 * v.capacity by omega)
    · exact ⟨v, pushBack_zero hsound hinit (by omega), fun _ _ => rfl, hsound⟩

/-- After any other push the capacity is not there. -/
lemma Lasts.of_safe (h : v.isInit = true → Sound w v) (hv : HeapVector.push p v = some v')
    (ha : v'.Allocated) : Lasts v p := by
  rw [Lasts]
  rw [HeapVector.push] at hv
  cases hinit : v.isInit with
  | false =>
    rw [if_neg (by simp)]
    by_contra hfail
    rw [pushBack_fresh hinit, init_failed (by simpa using hfail), pushBack, if_pos rfl,
      if_pos Nat.one_pos, write] at hv
    simp at hv
  | true =>
    rw [if_pos rfl]
    intro hfull hpos hgrow
    have hsound := h hinit
    obtain ⟨q, cells, hdata, hcells, hblock, -⟩ := hsound.block hpos
    refine ⟨cells, hblock, ?_⟩
    rw [pushBack_starved hsound hinit hfull hpos hgrow] at hv
    have hlt : v.length < cells.length := by
      by_contra hbeyond
      rw [write_beyond (v := stretched v) hdata hcells
        (show cells.length ≤ v.length by omega)] at hv
      simp at hv
    rw [write_eq (v := stretched v) hdata hcells hlt (hsound.small q cells hdata hcells)] at hv
    obtain rfl := Option.some.inj hv
    obtain ⟨cells', hblock', hle⟩ := ha hinit (show 0 < 2 * v.capacity by omega)
    have hget : (written q p.item (stretched v)).block = _ :=
      (congrArg (Option.bind · _) hdata).trans (written_get hcells)
    rw [← Option.some.inj (hget.symm.trans hblock'), List.length_set] at hle
    exact hle

end Starved

/-- **`push_back` survives a heap without memory** exactly as long as the slack of the block lasts:
then it stays inside the block, what was stored is unchanged, and the capacity is there. -/
theorem pushes_survive_iff {ps : List (Push α w)} (h : v.isInit = true → Sound w v) :
    Along push Safe ps v ∧ Always push Allocated ps v ↔ Along push Lasts ps v := by
  let Inv : HeapVector α → Prop := fun v => v.isInit = true → Sound w v
  have hkeep : ∀ (v : HeapVector α) (p : Push α w) v', Inv v → Lasts v p → push p v = some v' →
      Inv v' := by
    intro v p v' hv hl hpush _
    obtain ⟨v₁, hv₁, -, hsound⟩ := hl.push hv
    rw [← Option.some.inj (hv₁.symm.trans hpush)]
    exact hsound
  constructor
  · rintro ⟨hsafe, halloc⟩
    obtain ⟨v', he⟩ := hsafe.exec_some fun v p hp => hp.imp fun v' hv' => hv'.1
    exact Along.of_always (fun v p v' hv _ hl hpush => hkeep v p v' hv hl hpush)
      (fun v p v' hv _ hpush ha => Lasts.of_safe hv hpush ha) halloc hsafe he h
  · intro hl
    constructor
    · refine hl.imp hkeep (fun v p hv hlast => ?_) h
      obtain ⟨v', hv', hkept, -⟩ := hlast.push hv
      exact ⟨v', hv', hkept⟩
    · exact hl.always hkeep (fun v hv hinit => (hv hinit).allocated hinit) h

instance (v : HeapVector α) (p : Push α w) : Decidable (Lasts v p) :=
  decidable_of_iff (if v.isInit = true then
      v.length = v.capacity → 0 < v.capacity → p.grow (2 * v.capacity * w) = none →
        v.block.any fun cells => 2 * v.capacity ≤ cells.length
    else (p.new w).isSome = true) (by simp [Lasts, Option.any_eq_true])

/-- The smallest block of the heap: 32 bytes with its header, which leaves room for two pointers. -/
def smallest : Answer ℕ wordSize := fun bytes =>
  if h : bytes ≤ 16 then some ⟨16, [0, 0], h, by norm_num, rfl⟩ else none

/-- A heap without memory. -/
def exhausted : Answer ℕ wordSize := fun _ => none

/-- Pushes of pointers, after which only the first `init` gets memory. -/
def starvedPushes (items : List ℕ) : List (Push ℕ wordSize) :=
  items.map fun item => ⟨smallest, exhausted, item⟩

theorem pushes_survive_slack :
    Along push Safe (starvedPushes [7, 8]) (fresh Store.empty) ∧
      Always push Allocated (starvedPushes [7, 8]) (fresh Store.empty) :=
  (pushes_survive_iff (by simp [fresh])).mpr (by decide)

/-- The second element goes into the slack of the block, and the third one is written behind it. -/
theorem pushes_overrun :
    (exec push (starvedPushes [7, 8]) (fresh Store.empty)).map
        (fun v => (v.length, v.capacity, v.block)) = some (2, 2, some [7, 8]) ∧
    ¬ (Along push Safe (starvedPushes [7, 8, 9]) (fresh Store.empty) ∧
      Always push Allocated (starvedPushes [7, 8, 9]) (fresh Store.empty)) := by
  refine ⟨by decide, fun h => ?_⟩
  obtain ⟨v', hv'⟩ := h.1.exec_some fun v p hp => hp.imp fun v' hv' => hv'.1
  have hstuck : exec push (starvedPushes [7, 8, 9]) (fresh Store.empty) = none := rfl
  rw [hstuck] at hv'
  simp at hv'

end TurbOS.HeapVector
