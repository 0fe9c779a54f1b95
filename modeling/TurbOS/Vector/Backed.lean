import TurbOS.Vector.Remove

/-!
# The storage behind a vector

A vector is backed if its length is not above its capacity, and its block has room for as many
elements as the capacity says.  This file says what every operation does to a backed vector, and
which of them it survives: `pop_back` and `remove` on an empty vector, `remove` at a position from
which its loop runs out of the block, `resize` below the length, `destroy`, and `push_back` on a
vector with room for nothing do not keep it.
-/

open Runs

namespace TurbOS.HeapVector

variable {α : Type} {w : ℕ+} {v v' : HeapVector α} {new grow : Answer α w} {item : α}

/-! ## Moving a block -/

lemma moved_length {old cells : List α} {count : ℕ} (h : count ≤ cells.length) :
    (moved old cells count).length = cells.length := by
  rw [moved, List.length_append, List.length_drop, List.length_take]
  omega

lemma moved_get {old cells : List α} {count i : ℕ} (h : i < count) (hi : i < old.length) :
    (moved old cells count)[i]? = old[i]? := by
  rw [moved, List.getElem?_append_left (by rw [List.length_take]; omega), List.getElem?_take,
    if_pos h]

/-! ## Sound vectors -/

/-- The length is not above the capacity, and there is storage for the capacity. -/
structure Backed (v : HeapVector α) : Prop where
  length_le : v.length ≤ v.capacity
  storage : 0 < v.capacity → ∃ p cells, v.data = some p ∧ v.blocks.get p = some cells ∧
    v.capacity ≤ cells.length

/-- A backed vector with what the operations rely on besides. -/
structure Sound (w : ℕ+) (v : HeapVector α) : Prop where
  backed : v.Backed
  small : ∀ p cells, v.data = some p → v.blocks.get p = some cells → cells.length * w < 2 ^ 63
  null : v.capacity = 0 → v.data = none
  idle : v.isInit = false → v.capacity = 0

/-- A vector that was not used yet. -/
def fresh (blocks : Store (List α)) : HeapVector α := { blocks := blocks }

lemma fresh_sound (blocks : Store (List α)) : Sound w (fresh blocks) :=
  ⟨⟨le_rfl, fun h => absurd h (lt_irrefl 0)⟩, fun p cells h => absurd h (by simp [fresh]),
    fun _ => rfl, fun _ => rfl⟩

lemma le_mul (n : ℕ) (w : ℕ+) : n ≤ n * w := Nat.le_mul_of_pos_right n w.pos

lemma Sound.capacity_small (h : Sound w v) : v.capacity * w < 2 ^ 63 := by
  by_cases hpos : 0 < v.capacity
  · obtain ⟨p, cells, hdata, hcells, hle⟩ := h.backed.storage hpos
    exact (Nat.mul_le_mul_right _ hle).trans_lt (h.small p cells hdata hcells)
  · rw [Nat.eq_zero_of_not_pos hpos, Nat.zero_mul]
    positivity

lemma Sound.capacity_lt (h : Sound w v) : v.capacity < 2 ^ 63 :=
  (le_mul _ w).trans_lt h.capacity_small

/-- The pointer of a sound vector is null, or its block is there. -/
lemma Sound.live (h : Sound w v) {p : ℕ} (hdata : v.data = some p) :
    ∃ cells, v.blocks.get p = some cells := by
  have hpos : 0 < v.capacity := by
    by_contra hzero
    rw [h.null (Nat.eq_zero_of_not_pos hzero)] at hdata
    simp at hdata
  obtain ⟨q, cells, hq, hcells, -⟩ := h.backed.storage hpos
  rw [hdata] at hq
  rw [← Option.some.inj hq] at hcells
  exact ⟨cells, hcells⟩

/-! ## `init` -/

lemma malloc_some {bytes : ℕ} {blocks : Store (List α)} {b : Block α w bytes} (hne : bytes ≠ 0)
    (h : new bytes = some b) :
    malloc new bytes blocks = (some blocks.next, blocks.alloc b.cells) := by
  rw [malloc, if_neg hne, h]

lemma malloc_none {bytes : ℕ} {blocks : Store (List α)} (h : bytes = 0 ∨ new bytes = none) :
    malloc new bytes blocks = (none, blocks) := by
  rw [malloc]
  split
  · rfl
  · rw [h.resolve_left (by assumption)]

/-- A vector with a new block. -/
lemma sound_new {bytes capacity length : ℕ} {blocks : Store (List α)} (b : Block α w bytes)
    {cells : List α} (hcells : cells.length = b.cells.length) (hcap : 0 < capacity)
    (hle : capacity * w ≤ bytes) (hlen : length ≤ capacity) {p : ℕ}
    (hp : blocks.get p = some cells) :
    Sound w { data := some p, capacity := capacity, length := length, isInit := true,
              blocks := blocks } := by
  refine ⟨⟨hlen, fun _ => ⟨p, cells, rfl, hp, ?_⟩⟩, ?_, ?_, ?_⟩
  · rw [hcells]
    exact b.count_le hle
  · rintro q cells' hq hcells'
    obtain rfl := Option.some.inj hq
    obtain rfl := Option.some.inj (hp.symm.trans hcells')
    rw [hcells]
    exact b.small
  · intro hzero
    exact absurd hcap (by dsimp only at hzero; omega)
  · intro hfalse
    exact absurd hfalse (by simp)

lemma init_sound (h : (new w).isSome) (v : HeapVector α) : Sound w (init new v) := by
  obtain ⟨b, hb⟩ := Option.isSome_iff_exists.mp h
  have hne : (w : ℕ) ≠ 0 := w.pos.ne'
  rw [init, malloc_some hne hb]
  exact sound_new b rfl one_pos (by rw [one_mul]) (Nat.zero_le _) (Store.get_alloc_next _ _)

lemma init_failed (h : new w = none) (v : HeapVector α) :
    init new v =
      { data := none, capacity := 1, length := 0, isInit := true, blocks := v.blocks } := by
  rw [init, malloc_none (.inr h)]

/-! ## Writing behind the elements -/

/-- The vector after an element was written behind the others. -/
def written (p : ℕ) (item : α) (v : HeapVector α) : HeapVector α :=
  { v with
    blocks := v.blocks.modify p fun cells => cells.set v.length item
    length := v.length + 1 }

/-- An element was added. -/
structure Pushed (item : α) (v v' : HeapVector α) : Prop where
  length : v'.length = v.length + 1
  isInit : v'.isInit = true
  last : v'.at v.length = some item
  kept : ∀ i < v.length, v'.at i = v.at i

section Written

variable {p : ℕ} {cells : List α}

lemma write_eq (hdata : v.data = some p) (hcells : v.blocks.get p = some cells)
    (hlt : v.length < cells.length) (hsmall : cells.length * w < 2 ^ 63) :
    v.write item = some (written p item v) := by
  have hlen : cells.length < 2 ^ 63 := (le_mul _ w).trans_lt hsmall
  rw [write, hdata, Option.bind_some, hcells, Option.bind_some, if_pos hlt,
    Word64.add_of_lt (by omega), written, hdata]

lemma write_beyond (hdata : v.data = some p) (hcells : v.blocks.get p = some cells)
    (hle : cells.length ≤ v.length) : v.write item = none := by
  rw [write, hdata, Option.bind_some, hcells, Option.bind_some, if_neg (by omega)]

lemma at_eq (hdata : v.data = some p) (hcells : v.blocks.get p = some cells) (i : ℕ) :
    v.at i = cells[i]? := by
  rw [HeapVector.at, hdata, Option.bind_some, hcells, Option.bind_some]

lemma written_get (hcells : v.blocks.get p = some cells) :
    (written p item v).blocks.get p = some (cells.set v.length item) := by
  rw [written, Store.get_modify_self, hcells, Option.map_some]

lemma written_pushed (hinit : v.isInit = true) (hdata : v.data = some p)
    (hcells : v.blocks.get p = some cells) (hlt : v.length < cells.length) :
    Pushed item v (written p item v) := by
  refine ⟨rfl, hinit, ?_, ?_⟩
  · rw [at_eq (v := written p item v) hdata (written_get hcells), List.getElem?_set_self hlt]
  · intro i hi
    rw [at_eq (v := written p item v) hdata (written_get hcells), at_eq hdata hcells,
      List.getElem?_set_ne (by omega)]

lemma written_sound (h : Sound w v) (hdata : v.data = some p) (hcells : v.blocks.get p = some cells)
    (hroom : v.length < v.capacity) : Sound w (written p item v) := by
  have hget : (written p item v).blocks.get p = _ := written_get hcells
  refine ⟨⟨hroom, fun hpos => ⟨p, _, hdata, hget, ?_⟩⟩, ?_, h.null, h.idle⟩
  · obtain ⟨q, cells', hq, hcells', hle⟩ := h.backed.storage hpos
    obtain rfl := Option.some.inj (hdata.symm.trans hq)
    obtain rfl := Option.some.inj (hcells.symm.trans hcells')
    rw [List.length_set]
    exact hle
  · rintro q cells' hq hcells'
    obtain rfl := Option.some.inj (hdata.symm.trans hq)
    obtain rfl := Option.some.inj (hget.symm.trans hcells')
    rw [List.length_set]
    exact h.small p cells hdata hcells

end Written

/-! ## `realloc` -/

/-- A block of the heap moves to a new one. -/
lemma realloc_some {p bytes : ℕ} {old : List α} {blocks : Store (List α)} {b : Block α w bytes}
    (hold : blocks.get p = some old) (hne : bytes ≠ 0) (h : grow bytes = some b) :
    ∃ q blocks', realloc grow (some p) bytes blocks = some (some q, blocks') ∧
      blocks'.get q = some (moved old b.cells (bytes / w)) := by
  have hlt : p < blocks.next := Store.lt_next hold
  refine ⟨blocks.next, (blocks.alloc (moved old b.cells (bytes / w))).free p, ?_, ?_⟩
  · rw [realloc, hold, Option.bind_some, if_neg hne, h]
    dsimp only
    rw [free, Store.get_alloc_of_lt _ hlt, hold]
    rfl
  · rw [Store.get_free, if_neg (by omega), Store.get_alloc_next]

lemma realloc_none {p bytes : ℕ} {old : List α} {blocks : Store (List α)}
    (hold : blocks.get p = some old) (hne : bytes ≠ 0) (h : grow bytes = none) :
    realloc grow (some p) bytes blocks = some (some p, blocks) := by
  rw [realloc, hold, Option.bind_some, if_neg hne, h]

lemma realloc_zero {p : ℕ} {old : List α} {blocks : Store (List α)}
    (hold : blocks.get p = some old) :
    realloc grow (some p) 0 blocks = some (none, blocks.free p) := by
  rw [realloc, hold, Option.bind_some, if_pos rfl, free, hold]
  rfl

/-! ## `push_back` -/

/-- The number of bytes for twice the capacity does not wrap around. -/
lemma Sound.doubled (h : Sound w v) :
    Word64.mul (Word64.mul 2 v.capacity) w = 2 * v.capacity * w ∧
      Word64.mul v.capacity 2 = 2 * v.capacity := by
  have hsmall := h.capacity_small
  have hlt := h.capacity_lt
  have hbytes : 2 * v.capacity * w = 2 * (v.capacity * w) := Nat.mul_assoc _ _ _
  constructor
  · have htwice : Word64.mul 2 v.capacity = 2 * v.capacity := Word64.mul_of_lt (by omega)
    rw [htwice, Word64.mul_of_lt (by omega)]
  · rw [Word64.mul_of_lt (by omega), Nat.mul_comm]

lemma pushBack_fresh (hinit : v.isInit = false) :
    pushBack new grow item v = pushBack new grow item (init new v) := by
  have hthis : (if v.isInit then v else init new v) = init new v := by rw [hinit]; rfl
  have hnext : (if (init new v).isInit then init new v else init new (init new v)) = init new v :=
    rfl
  rw [pushBack, pushBack, hthis, hnext]

/-- There is room for the element. -/
lemma pushBack_room (h : Sound w v) (hinit : v.isInit = true) (hroom : v.length < v.capacity) :
    ∃ v', pushBack new grow item v = some v' ∧ Pushed item v v' ∧ Sound w v' ∧
      v'.capacity = v.capacity := by
  obtain ⟨p, cells, hdata, hcells, hle⟩ := h.backed.storage (by omega)
  refine ⟨written p item v, ?_, written_pushed hinit hdata hcells (by omega),
    written_sound h hdata hcells hroom, rfl⟩
  rw [pushBack, if_pos hinit, if_pos hroom,
    write_eq hdata hcells (by omega) (h.small p cells hdata hcells)]

/-- The storage is full, and twice as much can be had. -/
lemma pushBack_grows (h : Sound w v) (hinit : v.isInit = true) (hfull : v.length = v.capacity)
    (hpos : 0 < v.capacity) (hgrow : (grow (2 * v.capacity * w)).isSome) :
    ∃ v', pushBack new grow item v = some v' ∧ Pushed item v v' ∧ Sound w v' ∧
      v'.capacity = 2 * v.capacity := by
  obtain ⟨p, cells, hdata, hcells, hle⟩ := h.backed.storage hpos
  obtain ⟨b, hb⟩ := Option.isSome_iff_exists.mp hgrow
  obtain ⟨hbytes, hdouble⟩ := h.doubled
  have hne : 2 * v.capacity * w ≠ 0 := (Nat.mul_pos (by omega) w.pos).ne'
  obtain ⟨q, blocks, hrealloc, hq⟩ := realloc_some hcells hne hb
  rw [Nat.mul_div_cancel _ w.pos] at hq
  have hroom : 2 * v.capacity ≤ b.cells.length := b.count_le le_rfl
  have hlen : (moved cells b.cells (2 * v.capacity)).length = b.cells.length := moved_length hroom
  let v₁ : HeapVector α := ⟨some q, 2 * v.capacity, v.length, true, blocks⟩
  have hsound : Sound w v₁ := sound_new b hlen (by omega) le_rfl (by omega) hq
  have hpushed : Pushed item v₁ (written q item v₁) :=
    written_pushed rfl rfl hq (show v.length < _ by omega)
  refine ⟨written q item v₁, ?_, ?_, ?_, rfl⟩
  · rw [pushBack, if_pos hinit, if_neg (by omega), hbytes, hdata, hrealloc, Option.bind_some,
      hdouble, if_neg (by simp), hinit]
    exact write_eq rfl hq (show v.length < _ by omega) (by rw [hlen]; exact b.small)
  · refine ⟨hpushed.length, rfl, hpushed.last, fun i hi => ?_⟩
    have hat : v₁.at i = (moved cells b.cells (2 * v.capacity))[i]? := at_eq rfl hq i
    rw [hpushed.kept i hi, hat, at_eq hdata hcells, moved_get (by omega) (by omega)]
  · exact written_sound hsound rfl hq (show v.length < 2 * v.capacity by omega)

/-- The vector with twice the capacity in the same block. -/
def stretched (v : HeapVector α) : HeapVector α := { v with capacity := 2 * v.capacity }

/-- The storage is full, and no more can be had: `realloc` returns the old pointer. -/
lemma pushBack_starved (h : Sound w v) (hinit : v.isInit = true) (hfull : v.length = v.capacity)
    (hpos : 0 < v.capacity) (hgrow : grow (2 * v.capacity * w) = none) :
    pushBack new grow item v = write item (stretched v) := by
  obtain ⟨p, cells, hdata, hcells, hle⟩ := h.backed.storage hpos
  obtain ⟨hbytes, hdouble⟩ := h.doubled
  have hne : 2 * v.capacity * w ≠ 0 := (Nat.mul_pos (by omega) w.pos).ne'
  rw [pushBack, if_pos hinit, if_neg (by omega), hbytes, hdata, realloc_none hcells hne hgrow,
    Option.bind_some, hdouble, if_neg (by simp), stretched, hdata]

/-- There is no storage, and twice as much is none either. -/
lemma pushBack_zero (h : Sound w v) (hinit : v.isInit = true) (hzero : v.capacity = 0) :
    pushBack new grow item v = some v := by
  have hnull := h.null hzero
  have hlen := h.backed.length_le
  have hbytes : Word64.mul (Word64.mul 2 v.capacity) w = 0 := by
    rw [hzero]
    simp [Word64.mul]
  rw [pushBack, if_pos hinit, if_neg (by omega), hbytes, hnull, realloc, malloc, if_pos rfl,
    Option.bind_some, if_pos rfl]
  obtain ⟨data, capacity, length, isInit, blocks⟩ := v
  dsimp only at hzero hnull
  subst hzero hnull
  rfl

/-! ## Runs -/

/-- The operations, each with what the heap answers: `new` to `init`, `grow` to `realloc`. -/
inductive Op (α : Type) (w : ℕ+) where
  | init (new : Answer α w)
  | initSize (new : Answer α w) (size : ℕ)
  | pushBack (new grow : Answer α w) (item : α)
  | popBack
  | remove (position : ℕ)
  | resize (new grow : Answer α w) (size : ℕ)
  | destroy

/-- One operation. -/
def step : Op α w → HeapVector α → Option (HeapVector α)
  | .init new, v => some (v.init new)
  | .initSize new size, v => some (v.initSize new size)
  | .pushBack new grow item, v => v.pushBack new grow item
  | .popBack, v => some v.popBack
  | .remove position, v => (v.remove position).map Prod.fst
  | .resize new grow size, v => v.resize new grow size
  | .destroy, v => v.destroy

/-- Every `realloc` of the operation succeeds. -/
def Supplied (v : HeapVector α) : Op α w → Prop
  | .pushBack _ grow _ => v.isInit = true → v.length = v.capacity → 0 < v.capacity →
      (grow (Word64.mul (Word64.mul 2 v.capacity) w)).isSome
  | .resize _ grow size => Word64.mul size w ≠ 0 → (grow (Word64.mul size w)).isSome
  | _ => True

/-- How many elements the block of the vector has room for. -/
def cellCount (v : HeapVector α) : ℕ := (v.block.getD []).length

/-- The operation is one that a vector survives: `init` gets its memory, the vector has room for
at least one element when one is pushed and an element when one is popped or removed, the elements
that `remove` moves are inside the block, the vector is not resized below its length or beyond 64
bits, and it is not destroyed while it has storage. -/
def Fits (v : HeapVector α) : Op α w → Prop
  | .init new => (new w).isSome
  | .initSize new size => size = 0 ∨ (new (arrayBytes w size)).isSome
  | .pushBack new _ _ => if v.isInit then 0 < v.capacity else (new w).isSome
  | .popBack => v.isInit = true → 0 < v.length
  | .remove position => v.isInit = true → 0 < v.length ∧
      (v.length ≤ 2 ∨ position + (v.length - 2) < v.cellCount)
  | .resize _ _ size => (v.isInit = true → v.length ≤ size) ∧ size * w < 2 ^ 64
  | .destroy => v.capacity = 0

/-- A `push_back` increases the size by one. -/
def Grows (v : HeapVector α) : Op α w → Prop
  | .pushBack new grow item => ∃ v', v.pushBack new grow item = some v' ∧ v'.length = v.length + 1
  | _ => True

lemma initSize_sound {size : ℕ} (h : size = 0 ∨ (new (arrayBytes w size)).isSome)
    (v : HeapVector α) : Sound w (initSize new size v) := by
  rw [initSize]
  by_cases hzero : size = 0
  · have hbytes : arrayBytes w size = 0 := by simp [arrayBytes, hzero]
    rw [malloc_none (.inl hbytes), hzero]
    exact ⟨⟨le_rfl, fun hpos => absurd hpos (lt_irrefl 0)⟩, fun p cells hp => absurd hp (by simp),
      fun _ => rfl, fun hfalse => absurd hfalse (by simp)⟩
  · obtain ⟨b, hb⟩ := Option.isSome_iff_exists.mp (h.resolve_left hzero)
    have hlt := b.enough.trans_lt b.bounded
    have hmul : 0 < size * w := Nat.mul_pos (Nat.pos_of_ne_zero hzero) w.pos
    rw [arrayBytes] at hlt
    split at hlt
    · rename_i hno
      have hne : arrayBytes w size ≠ 0 := by
        rw [arrayBytes, if_pos hno]
        omega
      rw [malloc_some hne hb]
      refine sound_new b rfl (by omega) ?_ (Nat.zero_le _) (Store.get_alloc_next _ _)
      rw [arrayBytes, if_pos hno]
    · norm_num at hlt

/-- Resizing a vector that has been set up. -/
lemma resize_eq {size : ℕ} {v₁ : HeapVector α}
    (hv : v₁ = if v.isInit then v else init new v) :
    resize new grow size v = (realloc grow v₁.data (Word64.mul size w) v₁.blocks).map fun r =>
      { v₁ with
        data := r.1
        capacity := size
        length := if v₁.length > size then Word64.add size 1 else v₁.length
        blocks := r.2 } := by
  rw [resize, ← hv]

/-- The pointer is null, or its block is there. -/
def Live (v : HeapVector α) : Prop := ∀ p, v.data = some p → ∃ cells, v.blocks.get p = some cells

/-- `realloc` on a live pointer returns; it gives a block if bytes were asked for, and no block
otherwise. -/
lemma Live.realloc (h : v.Live) {bytes : ℕ} (hgrow : bytes ≠ 0 → (grow bytes).isSome) :
    ∃ r, realloc grow v.data bytes v.blocks = some r ∧ (bytes = 0 → r.1 = none) ∧
      (bytes ≠ 0 → ∃ (b : Block α w bytes) (p : ℕ) (cells : List α), r.1 = some p ∧
        r.2.get p = some cells ∧ cells.length = b.cells.length) := by
  by_cases hzero : bytes = 0
  · subst hzero
    cases hdata : v.data with
    | none => exact ⟨_, rfl, fun _ => by rw [malloc, if_pos rfl], fun hne => absurd rfl hne⟩
    | some p =>
      obtain ⟨cells, hcells⟩ := h p hdata
      exact ⟨_, realloc_zero hcells, fun _ => rfl, fun hne => absurd rfl hne⟩
  · obtain ⟨b, hb⟩ := Option.isSome_iff_exists.mp (hgrow hzero)
    cases hdata : v.data with
    | none =>
      refine ⟨_, rfl, fun hz => absurd hz hzero, fun _ => ⟨b, v.blocks.next, b.cells, ?_, ?_, rfl⟩⟩
      · rw [malloc_some hzero hb]
      · rw [malloc_some hzero hb, Store.get_alloc_next]
    | some p =>
      obtain ⟨cells, hcells⟩ := h p hdata
      obtain ⟨q, blocks, hrealloc, hq⟩ := realloc_some hcells hzero hb
      exact ⟨_, hrealloc, fun hz => absurd hz hzero,
        fun _ => ⟨b, q, _, rfl, hq, moved_length b.div_le⟩⟩

/-! ## What a vector survives -/

/-- The length does not grow, and the block keeps its size. -/
lemma Sound.shrink (h : Sound w v) (hdata : v'.data = v.data) (hcap : v'.capacity = v.capacity)
    (hinit : v'.isInit = v.isInit) (hlen : v'.length ≤ v.length)
    (hblock : ∀ p cells, v.data = some p → v.blocks.get p = some cells →
      ∃ cells', v'.blocks.get p = some cells' ∧ cells'.length = cells.length) : Sound w v' := by
  constructor
  · constructor
    · rw [hcap]
      exact hlen.trans h.backed.length_le
    · intro hpos
      rw [hcap] at hpos ⊢
      obtain ⟨p, cells, hp, hcells, hle⟩ := h.backed.storage hpos
      obtain ⟨cells', hcells', hsame⟩ := hblock p cells hp hcells
      exact ⟨p, cells', hdata.trans hp, hcells', hsame ▸ hle⟩
  · intro p cells' hp hcells'
    rw [hdata] at hp
    obtain ⟨cells, hcells⟩ := h.live hp
    obtain ⟨cells'', hcells'', hsame⟩ := hblock p cells hp hcells
    obtain rfl := Option.some.inj (hcells'.symm.trans hcells'')
    rw [hsame]
    exact h.small p cells hp hcells
  · rw [hcap, hdata]
    exact h.null
  · rw [hinit, hcap]
    exact h.idle

lemma Sound.popBack (h : Sound w v) (hpos : v.isInit = true → 0 < v.length) :
    Sound w v.popBack := by
  rw [HeapVector.popBack]
  split
  · rename_i hinit
    have hlt := h.capacity_lt
    have hle := h.backed.length_le
    refine h.shrink rfl rfl rfl ?_ fun p cells _ hcells => ⟨cells, hcells, rfl⟩
    dsimp only
    rw [sub_one (hpos hinit) (by omega)]
    omega
  · exact h

lemma cellCount_eq {p : ℕ} {cells : List α} (hdata : v.data = some p)
    (hcells : v.blocks.get p = some cells) : v.cellCount = cells.length := by
  rw [cellCount, HeapVector.block, hdata, Option.bind_some, hcells, Option.getD_some]

/-- `remove` on a vector that is not empty stays inside the block, or it faults. -/
lemma Sound.remove_some_iff (h : Sound w v) (hinit : v.isInit = true) (hpos : 0 < v.length)
    (position : ℕ) : (v.remove position).isSome ↔
      v.length ≤ 2 ∨ position + (v.length - 2) < v.cellCount := by
  have hlt := h.capacity_lt
  have hle := h.backed.length_le
  obtain ⟨p, cells, hdata, hcells, -⟩ := h.backed.storage (by omega)
  rw [remove_eq position hinit hpos (by omega) hdata hcells, Option.isSome_map,
    cellCount_eq hdata hcells]
  constructor
  · intro hsome
    obtain ⟨r, hr⟩ := Option.isSome_iff_exists.mp hsome
    by_cases hshort : v.length ≤ 2
    · exact .inl hshort
    · rw [show v.length - 2 = v.length - 3 + 1 by omega] at hr
      have := shift_lt hr
      omega
  · intro hin
    have hinside : v.length - 2 = 0 ∨ position + (v.length - 2) < cells.length := by omega
    obtain ⟨r, hr, -⟩ := shift_eq hinside
    rw [hr]
    rfl

lemma Sound.remove {position : ℕ} (h : Sound w v) (hf : Fits v (.remove position : Op α w)) :
    ∃ r, v.remove position = some r ∧ Sound w r.1 := by
  cases hinit : v.isInit with
  | false => exact ⟨(v, []), by rw [HeapVector.remove, if_neg (by simp [hinit])], h⟩
  | true =>
    obtain ⟨hpos, hin⟩ := hf hinit
    have hlt := h.capacity_lt
    have hle := h.backed.length_le
    obtain ⟨r, hr⟩ := Option.isSome_iff_exists.mp ((h.remove_some_iff hinit hpos position).mpr hin)
    refine ⟨r, hr, ?_⟩
    obtain ⟨p, cells, hdata, hcells, -⟩ := h.backed.storage (by omega)
    rw [remove_eq position hinit hpos (by omega) hdata hcells] at hr
    obtain ⟨s, hs, rfl⟩ := Option.map_eq_some_iff.mp hr
    refine h.shrink rfl rfl rfl (Nat.sub_le _ _) fun q cells' hq hcells' => ?_
    obtain rfl := Option.some.inj (hdata.symm.trans hq)
    obtain rfl := Option.some.inj (hcells.symm.trans hcells')
    exact ⟨s.1, removed_get hcells, shift_length hs⟩

/-- On an empty vector the loop of `remove` leaves every block. -/
lemma Sound.remove_empty (h : Sound w v) (hinit : v.isInit = true) (hzero : v.length = 0)
    (position : ℕ) : v.remove position = none := by
  have hrounds : Word64.sub v.length 1 - 1 = 2 ^ 64 - 3 + 1 := by
    rw [hzero]
    norm_num [Word64.sub]
  rw [HeapVector.remove, if_pos hinit, hrounds]
  dsimp only
  rw [if_neg (by omega), Option.map_eq_none_iff]
  cases hdata : v.data with
  | none => rfl
  | some p =>
    obtain ⟨cells, hcells⟩ := h.live hdata
    have hsmall := (le_mul _ w).trans_lt (h.small p cells hdata hcells)
    rw [Option.bind_some, hcells, Option.bind_some, Option.map_eq_none_iff]
    cases hs : shift position (2 ^ 64 - 3 + 1) cells with
    | none => rfl
    | some r =>
      have := shift_lt hs
      omega

lemma init_live (new : Answer α w) (v : HeapVector α) : Live (init new v) := by
  intro p hp
  rw [init] at hp ⊢
  have hne : (w : ℕ) ≠ 0 := w.pos.ne'
  cases hb : new w with
  | none =>
    rw [malloc_none (.inr hb)] at hp
    simp at hp
  | some b =>
    rw [malloc_some hne hb] at hp ⊢
    obtain rfl := Option.some.inj hp
    exact ⟨b.cells, Store.get_alloc_next _ _⟩

/-- The vector that `resize` and `push_back` go on with is live. -/
lemma Sound.setUp (h : Sound w v) (new : Answer α w) :
    Live (if v.isInit then v else init new v) ∧
      (if v.isInit then v else init new v).isInit = true := by
  cases hinit : v.isInit with
  | false => exact ⟨init_live new v, rfl⟩
  | true => exact ⟨fun p hp => h.live hp, hinit⟩

lemma Sound.resize {size : ℕ} (h : Sound w v) (hs : Supplied v (.resize new grow size : Op α w))
    (hf : Fits v (.resize new grow size : Op α w)) :
    ∃ v', v.resize new grow size = some v' ∧ Sound w v' := by
  obtain ⟨hle, hlt⟩ := hf
  have hlen : (if v.isInit then v else init new v).length ≤ size := by
    split
    · exact hle (by assumption)
    · exact Nat.zero_le _
  obtain ⟨hlive, hset⟩ := h.setUp new
  have heq : v.resize new grow size = _ := resize_eq rfl
  generalize (if v.isInit then v else init new v) = v₁ at hlen hlive hset heq
  obtain ⟨r, hr, hnone, hsome⟩ := hlive.realloc hs
  have hmul : Word64.mul size w = size * w := Word64.mul_of_lt hlt
  rw [hr, Option.map_some, if_neg (by omega)] at heq
  refine ⟨_, heq, ?_⟩
  by_cases hzero : size = 0
  · have hnull := hnone (by rw [hmul, hzero, Nat.zero_mul])
    refine ⟨⟨hlen, fun hpos => absurd hzero hpos.ne'⟩, ?_, fun _ => hnull, fun hfalse => ?_⟩
    · intro p cells hp
      rw [show r.1 = some p from hp] at hnull
      simp at hnull
    · exact absurd (hset.symm.trans hfalse) (by simp)
  · have hpos : 0 < size * w := Nat.mul_pos (Nat.pos_of_ne_zero hzero) w.pos
    obtain ⟨b, p, cells, hp, hcells, hsame⟩ := hsome (by rw [hmul]; omega)
    rw [hp, hset]
    exact sound_new b hsame (by omega) hmul.ge hlen hcells

/-- The capacity that a `push_back` finds, after `init` if it has to call it. -/
def room (v : HeapVector α) : ℕ := if v.isInit then v.capacity else 1

lemma Sound.pushBack (h : Sound w v) (hs : Supplied v (.pushBack new grow item))
    (hf : Fits v (.pushBack new grow item)) :
    ∃ v', v.pushBack new grow item = some v' ∧ Pushed item v v' ∧ Sound w v' ∧
      (v'.capacity = v.room ∨ v'.capacity = 2 * v.room) := by
  rw [Fits] at hf
  rw [room]
  cases hinit : v.isInit with
  | false =>
    rw [if_neg (by simp [hinit])] at hf
    have hfirst : v.length = 0 := by
      have := h.backed.length_le
      have := h.idle hinit
      omega
    rw [pushBack_fresh hinit]
    obtain ⟨v', hv', hpushed, hsound, hcap⟩ := pushBack_room (init_sound hf v) rfl Nat.one_pos
    refine ⟨v', hv', ⟨?_, hpushed.isInit, ?_, ?_⟩, hsound, .inl hcap⟩
    · rw [hfirst]
      exact hpushed.length
    · rw [hfirst]
      exact hpushed.last
    · intro i hi
      omega
  | true =>
    rw [if_pos hinit] at hf
    by_cases hroom : v.length < v.capacity
    · obtain ⟨v', hv', hpushed, hsound, hcap⟩ := pushBack_room h hinit hroom
      exact ⟨v', hv', hpushed, hsound, .inl hcap⟩
    · have hfull : v.length = v.capacity := le_antisymm h.backed.length_le (by omega)
      have hgrow := hs hinit hfull hf
      rw [h.doubled.1] at hgrow
      obtain ⟨v', hv', hpushed, hsound, hcap⟩ := pushBack_grows h hinit hfull hf hgrow
      exact ⟨v', hv', hpushed, hsound, .inr hcap⟩

lemma Sound.destroy (h : Sound w v) (hzero : v.capacity = 0) :
    ∃ v', v.destroy = some v' ∧ Sound w v' := by
  have hnull := h.null hzero
  refine ⟨{ v with isInit := false }, ?_, ⟨h.backed.length_le, h.backed.storage⟩, h.small, h.null,
    fun _ => hzero⟩
  rw [HeapVector.destroy, hnull, free, Option.map_some, ← hnull]

/-- An operation that fits returns, and keeps a vector sound. -/
lemma Sound.step_some {op : Op α w} (h : Sound w v) (hs : Supplied v op) (hf : Fits v op) :
    ∃ v', step op v = some v' ∧ Sound w v' := by
  cases op with
  | init new => exact ⟨_, rfl, init_sound hf v⟩
  | initSize new size => exact ⟨_, rfl, initSize_sound hf v⟩
  | pushBack new grow item =>
    obtain ⟨v', hv', -, hsound, -⟩ := h.pushBack hs hf
    exact ⟨v', hv', hsound⟩
  | popBack => exact ⟨_, rfl, h.popBack hf⟩
  | remove position =>
    obtain ⟨r, hr, hsound⟩ := h.remove hf
    exact ⟨r.1, by rw [HeapVector.step, hr, Option.map_some], hsound⟩
  | resize new grow size => exact h.resize hs hf
  | destroy => exact h.destroy hf

lemma Sound.step {op : Op α w} (h : Sound w v) (hs : Supplied v op) (hf : Fits v op)
    (hv : step op v = some v') : Sound w v' := by
  obtain ⟨v₁, hv₁, hsound⟩ := h.step_some hs hf
  rw [← Option.some.inj (hv₁.symm.trans hv)]
  exact hsound

lemma Sound.grows {op : Op α w} (h : Sound w v) (hs : Supplied v op) (hf : Fits v op) :
    Grows v op := by
  cases op with
  | pushBack new grow item =>
    obtain ⟨v', hv', hpushed, -⟩ := h.pushBack hs hf
    exact ⟨v', hv', hpushed.length⟩
  | init | initSize | popBack | remove | resize | destroy => trivial

/-! ## What it does not survive -/

/-- A vector with a capacity and no storage is not backed. -/
lemma not_backed_of_null (hdata : v.data = none) (hpos : 0 < v.capacity) : ¬ v.Backed := by
  intro hb
  obtain ⟨p, cells, hp, -⟩ := hb.storage hpos
  rw [hdata] at hp
  simp at hp

lemma Sound.resize_unfit {size : ℕ} (h : Sound w v)
    (hs : Supplied v (.resize new grow size : Op α w))
    (hf : ¬ Fits v (.resize new grow size : Op α w)) (hv : v.resize new grow size = some v') :
    ¬ v'.Backed := by
  have hlt := h.capacity_lt
  have hle := h.backed.length_le
  obtain ⟨hlive, -⟩ := h.setUp new
  have heq : v.resize new grow size = _ := resize_eq rfl
  have hlen : v.isInit = true → (if v.isInit then v else init new v).length = v.length :=
    fun hinit => by rw [if_pos hinit]
  generalize (if v.isInit then v else init new v) = v₁ at hlive heq hlen
  obtain ⟨r, hr, hnone, hsome⟩ := hlive.realloc hs
  rw [hr, Option.map_some] at heq
  obtain rfl := Option.some.inj (hv.symm.trans heq)
  intro hb
  refine hf ⟨fun hinit => ?_, ?_⟩
  · -- the length would be one above the new capacity
    by_contra hshort
    have hover := hb.length_le
    dsimp only at hover
    rw [hlen hinit, if_pos (by omega), Word64.add_of_lt (by omega)] at hover
    omega
  · by_contra hwrap
    have hpos : 0 < size := by
      by_contra hzero
      rw [Nat.eq_zero_of_not_pos hzero] at hwrap
      simp at hwrap
    obtain ⟨p, cells, hp, hcells, hroom⟩ := hb.storage hpos
    dsimp only at hp hcells hroom
    by_cases hzero : Word64.mul size w = 0
    · rw [hnone hzero] at hp
      simp at hp
    · obtain ⟨b, q, cells', hq, hcells', hsame⟩ := hsome hzero
      obtain rfl := Option.some.inj (hp.symm.trans hq)
      obtain rfl := Option.some.inj (hcells.symm.trans hcells')
      have hsmall := b.small
      rw [← hsame] at hsmall
      have := Nat.mul_le_mul_right (w : ℕ) hroom
      omega

/-- After any other operation the vector is not backed, or it was a `push_back` that did not
increase the size. -/
lemma Sound.fits {op : Op α w} (h : Sound w v) (hs : Supplied v op) (hg : Grows v op)
    (hv : HeapVector.step op v = some v') (hb : v'.Backed) : Fits v op := by
  have hlt := h.capacity_lt
  have hle := h.backed.length_le
  by_contra hf
  cases op with
  | init new =>
    obtain rfl := Option.some.inj hv
    have hnew : new w = none := by simpa [Fits] using hf
    rw [init_failed hnew] at hb
    exact not_backed_of_null rfl Nat.one_pos hb
  | initSize new size =>
    obtain rfl := Option.some.inj hv
    rw [Fits, not_or] at hf
    have hnew : new (arrayBytes w size) = none := by simpa using hf.2
    rw [initSize, malloc_none (.inr hnew)] at hb
    exact not_backed_of_null rfl (Nat.pos_of_ne_zero hf.1) hb
  | pushBack new grow item =>
    obtain ⟨v₁, hv₁, hlen⟩ := hg
    rw [Fits] at hf
    cases hinit : v.isInit with
    | false =>
      rw [if_neg (by simp [hinit])] at hf
      have hnew : new w = none := by simpa using hf
      rw [pushBack_fresh hinit, init_failed hnew, HeapVector.pushBack, if_pos rfl,
        if_pos Nat.one_pos, write] at hv₁
      simp at hv₁
    | true =>
      rw [if_pos hinit] at hf
      rw [pushBack_zero h hinit (by omega)] at hv₁
      rw [← Option.some.inj hv₁] at hlen
      omega
  | popBack =>
    obtain rfl := Option.some.inj hv
    rw [Fits, Classical.not_imp] at hf
    have hover := hb.length_le
    rw [HeapVector.popBack, if_pos hf.1] at hover
    dsimp only at hover
    rw [show v.length = 0 by omega, Word64.sub] at hover
    omega
  | remove position =>
    obtain ⟨r, hr, -⟩ := Option.map_eq_some_iff.mp hv
    refine hf fun hinit => ?_
    have hpos : 0 < v.length := by
      by_contra hzero
      rw [h.remove_empty hinit (by omega)] at hr
      simp at hr
    exact ⟨hpos, (h.remove_some_iff hinit hpos position).mp (Option.isSome_of_eq_some hr)⟩
  | resize new grow size => exact h.resize_unfit hs hf hv hb
  | destroy =>
    obtain ⟨p, cells, hdata, hcells, -⟩ := h.backed.storage (Nat.pos_of_ne_zero hf)
    have heq : v.destroy = some { v with isInit := false, blocks := v.blocks.free p } := by
      rw [HeapVector.destroy, hdata, free, hcells, ← hdata]
      rfl
    obtain rfl := Option.some.inj (heq.symm.trans hv)
    obtain ⟨q, cells', hq, hcells', -⟩ := hb.storage (Nat.pos_of_ne_zero hf)
    obtain rfl := Option.some.inj (hdata.symm.trans hq)
    dsimp only at hcells'
    rw [Store.get_free, if_pos rfl] at hcells'
    simp at hcells'

/-! ## Storage in all runs -/

/-- **A vector stays backed**, every `push_back` increases its size, and the run comes to its end,
exactly if every operation of the run is one that the vector survives. -/
theorem storage_backed_iff {ops : List (Op α w)} (blocks : Store (List α))
    (hs : Along step Supplied ops (fresh blocks)) :
    ((∃ v', exec step ops (fresh blocks) = some v') ∧ Always step Backed ops (fresh blocks) ∧
      Along step Grows ops (fresh blocks)) ↔ Along step Fits ops (fresh blocks) := by
  have hsound : Sound w (fresh blocks) := fresh_sound blocks
  constructor
  · rintro ⟨⟨v', he⟩, hb, hg⟩
    exact Along.of_always (fun v op v' h hop hf hv => h.step hop.1 hf hv)
      (fun v op v' h hop hv hb => h.fits hop.1 hop.2 hv hb) hb (hs.and hg) he hsound
  · intro hf
    have hboth := hs.and hf
    have hkeep : ∀ (v : HeapVector α) (op : Op α w) v', Sound w v → Supplied v op ∧ Fits v op →
        step op v = some v' → Sound w v' := fun v op v' h hop hv => h.step hop.1 hop.2 hv
    have hruns : Along step (fun v op => ∃ v', step op v = some v') ops (fresh blocks) :=
      hboth.imp hkeep (fun v op h hop => (h.step_some hop.1 hop.2).imp fun _ hv => hv.1) hsound
    refine ⟨hruns.exec_some fun v op hv => hv, ?_, ?_⟩
    · exact hboth.always hkeep (fun v h => h.backed) hsound
    · exact hboth.imp hkeep (fun v op h hop => h.grows hop.1 hop.2) hsound

instance (v : HeapVector α) (op : Op α w) : Decidable (Supplied v op) :=
  match op with
  | .pushBack _ grow _ =>
    inferInstanceAs (Decidable (v.isInit = true → v.length = v.capacity → 0 < v.capacity →
      (grow (Word64.mul (Word64.mul 2 v.capacity) w)).isSome = true))
  | .resize _ grow size =>
    inferInstanceAs (Decidable (Word64.mul size w ≠ 0 → (grow (Word64.mul size w)).isSome = true))
  | .init _ | .initSize _ _ | .popBack | .remove _ | .destroy => inferInstanceAs (Decidable True)

instance (v : HeapVector α) (op : Op α w) : Decidable (Fits v op) :=
  match op with
  | .init new => inferInstanceAs (Decidable ((new w).isSome = true))
  | .initSize new size =>
    inferInstanceAs (Decidable (size = 0 ∨ (new (arrayBytes w size)).isSome = true))
  | .pushBack new _ _ =>
    inferInstanceAs (Decidable (if v.isInit = true then 0 < v.capacity else (new w).isSome = true))
  | .popBack => inferInstanceAs (Decidable (v.isInit = true → 0 < v.length))
  | .remove position => inferInstanceAs (Decidable (v.isInit = true → 0 < v.length ∧
      (v.length ≤ 2 ∨ position + (v.length - 2) < v.cellCount)))
  | .resize _ _ size =>
    inferInstanceAs (Decidable ((v.isInit = true → v.length ≤ size) ∧ size * w < 2 ^ 64))
  | .destroy => inferInstanceAs (Decidable (v.capacity = 0))

/-- The size of a pointer. -/
def wordSize : ℕ+ := ⟨8, Nat.succ_pos 7⟩

/-- A heap that always has memory, and blocks without slack. -/
def plenty : Answer ℕ wordSize := fun bytes =>
  if h : bytes < 2 ^ 63 then
    some ⟨bytes, List.replicate (bytes / wordSize) 0, le_rfl, h, List.length_replicate⟩
  else none

theorem storage_backed_sample :
    (∃ v', exec step [.pushBack plenty plenty 7, .pushBack plenty plenty 8, .popBack,
        .resize plenty plenty 5, .pushBack plenty plenty 9, .remove 1] (fresh Store.empty) =
          some v') ∧
      Always step Backed [.pushBack plenty plenty 7, .pushBack plenty plenty 8, .popBack,
        .resize plenty plenty 5, .pushBack plenty plenty 9, .remove 1] (fresh Store.empty) ∧
      Along step Grows [.pushBack plenty plenty 7, .pushBack plenty plenty 8, .popBack,
        .resize plenty plenty 5, .pushBack plenty plenty 9, .remove 1] (fresh Store.empty) :=
  (storage_backed_iff Store.empty (by decide)).mpr (by decide)

/-- A vector of six elements on a heap that has memory. -/
def sixPushed : List (Op ℕ wordSize) :=
  .initSize plenty 6 :: [1, 2, 3, 4, 5, 6].map (.pushBack plenty plenty)

/-- The length wraps around when an empty vector is popped, resizing below the length leaves it
above the capacity, and removing the last of six elements reads and writes behind the block. -/
theorem storage_not_backed :
    (Along step Supplied [.init plenty, .popBack] (fresh Store.empty) ∧
      ¬ Always step Backed [.init plenty, .popBack] (fresh Store.empty)) ∧
    (Along step Supplied [.pushBack plenty plenty 7, .pushBack plenty plenty 8,
        .resize plenty plenty 0] (fresh Store.empty) ∧
      ¬ Always step Backed [.pushBack plenty plenty 7, .pushBack plenty plenty 8,
        .resize plenty plenty 0] (fresh Store.empty)) ∧
    Along step Supplied (sixPushed ++ [.remove 5]) (fresh Store.empty) ∧
      (exec step sixPushed (fresh Store.empty)).isSome ∧
      exec step (sixPushed ++ [.remove 5]) (fresh Store.empty) = none := by
  refine ⟨⟨by decide, fun h => ?_⟩, ⟨by decide, fun h => ?_⟩, by decide, rfl, rfl⟩
  · have hlast := (h.2 _ rfl).2 _ rfl
    exact absurd hlast.length_le (by decide)
  · have hlast := ((h.2 _ rfl).2 _ rfl).2 _ rfl
    exact absurd hlast.length_le (by decide)

end TurbOS.HeapVector
