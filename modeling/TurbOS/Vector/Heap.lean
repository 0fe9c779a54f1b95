import TurbOS.Lib.Runs
import TurbOS.Lib.Store
import TurbOS.Lib.Word64
import TurbOS.Scheduler.TurboVector

/-!
# `TurboVector` on the heap

All operations of the vector, with the pointer `data` and the blocks of the heap it points to.
A block is the list of the elements that fit into its payload; a pointer is the handle of a
block, and a null pointer is `none`.  The elements take `w` bytes each, and the sizes that are
asked for are computed in 64 bits.

Writing through a null pointer, into a block that was freed or beyond the end of a block is a
fault, for which the result is `none`; so is freeing a block twice.

The heap rounds sizes up, and what a new block holds is arbitrary.  A block of the heap with its
header has a power of two as its size, so that its payload is smaller than `2 ^ 63` bytes.  The
smallest payload of `heap.cpp` is 16 bytes; the results below hold for any that is large enough.
-/

namespace TurbOS

/-- A block that the heap gives for a request of `bytes` bytes. -/
structure Block (α : Type) (w : ℕ+) (bytes : ℕ) where
  payload : ℕ
  cells : List α
  enough : bytes ≤ payload
  bounded : payload < 2 ^ 63
  length_eq : cells.length = payload / w

namespace Block

variable {α : Type} {w : ℕ+} {bytes : ℕ}

/-- A block has room for the elements that were asked for. -/
lemma count_le (b : Block α w bytes) {count : ℕ} (h : count * w ≤ bytes) :
    count ≤ b.cells.length := by
  rw [b.length_eq, Nat.le_div_iff_mul_le w.pos]
  exact h.trans b.enough

lemma small (b : Block α w bytes) : b.cells.length * w < 2 ^ 63 := by
  rw [b.length_eq]
  exact (Nat.div_mul_le_self _ _).trans_lt b.bounded

lemma div_le (b : Block α w bytes) : bytes / w ≤ b.cells.length :=
  b.count_le (Nat.div_mul_le_self _ _)

end Block

/-- What the heap answers to a request; `malloc` fails where it is `none`. -/
abbrev Answer (α : Type) (w : ℕ+) := (bytes : ℕ) → Option (Block α w bytes)

/-- `TurboVector<T>`, and the blocks of the heap. -/
structure HeapVector (α : Type) where
  data : Option ℕ := none
  capacity : ℕ := 0
  length : ℕ := 0
  isInit : Bool := false
  blocks : Store (List α) := Store.empty

namespace HeapVector

variable {α : Type} {w : ℕ+}

/-! ## The heap -/

/-- `malloc`, which gives nothing for a size of zero. -/
def malloc (answer : Answer α w) (bytes : ℕ) (blocks : Store (List α)) :
    Option ℕ × Store (List α) :=
  if bytes = 0 then (none, blocks)
  else
    match answer bytes with
    | none => (none, blocks)
    | some block => (some blocks.next, blocks.alloc block.cells)

/-- `free`. -/
def free (pointer : Option ℕ) (blocks : Store (List α)) : Option (Store (List α)) :=
  match pointer with
  | none => some blocks
  | some p => (blocks.get p).map fun _ => blocks.free p

/-- What a new block holds after the first `count` elements of the old one were copied. -/
def moved (old cells : List α) (count : ℕ) : List α :=
  old.take count ++ cells.drop (old.take count).length

/-- `realloc`, which returns the old pointer when it finds no memory. -/
def realloc (answer : Answer α w) (pointer : Option ℕ) (bytes : ℕ) (blocks : Store (List α)) :
    Option (Option ℕ × Store (List α)) :=
  match pointer with
  | none => some (malloc answer bytes blocks)
  | some p => (blocks.get p).bind fun old =>
      if bytes = 0 then (free (some p) blocks).map fun blocks => (none, blocks)
      else
        match answer bytes with
        | none => some (some p, blocks)
        | some block =>
          (free (some p) (blocks.alloc (moved old block.cells (bytes / w)))).map fun freed =>
            (some blocks.next, freed)

/-! ## The operations -/

/-- The size that `new T[count]` asks for. -/
def arrayBytes (w : ℕ+) (count : ℕ) : ℕ :=
  if count * w < 2 ^ 64 then count * w else 2 ^ 64 - 1

/-- `init(size)`. -/
def initSize (answer : Answer α w) (size : ℕ) (v : HeapVector α) : HeapVector α :=
  let r := malloc answer (arrayBytes w size) v.blocks
  { data := r.1, capacity := size, length := 0, isInit := true, blocks := r.2 }

/-- `init()`. -/
def init (answer : Answer α w) (v : HeapVector α) : HeapVector α :=
  let r := malloc answer w v.blocks
  { data := r.1, capacity := 1, length := 0, isInit := true, blocks := r.2 }

/-- `destroy`. -/
def destroy (v : HeapVector α) : Option (HeapVector α) :=
  (free v.data v.blocks).map fun blocks => { v with isInit := false, blocks := blocks }

/-- `*(data + length) = item; ++length;`. -/
def write (item : α) (v : HeapVector α) : Option (HeapVector α) :=
  v.data.bind fun p => (v.blocks.get p).bind fun cells =>
    if v.length < cells.length then
      some { v with
        blocks := v.blocks.modify p fun cells => cells.set v.length item
        length := Word64.add v.length 1 }
    else none

/-- `push_back`; `new` answers the request of `init`, and `grow` that of `realloc`. -/
def pushBack (new grow : Answer α w) (item : α) (v : HeapVector α) : Option (HeapVector α) :=
  let v := if v.isInit then v else init new v
  if v.length < v.capacity then v.write item
  else
    (realloc grow v.data (Word64.mul (Word64.mul 2 v.capacity) w) v.blocks).bind fun r =>
      let v := { v with data := r.1, capacity := Word64.mul v.capacity 2, blocks := r.2 }
      if v.data = none then some v else v.write item

/-- `pop_back`. -/
def popBack (v : HeapVector α) : HeapVector α :=
  if v.isInit then { v with length := Word64.sub v.length 1 } else v

/-- The loop of `remove`, which runs from `1` up to `n`, with the indices that it reads and
writes. -/
def shift (position : ℕ) : ℕ → List α → Option (List α × List ℕ)
  | 0, cells => some (cells, [])
  | n + 1, cells => (shift position n cells).bind fun r =>
      r.1[position + n + 1]?.map fun x =>
        (r.1.set (position + n) x, r.2 ++ [position + n + 1, position + n])

/-- `remove`, with the indices that it reads and writes. -/
def remove (position : ℕ) (v : HeapVector α) : Option (HeapVector α × List ℕ) :=
  if v.isInit then
    let rounds := Word64.sub v.length 1 - 1
    (if rounds = 0 then some (v.blocks, [])
    else
      v.data.bind fun p => (v.blocks.get p).bind fun cells =>
        (shift position rounds cells).map fun r => (v.blocks.modify p fun _ => r.1, r.2)).map
      fun r => ({ v with length := Word64.sub v.length 1, blocks := r.1 }, r.2)
  else some (v, [])

/-- `resize`. -/
def resize (new grow : Answer α w) (size : ℕ) (v : HeapVector α) : Option (HeapVector α) :=
  let v := if v.isInit then v else init new v
  (realloc grow v.data (Word64.mul size w) v.blocks).map fun r =>
    { v with
      data := r.1
      capacity := size
      length := if v.length > size then Word64.add size 1 else v.length
      blocks := r.2 }

/-- `find`: the condition `data == (data + index)` does not mention the argument. -/
def find (w : ℕ+) (v : HeapVector α) (_thing : α) : ℕ :=
  ((List.range v.length).find? fun index => Word64.mul index w == 0).getD (2 ^ 64 - 1)

/-- `at`, and `operator[]`. -/
def «at» (position : ℕ) (v : HeapVector α) : Option α :=
  v.data.bind fun p => (v.blocks.get p).bind fun cells => cells[position]?

/-- `last`. -/
def last (v : HeapVector α) : Option α := v.at (Word64.sub v.length 1)

/-! ## What a vector holds -/

/-- The block of the vector. -/
def block (v : HeapVector α) : Option (List α) := v.data.bind v.blocks.get

/-- The vector holds the elements. -/
structure Holds (v : HeapVector α) (xs : List α) : Prop where
  length : v.length = xs.length
  bounded : v.length < 2 ^ 64
  cells : xs ≠ [] → ∃ p rest, v.data = some p ∧ v.blocks.get p = some (xs ++ rest)

lemma Holds.unique {v : HeapVector α} {xs ys : List α} (h : v.Holds xs) (h' : v.Holds ys) :
    xs = ys := by
  have hlen : xs.length = ys.length := h.length.symm.trans h'.length
  by_cases hne : xs = []
  · rw [hne, List.length_nil] at hlen
    rw [hne, List.eq_nil_of_length_eq_zero hlen.symm]
  · have hne' : ys ≠ [] := by
      rintro rfl
      exact hne (List.eq_nil_of_length_eq_zero hlen)
    obtain ⟨p, rest, hp, hcells⟩ := h.cells hne
    obtain ⟨q, rest', hq, hcells'⟩ := h'.cells hne'
    obtain rfl := Option.some.inj (hp.symm.trans hq)
    exact (List.append_inj (Option.some.inj (hcells.symm.trans hcells')) hlen).1

/-- A vector whose storage is full. -/
def full (xs : List α) : HeapVector α :=
  { data := some 0
    capacity := xs.length
    length := xs.length
    isInit := true
    blocks := Store.empty.alloc xs }

lemma full_holds {xs : List α} (h : xs.length < 2 ^ 64) : (full xs).Holds xs :=
  ⟨rfl, h, fun _ => ⟨0, [], rfl, by rw [List.append_nil]; rfl⟩⟩

end HeapVector

end TurbOS
