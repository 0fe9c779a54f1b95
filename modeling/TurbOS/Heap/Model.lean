import TurbOS.Memory.PMemory

/-!
# The kernel heap

`Heap` manages one arena of physical pages.  The arena is cut into blocks; a block
starts with a 16-byte header that holds its size, in its first eight bytes, and its
`free` flag, in the ninth.  The blocks are not linked: `next` adds the size of a block
to its address.

The functions below follow `heap.cpp`.  Loops run on fuel, and `none` stands for a
computation that does not return: the fuel is not enough, or a lock is taken twice.
Null pointers are `0`.  `serial::log` is left out.
-/

open ByteMemory Fuel

namespace TurbOS

/-- The fields of `Heap`, and a count of the calls of `expand` that nothing reads. -/
structure Heap where
  head : ℕ := 0
  tail : ℕ := 0
  data : ℕ := 0
  expanded : Bool := false
  lock : Bool := false
  pages : ℕ := 0
  /-- How often `expand` was entered. -/
  expansions : ℕ := 0

/-- The memory managers together. -/
structure Kernel where
  phys : Phys
  heap : Heap := {}

namespace Heap

/-- `INIT_PAGES`. -/
def INIT_PAGES : ℕ := 512

/-! ## Block headers -/

/-- `block->size`. -/
def blockSize (m : Mem) (block : ℕ) : ℕ := load m block 8

/-- `block->free`. -/
def blockFree (m : Mem) (block : ℕ) : Bool := decide (m (block + 8) ≠ 0)

/-- Assign `block->size`; the value is cut to 64 bits. -/
def setSize (m : Mem) (block size : ℕ) : Mem := store m block 8 size

/-- Assign `block->free`. -/
def setFree (m : Mem) (block : ℕ) (free : Bool) : Mem :=
  Function.update m (block + 8) (if free then 1 else 0)

/-- `Heap::next`.  An arena ends below `2 ^ 64`, so inside it the sum does not wrap around. -/
def next (m : Mem) (block : ℕ) : ℕ := block + blockSize m block

/-! ## Searching -/

/-- One round of the loop of `split`: halve the block and go on with its right half. -/
def halve (m : Mem) (block : ℕ) : Mem × ℕ :=
  let sz := blockSize m block / 2
  let m := setSize m block sz
  let block := next m block
  (setFree (setSize m block sz) block true, block)

/-- `Heap::split`. -/
def split (fuel : ℕ) (m : Mem) (block size : ℕ) : Option (ℕ × Mem) :=
  if block ≠ 0 ∧ size ≠ 0 then
    (loop (fun c : Mem × ℕ =>
      if size < blockSize c.1 c.2 then some (.inl (halve c.1 c.2)) else some (.inr c))
      fuel (m, block)).map fun c =>
        (if size ≤ blockSize c.1 c.2 then c.2 else 0, c.1)
  else some (0, m)

/-- The variables of `find_best`. -/
structure Cursor where
  mem : Mem
  best : ℕ
  block : ℕ
  tmp : ℕ

/-- The body of the loop of `find_best`. -/
def findBestStep (tail size : ℕ) (c : Cursor) : Cursor :=
  let m := c.mem
  if blockFree m c.block ∧ blockFree m c.tmp ∧ blockSize m c.block = blockSize m c.tmp then
    let m := setSize m c.block (2 * blockSize m c.block)
    let best :=
      if size ≤ blockSize m c.block ∧ (c.best = 0 ∨ blockSize m c.block ≤ blockSize m c.best)
      then c.block else c.best
    let block := next m c.tmp
    { mem := m, best := best, block := block,
      tmp := if block < tail then next m block else c.tmp }
  else
    let best :=
      if blockFree m c.block ∧ size ≤ blockSize m c.block ∧
          (c.best = 0 ∨ blockSize m c.block ≤ blockSize m c.best)
      then c.block else c.best
    let best :=
      if blockFree m c.tmp ∧ size ≤ blockSize m c.tmp ∧
          (best = 0 ∨ blockSize m c.tmp < blockSize m best)
      then c.tmp else best
    if blockSize m c.block ≤ blockSize m c.tmp then
      let block := next m c.tmp
      { mem := m, best := best, block := block,
        tmp := if block < tail then next m block else c.tmp }
    else { mem := m, best := best, block := c.tmp, tmp := next m c.tmp }

/-- `Heap::find_best`. -/
def findBest (fuel : ℕ) (h : Heap) (m : Mem) (size : ℕ) : Option (ℕ × Mem) :=
  if size = 0 then some (0, m)
  else if next m h.head = h.tail ∧ blockFree m h.head then split fuel m h.head size
  else
    (loop (fun c : Cursor =>
      if c.block < h.tail ∧ c.tmp < h.tail then some (.inl (findBestStep h.tail size c))
      else some (.inr c)) fuel ⟨m, 0, h.head, next m h.head⟩).bind fun c =>
        if c.best ≠ 0 then split fuel c.mem c.best size else some (0, c.mem)

/-- `Heap::required_size`. -/
def requiredSize (fuel size : ℕ) : Option ℕ :=
  let size := alignUp (Word64.add size 16) 16
  loop (fun actual =>
    if actual < size then some (.inl (Word64.mul actual 2)) else some (.inr actual)) fuel 16

/-- The variables of the inner loop of `coalescence`. -/
structure Sweep where
  mem : Mem
  block : ℕ
  tmp : ℕ
  noCoalescence : Bool

/-- The body of the inner loop of `coalescence`. -/
def sweepStep (tail : ℕ) (c : Sweep) : Sweep :=
  let m := c.mem
  if blockFree m c.block ∧ blockFree m c.tmp ∧ blockSize m c.block = blockSize m c.tmp then
    let m := setSize m c.block (2 * blockSize m c.block)
    let block := next m c.block
    if block < tail then
      { mem := m, block := block, tmp := next m block, noCoalescence := false }
    else { c with mem := m, block := block }
  else if blockSize m c.block < blockSize m c.tmp then
    { c with block := c.tmp, tmp := next m c.tmp }
  else
    let block := next m c.tmp
    { c with block := block, tmp := if block < tail then next m block else c.tmp }

/-- The inner loop of `coalescence`. -/
def sweep (fuel : ℕ) (h : Heap) (m : Mem) : Option Sweep :=
  loop (fun c : Sweep =>
    if c.block < h.tail ∧ c.tmp < h.tail then some (.inl (sweepStep h.tail c))
    else some (.inr c)) fuel ⟨m, h.head, next m h.head, true⟩

/-- `Heap::coalescence`. -/
def coalescence (fuel : ℕ) (h : Heap) (m : Mem) : Option Mem :=
  loop (fun m => (sweep fuel h m).map fun c =>
    if c.noCoalescence then .inr c.mem else .inl c.mem) fuel m

/-- The search of `malloc`: `find_best`, and once more after `coalescence`. -/
def find (fuel : ℕ) (h : Heap) (m : Mem) (size : ℕ) : Option (ℕ × Mem) :=
  (findBest fuel h m size).bind fun r =>
    if r.1 = 0 then (coalescence fuel h r.2).bind fun m => findBest fuel h m size
    else some r

/-! ## The operations -/

/-- Take the heap lock. -/
def acquire (k : Kernel) : Option Kernel :=
  if k.heap.lock then none else some { k with heap := { k.heap with lock := true } }

/-- Release the heap lock. -/
def unlock (k : Kernel) : Kernel := { k with heap := { k.heap with lock := false } }

/-- `Heap::expand`.  A failed `INVALID` check returns with the lock still held. -/
def expand (fuel pagecount : ℕ) (k : Kernel) : Option Kernel :=
  (acquire k).bind fun k =>
    let k := { k with heap := { k.heap with expansions := k.heap.expansions + 1 } }
    if pagecount = 0 then some k
    else
      (alignUp2 fuel 0x1000 (Word64.mul (Word64.add pagecount k.heap.pages)
        0x1000)).bind fun size =>
        if powerOf2 size = false then some k
        else
          (PMemory.realloc k.heap.data k.heap.pages (size / 0x1000) k.phys).bind fun r =>
            if r.1 = 0 then some { phys := r.2, heap := { k.heap with data := 0 } }
            else
              let m := setFree (setSize r.2.mem r.1 size) r.1 true
              some {
                phys := { r.2 with mem := m }
                heap := { k.heap with
                  data := r.1
                  head := r.1
                  tail := next m r.1
                  pages := size / 0x1000
                  lock := false } }

/-- `Heap::malloc`; the last line of the source calls `malloc` again. -/
def malloc : ℕ → ℕ → Kernel → Option (ℕ × Kernel)
  | 0, _, _ => none
  | fuel + 1, size, k =>
    if size = 0 then some (0, k)
    else
      (if k.heap.data = 0 then expand fuel INIT_PAGES k else some k).bind fun k =>
        (acquire k).bind fun k =>
          (requiredSize fuel size).bind fun actualSize =>
            (find fuel k.heap k.phys.mem actualSize).bind fun r =>
              let k := { k with phys := { k.phys with mem := r.2 } }
              if r.1 ≠ 0 then
                some (r.1 + 16, {
                  phys := { k.phys with mem := setFree r.2 r.1 false }
                  heap := { k.heap with expanded := false, lock := false } })
              else if k.heap.expanded then
                some (0, { k with heap := { k.heap with expanded := false, lock := false } })
              else
                (expand fuel (size / 0x1000 + 1) (unlock k)).bind fun k =>
                  malloc fuel size { k with heap := { k.heap with expanded := true } }

@[simp] lemma malloc_zero (size : ℕ) (k : Kernel) : malloc 0 size k = none := by
  rw [malloc]

@[simp] lemma malloc_size_zero (fuel : ℕ) (k : Kernel) : malloc (fuel + 1) 0 k = some (0, k) := by
  rw [malloc, if_pos rfl]

/-- `Heap::calloc`. -/
def calloc (fuel num size : ℕ) (k : Kernel) : Option (ℕ × Kernel) :=
  (malloc fuel (Word64.mul num size) k).map fun r =>
    if r.1 = 0 then (0, r.2)
    else (r.1, { r.2 with
      phys := { r.2.phys with mem := memset r.2.phys.mem r.1 0 (Word64.mul num size) } })

/-- `Heap::free`. -/
def free (fuel ptr : ℕ) (k : Kernel) : Option Kernel :=
  if k.heap.data = 0 then some k
  else if ptr = 0 then some k
  else if ¬ k.heap.head ≤ ptr then some k
  else if ¬ ptr < k.heap.tail then some k
  else
    (acquire k).bind fun k =>
      (coalescence fuel k.heap (setFree k.phys.mem (ptr - 16) true)).map fun m =>
        unlock { k with phys := { k.phys with mem := m } }

/-- `Heap::realloc`. -/
def realloc (fuel ptr size : ℕ) (k : Kernel) : Option (ℕ × Kernel) :=
  if ptr = 0 then malloc fuel size k
  else
    let oldsize := blockSize k.phys.mem (ptr - 16)
    if size = 0 then (free fuel ptr k).map fun k => (0, k)
    else
      let oldsize := if size < oldsize then size else oldsize
      (malloc fuel size k).bind fun r =>
        if r.1 = 0 then some (ptr, r.2)
        else
          (free fuel ptr { r.2 with
            phys := { r.2.phys with mem := memcpy r.2.phys.mem r.1 ptr oldsize } }).map
              fun k => (r.1, k)

/-- `Heap::allocsize`. -/
def allocsize (ptr : ℕ) (k : Kernel) : ℕ :=
  if k.heap.data = 0 then 0
  else if ptr = 0 then 0
  else Word64.sub (blockSize k.phys.mem (ptr - 16)) 16

end Heap

end TurbOS
