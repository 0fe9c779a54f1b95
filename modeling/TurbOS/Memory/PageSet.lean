import TurbOS.Memory.Bitmap
import TurbOS.Lib.LastWrite

/-!
# The bitmap as a set of pages

The pages whose bit is raised are a set, and `Bitmap::set` inserts a page into it or erases one.
So after any calls a bit holds what was written to it last, and calls for other pages play no part,
whether their bits lie in the same byte or not.
-/

open ByteMemory

namespace TurbOS.Bitmap

/-- A call of `Bitmap::set`. -/
structure SetCall where
  index : ℕ
  value : Bool

/-- Memory after some calls of `Bitmap::set`. -/
def sets (m : Mem) (buffer : ℕ) (calls : List SetCall) : Mem :=
  calls.foldl (fun m c => set m buffer c.index c.value) m

/-- The value of the last call for a page. -/
def lastSet (calls : List SetCall) (j : ℕ) : Option Bool :=
  LastWrite.last (fun c => if c.index = j then some c.value else none) calls

/-- The pages whose bit is raised. -/
def pages (m : Mem) (buffer : ℕ) : Set ℕ := {j | get m buffer j = true}

/-- What a call does to a set of pages. -/
def SetCall.onPages (c : SetCall) (P : Set ℕ) : Set ℕ :=
  if c.value then insert c.index P else P \ {c.index}

variable {m : Mem} {buffer size x : ℕ} {calls : List SetCall}

lemma pages_set (m : Mem) (buffer : ℕ) (c : SetCall) :
    pages (set m buffer c.index c.value) buffer = c.onPages (pages m buffer) := by
  ext j
  rw [pages, Set.mem_ofPred_eq, get_set, SetCall.onPages, pages]
  by_cases hj : c.index = j
  · subst hj
    cases c.value <;> simp
  · cases c.value <;> simp [hj, Ne.symm hj]

/-- The calls work on the set of pages. -/
theorem pages_sets (m : Mem) (buffer : ℕ) (calls : List SetCall) :
    pages (sets m buffer calls) buffer = calls.foldl (fun P c => c.onPages P) (pages m buffer) := by
  induction calls generalizing m with
  | nil => rfl
  | cons c calls ih =>
    rw [List.foldl_cons, ← pages_set]
    exact ih (set m buffer c.index c.value)

/-- After any calls a bit is the value of the last call for its page, or the initial bit; the calls
for other pages could be left out. -/
theorem get_sets (m : Mem) (buffer : ℕ) (calls : List SetCall) (j : ℕ) :
    get (sets m buffer calls) buffer j = (lastSet calls j).getD (get m buffer j) ∧
      get (sets m buffer calls) buffer j =
        get (sets m buffer (calls.filter fun c => c.index = j)) buffer j := by
  have hlast : ∀ calls, get (sets m buffer calls) buffer j = (lastSet calls j).getD
      (get m buffer j) := by
    intro calls
    refine LastWrite.part_foldl _ (fun m => get m buffer j) _ (fun m c => ?_) calls m
    rw [get_set]
    split <;> rfl
  refine ⟨hlast calls, ?_⟩
  rw [hlast, hlast, lastSet, lastSet, LastWrite.last_filter]
  intro c hc
  exact if_neg (by simpa using hc)

end TurbOS.Bitmap
