import TurbOS.Lib.Occurrences

/-!
# Splitting strings

The functions of `string.cpp` that take paths apart.  A string is the list of its characters
in front of the terminator; `strcmp` is only used to test for equality.  A pointer into a
string is the rest of the string from there on.
-/

namespace TurbOS.Str

/-- How far the comparison of `strstr` gets from one position: to the end of the substring,
to the end of the string, or to a difference. -/
inductive Comparison where
  | found | ended | differs
deriving DecidableEq, Repr

/-- The comparison of `strstr` from one position. -/
def compareFrom : List Char → List Char → Comparison
  | _, [] => .found
  | [], _ :: _ => .ended
  | a :: str, b :: substring => if a ≠ b then .differs else compareFrom str substring

/-- `strstr`. -/
def strstr (str substring : List Char) : Option (List Char) :=
  match compareFrom str substring with
  | .found => some str
  | .ended => none
  | .differs =>
    match str with
    | [] => none
    | _ :: str => strstr str substring

/-- The components that `_strsplit` finds.  With an empty delimiter it does not end. -/
def splitWords (delim : List Char) : ℕ → List Char → Option (List (List Char))
  | 0, _ => none
  | fuel + 1, s =>
    match strstr s delim with
    | none => some [s]
    | some found =>
      (splitWords delim fuel (found.drop delim.length)).map fun words =>
        s.take (s.length - found.length) :: words

/-- `strsplit_count`; `ok` says whether its allocation succeeds.  The result is the array in
front of its terminating null pointer, or a null pointer; the count is its length. -/
def strsplit_count (fuel : ℕ) (ok : Bool) (s delim : List Char) : Option
    (Option (List (List Char))) :=
  (splitWords delim fuel s).map fun words => if ok then some words else none

/-! ## What they find -/

open Occurrences

variable {s t delim : List Char} {words : List (List Char)} {fuel : ℕ}

/-- The comparison finds a prefix, or reaches the end of a string that is too short. -/
lemma compareFrom_spec (s t : List Char) :
    (compareFrom s t = .found ↔ t <+: s) ∧ (compareFrom s t = .ended → s.length < t.length) := by
  induction s generalizing t with
  | nil =>
    cases t with
    | nil => simp [compareFrom]
    | cons b t => simp [compareFrom]
  | cons a s ih =>
    cases t with
    | nil => simp [compareFrom]
    | cons b t =>
      rw [compareFrom]
      by_cases hab : a = b
      · obtain ⟨hfound, hended⟩ := ih t
        rw [if_neg (not_not_intro hab), hfound, List.cons_prefix_cons, List.length_cons,
          List.length_cons]
        exact ⟨⟨fun h => ⟨hab.symm, h⟩, And.right⟩, fun h => Nat.succ_lt_succ (hended h)⟩
      · rw [if_pos hab, List.cons_prefix_cons]
        simp [Ne.symm hab]

/-- `strstr` returns the rest of the string from the first occurrence on. -/
lemma strstr_eq_find (s t : List Char) : strstr s t = (find t s).map fun k => s.drop k := by
  induction s with
  | nil =>
    cases t with
    | nil => rfl
    | cons b t => rfl
  | cons a s ih =>
    obtain ⟨hfound, hended⟩ := compareFrom_spec (a :: s) t
    rw [strstr]
    cases hc : compareFrom (a :: s) t with
    | found => rw [find_eq_zero (hfound.mp hc), Option.map_some, List.drop_zero]
    | ended => rw [find_short (hended hc), Option.map_none]
    | differs =>
      have hne : ¬ t <+: a :: s := fun h => by simp [hfound.mpr h] at hc
      rw [find_cons hne, Option.map_map]
      exact ih

/-- The components are the pieces between the leftmost occurrences that do not overlap. -/
lemma splitWords_split (h : splitWords delim fuel s = some words) : Split delim s words := by
  induction fuel generalizing s words with
  | zero => simp [splitWords] at h
  | succ fuel ih =>
    rw [splitWords, strstr_eq_find] at h
    cases hfind : find delim s with
    | none =>
      rw [hfind] at h
      obtain rfl := Option.some.inj h
      exact .last (find_eq_none.mp hfind)
    | some k =>
      have hfirst := find_eq_some.mp hfind
      rw [hfind] at h
      obtain ⟨rest, hrest, rfl⟩ := Option.map_eq_some_iff.mp h
      rw [List.drop_drop] at hrest
      have hlen : s.length - (s.drop k).length = k := by
        have := hfirst.le_length
        rw [List.length_drop]
        omega
      rw [hlen]
      exact .cut hfirst (ih hrest)

/-- A delimiter that is not empty takes at most one round for each character. -/
lemma splitWords_returns (hd : delim ≠ []) (hfuel : s.length < fuel) :
    ∃ words, splitWords delim fuel s = some words := by
  have hpos : 0 < delim.length := List.length_pos_of_ne_nil hd
  induction fuel generalizing s with
  | zero => omega
  | succ fuel ih =>
    rw [splitWords, strstr_eq_find]
    cases hfind : find delim s with
    | none => exact ⟨[s], rfl⟩
    | some k =>
      have hfirst := find_eq_some.mp hfind
      have hle := hfirst.add_le hfirst.le_length
      obtain ⟨rest, hrest⟩ := ih (s := (s.drop k).drop delim.length)
        (by rw [List.length_drop, List.length_drop]; omega)
      exact ⟨_, congrArg (Option.map _) hrest⟩

/-! ## Paths -/

lemma strstr_slash_of_notMem {s : List Char} (h : '/' ∉ s) : strstr s ['/'] = none := by
  induction s with
  | nil => rfl
  | cons a s ih =>
    have ha : a ≠ '/' := fun heq => h (by simp [heq])
    rw [strstr, compareFrom, if_pos ha]
    exact ih fun hs => h (List.mem_cons_of_mem _ hs)

lemma strstr_slash_append {s : List Char} (h : '/' ∉ s) (rest : List Char) :
    strstr (s ++ '/' :: rest) ['/'] = some ('/' :: rest) := by
  induction s with
  | nil => simp [strstr, compareFrom]
  | cons a s ih =>
    have ha : a ≠ '/' := fun heq => h (by simp [heq])
    rw [List.cons_append, strstr, compareFrom, if_pos ha]
    exact ih fun hs => h (List.mem_cons_of_mem _ hs)

/-- What was joined with slashes is split into the same components. -/
lemma splitWords_intercalate {words : List (List Char)} (hne : words ≠ [])
    (h : ∀ w ∈ words, '/' ∉ w) {fuel : ℕ} (hfuel : words.length ≤ fuel) :
    splitWords ['/'] fuel (List.intercalate ['/'] words) = some words := by
  induction words generalizing fuel with
  | nil => exact absurd rfl hne
  | cons w words ih =>
    obtain ⟨f, rfl⟩ : ∃ f, fuel = f + 1 := ⟨fuel - 1, by simp at hfuel; omega⟩
    have hw : '/' ∉ w := h w List.mem_cons_self
    cases words with
    | nil => rw [List.intercalate_singleton, splitWords, strstr_slash_of_notMem hw]
    | cons w' words =>
      have hlen : (w' :: words).length ≤ f := by simpa using hfuel
      have hrest := ih (by simp) (fun x hx => h x (List.mem_cons_of_mem _ hx)) hlen
      -- the delimiter is one character long
      rw [List.intercalate_cons_cons, List.append_assoc, List.singleton_append, splitWords,
        strstr_slash_append hw]
      simp [hrest]

/-- The components do not depend on the fuel. -/
lemma splitWords_unique {delim s : List Char} {fuel fuel' : ℕ} {words words' : List (List Char)}
    (h : splitWords delim fuel s = some words) (h' : splitWords delim fuel' s = some words') :
    words = words' :=
  (splitWords_split h).unique (splitWords_split h')

lemma slash_notMem {path w : List Char} (h : Split ['/'] path words) (hw : w ∈ words) : '/' ∉ w :=
  fun hmem => h.avoids (by simp) w hw ((List.singleton_infix_iff '/' w).mpr hmem)

lemma splitOn_eq {path : List Char} (h : Split ['/'] path words) : path.splitOn '/' = words := by
  rw [← h.join]
  exact List.splitOn_intercalate '/' (fun w hw => slash_notMem h hw) h.ne_nil

/-- A path is split at every slash. -/
lemma strsplit_count_slash {path : List Char} {fuel : ℕ} (hfuel : path.length < fuel) (ok : Bool) :
    strsplit_count fuel ok path ['/'] = some (if ok then some (path.splitOn '/') else none) := by
  obtain ⟨words, hwords⟩ := splitWords_returns (List.cons_ne_nil '/' []) hfuel
  rw [strsplit_count, hwords, splitOn_eq (splitWords_split hwords), Option.map_some]

/-- No component contains a slash. -/
lemma slash_notMem_splitOn {path w : List Char} (hw : w ∈ path.splitOn '/') : '/' ∉ w := by
  obtain ⟨words, h⟩ := Split.exists (List.cons_ne_nil '/' []) path
  rw [splitOn_eq h] at hw
  exact slash_notMem h hw

end TurbOS.Str
