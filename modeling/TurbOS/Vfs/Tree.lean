import TurbOS.Vfs.Model

/-!
# Trees of nodes

What a path means: from a directory, `.` stays, `..` goes to the parent, and a name goes to
the first child with that name.  In a tree every node has one parent, so the node at the end
of a path of names determines all nodes on the way.
-/

namespace TurbOS.Vfs

variable {N : Store Node} {n m p q x y : ℕ} {name : List Char} {names : List (List Char)}

/-- The children of a node. -/
def children (N : Store Node) (n : ℕ) : List ℕ :=
  ((N.get n).map fun node => node.childs.items).getD []

/-- The node has the name. -/
def Named (N : Store Node) (name : List Char) (n : ℕ) : Prop := (N.get n).map Node.name = some name

instance : DecidablePred (Named N name) := fun _ => inferInstanceAs (Decidable (_ = _))

/-- The first child with a name. -/
def childNamed (N : Store Node) (n : ℕ) (name : List Char) : Option ℕ :=
  (children N n).find? fun c => Named N name c

/-- The parent of a node. -/
def parentOf (N : Store Node) (n : ℕ) : Option ℕ := (N.get n).bind Node.parent

/-- Descend along a path of names. -/
def descend (N : Store Node) (n : ℕ) : List (List Char) → Option ℕ
  | [] => some n
  | name :: names => (childNamed N n name).bind fun c => descend N c names

/-- Descend component by component. -/
def resolve (N : Store Node) (n : ℕ) : List (List Char) → Option ℕ
  | [] => some n
  | w :: words =>
    if w = ['.'] then resolve N n words
    else if w = ['.', '.'] then (parentOf N n).bind fun p => resolve N p words
    else (childNamed N n w).bind fun c => resolve N c words

/-- The component is a name. -/
def IsName (w : List Char) : Prop := w ≠ ['.'] ∧ w ≠ ['.', '.']

lemma resolve_names (h : ∀ w ∈ names, IsName w) (n : ℕ) :
    resolve N n names = descend N n names := by
  induction names generalizing n with
  | nil => rfl
  | cons w names ih =>
    obtain ⟨h₁, h₂⟩ := h w List.mem_cons_self
    rw [resolve, if_neg h₁, if_neg h₂, descend]
    congr 1
    funext c
    exact ih (fun w' hw' => h w' (List.mem_cons_of_mem _ hw')) c

/-- `c` is a child of `n`. -/
def IsChild (N : Store Node) (n c : ℕ) : Prop := c ∈ children N n

/-- The nodes form a tree, or several, without mount points and symbolic links. -/
structure Tree (N : Store Node) : Prop where
  depth : ∃ depth : ℕ → ℕ, ∀ n c, IsChild N n c → depth c = depth n + 1
  child : ∀ n c, IsChild N n c → parentOf N c = some n
  parent : ∀ n p, parentOf N n = some p → IsChild N p n
  nodup : ∀ n, (children N n).Nodup
  plain : ∀ n node, N.get n = some node → ¬ node.follows

lemma Tree.get_of_child (h : Tree N) (hc : IsChild N n x) : ∃ node, N.get x = some node := by
  obtain ⟨node, hnode, -⟩ := Option.bind_eq_some_iff.mp (h.child n x hc)
  exact ⟨node, hnode⟩

lemma Tree.child_unique (h : Tree N) (hn : IsChild N n x) (hm : IsChild N m x) : n = m :=
  Option.some.inj ((h.child n x hn).symm.trans (h.child m x hm))

/-- Nothing is below itself. -/
lemma Tree.not_below (h : Tree N) : ¬ Relation.TransGen (IsChild N) n n := by
  obtain ⟨depth, hdepth⟩ := h.depth
  have hlt : ∀ {m}, Relation.TransGen (IsChild N) n m → depth n < depth m := by
    intro m hm
    induction hm with
    | single hc =>
      have := hdepth _ _ hc
      omega
    | tail _ hc ih =>
      have := hdepth _ _ hc
      omega
  exact fun hn => absurd (hlt hn) (by omega)

/-- A node is below one child only. -/
lemma Tree.branch_unique (h : Tree N) (hx : IsChild N p x) (hy : IsChild N p y)
    (hxn : Relation.ReflTransGen (IsChild N) x n) (hyn : Relation.ReflTransGen (IsChild N) y n) :
    x = y := by
  induction hxn with
  | refl =>
    rcases Relation.ReflTransGen.cases_tail hyn with heq | ⟨m, hym, hmx⟩
    · exact heq
    · -- `y` would be below itself
      rw [h.child_unique hmx hx] at hym
      exact absurd (Relation.TransGen.head' hy hym) h.not_below
  | tail hxm hmn ih =>
    rcases Relation.ReflTransGen.cases_tail hyn with heq | ⟨m', hym', hm'n⟩
    · rw [heq] at hmn
      rw [h.child_unique hmn hy] at hxm
      exact absurd (Relation.TransGen.head' hx hxm) h.not_below
    · rw [h.child_unique hm'n hmn] at hym'
      exact ih hym'

lemma childNamed_mem (h : childNamed N n name = some x) : IsChild N n x ∧ Named N name x := by
  refine ⟨List.mem_of_find?_eq_some h, ?_⟩
  simpa using List.find?_some h

/-- A path of names leads below the node where it starts. -/
lemma descend_below (h : descend N n names = some x) : Relation.ReflTransGen (IsChild N) n x := by
  induction names generalizing n with
  | nil =>
    rw [Option.some.inj h]
  | cons name names ih =>
    obtain ⟨c, hc, hx⟩ := Option.bind_eq_some_iff.mp h
    exact .head (childNamed_mem hc).1 (ih hx)

lemma descend_below_strict (hne : names ≠ []) (h : descend N n names = some x) :
    Relation.TransGen (IsChild N) n x := by
  cases names with
  | nil => exact absurd rfl hne
  | cons name names =>
    obtain ⟨c, hc, hx⟩ := Option.bind_eq_some_iff.mp h
    exact .head' (childNamed_mem hc).1 (descend_below hx)

/-! ## Rising paths -/

/-- The path of names leads from `p` to `n`, the nodes on it stand at rising positions among
the children of their parents, the first one not before position `i`, and `n` has no children
behind the last of these positions. -/
def Rising (N : Store Node) (n : ℕ) : ℕ → ℕ → List (List Char) → Prop
  | p, i, [] => p = n ∧ (children N p).length ≤ i
  | p, i, name :: names => ∃ j c, i ≤ j ∧ (children N p)[j]? = some c ∧
      childNamed N p name = some c ∧ Rising N n c (j + 1) names

lemma Rising.mono {i i' : ℕ} (hi : i' ≤ i) (hne : names ≠ []) (h : Rising N n p i names) :
    Rising N n p i' names := by
  cases names with
  | nil => exact absurd rfl hne
  | cons name names =>
    obtain ⟨j, c, hj, hc, hname, hrest⟩ := h
    exact ⟨j, c, by omega, hc, hname, hrest⟩

lemma Rising.descend {i : ℕ} (h : Rising N n p i names) : descend N p names = some n := by
  induction names generalizing p i with
  | nil => rw [Vfs.descend, h.1]
  | cons name names ih =>
    obtain ⟨j, c, -, -, hname, hrest⟩ := h
    rw [Vfs.descend, hname, Option.bind_some]
    exact ih hrest

/-- The names are resolved from the directory `p`: nothing is there to be found, or the path
is rising. -/
def Found (N : Store Node) (p : ℕ) (names : List (List Char)) : Prop :=
  children N p = [] ∨ ∃ n, Rising N n p 0 names

end TurbOS.Vfs
