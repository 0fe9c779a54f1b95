import TurbOS.Vfs.Tree

/-!
# Opening a path

`openNext` calls itself for every component that it has found, and drops what the call
returns: what it returns itself is the child that it looked at last, while it goes on through
the children of the node that it has found, from the position behind that node.  So it finds
a node only along a rising path, and only if that node has no children behind.
-/

open Fuel

namespace TurbOS.Vfs

variable {N : Store Node} {rec : Recursion} {words : List (List Char)} {v v' : FileSystem}
  {c c' : Cursor} {C : Option ℕ} {fuel i items k n p : ℕ} {names : List (List Char)}

/-! ## The loop over the children -/

/-- What one round of the loop does. -/
lemma openChild_eq {node : Node} (hT : Tree N) (hv : v.nodes = N) (hp : N.get p = some node) :
    openChild rec words (i, ⟨some p, C, items, k⟩, v) =
      match (children N p)[i]? with
      | none => some (.inr (⟨some p, C, items, k⟩, v))
      | some x => words[k]?.bind fun w =>
          if Named N w x then
            (rec ⟨some x, some x, decrement items, k + 1⟩ v).map fun r =>
              .inl (i + 1, ⟨some x, some x, decrement items, k + 1⟩, r.2)
          else some (.inl (i + 1, ⟨some p, some x, items, k⟩, v)) := by
  have hchildren : children N p = node.childs.items := by simp [children, hp]
  have hderef : v.deref (some p) = some node := by rw [FileSystem.deref, Option.bind_some, hv, hp]
  rw [openChild]
  dsimp only
  rw [hderef, Option.bind_some, hchildren]
  by_cases hi : i < node.childs.size
  · obtain ⟨x, hx⟩ : ∃ x, node.childs.items[i]? = some x := ⟨_, List.getElem?_eq_getElem hi⟩
    have hmem : IsChild N p x := by
      rw [IsChild, hchildren]
      exact List.mem_of_getElem? hx
    obtain ⟨child, hchild⟩ := hT.get_of_child hmem
    have hderef' : v.deref (some x) = some child := by
      rw [FileSystem.deref, Option.bind_some, hv, hchild]
    rw [if_pos hi, hx, Option.bind_some, hv, hchild, Option.bind_some,
      if_neg (hT.plain x child hchild), hderef', Option.bind_some]
    simp [Named, hchild]
  · rw [if_neg hi, List.getElem?_eq_none (by rw [TurboVector.size] at hi; omega)]

/-- The recursive calls change no node. -/
def Keeps (rec : Recursion) : Prop := ∀ c v r, rec c v = some r → r.2.nodes = v.nodes

/-- One round of a loop that returns: it is the last one, or the next child does not match, or
it does. -/
lemma loop_cases {node : Node} {out : Cursor × FileSystem} (hT : Tree N) (hrec : Keeps rec)
    (hv : v.nodes = N) (hp : N.get p = some node)
    (h : loop (openChild rec words) (fuel + 1) (i, ⟨some p, C, items, k⟩, v) = some out) :
    ((children N p).length ≤ i ∧ out = (⟨some p, C, items, k⟩, v)) ∨
      ∃ x w, (children N p)[i]? = some x ∧ words[k]? = some w ∧
        ((¬ Named N w x ∧ loop (openChild rec words) fuel (i + 1, ⟨some p, some x, items, k⟩, v) =
          some out) ∨
        (Named N w x ∧ ∃ v₁, v₁.nodes = N ∧ loop (openChild rec words) fuel
          (i + 1, ⟨some x, some x, decrement items, k + 1⟩, v₁) = some out)) := by
  rw [loop_succ, openChild_eq hT hv hp] at h
  cases hx : (children N p)[i]? with
  | none =>
    rw [hx] at h
    exact .inl ⟨List.getElem?_eq_none_iff.mp hx, (Option.some.inj h).symm⟩
  | some x =>
    right
    rw [hx] at h
    obtain ⟨r, hr, hloop⟩ := Option.bind_eq_some_iff.mp h
    obtain ⟨w, hw, hr⟩ := Option.bind_eq_some_iff.mp hr
    refine ⟨x, w, rfl, hw, ?_⟩
    split at hr
    · rename_i hname
      obtain ⟨out₁, hout₁, rfl⟩ := Option.map_eq_some_iff.mp hr
      exact .inr ⟨hname, out₁.2, (hrec _ _ _ hout₁).trans hv, hloop⟩
    · rename_i hname
      obtain rfl := Option.some.inj hr
      exact .inl ⟨hname, hloop⟩

/-- What the loop returns is what it was given, or a node below `p`. -/
lemma loop_below {node : Node} {out : Cursor × FileSystem} (hT : Tree N) (hrec : Keeps rec)
    (hv : v.nodes = N) (hp : N.get p = some node)
    (h : loop (openChild rec words) fuel (i, ⟨some p, C, items, k⟩, v) = some out) :
    out.1.childNode = C ∨
      ∃ y, out.1.childNode = some y ∧ Relation.TransGen (IsChild N) p y := by
  induction fuel generalizing i p node C items k v with
  | zero => simp [loop] at h
  | succ fuel ih =>
    rcases loop_cases hT hrec hv hp h with ⟨-, rfl⟩ | ⟨x, w, hx, -, hcase⟩
    · exact .inl rfl
    · right
      have hchild : IsChild N p x := List.mem_of_getElem? hx
      obtain ⟨xnode, hxnode⟩ := hT.get_of_child hchild
      rcases hcase with ⟨-, hloop⟩ | ⟨-, v₁, hv₁, hloop⟩
      · rcases ih hv hp hloop with heq | hbelow
        · exact ⟨x, heq, .single hchild⟩
        · exact hbelow
      · rcases ih hv₁ hxnode hloop with heq | ⟨y, hy, hbelow⟩
        · exact ⟨x, heq, .single hchild⟩
        · exact ⟨y, hy, .head hchild hbelow⟩

/-- As soon as there is a child to look at, the loop returns a node below `p`. -/
lemma loop_below_of_lt {node : Node} {out : Cursor × FileSystem} (hT : Tree N) (hrec : Keeps rec)
    (hv : v.nodes = N) (hp : N.get p = some node) (hi : i < (children N p).length)
    (h : loop (openChild rec words) fuel (i, ⟨some p, C, items, k⟩, v) = some out) :
    ∃ y, out.1.childNode = some y ∧ Relation.TransGen (IsChild N) p y := by
  cases fuel with
  | zero => simp [loop] at h
  | succ fuel =>
    rcases loop_cases hT hrec hv hp h with ⟨hle, -⟩ | ⟨x, w, hx, -, hcase⟩
    · omega
    · have hchild : IsChild N p x := List.mem_of_getElem? hx
      obtain ⟨xnode, hxnode⟩ := hT.get_of_child hchild
      rcases hcase with ⟨-, hloop⟩ | ⟨-, v₁, hv₁, hloop⟩
      · rcases loop_below hT hrec hv hp hloop with heq | hbelow
        · exact ⟨x, heq, .single hchild⟩
        · exact hbelow
      · rcases loop_below hT hrec hv₁ hxnode hloop with heq | ⟨y, hy, hbelow⟩
        · exact ⟨x, heq, .single hchild⟩
        · exact ⟨y, hy, .head hchild hbelow⟩

/-- The words of the path from position `k` on begin with the names. -/
def Ahead (words : List (List Char)) (k : ℕ) (names : List (List Char)) : Prop :=
  ∀ j, j < names.length → words[k + j]? = names[j]?

lemma Ahead.head {w : List Char} (h : Ahead words k (w :: names)) : words[k]? = some w := by
  simpa using h 0 (by simp)

lemma Ahead.tail {w : List Char} (h : Ahead words k (w :: names)) : Ahead words (k + 1) names := by
  intro j hj
  have := h (j + 1) (by simpa using hj)
  rw [show k + 1 + j = k + (j + 1) by omega, this]
  simp

/-- The loop finds the node at the end of a path of names only if the path is rising. -/
lemma rising_of_loop {node : Node} {out : Cursor × FileSystem} {w : List Char} (hT : Tree N)
    (hrec : Keeps rec) (hv : v.nodes = N) (hp : N.get p = some node)
    (hwords : Ahead words k (w :: names))
    (hn : descend N p (w :: names) = some n) (hC : C ≠ some n)
    (h : loop (openChild rec words) fuel (i, ⟨some p, C, items, k⟩, v) = some out)
    (hout : out.1.childNode = some n) : Rising N n p i (w :: names) := by
  induction fuel generalizing i p node C items k v w names with
  | zero => simp [loop] at h
  | succ fuel ih =>
    obtain ⟨q, hq, hqn⟩ := Option.bind_eq_some_iff.mp hn
    obtain ⟨hqchild, hqname⟩ := childNamed_mem hq
    rcases loop_cases hT hrec hv hp h with ⟨-, rfl⟩ | ⟨x, w', hx, hw', hcase⟩
    · exact absurd hout hC
    · have hchild : IsChild N p x := List.mem_of_getElem? hx
      obtain ⟨xnode, hxnode⟩ := hT.get_of_child hchild
      have hww' : w' = w := Option.some.inj (hw'.symm.trans hwords.head)
      rw [hww'] at hcase
      rcases hcase with ⟨hnot, hloop⟩ | ⟨hname, v₁, hv₁, hloop⟩
      · -- another child: it is not the node, which has the name
        have hxn : x ≠ n := by
          rintro rfl
          rw [hT.branch_unique hqchild hchild (descend_below hqn) .refl] at hqname
          exact hnot hqname
        exact (ih hv hp hwords hn (by simpa using hxn) hloop).mono (by omega) (by simp)
      · -- a child with the name: it is the first one, since the node is below it
        have hxn : Relation.ReflTransGen (IsChild N) x n := by
          rcases loop_below hT hrec hv₁ hxnode hloop with heq | ⟨y, hy, hbelow⟩
          · rw [hout] at heq
            rw [Option.some.inj heq]
          · rw [hout] at hy
            rw [Option.some.inj hy]
            exact hbelow.to_reflTransGen
        have hxq : x = q := hT.branch_unique hchild hqchild hxn (descend_below hqn)
        subst hxq
        refine ⟨i, x, le_rfl, hx, hq, ?_⟩
        cases names with
        | nil =>
          obtain rfl := Option.some.inj hqn
          refine ⟨rfl, ?_⟩
          by_contra hlt
          obtain ⟨y, hy, hbelow⟩ := loop_below_of_lt hT hrec hv₁ hxnode (by omega) hloop
          rw [hout] at hy
          rw [← Option.some.inj hy] at hbelow
          exact hT.not_below hbelow
        | cons w₁ names =>
          have hne : x ≠ n := by
            rintro rfl
            exact hT.not_below (descend_below_strict (by simp) hqn)
          exact ih hv₁ hxnode hwords.tail hqn (by simpa using hne) hloop

/-! ## Along a rising path -/

/-- In front of the first child with a name there is none. -/
lemma not_named_before {x y j : ℕ} {w : List Char} (hT : Tree N) (hj : (children N p)[j]? = some y)
    (hy : childNamed N p w = some y) (hi : i < j) (hx : (children N p)[i]? = some x) :
    ¬ Named N w x := by
  obtain ⟨-, as, bs, hlist, hbefore⟩ := List.find?_eq_some_iff_append.mp hy
  have hlen : as.length = j := by
    have hlt : as.length < (children N p).length := by simp [hlist]
    have hat : (children N p)[as.length]? = some y := by simp [hlist]
    exact (List.getElem?_inj hlt (hT.nodup p)).mp (hat.trans hj.symm)
  have hmem : x ∈ as := by
    rw [hlist, List.getElem?_append_left (by omega)] at hx
    exact List.mem_of_getElem? hx
  simpa using hbefore x hmem

/-- The loop passes the children in front of the one that matches. -/
lemma loop_skip {y d : ℕ} {node : Node} {w : List Char} (hT : Tree N) (hv : v.nodes = N)
    (hp : N.get p = some node) (hw : words[k]? = some w)
    (hj : (children N p)[i + d]? = some y) (hy : childNamed N p w = some y) (C : Option ℕ) :
    ∃ C', loop (openChild rec words) (fuel + d) (i, ⟨some p, C, items, k⟩, v) =
      loop (openChild rec words) fuel (i + d, ⟨some p, C', items, k⟩, v) := by
  induction d generalizing i C with
  | zero => exact ⟨C, rfl⟩
  | succ d ih =>
    have hlt : i < (children N p).length := by
      have := (List.getElem?_eq_some_iff.mp hj).1
      omega
    obtain ⟨x, hx⟩ : ∃ x, (children N p)[i]? = some x := ⟨_, List.getElem?_eq_getElem hlt⟩
    have hnot := not_named_before hT hj hy (by omega) hx
    rw [show i + (d + 1) = i + 1 + d by omega] at hj ⊢
    obtain ⟨C', hC'⟩ := ih hj (some x)
    refine ⟨C', ?_⟩
    rw [← hC', show fuel + (d + 1) = fuel + d + 1 by omega, loop_succ, openChild_eq hT hv hp, hx]
    simp [hw, hnot]

/-- The parts of `openNext` in front of the loop do nothing on a name. -/
lemma openNext_name {node : Node} {w : List Char} (hT : Tree N) (hv : v.nodes = N)
    (hp : N.get p = some node) (hw : words[k]? = some w) (hname : IsName w) (hitems : 0 < items) :
    openNext words (fuel + 1) ⟨some p, C, items, k⟩ v =
      (openChilds (openNext words fuel) words fuel ⟨some p, C, items, k⟩ v).map fun r =>
        (r.1.childNode, r.2.unlock.unlock) := by
  have hderef : v.deref (some p) = some node := by rw [FileSystem.deref, Option.bind_some, hv, hp]
  rw [openNext, if_pos hitems, followNode, hderef, Option.bind_some, if_neg (hT.plain p node hp),
    Option.bind_some]
  simp only [openDotDot, openDot, hw, Option.bind_some, if_neg hname.1, if_neg hname.2]

/-! ## What every call keeps -/

/-- The recursive calls keep a property of the file system. -/
def Preserves (P : FileSystem → Prop) (rec : Recursion) : Prop :=
  ∀ c v r, P v → rec c v = some r → P r.2

section Preserves

variable {P : FileSystem → Prop} {r : Cursor × FileSystem}

lemma Preserves.followNode (hrec : Preserves P rec) (hv : P v) (h : followNode rec c v = some r) :
    P r.2 := by
  obtain ⟨node, -, h⟩ := Option.bind_eq_some_iff.mp h
  split at h
  · obtain ⟨out, hout, rfl⟩ := Option.map_eq_some_iff.mp h
    exact hrec _ _ _ hv hout
  · rw [← Option.some.inj h]
    exact hv

lemma Preserves.openDotDot (hrec : Preserves P rec) (hv : P v)
    (h : openDotDot rec words c v = some r) : P r.2 := by
  obtain ⟨word, -, h⟩ := Option.bind_eq_some_iff.mp h
  split at h
  · obtain ⟨node, -, h⟩ := Option.bind_eq_some_iff.mp h
    obtain ⟨out, hout, rfl⟩ := Option.map_eq_some_iff.mp h
    exact hrec _ _ _ hv hout
  · rw [← Option.some.inj h]
    exact hv

lemma Preserves.openDot (hrec : Preserves P rec) (hv : P v) (h : openDot rec words c v = some r) :
    P r.2 := by
  obtain ⟨word, -, h⟩ := Option.bind_eq_some_iff.mp h
  split at h
  · obtain ⟨out, hout, rfl⟩ := Option.map_eq_some_iff.mp h
    exact hrec _ _ _ hv hout
  · rw [← Option.some.inj h]
    exact hv

/-- The loop over the children: every round keeps what its call keeps. -/
lemma Preserves.openChilds (hrec : Preserves P rec) (hv : P v)
    (h : openChilds rec words fuel c v = some r) : P r.2 := by
  refine loop_post (fun x : ℕ × Cursor × FileSystem => P x.2.2)
    (Q := fun out : Cursor × FileSystem => P out.2) ?_ hv h
  rintro ⟨i, c, v⟩ out hv hbody
  obtain ⟨parentNode, -, hbody⟩ := Option.bind_eq_some_iff.mp hbody
  split at hbody
  · obtain ⟨child, -, hbody⟩ := Option.bind_eq_some_iff.mp hbody
    obtain ⟨node, -, hbody⟩ := Option.bind_eq_some_iff.mp hbody
    obtain ⟨target, -, hbody⟩ := Option.bind_eq_some_iff.mp hbody
    obtain ⟨word, -, hbody⟩ := Option.bind_eq_some_iff.mp hbody
    split at hbody
    · obtain ⟨res, hres, rfl⟩ := Option.map_eq_some_iff.mp hbody
      exact hrec _ _ _ hv hres
    · rw [← Option.some.inj hbody]
      exact hv
  · rw [← Option.some.inj hbody]
    exact hv

end Preserves

/-- The parts of a call with a component left, one after another. -/
lemma openNext_cases {r : Option ℕ × FileSystem} (hitems : 0 < c.items)
    (h : openNext words (fuel + 1) c v = some r) :
    ∃ c₁ v₁ c₂ v₂ c₃ v₃ c₄ v₄, followNode (openNext words fuel) c v = some (c₁, v₁) ∧
      openDotDot (openNext words fuel) words c₁ v₁ = some (c₂, v₂) ∧
      openDot (openNext words fuel) words c₂ v₂ = some (c₃, v₃) ∧
      openChilds (openNext words fuel) words fuel c₃ v₃ = some (c₄, v₄) ∧
      r = (c₄.childNode, v₄.unlock.unlock) := by
  rw [openNext, if_pos hitems] at h
  obtain ⟨⟨c₁, v₁⟩, h₁, h⟩ := Option.bind_eq_some_iff.mp h
  obtain ⟨⟨c₂, v₂⟩, h₂, h⟩ := Option.bind_eq_some_iff.mp h
  obtain ⟨⟨c₃, v₃⟩, h₃, h⟩ := Option.bind_eq_some_iff.mp h
  obtain ⟨⟨c₄, v₄⟩, h₄, rfl⟩ := Option.map_eq_some_iff.mp h
  exact ⟨c₁, v₁, c₂, v₂, c₃, v₃, c₄, v₄, h₁, h₂, h₃, h₄, rfl⟩

/-- At the end of such a call the lock is given back twice. -/
lemma Preserves.openNext_succ {P : FileSystem → Prop} {r : Option ℕ × FileSystem}
    (hrec : Preserves P (openNext words fuel)) (hv : P v) (hitems : 0 < c.items)
    (h : openNext words (fuel + 1) c v = some r) : ∃ v', P v' ∧ r.2 = v'.unlock.unlock := by
  obtain ⟨c₁, v₁, c₂, v₂, c₃, v₃, c₄, v₄, h₁, h₂, h₃, h₄, rfl⟩ := openNext_cases hitems h
  have hv₁ : P v₁ := hrec.followNode hv h₁
  have hv₂ : P v₂ := hrec.openDotDot hv₁ h₂
  have hv₃ : P v₃ := hrec.openDot hv₂ h₃
  exact ⟨v₄, hrec.openChilds hv₃ h₄, rfl⟩

/-- What holds of every call: of one without components, and of one whose own calls have it. -/
lemma openNext_results {Q : Cursor → FileSystem → Option ℕ × FileSystem → Prop}
    (hdone : ∀ c v, Q c v (c.childNode, v.unlock))
    (hnext : ∀ fuel, (∀ c v r, openNext words fuel c v = some r → Q c v r) →
      ∀ c v r, 0 < c.items → openNext words (fuel + 1) c v = some r → Q c v r) (fuel : ℕ) :
    ∀ c v r, openNext words fuel c v = some r → Q c v r := by
  induction fuel with
  | zero =>
    intro c v r h
    simp [openNext] at h
  | succ fuel ih =>
    intro c v r h
    by_cases hitems : 0 < c.items
    · exact hnext fuel ih c v r hitems h
    · rw [openNext, if_neg hitems] at h
      rw [← Option.some.inj h]
      exact hdone c v

/-- `openNext` does nothing to the file system but to give the lock back. -/
lemma openNext_inv {P : FileSystem → Prop} (hP : ∀ v, P v → P v.unlock) (words : List (List Char))
    (fuel : ℕ) : Preserves P (openNext words fuel) := by
  have hresults : ∀ c v r, openNext words fuel c v = some r → P v → P r.2 := by
    refine openNext_results (fun _ v hv => hP v hv) (fun fuel ih c v r hitems h hv => ?_) fuel
    have hrec : Preserves P (openNext words fuel) := fun c v r hv h => ih c v r h hv
    obtain ⟨v', hv', heq⟩ := hrec.openNext_succ hv hitems h
    rw [heq]
    exact hP _ (hP _ hv')
  exact fun c v r hv h => hresults c v r h hv

/-- Every recursive call keeps the nodes. -/
lemma openNext_keeps (words : List (List Char)) (fuel : ℕ) : Keeps (openNext words fuel) :=
  fun c v r h =>
    openNext_inv (P := fun v' => v'.nodes = v.nodes) (fun _ => id) words fuel c v r rfl h

/-- With enough fuel the loop returns the given node. -/
def LoopGives (N : Store Node) (words : List (List Char)) (E : Option ℕ) (i : ℕ) (c : Cursor) :
    Prop :=
  ∃ F, ∀ f ≥ F, ∀ fuel ≥ F, ∀ v : FileSystem, v.nodes = N →
    ∃ out, loop (openChild (openNext words f) words) fuel (i, c, v) = some out ∧
      out.1.childNode = E

/-- With enough fuel the recursive call returns. -/
def CallReturns (N : Store Node) (words : List (List Char)) (c : Cursor) : Prop :=
  ∃ F, ∀ f ≥ F, ∀ v : FileSystem, v.nodes = N → ∃ r, openNext words f c v = some r

lemma callReturns_zero (N : Store Node) (words : List (List Char)) (P C : Option ℕ) (k : ℕ) :
    CallReturns N words ⟨P, C, 0, k⟩ := by
  refine ⟨1, fun f hf v _ => ?_⟩
  obtain ⟨f, rfl⟩ : ∃ f', f = f' + 1 := ⟨f - 1, by omega⟩
  exact ⟨_, by simp [openNext]; rfl⟩

/-- A call on names returns if its loop does. -/
lemma LoopGives.callReturns {node : Node} {w : List Char} {E : Option ℕ} (hT : Tree N)
    (hp : N.get p = some node) (hw : words[k]? = some w) (hname : IsName w) (hitems : 0 < items)
    (h : LoopGives N words E 0 ⟨some p, C, items, k⟩) :
    CallReturns N words ⟨some p, C, items, k⟩ := by
  obtain ⟨F, hF⟩ := h
  refine ⟨F + 1, fun f hf v hv => ?_⟩
  obtain ⟨f, rfl⟩ : ∃ f', f = f' + 1 := ⟨f - 1, by omega⟩
  obtain ⟨out, hout, -⟩ := hF f (by omega) f (by omega) v hv
  rw [openNext_name hT hv hp hw hname hitems, openChilds, hout]
  exact ⟨_, rfl⟩

/-- The loop follows a rising path to its end. -/
lemma loopGives_of_rising {node : Node} (hT : Tree N) (hp : N.get p = some node)
    (hnames : ∀ w ∈ names, IsName w) (hwords : Ahead words k names)
    (hC : names = [] → C = some n) (h : Rising N n p i names) :
    LoopGives N words (some n) i ⟨some p, C, names.length, k⟩ := by
  induction names generalizing i p node k C with
  | nil =>
    obtain ⟨rfl, hlen⟩ := h
    refine ⟨1, fun f _ fuel hfuel v hv => ?_⟩
    obtain ⟨fuel, rfl⟩ : ∃ f', fuel = f' + 1 := ⟨fuel - 1, by omega⟩
    refine ⟨(⟨some p, C, 0, k⟩, v), ?_, hC rfl⟩
    rw [loop_succ, List.length_nil, openChild_eq hT hv hp, List.getElem?_eq_none hlen]
    rfl
  | cons w names ih =>
    obtain ⟨j, q, hij, hj, hq, hrest⟩ := h
    obtain ⟨hqchild, hqname⟩ := childNamed_mem hq
    obtain ⟨qnode, hqnode⟩ := hT.get_of_child hqchild
    have hnames' : ∀ w ∈ names, IsName w := fun w' hw' => hnames w' (List.mem_cons_of_mem _ hw')
    have hdec : decrement (w :: names).length = names.length := by simp [decrement]
    -- the recursive call, whose result is dropped
    have hcall : CallReturns N words ⟨some q, some q, names.length, k + 1⟩ := by
      cases names with
      | nil => exact callReturns_zero N words _ _ _
      | cons w' names =>
        refine LoopGives.callReturns hT hqnode hwords.tail.head (hnames' w' List.mem_cons_self)
          (by simp) (ih hqnode hnames' hwords.tail (by simp) (hrest.mono (by omega) (by simp)))
    have hloop : LoopGives N words (some n) (j + 1) ⟨some q, some q, names.length, k + 1⟩ := by
      refine ih hqnode hnames' hwords.tail ?_ hrest
      rintro rfl
      rw [hrest.1]
    obtain ⟨F₁, hF₁⟩ := hcall
    obtain ⟨F₂, hF₂⟩ := hloop
    obtain ⟨d, rfl⟩ : ∃ d, j = i + d := ⟨j - i, by omega⟩
    refine ⟨max F₁ F₂ + 1 + d, fun f hf fuel hfuel v hv => ?_⟩
    obtain ⟨m, rfl⟩ : ∃ m, fuel = m + 1 + d := ⟨fuel - 1 - d, by omega⟩
    obtain ⟨r, hr⟩ := hF₁ f (by omega) v hv
    have hrv : r.2.nodes = N := (openNext_keeps words f _ _ _ hr).trans hv
    obtain ⟨out, hout, hfound⟩ := hF₂ f (by omega) m (by omega) r.2 hrv
    have hskip : ∃ C', loop (openChild (openNext words f) words) (m + 1 + d)
        (i, ⟨some p, C, (w :: names).length, k⟩, v) =
        loop (openChild (openNext words f) words) (m + 1)
          (i + d, ⟨some p, C', (w :: names).length, k⟩, v) :=
      loop_skip hT hv hp hwords.head hj hq C
    obtain ⟨C', hskip⟩ := hskip
    refine ⟨out, ?_, hfound⟩
    rw [hskip, loop_succ, openChild_eq hT hv hp, hj]
    simp only [hwords.head, Option.bind_some, if_pos hqname, hdec, hr, Option.map_some,
      Sum.elim_inl]
    exact hout

/-! ## Names -/

lemma descend_of_no_children {w : List Char} (h : children N p = []) :
    descend N p (w :: names) = none := by
  rw [descend, childNamed, h]
  rfl

/-- If the loop over names returns what the names mean, they are found. -/
lemma found_of_loop {node : Node} {out : Cursor × FileSystem} (hT : Tree N) (hrec : Keeps rec)
    (hv : v.nodes = N) (hp : N.get p = some node) (hne : names ≠ [])
    (hwords : Ahead words k names)
    (h : openChilds rec words fuel ⟨some p, none, items, k⟩ v = some out)
    (hout : out.1.childNode = descend N p names) : Found N p names := by
  by_cases hchildren : children N p = []
  · exact .inl hchildren
  · obtain ⟨y, hy, -⟩ := loop_below_of_lt hT hrec hv hp (List.length_pos_iff.mpr hchildren) h
    obtain ⟨w, rest, rfl⟩ := List.exists_cons_of_ne_nil hne
    rw [hy] at hout
    exact .inr ⟨y, rising_of_loop hT hrec hv hp hwords hout.symm (by simp) h hy⟩

/-- A loop that has no children to look at returns what it was given. -/
lemma loopGives_of_no_children {node : Node} (hT : Tree N) (hp : N.get p = some node)
    (h : children N p = []) : LoopGives N words C 0 ⟨some p, C, items, k⟩ := by
  refine ⟨1, fun f _ fuel hfuel v hv => ⟨(⟨some p, C, items, k⟩, v), ?_, rfl⟩⟩
  obtain ⟨fuel, rfl⟩ : ∃ f', fuel = f' + 1 := ⟨fuel - 1, by omega⟩
  rw [loop_succ, openChild_eq hT hv hp, h]
  rfl

/-- If the names are found, the loop returns what they mean. -/
lemma loopGives_of_found {node : Node} (hT : Tree N) (hp : N.get p = some node) (hne : names ≠ [])
    (hnames : ∀ w ∈ names, IsName w) (hwords : Ahead words k names) (h : Found N p names) :
    LoopGives N words (descend N p names) 0 ⟨some p, none, names.length, k⟩ := by
  rcases h with hchildren | ⟨n, hrising⟩
  · obtain ⟨w, rest, rfl⟩ := List.exists_cons_of_ne_nil hne
    rw [descend_of_no_children hchildren]
    exact loopGives_of_no_children hT hp hchildren
  · rw [hrising.descend]
    exact loopGives_of_rising hT hp hnames hwords (fun h => absurd h hne) hrising

/-! ## Dots in front -/

/-- `..`, if `up` is set, and `.`, if `stay` is. -/
def front (up stay : Bool) : List (List Char) :=
  (if up then [['.', '.']] else []) ++ if stay then [['.']] else []

/-- When `open` returns what the path means, for a path of at most one `..`, at most one `.`,
and names: the names are found from the directory, or from its parent; and if there are no
names, the directory has no children, and a path `..` ends in a slash. -/
def Opens (N : Store Node) (start : ℕ) (trail up stay : Bool) (names : List (List Char)) : Prop :=
  (names = [] ∧ children N start = [] ∧ ¬ (up ∧ stay) ∧ (up → trail)) ∨
    (names ≠ [] ∧ ∃ p, (if up then parentOf N start else some start) = some p ∧ Found N p names)

/-- The part of `openNext` behind `openDotDot`. -/
def openRest (rec : Recursion) (words : List (List Char)) (fuel : ℕ) (c : Cursor)
    (v : FileSystem) : Option (Cursor × FileSystem) :=
  (openDot rec words c v).bind fun r => openChilds rec words fuel r.1 r.2

lemma openNext_eq {node : Node} (hT : Tree N) (hv : v.nodes = N) (hp : N.get p = some node)
    (hitems : 0 < items) :
    openNext words (fuel + 1) ⟨some p, C, items, k⟩ v =
      (openDotDot (openNext words fuel) words ⟨some p, C, items, k⟩ v).bind fun r =>
        (openRest (openNext words fuel) words fuel r.1 r.2).map fun r =>
          (r.1.childNode, r.2.unlock.unlock) := by
  have hderef : v.deref (some p) = some node := by rw [FileSystem.deref, Option.bind_some, hv, hp]
  rw [openNext, if_pos hitems, followNode, hderef, Option.bind_some, if_neg (hT.plain p node hp),
    Option.bind_some]
  simp only [openRest, Option.map_bind]
  rfl

/-- With enough fuel the part behind `openDotDot` returns the given node. -/
def RestGives (N : Store Node) (words : List (List Char)) (E : Option ℕ) (c : Cursor) : Prop :=
  ∃ F, ∀ f ≥ F, ∀ fuel ≥ F, ∀ v : FileSystem, v.nodes = N →
    ∃ out, openRest (openNext words f) words fuel c v = some out ∧ out.1.childNode = E

/-- On a component other than `.` there is the loop only. -/
lemma openRest_other {w : List Char} (hw : words[c.cleared]? = some w) (hdot : w ≠ ['.']) :
    openRest rec words fuel c v = openChilds rec words fuel c v := by
  rw [openRest, openDot, hw, Option.bind_some, if_neg hdot, Option.bind_some]

/-- On a component `.` there is a recursive call and the loop. -/
lemma openRest_dot (hw : words[k]? = some ['.']) :
    openRest rec words fuel ⟨some p, C, items, k⟩ v =
      (rec ⟨some p, if items ≤ 1 then some p else C, decrement items, k + 1⟩ v).bind fun r =>
        openChilds rec words fuel
          ⟨some p, if items ≤ 1 then some p else C, decrement items, k + 1⟩ r.2 := by
  rw [openRest, openDot]
  dsimp only
  rw [hw, Option.bind_some, if_pos rfl, Option.bind_map]
  split <;> rfl

lemma LoopGives.restGives {w : List Char} {E : Option ℕ} (hw : words[c.cleared]? = some w)
    (hdot : w ≠ ['.']) (h : LoopGives N words E 0 c) : RestGives N words E c := by
  obtain ⟨F, hF⟩ := h
  refine ⟨F, fun f hf fuel hfuel v hv => ?_⟩
  rw [openRest_other hw hdot]
  exact hF f hf fuel hfuel v hv

lemma LoopGives.restGives_dot {E : Option ℕ} (hw : words[k]? = some ['.'])
    (hcall : CallReturns N words
      ⟨some p, if items ≤ 1 then some p else C, decrement items, k + 1⟩)
    (h : LoopGives N words E 0 ⟨some p, if items ≤ 1 then some p else C, decrement items, k + 1⟩) :
    RestGives N words E ⟨some p, C, items, k⟩ := by
  obtain ⟨F₁, hF₁⟩ := hcall
  obtain ⟨F₂, hF₂⟩ := h
  refine ⟨max F₁ F₂, fun f hf fuel hfuel v hv => ?_⟩
  obtain ⟨r, hr⟩ := hF₁ f (by omega) v hv
  rw [openRest_dot hw, hr, Option.bind_some]
  exact hF₂ f (by omega) fuel (by omega) r.2 ((openNext_keeps words f _ _ _ hr).trans hv)

/-- A call on a component other than `..` returns if what is behind `openDotDot` does. -/
lemma RestGives.callReturns {node : Node} {w : List Char} {E : Option ℕ} (hT : Tree N)
    (hp : N.get p = some node) (hw : words[k]? = some w) (hdots : w ≠ ['.', '.'])
    (hitems : 0 < items) (h : RestGives N words E ⟨some p, C, items, k⟩) :
    CallReturns N words ⟨some p, C, items, k⟩ := by
  obtain ⟨F, hF⟩ := h
  refine ⟨F + 1, fun f hf v hv => ?_⟩
  obtain ⟨f, rfl⟩ : ∃ f', f = f' + 1 := ⟨f - 1, by omega⟩
  obtain ⟨out, hout, -⟩ := hF f (by omega) f (by omega) v hv
  rw [openNext_eq hT hv hp hitems, openDotDot]
  dsimp only
  rw [hw, Option.bind_some, if_neg hdots, Option.bind_some, hout]
  exact ⟨_, rfl⟩

/-- Names behind an optional `.`: if they are found, what they mean is returned. -/
lemma restGives_of_found {node : Node} (hT : Tree N) (hp : N.get p = some node) (stay : Bool)
    (hne : names ≠ []) (hnames : ∀ w ∈ names, IsName w)
    (hwords : Ahead words k (front false stay ++ names)) (h : Found N p names) :
    RestGives N words (descend N p names)
      ⟨some p, none, (front false stay ++ names).length, k⟩ := by
  obtain ⟨w, rest, rfl⟩ := List.exists_cons_of_ne_nil hne
  have hw : IsName w := hnames w List.mem_cons_self
  cases stay with
  | false =>
    have hwords : Ahead words k (w :: rest) := hwords
    exact LoopGives.restGives hwords.head hw.1 (loopGives_of_found hT hp hne hnames hwords h)
  | true =>
    have hwords : Ahead words k (['.'] :: w :: rest) := hwords
    have hloop := loopGives_of_found hT hp hne hnames hwords.tail h
    have hcall := LoopGives.callReturns hT hp hwords.tail.head hw (by simp) hloop
    have hrest : RestGives N words (descend N p (w :: rest))
        ⟨some p, none, (w :: rest).length + 1, k⟩ := LoopGives.restGives_dot hwords.head hcall hloop
    exact hrest

/-- Names behind an optional `.`: if what they mean is returned, they are found. -/
lemma found_of_rest {node : Node} {out : Cursor × FileSystem} (hT : Tree N) (hrec : Keeps rec)
    (hv : v.nodes = N) (hp : N.get p = some node) (stay : Bool) (hne : names ≠ [])
    (hnames : ∀ w ∈ names, IsName w) (hwords : Ahead words k (front false stay ++ names))
    (h : openRest rec words fuel ⟨some p, none, (front false stay ++ names).length, k⟩ v = some out)
    (hout : out.1.childNode = descend N p names) : Found N p names := by
  obtain ⟨w, rest, rfl⟩ := List.exists_cons_of_ne_nil hne
  have hw : IsName w := hnames w List.mem_cons_self
  cases stay with
  | false =>
    have hwords : Ahead words k (w :: rest) := hwords
    rw [openRest_other hwords.head hw.1] at h
    exact found_of_loop hT hrec hv hp hne hwords h hout
  | true =>
    have hwords : Ahead words k (['.'] :: w :: rest) := hwords
    rw [openRest_dot hwords.head] at h
    obtain ⟨r, hr, h⟩ := Option.bind_eq_some_iff.mp h
    have hlen : ¬ (front false true ++ w :: rest).length ≤ 1 := by simp [front]
    rw [if_neg hlen] at h
    exact found_of_loop hT hrec ((hrec _ _ _ hr).trans hv) hp hne hwords.tail h hout

end TurbOS.Vfs
