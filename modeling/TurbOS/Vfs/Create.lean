import TurbOS.Vfs.NameMap
import TurbOS.Vfs.Resolve

/-!
# Creating a path

`createNext` calls itself for a component that exists, and then goes on as if it did not: at
its end it always adds a child.  So no call of `create` leaves the tree as it was, whether
the path exists or not; and only for a path of one component that does not exist it does what
it is for.
-/

namespace TurbOS.Vfs

variable {v v' : FileSystem} {g : ℕ → Garbage} {words comps : List (List Char)} {c : Cursor}
  {rec : Recursion} {fuel : ℕ} {trail : Bool} {parent : Option ℕ}

/-- A node takes the place of the directory, or of the result if it is the last one. -/
def Cursor.advance (c : Cursor) (node : Option ℕ) : Cursor :=
  if c.items > 1 then { c with parentNode := node } else { c with childNode := node }

/-- The next component. -/
def Cursor.next (c : Cursor) : Cursor :=
  { c with cleared := c.cleared + 1, items := decrement c.items }

/-- The part of `createNext` for a component that exists. -/
def createFound (rec : Recursion) (pathArray : List (List Char)) (c : Cursor) (v : FileSystem) :
    Option (Cursor × FileSystem) :=
  pathArray[c.cleared]?.bind fun word => (getChild c.parentNode word v).bind fun temp =>
    match temp with
    | some temp =>
      let c := (c.advance (some temp)).next
      (rec c v).map fun r => (c, r.2)
    | none => some (c, v)

/-- The parts of `createNext` for the components `..` and `.`: both go to the parent. -/
def createParent (rec : Recursion) (dots : List Char) (pathArray : List (List Char)) (c : Cursor)
    (v : FileSystem) : Option (Cursor × FileSystem) :=
  pathArray[c.cleared]?.bind fun word =>
    if word = dots then
      (v.deref c.parentNode).bind fun node =>
        let c := (c.advance node.parent).next
        (rec c v).map fun r => (c, r.2)
    else some (c, v)

/-- The part of `createNext` that adds a child. -/
def createChild (g : ℕ → Garbage) (pathArray : List (List Char)) (c : Cursor) (v : FileSystem) :
    Option (Cursor × FileSystem) :=
  pathArray[c.cleared]?.bind fun word =>
    (addChild (g v.nodes.next) c.parentNode word v).map fun r => ((c.advance (some r.1)).next, r.2)

/-- `createNext`. -/
def createNext (g : ℕ → Garbage) (pathArray : List (List Char)) : ℕ → Recursion
  | 0, _, _ => none
  | fuel + 1, c, v =>
    if c.items > 0 then
      (createFound (createNext g pathArray fuel) pathArray c v).bind fun (c, v) =>
        (createParent (createNext g pathArray fuel) ['.', '.'] pathArray c v).bind fun (c, v) =>
          (createParent (createNext g pathArray fuel) ['.'] pathArray c v).bind fun (c, v) =>
            (createChild g pathArray c v).map fun (c, v) => (c.childNode, v.unlock)
    else some (c.childNode, v.unlock)

/-- `create`; `ok` says whether the allocation in `strsplit_count` succeeds. -/
def vfsCreate (g : ℕ → Garbage) (fuel : ℕ) (ok : Bool) (parent : Option ℕ)
    (path : Option (List Char)) (v : FileSystem) : Option (Option ℕ × FileSystem) :=
  if parent = none ∨ parent = v.tfs_root then
    path.bind fun p =>
      if p = ['/'] then (v.deref v.tfs_root).map fun root => (root.ptr, v)
      else createLocked p
  else
    match path with
    | none => if v.locked then none else some (none, v.lock.unlock)
    | some p => createLocked p
where
  /-- The part after the test for the root, for a path that is not null. -/
  createLocked (path : List Char) : Option (Option ℕ × FileSystem) :=
    if v.locked then none
    else
      let v := v.lock
      if ' ' ∈ path then some (none, v.unlock)
      else
        (match parent with
          | none => (v.deref v.tfs_root).map Node.ptr
          | some p => some (some p)).bind fun parentNode =>
          if parentNode = none then some (none, v.unlock)
          else
            (Str.strsplit_count fuel ok path ['/']).bind fun pathArray =>
              match pathArray with
              | none => some (none, v)
              | some pathArray =>
                (stripFront pathArray).bind fun pathArray =>
                  (stripBack pathArray pathArray.length).bind fun items =>
                    createNext g pathArray fuel ⟨parentNode, none, items, 0⟩ v

/-! ## A node is always added -/

lemma addChild_next {name : List Char} {g : Garbage} {r : ℕ × FileSystem}
    (h : addChild g parent name v = some r) : r.2.nodes.next = v.nodes.next + 1 := by
  obtain ⟨p, -, h⟩ := Option.bind_eq_some_iff.mp h
  obtain ⟨parentNode, -, h⟩ := Option.bind_eq_some_iff.mp h
  split at h
  · obtain ⟨node, -, rfl⟩ := Option.map_eq_some_iff.mp h
    rfl
  · simp at h

/-- The parts of a call with a component left, one after another. -/
lemma createNext_cases {r : Option ℕ × FileSystem} (hitems : 0 < c.items)
    (h : createNext g words (fuel + 1) c v = some r) :
    ∃ c₁ v₁ c₂ v₂ c₃ v₃ c₄ v₄, createFound (createNext g words fuel) words c v = some (c₁, v₁) ∧
      createParent (createNext g words fuel) ['.', '.'] words c₁ v₁ = some (c₂, v₂) ∧
      createParent (createNext g words fuel) ['.'] words c₂ v₂ = some (c₃, v₃) ∧
      createChild g words c₃ v₃ = some (c₄, v₄) ∧ r = (c₄.childNode, v₄.unlock) := by
  rw [createNext, if_pos hitems] at h
  obtain ⟨⟨c₁, v₁⟩, h₁, h⟩ := Option.bind_eq_some_iff.mp h
  obtain ⟨⟨c₂, v₂⟩, h₂, h⟩ := Option.bind_eq_some_iff.mp h
  obtain ⟨⟨c₃, v₃⟩, h₃, h⟩ := Option.bind_eq_some_iff.mp h
  obtain ⟨⟨c₄, v₄⟩, h₄, rfl⟩ := Option.map_eq_some_iff.mp h
  exact ⟨c₁, v₁, c₂, v₂, c₃, v₃, c₄, v₄, h₁, h₂, h₃, h₄, rfl⟩

/-- What holds of every call: of one without components, and of one whose own calls have it. -/
lemma createNext_results {Q : Cursor → FileSystem → Option ℕ × FileSystem → Prop}
    (hdone : ∀ c v, Q c v (c.childNode, v.unlock))
    (hnext : ∀ fuel, (∀ c v r, createNext g words fuel c v = some r → Q c v r) →
      ∀ c v r, 0 < c.items → createNext g words (fuel + 1) c v = some r → Q c v r) (fuel : ℕ) :
    ∀ c v r, createNext g words fuel c v = some r → Q c v r := by
  induction fuel with
  | zero =>
    intro c v r h
    simp [createNext] at h
  | succ fuel ih =>
    intro c v r h
    by_cases hitems : 0 < c.items
    · exact hnext fuel ih c v r hitems h
    · rw [createNext, if_neg hitems] at h
      rw [← Option.some.inj h]
      exact hdone c v

/-- The recursive calls remove no nodes. -/
def Grows (rec : Recursion) : Prop := ∀ c v r, rec c v = some r → v.nodes.next ≤ r.2.nodes.next

lemma Grows.createFound (hrec : Grows rec) {r : Cursor × FileSystem}
    (h : createFound rec words c v = some r) : v.nodes.next ≤ r.2.nodes.next := by
  obtain ⟨word, -, h⟩ := Option.bind_eq_some_iff.mp h
  obtain ⟨temp, -, h⟩ := Option.bind_eq_some_iff.mp h
  cases temp with
  | none => rw [← Option.some.inj h]
  | some temp =>
    obtain ⟨out, hout, rfl⟩ := Option.map_eq_some_iff.mp h
    exact hrec _ _ _ hout

lemma Grows.createParent (hrec : Grows rec) {dots : List Char} {r : Cursor × FileSystem}
    (h : createParent rec dots words c v = some r) : v.nodes.next ≤ r.2.nodes.next := by
  obtain ⟨word, -, h⟩ := Option.bind_eq_some_iff.mp h
  split at h
  · obtain ⟨node, -, h⟩ := Option.bind_eq_some_iff.mp h
    obtain ⟨out, hout, rfl⟩ := Option.map_eq_some_iff.mp h
    exact hrec _ _ _ hout
  · rw [← Option.some.inj h]

lemma createChild_next {r : Cursor × FileSystem} (h : createChild g words c v = some r) :
    r.2.nodes.next = v.nodes.next + 1 := by
  obtain ⟨word, -, h⟩ := Option.bind_eq_some_iff.mp h
  obtain ⟨out, hout, rfl⟩ := Option.map_eq_some_iff.mp h
  exact addChild_next hout

/-- A call with a component left adds a node. -/
lemma createNext_adds {r : Option ℕ × FileSystem} (hrec : Grows (createNext g words fuel))
    (hitems : 0 < c.items) (h : createNext g words (fuel + 1) c v = some r) :
    v.nodes.next < r.2.nodes.next := by
  obtain ⟨c₁, v₁, c₂, v₂, c₃, v₃, c₄, v₄, h₁, h₂, h₃, h₄, rfl⟩ := createNext_cases hitems h
  calc v.nodes.next ≤ v₁.nodes.next := hrec.createFound h₁
    _ ≤ v₂.nodes.next := hrec.createParent h₂
    _ ≤ v₃.nodes.next := hrec.createParent h₃
    _ < v₄.nodes.next := by rw [createChild_next h₄]; omega

lemma createNext_grows (g : ℕ → Garbage) (words : List (List Char)) (fuel : ℕ) :
    Grows (createNext g words fuel) :=
  createNext_results (fun _ v => le_refl v.nodes.next)
    (fun _ ih _ _ _ hitems h => (createNext_adds ih hitems h).le) fuel

lemma stripBack_pos {n items : ℕ} (h : stripBack words n = some items) : 0 < items := by
  induction n with
  | zero => simp [stripBack] at h
  | succ n ih =>
    obtain ⟨w, -, h⟩ := Option.bind_eq_some_iff.mp h
    split at h
    · exact ih h
    · rw [← Option.some.inj h]
      omega

/-- Whenever `create` returns a node for a path other than `/`, it has added a node. -/
lemma vfsCreate_adds {ok : Bool} {path : List Char} {n : ℕ} (hpath : path ≠ ['/'])
    (h : vfsCreate g fuel ok parent (some path) v = some (some n, v')) :
    v.nodes.next < v'.nodes.next := by
  have hlocked : vfsCreate.createLocked g fuel ok parent v path = some (some n, v') := by
    rw [vfsCreate] at h
    split at h
    · rwa [Option.bind_some, if_neg hpath] at h
    · exact h
  rw [vfsCreate.createLocked] at hlocked
  split at hlocked
  · simp at hlocked
  · dsimp only at hlocked
    split at hlocked
    · simp at hlocked
    · obtain ⟨parentNode, -, hlocked⟩ := Option.bind_eq_some_iff.mp hlocked
      split at hlocked
      · simp at hlocked
      · obtain ⟨pathArray, -, hlocked⟩ := Option.bind_eq_some_iff.mp hlocked
        cases pathArray with
        | none => simp at hlocked
        | some pathArray =>
          obtain ⟨words, -, hlocked⟩ := Option.bind_eq_some_iff.mp hlocked
          obtain ⟨items, hitems, hlocked⟩ := Option.bind_eq_some_iff.mp hlocked
          cases fuel with
          | zero => simp [createNext] at hlocked
          | succ fuel =>
            exact createNext_adds (createNext_grows g words fuel) (stripBack_pos hitems) hlocked

/-! ## What creating a path should do -/

/-- The nodes that exist are kept, and the missing ones are added in order, each as a child of
the one before; `m` is the last one. -/
inductive Creates : Store Node → ℕ → List (List Char) → Store Node → ℕ → Prop
  | done {N : Store Node} {n : ℕ} : Creates N n [] N n
  | found {N N' : Store Node} {n x m : ℕ} {w : List Char} {ws : List (List Char)}
      (hfound : childNamed N n w = some x) (hrest : Creates N x ws N' m) :
      Creates N n (w :: ws) N' m
  | made {N N' : Store Node} {n m : ℕ} {w : List Char} {ws : List (List Char)} {node : Node}
      {storage : ℕ → ℕ} (hnew : childNamed N n w = none) (hname : node.name = w)
      (hparent : node.parent = some n)
      (hrest : Creates ((N.alloc node).modify n fun q => q.pushBack storage N.next)
        N.next ws N' m) :
      Creates N n (w :: ws) N' m

/-- With enough fuel `create` returns the given node. -/
def CreatesTo (g : ℕ → Garbage) (v : FileSystem) (parent : Option ℕ) (path : List Char) (n : ℕ)
    (v' : FileSystem) : Prop :=
  ∃ F, ∀ fuel ≥ F, vfsCreate g fuel true parent (some path) v = some (some n, v')

/-- `create` returns a node, adds the missing components, and the components lead to the node;
a second call returns the same node and changes nothing. -/
def CreateAgrees (g g' : ℕ → Garbage) (v : FileSystem) (parent : Option ℕ) (start : ℕ)
    (path : List Char) (comps : List (List Char)) : Prop :=
  ∃ n v', CreatesTo g v parent path n v' ∧ Creates v.nodes start comps v'.nodes n ∧
    descend v'.nodes start comps = some n ∧
      ∃ v'', CreatesTo g' v' parent path n v'' ∧ v''.nodes = v'.nodes

lemma CreatesTo.adds {path : List Char} {n : ℕ} (hpath : path ≠ ['/'])
    (h : CreatesTo g v parent path n v') : v.nodes.next < v'.nodes.next := by
  obtain ⟨F, hF⟩ := h
  exact vfsCreate_adds hpath (hF F le_rfl)

lemma not_createAgrees {g' : ℕ → Garbage} {path : List Char} {start : ℕ} (hpath : path ≠ ['/']) :
    ¬ CreateAgrees g g' v parent start path comps := by
  rintro ⟨n, v', -, -, -, v'', hagain, hsame⟩
  have hadds := hagain.adds hpath
  rw [hsame] at hadds
  exact lt_irrefl _ hadds

/-- There is no tree and no path for which `create` does what it should: the second call adds
a node, or does not return. -/
theorem create_never_agrees (g g' : ℕ → Garbage) (v : FileSystem) (parent : Option ℕ) (start : ℕ)
    (lead trail : Bool) (hne : comps ≠ []) (hcomps : ∀ w ∈ comps, IsComponent w) :
    ¬ CreateAgrees g g' v parent start (pathText lead trail comps) comps :=
  not_createAgrees (pathText_ne_slash lead hne hcomps)

/-- A path of one component in a directory without children. -/
theorem create_never_agrees_emptyDirectory :
    ¬ CreateAgrees (fun _ => clearMemory) (fun _ => clearMemory) emptyDirectory (some 0) 0
      (pathText false false [['a']]) [['a']] :=
  create_never_agrees _ _ _ _ _ false false (by simp) (by simp [IsComponent])

/-- In a directory without children, `a/` is created, and created once more: another node is
returned, whose name is empty. -/
theorem create_adds_again :
    ¬ CreateAgrees (fun _ => clearMemory) (fun _ => clearMemory) emptyDirectory (some 0) 0
      (pathText false true [['a']]) [['a']] ∧
    ((vfsCreate (fun _ => clearMemory) 9 true (some 0) (some ['a', '/'])
      emptyDirectory).bind fun r =>
      (vfsCreate (fun _ => clearMemory) 9 true (some 0) (some ['a', '/']) r.2).map fun r' =>
        (r.1, r'.1, nameOf r'.2.nodes 2)) = some (some 1, some 2, some []) :=
  ⟨not_createAgrees (by decide), by decide +kernel⟩

/-! ## A new component -/

/-- With enough fuel `create` calls `createNext` with the components of the path. -/
lemma vfsCreate_eq {start : ℕ} (lead : Bool) (hlock : v.locked = false)
    (hstart : StartsAt v parent start) (hne : comps ≠ []) (hcomps : ∀ w ∈ comps, IsComponent w)
    (hfuel : comps.length + 2 ≤ fuel) :
    vfsCreate g fuel true parent (some (pathText lead trail comps)) v =
      createNext g (pathArray trail comps) fuel ⟨some start, none, comps.length, 0⟩
        v.lock := by
  have hslash : pathText lead trail comps ≠ ['/'] := pathText_ne_slash lead hne hcomps
  have hspace : ' ' ∉ pathText lead trail comps := space_notMem_pathText lead hcomps
  have hlocked : vfsCreate.createLocked g fuel true parent v (pathText lead trail comps) =
      createNext g (pathArray trail comps) fuel ⟨some start, none, comps.length, 0⟩
        v.lock := by
    rw [vfsCreate.createLocked, if_neg (by simp [hlock])]
    dsimp only
    rw [if_neg hspace]
    refine (congrArg (Option.bind · _) (startsAt_parentNode v start parent hstart)).trans ?_
    rw [Option.bind_some, if_neg (by simp)]
    exact split_pathText lead hne hcomps hfuel _ _
  rw [vfsCreate]
  split
  · rw [Option.bind_some, if_neg hslash, hlocked]
  · exact hlocked

/-- A path of one component that does not exist is created. -/
theorem create_new_component {start : ℕ} {w : List Char} (lead : Bool)
    (hdir : Directory v.nodes start)
    (hlock : v.locked = false) (hstart : StartsAt v parent start) (hw : IsComponent w)
    (hname : IsName w) (hlen : w.length < FILENAME_LENGTH)
    (hnew : childNamed v.nodes start w = none) :
    ∃ v', CreatesTo g v parent (pathText lead trail [w]) v.nodes.next v' ∧
      Creates v.nodes start [w] v'.nodes v.nodes.next ∧
        descend v'.nodes start [w] = some v.nodes.next := by
  obtain ⟨dir, hget, -⟩ := hdir.ready
  have hroot : FileSystem.directory v.lock (some start) = some start := rfl
  obtain ⟨node, hnodeName, hnodeParent, hadd⟩ :=
    Kind.add_eq (k := .child) (g := g v.nodes.next) hroot hget hlen (by simp)
  obtain ⟨-, hadded, -⟩ := directory_add hdir (g v.nodes.next).storage hnodeName hnodeParent hnew
  refine ⟨FileSystem.unlock { v.lock with
    nodes := (v.nodes.alloc node).modify start fun q =>
      q.pushBack (g v.nodes.next).storage v.nodes.next }, ⟨3, fun fuel hfuel => ?_⟩,
    .made hnew hnodeName hnodeParent .done, ?_⟩
  · obtain ⟨f, rfl⟩ : ∃ f, fuel = f + 1 := ⟨fuel - 1, by omega⟩
    have hcomps : ∀ u ∈ [w], IsComponent u := by simpa using hw
    have hword : (pathArray trail [w])[0]? = some w := by simp [pathArray]
    have hchild : getChild (some start) w v.lock = some none := by
      rw [getChild_eq (v := v.lock) hdir rfl hw.1, FileSystem.nodes_lock, hnew]
    rw [vfsCreate_eq lead hlock hstart (by simp) hcomps hfuel, createNext, if_pos (by simp),
      createFound]
    dsimp only
    rw [hword, Option.bind_some, hchild, Option.bind_some, Option.bind_some, createParent]
    dsimp only
    rw [hword, Option.bind_some, if_neg hname.2, Option.bind_some, createParent]
    dsimp only
    rw [hword, Option.bind_some, if_neg hname.1, Option.bind_some, createChild]
    dsimp only
    rw [hword, Option.bind_some]
    have hadd' : addChild (g v.lock.nodes.next) (some start) w v.lock = _ := hadd
    rw [hadd']
    rfl
  · rw [FileSystem.nodes_unlock, descend, hadded, Option.bind_some, descend]

end TurbOS.Vfs
