import TurbOS.Vfs.Directory

/-!
# A directory as a map from names to children

As long as every added name is new, is not empty and fits, and every removed child stands
where `remove` works, a directory is a map from names to children, and the functions of the
file system look up, insert and delete.  Neither do the functions check that a name is new,
nor does `remove` work at the first position.
-/

namespace TurbOS.Vfs

variable {v v' : FileSystem} {N : Store Node} {p c : ℕ} {parent : Option ℕ} {name m : List Char}

/-- The name of a node. -/
def nameOf (N : Store Node) (n : ℕ) : Option (List Char) := (N.get n).map Node.name

/-- The children have different names, and the directory is their parent. -/
structure IsMap (N : Store Node) (p : ℕ) : Prop where
  child : ∀ c ∈ children N p, ∃ node, N.get c = some node ∧ node.parent = some p
  distinct : (children N p).Pairwise fun c d => nameOf N c ≠ nameOf N d

/-- A directory with a vector of children that is set up, or empty. -/
structure Directory (N : Store Node) (p : ℕ) : Prop extends IsMap N p where
  ready : ∃ node, N.get p = some node ∧ Ready node

lemma IsMap.eq_of_named (h : IsMap N p) {c d : ℕ} (hc : c ∈ children N p) (hd : d ∈ children N p)
    (hcm : Named N m c) (hdm : Named N m d) : c = d := by
  by_contra hne
  have hsymm : Std.Symm fun c d => nameOf N c ≠ nameOf N d := ⟨fun _ _ h => h.symm⟩
  exact h.distinct.forall hc hd hne (hcm.trans hdm.symm)

lemma IsMap.nodup (h : IsMap N p) : (children N p).Nodup :=
  h.distinct.imp fun hne heq => hne (by rw [heq])

/-- The child with a name. -/
lemma IsMap.childNamed_eq_some_iff (h : IsMap N p) :
    childNamed N p m = some c ↔ c ∈ children N p ∧ Named N m c := by
  refine ⟨childNamed_mem, fun ⟨hc, hcm⟩ => ?_⟩
  cases hfind : childNamed N p m with
  | none =>
    have hnot := List.find?_eq_none.mp hfind c hc
    simp [hcm] at hnot
  | some d =>
    obtain ⟨hd, hdm⟩ := childNamed_mem hfind
    rw [h.eq_of_named hd hc hdm hcm]

/-- The search finds the position of the child. -/
lemma findIndex_eq {cs : List ℕ} (h : ∀ c ∈ cs, ∃ node, v.nodes.get c = some node) :
    ∃ i, findIndex v name cs = some i ∧ (∀ j, i = some j → j < cs.length) ∧
      (i.bind fun i => cs[i]?) = cs.find? fun c => Named v.nodes name c := by
  induction cs with
  | nil => exact ⟨none, rfl, by simp, rfl⟩
  | cons c cs ih =>
    obtain ⟨node, hnode⟩ := h c List.mem_cons_self
    rw [findIndex, hnode, Option.bind_some]
    by_cases hname : node.name = name
    · refine ⟨some 0, by rw [if_pos hname], by simp, ?_⟩
      rw [List.find?_cons_of_pos (by simp [Named, hnode, hname])]
      rfl
    · obtain ⟨i, hi, hlt, hget⟩ := ih fun d hd => h d (List.mem_cons_of_mem _ hd)
      refine ⟨i.map (· + 1), by rw [if_neg hname, hi, Option.map_some], ?_, ?_⟩
      · cases i with
        | none => simp
        | some i => simpa using hlt i rfl
      · rw [List.find?_cons_of_neg (by simp [Named, hnode, hname]), ← hget]
        cases i <;> simp

lemma children_eq {node : Node} (h : N.get p = some node) : children N p = node.childs.items := by
  simp [children, h]

/-- The search through a directory. -/
lemma Directory.findIndex_eq {dir : Node} (h : Directory v.nodes p)
    (hdir : v.nodes.get p = some dir) (name : List Char) :
    ∃ i, findIndex v name dir.childs.items = some i ∧
      (∀ j, i = some j → j < dir.childs.items.length) ∧
      (i.bind fun i => dir.childs.items[i]?) = childNamed v.nodes p name := by
  have hchildren := children_eq hdir
  rw [childNamed, hchildren]
  refine Vfs.findIndex_eq fun c hc => ?_
  obtain ⟨child, hchild, -⟩ := h.child c (by rwa [hchildren])
  exact ⟨child, hchild⟩

/-- `getChild` looks a name up. -/
lemma getChild_eq (h : Directory v.nodes p) (hp : v.directory parent = some p) (hm : m ≠ []) :
    getChild parent m v = some (childNamed v.nodes p m) := by
  obtain ⟨node, hnode, -⟩ := h.ready
  obtain ⟨i, hi, -, hget⟩ := h.findIndex_eq hnode m
  rw [getChild, if_neg hm, hp, FileSystem.deref, Option.bind_some, hnode, Option.bind_some, hi,
    Option.map_some, hget]

/-! ## Adding -/

/-- One of the three functions that add a child. -/
inductive Kind where
  | child | dir | file
deriving DecidableEq, Repr

/-- `addChild`, `addDir` or `addFile`. -/
def Kind.add : Kind → Garbage → Option ℕ → List Char → FileSystem → Option (ℕ × FileSystem)
  | .child => addChild
  | .dir => addDir
  | .file => addFile

/-- The new node is allocated and linked to the directory. -/
lemma Kind.add_eq {k : Kind} {g : Garbage} {dir : Node} (hp : v.directory parent = some p)
    (hdir : v.nodes.get p = some dir) (hlen : name.length < FILENAME_LENGTH)
    (hpath : k = .dir → (dirPath g.node.path dir.path name).isSome) :
    ∃ node, node.name = name ∧ node.parent = some p ∧
      k.add g parent name v = some (v.nodes.next, { v with
        nodes := (v.nodes.alloc node).modify p fun q => q.pushBack g.storage v.nodes.next }) := by
  cases k with
  | child =>
    refine ⟨{ g.node with name := name, parent := some p }, rfl, rfl, ?_⟩
    rw [Kind.add, addChild, addNode, hp, Option.bind_some, hdir, Option.bind_some, if_pos hlen,
      Option.map_some]
  | file =>
    refine ⟨{ g.node with name := name, parent := some p, flags := TFS_FILE }, rfl, rfl, ?_⟩
    rw [Kind.add, addFile, addNode, hp, Option.bind_some, hdir, Option.bind_some, if_pos hlen,
      Option.map_some]
  | dir =>
    obtain ⟨path, hpath⟩ := Option.isSome_iff_exists.mp (hpath rfl)
    refine ⟨{ g.node with name := name, parent := some p, flags := TFS_FOLDER, path := path },
      rfl, rfl, ?_⟩
    rw [Kind.add, addDir, addNode, hp, Option.bind_some, hdir, Option.bind_some, if_pos hlen, hpath]
    rfl

/-- The nodes after a child was added. -/
lemma directory_add {node : Node} (h : Directory N p) (storage : ℕ → ℕ) (hname : node.name = name)
    (hparent : node.parent = some p) (hnew : childNamed N p name = none) :
    let N' := (N.alloc node).modify p fun q => q.pushBack storage N.next
    Directory N' p ∧ childNamed N' p name = some N.next ∧
      ∀ m, m ≠ name → childNamed N' p m = childNamed N p m := by
  intro N'
  obtain ⟨dir, hdir, hready⟩ := h.ready
  have hpn : p < N.next := Store.lt_next hdir
  obtain ⟨hitems, hready'⟩ := hready.pushBack storage N.next
  have hdir' : N'.get p = some (dir.pushBack storage N.next) := by
    rw [Store.get_modify_self, Store.get_alloc_of_lt node hpn, hdir, Option.map_some]
  have hchildren : children N' p = children N p ++ [N.next] := by
    rw [children_eq hdir', children_eq hdir, hitems]
  -- the new node, and the old ones with their names and parents
  have hget : N'.get N.next = some node := by
    rw [Store.get_modify_of_ne _ (by omega), Store.get_alloc_next]
  have hold : ∀ n old, N.get n = some old →
      ∃ new, N'.get n = some new ∧ new.name = old.name ∧ new.parent = old.parent := by
    intro n old hn
    have hn' : (N.alloc node).get n = some old := by
      rw [Store.get_alloc_of_lt node (Store.lt_next hn), hn]
    rw [Store.get_modify_of_eq_some _ hn']
    refine ⟨_, rfl, ?_⟩
    split <;> simp
  have hnameOf : ∀ n ∈ children N p, nameOf N' n = nameOf N n := by
    intro n hn
    obtain ⟨old, hold', -⟩ := h.child n hn
    obtain ⟨new, hnew', hname', -⟩ := hold n old hold'
    rw [nameOf, nameOf, hold', hnew', Option.map_some, Option.map_some, hname']
  have hnamed : Named N' name N.next := by rw [Named, hget, Option.map_some, hname]
  have hnone : ∀ n ∈ children N p, nameOf N n ≠ some name := by
    intro n hn heq
    have hnot := List.find?_eq_none.mp hnew n hn
    have hnamed' : Named N name n := heq
    simp [hnamed'] at hnot
  have hmap : IsMap N' p := by
    constructor
    · intro n hn
      rw [hchildren, List.mem_append, List.mem_singleton] at hn
      rcases hn with hn | rfl
      · obtain ⟨old, hold', hpar⟩ := h.child n hn
        obtain ⟨new, hnew', -, hpar'⟩ := hold n old hold'
        exact ⟨new, hnew', hpar'.trans hpar⟩
      · exact ⟨node, hget, hparent⟩
    · rw [hchildren, List.pairwise_append]
      refine ⟨?_, by simp, ?_⟩
      · refine h.distinct.imp_of_mem fun hc hd hne => ?_
        rwa [hnameOf _ hc, hnameOf _ hd]
      · intro n hn d hd
        obtain rfl := List.mem_singleton.mp hd
        rw [hnameOf n hn, show nameOf N' N.next = some name from hnamed]
        exact hnone n hn
  refine ⟨⟨hmap, _, hdir', hready'⟩, ?_, fun m hm => ?_⟩
  · rw [hmap.childNamed_eq_some_iff, hchildren]
    exact ⟨by simp, hnamed⟩
  · apply Option.ext
    intro n
    rw [hmap.childNamed_eq_some_iff, h.childNamed_eq_some_iff, hchildren, List.mem_append,
      List.mem_singleton]
    constructor
    · rintro ⟨hn | rfl, hnm⟩
      · exact ⟨hn, (hnameOf n hn).symm.trans hnm⟩
      · exact absurd (Option.some.inj (hnm.symm.trans hnamed)) hm
    · rintro ⟨hn, hnm⟩
      exact ⟨.inl hn, (hnameOf n hn).trans hnm⟩

/-! ## Removing -/

lemma get_freeNodes {ns : List ℕ} (hnodup : ns.Nodup)
    (hlive : ∀ n ∈ ns, ∃ node, N.get n = some node) :
    ∃ N', freeNodes ns N = some N' ∧ ∀ n, N'.get n = if n ∈ ns then none else N.get n := by
  induction ns generalizing N with
  | nil => exact ⟨N, rfl, fun n => by simp⟩
  | cons n ns ih =>
    obtain ⟨hn, hnodup⟩ := List.nodup_cons.mp hnodup
    obtain ⟨node, hnode⟩ := hlive n List.mem_cons_self
    have hlive' : ∀ d ∈ ns, ∃ node, (N.free n).get d = some node := by
      intro d hd
      obtain ⟨dnode, hdnode⟩ := hlive d (List.mem_cons_of_mem _ hd)
      have hne : d ≠ n := fun heq => hn (heq ▸ hd)
      exact ⟨dnode, by rw [Store.get_free, if_neg hne, hdnode]⟩
    obtain ⟨N', hN', hget⟩ := ih hnodup hlive'
    refine ⟨N', ?_, fun d => ?_⟩
    · rw [freeNodes, List.foldlM_cons, freeNode, hnode]
      exact hN'
    · rw [hget, Store.get_free]
      by_cases hd : d ∈ ns
      · rw [if_pos hd, if_pos (List.mem_cons_of_mem _ hd)]
      · by_cases heq : d = n
        · simp [heq]
        · simp [heq, hd]

/-- The child stands where `remove` works, and its own children are nodes apart from the
directory and its children. -/
structure CanRemove (N : Store Node) (p c : ℕ) : Prop where
  position : ∀ dir i, N.get p = some dir → dir.childs.items[i]? = some c → Removable dir i
  ne : c ≠ p
  nodup : (children N c).Nodup
  live : ∀ d ∈ children N c, ∃ node, N.get d = some node
  apart : ∀ d ∈ children N c, d ≠ p ∧ d ∉ children N p

/-- The nodes after a child was removed. -/
lemma directory_remove {N' : Store Node} (h : Directory N p) (hc : childNamed N p name = some c)
    (hsub : (children N' p).Sublist (children N p))
    (hmem : ∀ d, d ∈ children N' p ↔ d ∈ children N p ∧ d ≠ c)
    (hold : ∀ d ∈ children N' p, ∀ old, N.get d = some old →
      ∃ new, N'.get d = some new ∧ new.name = old.name ∧ new.parent = old.parent)
    (hready : ∃ dir, N'.get p = some dir ∧ Ready dir) :
    Directory N' p ∧ childNamed N' p name = none ∧
      ∀ m, m ≠ name → childNamed N' p m = childNamed N p m := by
  obtain ⟨hcmem, hcname⟩ := childNamed_mem hc
  have hnameOf : ∀ d ∈ children N' p, nameOf N' d = nameOf N d := by
    intro d hd
    obtain ⟨old, hold', -⟩ := h.child d ((hmem d).mp hd).1
    obtain ⟨new, hnew, hname, -⟩ := hold d hd old hold'
    rw [nameOf, nameOf, hold', hnew, Option.map_some, Option.map_some, hname]
  have hmap : IsMap N' p := by
    constructor
    · intro d hd
      obtain ⟨old, hold', hpar⟩ := h.child d ((hmem d).mp hd).1
      obtain ⟨new, hnew, -, hpar'⟩ := hold d hd old hold'
      exact ⟨new, hnew, hpar'.trans hpar⟩
    · refine (h.distinct.sublist hsub).imp_of_mem fun hd he hne => ?_
      rwa [hnameOf _ hd, hnameOf _ he]
  refine ⟨⟨hmap, hready⟩, ?_, fun m hm => ?_⟩
  · rw [Option.eq_none_iff_forall_not_mem]
    intro d hd
    obtain ⟨hdmem, hdname⟩ := hmap.childNamed_eq_some_iff.mp hd
    obtain ⟨hdmem', hne⟩ := (hmem d).mp hdmem
    exact hne (h.eq_of_named hdmem' hcmem ((hnameOf d hdmem).symm.trans hdname) hcname)
  · apply Option.ext
    intro d
    rw [hmap.childNamed_eq_some_iff, h.childNamed_eq_some_iff]
    constructor
    · rintro ⟨hd, hdm⟩
      exact ⟨((hmem d).mp hd).1, (hnameOf d hd).symm.trans hdm⟩
    · rintro ⟨hd, hdm⟩
      have hne : d ≠ c := by
        rintro rfl
        exact hm (Option.some.inj (hdm.symm.trans hcname))
      have hd' := (hmem d).mpr ⟨hd, hne⟩
      exact ⟨hd', (hnameOf d hd').trans hdm⟩

/-- The nodes without a child and its own children; the directory and its other children stay. -/
lemma CanRemove.freed {node : Node} (hcan : CanRemove N p c) (hc : c ∈ children N p)
    (hnode : N.get c = some node) :
    ∃ N₁ N₂, freeNodes node.childs.items N = some N₁ ∧ freeNode c N₁ = some N₂ ∧
      N₂.get p = N.get p ∧ ∀ d ∈ children N p, d ≠ c → N₂.get d = N.get d := by
  have hnodup := hcan.nodup
  have hlive := hcan.live
  have hapart := hcan.apart
  rw [children_eq hnode] at hnodup hlive hapart
  obtain ⟨N₁, hN₁, hget⟩ := get_freeNodes hnodup hlive
  have hkept : ∀ d, d ≠ c → d ∉ node.childs.items → (N₁.free c).get d = N.get d := by
    intro d hd hmem
    rw [Store.get_free, if_neg hd, hget, if_neg hmem]
  have hc₁ : N₁.get c = some node := by
    rw [hget, if_neg fun hmem => (hapart c hmem).2 hc, hnode]
  refine ⟨N₁, N₁.free c, hN₁, by rw [freeNode, hc₁, Option.map_some], ?_, fun d hd hne => ?_⟩
  · exact hkept p hcan.ne.symm fun hmem => (hapart p hmem).1 rfl
  · exact hkept d hne fun hmem => (hapart d hmem).2 hd

/-- What is left of the children after one of them was removed. -/
lemma IsMap.mem_eraseIdx (h : IsMap N p) {i : ℕ} (hi : (children N p)[i]? = some c) (d : ℕ) :
    d ∈ (children N p).eraseIdx i ↔ d ∈ children N p ∧ d ≠ c := by
  obtain ⟨hlt, hitem⟩ := List.getElem?_eq_some_iff.mp hi
  rw [← h.nodup.erase_getElem i hlt, h.nodup.mem_erase_iff, hitem, and_comm]

/-- `removeChild` deletes a child that can be removed. -/
lemma removeChild_eq (h : Directory v.nodes p) (hp : v.directory parent = some p)
    (hc : childNamed v.nodes p name = some c) (hcan : CanRemove v.nodes p c) :
    ∃ v', removeChild parent name v = some v' ∧ v'.tfs_root = v.tfs_root ∧ Directory v'.nodes p ∧
      childNamed v'.nodes p name = none ∧
        ∀ m, m ≠ name → childNamed v'.nodes p m = childNamed v.nodes p m := by
  obtain ⟨dir, hdir, hready⟩ := h.ready
  have hchildren := children_eq hdir
  have hcmem := (childNamed_mem hc).1
  obtain ⟨node, hnode, -⟩ := h.child c hcmem
  -- the position of the child
  obtain ⟨index, hindex, -, hfind⟩ := h.findIndex_eq hdir name
  rw [hc] at hfind
  obtain ⟨i, rfl, hget⟩ := Option.bind_eq_some_iff.mp hfind
  have hlt : i < dir.childs.items.length := (List.getElem?_eq_some_iff.mp hget).1
  have hinit : dir.childs.isInit = true := by
    by_contra hnot
    rw [Ready, if_neg hnot] at hready
    simp [hready] at hlt
  -- the nodes that are freed, and the vector of the directory
  obtain ⟨N₁, N₂, hN₁, hN₂, hdir₂, hkept⟩ := hcan.freed hcmem hnode
  rw [hdir] at hdir₂
  obtain ⟨dir', hdir', hname', hpar', hinit', hitems', hlen'⟩ :=
    removeAt_of_removable hinit hlt (hcan.position dir i hdir hget)
  have hdirget : (N₂.modify p fun _ => dir').get p = some dir' := by
    rw [Store.get_modify_self, hdir₂, Option.map_some]
  have hchildren' : children (N₂.modify p fun _ => dir') p = (children v.nodes p).eraseIdx i := by
    rw [children_eq hdirget, hitems', hchildren]
  have hmem := h.mem_eraseIdx (by rw [hchildren]; exact hget)
  refine ⟨{ v with nodes := N₂.modify p fun _ => dir' }, ?_, rfl, ?_⟩
  · rw [removeChild, hp, Option.bind_some, hdir, Option.bind_some, hindex, Option.bind_some]
    dsimp only
    rw [hget, Option.bind_some, hnode, Option.bind_some, hN₁, Option.bind_some, hN₂,
      Option.bind_some, hdir₂, Option.bind_some, hdir', Option.map_some]
  · refine directory_remove h hc ?_ ?_ ?_ ⟨dir', hdirget, ?_⟩
    · rw [hchildren']
      exact List.eraseIdx_sublist _ _
    · intro d
      rw [hchildren', hmem]
    · intro d hd old hdold
      rw [hchildren', hmem] at hd
      have hd₂ : N₂.get d = some old := (hkept d hd.1 hd.2).trans hdold
      refine ⟨_, Store.get_modify_of_eq_some _ hd₂, ?_⟩
      split
      · -- the directory may be among its own children
        rename_i heq
        rw [heq, hdir] at hdold
        rw [← Option.some.inj hdold]
        exact ⟨hname', hpar'⟩
      · exact ⟨rfl, rfl⟩
    · rw [Ready, if_pos hinit', hlen']
      omega

/-- `removeChild` changes nothing if there is no child with the name. -/
lemma removeChild_of_none (h : Directory v.nodes p) (hp : v.directory parent = some p)
    (hc : childNamed v.nodes p name = none) : removeChild parent name v = some v := by
  obtain ⟨dir, hdir, -⟩ := h.ready
  obtain ⟨index, hindex, hlt, hfind⟩ := h.findIndex_eq hdir name
  rw [hc] at hfind
  rw [removeChild, hp, Option.bind_some, hdir, Option.bind_some, hindex, Option.bind_some]
  cases index with
  | none => rfl
  | some i =>
    rw [Option.bind_some, List.getElem?_eq_getElem (hlt i rfl)] at hfind
    simp at hfind

/-! ## Runs -/

/-- A call that changes a directory. -/
inductive DirOp where
  | add (kind : Kind) (g : Garbage) (name : List Char)
  | remove (name : List Char)

/-- What the call returns, and the file system after it. -/
def DirOp.step (parent : Option ℕ) : DirOp → FileSystem → Option (Option ℕ × FileSystem)
  | .add kind g name, v => (kind.add g parent name v).map fun r => (some r.1, r.2)
  | .remove name, v => (removeChild parent name v).map fun v' => (none, v')

/-- The call does to the directory what it does to a map. -/
def DirOp.Serves (parent : Option ℕ) (op : DirOp) (v : FileSystem) (r : Option ℕ × FileSystem) :
    Prop :=
  match op with
  | .add _ _ name => r.1.isSome ∧ getChild parent name r.2 = some r.1 ∧
      ∀ m, m ≠ name → getChild parent m r.2 = getChild parent m v
  | .remove name => getChild parent name r.2 = some none ∧
      ∀ m, m ≠ name → getChild parent m r.2 = getChild parent m v

/-- An added name is new, not empty and fits, with its path for a directory; and a child that
is removed can be removed. -/
def DirOp.Fits (N : Store Node) (p : ℕ) : DirOp → Prop
  | .add kind g name => name ≠ [] ∧ name.length < FILENAME_LENGTH ∧ childNamed N p name = none ∧
      (kind = .dir → ∀ dir, N.get p = some dir → (dirPath g.node.path dir.path name).isSome)
  | .remove name => ∀ c, childNamed N p name = some c → CanRemove N p c

/-- Every call of the run fits. -/
def RunFits (parent : Option ℕ) (p : ℕ) : List DirOp → FileSystem → Prop
  | [], _ => True
  | op :: ops, v => op.Fits v.nodes p ∧ ∀ r, op.step parent v = some r → RunFits parent p ops r.2

/-- Along the run the directory is a map, and every call does what it does to a map. -/
def RunServes (parent : Option ℕ) (p : ℕ) : List DirOp → FileSystem → Prop
  | [], v => IsMap v.nodes p
  | op :: ops, v => IsMap v.nodes p ∧
      ∃ r, op.step parent v = some r ∧ op.Serves parent v r ∧ RunServes parent p ops r.2

/-- Lookups agree if the children with the names do. -/
lemma getChild_congr (h : Directory v.nodes p) (h' : Directory v'.nodes p)
    (hp : v.directory parent = some p) (hp' : v'.directory parent = some p)
    (heq : childNamed v'.nodes p m = childNamed v.nodes p m) :
    getChild parent m v' = getChild parent m v := by
  by_cases hm : m = []
  · rw [getChild, getChild, if_pos hm, if_pos hm]
  · rw [getChild_eq h hp hm, getChild_eq h' hp' hm, heq]

/-- A call that fits does what it does to a map. -/
lemma DirOp.Fits.serves {op : DirOp} (h : Directory v.nodes p) (hp : v.directory parent = some p)
    (hfits : op.Fits v.nodes p) :
    ∃ r, op.step parent v = some r ∧ op.Serves parent v r ∧ Directory r.2.nodes p ∧
      r.2.directory parent = some p := by
  cases op with
  | add kind g name =>
    obtain ⟨hne, hlen, hnew, hpath⟩ := hfits
    obtain ⟨dir, hdir, -⟩ := h.ready
    obtain ⟨node, hname, hparent, heq⟩ :=
      Kind.add_eq hp hdir hlen fun hk => hpath hk dir hdir
    obtain ⟨hdirectory, hadded, hothers⟩ := directory_add h g.storage hname hparent hnew
    refine ⟨_, by rw [DirOp.step, heq, Option.map_some], ?_, hdirectory, hp⟩
    refine ⟨rfl, ?_, fun m hm => getChild_congr h hdirectory hp hp (hothers m hm)⟩
    exact (getChild_eq (v := { v with nodes := _ }) hdirectory hp hne).trans
      (congrArg some hadded)
  | remove name =>
    cases hc : childNamed v.nodes p name with
    | none =>
      refine ⟨(none, v), ?_, ?_, h, hp⟩
      · rw [DirOp.step, removeChild_of_none h hp hc, Option.map_some]
      · refine ⟨?_, fun m _ => rfl⟩
        by_cases hm : name = []
        · rw [getChild, if_pos hm]
        · rw [getChild_eq h hp hm, hc]
    | some c =>
      obtain ⟨v', heq, hroot, hdirectory, hremoved, hothers⟩ := removeChild_eq h hp hc (hfits c hc)
      have hp' : v'.directory parent = some p := by
        rw [FileSystem.directory, hroot]
        exact hp
      refine ⟨(none, v'), ?_, ?_, hdirectory, hp'⟩
      · rw [DirOp.step, heq, Option.map_some]
      · refine ⟨?_, fun m hm => getChild_congr h hdirectory hp hp' (hothers m hm)⟩
        by_cases hm : name = []
        · rw [getChild, if_pos hm]
        · rw [getChild_eq hdirectory hp' hm, hremoved]

/-- In every run whose calls fit, the directory is a map from names to children in every state,
and every call looks up, inserts and deletes. -/
theorem directory_is_map {ops : List DirOp} (h : Directory v.nodes p)
    (hp : v.directory parent = some p) (hfits : RunFits parent p ops v) :
    RunServes parent p ops v := by
  induction ops generalizing v with
  | nil => exact h.toIsMap
  | cons op ops ih =>
    obtain ⟨r, hr, hserves, hdirectory, hp'⟩ := DirOp.Fits.serves h hp hfits.1
    exact ⟨h.toIsMap, r, hr, hserves, ih hdirectory hp' (hfits.2 r hr)⟩

/-- A file system with one directory that has no children. -/
def emptyDirectory : FileSystem := { nodes := Store.empty.alloc { name := [] } }

/-- Memory that was cleared. -/
def clearMemory : Garbage := ⟨{ name := [] }, fun _ => 0⟩

lemma emptyDirectory_directory : Directory emptyDirectory.nodes 0 where
  child := by
    intro c hc
    rw [show children emptyDirectory.nodes 0 = [] from rfl] at hc
    simp at hc
  distinct := .nil
  ready := ⟨{ name := [] }, rfl, by simp [Ready]⟩

/-- A file is added and removed. -/
theorem directory_is_map_emptyDirectory :
    RunServes (some 0) 0 [.add .file clearMemory ['a'], .remove ['a']] emptyDirectory := by
  refine directory_is_map emptyDirectory_directory rfl ⟨?_, fun r hr => ⟨fun c hc => ?_, ?_⟩⟩
  · exact ⟨by simp, by decide, by decide, by simp⟩
  · obtain rfl := Option.some.inj hr
    obtain rfl : 1 = c := Option.some.inj hc
    refine ⟨fun dir i hdir _ => .inl ?_, by decide, .nil, fun d hd => ?_, fun d hd => ?_⟩
    · obtain rfl := Option.some.inj hdir
      rfl
    · exact absurd hd List.not_mem_nil
    · exact absurd hd List.not_mem_nil
  · exact fun _ _ => trivial

/-- A name may be added twice: the first child is found from then on.  And the first of two
children cannot be removed: the other one is taken from the vector instead. -/
theorem directory_not_map :
    ¬ RunServes (some 0) 0
      [.add .file clearMemory ['a'], .add .file clearMemory ['a']] emptyDirectory ∧
    ¬ RunServes (some 0) 0
      [.add .file clearMemory ['a'], .add .file clearMemory ['b'], .remove ['a']]
      emptyDirectory := by
  constructor
  · rintro ⟨-, r, hr, -, -, r', hr', hserves, -⟩
    obtain rfl := Option.some.inj hr
    obtain rfl := Option.some.inj hr'
    exact absurd hserves.2.1 (by decide)
  · rintro ⟨-, r, hr, -, -, r', hr', -, -, r'', hr'', hserves, -⟩
    obtain rfl := Option.some.inj hr
    obtain rfl := Option.some.inj hr'
    obtain rfl := Option.some.inj hr''
    exact absurd hserves.1 (by decide)

end TurbOS.Vfs
