import TurbOS.Vfs.Tree

/-!
# Directories

The functions that look up, add and remove the children of a node.  `addChild`, `addDir` and
`addFile` take the memory of the new node from `malloc` and set some of its fields; the others
keep what the memory held.  The heap clears the memory that `malloc` returns, but not what
`realloc` adds to a block.  Here the contents are a parameter in both cases, so that the results
do not rest on the heap.
-/

namespace TurbOS.Vfs

/-- `FILENAME_LENGTH`. -/
def FILENAME_LENGTH : ℕ := 128

/-- `TFS_FILE`. -/
def TFS_FILE : ℕ := 0x01

/-- `TFS_FOLDER`. -/
def TFS_FOLDER : ℕ := 0x02

/-- What the memory holds that a function gets from `malloc` or `realloc`: as a node, where it
is zeros, and as the storage of a vector. -/
structure Garbage where
  node : Node
  storage : ℕ → ℕ

/-- The directory that is meant by an argument `parent`. -/
def FileSystem.directory (v : FileSystem) (parent : Option ℕ) : Option ℕ := parent.or v.tfs_root

/-- `push_back` on `childs`. -/
def Node.pushBack (storage : ℕ → ℕ) (node : Node) (child : ℕ) : Node :=
  if node.childs.isInit then
    match node.spare with
    | _ :: spare => { node with childs := node.childs.pushBack child, spare := spare }
    | [] =>
      -- the capacity is doubled; `realloc` frees the storage if the size is zero
      if node.childs.items = [] then node
      else { node with
        childs := node.childs.pushBack child
        spare := (List.range (node.childs.size - 1)).map storage }
  else { node with childs := ⟨true, [child]⟩, spare := [] }

/-- `remove` on `childs`.  The loop also reads and writes the storage behind the elements. -/
def Node.removeAt (node : Node) (position : ℕ) : Option Node :=
  if node.childs.isInit then
    if node.childs.size = 0 then none
    else (TurboVector.shift position (node.childs.size - 2) (node.childs.items ++ node.spare)).map
      fun storage => { node with
        childs := { node.childs with items := storage.take (node.childs.size - 1) }
        spare := storage.drop (node.childs.size - 1) }
  else some node

/-- The position of the first child with a name. -/
def findIndex (v : FileSystem) (name : List Char) : List ℕ → Option (Option ℕ)
  | [] => some none
  | c :: cs => (v.nodes.get c).bind fun node =>
      if node.name = name then some (some 0)
      else (findIndex v name cs).map fun i => i.map (· + 1)

/-- `getChild`. -/
def getChild (parent : Option ℕ) (path : List Char) (v : FileSystem) : Option (Option ℕ) :=
  if path = [] then some none
  else
    (v.deref (v.directory parent)).bind fun parentNode =>
      (findIndex v path parentNode.childs.items).map fun i =>
        i.bind fun i => parentNode.childs.items[i]?

/-- What `addChild`, `addDir` and `addFile` have in common: a node with the name and the
parent, and whatever else `setUp` sets. -/
def addNode (g : Garbage) (setUp : Node → Node → Option Node) (parent : Option ℕ)
    (name : List Char) (v : FileSystem) : Option (ℕ × FileSystem) :=
  (v.directory parent).bind fun p => (v.nodes.get p).bind fun parentNode =>
    if name.length < FILENAME_LENGTH then
      (setUp parentNode { g.node with name := name, parent := some p }).map fun node =>
        (v.nodes.next, { v with
          nodes := (v.nodes.alloc node).modify p fun q => q.pushBack g.storage v.nodes.next })
    else none

/-- `addChild`. -/
def addChild (g : Garbage) : Option ℕ → List Char → FileSystem → Option (ℕ × FileSystem) :=
  addNode g fun _ node => some node

/-- The path that `addDir` writes. -/
def dirPath (buf parentPath name : List Char) : Option (List Char) :=
  (Str.text parentPath).bind fun path => (Str.strcpy buf path).bind fun buf =>
    (Str.strcat buf ['/']).bind fun buf => Str.strcat buf name

/-- `addDir`. -/
def addDir (g : Garbage) : Option ℕ → List Char → FileSystem → Option (ℕ × FileSystem) :=
  addNode g fun parentNode node => (dirPath node.path parentNode.path node.name).map fun path =>
    { node with flags := TFS_FOLDER, path := path }

/-- `addFile`. -/
def addFile (g : Garbage) : Option ℕ → List Char → FileSystem → Option (ℕ × FileSystem) :=
  addNode g fun _ node => some { node with flags := TFS_FILE }

/-- `free` of a node. -/
def freeNode (n : ℕ) (N : Store Node) : Option (Store Node) :=
  (N.get n).map fun _ => N.free n

/-- `free` of some nodes. -/
def freeNodes (ns : List ℕ) (N : Store Node) : Option (Store Node) :=
  ns.foldlM (fun N n => freeNode n N) N

/-- `removeChild`. -/
def removeChild (parent : Option ℕ) (name : List Char) (v : FileSystem) : Option FileSystem :=
  (v.directory parent).bind fun p => (v.nodes.get p).bind fun parentNode =>
    (findIndex v name parentNode.childs.items).bind fun i =>
      match i with
      | none => some v
      | some i =>
        parentNode.childs.items[i]?.bind fun child => (v.nodes.get child).bind fun node =>
          (freeNodes node.childs.items v.nodes).bind fun N => (freeNode child N).bind fun N =>
            (N.get p).bind fun parentNode => (parentNode.removeAt i).map fun parentNode =>
              { v with nodes := N.modify p fun _ => parentNode }

/-! ## The vector of the children -/

variable {v : FileSystem} {p c : ℕ} {name : List Char}

/-- `remove` removes the element at the position: it is the only one, or it is not the first
one and the loop stays inside the storage. -/
def Removable (node : Node) (position : ℕ) : Prop :=
  node.childs.size = 1 ∨
    (0 < position ∧ (node.childs.size = 2 ∨
      position + node.childs.size < node.childs.size + node.spare.length + 2))

lemma removeAt_of_removable {node : Node} {position : ℕ} (hinit : node.childs.isInit = true)
    (hpos : position < node.childs.size) (h : Removable node position) :
    ∃ node', node.removeAt position = some node' ∧ node'.name = node.name ∧
      node'.parent = node.parent ∧ node'.childs.isInit = true ∧
      node'.childs.items = node.childs.items.eraseIdx position ∧
      node'.childs.items.length + node'.spare.length =
        node.childs.items.length + node.spare.length := by
  rw [Removable] at h
  simp only [TurboVector.size] at h hpos
  set L := node.childs.items.length with hL
  have hlen : (node.childs.items ++ node.spare).length = L + node.spare.length := by simp [hL]
  obtain ⟨ys, hys, hyslen, hget⟩ :=
    TurboVector.getElem?_shift (node.childs.items ++ node.spare) position (L - 2) (by omega)
  refine ⟨{ node with
    childs := { node.childs with items := ys.take (L - 1) }, spare := ys.drop (L - 1) }, ?_,
    rfl, rfl, hinit, ?_, ?_⟩
  · have hsize : node.childs.size = L := rfl
    rw [Node.removeAt, if_pos hinit, hsize, if_neg (by omega), hys, Option.map_some]
  · -- below the new length only elements were read
    apply List.ext_getElem?
    intro j
    rw [List.getElem?_take, List.getElem?_eraseIdx]
    by_cases hj : j < L - 1
    · rw [if_pos hj, hget]
      by_cases hjp : j < position
      · rw [if_pos hjp, if_neg (by omega), List.getElem?_append_left (by omega)]
      · rw [if_neg hjp, if_pos (by omega), List.getElem?_append_left (by omega)]
    · rw [if_neg hj]
      split
      · omega
      · rw [List.getElem?_eq_none (by omega)]
  · simp only [List.length_take, List.length_drop]
    omega

/-- The vector of the children is set up, or it is empty. -/
def Ready (node : Node) : Prop :=
  if node.childs.isInit then 0 < node.childs.items.length + node.spare.length
  else node.childs.items = []

lemma Ready.pushBack {node : Node} (h : Ready node) (storage : ℕ → ℕ) (child : ℕ) :
    (node.pushBack storage child).childs.items = node.childs.items ++ [child] ∧
      Ready (node.pushBack storage child) := by
  rw [Ready] at h
  rw [Node.pushBack]
  split at h
  · rename_i hinit
    rw [if_pos hinit]
    split
    · exact ⟨rfl, by simp [Ready, TurboVector.pushBack]⟩
    · rename_i hspare
      have hne : node.childs.items ≠ [] := by
        intro hnil
        simp [hnil, hspare] at h
      rw [if_neg hne]
      exact ⟨rfl, by simp [Ready, TurboVector.pushBack]⟩
  · rename_i hinit
    rw [if_neg hinit, h]
    exact ⟨rfl, by simp [Ready]⟩

/-- `push_back` on `childs` changes the vector of a node and nothing else. -/
lemma Node.pushBack_eq (storage : ℕ → ℕ) (node : Node) (child : ℕ) : ∃ childs spare,
    node.pushBack storage child = { node with childs := childs, spare := spare } := by
  rw [Node.pushBack]
  split
  · split
    · exact ⟨_, _, rfl⟩
    · split
      · exact ⟨_, _, rfl⟩
      · exact ⟨_, _, rfl⟩
  · exact ⟨_, _, rfl⟩

@[simp] lemma Node.pushBack_name (storage : ℕ → ℕ) (node : Node) (child : ℕ) :
    (node.pushBack storage child).name = node.name := by
  obtain ⟨childs, spare, heq⟩ := node.pushBack_eq storage child
  rw [heq]

@[simp] lemma Node.pushBack_parent (storage : ℕ → ℕ) (node : Node) (child : ℕ) :
    (node.pushBack storage child).parent = node.parent := by
  obtain ⟨childs, spare, heq⟩ := node.pushBack_eq storage child
  rw [heq]

@[simp] lemma Node.pushBack_path (storage : ℕ → ℕ) (node : Node) (child : ℕ) :
    (node.pushBack storage child).path = node.path := by
  obtain ⟨childs, spare, heq⟩ := node.pushBack_eq storage child
  rw [heq]

end TurbOS.Vfs
