import TurbOS.Lib.Runs
import TurbOS.Vfs.NameMap

/-!
# Names and paths of nodes

A node has a buffer for its name and one for its path.  `addDir` writes the path of the parent, a
slash and the name into the second one, with `strcpy` and `strcat`: neither looks at the length, and
`strcat` writes no terminator.  So the path is right only if it fits, and if the memory that the
node was made from holds zeros where the string has to end, as memory from the heap does.
-/

open Runs

namespace TurbOS.Vfs

/-- `PATH_LENGTH`. -/
def PATH_LENGTH : ℕ := 128

variable {v : FileSystem} {parent : Option ℕ} {name pp buf parentPath : List Char} {g : Garbage}

/-! ## The path of a directory -/

/-- What the second `strcat` appends to. -/
lemma dirPath_eq (hpp : Str.text parentPath = some pp) (hlen : pp.length < buf.length) :
    dirPath buf parentPath name
      = Str.strcat (pp ++ '/' :: buf.drop (pp.length + 1)) name := by
  obtain ⟨rest, -, hzero⟩ := Str.text_eq_some_iff.mp hpp
  have htext : Str.text (pp ++ '\x00' :: buf.drop (pp.length + 1)) = some pp :=
    Str.text_eq_some_iff.mpr ⟨_, rfl, hzero⟩
  rw [dirPath, hpp, Option.bind_some, Str.strcpy, if_pos hlen, Option.bind_some,
    Str.strcat_singleton htext, Option.bind_some]
  simp

/-- The buffer from a zero on. -/
lemma drop_of_zero {k : ℕ} (h : buf[k]? = some '\x00') :
    buf.drop k = '\x00' :: buf.drop (k + 1) := by
  obtain ⟨hk, hzero⟩ := List.getElem?_eq_some_iff.mp h
  rw [List.drop_eq_getElem_cons hk, hzero]

/-- Where the slash was written, the string ends if the memory has a zero behind it. -/
lemma text_slash_iff {t rest : List Char} (hzero : '\x00' ∉ pp)
    (ht : Str.text (pp ++ '/' :: rest) = some t) :
    pp.length + 1 ≤ t.length ∧
      (t.length = pp.length + 1 → t = pp ++ ['/'] ∧ rest.head? = some '\x00') := by
  obtain ⟨behind, heq, hnone⟩ := Str.text_eq_some_iff.mp ht
  have hfront : pp ++ '/' :: rest = (pp ++ ['/']) ++ rest := by simp
  have hnonzero : '\x00' ∉ pp ++ ['/'] := by
    rw [List.mem_append, not_or]
    exact ⟨hzero, by simp⟩
  rw [hfront] at heq
  constructor
  · by_contra hshort
    -- the zero would be one of the characters that were written
    have hchar : ((pp ++ ['/']) ++ rest)[t.length]? = some '\x00' := by
      rw [heq, List.getElem?_append_right le_rfl, Nat.sub_self]
      rfl
    rw [List.getElem?_append_left (by simp; omega)] at hchar
    exact hnonzero (List.mem_of_getElem? hchar)
  · intro hlen
    obtain ⟨hsame, hrest⟩ := List.append_inj heq (by simp [hlen])
    exact ⟨hsame.symm, by rw [hrest]; rfl⟩

/-- The path is the one of the parent, a slash and the name, if it fits and the memory has zeros
where the slash and the name end. -/
lemma dirPath_iff (hpp : Str.text parentPath = some pp) (hlen : pp.length < buf.length)
    (hname : '\x00' ∉ name) :
    (∃ path, dirPath buf parentPath name = some path ∧ path.length = buf.length ∧
        Str.text path = some (pp ++ '/' :: name)) ↔
      pp.length + 1 + name.length < buf.length ∧ buf[pp.length + 1]? = some '\x00' ∧
        buf[pp.length + 1 + name.length]? = some '\x00' := by
  obtain ⟨-, -, hzero⟩ := Str.text_eq_some_iff.mp hpp
  have hwhole : (pp ++ '/' :: buf.drop (pp.length + 1)).length = buf.length := by
    rw [List.length_append, List.length_cons, List.length_drop]
    omega
  have hdrop : ∀ k, (pp ++ '/' :: buf.drop (pp.length + 1)).drop (pp.length + 1 + k)
      = buf.drop (pp.length + 1 + k) := by
    intro k
    have hfront : pp ++ '/' :: buf.drop (pp.length + 1) = (pp ++ ['/']) ++ buf.drop
        (pp.length + 1) := by
      simp
    rw [hfront, ← List.drop_drop, List.drop_left' (by simp), List.drop_drop]
  rw [dirPath_eq hpp hlen]
  constructor
  · rintro ⟨path, hpath, hsize, htext⟩
    obtain ⟨t, ht, hpath⟩ := Option.bind_eq_some_iff.mp hpath
    split at hpath
    swap
    · simp at hpath
    obtain rfl := Option.some.inj hpath
    obtain ⟨hlong, hexact⟩ := text_slash_iff hzero ht
    obtain ⟨behind, heq, -⟩ := Str.text_eq_some_iff.mp htext
    have hat : pp.length + 1 + name.length = (pp ++ '/' :: name).length := by
      rw [List.length_append, List.length_cons]
      omega
    have hend : (t ++ name ++ (pp ++ '/' :: buf.drop (pp.length + 1)).drop
      (t.length + name.length))[
        pp.length + 1 + name.length]? = some '\x00' := by
      rw [heq, hat, List.getElem?_append_right le_rfl, Nat.sub_self]
      rfl
    have hshort : t.length = pp.length + 1 := by
      by_contra hne
      rw [List.getElem?_append_left (by rw [List.length_append]; omega)] at hend
      rcases List.mem_append.mp (List.mem_of_getElem? hend) with hmem | hmem
      · exact (Str.text_eq_some_iff.mp ht).choose_spec.2 hmem
      · exact hname hmem
    obtain ⟨rfl, hhead⟩ := hexact hshort
    rw [List.head?_drop] at hhead
    rw [List.getElem?_append_right (by rw [List.length_append]; omega), hshort, hdrop,
      List.getElem?_drop, List.length_append, hshort, Nat.sub_self, Nat.add_zero] at hend
    exact ⟨(List.getElem?_eq_some_iff.mp hend).1, hhead, hend⟩
  · rintro ⟨hfits, hslash, hend⟩
    have hone : pp ++ '/' :: buf.drop (pp.length + 1)
        = (pp ++ ['/']) ++ '\x00' :: buf.drop (pp.length + 1 + 1) := by
      rw [drop_of_zero hslash]
      simp
    have htext : Str.text (pp ++ '/' :: buf.drop (pp.length + 1)) = some (pp ++ ['/']) := by
      refine Str.text_eq_some_iff.mpr ⟨_, hone, ?_⟩
      rw [List.mem_append, not_or]
      exact ⟨hzero, by simp⟩
    have hfront : (pp ++ ['/']).length = pp.length + 1 := by simp
    refine ⟨pp ++ ['/'] ++ name ++ buf.drop (pp.length + 1 + name.length), ?_, ?_, ?_⟩
    · rw [Str.strcat, htext, Option.bind_some, hfront, if_pos (by omega), hdrop]
    · rw [List.length_append, List.length_append, hfront, List.length_drop]
      omega
    · refine Str.text_eq_some_iff.mpr ⟨buf.drop (pp.length + 1 + name.length + 1), ?_, ?_⟩
      · rw [drop_of_zero hend]
        simp
      · rw [List.mem_append, List.mem_cons, not_or, not_or]
        exact ⟨hzero, by decide, hname⟩

/-! ## Adding a node -/

/-- The path of the new node: only `addDir` writes one. -/
def Kind.newPath (k : Kind) (g : Garbage) (dir : Node) (name : List Char) : Option (List Char) :=
  if k = .dir then dirPath g.node.path dir.path name else some g.node.path

/-- What is added, by all three functions. -/
lemma Kind.add_spec {k : Kind} {r : ℕ × FileSystem} (h : k.add g parent name v = some r) :
    ∃ p dir node, v.directory parent = some p ∧ v.nodes.get p = some dir ∧
      name.length < FILENAME_LENGTH ∧ k.newPath g dir name = some node.path ∧ node.name = name ∧
      node.parent = some p ∧ r = (v.nodes.next, { v with
        nodes := (v.nodes.alloc node).modify p fun q => q.pushBack g.storage v.nodes.next }) := by
  have hall : ∀ setUp, addNode g setUp parent name v = some r → ∃ p dir node,
      v.directory parent = some p ∧ v.nodes.get p = some dir ∧ name.length < FILENAME_LENGTH ∧
      setUp dir { g.node with name := name, parent := some p } = some node ∧
      r = (v.nodes.next, { v with
        nodes := (v.nodes.alloc node).modify p fun q => q.pushBack g.storage v.nodes.next }) := by
    intro setUp h
    obtain ⟨p, hp, h⟩ := Option.bind_eq_some_iff.mp h
    obtain ⟨dir, hdir, h⟩ := Option.bind_eq_some_iff.mp h
    split at h
    · rename_i hlen
      obtain ⟨node, hnode, rfl⟩ := Option.map_eq_some_iff.mp h
      exact ⟨p, dir, node, hp, hdir, hlen, hnode, rfl⟩
    · simp at h
  cases k with
  | child =>
    obtain ⟨p, dir, node, hp, hdir, hlen, hnode, hr⟩ := hall (fun _ node => some node) h
    obtain rfl := Option.some.inj hnode
    refine ⟨p, dir, _, hp, hdir, hlen, ?_, ?_, ?_, hr⟩ <;> rfl
  | file =>
    obtain ⟨p, dir, node, hp, hdir, hlen, hnode, hr⟩ :=
      hall (fun _ node => some { node with flags := TFS_FILE }) h
    obtain rfl := Option.some.inj hnode
    refine ⟨p, dir, _, hp, hdir, hlen, ?_, ?_, ?_, hr⟩ <;> rfl
  | dir =>
    obtain ⟨p, dir, node, hp, hdir, hlen, hnode, hr⟩ :=
      hall (fun dir node => (dirPath node.path dir.path node.name).map fun path =>
        { node with flags := TFS_FOLDER, path := path }) h
    obtain ⟨path, hpath, rfl⟩ := Option.map_eq_some_iff.mp hnode
    refine ⟨p, dir, _, hp, hdir, hlen, ?_, ?_, ?_, hr⟩
    · exact hpath
    · rfl
    · rfl

/-- A node is added if the name fits and the path can be written. -/
lemma Kind.add_returns {k : Kind} {p : ℕ} {dir : Node} (hp : v.directory parent = some p)
    (hdir : v.nodes.get p = some dir) (hlen : name.length < FILENAME_LENGTH)
    (hpath : k = .dir → (dirPath g.node.path dir.path name).isSome) :
    ∃ r, k.add g parent name v = some r :=
  (Kind.add_eq hp hdir hlen hpath).imp' _ fun _ h => h.2.2

/-- The nodes that were there keep their name, their parent and their path. -/
def KeepsLabels (v v' : FileSystem) : Prop :=
  ∀ n node, v.nodes.get n = some node → ∃ node', v'.nodes.get n = some node' ∧
    node'.name = node.name ∧ node'.parent = node.parent ∧ node'.path = node.path

lemma Kind.add_keepsLabels {k : Kind} {r : ℕ × FileSystem} (h : k.add g parent name v = some r) :
    KeepsLabels v r.2 := by
  intro n node hn
  obtain ⟨p, dir, added, -, -, -, -, -, -, rfl⟩ := Kind.add_spec h
  have hold : (v.nodes.alloc added).get n = some node := by
    rw [Store.get_alloc_of_lt _ (Store.lt_next hn), hn]
  refine ⟨_, Store.get_modify_of_eq_some _ hold, ?_⟩
  split
  · exact ⟨Node.pushBack_name _ _ _, Node.pushBack_parent _ _ _, Node.pushBack_path _ _ _⟩
  · exact ⟨rfl, rfl, rfl⟩

/-! ## Runs -/

/-- A call of `addChild`, `addDir` or `addFile`. -/
structure Call where
  kind : Kind
  memory : Garbage
  parent : Option ℕ
  name : List Char

/-- The file system, with the nodes that were added to it, and those of them that are
directories. -/
structure Grown where
  fs : FileSystem
  made : List ℕ := []
  dirs : List ℕ := []

/-- One call. -/
def grow (c : Call) (s : Grown) : Option Grown :=
  (c.kind.add c.memory c.parent c.name s.fs).map fun r =>
    { fs := r.2
      made := r.1 :: s.made
      dirs := if c.kind = .dir then r.1 :: s.dirs else s.dirs }

/-- The parent is a node, the name is a string, and the memory has the size of a node. -/
structure Proper (s : Grown) (c : Call) : Prop where
  parent : ∃ dir, s.fs.deref (s.fs.directory c.parent) = some dir
  name : '\x00' ∉ c.name
  memory : c.memory.node.path.length = PATH_LENGTH

/-- The name fits into its buffer; and the path of a directory does, where the memory of the node
has zeros for the ends of both strings that are appended. -/
def Fitting (s : Grown) (c : Call) : Prop :=
  c.name.length < FILENAME_LENGTH ∧
    (c.kind = .dir → ∃ dir pp, s.fs.deref (s.fs.directory c.parent) = some dir ∧
      Str.text dir.path = some pp ∧ pp.length + 1 + c.name.length < PATH_LENGTH ∧
      c.memory.node.path[pp.length + 1]? = some '\x00' ∧
      c.memory.node.path[pp.length + 1 + c.name.length]? = some '\x00')

/-- The name of the node has its terminator inside the buffer. -/
def NameFits (v : FileSystem) (n : ℕ) : Prop :=
  ∃ node, v.nodes.get n = some node ∧ node.name.length < FILENAME_LENGTH

/-- So has its path, which is that of the parent, a slash and the name. -/
def PathFits (v : FileSystem) (n : ℕ) : Prop :=
  ∃ node dir pp, v.nodes.get n = some node ∧ v.deref node.parent = some dir ∧
    Str.text dir.path = some pp ∧ node.path.length = PATH_LENGTH ∧
    Str.text node.path = some (pp ++ '/' :: node.name)

/-- The names and paths fit their buffers. -/
structure InBuffers (s : Grown) : Prop where
  names : ∀ n ∈ s.made, NameFits s.fs n
  paths : ∀ n ∈ s.dirs, PathFits s.fs n

/-- The nodes that were there keep what fits. -/
lemma NameFits.kept {v' : FileSystem} {n : ℕ} (h : NameFits v n) (hkept : KeepsLabels v v') :
    NameFits v' n := by
  obtain ⟨node, hn, hlen⟩ := h
  obtain ⟨node', hn', hname, -, -⟩ := hkept n node hn
  exact ⟨node', hn', by rw [hname]; exact hlen⟩

lemma PathFits.kept {v' : FileSystem} {n : ℕ} (h : PathFits v n) (hkept : KeepsLabels v v') :
    PathFits v' n := by
  obtain ⟨node, dir, pp, hn, hdir, hpp, hlen, htext⟩ := h
  obtain ⟨p, hp, hdir⟩ := Option.bind_eq_some_iff.mp hdir
  obtain ⟨node', hn', hname, hparent, hpath⟩ := hkept n node hn
  obtain ⟨dir', hdir', -, -, hpath'⟩ := hkept p dir hdir
  refine ⟨node', dir', pp, hn', ?_, ?_, ?_, ?_⟩
  · rw [hparent, FileSystem.deref, hp, Option.bind_some, hdir']
  · rw [hpath', hpp]
  · rw [hpath, hlen]
  · rw [hpath, hname, htext]

/-- What a call does to the file system. -/
lemma grow_spec {c : Call} {s s' : Grown} (h : grow c s = some s') :
    ∃ p dir node, s.fs.directory c.parent = some p ∧ s.fs.nodes.get p = some dir ∧
      c.name.length < FILENAME_LENGTH ∧ c.kind.newPath c.memory dir c.name = some node.path ∧
      s'.made = s.fs.nodes.next :: s.made ∧
      s'.dirs = (if c.kind = .dir then s.fs.nodes.next :: s.dirs else s.dirs) ∧
      s'.fs.nodes.get s.fs.nodes.next = some node ∧ node.name = c.name ∧ node.parent = some p ∧
      KeepsLabels s.fs s'.fs := by
  obtain ⟨r, hr, rfl⟩ := Option.map_eq_some_iff.mp h
  have hkeeps : KeepsLabels s.fs r.2 := Kind.add_keepsLabels hr
  obtain ⟨p, dir, node, hp, hdir, hlen, hpath, hname, hparent, rfl⟩ := Kind.add_spec hr
  have hne : s.fs.nodes.next ≠ p := (Store.lt_next hdir).ne'
  refine ⟨p, dir, node, hp, hdir, hlen, hpath, rfl, rfl, ?_, hname, hparent, hkeeps⟩
  exact (Store.get_modify_of_ne _ hne).trans (Store.get_alloc_next _ _)

/-- A call that fits. -/
lemma Fitting.grow {c : Call} {s : Grown} (hf : Fitting s c) (hp : Proper s c)
    (h : InBuffers s) : ∃ s', Vfs.grow c s = some s' ∧ InBuffers s' := by
  obtain ⟨hlen, hpath⟩ := hf
  obtain ⟨dir, hdir⟩ := hp.parent
  obtain ⟨p, hparent, hdir⟩ := Option.bind_eq_some_iff.mp hdir
  have hdirPath : c.kind = .dir → ∃ path pp, Str.text dir.path = some pp ∧
      dirPath c.memory.node.path dir.path c.name = some path ∧ path.length = PATH_LENGTH ∧
      Str.text path = some (pp ++ '/' :: c.name) := by
    intro hkind
    obtain ⟨dir', pp, hdir', hpp, hfits, hslash, hend⟩ := hpath hkind
    rw [FileSystem.deref, hparent, Option.bind_some, hdir] at hdir'
    obtain rfl := Option.some.inj hdir'
    rw [← hp.memory] at hfits
    obtain ⟨path, hwritten, hsize, htext⟩ :=
      (dirPath_iff hpp (by omega) hp.name).mpr ⟨hfits, hslash, hend⟩
    exact ⟨path, pp, hpp, hwritten, hsize.trans hp.memory, htext⟩
  obtain ⟨r, hr⟩ := Kind.add_returns hparent hdir hlen fun hkind => by
    obtain ⟨path, -, -, hwritten, -⟩ := hdirPath hkind
    rw [hwritten]
    rfl
  have hgrow : Vfs.grow c s = some _ := congrArg (Option.map _) hr
  refine ⟨_, hgrow, ?_⟩
  obtain ⟨p', dir', node, hparent', hdir', -, hnew, hmade, hdirs, hget, hname, hup, hkept⟩ :=
    grow_spec hgrow
  obtain rfl := Option.some.inj (hparent.symm.trans hparent')
  obtain rfl := Option.some.inj (hdir.symm.trans hdir')
  constructor
  · intro n hn
    rw [hmade] at hn
    rcases List.mem_cons.mp hn with rfl | hn
    · exact ⟨node, hget, by rw [hname]; exact hlen⟩
    · exact (h.names n hn).kept hkept
  · intro n hn
    rw [hdirs] at hn
    split at hn
    · rename_i hkind
      rcases List.mem_cons.mp hn with rfl | hn
      · obtain ⟨path, pp, hpp, hwritten, hsize, htext⟩ := hdirPath hkind
        rw [Kind.newPath, if_pos hkind, hwritten] at hnew
        rw [Option.some.inj hnew] at hsize htext
        obtain ⟨dir₂, hdir₂, -, -, hsame⟩ := hkept p dir hdir
        refine ⟨node, dir₂, pp, hget, ?_, ?_, hsize, ?_⟩
        · rw [FileSystem.deref, hup, Option.bind_some, hdir₂]
        · rw [hsame, hpp]
        · rw [hname, htext]
      · exact (h.paths n hn).kept hkept
    · exact (h.paths n hn).kept hkept

/-- A call after which everything fits. -/
lemma Fitting.of_inBuffers {c : Call} {s s' : Grown} (hp : Proper s c)
    (hgrow : Vfs.grow c s = some s') (h : InBuffers s') : Fitting s c := by
  obtain ⟨p, dir, node, hparent, hdir, hlen, hnew, -, hdirs, hget, hname, hup, hkept⟩ :=
    grow_spec hgrow
  refine ⟨hlen, fun hkind => ?_⟩
  have hmem : s.fs.nodes.next ∈ s'.dirs := by
    rw [hdirs, if_pos hkind]
    exact List.mem_cons_self
  obtain ⟨node₁, dir₁, pp, hget₁, hdir₁, hpp, hsize, htext⟩ := h.paths _ hmem
  obtain rfl := Option.some.inj (hget.symm.trans hget₁)
  obtain ⟨dir₂, hdir₂, -, -, hsame⟩ := hkept p dir hdir
  rw [FileSystem.deref, hup, Option.bind_some, hdir₂] at hdir₁
  obtain rfl := Option.some.inj hdir₁
  rw [hsame] at hpp
  rw [hname] at htext
  rw [Kind.newPath, if_pos hkind] at hnew
  have hshort : pp.length < c.memory.node.path.length := by
    obtain ⟨behind, heq, -⟩ := Str.text_eq_some_iff.mp htext
    have hlength := congrArg List.length heq
    rw [hsize, List.length_append, List.length_append] at hlength
    rw [hp.memory]
    simp only [List.length_cons] at hlength
    omega
  obtain ⟨hfits, hslash, hend⟩ := (dirPath_iff hpp hshort hp.name).mp
    ⟨node.path, hnew, hsize.trans hp.memory.symm, htext⟩
  refine ⟨dir, pp, ?_, hpp, ?_, hslash, hend⟩
  · rw [FileSystem.deref, hparent, Option.bind_some, hdir]
  · rw [← hp.memory]
    exact hfits

/-- **Names and paths fit their buffers** in every state of a run of calls that comes to its end,
exactly if every call of it fits. -/
theorem buffers_fit_iff {calls : List Call} (hp : Along grow Proper calls ⟨v, [], []⟩) :
    ((∃ s', exec grow calls ⟨v, [], []⟩ = some s') ∧ Always grow InBuffers calls ⟨v, [], []⟩) ↔
      Along grow Fitting calls ⟨v, [], []⟩ := by
  have hstart : InBuffers ⟨v, [], []⟩ := ⟨by simp, by simp⟩
  have hstep : ∀ s c s', InBuffers s → Proper s c ∧ Fitting s c → grow c s = some s' →
      InBuffers s' := by
    rintro s c s' hs ⟨hproper, hf⟩ hgrow
    obtain ⟨s₁, hs₁, hin⟩ := hf.grow hproper hs
    rw [← Option.some.inj (hs₁.symm.trans hgrow)]
    exact hin
  constructor
  · rintro ⟨⟨s', he⟩, hall⟩
    exact Along.of_always (fun s c s' hs hproper hf hgrow => hstep s c s' hs ⟨hproper, hf⟩ hgrow)
      (fun s c s' _ hproper hgrow hin => Fitting.of_inBuffers hproper hgrow hin) hall hp he hstart
  · intro hf
    have hboth := hp.and hf
    constructor
    · have hgo : Along grow (fun s c => ∃ s', grow c s = some s') calls ⟨v, [], []⟩ := by
        refine hboth.imp hstep (fun s c hs hc => ?_) hstart
        obtain ⟨s', hs', -⟩ := hc.2.grow hc.1 hs
        exact ⟨s', hs'⟩
      exact hgo.exec_some fun _ _ h => h
    · exact hboth.always hstep (fun _ hs => hs) hstart

instance (s : Grown) (c : Call) : Decidable (Proper s c) :=
  decidable_of_iff ((s.fs.deref (s.fs.directory c.parent)).isSome = true ∧ '\x00' ∉ c.name ∧
      c.memory.node.path.length = PATH_LENGTH)
    ⟨fun h => ⟨Option.isSome_iff_exists.mp h.1, h.2.1, h.2.2⟩,
      fun h => ⟨Option.isSome_iff_exists.mpr h.parent, h.name, h.memory⟩⟩

instance (s : Grown) (c : Call) : Decidable (Fitting s c) :=
  decidable_of_iff (c.name.length < FILENAME_LENGTH ∧ (c.kind = .dir →
      (s.fs.deref (s.fs.directory c.parent)).any fun dir => (Str.text dir.path).any fun pp =>
        decide (pp.length + 1 + c.name.length < PATH_LENGTH ∧
          c.memory.node.path[pp.length + 1]? = some '\x00' ∧
          c.memory.node.path[pp.length + 1 + c.name.length]? = some '\x00')))
    (by simp [Fitting, Option.any_eq_true])

/-- A file system with one directory, whose path is empty. -/
def rootDirectory : FileSystem :=
  { nodes := Store.empty.alloc { name := [], path := List.replicate 128 '\x00' } }

/-- Memory for a node, with the beginning of what the path buffer holds. -/
def memoryWith (used : List Char) : Garbage :=
  ⟨{ name := [], path := used ++ List.replicate (128 - used.length) '\x00' }, fun _ => 0⟩

theorem buffers_fit_sample :
    (∃ s', exec grow [⟨.dir, memoryWith [], some 0, ['a']⟩, ⟨.dir, memoryWith [], some 1, ['b']⟩,
        ⟨.file, memoryWith ['x'], some 2, ['c']⟩] ⟨rootDirectory, [], []⟩ = some s') ∧
      Always grow InBuffers [⟨.dir, memoryWith [], some 0, ['a']⟩,
        ⟨.dir, memoryWith [], some 1, ['b']⟩, ⟨.file, memoryWith ['x'], some 2, ['c']⟩]
        ⟨rootDirectory, [], []⟩ :=
  (buffers_fit_iff (by decide +kernel)).mpr (by decide +kernel)

/-- A name of 128 characters has no room for its terminator.  Neither has the path of a directory
with a name of a hundred characters, in one with such a name. -/
theorem buffers_overrun :
    exec grow [⟨.file, memoryWith [], some 0, List.replicate 128 'a'⟩]
      ⟨rootDirectory, [], []⟩ = none ∧
    exec grow [⟨.dir, memoryWith [], some 0, List.replicate 100 'a'⟩,
      ⟨.dir, memoryWith [], some 1, List.replicate 100 'b'⟩] ⟨rootDirectory, [], []⟩ = none :=
  ⟨Option.isNone_iff_eq_none.mp (by decide +kernel),
    Option.isNone_iff_eq_none.mp (by decide +kernel)⟩

end TurbOS.Vfs
