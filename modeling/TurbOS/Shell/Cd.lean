import TurbOS.Lib.Runs
import TurbOS.Shell.Model
import TurbOS.Vfs.NameMap
import TurbOS.Vfs.Slashes

/-!
# Changing the directory

The branch `cd` assigns `currentNode` before it looks at what it has found.  A path that `open`
cannot find leaves a null pointer there, which is followed for the name; a file becomes the current
directory; and `path` has got a slash by then.  So no `cd` that fails leaves the shell as it was.

What keeps `currentNode` in the tree is that every argument leads to a directory and that `open`
finds it.  Between two commands `run` puts a new node in the place of a null pointer, outside of the
tree.
-/

open Runs

namespace TurbOS.Shell

open Vfs

/-- A command `cd` with its argument, and whether the allocation in `open` succeeds. -/
structure Cd where
  arg : List Char
  ok : Bool := true
deriving DecidableEq, Repr

/-- The shell after the command. -/
def cd (fuel : ℕ) (a : Cd) (s : State) : Option State := (cdBranch fuel a.ok a.arg s).map Prod.fst

/-- The components of an argument. -/
def components (arg : List Char) : List (List Char) := (arg.splitOn '/').filter (· ≠ [])

/-- What an argument means: the root, or what is reached from the current directory. -/
def cdTarget (v : FileSystem) (currentNode : Option ℕ) (arg : List Char) : Option ℕ :=
  if arg = [] then v.tfs_root.bind fun root => childNamed v.nodes root ['/']
  else if arg = ['/'] then (v.deref v.tfs_root).bind Node.ptr
  else currentNode.bind fun n => resolve v.nodes n (components arg)

/-- The pointer leads to a folder of the tree. -/
def IsFolder (v : FileSystem) (pointer : Option ℕ) : Prop :=
  ∃ node, v.deref pointer = some node ∧ node.flags &&& 0x07 = TFS_FOLDER

/-- The argument resolves to a directory. -/
def Leads (s : State) (a : Cd) : Prop := IsFolder s.fs (cdTarget s.fs s.currentNode a.arg)

/-- The current directory is a folder of the tree. -/
def InFolder (s : State) : Prop := IsFolder s.fs s.currentNode

/-- A command that fails changes nothing, and no null pointer is followed. -/
def FailureKeeps (fuel : ℕ) (s : State) (a : Cd) : Prop :=
  ¬ Leads s a → ∃ s', cd fuel a s = some s' ∧ s'.currentNode = s.currentNode ∧ s'.path = s.path

/-- What a run of commands should be. -/
structure SafeRun (fuel : ℕ) (as : List Cd) (s : State) : Prop where
  ends : ∃ s', exec (cd fuel) as s = some s'
  folder : Always (cd fuel) InFolder as s
  failure : Along (cd fuel) (FailureKeeps fuel) as s

/-! ## The condition -/

/-- The arguments that have a test of their own. -/
def Special (arg : List Char) : Prop :=
  arg ∈ [[], ['.', '.'], ['.', '.', '/'], ['.'], ['.', '/'], ['/']]

instance (arg : List Char) : Decidable (Special arg) := inferInstanceAs (Decidable (_ ∈ _))

/-- `open` finds the directory, and `path` has room for its name. -/
structure Opened (s : State) (a : Cd) (n lead trail : ℕ) : Prop where
  ok : a.ok = true
  current : s.currentNode = some n
  words : Words a.arg lead trail (components a.arg)
  space : ' ' ∉ a.arg
  nonempty : components a.arg ≠ []
  opens : PathOpens s.fs.nodes n (decide (0 < trail)) (components a.arg)
  room : ∀ node, s.fs.deref (cdTarget s.fs s.currentNode a.arg) = some node →
    ∃ path, ((Str.strcat s.path ['/']).bind fun path => Str.strcat path node.name) = some path

/-- The condition on a command. -/
def Proper (s : State) (a : Cd) : Prop :=
  Leads s a ∧ (Special a.arg ∨ ∃ n lead trail, Opened s a n lead trail)

/-- The state of the shell. -/
structure Ready (s : State) : Prop where
  tree : Tree s.fs.nodes
  unlocked : s.fs.locked = false
  folder : InFolder s

variable {s s' : State} {a : Cd} {arg : List Char} {v : FileSystem} {n m root fuel : ℕ}
  {node : Node}

/-- The node of the current directory. -/
lemma InFolder.exists_node (h : InFolder s) :
    ∃ n node, s.currentNode = some n ∧ s.fs.nodes.get n = some node ∧
    s.fs.deref s.currentNode = some node ∧ node.flags &&& 0x07 = TFS_FOLDER := by
  obtain ⟨node, hnode, hflags⟩ := h
  obtain ⟨n, hcur, hget⟩ := Option.bind_eq_some_iff.1 hnode
  exact ⟨n, node, hcur, hget, hnode, hflags⟩

/-! ## The arguments with a test of their own -/

lemma isComponent_of_mem {w : List Char} (hspace : ' ' ∉ arg) (hw : w ∈ components arg) :
    IsComponent w := by
  obtain ⟨hmem, hne⟩ := List.mem_filter.1 hw
  refine ⟨by simpa using hne, ?_, fun hc => hspace ?_⟩
  · exact Str.slash_notMem_splitOn hmem
  · have harg : List.intercalate ['/'] (arg.splitOn '/') = arg := List.intercalate_splitOn '/'
    rw [← harg]
    exact subset_intercalate hmem hc

/-- `getChild` looks the name up among the children of the root. -/
lemma getChild_root (hT : Tree v.nodes) (hnode : v.deref v.tfs_root = some node) :
    getChild none ['/'] v = some (v.tfs_root.bind fun root => childNamed v.nodes root ['/']) := by
  obtain ⟨root, hroot, hget⟩ := Option.bind_eq_some_iff.1 hnode
  have hchildren := children_eq hget
  have hlive : ∀ c ∈ node.childs.items, ∃ child, v.nodes.get c = some child := fun c hc =>
    hT.get_of_child (n := root) (by rw [IsChild, hchildren]; exact hc)
  obtain ⟨i, hi, -, hfound⟩ := findIndex_eq hlive
  rw [getChild, if_neg (by simp), FileSystem.directory, Option.none_or, hnode, Option.bind_some, hi,
    Option.map_some, hfound, hroot, Option.bind_some, childNamed, hchildren]

lemma childNamed_of_none {name : List Char} (h : v.nodes.get root = none) :
    childNamed v.nodes root name = none := by
  rw [childNamed, children, h]
  rfl

/-- Without a root nothing is found. -/
lemma getChild_none (h : v.deref v.tfs_root = none) : getChild none ['/'] v = none ∧
    (v.tfs_root.bind fun root => childNamed v.nodes root ['/']) = none := by
  constructor
  · rw [getChild, if_neg (by simp), FileSystem.directory, Option.none_or, h, Option.bind_none]
  · cases hroot : v.tfs_root with
    | none => rfl
    | some root =>
      rw [hroot] at h
      exact childNamed_of_none h

lemma cdTarget_dotDot (harg : arg = ['.', '.'] ∨ arg = ['.', '.', '/'])
    (hcur : s.currentNode = some n) : cdTarget s.fs s.currentNode arg = parentOf s.fs.nodes n := by
  have hcomponents : components arg = [['.', '.']] := by
    rcases harg with rfl | rfl <;> decide
  rw [cdTarget, if_neg (by rcases harg with rfl | rfl <;> simp),
    if_neg (by rcases harg with rfl | rfl <;> simp), hcur, Option.bind_some, hcomponents, resolve,
    if_neg (by simp), if_pos rfl]
  cases parentOf s.fs.nodes n <;> rfl

lemma cdTarget_dot (harg : arg = ['.'] ∨ arg = ['.', '/']) (hcur : s.currentNode = some n) :
    cdTarget s.fs s.currentNode arg = s.currentNode := by
  have hcomponents : components arg = [['.']] := by
    rcases harg with rfl | rfl <;> decide
  rw [cdTarget, if_neg (by rcases harg with rfl | rfl <;> simp),
    if_neg (by rcases harg with rfl | rfl <;> simp), hcur, Option.bind_some, hcomponents, resolve,
    if_pos rfl, resolve]

lemma cdBranch_dotDot (harg : arg = ['.', '.'] ∨ arg = ['.', '.', '/']) (ok : Bool) :
    cdBranch fuel ok arg s
      = (s.fs.deref s.currentNode).map fun node => ({ s with currentNode := node.parent }, []) := by
  rcases harg with rfl | rfl <;> rfl

lemma cdBranch_dot (harg : arg = ['.'] ∨ arg = ['.', '/']) (ok : Bool) :
    cdBranch fuel ok arg s = some (s, []) := by
  rcases harg with rfl | rfl <;> rfl

lemma cdBranch_slash (ok : Bool) : cdBranch fuel ok ['/'] s
    = (s.fs.deref s.fs.tfs_root).map fun root => ({ s with currentNode := root.ptr }, []) := rfl

lemma Special.cases (h : Special arg) : arg = [] ∨ (arg = ['.', '.'] ∨ arg = ['.', '.', '/']) ∨
    (arg = ['.'] ∨ arg = ['.', '/']) ∨ arg = ['/'] := by
  rw [Special] at h
  simp only [List.mem_cons, List.not_mem_nil, or_false] at h
  tauto

/-- Such an argument assigns what it means, or follows a null pointer. -/
lemma cd_special (hT : Tree s.fs.nodes) (hcur : s.currentNode = some n)
    (hnode : s.fs.nodes.get n = some node) (hspecial : Special a.arg) (fuel : ℕ) :
    cd fuel a s = none ∧ cdTarget s.fs s.currentNode a.arg = none ∨
      cd fuel a s = some { s with currentNode := cdTarget s.fs s.currentNode a.arg } := by
  have hderef : s.fs.deref s.currentNode = some node := by
    rw [hcur, FileSystem.deref, Option.bind_some, hnode]
  obtain ⟨arg, ok⟩ := a
  dsimp only
  rcases hspecial.cases with rfl | hdots | hdot | rfl
  · rw [cd, cdBranch, if_pos rfl, cdTarget, if_pos rfl]
    cases hroot : s.fs.deref s.fs.tfs_root with
    | none =>
      -- the root does not exist
      obtain ⟨hchild, htarget⟩ := getChild_none hroot
      exact .inl ⟨by rw [hchild]; rfl, htarget⟩
    | some rootNode =>
      right
      rw [getChild_root hT hroot]
      rfl
  · right
    rw [cd, cdBranch_dotDot hdots, hderef, cdTarget_dotDot hdots hcur, parentOf, hnode]
    rfl
  · right
    rw [cd, cdBranch_dot hdot, cdTarget_dot hdot hcur]
    rfl
  · rw [cd, cdBranch_slash, cdTarget, if_neg (by simp), if_pos rfl]
    cases hroot : s.fs.deref s.fs.tfs_root with
    | none => exact .inl ⟨rfl, rfl⟩
    | some rootNode => exact .inr rfl

/-! ## Paths -/

lemma ne_slash (h : ¬ Special arg) : arg ≠ ['/'] := fun heq => h (by rw [heq]; decide)

lemma ne_nil (h : ¬ Special arg) : arg ≠ [] := fun heq => h (by rw [heq]; decide)

lemma cdTarget_path (h : ¬ Special arg) (hcur : s.currentNode = some n) :
    cdTarget s.fs s.currentNode arg = resolve s.fs.nodes n (components arg) := by
  rw [cdTarget, if_neg (ne_nil h), if_neg (ne_slash h), hcur, Option.bind_some]

/-- `cd` with any other argument. -/
lemma cd_path (h : ¬ Special a.arg) : cd fuel a s =
    (vfsOpen fuel a.ok s.currentNode (some a.arg) s.fs).bind fun r =>
      (Str.strcat s.path ['/']).bind fun path => (r.2.deref r.1).bind fun node =>
        (Str.strcat path node.name).map fun path => ⟨r.2, r.1, path⟩ := by
  have hne : ∀ t ∈ [[], ['.', '.'], ['.', '.', '/'], ['.'], ['.', '/'], ['/']], a.arg ≠ t :=
    fun t ht heq => h (heq ▸ ht)
  simp only [List.forall_mem_cons] at hne
  obtain ⟨hempty, h₁, h₂, h₃, h₄, h₅, -⟩ := hne
  have hdots : ¬ (a.arg = "..".toList ∨ a.arg = "../".toList) := not_or.2 ⟨h₁, h₂⟩
  have hdot : ¬ (a.arg = ".".toList ∨ a.arg = "./".toList) := not_or.2 ⟨h₃, h₄⟩
  have hslash : ¬ a.arg = "/".toList := h₅
  rw [cd, cdBranch, if_neg hempty, if_neg hdots, if_neg hdot, if_neg hslash]
  refine Fuel.map_bind_congr fun r => Fuel.map_bind_congr fun path =>
    Fuel.map_bind_congr fun node => ?_
  rw [Option.map_map]
  refine Option.map_congr fun path _ => ?_
  -- the message does not change the state
  rw [Function.comp_apply]
  split <;> rfl

/-- What such a command has done if it did not fault: `open` has returned a node, and a slash and
its name stand behind the path. -/
lemma cd_path_cases (h : ¬ Special a.arg) (hcd : cd fuel a s = some s') :
    ∃ node path, vfsOpen fuel a.ok s.currentNode (some a.arg) s.fs = some (s'.currentNode, s'.fs) ∧
      s'.fs.deref s'.currentNode = some node ∧ Str.strcat s.path ['/'] = some path ∧
      Str.strcat path node.name = some s'.path := by
  rw [cd_path h] at hcd
  obtain ⟨r, hopen, hcd⟩ := Option.bind_eq_some_iff.1 hcd
  obtain ⟨path, hslash, hcd⟩ := Option.bind_eq_some_iff.1 hcd
  obtain ⟨node, hnode, hcd⟩ := Option.bind_eq_some_iff.1 hcd
  obtain ⟨path', hname, rfl⟩ := Option.map_eq_some_iff.1 hcd
  exact ⟨node, path, hopen, hnode, hslash, hname⟩

/-- If `open` returns a node, the nodes are as before and the lock is free. -/
lemma vfsOpen_kept {ok : Bool} {r : Option ℕ × FileSystem} (hne : arg ≠ ['/'])
    (h : vfsOpen fuel ok (some n) (some arg) v = some r) (hr : r.1 ≠ none) :
    r.2.nodes = v.nodes ∧ r.2.locked = false := by
  have hopen : vfsOpen.openLocked fuel ok (some n) v arg = some r := by
    rw [vfsOpen] at h
    split at h
    · rwa [Option.bind_some, if_neg hne] at h
    · exact h
  rw [vfsOpen.openLocked] at hopen
  split at hopen
  · simp at hopen
  dsimp only at hopen
  split at hopen
  · rw [← Option.some.inj hopen] at hr
    exact absurd rfl hr
  rw [Option.bind_some, if_neg (Option.some_ne_none n)] at hopen
  obtain ⟨words, -, hopen⟩ := Option.bind_eq_some_iff.1 hopen
  cases words with
  | none =>
    rw [← Option.some.inj hopen] at hr
    exact absurd rfl hr
  | some words =>
    obtain ⟨pathArray, -, hopen⟩ := Option.bind_eq_some_iff.1 hopen
    obtain ⟨items, -, hopen⟩ := Option.bind_eq_some_iff.1 hopen
    have hnodes : r.2.nodes = v.lock.nodes := openNext_keeps _ _ _ _ _ hopen
    exact ⟨hnodes, openNext_unlocked hopen⟩

/-- A name that is appended behind a slash changes the path. -/
lemma strcat_slash_ne {p p₁ p₂ name : List Char} (h₁ : Str.strcat p ['/'] = some p₁)
    (h₂ : Str.strcat p₁ name = some p₂) : p₂ ≠ p := by
  obtain ⟨t, ht, -⟩ := Option.bind_eq_some_iff.1 h₁
  rw [Str.strcat_singleton ht] at h₁
  obtain rfl := Option.some.inj h₁
  obtain ⟨u, hu, h₂⟩ := Option.bind_eq_some_iff.1 h₂
  have hlen := Str.length_lt_text_set ht (by decide) hu
  obtain ⟨rest, hp, -⟩ := Str.text_eq_some_iff.1 ht
  obtain ⟨rest', hset, -⟩ := Str.text_eq_some_iff.1 hu
  split at h₂
  swap
  · simp at h₂
  rw [← Option.some.inj h₂]
  intro heq
  have hfront : (p.set t.length '/')[t.length]? = u[t.length]? := by
    rw [hset, List.getElem?_append_left hlen]
  have hslash : (u ++ name ++ (p.set t.length '/').drop (u.length + name.length))[t.length]? =
      some '/' := by
    rw [List.append_assoc, List.getElem?_append_left hlen, ← hfront,
      List.getElem?_set_self (Str.length_lt_of_text ht)]
  rw [heq, hp] at hslash
  simp at hslash

/-- A command that does not fail leaves the shell ready for the next one. -/
lemma Ready.step (hs : Ready s) (ha : Proper s a) :
    ∃ F s', (∀ fuel ≥ F, cd fuel a s = some s') ∧ Ready s' := by
  obtain ⟨n, node, hcur, hget, -, -⟩ := hs.folder.exists_node
  obtain ⟨hleads, hkind⟩ := ha
  obtain ⟨target, htarget, htargetFlags⟩ := hleads
  by_cases hspecial : Special a.arg
  · refine ⟨0, { s with currentNode := cdTarget s.fs s.currentNode a.arg }, fun fuel _ => ?_,
        hs.tree, hs.unlocked, target, htarget, htargetFlags⟩
    rcases cd_special hs.tree hcur hget hspecial fuel with ⟨-, hnone⟩ | hsome
    · rw [hnone] at htarget
      simp [FileSystem.deref] at htarget
    · exact hsome
  · obtain ⟨n', lead, trail, hopened⟩ := hkind.resolve_left hspecial
    obtain rfl : n = n' := Option.some.inj (hcur.symm.trans hopened.current)
    obtain ⟨F, v', hopen, hnodes, hroot, hlock⟩ :=
      vfsOpen_returns hopened.words hs.tree hs.unlocked hget
      hopened.nonempty (fun w hw => isComponent_of_mem hopened.space hw) hopened.opens
    obtain ⟨path, hpath⟩ := hopened.room target htarget
    obtain ⟨path₁, hpath₁, hpath⟩ := Option.bind_eq_some_iff.1 hpath
    rw [cdTarget_path hspecial hcur] at htarget
    have hderef : v'.deref (resolve s.fs.nodes n (components a.arg)) = some target := by
      rw [FileSystem.deref, hnodes]
      exact htarget
    refine ⟨F, ⟨v', resolve s.fs.nodes n (components a.arg), path⟩, fun fuel hfuel => ?_, ?_, hlock,
      target, hderef, htargetFlags⟩
    · rw [cd_path hspecial, hcur, hopened.ok, hopen fuel hfuel, Option.bind_some, hpath₁,
        Option.bind_some, hderef, Option.bind_some, hpath, Option.map_some]
    · dsimp only
      rw [hnodes]
      exact hs.tree

/-- A command that fails changes something, or faults. -/
lemma Ready.leads (hs : Ready s) (h : FailureKeeps fuel s a) : Leads s a := by
  by_contra hfails
  obtain ⟨s', hs', hcurrent, hpath⟩ := h hfails
  obtain ⟨n, node, hcur, hget, hnode, hflags⟩ := hs.folder.exists_node
  by_cases hspecial : Special a.arg
  · rcases cd_special hs.tree hcur hget hspecial fuel with ⟨hnone, -⟩ | hsome
    · rw [hnone] at hs'
      simp at hs'
    · -- the current directory would be what the argument means
      rw [hsome] at hs'
      rw [← Option.some.inj hs'] at hcurrent
      dsimp only at hcurrent
      exact hfails ⟨node, by rw [hcurrent, hnode], hflags⟩
  · -- the path would be longer by a slash and a name
    obtain ⟨target, path, -, -, hslash, hname⟩ := cd_path_cases hspecial hs'
    exact strcat_slash_ne hslash hname hpath

/-- The tree and the lock after any command. -/
lemma Ready.next (hs : Ready s) (h : cd fuel a s = some s') (hfolder : InFolder s') : Ready s' := by
  obtain ⟨n, node, hcur, hget, -, -⟩ := hs.folder.exists_node
  by_cases hspecial : Special a.arg
  · rcases cd_special hs.tree hcur hget hspecial fuel with ⟨hnone, -⟩ | hsome
    · rw [hnone] at h
      simp at h
    · obtain rfl := Option.some.inj (hsome.symm.trans h)
      exact ⟨hs.tree, hs.unlocked, hfolder⟩
  · obtain ⟨target, path, hopen, htarget, -, -⟩ := cd_path_cases hspecial h
    rw [hcur] at hopen
    have hr : s'.currentNode ≠ none := by
      intro hnone
      rw [hnone] at htarget
      simp [FileSystem.deref] at htarget
    obtain ⟨hnodes, hlock⟩ := vfsOpen_kept (ne_slash hspecial) hopen hr
    dsimp only at hnodes hlock
    exact ⟨by rw [hnodes]; exact hs.tree, hlock, hfolder⟩

/-! ## The main result -/

/-- **Runs of `cd`.**  If every argument leads to a directory that `open` finds, then with enough
fuel the run ends without a fault and the current directory is always a folder of the tree.  And in
a run that is as it should be, every argument leads to a directory: a command that fails never
leaves the shell as it was. -/
theorem cd_safe (hs : Ready s) (as : List Cd) :
    (∃ F, ∀ fuel ≥ F, Along (cd fuel) Proper as s → SafeRun fuel as s) ∧
      ∀ fuel, SafeRun fuel as s → Along (cd fuel) Leads as s := by
  constructor
  · induction as generalizing s with
    | nil => exact ⟨0, fun fuel _ _ => ⟨⟨s, rfl⟩, hs.folder, trivial⟩⟩
    | cons a as ih =>
      by_cases ha : Proper s a
      · obtain ⟨F₁, s₁, h₁, hs₁⟩ := hs.step ha
        obtain ⟨F₂, h₂⟩ := ih hs₁
        refine ⟨max F₁ F₂, fun fuel hfuel halong => ?_⟩
        have hstep := h₁ fuel (by omega)
        obtain ⟨⟨s', hends⟩, hfolder, hfailure⟩ := h₂ fuel (by omega) (halong.2 s₁ hstep)
        refine ⟨⟨s', by rw [exec, hstep, Option.bind_some, hends]⟩, ⟨hs.folder, fun s₂ hs₂ => ?_⟩,
          ⟨fun hfails => absurd ha.1 hfails, fun s₂ hs₂ => ?_⟩⟩
        · rw [← Option.some.inj (hstep.symm.trans hs₂)]
          exact hfolder
        · rw [← Option.some.inj (hstep.symm.trans hs₂)]
          exact hfailure
      · exact ⟨0, fun fuel _ halong => absurd halong.1 ha⟩
  · rintro fuel ⟨⟨s', hends⟩, hfolder, hfailure⟩
    induction as generalizing s with
    | nil => trivial
    | cons a as ih =>
      refine ⟨hs.leads hfailure.1, fun s₁ hs₁ => ?_⟩
      have hrest := hfolder.2 s₁ hs₁
      rw [exec, hs₁, Option.bind_some] at hends
      exact ih (hs.next hs₁ hrest.head) hrest (hfailure.2 s₁ hs₁) hends

/-! ## A small tree -/

/-- A folder with a folder `d` in it. -/
def folders : Store Node :=
  (Store.empty.alloc { name := ['r'], flags := TFS_FOLDER, childs := ⟨true, [1]⟩ }).alloc
    { name := ['d'], flags := TFS_FOLDER, parent := some 0 }

lemma folders_none (h : 2 ≤ n) : folders.get n = none := folders.fresh n h

lemma folders_isChild {c : ℕ} (h : IsChild folders n c) : n = 0 ∧ c = 1 := by
  by_cases hn : n < 2
  · interval_cases n <;> simp [IsChild, children, folders, Store.get_alloc] at h ⊢
    exact h
  · simp [IsChild, children, folders_none (by omega : 2 ≤ n)] at h

lemma folders_tree : Tree folders where
  depth := by
    refine ⟨fun n => if n = 0 then 0 else 1, fun n c h => ?_⟩
    obtain ⟨rfl, rfl⟩ := folders_isChild h
    rfl
  child := by
    intro n c h
    obtain ⟨rfl, rfl⟩ := folders_isChild h
    rfl
  parent := by
    intro n p h
    by_cases hn : n < 2
    · interval_cases n <;> simp [parentOf, folders, Store.get_alloc] at h
      subst h
      simp [IsChild, children, folders, Store.get_alloc]
    · simp [parentOf, folders_none (by omega : 2 ≤ n)] at h
  nodup := by
    intro n
    by_cases hn : n < 2
    · interval_cases n <;> decide
    · simp [children, folders_none (by omega : 2 ≤ n)]
  plain := by
    intro n node h
    by_cases hn : n < 2
    · interval_cases n <;> simp [folders, Store.get_alloc] at h <;> subst h <;> decide
    · simp [folders_none (by omega : 2 ≤ n)] at h

/-- The shell in one of the two folders. -/
def shellIn (n : ℕ) : State where
  fs := { nodes := folders }
  currentNode := some n
  path := List.replicate 8 '\x00'

lemma shellIn_ready (h : n < 2) : Ready (shellIn n) := by
  refine ⟨folders_tree, rfl, ?_⟩
  interval_cases n
  · exact ⟨{ name := ['r'], flags := TFS_FOLDER, childs := ⟨true, [1]⟩ }, rfl, rfl⟩
  · exact ⟨{ name := ['d'], flags := TFS_FOLDER, parent := some 0 }, rfl, rfl⟩

lemma shellIn_proper : Proper (shellIn 0) { arg := ['d'] } := by
  have htarget : cdTarget (shellIn 0).fs (shellIn 0).currentNode ['d'] = some 1 := by decide +kernel
  have hnode : (shellIn 0).fs.deref (some 1)
      = some { name := ['d'], flags := TFS_FOLDER, parent := some 0 } := rfl
  have hwords : Words ['d'] 0 0 (components ['d']) := by
    rw [Words]
    decide
  refine ⟨⟨_, by rw [htarget, hnode], rfl⟩,
    .inr ⟨0, 0, 0, rfl, rfl, hwords, by decide, by decide, ?_, ?_⟩⟩
  · refine ⟨false, false, [['d']], by decide, by simp [IsName],
      .inr ⟨by simp, 0, rfl, .inr ⟨1, ?_⟩⟩⟩
    exact ⟨0, 1, le_rfl, rfl, by decide, rfl, by decide⟩
  · intro node hdir
    rw [htarget, hnode] at hdir
    rw [← Option.some.inj hdir]
    exact ⟨_, rfl⟩

/-- `cd d` goes to the folder. -/
theorem cd_safe_folders : ∃ F, ∀ fuel ≥ F, SafeRun fuel [{ arg := ['d'] }] (shellIn 0) := by
  have hs : Ready (shellIn 0) := shellIn_ready (by decide)
  obtain ⟨F, hF⟩ := (cd_safe hs [{ arg := ['d'] }]).1
  exact ⟨F, fun fuel hfuel => hF fuel hfuel ⟨shellIn_proper, fun _ _ => trivial⟩⟩

/-- In the folder `d` there is no `x`; `cd x` follows a null pointer. -/
theorem cd_not_safe :
    ¬ ∀ (s : State) (as : List Cd), Ready s → ∃ F, ∀ fuel ≥ F, SafeRun fuel as s := by
  intro hall
  have hs : Ready (shellIn 1) := shellIn_ready (by decide)
  obtain ⟨F, hF⟩ := hall (shellIn 1) [{ arg := ['x'] }] hs
  have hleads := hs.leads (hF F le_rfl).failure.1
  obtain ⟨node, hnode, -⟩ := hleads
  have htarget : cdTarget (shellIn 1).fs (shellIn 1).currentNode ['x'] = none := by decide +kernel
  rw [htarget] at hnode
  simp [FileSystem.deref] at hnode

end TurbOS.Shell
