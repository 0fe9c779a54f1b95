import TurbOS.Lib.Fuel
import TurbOS.Lib.Store
import TurbOS.Scheduler.TurboVector
import TurbOS.Str.Buffer
import TurbOS.Str.Split

/-!
# The virtual file system

Nodes are objects in a store, and pointers to them are handles; a null pointer is `none`.
Reading through a null pointer or beyond the end of an array is a fault: the computation
returns `none`, as it does when it waits for a lock forever or when its fuel is not enough.

The functions below are those that open a path.  The fields `mode` and `fs` of `tfs_node_t`
are left out, and so are the messages that are logged when `debug` is set.
-/

open Fuel

namespace TurbOS.Vfs

/-- `TFS_SYMLINK`. -/
def TFS_SYMLINK : ℕ := 0x06

/-- `TFS_MOUNTPOINT`. -/
def TFS_MOUNTPOINT : ℕ := 0x08

/-- `tfs_node_t`; `spare` is the storage of `childs` from its length up to its capacity, and
`path` is the whole buffer. -/
structure Node where
  name : List Char
  flags : ℕ := 0
  ptr : Option ℕ := none
  parent : Option ℕ := none
  childs : TurboVector ℕ := {}
  spare : List ℕ := []
  path : List Char := []
deriving DecidableEq, Repr

/-- What is done to `vfs_lock`. -/
inductive LockEvent where
  | acquire | release
deriving DecidableEq, Repr

/-- The nodes, the variable `tfs_root` and `vfs_lock`, and a record of what was done to the lock,
which no function reads. -/
structure FileSystem where
  nodes : Store Node := Store.empty
  tfs_root : Option ℕ := none
  locked : Bool := false
  /-- The events of the lock, the last one first. -/
  events : List LockEvent := []

namespace FileSystem

/-- Read a node through a pointer. -/
def deref (v : FileSystem) (pointer : Option ℕ) : Option Node := pointer.bind v.nodes.get

/-- `vfs_lock.lock()`, for a lock that is free. -/
def lock (v : FileSystem) : FileSystem := { v with locked := true, events := .acquire :: v.events }

/-- `vfs_lock.unlock()`. -/
def unlock (v : FileSystem) : FileSystem :=
  { v with locked := false, events := .release :: v.events }

@[simp] lemma nodes_lock (v : FileSystem) : v.lock.nodes = v.nodes := rfl

@[simp] lemma nodes_unlock (v : FileSystem) : v.unlock.nodes = v.nodes := rfl

end FileSystem

/-- `(node->flags & 0x07) == TFS_MOUNTPOINT || (node->flags & 0x07) == TFS_SYMLINK`. -/
def Node.follows (node : Node) : Prop :=
  node.flags &&& 0x07 = TFS_MOUNTPOINT ∨ node.flags &&& 0x07 = TFS_SYMLINK

instance (node : Node) : Decidable node.follows :=
  inferInstanceAs (Decidable (_ ∨ _))

/-- `items--` for an unsigned counter. -/
def decrement (items : ℕ) : ℕ := if items = 0 then 2 ^ 64 - 1 else items - 1

/-- The arguments of `openNext`, which it also uses as variables. -/
structure Cursor where
  parentNode : Option ℕ
  childNode : Option ℕ
  items : ℕ
  cleared : ℕ
deriving DecidableEq, Repr

/-- What a recursive call of `openNext` does: its result is not used. -/
abbrev Recursion := Cursor → FileSystem → Option (Option ℕ × FileSystem)

/-- The part of `openNext` that follows a mount point or a symbolic link. -/
def followNode (rec : Recursion) (c : Cursor) (v : FileSystem) : Option (Cursor × FileSystem) :=
  (v.deref c.parentNode).bind fun node =>
    if node.follows then
      let c := { c with parentNode := node.ptr }
      (rec c v).map fun r => (c, r.2)
    else some (c, v)

/-- The part of `openNext` for a component `..`. -/
def openDotDot (rec : Recursion) (pathArray : List (List Char)) (c : Cursor) (v : FileSystem) :
    Option (Cursor × FileSystem) :=
  pathArray[c.cleared]?.bind fun word =>
    if word = ['.', '.'] then
      (v.deref c.parentNode).bind fun node =>
        let c :=
          if c.items > 1 then { c with parentNode := node.parent }
          else { c with childNode := node.parent }
        let c := { c with cleared := c.cleared + 1, items := decrement c.items }
        (rec c v).map fun r => (c, r.2)
    else some (c, v)

/-- The part of `openNext` for a component `.`. -/
def openDot (rec : Recursion) (pathArray : List (List Char)) (c : Cursor) (v : FileSystem) :
    Option (Cursor × FileSystem) :=
  pathArray[c.cleared]?.bind fun word =>
    if word = ['.'] then
      let c := if c.items ≤ 1 then { c with childNode := c.parentNode } else c
      let c := { c with cleared := c.cleared + 1, items := decrement c.items }
      (rec c v).map fun r => (c, r.2)
    else some (c, v)

/-- One round of the loop of `openNext` over the children of `parentNode`, which changes in
the loop. -/
def openChild (rec : Recursion) (pathArray : List (List Char)) (x : ℕ × Cursor × FileSystem) :
    Option ((ℕ × Cursor × FileSystem) ⊕ (Cursor × FileSystem)) :=
  let i := x.1
  let c := x.2.1
  let v := x.2.2
  (v.deref c.parentNode).bind fun parent =>
    if i < parent.childs.size then
      parent.childs.items[i]?.bind fun child => (v.nodes.get child).bind fun node =>
        let c := { c with childNode := if node.follows then node.ptr else some child }
        (v.deref c.childNode).bind fun target => pathArray[c.cleared]?.bind fun word =>
          if target.name = word then
            let c := { c with
              parentNode := some child
              cleared := c.cleared + 1
              items := decrement c.items }
            (rec c v).map fun r => .inl (i + 1, c, r.2)
          else some (.inl (i + 1, c, v))
    else some (.inr (c, v))

/-- The loop of `openNext` over the children. -/
def openChilds (rec : Recursion) (pathArray : List (List Char)) (fuel : ℕ) (c : Cursor)
    (v : FileSystem) : Option (Cursor × FileSystem) :=
  loop (openChild rec pathArray) fuel (0, c, v)

/-- `openNext`. -/
def openNext (pathArray : List (List Char)) : ℕ → Recursion
  | 0, _, _ => none
  | fuel + 1, c, v =>
    if c.items > 0 then
      (followNode (openNext pathArray fuel) c v).bind fun (c, v) =>
        (openDotDot (openNext pathArray fuel) pathArray c v).bind fun (c, v) =>
          (openDot (openNext pathArray fuel) pathArray c v).bind fun (c, v) =>
            (openChilds (openNext pathArray fuel) pathArray fuel c v).map fun (c, v) =>
              -- `notFound` unlocks, and its result is not used either
              (c.childNode, v.unlock.unlock)
    else some (c.childNode, v.unlock)

/-- `while(!strcmp(pathArray[0],"")){ items--; pathArray++; }`. -/
def stripFront : List (List Char) → Option (List (List Char))
  | [] => none
  | w :: words => if w = [] then stripFront words else some (w :: words)

/-- `while(!strcmp(pathArray[items-1],"")){ items--; }`. -/
def stripBack (words : List (List Char)) : ℕ → Option ℕ
  | 0 => none
  | items + 1 => words[items]?.bind fun w =>
    if w = [] then stripBack words items else some (items + 1)

/-- `open`; `ok` says whether the allocation in `strsplit_count` succeeds. -/
def vfsOpen (fuel : ℕ) (ok : Bool) (parent : Option ℕ) (path : Option (List Char))
    (v : FileSystem) : Option (Option ℕ × FileSystem) :=
  if parent = none ∨ parent = v.tfs_root then
    path.bind fun p =>
      if p = ['/'] then (v.deref v.tfs_root).map fun root => (root.ptr, v)
      else openLocked p
  else
    match path with
    | none => if v.locked then none else some (none, v.lock.unlock)
    | some p => openLocked p
where
  /-- The part after the test for the root, for a path that is not null. -/
  openLocked (path : List Char) : Option (Option ℕ × FileSystem) :=
    if v.locked then none
    else
      let v := v.lock
      if ' ' ∈ path then some (none, v.unlock)
      else
        (match parent with
          | none => (v.deref v.tfs_root).map Node.ptr
          | some p => some (some p)).bind fun parentNode =>
          if parentNode = none then some (none, v.unlock)
          else if path = ['/'] then some (parent, v)
          else
            (Str.strsplit_count fuel ok path ['/']).bind fun pathArray =>
              match pathArray with
              | none => some (none, v)
              | some pathArray =>
                (stripFront pathArray).bind fun pathArray =>
                  (stripBack pathArray pathArray.length).bind fun items =>
                    openNext pathArray fuel ⟨parentNode, none, items, 0⟩ v

end TurbOS.Vfs
