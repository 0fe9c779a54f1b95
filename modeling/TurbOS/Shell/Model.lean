import TurbOS.Vfs.Directory

/-!
# The shell

`parse` compares the hash of the command word with the hashes of the names of the commands, and
never the word itself.

A command word is the list of its bytes in front of the terminator.  What a command does outside
of the shell and the file system is recorded as a list of calls; a null pointer that is followed
and a write beyond the end of `path` are faults.
-/

namespace TurbOS.Str

/-- `hash` of `string.hpp`; `char` is signed, so a byte from `0x80` on is extended with ones. -/
def hash : List UInt8 → UInt32
  | [] => 5381
  | c :: input => c.toInt8.toInt32.toUInt32 + 33 * hash input

end TurbOS.Str

namespace TurbOS.Shell

open Vfs

/-- The commands that have a branch in `parse`. -/
inductive Builtin where
  | nano | help | empty | turbo | panic | clear | ls | mkdir | touch | cd
deriving DecidableEq, Repr

/-- The text in the `case` label. -/
def Builtin.text : Builtin → String
  | .nano => "nano"
  | .help => "help"
  | .empty => ""
  | .turbo => "turbo"
  | .panic => "panic"
  | .clear => "clear"
  | .ls => "ls"
  | .mkdir => "mkdir"
  | .touch => "touch"
  | .cd => "cd"

/-- The bytes of the text in the `case` label. -/
def Builtin.name (b : Builtin) : List UInt8 := b.text.toList.map fun c => UInt8.ofNat c.toNat

/-- The branches of the `switch`, in the order of the source. -/
def builtins : List Builtin :=
  [.nano, .help, .empty, .turbo, .panic, .clear, .ls, .mkdir, .touch, .cd]

/-- `switch(hash(cmd))`: the branch that is taken, or `none` for the default branch. -/
def dispatch (cmd : List UInt8) : Option Builtin :=
  builtins.find? fun b => Str.hash cmd = Str.hash b.name

/-! ## The branches -/

/-- The functions that are entered by the branch `nano`. -/
inductive Entry where
  | nano | myTime
deriving DecidableEq, Repr

/-- What a branch does outside of the shell and the file system. -/
inductive Call where
  | print (text : List Char)
  | clear
  | panic (text : List Char)
  | createProc (name : List Char) (entry : Entry)
  | createThread (entry : Entry)
  | schedulerInit
deriving DecidableEq, Repr

/-- The variables of the shell, and the file system. -/
structure State where
  fs : FileSystem
  currentNode : Option ℕ
  path : List Char

/-- `RESET`, and the colours of `color.h` that are used. -/
def RESET : List Char := "\x1b[0m".toList

/-- `BRED`. -/
def BRED : List Char := "\x1b[1;31m".toList

/-- `BGREEN`. -/
def BGREEN : List Char := "\x1b[1;32m".toList

/-- `BYELLOW`. -/
def BYELLOW : List Char := "\x1b[1;33m".toList

/-- `BMAGENTA`. -/
def BMAGENTA : List Char := "\x1b[1;35m".toList

/-- `BWHITE`. -/
def BWHITE : List Char := "\x1b[1;37m".toList

/-- `TFS_PATHDEVICE`. -/
def TFS_PATHDEVICE : ℕ := 0x03

/-- What the branch `help` prints. -/
def helpText : List String :=
  ["All the listed command are not totally implement !\n",
    "-turbo --Display a string into the terminal !\n",
    "-help --Display all the implement commands and future implemented command !\n",
    "-panic-- create a kernel panic \n",
    "-clear --clear the terminal\n",
    "-ls --list every directory and files\n",
    "-cd --change directory\n",
    "-mkdir --create a directory\n",
    "-touch --create and empty file\n",
    "-nano --a sort of nano to prouve Turb-OS is multi tasking\n"]

/-- The node that the branch `ls` lists. -/
def lsNode (fuel : ℕ) (ok : Bool) (arg : List Char) (s : State) : Option (Option ℕ × FileSystem) :=
  if arg = "../".toList ∨ arg = "..".toList then
    (s.fs.deref s.currentNode).map fun node => (node.parent, s.fs)
  else if arg = "./".toList ∨ arg = ".".toList ∨ arg = [] then some (s.currentNode, s.fs)
  else if arg = "/".toList then vfsOpen fuel ok none (some arg) s.fs
  else vfsOpen fuel ok s.currentNode (some arg) s.fs

/-- What is printed for one child. -/
def lsEntry (node : Node) : List Call :=
  let text :=
    if node.flags &&& 0x07 = TFS_FOLDER then BRED ++ "[D]-".toList ++ node.name ++ RESET
    else if node.flags &&& 0x07 = TFS_PATHDEVICE then BGREEN ++ "[P]-".toList ++ node.name ++ RESET
    else if node.flags &&& 0x07 = TFS_SYMLINK then BYELLOW ++ "[S]-".toList ++ node.name ++ RESET
    else if node.flags &&& 0x07 = TFS_FILE then BMAGENTA ++ "[F]-".toList ++ node.name ++ RESET
    else BWHITE ++ node.name ++ RESET
  [.print text, .print [' ']]

/-- The branch `ls`. -/
def lsBranch (fuel : ℕ) (ok : Bool) (arg : List Char) (s : State) : Option (State × List Call) :=
  (lsNode fuel ok arg s).bind fun (pointer, fs) =>
    let s := { s with fs := fs }
    if pointer = none then
      some (s, [.print "[!]-Error, no such file or directory ".toList])
    else
      (fs.deref pointer).bind fun node =>
        if node.flags &&& 0x07 ≠ TFS_FOLDER then some (s, [.print (arg ++ ['\n'])])
        else
          (node.childs.items.mapM fs.nodes.get).map fun childs =>
            (s, childs.flatMap lsEntry ++ [.print ['\n']])

/-- The branch `cd`. -/
def cdBranch (fuel : ℕ) (ok : Bool) (arg : List Char) (s : State) : Option (State × List Call) :=
  if arg = [] then
    (getChild none ['/'] s.fs).map fun node => ({ s with currentNode := node }, [])
  else if arg = "..".toList ∨ arg = "../".toList then
    (s.fs.deref s.currentNode).map fun node => ({ s with currentNode := node.parent }, [])
  else if arg = ".".toList ∨ arg = "./".toList then some (s, [])
  else if arg = "/".toList then
    (s.fs.deref s.fs.tfs_root).map fun root => ({ s with currentNode := root.ptr }, [])
  else
    -- the second test for "/" cannot succeed any more
    (vfsOpen fuel ok s.currentNode (some arg) s.fs).bind fun (pointer, fs) =>
      (Str.strcat s.path ['/']).bind fun path =>
        -- the name is read before the pointer is tested
        (fs.deref pointer).bind fun node => (Str.strcat path node.name).map fun path =>
          let s : State := ⟨fs, pointer, path⟩
          if node.flags &&& 0x07 ≠ TFS_FOLDER then
            (s, [.print (BRED ++ "[!]-Error".toList ++ RESET ++
              " The specified file is not a directory \n".toList)])
          else (s, [])

/-- The body of a branch; `g` is what a new node holds before it is set up. -/
def Builtin.body (fuel : ℕ) (ok : Bool) (g : Garbage) (arg : Option (List Char)) (s : State) :
    Builtin → Option (State × List Call)
  | .nano => some (s, [.clear, .createProc "Init".toList .nano, .createThread .myTime,
      .schedulerInit])
  | .help => some (s, helpText.map fun line => .print line.toList)
  | .empty => some (s, [])
  | .turbo => some (s, [.print "Get rick rolled\n".toList])
  | .panic => some (s, [.panic "WHAT IS THE PPROBLEM ?".toList])
  | .clear => some (s, [.clear])
  | .ls => arg.bind fun arg => lsBranch fuel ok arg s
  | .mkdir =>
    match arg with
    | none => some (s, [])
    | some arg => (addDir g s.currentNode arg s.fs).map fun r => ({ s with fs := r.2 }, [])
  | .touch =>
    match arg with
    | none => some (s, [])
    | some arg => (addFile g s.currentNode arg s.fs).map fun r => ({ s with fs := r.2 }, [])
  | .cd => arg.bind fun arg => cdBranch fuel ok arg s

/-- What the default branch prints. -/
def unknownText : List Call :=
  [.print "NEVER GONNA GIVE YOU UP, NEVER GONNA LET YOU DOWN !\n".toList,
    .print "Unknown command\n".toList]

/-- `parse`. -/
def parse (fuel : ℕ) (ok : Bool) (g : Garbage) (cmd : List UInt8) (arg : Option (List Char))
    (s : State) : Option (State × List Call) :=
  match dispatch cmd with
  | some b => b.body fuel ok g arg s
  | none => some (s, unknownText)

end TurbOS.Shell
