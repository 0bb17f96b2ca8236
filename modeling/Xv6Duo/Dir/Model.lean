import Xv6Duo.Errno
import Xv6Duo.Fault
import Xv6Duo.Library.GuardedRun
import Mathlib.Data.UInt
import Mathlib.Logic.Function.Basic
import Mathlib.Tactic

/-!
# Directories and links

The inode table, the directory layer and the path layer of `kernel/fs.c`, and the calls of
`kernel/file.c` and `kernel/sysfile.c` that create, link, unlink and open inodes, one definition for
each function. A directory is the list of its entries and a symbolic link the bytes of its target.
Every change to an inode is written to disk before the inode is unlocked, so an inode and its copy
on disk are one record. Calls run one after another; sleep locks, the log, timestamps and the blocks
behind the content are left out, and an environment says where the card has no room.
-/

namespace Xv6Duo
namespace Dir

/-- `ip->type`. -/
inductive FileType
  /-- A free inode. -/
  | free
  /-- `T_DIR`. -/
  | dir
  /-- `T_FILE`. -/
  | file
  /-- `T_DEVICE`. -/
  | device
  /-- `T_SYMLINK`. -/
  | symlink
  deriving DecidableEq, Repr

/-- Path names are bytes. -/
abbrev Path := List UInt8

/-- The string in a buffer ends before the first zero byte. -/
def cstring (buf : List UInt8) : Path := buf.takeWhile (· ≠ 0)

/-- The byte `/`. -/
def slash : UInt8 := 47

/-- The name `.`. -/
def dot : Path := [46]

/-- The name `..`. -/
def dotdot : Path := [46, 46]

/-- `DIRSIZ`. -/
def dirSiz : Nat := 58

/-- `ROOTINO`. -/
def rootIno : Nat := 1

/-- `sb.ninodes`, as `mkfs` sets it. -/
def ninodes : Nat := 1024

/-- `struct dirent`. -/
structure Dirent where
  /-- Inode number, `0` for a free entry. -/
  inum : Nat
  /-- Type of the inode. -/
  type : FileType
  /-- Name, at most `DIRSIZ` bytes. -/
  name : Path
  deriving DecidableEq, Repr

/-- A cleared entry. -/
def Dirent.none : Dirent := ⟨0, .free, []⟩

/-- An inode, on disk and in the inode table. -/
structure Node where
  /-- File type. -/
  type : FileType
  /-- Major device number. -/
  major : UInt16
  /-- Minor device number. -/
  minor : UInt16
  /-- Link count, a `short`. -/
  nlink : Int
  /-- File mode. -/
  mode : UInt32
  /-- Owner. -/
  uid : UInt32
  /-- Group. -/
  gid : UInt32
  /-- Target of a symbolic link. -/
  content : List UInt8
  /-- Entries of a directory. -/
  entries : List Dirent
  /-- References to the entry of the inode table. -/
  ref : Nat
  /-- The entry of the inode table has been read from disk. -/
  valid : Bool

/-- All inodes by number. -/
abbrev Nodes := Nat → Node

/-- The value of a `short` after an increment or a decrement. -/
def short (value : Int) : Int := Int.bmod value 65536

/-! ## The inode table -/

/-- `iget`. The table has an entry for every inode. -/
def iget (t : Nodes) (i : Nat) : Nodes :=
  if (t i).ref = 0 then Function.update t i { t i with ref := 1, valid := false }
  else Function.update t i { t i with ref := (t i).ref + 1 }

/-- `idup`. -/
def idup (t : Nodes) (i : Nat) : Nodes :=
  Function.update t i { t i with ref := (t i).ref + 1 }

/-- `ilock`. -/
def ilock (t : Nodes) (i : Nat) : Except Fault Nodes :=
  if (t i).ref = 0 then .error .ilock
  else if (t i).valid then .ok t
  else if (t i).type = .free then .error .ilockNoType
  else .ok (Function.update t i { t i with valid := true })

/-- `iput`: the last reference to an inode without links truncates and frees it. -/
def iput (t : Nodes) (i : Nat) : Nodes :=
  if (t i).ref = 1 ∧ (t i).valid = true ∧ (t i).nlink = 0 then
    Function.update t i
      { t i with type := .free, content := [], entries := [], ref := 0, valid := false }
  else
    Function.update t i { t i with ref := (t i).ref - 1 }

/-- The inode that `ialloc` finds. -/
def freeInode (t : Nodes) : Option Nat :=
  ((List.range ninodes).drop 1).find? fun i => (t i).type = .free

/-- `ialloc`. -/
def ialloc (t : Nodes) (type : FileType) : Option (Nat × Nodes) :=
  match freeInode t with
  | some i => some (i, iget (Function.update t i
      { t i with
        type := type, major := 0, minor := 0, nlink := 0, mode := 0, uid := 0, gid := 0,
        content := [], entries := [] }) i)
  | none => none

/-! ## Directories -/

/-- The position at which `dirlookup` finds a name. -/
def findEntry (entries : List Dirent) (name : Path) : Option Nat :=
  entries.findIdx? fun e => e.inum ≠ 0 ∧ e.name = name

/-- The inode number in an entry. -/
def inumAt (entries : List Dirent) (k : Nat) : Nat := (entries.getD k Dirent.none).inum

/-- `dirlookup`. The result is the position of the entry and the inode it names. -/
def dirlookup (t : Nodes) (dp : Nat) (name : Path) :
    Except Fault (Option (Nat × Nat) × Nodes) :=
  if (t dp).type = .dir then
    match findEntry (t dp).entries name with
    | some k => .ok (some (k, inumAt (t dp).entries k), iget t (inumAt (t dp).entries k))
    | none => .ok (none, t)
  else .error .dirlookupNotDir

/-- The entries after a new one has been written over the first cleared one, or appended. -/
def placeEntry : List Dirent → Dirent → List Dirent
  | [], e => [e]
  | first :: rest, e => if first.inum = 0 then e :: rest else first :: placeEntry rest e

/-- `dirlink`; a directory without a cleared entry that can get no new block is full. -/
def dirlink (t : Nodes) (full : Bool) (dp : Nat) (name : Path) (inum : Nat) (type : FileType) :
    Except Fault (Bool × Nodes) := do
  let (found, t) ← dirlookup t dp name
  match found with
  | some (_, ip) => return (false, iput t ip)
  | none =>
      if full ∧ (t dp).entries.all (·.inum ≠ 0) then return (false, t)
      else return (true, Function.update t dp
        { t dp with entries := placeEntry (t dp).entries ⟨inum, type, name.take dirSiz⟩ })

/-- `unlink`: clear an entry. -/
def unlink (t : Nodes) (dp k : Nat) : Nodes :=
  Function.update t dp { t dp with entries := (t dp).entries.set k Dirent.none }

/-- `isdirempty`. -/
def isdirempty (dp : Node) : Bool := (dp.entries.drop 2).all fun e => e.inum = 0

/-! ## Processes -/

/-- The type of a `struct file`. -/
inductive FdType
  /-- `FD_NONE`. -/
  | none
  /-- `FD_PIPE`. -/
  | pipe
  /-- `FD_INODE`. -/
  | inode
  /-- `FD_DEVICE`. -/
  | device
  deriving DecidableEq, Repr

/-- The number of a file type in C. -/
def FdType.code : FdType → Nat
  | .none => 0
  | .pipe => 1
  | .inode => 2
  | .device => 3

/-- An open file. -/
inductive File
  /-- A pipe; `ip` is null. -/
  | pipe
  /-- An inode. -/
  | inode (ip : Nat)
  /-- A device. -/
  | device (ip : Nat)
  deriving DecidableEq, Repr

/-- `f->type`. -/
def File.type : File → FdType
  | .pipe => .pipe
  | .inode _ => .inode
  | .device _ => .device

/-- `f->ip`. -/
def File.ip : File → Option Nat
  | .pipe => none
  | .inode ip | .device ip => some ip

/-- `NOFILE`. -/
def nofile : Nat := 16

/-- `NFILE`. -/
def nfile : Nat := 100

/-- The parts of `struct proc` that the calls use. -/
structure Proc where
  /-- Current directory, none after `exit`. -/
  cwd : Option Nat
  /-- Open files. -/
  ofile : Fin nofile → Option File
  /-- User. -/
  uid : UInt32
  /-- Group. -/
  gid : UInt32
  /-- User for file access. -/
  fsuid : UInt32
  /-- Group for file access. -/
  fsgid : UInt32
  /-- File mode creation mask. -/
  umask : UInt32
  /-- `capable(CAP_DAC_OVERRIDE)`. -/
  dacOverride : Bool

/-- `MAY_EXEC`. -/
def mayExec : UInt32 := 1

/-- `MAY_WRITE`. -/
def mayWrite : UInt32 := 2

/-- `MAY_READ`. -/
def mayRead : UInt32 := 4

/-- `permission`. -/
def permission (p : Proc) (ip : Node) (mask : UInt32) : Bool :=
  let mode := if p.fsuid = ip.uid then ip.mode >>> 6
    else if p.fsgid = ip.gid then ip.mode >>> 3
    else ip.mode
  p.fsuid = 0 ∨ mode &&& mask &&& 7 = mask ∨
    (mask &&& (mayRead ||| mayWrite) ≠ 0 ∨ ip.mode &&& 0o111 ≠ 0) ∧ p.dacOverride

/-! ## Paths -/

/-- `skipelem`: the next element of a path and the path behind it. -/
def skipelem (path : Path) : Option (Path × Path) :=
  let path := path.dropWhile (· = slash)
  if path = [] then none
  else some ((path.takeWhile (· ≠ slash)).take dirSiz,
    (path.dropWhile (· ≠ slash)).dropWhile (· = slash))

/-- The loop of `namex`. -/
def namexLoop (parent : Bool) :
    Nat → Nodes → Nat → Path → Path → Except Fault (Option (Nat × Path) × Nodes)
  | 0, _, _, _, _ => .error .loops
  | fuel + 1, t, ip, name, path =>
      match skipelem path with
      | none =>
          if parent then .ok (none, iput t ip)
          else .ok (some (ip, name), t)
      | some (name, path) => do
          let t ← ilock t ip
          if (t ip).type ≠ .dir then return (none, iput t ip)
          if parent ∧ path = [] then return (some (ip, name), t)
          let (found, t) ← dirlookup t ip name
          match found with
          | none => return (none, iput t ip)
          | some (_, next) => namexLoop parent fuel (iput t ip) next name path

/-- `AT_FDCWD`. -/
def atFdcwd : Int := -100

/-- `ofile[fd]`; any number is taken for an index. -/
def Proc.fileAt (p : Proc) (fd : Int) : Except Fault (Option File) :=
  if inside : 0 ≤ fd ∧ fd.toNat < nofile then .ok (p.ofile ⟨fd.toNat, inside.2⟩)
  else .error .badPointer

/-- The inode that a relative path starts at, `cwd` or `ofile[dirfd]->ip`, where there is one. -/
def Proc.dirAt (p : Proc) (dirfd : Int) : Option Nat :=
  if dirfd = atFdcwd then p.cwd
  else match p.fileAt dirfd with
    | .ok (some f) => f.ip
    | _ => none

/-- `namex`. -/
def namex (t : Nodes) (p : Proc) (parent : Bool) (path : Path) (dirfd : Int) :
    Except Fault (Option (Nat × Path) × Nodes) :=
  let walk t ip := namexLoop parent (path.length + 1) t ip [] path
  if path.head? = some slash then walk (iget t rootIno) rootIno
  else
    match p.dirAt dirfd with
    | some ip => walk (idup t ip) ip
    | none => .error .badPointer

/-- `namei`. -/
def namei (t : Nodes) (p : Proc) (path : Path) (dirfd : Int) :
    Except Fault (Option Nat × Nodes) := do
  let (found, t) ← namex t p false path dirfd
  return (found.map Prod.fst, t)

/-- `nameiparent`. -/
def nameiparent (t : Nodes) (p : Proc) (path : Path) (dirfd : Int) :
    Except Fault (Option (Nat × Path) × Nodes) :=
  namex t p true path dirfd

end Dir
end Xv6Duo
