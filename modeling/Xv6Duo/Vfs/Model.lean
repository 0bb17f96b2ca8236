import Xv6Duo.Fs.Dirent

/-!
# The inode table

The inode table of `kernel/fs.c` with its references, its sleep locks and its copies of the inodes
on the card, and the paths that lead to its entries, one definition for each function. The inode
blocks are kept apart from the other blocks, as the array of the inodes that they hold; the bitmap,
the file blocks and the cache are those of the block layer. Calls run one after another in the
context of one process, and `clock` lists the values that the clock takes when it is read.
-/

namespace Xv6Duo
namespace Vfs

open Fs ByteBlock

/-! ## Data -/

/-- `NINODE`. -/
def ninode : Nat := 1024

theorem ninode_pos : 0 < ninode := by decide

/-- `NFILE`. -/
def nfile : Nat := 100

theorem nfile_pos : 0 < nfile := by decide

/-- `NOFILE`. -/
def nofile : Nat := 16

theorem fd_lt {fd : Int} (inside : 0 ≤ fd ∧ fd.toNat < nofile) : fd.toNat < nofile := inside.2

/-- `NPROC`. -/
def nproc : Nat := 64

/-- `ROOTINO`. -/
def rootIno : UInt32 := 1

/-- An entry of the inode table. -/
structure Entry where
  /-- References. -/
  ref : Int
  /-- The process that holds the sleep lock. -/
  lock : Option (Fin nproc)
  /-- The inode has been read from the card. -/
  valid : Bool
  /-- Number and fields of the inode. -/
  ip : Inode

/-- The type of a `struct file`. -/
inductive FdType
  /-- `FD_NONE`. -/
  | none
  /-- `FD_PIPE`. -/
  | pipe
  /-- `FD_INODE`. -/
  | inode
  /-- `FD_DEVICE`. -/
  | device
  deriving DecidableEq, Repr

/-- The number of a file type in C. -/
def FdType.code : FdType → UInt16
  | .none => 0
  | .pipe => 1
  | .inode => 2
  | .device => 3

/-- An entry of `ftable`. -/
structure File where
  /-- Type. -/
  type : FdType
  /-- References. -/
  ref : Int
  /-- Entry of the inode table; it stays when the file is closed. -/
  ip : Option (Fin ninode)
  /-- Position. -/
  off : UInt32
  /-- Flags of `openat`. -/
  flags : UInt32
  /-- Major device number. -/
  major : UInt16
  /-- Open for reading. -/
  readable : Bool
  /-- Open for writing. -/
  writable : Bool

/-- The parts of `struct proc` that the calls use. -/
structure Proc where
  /-- Current directory. -/
  cwd : Option (Fin ninode)
  /-- Open files. -/
  ofile : Fin nofile → Option (Fin nfile)
  /-- User. -/
  uid : UInt32
  /-- Group. -/
  gid : UInt32
  /-- Effective user. -/
  euid : UInt32
  /-- Effective group. -/
  egid : UInt32
  /-- User for file access. -/
  fsuid : UInt32
  /-- Group for file access. -/
  fsgid : UInt32
  /-- File mode creation mask. -/
  umask : UInt32
  /-- `capable(CAP_DAC_OVERRIDE)`. -/
  capDacOverride : Bool
  /-- `capable(CAP_CHOWN)`. -/
  capChown : Bool

/-- The card, the tables and the processes. -/
structure System where
  /-- Bitmap and file blocks behind the cache. -/
  blocks : State
  /-- Inodes on the card by number. -/
  dinodes : UInt32 → Inode
  /-- `itable.inode`. -/
  itable : Fin ninode → Entry
  /-- `ftable.file`. -/
  ftable : Fin nfile → File
  /-- `proc`. -/
  procs : Fin nproc → Proc
  /-- Values of the clock that are still to be read. -/
  clock : Nat → Timespec
  /-- Entries, with their inodes on the card, as they were when their locks were released. -/
  released : List (Entry × Inode)

/-- Kernel code: it changes the system and may fail. -/
abbrev Kernel (α : Type) := StateT System (Except Fault) α

namespace System

/-- Store an entry of the inode table. -/
def setEntry (s : System) (a : Fin ninode) (e : Entry) : System :=
  { s with itable := Function.update s.itable a e }

/-- Store an entry of `ftable`. -/
def setFile (s : System) (f : Fin nfile) (file : File) : System :=
  { s with ftable := Function.update s.ftable f file }

end System

/-! ## Access -/

/-- The inode in an entry. -/
def inode (a : Fin ninode) : Kernel Inode := do return ((← get).itable a).ip

/-- Change the fields of an inode. -/
def edit (a : Fin ninode) (change : Inode → Inode) : Kernel Unit :=
  modify fun s => s.setEntry a { s.itable a with ip := change (s.itable a).ip }

/-- An access through a pointer. -/
def deref {α : Type} (pointer : Option α) : Kernel α :=
  match pointer with
  | some value => return value
  | none => throw .badPointer

/-- `clock_gettime` for `CLOCK_REALTIME`. -/
def clockGettime : Kernel Timespec :=
  modifyGet fun s => (s.clock 0, { s with clock := fun k => s.clock (k + 1) })

/-- Code of the block layer that reads the card and may change the block numbers of an inode. -/
def content {α : Type} (a : Fin ninode)
    (code : State → Inode → Except Fault (α × Inode × State)) : Kernel α := do
  let s ← get
  let (result, ip, blocks) ← code s.blocks (s.itable a).ip
  set { s.setEntry a { s.itable a with ip := ip } with blocks := blocks }
  return result

/-! ## The inode table -/

variable (sb : Superblock) (me : Fin nproc)

/-- `iget`. -/
def iget (inum : UInt32) : Kernel (Fin ninode) := do
  let s ← get
  match (List.finRange ninode).find? fun a =>
      0 < (s.itable a).ref ∧ (s.itable a).ip.inum = inum with
  | some a =>
      set (s.setEntry a { s.itable a with ref := (s.itable a).ref + 1 })
      return a
  | none =>
      match (List.finRange ninode).find? fun a => (s.itable a).ref = 0 with
      | some a =>
          set (s.setEntry a
            { s.itable a with
              ref := 1, valid := false, ip := { (s.itable a).ip with inum := inum } })
          return a
      | none => throw .igetNoInodes

/-- `idup`. -/
def idup (a : Fin ninode) : Kernel (Fin ninode) := do
  modify fun s => s.setEntry a { s.itable a with ref := (s.itable a).ref + 1 }
  return a

/-- `acquiresleep`. -/
def acquiresleep (a : Fin ninode) : Kernel Unit := do
  let s ← get
  if (s.itable a).lock.isSome then throw .sleeps
  else set (s.setEntry a { s.itable a with lock := some me })

/-- `releasesleep`. -/
def releasesleep (a : Fin ninode) : Kernel Unit :=
  modify fun s =>
    { s.setEntry a { s.itable a with lock := none } with
      released := (s.itable a, s.dinodes (s.itable a).ip.inum) :: s.released }

/-- `ilock`. -/
def ilock (a : Fin ninode) : Kernel Unit := do
  if ((← get).itable a).ref < 1 then throw .ilock
  acquiresleep me a
  let s ← get
  if ¬(s.itable a).valid then
    let dip := { s.dinodes (s.itable a).ip.inum with inum := (s.itable a).ip.inum }
    set (s.setEntry a { s.itable a with valid := true, ip := dip })
    if dip.type = 0 then throw .ilockNoType

/-- `iunlock`. -/
def iunlock (a : Fin ninode) : Kernel Unit := do
  let s ← get
  if (s.itable a).lock ≠ some me ∨ (s.itable a).ref < 1 then throw .iunlock
  releasesleep a

/-- `iupdate`. -/
def iupdate (a : Fin ninode) : Kernel Unit :=
  modify fun s =>
    { s with dinodes := Function.update s.dinodes (s.itable a).ip.inum (s.itable a).ip }

/-- `itrunc`. -/
def itrunc (a : Fin ninode) : Kernel Unit := do
  content a fun s ip => do
    let (s, ip) ← directSlots.foldlM (freeAddr sb) (s, ip)
    let (s, ip) ← truncIndirect sb s ip
    let (s, ip) ← truncIndirect2 sb s ip
    return ((), ip, s)
  edit a fun ip => { ip with size := 0 }
  iupdate a

/-- `iput`. -/
def iput (a : Fin ninode) : Kernel Unit := do
  let e := (← get).itable a
  if e.ref = 1 ∧ e.valid = true ∧ e.ip.nlink = 0 then
    acquiresleep me a
    itrunc sb a
    edit a fun ip => { ip with type := 0 }
    iupdate a
    modify fun s => s.setEntry a { s.itable a with valid := false }
    releasesleep a
  modify fun s => s.setEntry a { s.itable a with ref := (s.itable a).ref - 1 }

/-- `iunlockput`. -/
def iunlockput (a : Fin ninode) : Kernel Unit := do
  iunlock me a
  iput sb me a

/-- The inode number that `ialloc` chooses. -/
def freeInum (dinodes : UInt32 → Inode) : Option UInt32 :=
  (((List.range sb.ninodes.toNat).drop 1).find? fun i =>
    (dinodes (UInt32.ofNat i)).type = 0).map UInt32.ofNat

/-- A `struct dinode` of zeros with a type. -/
def blank (inum : UInt32) (type : UInt16) : Inode where
  inum := inum
  type := type
  major := 0
  minor := 0
  nlink := 0
  size := 0
  mode := 0
  uid := 0
  gid := 0
  atime := ⟨0, 0⟩
  mtime := ⟨0, 0⟩
  ctime := ⟨0, 0⟩
  addrs _ := 0

/-- `ialloc`. -/
def ialloc (type : UInt16) : Kernel (Option (Fin ninode)) := do
  let s ← get
  match freeInum sb s.dinodes with
  | some inum =>
      set { s with dinodes := Function.update s.dinodes inum (blank inum type) }
      let a ← iget inum
      let tp ← clockGettime
      edit a fun ip => { ip with atime := tp, ctime := tp, mtime := tp }
      return some a
  | none => return none

/-! ## Content -/

/-- `readi`. The result is the return value and the memory. -/
def readi (a : Fin ninode) (userDst : Bool) (mem : Memory) (dst : Nat) (off n : UInt32) :
    Kernel (Int × Memory) :=
  content a fun s ip => do
    let (r, mem, ip, s) ← Fs.readi sb s ip userDst mem dst off n
    return ((r, mem), ip, s)

/-- `writei`. -/
def writei (a : Fin ninode) (userSrc : Bool) (mem : Memory) (src : Nat) (off n : UInt32) :
    Kernel Int := do
  let ip ← inode a
  if off > ip.size ∨ off + n < off then return -1
  else if (off + n).toNat > maxFile * bsize then return -1
  else
    let (tot, off) ← content a fun s ip => do
      let (tot, off, ip, s) ← writeLoop sb userSrc mem n (n.toNat + 1) s ip src off 0
      return ((tot, off), ip, s)
    edit a fun ip => if off > ip.size then { ip with size := off } else ip
    iupdate a
    return asInt tot

/-- `dirlookup`. The result is the inode and the offset of the entry. -/
def dirlookup (dp : Fin ninode) (name : Bytes) : Kernel (Option (Fin ninode × UInt32)) := do
  match ← content dp fun s ip => Fs.dirlookup sb s ip name with
  | some (inum, off) => return some (← iget inum, off)
  | none => return none

/-- `dirlink`. -/
def dirlink (dp : Fin ninode) (name : Bytes) (inum : UInt32) (type : UInt16) : Kernel Int := do
  match ← dirlookup sb dp name with
  | some (ip, _) =>
      iput sb me ip
      return -1
  | none =>
      let off ← content dp fun s ip => emptyDirentLoop sb (direntFuel ip) s ip 0
      let r ← writei sb dp false (kernelMemory (dirent inum type (strncpy name))) 0 off direntSize
      return if r = 64 then 0 else -1

/-- `unlink`. -/
def unlink (dp : Fin ninode) (off : UInt32) : Kernel Int := do
  let r ← writei sb dp false (kernelMemory zeros) 0 off direntSize
  return if r = 64 then 0 else -1

/-! ## Paths -/

/-- Path names are bytes without a zero byte. -/
abbrev Path := List UInt8

/-- The byte `/`. -/
def slash : UInt8 := 47

/-- A string in memory. -/
def cstring (text : List UInt8) : Bytes := fun k => text.getD k 0

/-- The string at the start of a memory, at most `n` bytes. -/
def stringAt (bytes : Bytes) (n : Nat) : List UInt8 :=
  ((List.range n).map bytes).takeWhile (· ≠ 0)

/-- `AT_FDCWD`. -/
def atFdcwd : Int := -100

/-- `skipelem`: the next element of a path and the path behind it. -/
def skipelem (path : Path) : Option (Path × Path) :=
  let path := path.dropWhile (· = slash)
  if path = [] then none
  else some ((path.takeWhile (· ≠ slash)).take dirSiz,
    (path.dropWhile (· ≠ slash)).dropWhile (· = slash))

/-- The file of a descriptor; the source reads past the table for any other number. -/
def ofile (fd : Int) : Kernel (Option (Fin nfile)) := do
  let s ← get
  if inside : 0 ≤ fd ∧ fd.toNat < nofile then
    return (s.procs me).ofile ⟨fd.toNat, fd_lt inside⟩
  else throw .badPointer

/-- The loop of `namex`. -/
def namexLoop (parent : Bool) :
    Nat → Fin ninode → Path → Path → Kernel (Option (Fin ninode × Path))
  | 0, _, _, _ => throw .loops
  | fuel + 1, ip, name, path => do
      match skipelem path with
      | none =>
          if parent then
            iput sb me ip
            return none
          else return some (ip, name)
      | some (name, path) =>
          ilock me ip
          if (← inode ip).type ≠ tDir then
            iunlockput sb me ip
            return none
          else if parent ∧ path = [] then
            iunlock me ip
            return some (ip, name)
          else
            match ← dirlookup sb ip (cstring name) with
            | none =>
                iunlockput sb me ip
                return none
            | some (next, _) =>
                iunlockput sb me ip
                namexLoop parent fuel next name path

/-- `namex`. -/
def namex (parent : Bool) (path : Path) (dirfd : Int) :
    Kernel (Option (Fin ninode × Path)) := do
  let start ←
    if path.head? = some slash then iget rootIno
    else if dirfd = atFdcwd then
      let cwd ← deref ((← get).procs me).cwd
      idup cwd
    else
      let f ← deref (← ofile me dirfd)
      let ip ← deref ((← get).ftable f).ip
      idup ip
  namexLoop sb me parent (path.length + 1) start [] path

/-- `namei`. -/
def namei (path : Path) (dirfd : Int) : Kernel (Option (Fin ninode)) := do
  let found ← namex sb me false path dirfd
  return found.map Prod.fst

/-- `nameiparent`. -/
def nameiparent (path : Path) (dirfd : Int) : Kernel (Option (Fin ninode × Path)) :=
  namex sb me true path dirfd

end Vfs
end Xv6Duo
