import Xv6Duo.Dir.Syscalls

/-!
# Calls that follow symbolic links

`fileopen` without `O_CREAT`, `fileget`, `filechown` of a path and `faccess` of `kernel/file.c` and
`sys_fstatat` of `kernel/sysfile.c`, with the sleep locks of the inodes. Each has a loop of its own
that looks for an inode which is not a link. The loops read different numbers of bytes of a target:
`sizeof(buf) - 1` is 511, and `sizeof(MAXPATH) - 1` is the size of an `int` less one.
-/

namespace Xv6Duo
namespace Dir
namespace Follow

/-! ## Inodes with their locks -/

/-- The sleep locks that the running call holds. -/
abbrev Locks := Nat → Bool

/-- No lock. -/
def unlocked : Locks := fun _ => false

/-- The inodes and their locks. -/
structure Table where
  /-- Inodes. -/
  nodes : Nodes
  /-- Locks. -/
  locked : Locks

namespace Table

/-- `ilock`. -/
def ilock (t : Table) (i : Nat) : Except Fault Table :=
  if (t.nodes i).ref = 0 then .error .ilock
  else if t.locked i then .error .sleeps
  else do
    let nodes ← Dir.ilock t.nodes i
    return ⟨nodes, Function.update t.locked i true⟩

/-- `iunlock`. -/
def iunlock (t : Table) (i : Nat) : Except Fault Table :=
  if t.locked i = false ∨ (t.nodes i).ref = 0 then .error .iunlock
  else .ok { t with locked := Function.update t.locked i false }

/-- `iput`, which locks the inode while it truncates it. -/
def iput (t : Table) (i : Nat) : Except Fault Table :=
  if ((t.nodes i).ref = 1 ∧ (t.nodes i).valid = true ∧ (t.nodes i).nlink = 0) ∧ t.locked i then
    .error .sleeps
  else .ok { t with nodes := Dir.iput t.nodes i }

/-- `iunlockput`. -/
def iunlockput (t : Table) (i : Nat) : Except Fault Table := do
  let t ← t.iunlock i
  t.iput i

/-- The loop of `namex`, as `namei` calls it. -/
def namexLoop : Nat → Table → Nat → Path → Except Fault (Option Nat × Table)
  | 0, _, _, _ => .error .loops
  | fuel + 1, t, ip, path =>
      match skipelem path with
      | none => .ok (some ip, t)
      | some (name, path) => do
          let t ← t.ilock ip
          if (t.nodes ip).type ≠ .dir then
            let t ← t.iunlockput ip
            return (none, t)
          let (found, nodes) ← dirlookup t.nodes ip name
          let t ← iunlockput { t with nodes := nodes } ip
          match found with
          | none => return (none, t)
          | some (_, next) => namexLoop fuel t next path

/-- `namei`. -/
def namei (t : Table) (p : Proc) (path : Path) (dirfd : Int) :
    Except Fault (Option Nat × Table) :=
  let walk nodes ip := namexLoop (path.length + 1) { t with nodes := nodes } ip path
  if path.head? = some slash then walk (iget t.nodes rootIno) rootIno
  else
    match p.dirAt dirfd with
    | some ip => walk (idup t.nodes ip) ip
    | none => .error .badPointer

/-- The loop that looks for an inode which is not a link, and locks it: `bytes` of a target are
read, links are followed if `follows` says so, and some inodes are refused with `EINVAL`. -/
def search (bytes : Nat) (follows : Bool) (refuses : FileType → Bool) (p : Proc)
    (dirfd : Int) : Nat → Table → Path → Except Fault (Except Int Nat × Table)
  | 0, _, _ => .error .loops
  | fuel + 1, t, path => do
      let (found, t) ← t.namei p path dirfd
      match found with
      | none => return (.error (-enoent), t)
      | some ip =>
          let t ← t.ilock ip
          if refuses (t.nodes ip).type then
            let t ← t.iunlockput ip
            return (.error (-einval), t)
          else if follows ∧ (t.nodes ip).type = .symlink then
            let target := (t.nodes ip).content.take bytes
            let t ← t.iunlockput ip
            if target = [] then return (.error (-enoent), t)
            else search bytes follows refuses p dirfd fuel t (cstring target)
          else return (.ok ip, t)

end Table

/-! ## The calls -/

/-- `AT_SYMLINK_NOFOLLOW`. -/
def atSymlinkNofollow : UInt32 := 0x100

/-- `AT_EACCESS`. -/
def atEaccess : UInt32 := 0x200

/-- The credentials of a process that only `filechown` and `faccess` use. -/
structure Creds where
  /-- `capable(CAP_CHOWN)`. -/
  capChown : Bool
  /-- Effective user. -/
  euid : UInt32
  /-- Effective group. -/
  egid : UInt32

/-- The loop of `fileopen`. -/
def openSearch (flags : UInt32) (p : Proc) (dirfd : Int) :
    Nat → Table → Path → Except Fault (Except Int Nat × Table) :=
  Table.search 511 true (fun type => type = .dir ∧ flags &&& oAccmode ≠ 0) p dirfd

/-- The loop of `fileget`. -/
def getSearch (p : Proc) : Nat → Table → Path → Except Fault (Except Int Nat × Table) :=
  Table.search 511 true (fun _ => false) p atFdcwd

/-- The loop of `filechown`, `faccess` and `sys_fstatat`. -/
def flagSearch (flags : UInt32) (p : Proc) (dirfd : Int) :
    Nat → Table → Path → Except Fault (Except Int Nat × Table) :=
  Table.search 3 (flags &&& atSymlinkNofollow = 0) (fun _ => false) p dirfd

/-- What a call returns, with what it leaves. -/
abbrev Outcome := Except Fault (Int × World × Locks)

/-- A call ends with a code. -/
def finish (w : World) (t : Table) (code : Int) : Outcome :=
  .ok (code, { w with nodes := t.nodes }, t.locked)

/-- `fileopen` without `O_CREAT`. -/
def fileopen (fuel : Nat) (w : World) (locked : Locks) (pid : Fin nproc) (path : Path)
    (dirfd : Int) (flags : UInt32) : Outcome := do
  let p := w.procs pid
  let (opened, t) ← openSearch flags p dirfd fuel ⟨w.nodes, locked⟩ path
  match opened with
  | .error code => finish w t code
  | .ok ip =>
      if (fileReadable flags ∧ permission p (t.nodes ip) mayRead = false) ∨
          (fileWritable flags ∧ permission p (t.nodes ip) mayWrite = false) then
        let t ← t.iunlockput ip
        finish w t (-eacces)
      else
        match if w.files < nfile then fdalloc p else none with
        | none =>
            let t ← t.iunlock ip
            finish w t (-enospc)
        | some fd =>
            let f : File := if (t.nodes ip).type = .device then .device ip else .inode ip
            let t ← t.iunlock ip
            finish { w.setProc pid (p.setFile fd (some f)) with files := w.files + 1 } t fd.val

/-- `fileget`; the file has a place in `ftable` when the permission is checked. -/
def fileget (fuel : Nat) (w : World) (locked : Locks) (pid : Fin nproc) (path : Path) :
    Outcome := do
  let p := w.procs pid
  let (opened, t) ← getSearch p fuel ⟨w.nodes, locked⟩ path
  match opened with
  | .error code => finish w t code
  | .ok ip =>
      if (t.nodes ip).type ≠ .file then
        let t ← t.iunlockput ip
        finish w t (-einval)
      else if nfile ≤ w.files then
        let t ← t.iunlockput ip
        finish w t (-enospc)
      else if permission p (t.nodes ip) mayRead = false then
        let t ← t.iunlockput ip
        finish { w with files := w.files + 1 } t (-eacces)
      else
        let t ← t.iunlock ip
        finish { w with files := w.files + 1 } t 0

/-- The fields that `filechown` leaves in the inode, and whether it succeeds. -/
def chown (c : Creds) (ip : Node) (owner group : UInt32) : Bool × Node :=
  if owner ≠ 0xFFFFFFFF ∧ c.capChown = false then (false, ip)
  else
    let ip := if owner ≠ 0xFFFFFFFF then { ip with uid := owner } else ip
    if group ≠ 0xFFFFFFFF ∧ c.capChown = false ∧ ip.uid ≠ c.euid then (false, ip)
    else
      let ip := if group ≠ 0xFFFFFFFF then { ip with gid := group } else ip
      if ip.mode &&& 0o111 ≠ 0 ∧ c.capChown = false then
        (true, { ip with mode := ip.mode &&& ~~~0o6000 })
      else (true, ip)

/-- `filechown` of a path. -/
def filechown (fuel : Nat) (w : World) (locked : Locks) (pid : Fin nproc) (c : Creds) (path : Path)
    (dirfd : Int) (owner group flags : UInt32) : Outcome := do
  let (opened, t) ← flagSearch flags (w.procs pid) dirfd fuel ⟨w.nodes, locked⟩ path
  match opened with
  | .error code => finish w t code
  | .ok ip =>
      let (done, ip') := chown c (t.nodes ip) owner group
      let t ← Table.iunlockput { t with nodes := Function.update t.nodes ip ip' } ip
      finish w t (if done then 0 else -eperm)

/-- The answer of `faccess` for a mode that is not `F_OK`. -/
def accessError (p : Proc) (c : Creds) (ip : Node) (mode flags : UInt32) : Int :=
  let uid := if flags &&& atEaccess ≠ 0 then c.euid else p.uid
  let gid := if flags &&& atEaccess ≠ 0 then c.egid else p.gid
  if p.uid = 0 then if mode &&& 1 ≠ 0 ∧ ip.mode &&& 0o111 = 0 then -eacces else 0
  else if mode &&& 4 ≠ 0 ∧ (ip.uid = uid ∧ ip.mode &&& 0o400 = 0) ∧
      (ip.gid = gid ∧ ip.mode &&& 0o40 = 0) ∧ ip.mode &&& 0o4 = 0 then -eacces
  else if mode &&& 2 ≠ 0 ∧ (ip.uid = uid ∧ ip.mode &&& 0o200 = 0) ∧
      (ip.gid = gid ∧ ip.mode &&& 0o20 = 0) ∧ ip.mode &&& 0o2 = 0 then -eacces
  else if mode &&& 1 ≠ 0 ∧ (ip.uid = uid ∧ ip.mode &&& 0o100 = 0) ∧
      (ip.gid = gid ∧ ip.mode &&& 0o1 = 0) ∧ ip.mode &&& 0o1 = 0 then -eacces
  else 0

/-- `faccess`. -/
def faccess (fuel : Nat) (w : World) (locked : Locks) (pid : Fin nproc) (c : Creds) (path : Path)
    (dirfd : Int) (mode flags : UInt32) : Outcome :=
  if mode &&& ~~~7 ≠ 0 then .ok (-einval, w, locked)
  else do
    let p := w.procs pid
    let (opened, t) ← flagSearch flags p dirfd fuel ⟨w.nodes, locked⟩ path
    match opened with
    | .error code => finish w t code
    | .ok ip =>
        let fields := t.nodes ip
        let t ← t.iunlockput ip
        finish w t (if mode = 0 then 0 else accessError p c fields mode flags)

/-- `sys_fstatat`; `copied` says whether the copy to the user succeeds. -/
def sysFstatat (fuel : Nat) (w : World) (locked : Locks) (pid : Fin nproc) (dirfd : Int)
    (path : Path) (flags : UInt32) (copied : Bool) : Outcome :=
  let p := w.procs pid
  if flags ≠ 0 ∧ flags &&& ~~~atSymlinkNofollow ≠ 0 then .ok (-einval, w, locked)
  else do
    let ret ← checkFdcwd p path dirfd
    if ret < 0 then return (ret, w, locked)
    let (opened, t) ← flagSearch flags p dirfd fuel ⟨w.nodes, locked⟩ path
    match opened with
    | .error code => finish w t code
    | .ok ip =>
        if (t.nodes ip).type = .free then .error .unexpectedStatType
        else
          let t ← t.iunlockput ip
          finish w t (if copied then 0 else -efault)

/-- A call that follows links. -/
inductive Call
  /-- `fileopen`. -/
  | fileopen (path : Path) (dirfd : Int) (flags : UInt32)
  /-- `fileget`. -/
  | fileget (path : Path)
  /-- `filechown`. -/
  | filechown (c : Creds) (path : Path) (dirfd : Int) (owner group flags : UInt32)
  /-- `faccess`. -/
  | faccess (c : Creds) (path : Path) (dirfd : Int) (mode flags : UInt32)
  /-- `sys_fstatat`. -/
  | fstatat (dirfd : Int) (path : Path) (flags : UInt32) (copied : Bool)

/-- A call of a process that holds no lock; links are followed less than `fuel` times. -/
def perform (fuel : Nat) (w : World) (pid : Fin nproc) : Call → Outcome
  | .fileopen path dirfd flags => fileopen fuel w unlocked pid path dirfd flags
  | .fileget path => fileget fuel w unlocked pid path
  | .filechown c path dirfd owner group flags =>
      filechown fuel w unlocked pid c path dirfd owner group flags
  | .faccess c path dirfd mode flags => faccess fuel w unlocked pid c path dirfd mode flags
  | .fstatat dirfd path flags copied => sysFstatat fuel w unlocked pid dirfd path flags copied

end Follow
end Dir
end Xv6Duo
