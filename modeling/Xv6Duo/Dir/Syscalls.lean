import Xv6Duo.Dir.Model
import Mathlib.Algebra.BigOperators.Group.Finset.Basic

/-!
# Calls on names

`create`, `filelink`, `filesymlink`, `fileunlink` and `fileopen` of `kernel/file.c`, the system
calls that lead to them, and `close`, `chdir` and `exit`. The environment of a call says which
inodes can get no new block.
-/

namespace Xv6Duo
namespace Dir

/-- The inodes that can get no new block during a call. -/
abbrev Env := Nat → Bool

/-! ## Creating inodes -/

/-- What `create` returns: a locked inode, an error code as a pointer, or the null pointer. -/
inductive Created
  /-- An inode. -/
  | inode (ip : Nat)
  /-- An error code. -/
  | errno (code : Int)
  /-- The null pointer. -/
  | null

/-- The entries that `create` makes for a new inode. -/
def linkNew (t : Nodes) (env : Env) (dp : Nat) (name : Path) (ip : Nat) (type : FileType) :
    Except Fault (Bool × Nodes) := do
  if type = .dir then
    let (done, t) ← dirlink t (env ip) ip dot ip type
    if ¬done then return (false, t)
    let (done, t) ← dirlink t (env ip) ip dotdot dp (t dp).type
    if ¬done then return (false, t)
    dirlink t (env dp) dp name ip type
  else
    dirlink t (env dp) dp name ip type

/-- The part of `create` behind the allocation of the inode. -/
def createNew (t : Nodes) (env : Env) (p : Proc) (dp : Nat) (name : Path) (ip : Nat)
    (type : FileType) (major minor : UInt16) (mode : UInt32) : Except Fault (Created × Nodes) := do
  let t ← ilock t ip
  let t := Function.update t ip
    { t ip with
      major := major, minor := minor, nlink := 1, mode := mode &&& ~~~p.umask, type := type,
      uid := p.uid, gid := p.gid }
  let (done, t) ← linkNew t env dp name ip type
  if done then
    let t := if type = .dir then
        Function.update t dp { t dp with nlink := short ((t dp).nlink + 1) }
      else t
    return (.inode ip, iput t dp)
  else
    let t := Function.update t ip { t ip with nlink := 0 }
    return (.null, iput (iput t ip) dp)

/-- `create`. -/
def create (t : Nodes) (env : Env) (p : Proc) (path : Path) (dirfd : Int)
    (type : FileType) (major minor : UInt16) (mode : UInt32) :
    Except Fault (Created × Nodes) := do
  let (parent, t) ← nameiparent t p path dirfd
  match parent with
  | none => return (.errno (-enoent), t)
  | some (dp, name) =>
      let t ← ilock t dp
      if permission p (t dp) mayExec = false then return (.errno (-eacces), iput t dp)
      let (found, t) ← dirlookup t dp name
      match found with
      | some (_, ip) =>
          let t ← ilock (iput t dp) ip
          if type = .file ∧ ((t ip).type = .file ∨ (t ip).type = .device) then
            return (.inode ip, t)
          return (.errno (-eexist), iput t ip)
      | none =>
          match ialloc t type with
          | none => return (.errno (-enomem), iput t dp)
          | some (ip, t) => createNew t env p dp name ip type major minor mode

/-! ## Links -/

/-- The error exit of `filelink` behind the increment of the link count. -/
def unlinkAgain (t : Nodes) (ip : Nat) (code : Int) : Except Fault (Int × Nodes) := do
  let t ← ilock t ip
  let t := Function.update t ip { t ip with nlink := short ((t ip).nlink - 1) }
  return (code, iput t ip)

/-- `filelink`. -/
def filelink (t : Nodes) (env : Env) (p : Proc) (oldpath : Path) (olddirfd : Int)
    (newpath : Path) (newdirfd : Int) : Except Fault (Int × Nodes) := do
  let (found, t) ← namei t p oldpath olddirfd
  match found with
  | none => return (-enoent, t)
  | some ip =>
      let t ← ilock t ip
      if (t ip).type = .dir then return (-eperm, iput t ip)
      let t := Function.update t ip { t ip with nlink := short ((t ip).nlink + 1) }
      let (parent, t) ← nameiparent t p newpath newdirfd
      match parent with
      | none => unlinkAgain t ip (-enoent)
      | some (dp, name) =>
          let t ← ilock t dp
          let (done, t) ← dirlink t (env dp) dp name ip (t ip).type
          if done then return (0, iput (iput t dp) ip)
          unlinkAgain (iput t dp) ip (-1)

/-- `filesymlink`. -/
def filesymlink (t : Nodes) (env : Env) (p : Proc) (target linkpath : Path)
    (dirfd : Int) : Except Fault (Int × Nodes) := do
  let (parent, t) ← nameiparent t p linkpath dirfd
  match parent with
  | none => return (-enoent, t)
  | some (dp, name) =>
      let t ← ilock t dp
      match ialloc t .symlink with
      | none => return (-enomem, iput t dp)
      | some (ip, t) =>
          let t ← ilock t ip
          let t := Function.update t ip
            { t ip with major := 0, minor := 0, nlink := 1, mode := 0o120777, type := .symlink }
          let (done, t) ← dirlink t (env dp) dp name ip .symlink
          -- The error path keeps the link count that it has just set.
          if ¬done then return (-1, iput (iput t dp) ip)
          let t := iput t dp
          let t := Function.update t ip { t ip with content := if env ip then [] else target }
          return (0, iput t ip)

/-- An error code that passes through a variable of type `uint32_t`. -/
def unsigned (code : Int) : Int := code % 2 ^ 32

/-- `fileunlink`; clearing an entry needs no new block and does not fail. -/
def fileunlink (t : Nodes) (p : Proc) (path : Path) (dirfd : Int)
    (removeDir : Bool) : Except Fault (Int × Nodes) := do
  let (parent, t) ← nameiparent t p path dirfd
  match parent with
  | none => return (-enoent, t)
  | some (dp, name) =>
      let t ← ilock t dp
      if name = dot ∨ name = dotdot then return (unsigned (-eperm), iput t dp)
      let (found, t) ← dirlookup t dp name
      match found with
      | none => return (unsigned (-enoent), iput t dp)
      | some (k, ip) =>
          let t ← ilock t ip
          if (t ip).nlink < 1 then return (unsigned (-eperm), iput (iput t ip) dp)
          if removeDir ∧ (t ip).type ≠ .dir then
            return (unsigned (-enotdir), iput (iput t ip) dp)
          if removeDir ∧ isdirempty (t ip) = false then
            return (unsigned (-eperm), iput (iput t ip) dp)
          if removeDir = false ∧ (t ip).type = .dir then
            return (unsigned (-eisdir), iput (iput t ip) dp)
          let t := unlink t dp k
          let t := if (t ip).type = .dir then
              Function.update t dp { t dp with nlink := short ((t dp).nlink - 1) }
            else t
          let t := iput t dp
          let t := Function.update t ip { t ip with nlink := short ((t ip).nlink - 1) }
          return (0, iput t ip)

/-! ## Opening -/

/-- `O_ACCMODE`. -/
def oAccmode : UInt32 := 0o10000003
/-- `O_CREAT`. -/
def oCreat : UInt32 := 0o100
/-- `O_EXCL`. -/
def oExcl : UInt32 := 0o200

/-- `FILE_READABLE`. -/
def fileReadable (flags : UInt32) : Bool :=
  flags &&& oAccmode = 2 ∨ flags &&& oAccmode = 0

/-- `FILE_WRITABLE`. -/
def fileWritable (flags : UInt32) : Bool :=
  flags &&& oAccmode = 2 ∨ flags &&& oAccmode = 1

/-- The loop of `fileopen` that follows symbolic links; an inode or an error code. -/
def openLoop (p : Proc) (dirfd : Int) (flags : UInt32) :
    Nat → Nodes → Path → Except Fault (Except Int Nat × Nodes)
  | 0, _, _ => .error .loops
  | fuel + 1, t, path => do
      let (found, t) ← namei t p path dirfd
      match found with
      | none => return (.error (-enoent), t)
      | some ip =>
          let t ← ilock t ip
          if (t ip).type = .dir ∧ flags &&& oAccmode ≠ 0 then
            return (.error (-einval), iput t ip)
          if (t ip).type = .symlink then
            if (t ip).content = [] then return (.error (-enoent), iput t ip)
            openLoop p dirfd flags fuel (iput t ip) (cstring ((t ip).content.take 511))
          else
            return (.ok ip, t)

/-- The part of `fileopen` that finds or creates the inode and locks it. Links are followed at most
`fuel` times. -/
def openInode (fuel : Nat) (t : Nodes) (env : Env) (p : Proc) (path : Path)
    (dirfd : Int) (flags mode : UInt32) : Except Fault (Except Int Nat × Nodes) := do
  if flags &&& oCreat ≠ 0 then
    let (found, t) ← namei t p path dirfd
    match found with
    | some ip =>
        if flags &&& oExcl ≠ 0 then return (.error (-eexist), iput t ip)
        let t ← ilock t ip
        return (.ok ip, t)
    | none =>
        let (made, t) ← create t env p path dirfd .file 0 0 (mode ||| 0o100000)
        match made with
        | .inode ip => return (.ok ip, t)
        | .null => return (.error (-edquot), t)
        -- The error code is taken for an inode.
        | .errno _ => .error .badPointer
  else
    openLoop p dirfd flags fuel t path

/-! ## System calls -/

/-- `NPROC`. -/
def nproc : Nat := 64

theorem nproc_pos : 0 < nproc := by decide

/-- Inodes, processes and the number of open files. -/
structure World where
  /-- Inodes. -/
  nodes : Nodes
  /-- Processes; the first is `init`. -/
  procs : Fin nproc → Proc
  /-- Entries of `ftable` in use. -/
  files : Nat

/-- `fdalloc`, from the first descriptor on. -/
def fdalloc (p : Proc) : Option (Fin nofile) :=
  (List.finRange nofile).find? fun fd => p.ofile fd = none

/-- Store an open file. -/
def Proc.setFile (p : Proc) (fd : Fin nofile) (f : Option File) : Proc :=
  { p with ofile := Function.update p.ofile fd f }

/-- Store a process. -/
def World.setProc (w : World) (pid : Fin nproc) (p : Proc) : World :=
  { w with procs := Function.update w.procs pid p }

/-- `fileopen`. -/
def fileopen (fuel : Nat) (w : World) (env : Env) (pid : Fin nproc) (path : Path)
    (dirfd : Int) (flags mode : UInt32) : Except Fault (Int × World) := do
  let p := w.procs pid
  let (opened, t) ← openInode fuel w.nodes env p path dirfd flags mode
  match opened with
  | .error code => return (code, { w with nodes := t })
  | .ok ip =>
      if fileReadable flags ∧ permission p (t ip) mayRead = false then
        return (-eacces, { w with nodes := iput t ip })
      if fileWritable flags ∧ permission p (t ip) mayWrite = false then
        return (-eacces, { w with nodes := iput t ip })
      match if w.files < nfile then fdalloc p else none with
      -- Without a descriptor the inode is unlocked but not put.
      | none => return (-enospc, { w with nodes := t })
      | some fd =>
          let f : File := if (t ip).type = .device then .device ip else .inode ip
          return (fd.val, { w.setProc pid (p.setFile fd (some f)) with
            nodes := t, files := w.files + 1 })

/-- `fileclose` of a file with one descriptor. -/
def fileclose (w : World) (f : File) : World :=
  { w with
    nodes := match f with
      | .pipe => w.nodes
      | .inode ip | .device ip => iput w.nodes ip
    files := w.files - 1 }

/-- `check_fdcwd`; the type of the file is compared with `T_DIR`. -/
def checkFdcwd (p : Proc) (path : Path) (dirfd : Int) : Except Fault Int :=
  if path.head? ≠ some slash ∧ dirfd ≠ atFdcwd then do
    match ← p.fileAt dirfd with
    | none => return -ebadf
    | some f => return if f.type.code ≠ 1 then -enotdir else 0
  else return 0

/-- `sys_linkat`. -/
def sysLinkat (w : World) (env : Env) (pid : Fin nproc) (oldpath : Path)
    (olddirfd : Int) (newpath : Path) (newdirfd : Int)
    (flags : UInt32) : Except Fault (Int × World) := do
  let p := w.procs pid
  let ret ← checkFdcwd p oldpath olddirfd
  if ret < 0 then return (ret, w)
  let ret ← checkFdcwd p newpath newdirfd
  if ret < 0 then return (ret, w)
  let link t oldpath := do
    let (code, t) ← filelink t env p oldpath olddirfd newpath newdirfd
    return (code, { w with nodes := t })
  if flags &&& 0x400 ≠ 0 then
    let (found, t) ← namei w.nodes p oldpath olddirfd
    match found with
    | none => return (-enoent, { w with nodes := t })
    | some ip =>
        let t ← ilock t ip
        if (t ip).type = .symlink then
          -- Only `sizeof(MAXPATH) - 1` bytes of the target are read.
          if (t ip).content = [] then return (-enoent, { w with nodes := iput t ip })
          link (iput t ip) (cstring ((t ip).content.take 3))
        else link (iput t ip) oldpath
  else if flags ≠ 0 then return (-einval, w)
  else link w.nodes oldpath

/-- `sys_symlinkat`. -/
def sysSymlinkat (w : World) (env : Env) (pid : Fin nproc) (target linkpath : Path)
    (dirfd : Int) : Except Fault (Int × World) := do
  let p := w.procs pid
  if target = [] ∨ linkpath = [] then return (-enoent, w)
  let ret ← checkFdcwd p linkpath dirfd
  if ret < 0 then return (ret, w)
  let (code, t) ← filesymlink w.nodes env p target linkpath dirfd
  return (code, { w with nodes := t })

/-- `sys_unlinkat`. -/
def sysUnlinkat (w : World) (pid : Fin nproc) (path : Path) (dirfd : Int)
    (flags : UInt32) : Except Fault (Int × World) := do
  let p := w.procs pid
  let ret ← checkFdcwd p path dirfd
  if ret < 0 then return (ret, w)
  if flags &&& ~~~0x200 ≠ 0 then return (-einval, w)
  let (code, t) ← fileunlink w.nodes p path dirfd (flags &&& 0x200 ≠ 0)
  return (code, { w with nodes := t })

/-- `sys_openat`. -/
def sysOpenat (fuel : Nat) (w : World) (env : Env) (pid : Fin nproc) (path : Path)
    (dirfd : Int) (flags mode : UInt32) : Except Fault (Int × World) :=
  if dirfd ≠ atFdcwd then .ok (-einval, w)
  else fileopen fuel w env pid path dirfd flags mode

/-- `sys_mkdirat`. -/
def sysMkdirat (w : World) (env : Env) (pid : Fin nproc) (path : Path)
    (dirfd : Int) (mode : UInt32) : Except Fault (Int × World) := do
  let p := w.procs pid
  let ret ← checkFdcwd p path dirfd
  if ret < 0 then return (ret, w)
  let (made, t) ← create w.nodes env p path dirfd .dir 0 0 (mode ||| 0o40000)
  match made with
  | .null => return (0, { w with nodes := t })
  | .inode ip => return (0, { w with nodes := iput t ip })
  -- The error code is taken for an inode.
  | .errno _ => .error .badPointer

/-- The inode type for a mode, as `sys_mknodat` chooses it. -/
def typeOfMode (mode : UInt32) : Option FileType :=
  let format := mode &&& 0o170000
  if format = 0o40000 then some .dir
  else if format = 0o100000 then some .file
  else if format = 0o20000 ∨ format = 0o60000 then some .device
  else if format = 0o120000 then some .symlink
  else none

/-- `sys_mknodat`. -/
def sysMknodat (w : World) (env : Env) (pid : Fin nproc) (path : Path)
    (dirfd : Int) (mode : UInt32) (dev : UInt64) : Except Fault (Int × World) := do
  let p := w.procs pid
  let ret ← checkFdcwd p path dirfd
  if ret < 0 then return (ret, w)
  match typeOfMode mode with
  | none => return (-einval, w)
  | some type =>
      let major := if type = .device then ((dev >>> 8) &&& 0xFF).toUInt16 else 0
      let minor := if type = .device then (dev &&& 0xFF).toUInt16 else 0
      let (made, t) ← create w.nodes env p path dirfd type major minor mode
      match made with
      | .errno code => return (code, { w with nodes := t })
      | .inode ip => return (0, { w with nodes := iput t ip })
      -- The null pointer is not negative.
      | .null => .error .badPointer

/-- `sys_chdir`. -/
def sysChdir (w : World) (pid : Fin nproc) (path : Path) : Except Fault (Int × World) := do
  let p := w.procs pid
  let (found, t) ← namei w.nodes p path atFdcwd
  match found with
  | none => return (-enoent, { w with nodes := t })
  | some ip =>
      let t ← ilock t ip
      if (t ip).type ≠ .dir then return (-enotdir, { w with nodes := iput t ip })
      match p.cwd with
      | none => .error .badPointer
      | some cwd => return (0, { w.setProc pid { p with cwd := some ip } with nodes := iput t cwd })

/-- `sys_close`. -/
def sysClose (w : World) (pid : Fin nproc) (fd : Nat) : Except Fault (Int × World) :=
  let p := w.procs pid
  if inside : fd < nofile then
    match p.ofile ⟨fd, inside⟩ with
    | none => .ok (-ebadf, w)
    | some f => .ok (0, fileclose (w.setProc pid (p.setFile ⟨fd, inside⟩ none)) f)
  else .ok (-ebadf, w)

/-- The pass of `exit` over one descriptor. -/
def closeFd (pid : Fin nproc) (w : World) (fd : Fin nofile) : World :=
  match (w.procs pid).ofile fd with
  | none => w
  | some f => (fileclose w f).setProc pid ((w.procs pid).setFile fd none)

/-- `exit`, up to the release of the current directory. -/
def exit (w : World) (pid : Fin nproc) : Except Fault World :=
  if pid.val = 0 then .error .initExiting
  else
    let w := (List.finRange nofile).foldl (closeFd pid) w
    let p := w.procs pid
    match p.cwd with
    | none => .error .badPointer
    | some cwd => .ok { w.setProc pid { p with cwd := none } with nodes := iput w.nodes cwd }

end Dir
end Xv6Duo
