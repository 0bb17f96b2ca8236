import Xv6Duo.Vfs.Files

/-!
# System calls on files

The calls of `kernel/sysfile.c` that lead to inodes, one definition for each function, with the
arguments that `argint`, `argstr` and the copies from user memory have fetched. A call whose
arguments cannot be fetched returns before it reaches an inode.
-/

namespace Xv6Duo
namespace Vfs

open Fs ByteBlock

variable (sb : Superblock) (me : Fin nproc)

/-- `check_fdcwd`; the type of the file is compared with `T_DIR`. -/
def checkFdcwd (path : Path) (dirfd : Int) : Kernel Int := do
  if path.head? ≠ some slash ∧ dirfd ≠ atFdcwd then
    match ← ofile me dirfd with
    | none => return -ebadf
    | some f => return if ((← get).ftable f).type.code ≠ tDir then -enotdir else 0
  else return 0

/-- `argfd`. -/
def argfd (fd : Int) : Kernel (Option (Fin nofile × Fin nfile)) := do
  let p := (← get).procs me
  if inside : 0 ≤ fd ∧ fd.toNat < nofile then
    return (p.ofile ⟨fd.toNat, fd_lt inside⟩).map fun f => (⟨fd.toNat, fd_lt inside⟩, f)
  else return none

/-- `stati`, which panics for an unknown type. -/
def stati (ip : Fin ninode) : Kernel Unit := do
  let type := (← inode ip).type
  if type = tFile ∨ type = tDir ∨ type = tDevice ∨ type = tMount ∨ type = tSymlink then return ()
  else throw .unexpectedStatType

/-- `sys_fstatat`; `copied` says whether the result can be stored. -/
def sysFstatat (fuel : Nat) (dirfd : Int) (path : Path) (flags : UInt32) (copied : Bool) :
    Kernel Int := do
  if flags &&& ~~~atSymlinkNofollow ≠ 0 then return -einval
  else
    let ret ← checkFdcwd me path dirfd
    if ret < 0 then return ret
    else
      match ← followLoop sb me dirfd flags fuel path with
      | none => return -enoent
      | some ip =>
          stati ip
          iunlockput sb me ip
          return if copied then 0 else -efault

/-- `AT_SYMLINK_FOLLOW`. -/
def atSymlinkFollow : UInt32 := 0x400

/-- `sys_linkat`. -/
def sysLinkat (olddirfd : Int) (oldpath : Path) (newdirfd : Int) (newpath : Path)
    (flags : UInt32) : Kernel Int := do
  let ret ← checkFdcwd me oldpath olddirfd
  if ret < 0 then return ret
  else
    let ret ← checkFdcwd me newpath newdirfd
    if ret < 0 then return ret
    else if flags &&& atSymlinkFollow ≠ 0 then
      match ← namei sb me oldpath olddirfd with
      | none => return -enoent
      | some ip =>
          ilock me ip
          if (← inode ip).type = tSymlink then
            match ← readTarget sb ip 3 with
            | none =>
                iunlockput sb me ip
                return -enoent
            | some path =>
                iunlockput sb me ip
                filelink sb me path olddirfd newpath newdirfd
          else
            iunlockput sb me ip
            filelink sb me oldpath olddirfd newpath newdirfd
    else if flags ≠ 0 then return -einval
    else filelink sb me oldpath olddirfd newpath newdirfd

/-- `sys_symlinkat`. -/
def sysSymlinkat (target : Path) (dirfd : Int) (linkpath : Path) : Kernel Int := do
  if target = [] ∨ linkpath = [] then return -enoent
  else
    let ret ← checkFdcwd me linkpath dirfd
    if ret < 0 then return ret
    else filesymlink sb me target linkpath dirfd

/-- `sys_unlinkat`. -/
def sysUnlinkat (dirfd : Int) (path : Path) (flags : UInt32) : Kernel Int := do
  let ret ← checkFdcwd me path dirfd
  if ret < 0 then return ret
  else if flags &&& ~~~atRemovedir ≠ 0 then return -einval
  else fileunlink sb me path dirfd flags

/-- `sys_mkdirat`. -/
def sysMkdirat (dirfd : Int) (path : Path) (mode : UInt32) : Kernel Int := do
  let ret ← checkFdcwd me path dirfd
  if ret < 0 then return ret
  else
    match ← create sb me path dirfd tDir 0 0 (mode ||| 0o40000) with
    | .null => return 0
    | .inode ip =>
        iunlockput sb me ip
        return 0
    -- The error code is taken for an inode.
    | .errno _ => throw .badPointer

/-- The inode type for a mode, as `sys_mknodat` chooses it. -/
def typeOfMode (mode : UInt32) : Option UInt16 :=
  let format := mode &&& 0o170000
  if format = 0o40000 then some tDir
  else if format = 0o100000 then some tFile
  else if format = 0o20000 ∨ format = 0o60000 then some tDevice
  else if format = 0o120000 then some tSymlink
  else none

/-- `sys_mknodat`. -/
def sysMknodat (dirfd : Int) (path : Path) (mode : UInt32) (dev : UInt64) : Kernel Int := do
  let ret ← checkFdcwd me path dirfd
  if ret < 0 then return ret
  else
    match typeOfMode mode with
    | none => return -einval
    | some type =>
        let major := if type = tDevice then ((dev >>> 8) &&& 0xFF).toUInt16 else 0
        let minor := if type = tDevice then (dev &&& 0xFF).toUInt16 else 0
        match ← create sb me path dirfd type major minor mode with
        | .errno code => return code
        | .inode ip =>
            iunlockput sb me ip
            return 0
        -- The null pointer is not negative.
        | .null => throw .iunlock

/-- `sys_renameat2`. -/
def sysRenameat2 (olddirfd : Int) (oldpath : Path) (newdirfd : Int) (newpath : Path)
    (flags : UInt32) : Kernel Int := do
  let ret ← checkFdcwd me oldpath olddirfd
  if ret < 0 then return ret
  else
    let ret ← checkFdcwd me newpath newdirfd
    if ret < 0 then return ret
    else if flags &&& 2 ≠ 0 then return -einval
    else if oldpath.isPrefixOf newpath then return 0
    else filerename sb me oldpath olddirfd newpath newdirfd flags

/-- `sys_fchmodat`. -/
def sysFchmodat (dirfd : Int) (path : Path) (mode : UInt32) : Kernel Int := do
  let ret ← checkFdcwd me path dirfd
  if ret < 0 then return ret
  else filechmod sb me path dirfd mode

/-- `sys_fchownat`. -/
def sysFchownat (fuel : Nat) (dirfd : Int) (path : Path) (owner group flags : UInt32) :
    Kernel Int := do
  let ret ← checkFdcwd me path dirfd
  if ret < 0 then return ret
  else filechown sb me fuel none path dirfd owner group flags

/-- `AT_EACCESS`. -/
def atEaccess : UInt32 := 0x200

/-- The answer of `faccess` for a mode that is not `F_OK`. -/
def accessError (p : Proc) (ip : Inode) (mode flags : UInt32) : Int :=
  let uid := if flags &&& atEaccess ≠ 0 then p.euid else p.uid
  let gid := if flags &&& atEaccess ≠ 0 then p.egid else p.gid
  if p.uid = 0 then if mode &&& 1 ≠ 0 ∧ ip.mode &&& 0o111 = 0 then -eacces else 0
  else if mode &&& 4 ≠ 0 ∧ (ip.uid = uid ∧ ip.mode &&& 0o400 = 0) ∧
      (ip.gid = gid ∧ ip.mode &&& 0o40 = 0) ∧ ip.mode &&& 0o4 = 0 then -eacces
  else if mode &&& 2 ≠ 0 ∧ (ip.uid = uid ∧ ip.mode &&& 0o200 = 0) ∧
      (ip.gid = gid ∧ ip.mode &&& 0o20 = 0) ∧ ip.mode &&& 0o2 = 0 then -eacces
  else if mode &&& 1 ≠ 0 ∧ (ip.uid = uid ∧ ip.mode &&& 0o100 = 0) ∧
      (ip.gid = gid ∧ ip.mode &&& 0o1 = 0) ∧ ip.mode &&& 0o1 = 0 then -eacces
  else 0

/-- `faccess`. -/
def faccess (fuel : Nat) (path : Path) (dirfd : Int) (mode flags : UInt32) : Kernel Int := do
  if mode &&& ~~~7 ≠ 0 then return -einval
  else
    match ← followLoop sb me dirfd flags fuel path with
    | none => return -enoent
    | some ip =>
        let fields ← inode ip
        iunlockput sb me ip
        let p := (← get).procs me
        return if mode = 0 then 0 else accessError p fields mode flags

/-- `sys_faccessat2`. -/
def sysFaccessat2 (fuel : Nat) (dirfd : Int) (path : Path) (mode flags : UInt32) :
    Kernel Int := do
  let ret ← checkFdcwd me path dirfd
  if ret < 0 then return ret
  else faccess sb me fuel path dirfd mode flags

/-- `UTIME_NOW`. -/
def utimeNow : UInt64 := 0x3fffffff

/-- `UTIME_OMIT`. -/
def utimeOmit : UInt64 := 0x3ffffffe

/-- One of the two times that `sys_utimensat` sets. -/
def utime (ip : Fin ninode) (time : Timespec) (store : Timespec → Inode → Inode) :
    Kernel Unit := do
  if time.nsec = utimeNow then
    let ts ← clockGettime
    edit ip (store ts)
  else if time.nsec = utimeOmit then return ()
  else edit ip (store time)

/-- The part of `sys_utimensat` behind the search for the inode. -/
def utimeInode (ip : Fin ninode) (atime mtime : Timespec) : Kernel Int := do
  ilock me ip
  utime ip atime fun ts ip => { ip with atime := ts }
  utime ip mtime fun ts ip => { ip with mtime := ts }
  iupdate ip
  iunlockput sb me ip
  return 0

/-- `sys_utimensat`. Without a user array both times are `UTIME_NOW`. -/
def sysUtimensat (dirfd : Int) (path : Path) (atime mtime : Timespec) (flags : UInt32) :
    Kernel Int := do
  if flags &&& ~~~0x1100 ≠ 0 then return -einval
  else if path = [] then
    match ← argfd me dirfd with
    | none => return -einval
    | some (_, f) =>
        let ip ← deref ((← get).ftable f).ip
        utimeInode sb me ip atime mtime
  else
    let ret ← checkFdcwd me path dirfd
    if ret < 0 then return ret
    else
      match ← nameiparent sb me path dirfd with
      | none => return -enoent
      | some (dp, name) =>
          ilock me dp
          match ← dirlookup sb dp (cstring name) with
          | none =>
              iunlockput sb me dp
              return -enoent
          | some (ip, _) =>
              iunlockput sb me dp
              utimeInode sb me ip atime mtime

end Vfs
end Xv6Duo
