import Xv6Duo.Errno
import Xv6Duo.Vfs.Model

/-!
# Files

The calls of `kernel/file.c` on open files and on names, one definition for each function. The
result of a pipe or a device is a parameter: it has no effect on inodes.
-/

namespace Xv6Duo
namespace Vfs

open Fs ByteBlock

variable (sb : Superblock) (me : Fin nproc)

/-- `T_FILE`. -/
def tFile : UInt16 := 2
/-- `T_DEVICE`. -/
def tDevice : UInt16 := 3
/-- `T_MOUNT`. -/
def tMount : UInt16 := 4
/-- `T_SYMLINK`. -/
def tSymlink : UInt16 := 5

/-! ## Open files -/

/-- The bytes that one round of `filewrite` writes at most. -/
def writeMax : Nat := 18 * 4096

/-- The rounds after which the loop of `filewrite` has ended. -/
def writeFuel (n : Nat) : Nat := n / writeMax + 2

/-! ## Names -/

/-- `MAY_EXEC`. -/
def mayExec : UInt32 := 1
/-- `MAY_WRITE`. -/
def mayWrite : UInt32 := 2
/-- `MAY_READ`. -/
def mayRead : UInt32 := 4

/-- `permission`. -/
def permission (p : Proc) (ip : Inode) (mask : UInt32) : Bool :=
  let mode := if p.fsuid = ip.uid then ip.mode >>> 6
    else if p.fsgid = ip.gid then ip.mode >>> 3
    else ip.mode
  p.fsuid = 0 ∨ mode &&& mask &&& 7 = mask ∨
    (mask &&& (mayRead ||| mayWrite) ≠ 0 ∨ ip.mode &&& 0o111 ≠ 0) ∧ p.capDacOverride

/-- What `create` returns: a locked inode, an error code as a pointer, or the null pointer. -/
inductive Created
  /-- An inode. -/
  | inode (ip : Fin ninode)
  /-- An error code. -/
  | errno (code : Int)
  /-- The null pointer. -/
  | null

/-- The entries that `create` makes for a new inode. -/
def linkNew (dp ip : Fin ninode) (name : Path) (type : UInt16) : Kernel Bool := do
  if type = tDir then
    let self ← inode ip
    let r ← dirlink sb me ip (cstring [46]) self.inum self.type
    if r < 0 then return false
    else
      let parent ← inode dp
      let r ← dirlink sb me ip (cstring [46, 46]) parent.inum parent.type
      if r < 0 then return false
      else
        let self ← inode ip
        let r ← dirlink sb me dp (cstring name) self.inum self.type
        return ¬r < 0
  else
    let self ← inode ip
    let r ← dirlink sb me dp (cstring name) self.inum self.type
    return ¬r < 0

/-- The part of `create` behind the allocation of the inode. -/
def createNew (dp ip : Fin ninode) (name : Path) (type major minor : UInt16) (mode : UInt32) :
    Kernel Created := do
  ilock me ip
  let p := (← get).procs me
  edit ip fun ip => { ip with
    major := major, minor := minor, nlink := 1, mode := mode &&& ~~~p.umask, type := type }
  let ts ← clockGettime
  edit ip fun ip => { ip with atime := ts, mtime := ts, ctime := ts, uid := p.uid, gid := p.gid }
  iupdate ip
  if ← linkNew sb me dp ip name type then
    if type = tDir then
      edit dp fun dp => { dp with nlink := dp.nlink + 1 }
      iupdate dp
    iunlockput sb me dp
    return .inode ip
  else
    edit ip fun ip => { ip with nlink := 0 }
    iupdate ip
    iunlockput sb me ip
    iunlockput sb me dp
    return .null

/-- `create`. -/
def create (path : Path) (dirfd : Int) (type major minor : UInt16) (mode : UInt32) :
    Kernel Created := do
  match ← nameiparent sb me path dirfd with
  | none => return .errno (-enoent)
  | some (dp, name) =>
      ilock me dp
      if permission ((← get).procs me) (← inode dp) mayExec = false then
        iunlockput sb me dp
        return .errno (-eacces)
      else
        match ← dirlookup sb dp (cstring name) with
        | some (ip, _) =>
            iunlockput sb me dp
            ilock me ip
            let found := (← inode ip).type
            if type = tFile ∧ (found = tFile ∨ found = tDevice) then return .inode ip
            else
              iunlockput sb me ip
              return .errno (-eexist)
        | none =>
            match ← ialloc sb type with
            | none =>
                iunlockput sb me dp
                return .errno (-enomem)
            | some ip => createNew sb me dp ip name type major minor mode

/-- The error exit of `filelink` behind the increment of the link count. -/
def unlinkAgain (ip : Fin ninode) (error : Int) : Kernel Int := do
  ilock me ip
  edit ip fun ip => { ip with nlink := ip.nlink - 1 }
  iupdate ip
  iunlockput sb me ip
  return error

/-- `filelink`; all inodes are on one device. -/
def filelink (oldpath : Path) (olddirfd : Int) (newpath : Path) (newdirfd : Int) :
    Kernel Int := do
  match ← namei sb me oldpath olddirfd with
  | none => return -enoent
  | some ip =>
      ilock me ip
      if (← inode ip).type = tDir then
        iunlockput sb me ip
        return -eperm
      else
        edit ip fun ip => { ip with nlink := ip.nlink + 1 }
        iupdate ip
        iunlock me ip
        match ← nameiparent sb me newpath newdirfd with
        | none => unlinkAgain sb me ip (-enoent)
        | some (dp, name) =>
            ilock me dp
            let self ← inode ip
            let error ← dirlink sb me dp (cstring name) self.inum self.type
            iunlockput sb me dp
            if error ≠ 0 then unlinkAgain sb me ip error
            else
              iput sb me ip
              return 0

/-- `filesymlink`. -/
def filesymlink (target linkpath : Path) (dirfd : Int) : Kernel Int := do
  match ← nameiparent sb me linkpath dirfd with
  | none => return -enoent
  | some (dp, name) =>
      ilock me dp
      match ← ialloc sb tSymlink with
      | none =>
          iunlockput sb me dp
          return -enomem
      | some ip =>
          ilock me ip
          edit ip fun ip => { ip with
            major := 0, minor := 0, nlink := 1, mode := 0o120777, type := tSymlink }
          let ts ← clockGettime
          edit ip fun ip => { ip with atime := ts, mtime := ts, ctime := ts }
          iupdate ip
          let self ← inode ip
          let error ← dirlink sb me dp (cstring name) self.inum self.type
          if error ≠ 0 then
            iunlockput sb me dp
            iunlockput sb me ip
            return error
          else
            iupdate dp
            iunlockput sb me dp
            let _ ← writei sb ip false (kernelMemory (cstring target)) 0 0
              (UInt32.ofNat target.length)
            iupdate ip
            iunlockput sb me ip
            return 0

/-- The value of an `int` that passes through a variable of type `uint32_t`. -/
def unsigned (code : Int) : Int := code % 2 ^ 32

/-- `AT_REMOVEDIR`. -/
def atRemovedir : UInt32 := 0x200

/-- The test of `fileunlink` on the inode it is about to unlink. -/
def unlinkError (ip : Fin ninode) (flags : UInt32) : Kernel (Option Int) := do
  let fields ← inode ip
  -- `nlink` is a `short`.
  if fields.nlink = 0 ∨ 2 ^ 15 ≤ fields.nlink.toNat then return some (-eperm)
  else if flags &&& atRemovedir ≠ 0 then
    if fields.type ≠ tDir then return some (-enotdir)
    else if ← content ip fun s ip => Fs.isdirempty sb s ip then return none
    else return some (-eperm)
  else if fields.type = tDir then return some (-eisdir)
  else return none

/-- `fileunlink`. -/
def fileunlink (path : Path) (dirfd : Int) (flags : UInt32) : Kernel Int := do
  match ← nameiparent sb me path dirfd with
  | none => return -enoent
  | some (dp, name) =>
      ilock me dp
      if namecmpEq (cstring name) (cstring [46]) ∨ namecmpEq (cstring name) (cstring [46, 46]) then
        iunlockput sb me dp
        return unsigned (-eperm)
      else
        match ← dirlookup sb dp (cstring name) with
        | none =>
            iunlockput sb me dp
            return unsigned (-enoent)
        | some (ip, off) =>
            ilock me ip
            match ← unlinkError sb ip flags with
            | some error =>
                iunlockput sb me ip
                iunlockput sb me dp
                return unsigned error
            | none =>
                if (← unlink sb dp off) < 0 then
                  iunlockput sb me ip
                  iunlockput sb me dp
                  return unsigned (-eio)
                else
                  if (← inode ip).type = tDir then
                    edit dp fun dp => { dp with nlink := dp.nlink - 1 }
                    iupdate dp
                  iunlockput sb me dp
                  edit ip fun ip => { ip with nlink := ip.nlink - 1 }
                  iupdate ip
                  iunlockput sb me ip
                  return 0

/-! ## Opening -/

/-- `O_ACCMODE`. -/
def oAccmode : UInt32 := 0o10000003
/-- `O_APPEND`. -/
def oAppend : UInt32 := 0o2000

/-- `FILE_WRITABLE`. -/
def fileWritable (flags : UInt32) : Bool := flags &&& oAccmode = 2 ∨ flags &&& oAccmode = 1

/-- The read of the target of a symbolic link into a buffer: its path, or nothing when the target
cannot be read. -/
def readTarget (ip : Fin ninode) (n : UInt32) : Kernel (Option Path) := do
  let (r, mem) ← readi sb ip false (kernelMemory zeros) 0 0 n
  return if r ≤ 0 then none else some (stringAt mem.bytes r.toNat)

/-! ## Attributes -/

/-- `filechmod`. -/
def filechmod (path : Path) (dirfd : Int) (mode : UInt32) : Kernel Int := do
  match ← namei sb me path dirfd with
  | none => return -enoent
  | some ip =>
      ilock me ip
      edit ip fun ip => { ip with mode := ip.mode &&& 0o170000 ||| mode }
      iupdate ip
      iunlockput sb me ip
      return 0

/-- `AT_SYMLINK_NOFOLLOW`. -/
def atSymlinkNofollow : UInt32 := 0x100

/-- The loops of `filechown`, `faccess` and `sys_fstatat` that find and lock an inode; three bytes
of the target of a symbolic link are read. -/
def followLoop (dirfd : Int) (flags : UInt32) : Nat → Path → Kernel (Option (Fin ninode))
  | 0, _ => throw .loops
  | fuel + 1, path => do
      match ← namei sb me path dirfd with
      | none => return none
      | some ip =>
          ilock me ip
          if flags &&& atSymlinkNofollow = 0 ∧ (← inode ip).type = tSymlink then
            match ← readTarget sb ip 3 with
            | none =>
                iunlockput sb me ip
                return none
            | some path =>
                iunlockput sb me ip
                followLoop dirfd flags fuel path
          else return some ip

/-- The fields that `filechown` leaves in the inode, and whether it succeeds. -/
def chown (p : Proc) (ip : Inode) (owner group : UInt32) : Bool × Inode :=
  if owner ≠ 0xFFFFFFFF ∧ p.capChown = false then (false, ip)
  else
    let ip := if owner ≠ 0xFFFFFFFF then { ip with uid := owner } else ip
    if group ≠ 0xFFFFFFFF ∧ p.capChown = false ∧ ip.uid ≠ p.euid then (false, ip)
    else
      let ip := if group ≠ 0xFFFFFFFF then { ip with gid := group } else ip
      if ip.mode &&& 0o111 ≠ 0 ∧ p.capChown = false then
        (true, { ip with mode := ip.mode &&& ~~~0o6000 })
      else (true, ip)

/-- The part of `filechown` behind the search for the inode. -/
def chownInode (ip : Fin ninode) (owner group : UInt32) : Kernel Int := do
  let p := (← get).procs me
  let (done, _) := chown p (← inode ip) owner group
  edit ip fun ip => (chown p ip owner group).2
  if done then
    iupdate ip
    iunlockput sb me ip
    return 0
  else
    iunlockput sb me ip
    return -eperm

/-- `filechown`; the inode of an open file is not locked. -/
def filechown (fuel : Nat) (f : Option (Fin nfile)) (path : Path) (dirfd : Int)
    (owner group flags : UInt32) : Kernel Int := do
  match f with
  | some f =>
      let ip ← deref ((← get).ftable f).ip
      chownInode sb me ip owner group
  | none =>
      match ← followLoop sb me dirfd flags fuel path with
      | none => return -enoent
      | some ip => chownInode sb me ip owner group

/-! ## Renaming -/

/-- `rename`. -/
def rename (dp : Fin ninode) (name1 name2 : Path) : Kernel Int := do
  ilock me dp
  match ← dirlookup sb dp (cstring name1) with
  -- The error paths return without releasing what they hold.
  | none => return -enoent
  | some (ip, off) =>
      ilock me ip
      let fields ← inode ip
      let entry := dirent fields.inum fields.type (cstring name2)
      if (← writei sb dp false (kernelMemory entry) 0 off direntSize) ≠ 64 then return -enospc
      else
        iupdate dp
        let ts ← clockGettime
        edit ip fun ip => { ip with ctime := ts }
        iupdate ip
        iunlockput sb me ip
        iunlockput sb me dp
        return 0

/-- `reinode`. -/
def reinode (dp oldIp newIp : Fin ninode) : Kernel Int := do
  ilock me dp
  ilock me oldIp
  ilock me newIp
  let old ← inode oldIp
  match ← content dp fun s ip => Fs.direntlookup sb s ip old.inum with
  -- The error paths return without releasing what they hold.
  | none => return -enoent
  | some (entry, off) =>
      let new ← inode newIp
      let entry := setWord entry 0 new.inum
      if (← writei sb dp false (kernelMemory entry) 0 off direntSize) ≠ 64 then return -enospc
      else
        iupdate dp
        let ts ← clockGettime
        edit newIp fun ip => { ip with ctime := ts }
        edit oldIp fun ip => { ip with ctime := ts }
        iupdate oldIp
        iupdate newIp
        iunlockput sb me oldIp
        iunlockput sb me newIp
        iunlockput sb me dp
        return 0

/-- `RENAME_NOREPLACE`. -/
def renameNoreplace : UInt32 := 1

/-- The flags for `fileunlink` of an inode, read without its lock. -/
def removeFlags (ip : Fin ninode) : Kernel UInt32 := do
  return if (← inode ip).type = tDir then atRemovedir else 0

/-- A pointer that is locked first. -/
def lockable (pointer : Option (Fin ninode × Path)) : Kernel (Fin ninode × Path) :=
  match pointer with
  | some found => return found
  | none => throw .ilock

/-- The part of `filerename` behind the lookups. -/
def renameFound (oldpath : Path) (olddirfd : Int) (newpath : Path) (newdirfd : Int)
    (ip1 : Fin ninode) (parent1 : Option (Fin ninode × Path)) (ip2 : Option (Fin ninode))
    (parent2 : Option (Fin ninode × Path)) : Kernel Int := do
  if ip2 = some ip1 then
    iput sb me ip1
    iput sb me ip1
    iput sb me (← deref parent1).1
    iput sb me (← deref parent2).1
    return 0
  else if parent1.map Prod.fst = parent2.map Prod.fst then
    let (dp1, name1) ← lockable parent1
    let (dp2, name2) ← lockable parent2
    match ip2 with
    | none =>
        let error ← rename sb me dp1 name1 name2
        if error < 0 then return error
        else
          iput sb me ip1
          iput sb me dp2
          return 0
    | some ip2 =>
        let error ← reinode sb me dp2 ip2 ip1
        if error < 0 then return error
        else
          iput sb me dp1
          fileunlink sb me newpath newdirfd (← removeFlags ip2)
  else
    match ip2 with
    | none =>
        let (dp2, name2) ← deref parent2
        let fields ← inode ip1
        let error ← dirlink sb me dp2 (cstring name2) fields.inum fields.type
        if error < 0 then return error
        else
          let flags ← removeFlags ip1
          iput sb me (← deref parent1).1
          iput sb me ip1
          fileunlink sb me oldpath olddirfd flags
    | some ip2 =>
        let (dp2, _) ← lockable parent2
        let error ← reinode sb me dp2 ip2 ip1
        if error < 0 then return error
        else
          let flags ← removeFlags ip2
          iput sb me (← deref parent1).1
          iput sb me ip2
          fileunlink sb me newpath newdirfd flags

/-- `filerename`. -/
def filerename (oldpath : Path) (olddirfd : Int) (newpath : Path) (newdirfd : Int)
    (flags : UInt32) : Kernel Int := do
  let target ←
    if flags &&& renameNoreplace ≠ 0 then namei sb me newpath newdirfd else pure none
  match target with
  | some ip2 =>
      iunlock me ip2
      return -eexist
  | none =>
      match ← namei sb me oldpath olddirfd with
      | none => return -enoent
      | some ip1 =>
          let parent1 ← nameiparent sb me oldpath olddirfd
          let ip2 ← namei sb me newpath newdirfd
          let parent2 ← nameiparent sb me newpath newdirfd
          renameFound sb me oldpath olddirfd newpath newdirfd ip1 parent1 ip2 parent2

end Vfs
end Xv6Duo
