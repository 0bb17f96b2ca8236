import Xv6Duo.Errno
import Xv6Duo.Stream.Pipe
import Xv6Duo.Vm.CopyModel
import Xv6Duo.Vfs.Syscalls

/-!
# Descriptors

The descriptor table of a process and the table of open files: the calls of `kernel/sysfile.c` that
make, copy and close descriptors, with `kernel/file.c`, `kernel/pipe.c` and the copy to user memory
of `kernel/vm.c`. The inodes that `fileclose` puts are recorded in order.
-/

namespace Xv6Duo
namespace Descriptor

open Vfs (FdType nfile nofile ninode)
open Vm (pgsize maxva)

/-- `O_WRONLY`. -/
def oWronly : UInt32 := 0x1
/-- `O_ACCMODE`. -/
def oAccmode : UInt32 := 0x200003
/-- `O_APPEND`. -/
def oAppend : UInt32 := 0x400
/-- `O_CLOEXEC`. -/
def oCloexec : UInt32 := 0x80000
/-- `PIPE2_FLAGS`. -/
def pipe2Flags : UInt32 := oCloexec ||| 0x10000 ||| 0x800
/-- `FILE_STATUS_FLAGS`. -/
def fileStatusFlags : UInt32 :=
  oAppend ||| 0x2000 ||| 0x10000 ||| 0x1000 ||| 0x40000 ||| 0x800 ||| 0x101000

/-! ## Data -/

/-- `struct file`, without the device number. -/
structure File where
  /-- Type. -/
  type : FdType
  /-- References. -/
  ref : Int
  /-- Page of the pipe. -/
  pipe : Nat
  /-- Inode. -/
  ip : Option (Fin ninode)
  /-- Position. -/
  off : UInt32
  /-- Flags. -/
  flags : UInt32
  /-- Open for reading. -/
  readable : Bool
  /-- Open for writing. -/
  writable : Bool

/-- A page table entry of user memory, and its frame. -/
structure UserPage where
  /-- `PTE_W`. -/
  writable : Bool
  /-- `PTE_COW`. -/
  cow : Bool
  /-- References to the frame. -/
  refcnt : Nat

/-- User memory. -/
structure UserMemory where
  /-- Pages by number. -/
  page : Nat → Option UserPage
  /-- Bytes. -/
  bytes : Nat → UInt8

/-- A process and the tables that its descriptors lead to. -/
structure World where
  /-- `ofile`. -/
  ofile : Fin nofile → Option (Fin nfile)
  /-- `fdflag`. -/
  fdflag : UInt32
  /-- `ftable.file`. -/
  ftable : Fin nfile → File
  /-- Pipes by page. -/
  pipes : Nat → Stream.Pipe
  /-- Free pages. -/
  pages : List Nat
  /-- User memory. -/
  user : UserMemory
  /-- Inodes that were put. -/
  puts : List (Fin ninode)

/-! ## Bits -/

/-- `bit_add`. -/
def bitAdd (p : UInt32) (n : Fin nofile) : UInt32 := p ||| 1 <<< UInt32.ofNat n.val

/-- `bit_remove`. -/
def bitRemove (p : UInt32) (n : Fin nofile) : UInt32 := p &&& ~~~(1 <<< UInt32.ofNat n.val)

/-- `bit_test`. -/
def bitTest (p : UInt32) (n : Fin nofile) : Bool := p &&& 1 <<< UInt32.ofNat n.val ≠ 0

/-! ## Open files -/

namespace World

/-- Store an open file. -/
def setFile (w : World) (f : Fin nfile) (file : File) : World :=
  { w with ftable := Function.update w.ftable f file }

/-- Store a descriptor. -/
def setFd (w : World) (fd : Fin nofile) (f : Option (Fin nfile)) : World :=
  { w with ofile := Function.update w.ofile fd f }

end World

/-- `filealloc`. -/
def filealloc (w : World) : Option (Fin nfile × World) :=
  ((List.finRange nfile).find? fun f => (w.ftable f).ref = 0).map fun f =>
    (f, w.setFile f { w.ftable f with ref := 1 })

/-- `filedup`. -/
def filedup (w : World) (f : Option (Fin nfile)) : Except Fault World :=
  match f with
  | none => .error .badPointer
  | some f =>
      if (w.ftable f).ref < 1 then .error .filedup
      else .ok (w.setFile f { w.ftable f with ref := (w.ftable f).ref + 1 })

/-- `pipeclose`. -/
def pipeclose (w : World) (pi : Nat) (writable : Bool) : World :=
  let pipe :=
    if writable then { w.pipes pi with writeopen := false }
    else { w.pipes pi with readopen := false }
  { w with
    pipes := Function.update w.pipes pi pipe
    pages := if pipe.readopen = false ∧ pipe.writeopen = false then pi :: w.pages else w.pages }

/-- `fileclose`. -/
def fileclose (w : World) (f : Fin nfile) : Except Fault World :=
  let ff := w.ftable f
  if ff.ref < 1 then .error .fileclose
  else if 0 < ff.ref - 1 then .ok (w.setFile f { ff with ref := ff.ref - 1 })
  else
    let w := w.setFile f { ff with ref := 0, type := .none }
    match ff.type with
    | .pipe => .ok (pipeclose w ff.pipe ff.writable)
    | .none => .ok w
    | .inode | .device =>
        match ff.ip with
        | none => .error .badPointer
        | some ip => .ok { w with puts := w.puts ++ [ip] }

/-! ## Copies of a descriptor -/

/-- `p->ofile[fd]`. -/
def ofile (w : World) (fd : Int) : Except Fault (Option (Fin nfile)) :=
  if inside : 0 ≤ fd ∧ fd.toNat < nofile then .ok (w.ofile ⟨fd.toNat, Vfs.fd_lt inside⟩)
  else .error .badPointer

/-- The descriptor that the loop of `fdalloc` finds. -/
def freeFd (w : World) (start : Int) : Option (Fin nofile) :=
  (List.finRange nofile).find? fun fd => start ≤ fd.val ∧ w.ofile fd = none

/-- `fdalloc`. There is no descriptor when it fails. -/
def fdalloc (w : World) (f : Fin nfile) (start : Int) :
    Except Fault (Option (Fin nofile) × World) :=
  if start < 0 then .error .badPointer
  else
    match freeFd w start with
    | some fd => .ok (some fd, w.setFd fd (some f))
    | none => .ok (none, w)

/-- `dupfd`. -/
def dupfd (w : World) (fd start : Int) : Except Fault (Int × World) := do
  match ← ofile w fd with
  | none => return (-ebadf, w)
  | some f =>
      let w ← filedup w (some f)
      match ← fdalloc w f start with
      | (some fd, w) => return (fd.val, w)
      | (none, w) => return (-ebadf, w)

/-- `sys_dup`. -/
def sysDup (w : World) (fd : Int) : Except Fault (Int × World) := dupfd w fd 0

/-- `fileclose` of what a descriptor holds. -/
def vacate (w : World) (slot : Fin nofile) : Except Fault World :=
  match w.ofile slot with
  | none => .ok w
  | some old => fileclose w old

/-- `sys_dup3`. -/
def sysDup3 (w : World) (fd1 fd2 : Int) (flags : UInt32) : Except Fault (Int × World) :=
  if flags &&& ~~~oCloexec ≠ 0 then .ok (-einval, w)
  else if fd1 = fd2 then .ok (-einval, w)
  else if in1 : 0 ≤ fd1 ∧ fd1.toNat < nofile then
    if in2 : 0 ≤ fd2 ∧ fd2.toNat < nofile then do
      let target : Fin nofile := ⟨fd2.toNat, Vfs.fd_lt in2⟩
      let f := w.ofile ⟨fd1.toNat, Vfs.fd_lt in1⟩
      let w ← vacate w target
      let w ← filedup w f
      let w := if flags &&& oCloexec ≠ 0 then { w with fdflag := bitAdd w.fdflag target } else w
      return (fd2, w.setFd target f)
    else .ok (-ebadf, w)
  else .ok (-ebadf, w)

/-- `argfd`. -/
def argfd (w : World) (fd : Int) : Option (Fin nofile × Fin nfile) :=
  if inside : 0 ≤ fd ∧ fd.toNat < nofile then
    (w.ofile ⟨fd.toNat, Vfs.fd_lt inside⟩).map fun f => (⟨fd.toNat, Vfs.fd_lt inside⟩, f)
  else none

/-- `sys_fcntl`. -/
def sysFcntl (w : World) (fd : Int) (cmd args : Int32) : Except Fault (Int × World) :=
  match argfd w fd with
  | none => .ok (-einval, w)
  | some (slot, f) =>
      match cmd.toInt with
      | 0 => dupfd w fd args.toInt
      | 1 => .ok (if bitTest w.fdflag slot then 1 else 0, w)
      | 2 =>
          .ok (0, if args.toUInt32 &&& 1 ≠ 0 then { w with fdflag := bitAdd w.fdflag slot }
            else { w with fdflag := bitRemove w.fdflag slot })
      | 3 => .ok (((w.ftable f).flags &&& (fileStatusFlags ||| oAccmode)).toNat, w)
      | 4 =>
          .ok (0, w.setFile f { w.ftable f with
            flags := args.toUInt32 &&& fileStatusFlags ||| (w.ftable f).flags &&& oAccmode })
      | _ => .ok (-einval, w)

/-! ## Pipes -/

/-- `kalloc`. -/
def kalloc (w : World) : Option (Nat × World) :=
  match w.pages with
  | [] => none
  | page :: pages => some (page, { w with pages })

/-- `pipealloc` from the page on, for two files. -/
def openPipe (w : World) (rf wf : Fin nfile) (pi : Nat) (flags : UInt32) : World :=
  let pipe := { w.pipes pi with nread := 0, nwrite := 0, readopen := true, writeopen := true }
  let w := { w with pipes := Function.update w.pipes pi pipe }
  let w := w.setFile rf { w.ftable rf with
    type := .pipe, readable := true, writable := false, pipe := pi
    flags := flags &&& pipe2Flags, off := 0 }
  w.setFile wf { w.ftable wf with
    type := .pipe, readable := false, writable := true, pipe := pi
    flags := oWronly ||| oAppend ||| flags &&& pipe2Flags, off := 0 }

/-- `pipealloc`. -/
def pipealloc (w : World) (flags : UInt32) :
    Except Fault (Option (Fin nfile × Fin nfile) × World) :=
  match filealloc w with
  | none => .ok (none, w)
  | some (rf, w) =>
      match filealloc w with
      | none => do
          let w ← fileclose w rf
          return (none, w)
      | some (wf, w) =>
          match kalloc w with
          | none => do
              let w ← fileclose w rf
              let w ← fileclose w wf
              return (none, w)
          | some (pi, w) => .ok (some (rf, wf), openPipe w rf wf pi flags)

/-- `alloc_cow_page`: the answer, the memory and the free pages. -/
def allocCowPage (user : UserMemory) (pages : List Nat) (va : Nat) :
    Int × UserMemory × List Nat :=
  if maxva ≤ va then (-1, user, pages)
  else
    match user.page (va / pgsize) with
    | none => (1, user, pages)
    | some entry =>
        if entry.cow = false ∧ entry.writable = false then (-1, user, pages)
        else if entry.writable = true ∨ entry.cow = false then (1, user, pages)
        else if 1 < entry.refcnt then
          match pages with
          | [] => (-1, user, pages)
          | _ :: rest =>
              let copied := some (UserPage.mk true false 1)
              (0, { user with page := Function.update user.page (va / pgsize) copied }, rest)
        else if entry.refcnt = 1 then
          let unshared := some { entry with writable := true }
          (0, { user with page := Function.update user.page (va / pgsize) unshared }, pages)
        else (-1, user, pages)

/-- The loop of `copyout`. Each round copies a byte or more. -/
def copyoutLoop (data : Nat → UInt8) :
    Nat → UserMemory → List Nat → Nat → Nat → Nat → Int × UserMemory × List Nat
  | 0, user, pages, _, _, _ => (0, user, pages)
  | fuel + 1, user, pages, dst, src, len =>
      if 0 < len then
        let va0 := dst / pgsize * pgsize
        let (ret, user, pages) := allocCowPage user pages va0
        if ret < 0 then (-1, user, pages)
        else if maxva ≤ va0 ∨ user.page (va0 / pgsize) = none then (-1, user, pages)
        else
          let n := min (pgsize - (dst - va0)) len
          let bytes := fun a =>
            if dst ≤ a ∧ a < dst + n then data (src + (a - dst)) else user.bytes a
          copyoutLoop data fuel { user with bytes } pages ((va0 + pgsize) % 2 ^ 64) (src + n)
            (len - n)
      else (0, user, pages)

/-- `copyout` of an `int`. -/
def copyoutInt (user : UserMemory) (pages : List Nat) (dst : UInt64) (value : Nat) :
    Int × UserMemory × List Nat :=
  copyoutLoop (fun i => UInt8.ofNat (value / 256 ^ i)) 4 user pages dst.toNat 0 4

/-- The two stores of `sys_pipe2`. -/
def copyoutPair (user : UserMemory) (pages : List Nat) (fdarray : UInt64) (fd0 fd1 : Fin nofile) :
    Int × UserMemory × List Nat :=
  let (ret, user, pages) := copyoutInt user pages fdarray fd0.val
  if ret < 0 then (ret, user, pages) else copyoutInt user pages (fdarray + 4) fd1.val

/-- `sys_pipe2`. -/
def sysPipe2 (w : World) (fdarray : UInt64) (flags : UInt32) : Except Fault (Int × World) := do
  let (files, w) ← pipealloc w flags
  match files with
  | none => return (-enfile, w)
  | some (rf, wf) =>
      if flags &&& ~~~pipe2Flags ≠ 0 then return (-einval, w)
      else
        match ← fdalloc w rf 0 with
        | (none, w) =>
            let w ← fileclose w rf
            let w ← fileclose w wf
            return (-emfile, w)
        | (some fd0, w) =>
            match ← fdalloc w wf 0 with
            | (none, w) =>
                let w := w.setFd fd0 none
                let w ← fileclose w rf
                let w ← fileclose w wf
                return (-emfile, w)
            | (some fd1, w) =>
                let (ret, user, pages) := copyoutPair w.user w.pages fdarray fd0 fd1
                let w := { w with user, pages }
                if ret < 0 then
                  let w := (w.setFd fd0 none).setFd fd1 none
                  let w := { w with fdflag := bitRemove (bitRemove w.fdflag fd0) fd1 }
                  let w ← fileclose w rf
                  let w ← fileclose w wf
                  return (-efault, w)
                else if flags &&& oCloexec ≠ 0 then
                  return (0, { w with fdflag := bitAdd (bitAdd w.fdflag fd0) fd1 })
                else return (0, w)

end Descriptor
end Xv6Duo
