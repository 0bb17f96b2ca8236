import Xv6Duo.Errno
import Xv6Duo.Mapping.Brk
import Xv6Duo.Mapping.Copyout

/-!
# `execve`

The parts of `kernel/exec.c` that build the memory of a program: `loadseg` and the loop over the
program headers that are to be loaded. The kernel is that of mapped memory, and the file is an inode
of its volume.
-/

namespace Xv6Duo
namespace Exec

open Vm Mmap Mapping

/-! ## Data -/

/-- `KERNBASE`. -/
def kernbase : Nat := 0x80200000

/-- `PHYSTOP`. -/
def phystop : Nat := kernbase + 252 * 1024 * 1024

/-- `MAXARG`. -/
def maxarg : Nat := 8

/-- `MAXPATH`. -/
def maxpath : Nat := 128

/-- `PF_X`. -/
def pfX : Nat := 1

/-- `PF_W`. -/
def pfW : Nat := 2

/-- `PF_R`. -/
def pfR : Nat := 4

/-- `E2BIG`. -/
def e2big : Int := 7

/-- A `struct proghdr` of type `PT_LOAD`. -/
structure Proghdr where
  /-- Flags. -/
  flags : Nat
  /-- Position in the file. -/
  off : Nat
  /-- Address. -/
  vaddr : Nat
  /-- Number of bytes in the file. -/
  filesz : Nat
  /-- Number of bytes in memory. -/
  memsz : Nat

/-- `flags2perm`. -/
def flags2perm (flags : Nat) : Nat :=
  let perm := if flags &&& pfX ≠ 0 then pteX else 0
  let perm := if flags &&& pfW ≠ 0 then perm ||| pteW else perm
  if flags &&& pfR ≠ 0 then perm ||| pteR else perm

/-! ## Segments -/

variable (sb : Fs.Superblock)

/-- `n`, `pa` and `sz` of a round of `loadseg`. -/
def loadsegRound (pa addr : Nat) (i sz : UInt32) : UInt32 × Nat × UInt32 :=
  if 0 < addr then
    let n := if sz.toNat < pgsize - addr then sz else UInt32.ofNat (pgsize - addr)
    (n, pa + addr, sz + UInt32.ofNat pgsize - n)
  else if (sz - i).toNat < pgsize then (sz - i, pa, sz)
  else (UInt32.ofNat pgsize, pa, sz)

/-- The loop of `loadseg`, with fuel. -/
def loadsegLoop (pagetable : Nat) (inum : UInt32) :
    Nat → Kernel → Nat → Nat → UInt32 → UInt32 → UInt32 → Except Fault (Int × Kernel)
  | 0, _, _, _, _, _, _ => .error .loops
  | fuel + 1, k, va, addr, i, sz, offset =>
      if i < sz then
        let pa := walkaddr k.memory pagetable va
        if pa = 0 then .error .loadseg
        else do
          let (n, pa, sz) := loadsegRound pa addr i sz
          let (bytes, mem, ip, state) ← Fs.readi sb k.volume.state (k.volume.inodes inum) false
            ⟨k.bytes, fun _ => true, fun _ => true⟩ pa offset n
          let k := { k with
            bytes := mem.bytes
            volume := ⟨state, Function.update k.volume.inodes inum ip⟩ }
          if UInt32.ofInt bytes ≠ n then return (-1, k)
          loadsegLoop pagetable inum fuel k ((va + n.toNat) % 2 ^ 64) 0 (i + UInt32.ofNat pgsize) sz
            (offset + n)
      else .ok (0, k)

/-- `loadseg`. Each round is for a page. -/
def loadseg (k : Kernel) (pagetable va : Nat) (inum offset sz : UInt32) :
    Except Fault (Int × Kernel) :=
  loadsegLoop sb pagetable inum (sz.toNat / pgsize + 3) k va (va % pgsize) 0 sz offset

/-- The part of `execve` for a header of type `PT_LOAD`: `errno`, `sz` and `nph`. -/
def loadHeader (k : Kernel) (pagetable : Nat) (inum : UInt32) (sz nph : Nat) (ph : Proghdr) :
    Except Fault (Int × Nat × Kernel) :=
  if ph.memsz < ph.filesz then .ok (-enoexec, sz, k)
  else if (ph.vaddr + ph.memsz) % 2 ^ 64 < ph.vaddr then .ok (-enoexec, sz, k)
  else
    let sz := if nph = 0 then ph.vaddr else sz
    if nph = 0 ∧ sz % pgsize ≠ 0 then .ok (-enoexec, sz, k)
    else do
      let (sz1, k) ← uvmalloc k pagetable sz ((ph.vaddr + ph.memsz) % 2 ^ 64) (flags2perm ph.flags)
      if sz1 = 0 then return (-enomem, sz, k)
      let (r, k) ← loadseg sb k pagetable ph.vaddr inum (UInt32.ofNat ph.off)
        (UInt32.ofNat ph.filesz)
      if r < 0 then return (-eio, sz, k)
      return (0, sz1, k)

/-- The headers of type `PT_LOAD`, one after another. -/
def loadHeaders (pagetable : Nat) (inum : UInt32) :
    List Proghdr → Kernel → Nat → Nat → Except Fault (Int × Nat × Kernel)
  | [], k, sz, _ => .ok (0, sz, k)
  | ph :: rest, k, sz, nph => do
      let (errno, sz, k) ← loadHeader sb k pagetable inum sz nph ph
      if errno ≠ 0 then return (errno, sz, k)
      loadHeaders pagetable inum rest k sz (nph + 1)

end Exec
end Xv6Duo
