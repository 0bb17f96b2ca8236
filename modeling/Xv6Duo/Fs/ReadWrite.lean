import Xv6Duo.Fs.Inode

/-!
# Reading and writing files

`readi` and `writei` of `kernel/fs.c` with the copies of `kernel/vm.c` and `kernel/proc.c` that move
the bytes. A memory is its bytes by address with the pages a copy may touch: those that `walkaddr`
finds, and those that can also be written once `alloc_cow_page` has run.
-/

namespace Xv6Duo
namespace Fs

open ByteBlock

/-- `PGSIZE`. -/
def pgSize : Nat := 4096

/-- The memory of the calling process, or of the kernel. -/
structure Memory where
  /-- Bytes by address. -/
  bytes : Bytes
  /-- Pages that can be read. -/
  readable : Nat → Bool
  /-- Pages that can be written. -/
  writable : Nat → Bool

/-- The loop of `copyin`; the pages before an unreadable one have been copied. -/
def copyinLoop (mem : Memory) : Nat → Bytes → Nat → Nat → Nat → Bool × Bytes
  | 0, data, _, _, _ => (true, data)
  | fuel + 1, data, dst, src, len =>
      if len = 0 then (true, data)
      else if mem.readable (src / pgSize) then
        let n := min (pgSize - src % pgSize) len
        copyinLoop mem fuel (copyRange data dst mem.bytes src n) (dst + n)
          (src / pgSize * pgSize + pgSize) (len - n)
      else (false, data)

/-- `either_copyin` into the bytes `data` at `dst`. -/
def eitherCopyin (data : Bytes) (dst : Nat) (userSrc : Bool) (mem : Memory) (src len : Nat) :
    Bool × Bytes :=
  if userSrc then copyinLoop mem len data dst src len
  else (true, copyRange data dst mem.bytes src len)

/-- The loop of `copyout`; the pages before one that cannot be written have been copied. -/
def copyoutLoop (data : Bytes) : Nat → Memory → Nat → Nat → Nat → Bool × Memory
  | 0, mem, _, _, _ => (true, mem)
  | fuel + 1, mem, dst, src, len =>
      if len = 0 then (true, mem)
      else if mem.writable (dst / pgSize) then
        let n := min (pgSize - dst % pgSize) len
        copyoutLoop data fuel { mem with bytes := copyRange mem.bytes dst data src n }
          (dst / pgSize * pgSize + pgSize) (src + n) (len - n)
      else (false, mem)

/-- `either_copyout` from the bytes `data` at `src`. -/
def eitherCopyout (userDst : Bool) (mem : Memory) (dst : Nat) (data : Bytes) (src len : Nat) :
    Bool × Memory :=
  if userDst then copyoutLoop data len mem dst src len
  else (true, { mem with bytes := copyRange mem.bytes dst data src len })

/-- A `uint32_t` returned as an `int`. -/
def asInt (value : UInt32) : Int :=
  if value.toNat < 2 ^ 31 then value.toNat else value.toNat - 2 ^ 32

/-- The bytes of one round of the loops: up to the end of the request or of the block. -/
def chunk (n tot off : UInt32) : UInt32 :=
  if n - tot < 4096 - off % 4096 then n - tot else 4096 - off % 4096

variable (sb : Superblock)

/-- The loop of `readi`. -/
def readLoop (userDst : Bool) (n : UInt32) :
    Nat → State → Inode → Memory → Nat → UInt32 → UInt32 →
      Except Fault (UInt32 × Memory × Inode × State)
  | 0, _, _, _, _, _, _ => .error .loops
  | fuel + 1, s, ip, mem, dst, off, tot =>
      if tot < n then do
        let (addr, ip, s) ← bmap sb s ip (off.toNat / bsize)
        if addr = 0 then return (tot, mem, ip, s)
        let (bp, s) ← bread sb s addr
        let m := chunk n tot off
        let (copied, mem) :=
          eitherCopyout userDst mem dst (s.bufs bp).data (off.toNat % bsize) m.toNat
        let s ← brelse s bp
        if copied then readLoop userDst n fuel s ip mem (dst + m.toNat) (off + m) (tot + m)
        else return (-1, mem, ip, s)
      else
        return (tot, mem, ip, s)

/-- `readi`. The result is the return value, the memory, the inode and the state. -/
def readi (s : State) (ip : Inode) (userDst : Bool) (mem : Memory) (dst : Nat) (off n : UInt32) :
    Except Fault (Int × Memory × Inode × State) :=
  if off > ip.size ∨ off + n < off then .ok (0, mem, ip, s)
  else do
    let n := if off + n > ip.size then ip.size - off else n
    let (tot, mem, ip, s) ← readLoop sb userDst n (n.toNat + 1) s ip mem dst off 0
    return (asInt tot, mem, ip, s)

/-- The loop of `writei`. The result is `tot`, `off`, the inode and the state. -/
def writeLoop (userSrc : Bool) (mem : Memory) (n : UInt32) :
    Nat → State → Inode → Nat → UInt32 → UInt32 →
      Except Fault (UInt32 × UInt32 × Inode × State)
  | 0, _, _, _, _, _ => .error .loops
  | fuel + 1, s, ip, src, off, tot =>
      if tot < n then do
        let (addr, ip, s) ← bmap sb s ip (off.toNat / bsize)
        if addr = 0 then return (tot, off, ip, s)
        let (bp, s) ← bread sb s addr
        let m := chunk n tot off
        let (copied, data) :=
          eitherCopyin (s.bufs bp).data (off.toNat % bsize) userSrc mem src m.toNat
        let s := s.setData bp data
        if copied then
          let s ← bwrite s bp
          let s ← brelse s bp
          writeLoop userSrc mem n fuel s ip (src + m.toNat) (off + m) (tot + m)
        else
          let s ← brelse s bp
          return (tot, off, ip, s)
      else
        return (tot, off, ip, s)

/-- `writei`. The result is the return value, the inode and the state. -/
def writei (s : State) (ip : Inode) (userSrc : Bool) (mem : Memory) (src : Nat) (off n : UInt32) :
    Except Fault (Int × Inode × State) :=
  if off > ip.size ∨ off + n < off then .ok (-1, ip, s)
  else if (off + n).toNat > maxFile * bsize then .ok (-1, ip, s)
  else do
    let (tot, off, ip, s) ← writeLoop sb userSrc mem n (n.toNat + 1) s ip src off 0
    let ip := if off > ip.size then { ip with size := off } else ip
    let s ← iupdate sb s ip
    return (asInt tot, ip, s)

end Fs
end Xv6Duo
