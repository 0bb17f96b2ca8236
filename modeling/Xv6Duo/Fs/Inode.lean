import Xv6Duo.Fs.Bio

/-!
# Blocks and inodes

The block layer and the inode content layer of `kernel/fs.c`, with the copies between user and
kernel memory that they use, one definition for each function. Values of `uint32_t` are `UInt32`,
so sums of offsets wrap as they do in the source; loop counters are naturals.
-/

namespace Xv6Duo
namespace Fs

open ByteBlock

/-- `NDIRECT`. -/
def ndirect : Nat := 11

/-- `NINDIRECT`, the block numbers of one block. -/
def nindirect : Nat := 1024

/-- `MAXFILE`, the blocks of the largest file. -/
def maxFile : Nat := ndirect + nindirect + nindirect * nindirect

/-- `IPB`, the inodes of one block. -/
def ipb : UInt32 := 32

/-- `BPB`, the bits of one bitmap block. -/
def bpb : UInt32 := 32768

/-- An inode has slots. -/
instance addrs_ne_zero : NeZero 13 := ⟨by decide⟩

theorem direct_lt {bn : Nat} (direct : bn < ndirect) : bn < 13 := direct.trans (by decide)

/-- Slot of the indirect block in `addrs`. -/
def indirectSlot : Fin 13 := 11

/-- Slot of the double indirect block in `addrs`. -/
def indirect2Slot : Fin 13 := 12

/-- `struct timespec`. -/
structure Timespec where
  /-- Seconds. -/
  sec : UInt64
  /-- Nanoseconds. -/
  nsec : UInt64
  deriving DecidableEq, Repr

/-- The fields of `struct inode` that are copied to and from the disk, and its number. -/
@[ext]
structure Inode where
  /-- Inode number. -/
  inum : UInt32
  /-- File type, `0` for a free inode. -/
  type : UInt16
  /-- Major device number. -/
  major : UInt16
  /-- Minor device number. -/
  minor : UInt16
  /-- Directory entries that name the inode. -/
  nlink : UInt16
  /-- Bytes of the file. -/
  size : UInt32
  /-- File mode. -/
  mode : UInt32
  /-- Owner. -/
  uid : UInt32
  /-- Group. -/
  gid : UInt32
  /-- Last access. -/
  atime : Timespec
  /-- Last modification. -/
  mtime : Timespec
  /-- Last change. -/
  ctime : Timespec
  /-- Direct block numbers, the indirect and the double indirect block. -/
  addrs : Fin 13 → UInt32

namespace Inode

/-- Store one block number. -/
def setAddr (ip : Inode) (i : Fin 13) (addr : UInt32) : Inode :=
  { ip with addrs := Function.update ip.addrs i addr }

end Inode

/-! ## The inode on disk -/

/-- Two adjacent 16-bit fields as one word. -/
def pair (low high : UInt16) : UInt32 := UInt32.ofNat (low.toNat + 65536 * high.toNat)

/-- The first field of a pair. -/
def lowHalf (word : UInt32) : UInt16 := UInt16.ofNat word.toNat

/-- The second field of a pair. -/
def highHalf (word : UInt32) : UInt16 := UInt16.ofNat (word.toNat / 65536)

/-- The first word of a 64-bit field. -/
def lowWord (field : UInt64) : UInt32 := UInt32.ofNat field.toNat

/-- The second word of a 64-bit field. -/
def highWord (field : UInt64) : UInt32 := UInt32.ofNat (field.toNat / 2 ^ 32)

/-- The 64-bit field with the given words. -/
def wide (low high : UInt32) : UInt64 := UInt64.ofNat (low.toNat + 2 ^ 32 * high.toNat)

/-- `struct dinode` as an array of 32 words, the last of which is padding. -/
def dinodeWord (ip : Inode) : Nat → UInt32
  | 0 => pair ip.type ip.major
  | 1 => pair ip.minor ip.nlink
  | 2 => ip.size
  | 3 => ip.mode
  | 4 => ip.uid
  | 5 => ip.gid
  | 6 => lowWord ip.atime.sec
  | 7 => highWord ip.atime.sec
  | 8 => lowWord ip.atime.nsec
  | 9 => highWord ip.atime.nsec
  | 10 => lowWord ip.mtime.sec
  | 11 => highWord ip.mtime.sec
  | 12 => lowWord ip.mtime.nsec
  | 13 => highWord ip.mtime.nsec
  | 14 => lowWord ip.ctime.sec
  | 15 => highWord ip.ctime.sec
  | 16 => lowWord ip.ctime.nsec
  | 17 => highWord ip.ctime.nsec
  | k + 18 => if inside : k < 13 then ip.addrs ⟨k, inside⟩ else 0

/-- The position of an inode in its block. -/
def dinodeIndex (inum : UInt32) : Nat := (inum % ipb).toNat

/-- The copy of a `struct dinode` into the in-memory inode `inum`, as `ilock` makes it. -/
def loadDinode (block : Bytes) (inum : UInt32) : Inode :=
  let word k := getWord block (32 * dinodeIndex inum + k)
  { inum := inum
    type := lowHalf (word 0)
    major := highHalf (word 0)
    minor := lowHalf (word 1)
    nlink := highHalf (word 1)
    size := word 2
    mode := word 3
    uid := word 4
    gid := word 5
    atime := ⟨wide (word 6) (word 7), wide (word 8) (word 9)⟩
    mtime := ⟨wide (word 10) (word 11), wide (word 12) (word 13)⟩
    ctime := ⟨wide (word 14) (word 15), wide (word 16) (word 17)⟩
    addrs := fun i => word (18 + i) }

/-- The copy of an in-memory inode into its `struct dinode`; the padding stays. -/
def storeDinode (block : Bytes) (ip : Inode) : Bytes :=
  (List.range 31).foldl
    (fun block k => setWord block (32 * dinodeIndex ip.inum + k) (dinodeWord ip k)) block

variable (sb : Superblock)

/-- `IBLOCK`. -/
def iblock (inum : UInt32) : UInt32 := inum / ipb + sb.inodestart

/-- `BBLOCK`. -/
def bblock (b : UInt32) : UInt32 := b / bpb + sb.bmapstart

/-- The bit of a block in its bitmap block. -/
def bitIndex (b : UInt32) : Nat := (b % bpb).toNat

/-- `iupdate`. -/
def iupdate (s : State) (ip : Inode) : Except Fault State := do
  let (bp, s) ← bread sb s (iblock sb ip.inum)
  let s ← bwrite (s.setData bp (storeDinode (s.bufs bp).data ip)) bp
  brelse s bp

/-! ## Blocks -/

/-- `bzero`. -/
def bzero (s : State) (bno : UInt32) : Except Fault State := do
  let (bp, s) ← bread sb s bno
  let s ← bwrite (s.setData bp zeros) bp
  brelse s bp

/-- The inner loop of `balloc`: the first free bit of a bitmap block from `bi` on that belongs to
the file system. -/
def freeBit (data : Bytes) (b : Nat) : Nat → Nat → Option Nat
  | _, 0 => none
  | bi, fuel + 1 =>
      if b + bi < sb.size.toNat then
        if getBit data bi then freeBit data b (bi + 1) fuel else some bi
      else none

/-- The outer loop of `balloc`, over the bitmap blocks. -/
def ballocLoop : Nat → Nat → State → Except Fault (UInt32 × State)
  | _, 0, _ => .error .loops
  | b, fuel + 1, s =>
      if b < sb.size.toNat then do
        let (bp, s) ← bread sb s (bblock sb (UInt32.ofNat b))
        match freeBit sb (s.bufs bp).data b 0 bpb.toNat with
        | some bi =>
            let s ← bwrite (s.setData bp (setBit (s.bufs bp).data bi)) bp
            let s ← brelse s bp
            let s ← bzero sb s (UInt32.ofNat (b + bi))
            return (UInt32.ofNat (b + bi), s)
        | none =>
            let s ← brelse s bp
            ballocLoop (b + bpb.toNat) fuel s
      else
        return (0, s)

/-- `balloc`. -/
def balloc (s : State) : Except Fault (UInt32 × State) :=
  ballocLoop sb 0 (sb.size.toNat / bpb.toNat + 2) s

/-- `bfree`. -/
def bfree (s : State) (b : UInt32) : Except Fault State := do
  let (bp, s) ← bread sb s (bblock sb b)
  if getBit (s.bufs bp).data (bitIndex b) then
    let s ← bwrite (s.setData bp (clearBit (s.bufs bp).data (bitIndex b))) bp
    brelse s bp
  else
    .error .freeingFreeBlock

/-! ## Inode content -/

/-- The part of `bmap` that reads entry `i` of the block `bno`, allocating the block it names when
there is none. -/
def bmapEntry (s : State) (bno : UInt32) (i : Nat) : Except Fault (UInt32 × State) := do
  let (bp, s) ← bread sb s bno
  let addr := getWord (s.bufs bp).data i
  if addr = 0 then
    let (addr, s) ← balloc sb s
    -- The error path of the source returns without releasing the buffer.
    if addr = 0 then return (0, s)
    let s ← bwrite (s.setData bp (setWord (s.bufs bp).data i addr)) bp
    let s ← brelse s bp
    return (addr, s)
  else
    let s ← brelse s bp
    return (addr, s)

/-- The part of `bmap` that reads slot `i` of `addrs`, allocating the block it names when there is
none. -/
def bmapAddr (s : State) (ip : Inode) (i : Fin 13) : Except Fault (UInt32 × Inode × State) := do
  let addr := ip.addrs i
  if addr = 0 then
    let (addr, s) ← balloc sb s
    return (addr, ip.setAddr i addr, s)
  else
    return (addr, ip, s)

/-- `bmap`. -/
def bmap (s : State) (ip : Inode) (bn : Nat) : Except Fault (UInt32 × Inode × State) :=
  if direct : bn < ndirect then
    bmapAddr sb s ip ⟨bn, direct_lt direct⟩
  else if bn - ndirect < nindirect then do
    let (addr, ip, s) ← bmapAddr sb s ip indirectSlot
    if addr = 0 then return (0, ip, s)
    let (addr, s) ← bmapEntry sb s addr (bn - ndirect)
    return (addr, ip, s)
  else if bn - ndirect - nindirect < nindirect * nindirect then do
    let rest := bn - ndirect - nindirect
    let (addr, ip, s) ← bmapAddr sb s ip indirect2Slot
    if addr = 0 then return (0, ip, s)
    let (addr, s) ← bmapEntry sb s addr (rest / nindirect)
    if addr = 0 then return (0, ip, s)
    let (addr, s) ← bmapEntry sb s addr (rest % nindirect)
    return (addr, ip, s)
  else
    .error .bmapOutOfRange

/-! ## Truncation -/

/-- A pass of the loops of `itrunc` over the entries of a busy block: free block `a[j]` and forget
it. -/
def freeEntry (bp : Fin nbuf) (s : State) (j : Nat) : Except Fault State :=
  let entry := getWord (s.bufs bp).data j
  if entry = 0 then .ok s
  else do
    let s ← bfree sb s entry
    return s.setData bp (setWord (s.bufs bp).data j 0)

/-- A pass of the loop of `itrunc` over the direct blocks. -/
def freeAddr (run : State × Inode) (i : Fin 13) : Except Fault (State × Inode) :=
  if run.2.addrs i = 0 then .ok run
  else do
    let s ← bfree sb run.1 (run.2.addrs i)
    return (s, run.2.setAddr i 0)

/-- A pass of the loop of `itrunc` over the entries of the double indirect block. The array `a`
lies in the buffer `root`, which is released before the first entry is read through; `bp` is the
buffer that is busy. -/
def freeTable (root : Fin nbuf) (run : State × Fin nbuf) (i : Nat) :
    Except Fault (State × Fin nbuf) :=
  if getWord (run.1.bufs root).data i = 0 then .ok run
  else do
    let s ← brelse run.1 run.2
    let (bp, s) ← bread sb s (getWord (s.bufs root).data i)
    let s ← (List.range nindirect).foldlM (freeEntry sb bp) s
    let s ← bfree sb s (getWord (s.bufs root).data i)
    return (s.setData root (setWord (s.bufs root).data i 0), bp)

/-- The part of `itrunc` for the indirect block. -/
def truncIndirect (s : State) (ip : Inode) : Except Fault (State × Inode) :=
  let addr := ip.addrs indirectSlot
  if addr = 0 then .ok (s, ip)
  else do
    let (bp, s) ← bread sb s addr
    let s ← (List.range nindirect).foldlM (freeEntry sb bp) s
    let s ← brelse s bp
    let s ← bfree sb s addr
    return (s, ip.setAddr indirectSlot 0)

/-- The part of `itrunc` for the double indirect block. -/
def truncIndirect2 (s : State) (ip : Inode) : Except Fault (State × Inode) :=
  let addr := ip.addrs indirect2Slot
  if addr = 0 then .ok (s, ip)
  else do
    let (root, s) ← bread sb s addr
    let (s, bp) ← (List.range nindirect).foldlM (freeTable sb root) (s, root)
    let s ← brelse s bp
    let s ← bfree sb s addr
    return (s, ip.setAddr indirect2Slot 0)

/-- The direct slots of `addrs`. -/
def directSlots : List (Fin 13) := (List.finRange 11).map (Fin.castLE (by decide))

/-- `itrunc`. -/
def itrunc (s : State) (ip : Inode) : Except Fault (State × Inode) := do
  let (s, ip) ← directSlots.foldlM (freeAddr sb) (s, ip)
  let (s, ip) ← truncIndirect sb s ip
  let (s, ip) ← truncIndirect2 sb s ip
  let ip := { ip with size := 0 }
  let s ← iupdate sb s ip
  return (s, ip)

end Fs
end Xv6Duo
