import Xv6Duo.Fault
import Xv6Duo.Library.ByteBlock
import Xv6Duo.Library.GuardedRun

/-!
# The buffer cache

`kernel/bio.c` over the card of `kernel/sd.c`, one definition for each function. A buffer is named
by its position in `bcache.buf`, so two pointers into the data of one buffer are two names for the
same bytes. `clink` lists the buffers from `head.next` to `head.prev`. Every caller passes
`ROOTDEV`, and one call runs alone: a sleep on a busy buffer is never woken.
-/

namespace Xv6Duo
namespace Fs

open ByteBlock

/-- `BSIZE`, the bytes of one block. -/
def bsize : Nat := 4096

/-- `BLKSECT`, the sectors of one block. -/
def blkSect : UInt32 := 8

/-- `NBUF`. -/
def nbuf : Nat := 42 * 3

theorem nbuf_pos : 0 < nbuf := by decide

/-- `ROOTDEV`. -/
def rootDev : UInt32 := 1

/-- `struct buf`; the counter `refcnt` is never read and left out. -/
@[ext]
structure Buf where
  /-- `B_BUSY`. -/
  busy : Bool
  /-- `B_VALID`. -/
  valid : Bool
  /-- `B_DIRTY`. -/
  dirty : Bool
  /-- Device of the cached block. -/
  dev : UInt32
  /-- First sector of the cached block. -/
  blockno : UInt32
  /-- Cached bytes. -/
  data : Bytes

/-- The card and the buffer cache. -/
structure State where
  /-- Blocks of the card by first sector. -/
  disk : UInt32 → Bytes
  /-- `bcache.buf`. -/
  bufs : Fin nbuf → Buf
  /-- Buffers in list order. -/
  clink : List (Fin nbuf)

namespace State

/-- Store one buffer record. -/
def setBuf (s : State) (b : Fin nbuf) (buf : Buf) : State :=
  { s with bufs := Function.update s.bufs b buf }

/-- Store the bytes of one buffer. -/
def setData (s : State) (b : Fin nbuf) (data : Bytes) : State :=
  s.setBuf b { s.bufs b with data := data }

@[simp] theorem setBuf_disk (s : State) (b : Fin nbuf) (buf : Buf) :
    (s.setBuf b buf).disk = s.disk := rfl

@[simp] theorem setBuf_bufs (s : State) (b : Fin nbuf) (buf : Buf) :
    (s.setBuf b buf).bufs = Function.update s.bufs b buf := rfl

@[simp] theorem setBuf_clink (s : State) (b : Fin nbuf) (buf : Buf) :
    (s.setBuf b buf).clink = s.clink := rfl

@[simp] theorem setData_disk (s : State) (b : Fin nbuf) (data : Bytes) :
    (s.setData b data).disk = s.disk := rfl

@[simp] theorem setData_bufs (s : State) (b : Fin nbuf) (data : Bytes) :
    (s.setData b data).bufs = Function.update s.bufs b { s.bufs b with data := data } := rfl

@[simp] theorem setData_clink (s : State) (b : Fin nbuf) (data : Bytes) :
    (s.setData b data).clink = s.clink := rfl

end State

/-- `binit`, over a card with the given content. -/
def binit (disk : UInt32 → Bytes) : State where
  disk := disk
  bufs _ := { busy := false, valid := false, dirty := false, dev := 0, blockno := 0, data := zeros }
  clink := List.finRange nbuf

/-- `struct superblock` as `mkfs` fills it in, with the start of the partition. -/
structure Superblock where
  /-- `fs_lba(ROOTDEV)`. -/
  lba : UInt32
  /-- Blocks of the file system. -/
  size : UInt32
  /-- Data blocks; the others come first. -/
  nblocks : UInt32
  /-- Inodes of the file system. -/
  ninodes : UInt32
  /-- First inode block. -/
  inodestart : UInt32
  /-- First bitmap block. -/
  bmapstart : UInt32
  /-- A partition has at most `2 ^ 32` sectors. -/
  size_le : size.toNat ≤ 2 ^ 29
  /-- There are at most as many data blocks as blocks. -/
  nblocks_le : nblocks.toNat ≤ size.toNat
  /-- The boot block and the super block come first. -/
  boot_fits : 2 ≤ inodestart.toNat
  /-- The inode blocks end before the bitmap. -/
  inodes_fit : inodestart.toNat + (ninodes.toNat + 31) / 32 ≤ bmapstart.toNat
  /-- The bitmap ends before the data blocks. -/
  bitmap_fits : bmapstart.toNat + (size.toNat + 32767) / 32768 ≤ size.toNat - nblocks.toNat

namespace Superblock

/-- `nmeta` of `mkfs`, the blocks that are not data blocks. -/
def nmeta (sb : Superblock) : Nat := sb.size.toNat - sb.nblocks.toNat

/-- The first sector of a block. -/
def sector (sb : Superblock) (bno : UInt32) : UInt32 := sb.lba + bno * blkSect

end Superblock

variable (sb : Superblock)

/-- `bget`. -/
def bget (s : State) (bno : UInt32) : Except Fault (Fin nbuf × State) :=
  let blockno := sb.sector bno
  match s.clink.find? fun b => (s.bufs b).dev == rootDev && (s.bufs b).blockno == blockno with
  | some b =>
      if (s.bufs b).busy then .error .sleeps
      else .ok (b, s.setBuf b { s.bufs b with busy := true })
  | none =>
      match s.clink.reverse.find? fun b => !(s.bufs b).busy && !(s.bufs b).dirty with
      | some b =>
          .ok (b, s.setBuf b
            { s.bufs b with
              busy := true, valid := false, dirty := false, dev := rootDev, blockno := blockno })
      | none => .error .noBuffers

/-- `sd_rw`: a dirty buffer is written to the card, any other is read from it. -/
def sdRw (s : State) (b : Fin nbuf) : State :=
  let buf := s.bufs b
  if buf.dirty then
    { s.setBuf b { buf with valid := true, dirty := false } with
      disk := Function.update s.disk buf.blockno buf.data }
  else
    s.setBuf b { buf with valid := true, dirty := false, data := s.disk buf.blockno }

/-- `bread`. -/
def bread (s : State) (bno : UInt32) : Except Fault (Fin nbuf × State) := do
  let (b, s) ← bget sb s bno
  if (s.bufs b).valid then return (b, s)
  else return (b, sdRw s b)

/-- `bwrite`. -/
def bwrite (s : State) (b : Fin nbuf) : Except Fault State :=
  if (s.bufs b).busy then .ok (sdRw (s.setBuf b { s.bufs b with dirty := true }) b)
  else .error .bwrite

/-- `brelse`. -/
def brelse (s : State) (b : Fin nbuf) : Except Fault State :=
  if (s.bufs b).busy then
    .ok { s.setBuf b { s.bufs b with busy := false } with clink := s.clink.erase b ++ [b] }
  else .error .brelse

end Fs
end Xv6Duo
