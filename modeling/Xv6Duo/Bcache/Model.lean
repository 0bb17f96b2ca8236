import Xv6Duo.Fs.Bio
import Xv6Duo.Library.Ring

/-!
# The buffer cache under concurrent processes

The sections of `kernel/bio.c` that `bcache.lock` protects, over the pointers of `include/list.h`. A
node of the list is a buffer, or `none` for `bcache.head`. Any number of processes call `bget` and
`brelse`; one that finds its buffer busy sleeps and starts again. The contents of the buffers are
left out, and whoever holds a buffer may change the flags that `bwrite` and `sd_rw` change.
-/

namespace Xv6Duo
namespace Bcache

open Fs (nbuf blkSect)
open Ring (Links)

/-- `struct buf`. -/
structure Buf where
  /-- `B_BUSY`. -/
  busy : Bool
  /-- `B_VALID`. -/
  valid : Bool
  /-- `B_DIRTY`. -/
  dirty : Bool
  /-- Device. -/
  dev : UInt32
  /-- First sector of the block. -/
  blockno : UInt32
  /-- Reference count. -/
  refcnt : UInt32
  deriving DecidableEq, Repr

/-- `bcache`. -/
structure Cache where
  /-- Buffers. -/
  bufs : Fin nbuf → Buf
  /-- The list through `clink`. -/
  clink : Links (Fin nbuf)

/-- Store one buffer. -/
def Cache.setBuf (c : Cache) (b : Fin nbuf) (buf : Buf) : Cache :=
  { c with bufs := Function.update c.bufs b buf }

/-! ## Lists -/

/-- `list_init`. -/
def listInit : Links (Fin nbuf) := ⟨fun _ => none, fun _ => none⟩

/-- `list_insert`. -/
def listInsert (links : Links (Fin nbuf)) (item prev next : Option (Fin nbuf)) :
    Links (Fin nbuf) :=
  let links : Links (Fin nbuf) := ⟨links.next, Function.update links.prev next item⟩
  let links : Links (Fin nbuf) := ⟨Function.update links.next item next, links.prev⟩
  let links : Links (Fin nbuf) := ⟨links.next, Function.update links.prev item prev⟩
  ⟨Function.update links.next prev item, links.prev⟩

/-- `list_push_back`. -/
def listPushBack (links : Links (Fin nbuf)) (item : Fin nbuf) : Links (Fin nbuf) :=
  listInsert links (some item) (links.prev none) none

/-- `list_drop`. -/
def listDrop (links : Links (Fin nbuf)) (item : Fin nbuf) : Links (Fin nbuf) :=
  let links : Links (Fin nbuf) :=
    ⟨links.next, Function.update links.prev (links.next (some item)) (links.prev (some item))⟩
  ⟨Function.update links.next (links.prev (some item)) (links.next (some item)), links.prev⟩

/-! ## Sections -/

/-- `binit`. -/
def binit : Cache where
  bufs _ := ⟨false, false, false, 0, 0, 0⟩
  clink := (List.finRange nbuf).foldl listPushBack listInit

/-- How a section of `bget` ends. -/
inductive Found
  /-- It returns a buffer. -/
  | returned (b : Fin nbuf)
  /-- It sleeps on a busy buffer. -/
  | sleeps (b : Fin nbuf)
  deriving DecidableEq

/-- The sector of a block, where `lba` is `fs_lba`. -/
def sector (lba : UInt32 → UInt32) (dev bno : UInt32) : UInt32 := lba dev + bno * blkSect

/-- `bget` from the label `loop` on. -/
def bget (lba : UInt32 → UInt32) (c : Cache) (dev bno : UInt32) : Except Fault (Found × Cache) := do
  let blockno := sector lba dev bno
  let cached ← Ring.walk c.clink.next
    (fun b => (c.bufs b).dev = dev ∧ (c.bufs b).blockno = blockno) Fault.loops (nbuf + 1)
    (c.clink.next none)
  match cached with
  | some b =>
      if (c.bufs b).busy then return (.sleeps b, c)
      else return (.returned b, c.setBuf b
        { c.bufs b with busy := true, refcnt := (c.bufs b).refcnt + 1 })
  | none =>
      let unused ← Ring.walk c.clink.prev (fun b => ¬(c.bufs b).busy ∧ ¬(c.bufs b).dirty)
        Fault.loops (nbuf + 1) (c.clink.prev none)
      match unused with
      | some b => return (.returned b, c.setBuf b ⟨true, false, false, dev, blockno, 1⟩)
      | none => throw Fault.noBuffers

/-- `brelse`. -/
def brelse (c : Cache) (b : Fin nbuf) : Except Fault Cache :=
  if (c.bufs b).busy then
    .ok { (c.setBuf b { c.bufs b with busy := false, refcnt := (c.bufs b).refcnt - 1 }) with
      clink := listPushBack (listDrop c.clink b) b }
  else .error .brelse

/-! ## Processes -/

variable {P : Type} [DecidableEq P]

/-- The cache and what the processes do with it. -/
structure World (P : Type) where
  /-- Cache. -/
  cache : Cache
  /-- The process got the buffer from `bget` and has not released it. -/
  held : P → Fin nbuf → Bool
  /-- The request of a process that sleeps in `bget`. -/
  waits : P → Option (UInt32 × UInt32)
  /-- The process whose `bget` returned the buffer last. -/
  last : Fin nbuf → Option P

/-- The end of a section of `bget`. -/
def World.finish (w : World P) (p : P) (dev bno : UInt32) : Found → Cache → World P
  | .returned b, cache =>
      { cache := cache
        held := Function.update w.held p (Function.update (w.held p) b true)
        waits := Function.update w.waits p none
        last := Function.update w.last b (some p) }
  | .sleeps _, cache =>
      { w with cache := cache, waits := Function.update w.waits p (some (dev, bno)) }

/-- What a process does. -/
inductive Act (P : Type)
  /-- It calls `bget`. -/
  | bget (p : P) (dev bno : UInt32)
  /-- It wakes up in `bget`. -/
  | retry (p : P) (dev bno : UInt32)
  /-- It calls `brelse`. -/
  | brelse (p : P) (b : Fin nbuf)
  /-- It changes flags of a buffer by `bwrite` or `sd_rw`. -/
  | transfer (p : P) (b : Fin nbuf) (valid dirty : Bool)

/-- Devices have numbers above `0`, for all callers pass on `ROOTDEV`, and a process uses only the
buffers it holds. -/
def Permits (w : World P) : Act P → Prop
  | .bget p dev _ => w.waits p = none ∧ dev ≠ 0
  | .retry p dev bno => w.waits p = some (dev, bno)
  | .brelse p b => w.held p b = true
  | .transfer p b _ _ => w.held p b = true

/-- One section. -/
def perform (lba : UInt32 → UInt32) (w : World P) : Act P → Except Fault (World P)
  | .bget p dev bno | .retry p dev bno => do
      let (found, cache) ← bget lba w.cache dev bno
      return w.finish p dev bno found cache
  | .brelse p b => do
      let cache ← brelse w.cache b
      return { w with
        cache := cache, held := Function.update w.held p (Function.update (w.held p) b false) }
  | .transfer _ b valid dirty =>
      .ok { w with
        cache := w.cache.setBuf b { w.cache.bufs b with valid := valid, dirty := dirty } }

/-- The start: `binit`, and no process has called `bget`. -/
def World.initial : World P := ⟨binit, fun _ _ => false, fun _ => none, fun _ => none⟩

end Bcache
end Xv6Duo
