import Mathlib.Data.List.Basic
import Mathlib.Data.UInt
import Mathlib.Logic.Function.Basic
import Xv6Duo.Fault
import Xv6Duo.Library.GuardedRun

/-!
# Slab caches

`slab_cache_create`, `slab_cache_alloc` and `slab_cache_free` of `kernel/slab.c` for one cache. A
slab is named by its address. `header->free` points into the array of free object numbers behind the
header, so it is an index into that array here. `buddy_alloc` supplies the address of a new slab,
and `page_find_head` finds the slab that contains an object.

`slab_cache_free` says which lock it releases; the locks themselves come with `Slab.Locks`.
-/

namespace Xv6Duo
namespace Slab

/-! ## Data -/

/-- `PAGE_SIZE`. -/
def pageSize : Nat := 0x1000

/-- `PAGE_MAX_DEPTH`. -/
def pageMaxDepth : Nat := 11

/-- `MAX_SLAB_NAME`. -/
def maxSlabName : Nat := 32

/-- `SLAB_FREE_END`. -/
def slabFreeEnd : UInt32 := 0xFFFFFFFF

/-- `sizeof(struct slab_header)`. -/
def slabHeaderBytes : Nat := 24

/-- `SLAB_HEADER_SIZE`. -/
def slabHeaderSize : Nat := slabHeaderBytes + 4

/-- `struct slab_header`. -/
structure Header where
  /-- Next slab on its list. -/
  next : Option Nat
  /-- Index of the first free object, in the array of object numbers. -/
  free : UInt32
  /-- Address of the objects. -/
  object : Nat

/-- The sizes of `struct slab_cache`. -/
structure Shape where
  /-- Bytes of a slab. -/
  slabSize : UInt32
  /-- Bytes of an object. -/
  objectSize : UInt32
  /-- Alignment of objects. -/
  alignment : UInt32
  deriving DecidableEq

/-- A slab cache, its slabs and the addresses that `buddy_alloc` gave to it. -/
structure State where
  /-- Sizes. -/
  shape : Shape
  /-- `slabs_full`. -/
  slabsFull : Option Nat
  /-- `slabs_partial`. -/
  slabsPartial : Option Nat
  /-- Headers by slab. -/
  header : Nat → Header
  /-- The array of free object numbers by slab. -/
  freeList : Nat → UInt32 → UInt32
  /-- Slabs. -/
  slabs : List Nat

/-! ## Creation -/

/-- `slab_size_limits`. -/
def slabSizeLimits (i : Nat) : UInt32 :=
  UInt32.ofNat (pageSize * 2 ^ i / 9 - (slabHeaderSize / 8 + 1) - 4)

/-- The search for the slab size in `slab_cache_create`. -/
def findSlabSize (objectSize : UInt32) : Option UInt32 :=
  ((List.range pageMaxDepth).find? fun i => objectSize ≤ slabSizeLimits i).map fun i =>
    UInt32.ofNat (pageSize * 2 ^ i)

/-- The size of objects in `slab_cache_create`: rounded up to the alignment, at least four bytes. -/
def roundedSize (size alignment : UInt32) : UInt32 :=
  let align := if alignment ≠ 0 then alignment else 4
  (size + align - 1) &&& ~~~(align - 1)

/-- `slab_cache_create` of a name with `length` characters. -/
def slabCacheCreate (length : Nat) (size alignment : UInt32) : Option State :=
  if size = 0 then none
  else if maxSlabName ≤ length then none
  else
    (findSlabSize (roundedSize size alignment)).map fun slabSize =>
      { shape := ⟨slabSize, roundedSize size alignment, alignment⟩
        slabsFull := none
        slabsPartial := none
        header := fun _ => ⟨none, 0, 0⟩
        freeList := fun _ _ => 0
        slabs := [] }

/-! ## Allocation -/

/-- `slab_max_object_num`. -/
def slabMaxObjectNum (shape : Shape) : UInt32 :=
  ((shape.slabSize.toUInt64 - UInt64.ofNat slabHeaderSize - shape.alignment.toUInt64) /
    (shape.objectSize.toUInt64 + 4)).toUInt32

/-- The loop of `slab_new` over the first object numbers. -/
def numberObjects (numbers : UInt32 → UInt32) : Nat → UInt32 → UInt32
  | 0 => numbers
  | i + 1 =>
      Function.update (numberObjects numbers i) (UInt32.ofNat i) (UInt32.ofNat (i + 1))

/-- The address of the objects in a new slab. -/
def objectStart (shape : Shape) (slab : Nat) : Nat :=
  let object := slab + slabHeaderBytes + 4 * ((slabMaxObjectNum shape).toNat + 1)
  if shape.alignment ≠ 0 then
    (object + (shape.alignment - 1).toNat) &&& (~~~(shape.alignment - 1)).toNat
  else object

/-- `slab_new` with the block that `buddy_alloc` gives. -/
def slabNew (s : State) (slab : Nat) : State :=
  let maxObjectNum := slabMaxObjectNum s.shape
  { s with
    header := Function.update s.header slab ⟨none, 0, objectStart s.shape slab⟩
    freeList := Function.update s.freeList slab
      (Function.update (numberObjects (s.freeList slab) maxObjectNum.toNat) maxObjectNum
        slabFreeEnd)
    slabs := slab :: s.slabs }

/-- Store the link of a slab. -/
def State.setNext (s : State) (slab : Nat) (next : Option Nat) : State :=
  { s with header := Function.update s.header slab { s.header slab with next := next } }

/-- The object of a slab at an index. -/
def State.address (s : State) (slab : Nat) (index : UInt32) : Nat :=
  (s.header slab).object + (s.shape.objectSize * index).toNat

/-- `slab_cache_alloc` from a slab that has a free object. -/
def takeObject (s : State) (slab : Nat) : Nat × State :=
  let index := (s.header slab).free
  let nextIndex := s.freeList slab index
  let taken := { s with
    freeList := Function.update s.freeList slab
      (Function.update (s.freeList slab) index slabFreeEnd)
    header := Function.update s.header slab { s.header slab with free := nextIndex } }
  let moved :=
    if taken.freeList slab nextIndex = slabFreeEnd then
      { (taken.setNext slab s.slabsFull) with
        slabsPartial := (taken.header slab).next
        slabsFull := some slab }
    else taken
  (moved.address slab index, moved)

/-- `slab_cache_alloc`; `fresh` is the block that `buddy_alloc` would give. -/
def slabCacheAlloc (s : State) (fresh : Nat) : Nat × State :=
  match s.slabsPartial with
  | some slab => takeObject s slab
  | none => takeObject { slabNew s fresh with slabsPartial := some fresh } fresh

/-! ## Release -/

/-- The lock that `slab_cache_free` releases. -/
inductive Exit
  /-- `cache->lock`, at the end. -/
  | cacheLock
  /-- `slab_lock`, after a slab has moved to `slabs_partial`. -/
  | slabLock
  deriving DecidableEq

/-- Store through the cursor `hp` of `slab_cache_free`. -/
def storeLink (s : State) (before link : Option Nat) : State :=
  match before with
  | none => { s with slabsFull := link }
  | some slab => s.setNext slab link

/-- The search of `slab_cache_free` for a slab in `slabs_full`, with fuel. -/
def moveLoop (s : State) (slab : Nat) : Nat → Option Nat → Option Nat → Except Fault State
  | 0, _, _ => .error .loops
  | _ + 1, _, none => .error .brokenSlab
  | fuel + 1, before, some h =>
      if h = slab then
        let unlinked := storeLink s before (s.header h).next
        .ok { (unlinked.setNext h unlinked.slabsPartial) with slabsPartial := some h }
      else moveLoop s slab fuel (some h) (s.header h).next

/-- `page_find_head`: the slab that contains an address. -/
def pageFindHead (s : State) (obj : Nat) : Option Nat :=
  s.slabs.find? fun slab => slab ≤ obj ∧ obj < slab + s.shape.slabSize.toNat

/-- `slab_cache_free`. -/
def slabCacheFree (s : State) (obj : Nat) : Except Fault (Exit × State) :=
  match pageFindHead s obj with
  | none => .error .badPointer
  | some slab => do
      let index := UInt32.ofNat ((obj - (s.header slab).object) / s.shape.objectSize.toNat)
      let nextIndex := (s.header slab).free
      let freed := { s with
        freeList := Function.update s.freeList slab
          (Function.update (s.freeList slab) index nextIndex)
        header := Function.update s.header slab { s.header slab with free := index } }
      if freed.freeList slab nextIndex = slabFreeEnd then
        let moved ← moveLoop freed slab (s.slabs.length + 1) none freed.slabsFull
        return (.slabLock, moved)
      else return (.cacheLock, freed)

/-! ## Runs -/

/-- A cache and the objects that were allocated and not released. -/
structure World where
  /-- The cache. -/
  state : State
  /-- Live objects. -/
  live : List Nat

/-- Calls. -/
inductive Call
  /-- `slab_cache_alloc`, with the block that `buddy_alloc` would give. -/
  | alloc (fresh : Nat)
  /-- `slab_cache_free`. -/
  | free (obj : Nat)
  deriving DecidableEq

/-- One call. -/
def World.step (w : World) : Call → Except Fault World
  | .alloc fresh =>
      let (obj, s) := slabCacheAlloc w.state fresh
      .ok ⟨s, obj :: w.live⟩
  | .free obj => do
      let (_, s) ← slabCacheFree w.state obj
      return ⟨s, w.live.erase obj⟩

/-- What `buddy_alloc` gives: whole pages below 4 GB that no other slab has. -/
def Fresh (s : State) (fresh : Nat) : Prop :=
  pageSize ∣ fresh ∧ fresh + s.shape.slabSize.toNat ≤ 2 ^ 32 ∧
    ∀ slab ∈ s.slabs, fresh + s.shape.slabSize.toNat ≤ slab ∨
      slab + s.shape.slabSize.toNat ≤ fresh

/-- Live objects are released, and `buddy_alloc` gives fresh blocks. -/
def World.Permits (w : World) : Call → Prop
  | .alloc fresh => Fresh w.state fresh
  | .free obj => obj ∈ w.live

instance (s : State) (fresh : Nat) : Decidable (Fresh s fresh) :=
  inferInstanceAs (Decidable (_ ∧ _ ∧ _))

instance (w : World) : ∀ call, Decidable (w.Permits call)
  | .alloc fresh => inferInstanceAs (Decidable (Fresh w.state fresh))
  | .free obj => inferInstanceAs (Decidable (obj ∈ w.live))

end Slab
end Xv6Duo
