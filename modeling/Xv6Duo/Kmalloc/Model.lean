import Mathlib.Algebra.Group.Nat.Defs
import Mathlib.Logic.Function.Basic
import Xv6Duo.Fault
import Xv6Duo.Library.GuardedRun

/-!
# The small block allocator

`kmalloc` and `kmfree` of `kernel/kmalloc.c`. Addresses count bytes; the header of a block is 16
bytes long and its size counts headers. `kalloc` hands out the pages of a list and fails behind its
end. A ring of headers that are 16 bytes apart has at most `2 ^ 60` of them, which bounds the loops.
-/

namespace Xv6Duo
namespace Kmalloc

/-- `PGSIZE`. -/
def pgsize : Nat := 4096

/-- `sizeof(Header)`. -/
def headerSize : Nat := 16

/-- The headers in memory and `freep`. -/
structure Heap where
  /-- `s.ptr` by header. -/
  ptr : Nat → Nat
  /-- `s.size` by header. -/
  size : Nat → Nat
  /-- `freep`. -/
  freep : Option Nat

/-- More than the headers of a ring. -/
def manyHeaders : Nat := 2 ^ 60 + 1

/-- The loop of `kmfree`, with fuel. -/
def findPlace (h : Heap) (bp : Nat) : Nat → Nat → Except Fault Nat
  | 0, _ => .error .loops
  | fuel + 1, p =>
      if p < bp ∧ bp < h.ptr p then .ok p
      else if h.ptr p ≤ p ∧ (p < bp ∨ bp < h.ptr p) then .ok p
      else findPlace h bp fuel (h.ptr p)

/-- The first store of `kmfree`: a block, joined to the free block behind it. -/
def joinUpper (h : Heap) (bp p : Nat) : Heap :=
  if bp + headerSize * h.size bp = h.ptr p then
    { h with
      size := Function.update h.size bp (h.size bp + h.size (h.ptr p))
      ptr := Function.update h.ptr bp (h.ptr (h.ptr p)) }
  else { h with ptr := Function.update h.ptr bp (h.ptr p) }

/-- The second store of `kmfree`: the block is joined to the free block before it. -/
def joinLower (h : Heap) (bp p : Nat) : Heap :=
  if p + headerSize * h.size p = bp then
    { h with
      size := Function.update h.size p (h.size p + h.size bp)
      ptr := Function.update h.ptr p (h.ptr bp) }
  else { h with ptr := Function.update h.ptr p bp }

/-- `kmfree`. -/
def kmfree (h : Heap) (ap : Nat) : Except Fault Heap :=
  match h.freep with
  | none => .error .badPointer
  | some freep => do
      let bp := ap - headerSize
      let p ← findPlace h bp manyHeaders freep
      return { joinLower (joinUpper h bp p) bp p with freep := some p }

/-- The page that `morecore` clears, as one block. -/
def clearPage (h : Heap) (page : Nat) : Heap :=
  { h with
    ptr := fun hp => if page ≤ hp ∧ hp < page + pgsize then 0 else h.ptr hp
    size := Function.update
      (fun hp => if page ≤ hp ∧ hp < page + pgsize then 0 else h.size hp) page
      (pgsize / headerSize) }

/-- `morecore`: nothing if `kalloc` fails. -/
def morecore (h : Heap) : List Nat → Except Fault (Option (Heap × List Nat))
  | [] => .ok none
  | page :: pages => do
      let freed ← kmfree (clearPage h page) (page + headerSize)
      return some (freed, pages)

/-- The part of `kmalloc` that takes `nunits` headers from the block `p` behind `prevp`. -/
def takeBlock (h : Heap) (nunits prevp p : Nat) : Nat × Heap :=
  if h.size p = nunits then
    (p + headerSize, { h with
      ptr := Function.update h.ptr prevp (h.ptr p)
      freep := some prevp })
  else
    let rest := h.size p - nunits
    let upper := p + headerSize * rest
    (upper + headerSize, { h with
      size := Function.update (Function.update h.size p rest) upper nunits
      freep := some prevp })

/-- The loop of `kmalloc`, with fuel: the result, the heap and the pages that `kalloc` has left. -/
def searchLoop (nunits : Nat) :
    Nat → Nat → Nat → Heap → List Nat → Except Fault (Option Nat × Heap × List Nat)
  | 0, _, _, _, _ => .error .loops
  | fuel + 1, prevp, p, h, pages =>
      if nunits ≤ h.size p then
        let (result, h) := takeBlock h nunits prevp p
        .ok (some result, h, pages)
      else if some p = h.freep then do
        match ← morecore h pages with
        | none => return (none, h, pages)
        | some (h, pages) =>
            match h.freep with
            | none => .error .badPointer
            | some p => searchLoop nunits fuel p (h.ptr p) h pages
      else searchLoop nunits fuel p (h.ptr p) h pages

/-- The circle of the first call: the static header alone. -/
def firstHeap (base : Nat) (h : Heap) : Heap where
  ptr := Function.update h.ptr base base
  size := Function.update h.size base 0
  freep := some base

/-- `kmalloc`; `base` is the address of the static header. -/
def kmalloc (base : Nat) (h : Heap) (nbytes : Nat) (pages : List Nat) :
    Except Fault (Option Nat × Heap × List Nat) :=
  if pgsize - headerSize < nbytes then .error .tooBigRequest
  else
    let nunits := (nbytes + headerSize - 1) / headerSize + 1
    match h.freep with
    | some prevp => searchLoop nunits (2 * manyHeaders) prevp (h.ptr prevp) h pages
    | none =>
        let h := firstHeap base h
        searchLoop nunits (2 * manyHeaders) base (h.ptr base) h pages

/-! ## Runs -/

/-- The heap, the live results with the bytes asked for, and the pages taken from `kalloc`. -/
structure World where
  /-- Headers. -/
  heap : Heap
  /-- Live results. -/
  live : List (Nat × Nat)
  /-- Pages. -/
  pages : List Nat

/-- Calls. -/
inductive Call
  /-- `kmalloc(n)`, with the pages that `kalloc` would hand out. -/
  | kmalloc (n : Nat) (pages : List Nat)
  /-- `kmfree` of a result. -/
  | kmfree (ap : Nat)
  deriving DecidableEq

/-- One call. -/
def World.step (base : Nat) (w : World) : Call → Except Fault World
  | .kmalloc n pages => do
      let (result, heap, left) ← Kmalloc.kmalloc base w.heap n pages
      let taken := pages.take (pages.length - left.length) ++ w.pages
      match result with
      | none => return ⟨heap, w.live, taken⟩
      | some ap => return ⟨heap, (ap, n) :: w.live, taken⟩
  | .kmfree ap => do
      let heap ← Kmalloc.kmfree w.heap ap
      return ⟨heap, w.live.filter (·.1 ≠ ap), w.pages⟩

/-- An aligned page of memory that does not touch the static header. -/
def PageOk (base page : Nat) : Prop :=
  pgsize ∣ page ∧ 0 < page ∧ page + pgsize < 2 ^ 64 ∧
    (page + pgsize < base ∨ base + headerSize < page)

/-- `kalloc` hands out such pages, none twice. -/
def Fresh (base : Nat) (w : World) (page : Nat) : Prop := PageOk base page ∧ page ∉ w.pages

/-- Requests of at most 4080 bytes, and releases of live results. -/
def World.Permits (base : Nat) (w : World) : Call → Prop
  | .kmalloc n pages => n ≤ 4080 ∧ ∀ page ∈ pages, Fresh base w page
  | .kmfree ap => ap ∈ w.live.map Prod.fst

instance (base : Nat) (w : World) (page : Nat) : Decidable (Fresh base w page) :=
  inferInstanceAs (Decidable ((_ ∧ _ ∧ _ ∧ _) ∧ _))

instance (base : Nat) (w : World) : ∀ call, Decidable (w.Permits base call)
  | .kmalloc n pages =>
      inferInstanceAs (Decidable (n ≤ 4080 ∧ ∀ page ∈ pages, Fresh base w page))
  | .kmfree ap => inferInstanceAs (Decidable (ap ∈ w.live.map Prod.fst))

/-- The heap before the first call. -/
def World.initial (ptr size : Nat → Nat) : World := ⟨⟨ptr, size, none⟩, [], []⟩

end Kmalloc
end Xv6Duo
