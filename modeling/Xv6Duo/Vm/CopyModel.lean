import Mathlib.Data.UInt
import Xv6Duo.Vm.Model

/-!
# The copy of an address space

`uvmcopy` of `kernel/vm.c` and `find_mmap_region` of `kernel/mmap.c`. The reference counters of the
pages that `kalloc` hands out are not followed.
-/

namespace Xv6Duo
namespace Vm

/-- `MAP_SHARED`. -/
def mapShared : Nat := 1

/-- `MMAPBASE`. -/
def mmapbase : Nat := 0x2000000000

/-- `USERTOP`. -/
def usertop : Nat := maxva - 3 * pgsize

/-- `STACKPAGE`. -/
def stackpage : Nat := 16

/-- `STACKTOP`. -/
def stacktop : Nat := usertop

/-- `STACKBASE`. -/
def stackbase : Nat := stacktop - stackpage * pgsize

/-- `struct mmap_region`. -/
structure Region where
  /-- First address. -/
  addr : Nat
  /-- Bytes. -/
  length : Nat
  /-- Flags of `mmap`. -/
  flags : Nat
  deriving DecidableEq

/-- The test of `find_mmap_region`. -/
def Region.Contains (region : Region) (start : Nat) : Prop :=
  region.addr ≤ start ∧ start < (region.addr + region.length) % 2 ^ 64

instance (region : Region) (start : Nat) : Decidable (region.Contains start) :=
  inferInstanceAs (Decidable (_ ∧ _))

/-- `find_mmap_region`. -/
def findMmapRegion (regions : List Region) (start : Nat) : Option Region :=
  regions.find? fun region => region.Contains start

/-- `is_mmap_region`. -/
def isMmapRegion (regions : List Region) (addr length : Nat) : Bool :=
  match findMmapRegion regions addr with
  | none => false
  | some region => (addr + length) % 2 ^ 64 ≤ (region.addr + region.length) % 2 ^ 64

/-- `region && region->flags & MAP_SHARED`, for the region of an address. -/
def isShared (regions : List Region) (va : Nat) : Bool :=
  match findMmapRegion regions va with
  | none => false
  | some region => decide (region.flags &&& mapShared ≠ 0)

/-- Memory, reference counters, and the pages that `kalloc` has left. -/
structure Copy where
  /-- Memory. -/
  memory : Memory
  /-- `refcnt` by page. -/
  refcnt : Nat → UInt32
  /-- Pages of `kalloc`. -/
  pages : List Nat

/-- How the loops of `uvmcopy` end early. -/
inductive Stop
  /-- A panic. -/
  | fault (fault : Fault)
  /-- `goto err`, with `va`. -/
  | err (va : Nat) (s : Copy)

/-- `va` of the innermost loop. -/
def vaOf (i j k : Fin 512) : Nat := i.val <<< 30 ||| j.val <<< 21 ||| k.val <<< 12

/-- The call of `mappages` in the innermost loop. -/
def mapCopy (new va mem flags : Nat) (s : Copy) : Except Stop Copy :=
  match mappages s.memory new va pgsize mem flags s.pages with
  | .error fault => .error (.fault fault)
  | .ok (code, memory, pages) =>
      if code ≠ 0 then .error (.err va { s with memory := memory, pages := pages })
      else .ok { s with memory := memory, pages := pages }

/-- The body of the innermost loop. -/
def copyEntry (regions : List Region) (new : Nat) (i j : Fin 512) (pg0 : Nat) (s : Copy)
    (k : Fin 512) : Except Stop Copy :=
  if i.val = 255 ∧ j.val = 511 ∧ 509 ≤ k.val then .ok s
  else
    let pte := s.memory pg0 k
    if pte &&& pteV ≠ 0 then
      let va := vaOf i j k
      let pa := pte2pa pte
      let flags := pteFlags pte
      if isShared regions va then
        mapCopy new va pa flags { s with refcnt := Function.update s.refcnt pa (s.refcnt pa + 1) }
      else
        match s.pages with
        | [] => .error (.err va s)
        | mem :: pages =>
            mapCopy new va mem flags
              { s with memory := Function.update s.memory mem (s.memory pa), pages := pages }
    else .ok s

/-- The body of the loop over a table of level 1. -/
def copyTable (regions : List Region) (new : Nat) (i : Fin 512) (pg1 : Nat) (s : Copy)
    (j : Fin 512) : Except Stop Copy :=
  let pte := s.memory pg1 j
  if pte &&& pteV ≠ 0 then
    (List.finRange 512).foldlM (copyEntry regions new i j (pte2pa pte)) s
  else .ok s

/-- The body of the outer loop. -/
def copyDirectory (regions : List Region) (old new : Nat) (s : Copy) (i : Fin 512) :
    Except Stop Copy :=
  let pte := s.memory old i
  if pte &&& pteV ≠ 0 then
    (List.finRange 512).foldlM (copyTable regions new i (pte2pa pte)) s
  else .ok s

/-- `kfree` of a page: the counter of a page with other references. -/
def kfree (refcnt : Nat → UInt32) (pa : Nat) : Nat → UInt32 :=
  if 1 < refcnt pa then Function.update refcnt pa (refcnt pa - 1) else refcnt

/-- `uvmcopy`. -/
def uvmcopy (regions : List Region) (old new : Nat) (s : Copy) : Except Fault (Int × Copy) :=
  match ((List.finRange 512).take 256).foldlM (copyDirectory regions old new) s with
  | .ok s => .ok (0, s)
  | .error (.fault fault) => .error fault
  | .error (.err va s) => do
      let npages := if va < mmapbase then va / pgsize else (va - mmapbase) / pgsize
      let (memory, freed) ← uvmunmap s.memory new 0 npages true
      return (-1, { s with memory := memory, refcnt := freed.foldl kfree s.refcnt })

end Vm
end Xv6Duo
