import Mathlib.Data.Nat.Bitwise
import Xv6Duo.Fault
import Xv6Duo.Library.RadixTree

/-!
# Page tables

The page table entries of `common/riscv.h` and `walk`, `mappages`, `uvmunmap` and `uvmcreate` of
`kernel/vm.c`. Words have 64 bits. Page table pages are aligned, so a pointer to an entry is the
address of a page with an index. `kalloc` hands out the pages of a list and fails behind its end;
`kfree` is recorded, and does not touch the page.
-/

namespace Xv6Duo
namespace Vm

open RadixTree

/-! ## Entries and addresses -/

/-- `PGSIZE`. -/
def pgsize : Nat := 4096

/-- `PTE_V`. -/
def pteV : Nat := 1 <<< 0

/-- `PTE_A`. -/
def pteA : Nat := 1 <<< 6

/-- `PTE_D`. -/
def pteD : Nat := 1 <<< 7

/-- The five highest bits of an entry: `PTE_SEC`, `PTE_S`, `PTE_B`, `PTE_C` and `PTE_SO`. -/
def pteAttributes : Nat := 1 <<< 63 ||| 1 <<< 62 ||| 1 <<< 61 ||| 1 <<< 60 ||| 1 <<< 59

/-- `PA2PTE`. -/
def pa2pte (pa : Nat) : Nat := (pa >>> 12) <<< 10

/-- `PTE2PA`. -/
def pte2pa (pte : Nat) : Nat := ((pte &&& (2 ^ 64 - 1 - pteAttributes)) >>> 10) <<< 12

/-- The mask of `PTE_FLAGS`. -/
def flagMask : Nat := 0x3FF ||| pteAttributes

/-- `PTE_FLAGS`. -/
def pteFlags (pte : Nat) : Nat := pte &&& flagMask

/-- `PXSHIFT`. -/
def pxshift (level : Nat) : Nat := 12 + 9 * level

/-- `PX`. -/
def px (level va : Nat) : Fin 512 :=
  ⟨(va >>> pxshift level) &&& 0x1FF, Nat.lt_of_le_of_lt Nat.and_le_right (by decide)⟩

/-- `MAXVA`. -/
def maxva : Nat := 1 <<< (9 + 9 + 9 + 12 - 1)

/-- `PGROUNDDOWN`. -/
def pgrounddown (a : Nat) : Nat := a &&& (2 ^ 64 - pgsize)

/-! ## Page tables -/

/-- The words of each page. -/
abbrev Memory := Nat → Fin 512 → Nat

/-- The levels of `walk`: the entry if there is one, the memory, and what `kalloc` has left. -/
def walkLevels (va : Nat) (alloc : Bool) :
    Nat → Memory → Nat → List Nat → Option (Nat × Fin 512) × Memory × List Nat
  | 0, memory, pagetable, pages => (some (pagetable, px 0 va), memory, pages)
  | level + 1, memory, pagetable, pages =>
      let pte := memory pagetable (px (level + 1) va)
      if pte &&& pteV ≠ 0 then walkLevels va alloc level memory (pte2pa pte) pages
      else if alloc then
        match pages with
        | [] => (none, memory, [])
        | page :: pages =>
            let memory := clear memory page 0
            let memory := write memory pagetable (px (level + 1) va) (pa2pte page ||| pteV)
            walkLevels va alloc level memory page pages
      else (none, memory, pages)

/-- `walk`. -/
def walk (memory : Memory) (pagetable va : Nat) (alloc : Bool) (pages : List Nat) :
    Except Fault (Option (Nat × Fin 512) × Memory × List Nat) :=
  if maxva ≤ va then .error .walk
  else .ok (walkLevels va alloc 2 memory pagetable pages)

/-- More pages than there are below `MAXVA`. -/
def manyPages : Nat := 2 ^ 26 + 1

/-- The loop of `mappages`, with fuel. -/
def mapLoop (pagetable perm last : Nat) :
    Nat → Memory → Nat → Nat → List Nat → Except Fault (Int × Memory × List Nat)
  | 0, _, _, _, _ => .error .loops
  | fuel + 1, memory, a, pa, pages => do
      let (pte, memory, pages) ← walk memory pagetable a true pages
      match pte with
      | none => return (-1, memory, pages)
      | some (table, i) =>
          if memory table i &&& pteV ≠ 0 then .error .mappagesRemap
          else
            let memory := write memory table i (pa2pte pa ||| perm ||| pteV ||| pteA ||| pteD)
            if a = last then return (0, memory, pages)
            else
              mapLoop pagetable perm last fuel memory ((a + pgsize) % 2 ^ 64)
                ((pa + pgsize) % 2 ^ 64) pages

/-- `mappages`. -/
def mappages (memory : Memory) (pagetable va size pa perm : Nat) (pages : List Nat) :
    Except Fault (Int × Memory × List Nat) :=
  if size = 0 then .error .mappagesSize
  else
    mapLoop pagetable perm (pgrounddown ((va + size - 1) % 2 ^ 64)) manyPages memory
      (pgrounddown va) pa pages

/-- The loop of `uvmunmap`, with fuel; `freed` collects the calls of `kfree`. -/
def unmapLoop (pagetable : Nat) (doFree : Bool) (finish : Nat) :
    Nat → Memory → Nat → List Nat → Except Fault (Memory × List Nat)
  | 0, _, _, _ => .error .loops
  | fuel + 1, memory, a, freed =>
      if a < finish then do
        let (pte, memory, _) ← walk memory pagetable a false []
        match pte with
        | none => unmapLoop pagetable doFree finish fuel memory ((a + pgsize) % 2 ^ 64) freed
        | some (table, i) =>
            let pte := memory table i
            if pte &&& pteV = 0 then
              unmapLoop pagetable doFree finish fuel memory ((a + pgsize) % 2 ^ 64) freed
            else if pteFlags pte &&& 0x3FF = pteV then .error .uvmunmapNotALeaf
            else
              let freed := if doFree then freed ++ [pte2pa pte] else freed
              unmapLoop pagetable doFree finish fuel (write memory table i 0)
                ((a + pgsize) % 2 ^ 64) freed
      else .ok (memory, freed)

/-- `uvmunmap`. -/
def uvmunmap (memory : Memory) (pagetable va npages : Nat) (doFree : Bool) :
    Except Fault (Memory × List Nat) :=
  if va % pgsize ≠ 0 then .error .uvmunmapNotAligned
  else unmapLoop pagetable doFree ((va + npages * pgsize) % 2 ^ 64) manyPages memory va []

/-- `uvmcreate`. -/
def uvmcreate (memory : Memory) : List Nat → Option (Nat × Memory × List Nat)
  | [] => none
  | page :: pages => some (page, clear memory page 0, pages)

end Vm
end Xv6Duo
