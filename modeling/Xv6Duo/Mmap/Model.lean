import Xv6Duo.Errno
import Xv6Duo.Vm.CopyModel

/-!
# Memory mapped regions

`mmap` and `munmap` of `kernel/mmap.c`. The regions of a process are a list; a pointer to a region
is an index. The memory that `mmap_load_pages` fills, the file that `writeback` writes and the
counters of the file are left out: what these calls return is a parameter. Of the memory of `munmap`
there are the page tables, and the pages that it frees.
-/

namespace Xv6Duo
namespace Mmap

open Vm

/-- `MAP_PRIVATE`. -/
def mapPrivate : Nat := 2

/-- `MAP_FIXED`. -/
def mapFixed : Nat := 0x10

/-- `MAP_ANONYMOUS`. -/
def mapAnonymous : Nat := 0x20

/-- `PROT_NONE`. -/
def protNone : Nat := 0

/-- `PROT_WRITE`. -/
def protWrite : Nat := 2

/-- `ELF_ET_DYN_BASE`. -/
def elfEtDynBase : Nat := 0x100000000

/-- `PGROUNDUP`. -/
def pgroundup (sz : Nat) : Nat := (sz + pgsize - 1) % 2 ^ 64 &&& (2 ^ 64 - pgsize)

/-- An open file, as far as the calls look at it. -/
structure File where
  /-- Address of the file. -/
  address : Nat
  /-- Open for reading. -/
  readable : Bool
  /-- Open for writing. -/
  writable : Bool
  /-- Size of its inode. -/
  size : Nat
  deriving DecidableEq

/-- `struct mmap_region`. -/
structure MmapRegion extends Region where
  /-- Offset in the file. -/
  offset : Nat
  /-- File. -/
  f : Option File
  /-- Protection. -/
  prot : Nat
  deriving DecidableEq

/-- The end of a region, as the code computes it. -/
def MmapRegion.finish (region : MmapRegion) : Nat := (region.addr + region.length) % 2 ^ 64

/-! ## `mmap` -/

/-- The loop of `is_usable`. -/
def isUsableLoop (addr length : Nat) : List MmapRegion → Bool
  | [] => false
  | cursor :: rest =>
      if addr = cursor.addr then false
      else if (addr + length) % 2 ^ 64 ≤ cursor.addr then true
      else if cursor.finish ≤ addr ∧ ∀ next ∈ rest.head?, (addr + length) % 2 ^ 64 ≤ next.addr then
        true
      else isUsableLoop addr length rest

/-- `is_usable`. -/
def isUsable (regions : List MmapRegion) (addr length : Nat) : Bool :=
  if addr < elfEtDynBase ∨ usertop < addr then false
  else if regions = [] then true
  else isUsableLoop addr length regions

/-- The loop behind `select_addr`. -/
def selectAddr (size : Nat) : List MmapRegion → Nat → Nat
  | [], addr => addr
  | node :: rest, addr =>
      if (addr + size) % 2 ^ 64 ≤ node.addr then addr
      else if node.finish ≤ addr ∧ ∀ next ∈ rest.head?, (addr + size) % 2 ^ 64 ≤ next.addr then addr
      else selectAddr size rest (if addr ≤ node.finish then node.finish else addr)

/-- The loop that links a new region, behind the regions `passed`. A region before the current one
becomes the head of the list. -/
def insertLoop (region : MmapRegion) (passed : List MmapRegion) : List MmapRegion → List MmapRegion
  | [] => passed
  | node :: rest =>
      if region.addr < node.addr then region :: node :: rest
      else if node.addr < region.addr ∧ ∃ next ∈ rest.head?, region.addr < next.addr then
        passed ++ node :: region :: rest
      else if rest = [] then passed ++ [node, region]
      else insertLoop region (passed ++ [node]) rest

/-- `p->regions` with a new region. -/
def insertRegion (region : MmapRegion) (regions : List MmapRegion) : List MmapRegion :=
  if regions = [] then [region] else insertLoop region [] regions

/-- What the functions that `mmap` calls return. -/
structure Env where
  /-- `walk` finds an entry for each page. -/
  walks : Bool
  /-- `slab_cache_alloc` has a region. -/
  node : Bool
  /-- The code of `mmap_load_pages`. -/
  load : Int

/-- `mmap` from the check of the chosen address on. -/
def mapRegion (env : Env) (regions : List MmapRegion) (addr length prot flags : Nat)
    (f : Option File) (offset : Nat) : Int × List MmapRegion :=
  if usertop < (addr + pgroundup length) % 2 ^ 64 then (-enomem, regions)
  else if ¬env.node then (-enomem, regions)
  else if f.isSome ∧ flags &&& mapAnonymous ≠ 0 then (-einval, regions)
  else
    let region (length : Nat) : MmapRegion := ⟨⟨addr, length, flags⟩, offset, f, prot⟩
    if env.load < 0 then (env.load, insertRegion (region length) regions)
    else (addr, insertRegion (region (pgroundup length)) regions)

/-- `mmap`. -/
def mmap (env : Env) (regions : List MmapRegion) (addr length prot flags : Nat)
    (f : Option File) (offset : Nat) : Int × List MmapRegion :=
  if addr ≠ 0 then
    if usertop < pgroundup ((pgroundup addr + length) % 2 ^ 64) then (-einval, regions)
    else if flags &&& mapFixed ≠ 0 then
      if addr &&& (pgsize - 1) ≠ 0 then (-einval, regions)
      else if prot = protNone then (if env.walks then (addr, regions) else (-einval, regions))
      else if ¬isUsable regions addr length then (-einval, regions)
      else mapRegion env regions addr length prot flags f offset
    else
      mapRegion env regions (selectAddr (pgroundup length) regions (pgrounddown addr)) length prot
        flags f offset
  else
    let first := match regions with
      | [] => mmapbase
      | region :: _ => region.addr
    mapRegion env regions (selectAddr (pgroundup length) regions first) length prot flags f offset

/-! ## `munmap` -/

/-- The page table and the regions of a process. -/
structure Space where
  /-- Memory. -/
  memory : Memory
  /-- `pagetable`. -/
  pagetable : Nat
  /-- `regions`. -/
  regions : List MmapRegion

/-- `delete_mmap_node`; the pages that are freed. -/
def deleteMmapNode (s : Space) (node : MmapRegion) : Except Fault (Space × List Nat) := do
  let regions := s.regions.eraseP fun region => node.addr = region.addr
  let (memory, freed) ←
    uvmunmap s.memory s.pagetable node.addr ((node.length + pgsize - 1) % 2 ^ 64 / pgsize) true
  return ({ s with memory, regions }, freed)

/-- The loop of `munmap` that writes back, with fuel; `writeback` by offset and address. -/
def writebackLoop (writeback : Nat → Nat → Int) (s : Space) (region : MmapRegion) (f : File)
    (finish : Nat) : Nat → Nat → Except Fault Int
  | 0, _ => .error .loops
  | fuel + 1, ra =>
      if ra < finish then do
        let (pte, _, _) ← walk s.memory s.pagetable ra false []
        match pte with
        | none => .error .munmapNoPte
        | some (table, i) =>
            let flags := pteFlags (s.memory table i)
            let offset := (region.offset + ra + 2 ^ 64 - region.addr) % 2 ^ 64
            if flags &&& pteD ≠ 0 ∧ writeback offset ra < 0 then return -eacces
            else if f.size ≤ (offset + pgsize) % 2 ^ 64 then return 0
            else writebackLoop writeback s region f finish fuel ((ra + pgsize) % 2 ^ 64)
      else return 0

/-- What `munmap` writes back. -/
def writebackRegion (writeback : Nat → Nat → Int) (s : Space) (region : MmapRegion)
    (addr length : Nat) : Except Fault Int :=
  if region.flags &&& mapAnonymous = 0 ∧ region.flags &&& mapShared ≠ 0 ∧
      region.prot &&& protWrite ≠ 0 then
    match region.f with
    | none => .error .badPointer
    | some f => writebackLoop writeback s region f ((addr + length) % 2 ^ 64) manyPages addr
  else .ok 0

/-- What is left of a region from which `munmap` removes a part. -/
def MmapRegion.part (region : MmapRegion) (addr length : Nat) : MmapRegion :=
  let region := if region.addr = addr then
      { region with
        addr := (region.addr + length) % 2 ^ 64
        offset := (region.offset + length) % 2 ^ 64 }
    else region
  { region with length := region.length - length }

/-- `munmap`; the pages that are freed. -/
def munmap (writeback : Nat → Nat → Int) (s : Space) (addr length : Nat) :
    Except Fault (Int × Space × List Nat) :=
  if addr &&& (pgsize - 1) ≠ 0 then .ok (-einval, s, [])
  else
    match s.regions.findIdx? fun region => region.Contains addr with
    | none => .ok (0, s, [])
    | some i =>
        match s.regions[i]? with
        | none => .error .badPointer
        | some region => do
            let length := min (pgroundup length) region.length
            let code ← writebackRegion writeback s region addr length
            if code < 0 then return (code, s, [])
            else if region.length = length then
              let (s, freed) ← deleteMmapNode s region
              return (0, s, freed)
            else
              let (memory, freed) ← uvmunmap s.memory s.pagetable addr (length / pgsize) true
              return (0, { s with memory, regions := s.regions.set i (region.part addr length) },
                freed)

end Mmap
end Xv6Duo
