import Xv6Duo.Fs.FileArray
import Xv6Duo.Mmap.Model
import Xv6Duo.Vfs.Model

/-!
# Mapped memory

The calls of `kernel/mmap.c` with the memory behind them: the pages that `map_file_pages` and
`map_anon_pages` fill, the faults that `usertrap` hands to `alloc_cow_page` and `alloc_mmap_page`,
and the files that `munmap` and `msync` write back to. Page tables are words and the other memory is
bytes by physical address. An open file is named by its place in `ftable`; its counter is left out.
What the read functions of pipes and devices return is a parameter, and they touch no inode.
-/

namespace Xv6Duo
namespace Mapping

open Vm Mmap

/-! ## Data -/

/-- `PTE_R`. -/
def pteR : Nat := 1 <<< 1

/-- `PTE_W`. -/
def pteW : Nat := 1 <<< 2

/-- `PTE_X`. -/
def pteX : Nat := 1 <<< 3

/-- `PTE_U`. -/
def pteU : Nat := 1 <<< 4

/-- `PTE_COW`. -/
def pteCow : Nat := 1 <<< 8

/-- `PTE_C`. -/
def pteC : Nat := 1 <<< 62

/-- `PTE_THEAD_NORMAL`. -/
def theadNormal : Nat := 1 <<< 62 ||| 1 <<< 61 ||| 1 <<< 60

/-- `PTE_THEAD_NORMAL_NC`. -/
def theadNormalNc : Nat := 1 <<< 61 ||| 1 <<< 60

/-- `PTE_RO`. -/
def pteRo : Nat := pteR ||| theadNormal

/-- `PROT_READ`. -/
def protRead : Nat := 1

/-- `PROT_EXEC`. -/
def protExec : Nat := 4

/-- `MS_ASYNC`. -/
def msAsync : Nat := 1

/-- `MS_SYNC`. -/
def msSync : Nat := 4

/-- `pte &= ~mask`. -/
def clearBits (pte mask : Nat) : Nat := pte &&& (2 ^ 64 - 1 - mask)

/-- A `struct file`. -/
structure OpenFile where
  /-- Type. -/
  type : Vfs.FdType
  /-- Number of the inode. -/
  ip : Option UInt32
  /-- Position. -/
  off : UInt32
  /-- Open for reading. -/
  readable : Bool
  /-- Open for writing. -/
  writable : Bool

/-- What the calls of all processes work on. -/
structure Kernel where
  /-- Page tables. -/
  memory : Vm.Memory
  /-- Other memory. -/
  bytes : ByteBlock.Bytes
  /-- `refcnt` by page. -/
  refcnt : Nat → UInt32
  /-- Pages of `kalloc`. -/
  pages : List Nat
  /-- How many objects `slab_cache_alloc` has. -/
  nodes : Nat
  /-- Files. -/
  volume : Fs.Volume
  /-- `ftable`. -/
  files : Nat → OpenFile
  /-- Values of the clock that are still to be read. -/
  clock : Nat → Fs.Timespec

/-- The parts of `struct proc` that the calls use. -/
structure Proc where
  /-- `pagetable`. -/
  pagetable : Nat
  /-- `regions`. -/
  regions : List MmapRegion
  /-- `sz`. -/
  sz : Nat

/-- An access through a pointer. -/
def deref {α : Type} : Option α → Except Fault α
  | none => .error .badPointer
  | some value => .ok value

namespace Kernel

/-- Set the position of an open file. -/
def setOff (k : Kernel) (f : Nat) (off : UInt32) : Kernel :=
  { k with files := Function.update k.files f { k.files f with off := off } }

/-- `kalloc`. `buddy_alloc` panics when it has no page, so the result is never null, and what the
callers do about a null result is left out. -/
def kalloc (k : Kernel) : Except Fault (Nat × Kernel) :=
  match k.pages with
  | [] => .error .outOfMemory
  | mem :: pages => .ok (mem, { k with pages, refcnt := Function.update k.refcnt mem 1 })

/-- `walk` that makes tables. It finds no entry where `kalloc` has no page, and that panics. -/
def walk (k : Kernel) (pagetable va : Nat) : Except Fault ((Nat × Fin 512) × Kernel) := do
  let (pte, memory, pages) ← Vm.walk k.memory pagetable va true k.pages
  match pte with
  | none => .error .outOfMemory
  | some pte => return (pte, { k with memory, pages })

/-- `mappages`. It fails where `kalloc` has no page for a table, and that panics. -/
def mappages (k : Kernel) (pagetable va size pa perm : Nat) : Except Fault Kernel := do
  let (code, memory, pages) ← Vm.mappages k.memory pagetable va size pa perm k.pages
  if code < 0 then .error .outOfMemory else return { k with memory, pages }

/-- `kfree`. -/
def kfree (k : Kernel) (pa : Nat) : Kernel := { k with refcnt := Vm.kfree k.refcnt pa }

/-- `memset` of a page to zero. -/
def clearPage (k : Kernel) (pa : Nat) : Kernel :=
  { k with bytes := ByteBlock.copyRange k.bytes pa ByteBlock.zeros 0 pgsize }

/-- `uvmunmap` that frees the pages. -/
def unmap (k : Kernel) (pagetable va npages : Nat) : Except Fault Kernel := do
  let (memory, freed) ← uvmunmap k.memory pagetable va npages true
  return { k with memory, refcnt := freed.foldl Vm.kfree k.refcnt }

/-- A store to a page table entry. -/
def setPte (k : Kernel) (table : Nat) (i : Fin 512) (pte : Nat) : Kernel :=
  { k with memory := RadixTree.write k.memory table i pte }

/-- The size of the inode of an open file. -/
def size (k : Kernel) (f : Nat) : UInt32 :=
  match (k.files f).ip with
  | none => 0
  | some inum => (k.volume.inodes inum).size

/-- An open file, as the regions name it. -/
def file (k : Kernel) (f : Nat) : Mmap.File :=
  ⟨f, (k.files f).readable, (k.files f).writable, (k.size f).toNat⟩

end Kernel

/-! ## User memory -/

/-- `walkaddr`. -/
def walkaddr (memory : Vm.Memory) (pagetable va : Nat) : Nat :=
  if maxva ≤ va then 0
  else
    match (walkLevels va false 2 memory pagetable []).1 with
    | none => 0
    | some (table, i) =>
        if memory table i &&& pteV = 0 then 0
        else if memory table i &&& pteU = 0 then 0
        else pte2pa (memory table i)

/-- `walkaddr` finds the page, and a store to it is permitted. -/
def isStorable (memory : Vm.Memory) (pagetable va : Nat) : Bool :=
  match (walkLevels va false 2 memory pagetable []).1 with
  | none => false
  | some (table, i) => walkaddr memory pagetable va ≠ 0 && memory table i &&& (pteW ||| pteCow) ≠ 0

/-- The memory of a process, as `copyin` sees it. -/
def Kernel.user (k : Kernel) (pagetable : Nat) : Fs.Memory where
  bytes a := k.bytes (walkaddr k.memory pagetable (pgrounddown a) + a % pgsize)
  readable page := walkaddr k.memory pagetable (page * pgsize) ≠ 0
  writable page := isStorable k.memory pagetable (page * pgsize)

/-! ## Files -/

variable (sb : Fs.Superblock) (device : OpenFile → Nat → Int)

/-- `fileread` into a memory. -/
def fileread (k : Kernel) (f : Nat) (user : Bool) (mem : Fs.Memory) (addr n : Nat) :
    Except Fault (Int × Fs.Memory × Kernel) :=
  let file := k.files f
  if file.readable = false then .ok (-1, mem, k)
  else
    match file.type with
    | .none => .error .fileread
    | .pipe => .ok (device file n, mem, k)
    | .device => .ok (device file n, mem, k)
    | .inode => do
        let inum ← deref file.ip
        let (r, mem, ip, state) ← Fs.readi sb k.volume.state (k.volume.inodes inum) user mem addr
          file.off (UInt32.ofNat n)
        let k := { k with
          volume := ⟨state, Function.update k.volume.inodes inum { ip with atime := k.clock 0 }⟩
          clock := fun i => k.clock (i + 1) }
        return (r, mem, if 0 < r then k.setOff f (file.off + UInt32.ofInt r) else k)

/-- `writeback` of the page at `addr`. -/
def writeback (k : Kernel) (pagetable : Nat) (f : Option Mmap.File) (off addr : Nat) :
    Except Fault (Int × Kernel) :=
  match f with
  | none => .ok (0, k)
  | some f =>
      let file := k.files f.address
      if file.writable = false ∨ file.type ≠ .inode then .ok (0, k)
      else do
        let inum ← deref file.ip
        let size := (k.volume.inodes inum).size.toNat
        let n := if size < (off + pgsize) % 2 ^ 64 then UInt32.ofNat (size + 2 ^ 64 - off)
          else UInt32.ofNat pgsize
        let (r, ip, state) ← Fs.writei sb k.volume.state (k.volume.inodes inum) true
          (k.user pagetable) addr (UInt32.ofNat off) n
        let ts := k.clock 0
        let k := { k with
          volume := ⟨state, Function.update k.volume.inodes inum
            { ip with mtime := ts, atime := ts }⟩
          clock := fun i => k.clock (i + 1) }
        return (if UInt32.ofInt r = n then r else -1, k)

/-! ## Loading pages -/

/-- `get_perm`. -/
def getPerm (prot flags : Nat) : Nat :=
  let perm := if flags &&& mapAnonymous ≠ 0 then theadNormalNc ||| pteU else theadNormal ||| pteU
  let perm := if prot &&& protRead ≠ 0 then perm ||| pteR else perm
  let perm := if prot &&& protWrite ≠ 0 then perm ||| pteW else perm
  let perm := if prot &&& protExec ≠ 0 then perm ||| pteX else perm
  if prot &&& protNone ≠ 0 then clearBits perm pteU else perm

/-- `err` of the loaders. -/
def unload (k : Kernel) (pagetable addr cur : Nat) : Except Fault Kernel :=
  if cur ≠ 0 then k.unmap pagetable addr (cur / pgsize) else .ok k

/-- The loop of `map_file_pages`, with fuel. -/
def filePagesLoop (pagetable addr length perm f : Nat) :
    Nat → Kernel → Nat → Nat → Except Fault (Int × Kernel)
  | 0, _, _, _ => .error .loops
  | fuel + 1, k, cur, offset =>
      if cur < length then do
        let k := k.setOff f (UInt32.ofNat offset)
        let inum ← deref (k.files f).ip
        let rest := (k.volume.inodes inum).size - (k.files f).off
        let len := if pgsize < rest.toNat then pgsize else rest.toNat
        if len = 0 then return (0, k)
        let (mem, k) ← k.kalloc
        let k := k.clearPage mem
        let (r, after, k) ← fileread sb device k f false ⟨k.bytes, fun _ => true, fun _ => true⟩
          mem len
        let k := { k with bytes := after.bytes }
        if r < 0 then
          let k ← unload (k.kfree mem) pagetable addr cur
          return (r, k)
        let k ← k.mappages pagetable ((addr + cur) % 2 ^ 64) len mem perm
        filePagesLoop pagetable addr length perm f fuel k ((cur + pgsize) % 2 ^ 64)
          ((offset + len) % 2 ^ 64)
      else return (0, k)

/-- `map_file_pages`. Each round takes a page. -/
def mapFilePages (k : Kernel) (pagetable addr length perm : Nat) (f : Option Mmap.File)
    (offset : Nat) : Except Fault (Int × Kernel) :=
  if length = 0 then .ok (0, k)
  else do
    let f ← deref f
    filePagesLoop sb device pagetable addr length perm f.address (k.pages.length + 1) k 0 offset

/-- The loop of `map_anon_pages`, with fuel. -/
def anonPagesLoop (pagetable addr length perm : Nat) :
    Nat → Kernel → Nat → Except Fault (Int × Kernel)
  | 0, _, _ => .error .loops
  | fuel + 1, k, cur =>
      if cur < length then do
        let (page, k) ← k.kalloc
        let k := k.clearPage page
        let k ← k.mappages pagetable ((addr + cur) % 2 ^ 64) pgsize page perm
        anonPagesLoop pagetable addr length perm fuel k ((cur + pgsize) % 2 ^ 64)
      else .ok (0, k)

/-- `map_anon_pages`. Each round takes a page. -/
def mapAnonPages (k : Kernel) (pagetable addr length perm : Nat) : Except Fault (Int × Kernel) :=
  anonPagesLoop pagetable addr length perm (k.pages.length + 1) k 0

/-- `mmap_load_pages`. -/
def mmapLoadPages (k : Kernel) (pagetable addr length prot flags : Nat) (f : Option Mmap.File)
    (offset : Nat) : Except Fault (Int × Kernel) :=
  if flags &&& mapAnonymous ≠ 0 then mapAnonPages k pagetable addr length (getPerm prot flags)
  else mapFilePages sb device k pagetable addr length (getPerm prot flags) f offset

/-! ## Page faults -/

/-- `scause` of a page fault. -/
inductive Access
  /-- `SCAUSE_PAGE_LOAD`. -/
  | load
  /-- `SCAUSE_PAGE_STORE`. -/
  | store
  deriving DecidableEq, Repr

/-- `find_mmap_region`. -/
def Proc.region (p : Proc) (start : Nat) : Option MmapRegion :=
  p.regions.find? fun region => region.Contains start

/-- `alloc_mmap_page`. -/
def allocMmapPage (k : Kernel) (p : Proc) (addr : Nat) (scause : Access) :
    Except Fault (Int × Kernel) :=
  let rounddown := pgrounddown addr
  match p.region rounddown with
  | none => .ok (-1, k)
  | some region =>
      if scause = .store ∧ region.prot &&& protWrite = 0 then .ok (-1, k)
      else do
        let offset := if region.f.isSome then
            (region.offset + (rounddown - region.addr) / pgsize * pgsize) % 2 ^ 64
          else 0
        let (code, k) ← mmapLoadPages sb device k p.pagetable rounddown pgsize region.prot
          region.flags region.f offset
        return (if code < 0 then -1 else 0, k)

/-- `alloc_cow_page`. -/
def allocCowPage (k : Kernel) (pagetable va : Nat) : Except Fault (Int × Kernel) :=
  if maxva ≤ va then .ok (-1, k)
  else
    match (walkLevels va false 2 k.memory pagetable []).1 with
    | none => .ok (1, k)
    | some (table, i) =>
        let pte := k.memory table i
        if pte &&& pteV = 0 ∨ pte &&& pteU = 0 then .ok (1, k)
        else if pte &&& pteCow = 0 ∧ pte &&& pteW = 0 then .ok (-1, k)
        else if pte &&& pteW ≠ 0 ∨ pte &&& pteCow = 0 then .ok (1, k)
        else
          let flags := pteFlags pte
          let pa := pte2pa pte
          let va0 := pgrounddown va
          if 1 < k.refcnt pa then do
            let (mem, k) ← k.kalloc
            let k := { k with bytes := ByteBlock.copyRange k.bytes mem k.bytes pa pgsize }
            let k ← k.unmap pagetable va0 1
            let k ← k.mappages pagetable va0 pgsize mem (clearBits flags pteCow ||| pteW)
            return (0, k)
          else if k.refcnt pa = 1 then .ok (0, k.setPte table i (clearBits (pte ||| pteW) pteC))
          else .ok (-1, k)

/-- The part of `usertrap` for page faults: the process is killed, or it goes on. -/
def usertrap (k : Kernel) (p : Proc) (scause : Access) (stval : Nat) :
    Except Fault (Bool × Kernel) :=
  match scause with
  | .load => do
      let (ret, k) ← allocMmapPage sb device k p stval .load
      return (decide (ret < 0), k)
  | .store => do
      let (ret, k) ← allocCowPage k p.pagetable stval
      if ret < 0 then return (true, k)
      else if ret = 1 then
        let (ret, k) ← allocMmapPage sb device k p stval .store
        return (decide (ret < 0), k)
      else return (false, k)

/-! ## `mmap` -/

/-- `mmap` from the check of the chosen address on. A region whose pages cannot be loaded is freed
and stays in the list. -/
def mapRegion (k : Kernel) (p : Proc) (addr length prot flags : Nat) (f : Option Mmap.File)
    (offset : Nat) : Except Fault (Int × Kernel × Proc) :=
  if usertop < (addr + pgroundup length) % 2 ^ 64 then .ok (-enomem, k, p)
  else if k.nodes = 0 then .ok (-enomem, k, p)
  else if f.isSome ∧ flags &&& mapAnonymous ≠ 0 then .ok (-einval, k, p)
  else do
    let region (length : Nat) : MmapRegion := ⟨⟨addr, length, flags⟩, offset, f, prot⟩
    let (error, k) ← mmapLoadPages sb device { k with nodes := k.nodes - 1 } p.pagetable addr length
      prot flags f offset
    if error < 0 then
      return (error, { k with nodes := k.nodes + 1 },
        { p with regions := insertRegion (region length) p.regions })
    return (addr, k, { p with regions := insertRegion (region (pgroundup length)) p.regions })

/-- The loop of `mmap` that takes pages away from the user, with the number of pages left. -/
def denyLoop (pagetable : Nat) : Nat → Kernel → Nat → Except Fault Kernel
  | 0, k, _ => .ok k
  | count + 1, k, a => do
      let ((table, i), k) ← k.walk pagetable a
      denyLoop pagetable count (k.setPte table i (clearBits (k.memory table i) pteU))
        ((a + pgsize) % 2 ^ 64)

/-- `mmap`. -/
def mmap (k : Kernel) (p : Proc) (addr length prot flags : Nat) (f : Option Mmap.File)
    (offset : Nat) : Except Fault (Int × Kernel × Proc) :=
  if addr ≠ 0 then
    if usertop < pgroundup ((pgroundup addr + length) % 2 ^ 64) then .ok (-einval, k, p)
    else if flags &&& mapFixed ≠ 0 then
      if addr &&& (pgsize - 1) ≠ 0 then .ok (-einval, k, p)
      else if prot = protNone then do
        let k ← denyLoop p.pagetable (pgroundup length / pgsize) k addr
        return (addr, k, p)
      else if ¬isUsable p.regions addr length then .ok (-einval, k, p)
      else mapRegion sb device k p addr length prot flags f offset
    else
      mapRegion sb device k p (selectAddr (pgroundup length) p.regions (pgrounddown addr))
        length prot flags f offset
  else
    let first := match p.regions with
      | [] => mmapbase
      | region :: _ => region.addr
    mapRegion sb device k p (selectAddr (pgroundup length) p.regions first) length prot
      flags f offset

/-! ## `munmap` -/

/-- The loop that writes back, with fuel. -/
def writebackLoop (p : Proc) (region : MmapRegion) (finish : Nat) :
    Nat → Kernel → Nat → Except Fault (Int × Kernel)
  | 0, _, _ => .error .loops
  | fuel + 1, k, ra =>
      if ra < finish then do
        let (pte, _, _) ← walk k.memory p.pagetable ra false []
        match pte with
        | none => .error .munmapNoPte
        | some (table, i) => do
            let offset := (region.offset + ra + 2 ^ 64 - region.addr) % 2 ^ 64
            let (code, k) ←
              if pteFlags (k.memory table i) &&& pteD ≠ 0 then
                writeback sb k p.pagetable region.f offset ra
              else .ok (0, k)
            if code < 0 then return (-eacces, k)
            let f ← deref region.f
            let inum ← deref (k.files f.address).ip
            if (k.volume.inodes inum).size.toNat ≤ (offset + pgsize) % 2 ^ 64 then return (0, k)
            writebackLoop p region finish fuel k ((ra + pgsize) % 2 ^ 64)
      else return (0, k)

/-- What `munmap` and `msync` write back. -/
def writebackRegion (k : Kernel) (p : Proc) (region : MmapRegion) (addr length : Nat) :
    Except Fault (Int × Kernel) :=
  if region.flags &&& mapAnonymous = 0 ∧ region.flags &&& mapShared ≠ 0 ∧
      region.prot &&& protWrite ≠ 0 then
    writebackLoop sb p region ((addr + length) % 2 ^ 64) manyPages k addr
  else .ok (0, k)

/-- `delete_mmap_node`. -/
def deleteMmapNode (k : Kernel) (p : Proc) (node : MmapRegion) : Except Fault (Kernel × Proc) := do
  let regions := p.regions.eraseP fun region => node.addr = region.addr
  let k ← k.unmap p.pagetable node.addr ((node.length + pgsize - 1) % 2 ^ 64 / pgsize)
  return ({ k with nodes := k.nodes + 1 }, { p with regions })

/-- `munmap`. -/
def munmap (k : Kernel) (p : Proc) (addr length : Nat) : Except Fault (Int × Kernel × Proc) :=
  if addr &&& (pgsize - 1) ≠ 0 then .ok (-einval, k, p)
  else
    match p.regions.findIdx? fun region => region.Contains addr with
    | none => .ok (0, k, p)
    | some i => do
        let region ← deref p.regions[i]?
        let length := min (pgroundup length) region.length
        let (code, k) ← writebackRegion sb k p region addr length
        if code < 0 then return (code, k, p)
        else if region.length = length then
          let (k, p) ← deleteMmapNode k p region
          return (0, k, p)
        else
          let k ← k.unmap p.pagetable addr (length / pgsize)
          return (0, k, { p with regions := p.regions.set i (region.part addr length) })

/-! ## `mprotect` and `msync` -/

/-- The loop of `mprotect` over the program, with fuel. -/
def protectLoop (pagetable finish prot : Nat) : Nat → Kernel → Nat → Except Fault (Int × Kernel)
  | 0, _, _ => .error .loops
  | fuel + 1, k, addrp =>
      if addrp < finish then do
        let (pte, _, _) ← walk k.memory pagetable addrp false []
        match pte with
        | none => return (-enomem, k)
        | some (table, i) =>
            let pte := k.memory table i
            if pte &&& pteRo ≠ 0 ∧ prot = protWrite then return (-eacces, k)
            let pte :=
              if prot = protNone then clearBits pte pteU
              else
                let pte := if prot = protRead then pte ||| pteR else pte
                let pte := if prot = protWrite then pte ||| pteW else pte
                let pte := if prot = protExec then pte ||| pteX else pte
                pte ||| pteU
            protectLoop pagetable finish prot fuel (k.setPte table i pte)
              ((addrp + pgsize) % 2 ^ 64)
      else return (0, k)

/-- `is_mmap_region`. -/
def Proc.isMmapRegion (p : Proc) (addr length : Nat) : Bool :=
  match p.region addr with
  | none => false
  | some region => (addr + length) % 2 ^ 64 ≤ region.finish

/-- The part of `mprotect` that splits a region. -/
def splitRegion (k : Kernel) (p : Proc) (region : MmapRegion) (addr length prot : Nat) :
    Except Fault (Int × Kernel × Proc) := do
  let flags := region.flags ||| mapFixed
  let offset (distance : Nat) := if region.f.isSome then
      (region.offset + distance) % 2 ^ 64
    else 0
  let (error, k, p) ← munmap sb k p region.addr region.length
  if error < 0 then return (error, k, p)
  if region.addr = addr then
    let (_, k, p) ← mmap sb device k p addr length prot flags region.f region.offset
    let (_, k, p) ← mmap sb device k p ((addr + length) % 2 ^ 64) (region.length - length)
      region.prot flags region.f (offset length)
    return (0, k, p)
  else if (addr + length) % 2 ^ 64 = region.finish then
    let before := region.length - length
    let (_, k, p) ← mmap sb device k p region.addr before region.prot flags region.f region.offset
    let (_, k, p) ← mmap sb device k p addr length prot flags region.f (offset before)
    return (0, k, p)
  else
    let before := addr - region.addr
    let (_, k, p) ← mmap sb device k p region.addr before region.prot flags region.f region.offset
    let (_, k, p) ← mmap sb device k p addr length prot flags region.f (offset before)
    let (_, k, p) ← mmap sb device k p ((addr + length) % 2 ^ 64)
      (region.length - before - length) region.prot flags region.f (offset (before + length))
    return (0, k, p)

/-- `mprotect`. -/
def mprotect (k : Kernel) (p : Proc) (addr length prot : Nat) :
    Except Fault (Int × Kernel × Proc) :=
  if addr ≤ p.sz then do
    let (code, k) ← protectLoop p.pagetable ((addr + length) % 2 ^ 64) prot manyPages k addr
    return (code, k, p)
  else if ¬p.isMmapRegion addr (pgroundup length) then .ok (-enomem, k, p)
  else
    match p.regions.findIdx? fun region => region.Contains addr with
    | none => .error .badPointer
    | some i => do
        let region ← deref p.regions[i]?
        let length := pgroundup length
        if region.prot &&& (protRead ||| protWrite) = protRead ∧ prot &&& protWrite ≠ 0 then
          return (-eacces, k, p)
        else if region.addr = addr ∧ region.length = length then
          return (0, k, { p with regions := p.regions.set i { region with prot := prot } })
        else splitRegion sb device k p region addr length prot

/-- `msync`. -/
def msync (k : Kernel) (p : Proc) (addr length flags : Nat) : Except Fault (Int × Kernel) :=
  let flags := if flags &&& msAsync = 0 ∧ flags &&& msSync = 0 then flags ||| msAsync else flags
  if flags &&& msAsync ≠ 0 then .ok (0, k)
  else if addr &&& (pgsize - 1) ≠ 0 then .ok (-einval, k)
  else
    match p.region addr with
    | none => .ok (0, k)
    | some region => writebackRegion sb k p region addr (min length region.length)

end Mapping
end Xv6Duo
