import Xv6Duo.Mapping.CopyOnWrite

/-!
# Page faults

`usertrap` hands a page fault to `alloc_cow_page` and `alloc_mmap_page`. These kill the process, or
they map the page so that the instruction goes on, or they do neither: the fault comes back, or the
kernel panics because the page is mapped already or because there is no memory.
-/

namespace Xv6Duo
namespace Mapping

open Vm Mmap

variable {sb : Fs.Superblock} {device : OpenFile → Nat → Int} {k k' : Kernel} {p : Proc}
  {root va length perm prot flags offset : Nat} {tables : List Nat} {access : Access}
  {region : MmapRegion}

/-! ## Permissions -/

theorem getPerm_testBit (prot flags : Nat) :
    (getPerm prot flags).testBit 1 = decide (prot &&& protRead ≠ 0) ∧
      (getPerm prot flags).testBit 2 = decide (prot &&& protWrite ≠ 0) ∧
      (getPerm prot flags).testBit 3 = decide (prot &&& protExec ≠ 0) ∧
      (getPerm prot flags).testBit 4 = true := by
  have none : prot &&& protNone = 0 := Nat.and_zero prot
  unfold getPerm
  rw [if_neg (not_not.mpr none)]
  by_cases anonymous : flags &&& mapAnonymous ≠ 0 <;> by_cases read : prot &&& protRead ≠ 0 <;>
    by_cases write : prot &&& protWrite ≠ 0 <;> by_cases exec : prot &&& protExec ≠ 0 <;>
    simp only [ne_eq, not_not] at anonymous read write exec <;>
    simp only [ne_eq, anonymous, read, write, exec, not_true, not_false_eq_true, if_true,
      if_false] <;>
    decide

/-- What a page that is loaded permits. -/
theorem permits_mapped : access.Permits (mappedFlags (getPerm prot flags)) ↔
    prot &&& protRead ≠ 0 ∧ (access = .store → prot &&& protWrite ≠ 0) := by
  obtain ⟨read, write, -, user⟩ := getPerm_testBit prot flags
  rw [permits_iff, mappedFlags_testBit _ (by decide), mappedFlags_testBit _ (by decide),
    mappedFlags_testBit _ (by decide), read, write, user]
  simp

/-! ## One page -/

/-- A file that `fileread` and `map_file_pages` can work on. -/
structure Backed (sb : Fs.Superblock) (k : Kernel) (f : Nat) : Prop where
  /-- The file is open. -/
  opened : (k.files f).type ≠ .none
  /-- It has an inode. -/
  inode : ∃ inum, (k.files f).ip = some inum ∧
    ((k.files f).type = .inode → k.volume.Live sb inum)
  /-- It is open for reading. -/
  readable : (k.files f).readable = true

/-- A process with regions in order and its pages. -/
structure WellFormed (sb : Fs.Superblock) (k : Kernel) (p : Proc) (tables : List Nat) : Prop where
  /-- The files can be used. -/
  mounted : Mounted sb k.volume
  /-- The page table. -/
  sound : Sound k p.pagetable tables
  /-- The regions. -/
  regions : Mmap.Sound p.regions
  /-- The files behind them. -/
  backed : ∀ region ∈ p.regions, region.flags &&& mapAnonymous = 0 →
    ∃ f, region.f = some f ∧ Backed sb k f.address

/-- The page starts where the file ends. -/
def AtEnd (k : Kernel) (flags : Nat) (file : Option Mmap.File) (offset : Nat) : Prop :=
  flags &&& mapAnonymous = 0 ∧ ∃ f ∈ file, UInt32.ofNat offset = k.size f.address

/-- The page comes from a pipe or a device, which has none. -/
def Unread (device : OpenFile → Nat → Int) (k : Kernel) (flags : Nat) (file : Option Mmap.File)
    (offset : Nat) : Prop :=
  flags &&& mapAnonymous = 0 ∧ ∃ f ∈ file, (k.files f.address).type ≠ .inode ∧
    device { k.files f.address with off := UInt32.ofNat offset }
      (roundLength (k.size f.address) (UInt32.ofNat offset)) < 0

/-- What `mmap_load_pages` does for one page, by the way it ends. -/
inductive PageLoad (device : OpenFile → Nat → Int) (k : Kernel) (root va flags : Nat)
    (file : Option Mmap.File) (offset mapped : Nat) : Except Fault (Int × Kernel) → Prop
  /-- The end of the file. -/
  | eof (at_end : AtEnd k flags file offset) (k' : Kernel) (memory : k'.memory = k.memory) :
      PageLoad device k root va flags file offset mapped (.ok (0, k'))
  /-- There is no page to read. -/
  | unread (before_end : ¬AtEnd k flags file offset) (some_page : k.pages ≠ [])
      (unread : Unread device k flags file offset) (code : Int) (negative : code < 0)
        (k' : Kernel) :
      PageLoad device k root va flags file offset mapped (.ok (code, k'))
  /-- `kalloc` has no page, for the page or for a table. -/
  | exhausted (short : k.pages = [] ∨ ¬Unread device k flags file offset ∧
      k.pages.length ≤ missingTables k.memory root va) :
      PageLoad device k root va flags file offset mapped (.error .outOfMemory)
  /-- The page is mapped already. -/
  | remap (read : ¬Unread device k flags file offset)
      (present : lookup k.memory root va ≠ none) :
      PageLoad device k root va flags file offset mapped (.error .mappagesRemap)
  /-- The page is mapped. -/
  | done (before_end : ¬AtEnd k flags file offset)
      (enough : missingTables k.memory root va < k.pages.length)
      (read : ¬Unread device k flags file offset) (absent : lookup k.memory root va = none)
      (k' : Kernel) (pa : Nat) (present : lookup k'.memory root va = some (pa, mapped)) :
      PageLoad device k root va flags file offset mapped (.ok (0, k'))

/-- An anonymous page. -/
theorem anonPage (mounted : Mounted sb k.volume) (sound : Sound k root tables)
    (is_perm : IsFlags perm) (va_page : pgsize ∣ va) (low : va < maxva)
    (anonymous : flags &&& mapAnonymous ≠ 0) (file : Option Mmap.File) :
    PageLoad device k root va flags file offset (mappedFlags perm)
      (mapAnonPages k root va pgsize perm) := by
  have before_end : ¬AtEnd k flags file offset := fun at_end => anonymous at_end.1
  have read : ¬Unread device k flags file offset := fun unread => anonymous unread.1
  have round : AnonRound sb root va pgsize perm k.pages.length k 0
      (anonPagesLoop root va pgsize perm (k.pages.length + 1) k 0) :=
    anonPagesLoop_round mounted sound is_perm va_page low (by decide) k.pages.length
  unfold mapAnonPages
  generalize anonPagesLoop root va pgsize perm (k.pages.length + 1) k 0 = result at round
  cases round with
  | exhausted short => exact PageLoad.exhausted (Or.inr ⟨read, short⟩)
  | remap some_page present => exact PageLoad.remap read present
  | mapped enough k' tables' page loads files =>
      obtain ⟨pa, -, present, -⟩ := page.mapped
      have rest : k.pages.length = k.pages.length - 1 + 1 := by omega
      rw [rest, anonPagesLoop, if_neg (by decide)]
      exact PageLoad.done before_end enough read page.unmapped k' pa present

/-- A page of a regular file. -/
theorem regularPage {file : Mmap.File} {inum : UInt32} (mounted : Mounted sb k.volume)
    (sound : Sound k root tables) (regular : Regular sb k file.address inum)
    (readable : (k.files file.address).readable = true) (is_perm : IsFlags perm)
    (va_page : pgsize ∣ va) (low : va < maxva) (backed : flags &&& mapAnonymous = 0) :
    PageLoad device k root va flags (some file) offset (mappedFlags perm)
      (mapFilePages sb device k root va pgsize perm (some file) offset) := by
  have size_eq : k.size file.address = (k.volume.inodes inum).size := by
    rw [Kernel.size, regular.ip]
  have before (differ : UInt32.ofNat offset ≠ (k.volume.inodes inum).size) :
      ¬AtEnd k flags (some file) offset := by
    rintro ⟨-, f, same, at_end⟩
    cases same
    exact differ (at_end.trans size_eq)
  have read : ¬Unread device k flags (some file) offset := by
    rintro ⟨-, f, same, other, -⟩
    cases same
    exact other regular.type
  have round : FileRound sb device root va pgsize perm file.address k.pages.length k inum 0 offset
      (filePagesLoop sb device root va pgsize perm file.address (k.pages.length + 1) k 0 offset) :=
    filePagesLoop_round mounted sound regular readable is_perm va_page low (by decide)
      k.pages.length
  rw [mapFilePages, if_neg (by decide), deref, Except.ok_bind]
  generalize filePagesLoop sb device root va pgsize perm file.address (k.pages.length + 1) k 0
    offset = result at round
  cases round with
  | eof at_end =>
      exact PageLoad.eof ⟨backed, file, rfl, at_end.trans size_eq.symm⟩ _ rfl
  | exhausted before_end short => exact PageLoad.exhausted (Or.inr ⟨read, short⟩)
  | remap before_end some_page present => exact PageLoad.remap read present
  | mapped before_end enough k' tables' page loads moved =>
      obtain ⟨pa, -, present, -⟩ := page.mapped
      have rest : k.pages.length = k.pages.length - 1 + 1 := by omega
      rw [rest, filePagesLoop, if_neg (by decide)]
      exact PageLoad.done (before before_end) enough read page.unmapped k' pa present

/-- A page of a pipe or of a device. -/
theorem devicePage {file : Mmap.File} (sound : Sound k root tables)
    (open_file : Backed sb k file.address) (other : (k.files file.address).type ≠ .inode)
    (is_perm : IsFlags perm) (va_page : pgsize ∣ va) (low : va < maxva)
    (backed : flags &&& mapAnonymous = 0) :
    PageLoad device k root va flags (some file) offset (mappedFlags perm)
      (mapFilePages sb device k root va pgsize perm (some file) offset) := by
  have page : pgsize = 4096 := rfl
  have bound : maxva = 2 ^ 38 := by decide
  obtain ⟨inum, ip, -⟩ := open_file.inode
  set f := file.address with f_eq
  set o := UInt32.ofNat offset with o_eq
  have size_eq : k.size f = (k.volume.inodes inum).size := by
    rw [Kernel.size, ip]
  have moved_file := setOff_file k f o
  have len_unfolded : (if pgsize < ((k.volume.inodes inum).size - o).toNat then pgsize
      else ((k.volume.inodes inum).size - o).toNat) = roundLength
        (k.volume.inodes inum).size o := rfl
  have no_wrap : (va + 0) % 2 ^ 64 = va := Nat.mod_eq_of_lt (by omega)
  rw [mapFilePages, if_neg (by decide), deref, Except.ok_bind, ← f_eq]
  unfold filePagesLoop
  simp only [show 0 < pgsize by decide, if_true, ← o_eq, moved_file, ip, deref, Except.ok_bind,
    show (k.setOff f o).volume = k.volume from rfl, len_unfolded, no_wrap]
  by_cases at_end : o = (k.volume.inodes inum).size
  · rw [if_pos (roundLength_eq_zero.mpr at_end)]
    exact PageLoad.eof ⟨backed, file, rfl, at_end.trans size_eq.symm⟩ _ rfl
  · have before_end : ¬AtEnd k flags (some file) offset := by
      rintro ⟨-, g, same, ends⟩
      cases same
      exact at_end (ends.trans size_eq)
    rw [if_neg fun none => at_end (roundLength_eq_zero.mp none)]
    cases pages_eq : k.pages with
    | nil =>
        have empty : (k.setOff f o).kalloc = .error .outOfMemory := by
          simp only [Kernel.kalloc, Kernel.setOff, pages_eq]
        rw [empty]
        exact PageLoad.exhausted (Or.inl pages_eq)
    | cons mem rest =>
        have taken : (k.setOff f o).kalloc = .ok (mem, { k.setOff f o with
            pages := rest
            refcnt := Function.update k.refcnt mem 1 }) := by
          simp only [Kernel.kalloc, Kernel.setOff, pages_eq]
        rw [taken, Except.ok_bind]
        simp only []
        set k₂ : Kernel := Kernel.clearPage { k.setOff f o with
          pages := rest
          refcnt := Function.update k.refcnt mem 1 } mem with k₂_eq
        have file₂ : k₂.files f = { k.files f with off := o } := moved_file
        set n := roundLength (k.volume.inodes inum).size o with n_eq
        have reads : fileread sb device k₂ f false ⟨k₂.bytes, fun _ => true, fun _ => true⟩ mem n =
            .ok (device { k.files f with off := o } n, ⟨k₂.bytes, fun _ => true, fun _ => true⟩,
              k₂) := by
          have unread : ¬({ k.files f with off := o } : OpenFile).readable = false := by
            simp [open_file.readable]
          unfold fileread
          dsimp only
          rw [file₂, if_neg unread]
          cases type_eq : (k.files f).type with
          | none => exact absurd type_eq open_file.opened
          | inode => exact absurd type_eq other
          | pipe => simp only [type_eq]
          | device => simp only [type_eq]
        rw [reads, Except.ok_bind]
        dsimp only
        by_cases fails : device { k.files f with off := o } n < 0
        · rw [if_pos fails]
          refine PageLoad.unread before_end (by rw [pages_eq]; exact List.cons_ne_nil mem rest) ?_ _
            fails _
          refine ⟨backed, file, rfl, other, ?_⟩
          rw [← f_eq, ← o_eq, size_eq]
          exact fails
        · have read : ¬Unread device k flags (some file) offset := by
            rintro ⟨-, g, same, -, negative⟩
            cases same
            rw [← f_eq, ← o_eq, size_eq] at negative
            exact fails negative
          rw [if_neg fails]
          have rest_suffix : rest <:+ k.pages := ⟨[mem], by rw [pages_eq]; rfl⟩
          have positive : 0 < n :=
            Nat.pos_of_ne_zero fun none => at_end (roundLength_eq_zero.mp none)
          rcases mappages_cases (k := k₂) sound.table (Supplied.suffix sound.supplied rest_suffix)
            va_page low positive (roundLength_le _ _) mem perm with ⟨short, run⟩ | ⟨present, run⟩ |
              ⟨after, left, tables', run, enough, -, -, -, absent, maps⟩
          · rw [show ({ k₂ with bytes := k₂.bytes } : Kernel) = k₂ from rfl, run]
            refine PageLoad.exhausted (Or.inr ⟨read, ?_⟩)
            rw [pages_eq]
            exact short
          · rw [show ({ k₂ with bytes := k₂.bytes } : Kernel) = k₂ from rfl, run]
            exact PageLoad.remap read present
          · rw [show ({ k₂ with bytes := k₂.bytes } : Kernel) = k₂ from rfl, run]
            have is_page := (sound.supplied.2 mem (pages_eq ▸ List.mem_cons_self)).1
            have at_va := maps va va_page low
            rw [if_pos rfl, decode_mapEntry is_page.isFrame is_perm] at at_va
            have more : k.pages.length = rest.length + 1 := by rw [pages_eq, List.length_cons]
            have enough' : missingTables k.memory root va ≤ rest.length := enough
            rw [Except.ok_bind, List.length_cons, filePagesLoop, if_neg (by decide)]
            exact PageLoad.done before_end (by omega) read absent _ mem at_va

/-- `mmap_load_pages` for a page of a region. -/
theorem mmapLoadPages_page {file : Option Mmap.File} (mounted : Mounted sb k.volume)
    (sound : Sound k root tables)
    (backed : flags &&& mapAnonymous = 0 → ∃ f, file = some f ∧ Backed sb k f.address)
    (va_page : pgsize ∣ va) (low : va < maxva) :
    PageLoad device k root va flags file offset (mappedFlags (getPerm prot flags))
      (mmapLoadPages sb device k root va pgsize prot flags file offset) := by
  have is_perm := getPerm_isFlags prot flags
  unfold mmapLoadPages
  split
  · next anonymous => exact anonPage mounted sound is_perm va_page low anonymous file
  · next not_anonymous =>
      rw [not_not] at not_anonymous
      obtain ⟨f, rfl, open_file⟩ := backed not_anonymous
      by_cases regular : (k.files f.address).type = .inode
      · obtain ⟨inum, ip, live⟩ := open_file.inode
        exact regularPage mounted sound ⟨regular, ip, live regular⟩ open_file.readable
          is_perm va_page low not_anonymous
      · exact devicePage sound open_file regular is_perm va_page low not_anonymous

/-! ## `alloc_mmap_page` -/

/-- The offset of a page of a region. -/
def MmapRegion.offsetOf (region : MmapRegion) (va : Nat) : Nat :=
  if region.f.isSome then (region.offset + (va - region.addr) / pgsize * pgsize) % 2 ^ 64 else 0

/-- A fault at the page `va` that goes to `alloc_mmap_page` ends well: no region holds the page or
it may not be written, or it is not the end of the file, `kalloc` has pages, and there is nothing to
read, or the page is not mapped yet and its region can be read. -/
def Supplies (device : OpenFile → Nat → Int) (k : Kernel) (p : Proc) (access : Access) (va : Nat) :
    Prop :=
  ∀ region, p.region va = some region → (access = .store → region.prot &&& protWrite ≠ 0) →
    ¬AtEnd k region.flags region.f (MmapRegion.offsetOf region va) ∧
      (k.pages ≠ [] ∧ Unread device k region.flags region.f (MmapRegion.offsetOf region va) ∨
        missingTables k.memory p.pagetable va < k.pages.length ∧
          lookup k.memory p.pagetable va = none ∧ region.prot &&& protRead ≠ 0)

/-- A function of the handler returns an error, or the page can be accessed. -/
def Progresses (result : Except Fault (Int × Kernel)) (p : Proc) (access : Access)
    (va : Nat) : Prop :=
  ∃ ret after, result = .ok (ret, after) ∧ (ret < 0 ∨
    ∃ pa flags, lookup after.memory p.pagetable va = some (pa, flags) ∧ access.Permits flags)

/-- The handler kills the process, or the page can be accessed when it returns. -/
def Serves (result : Except Fault (Bool × Kernel)) (p : Proc) (access : Access) (va : Nat) : Prop :=
  ∃ killed after, result = .ok (killed, after) ∧ (killed = true ∨
    ∃ pa flags, lookup after.memory p.pagetable va = some (pa, flags) ∧ access.Permits flags)

theorem serves_iff {result : Except Fault (Int × Kernel)} :
    Serves (do
      let (ret, k) ← result
      return (decide (ret < 0), k)) p access va ↔ Progresses result p access va := by
  cases result with
  | error fault =>
      constructor
      · rintro ⟨killed, after, impossible, -⟩
        cases impossible
      · rintro ⟨ret, after, impossible, -⟩
        cases impossible
  | ok returned =>
      obtain ⟨ret, after⟩ := returned
      constructor
      · rintro ⟨killed, after', returns, ends⟩
        cases returns
        exact ⟨ret, after, rfl, ends.imp_left of_decide_eq_true⟩
      · rintro ⟨ret', after', returns, ends⟩
        cases returns
        exact ⟨decide (ret < 0), after, rfl, ends.imp_left fun negative => decide_eq_true negative⟩

theorem progresses_ok {ret : Int} : Progresses (.ok (ret, k)) p access va ↔
    ret < 0 ∨ ∃ pa flags, lookup k.memory p.pagetable va = some (pa, flags) ∧
      access.Permits flags := by
  constructor
  · rintro ⟨ret', after, returns, ends⟩
    cases returns
    exact ends
  · exact fun ends => ⟨ret, k, rfl, ends⟩

theorem not_progresses_error {fault : Fault} : ¬Progresses (.error fault) p access va := by
  rintro ⟨ret, after, impossible, -⟩
  cases impossible

theorem Proc.region_spec (regions : Mmap.Sound p.regions) (found : p.region va = some region)
    (va_page : pgsize ∣ va) : region ∈ p.regions ∧ region.addr ≤ va ∧ va + pgsize ≤ usertop := by
  have mem := List.mem_of_find?_eq_some found
  have contains := List.find?_some found
  have finish : region.finish = region.stop := regions.finish_eq mem
  simp only [decide_eq_true_eq] at contains
  obtain ⟨above, below⟩ := contains
  have inside : va < region.stop := by
    rw [← finish]
    exact below
  have limit := regions.below region mem
  obtain ⟨m, stop_eq⟩ := regions.stop_page mem
  obtain ⟨n, rfl⟩ := va_page
  refine ⟨mem, above, ?_⟩
  rw [show pgsize = 4096 from rfl] at *
  omega

/-- `alloc_mmap_page` for a page of a region. -/
theorem allocMmapPage_eq {addr : Nat} (found : p.region (pgrounddown addr) = some region) :
    allocMmapPage sb device k p addr access =
      if access = .store ∧ region.prot &&& protWrite = 0 then .ok (-1, k)
      else (mmapLoadPages sb device k p.pagetable (pgrounddown addr) pgsize region.prot region.flags
        region.f (MmapRegion.offsetOf region (pgrounddown addr))).bind fun r =>
          .ok (if r.1 < 0 then -1 else 0, r.2) := by
  unfold allocMmapPage
  simp only [found]
  rfl

/-- The hardware raises a page fault: no entry permits the access. -/
def Faults (k : Kernel) (p : Proc) (access : Access) (va : Nat) : Prop :=
  ∀ pa flags, lookup k.memory p.pagetable va = some (pa, flags) → ¬access.Permits flags

/-- `alloc_mmap_page` ends well exactly under these conditions. -/
theorem allocMmapPage_iff (wf : WellFormed sb k p tables) {addr : Nat} (fits : addr < 2 ^ 64)
    (faults : Faults k p access (pgrounddown addr)) :
    Progresses (allocMmapPage sb device k p addr access) p access (pgrounddown addr) ↔
      Supplies device k p access (pgrounddown addr) := by
  have va_page := pgrounddown_page fits
  set va := pgrounddown addr with va_eq
  cases found : p.region va with
  | none =>
      have fails : allocMmapPage sb device k p addr access = .ok (-1, k) := by
        unfold allocMmapPage
        simp only [← va_eq, found]
      rw [fails, progresses_ok]
      refine ⟨fun _ region impossible => ?_, fun _ => Or.inl (by decide)⟩
      rw [found] at impossible
      cases impossible
  | some region =>
      rw [allocMmapPage_eq found, ← va_eq]
      by_cases refused : access = .store ∧ region.prot &&& protWrite = 0
      · rw [if_pos refused, progresses_ok]
        refine ⟨fun _ other same writes => ?_, fun _ => Or.inl (by decide)⟩
        rw [found] at same
        cases same
        exact absurd refused.2 (writes refused.1)
      · rw [if_neg refused]
        have writes : access = .store → region.prot &&& protWrite ≠ 0 := fun store none =>
          refused ⟨store, none⟩
        obtain ⟨mem, -, below⟩ := Proc.region_spec wf.regions found va_page
        have low : va < maxva := by
          have top := usertop_eq
          have bound : maxva = 2 ^ 38 := by decide
          have page : pgsize = 4096 := rfl
          omega
        have page : PageLoad device k p.pagetable va region.flags region.f
            (MmapRegion.offsetOf region va) (mappedFlags (getPerm region.prot region.flags))
            (mmapLoadPages sb device k p.pagetable va pgsize region.prot region.flags region.f
              (MmapRegion.offsetOf region va)) :=
          mmapLoadPages_page wf.mounted wf.sound (wf.backed region mem) va_page low
        have supplies_iff : Supplies device k p access va ↔
            ¬AtEnd k region.flags region.f (MmapRegion.offsetOf region va) ∧
              (k.pages ≠ [] ∧ Unread device k region.flags region.f
                (MmapRegion.offsetOf region va) ∨
                missingTables k.memory p.pagetable va < k.pages.length ∧
                  lookup k.memory p.pagetable va = none ∧ region.prot &&& protRead ≠ 0) := by
          constructor
          · exact fun supplies => supplies region found writes
          · intro served other same _
            rw [found] at same
            cases same
            exact served
        rw [supplies_iff]
        generalize mmapLoadPages sb device k p.pagetable va pgsize region.prot region.flags region.f
          (MmapRegion.offsetOf region va) = result at page
        cases page with
        | eof at_end k' memory =>
            have returns : (if ((0 : Int), k').1 < 0 then (-1 : Int) else 0) = 0 := rfl
            rw [Except.bind, returns, progresses_ok, memory]
            constructor
            · rintro (impossible | ⟨pa, flags, present, permits⟩)
              · exact absurd impossible (by decide)
              · exact absurd permits (faults pa flags present)
            · rintro ⟨before_end, -⟩
              exact absurd at_end before_end
        | unread before_end some_page unread code negative k' =>
            rw [Except.bind, progresses_ok, if_pos negative]
            exact ⟨fun _ => ⟨before_end, Or.inl ⟨some_page, unread⟩⟩, fun _ => Or.inl (by decide)⟩
        | exhausted short =>
            refine ⟨fun impossible => absurd impossible not_progresses_error, ?_⟩
            rintro ⟨-, ⟨some_page, unread⟩ | ⟨enough, -⟩⟩
            · rcases short with none | ⟨read, -⟩
              · exact absurd none some_page
              · exact absurd unread read
            · rcases short with none | ⟨-, few⟩
              · rw [none] at enough
                exact absurd enough (Nat.not_lt_zero _)
              · exact absurd enough (Nat.not_lt.mpr few)
        | remap read present =>
            refine ⟨fun impossible => absurd impossible not_progresses_error, ?_⟩
            rintro ⟨-, ⟨-, unread⟩ | ⟨-, absent, -⟩⟩
            · exact absurd unread read
            · exact absurd absent present
        | done before_end enough read absent k' pa present =>
            have returns : (if ((0 : Int), k').1 < 0 then (-1 : Int) else 0) = 0 := rfl
            rw [Except.bind, returns, progresses_ok, present]
            constructor
            · rintro (impossible | ⟨pa', flags, same, permits⟩)
              · exact absurd impossible (by decide)
              · cases same
                exact ⟨before_end, Or.inr ⟨enough, absent, (permits_mapped.mp permits).1⟩⟩
            · rintro ⟨-, ⟨-, unread⟩ | ⟨-, -, readable⟩⟩
              · exact absurd unread read
              · exact Or.inr ⟨pa, _, rfl, permits_mapped.mpr ⟨readable, writes⟩⟩

/-! ## `alloc_cow_page` -/

/-- What `alloc_cow_page` does about a page, by the flags of its entry. -/
inductive CowOutcome (k : Kernel) (root va : Nat) : Except Fault (Int × Kernel) → Prop
  /-- The page is left to `alloc_mmap_page`. -/
  | pass (plain : ∀ pa flags, lookup k.memory root va = some (pa, flags) →
      flags &&& pteU = 0 ∨ flags &&& pteW ≠ 0) :
      CowOutcome k root va (.ok (1, k))
  /-- The page is read only. -/
  | readOnly (pa flags : Nat) (present : lookup k.memory root va = some (pa, flags))
      (user : flags &&& pteU ≠ 0) (unwritable : flags &&& pteW = 0) (own : flags &&& pteCow = 0) :
      CowOutcome k root va (.ok (-1, k))
  /-- The frame has no counter. -/
  | failed (pa flags : Nat) (present : lookup k.memory root va = some (pa, flags))
      (user : flags &&& pteU ≠ 0) (unwritable : flags &&& pteW = 0) (cow : flags &&& pteCow ≠ 0)
      (uncounted : k.refcnt pa = 0) : CowOutcome k root va (.ok (-1, k))
  /-- `kalloc` has no page for the copy. -/
  | exhausted (pa flags : Nat) (present : lookup k.memory root va = some (pa, flags))
      (user : flags &&& pteU ≠ 0) (unwritable : flags &&& pteW = 0) (cow : flags &&& pteCow ≠ 0)
      (many : 1 < k.refcnt pa) (none : k.pages = []) : CowOutcome k root va (.error .outOfMemory)
  /-- The page can be written. -/
  | copied (pa flags : Nat) (present : lookup k.memory root va = some (pa, flags))
      (user : flags &&& pteU ≠ 0) (unwritable : flags &&& pteW = 0) (cow : flags &&& pteCow ≠ 0)
      (counted : k.refcnt pa ≠ 0) (enough : 1 < k.refcnt pa → k.pages ≠ []) (k' : Kernel)
      (pa' flags' : Nat) (after : lookup k'.memory root va = some (pa', flags'))
      (permits : Access.Permits .store flags' ↔ flags &&& pteR ≠ 0) :
      CowOutcome k root va (.ok (0, k'))

/-- `alloc_cow_page` ends in one of these ways. -/
theorem allocCowPage_outcome (sound : Sound k root tables) {a : Nat} (low : a < maxva) :
    CowOutcome k root (pgrounddown a) (allocCowPage k root a) := by
  have fits : a < 2 ^ 64 := low.trans (by decide)
  have va_page := pgrounddown_page fits
  have va_low := pgrounddown_low low
  have outcome := allocCowPage_cases sound low
  generalize allocCowPage k root a = result at outcome
  cases outcome with
  | pass plain => exact CowOutcome.pass plain
  | readOnly pa flags present user unwritable own =>
      exact CowOutcome.readOnly pa flags present user unwritable own
  | failed pa flags present user unwritable cow uncounted =>
      exact CowOutcome.failed pa flags present user unwritable cow uncounted
  | exhausted pa flags present user unwritable cow many none =>
      exact CowOutcome.exhausted pa flags present user unwritable cow many none
  | copied pa flags present user unwritable cow many mem rest taken memory repaged =>
      have counted : k.refcnt pa ≠ 0 := by
        intro none
        rw [none] at many
        exact absurd many (by decide)
      refine CowOutcome.copied pa flags present user unwritable cow counted (fun _ => ?_) _ mem _
        (repaged.at_page va_page va_low) (permits_copy user)
      rw [taken]
      exact List.cons_ne_nil mem rest
  | inPlace pa flags present user unwritable cow single memory repaged =>
      have counted : k.refcnt pa ≠ 0 := by
        rw [single]
        decide
      have few : ¬1 < k.refcnt pa := by
        rw [single]
        decide
      exact CowOutcome.copied pa flags present user unwritable cow counted
        (fun many => absurd many few) _ pa _ (repaged.at_page va_page va_low) (permits_inPlace user)

/-! ## `usertrap` -/

/-- A store fault at the page `va` ends well: the process is killed because the page is read only or
its frame has no counter, or the page can be read once it is writable, or the fault is one that
`alloc_mmap_page` can serve. -/
def StoreSupplies (device : OpenFile → Nat → Int) (k : Kernel) (p : Proc) (va : Nat) : Prop :=
  match lookup k.memory p.pagetable va with
  | none => Supplies device k p .store va
  | some (pa, flags) =>
      if flags &&& pteU = 0 ∨ flags &&& pteW ≠ 0 then Supplies device k p .store va
      else if flags &&& pteCow = 0 then True
      else k.refcnt pa = 0 ∨ flags &&& pteR ≠ 0 ∧ (1 < k.refcnt pa → k.pages ≠ [])

/-- The condition under which `usertrap` ends well. -/
def TrapSupplies (device : OpenFile → Nat → Int) (k : Kernel) (p : Proc) : Access → Nat → Prop
  | .load, stval => Supplies device k p .load (pgrounddown stval)
  | .store, stval => maxva ≤ stval ∨ StoreSupplies device k p (pgrounddown stval)

theorem serves_store_iff (wf : WellFormed sb k p tables) {stval : Nat} (fits : stval < 2 ^ 64)
    (faults : Faults k p .store (pgrounddown stval)) :
    Serves (do
      let (ret, k) ← allocMmapPage sb device k p stval .store
      return (decide (ret < 0), k)) p .store (pgrounddown stval) ↔
      Supplies device k p .store (pgrounddown stval) := by
  rw [serves_iff]
  exact allocMmapPage_iff wf fits faults

/-- A page fault kills the process or lets the instruction go on, and never panics, exactly under
this condition. -/
theorem usertrap_progresses_iff (wf : WellFormed sb k p tables) {stval : Nat}
    (fits : stval < 2 ^ 64) (faults : Faults k p access (pgrounddown stval)) :
    Serves (usertrap sb device k p access stval) p access (pgrounddown stval) ↔
      TrapSupplies device k p access stval := by
  cases access with
  | load =>
      unfold usertrap TrapSupplies
      rw [serves_iff]
      exact allocMmapPage_iff wf fits faults
  | store =>
      have mapped : Serves (do
          let (ret, k) ← allocMmapPage sb device k p stval .store
          return (decide (ret < 0), k)) p .store (pgrounddown stval) ↔
            Supplies device k p .store (pgrounddown stval) := serves_store_iff wf fits faults
      unfold usertrap TrapSupplies
      dsimp only
      by_cases high : maxva ≤ stval
      · refine ⟨fun _ => Or.inl high, fun _ => ⟨true, k, ?_, Or.inl rfl⟩⟩
        simp only [allocCowPage, if_pos high, Except.ok_bind]
        rfl
      · have outcome := allocCowPage_outcome wf.sound (Nat.lt_of_not_le high)
        rw [or_iff_right high, StoreSupplies]
        generalize allocCowPage k p.pagetable stval = result at outcome
        cases outcome with
        | pass plain =>
            simp only [Except.ok_bind, show ¬((1 : Int) < 0) by decide, if_false, if_true]
            rw [mapped]
            cases present : lookup k.memory p.pagetable (pgrounddown stval) with
            | none => exact Iff.rfl
            | some entry =>
                obtain ⟨pa, flags⟩ := entry
                dsimp only
                rw [if_pos (plain pa flags present)]
        | readOnly pa flags present user unwritable own =>
            rw [present]
            dsimp only
            rw [if_neg (not_or.mpr ⟨user, not_not.mpr unwritable⟩), if_pos own]
            exact ⟨fun _ => trivial, fun _ => ⟨true, k, rfl, Or.inl rfl⟩⟩
        | failed pa flags present user unwritable cow uncounted =>
            rw [present]
            dsimp only
            rw [if_neg (not_or.mpr ⟨user, not_not.mpr unwritable⟩), if_neg cow]
            exact ⟨fun _ => Or.inl uncounted, fun _ => ⟨true, k, rfl, Or.inl rfl⟩⟩
        | exhausted pa flags present user unwritable cow many none =>
            rw [present]
            dsimp only
            rw [if_neg (not_or.mpr ⟨user, not_not.mpr unwritable⟩), if_neg cow]
            constructor
            · rintro ⟨killed, after, impossible, -⟩
              cases impossible
            · rintro (uncounted | ⟨-, enough⟩)
              · rw [uncounted] at many
                exact absurd many (by decide)
              · exact absurd none (enough many)
        | copied pa flags present user unwritable cow counted enough k' pa' flags' after permits =>
            rw [present]
            dsimp only
            rw [if_neg (not_or.mpr ⟨user, not_not.mpr unwritable⟩), if_neg cow]
            constructor
            · rintro ⟨killed, after', returns, ends⟩
              cases returns
              rcases ends with impossible | ⟨pa₂, flags₂, found, allowed⟩
              · cases impossible
              · rw [after] at found
                cases found
                exact Or.inr ⟨permits.mp allowed, enough⟩
            · rintro (uncounted | ⟨readable, -⟩)
              · exact absurd uncounted counted
              · exact ⟨false, k', rfl, Or.inr ⟨pa', flags', after, permits.mpr readable⟩⟩

/-- A process with a page of memory that may not be accessed. -/
def noAccess : Proc :=
  ⟨0x80000000, [⟨⟨mmapbase, pgsize, mapPrivate ||| mapAnonymous⟩, 0, none, protNone⟩], 0⟩

/-- The kernel after `mmap` has loaded that page. -/
def loadNoAccess : Except Fault (Int × Kernel) :=
  mapAnonPages (blank [0x80001000, 0x80002000, 0x80003000, 0x80004000] Fs.Volume.fresh
    ⟨.none, none, 0, false, false⟩) noAccess.pagetable mmapbase pgsize
    (getPerm protNone (mapPrivate ||| mapAnonymous))

theorem exists_noAccess : ∃ k tables, loadNoAccess = .ok (0, k) ∧
    WellFormed Fs.mkfsSuper k noAccess tables ∧
    (∀ access, Faults k noAccess access (pgrounddown mmapbase)) ∧
    ∃ pa, lookup k.memory noAccess.pagetable (pgrounddown mmapbase) =
      some (pa, mappedFlags (getPerm protNone (mapPrivate ||| mapAnonymous))) := by
  have mounted : Mounted Fs.mkfsSuper Fs.Volume.fresh :=
    ⟨Fs.Volume.fresh_wellFormed, Fs.idle_binit _⟩
  obtain ⟨sound, -⟩ : Sound (blank [0x80001000, 0x80002000, 0x80003000, 0x80004000]
      Fs.Volume.fresh ⟨.none, none, 0, false, false⟩) 0x80000000 [0x80000000] ∧ _ :=
    blank_sound (by decide)
  have succeeds : loadNoAccess.toOption.any (fun result => decide (result.1 = 0)) = true := by
    decide +kernel
  have outcome : AnonOutcome Fs.mkfsSuper _ 0x80000000 mmapbase pgsize
      (mappedFlags (getPerm protNone (mapPrivate ||| mapAnonymous))) loadNoAccess :=
    mapAnonPages_outcome mounted sound (getPerm_isFlags protNone (mapPrivate ||| mapAnonymous))
      (by decide) (by decide)
  generalize loadNoAccess = result at outcome succeeds
  cases outcome with
  | exhausted => cases succeeds
  | remap => cases succeeds
  | done k tables loaded files =>
      obtain ⟨page, first, -⟩ := loaded.mapped 0 (by decide)
      rw [Nat.zero_mul, Nat.add_zero] at first
      have same : pgrounddown mmapbase = mmapbase := by decide
      refine ⟨k, tables, rfl, ⟨loaded.loads.volume.mounted, loaded.sound, ?_, ?_⟩, ?_, page, ?_⟩
      · exact ⟨List.pairwise_singleton _ _, by decide, by decide, by decide, by decide⟩
      · intro region mem file
        have anonymous : region.flags &&& mapAnonymous ≠ 0 := by
          rw [List.mem_singleton.mp mem]
          decide
        exact absurd file anonymous
      · intro access pa flags mapped permits
        rw [same] at mapped
        cases first.symm.trans mapped
        exact (permits_mapped.mp permits).1 rfl
      · rw [same]
        exact first

/-- To read such a page makes the kernel panic. -/
theorem usertrap_load_panics : ∃ k tables, WellFormed Fs.mkfsSuper k noAccess tables ∧
    Faults k noAccess .load (pgrounddown mmapbase) ∧
    usertrap Fs.mkfsSuper (fun _ _ => 0) k noAccess .load mmapbase = .error .mappagesRemap ∧
    ¬Serves (usertrap Fs.mkfsSuper (fun _ _ => 0) k noAccess .load mmapbase) noAccess .load
      (pgrounddown mmapbase) := by
  obtain ⟨k, tables, loads, wf, faults, -⟩ := exists_noAccess
  have panics : usertrap Fs.mkfsSuper (fun _ _ => 0) k noAccess .load mmapbase =
      .error .mappagesRemap := by
    have run : (match (do
        let (_, k) ← loadNoAccess
        usertrap Fs.mkfsSuper (fun _ _ => 0) k noAccess .load mmapbase) with
          | .error .mappagesRemap => true
          | _ => false) = true := by
      decide +kernel
    rw [loads, Except.ok_bind] at run
    split at run
    · next same => exact same
    · cases run
  refine ⟨k, tables, wf, faults .load, panics, ?_⟩
  rw [panics]
  rintro ⟨killed, after, impossible, -⟩
  cases impossible

/-- To write to it kills the process. -/
theorem usertrap_store_kills : ∃ k tables, WellFormed Fs.mkfsSuper k noAccess tables ∧
    Serves (usertrap Fs.mkfsSuper (fun _ _ => 0) k noAccess .store mmapbase) noAccess .store
      (pgrounddown mmapbase) := by
  obtain ⟨k, tables, -, wf, faults, pa, mapped⟩ := exists_noAccess
  refine ⟨k, tables, wf, (usertrap_progresses_iff wf (by decide) (faults .store)).mpr (Or.inr ?_)⟩
  rw [StoreSupplies, mapped]
  dsimp only
  rw [if_neg (by decide), if_pos (by decide)]
  trivial

end Mapping
end Xv6Duo
