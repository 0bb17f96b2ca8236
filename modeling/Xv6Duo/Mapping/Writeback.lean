import Xv6Duo.Fs.Report
import Xv6Duo.Mapping.Position

/-!
# Writing mapped pages back

`munmap` and `msync` hand the dirty pages of a range to `writeback`, which asks `writei` for the
part of a page that lies inside the file. `writei` takes the offset with 32 bits, so that a page
whose position is too large for them overwrites the file from another position on.
-/

namespace Xv6Duo
namespace Mapping

open Vm Mmap Fs.Volume Except

variable {sb : Fs.Superblock} {k k' l : Kernel} {p p' : Proc} {region : MmapRegion}
  {f : Mmap.File} {inum : UInt32} {root addr length off : Nat} {code : Int}

/-! ## Patches of a file -/

/-- Bytes of a file are replaced; besides them only times and the cache change. -/
structure Patched (sb : Fs.Superblock) (k k' : Kernel) (inum : UInt32)
    (patch : Nat → Option UInt8) : Prop where
  /-- Page tables are as before. -/
  memory : k'.memory = k.memory
  /-- The rest of memory is as before. -/
  bytes : k'.bytes = k.bytes
  /-- Open files are as before. -/
  files : k'.files = k.files
  /-- The files can be used. -/
  mounted : Mounted sb k'.volume
  /-- The same inodes are allocated. -/
  live : ∀ j, k'.volume.Live sb j ↔ k.volume.Live sb j
  /-- Sizes are as before. -/
  size : ∀ j, (k'.volume.inodes j).size = (k.volume.inodes j).size
  /-- The bytes of the file. -/
  content : ∀ o < (k.volume.inodes inum).size.toNat,
    fileByte sb k'.volume inum o = (patch o).getD (fileByte sb k.volume inum o)
  /-- Other files keep their bytes. -/
  others : ∀ j, j ≠ inum → k.volume.Live sb j → k'.volume.content sb j = k.volume.content sb j

theorem Patched.refl (mounted : Mounted sb k.volume) : Patched sb k k inum fun _ => none :=
  ⟨rfl, rfl, rfl, mounted, fun _ => Iff.rfl, fun _ => rfl, fun _ _ => rfl, fun _ _ _ => rfl⟩

theorem Patched.trans {first second : Nat → Option UInt8} (left : Patched sb k l inum first)
    (right : Patched sb l k' inum second) :
    Patched sb k k' inum fun o => (second o).or (first o) where
  memory := right.memory.trans left.memory
  bytes := right.bytes.trans left.bytes
  files := right.files.trans left.files
  mounted := right.mounted
  live j := (right.live j).trans (left.live j)
  size j := (right.size j).trans (left.size j)
  content o below := by
    rw [right.content o (by rwa [left.size]), left.content o below]
    cases second o <;> rfl
  others j other live := by
    rw [right.others j other ((left.live j).mpr live), left.others j other live]

/-- Only the bytes inside the file matter. -/
theorem Patched.congr {first second : Nat → Option UInt8} (patched : Patched sb k k' inum first)
    (same : ∀ o < (k.volume.inodes inum).size.toNat, second o = first o) :
    Patched sb k k' inum second :=
  { patched with
    content := fun o below => by rw [patched.content o below, same o below] }

theorem Patched.regular {g : Nat} {patch : Nat → Option UInt8}
    (patched : Patched sb k k' inum patch) (regular : Regular sb k g inum) :
    Regular sb k' g inum where
  type := by rw [patched.files, regular.type]
  ip := by rw [patched.files, regular.ip]
  live := (patched.live inum).mpr regular.live

theorem Patched.user {patch : Nat → Option UInt8} (patched : Patched sb k k' inum patch)
    (root : Nat) : k'.user root = k.user root := by
  rw [Kernel.user, Kernel.user, patched.memory, patched.bytes]

/-! ## `writeback` -/

/-- The number of bytes that `writeback` asks for. -/
def backLength (size off : Nat) : UInt32 :=
  if size < (off + pgsize) % 2 ^ 64 then UInt32.ofNat (size + 2 ^ 64 - off) else UInt32.ofNat pgsize

theorem backLength_toNat {size : Nat} (size_lt : size < 2 ^ 32) (fits : off + pgsize < 2 ^ 64)
    (inside : off % 2 ^ 32 ≤ size) :
    (backLength size off).toNat = if off < 2 ^ 32 then min pgsize (size - off)
      else size - off % 2 ^ 32 := by
  rw [backLength, Nat.mod_eq_of_lt fits]
  rw [show pgsize = 4096 from rfl] at fits ⊢
  split <;> split <;> simp only [UInt32.toNat_ofNat'] <;> omega

theorem back_inside {size : Nat} (size_lt : size < 2 ^ 32) (fits : off + pgsize < 2 ^ 64)
    (inside : off % 2 ^ 32 ≤ size) : off % 2 ^ 32 + (backLength size off).toNat ≤ size := by
  rw [backLength_toNat size_lt fits inside]
  split <;> omega

/-- The kernel after the times have been set. -/
def Kernel.stamped (k : Kernel) (inum : UInt32) (ip : Fs.Inode) (state : Fs.State) : Kernel :=
  { k with
    volume := ⟨state, Function.update k.volume.inodes inum
      { ip with mtime := k.clock 0, atime := k.clock 0 }⟩
    clock := fun i => k.clock (i + 1) }

theorem writeback_eq (regular : Regular sb k f.address inum)
    (writable : (k.files f.address).writable = true) {r : Int} {ip : Fs.Inode} {t : Fs.State}
    (run : Fs.writei sb k.volume.state (k.volume.inodes inum) true (k.user root) addr
      (UInt32.ofNat off) (backLength (k.volume.inodes inum).size.toNat off) = .ok (r, ip, t)) :
    writeback sb k root (some f) off addr =
      .ok (if UInt32.ofInt r = backLength (k.volume.inodes inum).size.toNat off then r else -1,
        k.stamped inum ip t) := by
  have written : ¬((k.files f.address).writable = false ∨ (k.files f.address).type ≠ .inode) := by
    simp [writable, regular.type]
  unfold writeback
  dsimp only
  rw [if_neg written]
  unfold backLength at run ⊢
  simp only [regular.ip, deref, Except.ok_bind, run, Except.pure_eq_ok]
  rfl

/-- Setting the times keeps a patch of the volume. -/
theorem stamped_patched {ip : Fs.Inode} {t : Fs.State} {patch : Nat → Option UInt8} {w : Fs.Volume}
    (volume : w = ⟨t, Function.update k.volume.inodes inum ip⟩) (mounted : Mounted sb w)
    (live : ∀ j, w.Live sb j ↔ k.volume.Live sb j)
    (size : ∀ j, (w.inodes j).size = (k.volume.inodes j).size)
    (content : ∀ o < (k.volume.inodes inum).size.toNat,
      fileByte sb w inum o = (patch o).getD (fileByte sb k.volume inum o))
    (others : ∀ j, j ≠ inum → k.volume.Live sb j → w.content sb j = k.volume.content sb j) :
    Patched sb k (k.stamped inum ip t) inum patch := by
  have inode_eq : w.inodes inum = ip := by
    rw [volume]
    exact Function.update_self ..
  have timed : Vfs.Append.Retimed sb w ⟨w.state, Function.update w.inodes inum
      { w.inodes inum with mtime := k.clock 0, atime := k.clock 0 }⟩ := Vfs.Append.retimed rfl
  have twice : (⟨w.state, Function.update w.inodes inum
      { w.inodes inum with mtime := k.clock 0, atime := k.clock 0 }⟩ : Fs.Volume) =
        (k.stamped inum ip t).volume := by
    rw [inode_eq, volume, Kernel.stamped]
    dsimp only
    rw [Function.update_idem]
  rw [twice] at timed
  refine ⟨rfl, rfl, rfl, ⟨timed.wellFormed mounted.wellFormed, ?_⟩, ?_, ?_, ?_, ?_⟩
  · rw [timed.state]
    exact mounted.idle
  · exact fun j => (timed.live j).trans (live j)
  · exact fun j => (timed.size j).trans (size j)
  · intro o below
    rw [← content o below, fileByte, fileByte, timed.content]
  · intro j other live_j
    rw [timed.content, others j other live_j]

/-- Behind the end of the file `writeback` fails. -/
theorem writeback_refused (mounted : Mounted sb k.volume) (regular : Regular sb k f.address inum)
    (writable : (k.files f.address).writable = true)
    (beyond : (k.volume.inodes inum).size.toNat < off % 2 ^ 32) :
    ∃ k', writeback sb k root (some f) off addr = .ok (-1, k') ∧
      Patched sb k k' inum fun _ => none := by
  have off_eq : (UInt32.ofNat off).toNat = off % 2 ^ 32 := UInt32.toNat_ofNat'
  have refuses : Fs.writei sb k.volume.state (k.volume.inodes inum) true (k.user root) addr
      (UInt32.ofNat off) (backLength (k.volume.inodes inum).size.toNat off) =
        .ok (-1, k.volume.inodes inum, k.volume.state) := by
    rw [Fs.writei, if_pos (Or.inl ?_)]
    rw [gt_iff_lt, UInt32.lt_iff_toNat_lt, off_eq]
    exact beyond
  have same : k.volume = ⟨k.volume.state,
      Function.update k.volume.inodes inum (k.volume.inodes inum)⟩ := by
    rw [Function.update_eq_self]
  refine ⟨k.stamped inum (k.volume.inodes inum) k.volume.state, ?_, stamped_patched same mounted
    (fun _ => Iff.rfl) (fun _ => rfl) (fun _ _ => rfl) fun _ _ _ => rfl⟩
  rw [writeback_eq regular writable refuses, ite_self]

theorem ofInt_asInt (value : UInt32) : UInt32.ofInt (Fs.asInt value) = value := by
  rw [Fs.asInt]
  split
  · rw [ofInt_natCast]
    exact UInt32.ofNat_toNat
  · rw [← UInt32.toNat_inj, UInt32.ofInt]
    have bound := value.toNat_lt
    simp only [UInt32.toNat_ofNat']
    omega

/-- The bytes that `writeback` puts into the file. -/
def backPatch (k : Kernel) (root start addr n : Nat) (o : Nat) : Option UInt8 :=
  if start ≤ o ∧ o < start + n then some ((k.user root).bytes (addr + (o - start))) else none

/-- Inside the file `writeback` copies the memory, if it can be read. -/
theorem writeback_copies (mounted : Mounted sb k.volume) (regular : Regular sb k f.address inum)
    (writable : (k.files f.address).writable = true) (fits : off + pgsize < 2 ^ 64)
    (inside : off % 2 ^ 32 ≤ (k.volume.inodes inum).size.toNat)
    (readable : Fs.PagesIn (k.user root).readable addr
      (backLength (k.volume.inodes inum).size.toNat off).toNat) :
    ∃ k', writeback sb k root (some f) off addr =
        .ok (Fs.asInt (backLength (k.volume.inodes inum).size.toNat off), k') ∧
      Patched sb k k' inum (backPatch k root (off % 2 ^ 32) addr
        (backLength (k.volume.inodes inum).size.toNat off).toNat) := by
  have off_eq : (UInt32.ofNat off).toNat = off % 2 ^ 32 := UInt32.toNat_ofNat'
  have size_lt := (k.volume.inodes inum).size.toNat_lt
  have within := back_inside size_lt fits inside
  set n := backLength (k.volume.inodes inum).size.toNat off with n_eq
  obtain ⟨ip, t, run, done⟩ : ∃ ip t, Fs.writei sb k.volume.state (k.volume.inodes inum) true
      (k.user root) addr (UInt32.ofNat off) n = .ok (Fs.asInt n, ip, t) ∧
        Overwritten sb k.volume ⟨t, Function.update k.volume.inodes inum ip⟩ inum
          (UInt32.ofNat off).toNat ((k.user root).range addr n.toNat) :=
    writei_spec mounted.wellFormed mounted.idle regular.live (by omega) (by omega)
      (fun _ => readable) (room_inside mounted.wellFormed regular.live (by omega))
  rw [off_eq] at done
  have size : ∀ j, ((⟨t, Function.update k.volume.inodes inum ip⟩ : Fs.Volume).inodes j).size =
      (k.volume.inodes j).size := by
    intro j
    by_cases other : j = inum
    · have grows := done.size
      rw [Fs.Memory.range, List.length_map, List.length_range] at grows
      rw [other, ← UInt32.toNat_inj]
      omega
    · rw [done.others j other]
  refine ⟨_, ?_, stamped_patched rfl ⟨done.wellFormed, done.idle⟩ done.live size ?_
    done.content_other⟩
  · rw [writeback_eq regular writable run, ofInt_asInt, if_pos rfl]
  · intro o below
    have below' := below
    rw [← size inum] at below'
    rw [fileByte_inside below', fileByte_inside below, done.byte_eq inside below', backPatch]
    split <;> rfl

/-- A range that cannot be read makes `writeback` fail. -/
theorem writeback_fails (mounted : Mounted sb k.volume) (regular : Regular sb k f.address inum)
    (writable : (k.files f.address).writable = true) (fits : off + pgsize < 2 ^ 64)
    (inside : off % 2 ^ 32 ≤ (k.volume.inodes inum).size.toNat)
    (unreadable : ¬Fs.PagesIn (k.user root).readable addr
      (backLength (k.volume.inodes inum).size.toNat off).toNat) :
    ∃ k', writeback sb k root (some f) off addr = .ok (-1, k') := by
  have off_eq : (UInt32.ofNat off).toNat = off % 2 ^ 32 := UInt32.toNat_ofNat'
  have size_lt := (k.volume.inodes inum).size.toNat_lt
  have within := back_inside size_lt fits inside
  set n := backLength (k.volume.inodes inum).size.toNat off with n_eq
  obtain ⟨tot, ip, t, c, run, ended⟩ : ∃ tot ip t c, Fs.writei sb k.volume.state
      (k.volume.inodes inum) true (k.user root) addr (UInt32.ofNat off) n =
        .ok (Fs.asInt tot, ip, t) ∧
      Ended sb k.volume ⟨t, Function.update k.volume.inodes inum ip⟩ inum true (k.user root) addr
        (UInt32.ofNat off).toNat n.toNat tot.toNat c :=
    writei_ends mounted.wellFormed mounted.idle regular.live true (k.user root) addr (by omega)
      (by omega)
  have stops : tot ≠ n := by
    intro same
    have whole := ended.readable rfl
    rw [same] at whole
    exact unreadable whole
  have returns : writeback sb k root (some f) off addr =
      .ok (if UInt32.ofInt (Fs.asInt tot) = n then Fs.asInt tot else -1, k.stamped inum ip t) :=
    writeback_eq regular writable run
  rw [ofInt_asInt, if_neg stops] at returns
  exact ⟨_, returns⟩

theorem writeback_succeeds (mounted : Mounted sb k.volume) (regular : Regular sb k f.address inum)
    (writable : (k.files f.address).writable = true) (fits : off + pgsize < 2 ^ 64)
    (run : writeback sb k root (some f) off addr = .ok (code, k')) (success : 0 ≤ code) :
    off % 2 ^ 32 ≤ (k.volume.inodes inum).size.toNat ∧
      Fs.PagesIn (k.user root).readable addr
        (backLength (k.volume.inodes inum).size.toNat off).toNat ∧
      Patched sb k k' inum (backPatch k root (off % 2 ^ 32) addr
        (backLength (k.volume.inodes inum).size.toNat off).toNat) := by
  by_cases inside : off % 2 ^ 32 ≤ (k.volume.inodes inum).size.toNat
  · by_cases readable : Fs.PagesIn (k.user root).readable addr
        (backLength (k.volume.inodes inum).size.toNat off).toNat
    · obtain ⟨l, copies, patched⟩ := writeback_copies mounted regular writable fits inside readable
      obtain ⟨-, rfl⟩ := Prod.mk.inj (Except.ok.inj (run.symm.trans copies))
      exact ⟨inside, readable, patched⟩
    · obtain ⟨l, fails⟩ := writeback_fails mounted regular writable fits inside readable
      cases run.symm.trans fails
      exact absurd success (by decide)
  · obtain ⟨l, refuses, -⟩ : ∃ l, writeback sb k root (some f) off addr = .ok (-1, l) ∧
        Patched sb k l inum fun _ => none :=
      writeback_refused mounted regular writable (Nat.lt_of_not_le inside)
    cases run.symm.trans refuses
    exact absurd success (by decide)

/-! ## The loop -/

/-- The entry that `walk` finds has `PTE_D`. -/
def isDirty (memory : Vm.Memory) (pagetable va : Nat) : Bool :=
  match (walkLevels va false 2 memory pagetable []).1 with
  | none => false
  | some (table, i) => pteFlags (memory table i) &&& pteD ≠ 0

/-- The part of a round that writes a page back. -/
def writePage (sb : Fs.Superblock) (k : Kernel) (p : Proc) (region : MmapRegion) (offset ra : Nat) :
    Except Fault (Int × Kernel) :=
  if isDirty k.memory p.pagetable ra then writeback sb k p.pagetable region.f offset ra
  else .ok (0, k)

/-- A round of the loop. -/
theorem writebackLoop_round {finish fuel ra : Nat} (below : ra < finish)
    (run : writebackLoop sb p region finish (fuel + 1) k ra = .ok (code, k')) :
    ∃ ret l, writePage sb k p region ((region.offset + ra + 2 ^ 64 - region.addr) % 2 ^ 64) ra =
        .ok (ret, l) ∧
      ((ret < 0 ∧ code = -eacces ∧ k' = l) ∨
        0 ≤ ret ∧ ∃ f inum, region.f = some f ∧ (l.files f.address).ip = some inum ∧
          if (l.volume.inodes inum).size.toNat ≤
              ((region.offset + ra + 2 ^ 64 - region.addr) % 2 ^ 64 + pgsize) % 2 ^ 64 then
            code = 0 ∧ k' = l
          else writebackLoop sb p region finish fuel l ((ra + pgsize) % 2 ^ 64) =
            .ok (code, k')) := by
  rw [writebackLoop_succ, if_pos below] at run
  obtain ⟨⟨pte, memory, pages⟩, walks, rest⟩ := bind_eq_ok.mp run
  unfold walk at walks
  split at walks
  · cases walks
  · have found := congrArg (fun result : Option (Nat × Fin 512) × Vm.Memory × List Nat => result.1)
      (Except.ok.inj walks)
    dsimp only at found rest
    subst found
    split at rest
    · cases rest
    · next table i found =>
        obtain ⟨⟨ret, l⟩, writes, rest⟩ := bind_eq_ok.mp rest
        have page : writePage sb k p region
            ((region.offset + ra + 2 ^ 64 - region.addr) % 2 ^ 64) ra = .ok (ret, l) := by
          rw [← writes, writePage, writeDirty, isDirty, found]
          simp
        refine ⟨ret, l, page, ?_⟩
        dsimp only at rest
        split at rest
        · next negative =>
            cases rest
            exact Or.inl ⟨negative, rfl, rfl⟩
        · next success =>
            obtain ⟨f, is_file, rest⟩ := bind_eq_ok.mp rest
            obtain ⟨inum, is_inode, rest⟩ := bind_eq_ok.mp rest
            refine Or.inr ⟨by omega, f, inum, deref_eq_ok.mp is_file, deref_eq_ok.mp is_inode, ?_⟩
            split at rest
            · next at_end =>
                cases rest
                rw [if_pos at_end]
                exact ⟨rfl, rfl⟩
            · next inside =>
                rw [if_neg inside]
                exact rest

/-! ## Ranges of a region -/

/-- The position in the file of an address of a region. -/
def position (region : MmapRegion) (a : Nat) : Nat := region.offset + (a - region.addr)

/-- A shared mapping of a regular file. -/
structure Shares (sb : Fs.Superblock) (k : Kernel) (region : MmapRegion) (f : Mmap.File)
    (inum : UInt32) : Prop where
  /-- Not anonymous. -/
  backed : region.flags &&& mapAnonymous = 0
  /-- `MAP_SHARED`. -/
  shared : region.flags &&& mapShared ≠ 0
  /-- `PROT_WRITE`. -/
  write : region.prot &&& protWrite ≠ 0
  /-- The file. -/
  file : region.f = some f
  /-- It is a regular file. -/
  regular : Regular sb k f.address inum
  /-- It is open for writing. -/
  writable : (k.files f.address).writable = true
  /-- The region lies below the stack. -/
  low : region.addr + region.length ≤ usertop
  /-- Its positions are values of `off_t`. -/
  positions : region.offset + region.length < 2 ^ 63

theorem Shares.patched {patch : Nat → Option UInt8} (shares : Shares sb k region f inum)
    (patched : Patched sb k l inum patch) : Shares sb l region f inum :=
  { shares with
    regular := patched.regular shares.regular
    writable := by rw [patched.files, shares.writable] }

/-- Whole pages of a region. -/
structure PagesOf (region : MmapRegion) (addr length : Nat) : Prop where
  /-- The range starts with a page. -/
  addr_page : pgsize ∣ addr
  /-- It ends with a page. -/
  length_page : pgsize ∣ length
  /-- It starts inside the region. -/
  lower : region.addr ≤ addr
  /-- It ends inside the region. -/
  upper : addr + length ≤ region.addr + region.length

theorem PagesOf.tail (pages : PagesOf region addr length) (some_page : 0 < length) :
    PagesOf region (addr + pgsize) (length - pgsize) := by
  obtain ⟨addr_page, length_page, lower, upper⟩ := pages
  have long := Nat.le_of_dvd some_page length_page
  exact ⟨Nat.dvd_add addr_page dvd_rfl, Nat.dvd_sub length_page dvd_rfl, by omega, by omega⟩

/-- The offset of the code is the position. -/
theorem Shares.offset_eq (shares : Shares sb k region f inum) (pages : PagesOf region addr length)
    (some_page : 0 < length) :
    (region.offset + addr + 2 ^ 64 - region.addr) % 2 ^ 64 = position region addr := by
  have low := shares.low
  have positions := shares.positions
  have lower := pages.lower
  have upper := pages.upper
  rw [position]
  omega

theorem Shares.position_lt (shares : Shares sb k region f inum) (pages : PagesOf region addr length)
    (some_page : 0 < length) : position region addr + pgsize < 2 ^ 64 := by
  have positions := shares.positions
  have lower := pages.lower
  have upper := pages.upper
  rw [position, show pgsize = 4096 from rfl]
  omega

/-- A page is written back if it is dirty. -/
def pagePatch (k : Kernel) (root start addr n o : Nat) : Option UInt8 :=
  if isDirty k.memory root addr then backPatch k root start addr n o else none

/-- What a round that does not fail leaves of a page. -/
theorem writePage_succeeds (mounted : Mounted sb k.volume) (shares : Shares sb k region f inum)
    (pages : PagesOf region addr length) (some_page : 0 < length) {ret : Int}
    (run : writePage sb k p region (position region addr) addr = .ok (ret, l)) (success : 0 ≤ ret) :
    (isDirty k.memory p.pagetable addr = true →
      position region addr % 2 ^ 32 ≤ (k.volume.inodes inum).size.toNat ∧
        Fs.PagesIn (k.user p.pagetable).readable addr
          (backLength (k.volume.inodes inum).size.toNat (position region addr)).toNat) ∧
    Patched sb k l inum (pagePatch k p.pagetable (position region addr % 2 ^ 32) addr
      (backLength (k.volume.inodes inum).size.toNat (position region addr)).toNat) := by
  unfold writePage at run
  unfold pagePatch
  split at run
  · next dirty =>
      simp only [dirty, if_true]
      rw [shares.file] at run
      obtain ⟨inside, readable, patched⟩ :=
        writeback_succeeds mounted shares.regular shares.writable
        (shares.position_lt pages some_page) run success
      exact ⟨fun _ => ⟨inside, readable⟩, patched⟩
  · next clean =>
      cases run
      simp only [clean]
      exact ⟨fun dirty => absurd dirty (by simp), Patched.refl mounted⟩

/-- The bytes that a range puts into the file while its positions fit into 32 bits. -/
def rangePatch (k : Kernel) (root start addr length o : Nat) : Option UInt8 :=
  if start ≤ o ∧ o < start + length ∧
      isDirty k.memory root ((addr + (o - start)) / pgsize * pgsize) then
    some ((k.user root).bytes (addr + (o - start)))
  else none

theorem rangePatch_zero (start o : Nat) : rangePatch k root start addr 0 o = none :=
  if_neg (by omega)

/-- The first page and the others. -/
theorem rangePatch_cons {start size o : Nat} (addr_page : pgsize ∣ addr)
    (length_page : pgsize ∣ length) (some_page : 0 < length) (below : o < size) :
    rangePatch k root start addr length o =
      (rangePatch k root (start + pgsize) (addr + pgsize) (length - pgsize) o).or
        (pagePatch k root start addr (min pgsize (size - start)) o) := by
  have long := Nat.le_of_dvd some_page length_page
  unfold rangePatch pagePatch backPatch
  rw [show pgsize = 4096 from rfl] at *
  by_cases before : o < start
  · rw [if_neg (show ¬(start ≤ o ∧ _) by omega), if_neg (show ¬(start + 4096 ≤ o ∧ _) by omega),
      if_neg (show ¬(start ≤ o ∧ o < start + min 4096 (size - start)) by omega), ite_self]
    rfl
  · by_cases first : o < start + 4096
    · have page : (addr + (o - start)) / 4096 * 4096 = addr := by omega
      rw [page, if_neg (show ¬(start + 4096 ≤ o ∧ _) by omega), Option.none_or,
        if_pos (show start ≤ o ∧ o < start + min 4096 (size - start) by omega)]
      by_cases dirty : isDirty k.memory root addr = true
      · rw [if_pos ⟨by omega, by omega, dirty⟩, if_pos dirty]
      · rw [if_neg fun both => dirty both.2.2, if_neg dirty]
    · have shift : addr + 4096 + (o - (start + 4096)) = addr + (o - start) := by omega
      have behind : ¬(start ≤ o ∧ o < start + min 4096 (size - start)) := by omega
      rw [shift, if_neg behind, ite_self, Option.or_none]
      apply if_congr _ rfl rfl
      constructor
      · rintro ⟨-, upper, dirty⟩
        exact ⟨by omega, by omega, dirty⟩
      · rintro ⟨-, upper, dirty⟩
        exact ⟨by omega, by omega, dirty⟩

/-- The dirty pages of a range can be read as far as they lie inside the file. -/
def DirtyReadable (k : Kernel) (root size start addr length : Nat) : Prop :=
  ∀ o < size, start ≤ o → o < start + length →
    isDirty k.memory root ((addr + (o - start)) / pgsize * pgsize) = true →
    (k.user root).readable ((addr + (o - start)) / pgsize) = true

theorem DirtyReadable.cons {size start : Nat} (addr_page : pgsize ∣ addr)
    (first : isDirty k.memory root addr = true →
      Fs.PagesIn (k.user root).readable addr (min pgsize (size - start)))
    (rest : DirtyReadable k root size (start + pgsize) (addr + pgsize) (length - pgsize)) :
    DirtyReadable k root size start addr length := by
  intro o below lower upper dirty
  by_cases head : o < start + pgsize
  · rw [show pgsize = 4096 from rfl] at *
    have page : (addr + (o - start)) / 4096 * 4096 = addr := by omega
    rw [page] at dirty
    exact first dirty (addr + (o - start)) (by omega) (by omega)
  · have shift : addr + pgsize + (o - (start + pgsize)) = addr + (o - start) := by omega
    have later := rest o below (by omega) (by omega)
    rw [shift] at later
    exact later dirty

/-- The loop of a range whose positions fit into 32 bits. -/
theorem writebackLoop_low {finish fuel : Nat} (mounted : Mounted sb k.volume)
    (shares : Shares sb k region f inum) (pages : PagesOf region addr length)
    (finish_eq : finish = addr + length) (low : position region addr < 2 ^ 32)
    (run : writebackLoop sb p region finish fuel k addr = .ok (code, k')) (success : 0 ≤ code) :
    Patched sb k k' inum (rangePatch k p.pagetable (position region addr) addr length) ∧
      DirtyReadable k p.pagetable (k.volume.inodes inum).size.toNat (position region addr) addr
        length := by
  induction fuel generalizing k addr length with
  | zero => cases run
  | succ fuel ih =>
      have size_lt := (k.volume.inodes inum).size.toNat_lt
      by_cases some_page : 0 < length
      · obtain ⟨ret, l, writes, rest⟩ := writebackLoop_round (by omega) run
        rw [shares.offset_eq pages some_page] at writes rest
        have fits := shares.position_lt pages some_page
        rcases rest with ⟨-, rfl, -⟩ | ⟨returns, g, j, is_file, is_inode, rest⟩
        · exact absurd success (by decide)
        · obtain ⟨inside, patched⟩ :=
            writePage_succeeds mounted shares pages some_page writes returns
          obtain rfl : g = f := Option.some.inj (is_file.symm.trans shares.file)
          obtain rfl : j = inum := by
            rw [patched.files, shares.regular.ip] at is_inode
            exact (Option.some.inj is_inode).symm
          rw [patched.size, Nat.mod_eq_of_lt fits] at rest
          have first : isDirty k.memory p.pagetable addr = true →
              Fs.PagesIn (k.user p.pagetable).readable addr
                (min pgsize ((k.volume.inodes j).size.toNat - position region addr)) := by
            intro dirty
            obtain ⟨within, readable⟩ := inside dirty
            rwa [backLength_toNat size_lt fits within, if_pos low] at readable
          have page : ∀ o < (k.volume.inodes j).size.toNat,
              pagePatch k p.pagetable (position region addr % 2 ^ 32) addr
                (backLength (k.volume.inodes j).size.toNat (position region addr)).toNat o =
              pagePatch k p.pagetable (position region addr) addr
                (min pgsize ((k.volume.inodes j).size.toNat - position region addr)) o := by
            intro o below
            unfold pagePatch
            split
            · next dirty =>
                rw [backLength_toNat size_lt fits (inside dirty).1, if_pos low,
                  Nat.mod_eq_of_lt low]
            · rfl
          have copied := patched.congr fun o below => (page o below).symm
          split at rest
          · next at_end =>
              obtain ⟨-, rfl⟩ := rest
              refine ⟨copied.congr fun o below => ?_, DirtyReadable.cons pages.addr_page first ?_⟩
              · rw [rangePatch_cons pages.addr_page pages.length_page some_page below,
                  rangePatch, if_neg (by omega), Option.none_or]
              · intro o below lower
                omega
          · next more =>
              have next_addr : (addr + pgsize) % 2 ^ 64 = addr + pgsize := by
                have bound := (pages.tail some_page).upper
                have below_stack := shares.low
                have stack : usertop < 2 ^ 38 := by decide
                have long := Nat.le_of_dvd some_page pages.length_page
                omega
              have next_position : position region (addr + pgsize) = position region addr +
                pgsize := by
                have lower := pages.lower
                unfold position
                omega
              have long := Nat.le_of_dvd some_page pages.length_page
              rw [next_addr] at rest
              obtain ⟨tail, readable⟩ :=
                ih copied.mounted (shares.patched copied) (pages.tail some_page) (by omega)
                (by omega) rest
              rw [next_position] at tail readable
              refine ⟨(copied.trans tail).congr fun o below => ?_,
                DirtyReadable.cons pages.addr_page first ?_⟩
              · rw [rangePatch_cons pages.addr_page pages.length_page some_page below]
                unfold rangePatch
                rw [copied.memory, copied.user]
              · unfold DirtyReadable at readable ⊢
                rwa [copied.memory, copied.user, copied.size] at readable
      · obtain rfl : length = 0 := by omega
        rw [writebackLoop_succ, if_neg (by omega)] at run
        cases run
        refine ⟨(Patched.refl mounted).congr fun o _ => rangePatch_zero _ o, ?_⟩
        intro o below lower upper
        omega

/-- The loop of a range whose positions do not fit into 32 bits ends after its first page. -/
theorem writebackLoop_high {finish fuel : Nat} (mounted : Mounted sb k.volume)
    (shares : Shares sb k region f inum) (pages : PagesOf region addr length)
    (some_page : 0 < length) (finish_eq : finish = addr + length)
    (high : 2 ^ 32 ≤ position region addr)
    (run : writebackLoop sb p region finish fuel k addr = .ok (code, k')) (success : 0 ≤ code) :
    Patched sb k k' inum (pagePatch k p.pagetable (position region addr % 2 ^ 32) addr
      ((k.volume.inodes inum).size.toNat - position region addr % 2 ^ 32)) := by
  have size_lt := (k.volume.inodes inum).size.toNat_lt
  cases fuel with
  | zero => cases run
  | succ fuel =>
      obtain ⟨ret, l, writes, rest⟩ := writebackLoop_round (by omega) run
      rw [shares.offset_eq pages some_page] at writes rest
      have fits := shares.position_lt pages some_page
      rcases rest with ⟨-, rfl, -⟩ | ⟨returns, g, j, is_file, is_inode, rest⟩
      · exact absurd success (by decide)
      · obtain ⟨inside, patched⟩ := writePage_succeeds mounted shares pages some_page writes returns
        obtain rfl : g = f := Option.some.inj (is_file.symm.trans shares.file)
        obtain rfl : j = inum := by
          rw [patched.files, shares.regular.ip] at is_inode
          exact (Option.some.inj is_inode).symm
        rw [patched.size, Nat.mod_eq_of_lt fits, if_pos (by omega)] at rest
        obtain ⟨-, rfl⟩ := rest
        refine patched.congr fun o _ => ?_
        unfold pagePatch
        split
        · next dirty =>
            rw [backLength_toNat size_lt fits (inside dirty).1, if_neg (Nat.not_lt.mpr high)]
        · rfl

/-! ## What a range leaves in the file -/

/-- The file has the memory of a range, as far as it can be read and lies inside the file. Nothing
else of the files changes. -/
structure Synced (sb : Fs.Superblock) (k k' : Kernel) (inum : UInt32)
    (root start addr length : Nat) :
    Prop where
  /-- Bytes of the range. -/
  inside : ∀ o < (k.volume.inodes inum).size.toNat, start ≤ o → o < start + length →
    (k.user root).readable ((addr + (o - start)) / pgsize) = true →
    fileByte sb k'.volume inum o = (k.user root).bytes (addr + (o - start))
  /-- Other bytes. -/
  outside : ∀ o < (k.volume.inodes inum).size.toNat,
    ¬(start ≤ o ∧ o < start + length ∧
      (k.user root).readable ((addr + (o - start)) / pgsize) = true) →
    fileByte sb k'.volume inum o = fileByte sb k.volume inum o
  /-- Sizes. -/
  size : ∀ j, (k'.volume.inodes j).size = (k.volume.inodes j).size
  /-- Other files. -/
  others : ∀ j, j ≠ inum → k.volume.Live sb j → k'.volume.content sb j = k.volume.content sb j

/-- A range can be written back: below `2 ^ 32` its clean pages have the bytes of the file, and
above a dirty first page has those that it would overwrite. -/
def WritesBack (sb : Fs.Superblock) (k : Kernel) (inum : UInt32) (root start addr length : Nat) :
    Prop :=
  if start < 2 ^ 32 then
    ∀ o < (k.volume.inodes inum).size.toNat, start ≤ o → o < start + length →
      (k.user root).readable ((addr + (o - start)) / pgsize) = true →
      isDirty k.memory root ((addr + (o - start)) / pgsize * pgsize) = false →
      (k.user root).bytes (addr + (o - start)) = fileByte sb k.volume inum o
  else
    0 < length → isDirty k.memory root addr = true →
      ∀ o < (k.volume.inodes inum).size.toNat, start % 2 ^ 32 ≤ o →
        (k.user root).bytes (addr + (o - start % 2 ^ 32)) = fileByte sb k.volume inum o

theorem synced_low_iff {start : Nat} (low : start < 2 ^ 32)
    (patched : Patched sb k k' inum (rangePatch k root start addr length))
    (readable : DirtyReadable k root (k.volume.inodes inum).size.toNat start addr length) :
    Synced sb k k' inum root start addr length ↔ WritesBack sb k inum root start addr length := by
  rw [WritesBack, if_pos low]
  constructor
  · intro synced o below lower upper reads clean
    rw [← synced.inside o below lower upper reads, patched.content o below, rangePatch,
      if_neg fun both => by rw [clean] at both; simp at both]
    rfl
  · intro agrees
    refine ⟨?_, ?_, patched.size, patched.others⟩
    · intro o below lower upper reads
      rw [patched.content o below, rangePatch]
      split
      · rfl
      · next clean =>
          refine (agrees o below lower upper reads ?_).symm
          exact Bool.not_eq_true _ ▸ fun dirty => clean ⟨lower, upper, dirty⟩
    · intro o below apart
      rw [patched.content o below, rangePatch, if_neg]
      · rfl
      · rintro ⟨lower, upper, dirty⟩
        exact apart ⟨lower, upper, readable o below lower upper dirty⟩

theorem synced_high_iff {start : Nat} (high : 2 ^ 32 ≤ start) (some_page : 0 < length)
    (patched : Patched sb k k' inum (pagePatch k root (start % 2 ^ 32) addr
      ((k.volume.inodes inum).size.toNat - start % 2 ^ 32))) :
    Synced sb k k' inum root start addr length ↔ WritesBack sb k inum root start addr length := by
  have size_lt := (k.volume.inodes inum).size.toNat_lt
  rw [WritesBack, if_neg (Nat.not_lt.mpr high)]
  constructor
  · intro synced _ dirty o below lower
    have same := synced.outside o below (by omega)
    rw [patched.content o below, pagePatch, if_pos dirty, backPatch, if_pos (by omega)] at same
    exact same
  · intro agrees
    refine ⟨fun o below lower => by omega, ?_, patched.size, patched.others⟩
    intro o below _
    rw [patched.content o below, pagePatch]
    split
    · next dirty =>
        unfold backPatch
        split
        · next copied => exact agrees some_page dirty o below copied.1
        · rfl
    · rfl

/-- What `munmap` and `msync` write back is the memory of the range if and only if the range can be
written back. -/
theorem writebackRegion_synced_iff (mounted : Mounted sb k.volume)
    (shares : Shares sb k region f inum) (pages : PagesOf region addr length)
    (run : writebackRegion sb k p region addr length = .ok (code, k')) (success : 0 ≤ code) :
    Synced sb k k' inum p.pagetable (position region addr) addr length ↔
      WritesBack sb k inum p.pagetable (position region addr) addr length := by
  have finish_eq : (addr + length) % 2 ^ 64 = addr + length := by
    have below := shares.low
    have upper := pages.upper
    have stack : usertop < 2 ^ 38 := by decide
    omega
  rw [writebackRegion, if_pos ⟨shares.backed, shares.shared, shares.write⟩, finish_eq] at run
  by_cases low : position region addr < 2 ^ 32
  · obtain ⟨patched, readable⟩ := writebackLoop_low mounted shares pages rfl low run success
    exact synced_low_iff low patched readable
  · have high := Nat.le_of_not_lt low
    by_cases some_page : 0 < length
    · exact synced_high_iff high some_page
        (writebackLoop_high mounted shares pages some_page rfl high run success)
    · obtain rfl : length = 0 := by omega
      have many : manyPages = 2 ^ 26 + 1 := by decide
      rw [many, writebackLoop_succ, if_neg (by omega)] at run
      cases run
      rw [WritesBack, if_neg low]
      refine ⟨fun _ none => absurd none some_page, fun _ => ⟨?_, fun _ _ _ => rfl, fun _ => rfl,
        fun _ _ _ => rfl⟩⟩
      intro o _ lower upper
      omega

/-! ## `munmap` and `msync` -/

theorem unmap_volume {va npages : Nat} (run : k.unmap root va npages = .ok k') :
    k'.volume = k.volume := by
  obtain ⟨⟨memory, freed⟩, -, returns⟩ := bind_eq_ok.mp run
  cases returns
  rfl

/-- `munmap` finds no region or fails, or it leaves the files that are written back. -/
theorem munmap_volume (run : munmap sb k p addr length = .ok (code, k', p')) :
    (k' = k ∧ (code = 0 → p.region addr = none)) ∨
      ∃ region ret l, p.region addr = some region ∧ addr &&& (pgsize - 1) = 0 ∧
        writebackRegion sb k p region addr (min (pgroundup length) region.length) = .ok (ret, l) ∧
        k'.volume = l.volume ∧ (code = 0 → 0 ≤ ret) := by
  unfold munmap at run
  split at run
  · cases run
    exact Or.inl ⟨rfl, fun impossible => absurd impossible (by decide)⟩
  · next aligned =>
      split at run
      · next none =>
          cases run
          refine Or.inl ⟨rfl, fun _ => ?_⟩
          rw [Proc.region, List.find?_eq_bind_findIdx?_getElem?, none]
          rfl
      · next i found =>
          obtain ⟨region, at_i, rest⟩ := bind_eq_ok.mp run
          obtain ⟨⟨ret, l⟩, writes, rest⟩ := bind_eq_ok.mp rest
          have here : p.region addr = some region := by
            rw [Proc.region, List.find?_eq_bind_findIdx?_getElem?, found]
            exact deref_eq_ok.mp at_i
          refine Or.inr ⟨region, ret, l, here, not_not.mp aligned, writes, ?_⟩
          dsimp only at rest
          split_ifs at rest with negative whole
          · cases rest
            exact ⟨rfl, fun zero => zero.ge⟩
          · obtain ⟨⟨l', q⟩, deletes, returns⟩ := bind_eq_ok.mp rest
            obtain ⟨l'', unmaps, deletes⟩ := bind_eq_ok.mp deletes
            cases deletes
            cases returns
            have volume := unmap_volume unmaps
            exact ⟨volume, fun _ => Int.not_lt.mp negative⟩
          · obtain ⟨l', unmaps, returns⟩ := bind_eq_ok.mp rest
            cases returns
            exact ⟨unmap_volume unmaps, fun _ => Int.not_lt.mp negative⟩

/-- A call that writes a range back and returns 0. -/
inductive Synchronises (sb : Fs.Superblock) (k : Kernel) (p : Proc) (addr length : Nat)
    (k' : Kernel) : Prop
  /-- `munmap`. -/
  | munmap (p' : Proc) (run : munmap sb k p addr length = .ok (0, k', p'))
  /-- `msync` with `MS_SYNC`. -/
  | msync (flags : Nat) (wait : flags &&& msAsync = 0) (sync : flags &&& msSync ≠ 0)
      (run : msync sb k p addr length flags = .ok (0, k'))

/-- The part of the call that writes back. -/
theorem Synchronises.writebackRegion (found : p.region addr = some region)
    (pages : PagesOf region addr length) (low : region.addr + region.length ≤ usertop)
    (call : Synchronises sb k p addr length k') :
    ∃ ret l, writebackRegion sb k p region addr length = .ok (ret, l) ∧ 0 ≤ ret ∧
      k'.volume = l.volume := by
  have stack : usertop < 2 ^ 38 := by decide
  have lower := pages.lower
  have upper := pages.upper
  cases call with
  | munmap p' run =>
      rcases munmap_volume run with ⟨-, none⟩ | ⟨other, ret, l, at_addr, -, writes, volume, success⟩
      · cases (none rfl).symm.trans found
      · cases at_addr.symm.trans found
        have rounded : min (pgroundup length) region.length = length := by
          have length_page := pages.length_page
          rw [pgroundup_eq (by rw [show pgsize = 4096 from rfl]; omega)]
          rw [show pgsize = 4096 from rfl] at length_page ⊢
          omega
        rw [rounded] at writes
        exact ⟨ret, l, writes, success rfl, volume⟩
  | msync flags wait sync run =>
      unfold Mapping.msync at run
      have kept : (if flags &&& msAsync = 0 ∧ flags &&& msSync = 0 then flags ||| msAsync
          else flags) = flags := if_neg fun both => sync both.2
      dsimp only at run
      rw [kept, if_neg (not_not.mpr wait)] at run
      split at run
      · cases run
      · rw [found] at run
        dsimp only at run
        rw [min_eq_left (by omega)] at run
        exact ⟨0, k', run, le_rfl, rfl⟩

/-- A range of a shared region is written back if and only if its clean pages have the bytes of the
file and, when its positions do not fit into 32 bits, its first page has those that it
overwrites. -/
theorem synchronises_iff (mounted : Mounted sb k.volume) (found : p.region addr = some region)
    (shares : Shares sb k region f inum) (pages : PagesOf region addr length)
    (call : Synchronises sb k p addr length k') :
    Synced sb k k' inum p.pagetable (position region addr) addr length ↔
      WritesBack sb k inum p.pagetable (position region addr) addr length := by
  obtain ⟨ret, l, writes, success, volume⟩ := call.writebackRegion found pages shares.low
  rw [← writebackRegion_synced_iff mounted shares pages writes success]
  constructor
  · rintro ⟨inside, outside, size, others⟩
    rw [volume] at inside outside size others
    exact ⟨inside, outside, size, others⟩
  · rintro ⟨inside, outside, size, others⟩
    rw [← volume] at inside outside size others
    exact ⟨inside, outside, size, others⟩

/-- A page of a file of five bytes is mapped, and its first byte is 7. -/
def mappedKernel : Kernel :=
  { fileKernel with
    memory := fun table i =>
      if table = 0x80000000 ∧ i = px 2 mmapbase then pa2pte 0x80001000 ||| pteV
      else if table = 0x80001000 ∧ i = px 1 mmapbase then pa2pte 0x80002000 ||| pteV
      else if table = 0x80002000 ∧ i = px 0 mmapbase then
        pa2pte 0x80003000 ||| pteV ||| pteR ||| pteW ||| pteU ||| pteD
      else 0
    bytes := fun a => if a = 0x80003000 then 7 else 0 }

/-- The region of the page. -/
def sharedRegion : MmapRegion :=
  ⟨⟨mmapbase, 4096, mapShared⟩, 0, some (fileKernel.file 0), protRead ||| protWrite⟩

/-- Its process. -/
def sharedProc : Proc := ⟨0x80000000, [sharedRegion], 0⟩

/-- `msync` of the page writes the byte to the file. -/
theorem msync_writes_seven :
    ∃ k', Synchronises Fs.mkfsSuper mappedKernel sharedProc mmapbase 4096 k' ∧
    Synced Fs.mkfsSuper mappedKernel k' 2 0x80000000 0 mmapbase 4096 ∧
    fileByte Fs.mkfsSuper mappedKernel.volume 2 0 = 0 ∧
      fileByte Fs.mkfsSuper k'.volume 2 0 = 7 := by
  have succeeds : (msync Fs.mkfsSuper mappedKernel sharedProc mmapbase 4096 msSync).toOption.any
      (fun result => decide (result.1 = 0)) = true := by
    decide +kernel
  obtain ⟨⟨code, k'⟩, run, test⟩ := Except.exists_of_any succeeds
  obtain rfl : code = 0 := of_decide_eq_true test
  have call := Synchronises.msync msSync (by decide) (by decide) run
  have regular : Regular Fs.mkfsSuper mappedKernel 0 2 := ⟨rfl, rfl, (volumeOf_live_iff 2).mpr rfl⟩
  have mounted : Mounted Fs.mkfsSuper mappedKernel.volume := fileKernel_mounted
  have page_dirty : isDirty mappedKernel.memory 0x80000000 mmapbase = true := by decide +kernel
  have size : (mappedKernel.volume.inodes 2).size.toNat = 5 := by decide +kernel
  have dirty : WritesBack Fs.mkfsSuper mappedKernel 2 0x80000000 0 mmapbase 4096 := by
    rw [WritesBack, if_pos (by decide)]
    intro o inside _ _ _ clean
    have base : mmapbase = 0x2000000 * 4096 := rfl
    have page : (mmapbase + (o - 0)) / pgsize * pgsize = mmapbase := by
      rw [size] at inside
      rw [show pgsize = 4096 from rfl]
      omega
    rw [page, page_dirty] at clean
    cases clean
  have synced := (synchronises_iff mounted rfl ⟨by decide, by decide, by decide, rfl, regular, rfl,
    by decide, by decide⟩ ⟨by decide, by decide, by decide, by decide⟩ call).mpr dirty
  refine ⟨k', call, synced, by decide +kernel, ?_⟩
  rw [synced.inside 0 (by omega) le_rfl (by decide) (by decide +kernel)]
  decide +kernel

/-- The kernel with a byte that the user stores. -/
def Kernel.poke (k : Kernel) (root va : Nat) (byte : UInt8) : Kernel :=
  { k with
    bytes := Function.update k.bytes (walkaddr k.memory root (pgrounddown va) + va % pgsize) byte }

/-- That kernel with more pages. -/
def roomyKernel : Kernel :=
  { fileKernel with
    pages := [0x80001000, 0x80002000, 0x80003000, 0x80004000, 0x80005000, 0x80006000] }

/-- A region of more than `2 ^ 32` bytes, a store to its page at the position `2 ^ 32`, and `munmap`
of that page. -/
def farPage : Except Fault (Kernel × Proc × Int × Kernel) := do
  let far := mmapbase + 2 ^ 32
  let (_, k, p) ← mmap Fs.mkfsSuper (fun _ _ => 0) roomyKernel noMemory 0 (2 ^ 32 + 4096)
    (protRead ||| protWrite) mapShared (some (roomyKernel.file 0)) 0
  let (_, k) ← usertrap Fs.mkfsSuper (fun _ _ => 0) k p .store far
  let k := k.poke p.pagetable far 9
  let (code, after, _) ← munmap Fs.mkfsSuper k p far 4096
  return (k, p, code, after)

/-- The first byte of the file is lost. -/
theorem munmap_overwrites_start : ∃ k p k',
    farPage = .ok (k, p, 0, k') ∧
    (∃ region ∈ p.region (mmapbase + 2 ^ 32), region.flags = mapShared ∧
      region.prot = protRead ||| protWrite ∧ position region (mmapbase + 2 ^ 32) = 2 ^ 32) ∧
    ¬Synced Fs.mkfsSuper k k' 2 p.pagetable (2 ^ 32) (mmapbase + 2 ^ 32) 4096 := by
  have loses : farPage.toOption.any (fun result => decide (result.2.2.1 = 0 ∧
      (result.2.1.region (mmapbase + 2 ^ 32)).any (fun region => decide (region.flags = mapShared ∧
        region.prot = protRead ||| protWrite ∧ position region (mmapbase + 2 ^ 32) = 2 ^ 32)) =
          true ∧
      0 < (result.1.volume.inodes 2).size.toNat ∧
      fileByte Fs.mkfsSuper result.2.2.2.volume 2 0 ≠
        fileByte Fs.mkfsSuper result.1.volume 2 0)) = true := by
    decide +kernel
  obtain ⟨⟨k, p, code, k'⟩, run, test⟩ := Except.exists_of_any loses
  obtain ⟨zero, found, inside, differ⟩ := of_decide_eq_true test
  dsimp only at zero found inside differ
  subst zero
  refine ⟨k, p, k', run, ?_, fun synced => differ (synced.outside 0 inside (by omega))⟩
  cases here : p.region (mmapbase + 2 ^ 32) with
  | none =>
      rw [here] at found
      cases found
  | some region =>
      rw [here, Option.any_some] at found
      exact ⟨region, rfl, of_decide_eq_true found⟩

end Mapping
end Xv6Duo
