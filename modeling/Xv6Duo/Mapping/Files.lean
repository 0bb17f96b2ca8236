import Xv6Duo.Mapping.Model
import Xv6Duo.Vfs.Append

/-!
# Files behind mapped memory

`fileread` delivers bytes of a file and moves the position of the open file. A page that is written
back overwrites the part of the file that it is a copy of.
-/

namespace Xv6Duo
namespace Mapping

open Vm Mmap Fs.Volume

variable {sb : Fs.Superblock} {v w x : Fs.Volume} {k : Kernel} {f : Nat} {inum : UInt32}

theorem deref_eq_ok {α : Type} {pointer : Option α} {value : α} :
    deref pointer = .ok value ↔ pointer = some value := by
  cases pointer with
  | none => simp [deref]
  | some other => simp [deref]

theorem kalloc_eq_ok {k' : Kernel} {mem : Nat} (taken : k.kalloc = .ok (mem, k')) :
    ∃ rest, k.pages = mem :: rest ∧
      k' = { k with pages := rest, refcnt := Function.update k.refcnt mem 1 } := by
  unfold Kernel.kalloc at taken
  split at taken
  · cases taken
  · next pages_eq =>
      cases taken
      exact ⟨_, pages_eq, rfl⟩

/-- The files have the bytes that they had; times and the cache may differ. -/
structure SameFiles (sb : Fs.Superblock) (v w : Fs.Volume) : Prop where
  /-- The volume is well formed. -/
  wellFormed : w.WellFormed sb
  /-- No buffer stays busy. -/
  idle : Fs.Idle sb w.state
  /-- The same inodes are allocated. -/
  live : ∀ j, w.Live sb j ↔ v.Live sb j
  /-- Sizes are as before. -/
  size : ∀ j, (w.inodes j).size = (v.inodes j).size
  /-- The files have their bytes. -/
  content : ∀ j, w.content sb j = v.content sb j

theorem SameFiles.refl (wf : v.WellFormed sb) (idle : Fs.Idle sb v.state) : SameFiles sb v v :=
  ⟨wf, idle, fun _ => Iff.rfl, fun _ => rfl, fun _ => rfl⟩

theorem SameFiles.trans (first : SameFiles sb v w) (second : SameFiles sb w x) :
    SameFiles sb v x where
  wellFormed := second.wellFormed
  idle := second.idle
  live j := (second.live j).trans (first.live j)
  size j := (second.size j).trans (first.size j)
  content j := (second.content j).trans (first.content j)

/-- The times of an inode are set. -/
theorem SameFiles.retime (same : SameFiles sb v w) {ip : Fs.Inode}
    (fields : ip = { w.inodes inum with atime := ip.atime, mtime := ip.mtime }) :
    SameFiles sb v ⟨w.state, Function.update w.inodes inum ip⟩ := by
  have timed : Vfs.Append.Retimed sb w ⟨w.state, Function.update w.inodes inum ip⟩ :=
    Vfs.Append.retimed fields
  refine same.trans ⟨timed.wellFormed same.wellFormed, ?_, timed.live, timed.size, timed.content⟩
  rw [timed.state]
  exact same.idle

/-- The cache changes. -/
theorem SameFiles.recache (wf : v.WellFormed sb) {s : Fs.State} (idle : Fs.Idle sb s)
    (disk : s.disk = v.state.disk) : SameFiles sb v ⟨s, v.inodes⟩ where
  wellFormed := wf.of_disk disk
  idle := idle
  live _ := Iff.rfl
  size _ := rfl
  content j := by
    apply List.map_congr_left
    intro o _
    simp only [byte, block, Fs.view_congr disk]

/-- Byte `o` of a file, and zero behind its end. -/
def fileByte (sb : Fs.Superblock) (v : Fs.Volume) (inum : UInt32) (o : Nat) : UInt8 :=
  (v.content sb inum).getD o 0

theorem fileByte_inside {o : Nat} (inside : o < (v.inodes inum).size.toNat) :
    fileByte sb v inum o = v.byte sb inum o := by
  rw [fileByte, content, List.getD_eq_getElem?_getD, List.getElem?_map,
    List.getElem?_range inside]
  rfl

theorem fileByte_outside {o : Nat} (outside : (v.inodes inum).size.toNat ≤ o) :
    fileByte sb v inum o = 0 := by
  rw [fileByte, content, List.getD_eq_getElem?_getD, List.getElem?_eq_none (by simpa using outside)]
  rfl

theorem SameFiles.fileByte (same : SameFiles sb v w) (o : Nat) :
    fileByte sb w inum o = Mapping.fileByte sb v inum o := by
  rw [Mapping.fileByte, same.content, Mapping.fileByte]

/-- An open regular file. -/
structure Regular (sb : Fs.Superblock) (k : Kernel) (f : Nat) (inum : UInt32) : Prop where
  /-- It has an inode. -/
  type : (k.files f).type = .inode
  /-- The inode. -/
  ip : (k.files f).ip = some inum
  /-- The inode is allocated. -/
  live : k.volume.Live sb inum

/-- The files of the kernel can be used. -/
structure Mounted (sb : Fs.Superblock) (v : Fs.Volume) : Prop where
  /-- The volume is well formed. -/
  wellFormed : v.WellFormed sb
  /-- No buffer is busy. -/
  idle : Fs.Idle sb v.state

theorem SameFiles.mounted (same : SameFiles sb v w) : Mounted sb w := ⟨same.wellFormed, same.idle⟩

/-! ## `fileread` -/

theorem ofInt_natCast (n : Nat) : UInt32.ofInt (n : Int) = UInt32.ofNat n := by
  rw [← UInt32.toNat_inj, UInt32.ofInt]
  simp only [UInt32.toNat_ofNat']
  omega

/-- What `fileread` leaves behind: files with their bytes, and a position that has moved. -/
structure Advanced (sb : Fs.Superblock) (k k' : Kernel) (f : Nat) (off : UInt32) : Prop where
  /-- Page tables are as before. -/
  memory : k'.memory = k.memory
  /-- The rest of memory is as before. -/
  bytes : k'.bytes = k.bytes
  /-- Counters are as before. -/
  refcnt : k'.refcnt = k.refcnt
  /-- `kalloc` has the same pages. -/
  pages : k'.pages = k.pages
  /-- `slab_cache_alloc` has the same objects. -/
  nodes : k'.nodes = k.nodes
  /-- Files have their bytes. -/
  volume : SameFiles sb k.volume k'.volume
  /-- The position has moved. -/
  files : k'.files = (k.setOff f off).files

theorem setOff_files_self : (k.setOff f (k.files f).off).files = k.files :=
  Function.update_eq_self f k.files

/-- `readi` from a position behind the end of the file delivers nothing. -/
theorem readi_any (mounted : Mounted sb v) (live : v.Live sb inum) {user : Bool} {mem : Fs.Memory}
    {dst : Nat} {off n : UInt32} (fits : (v.inodes inum).size < off ∨ off.toNat + n.toNat < 2 ^ 32)
    (writable : user = true → Fs.PagesIn mem.writable dst (v.readable inum off n)) :
    ∃ t, Fs.readi sb v.state (v.inodes inum) user mem dst off n =
        .ok (Fs.asInt (UInt32.ofNat (v.readable inum off n)),
          mem.deliver dst (fun i => v.byte sb inum (off.toNat + i)) (v.readable inum off n),
          v.inodes inum, t) ∧
      Fs.Idle sb t ∧ t.disk = v.state.disk := by
  rcases fits with beyond | inside
  · have none : v.readable inum off n = 0 := by
      rw [UInt32.lt_iff_toNat_lt] at beyond
      rw [Fs.Volume.readable]
      omega
    refine ⟨v.state, ?_, mounted.idle, rfl⟩
    rw [Fs.readi, if_pos (Or.inl beyond), none, deliver_zero]
    rfl
  · exact readi_spec mounted.wellFormed mounted.idle live inside writable

/-- `fileread` of a part of a regular file. -/
theorem fileread_spec (device : OpenFile → Nat → Int) (mounted : Mounted sb k.volume)
    (regular : Regular sb k f inum) (readable : (k.files f).readable = true) {user : Bool}
    {mem : Fs.Memory} {addr n : Nat} (small : n < 2 ^ 31)
    (fits : (k.volume.inodes inum).size < (k.files f).off ∨ (k.files f).off.toNat + n < 2 ^ 32)
    (writable : user = true → Fs.PagesIn mem.writable addr
      (k.volume.readable inum (k.files f).off (UInt32.ofNat n))) :
    ∃ k', fileread sb device k f user mem addr n =
        .ok (k.volume.readable inum (k.files f).off (UInt32.ofNat n),
          mem.deliver addr (fun i => k.volume.byte sb inum ((k.files f).off.toNat + i))
            (k.volume.readable inum (k.files f).off (UInt32.ofNat n)), k') ∧
      Advanced sb k k' f ((k.files f).off +
        UInt32.ofNat (k.volume.readable inum (k.files f).off (UInt32.ofNat n))) := by
  have n_eq : (UInt32.ofNat n).toNat = n := by
    rw [UInt32.toNat_ofNat', Nat.mod_eq_of_lt (by omega)]
  obtain ⟨t, run, idle, disk⟩ := readi_any mounted regular.live (by rwa [n_eq]) writable
  set count := k.volume.readable inum (k.files f).off (UInt32.ofNat n) with count_eq
  have count_le : count ≤ n := by
    rw [count_eq, Fs.Volume.readable, n_eq]
    exact min_le_left _ _
  have returned : Fs.asInt (UInt32.ofNat count) = count := by
    rw [Fs.asInt, UInt32.toNat_ofNat', Nat.mod_eq_of_lt (by omega), if_pos (by omega)]
  have cached := SameFiles.recache mounted.wellFormed idle disk
  have timed : SameFiles sb k.volume ⟨t, Function.update k.volume.inodes inum
      { k.volume.inodes inum with atime := k.clock 0 }⟩ := cached.retime rfl
  have unread : ¬(k.files f).readable = false := by simp [readable]
  unfold fileread
  rw [if_neg unread, regular.type]
  simp only [regular.ip, deref, Except.ok_bind, run, returned, Except.pure_eq_ok]
  refine ⟨_, rfl, ?_⟩
  split
  · next some_bytes =>
      have moved : UInt32.ofInt (count : Int) = UInt32.ofNat count := ofInt_natCast count
      rw [moved]
      exact ⟨rfl, rfl, rfl, rfl, rfl, timed, rfl⟩
  · next nothing =>
      have none : count = 0 := by omega
      have stays : (k.files f).off + UInt32.ofNat count = (k.files f).off := by
        rw [none]
        exact UInt32.add_zero _
      refine ⟨rfl, rfl, rfl, rfl, rfl, timed, ?_⟩
      rw [stays, setOff_files_self]

/-! ## `writeback` -/

/-- The slots above a filled slot are filled. -/
theorem path_filled {slot above : Fs.Slot} (filled : v.block sb inum slot ≠ 0)
    (mem : above ∈ Slot.path slot) : v.block sb inum above ≠ 0 := by
  intro empty
  apply filled
  cases slot with
  | addr i =>
      rw [Slot.path, Finset.mem_singleton] at mem
      rw [← mem, empty]
  | entry j =>
      simp only [Slot.path, Finset.mem_insert, Finset.mem_singleton] at mem
      rcases mem with rfl | rfl
      · simp only [block, Fs.slotBlock] at empty ⊢
        rw [Fs.entryOf, if_pos empty]
      · exact empty
  | table j =>
      simp only [Slot.path, Finset.mem_insert, Finset.mem_singleton] at mem
      rcases mem with rfl | rfl
      · simp only [block, Fs.slotBlock] at empty ⊢
        rw [Fs.entryOf, if_pos empty]
      · exact empty
  | leaf j i =>
      simp only [Slot.path, Finset.mem_insert, Finset.mem_singleton] at mem
      rcases mem with rfl | rfl | rfl
      · simp only [block, Fs.slotBlock] at empty ⊢
        rw [Fs.entryOf, if_pos]
        rw [Fs.entryOf, if_pos empty]
      · simp only [block, Fs.slotBlock] at empty ⊢
        rw [Fs.entryOf, if_pos empty]
      · exact empty

/-- A range inside a file needs no more blocks. -/
theorem room_inside (wf : v.WellFormed sb) (live : v.Live sb inum) {off n : Nat}
    (inside : off + n ≤ (v.inodes inum).size.toNat) : v.Room sb inum (neededSlots off n) := by
  have none : v.emptySlots sb inum (neededSlots off n) = ∅ := by
    apply Finset.filter_eq_empty_iff.mpr
    intro slot mem
    simp only [neededSlots, Finset.mem_biUnion, Finset.mem_image, Finset.mem_Ico] at mem
    obtain ⟨bn, ⟨o, ⟨lower, upper⟩, rfl⟩, on_path⟩ := mem
    have start := Nat.div_mul_le_self o Fs.bsize
    exact path_filled (wf.noHole inum live (o / Fs.bsize) (by omega)) on_path
  rw [Room, none, Finset.card_empty]
  exact Nat.zero_le _

/-! ## A volume with one file -/

/-- A file whose first blocks follow each other. -/
def fileOf (count : Nat) (size : UInt32) : Fs.Inode :=
  { emptyFile with
    size := size
    addrs := fun a => if a.val < count then UInt32.ofNat (42 + a.val) else 0 }

/-- The volume of that file, whose bytes are zero. -/
def volumeOf (count : Nat) (size : UInt32) : Fs.Volume := ofFile (fileOf count size) (42 + count)

variable {count : Nat} {size : UInt32}

theorem volumeOf_inode : (volumeOf count size).inodes 2 = fileOf count size := ofFile_inode rfl

theorem volumeOf_live_iff (i : UInt32) : (volumeOf count size).Live Fs.mkfsSuper i ↔ i = 2 :=
  ofFile_live_iff rfl (by show (2 : UInt16) ≠ 0; decide) i

theorem volumeOf_block (few : count ≤ 11) (slot : Fs.Slot)
    (present : (volumeOf count size).block Fs.mkfsSuper 2 slot ≠ 0) :
    ∃ a : Fin 13, slot = .addr a ∧ a.val < count ∧
      (volumeOf count size).block Fs.mkfsSuper 2 slot = UInt32.ofNat (42 + a.val) := by
  have zero (a : Fin 13) (high : 11 ≤ a.val) : (fileOf count size).addrs a = 0 :=
    if_neg (by omega)
  have single : (fileOf count size).addrs Fs.indirectSlot = 0 := zero _ (by decide)
  have double : (fileOf count size).addrs Fs.indirect2Slot = 0 := zero _ (by decide)
  cases slot with
  | addr a =>
      simp only [block, Fs.slotBlock, volumeOf_inode] at present ⊢
      by_cases direct : a.val < count
      · exact ⟨a, rfl, direct, if_pos direct⟩
      · exact absurd (if_neg direct) present
  | entry j => simp [block, Fs.slotBlock, volumeOf_inode, single, Fs.entryOf] at present
  | table j => simp [block, Fs.slotBlock, volumeOf_inode, double, Fs.entryOf] at present
  | leaf j l => simp [block, Fs.slotBlock, volumeOf_inode, double, Fs.entryOf] at present

theorem volumeOf_mounted (few : count ≤ 11) (full : size.toNat ≤ count * 4096) :
    Mounted Fs.mkfsSuper (volumeOf count size) := by
  have block_toNat (a : Fin 13) (direct : a.val < count) :
      (UInt32.ofNat (42 + a.val)).toNat = 42 + a.val := by
    rw [UInt32.toNat_ofNat', Nat.mod_eq_of_lt (by omega)]
  have ranged (a : Fin 13) (direct : a.val < count) :
      Fs.IsData Fs.mkfsSuper (UInt32.ofNat (42 + a.val)) := by
    rw [Fs.IsData, block_toNat a direct, show Fs.mkfsSuper.nmeta = 42 by decide,
      show Fs.mkfsSuper.size.toNat = 102400 by decide]
    omega
  refine ⟨⟨fun _ => rfl, ?_, ?_, ?_, ?_, ?_⟩, Fs.idle_binit _⟩
  · intro i live slot present
    rw [volumeOf_live_iff] at live
    subst live
    obtain ⟨a, -, direct, here⟩ := volumeOf_block few slot present
    rw [here]
    exact ranged a direct
  · intro i live slot present
    rw [volumeOf_live_iff] at live
    subst live
    obtain ⟨a, -, direct, here⟩ := volumeOf_block few slot present
    rw [here]
    refine (ofFile_used_iff (by omega) (ranged a direct).2).mpr ?_
    rw [block_toNat a direct]
    omega
  · intro i j live live' left right present same
    rw [volumeOf_live_iff] at live live'
    subst live live'
    refine ⟨rfl, ?_⟩
    obtain ⟨a, left_eq, direct, here⟩ := volumeOf_block few left present
    obtain ⟨b, right_eq, direct', there⟩ := volumeOf_block few right (same ▸ present)
    rw [here, there, ← UInt32.toNat_inj, block_toNat a direct, block_toNat b direct'] at same
    rw [left_eq, right_eq, Fin.ext (by omega : a.val = b.val)]
  · intro b below
    refine (ofFile_used_iff (by omega) (below.trans_le Fs.nmeta_le)).mpr ?_
    rw [show Fs.mkfsSuper.nmeta = 42 by decide] at below
    omega
  · intro i live bn below
    rw [volumeOf_live_iff] at live
    subst live
    rw [volumeOf_inode] at below
    have direct : bn < count := by
      change bn * 4096 < size.toNat at below
      omega
    rw [Fs.fileSlot_direct (show bn < Fs.ndirect by rw [Fs.ndirect]; omega)]
    simp only [block, Fs.slotBlock, volumeOf_inode]
    rw [show (fileOf count size).addrs ⟨bn, _⟩ = UInt32.ofNat (42 + bn) from if_pos direct]
    intro zero
    have value := block_toNat ⟨bn, by omega⟩ direct
    rw [zero, UInt32.toNat_zero] at value
    omega

end Mapping
end Xv6Duo
