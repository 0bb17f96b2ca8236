import Xv6Duo.Fs.Blocks

/-!
# The block tree of an inode

Every block number an inode reaches is held in a slot: one of the words of `addrs`, an entry of the
indirect block, an entry of the double indirect block, or an entry of a second-level block that the
double indirect block names. A slot below an absent block is empty.
-/

namespace Xv6Duo
namespace Fs

open ByteBlock

/-- A place in the block tree of an inode that holds a block number. -/
inductive Slot
  /-- A word of `addrs`. -/
  | addr (i : Fin 13)
  /-- An entry of the indirect block. -/
  | entry (j : Fin 1024)
  /-- An entry of the double indirect block. -/
  | table (k : Fin 1024)
  /-- An entry of a second-level block. -/
  | leaf (k j : Fin 1024)
  deriving DecidableEq, Repr

/-- Word `i` of the block `bno`, or `0` when there is no block. -/
def entryOf (view : UInt32 → Bytes) (bno : UInt32) (i : Nat) : UInt32 :=
  if bno = 0 then 0 else getWord (view bno) i

theorem entryOf_of_ne {view : UInt32 → Bytes} {bno : UInt32} {i : Nat} (present : bno ≠ 0) :
    entryOf view bno i = getWord (view bno) i :=
  if_neg present

/-- The block number in a slot, `0` when there is none. -/
def slotBlock (view : UInt32 → Bytes) (ip : Inode) : Slot → UInt32
  | .addr i => ip.addrs i
  | .entry j => entryOf view (ip.addrs indirectSlot) j
  | .table k => entryOf view (ip.addrs indirect2Slot) k
  | .leaf k j => entryOf view (entryOf view (ip.addrs indirect2Slot) k) j

/-- The blocks an inode reaches. -/
def treeBlocks (view : UInt32 → Bytes) (ip : Inode) : Set UInt32 :=
  {b | b ≠ 0 ∧ ∃ slot, slotBlock view ip slot = b}

/-- The block tree of one inode is well formed: its blocks are distinct data blocks that are
marked used. -/
structure TreeWellFormed (sb : Superblock) (s : State) (ip : Inode) : Prop where
  /-- The blocks are in range. -/
  data : ∀ slot, slotBlock (s.view sb) ip slot ≠ 0 → IsData sb (slotBlock (s.view sb) ip slot)
  /-- The blocks are marked used. -/
  marked : ∀ slot, slotBlock (s.view sb) ip slot ≠ 0 →
    used sb s (slotBlock (s.view sb) ip slot) = true
  /-- No block is in two slots. -/
  distinct : ∀ left right, slotBlock (s.view sb) ip left ≠ 0 →
    slotBlock (s.view sb) ip left = slotBlock (s.view sb) ip right → left = right

/-- The metadata blocks and the blocks that are marked used. -/
def allocated (sb : Superblock) (s : State) : Set UInt32 :=
  {bno | bno.toNat < sb.nmeta ∨ InRange sb bno ∧ used sb s bno = true}

/-- No call is running: no buffer is busy, and every cached block that is in use is as on the
card. -/
def Idle (sb : Superblock) (s : State) : Prop := Good sb s ∅ (allocated sb s)

variable {sb : Superblock} {s t : State}

theorem bitmapBlocks_subset_allocated : bitmapBlocks sb ⊆ allocated sb s := by
  rintro bno ⟨b, b_range, rfl⟩
  exact Or.inl (bblock_lt_nmeta b_range)

theorem iblock_mem_allocated {inum : UInt32} (inum_lt : inum.toNat < sb.ninodes.toNat) :
    iblock sb inum ∈ allocated sb s :=
  Or.inl (iblock_lt_nmeta inum_lt)

theorem bitmapFree_empty : BitmapFree sb s ∅ := by
  intro bno _ b mem
  simp at mem

theorem unheld_empty {sector : UInt32} : Unheld s ∅ sector := by
  intro b mem
  simp at mem

/-- Right after `binit` the cache is idle. -/
theorem idle_binit (disk : UInt32 → Bytes) : Idle sb (binit disk) where
  nodup := List.nodup_finRange _
  complete b := List.mem_finRange b
  clean _ := rfl
  busy_iff b := by simp [binit]
  held_dev b mem := by simp at mem
  held_valid b mem := by simp at mem
  unique a b root := by simp [binit, rootDev] at root
  coherent b _ root := by simp [binit, rootDev] at root

theorem used_congr (disk : t.disk = s.disk) (b : UInt32) : used sb t b = used sb s b := by
  simp only [used, State.view, disk]

theorem view_congr (disk : t.disk = s.disk) : t.view sb = s.view sb := by
  funext bno
  simp only [State.view, disk]

theorem allocated_congr (disk : t.disk = s.disk) : allocated sb t = allocated sb s := by
  simp only [allocated, used_congr disk]

theorem TreeWellFormed.congr {ip : Inode} (tree : TreeWellFormed sb s ip)
    (disk : t.disk = s.disk) : TreeWellFormed sb t ip where
  data := by simpa only [view_congr disk] using tree.data
  marked := by simpa only [view_congr disk, used_congr disk] using tree.marked
  distinct := by simpa only [view_congr disk] using tree.distinct

/-! ## Images -/

/-- The super block that `mkfs` writes, on a partition that starts at sector 2048. -/
def mkfsSuper : Superblock where
  lba := 2048
  size := 102400
  nblocks := 102358
  ninodes := 1024
  inodestart := 6
  bmapstart := 38
  size_le := by decide
  nblocks_le := by decide
  boot_fits := by decide
  inodes_fit := by decide
  bitmap_fits := by decide

/-- The card on which the partition holds the given blocks. -/
def diskOf (sb : Superblock) (image : UInt32 → Bytes) (sector : UInt32) : Bytes :=
  image ((sector - sb.lba) / blkSect)

theorem view_diskOf (image : UInt32 → Bytes) {bno : UInt32} (bno_lt : bno.toNat < 2 ^ 29)
    (disk : s.disk = diskOf sb image) : s.view sb bno = image bno := by
  have offset : sb.sector bno - sb.lba = bno * blkSect := by
    rw [Superblock.sector, UInt32.add_comm, UInt32.add_sub_cancel]
  rw [State.view, disk, diskOf, offset]
  congr 1
  apply UInt32.toNat_inj.mp
  rw [UInt32.toNat_div, UInt32.toNat_mul, show blkSect.toNat = 8 from rfl]
  omega

end Fs
end Xv6Duo
