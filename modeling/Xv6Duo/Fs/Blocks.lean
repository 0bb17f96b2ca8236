import Xv6Duo.Fs.Cache
import Xv6Duo.Fs.Inode

/-!
# The block layer

Effect of the block operations on the bitmap and on the blocks of the card, over any cache that
the invariant admits. The bitmap is read through `used`. The bitmap blocks and the inode blocks are
metadata; no held buffer caches one of them when an operation starts.
-/

namespace Xv6Duo
namespace Fs

open ByteBlock

variable {sb : Superblock}

/-- The bytes of a block on the card. -/
def State.view (sb : Superblock) (s : State) (bno : UInt32) : Bytes := s.disk (sb.sector bno)

/-- The bit of a block in the bitmap on the card. -/
def used (sb : Superblock) (s : State) (b : UInt32) : Bool :=
  getBit (s.view sb (bblock sb b)) (bitIndex b)

/-- The block belongs to the file system. -/
def InRange (sb : Superblock) (b : UInt32) : Prop := b.toNat < sb.size.toNat

/-- The block is a data block. -/
def IsData (sb : Superblock) (b : UInt32) : Prop := sb.nmeta ≤ b.toNat ∧ b.toNat < sb.size.toNat

/-- The bitmap blocks. -/
def bitmapBlocks (sb : Superblock) : Set UInt32 := {bno | ∃ b, InRange sb b ∧ bno = bblock sb b}

/-! ## Addresses -/

theorem InRange.lt {b : UInt32} (in_range : InRange sb b) : b.toNat < 2 ^ 29 :=
  lt_of_lt_of_le in_range sb.size_le

theorem IsData.inRange {b : UInt32} (data : IsData sb b) : InRange sb b := data.2

theorem bblock_toNat {b : UInt32} (in_range : InRange sb b) :
    (bblock sb b).toNat = b.toNat / 32768 + sb.bmapstart.toNat := by
  have fits := sb.bitmap_fits
  have size_le := sb.size_le
  simp only [InRange] at in_range
  rw [bblock, UInt32.toNat_add, UInt32.toNat_div, show bpb.toNat = 32768 from rfl]
  omega

theorem bblock_lt_nmeta {b : UInt32} (in_range : InRange sb b) :
    (bblock sb b).toNat < sb.nmeta := by
  rw [bblock_toNat in_range, Superblock.nmeta]
  have fits := sb.bitmap_fits
  simp only [InRange] at in_range
  omega

theorem nmeta_le : sb.nmeta ≤ sb.size.toNat := Nat.sub_le _ _

theorem bblock_inRange {b : UInt32} (in_range : InRange sb b) : InRange sb (bblock sb b) :=
  (bblock_lt_nmeta in_range).trans_le nmeta_le

/-- Two blocks of the file system share a bit of the bitmap only if they are the same. -/
theorem bit_inj {b c : UInt32} (b_range : InRange sb b) (c_range : InRange sb c)
    (block_eq : bblock sb b = bblock sb c) (bit_eq : bitIndex b = bitIndex c) :
    b = c := by
  apply UInt32.toNat_inj.mp
  have blocks := congrArg UInt32.toNat block_eq
  rw [bblock_toNat b_range, bblock_toNat c_range] at blocks
  rw [bitIndex, bitIndex, UInt32.toNat_mod, UInt32.toNat_mod,
    show bpb.toNat = 32768 from rfl] at bit_eq
  omega

/-- A block that is not below the data blocks is not a bitmap block. -/
theorem IsData.sector_ne {b bno : UInt32} (data : IsData sb b) (bitmap : bno ∈ bitmapBlocks sb) :
    sb.sector b ≠ sb.sector bno := by
  obtain ⟨c, c_range, rfl⟩ := bitmap
  intro same
  have := Superblock.sector_inj data.inRange.lt (bblock_inRange c_range).lt same
  have lower := data.1
  rw [this] at lower
  exact absurd (bblock_lt_nmeta c_range) (not_lt.mpr lower)

theorem nmeta_pos : (0 : UInt32).toNat < sb.nmeta := by
  have boot := sb.boot_fits
  have inodes := sb.inodes_fit
  have bitmap := sb.bitmap_fits
  rw [UInt32.toNat_zero, Superblock.nmeta]
  omega

theorem IsData.ne_zero {b : UInt32} (data : IsData sb b) : b ≠ 0 := by
  rintro rfl
  exact absurd data.1 (not_le.mpr nmeta_pos)

theorem IsData.not_bitmap {b : UInt32} (data : IsData sb b) : b ∉ bitmapBlocks sb :=
  fun bitmap => data.sector_ne bitmap rfl

/-! ## Bitmap updates -/

variable {s t u : State}

/-- The operation clears the bits of `gone` and changes no block outside the bitmap. -/
structure Freed (sb : Superblock) (s t : State) (gone : Set UInt32) : Prop where
  /-- The other bits are as before. -/
  bits : ∀ c, InRange sb c → (used sb t c = true ↔ used sb s c = true ∧ c ∉ gone)
  /-- The other blocks are as before. -/
  view : ∀ bno, (∀ other ∈ bitmapBlocks sb, sb.sector bno ≠ sb.sector other) →
    t.view sb bno = s.view sb bno

theorem Freed.refl (s : State) : Freed sb s s ∅ := ⟨by simp, fun _ _ => rfl⟩

theorem Freed.trans {gone more : Set UInt32} (first : Freed sb s t gone)
    (second : Freed sb t u more) : Freed sb s u (gone ∪ more) where
  bits c c_range := by
    rw [second.bits c c_range, first.bits c c_range, Set.mem_union, not_or, and_assoc]
  view bno outside := (second.view bno outside).trans (first.view bno outside)

/-- Data blocks survive a bitmap update. -/
theorem Freed.data {gone : Set UInt32} (freed : Freed sb s t gone) {b : UInt32}
    (data : IsData sb b) : t.view sb b = s.view sb b :=
  freed.view b fun _ bitmap => data.sector_ne bitmap

theorem freed_clearBit {b : UInt32} (b_range : InRange sb b)
    (disk : t.disk = Function.update s.disk (sb.sector (bblock sb b))
      (clearBit (s.view sb (bblock sb b)) (bitIndex b))) :
    Freed sb s t {b} where
  bits c c_range := by
    rw [used, State.view, disk]
    by_cases same : bblock sb c = bblock sb b
    · rw [same, Function.update_self, getBit_clearBit]
      have bit_iff : bitIndex c = bitIndex b ↔ c = b :=
        ⟨fun bit_eq => bit_inj c_range b_range same bit_eq, fun eq => by rw [eq]⟩
      simp only [Bool.and_eq_true, Bool.not_eq_true', decide_eq_false_iff_not, bit_iff,
        Set.mem_singleton_iff, used, same, and_comm]
    · have differ : sb.sector (bblock sb c) ≠ sb.sector (bblock sb b) := fun eq =>
        same (Superblock.sector_inj (bblock_inRange c_range).lt (bblock_inRange b_range).lt eq)
      have ne : c ≠ b := fun eq => same (by rw [eq])
      rw [Function.update_of_ne differ]
      simp [used, State.view, ne]
  view bno outside := by
    rw [State.view, disk, Function.update_of_ne (outside _ ⟨b, b_range, rfl⟩)]
    rfl

/-! ## `bfree` -/

variable {held : Finset (Fin nbuf)} {trusted : Set UInt32}

/-- No held buffer caches a bitmap block. -/
def BitmapFree (sb : Superblock) (s : State) (held : Finset (Fin nbuf)) : Prop :=
  ∀ bno ∈ bitmapBlocks sb, Unheld s held (sb.sector bno)

theorem Frame.bitmapFree {touched : Set UInt32} (frame : Frame sb s t held touched)
    (free : BitmapFree sb s held) : BitmapFree sb t held :=
  fun bno mem => frame.unheld (free bno mem)

/-- `bfree` clears the bit of a block that is marked used. -/
theorem bfree_spec (good : Good sb s held trusted) (trusts : bitmapBlocks sb ⊆ trusted)
    (free : BitmapFree sb s held) (few : held.card < nbuf) {b : UInt32} (b_range : InRange sb b)
    (marked : used sb s b = true) :
    ∃ t, bfree sb s b = .ok t ∧ Good sb t held trusted ∧ Freed sb s t {b} ∧
      Frame sb s t held (bitmapBlocks sb) := by
  have bitmap : bblock sb b ∈ bitmapBlocks sb := ⟨b, b_range, rfl⟩
  obtain ⟨bp, t, read, data, -, edit⟩ := access_spec good (free _ bitmap) few
  have data_eq := data (trusts bitmap)
  obtain ⟨u, v, wrote, released, good_v, disk_v, frame⟩ :=
    edit (clearBit (t.bufs bp).data (bitIndex b))
  refine ⟨v, ?_, good_v.mono fun _ mem => Or.inr mem, ?_, ?_⟩
  · rw [used, State.view, ← data_eq] at marked
    simp [bfree, read, marked, wrote, released]
  · exact freed_clearBit b_range (by rw [disk_v, data_eq]; rfl)
  · exact frame.mono (Set.singleton_subset_iff.mpr bitmap)

/-- `bfree` panics on a block that is marked free. -/
theorem bfree_error (good : Good sb s held trusted) (trusts : bitmapBlocks sb ⊆ trusted)
    (free : BitmapFree sb s held) (few : held.card < nbuf) {b : UInt32} (b_range : InRange sb b)
    (unmarked : used sb s b = false) : bfree sb s b = .error .freeingFreeBlock := by
  have bitmap : bblock sb b ∈ bitmapBlocks sb := ⟨b, b_range, rfl⟩
  obtain ⟨bp, t, read, data, -⟩ := access_spec good (free _ bitmap) few
  rw [used, State.view, ← data (trusts bitmap)] at unmarked
  simp [bfree, read, unmarked]

/-! ## The inode on disk -/

theorem iblock_toNat {inum : UInt32} (inum_lt : inum.toNat < sb.ninodes.toNat) :
    (iblock sb inum).toNat = inum.toNat / 32 + sb.inodestart.toNat := by
  have inodes := sb.inodes_fit
  have bitmap := sb.bitmap_fits
  have size_le := sb.size_le
  rw [iblock, UInt32.toNat_add, UInt32.toNat_div, show ipb.toNat = 32 from rfl]
  omega

theorem iblock_lt_bmapstart {inum : UInt32} (inum_lt : inum.toNat < sb.ninodes.toNat) :
    (iblock sb inum).toNat < sb.bmapstart.toNat := by
  have inodes := sb.inodes_fit
  rw [iblock_toNat inum_lt]
  omega

theorem iblock_lt_nmeta {inum : UInt32} (inum_lt : inum.toNat < sb.ninodes.toNat) :
    (iblock sb inum).toNat < sb.nmeta := by
  have bitmap := sb.bitmap_fits
  have := iblock_lt_bmapstart inum_lt
  rw [Superblock.nmeta]
  omega

theorem iblock_inRange {inum : UInt32} (inum_lt : inum.toNat < sb.ninodes.toNat) :
    InRange sb (iblock sb inum) :=
  (iblock_lt_nmeta inum_lt).trans_le nmeta_le

/-- Inode blocks are not bitmap blocks. -/
theorem iblock_sector_ne {inum bno : UInt32} (inum_lt : inum.toNat < sb.ninodes.toNat)
    (bitmap : bno ∈ bitmapBlocks sb) : sb.sector (iblock sb inum) ≠ sb.sector bno := by
  obtain ⟨b, b_range, rfl⟩ := bitmap
  intro same
  have eq := Superblock.sector_inj (iblock_inRange inum_lt).lt (bblock_inRange b_range).lt same
  have lower := iblock_lt_bmapstart inum_lt
  rw [eq, bblock_toNat b_range] at lower
  omega

/-- The words of a run of stores. -/
theorem getWord_foldl_setWord (block : Bytes) (base : Nat) (word : Nat → UInt32) (count i : Nat) :
    getWord ((List.range count).foldl (fun bytes k => setWord bytes (base + k) (word k)) block) i =
      if base ≤ i ∧ i < base + count then word (i - base) else getWord block i := by
  induction count with
  | zero =>
      rw [if_neg (by omega)]
      rfl
  | succ count ih =>
      rw [List.range_succ, List.foldl_append, List.foldl_cons, List.foldl_nil, getWord_setWord, ih]
      by_cases last : i = base + count
      · rw [if_pos last, if_pos (by omega), last, Nat.add_sub_cancel_left]
      · rw [if_neg last]
        by_cases inside : base ≤ i ∧ i < base + count
        · rw [if_pos inside, if_pos (by omega)]
        · rw [if_neg inside, if_neg (by omega)]

theorem getWord_storeDinode (block : Bytes) (ip : Inode) (i : Nat) :
    getWord (storeDinode block ip) i =
      if 32 * dinodeIndex ip.inum ≤ i ∧ i < 32 * dinodeIndex ip.inum + 31 then
        dinodeWord ip (i - 32 * dinodeIndex ip.inum)
      else getWord block i :=
  getWord_foldl_setWord block _ _ 31 i

theorem lowHalf_pair (low high : UInt16) : lowHalf (pair low high) = low := by
  apply UInt16.toNat_inj.mp
  have := low.toNat_lt
  have := high.toNat_lt
  simp only [lowHalf, pair, UInt16.toNat_ofNat', UInt32.toNat_ofNat']
  omega

theorem highHalf_pair (low high : UInt16) : highHalf (pair low high) = high := by
  apply UInt16.toNat_inj.mp
  have := low.toNat_lt
  have := high.toNat_lt
  simp only [highHalf, pair, UInt16.toNat_ofNat', UInt32.toNat_ofNat']
  omega

theorem wide_words (field : UInt64) : wide (lowWord field) (highWord field) = field := by
  apply UInt64.toNat_inj.mp
  have := field.toNat_lt
  simp only [wide, lowWord, highWord, UInt64.toNat_ofNat', UInt32.toNat_ofNat']
  omega

/-- Loading a stored inode gives it back. -/
theorem loadDinode_storeDinode (block : Bytes) (ip : Inode) :
    loadDinode (storeDinode block ip) ip.inum = ip := by
  have word : ∀ k < 31, getWord (storeDinode block ip) (32 * dinodeIndex ip.inum + k) =
      dinodeWord ip k := by
    intro k k_lt
    rw [getWord_storeDinode, if_pos (by omega), Nat.add_sub_cancel_left]
  simp only [loadDinode, word 0 (by omega), word 1 (by omega), word 2 (by omega),
    word 3 (by omega), word 4 (by omega), word 5 (by omega), word 6 (by omega),
    word 7 (by omega), word 8 (by omega), word 9 (by omega), word 10 (by omega),
    word 11 (by omega), word 12 (by omega), word 13 (by omega), word 14 (by omega),
    word 15 (by omega), word 16 (by omega), word 17 (by omega)]
  simp only [dinodeWord, lowHalf_pair, highHalf_pair, wide_words]
  have addrs : (fun i : Fin 13 => getWord (storeDinode block ip)
      (32 * dinodeIndex ip.inum + (18 + i))) = ip.addrs := by
    funext i
    rw [word (18 + i) (by omega), Nat.add_comm, dinodeWord, dif_pos i.isLt]
  rw [addrs]

/-- Storing an inode leaves the other inodes of the block. -/
theorem loadDinode_storeDinode_of_ne (block : Bytes) (ip : Inode) {inum : UInt32}
    (differ : dinodeIndex inum ≠ dinodeIndex ip.inum) :
    loadDinode (storeDinode block ip) inum = loadDinode block inum := by
  have word : ∀ k < 32, getWord (storeDinode block ip) (32 * dinodeIndex inum + k) =
      getWord block (32 * dinodeIndex inum + k) := by
    intro k k_lt
    rw [getWord_storeDinode, if_neg (by omega)]
  have addrs : (fun i : Fin 13 => getWord (storeDinode block ip)
      (32 * dinodeIndex inum + (18 + i))) =
      fun i : Fin 13 => getWord block (32 * dinodeIndex inum + (18 + i)) := by
    funext i
    exact word (18 + i) (by omega)
  simp only [loadDinode, addrs, word 0 (by omega), word 1 (by omega), word 2 (by omega),
    word 3 (by omega), word 4 (by omega), word 5 (by omega), word 6 (by omega),
    word 7 (by omega), word 8 (by omega), word 9 (by omega), word 10 (by omega),
    word 11 (by omega), word 12 (by omega), word 13 (by omega), word 14 (by omega),
    word 15 (by omega), word 16 (by omega), word 17 (by omega)]

/-- The inode `inum` as it is on the card. -/
def onDisk (sb : Superblock) (s : State) (inum : UInt32) : Inode :=
  loadDinode (s.view sb (iblock sb inum)) inum

/-- `iupdate` stores the inode in its block and changes nothing else. -/
theorem iupdate_spec (good : Good sb s held trusted) {ip : Inode}
    (free : Unheld s held (sb.sector (iblock sb ip.inum)))
    (trusts : iblock sb ip.inum ∈ trusted) (few : held.card < nbuf) :
    ∃ t, iupdate sb s ip = .ok t ∧ Good sb t held trusted ∧
      t.disk = Function.update s.disk (sb.sector (iblock sb ip.inum))
        (storeDinode (s.view sb (iblock sb ip.inum)) ip) ∧
      Frame sb s t held {iblock sb ip.inum} := by
  obtain ⟨bp, t, read, data, -, edit⟩ := access_spec good free few
  obtain ⟨u, v, wrote, released, good_v, disk_v, frame⟩ :=
    edit (storeDinode (t.bufs bp).data ip)
  refine ⟨v, by simp [iupdate, read, wrote, released], good_v.mono fun _ mem => Or.inr mem, ?_,
    frame⟩
  rw [disk_v, data trusts]
  rfl

end Fs
end Xv6Duo
