import Xv6Duo.Fs.Volume

/-!
# Mapping file blocks

`bmap` follows the path from `addrs` to the slot of a file block and fills the empty slots it meets.
Each of its parts either reads a slot or fills it with a fresh block, so a call of `bmap` is a short
run of fillings; `Kept` collects what such runs leave alone, and everything later said about files
is derived from one filling.
-/

namespace Xv6Duo
namespace Fs

open ByteBlock

namespace Volume

variable {sb : Superblock} {v w : Volume} {i : UInt32} {slot : Slot} {b : UInt32}

/-! ## One filling -/

/-- The effect on the card of storing a fresh block number in a slot. -/
structure StoredIn (sb : Superblock) (v w : Volume) (i : UInt32) (slot : Slot) (b : UInt32) :
    Prop where
  /-- A word of `addrs` is stored in the inode. -/
  inodes : w.inodes = Function.update v.inodes i (fillInode (v.inodes i) slot b)
  /-- The fresh block is zero. -/
  zero : w.state.view sb b = zeros
  /-- An entry is stored in the block that holds it. -/
  holder : ∀ p, slot.parent = some p → w.state.view sb (v.block sb i p) =
    setWord (v.state.view sb (v.block sb i p)) slot.index b
  /-- Other blocks outside the bitmap are as before. -/
  view : ∀ c, InRange sb c → c ∉ bitmapBlocks sb → c ≠ b →
    (∀ p, slot.parent = some p → c ≠ v.block sb i p) → w.state.view sb c = v.state.view sb c

/-- The slots after one store. The children of the filled slot stay empty because the fresh block is
zero; the siblings share its block but not its word. -/
theorem blocks_of_stored (wf : v.WellFormed sb) (live : v.Live sb i)
    (absent : v.block sb i slot = 0)
    (holder_present : ∀ p, slot.parent = some p → v.block sb i p ≠ 0)
    (unmarked : used sb v.state b = false) (b_ne : b ≠ 0) (stored : StoredIn sb v w i slot b)
    {j : UInt32} (live_j : v.Live sb j) (slot' : Slot) :
    w.block sb j slot' = if j = i ∧ slot' = slot then b else v.block sb j slot' := by
  induction slot' using Slot.parent_induction with
  | step slot' ih =>
      cases parent_eq : slot'.parent with
      | none =>
          cases slot' with
          | addr a =>
              simp only [block, slotBlock, stored.inodes]
              by_cases same : j = i
              · subst same
                rw [Function.update_self]
                cases slot with
                | addr a' =>
                    by_cases same_slot : a = a'
                    · subst same_slot
                      simp [fillInode, Inode.setAddr]
                    · simp [fillInode, Inode.setAddr, same_slot]
                | entry _ => simp [fillInode]
                | table _ => simp [fillInode]
                | leaf _ _ => simp [fillInode]
              · rw [Function.update_of_ne same, if_neg fun both => same both.1]
          | entry _ => simp [Slot.parent] at parent_eq
          | table _ => simp [Slot.parent] at parent_eq
          | leaf _ _ => simp [Slot.parent] at parent_eq
      | some p' =>
          rw [block_of_parent parent_eq, ih p' parent_eq]
          by_cases child : j = i ∧ p' = slot
          · obtain ⟨rfl, rfl⟩ := child
            have not_self : slot' ≠ p' := by
              rintro rfl
              exact Slot.parent_ne_self _ parent_eq
            rw [if_pos ⟨rfl, rfl⟩, if_neg fun both => not_self both.2, entryOf_of_ne b_ne,
              stored.zero, getWord_zeros, block_of_parent parent_eq, absent]
            simp [entryOf]
          · rw [if_neg child]
            by_cases empty : v.block sb j p' = 0
            · have not_slot : ¬(j = i ∧ slot' = slot) := by
                rintro ⟨rfl, rfl⟩
                exact holder_present p' parent_eq empty
              rw [if_neg not_slot, block_of_parent parent_eq, empty]
              simp [entryOf]
            · have data := wf.data j live_j p' empty
              rw [entryOf_of_ne empty]
              by_cases sibling : j = i ∧ slot.parent = some p'
              · obtain ⟨rfl, slot_parent⟩ := sibling
                rw [stored.holder p' slot_parent, getWord_setWord, block_of_parent parent_eq,
                  entryOf_of_ne empty]
                by_cases same_index : slot'.index = slot.index
                · have := Slot.eq_of_parent_index parent_eq slot_parent same_index
                  rw [if_pos same_index, if_pos ⟨rfl, this⟩]
                · have differ : slot' ≠ slot := fun eq => same_index (by rw [eq])
                  rw [if_neg same_index, if_neg fun both => differ both.2]
              · have not_slot : ¬(j = i ∧ slot' = slot) := by
                  rintro ⟨rfl, rfl⟩
                  exact sibling ⟨rfl, parent_eq⟩
                have not_holder : ∀ p, slot.parent = some p →
                    v.block sb j p' ≠ v.block sb i p := by
                  intro p slot_parent same
                  obtain ⟨rfl, rfl⟩ := wf.distinct j i live_j live p' p empty same
                  exact sibling ⟨rfl, slot_parent⟩
                have not_fresh : v.block sb j p' ≠ b := by
                  intro same
                  have marked := wf.marked j live_j p' empty
                  rw [same, unmarked] at marked
                  exact absurd marked (by simp)
                rw [if_neg not_slot, block_of_parent parent_eq, entryOf_of_ne empty,
                  stored.view _ data.inRange data.not_bitmap not_fresh not_holder]

theorem filled_of_stored (wf : v.WellFormed sb) (live : v.Live sb i)
    (absent : v.block sb i slot = 0)
    (holder_present : ∀ p, slot.parent = some p → v.block sb i p ≠ 0) (b_range : InRange sb b)
    (unmarked : used sb v.state b = false)
    (bits : ∀ c, InRange sb c → (used sb w.state c = true ↔ used sb v.state c = true ∨ c = b))
    (stored : StoredIn sb v w i slot b) : Filled sb v w i slot b := by
  have data : IsData sb b := by
    refine ⟨?_, b_range⟩
    by_contra below
    have := wf.reserved b (not_le.mp below)
    rw [unmarked] at this
    exact absurd this (by simp)
  refine ⟨absent, holder_present, unmarked, data, bits, ?_, stored.inodes, ?_⟩
  · intro j slot' live_j
    exact blocks_of_stored wf live absent holder_present unmarked data.ne_zero stored live_j slot'
  · intro c c_range not_bitmap marked not_holder
    refine stored.view c c_range not_bitmap ?_ not_holder
    rintro rfl
    rw [unmarked] at marked
    exact absurd marked (by simp)

/-! ## Room -/

/-- The free blocks of the volume. -/
def freeBlocks (sb : Superblock) (v : Volume) : Finset Nat :=
  (Finset.range sb.size.toNat).filter fun c => used sb v.state (UInt32.ofNat c) = false

/-- The empty ones of some slots of an inode. -/
def emptySlots (sb : Superblock) (v : Volume) (i : UInt32) (slots : Finset Slot) : Finset Slot :=
  slots.filter fun slot => v.block sb i slot = 0

/-- There are enough free blocks to fill the given slots of an inode. -/
def Room (sb : Superblock) (v : Volume) (i : UInt32) (slots : Finset Slot) : Prop :=
  (v.emptySlots sb i slots).card ≤ (v.freeBlocks sb).card

variable {slots : Finset Slot}

theorem Room.exists_free (room : v.Room sb i slots) (mem : slot ∈ slots)
    (absent : v.block sb i slot = 0) : ∃ c, InRange sb c ∧ used sb v.state c = false := by
  have nonempty : 0 < (v.freeBlocks sb).card := by
    refine lt_of_lt_of_le (Finset.card_pos.mpr ⟨slot, ?_⟩) room
    exact Finset.mem_filter.mpr ⟨mem, absent⟩
  obtain ⟨c, c_mem⟩ := Finset.card_pos.mp nonempty
  obtain ⟨c_lt, c_free⟩ := Finset.mem_filter.mp c_mem
  have size_le := sb.size_le
  rw [Finset.mem_range] at c_lt
  refine ⟨UInt32.ofNat c, ?_, c_free⟩
  rw [InRange, UInt32.toNat_ofNat', Nat.mod_eq_of_lt (by omega)]
  exact c_lt

/-- Between two volumes as many free blocks have been used as slots have been filled. -/
def Balanced (sb : Superblock) (v w : Volume) (i : UInt32) (slots : Finset Slot) : Prop :=
  (w.freeBlocks sb).card + (v.emptySlots sb i slots).card =
    (v.freeBlocks sb).card + (w.emptySlots sb i slots).card

theorem Balanced.room_iff (balanced : Balanced sb v w i slots) :
    w.Room sb i slots ↔ v.Room sb i slots := by
  rw [Balanced] at balanced
  rw [Room, Room]
  omega

/-- Filling a slot takes one free block and one empty slot. -/
theorem Filled.balanced (filled : Filled sb v w i slot b) (live : v.Live sb i)
    (mem : slot ∈ slots) : Balanced sb v w i slots := by
  have size_le := sb.size_le
  have slots_eq : w.emptySlots sb i slots = (v.emptySlots sb i slots).erase slot := by
    ext slot'
    simp only [emptySlots, Finset.mem_filter, Finset.mem_erase, filled.blocks i slot' live,
      true_and]
    by_cases same : slot' = slot
    · simp [same, filled.data.ne_zero]
    · simp [same]
  have free_eq : w.freeBlocks sb = (v.freeBlocks sb).erase b.toNat := by
    ext c
    simp only [freeBlocks, Finset.mem_filter, Finset.mem_range, Finset.mem_erase]
    by_cases c_lt : c < sb.size.toNat
    · have value : (UInt32.ofNat c).toNat = c := by
        rw [UInt32.toNat_ofNat', Nat.mod_eq_of_lt (by omega)]
      have bits := filled.bits (UInt32.ofNat c) (by rwa [InRange, value])
      have same_iff : UInt32.ofNat c = b ↔ c = b.toNat := by
        rw [← UInt32.toNat_inj, value]
      rw [← Bool.not_eq_true, bits, same_iff, ← Bool.not_eq_true]
      tauto
    · simp [c_lt]
  have slot_mem : slot ∈ v.emptySlots sb i slots := Finset.mem_filter.mpr ⟨mem, filled.absent⟩
  have free_mem : b.toNat ∈ v.freeBlocks sb := by
    refine Finset.mem_filter.mpr ⟨Finset.mem_range.mpr filled.data.inRange, ?_⟩
    rw [UInt32.ofNat_toNat]
    exact filled.unmarked
  have some_slot := Finset.card_pos.mpr ⟨slot, slot_mem⟩
  have some_free := Finset.card_pos.mpr ⟨b.toNat, free_mem⟩
  rw [Balanced, slots_eq, free_eq, Finset.card_erase_of_mem slot_mem,
    Finset.card_erase_of_mem free_mem]
  omega

theorem Balanced.refl : Balanced sb v v i slots := rfl

theorem Balanced.trans {x : Volume} (first : Balanced sb v w i slots)
    (second : Balanced sb w x i slots) : Balanced sb v x i slots := by
  rw [Balanced] at *
  omega

/-- Nothing is used and nothing filled when slots and bits are as before. -/
theorem Balanced.of_blocks (blocks : ∀ slot, w.block sb i slot = v.block sb i slot)
    (bits : ∀ c, InRange sb c → used sb w.state c = used sb v.state c) :
    Balanced sb v w i slots := by
  have slots_eq : w.emptySlots sb i slots = v.emptySlots sb i slots :=
    Finset.filter_congr fun slot _ => by rw [blocks]
  have free_eq : w.freeBlocks sb = v.freeBlocks sb := by
    refine Finset.filter_congr fun c mem => ?_
    have size_le := sb.size_le
    rw [Finset.mem_range] at mem
    rw [bits]
    rw [InRange, UInt32.toNat_ofNat', Nat.mod_eq_of_lt (by omega)]
    exact mem
  rw [Balanced, slots_eq, free_eq]

theorem balanced_congr {s : State} (disk : s.disk = v.state.disk) :
    Balanced sb v ⟨s, v.inodes⟩ i slots :=
  Balanced.of_blocks (fun slot => by simp only [block, view_congr disk])
    fun c _ => used_congr disk c

/-! ## Runs of fillings -/

theorem WellFormed.of_disk (wf : v.WellFormed sb) {s : State} (disk : s.disk = v.state.disk) :
    WellFormed sb ⟨s, v.inodes⟩ where
  inum := wf.inum
  data := by simpa only [Live, block, view_congr disk] using wf.data
  marked := by simpa only [Live, block, view_congr disk, used_congr disk] using wf.marked
  distinct := by simpa only [Live, block, view_congr disk] using wf.distinct
  reserved b below := (used_congr disk b).trans (wf.reserved b below)
  noHole := by simpa only [Live, block, view_congr disk] using wf.noHole

/-- Slots that are not parents of others, as those of file blocks. -/
theorem fileSlot_ne_parent (bn : Nat) {slot p : Slot} (parent_eq : slot.parent = some p) :
    fileSlot bn ≠ p := by
  rintro rfl
  rw [fileSlot] at parent_eq
  split at parent_eq
  · next direct =>
      simp only [ndirect] at direct
      cases slot <;>
        simp [Slot.parent, indirectSlot, indirect2Slot, Fin.ext_iff] at parent_eq <;> omega
  · split at parent_eq <;> cases slot <;> simp [Slot.parent] at parent_eq

/-- What every change to inode `i` leaves alone, when it fills at most the given slots. -/
structure Stays (sb : Superblock) (v w : Volume) (i : UInt32) (slots : Finset Slot) : Prop where
  /-- The volume stays well formed. -/
  wellFormed : w.WellFormed sb
  /-- Inodes change only in their block numbers. -/
  fields : ∀ j, w.inodes j = { v.inodes j with addrs := (w.inodes j).addrs }
  /-- Other inodes do not change. -/
  others : ∀ j, j ≠ i → w.inodes j = v.inodes j
  /-- Filled slots do not change. -/
  stable : ∀ j slot, v.Live sb j → v.block sb j slot ≠ 0 → w.block sb j slot = v.block sb j slot
  /-- Used blocks stay used. -/
  marked : ∀ c, InRange sb c → used sb v.state c = true → used sb w.state c = true
  /-- Metadata outside the bitmap keeps its bytes. -/
  metadata : ∀ c, c.toNat < sb.nmeta → c ∉ bitmapBlocks sb →
    w.state.view sb c = v.state.view sb c
  /-- Nothing leaks. -/
  noLeak : v.NoLeak sb → w.NoLeak sb
  /-- Room for the slots remains. -/
  room : v.Room sb i slots → w.Room sb i slots

/-- What filling some slots of inode `i` leaves alone. -/
structure Kept (sb : Superblock) (v w : Volume) (i : UInt32) (slots : Finset Slot) : Prop
    extends Stays sb v w i slots where
  /-- File blocks keep their bytes. -/
  bytes : ∀ j bn, v.Live sb j → v.block sb j (fileSlot bn) ≠ 0 →
    w.state.view sb (v.block sb j (fileSlot bn)) = v.state.view sb (v.block sb j (fileSlot bn))

theorem Stays.live (stays : Stays sb v w i slots) (j : UInt32) : w.Live sb j ↔ v.Live sb j := by
  simp only [Live]
  rw [stays.fields j]

theorem Stays.refl (wf : v.WellFormed sb) : Stays sb v v i slots where
  wellFormed := wf
  fields _ := rfl
  others _ _ := rfl
  stable _ _ _ _ := rfl
  marked _ _ marked := marked
  metadata _ _ _ := rfl
  noLeak tight := tight
  room room := room

theorem Kept.refl (wf : v.WellFormed sb) : Kept sb v v i slots where
  toStays := Stays.refl wf
  bytes _ _ _ _ := rfl

theorem Stays.trans {x : Volume} (first : Stays sb v w i slots) (second : Stays sb w x i slots) :
    Stays sb v x i slots where
  wellFormed := second.wellFormed
  fields j := by rw [second.fields j, first.fields j]
  others j differ := (second.others j differ).trans (first.others j differ)
  stable j slot live present := by
    have same := first.stable j slot live present
    rw [second.stable j slot ((first.live j).mpr live) (same ▸ present), same]
  marked c c_range marked := second.marked c c_range (first.marked c c_range marked)
  metadata c below not_bitmap :=
    (second.metadata c below not_bitmap).trans (first.metadata c below not_bitmap)
  noLeak tight := second.noLeak (first.noLeak tight)
  room room := second.room (first.room room)

theorem Kept.trans {x : Volume} (first : Kept sb v w i slots) (second : Kept sb w x i slots) :
    Kept sb v x i slots where
  toStays := first.toStays.trans second.toStays
  bytes j bn live present := by
    have same := first.stable j (fileSlot bn) live present
    have step := second.bytes j bn ((first.live j).mpr live) (same ▸ present)
    rw [same] at step
    rw [step, first.bytes j bn live present]

/-- A change of the cache alone. -/
theorem Kept.recache {s : State} (wf : v.WellFormed sb) (disk : s.disk = v.state.disk) :
    Kept sb v ⟨s, v.inodes⟩ i slots where
  wellFormed := wf.of_disk disk
  fields _ := rfl
  others _ _ := rfl
  stable j slot _ _ := by simp only [block, view_congr disk]
  marked c _ marked := (used_congr disk c).trans marked
  metadata c _ _ := by rw [view_congr disk]
  noLeak := by
    simpa only [NoLeak, Live, block, view_congr disk, used_congr disk] using id
  room := (balanced_congr disk).room_iff.mpr
  bytes j bn _ _ := by rw [view_congr disk]

/-- One filling. -/
theorem Kept.fill (wf : v.WellFormed sb) (live : v.Live sb i) (mem : slot ∈ slots)
    (filled : Filled sb v w i slot b) : Kept sb v w i slots where
  wellFormed := filled.wellFormed wf
  fields j := by
    rw [filled.inodes]
    by_cases same : j = i
    · subst same
      rw [Function.update_self, fillInode_fields]
    · rw [Function.update_of_ne same]
  others j differ := by rw [filled.inodes, Function.update_of_ne differ]
  stable _ _ := filled.stable
  marked c c_range marked := (filled.bits c c_range).mpr (Or.inl marked)
  metadata c below not_bitmap := by
    refine filled.view c (below.trans_le nmeta_le) not_bitmap (wf.reserved c below)
      fun p parent_eq eq => ?_
    have data := wf.data i live p (filled.holder p parent_eq)
    rw [← eq] at data
    exact absurd data.1 (not_le.mpr below)
  noLeak := filled.noLeak live
  room := (filled.balanced live mem).room_iff.mpr
  bytes j bn live_j present := by
    have data := wf.data j live_j _ present
    refine filled.view _ data.inRange data.not_bitmap (wf.marked j live_j _ present)
      fun p parent_eq eq => ?_
    exact fileSlot_ne_parent bn parent_eq (wf.distinct j i live_j live _ p present eq).2

/-! ## The parts of `bmap` -/

/-- What a part of `bmap` does: it returns the block in a slot, after filling it if need be. -/
structure Mapped (sb : Superblock) (v w : Volume) (i : UInt32) (slots : Finset Slot) (slot : Slot)
    (addr : UInt32) : Prop where
  /-- Slots are only filled. -/
  kept : Kept sb v w i slots
  /-- No buffer stays busy. -/
  idle : Idle sb w.state
  /-- The result is the block in the slot. -/
  block : w.block sb i slot = addr
  /-- There is one. -/
  present : addr ≠ 0

/-- Nothing is busy and the fresh block is trusted. -/
theorem idle_of_good {s t : State} {extra : Set UInt32}
    (good : Good sb t ∅ (extra ∪ insert b (allocated sb s)))
    (bits : ∀ c, InRange sb c → (used sb t c = true ↔ used sb s c = true ∨ c = b)) :
    Idle sb t := by
  refine good.mono ?_
  rintro c (below | ⟨c_range, marked⟩)
  · exact Or.inr (Or.inr (Or.inl below))
  · obtain old | rfl := (bits c c_range).mp marked
    · exact Or.inr (Or.inr (Or.inr ⟨c_range, old⟩))
    · exact Or.inr (Or.inl rfl)

theorem WellFormed.free_not_bitmap (wf : v.WellFormed sb) {c : UInt32}
    (free : used sb v.state c = false) : c ∉ bitmapBlocks sb := by
  rintro ⟨d, d_range, rfl⟩
  have := wf.reserved _ (bblock_lt_nmeta d_range)
  rw [free] at this
  exact absurd this (by simp)

/-- The part of `bmap` for an empty word of `addrs` fills it while there is a free block. -/
theorem bmapAddr_fills (wf : v.WellFormed sb) (idle : Idle sb v.state) (live : v.Live sb i)
    {a : Fin 13} (absent : (v.inodes i).addrs a = 0)
    (some_free : ∃ c, InRange sb c ∧ used sb v.state c = false) :
    ∃ b ip t, bmapAddr sb v.state (v.inodes i) a = .ok (b, ip, t) ∧
      Filled sb v ⟨t, Function.update v.inodes i ip⟩ i (.addr a) b ∧ Idle sb t := by
  obtain ⟨b, t, alloc, balloced, good, -⟩ := balloc_spec idle bitmapBlocks_subset_allocated
    bitmapFree_empty (by decide) (fun _ _ _ => unheld_empty)
    (fun c _ free => wf.free_not_bitmap free) some_free
  have stored : StoredIn sb v ⟨t, Function.update v.inodes i ((v.inodes i).setAddr a b)⟩ i
      (.addr a) b := by
    refine ⟨rfl, balloced.zero, by simp [Slot.parent], ?_⟩
    intro c c_range not_bitmap ne _
    exact balloced.view c c_range not_bitmap ne
  have filled := filled_of_stored wf live (show v.block sb i (.addr a) = 0 from absent)
    (by simp [Slot.parent])
    balloced.inRange
    balloced.unmarked balloced.bits stored
  refine ⟨b, _, t, by simp [bmapAddr, absent, alloc], filled, ?_⟩
  have good' : Good sb t ∅ (∅ ∪ insert b (allocated sb v.state)) := by simpa using good
  exact idle_of_good good' balloced.bits

/-- The part of `bmap` for a word of `addrs`. -/
theorem bmapAddr_spec (wf : v.WellFormed sb) (idle : Idle sb v.state) (live : v.Live sb i)
    {a : Fin 13} (mem : .addr a ∈ slots) (room : v.Room sb i slots) :
    ∃ addr ip t, bmapAddr sb v.state (v.inodes i) a = .ok (addr, ip, t) ∧
      Mapped sb v ⟨t, Function.update v.inodes i ip⟩ i slots (.addr a) addr := by
  by_cases absent : (v.inodes i).addrs a = 0
  · obtain ⟨b, ip, t, run, filled, idle_t⟩ :=
      bmapAddr_fills wf idle live absent (room.exists_free mem absent)
    exact ⟨b, ip, t, run, Kept.fill wf live mem filled, idle_t, filled.block_self live,
      filled.data.ne_zero⟩
  · refine ⟨(v.inodes i).addrs a, v.inodes i, v.state, by simp [bmapAddr, absent], ?_⟩
    rw [Function.update_eq_self]
    exact ⟨Kept.refl wf, idle, rfl, absent⟩

/-- A filled slot lies in a block that is there. -/
theorem present_of_parent {p : Slot} (parent_eq : slot.parent = some p)
    (present : v.block sb i slot ≠ 0) : v.block sb i p ≠ 0 := by
  intro zero
  rw [block_of_parent parent_eq, zero] at present
  simp [entryOf] at present

/-- The part of `bmap` for an entry that is filled only reads. -/
theorem bmapEntry_present (wf : v.WellFormed sb) (idle : Idle sb v.state) (live : v.Live sb i)
    {p : Slot} (parent_eq : slot.parent = some p) (present : v.block sb i slot ≠ 0) :
    ∃ t, bmapEntry sb v.state (v.block sb i p) slot.index = .ok (v.block sb i slot, t) ∧
      t.disk = v.state.disk ∧ Idle sb t := by
  have holder := present_of_parent parent_eq present
  have trusted : v.block sb i p ∈ allocated sb v.state :=
    Or.inr ⟨(wf.data i live p holder).inRange, wf.marked i live p holder⟩
  obtain ⟨bp, t, read, data, ⟨u, released, good_u, disk_u, -⟩, -⟩ :=
    access_spec idle unheld_empty (by decide)
  have word_eq : getWord (t.bufs bp).data slot.index = v.block sb i slot := by
    rw [data trusted, block_of_parent parent_eq, entryOf_of_ne holder]
    rfl
  refine ⟨u, ?_, disk_u, (allocated_congr disk_u ▸ good_u : Good sb u ∅ (allocated sb u))⟩
  simp only [bmapEntry, read, Except.ok_bind, word_eq, present, if_false, released,
    Except.pure_eq_ok]

/-- The part of `bmap` for an empty entry of a block fills it while there is a free block. -/
theorem bmapEntry_fills (wf : v.WellFormed sb) (idle : Idle sb v.state) (live : v.Live sb i)
    {p : Slot} (parent_eq : slot.parent = some p) (holder : v.block sb i p ≠ 0)
    (absent : v.block sb i slot = 0)
    (some_free : ∃ c, InRange sb c ∧ used sb v.state c = false) :
    ∃ b t, bmapEntry sb v.state (v.block sb i p) slot.index = .ok (b, t) ∧
      Filled sb v ⟨t, v.inodes⟩ i slot b ∧ Idle sb t := by
  set h := v.block sb i p with h_eq
  have h_data : IsData sb h := wf.data i live p holder
  have h_marked : used sb v.state h = true := wf.marked i live p holder
  have h_trusted : h ∈ allocated sb v.state := Or.inr ⟨h_data.inRange, h_marked⟩
  obtain ⟨bp, t, read, fetched⟩ := bread_spec idle unheld_empty (by decide)
  have data_eq : (t.bufs bp).data = v.state.view sb h := fetched.data h h_trusted rfl
  have word_eq : getWord (t.bufs bp).data slot.index = v.block sb i slot := by
    rw [data_eq, block_of_parent parent_eq, ← h_eq, entryOf_of_ne holder]
  have unheld : ∀ c, InRange sb c → used sb t c = false →
      Unheld t (insert bp ∅) (sb.sector c) := by
    intro c c_range free a a_mem same
    obtain rfl : a = bp := by simpa using a_mem
    rw [fetched.blockno] at same
    have := Superblock.sector_inj h_data.inRange.lt c_range.lt same
    rw [used_congr fetched.disk, ← this, h_marked] at free
    exact absurd free (by simp)
  have bitmap_free : BitmapFree sb t (insert bp ∅) := by
    intro bno bitmap a a_mem
    obtain rfl : a = bp := by simpa using a_mem
    rw [fetched.blockno]
    exact h_data.sector_ne bitmap
  obtain ⟨c, c_range, c_free⟩ := some_free
  obtain ⟨b, u, alloc, balloced, good_u, frame_u⟩ := balloc_spec fetched.good
    bitmapBlocks_subset_allocated bitmap_free
    ((Finset.card_insert_le _ _).trans_lt (by decide)) unheld
    (fun c _ free => wf.free_not_bitmap ((used_congr fetched.disk c).symm.trans free))
    ⟨c, c_range, (used_congr fetched.disk c).trans c_free⟩
  replace balloced := balloced.congr fetched.disk
  have buf_u : u.bufs bp = t.bufs bp := frame_u.bufs bp (Finset.mem_insert_self bp ∅)
  obtain ⟨x, y, wrote, released, good_y, disk_y, -⟩ :=
    store_spec fetched.fresh good_u (by rw [buf_u]; exact fetched.blockno)
    (setWord (u.bufs bp).data slot.index b)
  rw [buf_u, data_eq] at disk_y
  have fresh_ne : h ≠ b := by
    rintro rfl
    rw [balloced.unmarked] at h_marked
    exact absurd h_marked (by simp)
  have view_y : ∀ bno, InRange sb bno → bno ≠ h → y.view sb bno = u.view sb bno := by
    intro bno bno_range differ
    have apart : sb.sector bno ≠ sb.sector h := fun eq =>
      differ (Superblock.sector_inj bno_range.lt h_data.inRange.lt eq)
    rw [State.view, disk_y, Function.update_of_ne apart]
    rfl
  have bits : ∀ c, InRange sb c →
      (used sb y c = true ↔ used sb v.state c = true ∨ c = b) := by
    intro c c_range
    have differ : bblock sb c ≠ h := by
      rintro eq
      exact h_data.not_bitmap (eq ▸ ⟨c, c_range, rfl⟩)
    rw [← balloced.bits c c_range, used, view_y _ (bblock_inRange c_range) differ]
    rfl
  have stored : StoredIn sb v ⟨y, v.inodes⟩ i slot b := by
    refine ⟨?_, ?_, ?_, ?_⟩
    · cases slot with
      | addr _ => simp [Slot.parent] at parent_eq
      | entry _ => simp [fillInode]
      | table _ => simp [fillInode]
      | leaf _ _ => simp [fillInode]
    · exact (view_y b balloced.inRange fresh_ne.symm).trans balloced.zero
    · intro q slot_parent
      obtain rfl : p = q := by simpa [parent_eq] using slot_parent
      rw [← h_eq, State.view, disk_y, Function.update_self]
    · intro c c_range not_bitmap ne not_holder
      exact (view_y c c_range (not_holder p parent_eq)).trans
        (balloced.view c c_range not_bitmap ne)
  have filled := filled_of_stored wf live absent
    (by intro q slot_parent; obtain rfl : p = q := by simpa [parent_eq] using slot_parent
        exact holder)
    balloced.inRange balloced.unmarked bits stored
  refine ⟨b, y, ?_, filled, idle_of_good good_y bits⟩
  simp only [bmapEntry, read, Except.ok_bind, word_eq, absent, if_true, alloc,
    filled.data.ne_zero, if_false, wrote, released, Except.pure_eq_ok]

/-- The part of `bmap` for an entry of a block. -/
theorem bmapEntry_spec (wf : v.WellFormed sb) (idle : Idle sb v.state) (live : v.Live sb i)
    {p : Slot} (parent_eq : slot.parent = some p) (holder : v.block sb i p ≠ 0)
    (mem : slot ∈ slots) (room : v.Room sb i slots) :
    ∃ addr t, bmapEntry sb v.state (v.block sb i p) slot.index = .ok (addr, t) ∧
      Mapped sb v ⟨t, v.inodes⟩ i slots slot addr := by
  by_cases absent : v.block sb i slot = 0
  · obtain ⟨b, t, run, filled, idle_t⟩ := bmapEntry_fills wf idle live parent_eq holder absent
      (room.exists_free mem absent)
    exact ⟨b, t, run, Kept.fill wf live mem filled, idle_t, filled.block_self live,
      filled.data.ne_zero⟩
  · obtain ⟨u, entry, disk, idle_u⟩ := bmapEntry_present wf idle live parent_eq absent
    refine ⟨v.block sb i slot, u, entry, Kept.recache wf disk, idle_u, ?_, absent⟩
    simp only [Volume.block, view_congr disk]

/-! ## The whole of `bmap` -/

/-- The slots from `addrs` down to a slot. -/
def Slot.path : Slot → Finset Slot
  | .addr i => {.addr i}
  | .entry j => {.addr indirectSlot, .entry j}
  | .table k => {.addr indirect2Slot, .table k}
  | .leaf k j => {.addr indirect2Slot, .table k, .leaf k j}

theorem Mapped.trans {x : Volume} {first second : Slot} {addr next : UInt32}
    (left : Mapped sb v w i slots first addr) (right : Mapped sb w x i slots second next) :
    Mapped sb v x i slots second next :=
  ⟨left.kept.trans right.kept, right.idle, right.block, right.present⟩

/-- `bmap` returns the block of a file block, after filling the empty slots on its path. -/
theorem bmap_spec (wf : v.WellFormed sb) (idle : Idle sb v.state) (live : v.Live sb i) {bn : Nat}
    (bn_lt : bn < maxFile) (path : Slot.path (fileSlot bn) ⊆ slots) (room : v.Room sb i slots) :
    ∃ addr ip t, bmap sb v.state (v.inodes i) bn = .ok (addr, ip, t) ∧
      Mapped sb v ⟨t, Function.update v.inodes i ip⟩ i slots (fileSlot bn) addr := by
  by_cases direct : bn < ndirect
  · rw [fileSlot_direct direct] at path ⊢
    obtain ⟨addr, ip, t, run, mapped⟩ := bmapAddr_spec wf idle live
      (path (Finset.mem_singleton_self _)) room
    exact ⟨addr, ip, t, by rw [bmap, dif_pos direct, run], mapped⟩
  by_cases single : bn - ndirect < nindirect
  · rw [fileSlot_single direct single] at path ⊢
    obtain ⟨addr, ip, t, run, mapped⟩ := bmapAddr_spec (a := indirectSlot) wf idle live
      (path (by simp [Slot.path])) room
    obtain ⟨next, u, entry, mapped_u⟩ := bmapEntry_spec mapped.kept.wellFormed mapped.idle
      ((mapped.kept.live i).mpr live)
      (show Slot.parent (.entry ⟨bn - ndirect, single⟩) = _ from rfl)
      (mapped.block ▸ mapped.present) (path (by simp [Slot.path])) (mapped.kept.room room)
    rw [mapped.block, Slot.index] at entry
    refine ⟨next, ip, u, ?_, mapped.trans mapped_u⟩
    simp only [bmap, direct, dite_false, single, if_true, run, Except.ok_bind, mapped.present,
      if_false, entry, Except.pure_eq_ok]
  · have double := double_lt bn_lt
    rw [fileSlot_double bn_lt direct single] at path ⊢
    obtain ⟨addr, ip, t, run, mapped⟩ := bmapAddr_spec (a := indirect2Slot) wf idle live
      (path (by simp [Slot.path])) room
    obtain ⟨next, u, table, mapped_u⟩ := bmapEntry_spec mapped.kept.wellFormed mapped.idle
      ((mapped.kept.live i).mpr live)
      (show Slot.parent (.table ⟨(bn - ndirect - nindirect) / nindirect, high_lt bn_lt⟩) =
        _ from rfl)
      (mapped.block ▸ mapped.present) (path (by simp [Slot.path])) (mapped.kept.room room)
    have both := mapped.trans mapped_u
    obtain ⟨last, x, leaf, mapped_x⟩ := bmapEntry_spec both.kept.wellFormed both.idle
      ((both.kept.live i).mpr live)
      (show Slot.parent (.leaf ⟨(bn - ndirect - nindirect) / nindirect, high_lt bn_lt⟩
        ⟨(bn - ndirect - nindirect) % nindirect, low_lt bn⟩) = _ from rfl)
      (both.block ▸ both.present) (path (by simp [Slot.path])) (both.kept.room room)
    rw [mapped.block, Slot.index] at table
    rw [both.block, Slot.index] at leaf
    refine ⟨last, ip, x, ?_, both.trans mapped_x⟩
    simp only [bmap, direct, dite_false, single, if_false, double, if_true, run, Except.ok_bind,
      mapped.present, table, both.present, leaf, Except.pure_eq_ok]

theorem bmapAddr_present {s : State} {ip : Inode} {a : Fin 13} (present : ip.addrs a ≠ 0) :
    bmapAddr sb s ip a = .ok (ip.addrs a, ip, s) := by
  simp [bmapAddr, present]

/-- `bmap` of a file block that is there only reads. -/
theorem bmap_present (wf : v.WellFormed sb) (idle : Idle sb v.state) (live : v.Live sb i) {bn : Nat}
    (bn_lt : bn < maxFile) (present : v.block sb i (fileSlot bn) ≠ 0) :
    ∃ t, bmap sb v.state (v.inodes i) bn = .ok (v.block sb i (fileSlot bn), v.inodes i, t) ∧
      t.disk = v.state.disk ∧ Idle sb t := by
  by_cases direct : bn < ndirect
  · rw [fileSlot_direct direct] at present ⊢
    refine ⟨v.state, ?_, rfl, idle⟩
    rw [bmap, dif_pos direct, bmapAddr_present present]
    rfl
  by_cases single : bn - ndirect < nindirect
  · rw [fileSlot_single direct single] at present ⊢
    have root : (v.inodes i).addrs indirectSlot ≠ 0 :=
      present_of_parent (p := .addr indirectSlot) rfl present
    obtain ⟨t, entry, disk, idle_t⟩ := bmapEntry_present wf idle live rfl present
    have entry' : bmapEntry sb v.state ((v.inodes i).addrs indirectSlot) (bn - ndirect) =
        .ok (v.block sb i (.entry ⟨bn - ndirect, single⟩), t) := entry
    refine ⟨t, ?_, disk, idle_t⟩
    simp only [bmap, direct, dite_false, single, if_true, bmapAddr_present root, Except.ok_bind,
      root, if_false, entry', Except.pure_eq_ok]
  · have double := double_lt bn_lt
    rw [fileSlot_double bn_lt direct single] at present ⊢
    have table_present := present_of_parent rfl present
    have root : (v.inodes i).addrs indirect2Slot ≠ 0 :=
      present_of_parent (p := .addr indirect2Slot) rfl table_present
    obtain ⟨t, table, disk_t, idle_t⟩ := bmapEntry_present wf idle live rfl table_present
    obtain ⟨u, leaf, disk_u, idle_u⟩ := bmapEntry_present (v := ⟨t, v.inodes⟩)
      (wf.of_disk disk_t) idle_t live (i := i) rfl
      (by simpa only [Volume.block, view_congr disk_t] using present)
    have table' : bmapEntry sb v.state ((v.inodes i).addrs indirect2Slot)
        ((bn - ndirect - nindirect) / nindirect) = .ok (v.block sb i
          (.table ⟨(bn - ndirect - nindirect) / nindirect, high_lt bn_lt⟩), t) := table
    simp only [Volume.block, view_congr disk_t] at leaf
    have leaf' : bmapEntry sb t (v.block sb i
        (.table ⟨(bn - ndirect - nindirect) / nindirect, high_lt bn_lt⟩))
        ((bn - ndirect - nindirect) % nindirect) = .ok (v.block sb i
          (.leaf ⟨(bn - ndirect - nindirect) / nindirect, high_lt bn_lt⟩
            ⟨(bn - ndirect - nindirect) % nindirect, low_lt bn⟩), u) := leaf
    refine ⟨u, ?_, disk_u.trans disk_t, idle_u⟩
    simp only [bmap, direct, dite_false, single, if_false, double, if_true, bmapAddr_present root,
      Except.ok_bind, root, table', table_present, leaf', Except.pure_eq_ok]

end Volume

end Fs
end Xv6Duo
