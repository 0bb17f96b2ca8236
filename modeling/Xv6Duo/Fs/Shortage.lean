import Xv6Duo.Fs.Mapping

/-!
# Running out of blocks

Without a free block `balloc` returns `0`, and so does `bmap`, after it has filled the slots above
the one it could not fill. An entry of a block is the case that is not cleaned up: the buffer of the
block stays busy.
-/

namespace Xv6Duo
namespace Fs

open ByteBlock

variable {sb : Superblock} {s : State} {held : Finset (Fin nbuf)} {trusted : Set UInt32}

/-! ## No free block -/

/-- Every block is in use. -/
def Full (sb : Superblock) (s : State) : Prop := ∀ c, InRange sb c → used sb s c = true

theorem full_or_free (sb : Superblock) (s : State) :
    Full sb s ∨ ∃ c, InRange sb c ∧ used sb s c = false := by
  by_contra neither
  push Not at neither
  obtain ⟨not_full, none⟩ := neither
  refine not_full fun c c_range => ?_
  simpa using none c c_range

theorem Full.congr {t : State} (full : Full sb s) (disk : t.disk = s.disk) : Full sb t :=
  fun c c_range => (used_congr disk c).trans (full c c_range)

/-- The outer loop of `balloc` goes through all bitmap blocks of a full volume. -/
theorem ballocLoop_full (fuel : Nat) {b : Nat} (good : Good sb s held trusted)
    (trusts : bitmapBlocks sb ⊆ trusted) (free : BitmapFree sb s held) (few : held.card < nbuf)
    (full : Full sb s) (aligned : b % 32768 = 0) (b_lt : b < sb.size.toNat + 32768)
    (enough : sb.size.toNat + 32768 ≤ b + fuel * 32768) :
    ∃ t, ballocLoop sb b fuel s = .ok (0, t) ∧ t.disk = s.disk ∧ Good sb t held trusted ∧
      Frame sb s t held Set.univ := by
  have size_le := sb.size_le
  induction fuel generalizing s b with
  | zero => omega
  | succ fuel ih =>
      rw [ballocLoop]
      by_cases inside : b < sb.size.toNat
      · have base : (UInt32.ofNat b).toNat = b := by
          rw [UInt32.toNat_ofNat', Nat.mod_eq_of_lt (by omega)]
        have bitmap : bblock sb (UInt32.ofNat b) ∈ bitmapBlocks sb :=
          ⟨_, by rwa [InRange, base], rfl⟩
        obtain ⟨bp, t, read, data, ⟨u, released, good_u, disk_u, frame_u⟩, -⟩ :=
          access_spec good (free _ bitmap) few
        have scan : freeBit sb (t.bufs bp).data b 0 bpb.toNat = none := by
          apply Option.eq_none_iff_forall_ne_some.mpr
          intro bi found
          obtain ⟨-, bi_lt, in_size, clear⟩ := freeBit_some found
          rw [Nat.zero_add, show bpb.toNat = 32768 from rfl] at bi_lt
          have value : (UInt32.ofNat (b + bi)).toNat = b + bi := by
            rw [UInt32.toNat_ofNat', Nat.mod_eq_of_lt (by omega)]
          have marked := full (UInt32.ofNat (b + bi)) (by rwa [InRange, value])
          rw [used_scan aligned bi_lt in_size] at marked
          rw [data (trusts bitmap)] at clear
          exact absurd (clear.symm.trans marked) (by simp)
        obtain ⟨x, loop, disk_x, good_x, frame_x⟩ := ih (b := b + 32768) good_u
          (frame_u.bitmapFree free) (full.congr disk_u) (by omega) (by omega) (by omega)
        refine ⟨x, ?_, disk_x.trans disk_u, good_x,
          (frame_u.mono (Set.subset_univ _)).trans frame_x⟩
        simp only [inside, if_true, read, Except.ok_bind, scan, released]
        exact loop
      · exact ⟨s, by rw [if_neg inside]; rfl, rfl, good, Frame.refl s held _⟩

/-- `balloc` of a full volume. -/
theorem balloc_full (good : Good sb s held trusted) (trusts : bitmapBlocks sb ⊆ trusted)
    (free : BitmapFree sb s held) (few : held.card < nbuf) (full : Full sb s) :
    ∃ t, balloc sb s = .ok (0, t) ∧ t.disk = s.disk ∧ Good sb t held trusted ∧
      Frame sb s t held Set.univ := by
  refine ballocLoop_full _ good trusts free few full rfl (by omega) ?_
  rw [show bpb.toNat = 32768 from rfl]
  omega

namespace Volume

variable {v w x : Volume} {i : UInt32} {slots : Finset Slot}

theorem room_empty : v.Room sb i ∅ := Nat.zero_le _

theorem Kept.bare (kept : Kept sb v w i slots) : Kept sb v w i ∅ :=
  { kept with room := fun _ => room_empty }

theorem Room.mono {fewer : Finset Slot} (room : v.Room sb i slots) (subset : fewer ⊆ slots) :
    v.Room sb i fewer :=
  (Finset.card_le_card (Finset.filter_subset_filter _ subset)).trans room

/-- There is room for slots that are filled. -/
theorem room_of_present (present : ∀ slot ∈ slots, v.block sb i slot ≠ 0) : v.Room sb i slots := by
  have none : v.emptySlots sb i slots = ∅ :=
    Finset.filter_eq_empty_iff.mpr fun slot mem => present slot mem
  rw [Room, none, Finset.card_empty]
  exact Nat.zero_le _

/-- A full volume has no room for an empty slot. -/
theorem not_room_of_full (full : Full sb v.state) {slot : Slot} (mem : slot ∈ slots)
    (absent : v.block sb i slot = 0) : ¬v.Room sb i slots := by
  intro room
  obtain ⟨c, c_range, free⟩ := room.exists_free mem absent
  exact absurd ((full c c_range).symm.trans free) (by simp)

/-- Free blocks have been used for slots among the given ones, one for each. -/
def Ledger (sb : Superblock) (v w : Volume) (i : UInt32) (slots : Finset Slot) : Prop :=
  ∀ more, slots ⊆ more → Balanced sb v w i more

theorem Ledger.refl : Ledger sb v v i slots := fun _ _ => Balanced.refl

theorem Ledger.trans {first second : Finset Slot} (left : Ledger sb v w i first)
    (right : Ledger sb w x i second) (left_subset : first ⊆ slots) (right_subset : second ⊆ slots) :
    Ledger sb v x i slots :=
  fun more subset => (left more (left_subset.trans subset)).trans
    (right more (right_subset.trans subset))

theorem Ledger.mono {more : Finset Slot} (ledger : Ledger sb v w i slots) (subset : slots ⊆ more) :
    Ledger sb v w i more := fun all above => ledger all (subset.trans above)

/-! ## The parts of `bmap` -/

/-- A part of `bmap` that cannot fill one of the slots it needs. -/
structure Short (sb : Superblock) (v w : Volume) (i : UInt32) (slots : Finset Slot) : Prop where
  /-- Slots are only filled. -/
  kept : Kept sb v w i ∅
  /-- Each with a block of its own. -/
  ledger : Ledger sb v w i slots
  /-- A slot is empty. -/
  missing : ∃ slot ∈ slots, w.block sb i slot = 0
  /-- There is no block for it. -/
  full : Full sb w.state
  /-- At most the buffer of a block of block numbers stays busy. -/
  quiet : ∃ held, Good sb w.state held (allocated sb w.state) ∧ held.card ≤ 1 ∧
    ∀ b ∈ held, ∃ slot p, Slot.parent slot = some p ∧ w.block sb i p ≠ 0 ∧
      (w.state.bufs b).blockno = sb.sector (w.block sb i p)

/-- How a part of `bmap` ends that needs the given slots: with the block in a slot, or short of a
block. -/
def Outcome (sb : Superblock) (v w : Volume) (i : UInt32) (slots : Finset Slot) (slot : Slot)
    (addr : UInt32) : Prop :=
  Mapped sb v w i ∅ slot addr ∧ Ledger sb v w i slots ∨ addr = 0 ∧ Short sb v w i slots

/-- A part that goes on behind another one. -/
theorem Outcome.after {first second : Slot} {few rest : Finset Slot} {addr next : UInt32}
    (mapped : Mapped sb v w i ∅ first addr) (ledger : Ledger sb v w i few)
    (outcome : Outcome sb w x i rest second next) (few_subset : few ⊆ slots)
    (rest_subset : rest ⊆ slots) : Outcome sb v x i slots second next := by
  rcases outcome with ⟨mapped_x, ledger_x⟩ | ⟨zero, short⟩
  · exact Or.inl ⟨mapped.trans mapped_x, ledger.trans ledger_x few_subset rest_subset⟩
  · obtain ⟨slot, mem, absent⟩ := short.missing
    exact Or.inr ⟨zero, mapped.kept.trans short.kept,
      ledger.trans short.ledger few_subset rest_subset, ⟨slot, rest_subset mem, absent⟩, short.full,
      short.quiet⟩

theorem Short.grow {more : Finset Slot} (short : Short sb v w i slots) (subset : slots ⊆ more) :
    Short sb v w i more := by
  obtain ⟨slot, mem, absent⟩ := short.missing
  exact ⟨short.kept, short.ledger.mono subset, ⟨slot, subset mem, absent⟩, short.full, short.quiet⟩

theorem path_table_subset (k j : Fin 1024) : Slot.path (.table k) ⊆ Slot.path (.leaf k j) := by
  intro slot mem
  simp only [Slot.path, Finset.mem_insert, Finset.mem_singleton] at mem ⊢
  exact mem.imp_right Or.inl

/-- Without a free block an empty slot of `addrs` stays empty. -/
theorem bmapAddr_full (idle : Idle sb v.state) {a : Fin 13} (absent : (v.inodes i).addrs a = 0)
    (full : Full sb v.state) :
    ∃ t, bmapAddr sb v.state (v.inodes i) a = .ok (0, v.inodes i, t) ∧
      t.disk = v.state.disk ∧ Idle sb t := by
  obtain ⟨t, alloc, disk, good, -⟩ := balloc_full idle bitmapBlocks_subset_allocated
    bitmapFree_empty (by decide) full
  have same : (v.inodes i).setAddr a 0 = v.inodes i := by
    rw [Inode.setAddr, ← absent, Function.update_eq_self]
  refine ⟨t, by simp [bmapAddr, absent, alloc, same], disk, ?_⟩
  rw [Idle, allocated_congr disk]
  exact good

theorem bmapAddr_outcome (wf : v.WellFormed sb) (idle : Idle sb v.state) (live : v.Live sb i)
    (a : Fin 13) : ∃ addr ip t, bmapAddr sb v.state (v.inodes i) a = .ok (addr, ip, t) ∧
      Outcome sb v ⟨t, Function.update v.inodes i ip⟩ i {.addr a} (.addr a) addr := by
  by_cases absent : (v.inodes i).addrs a = 0
  · rcases full_or_free sb v.state with full | free
    · obtain ⟨t, entry, disk, idle_t⟩ := bmapAddr_full idle absent full
      refine ⟨0, v.inodes i, t, entry, Or.inr ⟨rfl, ?_⟩⟩
      rw [Function.update_eq_self]
      exact ⟨Kept.recache wf disk, fun _ _ => balanced_congr disk,
        ⟨.addr a, Finset.mem_singleton_self _, absent⟩, full.congr disk, ∅, idle_t, by simp,
        by simp⟩
    · obtain ⟨b, ip, t, run, filled, idle_t⟩ := bmapAddr_fills wf idle live absent free
      have mem := Finset.mem_singleton_self (Slot.addr a)
      exact ⟨b, ip, t, run, Or.inl ⟨⟨(Kept.fill wf live mem filled).bare, idle_t,
        filled.block_self live, filled.data.ne_zero⟩,
        fun _ subset => filled.balanced live (subset mem)⟩⟩
  · refine ⟨(v.inodes i).addrs a, v.inodes i, v.state, by simp [bmapAddr, absent], ?_⟩
    rw [Function.update_eq_self]
    exact Or.inl ⟨⟨Kept.refl wf, idle, rfl, absent⟩, Ledger.refl⟩

/-- The early return of the entry case: the buffer of the holding block stays busy. -/
theorem bmapEntry_full (wf : v.WellFormed sb) (idle : Idle sb v.state) (live : v.Live sb i)
    {slot p : Slot} (parent_eq : slot.parent = some p) (holder : v.block sb i p ≠ 0)
    (absent : v.block sb i slot = 0) (full : Full sb v.state) :
    ∃ bp t, bmapEntry sb v.state (v.block sb i p) slot.index = .ok (0, t) ∧
      t.disk = v.state.disk ∧ Good sb t (insert bp ∅) (allocated sb v.state) ∧
      (t.bufs bp).blockno = sb.sector (v.block sb i p) := by
  have data := wf.data i live p holder
  have trusted : v.block sb i p ∈ allocated sb v.state :=
    Or.inr ⟨data.inRange, wf.marked i live p holder⟩
  obtain ⟨bp, t, read, fetched⟩ := bread_spec idle unheld_empty (by decide)
  have word_eq : getWord (t.bufs bp).data slot.index = 0 := by
    rw [fetched.data _ trusted rfl, ← absent, block_of_parent parent_eq, entryOf_of_ne holder]
    rfl
  have bitmap_free : BitmapFree sb t (insert bp ∅) := by
    intro bno bitmap a a_mem
    obtain rfl : a = bp := by simpa using a_mem
    rw [fetched.blockno]
    exact data.sector_ne bitmap
  obtain ⟨u, alloc, disk_u, good_u, frame_u⟩ := balloc_full fetched.good
    bitmapBlocks_subset_allocated bitmap_free
    ((Finset.card_insert_le _ _).trans_lt (by decide)) (full.congr fetched.disk)
  refine ⟨bp, u, ?_, disk_u.trans fetched.disk, good_u, ?_⟩
  · simp only [bmapEntry, read, Except.ok_bind, word_eq, if_true, alloc, Except.pure_eq_ok]
  · rw [frame_u.bufs bp (Finset.mem_insert_self _ _)]
    exact fetched.blockno

theorem bmapEntry_outcome (wf : v.WellFormed sb) (idle : Idle sb v.state) (live : v.Live sb i)
    {slot p : Slot} (parent_eq : slot.parent = some p) (holder : v.block sb i p ≠ 0) :
    ∃ addr t, bmapEntry sb v.state (v.block sb i p) slot.index = .ok (addr, t) ∧
      Outcome sb v ⟨t, v.inodes⟩ i {slot} slot addr := by
  by_cases absent : v.block sb i slot = 0
  · rcases full_or_free sb v.state with full | free
    · obtain ⟨bp, u, entry, disk, good_u, key⟩ :=
        bmapEntry_full wf idle live parent_eq holder absent full
      have same : Volume.block sb ⟨u, v.inodes⟩ i = v.block sb i := by
        funext slot
        simp only [Volume.block, view_congr disk]
      refine ⟨0, u, entry, Or.inr ⟨rfl, Kept.recache wf disk, fun _ _ => balanced_congr disk,
        ⟨slot, Finset.mem_singleton_self _, by rw [same, absent]⟩, full.congr disk, insert bp ∅, ?_,
        by simp, ?_⟩⟩
      · rw [allocated_congr disk]
        exact good_u
      · intro b mem
        obtain rfl : b = bp := by simpa using mem
        refine ⟨slot, p, parent_eq, by rwa [same], ?_⟩
        rw [same]
        exact key
    · obtain ⟨b, t, run, filled, idle_t⟩ :=
        bmapEntry_fills wf idle live parent_eq holder absent free
      have mem := Finset.mem_singleton_self slot
      exact ⟨b, t, run, Or.inl ⟨⟨(Kept.fill wf live mem filled).bare, idle_t,
        filled.block_self live, filled.data.ne_zero⟩,
        fun _ subset => filled.balanced live (subset mem)⟩⟩
  · obtain ⟨u, entry, disk, idle_u⟩ := bmapEntry_present wf idle live parent_eq absent
    refine ⟨v.block sb i slot, u, entry, Or.inl ⟨⟨Kept.recache wf disk, idle_u, ?_, absent⟩,
      fun _ _ => balanced_congr disk⟩⟩
    simp only [Volume.block, view_congr disk]

/-- `bmap` needs the slots from `addrs` down to the file block. -/
theorem bmap_outcome (wf : v.WellFormed sb) (idle : Idle sb v.state) (live : v.Live sb i) {bn : Nat}
    (bn_lt : bn < maxFile) :
    ∃ addr ip t, bmap sb v.state (v.inodes i) bn = .ok (addr, ip, t) ∧
      Outcome sb v ⟨t, Function.update v.inodes i ip⟩ i (Slot.path (fileSlot bn)) (fileSlot bn)
        addr := by
  by_cases direct : bn < ndirect
  · rw [fileSlot_direct direct]
    obtain ⟨addr, ip, t, run, outcome⟩ := bmapAddr_outcome wf idle live
      ⟨bn, direct.trans (by decide)⟩
    exact ⟨addr, ip, t, by rw [bmap, dif_pos direct, run], outcome⟩
  by_cases single : bn - ndirect < nindirect
  · rw [fileSlot_single direct single]
    obtain ⟨addr, ip, t, run, ⟨mapped, ledger⟩ | ⟨rfl, short⟩⟩ :=
      bmapAddr_outcome wf idle live indirectSlot
    · obtain ⟨next, u, entry, outcome⟩ := bmapEntry_outcome mapped.kept.wellFormed mapped.idle
        ((mapped.kept.live i).mpr live)
        (show Slot.parent (.entry ⟨bn - ndirect, single⟩) = _ from rfl)
        (mapped.block ▸ mapped.present)
      rw [mapped.block, Slot.index] at entry
      refine ⟨next, ip, u, ?_, Outcome.after mapped ledger outcome (by simp [Slot.path])
        (by simp [Slot.path])⟩
      simp only [bmap, direct, dite_false, single, if_true, run, Except.ok_bind, mapped.present,
        if_false, entry, Except.pure_eq_ok]
    · refine ⟨0, ip, t, ?_, Or.inr ⟨rfl, short.grow (by simp [Slot.path])⟩⟩
      simp only [bmap, direct, dite_false, single, if_true, run, Except.ok_bind, Except.pure_eq_ok]
  · have double := double_lt bn_lt
    rw [fileSlot_double bn_lt direct single]
    obtain ⟨addr, ip, t, run, ⟨mapped, ledger⟩ | ⟨rfl, short⟩⟩ :=
      bmapAddr_outcome wf idle live indirect2Slot
    · obtain ⟨next, u, table, outcome⟩ := bmapEntry_outcome mapped.kept.wellFormed mapped.idle
        ((mapped.kept.live i).mpr live)
        (show Slot.parent (.table ⟨(bn - ndirect - nindirect) / nindirect, high_lt bn_lt⟩) = _
          from rfl)
        (mapped.block ▸ mapped.present)
      rw [mapped.block, Slot.index] at table
      have both : Outcome sb v _ i (Slot.path (.table ⟨(bn - ndirect - nindirect) / nindirect,
          high_lt bn_lt⟩)) _ _ :=
        Outcome.after mapped ledger outcome (by simp [Slot.path]) (by simp [Slot.path])
      rcases both with ⟨mapped_u, ledger_u⟩ | ⟨rfl, short⟩
      · obtain ⟨last, x, leaf, final⟩ := bmapEntry_outcome mapped_u.kept.wellFormed mapped_u.idle
          ((mapped_u.kept.live i).mpr live)
          (show Slot.parent (.leaf ⟨(bn - ndirect - nindirect) / nindirect, high_lt bn_lt⟩
            ⟨(bn - ndirect - nindirect) % nindirect, low_lt bn⟩) = _ from rfl)
          (mapped_u.block ▸ mapped_u.present)
        rw [mapped_u.block, Slot.index] at leaf
        refine ⟨last, ip, x, ?_, Outcome.after mapped_u ledger_u final ?_ ?_⟩
        · simp only [bmap, direct, dite_false, single, if_false, double, if_true, run,
            Except.ok_bind, mapped.present, table, mapped_u.present, leaf, Except.pure_eq_ok]
        · exact path_table_subset _ _
        · simp [Slot.path]
      · refine ⟨0, ip, u, ?_, Or.inr ⟨rfl, short.grow ?_⟩⟩
        · simp only [bmap, direct, dite_false, single, if_false, double, if_true, run,
            Except.ok_bind, mapped.present, table, Except.pure_eq_ok]
        · exact path_table_subset _ _
    · refine ⟨0, ip, t, ?_, Or.inr ⟨rfl, short.grow (by simp [Slot.path])⟩⟩
      simp only [bmap, direct, dite_false, single, if_false, double, if_true, run, Except.ok_bind,
        Except.pure_eq_ok]

end Volume

end Fs
end Xv6Duo
