import Xv6Duo.Fs.Coherence
import Xv6Duo.Fs.FileArray
import Xv6Duo.Fs.Shortage

/-!
# Writes that stop early

`writei` ends before the end of the request when it runs out of blocks or when the source faults.
The rounds that it has finished are on the card. A fault in the middle of a round leaves the bytes
that were copied before it in the buffer of the block, and only there.
-/

namespace Xv6Duo
namespace Fs

open ByteBlock

variable {sb : Superblock}

/-- The source can be read up to byte `c`, and not there. -/
def Faults (mem : Memory) (src c : Nat) : Prop :=
  PagesIn mem.readable src c ∧ mem.readable ((src + c) / pgSize) = false

theorem Faults.le {mem : Memory} {src c k : Nat} (faults : Faults mem src c)
    (readable : PagesIn mem.readable src k) : k ≤ c := by
  by_contra beyond
  exact absurd ((readable (src + c) (by omega) (by omega)).symm.trans faults.2) (by simp)

theorem Faults.unique {mem : Memory} {src c k : Nat} (left : Faults mem src c)
    (right : Faults mem src k) : c = k :=
  le_antisymm (right.le left.1) (left.le right.1)

namespace Volume

variable {v w x : Volume} {i : UInt32}

theorem neededSlots_mono {off few many : Nat} (le : few ≤ many) :
    neededSlots off few ⊆ neededSlots off many := by
  apply Finset.biUnion_subset_biUnion_of_subset_left
  apply Finset.image_subset_image
  exact Finset.Ico_subset_Ico (le_refl off) (by omega)

/-- The slots above a filled one are filled. -/
theorem path_present {slot : Slot} (present : v.block sb i slot ≠ 0) :
    ∀ above ∈ Slot.path slot, v.block sb i above ≠ 0 := by
  intro above mem
  cases slot with
  | addr a =>
      rw [Finset.mem_singleton.mp mem]
      exact present
  | entry j =>
      rcases Finset.mem_insert.mp mem with rfl | mem
      · exact present_of_parent rfl present
      · rw [Finset.mem_singleton.mp mem]
        exact present
  | table k =>
      rcases Finset.mem_insert.mp mem with rfl | mem
      · exact present_of_parent rfl present
      · rw [Finset.mem_singleton.mp mem]
        exact present
  | leaf k j =>
      have table := present_of_parent (p := .table k) rfl present
      rcases Finset.mem_insert.mp mem with rfl | mem
      · exact present_of_parent rfl table
      · rcases Finset.mem_insert.mp mem with rfl | mem
        · exact table
        · rw [Finset.mem_singleton.mp mem]
          exact present

/-- There is room for a range of blocks that are there. -/
theorem room_of_range {off n : Nat}
    (present : ∀ o, off ≤ o → o < off + n → v.block sb i (fileSlot (o / bsize)) ≠ 0) :
    v.Room sb i (neededSlots off n) := by
  apply room_of_present
  intro slot mem
  simp only [neededSlots, Finset.mem_biUnion, Finset.mem_image, Finset.mem_Ico] at mem
  obtain ⟨bn, ⟨o, ⟨lower, upper⟩, rfl⟩, on_path⟩ := mem
  exact path_present (present o lower upper) slot on_path

/-- The volume after every buffer has been recycled. -/
def cold (v : Volume) : Volume := ⟨binit v.state.disk, v.inodes⟩

/-- What is on the card does not depend on the buffers. -/
theorem Written.cold {off tot : Nat} {source : Nat → UInt8} (live : v.Live sb i)
    (written : Written sb v w i ∅ off tot source) {s : State} (disk : s.disk = w.state.disk) :
    Written sb v (Volume.cold ⟨s, w.inodes⟩) i ∅ off tot source :=
  written.keep live (Kept.recache written.stays.wellFormed disk) (idle_binit _)

/-! ## The buffers of a file -/

/-- Buffers have the bytes of the card, except that those from `off + tot` to `off + c` have been
copied from the source. -/
def Cached (sb : Superblock) (x : Volume) (i : UInt32) (mem : Memory) (src off tot c : Nat) :
    Prop :=
  ∀ o < 2 ^ 32, x.block sb i (fileSlot (o / bsize)) ≠ 0 → ∀ b, (x.state.bufs b).dev = rootDev →
    (x.state.bufs b).valid = true →
    (x.state.bufs b).blockno = sb.sector (x.block sb i (fileSlot (o / bsize))) →
    (x.state.bufs b).data (o % bsize) =
      if off + tot ≤ o ∧ o < off + c then mem.bytes (src + (o - off)) else x.byte sb i o

/-- The buffers cache blocks of block numbers of the inode. -/
def HoldsParents (sb : Superblock) (x : Volume) (i : UInt32) (held : Finset (Fin nbuf)) : Prop :=
  ∀ b ∈ held, ∃ slot p, Slot.parent slot = some p ∧ x.block sb i p ≠ 0 ∧
    (x.state.bufs b).blockno = sb.sector (x.block sb i p)

theorem holdsParents_empty : HoldsParents sb x i ∅ := by
  intro b mem
  simp at mem

/-- A buffer of a trusted file block has the bytes of the card. -/
theorem data_of_good {held : Finset (Fin nbuf)} {trusted : Set UInt32} (wf : x.WellFormed sb)
    (live : x.Live sb i) (good : Good sb x.state held trusted) (parents : HoldsParents sb x i held)
    {bn : Nat} (present : x.block sb i (fileSlot bn) ≠ 0)
    (trusts : x.block sb i (fileSlot bn) ∈ trusted) {b : Fin nbuf}
    (root : (x.state.bufs b).dev = rootDev) (valid : (x.state.bufs b).valid = true)
    (key : (x.state.bufs b).blockno = sb.sector (x.block sb i (fileSlot bn))) :
    (x.state.bufs b).data = x.state.view sb (x.block sb i (fileSlot bn)) := by
  have outside : b ∉ held := by
    intro mem
    obtain ⟨slot, p, parent_eq, holder, held_key⟩ := parents b mem
    have same := Superblock.sector_inj (wf.data i live _ present).inRange.lt
      (wf.data i live _ holder).inRange.lt (key.symm.trans held_key)
    exact fileSlot_ne_parent bn parent_eq (wf.distinct i i live live _ _ present same).2
  exact good.coherent b outside root valid _ trusts key

theorem mem_allocated (wf : x.WellFormed sb) (live : x.Live sb i) {slot : Slot}
    (present : x.block sb i slot ≠ 0) : x.block sb i slot ∈ allocated sb x.state :=
  Or.inr ⟨(wf.data i live _ present).inRange, wf.marked i live _ present⟩

theorem cached_of_good {held : Finset (Fin nbuf)} (wf : x.WellFormed sb) (live : x.Live sb i)
    (good : Good sb x.state held (allocated sb x.state)) (parents : HoldsParents sb x i held)
    (mem : Memory) (src off tot : Nat) : Cached sb x i mem src off tot tot := by
  intro o o_lt present b root valid key
  rw [if_neg (by omega), data_of_good wf live good parents present (mem_allocated wf live present)
    root valid key]
  rfl

/-! ## The loop of `writei` -/

/-- Why the loop of `writei` stops after `tot` bytes. -/
inductive Ending (sb : Superblock) (v x : Volume) (i : UInt32) (userSrc : Bool) (mem : Memory)
    (src off n tot c : Nat) : Prop
  /-- The request is done. -/
  | done (all : tot = n) (exact_c : c = n) (idle : Idle sb x.state)
  /-- There is no block for the next byte. -/
  | short (left : tot < n) (same : c = tot) (aligned : tot = 0 ∨ (off + tot) % bsize = 0)
      (full : ¬v.Room sb i (neededSlots off (tot + 1)))
  /-- The source faults at byte `c`. -/
  | fault (user : userSrc = true) (lower : tot ≤ c) (upper : c < n) (faults : Faults mem src c)
      (aligned : tot = 0 ∨ (off + tot) % bsize = 0)
      (same : (off + c) / bsize = (off + tot) / bsize)
      (room : v.Room sb i (neededSlots off (tot + 1)))

/-- The loop of `writei` has stopped with the first `tot` bytes of the request on the card. -/
structure Stop (sb : Superblock) (v x : Volume) (i : UInt32) (userSrc : Bool) (mem : Memory)
    (src off n tot c : Nat) : Prop where
  /-- The bytes are on the card. -/
  written : Written sb v x.cold i ∅ off tot fun k => mem.bytes (src + k)
  /-- Blocks have been used for slots of the range. -/
  ledger : Ledger sb v x i (neededSlots off n)
  /-- The source of the bytes can be read. -/
  readable : userSrc = true → PagesIn mem.readable src tot
  /-- There was room for the blocks of the bytes. -/
  room : v.Room sb i (neededSlots off tot)
  /-- The inode can be stored. -/
  quiet : ∃ held, held.card ≤ 1 ∧ HoldsParents sb x i held ∧ Good sb x.state held {iblock sb i}
  /-- What the buffers have. -/
  cached : Cached sb x i mem src off tot c
  /-- Why it has stopped. -/
  ending : Ending sb v x i userSrc mem src off n tot c

/-- There was room for the blocks of the bytes that are written. -/
theorem Written.room {off tot : Nat} {source : Nat → UInt8}
    (written : Written sb v w i ∅ off tot source) (ledger : Ledger sb v w i (neededSlots off tot)) :
    v.Room sb i (neededSlots off tot) := by
  apply (ledger _ (Finset.Subset.refl _)).room_iff.mp
  apply room_of_range
  intro o lower upper
  exact (written.new o lower upper).1

theorem good_inode {held : Finset (Fin nbuf)} {trusted : Set UInt32} (live : v.Live sb i)
    (good : Good sb x.state held trusted) (metadata : ∀ bno : UInt32, bno.toNat < sb.nmeta →
      bno ∈ trusted) : Good sb x.state held {iblock sb i} := by
  refine good.mono fun bno mem => metadata bno ?_
  rw [Set.mem_singleton_iff.mp mem]
  exact iblock_lt_nmeta live.1

/-- A round whose source faults leaves the bytes that it has copied in the buffer. -/
theorem fault_spec {addr : UInt32} {s t : State} {bp : Fin nbuf}
    (mem : addr ∈ allocated sb s) (fetched : Fetched sb s t ∅ (allocated sb s) addr bp)
    (data : Bytes) :
    ∃ u, brelse (t.setData bp data) bp = .ok u ∧ u.disk = s.disk ∧
      Good sb u ∅ (allocated sb s \ {addr}) ∧ (u.bufs bp).data = data ∧
      (u.bufs bp).valid = true ∧ (u.bufs bp).dev = rootDev ∧
      (u.bufs bp).blockno = sb.sector addr ∧ u.clink = t.clink.erase bp ++ [bp] ∧
      ∀ a, a ≠ bp → u.bufs a = s.bufs a := by
  have held := Finset.mem_insert_self bp (∅ : Finset (Fin nbuf))
  have in_range : ∀ c ∈ allocated sb s, InRange sb c := by
    rintro c (below | ⟨c_range, -⟩)
    · exact below.trans_le nmeta_le
    · exact c_range
  have good_data : Good sb (t.setData bp data) (insert bp ∅) (allocated sb s \ {addr}) :=
    (fetched.good.setData held data).mono fun _ inside => inside.1
  obtain ⟨u, released, good_u, disk_u, bufs_u, clink_u⟩ := brelse_spec good_data held (by
    intro bno trusts same
    rw [State.setData_bufs, Function.update_self, fetched.blockno] at same
    have eq := Superblock.sector_inj (in_range _ mem).lt (in_range _ trusts.1).lt same
    exact absurd eq.symm trusts.2)
  rw [Finset.erase_insert (Finset.notMem_empty bp)] at good_u
  refine ⟨u, released, disk_u.trans fetched.disk, good_u, ?_, ?_, ?_, ?_, clink_u, ?_⟩
  · simp [bufs_u]
  · simpa [bufs_u] using fetched.good.held_valid bp held
  · simpa [bufs_u] using fetched.good.held_dev bp held
  · simpa [bufs_u] using fetched.blockno
  · intro a differ
    simpa [bufs_u, differ] using fetched.others a differ

/-- The buffers after such a round. -/
theorem cached_of_fault {addr : UInt32} {s u : State} {inodes : UInt32 → Inode} {bp : Fin nbuf}
    {mem : Memory} {src off tot c : Nat} (wf : WellFormed sb ⟨s, inodes⟩)
    (live : Live sb ⟨s, inodes⟩ i) (range : off + tot < 2 ^ 32)
    (block : Volume.block sb ⟨s, inodes⟩ i (fileSlot ((off + tot) / bsize)) = addr)
    (disk : u.disk = s.disk) (good : Good sb u ∅ (allocated sb s \ {addr}))
    (data : (u.bufs bp).data = copyRange (s.view sb addr) ((off + tot) % bsize) mem.bytes
      (src + tot) (c - tot)) (root : (u.bufs bp).dev = rootDev)
    (key : (u.bufs bp).blockno = sb.sector addr)
    (within : (off + tot) % bsize + (c - tot) ≤ bsize) :
    Cached sb ⟨u, inodes⟩ i mem src off tot c := by
  have same : Volume.block sb ⟨u, inodes⟩ i = Volume.block sb ⟨s, inodes⟩ i := by
    funext slot
    simp only [Volume.block, view_congr disk]
  have wf_u := wf.of_disk disk
  have bsize_pos : 0 < bsize := by decide
  intro o o_lt present a root_a valid_a key_a
  rw [same] at present key_a
  by_cases torn : Volume.block sb ⟨s, inodes⟩ i (fileSlot (o / bsize)) = addr
  · have slots := (wf.distinct i i live live _ _ present (torn.trans block.symm)).2
    have block_eq := fileSlot_inj (div_lt_maxFile o_lt) (div_lt_maxFile range) slots
    have o_split := Nat.div_add_mod o bsize
    have start_split := Nat.div_add_mod (off + tot) bsize
    rw [block_eq] at o_split
    rw [good.unique a bp root_a root (by rw [key_a, torn, key]), data, copyRange]
    by_cases copied : off + tot ≤ o ∧ o < off + c
    · rw [if_pos (by omega), if_pos copied]
      congr 1
      omega
    · rw [if_neg (by omega), if_neg copied, byte, same, torn, view_congr disk]
  · have trusts : Volume.block sb ⟨s, inodes⟩ i (fileSlot (o / bsize)) ∈
        allocated sb s \ {addr} := ⟨mem_allocated wf live present, torn⟩
    have stored := data_of_good (x := ⟨u, inodes⟩) wf_u live good holdsParents_empty
      (by rwa [same]) (by rwa [same]) root_a valid_a (by rwa [same])
    have outside : ¬(off + tot ≤ o ∧ o < off + c) := by
      rintro ⟨lower, upper⟩
      have block_eq := div_eq_of_within within lower (by omega)
      rw [block_eq] at torn
      exact torn block
    rw [stored, if_neg outside]
    rfl

/-- The loop of `writei` on any range that it accepts. -/
theorem writeLoop_stops (fuel : Nat) {userSrc : Bool} {mem : Memory} {src : Nat}
    {off n tot : UInt32} (live : v.Live sb i) (off_n : off.toNat + n.toNat < 2 ^ 32)
    (written : Written sb v w i ∅ off.toNat tot.toNat fun k => mem.bytes (src + k))
    (ledger : Ledger sb v w i (neededSlots off.toNat tot.toNat))
    (readable : userSrc = true → PagesIn mem.readable src tot.toNat)
    (aligned : tot.toNat < n.toNat → tot.toNat = 0 ∨ (off.toNat + tot.toNat) % bsize = 0)
    (tot_le : tot.toNat ≤ n.toNat) (enough : n.toNat - tot.toNat < fuel) :
    ∃ last ip t c, writeLoop sb userSrc mem n fuel w.state (w.inodes i) (src + tot.toNat)
        (off + tot) tot = .ok (last, off + last, ip, t) ∧
      Stop sb v ⟨t, Function.update w.inodes i ip⟩ i userSrc mem src off.toNat n.toNat last.toNat
        c := by
  induction fuel generalizing w tot with
  | zero => omega
  | succ fuel ih =>
      by_cases done : tot < n
      · rw [UInt32.lt_iff_toNat_lt] at done
        have position : (off + tot).toNat = off.toNat + tot.toNat := by
          rw [UInt32.toNat_add, Nat.mod_eq_of_lt (by omega)]
        set start := off.toNat + tot.toNat with start_eq
        have chunk_eq := chunk_toNat (off + tot) tot_le
        rw [position] at chunk_eq
        set m := chunk n tot (off + tot) with m_eq
        have m_pos : 0 < m.toNat := by omega
        have fits : start % bsize + m.toNat ≤ bsize := by
          simp only [bsize]
          omega
        have live_w := (written.stays.live i).mpr live
        have before : neededSlots off.toNat tot.toNat ⊆
            neededSlots off.toNat (tot.toNat + 1) := neededSlots_mono (Nat.le_succ _)
        have path : Slot.path (fileSlot (start / bsize)) ⊆
            neededSlots off.toNat (tot.toNat + 1) :=
          path_subset_neededSlots (by omega) (by omega)
        have within : neededSlots off.toNat (tot.toNat + 1) ⊆ neededSlots off.toNat n.toNat :=
          neededSlots_mono done
        have room := written.room ledger
        obtain ⟨addr, ip, t, map_eq, outcome⟩ := bmap_outcome written.stays.wellFormed written.idle
          live_w (show start / bsize < maxFile from div_lt_maxFile (by omega))
        rcases outcome with ⟨mapped, filled⟩ | ⟨rfl, short⟩
        · have written_t := written.map live mapped
          have ledger_t := ledger.trans filled before path
          have wf_t := written_t.stays.wellFormed
          have live_t := (written_t.stays.live i).mpr live
          have present := mapped.present
          rw [← mapped.block] at present
          have trusted := mem_allocated wf_t live_t present
          have addr_data := wf_t.data i live_t _ present
          rw [mapped.block] at trusted addr_data
          obtain ⟨bp, u, read, fetched⟩ := bread_spec mapped.idle unheld_empty (by decide)
          have data := fetched.data addr trusted rfl
          cases copy : eitherCopyin (u.bufs bp).data (start % bsize) userSrc mem (src + tot.toNat)
              m.toNat with
          | mk copied bytes =>
              cases copied with
              | true =>
                  have found : userSrc = true →
                      PagesIn mem.readable (src + tot.toNat) m.toNat := by
                    intro user
                    subst user
                    simp only [eitherCopyin, if_true] at copy
                    exact copyinLoop_succeeds m.toNat le_rfl copy
                  have all := copy.symm.trans (eitherCopyin_spec found)
                  obtain rfl := congrArg Prod.snd all
                  obtain ⟨x, y, wrote, released, good_y, disk_y, -⟩ := store_spec fetched.fresh
                    fetched.good fetched.blockno (copyRange (u.bufs bp).data (start % bsize)
                      mem.bytes (src + tot.toNat) m.toNat)
                  rw [fetched.disk, data] at disk_y
                  have idle_y := idle_of_overwrite (v := ⟨t, Function.update w.inodes i ip⟩)
                    addr_data good_y disk_y
                  rw [copyRange_shift, ← mapped.block] at disk_y
                  have written_y := written_t.store live (by omega) fits m_pos present idle_y disk_y
                  have next_tot : (tot + m).toNat = tot.toNat + m.toNat := by
                    rw [UInt32.toNat_add, Nat.mod_eq_of_lt (by omega)]
                  have next_off : off + tot + m = off + (tot + m) := by rw [UInt32.add_assoc]
                  have overwritten : Ledger sb ⟨t, Function.update w.inodes i ip⟩
                      ⟨y, Function.update w.inodes i ip⟩ i ∅ := fun more _ =>
                    Balanced.of_blocks
                      (fun slot => blocks_of_overwrite wf_t live_t present disk_y live_t slot)
                      fun c c_range =>
                        used_of_overwrite (wf_t.data i live_t _ present) disk_y c_range
                  have further : neededSlots off.toNat (tot.toNat + 1) ⊆
                      neededSlots off.toNat (tot + m).toNat := neededSlots_mono (by omega)
                  have next_aligned : (tot + m).toNat < n.toNat →
                      (off.toNat + (tot + m).toNat) % 4096 = 0 := by omega
                  obtain ⟨last, ip', z, c, rest, stop⟩ := ih (by rwa [next_tot])
                    (ledger_t.trans overwritten further (Finset.empty_subset _))
                    (fun user a lower upper => by
                      by_cases old : a < src + tot.toNat
                      · exact readable user a lower old
                      · exact found user a (by omega) (by omega))
                    (fun more => Or.inr (next_aligned more)) (by omega) (by omega)
                  refine ⟨last, ip', z, c, ?_, by simpa using stop⟩
                  simp only [Function.update_self, next_tot, ← Nat.add_assoc, ← next_off] at rest
                  simp only [writeLoop, UInt32.lt_iff_toNat_lt, done, if_true, position, map_eq,
                    Except.ok_bind, mapped.present, if_false, read, ← m_eq, copy, wrote, released,
                    rest]
              | false =>
                  have user : userSrc = true := by
                    cases userSrc with
                    | false => simp [eitherCopyin] at copy
                    | true => rfl
                  have fails := copy
                  simp only [eitherCopyin, user, if_true] at fails
                  obtain ⟨k, k_lt, pages, stops, bytes_eq⟩ := copyinLoop_fails m.toNat le_rfl fails
                  subst bytes_eq
                  obtain ⟨y, released, disk_y, good_y, data_y, -, root_y, key_y, -, -⟩ :=
                    fault_spec trusted fetched (copyRange (u.bufs bp).data (start % bsize)
                      mem.bytes (src + tot.toNat) k)
                  have faults : Faults mem src (tot.toNat + k) := by
                    have stops' : mem.readable ((src + (tot.toNat + k)) / pgSize) = false := by
                      rw [← Nat.add_assoc]
                      exact stops
                    refine ⟨fun a lower upper => ?_, stops'⟩
                    by_cases old : a < src + tot.toNat
                    · exact readable user a lower old
                    · exact pages a (by omega) (by omega)
                  have recached : Ledger sb ⟨t, Function.update w.inodes i ip⟩
                      ⟨y, Function.update w.inodes i ip⟩ i ∅ := fun _ _ => balanced_congr disk_y
                  have room_t : v.Room sb i (neededSlots off.toNat (tot.toNat + 1)) := by
                    apply (ledger_t _ (Finset.Subset.refl _)).room_iff.mp
                    apply room_of_range
                    intro o lower upper
                    by_cases old : o < off.toNat + tot.toNat
                    · exact (written_t.new o lower old).1
                    · rwa [show o = start by omega]
                  refine ⟨tot, ip, y, tot.toNat + k, ?_, written_t.cold live disk_y,
                    (ledger_t.trans recached within (Finset.empty_subset _)), readable, room,
                    ⟨∅, by simp, holdsParents_empty, ?_⟩, ?_, ?_⟩
                  · simp only [writeLoop, UInt32.lt_iff_toNat_lt, done, if_true, position, map_eq,
                      Except.ok_bind, mapped.present, if_false, read, ← m_eq, copy, released,
                      Bool.false_eq_true, Except.pure_eq_ok]
                  · refine good_y.mono fun bno mem => ?_
                    rw [Set.mem_singleton_iff.mp mem]
                    exact ⟨iblock_mem_allocated live.1, (addr_data.ne_iblock live.1).symm⟩
                  · refine cached_of_fault wf_t live_t (by omega) mapped.block disk_y good_y ?_
                      root_y key_y ?_
                    · rw [data_y, data, Nat.add_sub_cancel_left]
                      rfl
                    · rw [Nat.add_sub_cancel_left]
                      exact (Nat.add_le_add_left k_lt.le _).trans fits
                  · refine .fault user (Nat.le_add_right _ _) (by omega) faults (aligned done) ?_
                      room_t
                    exact div_eq_of_within fits (by omega) (by omega)
        · have ledger_t := ledger.trans short.ledger before path
          have warm : Kept sb w (Volume.cold ⟨t, Function.update w.inodes i ip⟩) i ∅ :=
            short.kept.trans (Kept.recache short.kept.wellFormed rfl)
          have live_t := (short.kept.live i).mpr live_w
          obtain ⟨held, good, few, parents⟩ := short.quiet
          obtain ⟨slot, mem_slot, absent⟩ := short.missing
          refine ⟨tot, ip, t, tot.toNat, ?_, written.keep live warm (idle_binit _),
            ledger_t.mono within, readable, room,
            ⟨held, few, parents, good_inode live good fun bno below => Or.inl below⟩,
            cached_of_good short.kept.wellFormed live_t good parents _ _ _ _,
            .short done rfl (aligned done) fun room_v => ?_⟩
          · simp only [writeLoop, UInt32.lt_iff_toNat_lt, done, if_true, position, map_eq,
              Except.ok_bind, Except.pure_eq_ok]
          · exact not_room_of_full short.full (path mem_slot) absent
              ((ledger_t _ (Finset.Subset.refl _)).room_iff.mpr room_v)
      · have full : tot = n := by
          rw [UInt32.lt_iff_toNat_lt] at done
          apply UInt32.toNat_inj.mp
          omega
        subst full
        have good : Good sb w.state ∅ (allocated sb w.state) := written.idle
        refine ⟨tot, w.inodes i, w.state, tot.toNat, by rw [writeLoop, if_neg done]; rfl, ?_⟩
        rw [Function.update_eq_self]
        exact ⟨written.cold live rfl, ledger, readable, written.room ledger,
          ⟨∅, by simp, holdsParents_empty, good_inode live good fun bno below => Or.inl below⟩,
          cached_of_good written.stays.wellFormed ((written.stays.live i).mpr live) good
            holdsParents_empty _ _ _ _,
          .done rfl rfl written.idle⟩

end Volume

end Fs
end Xv6Duo
