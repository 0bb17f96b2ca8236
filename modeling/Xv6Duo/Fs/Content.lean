import Xv6Duo.Fs.Mapping
import Xv6Duo.Fs.ReadWrite

/-!
# File content

A file is a growable array of bytes: byte `o` lies in file block `o / 4096`. `writei` goes block by
block; each round maps the block, which may fill slots, and then overwrites a range of its bytes.
`readi` goes the same way and, since files have no holes, never fills a slot.
-/

namespace Xv6Duo
namespace Fs

open ByteBlock

/-! ## Copies -/

/-- The pages of a range satisfy a page predicate. -/
def PagesIn (page : Nat → Bool) (start length : Nat) : Prop :=
  ∀ a, start ≤ a → a < start + length → page (a / pgSize) = true

theorem copyinLoop_spec (fuel : Nat) {mem : Memory} {data : Bytes} {dst src len : Nat}
    (readable : PagesIn mem.readable src len) (enough : len ≤ fuel) :
    copyinLoop mem fuel data dst src len = (true, copyRange data dst mem.bytes src len) := by
  induction fuel generalizing data dst src len with
  | zero =>
      obtain rfl : len = 0 := by omega
      rw [copyinLoop, copyRange_zero]
  | succ fuel ih =>
      by_cases empty : len = 0
      · rw [copyinLoop, if_pos empty, empty, copyRange_zero]
      · have first := readable src le_rfl (by omega)
        rw [copyinLoop, if_neg empty, if_pos first]
        simp only [pgSize] at *
        by_cases last : len ≤ 4096 - src % 4096
        · rw [min_eq_right last, Nat.sub_self, ih (fun a _ _ => by omega) (by omega),
            copyRange_zero]
        · have next : src / 4096 * 4096 + 4096 = src + (4096 - src % 4096) := by omega
          rw [min_eq_left (by omega), next,
            ih (fun a lower upper => readable a (by omega) (by omega)) (by omega),
            copyRange_copyRange, Nat.add_sub_cancel' (by omega)]

theorem eitherCopyin_spec {data : Bytes} {dst src len : Nat} {userSrc : Bool} {mem : Memory}
    (readable : userSrc = true → PagesIn mem.readable src len) :
    eitherCopyin data dst userSrc mem src len = (true, copyRange data dst mem.bytes src len) := by
  cases userSrc with
  | false => rfl
  | true => exact copyinLoop_spec len (readable rfl) le_rfl

theorem copyoutLoop_spec (fuel : Nat) {mem : Memory} {data : Bytes} {dst src len : Nat}
    (writable : PagesIn mem.writable dst len) (enough : len ≤ fuel) :
    copyoutLoop data fuel mem dst src len =
      (true, { mem with bytes := copyRange mem.bytes dst data src len }) := by
  induction fuel generalizing mem dst src len with
  | zero =>
      obtain rfl : len = 0 := by omega
      rw [copyoutLoop, copyRange_zero]
  | succ fuel ih =>
      by_cases empty : len = 0
      · rw [copyoutLoop, if_pos empty, empty, copyRange_zero]
      · have first := writable dst le_rfl (by omega)
        rw [copyoutLoop, if_neg empty, if_pos first]
        simp only [pgSize] at *
        by_cases last : len ≤ 4096 - dst % 4096
        · rw [min_eq_right last, Nat.sub_self, ih (fun a _ _ => by omega) (by omega)]
          simp only [copyRange_zero]
        · have next : dst / 4096 * 4096 + 4096 = dst + (4096 - dst % 4096) := by omega
          rw [min_eq_left (by omega), next]
          set after : Memory := { mem with
            bytes := copyRange mem.bytes dst data src (4096 - dst % 4096) }
          have rest : PagesIn after.writable (dst + (4096 - dst % 4096))
              (len - (4096 - dst % 4096)) :=
            fun a lower upper => writable a (by omega) (by omega)
          rw [ih rest (by omega)]
          simp only [after, copyRange_copyRange]
          rw [Nat.add_sub_cancel' (by omega)]

/-- `copyout` stores up to the first page that cannot be written. -/
theorem copyoutLoop_bytes (fuel : Nat) {mem : Memory} {data : Bytes} {dst src len : Nat}
    (enough : len ≤ fuel) (a : Nat) :
    (dst ≤ a → a < dst + len → PagesIn mem.writable dst (a + 1 - dst) →
      (copyoutLoop data fuel mem dst src len).2.bytes a = data (src + (a - dst))) ∧
    (¬(dst ≤ a ∧ a < dst + len ∧ PagesIn mem.writable dst (a + 1 - dst)) →
      (copyoutLoop data fuel mem dst src len).2.bytes a = mem.bytes a) := by
  induction fuel generalizing mem dst src len with
  | zero =>
      obtain rfl : len = 0 := by omega
      exact ⟨fun _ _ _ => by omega, fun _ => rfl⟩
  | succ fuel ih =>
      rw [copyoutLoop]
      by_cases empty : len = 0
      · rw [if_pos empty]
        exact ⟨fun _ _ _ => by omega, fun _ => rfl⟩
      · rw [if_neg empty]
        by_cases first : mem.writable (dst / pgSize) = true
        · rw [if_pos first]
          simp only [pgSize] at *
          set n := min (4096 - dst % 4096) len with n_eq
          set after : Memory := { mem with bytes := copyRange mem.bytes dst data src n }
          have chunk : PagesIn mem.writable dst n := by
            intro b lower upper
            rw [show pgSize = 4096 from rfl, show b / 4096 = dst / 4096 by omega]
            exact first
          obtain ⟨stores, keeps⟩ :=
            @ih after (dst / 4096 * 4096 + 4096) (src + n) (len - n) (by omega)
          have copied : after.bytes a = if dst ≤ a ∧ a < dst + n then data (src + (a - dst))
              else mem.bytes a := rfl
          rcases Nat.lt_or_ge a (dst + n) with before | behind
          · rw [keeps fun inside => by omega, copied]
            constructor
            · intro lower upper _
              rw [if_pos ⟨lower, before⟩]
            · intro outside
              rw [if_neg]
              rintro ⟨lower, -⟩
              exact outside ⟨lower, by omega, fun b b_lower b_upper => chunk b b_lower (by omega)⟩
          · have same : after.writable = mem.writable := rfl
            rw [copied, if_neg (by omega), same] at keeps
            rw [same] at stores
            constructor
            · intro lower upper pages
              rw [stores (by omega) (by omega) fun b b_lower b_upper =>
                pages b (by omega) (by omega)]
              have place : src + n + (a - (dst / 4096 * 4096 + 4096)) = src + (a - dst) := by omega
              rw [place]
            · intro outside
              refine keeps fun inside => outside ⟨by omega, by omega, ?_⟩
              intro b b_lower b_upper
              rcases Nat.lt_or_ge b (dst + n) with early | late
              · exact chunk b b_lower early
              · exact inside.2.2 b (by omega) (by omega)
        · rw [if_neg first]
          refine ⟨fun lower _ pages => absurd (pages dst (Nat.le_refl _) (by omega)) first,
            fun _ => rfl⟩

theorem eitherCopyout_spec {data : Bytes} {dst src len : Nat} {userDst : Bool} {mem : Memory}
    (writable : userDst = true → PagesIn mem.writable dst len) :
    eitherCopyout userDst mem dst data src len =
      (true, { mem with bytes := copyRange mem.bytes dst data src len }) := by
  cases userDst with
  | false => rfl
  | true => exact copyoutLoop_spec len (writable rfl) le_rfl

/-! ## Rounds -/

theorem chunk_toNat {n tot : UInt32} (off : UInt32) (tot_le : tot.toNat ≤ n.toNat) :
    (chunk n tot off).toNat = min (n.toNat - tot.toNat) (4096 - off.toNat % 4096) := by
  have rest : (n - tot).toNat = n.toNat - tot.toNat :=
    UInt32.toNat_sub_of_le _ _ (UInt32.le_iff_toNat_le.mpr tot_le)
  have position : (off % 4096).toNat = off.toNat % 4096 := by
    rw [UInt32.toNat_mod]
    rfl
  have block : (4096 - off % 4096 : UInt32).toNat = 4096 - off.toNat % 4096 := by
    rw [UInt32.toNat_sub_of_le, position]
    · rfl
    · rw [UInt32.le_iff_toNat_le, position, show (4096 : UInt32).toNat = 4096 from rfl]
      omega
  rw [chunk]
  split
  · next less =>
      rw [UInt32.lt_iff_toNat_lt, rest, block] at less
      omega
  · next not_less =>
      rw [UInt32.lt_iff_toNat_lt, rest, block] at not_less
      omega

theorem fileSlot_inj {left right : Nat} (left_lt : left < maxFile) (right_lt : right < maxFile)
    (same : fileSlot left = fileSlot right) : left = right := by
  by_cases left_direct : left < ndirect
  · rw [fileSlot_direct left_direct] at same
    by_cases right_direct : right < ndirect
    · rw [fileSlot_direct right_direct] at same
      simpa using same
    · by_cases right_single : right - ndirect < nindirect
      · rw [fileSlot_single right_direct right_single] at same
        simp at same
      · rw [fileSlot_double right_lt right_direct right_single] at same
        simp at same
  · by_cases left_single : left - ndirect < nindirect
    · rw [fileSlot_single left_direct left_single] at same
      by_cases right_direct : right < ndirect
      · rw [fileSlot_direct right_direct] at same
        simp at same
      · by_cases right_single : right - ndirect < nindirect
        · rw [fileSlot_single right_direct right_single] at same
          have index := congrArg Slot.index same
          simp only [Slot.index] at index
          omega
        · rw [fileSlot_double right_lt right_direct right_single] at same
          simp at same
    · rw [fileSlot_double left_lt left_direct left_single] at same
      by_cases right_direct : right < ndirect
      · rw [fileSlot_direct right_direct] at same
        simp at same
      · by_cases right_single : right - ndirect < nindirect
        · rw [fileSlot_single right_direct right_single] at same
          simp at same
        · rw [fileSlot_double right_lt right_direct right_single] at same
          simp only [Slot.leaf.injEq, Fin.mk.injEq, nindirect] at same
          simp only [nindirect] at left_single right_single
          omega

/-- The bytes of a range inside one block lie in that block. -/
theorem div_eq_of_within {start m o : Nat} (fits : start % bsize + m ≤ bsize) (lower : start ≤ o)
    (upper : o < start + m) : o / bsize = start / bsize := by
  have start_split := Nat.div_add_mod start bsize
  refine Nat.div_eq_of_lt_le ?_ ?_
  · rw [Nat.mul_comm]
    omega
  · rw [Nat.add_mul, Nat.mul_comm]
    omega

theorem div_lt_maxFile {o : Nat} (o_lt : o < 2 ^ 32) : o / bsize < maxFile := by
  simp only [bsize, maxFile, ndirect, nindirect]
  omega

namespace Volume

variable {sb : Superblock} {v w : Volume} {i : UInt32} {slots : Finset Slot}

/-- Byte `o` of a file. -/
def byte (sb : Superblock) (v : Volume) (i : UInt32) (o : Nat) : UInt8 :=
  v.state.view sb (v.block sb i (fileSlot (o / bsize))) (o % bsize)

/-- Overwriting a file block changes no slot. -/
theorem blocks_of_overwrite (wf : v.WellFormed sb) (live : v.Live sb i) {bn : Nat}
    (present : v.block sb i (fileSlot bn) ≠ 0) {s : State} {data : Bytes}
    (disk : s.disk = Function.update v.state.disk (sb.sector (v.block sb i (fileSlot bn))) data)
    {j : UInt32} (live_j : v.Live sb j) (slot : Slot) :
    Volume.block sb ⟨s, v.inodes⟩ j slot = v.block sb j slot := by
  refine block_congr (v := v) (w := ⟨s, v.inodes⟩) rfl (fun slot p parent_eq holder => ?_) slot
  have differ : sb.sector (v.block sb j p) ≠ sb.sector (v.block sb i (fileSlot bn)) := by
    intro same
    have eq := Superblock.sector_inj (wf.data j live_j p holder).inRange.lt
      (wf.data i live _ present).inRange.lt same
    exact fileSlot_ne_parent bn parent_eq (wf.distinct j i live_j live p _ holder eq).2.symm
  rw [State.view, disk, Function.update_of_ne differ]
  rfl

theorem view_of_overwrite {s : State} {addr : UInt32} {data : Bytes} (addr_data : IsData sb addr)
    (disk : s.disk = Function.update v.state.disk (sb.sector addr) data) {c : UInt32}
    (c_range : InRange sb c) :
    s.view sb c = if c = addr then data else v.state.view sb c := by
  rw [State.view, disk]
  split
  · next same => rw [same, Function.update_self]
  · next differ =>
      rw [Function.update_of_ne fun same =>
        differ (Superblock.sector_inj c_range.lt addr_data.inRange.lt same)]
      rfl

theorem used_of_overwrite {s : State} {addr : UInt32} {data : Bytes} (addr_data : IsData sb addr)
    (disk : s.disk = Function.update v.state.disk (sb.sector addr) data) {c : UInt32}
    (c_range : InRange sb c) : used sb s c = used sb v.state c := by
  rw [used, used, view_of_overwrite addr_data disk (bblock_inRange c_range), if_neg]
  rintro eq
  exact addr_data.not_bitmap (eq ▸ ⟨c, c_range, rfl⟩)

/-- Overwriting a file block keeps everything but the bytes of the block. -/
theorem Stays.overwrite (wf : v.WellFormed sb) (live : v.Live sb i) {bn : Nat}
    (present : v.block sb i (fileSlot bn) ≠ 0) {s : State} {data : Bytes}
    (disk : s.disk = Function.update v.state.disk (sb.sector (v.block sb i (fileSlot bn))) data) :
    Stays sb v ⟨s, v.inodes⟩ i slots := by
  have addr_data := wf.data i live _ present
  have blocks : ∀ j, v.Live sb j → ∀ slot,
      Volume.block sb ⟨s, v.inodes⟩ j slot = v.block sb j slot :=
    fun j live_j slot => blocks_of_overwrite wf live present disk live_j slot
  have same_used : ∀ c, InRange sb c → used sb s c = used sb v.state c :=
    fun c c_range => used_of_overwrite addr_data disk c_range
  refine ⟨wf.of_blocks (fun _ => rfl) (fun _ => Iff.rfl) blocks same_used wf.noHole, fun _ => rfl,
    fun _ _ => rfl, fun j slot live_j _ => blocks j live_j slot, ?_, ?_, ?_, ?_⟩
  · intro c c_range marked
    exact (same_used c c_range).trans marked
  · intro c below _
    rw [view_of_overwrite addr_data disk (below.trans_le nmeta_le), if_neg]
    rintro rfl
    exact absurd addr_data.1 (not_le.mpr below)
  · intro tight
    exact tight.of_blocks (fun _ => Iff.rfl) blocks same_used
  · exact (Balanced.of_blocks (fun slot => blocks i live slot) same_used).room_iff.mpr

/-! ## Writing -/

/-- The slots that the file blocks of a range need. -/
def neededSlots (off n : Nat) : Finset Slot :=
  ((Finset.Ico off (off + n)).image (· / bsize)).biUnion fun bn => Slot.path (fileSlot bn)

theorem path_subset_neededSlots {off n o : Nat} (lower : off ≤ o) (upper : o < off + n) :
    Slot.path (fileSlot (o / bsize)) ⊆ neededSlots off n :=
  Finset.subset_biUnion_of_mem (fun bn => Slot.path (fileSlot bn))
    (Finset.mem_image_of_mem _ (Finset.mem_Ico.mpr ⟨lower, upper⟩))

/-- The first `tot` bytes of a write to inode `i` from `off` on have been done. -/
structure Written (sb : Superblock) (v w : Volume) (i : UInt32) (slots : Finset Slot)
    (off tot : Nat) (source : Nat → UInt8) : Prop where
  /-- The rest of the volume is left alone. -/
  stays : Stays sb v w i slots
  /-- No buffer is busy. -/
  idle : Idle sb w.state
  /-- The other bytes of files are as before. -/
  old : ∀ j o, v.Live sb j → o < 2 ^ 32 → v.block sb j (fileSlot (o / bsize)) ≠ 0 →
    ¬(j = i ∧ off ≤ o ∧ o < off + tot) → w.byte sb j o = v.byte sb j o
  /-- The bytes of the range are the source bytes. -/
  new : ∀ o, off ≤ o → o < off + tot →
    w.block sb i (fileSlot (o / bsize)) ≠ 0 ∧ w.byte sb i o = source (o - off)

theorem Written.refl (wf : v.WellFormed sb) (idle : Idle sb v.state) (off : Nat)
    (source : Nat → UInt8) : Written sb v v i slots off 0 source :=
  ⟨Stays.refl wf, idle, fun _ _ _ _ _ _ => rfl, fun _ _ _ => by omega⟩

/-- Filling slots does not touch the bytes. -/
theorem Written.keep {x : Volume} {off tot : Nat} {source : Nat → UInt8}
    (written : Written sb v w i slots off tot source) (live : v.Live sb i)
    (kept : Kept sb w x i slots) (idle : Idle sb x.state) :
    Written sb v x i slots off tot source where
  stays := written.stays.trans kept.toStays
  idle := idle
  old j o live_j o_lt present outside := by
    have same := written.stays.stable j _ live_j present
    have live_w := (written.stays.live j).mpr live_j
    rw [← written.old j o live_j o_lt present outside, byte, byte,
      kept.stable j _ live_w (same ▸ present), kept.bytes j _ live_w (same ▸ present)]
  new o lower upper := by
    obtain ⟨present, value⟩ := written.new o lower upper
    have live_w := (written.stays.live i).mpr live
    have same := kept.stable i _ live_w present
    refine ⟨same ▸ present, ?_⟩
    rw [← value, byte, byte, same, kept.bytes i _ live_w present]

/-- Mapping one more block does not touch the bytes. -/
theorem Written.map {x : Volume} {off tot : Nat} {source : Nat → UInt8} {slot : Slot}
    {addr : UInt32} (written : Written sb v w i slots off tot source) (live : v.Live sb i)
    (mapped : Mapped sb w x i slots slot addr) : Written sb v x i slots off tot source :=
  written.keep live mapped.kept mapped.idle

/-- Overwriting the next bytes of a block that is there. -/
theorem Written.store {off tot m : Nat} {source : Nat → UInt8} {s : State}
    (written : Written sb v w i slots off tot source) (live : v.Live sb i)
    (end_lt : off + tot + m ≤ 2 ^ 32) (fits : (off + tot) % bsize + m ≤ bsize) (some_bytes : 0 < m)
    (present : w.block sb i (fileSlot ((off + tot) / bsize)) ≠ 0) (idle : Idle sb s)
    (disk : s.disk = Function.update w.state.disk
      (sb.sector (w.block sb i (fileSlot ((off + tot) / bsize))))
      (copyRange (w.state.view sb (w.block sb i (fileSlot ((off + tot) / bsize))))
        ((off + tot) % bsize) source tot m)) :
    Written sb v ⟨s, w.inodes⟩ i slots off (tot + m) source := by
  have wf := written.stays.wellFormed
  have live_w : ∀ {j}, v.Live sb j → w.Live sb j := fun {j} => (written.stays.live j).mpr
  have addr_data := wf.data i (live_w live) _ present
  have bsize_pos : 0 < bsize := by decide
  -- A byte lies in the overwritten block only when it is a byte of that file block of `i`.
  have value : ∀ j o, v.Live sb j → o < 2 ^ 32 → w.block sb j (fileSlot (o / bsize)) ≠ 0 →
      Volume.byte sb ⟨s, w.inodes⟩ j o =
        if j = i ∧ off + tot ≤ o ∧ o < off + tot + m then source (o - off)
        else w.byte sb j o := by
    intro j o live_j o_lt present_o
    have block_data := wf.data j (live_w live_j) _ present_o
    rw [byte, blocks_of_overwrite wf (live_w live) present disk (live_w live_j),
      view_of_overwrite addr_data disk block_data.inRange]
    split
    · next same =>
        obtain ⟨rfl, slot_eq⟩ := wf.distinct j i (live_w live_j) (live_w live) _ _ present_o same
        have block_eq := fileSlot_inj (div_lt_maxFile o_lt) (div_lt_maxFile (by omega)) slot_eq
        have o_split := Nat.div_add_mod o bsize
        have start_split := Nat.div_add_mod (off + tot) bsize
        rw [block_eq] at o_split
        rw [copyRange]
        by_cases inside : off + tot ≤ o ∧ o < off + tot + m
        · rw [if_pos (by omega), if_pos ⟨rfl, inside⟩]
          congr 1
          omega
        · rw [if_neg (by omega), if_neg (by tauto), byte, same]
    · next differ =>
        rw [if_neg]
        · rfl
        · rintro ⟨rfl, lower, upper⟩
          exact differ (by rw [div_eq_of_within fits lower upper])
  refine ⟨written.stays.trans (Stays.overwrite wf (live_w live) present disk), idle, ?_, ?_⟩
  · intro j o live_j o_lt present_o outside
    have same := written.stays.stable j _ live_j present_o
    rw [value j o live_j o_lt (same ▸ present_o),
      if_neg fun inside => outside ⟨inside.1, by omega, by omega⟩]
    exact written.old j o live_j o_lt present_o fun inside =>
      outside ⟨inside.1, inside.2.1, by omega⟩
  · intro o lower upper
    have present_o : w.block sb i (fileSlot (o / bsize)) ≠ 0 := by
      by_cases before : o < off + tot
      · exact (written.new o lower before).1
      · rw [div_eq_of_within fits (not_lt.mp before) (by omega)]
        exact present
    refine ⟨?_, ?_⟩
    · rw [blocks_of_overwrite wf (live_w live) present disk (live_w live)]
      exact present_o
    · rw [value i o live (by omega) present_o]
      by_cases before : o < off + tot
      · rw [if_neg fun inside => by omega]
        exact (written.new o lower before).2
      · rw [if_pos ⟨rfl, by omega, by omega⟩]

/-- Releasing a block after it has been overwritten leaves the cache idle. -/
theorem idle_of_overwrite {s : State} {addr : UInt32} {data : Bytes} (addr_data : IsData sb addr)
    (good : Good sb s ∅ (insert addr (allocated sb v.state)))
    (disk : s.disk = Function.update v.state.disk (sb.sector addr) data) : Idle sb s := by
  refine good.mono ?_
  rintro c (below | ⟨c_range, marked⟩)
  · exact Or.inr (Or.inl below)
  · exact Or.inr (Or.inr ⟨c_range, (used_of_overwrite addr_data disk c_range).symm.trans marked⟩)

/-- The loop of `writei` writes the whole range, and keeps the room for more slots. -/
theorem writeLoop_spec (fuel : Nat) {userSrc : Bool} {mem : Memory} {src : Nat}
    {off n tot : UInt32} (live : v.Live sb i) (off_n : off.toNat + n.toNat < 2 ^ 32)
    (readable : userSrc = true → PagesIn mem.readable src n.toNat)
    (needed : neededSlots off.toNat n.toNat ⊆ slots) (room : v.Room sb i slots)
    (written : Written sb v w i slots off.toNat tot.toNat fun k => mem.bytes (src + k))
    (tot_le : tot.toNat ≤ n.toNat) (enough : n.toNat - tot.toNat < fuel) :
    ∃ ip t, writeLoop sb userSrc mem n fuel w.state (w.inodes i) (src + tot.toNat) (off + tot) tot =
        .ok (n, off + n, ip, t) ∧
      Written sb v ⟨t, Function.update w.inodes i ip⟩ i slots off.toNat n.toNat
        fun k => mem.bytes (src + k) := by
  induction fuel generalizing w tot with
  | zero => omega
  | succ fuel ih =>
      by_cases done : tot < n
      · rw [UInt32.lt_iff_toNat_lt] at done
        have position : (off + tot).toNat = off.toNat + tot.toNat := by
          rw [UInt32.toNat_add, Nat.mod_eq_of_lt (by omega)]
        set start := off.toNat + tot.toNat with start_eq
        have chunk_eq := chunk_toNat (off + tot) tot_le
        rw [position] at chunk_eq
        set m := chunk n tot (off + tot) with m_eq
        have m_pos : 0 < m.toNat := by omega
        have fits : start % bsize + m.toNat ≤ bsize := by
          simp only [bsize]
          omega
        obtain ⟨addr, ip, t, map_eq, mapped⟩ := bmap_spec
          written.stays.wellFormed written.idle ((written.stays.live i).mpr live)
          (show start / bsize < maxFile from div_lt_maxFile (by omega))
          ((path_subset_neededSlots (by omega) (by omega)).trans needed) (written.stays.room room)
        have written_t := written.map live mapped
        have live_t := (written_t.stays.live i).mpr live
        have present := mapped.present
        rw [← mapped.block] at present
        have addr_data := written_t.stays.wellFormed.data i live_t _ present
        rw [mapped.block] at addr_data
        have trusted : addr ∈ allocated sb t := by
          have := written_t.stays.wellFormed.marked i live_t _ present
          rw [mapped.block] at this
          exact Or.inr ⟨addr_data.inRange, this⟩
        obtain ⟨bp, u, read, data, -, edit⟩ :=
          @access_spec sb t ∅ _ mapped.idle addr unheld_empty (by decide)
        have copied : eitherCopyin (u.bufs bp).data (start % bsize) userSrc mem (src + tot.toNat)
            m.toNat = _ :=
          eitherCopyin_spec fun user a lower upper => readable user a (by omega) (by omega)
        obtain ⟨x, y, wrote, released, good_y, disk_y, -⟩ := edit
          (copyRange (u.bufs bp).data (start % bsize) mem.bytes (src + tot.toNat) m.toNat)
        rw [data trusted] at disk_y
        have idle_y := idle_of_overwrite (v := ⟨t, Function.update w.inodes i ip⟩) addr_data good_y
          disk_y
        rw [copyRange_shift, ← mapped.block] at disk_y
        have written_y := written_t.store live (by omega) fits m_pos present idle_y disk_y
        have next_tot : (tot + m).toNat = tot.toNat + m.toNat := by
          rw [UInt32.toNat_add, Nat.mod_eq_of_lt (by omega)]
        have next_off : off + tot + m = off + (tot + m) := by rw [UInt32.add_assoc]
        rw [← next_tot] at written_y
        obtain ⟨ip', z, rest, written_z⟩ := ih written_y (by omega) (by omega)
        refine ⟨ip', z, ?_, by simpa using written_z⟩
        simp only [Function.update_self, next_tot, ← Nat.add_assoc, ← next_off] at rest
        simp only [writeLoop, UInt32.lt_iff_toNat_lt, done, if_true, position, map_eq,
          Except.ok_bind, mapped.present, if_false, read, ← m_eq, copied, wrote, released, rest]
      · have full : tot = n := by
          rw [UInt32.lt_iff_toNat_lt] at done
          apply UInt32.toNat_inj.mp
          omega
        subst full
        refine ⟨w.inodes i, w.state, ?_, ?_⟩
        · rw [writeLoop, if_neg done]
          rfl
        · rw [Function.update_eq_self]
          exact written

end Volume

end Fs
end Xv6Duo
