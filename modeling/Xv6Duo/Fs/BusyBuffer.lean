import Xv6Duo.Fs.Report

/-!
# The buffer that `bmap` does not release

On a full volume `bmap` may return from between `bread` and `brelse`. It does so when the slot that
it cannot fill is an entry of a block; a slot of `addrs` is met before any buffer is fetched.
-/

namespace Xv6Duo
namespace Fs

open ByteBlock

/-- The slot of `addrs` through which `bmap` reaches a block of a file. -/
def rootSlot (bn : Nat) : Fin 13 :=
  if direct : bn < ndirect then ⟨bn, direct_lt direct⟩
  else if bn - ndirect < nindirect then indirectSlot
  else indirect2Slot

variable {sb : Superblock}

namespace Volume

variable {v w : Volume} {i : UInt32} {slots : Finset Slot} {bn : Nat}

/-! ## Where the shortage is met -/

/-- Without a block for the slot of `addrs`, `bmap` returns before it fetches a buffer. -/
theorem bmap_top (idle : Idle sb v.state) (bn_lt : bn < maxFile)
    (absent : (v.inodes i).addrs (rootSlot bn) = 0) (full : Full sb v.state) :
    ∃ t, bmap sb v.state (v.inodes i) bn = .ok (0, v.inodes i, t) ∧ t.disk = v.state.disk ∧
      Idle sb t := by
  obtain ⟨t, addr, disk, idle_t⟩ := bmapAddr_full idle absent full
  refine ⟨t, ?_, disk, idle_t⟩
  by_cases direct : bn < ndirect
  · rw [rootSlot, dif_pos direct] at addr
    rw [bmap, dif_pos direct, addr]
  · by_cases single : bn - ndirect < nindirect
    · rw [rootSlot, dif_neg direct, if_pos single] at addr
      simp only [bmap, direct, dite_false, single, if_true, addr, Except.ok_bind,
        Except.pure_eq_ok]
    · have double := double_lt bn_lt
      rw [rootSlot, dif_neg direct, if_neg single] at addr
      simp only [bmap, direct, dite_false, single, if_false, double, if_true, addr, Except.ok_bind,
        Except.pure_eq_ok]

/-- The slot of `addrs` is there or there is a block for it. -/
theorem bmapAddr_mapped (wf : v.WellFormed sb) (idle : Idle sb v.state) (live : v.Live sb i)
    {a : Fin 13} (available : ¬((v.inodes i).addrs a = 0 ∧ Full sb v.state)) :
    ∃ addr ip t, bmapAddr sb v.state (v.inodes i) a = .ok (addr, ip, t) ∧
      Mapped sb v ⟨t, Function.update v.inodes i ip⟩ i ∅ (.addr a) addr := by
  obtain ⟨addr, ip, t, run, ⟨mapped, -⟩ | ⟨rfl, short⟩⟩ := bmapAddr_outcome wf idle live a
  · exact ⟨addr, ip, t, run, mapped⟩
  · refine absurd ⟨?_, ?_⟩ available
    · by_contra present
      rw [bmapAddr_present present] at run
      exact present (congrArg Prod.fst (Except.ok.inj run))
    · rcases full_or_free sb v.state with full | free
      · exact full
      · by_cases absent : (v.inodes i).addrs a = 0
        · obtain ⟨b, ip', t', run', filled, -⟩ := bmapAddr_fills wf idle live absent free
          rw [run'] at run
          exact absurd (congrArg Prod.fst (Except.ok.inj run)) filled.data.ne_zero
        · rw [bmapAddr_present absent] at run
          exact absurd (congrArg Prod.fst (Except.ok.inj run)) absent

/-- An entry for which there is no block leaves a buffer busy. -/
theorem bmapEntry_zero (wf : v.WellFormed sb) (idle : Idle sb v.state) (live : v.Live sb i)
    {slot p : Slot} {t : State} (parent_eq : slot.parent = some p) (holder : v.block sb i p ≠ 0)
    (run : bmapEntry sb v.state (v.block sb i p) slot.index = .ok (0, t)) :
    ∃ b, (t.bufs b).busy = true := by
  by_cases absent : v.block sb i slot = 0
  · rcases full_or_free sb v.state with full | free
    · obtain ⟨bp, u, entry, -, good, -⟩ :=
        bmapEntry_full wf idle live parent_eq holder absent full
      obtain rfl : u = t := congrArg Prod.snd (Except.ok.inj (entry.symm.trans run))
      exact ⟨bp, (good.busy_iff bp).mpr (Finset.mem_insert_self _ _)⟩
    · obtain ⟨b, u, entry, filled, -⟩ :=
        bmapEntry_fills wf idle live parent_eq holder absent free
      exact absurd (congrArg Prod.fst (Except.ok.inj (entry.symm.trans run))) filled.data.ne_zero
  · obtain ⟨u, entry, -⟩ := bmapEntry_present wf idle live parent_eq absent
    exact absurd (congrArg Prod.fst (Except.ok.inj (entry.symm.trans run))) absent

/-- Below `addrs`, `bmap` returns zero only with a busy buffer. -/
theorem bmap_zero (wf : v.WellFormed sb) (idle : Idle sb v.state) (live : v.Live sb i)
    (bn_lt : bn < maxFile)
    (available : ¬((v.inodes i).addrs (rootSlot bn) = 0 ∧ Full sb v.state)) {ip : Inode} {t : State}
    (run : bmap sb v.state (v.inodes i) bn = .ok (0, ip, t)) : ∃ b, (t.bufs b).busy = true := by
  obtain ⟨addr, ip', s, top, mapped⟩ := bmapAddr_mapped wf idle live available
  have live_s := (mapped.kept.live i).mpr live
  by_cases direct : bn < ndirect
  · rw [rootSlot, dif_pos direct] at top
    rw [bmap, dif_pos direct, top] at run
    exact absurd (congrArg Prod.fst (Except.ok.inj run)) mapped.present
  by_cases single : bn - ndirect < nindirect
  · have root : rootSlot bn = indirectSlot := by rw [rootSlot, dif_neg direct, if_pos single]
    rw [root] at top mapped
    obtain ⟨next, u, entry, -⟩ := bmapEntry_outcome mapped.kept.wellFormed mapped.idle live_s
      (show Slot.parent (.entry ⟨bn - ndirect, single⟩) = _ from rfl)
        (mapped.block ▸ mapped.present)
    have value : next = 0 ∧ u = t := by
      have entry' := entry
      rw [mapped.block, Slot.index] at entry'
      simp only [bmap, direct, dite_false, single, if_true, top, Except.ok_bind, mapped.present,
        if_false, entry', Except.pure_eq_ok, Except.ok.injEq, Prod.mk.injEq] at run
      exact ⟨run.1, run.2.2⟩
    obtain ⟨rfl, rfl⟩ := value
    exact bmapEntry_zero mapped.kept.wellFormed mapped.idle live_s
      (show Slot.parent (.entry ⟨bn - ndirect, single⟩) = _ from rfl)
      (mapped.block ▸ mapped.present) entry
  · have double := double_lt bn_lt
    have root : rootSlot bn = indirect2Slot := by rw [rootSlot, dif_neg direct, if_neg single]
    rw [root] at top mapped
    set table : Slot := .table ⟨(bn - ndirect - nindirect) / nindirect, high_lt bn_lt⟩
    have table_parent : table.parent = some (.addr indirect2Slot) := rfl
    obtain ⟨next, u, entry, outcome⟩ := bmapEntry_outcome mapped.kept.wellFormed mapped.idle live_s
      table_parent (mapped.block ▸ mapped.present)
    have entry' := entry
    rw [mapped.block, show table.index = (bn - ndirect - nindirect) / nindirect from rfl] at entry'
    rcases outcome with ⟨mapped_u, -⟩ | ⟨rfl, -⟩
    · set leaf : Slot := .leaf ⟨(bn - ndirect - nindirect) / nindirect, high_lt bn_lt⟩
        ⟨(bn - ndirect - nindirect) % nindirect, low_lt bn⟩
      have leaf_parent : leaf.parent = some table := rfl
      have live_u := (mapped_u.kept.live i).mpr live_s
      obtain ⟨last, x, final, -⟩ := bmapEntry_outcome mapped_u.kept.wellFormed mapped_u.idle live_u
        leaf_parent (mapped_u.block ▸ mapped_u.present)
      have final' := final
      rw [mapped_u.block, show leaf.index = (bn - ndirect - nindirect) % nindirect from rfl]
        at final'
      simp only [bmap, direct, dite_false, single, if_false, double, if_true, top, Except.ok_bind,
        mapped.present, entry', mapped_u.present, final', Except.pure_eq_ok, Except.ok.injEq,
        Prod.mk.injEq] at run
      obtain ⟨rfl, -, rfl⟩ := run
      exact bmapEntry_zero mapped_u.kept.wellFormed mapped_u.idle live_u leaf_parent
        (mapped_u.block ▸ mapped_u.present) final
    · simp only [bmap, direct, dite_false, single, if_false, double, if_true, top, Except.ok_bind,
        mapped.present, entry', Except.pure_eq_ok, Except.ok.injEq, Prod.mk.injEq, true_and] at run
      obtain ⟨-, rfl⟩ := run
      exact bmapEntry_zero mapped.kept.wellFormed mapped.idle live_s table_parent
        (mapped.block ▸ mapped.present) entry

/-! ## Later accesses -/

/-- The loop of `readi` returns, whatever the copies do. -/
theorem readLoop_returns (fuel : Nat) (wf : v.WellFormed sb) (live : v.Live sb i) {userDst : Bool}
    {mem : Memory} {dst : Nat} {off n tot : UInt32} {s : State} (idle : Idle sb s)
    (disk : s.disk = v.state.disk) (inside : off.toNat + n.toNat ≤ (v.inodes i).size.toNat)
    (tot_le : tot.toNat ≤ n.toNat) (enough : n.toNat - tot.toNat < fuel) :
    ∃ result, readLoop sb userDst n fuel s (v.inodes i) mem dst (off + tot) tot = .ok result := by
  induction fuel generalizing s tot mem dst with
  | zero => omega
  | succ fuel ih =>
      rw [readLoop]
      split
      · next more =>
          rw [UInt32.lt_iff_toNat_lt] at more
          have size_lt := (v.inodes i).size.toNat_lt
          have position : (off + tot).toNat = off.toNat + tot.toNat := by
            rw [UInt32.toNat_add, Nat.mod_eq_of_lt (by omega)]
          set start := off.toNat + tot.toNat with start_eq
          have chunk_eq := chunk_toNat (off + tot) tot_le
          have present : v.block sb i (fileSlot (start / bsize)) ≠ 0 :=
            wf.noHole i live _ (by have := Nat.div_mul_le_self start bsize; omega)
          have blocks : Volume.block sb ⟨s, v.inodes⟩ i (fileSlot (start / bsize)) =
              v.block sb i (fileSlot (start / bsize)) := by
            simp only [Volume.block, view_congr disk]
          obtain ⟨t, map_eq, disk_t, idle_t⟩ := bmap_present (v := ⟨s, v.inodes⟩) (wf.of_disk disk)
            idle live (div_lt_maxFile (by omega)) (blocks ▸ present)
          rw [blocks] at map_eq
          obtain ⟨bp, u, read, -, ⟨x, released, good_x, disk_x, -⟩, -⟩ :=
            @access_spec sb t ∅ _ idle_t (v.block sb i (fileSlot (start / bsize))) unheld_empty
              (by decide)
          have idle_x : Idle sb x :=
            (allocated_congr disk_x ▸ good_x : Good sb x ∅ (allocated sb x))
          have next_tot : (tot + chunk n tot (off + tot)).toNat =
              tot.toNat + (chunk n tot (off + tot)).toNat := by
            rw [UInt32.toNat_add, Nat.mod_eq_of_lt (by omega)]
          simp only [position, map_eq, Except.ok_bind, present, if_false, read, released]
          split
          · rw [UInt32.add_assoc]
            exact ih idle_x (disk_x.trans (disk_t.trans disk)) (by omega) (by omega)
          · exact ⟨_, rfl⟩
      · exact ⟨_, rfl⟩

/-- A read of a file returns. -/
theorem readi_returns (wf : v.WellFormed sb) (idle : Idle sb v.state) (live : v.Live sb i)
    (userDst : Bool) (mem : Memory) (dst : Nat) (off n : UInt32) :
    ∃ result, readi sb v.state (v.inodes i) userDst mem dst off n = .ok result := by
  rw [readi]
  split
  · exact ⟨_, rfl⟩
  · next accepted =>
      simp only [not_or, gt_iff_lt, UInt32.not_lt, UInt32.le_iff_toNat_le] at accepted
      obtain ⟨off_le, no_wrap⟩ := accepted
      have inside : off.toNat + (if off + n > (v.inodes i).size then (v.inodes i).size - off
          else n).toNat ≤ (v.inodes i).size.toNat := by
        have end_eq : (off + n).toNat = off.toNat + n.toNat := by
          have n_lt := n.toNat_lt
          rw [UInt32.toNat_add] at no_wrap ⊢
          omega
        split
        · rw [UInt32.toNat_sub_of_le _ _ (UInt32.le_iff_toNat_le.mpr off_le)]
          omega
        · next within =>
            rw [gt_iff_lt, UInt32.not_lt, UInt32.le_iff_toNat_le, end_eq] at within
            exact within
      generalize (if off + n > (v.inodes i).size then (v.inodes i).size - off else n) = count
        at inside ⊢
      obtain ⟨⟨tot, left, ip, t⟩, loop⟩ :=
        @readLoop_returns sb v i (count.toNat + 1) wf live userDst
        mem dst off count 0 _ idle rfl inside (Nat.zero_le _) (by simp)
      rw [UInt32.add_zero] at loop
      exact ⟨_, by simp only [loop, Except.ok_bind]; rfl⟩

/-- A write to a file returns a count of at most the bytes of the request. -/
theorem writei_returns (wf : v.WellFormed sb) (idle : Idle sb v.state) (live : v.Live sb i)
    (userSrc : Bool) (mem : Memory) (src : Nat) (off n : UInt32) :
    ∃ count ip t, writei sb v.state (v.inodes i) userSrc mem src off n = .ok (count, ip, t) ∧
      count ≤ n.toNat := by
  by_cases refused : off > (v.inodes i).size ∨ off + n < off
  · exact ⟨-1, v.inodes i, v.state, by rw [writei, if_pos refused], by omega⟩
  · have accepted := refused
    simp only [not_or, gt_iff_lt, UInt32.not_lt, UInt32.le_iff_toNat_le] at accepted
    have no_wrap := accepted.2
    have n_lt := n.toNat_lt
    rw [UInt32.toNat_add] at no_wrap
    obtain ⟨tot, ip, t, c, run, ended⟩ := writei_ends wf idle live userSrc mem src accepted.1
      (show off.toNat + n.toNat < 2 ^ 32 by omega)
    refine ⟨asInt tot, ip, t, run, ?_⟩
    have tot_le := ended.ending.le
    rw [asInt]
    split
    · omega
    · omega

/-! ## When the buffers are released -/

/-- What is promised of a call of `bmap` for block `bn` of a file. -/
structure Released (sb : Superblock) (v w : Volume) (i : UInt32) (bn : Nat) (addr : UInt32) :
    Prop where
  /-- The busy buffers are those of before. -/
  busy : ∀ b, (w.state.bufs b).busy = (v.state.bufs b).busy
  /-- The volume stays well formed. -/
  wellFormed : w.WellFormed sb
  /-- Without a block the other blocks of the file are as before. -/
  others : addr = 0 → ∀ other < maxFile, other ≠ bn →
    w.block sb i (fileSlot other) = v.block sb i (fileSlot other)
  /-- The file can be read. -/
  reads : ∀ userDst mem dst off n,
    ∃ result, readi sb w.state (w.inodes i) userDst mem dst off n = .ok result
  /-- The file can be written, as far as there are blocks. -/
  writes : ∀ userSrc mem src off n, ∃ count ip t,
    writei sb w.state (w.inodes i) userSrc mem src off n = .ok (count, ip, t) ∧ count ≤ n.toNat

/-- A run of `bmap` that leaves no buffer busy does what is promised. -/
theorem Released.of_idle {addr : UInt32} (idle : Idle sb v.state) (live : v.Live sb i)
    (kept : Kept sb v w i ∅) (idle_w : Idle sb w.state)
    (others : addr = 0 → ∀ other < maxFile, other ≠ bn →
      w.block sb i (fileSlot other) = v.block sb i (fileSlot other)) :
    Released sb v w i bn addr where
  busy b := by
    have none (s : State) (idle_s : Idle sb s) : (s.bufs b).busy = false := by
      rw [← Bool.not_eq_true, idle_s.busy_iff]
      exact Finset.notMem_empty b
    rw [none _ idle, none _ idle_w]
  wellFormed := kept.wellFormed
  others := others
  reads := readi_returns kept.wellFormed idle_w ((kept.live i).mpr live)
  writes := writei_returns kept.wellFormed idle_w ((kept.live i).mpr live)

theorem bmap_beyond {s : State} {ip : Inode} (beyond : maxFile ≤ bn) :
    bmap sb s ip bn = .error .bmapOutOfRange := by
  have bounds : maxFile = ndirect + nindirect + nindirect * nindirect := rfl
  rw [bmap, dif_neg (by omega), if_neg (by omega), if_neg (by omega)]

/-- A call of `bmap` that runs out of blocks below `addrs` does not do what is promised. -/
theorem bmap_unreleased (wf : v.WellFormed sb) (idle : Idle sb v.state) (live : v.Live sb i)
    (bn_lt : bn < maxFile) (short : ¬v.Room sb i (Slot.path (fileSlot bn)))
    (available : ¬((v.inodes i).addrs (rootSlot bn) = 0 ∧ Full sb v.state)) {addr : UInt32}
    {ip : Inode} {t : State} (run : bmap sb v.state (v.inodes i) bn = .ok (addr, ip, t)) :
    ¬Released sb v ⟨t, Function.update v.inodes i ip⟩ i bn addr := by
  intro released
  obtain ⟨addr', ip', t', run', ⟨mapped, ledger⟩ | ⟨rfl, -⟩⟩ := bmap_outcome wf idle live bn_lt
  · exact short ((ledger _ (Finset.Subset.refl _)).room_iff.mp
      (room_of_present (path_present (mapped.block ▸ mapped.present))))
  · obtain ⟨rfl, rfl, rfl⟩ : 0 = addr ∧ ip' = ip ∧ t' = t := by
      simpa using run'.symm.trans run
    obtain ⟨b, busy⟩ := bmap_zero wf idle live bn_lt available run
    have before := released.busy b
    rw [busy] at before
    exact absurd ((idle.busy_iff b).mp before.symm) (Finset.notMem_empty b)

/-- `bmap` keeps its promise exactly when it has a block for every slot that it fills, or none at
all and the first of them is in `addrs`. -/
theorem bmap_exact_iff (wf : v.WellFormed sb) (idle : Idle sb v.state) (live : v.Live sb i)
    (bn : Nat) :
    (∃ addr ip t, bmap sb v.state (v.inodes i) bn = .ok (addr, ip, t) ∧
        Released sb v ⟨t, Function.update v.inodes i ip⟩ i bn addr) ↔
      bn < maxFile ∧ (v.Room sb i (Slot.path (fileSlot bn)) ∨
        (v.inodes i).addrs (rootSlot bn) = 0 ∧ Full sb v.state) := by
  constructor
  · rintro ⟨addr, ip, t, run, released⟩
    have bn_lt : bn < maxFile := by
      by_contra beyond
      rw [bmap_beyond (by omega)] at run
      cases run
    refine ⟨bn_lt, ?_⟩
    by_contra neither
    obtain ⟨short, available⟩ := not_or.mp neither
    exact bmap_unreleased wf idle live bn_lt short available run released
  · rintro ⟨bn_lt, room | ⟨absent, full⟩⟩
    · obtain ⟨addr, ip, t, run, ⟨mapped, -⟩ | ⟨rfl, short⟩⟩ := bmap_outcome wf idle live bn_lt
      · exact ⟨addr, ip, t, run, .of_idle idle live mapped.kept mapped.idle
          fun zero => absurd zero mapped.present⟩
      · obtain ⟨slot, mem, absent⟩ := short.missing
        exact absurd ((short.ledger _ (Finset.Subset.refl _)).room_iff.mpr room)
          (not_room_of_full short.full mem absent)
    · obtain ⟨t, run, disk, idle_t⟩ := bmap_top idle bn_lt absent full
      refine ⟨0, v.inodes i, t, run, ?_⟩
      rw [Function.update_eq_self]
      refine .of_idle idle live (Kept.recache wf disk) idle_t fun _ other _ _ => ?_
      simp only [Volume.block, view_congr disk]

/-- The first block of an empty file that is named by the indirect block. -/
theorem fresh_released : ∃ addr ip t,
    bmap mkfsSuper fresh.state (fresh.inodes 2) ndirect = .ok (addr, ip, t) ∧
      Released mkfsSuper fresh ⟨t, Function.update fresh.inodes 2 ip⟩ 2 ndirect addr := by
  have room : fresh.Room mkfsSuper 2 (neededSlots 0 50000) := ofFile_room (by decide)
  refine (bmap_exact_iff fresh_wellFormed (idle_binit _) ((fresh_live_iff 2).mpr rfl) ndirect).mpr
    ⟨by decide, Or.inl (room.mono ?_)⟩
  exact path_subset_neededSlots (o := ndirect * bsize) (by decide) (by decide)

/-! ## A volume with one free block -/

/-- A small partition as `mkfs` lays it out, with twelve data blocks from block 39 on. -/
def brimSuper : Superblock where
  lba := 2048
  size := 51
  nblocks := 12
  ninodes := 1024
  inodestart := 6
  bmapstart := 38
  size_le := by decide
  nblocks_le := by decide
  boot_fits := mkfsSuper.boot_fits
  inodes_fit := mkfsSuper.inodes_fit
  bitmap_fits := by decide

/-- A file that fills the direct blocks. -/
def brimFile : Inode :=
  { emptyFile with
    size := 45056
    addrs := fun a => if a.val < 11 then UInt32.ofNat (39 + a) else 0 }

/-- The card with the file and one free block. -/
def brimImage (bno : UInt32) : Bytes :=
  if bno = 6 then storeDinode zeros brimFile
  else if bno = 38 then firstBits 50
  else zeros

/-- The volume of that card. -/
def brim : Volume := ofDisk brimSuper (diskOf brimSuper brimImage)

theorem brim_single : SingleFile brimSuper brimImage brimFile where
  inum_lt := by decide
  stored := rfl
  empty j j_lt differ := by
    have block := iblock_toNat j_lt
    have not_bitmap : iblock brimSuper j ≠ 38 := by
      intro same
      rw [show brimSuper.ninodes.toNat = 1024 from rfl] at j_lt
      rw [same, show brimSuper.inodestart.toNat = 6 from rfl] at block
      simp only [UInt32.reduceToNat] at block
      omega
    rw [show iblock brimSuper brimFile.inum = 6 from rfl] at differ
    rw [brimImage, if_neg differ, if_neg not_bitmap]

theorem brim_inode : brim.inodes 2 = brimFile := brim_single.inode

theorem brim_live_iff (i : UInt32) : brim.Live brimSuper i ↔ i = 2 :=
  brim_single.live_iff (by decide) i

theorem brim_used_iff {b : UInt32} (b_range : InRange brimSuper b) :
    used brimSuper brim.state b = true ↔ b.toNat < 50 := by
  have size : b.toNat < 51 := b_range
  have block := bblock_toNat b_range
  have first : bblock brimSuper b = 38 := by
    apply UInt32.toNat_inj.mp
    rw [block, Nat.div_eq_of_lt (by omega)]
    rfl
  have index : bitIndex b = b.toNat := by
    rw [bitIndex, UInt32.toNat_mod]
    exact Nat.mod_eq_of_lt (show b.toNat < 32768 by omega)
  have view : brim.state.view brimSuper 38 = firstBits 50 :=
    SingleFile.view _ (show (38 : UInt32).toNat < brimSuper.size.toNat by decide)
  rw [used, first, view, index, getBit_firstBits, decide_eq_true_iff]

/-- The file has its direct blocks and no others. -/
theorem brim_block (slot : Slot) : brim.block brimSuper 2 slot =
    match slot with
    | .addr a => brimFile.addrs a
    | _ => 0 := by
  cases slot <;> simp [Volume.block, slotBlock, brim_inode, brimFile, indirectSlot, indirect2Slot,
    entryOf]

theorem brim_slot {slot : Slot} (present : brim.block brimSuper 2 slot ≠ 0) :
    ∃ a : Fin 13, slot = .addr a ∧ a.val < 11 ∧ (brim.block brimSuper 2 slot).toNat = 39 + a := by
  rw [brim_block] at present
  cases slot with
  | addr a =>
      rw [brim_block]
      revert present
      revert a
      decide
  | entry j => exact absurd rfl present
  | table k => exact absurd rfl present
  | leaf k j => exact absurd rfl present

theorem brim_wellFormed : brim.WellFormed brimSuper where
  inum _ := rfl
  data i live slot present := by
    obtain rfl := (brim_live_iff i).mp live
    obtain ⟨a, -, a_lt, value⟩ := brim_slot present
    have metadata : brimSuper.nmeta = 39 := rfl
    have size : brimSuper.size.toNat = 51 := rfl
    exact ⟨by omega, show _ < brimSuper.size.toNat by omega⟩
  marked i live slot present := by
    obtain rfl := (brim_live_iff i).mp live
    obtain ⟨a, -, a_lt, value⟩ := brim_slot present
    have size : brimSuper.size.toNat = 51 := rfl
    exact (brim_used_iff (show _ < brimSuper.size.toNat by omega)).mpr (by omega)
  distinct i j live_i live_j left right present same := by
    obtain rfl := (brim_live_iff i).mp live_i
    obtain rfl := (brim_live_iff j).mp live_j
    obtain ⟨a, rfl, -, value⟩ := brim_slot present
    obtain ⟨b, rfl, -, value'⟩ := brim_slot (same ▸ present)
    rw [same, value'] at value
    refine ⟨rfl, ?_⟩
    rw [show a = b from Fin.ext (by omega)]
  reserved b below := by
    have metadata : brimSuper.nmeta = 39 := rfl
    exact (brim_used_iff (below.trans_le nmeta_le)).mpr (by omega)
  noHole i live bn below := by
    obtain rfl := (brim_live_iff i).mp live
    have bn_lt : bn < 11 := by
      rw [brim_inode, show brimFile.size.toNat = 45056 from rfl, bsize] at below
      omega
    rw [fileSlot_direct bn_lt, brim_block]
    clear below
    revert bn_lt
    revert bn
    decide

/-- There is one free block. -/
theorem brim_free : brim.freeBlocks brimSuper ⊆ {50} := by
  intro c mem
  obtain ⟨c_lt, free⟩ := Finset.mem_filter.mp mem
  rw [Finset.mem_range, show brimSuper.size.toNat = 51 from rfl] at c_lt
  have value : (UInt32.ofNat c).toNat = c := by
    rw [UInt32.toNat_ofNat', Nat.mod_eq_of_lt (by omega)]
  have size : brimSuper.size.toNat = 51 := rfl
  have used_iff := brim_used_iff (show (UInt32.ofNat c).toNat < brimSuper.size.toNat by omega)
  rw [free, value] at used_iff
  have beyond : ¬c < 50 := fun below => absurd (used_iff.mpr below) (by simp)
  exact Finset.mem_singleton.mpr (by omega)

/-- It does not suffice for the indirect block and a block in it. -/
theorem brim_short : ¬brim.Room brimSuper 2 (Slot.path (fileSlot 11)) := by
  intro room
  have path : Slot.path (fileSlot 11) = {.addr indirectSlot, .entry 0} := rfl
  have empty : brim.emptySlots brimSuper 2 (Slot.path (fileSlot 11)) =
      {.addr indirectSlot, .entry 0} := by
    rw [emptySlots, path, Finset.filter_true_of_mem]
    intro slot mem
    rw [brim_block]
    simp only [Finset.mem_insert, Finset.mem_singleton] at mem
    rcases mem with rfl | rfl <;> rfl
  have free := Finset.card_le_card brim_free
  rw [Room, empty, Finset.card_pair (by simp)] at room
  rw [Finset.card_singleton] at free
  omega

/-- The first block behind the direct ones takes the last free block for the block of block numbers,
whose buffer stays busy. -/
theorem brim_unreleased : ¬∃ addr ip t,
    bmap brimSuper brim.state (brim.inodes 2) 11 = .ok (addr, ip, t) ∧
      Released brimSuper brim ⟨t, Function.update brim.inodes 2 ip⟩ 2 11 addr := by
  rintro ⟨addr, ip, t, run, released⟩
  refine bmap_unreleased brim_wellFormed (idle_binit _) ((brim_live_iff 2).mpr rfl)
    (show 11 < maxFile by decide) brim_short ?_ run released
  rintro ⟨-, full⟩
  have used_iff := brim_used_iff (show (50 : UInt32).toNat < brimSuper.size.toNat by decide)
  exact absurd (used_iff.mp (full 50 (show (50 : UInt32).toNat < brimSuper.size.toNat by decide)))
    (by decide)

end Volume

end Fs
end Xv6Duo
