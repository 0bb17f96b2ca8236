import Xv6Duo.Fs.Content

/-!
# Files as growable byte arrays

Seen from `readi` and `writei` a file is a list of bytes: `writei` overwrites a range that starts
inside the list or at its end, `readi` delivers a range. Both hold for every inode of a well-formed
volume, and both leave the volume well formed, the cache idle and the other files as they were.
-/

namespace Xv6Duo
namespace Fs

open ByteBlock

variable {sb : Superblock}

/-! ## Storing an inode -/

/-- Storing an inode changes no block outside the inode blocks. -/
theorem view_of_store {s t : State} {ip : Inode} (inum_lt : ip.inum.toNat < sb.ninodes.toNat)
    (disk : t.disk = Function.update s.disk (sb.sector (iblock sb ip.inum))
      (storeDinode (s.view sb (iblock sb ip.inum)) ip)) {c : UInt32} (c_range : InRange sb c)
    (differ : c ≠ iblock sb ip.inum) : t.view sb c = s.view sb c := by
  rw [State.view, disk, Function.update_of_ne fun same =>
    differ (Superblock.sector_inj c_range.lt (iblock_inRange inum_lt).lt same)]
  rfl

theorem used_of_store {s t : State} {ip : Inode} (inum_lt : ip.inum.toNat < sb.ninodes.toNat)
    (disk : t.disk = Function.update s.disk (sb.sector (iblock sb ip.inum))
      (storeDinode (s.view sb (iblock sb ip.inum)) ip)) {c : UInt32} (c_range : InRange sb c) :
    used sb t c = used sb s c := by
  rw [used, used, view_of_store inum_lt disk (bblock_inRange c_range)]
  intro same
  exact iblock_sector_ne inum_lt ⟨c, c_range, rfl⟩ (by rw [same])

theorem IsData.ne_iblock {b inum : UInt32} (data : IsData sb b)
    (inum_lt : inum.toNat < sb.ninodes.toNat) : b ≠ iblock sb inum := by
  rintro rfl
  exact absurd data.1 (not_le.mpr (iblock_lt_nmeta inum_lt))

/-- Inodes that share a block have different positions in it. -/
theorem dinodeIndex_ne {i j : UInt32} (i_lt : i.toNat < sb.ninodes.toNat)
    (j_lt : j.toNat < sb.ninodes.toNat) (differ : j ≠ i) (same : iblock sb j = iblock sb i) :
    dinodeIndex j ≠ dinodeIndex i := by
  intro index_eq
  refine differ (UInt32.toNat_inj.mp ?_)
  have blocks := congrArg UInt32.toNat same
  rw [iblock_toNat i_lt, iblock_toNat j_lt] at blocks
  rw [dinodeIndex, dinodeIndex, UInt32.toNat_mod, UInt32.toNat_mod,
    show ipb.toNat = 32 from rfl] at index_eq
  omega

theorem onDisk_of_store {s t : State} {ip : Inode} (inum_lt : ip.inum.toNat < sb.ninodes.toNat)
    (disk : t.disk = Function.update s.disk (sb.sector (iblock sb ip.inum))
      (storeDinode (s.view sb (iblock sb ip.inum)) ip)) {j : UInt32}
    (j_lt : j.toNat < sb.ninodes.toNat) :
    onDisk sb t j = if j = ip.inum then ip else onDisk sb s j := by
  split
  · next same =>
      rw [same, onDisk, State.view, disk, Function.update_self, loadDinode_storeDinode]
  · next differ =>
      by_cases same_block : iblock sb j = iblock sb ip.inum
      · rw [onDisk, onDisk, same_block, State.view, disk, Function.update_self,
          loadDinode_storeDinode_of_ne _ _ (dinodeIndex_ne inum_lt j_lt differ same_block)]
      · rw [onDisk, onDisk, view_of_store inum_lt disk (iblock_inRange j_lt) same_block]

/-! ## Abstract files -/

/-- The list with the elements from `off` on replaced by `source`, growing if need be. -/
def overwrite {α : Type*} (bytes : List α) (off : Nat) (source : List α) : List α :=
  bytes.take off ++ source ++ bytes.drop (off + source.length)

/-- Replacing a range of a tabulated list. -/
theorem map_range_eq_overwrite {α : Type*} {before after source : Nat → α} {size off n : Nat}
    (off_le : off ≤ size)
    (values : ∀ o < max size (off + n),
      after o = if off ≤ o ∧ o < off + n then source (o - off) else before o) :
    (List.range (max size (off + n))).map after =
      overwrite ((List.range size).map before) off ((List.range n).map source) := by
  have total : max size (off + n) = off + n + (size - (off + n)) := by omega
  have first : (List.range off).map after = ((List.range size).map before).take off := by
    rw [← List.map_take, List.take_range, min_eq_left off_le]
    refine List.map_congr_left fun o mem => ?_
    rw [List.mem_range] at mem
    rw [values o (by omega), if_neg (by omega)]
  have middle : ((List.range n).map (off + ·)).map after = (List.range n).map source := by
    rw [List.map_map]
    refine List.map_congr_left fun k mem => ?_
    rw [List.mem_range] at mem
    rw [Function.comp_apply, values _ (by omega), if_pos (by omega), Nat.add_sub_cancel_left]
  have last : ((List.range (size - (off + n))).map (off + n + ·)).map after =
      ((List.range size).map before).drop (off + n) := by
    refine List.ext_getElem (by simp) fun k k_lt _ => ?_
    simp only [List.length_map, List.length_range] at k_lt
    simp only [List.getElem_map, List.getElem_range, List.getElem_drop]
    rw [values _ (by omega), if_neg (by omega)]
  rw [overwrite, List.length_map, List.length_range, total, List.range_add, List.range_add,
    List.map_append, List.map_append, first, middle, last]

/-- The values of a tabulated list in which a range has been replaced. -/
theorem of_map_range_eq_overwrite {α : Type*} {before after source : Nat → α} {size off n : Nat}
    (off_le : off ≤ size)
    (replaced : (List.range (max size (off + n))).map after =
      overwrite ((List.range size).map before) off ((List.range n).map source)) {o : Nat}
    (below : o < max size (off + n)) :
    after o = if off ≤ o ∧ o < off + n then source (o - off) else before o := by
  have expected : (List.range (max size (off + n))).map (fun o =>
      if off ≤ o ∧ o < off + n then source (o - off) else before o) = _ :=
    map_range_eq_overwrite off_le fun _ _ => rfl
  exact List.map_inj_left.mp (replaced.trans expected.symm) o (List.mem_range.mpr below)

/-- The bytes of a memory from an address on. -/
def Memory.range (mem : Memory) (start length : Nat) : List UInt8 :=
  (List.range length).map fun k => mem.bytes (start + k)

/-- The memory after `length` bytes of a source have been stored from an address on. -/
def Memory.deliver (mem : Memory) (start : Nat) (source : Nat → UInt8) (length : Nat) : Memory :=
  { mem with bytes := copyRange mem.bytes start source 0 length }

namespace Volume

variable {v w : Volume} {i : UInt32}

variable (sb) in
/-- The bytes of a file. -/
def content (v : Volume) (i : UInt32) : List UInt8 :=
  (List.range (v.inodes i).size.toNat).map (v.byte sb i)

variable (sb) in
/-- Every inode is on the card as it is in memory. -/
def Synced (v : Volume) : Prop :=
  ∀ i : UInt32, i.toNat < sb.ninodes.toNat → onDisk sb v.state i = v.inodes i

/-! ## `writei` -/

/-- What `writei` does to a volume. -/
structure Overwritten (sb : Superblock) (v w : Volume) (i : UInt32) (off : Nat)
    (source : List UInt8) : Prop where
  /-- The volume stays well formed. -/
  wellFormed : w.WellFormed sb
  /-- No buffer stays busy. -/
  idle : Idle sb w.state
  /-- The size grows to the end of the range. -/
  size : (w.inodes i).size.toNat = max (v.inodes i).size.toNat (off + source.length)
  /-- The range is replaced by the source. -/
  content_self : w.content sb i = overwrite (v.content sb i) off source
  /-- Other files keep their bytes. -/
  content_other : ∀ j, j ≠ i → v.Live sb j → w.content sb j = v.content sb j
  /-- Other inodes do not change in memory. -/
  others : ∀ j, j ≠ i → w.inodes j = v.inodes j
  /-- Other inodes do not change on the card. -/
  onDisk_other : ∀ j : UInt32, j.toNat < sb.ninodes.toNat → j ≠ i →
    onDisk sb w.state j = onDisk sb v.state j
  /-- The inode is stored. -/
  onDisk_self : onDisk sb w.state i = w.inodes i
  /-- Allocated inodes stay allocated. -/
  live : ∀ j, w.Live sb j ↔ v.Live sb j
  /-- Filled slots do not change. -/
  stable : ∀ j slot, v.Live sb j → v.block sb j slot ≠ 0 → w.block sb j slot = v.block sb j slot
  /-- Nothing leaks. -/
  noLeak : v.NoLeak sb → w.NoLeak sb

/-- A field that the updated inode keeps is kept by all inodes. -/
theorem field_update {β : Type*} (field : Inode → β) {ip : Inode}
    (same : field ip = field (v.inodes i)) (j : UInt32) :
    field (Function.update v.inodes i ip j) = field (v.inodes j) := by
  by_cases eq : j = i
  · subst eq
    rw [Function.update_self, same]
  · rw [Function.update_of_ne eq]

/-- Storing an inode whose size has grown changes no slot. -/
theorem block_of_store {s : State} {ip : Inode} (wf : v.WellFormed sb) (live : v.Live sb i)
    (fields : ip = { v.inodes i with size := ip.size })
    (disk : s.disk = Function.update v.state.disk (sb.sector (iblock sb i))
      (storeDinode (v.state.view sb (iblock sb i)) ip)) {j : UInt32} (live_j : v.Live sb j)
    (slot : Slot) :
    Volume.block sb ⟨s, Function.update v.inodes i ip⟩ j slot = v.block sb j slot := by
  have inum_eq : ip.inum = i := by
    rw [fields]
    exact wf.inum i
  have inum_lt : ip.inum.toNat < sb.ninodes.toNat := inum_eq ▸ live.1
  rw [← inum_eq] at disk
  refine block_congr (field_update Inode.addrs (by rw [fields]) j) (fun slot p _ holder => ?_) slot
  have data := wf.data j live_j p holder
  exact view_of_store inum_lt disk data.inRange (data.ne_iblock inum_lt)

/-- Storing an inode changes no byte of a file. -/
theorem byte_of_store {s : State} {ip : Inode} (wf : v.WellFormed sb) (live : v.Live sb i)
    (fields : ip = { v.inodes i with size := ip.size })
    (disk : s.disk = Function.update v.state.disk (sb.sector (iblock sb i))
      (storeDinode (v.state.view sb (iblock sb i)) ip)) {j : UInt32} (live_j : v.Live sb j)
        {o : Nat}
    (present : v.block sb j (fileSlot (o / bsize)) ≠ 0) :
    Volume.byte sb ⟨s, Function.update v.inodes i ip⟩ j o = v.byte sb j o := by
  have inum_eq : ip.inum = i := by
    rw [fields]
    exact wf.inum i
  have data := wf.data j live_j _ present
  rw [byte, byte, block_of_store wf live fields disk live_j]
  rw [← inum_eq] at disk live
  rw [view_of_store live.1 disk data.inRange (data.ne_iblock live.1)]

/-- Storing the inode with its new size ends a write. -/
theorem Written.finish {slots : Finset Slot} {off n : Nat} {source : Nat → UInt8}
    (written : Written sb v w i slots off n source) (wf : v.WellFormed sb) (live : v.Live sb i)
    (off_le : off ≤ (v.inodes i).size.toNat) {ip : Inode}
    (fields : ip = { w.inodes i with size := ip.size })
    (size : ip.size.toNat = max (v.inodes i).size.toNat (off + n)) {s : State} (idle : Idle sb s)
    (disk : s.disk = Function.update w.state.disk (sb.sector (iblock sb i))
      (storeDinode (w.state.view sb (iblock sb i)) ip)) :
    Overwritten sb v ⟨s, Function.update w.inodes i ip⟩ i off ((List.range n).map source) := by
  have stays := written.stays
  have wf_w := stays.wellFormed
  have live_w : w.Live sb i := (stays.live i).mpr live
  have inum_eq : ip.inum = i := by
    rw [fields]
    exact wf_w.inum i
  have live_iff : ∀ j, Volume.Live sb ⟨s, Function.update w.inodes i ip⟩ j ↔ w.Live sb j := by
    intro j
    rw [Live, Live, field_update Inode.type (by rw [fields]) j]
  have blocks : ∀ j, w.Live sb j → ∀ slot,
      Volume.block sb ⟨s, Function.update w.inodes i ip⟩ j slot = w.block sb j slot :=
    fun j live_j slot => block_of_store wf_w live_w fields disk live_j slot
  have disk' := disk
  rw [← inum_eq] at disk'
  have inum_lt : ip.inum.toNat < sb.ninodes.toNat := inum_eq ▸ live.1
  have bits : ∀ c, InRange sb c → used sb s c = used sb w.state c :=
    fun c c_range => used_of_store inum_lt disk' c_range
  have other_inodes : ∀ j, j ≠ i → Function.update w.inodes i ip j = v.inodes j := by
    intro j differ
    rw [Function.update_of_ne differ, stays.others j differ]
  have old_present : ∀ j o, v.Live sb j → o < (v.inodes j).size.toNat →
      v.block sb j (fileSlot (o / bsize)) ≠ 0 := by
    intro j o live_j below
    exact wf.noHole j live_j _ (by have := Nat.div_mul_le_self o bsize; omega)
  have old_byte : ∀ j o, v.Live sb j → o < (v.inodes j).size.toNat →
      ¬(j = i ∧ off ≤ o ∧ o < off + n) →
      Volume.byte sb ⟨s, Function.update w.inodes i ip⟩ j o = v.byte sb j o := by
    intro j o live_j below outside
    have present := old_present j o live_j below
    have size_lt := (v.inodes j).size.toNat_lt
    rw [byte_of_store wf_w live_w fields disk ((stays.live j).mpr live_j)
      (stays.stable j _ live_j present ▸ present)]
    exact written.old j o live_j (by omega) present outside
  refine
    { wellFormed := wf_w.of_blocks (field_update Inode.inum (by rw [fields])) live_iff
        blocks bits ?_
      idle := idle
      size := ?_
      content_self := ?_
      content_other := ?_
      others := other_inodes
      onDisk_other := ?_
      onDisk_self := ?_
      live := fun j => (live_iff j).trans (stays.live j)
      stable := ?_
      noLeak := fun tight => (stays.noLeak tight).of_blocks live_iff blocks bits }
  · intro j live_j bn below
    have live_v := (stays.live j).mp live_j
    by_cases old : bn * bsize < (v.inodes j).size.toNat
    · have present := wf.noHole j live_v bn old
      rw [stays.stable j _ live_v present]
      exact present
    · by_cases same : j = i
      · subst same
        simp only [Function.update_self, size] at below
        have := (written.new (bn * bsize) (by omega) (by omega)).1
        rwa [Nat.mul_div_cancel _ (by decide)] at this
      · simp only [Function.update_of_ne same] at below
        rw [stays.others j same] at below
        exact absurd below old
  · simp only [Function.update_self, size, List.length_map, List.length_range]
  · simp only [content, Function.update_self, size]
    refine map_range_eq_overwrite off_le fun o below => ?_
    split
    · next inside =>
        obtain ⟨present, value⟩ := written.new o inside.1 inside.2
        rw [byte_of_store wf_w live_w fields disk live_w present, value]
    · next outside =>
        exact old_byte i o live (by omega) fun all => outside all.2
  · intro j differ live_j
    simp only [content, other_inodes j differ]
    refine List.map_congr_left fun o mem => ?_
    exact old_byte j o live_j (List.mem_range.mp mem) fun all => differ all.1
  · intro j j_lt differ
    rw [onDisk_of_store inum_lt disk' j_lt, if_neg (by rwa [inum_eq]), onDisk, onDisk,
      stays.metadata _ (iblock_lt_nmeta j_lt) fun bitmap => iblock_sector_ne j_lt bitmap rfl]
  · rw [onDisk_of_store inum_lt disk' live.1, if_pos inum_eq.symm]
    exact (Function.update_self i ip w.inodes).symm
  · intro j slot live_j present
    rw [blocks j ((stays.live j).mpr live_j), stays.stable j slot live_j present]

/-- Storing an inode changes neither the free blocks nor the empty slots. -/
theorem balanced_of_store {s : State} {ip : Inode} {slots : Finset Slot} (wf : v.WellFormed sb)
    (live : v.Live sb i) (fields : ip = { v.inodes i with size := ip.size })
    (disk : s.disk = Function.update v.state.disk (sb.sector (iblock sb i))
      (storeDinode (v.state.view sb (iblock sb i)) ip)) :
    Balanced sb v ⟨s, Function.update v.inodes i ip⟩ i slots := by
  have inum_eq : ip.inum = i := by
    rw [fields]
    exact wf.inum i
  apply Balanced.of_blocks
  · intro slot
    exact block_of_store wf live fields disk live slot
  · intro c c_range
    rw [← inum_eq] at disk live
    exact used_of_store live.1 disk c_range

/-- The inode that `writei` stores when it stops at `off`. -/
def grown (ip : Inode) (off : UInt32) : Inode :=
  if off > ip.size then { ip with size := off } else ip

theorem grown_fields (ip : Inode) (off : UInt32) :
    grown ip off = { ip with size := (grown ip off).size } := by
  rw [grown]
  split <;> rfl

theorem grown_size (ip : Inode) (off : UInt32) :
    (grown ip off).size.toNat = max ip.size.toNat off.toNat := by
  rw [grown]
  split
  · next grows =>
      rw [gt_iff_lt, UInt32.lt_iff_toNat_lt] at grows
      exact (max_eq_right grows.le).symm
  · next stays =>
      rw [gt_iff_lt, UInt32.lt_iff_toNat_lt, not_lt] at stays
      exact (max_eq_left stays).symm

/-- The inode of a volume in which only slots have been filled, with its new size. -/
theorem Stays.grown {slots : Finset Slot} (stays : Stays sb v w i slots) (wf : v.WellFormed sb)
    (off : UInt32) : (grown (w.inodes i) off).inum = i ∧
      (grown (w.inodes i) off).size.toNat = max (v.inodes i).size.toNat off.toNat := by
  have fields := stays.fields i
  constructor
  · rw [grown_fields, fields]
    exact wf.inum i
  · rw [grown_size, fields]

/-- `writei` after its loop. -/
theorem writei_of_loop {s t u : State} {ip jp : Inode} {userSrc : Bool} {mem : Memory} {src : Nat}
    {off n last tot : UInt32} (off_le : off.toNat ≤ ip.size.toNat)
    (off_n : off.toNat + n.toNat < 2 ^ 32)
    (loop : writeLoop sb userSrc mem n (n.toNat + 1) s ip src off 0 = .ok (tot, last, jp, t))
    (updated : iupdate sb t (grown jp last) = .ok u) :
    writei sb s ip userSrc mem src off n = .ok (asInt tot, grown jp last, u) := by
  have end_eq : (off + n).toNat = off.toNat + n.toNat := by
    rw [UInt32.toNat_add, Nat.mod_eq_of_lt (by omega)]
  have no_wrap : ¬(off > ip.size ∨ off + n < off) := by
    rw [gt_iff_lt, UInt32.lt_iff_toNat_lt, UInt32.lt_iff_toNat_lt, end_eq]
    omega
  have fits : ¬(off + n).toNat > maxFile * bsize := by
    rw [end_eq]
    simp only [maxFile, ndirect, nindirect, bsize]
    omega
  rw [grown] at updated ⊢
  simp only [writei, no_wrap, if_false, fits, loop, Except.ok_bind, updated, Except.pure_eq_ok]

/-- `writei` on a range that starts inside the file or at its end, with the room for more slots. -/
theorem writei_within (wf : v.WellFormed sb) (idle : Idle sb v.state) (live : v.Live sb i)
    {userSrc : Bool} {mem : Memory} {src : Nat} {off n : UInt32} {slots : Finset Slot}
    (off_le : off.toNat ≤ (v.inodes i).size.toNat) (off_n : off.toNat + n.toNat < 2 ^ 32)
    (readable : userSrc = true → PagesIn mem.readable src n.toNat)
    (needed : neededSlots off.toNat n.toNat ⊆ slots) (room : v.Room sb i slots) :
    ∃ ip t, writei sb v.state (v.inodes i) userSrc mem src off n = .ok (asInt n, ip, t) ∧
      Overwritten sb v ⟨t, Function.update v.inodes i ip⟩ i off.toNat (mem.range src n.toNat) ∧
      Room sb ⟨t, Function.update v.inodes i ip⟩ i slots ∧
      ip = { v.inodes i with addrs := ip.addrs, size := ip.size } := by
  have end_eq : (off + n).toNat = off.toNat + n.toNat := by
    rw [UInt32.toNat_add, Nat.mod_eq_of_lt (by omega)]
  obtain ⟨ip, t, loop, written⟩ := writeLoop_spec (n.toNat + 1) live off_n
    readable needed room (Written.refl wf idle _ _)
    (show (0 : UInt32).toNat ≤ n.toNat from Nat.zero_le _) (by simp)
  obtain ⟨grown_inum, grown_size⟩ := written.stays.grown wf (off + n)
  simp only [Function.update_self] at grown_inum grown_size
  rw [end_eq] at grown_size
  obtain ⟨u, updated, good_u, disk_u, -⟩ := iupdate_spec written.idle unheld_empty
    (iblock_mem_allocated (grown_inum ▸ live.1)) (by decide)
  have idle_u : Idle sb u := by
    refine Good.mono good_u fun c mem => ?_
    obtain below | ⟨c_range, marked⟩ := mem
    · exact Or.inl below
    · exact Or.inr ⟨c_range, (used_of_store (grown_inum ▸ live.1) disk_u c_range).symm.trans marked⟩
  rw [grown_inum] at disk_u
  have fields_u : grown ip (off + n) =
      { Function.update v.inodes i ip i with size := (grown ip (off + n)).size } := by
    simpa using grown_fields ip (off + n)
  have done := written.finish wf live off_le fields_u grown_size idle_u disk_u
  have live_t := (written.stays.live i).mpr live
  have roomy := (balanced_of_store written.stays.wellFormed live_t fields_u disk_u).room_iff.mpr
    (written.stays.room room)
  simp only [Function.update_idem] at done roomy
  have fields : grown ip (off + n) = { v.inodes i with
      addrs := (grown ip (off + n)).addrs, size := (grown ip (off + n)).size } := by
    have kept := written.stays.fields i
    simp only [Function.update_self] at kept
    rw [grown_fields, kept]
  refine ⟨grown ip (off + n), u, ?_, done, roomy, fields⟩
  simp only [UInt32.toNat_zero, Nat.add_zero, UInt32.add_zero] at loop
  exact writei_of_loop off_le off_n loop updated

/-- `writei` on a range that starts inside the file or at its end. -/
theorem writei_spec (wf : v.WellFormed sb) (idle : Idle sb v.state) (live : v.Live sb i)
    {userSrc : Bool} {mem : Memory} {src : Nat} {off n : UInt32}
    (off_le : off.toNat ≤ (v.inodes i).size.toNat) (off_n : off.toNat + n.toNat < 2 ^ 32)
    (readable : userSrc = true → PagesIn mem.readable src n.toNat)
    (room : v.Room sb i (neededSlots off.toNat n.toNat)) :
    ∃ ip t, writei sb v.state (v.inodes i) userSrc mem src off n = .ok (asInt n, ip, t) ∧
      Overwritten sb v ⟨t, Function.update v.inodes i ip⟩ i off.toNat (mem.range src n.toNat) := by
  obtain ⟨ip, t, run, done, -⟩ :=
    writei_within wf idle live off_le off_n readable (Finset.Subset.refl _) room
  exact ⟨ip, t, run, done⟩

/-! ## `readi` -/

/-- The bytes of a block from a position on are the bytes of the file. -/
theorem byte_of_within {start m k : Nat} (fits : start % bsize + m ≤ bsize) (k_lt : k < m) :
    v.byte sb i (start + k) =
      v.state.view sb (v.block sb i (fileSlot (start / bsize))) (start % bsize + k) := by
  have bsize_pos : 0 < bsize := by decide
  have block_eq := div_eq_of_within fits (Nat.le_add_right start k) (by omega)
  have position := Nat.div_add_mod (start + k) bsize
  have start_split := Nat.div_add_mod start bsize
  rw [block_eq] at position
  rw [byte, block_eq, show (start + k) % bsize = start % bsize + k by omega]

/-- The loop of `readi` delivers the whole range and only moves buffers. -/
theorem readLoop_spec (fuel : Nat) (wf : v.WellFormed sb) (live : v.Live sb i) {userDst : Bool}
    {mem : Memory} {dst : Nat} {off n tot : UInt32} {s : State} (idle : Idle sb s)
    (disk : s.disk = v.state.disk) (inside : off.toNat + n.toNat ≤ (v.inodes i).size.toNat)
    (writable : userDst = true → PagesIn mem.writable dst n.toNat)
    (tot_le : tot.toNat ≤ n.toNat) (enough : n.toNat - tot.toNat < fuel) :
    ∃ t, readLoop sb userDst n fuel s (v.inodes i)
        (mem.deliver dst (fun k => v.byte sb i (off.toNat + k)) tot.toNat)
        (dst + tot.toNat) (off + tot) tot =
      .ok (n, mem.deliver dst (fun k => v.byte sb i (off.toNat + k)) n.toNat, v.inodes i, t) ∧
        Idle sb t ∧ t.disk = v.state.disk := by
  induction fuel generalizing s tot with
  | zero => omega
  | succ fuel ih =>
      by_cases more : tot < n
      · rw [UInt32.lt_iff_toNat_lt] at more
        have size_lt := (v.inodes i).size.toNat_lt
        have position : (off + tot).toNat = off.toNat + tot.toNat := by
          rw [UInt32.toNat_add, Nat.mod_eq_of_lt (by omega)]
        set start := off.toNat + tot.toNat with start_eq
        have chunk_eq := chunk_toNat (off + tot) tot_le
        rw [position] at chunk_eq
        set m := chunk n tot (off + tot) with m_eq
        have fits : start % bsize + m.toNat ≤ bsize := by
          simp only [bsize]
          omega
        have present : v.block sb i (fileSlot (start / bsize)) ≠ 0 :=
          wf.noHole i live _ (by have := Nat.div_mul_le_self start bsize; omega)
        have blocks : Volume.block sb ⟨s, v.inodes⟩ i (fileSlot (start / bsize)) =
            v.block sb i (fileSlot (start / bsize)) := by
          simp only [Volume.block, view_congr disk]
        obtain ⟨t, map_eq, disk_t, idle_t⟩ := bmap_present (v := ⟨s, v.inodes⟩) (wf.of_disk disk)
          idle live (div_lt_maxFile (by omega)) (blocks ▸ present)
        rw [blocks] at map_eq
        have disk_t' : t.disk = v.state.disk := disk_t.trans disk
        have trusted : v.block sb i (fileSlot (start / bsize)) ∈ allocated sb t := by
          rw [allocated_congr disk_t']
          exact Or.inr ⟨(wf.data i live _ present).inRange, wf.marked i live _ present⟩
        obtain ⟨bp, u, read, data, ⟨x, released, good_x, disk_x, -⟩, -⟩ :=
          @access_spec sb t ∅ _ idle_t (v.block sb i (fileSlot (start / bsize))) unheld_empty
            (by decide)
        have copied : eitherCopyout userDst
            (mem.deliver dst (fun k => v.byte sb i (off.toNat + k)) tot.toNat) (dst + tot.toNat)
            (u.bufs bp).data (start % bsize) m.toNat = _ := eitherCopyout_spec
          fun user a lower upper => writable user a (by omega) (by omega)
        have block_bytes : copyRange
            (mem.deliver dst (fun k => v.byte sb i (off.toNat + k)) tot.toNat).bytes
            (dst + tot.toNat) (u.bufs bp).data (start % bsize) m.toNat =
            copyRange mem.bytes dst (fun k => v.byte sb i (off.toNat + k)) 0
              (tot.toNat + m.toNat) := by
          rw [← copyRange_copyRange]
          refine copyRange_congr _ _ fun k k_lt => ?_
          rw [data trusted, disk_t', Nat.zero_add, ← Nat.add_assoc, ← start_eq,
            byte_of_within fits k_lt]
          rfl
        have copied' : eitherCopyout userDst
            (mem.deliver dst (fun k => v.byte sb i (off.toNat + k)) tot.toNat) (dst + tot.toNat)
            (u.bufs bp).data (start % bsize) m.toNat = (true,
              mem.deliver dst (fun k => v.byte sb i (off.toNat + k)) (tot.toNat + m.toNat)) := by
          rw [copied, block_bytes]
          rfl
        have idle_x : Idle sb x :=
          (allocated_congr disk_x ▸ good_x : Good sb x ∅ (allocated sb x))
        have next_tot : (tot + m).toNat = tot.toNat + m.toNat := by
          rw [UInt32.toNat_add, Nat.mod_eq_of_lt (by omega)]
        obtain ⟨y, rest, done⟩ := ih idle_x (disk_x.trans disk_t')
          (show (tot + m).toNat ≤ n.toNat by omega) (by omega)
        refine ⟨y, ?_, done⟩
        rw [next_tot, ← Nat.add_assoc, ← UInt32.add_assoc] at rest
        simp only [readLoop, UInt32.lt_iff_toNat_lt, more, if_true, position, map_eq,
          Except.ok_bind, present, if_false, read, ← m_eq, copied', released, rest]
      · have full : tot = n := by
          rw [UInt32.lt_iff_toNat_lt] at more
          apply UInt32.toNat_inj.mp
          omega
        subst full
        refine ⟨s, ?_, idle, disk⟩
        rw [readLoop, if_neg more]
        rfl

theorem deliver_zero (mem : Memory) (dst : Nat) (source : Nat → UInt8) :
    mem.deliver dst source 0 = mem := by
  rw [Memory.deliver, copyRange_zero]

/-- The bytes that `readi` delivers for a request. -/
def readable (v : Volume) (i off n : UInt32) : Nat :=
  min n.toNat ((v.inodes i).size.toNat - off.toNat)

/-- `readi` on any range delivers the bytes of the file and only moves buffers. -/
theorem readi_spec (wf : v.WellFormed sb) (idle : Idle sb v.state) (live : v.Live sb i)
    {userDst : Bool} {mem : Memory} {dst : Nat} {off n : UInt32}
    (off_n : off.toNat + n.toNat < 2 ^ 32)
    (writable : userDst = true → PagesIn mem.writable dst (v.readable i off n)) :
    ∃ t, readi sb v.state (v.inodes i) userDst mem dst off n =
        .ok (asInt (UInt32.ofNat (v.readable i off n)),
          mem.deliver dst (fun k => v.byte sb i (off.toNat + k)) (v.readable i off n),
          v.inodes i, t) ∧
      Idle sb t ∧ t.disk = v.state.disk := by
  have end_eq : (off + n).toNat = off.toNat + n.toNat := by
    rw [UInt32.toNat_add, Nat.mod_eq_of_lt (by omega)]
  by_cases beyond : off > (v.inodes i).size
  · have none : v.readable i off n = 0 := by
      rw [gt_iff_lt, UInt32.lt_iff_toNat_lt] at beyond
      rw [readable]
      omega
    refine ⟨v.state, ?_, idle, rfl⟩
    rw [readi, if_pos (Or.inl beyond), none, deliver_zero]
    rfl
  · have no_wrap : ¬(off > (v.inodes i).size ∨ off + n < off) := by
      rw [or_iff_right beyond, UInt32.lt_iff_toNat_lt, end_eq]
      omega
    rw [gt_iff_lt, UInt32.lt_iff_toNat_lt] at beyond
    set count : UInt32 := if off + n > (v.inodes i).size then (v.inodes i).size - off else n
      with count_eq
    have count_toNat : count.toNat = v.readable i off n := by
      rw [count_eq, readable]
      split
      · next past =>
          rw [gt_iff_lt, UInt32.lt_iff_toNat_lt, end_eq] at past
          rw [UInt32.toNat_sub_of_le _ _ (UInt32.le_iff_toNat_le.mpr (by omega))]
          omega
      · next past =>
          rw [gt_iff_lt, UInt32.lt_iff_toNat_lt, end_eq] at past
          omega
    rw [← count_toNat] at writable ⊢
    have inside : off.toNat + count.toNat ≤ (v.inodes i).size.toNat := by
      rw [count_toNat, readable]
      omega
    obtain ⟨t, loop, done⟩ := readLoop_spec (count.toNat + 1) wf live idle rfl inside writable
      (show (0 : UInt32).toNat ≤ count.toNat from Nat.zero_le _) (by simp)
    refine ⟨t, ?_, done⟩
    simp only [UInt32.toNat_zero, deliver_zero, Nat.add_zero, UInt32.add_zero] at loop
    simp only [readi, no_wrap, if_false, ← count_eq, loop, Except.ok_bind, Except.pure_eq_ok,
      UInt32.ofNat_toNat]

/-! ## Files are byte arrays -/

theorem range_deliver (mem : Memory) (dst length : Nat) (source : Nat → UInt8) :
    (mem.deliver dst source length).range dst length = (List.range length).map source := by
  refine List.map_congr_left fun k mem_k => ?_
  rw [List.mem_range] at mem_k
  simp only [Memory.deliver, copyRange]
  rw [if_pos (by omega), Nat.zero_add, Nat.add_sub_cancel_left]

theorem deliver_outside (mem : Memory) {dst length a : Nat} (source : Nat → UInt8)
    (outside : ¬(dst ≤ a ∧ a < dst + length)) :
    (mem.deliver dst source length).bytes a = mem.bytes a := by
  simp only [Memory.deliver, copyRange]
  rw [if_neg outside]

/-- The delivered bytes are the requested range of the file. -/
theorem map_byte_eq_take_drop (v : Volume) (i off n : UInt32) :
    (List.range (v.readable i off n)).map (fun k => v.byte sb i (off.toNat + k)) =
      ((v.content sb i).drop off.toNat).take n.toNat := by
  refine List.ext_getElem (by simp [content, readable]) fun k _ _ => ?_
  simp [content]

/-- Every allocated inode of a well-formed volume is a growable byte array: `writei` on a range that
starts inside the file or at its end replaces the range and touches no other file, and `readi`
delivers the part of the range that lies in the file and touches no file. -/
theorem file_is_byte_array (wf : v.WellFormed sb) (idle : Idle sb v.state) (live : v.Live sb i) :
    (∀ (userSrc : Bool) (mem : Memory) (src : Nat) (off n : UInt32),
      off.toNat ≤ (v.inodes i).size.toNat → n.toNat < 2 ^ 31 → off.toNat + n.toNat < 2 ^ 32 →
      (userSrc = true → PagesIn mem.readable src n.toNat) →
      v.Room sb i (neededSlots off.toNat n.toNat) →
      ∃ ip t, writei sb v.state (v.inodes i) userSrc mem src off n = .ok (n.toNat, ip, t) ∧
        Overwritten sb v ⟨t, Function.update v.inodes i ip⟩ i off.toNat
          (mem.range src n.toNat)) ∧
    (∀ (userDst : Bool) (mem : Memory) (dst : Nat) (off n : UInt32),
      n.toNat < 2 ^ 31 → off.toNat + n.toNat < 2 ^ 32 →
      (userDst = true → PagesIn mem.writable dst (v.readable i off n)) →
      ∃ after t, readi sb v.state (v.inodes i) userDst mem dst off n =
          .ok (v.readable i off n, after, v.inodes i, t) ∧
        after.range dst (v.readable i off n) = ((v.content sb i).drop off.toNat).take n.toNat ∧
        (∀ a, ¬(dst ≤ a ∧ a < dst + v.readable i off n) → after.bytes a = mem.bytes a) ∧
        (∀ j, content sb ⟨t, v.inodes⟩ j = v.content sb j) ∧
        WellFormed sb ⟨t, v.inodes⟩ ∧ Idle sb t) := by
  refine ⟨?_, ?_⟩
  · intro userSrc mem src off n off_le n_lt off_n source_readable room
    obtain ⟨ip, t, run, done⟩ := writei_spec wf idle live off_le off_n source_readable room
    exact ⟨ip, t, by rw [run, asInt, if_pos n_lt], done⟩
  · intro userDst mem dst off n n_lt off_n writable
    obtain ⟨t, run, idle_t, disk_t⟩ := readi_spec wf idle live off_n writable
    have bound : v.readable i off n ≤ n.toNat := min_le_left _ _
    have int_eq : asInt (UInt32.ofNat (v.readable i off n)) = v.readable i off n := by
      rw [asInt, UInt32.toNat_ofNat', Nat.mod_eq_of_lt (by omega), if_pos (by omega)]
    refine ⟨_, t, by rw [run, int_eq], ?_, fun a => deliver_outside mem _, fun j => ?_,
      wf.of_disk disk_t, idle_t⟩
    · rw [range_deliver, map_byte_eq_take_drop]
    · refine List.map_congr_left fun o _ => ?_
      simp only [byte, block, view_congr disk_t]

/-! ## Sample volumes -/

/-- The volume of a card: a cold cache, and every inode as it is on the card. -/
def ofDisk (sb : Superblock) (disk : UInt32 → Bytes) : Volume :=
  ⟨binit disk, onDisk sb (binit disk)⟩

theorem loadDinode_zeros_type (inum : UInt32) : (loadDinode zeros inum).type = 0 := rfl

/-- A card whose only inode is the given one. -/
structure SingleFile (sb : Superblock) (image : UInt32 → Bytes) (file : Inode) : Prop where
  /-- It is one of the inodes. -/
  inum_lt : file.inum.toNat < sb.ninodes.toNat
  /-- It is on the card. -/
  stored : image (iblock sb file.inum) = storeDinode zeros file
  /-- Other inode blocks are empty. -/
  empty : ∀ j : UInt32, j.toNat < sb.ninodes.toNat → iblock sb j ≠ iblock sb file.inum →
    image (iblock sb j) = zeros

namespace SingleFile

variable {image : UInt32 → Bytes} {file : Inode}

theorem view (image : UInt32 → Bytes) {b : UInt32} (b_range : InRange sb b) :
    (ofDisk sb (diskOf sb image)).state.view sb b = image b :=
  view_diskOf image b_range.lt rfl

theorem loaded (image : UInt32 → Bytes) {j : UInt32} (j_lt : j.toNat < sb.ninodes.toNat) :
    (ofDisk sb (diskOf sb image)).inodes j = loadDinode (image (iblock sb j)) j := by
  rw [← view image (iblock_inRange j_lt)]
  rfl

theorem inode (single : SingleFile sb image file) :
    (ofDisk sb (diskOf sb image)).inodes file.inum = file := by
  rw [loaded image single.inum_lt, single.stored]
  exact loadDinode_storeDinode zeros file

theorem live_iff (single : SingleFile sb image file) (allocated : file.type ≠ 0) (i : UInt32) :
    (ofDisk sb (diskOf sb image)).Live sb i ↔ i = file.inum := by
  constructor
  · intro live
    by_contra differ
    refine live.2 ?_
    rw [loaded image live.1]
    by_cases same : iblock sb i = iblock sb file.inum
    · rw [same, single.stored, loadDinode_storeDinode_of_ne, loadDinode_zeros_type]
      exact dinodeIndex_ne single.inum_lt live.1 differ same
    · rw [single.empty i live.1 same, loadDinode_zeros_type]
  · rintro rfl
    exact ⟨single.inum_lt, by rwa [single.inode]⟩

end SingleFile

/-- An empty regular file. -/
def emptyFile : Inode where
  inum := 2
  type := 2
  major := 0
  minor := 0
  nlink := 1
  size := 0
  mode := 0o100644
  uid := 0
  gid := 0
  atime := ⟨0, 0⟩
  mtime := ⟨0, 0⟩
  ctime := ⟨0, 0⟩
  addrs _ := 0

/-- A card whose only inode is a given file and on which the first blocks are marked used. -/
def fileImage (file : Inode) (marked : Nat) (bno : UInt32) : Bytes :=
  if bno = 6 then storeDinode zeros file
  else if bno = 38 then firstBits marked
  else zeros

/-- The volume of that card. -/
def ofFile (file : Inode) (marked : Nat) : Volume :=
  ofDisk mkfsSuper (diskOf mkfsSuper (fileImage file marked))

variable {file : Inode} {marked : Nat}

theorem view_ofFile {bno : UInt32} (bno_lt : bno.toNat < 2 ^ 29) :
    (ofFile file marked).state.view mkfsSuper bno = fileImage file marked bno :=
  view_diskOf (fileImage file marked) bno_lt rfl

theorem ofFile_single (inum_eq : file.inum = 2) :
    SingleFile mkfsSuper (fileImage file marked) file where
  inum_lt := by
    rw [inum_eq]
    decide
  stored := by
    rw [inum_eq]
    rfl
  empty j j_lt differ := by
    have block := iblock_toNat j_lt
    have not_bitmap : iblock mkfsSuper j ≠ 38 := by
      intro same
      rw [show mkfsSuper.ninodes.toNat = 1024 from rfl] at j_lt
      rw [same, show mkfsSuper.inodestart.toNat = 6 from rfl] at block
      simp only [UInt32.reduceToNat] at block
      omega
    rw [inum_eq, show iblock mkfsSuper 2 = 6 from rfl] at differ
    rw [fileImage, if_neg differ, if_neg not_bitmap]

theorem ofFile_inode (inum_eq : file.inum = 2) : (ofFile file marked).inodes 2 = file := by
  have inode := (@ofFile_single file marked inum_eq).inode
  rwa [inum_eq] at inode

/-- The file is the only allocated inode. -/
theorem ofFile_live_iff (inum_eq : file.inum = 2) (allocated : file.type ≠ 0) (i : UInt32) :
    (ofFile file marked).Live mkfsSuper i ↔ i = 2 := by
  have live := (@ofFile_single file marked inum_eq).live_iff allocated i
  rwa [inum_eq] at live

theorem ofFile_used_iff (marked_le : marked ≤ 32768) {b : UInt32} (b_range : InRange mkfsSuper b) :
    used mkfsSuper (ofFile file marked).state b = true ↔ b.toNat < marked := by
  have block := bblock_toNat b_range
  rw [show mkfsSuper.bmapstart.toNat = 38 from rfl] at block
  have index : bitIndex b = b.toNat % 32768 := by
    rw [bitIndex, UInt32.toNat_mod]
    rfl
  have not_inode : bblock mkfsSuper b ≠ 6 := by
    intro same
    rw [same] at block
    simp only [UInt32.reduceToNat] at block
    omega
  rw [used, view_ofFile (bblock_inRange b_range).lt, fileImage, if_neg not_inode, index]
  by_cases first : b.toNat < 32768
  · have same : bblock mkfsSuper b = 38 := by
      apply UInt32.toNat_inj.mp
      rw [block, Nat.div_eq_of_lt first]
      rfl
    rw [if_pos same, Nat.mod_eq_of_lt first, getBit_firstBits, decide_eq_true_iff]
  · have differ : bblock mkfsSuper b ≠ 38 := by
      intro same
      rw [same] at block
      simp only [UInt32.reduceToNat] at block
      omega
    rw [if_neg differ, getBit_zeros]
    simp only [Bool.false_eq_true, false_iff]
    omega

/-- An allocated inode of the sample card without blocks. -/
structure Blank (file : Inode) : Prop where
  /-- It is the inode on the card. -/
  inum : file.inum = 2
  /-- It is allocated. -/
  allocated : file.type ≠ 0
  /-- It is empty. -/
  size : file.size = 0
  /-- It has no blocks. -/
  addrs : file.addrs = fun _ => 0

theorem Blank.block (blank : Blank file) (slot : Slot) :
    (ofFile file marked).block mkfsSuper 2 slot = 0 := by
  cases slot <;> simp [Volume.block, slotBlock, ofFile_inode blank.inum, blank.addrs, entryOf]

theorem Blank.live_iff (blank : Blank file) (i : UInt32) :
    (ofFile file marked).Live mkfsSuper i ↔ i = 2 := ofFile_live_iff blank.inum blank.allocated i

theorem Blank.wellFormed (blank : Blank file) : (ofFile file 42).WellFormed mkfsSuper where
  inum _ := rfl
  data i live slot present := by
    rw [blank.live_iff] at live
    exact absurd (live ▸ blank.block slot) present
  marked i live slot present := by
    rw [blank.live_iff] at live
    exact absurd (live ▸ blank.block slot) present
  distinct i _ live _ slot _ present _ := by
    rw [blank.live_iff] at live
    exact absurd (live ▸ blank.block slot) present
  reserved b below :=
    (ofFile_used_iff (by decide) (below.trans_le nmeta_le)).mpr below
  noHole i live bn below := by
    rw [blank.live_iff] at live
    rw [live, ofFile_inode blank.inum, blank.size] at below
    simp at below

/-- A file that the indirect block can hold needs no other slots than those of `addrs` and of the
indirect block. -/
theorem neededSlots_single {n : Nat} (n_le : n ≤ (ndirect + nindirect) * bsize) :
    neededSlots 0 n ⊆ Finset.univ.image Slot.addr ∪ Finset.univ.image Slot.entry := by
  intro slot mem
  simp only [neededSlots, Finset.mem_biUnion, Finset.mem_image, Finset.mem_Ico] at mem
  obtain ⟨bn, ⟨o, ⟨-, upper⟩, rfl⟩, on_path⟩ := mem
  simp only [Finset.mem_union, Finset.mem_image, Finset.mem_univ, true_and]
  have below : o / bsize < ndirect + nindirect :=
    Nat.div_lt_of_lt_mul (by rw [Nat.mul_comm]; omega)
  by_cases direct : o / bsize < ndirect
  · rw [fileSlot_direct direct, Slot.path, Finset.mem_singleton] at on_path
    exact Or.inl ⟨_, on_path.symm⟩
  · rw [fileSlot_single direct (by omega), Slot.path, Finset.mem_insert,
      Finset.mem_singleton] at on_path
    rcases on_path with root | entry
    · exact Or.inl ⟨_, root.symm⟩
    · exact Or.inr ⟨_, entry.symm⟩

/-- There is room for as many bytes as the indirect block can hold. -/
theorem ofFile_room {n : Nat} (n_le : n ≤ (ndirect + nindirect) * bsize) :
    (ofFile file 42).Room mkfsSuper 2 (neededSlots 0 n) := by
  have free : Finset.Ico 42 2042 ⊆ (ofFile file 42).freeBlocks mkfsSuper := by
    intro b mem
    obtain ⟨lower, upper⟩ := Finset.mem_Ico.mp mem
    have value : (UInt32.ofNat b).toNat = b := by
      rw [UInt32.toNat_ofNat', Nat.mod_eq_of_lt (by omega)]
    have inside : b < mkfsSuper.size.toNat := upper.trans (by decide)
    refine Finset.mem_filter.mpr ⟨Finset.mem_range.mpr inside, ?_⟩
    rw [← Bool.not_eq_true, ofFile_used_iff (by decide) (by rw [InRange, value]; exact inside),
      value]
    omega
  calc
    ((ofFile file 42).emptySlots mkfsSuper 2 (neededSlots 0 n)).card ≤
        (Finset.univ.image Slot.addr ∪ Finset.univ.image Slot.entry).card :=
      Finset.card_le_card ((Finset.filter_subset _ _).trans (neededSlots_single n_le))
    _ ≤ (Finset.univ.image Slot.addr).card + (Finset.univ.image Slot.entry).card :=
      Finset.card_union_le _ _
    _ ≤ 13 + 1024 := Nat.add_le_add (Finset.card_image_le.trans (Finset.card_fin 13).le)
      (Finset.card_image_le.trans (Finset.card_fin 1024).le)
    _ ≤ (Finset.Ico 42 2042).card := by rw [Nat.card_Ico]; decide
    _ ≤ ((ofFile file 42).freeBlocks mkfsSuper).card := Finset.card_le_card free

/-- The volume of an empty file. -/
def fresh : Volume := ofFile emptyFile 42

theorem blank_emptyFile : Blank emptyFile := ⟨rfl, by decide, rfl, rfl⟩

theorem fresh_live_iff (i : UInt32) : fresh.Live mkfsSuper i ↔ i = 2 := blank_emptyFile.live_iff i

theorem fresh_block (slot : Slot) : fresh.block mkfsSuper 2 slot = 0 := blank_emptyFile.block slot

theorem fresh_wellFormed : fresh.WellFormed mkfsSuper := blank_emptyFile.wellFormed

theorem fresh_room : fresh.Room mkfsSuper 2 (neededSlots 0 5) := ofFile_room (by decide)

/-- Writing 50000 bytes of kernel memory to the empty file, past the direct blocks and into a part
of a block. -/
theorem emptyFile_is_byte_array : ∃ ip t,
    writei mkfsSuper fresh.state (fresh.inodes 2) false
      ⟨fun k => UInt8.ofNat (k + 97), fun _ => false, fun _ => false⟩ 0 0 50000 =
        .ok (50000, ip, t) ∧
      Overwritten mkfsSuper fresh ⟨t, Function.update fresh.inodes 2 ip⟩ 2 0
        ((List.range 50000).map fun k => UInt8.ofNat (0 + k + 97)) :=
  (file_is_byte_array fresh_wellFormed (idle_binit _) ((fresh_live_iff 2).mpr rfl)).1 false _ 0 0
    50000 (Nat.zero_le _) (by decide) (by decide) (by simp) (ofFile_room (by decide))

end Volume

end Fs
end Xv6Duo
