import Xv6Duo.Fs.FileArray

/-!
# Runs of reads and writes

The system that `readi` and `writei` calls on any inodes make of a card. The calls the environment
may choose are those whose copies succeed and for which the card has room. Whatever their order,
blocks are allocated with discipline: the volume stays well formed, the bitmap stays exact, every
inode is on the card as it is in memory, and a file block never moves.
-/

namespace Xv6Duo
namespace Fs
namespace Volume

open ByteBlock

variable {sb : Superblock} {v w : Volume}

/-- A call on an inode. -/
inductive Call
  /-- `readi`. -/
  | read (i : UInt32) (userDst : Bool) (mem : Memory) (dst : Nat) (off n : UInt32)
  /-- `writei`. -/
  | write (i : UInt32) (userSrc : Bool) (mem : Memory) (src : Nat) (off n : UInt32)

variable (sb) in
/-- One call on the in-memory inode. -/
def call (v : Volume) : Call → Except Fault Volume
  | .read i userDst mem dst off n => do
      let (_, _, ip, s) ← readi sb v.state (v.inodes i) userDst mem dst off n
      return ⟨s, Function.update v.inodes i ip⟩
  | .write i userSrc mem src off n => do
      let (_, ip, s) ← writei sb v.state (v.inodes i) userSrc mem src off n
      return ⟨s, Function.update v.inodes i ip⟩

variable (sb) in
/-- The inode is allocated, the copies of the call succeed and the card has room for it. -/
def Admits (v : Volume) : Call → Prop
  | .read i userDst mem dst off n =>
      v.Live sb i ∧ (userDst = true → PagesIn mem.writable dst (v.readable i off n))
  | .write i userSrc mem src off n =>
      v.Live sb i ∧ (userSrc = true → PagesIn mem.readable src n.toNat) ∧
        v.Room sb i (neededSlots off.toNat n.toNat)

variable (sb) in
/-- The discipline of block allocation. -/
structure Disciplined (v : Volume) : Prop where
  /-- The volume is well formed. -/
  wellFormed : v.WellFormed sb
  /-- The bitmap marks nothing else. -/
  noLeak : v.NoLeak sb
  /-- No buffer is busy. -/
  idle : Idle sb v.state
  /-- Inodes are stored. -/
  synced : v.Synced sb

/-- What one call leaves alone. -/
structure Follows (sb : Superblock) (v w : Volume) : Prop where
  /-- The discipline is kept. -/
  disciplined : w.Disciplined sb
  /-- Inodes are neither allocated nor freed. -/
  live : ∀ j, w.Live sb j ↔ v.Live sb j
  /-- Filled slots do not change. -/
  stable : ∀ j slot, v.Live sb j → v.block sb j slot ≠ 0 → w.block sb j slot = v.block sb j slot

theorem Follows.trans {x : Volume} (first : Follows sb v w) (second : Follows sb w x) :
    Follows sb v x where
  disciplined := second.disciplined
  live j := (second.live j).trans (first.live j)
  stable j slot live present := by
    have same := first.stable j slot live present
    rw [second.stable j slot ((first.live j).mpr live) (same ▸ present), same]

/-- A change of the cache alone. -/
theorem Follows.recache {s : State} (held : v.Disciplined sb) (idle : Idle sb s)
    (disk : s.disk = v.state.disk) : Follows sb v ⟨s, v.inodes⟩ where
  disciplined :=
    { wellFormed := held.wellFormed.of_disk disk
      noLeak := held.noLeak.of_blocks (fun _ => Iff.rfl)
        (fun j _ slot => by simp only [block, view_congr disk]) fun c _ => used_congr disk c
      idle := idle
      synced := fun i i_lt => by
        rw [onDisk, view_congr disk]
        exact held.synced i i_lt }
  live _ := Iff.rfl
  stable j slot _ _ := by simp only [block, view_congr disk]

theorem Overwritten.follows {i : UInt32} {off : Nat} {source : List UInt8}
    (done : Overwritten sb v w i off source) (held : v.Disciplined sb) : Follows sb v w where
  disciplined :=
    { wellFormed := done.wellFormed
      noLeak := done.noLeak held.noLeak
      idle := done.idle
      synced := fun j j_lt => by
        by_cases same : j = i
        · rw [same, done.onDisk_self]
        · rw [done.onDisk_other j j_lt same, done.others j same, held.synced j j_lt] }
  live := done.live
  stable := done.stable

/-- A call that the environment may choose succeeds and keeps the discipline. -/
theorem call_spec (held : v.Disciplined sb) {label : Call} (admitted : v.Admits sb label) :
    ∃ w, v.call sb label = .ok w ∧ Follows sb v w := by
  cases label with
  | read i userDst mem dst off n =>
      obtain ⟨live, writable⟩ := admitted
      by_cases fits : off.toNat + n.toNat < 2 ^ 32
      · obtain ⟨t, run, idle, disk⟩ := readi_spec held.wellFormed held.idle live fits writable
        refine ⟨⟨t, v.inodes⟩, ?_, Follows.recache held idle disk⟩
        simp only [call, run, Except.ok_bind, Except.pure_eq_ok, Function.update_eq_self]
      · have wraps : off + n < off := by
          have := n.toNat_lt
          have := off.toNat_lt
          rw [UInt32.lt_iff_toNat_lt, UInt32.toNat_add]
          omega
        refine ⟨v, ?_, Follows.recache held held.idle rfl⟩
        simp only [call, readi, wraps, or_true, if_true, Except.ok_bind, Except.pure_eq_ok,
          Function.update_eq_self]
  | write i userSrc mem src off n =>
      obtain ⟨live, readable, room⟩ := admitted
      by_cases refused : off > (v.inodes i).size ∨ off + n < off
      · refine ⟨v, ?_, Follows.recache held held.idle rfl⟩
        simp only [call, writei, refused, if_true, Except.ok_bind, Except.pure_eq_ok,
          Function.update_eq_self]
      · have off_le : off.toNat ≤ (v.inodes i).size.toNat := by
          rw [gt_iff_lt, UInt32.lt_iff_toNat_lt] at refused
          omega
        have fits : off.toNat + n.toNat < 2 ^ 32 := by
          have := n.toNat_lt
          have := off.toNat_lt
          simp only [gt_iff_lt, UInt32.lt_iff_toNat_lt, UInt32.toNat_add] at refused
          omega
        obtain ⟨ip, t, run, done⟩ :=
          writei_spec held.wellFormed held.idle live off_le fits readable room
        refine ⟨_, ?_, done.follows held⟩
        simp only [call, run, Except.ok_bind, Except.pure_eq_ok]

/-- Along a run from a disciplined volume the discipline is kept and filled slots do not change. -/
theorem reaches_follows (held : v.Disciplined sb)
    (reached : GuardedRun.Reaches (Admits sb) (call sb) v w) : Follows sb v w := by
  refine reached.invariant (Follows sb v) (Follows.recache held held.idle rfl) ?_
  intro state next label follows admitted succeeds
  obtain ⟨after, run, step⟩ := call_spec follows.disciplined admitted
  rw [run, Except.ok.injEq] at succeeds
  exact follows.trans (succeeds ▸ step)

/-! ## Block allocation -/

variable (sb) in
/-- The bitmap marks exactly the metadata blocks and the blocks that inodes reach. -/
def ExactBitmap (v : Volume) : Prop :=
  ∀ b, InRange sb b → (used sb v.state b = true ↔
    b.toNat < sb.nmeta ∨ ∃ i slot, v.Live sb i ∧ v.block sb i slot = b)

variable (sb) in
/-- The slots of inodes hold data blocks. -/
def HoldsData (v : Volume) : Prop :=
  ∀ i, v.Live sb i → ∀ slot, v.block sb i slot ≠ 0 → IsData sb (v.block sb i slot)

variable (sb) in
/-- No block is in two slots. -/
def Injective (v : Volume) : Prop :=
  ∀ i j, v.Live sb i → v.Live sb j → ∀ left right, v.block sb i left ≠ 0 →
    v.block sb i left = v.block sb j right → i = j ∧ left = right

variable (sb) in
/-- Every file block below the size of its file is there. -/
def HoleFree (v : Volume) : Prop :=
  ∀ i, v.Live sb i → ∀ bn, bn * bsize < (v.inodes i).size.toNat → v.block sb i (fileSlot bn) ≠ 0

/-- A card with an exact bitmap and sound files is disciplined. -/
theorem disciplined_ofDisk {disk : UInt32 → Bytes} (exact : (ofDisk sb disk).ExactBitmap sb)
    (data : (ofDisk sb disk).HoldsData sb) (injective : (ofDisk sb disk).Injective sb)
    (holeFree : (ofDisk sb disk).HoleFree sb) : (ofDisk sb disk).Disciplined sb where
  wellFormed :=
    { inum := fun _ => rfl
      data := data
      marked := fun i live slot present =>
        (exact _ (data i live slot present).inRange).mpr (Or.inr ⟨i, slot, live, rfl⟩)
      distinct := injective
      reserved := fun b below => (exact b (below.trans_le nmeta_le)).mpr (Or.inl below)
      noHole := holeFree }
  noLeak b b_range marked := (exact b b_range).mp marked
  idle := idle_binit disk
  synced _ _ := rfl

/-- The bitmap of a disciplined volume is exact. -/
theorem Disciplined.exactBitmap (held : v.Disciplined sb) : v.ExactBitmap sb := by
  refine fun b b_range => ⟨held.noLeak b b_range, ?_⟩
  rintro (below | ⟨i, slot, live, rfl⟩)
  · exact held.wellFormed.reserved b below
  · by_cases empty : v.block sb i slot = 0
    · rw [empty]
      exact held.wellFormed.reserved 0 nmeta_pos
    · exact held.wellFormed.marked i live slot empty

/-- From a card with an exact bitmap whose files are made of distinct data blocks without holes,
every run of reads and writes keeps it so, no call gets stuck, and `bmap` returns for a file block
what it has returned before. -/
theorem runs_allocate_with_discipline {disk : UInt32 → Bytes}
    (exact : (ofDisk sb disk).ExactBitmap sb) (data : (ofDisk sb disk).HoldsData sb)
    (injective : (ofDisk sb disk).Injective sb) (holeFree : (ofDisk sb disk).HoleFree sb)
    (reached : GuardedRun.Reaches (Admits sb) (call sb) (ofDisk sb disk) v) :
    (∀ label, v.Admits sb label → ∃ w, v.call sb label = .ok w) ∧
      v.Injective sb ∧ v.HoldsData sb ∧ v.ExactBitmap sb ∧ v.HoleFree sb ∧ v.Synced sb ∧
      ∀ i bn, v.Live sb i → bn < maxFile → v.block sb i (fileSlot bn) ≠ 0 →
        ∀ w, GuardedRun.Reaches (Admits sb) (call sb) v w →
          ∃ t, bmap sb w.state (w.inodes i) bn =
            .ok (v.block sb i (fileSlot bn), w.inodes i, t) := by
  have held := (reaches_follows (disciplined_ofDisk exact data injective holeFree)
    reached).disciplined
  refine ⟨?_, held.wellFormed.distinct, held.wellFormed.data, held.exactBitmap,
    held.wellFormed.noHole, held.synced, ?_⟩
  · intro label admitted
    obtain ⟨w, run, -⟩ := call_spec held admitted
    exact ⟨w, run⟩
  · intro i bn live bn_lt present w later
    have follows := reaches_follows held later
    have same := follows.stable i _ live present
    obtain ⟨t, run, -⟩ := bmap_present follows.disciplined.wellFormed follows.disciplined.idle
      ((follows.live i).mpr live) bn_lt (same ▸ present)
    exact ⟨t, by rw [run, same]⟩

theorem fresh_exactBitmap : fresh.ExactBitmap mkfsSuper := by
  intro b b_range
  have used_iff : used mkfsSuper fresh.state b = true ↔ b.toNat < mkfsSuper.nmeta :=
    ofFile_used_iff (by decide) b_range
  rw [used_iff]
  refine ⟨Or.inl, ?_⟩
  rintro (below | ⟨i, slot, live, rfl⟩)
  · exact below
  · rw [(fresh_live_iff i).mp live, fresh_block]
    exact nmeta_pos

/-- One write to the empty file. -/
theorem fresh_write_allocates : ∃ v,
    fresh.call mkfsSuper (.write 2 false ⟨zeros, fun _ => false, fun _ => false⟩ 0 0 5) = .ok v ∧
      v.Injective mkfsSuper ∧ v.HoldsData mkfsSuper ∧ v.ExactBitmap mkfsSuper ∧
      v.HoleFree mkfsSuper := by
  have wf := fresh_wellFormed
  have held : fresh.Disciplined mkfsSuper :=
    disciplined_ofDisk fresh_exactBitmap wf.data wf.distinct wf.noHole
  have admitted : fresh.Admits mkfsSuper
      (.write 2 false ⟨zeros, fun _ => false, fun _ => false⟩ 0 0 5) :=
    ⟨(fresh_live_iff 2).mpr rfl, by simp, fresh_room⟩
  obtain ⟨v, run, -⟩ := call_spec held admitted
  obtain ⟨-, injective, data, exact, holeFree, -⟩ := runs_allocate_with_discipline
    fresh_exactBitmap wf.data wf.distinct wf.noHole (.tail .refl admitted run)
  exact ⟨v, run, injective, data, exact, holeFree⟩

/-- A file of three blocks that names block 42 twice and no third block, with a pointer into the
metadata behind its end. -/
def tangledFile : Inode :=
  { emptyFile with
    size := 3 * 4096
    addrs := fun a => if a = 0 ∨ a = 1 then 42 else if a = 3 then 5 else 0 }

/-- The volume of that file. -/
def tangled : Volume := ofFile tangledFile 43

theorem tangled_inode : tangled.inodes 2 = tangledFile := ofFile_inode rfl

/-- An exact bitmap alone does not make the files of a card sound. -/
theorem exactBitmap_not_enough :
    GuardedRun.Reaches (Admits mkfsSuper) (call mkfsSuper) tangled tangled ∧
      tangled.ExactBitmap mkfsSuper ∧ ¬tangled.Injective mkfsSuper ∧
      ¬tangled.HoldsData mkfsSuper ∧ ¬tangled.HoleFree mkfsSuper := by
  have live : tangled.Live mkfsSuper 2 := (ofFile_live_iff rfl (by decide) 2).mpr rfl
  have addr : ∀ a, tangled.block mkfsSuper 2 (.addr a) = tangledFile.addrs a := by
    intro a
    rw [block, tangled_inode, slotBlock]
  have below : ∀ slot, (tangled.block mkfsSuper 2 slot).toNat < 43 := by
    have small : ∀ a, (tangledFile.addrs a).toNat < 43 := by decide
    intro slot
    cases slot with
    | addr a =>
        rw [addr]
        exact small a
    | entry j => simp [block, slotBlock, tangled_inode, tangledFile, indirectSlot, entryOf]
    | table k => simp [block, slotBlock, tangled_inode, tangledFile, indirect2Slot, entryOf]
    | leaf k j => simp [block, slotBlock, tangled_inode, tangledFile, indirect2Slot, entryOf]
  refine ⟨.refl, ?_, ?_, ?_, ?_⟩
  · intro b b_range
    have used_iff : used mkfsSuper tangled.state b = true ↔ b.toNat < 43 :=
      ofFile_used_iff (by decide) b_range
    rw [used_iff, show mkfsSuper.nmeta = 42 from rfl]
    constructor
    · intro marked
      by_cases last : b.toNat = 42
      · exact Or.inr ⟨2, .addr 0, live, by rw [addr]; exact UInt32.toNat_inj.mp last.symm⟩
      · exact Or.inl (by omega)
    · rintro (metadata | ⟨i, slot, live_i, rfl⟩)
      · omega
      · rw [(ofFile_live_iff rfl (by decide) i).mp live_i]
        exact below slot
  · intro injective
    have := (injective 2 2 live live (.addr 0) (.addr 1) (by rw [addr]; decide)
      (by rw [addr, addr]; rfl)).2
    simp at this
  · intro data
    have := (data 2 live (.addr 3) (by rw [addr]; decide)).1
    rw [addr] at this
    exact absurd this (by decide)
  · intro holeFree
    refine holeFree 2 live 2 (by rw [tangled_inode]; decide) ?_
    rw [fileSlot_direct (by decide), addr]
    rfl

end Volume
end Fs
end Xv6Duo
