import Xv6Duo.Fs.Allocation

/-!
# Well-formed volumes

A volume is the card behind its cache together with the in-memory copies of all inodes. In a
well-formed volume every slot of every allocated inode holds a data block of its own that is marked
used, the metadata blocks are marked used, and no file has a hole. Filling one empty slot with a
fresh block keeps a volume well formed, whatever the level of the slot.
-/

namespace Xv6Duo
namespace Fs

open ByteBlock

/-! ## Parents of slots -/

namespace Slot

/-- The slot that names the block a slot lies in. -/
def parent : Slot → Option Slot
  | .addr _ => none
  | .entry _ => some (.addr indirectSlot)
  | .table _ => some (.addr indirect2Slot)
  | .leaf k _ => some (.table k)

/-- The word of a slot in the block it lies in. -/
def index : Slot → Nat
  | .addr i => i
  | .entry j => j
  | .table k => k
  | .leaf _ j => j

theorem eq_of_parent_index {left right : Slot} {p : Slot} (left_parent : left.parent = some p)
    (right_parent : right.parent = some p) (same : left.index = right.index) : left = right := by
  cases left <;> cases right <;>
    simp_all [parent, index, indirectSlot, indirect2Slot, Fin.ext_iff] <;>
    simp_all [← left_parent]

theorem parent_ne_self (slot : Slot) : slot.parent ≠ some slot := by
  cases slot <;> simp [parent]

/-- A property of slots that parents hand down holds of all slots. -/
theorem parent_induction {motive : Slot → Prop}
    (step : ∀ slot : Slot, (∀ p, slot.parent = some p → motive p) → motive slot) (slot : Slot) :
    motive slot := by
  have addr : ∀ i, motive (.addr i) := fun i => step _ (by simp [parent])
  have entry : ∀ j, motive (.entry j) := fun j => step _ (by simpa [parent] using addr _)
  have table : ∀ k, motive (.table k) := fun k => step _ (by simpa [parent] using addr _)
  cases slot with
  | addr i => exact addr i
  | entry j => exact entry j
  | table k => exact table k
  | leaf k j => exact step _ (by simpa [parent] using table k)

end Slot

theorem slotBlock_of_parent {view : UInt32 → Bytes} {ip : Inode} {slot p : Slot}
    (parent_eq : slot.parent = some p) :
    slotBlock view ip slot = entryOf view (slotBlock view ip p) slot.index := by
  cases slot <;> simp only [Slot.parent, Option.some.injEq, reduceCtorEq] at parent_eq <;>
    subst parent_eq <;> rfl

/-! ## Volumes -/

/-- The card with its cache, and the in-memory inodes by number. -/
structure Volume where
  /-- Card and cache. -/
  state : State
  /-- Inodes. -/
  inodes : UInt32 → Inode

/-- The slot of the `bn`-th block of a file. -/
def fileSlot (bn : Nat) : Slot :=
  if direct : bn < ndirect then .addr ⟨bn, direct_lt direct⟩
  else if single : bn - ndirect < nindirect then .entry ⟨bn - ndirect, single⟩
  else .leaf (Fin.ofNat 1024 ((bn - ndirect - nindirect) / nindirect))
    (Fin.ofNat 1024 ((bn - ndirect - nindirect) % nindirect))

theorem fileSlot_direct {bn : Nat} (direct : bn < ndirect) :
    fileSlot bn = .addr ⟨bn, direct_lt direct⟩ :=
  dif_pos direct

theorem fileSlot_single {bn : Nat} (not_direct : ¬bn < ndirect)
    (single : bn - ndirect < nindirect) : fileSlot bn = .entry ⟨bn - ndirect, single⟩ := by
  rw [fileSlot, dif_neg not_direct, dif_pos single]

/-- The largest file fits below the double indirect block. -/
theorem double_lt {bn : Nat} (bn_lt : bn < maxFile) :
    bn - ndirect - nindirect < nindirect * nindirect := by
  simp only [maxFile, ndirect, nindirect] at *
  omega

theorem high_lt {bn : Nat} (bn_lt : bn < maxFile) :
    (bn - ndirect - nindirect) / nindirect < 1024 :=
  Nat.div_lt_of_lt_mul (double_lt bn_lt)

theorem low_lt (bn : Nat) : (bn - ndirect - nindirect) % nindirect < 1024 :=
  Nat.mod_lt _ (by decide)

theorem fileSlot_double {bn : Nat} (bn_lt : bn < maxFile) (not_direct : ¬bn < ndirect)
    (not_single : ¬bn - ndirect < nindirect) :
    fileSlot bn = .leaf ⟨(bn - ndirect - nindirect) / nindirect, high_lt bn_lt⟩
      ⟨(bn - ndirect - nindirect) % nindirect, low_lt bn⟩ := by
  rw [fileSlot, dif_neg not_direct, dif_neg not_single]
  simp only [Slot.leaf.injEq, Fin.ext_iff, Fin.val_ofNat]
  exact ⟨Nat.mod_eq_of_lt (high_lt bn_lt), Nat.mod_eq_of_lt (low_lt bn)⟩

namespace Volume

variable (sb : Superblock)

/-- The block number in a slot of an inode. -/
def block (v : Volume) (i : UInt32) (slot : Slot) : UInt32 :=
  slotBlock (v.state.view sb) (v.inodes i) slot

/-- The inode is allocated. -/
def Live (v : Volume) (i : UInt32) : Prop :=
  i.toNat < sb.ninodes.toNat ∧ (v.inodes i).type ≠ 0

/-- The volume is well formed. -/
structure WellFormed (v : Volume) : Prop where
  /-- The copy of an inode has its number. -/
  inum : ∀ i, (v.inodes i).inum = i
  /-- Slots hold data blocks. -/
  data : ∀ i, v.Live sb i → ∀ slot, v.block sb i slot ≠ 0 → IsData sb (v.block sb i slot)
  /-- The blocks in slots are marked used. -/
  marked : ∀ i, v.Live sb i → ∀ slot, v.block sb i slot ≠ 0 →
    used sb v.state (v.block sb i slot) = true
  /-- No block is in two slots. -/
  distinct : ∀ i j, v.Live sb i → v.Live sb j → ∀ left right, v.block sb i left ≠ 0 →
    v.block sb i left = v.block sb j right → i = j ∧ left = right
  /-- The metadata blocks are marked used. -/
  reserved : ∀ b : UInt32, b.toNat < sb.nmeta → used sb v.state b = true
  /-- Files have no holes. -/
  noHole : ∀ i, v.Live sb i → ∀ bn, bn * bsize < (v.inodes i).size.toNat →
    v.block sb i (fileSlot bn) ≠ 0

/-- Every used block is metadata or in a slot. -/
def NoLeak (v : Volume) : Prop :=
  ∀ b, InRange sb b → used sb v.state b = true →
    b.toNat < sb.nmeta ∨ ∃ i slot, v.Live sb i ∧ v.block sb i slot = b

/-- The inode after a block number has been stored in a slot. -/
def fillInode (ip : Inode) (slot : Slot) (b : UInt32) : Inode :=
  match slot with
  | .addr i => ip.setAddr i b
  | _ => ip

/-- One empty slot of inode `i` is filled with a fresh block. -/
structure Filled (v w : Volume) (i : UInt32) (slot : Slot) (b : UInt32) : Prop where
  /-- The slot was empty. -/
  absent : v.block sb i slot = 0
  /-- The block the slot lies in was there. -/
  holder : ∀ p, slot.parent = some p → v.block sb i p ≠ 0
  /-- The block was free. -/
  unmarked : used sb v.state b = false
  /-- It is a data block. -/
  data : IsData sb b
  /-- Its bit is set, the others are as before. -/
  bits : ∀ c, InRange sb c → (used sb w.state c = true ↔ used sb v.state c = true ∨ c = b)
  /-- The slot holds the block, the other slots are as before. -/
  blocks : ∀ j slot', v.Live sb j →
    w.block sb j slot' = if j = i ∧ slot' = slot then b else v.block sb j slot'
  /-- Only block numbers change in the inodes. -/
  inodes : w.inodes = Function.update v.inodes i (fillInode (v.inodes i) slot b)
  /-- Used blocks keep their bytes, except the bitmap and the block of the slot. -/
  view : ∀ c, InRange sb c → c ∉ bitmapBlocks sb → used sb v.state c = true →
    (∀ p, slot.parent = some p → c ≠ v.block sb i p) →
    w.state.view sb c = v.state.view sb c

variable {sb} {v w : Volume} {i : UInt32} {slot : Slot} {b : UInt32}

theorem block_of_parent {p : Slot} (parent_eq : slot.parent = some p) :
    v.block sb i slot = entryOf (v.state.view sb) (v.block sb i p) slot.index :=
  slotBlock_of_parent parent_eq

/-- The slots depend on `addrs` and on the blocks that hold slots. -/
theorem block_congr {j : UInt32} (addrs : (w.inodes j).addrs = (v.inodes j).addrs)
    (view : ∀ slot p : Slot, slot.parent = some p → v.block sb j p ≠ 0 →
      w.state.view sb (v.block sb j p) = v.state.view sb (v.block sb j p)) (slot : Slot) :
    w.block sb j slot = v.block sb j slot := by
  induction slot using Slot.parent_induction with
  | step slot ih =>
      cases parent_eq : slot.parent with
      | none =>
          cases slot with
          | addr a => exact congrFun addrs a
          | entry _ => simp [Slot.parent] at parent_eq
          | table _ => simp [Slot.parent] at parent_eq
          | leaf _ _ => simp [Slot.parent] at parent_eq
      | some p =>
          rw [block_of_parent parent_eq, block_of_parent parent_eq, ih p parent_eq]
          by_cases empty : v.block sb j p = 0
          · simp [entryOf, empty]
          · rw [entryOf_of_ne empty, entryOf_of_ne empty, view slot p parent_eq empty]

/-- A change that keeps slots and bitmap keeps a volume well formed. -/
theorem WellFormed.of_blocks (wf : v.WellFormed sb)
    (inum : ∀ j, (w.inodes j).inum = (v.inodes j).inum) (live : ∀ j, w.Live sb j ↔ v.Live sb j)
    (blocks : ∀ j, v.Live sb j → ∀ slot, w.block sb j slot = v.block sb j slot)
    (bits : ∀ c, InRange sb c → used sb w.state c = used sb v.state c)
    (noHole : ∀ j, v.Live sb j → ∀ bn, bn * bsize < (w.inodes j).size.toNat →
      v.block sb j (fileSlot bn) ≠ 0) : w.WellFormed sb where
  inum j := (inum j).trans (wf.inum j)
  data j live_j slot present := by
    rw [live] at live_j
    rw [blocks j live_j] at present ⊢
    exact wf.data j live_j slot present
  marked j live_j slot present := by
    rw [live] at live_j
    rw [blocks j live_j] at present ⊢
    exact (bits _ (wf.data j live_j slot present).inRange).trans (wf.marked j live_j slot present)
  distinct j k live_j live_k left right present same := by
    rw [live] at live_j live_k
    rw [blocks j live_j] at present same
    rw [blocks k live_k] at same
    exact wf.distinct j k live_j live_k left right present same
  reserved c below := (bits c (below.trans_le nmeta_le)).trans (wf.reserved c below)
  noHole j live_j bn below := by
    rw [live] at live_j
    rw [blocks j live_j]
    exact noHole j live_j bn below

theorem NoLeak.of_blocks (tight : v.NoLeak sb) (live : ∀ j, w.Live sb j ↔ v.Live sb j)
    (blocks : ∀ j, v.Live sb j → ∀ slot, w.block sb j slot = v.block sb j slot)
    (bits : ∀ c, InRange sb c → used sb w.state c = used sb v.state c) : w.NoLeak sb := by
  intro c c_range marked
  obtain below | ⟨j, slot, live_j, eq⟩ := tight c c_range ((bits c c_range).symm.trans marked)
  · exact Or.inl below
  · exact Or.inr ⟨j, slot, (live j).mpr live_j, by rw [blocks j live_j, eq]⟩

theorem fillInode_fields (ip : Inode) (slot : Slot) (b : UInt32) :
    fillInode ip slot b = { ip with addrs := (fillInode ip slot b).addrs } := by
  cases slot <;> rfl

theorem Filled.live (filled : Filled sb v w i slot b) (j : UInt32) :
    w.Live sb j ↔ v.Live sb j := by
  simp only [Live, filled.inodes]
  by_cases same : j = i
  · subst same
    rw [Function.update_self, fillInode_fields]
  · rw [Function.update_of_ne same]

theorem Filled.size (filled : Filled sb v w i slot b) (j : UInt32) :
    (w.inodes j).size = (v.inodes j).size := by
  rw [filled.inodes]
  by_cases same : j = i
  · subst same
    rw [Function.update_self, fillInode_fields]
  · rw [Function.update_of_ne same]

/-- Filling a slot never empties or changes a filled one. -/
theorem Filled.stable (filled : Filled sb v w i slot b) {j : UInt32} {slot' : Slot}
    (live : v.Live sb j) (present : v.block sb j slot' ≠ 0) :
    w.block sb j slot' = v.block sb j slot' := by
  rw [filled.blocks j slot' live]
  refine if_neg ?_
  rintro ⟨rfl, rfl⟩
  exact present filled.absent

theorem Filled.block_self (filled : Filled sb v w i slot b) (live : v.Live sb i) :
    w.block sb i slot = b := by
  rw [filled.blocks i slot live, if_pos ⟨rfl, rfl⟩]

theorem Filled.wellFormed (filled : Filled sb v w i slot b) (wf : v.WellFormed sb) :
    w.WellFormed sb := by
  have not_old : ∀ j slot', v.Live sb j → v.block sb j slot' ≠ b := by
    rintro j slot' live rfl
    have marked := wf.marked j live slot' filled.data.ne_zero
    rw [filled.unmarked] at marked
    exact absurd marked (by simp)
  refine ⟨?_, ?_, ?_, ?_, ?_, ?_⟩
  · intro j
    rw [filled.inodes]
    by_cases same : j = i
    · subst same
      rw [Function.update_self, fillInode_fields]
      exact wf.inum j
    · rw [Function.update_of_ne same]
      exact wf.inum j
  · intro j live slot' present
    rw [filled.live] at live
    rw [filled.blocks j slot' live] at present ⊢
    split
    · exact filled.data
    · next differ =>
        rw [if_neg differ] at present
        exact wf.data j live slot' present
  · intro j live slot' present
    rw [filled.live] at live
    rw [filled.blocks j slot' live] at present ⊢
    split
    · exact (filled.bits b filled.data.inRange).mpr (Or.inr rfl)
    · next differ =>
        rw [if_neg differ] at present
        exact (filled.bits _ (wf.data j live slot' present).inRange).mpr
          (Or.inl (wf.marked j live slot' present))
  · intro j k live_j live_k left right present same
    rw [filled.live] at live_j live_k
    rw [filled.blocks j left live_j] at present same
    rw [filled.blocks k right live_k] at same
    split at same
    · next first =>
        split at same
        · next second => exact ⟨first.1.trans second.1.symm, first.2.trans second.2.symm⟩
        · exact absurd same.symm (not_old k right live_k)
    · next first =>
        rw [if_neg first] at present
        split at same
        · exact absurd same (not_old j left live_j)
        · exact wf.distinct j k live_j live_k left right present same
  · intro c below
    exact (filled.bits c (below.trans_le nmeta_le)).mpr (Or.inl (wf.reserved c below))
  · intro j live bn below
    rw [filled.live] at live
    rw [filled.size] at below
    rw [filled.stable live (wf.noHole j live bn below)]
    exact wf.noHole j live bn below

theorem Filled.noLeak (filled : Filled sb v w i slot b) (live : v.Live sb i)
    (tight : v.NoLeak sb) : w.NoLeak sb := by
  intro c c_range marked
  obtain old | rfl := (filled.bits c c_range).mp marked
  · obtain below | ⟨j, slot', live_j, eq⟩ := tight c c_range old
    · exact Or.inl below
    · by_cases zero : v.block sb j slot' = 0
      · left
        rw [← eq, zero]
        exact nmeta_pos
      · exact Or.inr ⟨j, slot', (filled.live j).mpr live_j, by rw [filled.stable live_j zero, eq]⟩
  · exact Or.inr ⟨i, slot, (filled.live i).mpr live, filled.block_self live⟩

end Volume

end Fs
end Xv6Duo
