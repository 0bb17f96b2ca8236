import Xv6Duo.Fs.Tree

/-!
# Truncation

`itrunc` frees the direct blocks, the indirect block with its entries, and the double indirect
block with its second-level blocks. The first two parts work over any cache. The third part goes on
reading the double indirect block after its buffer has been released; `bget` recycles the buffer
that was released last, so a second-level block that is not cached is read into the very buffer
that is still being walked.
-/

namespace Xv6Duo
namespace Fs

open ByteBlock

variable {sb : Superblock} {s t : State} {held : Finset (Fin nbuf)} {trusted : Set UInt32}

theorem card_singleton_lt (b : Fin nbuf) : ({b} : Finset (Fin nbuf)).card < nbuf := by
  rw [Finset.card_singleton]
  decide

/-! ## Freeing a list of blocks -/

section Lists

variable {ι : Type*} {value : ι → UInt32} {places : List ι}

/-- The block numbers at the given places. -/
def blocksAt (value : ι → UInt32) (places : List ι) : Set UInt32 :=
  {b | b ≠ 0 ∧ ∃ i ∈ places, value i = b}

/-- The block numbers at the given places are distinct and marked used. -/
structure Freeable (sb : Superblock) (s : State) (value : ι → UInt32) (places : List ι) : Prop where
  /-- No place is named twice. -/
  nodup : places.Nodup
  /-- The blocks are in range. -/
  inRange : ∀ i ∈ places, value i ≠ 0 → InRange sb (value i)
  /-- The blocks are marked used. -/
  marked : ∀ i ∈ places, value i ≠ 0 → used sb s (value i) = true
  /-- No block is at two places. -/
  distinct : ∀ i ∈ places, ∀ j ∈ places, value i ≠ 0 → value i = value j → i = j

theorem blocksAt_nil : blocksAt value ([] : List ι) = ∅ := by
  ext b
  simp [blocksAt]

theorem blocksAt_cons {i : ι} (present : value i ≠ 0) :
    blocksAt value (i :: places) = {value i} ∪ blocksAt value places := by
  ext b
  simp only [blocksAt, Set.mem_ofPred_eq, List.mem_cons, exists_eq_or_imp, Set.mem_union,
    Set.mem_singleton_iff]
  constructor
  · rintro ⟨nonzero, rfl | later⟩
    · exact Or.inl rfl
    · exact Or.inr ⟨nonzero, later⟩
  · rintro (rfl | ⟨nonzero, later⟩)
    · exact ⟨present, Or.inl rfl⟩
    · exact ⟨nonzero, Or.inr later⟩

theorem blocksAt_cons_zero {i : ι} (absent : value i = 0) :
    blocksAt value (i :: places) = blocksAt value places := by
  ext b
  simp only [blocksAt, Set.mem_ofPred_eq, List.mem_cons, exists_eq_or_imp, absent]
  refine and_congr_right fun nonzero => or_iff_right ?_
  exact fun same => nonzero same.symm

theorem Freeable.tail {i : ι} (freeable : Freeable sb s value (i :: places)) :
    Freeable sb s value places where
  nodup := (List.nodup_cons.mp freeable.nodup).2
  inRange j mem := freeable.inRange j (List.mem_cons_of_mem i mem)
  marked j mem := freeable.marked j (List.mem_cons_of_mem i mem)
  distinct j mem k k_mem :=
    freeable.distinct j (List.mem_cons_of_mem i mem) k (List.mem_cons_of_mem i k_mem)

/-- Freeing blocks at no later place keeps the later places. -/
theorem Freeable.of_freed {gone : Set UInt32} (freeable : Freeable sb s value places)
    (freed : Freed sb s t gone) (apart : ∀ i ∈ places, value i ≠ 0 → value i ∉ gone) :
    Freeable sb t value places where
  nodup := freeable.nodup
  inRange := freeable.inRange
  marked i mem present :=
    (freed.bits _ (freeable.inRange i mem present)).mpr
      ⟨freeable.marked i mem present, apart i mem present⟩
  distinct := freeable.distinct

theorem Freeable.step {i : ι} (freeable : Freeable sb s value (i :: places))
    (freed : Freed sb s t {value i}) : Freeable sb t value places := by
  refine freeable.tail.of_freed freed fun j mem present same => ?_
  have := freeable.distinct j (List.mem_cons_of_mem i mem) i List.mem_cons_self present same
  exact (List.nodup_cons.mp freeable.nodup).1 (this ▸ mem)

theorem Freeable.congr {other : ι → UInt32} (freeable : Freeable sb s value places)
    (agree : ∀ i ∈ places, other i = value i) : Freeable sb s other places where
  nodup := freeable.nodup
  inRange i mem := by
    rw [agree i mem]
    exact freeable.inRange i mem
  marked i mem := by
    rw [agree i mem]
    exact freeable.marked i mem
  distinct i mem j j_mem := by
    rw [agree i mem, agree j j_mem]
    exact freeable.distinct i mem j j_mem

theorem blocksAt_congr {other : ι → UInt32} (agree : ∀ i ∈ places, other i = value i) :
    blocksAt other places = blocksAt value places := by
  ext b
  simp only [blocksAt, Set.mem_ofPred_eq]
  refine and_congr_right fun _ => exists_congr fun i => and_congr_right fun mem => ?_
  rw [agree i mem]

end Lists

/-- The loop of `itrunc` over words of `addrs` frees their blocks and forgets them. -/
theorem freeAddrs_spec (slots : List (Fin 13)) {ip : Inode} (good : Good sb s held trusted)
    (trusts : bitmapBlocks sb ⊆ trusted) (free : BitmapFree sb s held) (few : held.card < nbuf)
    (freeable : Freeable sb s ip.addrs slots) :
    ∃ t, slots.foldlM (freeAddr sb) (s, ip) =
        .ok (t, { ip with addrs := fun i => if i ∈ slots then 0 else ip.addrs i }) ∧
      Good sb t held trusted ∧ Freed sb s t (blocksAt ip.addrs slots) ∧
      Frame sb s t held (bitmapBlocks sb) := by
  induction slots generalizing s ip with
  | nil =>
      refine ⟨s, by simp, good, ?_, Frame.refl s held _⟩
      rw [blocksAt_nil]
      exact Freed.refl s
  | cons i slots ih =>
      by_cases present : ip.addrs i = 0
      · obtain ⟨t, loop, good_t, freed, frame⟩ := ih good free freeable.tail
        refine ⟨t, ?_, good_t, ?_, frame⟩
        · rw [List.foldlM_cons, freeAddr, if_pos present, Except.ok_bind, loop]
          congr 3
          funext j
          by_cases same : j = i
          · subst same
            simp [present]
          · simp [same]
        · rwa [blocksAt_cons_zero present]
      · obtain ⟨t, freed_eq, good_t, freed, frame⟩ := bfree_spec good trusts free few
          (freeable.inRange i List.mem_cons_self present)
          (freeable.marked i List.mem_cons_self present)
        have fresh := (List.nodup_cons.mp freeable.nodup).1
        have later : ∀ j ∈ slots, (ip.setAddr i 0).addrs j = ip.addrs j := by
          intro j mem
          have differ : j ≠ i := fun same => fresh (same ▸ mem)
          simp [Inode.setAddr, Function.update_of_ne differ]
        obtain ⟨u, loop, good_u, freed_u, frame_u⟩ := ih good_t
          (frame.bitmapFree free) ((freeable.step freed).congr later)
        refine ⟨u, ?_, good_u, ?_, frame.trans frame_u⟩
        · simp only [List.foldlM_cons, freeAddr, present, if_false, freed_eq, Except.ok_bind,
            Except.pure_eq_ok]
          rw [loop]
          congr 2
          ext1 <;> try rfl
          funext j
          by_cases same : j = i
          · subst same
            simp [Inode.setAddr]
          · simp [Inode.setAddr, same]
        · rw [blocksAt_cons present, ← blocksAt_congr later]
          exact freed.trans freed_u

theorem Frame.setData {b : Fin nbuf} {data : Bytes} {few : Finset (Fin nbuf)}
    (outside : b ∉ few) (touched : Set UInt32) : Frame sb s (s.setData b data) few touched where
  bufs a mem := by
    have differ : a ≠ b := fun same => outside (same ▸ mem)
    simp [Function.update_of_ne differ]
  keys a root := by
    left
    by_cases same : a = b
    · subst same
      simpa using root
    · simpa [Function.update_of_ne same] using root

/-- The loops of `itrunc` over the entries of a busy block free the blocks they name and zero the
entries in the buffer. -/
theorem freeEntries_spec (entries : List Nat) {bp : Fin nbuf} (fresh : bp ∉ held)
    (good : Good sb s (insert bp held) trusted) (trusts : bitmapBlocks sb ⊆ trusted)
    (free : BitmapFree sb s (insert bp held)) (few : (insert bp held).card < nbuf)
    (freeable : Freeable sb s (getWord (s.bufs bp).data) entries) :
    ∃ t, entries.foldlM (freeEntry sb bp) s = .ok t ∧ Good sb t (insert bp held) trusted ∧
      Freed sb s t (blocksAt (getWord (s.bufs bp).data) entries) ∧
      (t.bufs bp).blockno = (s.bufs bp).blockno ∧
      (∀ j, getWord (t.bufs bp).data j =
        if j ∈ entries then 0 else getWord (s.bufs bp).data j) ∧
      Frame sb s t held (bitmapBlocks sb) := by
  induction entries generalizing s with
  | nil =>
      refine ⟨s, rfl, good, ?_, rfl, by simp, Frame.refl s held _⟩
      rw [blocksAt_nil]
      exact Freed.refl s
  | cons i entries ih =>
      by_cases present : getWord (s.bufs bp).data i = 0
      · obtain ⟨t, loop, good_t, freed, block_eq, words, frame⟩ := ih good free freeable.tail
        refine ⟨t, ?_, good_t, ?_, block_eq, ?_, frame⟩
        · rw [List.foldlM_cons, freeEntry, if_pos present, Except.ok_bind, loop]
        · rwa [blocksAt_cons_zero present]
        · intro j
          rw [words j]
          by_cases same : j = i
          · subst same
            simp [present]
          · simp [same]
      · obtain ⟨t, freed_eq, good_t, freed, frame⟩ := bfree_spec good trusts free few
          (freeable.inRange i List.mem_cons_self present)
          (freeable.marked i List.mem_cons_self present)
        have mem := Finset.mem_insert_self bp held
        have buf_eq := frame.bufs bp mem
        set u := t.setData bp (setWord (t.bufs bp).data i 0) with u_eq
        have good_u : Good sb u (insert bp held) trusted := good_t.setData mem _
        have block_u : (u.bufs bp).blockno = (s.bufs bp).blockno := by simp [u_eq, buf_eq]
        have data_u : (u.bufs bp).data = setWord (s.bufs bp).data i 0 := by simp [u_eq, buf_eq]
        have later : ∀ j ∈ entries, getWord (u.bufs bp).data j = getWord (s.bufs bp).data j := by
          intro j j_mem
          have differ : j ≠ i := by
            rintro rfl
            exact (List.nodup_cons.mp freeable.nodup).1 j_mem
          rw [data_u, getWord_setWord_of_ne _ _ differ]
        have frame_u : Frame sb s u held (bitmapBlocks sb) :=
          (frame.of_subset (Finset.subset_insert bp held)).trans (Frame.setData fresh _)
        have free_u : BitmapFree sb u (insert bp held) := by
          intro bno bitmap a a_mem
          obtain rfl | a_mem := Finset.mem_insert.mp a_mem
          · rw [block_u]
            exact free bno bitmap a mem
          · rw [frame_u.bufs a a_mem]
            exact free bno bitmap a (Finset.mem_insert_of_mem a_mem)
        have freeable_u : Freeable sb u (getWord (u.bufs bp).data) entries :=
          (freeable.step (t := u) ⟨freed.bits, freed.view⟩).congr later
        obtain ⟨v, loop, good_v, freed_v, block_v, words, frame_v⟩ := ih good_u free_u freeable_u
        refine ⟨v, ?_, good_v, ?_, block_v.trans block_u, ?_, frame_u.trans frame_v⟩
        · simp only [List.foldlM_cons, freeEntry, present, if_false, freed_eq, Except.ok_bind,
            Except.pure_eq_ok]
          exact loop
        · rw [blocksAt_cons present, ← blocksAt_congr later]
          exact Freed.trans (t := u) ⟨freed.bits, freed.view⟩ freed_v
        · intro j
          rw [words j, data_u, getWord_setWord]
          by_cases same : j = i
          · simp [same]
          · simp [same]

/-! ## Giving up a block of the tree -/

/-- Letting go of the only held buffer and freeing its block. The entries in the buffer may differ
from the card, so the block is not trusted any more. -/
theorem dropBlock_spec {bp : Fin nbuf} {addr : UInt32} (good : Good sb s {bp} trusted)
    (ranged : ∀ bno ∈ trusted, InRange sb bno) (trusts : bitmapBlocks sb ⊆ trusted)
    (block_eq : (s.bufs bp).blockno = sb.sector addr) (data : IsData sb addr)
    (marked : used sb s addr = true) :
    ∃ t u, brelse s bp = .ok t ∧ bfree sb t addr = .ok u ∧ Good sb u ∅ (trusted \ {addr}) ∧
      Freed sb s u {addr} ∧ Frame sb s u ∅ (bitmapBlocks sb) := by
  have fewer : Good sb s {bp} (trusted \ {addr}) := good.mono fun _ mem => mem.1
  obtain ⟨t, released, good_t, disk_t, bufs_t, -⟩ :=
    brelse_spec fewer (Finset.mem_singleton_self bp) (by
      rintro bno ⟨bno_mem, differ⟩ same
      rw [block_eq] at same
      exact absurd (Superblock.sector_inj data.inRange.lt (ranged bno bno_mem).lt same).symm differ)
  rw [Finset.erase_singleton] at good_t
  have trusts_t : bitmapBlocks sb ⊆ trusted \ {addr} := by
    intro bno bitmap
    refine ⟨trusts bitmap, ?_⟩
    rintro rfl
    exact data.sector_ne bitmap rfl
  obtain ⟨u, freed_eq, good_u, freed, frame⟩ := bfree_spec good_t trusts_t bitmapFree_empty
    (by decide) data.inRange ((used_congr disk_t addr).trans marked)
  refine ⟨t, u, released, freed_eq, good_u, ⟨?_, ?_⟩, ⟨by simp, ?_⟩⟩
  · intro c c_range
    rw [freed.bits c c_range, used_congr disk_t]
  · intro bno outside
    rw [freed.view bno outside, view_congr disk_t]
  · intro a root
    obtain ⟨root_t, same⟩ | touched := frame.keys a root
    · left
      rw [same]
      rw [bufs_t] at root_t ⊢
      by_cases own : a = bp
      · subst own
        simpa using root_t
      · simpa [Function.update_of_ne own] using root_t
    · exact Or.inr touched

/-- The blocks that the part of `itrunc` for a block `addr` gives up. -/
def branchBlocks (view : UInt32 → Bytes) (addr : UInt32) : Set UInt32 :=
  {b | b ≠ 0 ∧ (b = addr ∨ ∃ j < nindirect, entryOf view addr j = b)}

theorem branchBlocks_zero (view : UInt32 → Bytes) : branchBlocks view 0 = ∅ := by
  ext b
  simp only [branchBlocks, Set.mem_ofPred_eq, entryOf, if_true, Set.mem_empty_iff_false,
    iff_false, not_and, not_or, not_exists]
  exact fun nonzero => ⟨nonzero, fun _ _ same => nonzero same.symm⟩

theorem branchBlocks_eq {view : UInt32 → Bytes} {addr : UInt32} (present : addr ≠ 0) :
    branchBlocks view addr =
      blocksAt (getWord (view addr)) (List.range nindirect) ∪ {addr} := by
  ext b
  simp only [branchBlocks, entryOf, present, if_false, blocksAt, Set.mem_ofPred_eq,
    List.mem_range, Set.mem_union, Set.mem_singleton_iff]
  constructor
  · rintro ⟨nonzero, same | entry⟩
    · exact Or.inr same
    · exact Or.inl ⟨nonzero, entry⟩
  · rintro (⟨nonzero, entry⟩ | rfl)
    · exact ⟨nonzero, Or.inr entry⟩
    · exact ⟨present, Or.inl rfl⟩

/-- What the part of `itrunc` for a block of the tree relies on. -/
structure Branch (sb : Superblock) (s : State) (trusted : Set UInt32) (addr : UInt32) : Prop where
  /-- The block is a data block. -/
  data : addr ≠ 0 → IsData sb addr
  /-- The block is marked used. -/
  marked : addr ≠ 0 → used sb s addr = true
  /-- The block is trusted. -/
  trusts : addr ≠ 0 → addr ∈ trusted
  /-- Its entries can be freed. -/
  freeable : addr ≠ 0 → Freeable sb s (getWord (s.view sb addr)) (List.range nindirect)
  /-- It is not one of its entries. -/
  apart : addr ≠ 0 → ∀ j < nindirect, getWord (s.view sb addr) j ≠ addr

/-- The part of `itrunc` for the indirect block. -/
theorem truncIndirect_spec {ip : Inode} (good : Good sb s ∅ trusted)
    (ranged : ∀ bno ∈ trusted, InRange sb bno) (trusts : bitmapBlocks sb ⊆ trusted)
    (branch : Branch sb s trusted (ip.addrs indirectSlot)) :
    ∃ t, truncIndirect sb s ip = .ok (t, ip.setAddr indirectSlot 0) ∧
      Good sb t ∅ (trusted \ {ip.addrs indirectSlot}) ∧
      Freed sb s t (branchBlocks (s.view sb) (ip.addrs indirectSlot)) ∧
      Frame sb s t ∅ (bitmapBlocks sb ∪ {ip.addrs indirectSlot}) := by
  by_cases present : ip.addrs indirectSlot = 0
  · refine ⟨s, ?_, good.mono fun _ mem => mem.1, ?_, Frame.refl s ∅ _⟩
    · rw [truncIndirect, if_pos present]
      congr 2
      ext1 <;> try rfl
      simp [Inode.setAddr, ← present]
    · rw [present, branchBlocks_zero]
      exact Freed.refl s
  · set addr := ip.addrs indirectSlot with addr_eq
    obtain ⟨bp, t, read, fetched⟩ := bread_spec good unheld_empty (by decide)
    have data_eq := fetched.data addr (branch.trusts present) rfl
    have view_t : t.view sb = s.view sb := view_congr fetched.disk
    have freeable_t : Freeable sb t (getWord (t.bufs bp).data) (List.range nindirect) := by
      rw [data_eq]
      have := branch.freeable present
      exact ⟨this.nodup, this.inRange,
        fun j mem nonzero => (used_congr fetched.disk _).trans (this.marked j mem nonzero),
        this.distinct⟩
    have free_t : BitmapFree sb t (insert bp ∅) := by
      intro bno bitmap a mem
      obtain rfl : a = bp := by simpa using mem
      rw [fetched.blockno]
      exact (branch.data present).sector_ne bitmap
    obtain ⟨u, loop, good_u, freed_u, block_u, -, frame_u⟩ := freeEntries_spec
      (List.range nindirect) fetched.fresh fetched.good trusts free_t
      ((Finset.card_insert_le _ _).trans_lt (by decide)) freeable_t
    have marked_u : used sb u addr = true := by
      refine (freed_u.bits addr (branch.data present).inRange).mpr
        ⟨(used_congr fetched.disk _).trans (branch.marked present), ?_⟩
      rintro ⟨-, j, mem, same⟩
      rw [data_eq] at same
      exact branch.apart present j (List.mem_range.mp mem) same
    obtain ⟨v, w, released, freed_eq, good_w, freed_w, frame_w⟩ := dropBlock_spec
      (by simpa using good_u) ranged trusts (block_u.trans fetched.blockno)
      (branch.data present) marked_u
    refine ⟨w, ?_, good_w, ?_, ?_⟩
    · simp only [truncIndirect, ← addr_eq, present, if_false, read, Except.ok_bind, loop,
        released, freed_eq, Except.pure_eq_ok]
    · rw [branchBlocks_eq present]
      have freed_su :
        Freed sb s u (blocksAt (getWord (s.view sb addr)) (List.range nindirect)) := by
        rw [data_eq] at freed_u
        exact ⟨fun c c_range => by rw [freed_u.bits c c_range, used_congr fetched.disk]; rfl,
          fun bno outside => by rw [freed_u.view bno outside, view_t]⟩
      exact freed_su.trans freed_w
    · have first : Frame sb s t ∅ (bitmapBlocks sb ∪ {addr}) :=
        fetched.frame.mono Set.subset_union_right
      exact (first.trans (frame_u.mono Set.subset_union_left)).trans
        (frame_w.mono Set.subset_union_left)

/-- The loop over the double indirect block passes over empty entries. -/
theorem freeTables_zero {root : Fin nbuf} (entries : List Nat)
    (empty : ∀ k ∈ entries, getWord (s.bufs root).data k = 0) (bp : Fin nbuf) :
    entries.foldlM (freeTable sb root) (s, bp) = .ok (s, bp) := by
  induction entries with
  | nil => rfl
  | cons k entries ih =>
      rw [List.foldlM_cons, freeTable, if_pos (empty k List.mem_cons_self), Except.ok_bind]
      exact ih fun j mem => empty j (List.mem_cons_of_mem k mem)

/-- The part of `itrunc` for a double indirect block without entries. -/
theorem truncIndirect2_empty {ip : Inode} (good : Good sb s ∅ trusted)
    (ranged : ∀ bno ∈ trusted, InRange sb bno) (trusts : bitmapBlocks sb ⊆ trusted)
    (branch : Branch sb s trusted (ip.addrs indirect2Slot))
    (empty : ∀ k < nindirect, entryOf (s.view sb) (ip.addrs indirect2Slot) k = 0) :
    ∃ t, truncIndirect2 sb s ip = .ok (t, ip.setAddr indirect2Slot 0) ∧
      Good sb t ∅ (trusted \ {ip.addrs indirect2Slot}) ∧
      Freed sb s t (branchBlocks (s.view sb) (ip.addrs indirect2Slot)) := by
  by_cases present : ip.addrs indirect2Slot = 0
  · refine ⟨s, ?_, good.mono fun _ mem => mem.1, ?_⟩
    · rw [truncIndirect2, if_pos present]
      congr 2
      ext1 <;> try rfl
      simp [Inode.setAddr, ← present]
    · rw [present, branchBlocks_zero]
      exact Freed.refl s
  · set addr := ip.addrs indirect2Slot with addr_eq
    obtain ⟨root, t, read, fetched⟩ := bread_spec good unheld_empty (by decide)
    have data_eq := fetched.data addr (branch.trusts present) rfl
    have words : ∀ k ∈ List.range nindirect, getWord (s.view sb addr) k = 0 := by
      intro k mem
      simpa [entryOf, present] using empty k (List.mem_range.mp mem)
    have loop := @freeTables_zero sb t root (List.range nindirect)
      (by rw [data_eq]; exact words) root
    obtain ⟨v, w, released, freed_eq, good_w, freed_w, -⟩ := dropBlock_spec
      (by simpa using fetched.good) ranged trusts fetched.blockno (branch.data present)
      ((used_congr fetched.disk _).trans (branch.marked present))
    refine ⟨w, ?_, good_w, ?_⟩
    · simp only [truncIndirect2, ← addr_eq, present, if_false, read, Except.ok_bind, loop,
        released, freed_eq, Except.pure_eq_ok]
    · have none_at : blocksAt (getWord (s.view sb addr)) (List.range nindirect) = ∅ := by
        ext b
        simp only [blocksAt, Set.mem_ofPred_eq, Set.mem_empty_iff_false, iff_false]
        rintro ⟨nonzero, k, mem, same⟩
        exact nonzero (same ▸ words k mem)
      rw [branchBlocks_eq present, none_at, Set.empty_union]
      exact ⟨fun c c_range => by rw [freed_w.bits c c_range, used_congr fetched.disk],
        fun bno outside => by rw [freed_w.view bno outside, view_congr fetched.disk]⟩

/-! ## The parts that work over any cache -/

/-- The slots outside the double indirect part of the tree. -/
def Slot.Lower : Slot → Prop
  | .addr i => i ≠ indirect2Slot
  | .entry _ => True
  | .table _ => False
  | .leaf _ _ => False

/-- The blocks outside the double indirect part of the tree. -/
def lowerBlocks (view : UInt32 → Bytes) (ip : Inode) : Set UInt32 :=
  {b | b ≠ 0 ∧ ∃ slot : Slot, slot.Lower ∧ slotBlock view ip slot = b}

theorem mem_directSlots {i : Fin 13} : i ∈ directSlots ↔ i ≠ indirectSlot ∧ i ≠ indirect2Slot := by
  revert i
  decide

variable {ip : Inode}

theorem lowerBlocks_eq (view : UInt32 → Bytes) (ip : Inode) :
    blocksAt ip.addrs directSlots ∪ branchBlocks view (ip.addrs indirectSlot) =
      lowerBlocks view ip := by
  ext b
  simp only [blocksAt, branchBlocks, lowerBlocks, Set.mem_union, Set.mem_ofPred_eq,
    ← and_or_left]
  refine and_congr_right fun _ => ?_
  constructor
  · rintro (⟨i, mem, rfl⟩ | rfl | ⟨j, j_lt, rfl⟩)
    · exact ⟨.addr i, (mem_directSlots.mp mem).2, rfl⟩
    · exact ⟨.addr indirectSlot, by simp [Slot.Lower, indirectSlot, indirect2Slot], rfl⟩
    · exact ⟨.entry ⟨j, j_lt⟩, trivial, rfl⟩
  · rintro ⟨slot, lower, rfl⟩
    cases slot with
    | addr i =>
        by_cases same : i = indirectSlot
        · exact Or.inr (Or.inl (by rw [slotBlock, same]))
        · exact Or.inl ⟨i, mem_directSlots.mpr ⟨same, lower⟩, rfl⟩
    | entry j => exact Or.inr (Or.inr ⟨j, j.isLt, rfl⟩)
    | table k => exact lower.elim
    | leaf k j => exact lower.elim

/-- A block of the tree that has not been freed yet, with its entries, can be given up. -/
theorem Branch.of_tree {gone : Set UInt32} (tree : TreeWellFormed sb s ip)
    (freed : Freed sb s t gone) {i : Fin 13} (child : Fin 1024 → Slot)
    (child_eq : ∀ j, slotBlock (s.view sb) ip (child j) = entryOf (s.view sb) (ip.addrs i) j)
    (child_inj : Function.Injective child) (child_ne : ∀ j, child j ≠ .addr i)
    (apart : ∀ slot, (slot = .addr i ∨ ∃ j, slot = child j) →
      slotBlock (s.view sb) ip slot ≠ 0 → slotBlock (s.view sb) ip slot ∉ gone)
    (trusts : ip.addrs i ≠ 0 → ip.addrs i ∈ trusted) :
    Branch sb t trusted (ip.addrs i) := by
  have view_eq : ip.addrs i ≠ 0 → t.view sb (ip.addrs i) = s.view sb (ip.addrs i) :=
    fun present => freed.data (tree.data (.addr i) present)
  have word_eq : ip.addrs i ≠ 0 → ∀ j : Fin 1024, getWord (t.view sb (ip.addrs i)) j =
      slotBlock (s.view sb) ip (child j) := by
    intro present j
    rw [view_eq present, child_eq, entryOf, if_neg present]
  have still_marked : ∀ slot, (slot = .addr i ∨ ∃ j, slot = child j) →
      slotBlock (s.view sb) ip slot ≠ 0 → used sb t (slotBlock (s.view sb) ip slot) = true := by
    intro slot own nonzero
    exact (freed.bits _ (tree.data slot nonzero).inRange).mpr
      ⟨tree.marked slot nonzero, apart slot own nonzero⟩
  refine ⟨tree.data (.addr i), still_marked (.addr i) (Or.inl rfl), trusts, fun present => ?_,
    fun present => ?_⟩
  · refine ⟨List.nodup_range, ?_, ?_, ?_⟩
    · intro j mem nonzero
      have eq := word_eq present ⟨j, List.mem_range.mp mem⟩
      simp only at eq
      rw [eq] at nonzero ⊢
      exact (tree.data _ nonzero).inRange
    · intro j mem nonzero
      have eq := word_eq present ⟨j, List.mem_range.mp mem⟩
      simp only at eq
      rw [eq] at nonzero ⊢
      exact still_marked _ (Or.inr ⟨_, rfl⟩) nonzero
    · intro j mem k k_mem nonzero same
      have eq_j := word_eq present ⟨j, List.mem_range.mp mem⟩
      have eq_k := word_eq present ⟨k, List.mem_range.mp k_mem⟩
      simp only at eq_j eq_k
      rw [eq_j] at nonzero
      rw [eq_j, eq_k] at same
      exact congrArg Fin.val (child_inj (tree.distinct _ _ nonzero same))
  · intro j j_lt same
    have eq := word_eq present ⟨j, j_lt⟩
    simp only at eq
    rw [eq] at same
    exact child_ne ⟨j, j_lt⟩ (tree.distinct _ (.addr i) (by rw [same]; exact present) same)

/-- The inode after the first two parts of `itrunc`. -/
def shorn (ip : Inode) : Inode :=
  { ip with addrs := fun i => if i = indirect2Slot then ip.addrs i else 0 }

/-- Trusted blocks while `itrunc` works on the double indirect part. -/
def trustedUpper (sb : Superblock) (s : State) (ip : Inode) : Set UInt32 :=
  allocated sb s \ {ip.addrs indirectSlot}

theorem allocated_inRange {bno : UInt32} (mem : bno ∈ allocated sb s) : InRange sb bno := by
  obtain below | ⟨in_range, -⟩ := mem
  · exact below.trans_le nmeta_le
  · exact in_range

/-- The first two parts of `itrunc` free the blocks outside the double indirect part. -/
theorem truncLower_spec (idle : Idle sb s) (tree : TreeWellFormed sb s ip) :
    ∃ u t, directSlots.foldlM (freeAddr sb) (s, ip) = .ok u ∧
      truncIndirect sb u.1 u.2 = .ok (t, shorn ip) ∧ Good sb t ∅ (trustedUpper sb s ip) ∧
      Freed sb s t (lowerBlocks (s.view sb) ip) ∧
      Frame sb s t ∅ (bitmapBlocks sb ∪ {ip.addrs indirectSlot}) := by
  have direct : Freeable sb s ip.addrs directSlots := by
    refine ⟨by decide, ?_, ?_, ?_⟩
    · exact fun i _ present => (tree.data (.addr i) present).inRange
    · exact fun i _ present => tree.marked (.addr i) present
    · intro i _ j _ present same
      simpa using tree.distinct (.addr i) (.addr j) present same
  obtain ⟨u, loop, good_u, freed_u, frame_u⟩ := freeAddrs_spec directSlots idle
    bitmapBlocks_subset_allocated bitmapFree_empty (by decide) direct
  set cut : Inode := { ip with addrs := fun i => if i ∈ directSlots then 0 else ip.addrs i }
  have kept : cut.addrs indirectSlot = ip.addrs indirectSlot := by
    simp [cut, mem_directSlots]
  have branch : Branch sb u (allocated sb s) (ip.addrs indirectSlot) := by
    refine Branch.of_tree tree freed_u Slot.entry (fun j => rfl)
      (fun j k same => by simpa using same) (fun j => by simp) ?_ ?_
    · rintro slot own nonzero ⟨-, i, mem, same⟩
      have := tree.distinct slot (.addr i) nonzero same.symm
      subst this
      simp only [Slot.addr.injEq, reduceCtorEq, exists_false, or_false] at own
      exact (mem_directSlots.mp mem).1 own
    · intro present
      exact Or.inr ⟨(tree.data (.addr indirectSlot) present).inRange,
        tree.marked (.addr indirectSlot) present⟩
  obtain ⟨t, part, good_t, freed_t, frame_t⟩ := truncIndirect_spec good_u
    (fun bno mem => allocated_inRange mem) bitmapBlocks_subset_allocated (by rwa [kept])
  rw [kept] at good_t freed_t frame_t
  have cut_eq : cut.setAddr indirectSlot 0 = shorn ip := by
    ext1 <;> try rfl
    funext i
    by_cases same : i = indirectSlot
    · subst same
      simp [Inode.setAddr, shorn, indirectSlot, indirect2Slot]
    · by_cases last : i = indirect2Slot
      · subst last
        simp [Inode.setAddr, shorn, cut, Function.update_of_ne same, mem_directSlots]
      · simp [Inode.setAddr, shorn, cut, same, last, mem_directSlots]
  have branch_view : branchBlocks (u.view sb) (ip.addrs indirectSlot) =
      branchBlocks (s.view sb) (ip.addrs indirectSlot) := by
    by_cases present : ip.addrs indirectSlot = 0
    · rw [present, branchBlocks_zero, branchBlocks_zero]
    · have view_eq : u.view sb (ip.addrs indirectSlot) = s.view sb (ip.addrs indirectSlot) :=
        freed_u.data (tree.data (.addr indirectSlot) present)
      rw [branchBlocks_eq present, branchBlocks_eq present, view_eq]
  refine ⟨(u, cut), t, loop, by rw [part, cut_eq], good_t, ?_,
    (frame_u.mono Set.subset_union_left).trans frame_t⟩
  rw [← lowerBlocks_eq, ← branch_view]
  exact freed_u.trans freed_t

/-- The double indirect block is intact after the first two parts of `itrunc`. -/
theorem Branch.upper (tree : TreeWellFormed sb s ip)
    (freed : Freed sb s t (lowerBlocks (s.view sb) ip)) :
    Branch sb t (trustedUpper sb s ip) (ip.addrs indirect2Slot) := by
  refine Branch.of_tree tree freed Slot.table (fun k => rfl)
    (fun j k same => by simpa using same) (fun k => by simp) ?_ ?_
  · rintro slot own nonzero ⟨-, other, lower, same⟩
    have := tree.distinct slot other nonzero same.symm
    subst this
    obtain rfl | ⟨k, rfl⟩ := own
    · exact lower rfl
    · exact lower
  · intro present
    refine ⟨Or.inr ⟨(tree.data (.addr indirect2Slot) present).inRange,
      tree.marked (.addr indirect2Slot) present⟩, fun same => ?_⟩
    have := tree.distinct (.addr indirect2Slot) (.addr indirectSlot) present same
    simp [indirectSlot, indirect2Slot] at this

/-! ## Over every cache -/

/-- What `itrunc` is meant to leave: exactly the blocks of the tree are marked free, no buffer is
busy, and the inode is empty in memory and on the card. -/
structure Truncated (sb : Superblock) (s : State) (ip : Inode) (t : State) (after : Inode) :
    Prop where
  /-- Exactly the bits of the tree are cleared. -/
  bits : ∀ c, InRange sb c →
    (used sb t c = true ↔ used sb s c = true ∧ c ∉ treeBlocks (s.view sb) ip)
  /-- Every buffer is released. -/
  idle : ∀ b, (t.bufs b).busy = false
  /-- No block number is left. -/
  addrs : after.addrs = fun _ => 0
  /-- The size is zero. -/
  size : after.size = 0
  /-- The card has the same inode. -/
  disk : onDisk sb t ip.inum = after

/-- The last part of `itrunc` stores the emptied inode and keeps the bitmap. -/
theorem iupdate_truncated {trust : Set UInt32} (good : Good sb t ∅ trust)
    (inum_lt : ip.inum.toNat < sb.ninodes.toNat) (trusts : iblock sb ip.inum ∈ trust) :
    ∃ u, iupdate sb t ip = .ok u ∧ (∀ c, InRange sb c → used sb u c = used sb t c) ∧
      (∀ b, (u.bufs b).busy = false) ∧ onDisk sb u ip.inum = ip := by
  obtain ⟨u, update, good_u, disk_u, -⟩ := iupdate_spec good unheld_empty trusts (by decide)
  refine ⟨u, update, ?_, ?_, ?_⟩
  · intro c c_range
    have differ := (iblock_sector_ne inum_lt ⟨c, c_range, rfl⟩).symm
    simp only [used, State.view, disk_u, Function.update_of_ne differ]
  · intro b
    simpa using (good_u.busy_iff b).not.mpr (by simp)
  · rw [onDisk, State.view, disk_u, Function.update_self, loadDinode_storeDinode]

/-- A metadata block is not a block of the tree. -/
theorem TreeWellFormed.ne_of_lt_nmeta (tree : TreeWellFormed sb s ip) {bno : UInt32}
    (nonzero : bno ≠ 0) (below : bno.toNat < sb.nmeta) (i : Fin 13) : bno ≠ ip.addrs i := by
  rintro rfl
  exact absurd (tree.data (.addr i) nonzero).1 (not_le.mpr below)

theorem iblock_ne_zero {inum : UInt32} (inum_lt : inum.toNat < sb.ninodes.toNat) :
    iblock sb inum ≠ 0 := by
  intro zero
  have value := iblock_toNat inum_lt
  have boot := sb.boot_fits
  rw [zero, UInt32.toNat_zero] at value
  omega

theorem bblock_ne_zero {b : UInt32} (b_range : InRange sb b) : bblock sb b ≠ 0 := by
  intro zero
  have value := bblock_toNat b_range
  have boot := sb.boot_fits
  have inodes := sb.inodes_fit
  rw [zero, UInt32.toNat_zero] at value
  omega

theorem bitmapBlocks_subset_trustedUpper (tree : TreeWellFormed sb s ip) :
    bitmapBlocks sb ⊆ trustedUpper sb s ip := by
  rintro bno bitmap
  refine ⟨bitmapBlocks_subset_allocated bitmap, ?_⟩
  obtain ⟨b, b_range, rfl⟩ := bitmap
  exact tree.ne_of_lt_nmeta (bblock_ne_zero b_range) (bblock_lt_nmeta b_range) indirectSlot

theorem iblock_mem_trustedUpper (tree : TreeWellFormed sb s ip) {inum : UInt32}
    (inum_lt : inum.toNat < sb.ninodes.toNat) : iblock sb inum ∈ trustedUpper sb s ip :=
  ⟨iblock_mem_allocated inum_lt,
    tree.ne_of_lt_nmeta (iblock_ne_zero inum_lt) (iblock_lt_nmeta inum_lt) indirectSlot⟩

/-- Without second-level blocks the double indirect block is all there is above the lower part. -/
theorem treeBlocks_of_empty {view : UInt32 → Bytes}
    (empty : ∀ k < nindirect, entryOf view (ip.addrs indirect2Slot) k = 0) :
    treeBlocks view ip =
      lowerBlocks view ip ∪ branchBlocks view (ip.addrs indirect2Slot) := by
  ext b
  simp only [treeBlocks, lowerBlocks, branchBlocks, Set.mem_union, Set.mem_ofPred_eq,
    ← and_or_left]
  refine and_congr_right fun nonzero => ?_
  constructor
  · rintro ⟨slot, rfl⟩
    cases slot with
    | addr i =>
        by_cases same : i = indirect2Slot
        · exact Or.inr (Or.inl (by rw [slotBlock, same]))
        · exact Or.inl ⟨.addr i, same, rfl⟩
    | entry j => exact Or.inl ⟨.entry j, trivial, rfl⟩
    | table k => exact Or.inr (Or.inr ⟨k, k.isLt, rfl⟩)
    | leaf k j =>
        rw [slotBlock, empty k k.isLt, entryOf, if_pos rfl] at nonzero
        exact absurd rfl nonzero
  · rintro (⟨slot, -, eq⟩ | rfl | ⟨k, k_lt, eq⟩)
    · exact ⟨slot, eq⟩
    · exact ⟨.addr indirect2Slot, rfl⟩
    · exact ⟨.table ⟨k, k_lt⟩, eq⟩

/-- Without second-level blocks `itrunc` frees the tree over every cache. -/
theorem itrunc_of_empty (idle : Idle sb s) (tree : TreeWellFormed sb s ip)
    (inum_lt : ip.inum.toNat < sb.ninodes.toNat)
    (empty : ∀ k < nindirect, entryOf (s.view sb) (ip.addrs indirect2Slot) k = 0) :
    ∃ t after, itrunc sb s ip = .ok (t, after) ∧ Truncated sb s ip t after := by
  obtain ⟨u, t, direct, indirect, good_t, freed_t, -⟩ := truncLower_spec idle tree
  have root_eq : (shorn ip).addrs indirect2Slot = ip.addrs indirect2Slot := by simp [shorn]
  have branch := Branch.upper tree freed_t
  have root_view : ip.addrs indirect2Slot ≠ 0 →
      t.view sb (ip.addrs indirect2Slot) = s.view sb (ip.addrs indirect2Slot) :=
    fun present => freed_t.data (tree.data (.addr indirect2Slot) present)
  have entries_eq : ∀ k, entryOf (t.view sb) (ip.addrs indirect2Slot) k =
      entryOf (s.view sb) (ip.addrs indirect2Slot) k := by
    intro k
    by_cases present : ip.addrs indirect2Slot = 0
    · simp [entryOf, present]
    · simp [entryOf, present, root_view present]
  obtain ⟨v, indirect2, good_v, freed_v⟩ := truncIndirect2_empty good_t
    (fun bno mem => allocated_inRange mem.1) (bitmapBlocks_subset_trustedUpper tree)
    (by rwa [root_eq]) (by intro k k_lt; rw [root_eq, entries_eq]; exact empty k k_lt)
  rw [root_eq] at good_v freed_v
  have freed := freed_t.trans freed_v
  set after : Inode := { (shorn ip).setAddr indirect2Slot 0 with size := 0 } with after_eq
  obtain ⟨w, update, bits_w, idle_w, disk_w⟩ := iupdate_truncated good_v
    (show after.inum.toNat < sb.ninodes.toNat from inum_lt)
    ⟨iblock_mem_trustedUpper tree inum_lt,
      (tree.ne_of_lt_nmeta (iblock_ne_zero inum_lt) (iblock_lt_nmeta inum_lt) _)⟩
  refine ⟨w, after, ?_, ?_, idle_w, ?_, rfl, disk_w⟩
  · simp only [itrunc, direct, Except.ok_bind, indirect, indirect2, update, ← after_eq,
      Except.pure_eq_ok]
  · intro c c_range
    rw [bits_w c c_range, freed.bits c c_range, treeBlocks_of_empty empty]
    have branch_eq : branchBlocks (t.view sb) (ip.addrs indirect2Slot) =
        branchBlocks (s.view sb) (ip.addrs indirect2Slot) := by
      simp only [branchBlocks, entries_eq]
    rw [branch_eq]
  · funext i
    by_cases same : i = indirect2Slot
    · subst same
      simp [after_eq, Inode.setAddr]
    · simp [after_eq, Inode.setAddr, shorn, same]

/-! ## Over an empty cache -/

/-- A block that is not cached is read into the buffer that was released last. -/
theorem bread_recycles_released {rb : Fin nbuf} {v : UInt32} (good : Good sb s {rb} trusted)
    (agrees : ∀ bno ∈ trusted, (s.bufs rb).blockno = sb.sector bno →
      (s.bufs rb).data = s.disk (sb.sector bno))
    (uncached : ∀ a, (s.bufs a).dev = rootDev → (s.bufs a).blockno ≠ sb.sector v) :
    ∃ t u, brelse s rb = .ok t ∧ (t.bufs rb).data = (s.bufs rb).data ∧
      bread sb t v = .ok (rb, u) ∧ Good sb u {rb} trusted ∧ u.disk = s.disk ∧
      (u.bufs rb).data = s.disk (sb.sector v) ∧ (u.bufs rb).blockno = sb.sector v := by
  obtain ⟨t, released, good_t, disk_t, bufs_t, clink_t⟩ :=
    brelse_spec good (Finset.mem_singleton_self rb) agrees
  rw [Finset.erase_singleton] at good_t
  have uncached_t : ∀ a, (t.bufs a).dev = rootDev → (t.bufs a).blockno ≠ sb.sector v := by
    intro a
    by_cases same : a = rb
    · subst same
      simpa [bufs_t] using uncached a
    · simpa [bufs_t, Function.update_of_ne same] using uncached a
  have found : t.clink.reverse.find? (fun b => !(t.bufs b).busy && !(t.bufs b).dirty) =
      some rb := by
    rw [clink_t, List.reverse_append, List.reverse_singleton, List.singleton_append,
      List.find?_cons_of_pos]
    simp [bufs_t, good.clean rb]
  refine ⟨t, _, released, by simp [bufs_t], bread_of_uncached uncached_t found, ?_, disk_t,
    by simp [disk_t], by simp⟩
  have acquired := @Good.acquire sb t ∅ trusted good_t rb v (t.disk (sb.sector v))
    fun a _ root => uncached_t a root
  simpa using acquired

/-- When a second-level block is read into the buffer of the double indirect block, its number is
lost: `itrunc` frees block `0` in its place, or panics. -/
theorem freeTable_aliased {rb : Fin nbuf} {v : UInt32} {k : Nat} (k_lt : k < nindirect)
    (good : Good sb s {rb} trusted) (trusts : bitmapBlocks sb ⊆ trusted)
    (agrees : ∀ bno ∈ trusted, (s.bufs rb).blockno = sb.sector bno →
      (s.bufs rb).data = s.disk (sb.sector bno))
    (word : getWord (s.bufs rb).data k = v) (present : v ≠ 0) (data : IsData sb v)
    (uncached : ∀ a, (s.bufs a).dev = rootDev → (s.bufs a).blockno ≠ sb.sector v)
    (freeable : Freeable sb s (getWord (s.view sb v)) (List.range nindirect)) :
    freeTable sb rb (s, rb) k = .error .freeingFreeBlock ∨
    ∃ t, freeTable sb rb (s, rb) k = .ok (t, rb) ∧ used sb s 0 = true ∧ Good sb t {rb} trusted ∧
      Freed sb s t (blocksAt (getWord (s.view sb v)) (List.range nindirect) ∪ {0}) ∧
      (t.bufs rb).blockno = sb.sector v ∧ ∀ j < nindirect, getWord (t.bufs rb).data j = 0 := by
  obtain ⟨t, u, released, data_t, read, good_u, disk_u, data_u, block_u⟩ :=
    bread_recycles_released good agrees uncached
  have mem := Finset.mem_singleton_self rb
  have free_u : BitmapFree sb u {rb} := by
    intro bno bitmap a a_mem
    obtain rfl := Finset.mem_singleton.mp a_mem
    rw [block_u]
    exact data.sector_ne bitmap
  have freeable_u : Freeable sb u (getWord (u.bufs rb).data) (List.range nindirect) := by
    rw [data_u]
    exact ⟨freeable.nodup, freeable.inRange,
      fun j j_mem nonzero => (used_congr disk_u _).trans (freeable.marked j j_mem nonzero),
      freeable.distinct⟩
  obtain ⟨w, loop, good_w, freed_w, block_w, words, frame_w⟩ := freeEntries_spec
    (List.range nindirect) (Finset.notMem_empty rb) (by simpa using good_u) trusts
    (by simpa using free_u) ((Finset.card_insert_le _ _).trans_lt (by decide)) freeable_u
  rw [Finset.insert_empty] at good_w
  have zeros_w : ∀ j < nindirect, getWord (w.bufs rb).data j = 0 := by
    intro j j_lt
    rw [words j, if_pos (List.mem_range.mpr j_lt)]
  have free_w : BitmapFree sb w {rb} := by
    intro bno bitmap a a_mem
    obtain rfl := Finset.mem_singleton.mp a_mem
    rw [block_w]
    exact free_u bno bitmap a mem
  have zero_range : InRange sb 0 := by
    have upper := data.2
    simp only [InRange, UInt32.toNat_zero]
    omega
  have freed_sw : Freed sb s w (blocksAt (getWord (s.view sb v)) (List.range nindirect)) := by
    rw [data_u] at freed_w
    exact ⟨fun c c_range => by rw [freed_w.bits c c_range, used_congr disk_u]; rfl,
      fun bno outside => by rw [freed_w.view bno outside, view_congr disk_u]⟩
  have pass : freeTable sb rb (s, rb) k = (bfree sb w 0 >>= fun x =>
      .ok (x.setData rb (setWord (x.bufs rb).data k 0), rb)) := by
    simp only [freeTable, word, present, if_false, released, Except.ok_bind, data_t, read, loop,
      zeros_w k k_lt, Except.pure_eq_ok]
  cases marked : used sb w 0 with
  | false =>
      left
      have error := bfree_error good_w trusts free_w (card_singleton_lt rb) zero_range marked
      rw [pass, error, Except.error_bind]
  | true =>
      right
      obtain ⟨x, freed_eq, good_x, freed_x, frame_x⟩ :=
        bfree_spec good_w trusts free_w (card_singleton_lt rb) zero_range marked
      have buf_x := frame_x.bufs rb mem
      have freed_sx := freed_sw.trans freed_x
      refine ⟨_, by rw [pass, freed_eq, Except.ok_bind],
        ((freed_sw.bits 0 zero_range).mp marked).1, good_x.setData mem _,
        ⟨freed_sx.bits, freed_sx.view⟩, ?_, ?_⟩
      · simp [buf_x, block_w, block_u]
      · intro j j_lt
        rw [State.setData_bufs, Function.update_self, getWord_setWord, buf_x, zeros_w j j_lt,
          ite_self]

/-- The leaves of a second-level block can be freed after the lower part of the tree. -/
theorem freeable_leaves (tree : TreeWellFormed sb s ip)
    (freed : Freed sb s t (lowerBlocks (s.view sb) ip)) (k : Fin 1024)
    (present : slotBlock (s.view sb) ip (.table k) ≠ 0) :
    Freeable sb t (getWord (s.view sb (slotBlock (s.view sb) ip (.table k))))
      (List.range nindirect) := by
  have word_eq : ∀ j : Fin 1024, getWord (s.view sb (slotBlock (s.view sb) ip (.table k))) j =
      slotBlock (s.view sb) ip (.leaf k j) := by
    intro j
    exact (entryOf_of_ne present).symm
  refine ⟨List.nodup_range, ?_, ?_, ?_⟩
  · intro j mem nonzero
    have eq := word_eq ⟨j, List.mem_range.mp mem⟩
    simp only at eq
    rw [eq] at nonzero ⊢
    exact (tree.data _ nonzero).inRange
  · intro j mem nonzero
    have eq := word_eq ⟨j, List.mem_range.mp mem⟩
    simp only at eq
    rw [eq] at nonzero ⊢
    refine (freed.bits _ (tree.data _ nonzero).inRange).mpr ⟨tree.marked _ nonzero, ?_⟩
    rintro ⟨-, other, lower, same⟩
    have := tree.distinct _ other nonzero same.symm
    subst this
    exact lower
  · intro j mem l l_mem nonzero same
    have eq_j := word_eq ⟨j, List.mem_range.mp mem⟩
    have eq_l := word_eq ⟨l, List.mem_range.mp l_mem⟩
    simp only at eq_j eq_l
    rw [eq_j] at nonzero
    rw [eq_j, eq_l] at same
    simpa using tree.distinct _ _ nonzero same

/-- The first entry of a list of words that is not zero. -/
theorem first_entry {word : Nat → UInt32} {entries : List Nat} {k : Nat} (mem : k ∈ entries)
    (present : word k ≠ 0) :
    ∃ before first after, entries = before ++ first :: after ∧ word first ≠ 0 ∧
      ∀ j ∈ before, word j = 0 := by
  have found : (entries.find? fun j => word j != 0).isSome := by
    rw [List.find?_isSome]
    exact ⟨k, mem, by simpa using present⟩
  obtain ⟨first, found⟩ := Option.isSome_iff_exists.mp found
  obtain ⟨nonzero, before, after, split, zeros⟩ := List.find?_eq_some_iff_append.mp found
  exact ⟨before, first, after, split, by simpa using nonzero,
    fun j j_mem => by simpa using zeros j j_mem⟩

/-- Over an empty cache a double indirect block with an entry makes `itrunc` free block `0`, or
panic. -/
theorem itrunc_cold (idle : Idle sb s) (cold : ∀ b, (s.bufs b).dev ≠ rootDev)
    (tree : TreeWellFormed sb s ip) (inum_lt : ip.inum.toNat < sb.ninodes.toNat) {k : Nat}
    (k_lt : k < nindirect) (entry : entryOf (s.view sb) (ip.addrs indirect2Slot) k ≠ 0) :
    ¬∃ t after, itrunc sb s ip = .ok (t, after) ∧ Truncated sb s ip t after := by
  have present : ip.addrs indirect2Slot ≠ 0 := by
    intro zero
    simp [entryOf, zero] at entry
  obtain ⟨u, t, direct, indirect, good_t, freed_t, frame_t⟩ :=
    truncLower_spec idle tree
  have branch := Branch.upper tree freed_t
  have trusts := bitmapBlocks_subset_trustedUpper tree
  set root := ip.addrs indirect2Slot with root_eq
  have root_data : IsData sb root := branch.data present
  obtain ⟨rb, v, read, fetched⟩ := @bread_spec sb t ∅ _ good_t root unheld_empty (by decide)
  have good_v : Good sb v {rb} (trustedUpper sb s ip) := by simpa using fetched.good
  have view_root : t.view sb root = s.view sb root := freed_t.data root_data
  have data_v : (v.bufs rb).data = s.view sb root := by
    rw [fetched.data root (branch.trusts present) rfl, ← view_root]
    rfl
  rw [entryOf, if_neg present, ← data_v] at entry
  obtain ⟨before, first, after, split, nonzero, empty⟩ :=
    first_entry (List.mem_range.mpr k_lt) entry
  have first_lt : first < nindirect := by
    rw [← List.mem_range, split]
    simp
  have slot_eq : getWord (v.bufs rb).data first =
      slotBlock (s.view sb) ip (.table ⟨first, first_lt⟩) := by
    rw [data_v, slotBlock, entryOf, ← root_eq, if_neg present]
  have table_present : slotBlock (s.view sb) ip (.table ⟨first, first_lt⟩) ≠ 0 := slot_eq ▸ nonzero
  have table_data := tree.data _ table_present
  have freed_v : Freed sb s v (lowerBlocks (s.view sb) ip) :=
    ⟨fun c c_range => by rw [used_congr fetched.disk, freed_t.bits c c_range],
      fun bno outside => by rw [view_congr fetched.disk, freed_t.view bno outside]⟩
  set tbl := slotBlock (s.view sb) ip (.table ⟨first, first_lt⟩) with tbl_eq
  have addr_ne : ∀ i, sb.sector (ip.addrs i) ≠ sb.sector tbl := by
    intro i same
    have addr_lt : (ip.addrs i).toNat < 2 ^ 29 := by
      by_cases zero : ip.addrs i = 0
      · simp [zero]
      · exact (tree.data (.addr i) zero).inRange.lt
    have eq := Superblock.sector_inj addr_lt table_data.inRange.lt same
    have := tree.distinct _ (.addr i) table_present eq.symm
    simp at this
  have uncached : ∀ a, (v.bufs a).dev = rootDev → (v.bufs a).blockno ≠ sb.sector tbl := by
    intro a root_dev same
    obtain ⟨dev_t, block_t⟩ | ⟨bno, bno_eq, eq⟩ := fetched.frame.keys a root_dev
    · obtain ⟨dev_s, -⟩ | ⟨bno, bitmap | bno_eq, eq⟩ := frame_t.keys a dev_t
      · exact cold a dev_s
      · exact table_data.sector_ne bitmap (same.symm.trans (block_t.trans eq))
      · obtain rfl : bno = ip.addrs indirectSlot := bno_eq
        exact addr_ne _ ((block_t.trans eq).symm.trans same)
    · obtain rfl : bno = root := bno_eq
      exact addr_ne _ (eq.symm.trans same)
  have agrees : ∀ bno ∈ trustedUpper sb s ip, (v.bufs rb).blockno = sb.sector bno →
      (v.bufs rb).data = v.disk (sb.sector bno) := by
    intro bno mem same
    rw [fetched.blockno] at same
    rw [fetched.data bno mem same, fetched.disk, same]
  have leaves := freeable_leaves tree freed_v ⟨first, first_lt⟩ table_present
  rw [← tbl_eq, ← freed_v.data table_data] at leaves
  have loop : (List.range nindirect).foldlM (freeTable sb rb) (v, rb) =
      (freeTable sb rb (v, rb) first >>= fun p => after.foldlM (freeTable sb rb) p) := by
    rw [split, List.foldlM_append, freeTables_zero before empty rb, Except.ok_bind,
      List.foldlM_cons]
  have run : itrunc sb s ip = (do
      let p ← freeTable sb rb (v, rb) first
      let q ← after.foldlM (freeTable sb rb) p
      let x ← brelse q.1 q.2
      let y ← bfree sb x root
      let z ← iupdate sb y { (shorn ip).setAddr indirect2Slot 0 with size := 0 }
      return (z, { (shorn ip).setAddr indirect2Slot 0 with size := 0 })) := by
    have shorn_root : (shorn ip).addrs indirect2Slot = root := by simp [shorn, root_eq]
    simp only [itrunc, direct, Except.ok_bind, indirect, truncIndirect2, shorn_root, present,
      if_false, read, loop, bind_assoc, Except.pure_eq_ok]
  rintro ⟨last, result, run_eq, truncated⟩
  obtain panic | ⟨x, pass, zero_used, good_x, freed_x, block_x, words_x⟩ :=
    freeTable_aliased first_lt good_v trusts agrees slot_eq table_present table_data uncached leaves
  · rw [run, panic, Except.error_bind] at run_eq
    simp at run_eq
  · have rest := @freeTables_zero sb x rb after (by
      intro j mem
      refine words_x j ?_
      rw [← List.mem_range, split]
      simp [mem]) rb
    have fewer : Good sb x {rb} (trustedUpper sb s ip \ {tbl}) := good_x.mono fun _ mem => mem.1
    obtain ⟨y, released, good_y, disk_y, -, -⟩ :=
      brelse_spec fewer (Finset.mem_singleton_self rb) (by
        rintro bno ⟨bno_mem, differ⟩ same
        rw [block_x] at same
        exact absurd (Superblock.sector_inj table_data.inRange.lt
          (allocated_inRange bno_mem.1).lt same).symm differ)
    rw [Finset.erase_singleton] at good_y
    have trusts_y : bitmapBlocks sb ⊆ trustedUpper sb s ip \ {tbl} := by
      intro bno bitmap
      refine ⟨trusts bitmap, ?_⟩
      rintro rfl
      exact table_data.sector_ne bitmap rfl
    have root_marked : used sb y root = true := by
      rw [used_congr disk_y, freed_x.bits root root_data.inRange]
      refine ⟨?_, ?_⟩
      · rw [used_congr fetched.disk]
        exact branch.marked present
      · rintro (⟨-, j, mem, same⟩ | zero)
        · rw [freed_v.data table_data] at same
          have leaf_eq : slotBlock (s.view sb) ip
              (.leaf ⟨first, first_lt⟩ ⟨j, List.mem_range.mp mem⟩) = root := by
            rw [← same]
            exact entryOf_of_ne table_present
          have := tree.distinct _ (.addr indirect2Slot) (leaf_eq ▸ present) leaf_eq
          simp at this
        · exact present zero
    obtain ⟨z, freed_eq, good_z, freed_z, -⟩ := bfree_spec good_y trusts_y bitmapFree_empty
      (by decide) root_data.inRange root_marked
    set after : Inode := { (shorn ip).setAddr indirect2Slot 0 with size := 0 }
    obtain ⟨w, update, bits_w, -, -⟩ := iupdate_truncated good_z
      (show after.inum.toNat < sb.ninodes.toNat from inum_lt)
      ⟨iblock_mem_trustedUpper tree inum_lt, fun same => by
        have below := iblock_lt_nmeta inum_lt
        rw [show iblock sb ip.inum = tbl from same] at below
        exact absurd table_data.1 (not_le.mpr below)⟩
    rw [run, pass, Except.ok_bind, rest, Except.ok_bind, released, Except.ok_bind, freed_eq,
      Except.ok_bind, update, Except.ok_bind, Except.pure_eq_ok, Except.ok.injEq,
      Prod.mk.injEq] at run_eq
    obtain ⟨rfl, -⟩ := run_eq
    have zero_range : InRange sb 0 := by
      have upper := root_data.2
      simp only [InRange, UInt32.toNat_zero]
      omega
    have kept := (truncated.bits 0 zero_range).mpr
      ⟨((freed_v.bits 0 zero_range).mp zero_used).1, fun tree_zero => tree_zero.1 rfl⟩
    rw [bits_w 0 zero_range, freed_z.bits 0 zero_range, used_congr disk_y,
      freed_x.bits 0 zero_range] at kept
    exact kept.1.2 (Or.inr rfl)

/-- `itrunc` frees exactly the tree of a well-formed inode over every cache if and only if the
double indirect block, when there is one, names no second-level block. -/
theorem itrunc_iff_no_table (sb : Superblock) (disk : UInt32 → Bytes) (ip : Inode)
    (tree : TreeWellFormed sb (binit disk) ip) (inum_lt : ip.inum.toNat < sb.ninodes.toNat) :
    (∀ s : State, s.disk = disk → Idle sb s →
      ∃ t after, itrunc sb s ip = .ok (t, after) ∧ Truncated sb s ip t after) ↔
    (ip.addrs indirect2Slot = 0 ∨
      ∀ k < nindirect, getWord (disk (sb.sector (ip.addrs indirect2Slot))) k = 0) := by
  have entry_iff : (ip.addrs indirect2Slot = 0 ∨
      ∀ k < nindirect, getWord (disk (sb.sector (ip.addrs indirect2Slot))) k = 0) ↔
      ∀ k < nindirect, entryOf ((binit disk).view sb) (ip.addrs indirect2Slot) k = 0 := by
    by_cases present : ip.addrs indirect2Slot = 0
    · simp [entryOf, present]
    · simp only [present, false_or, entryOf_of_ne present]
      rfl
  rw [entry_iff]
  constructor
  · intro works k k_lt
    by_contra entry
    exact itrunc_cold (idle_binit disk) (fun _ => by simp [binit, rootDev]) tree inum_lt k_lt entry
      (works (binit disk) rfl (idle_binit disk))
  · rintro empty s rfl idle
    refine itrunc_of_empty idle (tree.congr rfl) inum_lt ?_
    exact empty

/-! ## A file of four megabytes -/

/-- A card on which inode `2` is a file of 1036 blocks, the last of them below the double indirect
block 1078, and on which every block is marked used. -/
def bigImage (bno : UInt32) : Bytes :=
  if bno = 53 then ofWords fun j => UInt32.ofNat (54 + j)
  else if bno = 1078 then ofWords fun k => if k = 0 then 1079 else 0
  else if bno = 1079 then ofWords fun j => if j = 0 then 1080 else 0
  else if 38 ≤ bno.toNat ∧ bno.toNat < 42 then ones
  else zeros

/-- The inode of a file without indirect blocks, and of the whole file. -/
def sampleInode (big : Bool) : Inode where
  inum := 2
  type := 2
  major := 0
  minor := 0
  nlink := 1
  size := if big then 1036 * 4096 else 11 * 4096
  mode := 0o100644
  uid := 0
  gid := 0
  atime := ⟨0, 0⟩
  mtime := ⟨0, 0⟩
  ctime := ⟨0, 0⟩
  addrs i := if i.val < 11 then UInt32.ofNat (42 + i.val)
    else if big then if i.val = 11 then 53 else 1078
    else 0

/-- The block numbers of the sample files by slot. -/
def sampleBlock (big : Bool) : Slot → Nat
  | .addr i => if i.val < 11 then 42 + i.val
      else if big then if i.val = 11 then 53 else 1078
      else 0
  | .entry j => if big then 54 + j else 0
  | .table k => if big ∧ k.val = 0 then 1079 else 0
  | .leaf k j => if big ∧ k.val = 0 ∧ j.val = 0 then 1080 else 0

theorem view_bigImage {bno : UInt32} (bno_lt : bno.toNat < 2 ^ 29) :
    (binit (diskOf mkfsSuper bigImage)).view mkfsSuper bno = bigImage bno :=
  view_diskOf bigImage bno_lt rfl

theorem slotBlock_sample (big : Bool) (slot : Slot) :
    slotBlock ((binit (diskOf mkfsSuper bigImage)).view mkfsSuper) (sampleInode big) slot =
      UInt32.ofNat (sampleBlock big slot) := by
  have view_53 := @view_bigImage 53 (by decide)
  have view_1078 := @view_bigImage 1078 (by decide)
  have view_1079 := @view_bigImage 1079 (by decide)
  cases slot with
  | addr i =>
      simp only [slotBlock, sampleInode, sampleBlock]
      split_ifs <;> rfl
  | entry j =>
      cases big <;>
        simp [slotBlock, sampleInode, sampleBlock, indirectSlot, entryOf, view_53, bigImage]
  | table k =>
      cases big with
      | false => simp [slotBlock, sampleInode, sampleBlock, indirect2Slot, entryOf]
      | true =>
          by_cases zero : k.val = 0 <;>
            simp [slotBlock, sampleInode, sampleBlock, indirect2Slot, entryOf,
              view_1078, bigImage, zero]
  | leaf k j =>
      cases big with
      | false => simp [slotBlock, sampleInode, sampleBlock, indirect2Slot, entryOf]
      | true =>
          by_cases zero : k.val = 0 <;> by_cases zero_j : j.val = 0 <;>
            simp [slotBlock, sampleInode, sampleBlock, indirect2Slot, entryOf,
              view_1078, view_1079, bigImage, zero, zero_j]

theorem sampleBlock_lt (big : Bool) (slot : Slot) : sampleBlock big slot < 1081 := by
  cases slot <;> simp only [sampleBlock] <;> split_ifs <;> omega

theorem sampleBlock_ge (big : Bool) (slot : Slot) (present : sampleBlock big slot ≠ 0) :
    42 ≤ sampleBlock big slot := by
  cases slot <;> simp only [sampleBlock] at present ⊢ <;> split_ifs at present ⊢ <;> omega

theorem sampleBlock_inj (big : Bool) (left right : Slot) (present : sampleBlock big left ≠ 0)
    (same : sampleBlock big left = sampleBlock big right) : left = right := by
  rcases left with ⟨i, i_lt⟩ | ⟨j, j_lt⟩ | ⟨k, k_lt⟩ | ⟨⟨k, k_lt⟩, ⟨j, j_lt⟩⟩ <;>
    rcases right with ⟨i', i_lt'⟩ | ⟨j', j_lt'⟩ | ⟨k', k_lt'⟩ | ⟨⟨k', k_lt'⟩, ⟨j', j_lt'⟩⟩ <;>
    simp only [sampleBlock] at present same <;> split_ifs at present same <;>
    simp only [Slot.addr.injEq, Slot.entry.injEq, Slot.table.injEq, Slot.leaf.injEq,
      Fin.mk.injEq, reduceCtorEq] <;>
    omega

theorem sample_wellFormed (big : Bool) :
    TreeWellFormed mkfsSuper (binit (diskOf mkfsSuper bigImage)) (sampleInode big) := by
  have value : ∀ slot, (UInt32.ofNat (sampleBlock big slot)).toNat = sampleBlock big slot := by
    intro slot
    have := sampleBlock_lt big slot
    rw [UInt32.toNat_ofNat', Nat.mod_eq_of_lt (by omega)]
  have nonzero : ∀ slot, UInt32.ofNat (sampleBlock big slot) ≠ 0 → sampleBlock big slot ≠ 0 := by
    intro slot present zero
    exact present (by rw [zero]; rfl)
  have data : ∀ slot, UInt32.ofNat (sampleBlock big slot) ≠ 0 →
      IsData mkfsSuper (UInt32.ofNat (sampleBlock big slot)) := by
    intro slot present
    rw [IsData, value slot, show mkfsSuper.nmeta = 42 from rfl,
      show mkfsSuper.size.toNat = 102400 from rfl]
    exact ⟨sampleBlock_ge big slot (nonzero slot present),
      (sampleBlock_lt big slot).trans (by norm_num)⟩
  refine ⟨?_, ?_, ?_⟩
  · intro slot
    rw [slotBlock_sample]
    exact data slot
  · intro slot
    rw [slotBlock_sample]
    intro present
    have in_range := (data slot present).inRange
    have block := bblock_toNat in_range
    have upper := in_range
    rw [InRange, show mkfsSuper.size.toNat = 102400 from rfl] at upper
    rw [show mkfsSuper.bmapstart.toNat = 38 from rfl] at block
    have in_bitmap : 38 ≤ (bblock mkfsSuper (UInt32.ofNat (sampleBlock big slot))).toNat ∧
        (bblock mkfsSuper (UInt32.ofNat (sampleBlock big slot))).toNat < 42 := by
      omega
    have apart : ∀ c : UInt32, 42 ≤ c.toNat →
        bblock mkfsSuper (UInt32.ofNat (sampleBlock big slot)) ≠ c := by
      rintro c lower rfl
      omega
    rw [used, view_bigImage (bblock_inRange in_range).lt, bigImage, if_neg (apart _ (by decide)),
      if_neg (apart _ (by decide)), if_neg (apart _ (by decide)), if_pos in_bitmap, getBit_ones]
  · intro left right
    rw [slotBlock_sample, slotBlock_sample]
    intro present same
    refine sampleBlock_inj big left right (nonzero left present) ?_
    rw [← value left, ← value right, same]

/-- A file of direct blocks is truncated over the cache that `binit` leaves. -/
theorem small_file_truncated :
    TreeWellFormed mkfsSuper (binit (diskOf mkfsSuper bigImage)) (sampleInode false) ∧
      ∃ t after, itrunc mkfsSuper (binit (diskOf mkfsSuper bigImage)) (sampleInode false) =
          .ok (t, after) ∧
        Truncated mkfsSuper (binit (diskOf mkfsSuper bigImage)) (sampleInode false) t after := by
  have tree := sample_wellFormed false
  refine ⟨tree, ?_⟩
  exact (itrunc_iff_no_table mkfsSuper _ (sampleInode false) tree (by decide)).mpr
    (Or.inl (by decide)) _ rfl (idle_binit _)

/-- A file of 1036 blocks is not truncated over the cache that `binit` leaves. -/
theorem big_file_not_truncated :
    Idle mkfsSuper (binit (diskOf mkfsSuper bigImage)) ∧
      TreeWellFormed mkfsSuper (binit (diskOf mkfsSuper bigImage)) (sampleInode true) ∧
      ¬∃ t after, itrunc mkfsSuper (binit (diskOf mkfsSuper bigImage)) (sampleInode true) =
          .ok (t, after) ∧
        Truncated mkfsSuper (binit (diskOf mkfsSuper bigImage)) (sampleInode true) t after := by
  refine ⟨idle_binit _, sample_wellFormed true, ?_⟩
  refine itrunc_cold (idle_binit _) (fun _ => by simp [binit, rootDev]) (sample_wellFormed true)
    (by decide) (k := 0) (by decide) ?_
  have table := slotBlock_sample true (.table 0)
  simp only [slotBlock] at table
  rw [show ((0 : Fin 1024) : Nat) = 0 from rfl] at table
  rw [table]
  decide

end Fs
end Xv6Duo
