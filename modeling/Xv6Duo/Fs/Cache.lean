import Xv6Duo.Fs.Bio

/-!
# Invariant of the buffer cache

A running call keeps a set of buffers busy and relies on the cache for a set of trusted blocks: a
valid buffer of a trusted block that nobody keeps busy has the bytes of the card. The content of
the busy buffers is up to the call. Under this invariant reading, writing and releasing a buffer
never fault, whatever else is cached and in whichever order.
-/

namespace Xv6Duo
namespace Fs

open ByteBlock

variable {sb : Superblock}

theorem Superblock.sector_inj {left right : UInt32} (left_lt : left.toNat < 2 ^ 29)
    (right_lt : right.toNat < 2 ^ 29) (same : sb.sector left = sb.sector right) :
    left = right := by
  apply UInt32.toNat_inj.mp
  have products : left * blkSect = right * blkSect := by
    simpa only [Superblock.sector, UInt32.add_right_inj] using same
  have values := congrArg UInt32.toNat products
  rw [UInt32.toNat_mul, UInt32.toNat_mul, show blkSect.toNat = 8 from rfl] at values
  omega

variable (sb) in
/-- The cache while a call keeps the buffers `held` and relies on the blocks `trusted`. -/
structure Good (s : State) (held : Finset (Fin nbuf)) (trusted : Set UInt32) : Prop where
  /-- The list has no repetitions. -/
  nodup : s.clink.Nodup
  /-- Every buffer is on the list. -/
  complete : ∀ b, b ∈ s.clink
  /-- Nothing waits to be written. -/
  clean : ∀ b, (s.bufs b).dirty = false
  /-- The busy buffers are the held ones. -/
  busy_iff : ∀ b, (s.bufs b).busy = true ↔ b ∈ held
  /-- Held buffers cache a block of the root device. -/
  held_dev : ∀ b ∈ held, (s.bufs b).dev = rootDev
  /-- Held buffers are filled. -/
  held_valid : ∀ b ∈ held, (s.bufs b).valid = true
  /-- A block is cached once. -/
  unique : ∀ a b, (s.bufs a).dev = rootDev → (s.bufs b).dev = rootDev →
    (s.bufs a).blockno = (s.bufs b).blockno → a = b
  /-- Trusted blocks are cached as they are on the card. -/
  coherent : ∀ b ∉ held, (s.bufs b).dev = rootDev → (s.bufs b).valid = true →
    ∀ bno ∈ trusted, (s.bufs b).blockno = sb.sector bno → (s.bufs b).data = s.disk (sb.sector bno)

/-- No held buffer caches the block. -/
def Unheld (s : State) (held : Finset (Fin nbuf)) (sector : UInt32) : Prop :=
  ∀ b ∈ held, (s.bufs b).blockno ≠ sector

variable (sb) in
/-- What an operation leaves alone: the held buffers, and all cached keys except those of the
blocks it touches. -/
structure Frame (s t : State) (held : Finset (Fin nbuf)) (touched : Set UInt32) : Prop where
  /-- Held buffers are as before. -/
  bufs : ∀ b ∈ held, t.bufs b = s.bufs b
  /-- A cached block was cached in the same buffer or is touched. -/
  keys : ∀ b, (t.bufs b).dev = rootDev →
    ((s.bufs b).dev = rootDev ∧ (t.bufs b).blockno = (s.bufs b).blockno) ∨
      ∃ bno ∈ touched, (t.bufs b).blockno = sb.sector bno

namespace Frame

variable {s t u : State} {held : Finset (Fin nbuf)} {touched larger : Set UInt32}

theorem refl (s : State) (held : Finset (Fin nbuf)) (touched : Set UInt32) :
    Frame sb s s held touched :=
  ⟨fun _ _ => rfl, fun _ root => Or.inl ⟨root, rfl⟩⟩

theorem trans (first : Frame sb s t held touched) (second : Frame sb t u held touched) :
    Frame sb s u held touched where
  bufs b mem := (second.bufs b mem).trans (first.bufs b mem)
  keys b root := by
    obtain ⟨root_t, same⟩ | new := second.keys b root
    · obtain ⟨root_s, same_s⟩ | ⟨bno, mem, new⟩ := first.keys b root_t
      · exact Or.inl ⟨root_s, same.trans same_s⟩
      · exact Or.inr ⟨bno, mem, same.trans new⟩
    · exact Or.inr new

theorem mono (frame : Frame sb s t held touched) (subset : touched ⊆ larger) :
    Frame sb s t held larger where
  bufs := frame.bufs
  keys b root := (frame.keys b root).imp_right fun ⟨bno, mem, eq⟩ => ⟨bno, subset mem, eq⟩

theorem unheld (frame : Frame sb s t held touched) {sector : UInt32}
    (free : Unheld s held sector) : Unheld t held sector := by
  intro b mem
  rw [frame.bufs b mem]
  exact free b mem

theorem of_subset {few : Finset (Fin nbuf)} (frame : Frame sb s t held touched)
    (subset : few ⊆ held) : Frame sb s t few touched :=
  ⟨fun b mem => frame.bufs b (subset mem), frame.keys⟩

end Frame

namespace Good

variable {s : State} {held : Finset (Fin nbuf)} {trusted : Set UInt32}

/-- Trusting fewer blocks asks less of the cache. -/
theorem mono (good : Good sb s held trusted) {fewer : Set UInt32}
    (subset : ∀ bno ∈ fewer, bno ∈ trusted) : Good sb s held fewer :=
  { good with
    coherent := fun b outside root valid bno mem =>
      good.coherent b outside root valid bno (subset bno mem) }

/-- Filling a buffer with a block that is cached nowhere else takes it into the held ones. -/
theorem acquire (good : Good sb s held trusted) {b : Fin nbuf} {bno : UInt32} {data : Bytes}
    (alone : ∀ a, a ≠ b → (s.bufs a).dev = rootDev → (s.bufs a).blockno ≠ sb.sector bno) :
    Good sb (s.setBuf b ⟨true, true, false, rootDev, sb.sector bno, data⟩) (insert b held)
      trusted where
  nodup := good.nodup
  complete := good.complete
  clean a := by
    by_cases same : a = b
    · subst same
      simp
    · simpa [Function.update_of_ne same] using good.clean a
  busy_iff a := by
    by_cases same : a = b
    · subst same
      simp
    · simpa [Function.update_of_ne same, same] using good.busy_iff a
  held_dev a mem := by
    by_cases same : a = b
    · subst same
      simp
    · rw [Finset.mem_insert] at mem
      simpa [Function.update_of_ne same] using good.held_dev a (mem.resolve_left same)
  held_valid a mem := by
    by_cases same : a = b
    · subst same
      simp
    · rw [Finset.mem_insert] at mem
      simpa [Function.update_of_ne same] using good.held_valid a (mem.resolve_left same)
  unique a c root_a root_c same_block := by
    by_cases same_a : a = b
    · subst same_a
      by_contra differ
      simp only [State.setBuf_bufs, Function.update_self,
        Function.update_of_ne (Ne.symm differ)] at root_c same_block
      exact alone c (Ne.symm differ) root_c same_block.symm
    · by_cases same_c : c = b
      · subst same_c
        simp only [State.setBuf_bufs, Function.update_self,
          Function.update_of_ne same_a] at root_a same_block
        exact absurd same_block (alone a same_a root_a)
      · simp only [State.setBuf_bufs, Function.update_of_ne same_a,
          Function.update_of_ne same_c] at root_a root_c same_block
        exact good.unique a c root_a root_c same_block
  coherent a outside root valid block mem block_eq := by
    rw [Finset.mem_insert, not_or] at outside
    simp only [State.setBuf_bufs, Function.update_of_ne outside.1, State.setBuf_disk]
      at root valid block_eq ⊢
    exact good.coherent a outside.2 root valid block mem block_eq

/-- Storing bytes in a held buffer. -/
theorem setData (good : Good sb s held trusted) {b : Fin nbuf} (mem : b ∈ held) (data : Bytes) :
    Good sb (s.setData b data) held trusted := by
  have others : ∀ a, ((s.setData b data).bufs a).busy = (s.bufs a).busy ∧
      ((s.setData b data).bufs a).valid = (s.bufs a).valid ∧
      ((s.setData b data).bufs a).dirty = (s.bufs a).dirty ∧
      ((s.setData b data).bufs a).dev = (s.bufs a).dev ∧
      ((s.setData b data).bufs a).blockno = (s.bufs a).blockno := by
    intro a
    by_cases same : a = b
    · subst same
      simp
    · simp [Function.update_of_ne same]
  refine ⟨good.nodup, good.complete, ?_, ?_, ?_, ?_, ?_, ?_⟩
  · intro a
    rw [(others a).2.2.1]
    exact good.clean a
  · intro a
    rw [(others a).1]
    exact good.busy_iff a
  · intro a a_mem
    rw [(others a).2.2.2.1]
    exact good.held_dev a a_mem
  · intro a a_mem
    rw [(others a).2.1]
    exact good.held_valid a a_mem
  · intro a c
    rw [(others a).2.2.2.1, (others c).2.2.2.1, (others a).2.2.2.2, (others c).2.2.2.2]
    exact good.unique a c
  · intro a outside root valid bno trusts block_eq
    have differs : a ≠ b := by
      rintro rfl
      exact outside mem
    rw [(others a).2.2.2.1] at root
    rw [(others a).2.1] at valid
    rw [(others a).2.2.2.2] at block_eq
    simpa [Function.update_of_ne differs] using
      good.coherent a outside root valid bno trusts block_eq

end Good

/-! ## Reading -/

variable {s : State} {held : Finset (Fin nbuf)} {trusted : Set UInt32}

/-- The outcome of `bread`: a new held buffer with the block in it. -/
structure Fetched (sb : Superblock) (s t : State) (held : Finset (Fin nbuf))
    (trusted : Set UInt32) (bno : UInt32) (b : Fin nbuf) : Prop where
  /-- The buffer was not held. -/
  fresh : b ∉ held
  /-- It is held now. -/
  good : Good sb t (insert b held) trusted
  /-- The card is untouched. -/
  disk : t.disk = s.disk
  /-- The list order is untouched. -/
  clink : t.clink = s.clink
  /-- The other buffers are untouched. -/
  others : ∀ a, a ≠ b → t.bufs a = s.bufs a
  /-- The buffer caches the block. -/
  blockno : (t.bufs b).blockno = sb.sector bno
  /-- A trusted block has its bytes from the card. -/
  data : ∀ other ∈ trusted, sb.sector bno = sb.sector other →
    (t.bufs b).data = s.disk (sb.sector bno)

/-- Reading touches only the block that is read. -/
theorem Fetched.frame {t : State} {bno : UInt32} {b : Fin nbuf}
    (fetched : Fetched sb s t held trusted bno b) : Frame sb s t held {bno} where
  bufs a mem := fetched.others a fun same => fetched.fresh (same ▸ mem)
  keys a root := by
    by_cases same : a = b
    · subst same
      exact Or.inr ⟨bno, rfl, fetched.blockno⟩
    · rw [fetched.others a same] at root ⊢
      exact Or.inl ⟨root, rfl⟩

/-- A free buffer remains while not all of them are held. -/
theorem Good.exists_free (good : Good sb s held trusted) (few : held.card < nbuf) :
    ∃ b, b ∉ held ∧
      s.clink.reverse.find? (fun b => !(s.bufs b).busy && !(s.bufs b).dirty) = some b := by
  obtain ⟨a, a_free⟩ : ∃ a, a ∉ held := by
    by_contra all
    push Not at all
    have : held = Finset.univ := Finset.eq_univ_of_forall all
    rw [this, Finset.card_univ, Fintype.card_fin] at few
    exact absurd few (lt_irrefl _)
  have not_busy : (s.bufs a).busy = false := by
    simpa using (good.busy_iff a).not.mpr a_free
  have found : (s.clink.reverse.find?
      fun b => !(s.bufs b).busy && !(s.bufs b).dirty).isSome := by
    rw [List.find?_isSome]
    exact ⟨a, List.mem_reverse.mpr (good.complete a), by simp [not_busy, good.clean a]⟩
  obtain ⟨b, found⟩ := Option.isSome_iff_exists.mp found
  refine ⟨b, ?_, found⟩
  have chosen := List.find?_some found
  simp only [Bool.and_eq_true, Bool.not_eq_true'] at chosen
  rw [← good.busy_iff b]
  simp [chosen.1]

/-- `bread` fills a free buffer with the bytes of the card when the block is not cached. -/
theorem bread_of_uncached {bno : UInt32} {b : Fin nbuf}
    (uncached : ∀ a, (s.bufs a).dev = rootDev → (s.bufs a).blockno ≠ sb.sector bno)
    (found : s.clink.reverse.find? (fun b => !(s.bufs b).busy && !(s.bufs b).dirty) = some b) :
    bread sb s bno = .ok (b, s.setBuf b
      ⟨true, true, false, rootDev, sb.sector bno, s.disk (sb.sector bno)⟩) := by
  have missing : s.clink.find? (fun b => (s.bufs b).dev == rootDev &&
      (s.bufs b).blockno == sb.sector bno) = none := by
    rw [List.find?_eq_none]
    intro a _ key
    simp only [Bool.and_eq_true, beq_iff_eq] at key
    exact uncached a key.1 key.2
  simp [bread, bget, missing, found, sdRw, State.setBuf]

/-- `bread` of a block that no held buffer caches succeeds. -/
theorem bread_spec (good : Good sb s held trusted) {bno : UInt32}
    (free : Unheld s held (sb.sector bno)) (few : held.card < nbuf) :
    ∃ b t, bread sb s bno = .ok (b, t) ∧ Fetched sb s t held trusted bno b := by
  by_cases cached : ∃ a, (s.bufs a).dev = rootDev ∧ (s.bufs a).blockno = sb.sector bno
  · obtain ⟨a, root, key⟩ := cached
    have alone : ∀ c, c ≠ a → (s.bufs c).dev = rootDev →
        (s.bufs c).blockno ≠ sb.sector bno := by
      intro c differ root_c key_c
      exact differ (good.unique c a root_c root (key_c.trans key.symm))
    have found : s.clink.find? (fun b => (s.bufs b).dev == rootDev &&
        (s.bufs b).blockno == sb.sector bno) = some a := by
      have some_found : (s.clink.find? fun b => (s.bufs b).dev == rootDev &&
          (s.bufs b).blockno == sb.sector bno).isSome := by
        rw [List.find?_isSome]
        exact ⟨a, good.complete a, by simp [root, key]⟩
      obtain ⟨c, found⟩ := Option.isSome_iff_exists.mp some_found
      have chosen := List.find?_some found
      simp only [Bool.and_eq_true, beq_iff_eq] at chosen
      rw [found, good.unique c a chosen.1 root (chosen.2.trans key.symm)]
    have fresh : a ∉ held := fun mem => free a mem key
    have not_busy : (s.bufs a).busy = false := by
      simpa using (good.busy_iff a).not.mpr fresh
    have not_dirty := good.clean a
    by_cases valid : (s.bufs a).valid = true
    · refine ⟨a, s.setBuf a ⟨true, true, false, rootDev, sb.sector bno, (s.bufs a).data⟩, ?_,
        fresh, good.acquire alone, rfl, rfl, ?_, by simp, ?_⟩
      · simp only [bread, bget, found, not_busy, Bool.false_eq_true, if_false, Except.ok_bind,
          State.setBuf_bufs, Function.update_self, valid, if_true, Except.pure_eq_ok]
        rw [← not_dirty, ← valid, ← root, ← key]
      · intro c differ
        simp [Function.update_of_ne differ]
      · intro other trusts same
        simpa [same] using good.coherent a fresh root valid other trusts (key.trans same)
    · rw [Bool.not_eq_true] at valid
      refine ⟨a, s.setBuf a ⟨true, true, false, rootDev, sb.sector bno, s.disk (sb.sector bno)⟩,
        ?_, fresh, good.acquire alone, rfl, rfl, ?_, by simp, by simp⟩
      · simp [bread, bget, found, not_busy, valid, sdRw, not_dirty, State.setBuf, root, key]
      · intro c differ
        simp [Function.update_of_ne differ]
  · push Not at cached
    obtain ⟨b, fresh, found⟩ := good.exists_free few
    refine ⟨b, _, bread_of_uncached cached found, fresh,
      good.acquire fun a _ root => cached a root, rfl, rfl, ?_, by simp, by simp⟩
    intro c differ
    simp [Function.update_of_ne differ]

/-! ## Writing and releasing -/

/-- `bwrite` of a held buffer puts its bytes on the card. -/
theorem bwrite_eq (good : Good sb s held trusted) {b : Fin nbuf} (mem : b ∈ held) :
    bwrite s b = .ok { s with
      disk := Function.update s.disk (s.bufs b).blockno (s.bufs b).data } := by
  have busy : (s.bufs b).busy = true := (good.busy_iff b).mpr mem
  have valid := good.held_valid b mem
  have clean := good.clean b
  have same : ⟨true, true, false, (s.bufs b).dev, (s.bufs b).blockno, (s.bufs b).data⟩ =
      s.bufs b := by
    ext1 <;> simp [busy, valid, clean]
  simp [bwrite, busy, sdRw, State.setBuf, same]

/-- Writing a held buffer keeps the invariant. -/
theorem Good.write (good : Good sb s held trusted) {b : Fin nbuf} (mem : b ∈ held) (data : Bytes) :
    Good sb { s with disk := Function.update s.disk (s.bufs b).blockno data } held trusted :=
  { good with
    coherent := by
      intro a outside root valid bno trusts block_eq
      have differ : sb.sector bno ≠ (s.bufs b).blockno := by
        intro same
        have := good.unique a b root (good.held_dev b mem) (block_eq.trans same)
        exact outside (this ▸ mem)
      simpa [Function.update_of_ne differ] using
        good.coherent a outside root valid bno trusts block_eq }

/-- What a held buffer caches can be trusted until it is released. -/
theorem Good.trust (good : Good sb s held trusted) {b : Fin nbuf} {bno : UInt32} (mem : b ∈ held)
    (block_eq : (s.bufs b).blockno = sb.sector bno) : Good sb s held (insert bno trusted) :=
  { good with
    coherent := by
      rintro a outside root valid other (rfl | trusts) other_eq
      · have := good.unique a b root (good.held_dev b mem) (other_eq.trans block_eq.symm)
        exact absurd (this ▸ mem) outside
      · exact good.coherent a outside root valid other trusts other_eq }

/-- `brelse` of a held buffer that agrees with the card on trusted blocks. -/
theorem brelse_spec (good : Good sb s held trusted) {b : Fin nbuf} (mem : b ∈ held)
    (agrees : ∀ bno ∈ trusted, (s.bufs b).blockno = sb.sector bno →
      (s.bufs b).data = s.disk (sb.sector bno)) :
    ∃ t, brelse s b = .ok t ∧ Good sb t (held.erase b) trusted ∧ t.disk = s.disk ∧
      t.bufs = Function.update s.bufs b { s.bufs b with busy := false } ∧
      t.clink = s.clink.erase b ++ [b] := by
  have busy : (s.bufs b).busy = true := (good.busy_iff b).mpr mem
  refine ⟨{ s.setBuf b { s.bufs b with busy := false } with clink := s.clink.erase b ++ [b] },
    by rw [brelse, if_pos busy], ?_, rfl, rfl, rfl⟩
  have fields : ∀ a, (Function.update s.bufs b { s.bufs b with busy := false } a).valid =
        (s.bufs a).valid ∧
      (Function.update s.bufs b { s.bufs b with busy := false } a).dirty = (s.bufs a).dirty ∧
      (Function.update s.bufs b { s.bufs b with busy := false } a).dev = (s.bufs a).dev ∧
      (Function.update s.bufs b { s.bufs b with busy := false } a).blockno = (s.bufs a).blockno ∧
      (Function.update s.bufs b { s.bufs b with busy := false } a).data = (s.bufs a).data := by
    intro a
    by_cases same : a = b
    · subst same
      simp
    · simp [Function.update_of_ne same]
  refine ⟨?_, ?_, ?_, ?_, ?_, ?_, ?_, ?_⟩
  · refine List.Nodup.append (good.nodup.erase b) (List.nodup_singleton b) ?_
    simp [good.nodup.mem_erase_iff]
  · intro a
    by_cases same : a = b
    · simp [same]
    · simp [good.nodup.mem_erase_iff, same, good.complete a]
  · intro a
    simp only [State.setBuf_bufs, (fields a).2.1]
    exact good.clean a
  · intro a
    by_cases same : a = b
    · subst same
      simp
    · simpa [Function.update_of_ne same, same] using good.busy_iff a
  · intro a a_mem
    simp only [State.setBuf_bufs, (fields a).2.2.1]
    exact good.held_dev a (Finset.mem_of_mem_erase a_mem)
  · intro a a_mem
    simp only [State.setBuf_bufs, (fields a).1]
    exact good.held_valid a (Finset.mem_of_mem_erase a_mem)
  · intro a c
    simp only [State.setBuf_bufs, (fields a).2.2.1, (fields c).2.2.1, (fields a).2.2.2.1,
      (fields c).2.2.2.1]
    exact good.unique a c
  · intro a outside
    simp only [State.setBuf_bufs, (fields a).2.2.1, (fields a).1, (fields a).2.2.2.1,
      (fields a).2.2.2.2, State.setBuf_disk]
    intro root valid bno trusts block_eq
    by_cases same : a = b
    · subst same
      exact agrees bno trusts block_eq
    · refine good.coherent a (fun a_mem => outside ?_) root valid bno trusts block_eq
      exact Finset.mem_erase.mpr ⟨same, a_mem⟩

/-! ## Whole accesses -/

/-- Letting go of a buffer that agrees with the card. -/
theorem release_spec {b : Fin nbuf} {bno : UInt32} (fresh : b ∉ held)
    (good : Good sb s (insert b held) trusted) (block_eq : (s.bufs b).blockno = sb.sector bno)
    (agrees : ∀ other ∈ trusted, sb.sector bno = sb.sector other →
      (s.bufs b).data = s.disk (sb.sector bno)) :
    ∃ t, brelse s b = .ok t ∧ Good sb t held trusted ∧ t.disk = s.disk ∧
      Frame sb s t held {bno} := by
  obtain ⟨t, released, good_t, disk_t, bufs_t, -⟩ :=
    brelse_spec good (Finset.mem_insert_self b held) (by
      intro other trusts same
      rw [block_eq] at same
      rw [agrees other trusts same, same])
  rw [Finset.erase_insert fresh] at good_t
  refine ⟨t, released, good_t, disk_t, ?_, ?_⟩
  · intro a mem
    have differ : a ≠ b := fun same => fresh (same ▸ mem)
    rw [bufs_t, Function.update_of_ne differ]
  · intro a root
    by_cases same : a = b
    · subst same
      exact Or.inr ⟨bno, rfl, by simpa [bufs_t] using block_eq⟩
    · left
      rw [bufs_t, Function.update_of_ne same] at root ⊢
      exact ⟨root, rfl⟩

/-- Storing new bytes in a held buffer, writing it and letting it go changes the block on the card;
from then on the block can be trusted. -/
theorem store_spec {b : Fin nbuf} {bno : UInt32} (fresh : b ∉ held)
    (good : Good sb s (insert b held) trusted) (block_eq : (s.bufs b).blockno = sb.sector bno)
    (data : Bytes) :
    ∃ t u, bwrite (s.setData b data) b = .ok t ∧ brelse t b = .ok u ∧
      Good sb u held (insert bno trusted) ∧
      u.disk = Function.update s.disk (sb.sector bno) data ∧ Frame sb s u held {bno} := by
  have mem := Finset.mem_insert_self b held
  have good_data := good.setData mem data
  have wrote := bwrite_eq good_data mem
  have good_wrote := (good_data.write mem data).trust mem (by simpa using block_eq)
  simp only [State.setData_bufs, Function.update_self, State.setData_disk, block_eq]
    at wrote good_wrote
  obtain ⟨u, released, good_u, disk_u, frame⟩ := release_spec fresh good_wrote
    (show _ = sb.sector bno by simp) (by simp)
  refine ⟨_, u, wrote, released, good_u, by simp [disk_u], ?_, ?_⟩
  · intro a a_mem
    have differ : a ≠ b := fun same => fresh (same ▸ a_mem)
    rw [frame.bufs a a_mem]
    simp [Function.update_of_ne differ]
  · intro a root
    obtain ⟨root_t, same_block⟩ | touched := frame.keys a root
    · left
      by_cases same : a = b
      · subst same
        exact ⟨by simpa using root_t, by simp [same_block, block_eq]⟩
      · simpa [same_block, Function.update_of_ne same] using root_t
    · exact Or.inr touched

/-- Reading a block that no held buffer caches; it can then be let go, or changed first. -/
theorem access_spec (good : Good sb s held trusted) {bno : UInt32}
    (free : Unheld s held (sb.sector bno)) (few : held.card < nbuf) :
    ∃ b t, bread sb s bno = .ok (b, t) ∧
      (bno ∈ trusted → (t.bufs b).data = s.disk (sb.sector bno)) ∧
      (∃ u, brelse t b = .ok u ∧ Good sb u held trusted ∧ u.disk = s.disk ∧
        Frame sb s u held {bno}) ∧
      ∀ data, ∃ u v, bwrite (t.setData b data) b = .ok u ∧ brelse u b = .ok v ∧
        Good sb v held (insert bno trusted) ∧
        v.disk = Function.update s.disk (sb.sector bno) data ∧ Frame sb s v held {bno} := by
  obtain ⟨b, t, read, fetched⟩ := bread_spec good free few
  refine ⟨b, t, read, fun trusts => fetched.data bno trusts rfl, ?_, fun data => ?_⟩
  · obtain ⟨u, released, good_u, disk_u, frame⟩ := release_spec fetched.fresh fetched.good
      fetched.blockno (by rw [fetched.disk]; exact fetched.data)
    exact ⟨u, released, good_u, disk_u.trans fetched.disk, fetched.frame.trans frame⟩
  · obtain ⟨u, v, wrote, released, good_v, disk_v, frame⟩ := store_spec fetched.fresh fetched.good
      fetched.blockno data
    exact ⟨u, v, wrote, released, good_v, by rw [disk_v, fetched.disk],
      fetched.frame.trans frame⟩

end Fs
end Xv6Duo
