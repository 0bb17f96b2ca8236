import Xv6Duo.Fs.ShortWrite

/-!
# What a write reports

`writei` gives the number of bytes that it has put on the card. The bytes that a faulting round has
left in a buffer are not among them.
-/

namespace Xv6Duo
namespace Fs

open ByteBlock

variable {sb : Superblock}

/-- `iupdate` changes no buffer but that of the inode. -/
theorem iupdate_others {s t : State} {held : Finset (Fin nbuf)} {trusted : Set UInt32} {ip : Inode}
    (good : Good sb s held trusted) (free : Unheld s held (sb.sector (iblock sb ip.inum)))
    (few : held.card < nbuf) (run : iupdate sb s ip = .ok t) (b : Fin nbuf) :
    t.bufs b = s.bufs b ∨ (t.bufs b).dev = rootDev ∧
      (t.bufs b).blockno = sb.sector (iblock sb ip.inum) := by
  obtain ⟨bp, u, read, fetched⟩ := bread_spec good free few
  have mem := Finset.mem_insert_self bp held
  set data := storeDinode (u.bufs bp).data ip
  have wrote := bwrite_eq (fetched.good.setData mem data) mem
  have careless : Good sb _ (insert bp held) ∅ :=
    ((fetched.good.setData mem data).write mem data).mono (by simp)
  obtain ⟨x, released, -, -, bufs, -⟩ := brelse_spec careless mem (by simp)
  have stored : ((u.setData bp data).bufs bp).data = data := by simp
  rw [stored] at wrote
  have same : iupdate sb s ip = .ok x := by
    simp only [iupdate, read, Except.ok_bind]
    rw [show bwrite (u.setData bp (storeDinode (u.bufs bp).data ip)) bp = _ from wrote]
    exact released
  obtain rfl := Except.ok.inj (run.symm.trans same)
  by_cases eq : b = bp
  · right
    subst eq
    exact ⟨by simpa [bufs] using fetched.good.held_dev b mem, by simpa [bufs] using fetched.blockno⟩
  · left
    rw [bufs, Function.update_of_ne eq]
    simp [eq, fetched.others b eq]

namespace Volume

variable {v w z : Volume} {i : UInt32}

/-- What `writei` has done when it has put the first `tot` bytes of the request on the card. -/
structure Ended (sb : Superblock) (v z : Volume) (i : UInt32) (userSrc : Bool) (mem : Memory)
    (src off n tot c : Nat) : Prop where
  /-- The card has the bytes. -/
  card : Overwritten sb v z.cold i off (mem.range src tot)
  /-- Blocks have been used for slots of the range. -/
  ledger : Ledger sb v z i (neededSlots off n)
  /-- The source of the bytes can be read. -/
  readable : userSrc = true → PagesIn mem.readable src tot
  /-- There was room for the blocks of the bytes. -/
  room : v.Room sb i (neededSlots off tot)
  /-- What the buffers have. -/
  cached : Cached sb z i mem src off tot c
  /-- Why it has stopped. -/
  ending : Ending sb v z i userSrc mem src off n tot c

theorem Ending.le {userSrc : Bool} {mem : Memory} {src off n tot c : Nat}
    (ending : Ending sb v z i userSrc mem src off n tot c) : tot ≤ n := by
  cases ending with
  | done all _ _ => exact all.le
  | short left _ _ _ => exact left.le
  | fault _ lower upper _ _ _ _ => exact lower.trans upper.le

/-- A request whose source can be read and for which there are blocks is done. -/
theorem Ending.whole {userSrc : Bool} {mem : Memory} {src off n tot c : Nat}
    (ending : Ending sb v z i userSrc mem src off n tot c)
    (readable : userSrc = true → PagesIn mem.readable src n)
    (room : v.Room sb i (neededSlots off n)) : tot = n ∧ Idle sb z.state := by
  cases ending with
  | done all _ idle => exact ⟨all, idle⟩
  | short left _ _ full => exact absurd (room.mono (neededSlots_mono left)) full
  | fault user _ upper faults _ _ _ =>
      have := faults.le (readable user)
      omega

theorem Ending.replace {y : Volume} {userSrc : Bool} {mem : Memory} {src off n tot c : Nat}
    (ending : Ending sb v z i userSrc mem src off n tot c)
    (idle : Idle sb z.state → Idle sb y.state) : Ending sb v y i userSrc mem src off n tot c := by
  cases ending with
  | done all exact_c idle_z => exact .done all exact_c (idle idle_z)
  | short left same aligned full => exact .short left same aligned full
  | fault user lower upper faults aligned same room =>
      exact .fault user lower upper faults aligned same room

/-- The inode can be stored after the loop. -/
theorem Stop.unheld {t : State} {ip : Inode} {userSrc : Bool} {mem : Memory}
    {src off n tot c : Nat} (live : v.Live sb i)
    (stop : Stop sb v ⟨t, Function.update v.inodes i ip⟩ i userSrc mem src off n tot c) :
    ∃ held, held.card < nbuf ∧ Good sb t held {iblock sb i} ∧
      Unheld t held (sb.sector (iblock sb i)) := by
  obtain ⟨held, few, parents, good⟩ := stop.quiet
  refine ⟨held, few.trans_lt (by decide), good, fun b mem same => ?_⟩
  obtain ⟨slot, p, -, present, key⟩ := parents b mem
  have data := stop.written.stays.wellFormed.data i ((stop.written.stays.live i).mpr live) p present
  exact data.ne_iblock live.1 (Superblock.sector_inj data.inRange.lt (iblock_inRange live.1).lt
    (key.symm.trans same))

/-- Storing the inode ends a write. -/
theorem Stop.finish {t : State} {ip : Inode} {userSrc : Bool} {mem : Memory} {src : Nat}
    {off n tot : UInt32} {c : Nat} (wf : v.WellFormed sb) (live : v.Live sb i)
    (off_le : off.toNat ≤ (v.inodes i).size.toNat) (off_n : off.toNat + n.toNat < 2 ^ 32)
    (stop : Stop sb v ⟨t, Function.update v.inodes i ip⟩ i userSrc mem src off.toNat n.toNat
      tot.toNat c) :
    ∃ u, iupdate sb t (grown ip (off + tot)) = .ok u ∧
      Ended sb v ⟨u, Function.update v.inodes i (grown ip (off + tot))⟩ i userSrc mem src off.toNat
        n.toNat tot.toNat c := by
  have tot_le := stop.ending.le
  have end_eq : (off + tot).toNat = off.toNat + tot.toNat := by
    rw [UInt32.toNat_add, Nat.mod_eq_of_lt (by omega)]
  have stays := stop.written.stays
  have wf_x := stays.wellFormed
  have live_x := (stays.live i).mpr live
  obtain ⟨inum, size⟩ := stays.grown wf (off + tot)
  simp only [cold, Function.update_self] at inum size
  rw [end_eq] at size
  obtain ⟨held, few_bufs, good, free⟩ := stop.unheld live
  rw [← inum] at free
  obtain ⟨u, updated, -, disk_u, -⟩ := iupdate_spec good free (by rw [inum]; rfl) few_bufs
  rw [inum] at disk_u
  have fields : grown ip (off + tot) =
      { (cold ⟨t, Function.update v.inodes i ip⟩).inodes i with
        size := (grown ip (off + tot)).size } := by
    simpa [cold] using grown_fields ip (off + tot)
  have card := stop.written.finish wf live off_le fields size (idle_binit u.disk) disk_u
  have store : ∀ slots, Balanced sb (cold ⟨t, Function.update v.inodes i ip⟩)
      ⟨u, Function.update (cold ⟨t, Function.update v.inodes i ip⟩).inodes i
        (grown ip (off + tot))⟩ i slots :=
    fun slots => balanced_of_store wf_x live_x fields disk_u
  have blocks : ∀ slot, Volume.block sb ⟨u, Function.update (Function.update v.inodes i ip) i
      (grown ip (off + tot))⟩ i slot = Volume.block sb ⟨t, Function.update v.inodes i ip⟩ i slot :=
    fun slot => block_of_store wf_x live_x fields disk_u live_x slot
  simp only [cold, Function.update_idem] at card store blocks
  refine ⟨u, updated, card, ?_, stop.readable, stop.room, ?_, ?_⟩
  · intro more subset
    exact (stop.ledger more subset).trans (store more)
  · intro o o_lt present b root valid key
    rw [blocks] at present key
    have byte := byte_of_store wf_x live_x fields disk_u live_x (o := o) present
    have differ : (u.bufs b).blockno ≠ sb.sector (iblock sb (grown ip (off + tot)).inum) := by
      intro same
      have data := wf_x.data i live_x _ present
      rw [inum] at same
      exact data.ne_iblock live.1 (Superblock.sector_inj data.inRange.lt
        (iblock_inRange live.1).lt (key.symm.trans same))
    have before := (iupdate_others good free few_bufs updated b).resolve_right
      fun inode => differ inode.2
    simp only [before] at root valid key ⊢
    simp only [cold, Function.update_idem] at byte
    rw [stop.cached o o_lt present b root valid key]
    split
    · rfl
    · exact byte.symm
  · refine stop.ending.replace fun idle => ?_
    obtain ⟨y, again, good_y, -⟩ := iupdate_spec idle unheld_empty
      (iblock_mem_allocated (by rw [inum]; exact live.1)) (by decide)
    obtain rfl := Except.ok.inj (updated.symm.trans again)
    refine Good.mono good_y fun bno mem => ?_
    obtain below | ⟨bno_range, marked⟩ := mem
    · exact Or.inl below
    · refine Or.inr ⟨bno_range, (used_of_store (by rw [inum]; exact live.1) ?_ bno_range).symm.trans
        marked⟩
      rw [inum]
      exact disk_u

/-- The loop of `writei`, and the inode after it. -/
theorem loop_ends (wf : v.WellFormed sb) (idle : Idle sb v.state) (live : v.Live sb i)
    (userSrc : Bool) (mem : Memory) (src : Nat) {off n : UInt32}
    (off_le : off.toNat ≤ (v.inodes i).size.toNat) (off_n : off.toNat + n.toNat < 2 ^ 32) :
    ∃ tot ip t u c, writeLoop sb userSrc mem n (n.toNat + 1) v.state (v.inodes i) src off 0 =
        .ok (tot, off + tot, ip, t) ∧
      Stop sb v ⟨t, Function.update v.inodes i ip⟩ i userSrc mem src off.toNat n.toNat tot.toNat
        c ∧ iupdate sb t (grown ip (off + tot)) = .ok u ∧
      Ended sb v ⟨u, Function.update v.inodes i (grown ip (off + tot))⟩ i userSrc mem src off.toNat
        n.toNat tot.toNat c := by
  obtain ⟨tot, ip, t, c, loop, stop⟩ := writeLoop_stops (n.toNat + 1) live off_n
    (Written.refl wf idle off.toNat fun k => mem.bytes (src + k)) Ledger.refl
    (fun _ a lower upper => by rw [UInt32.toNat_zero] at upper; omega) (fun _ => Or.inl rfl)
    (show (0 : UInt32).toNat ≤ n.toNat from Nat.zero_le _) (by simp)
  obtain ⟨u, updated, ended⟩ := stop.finish wf live off_le off_n
  simp only [UInt32.toNat_zero, Nat.add_zero, UInt32.add_zero] at loop
  exact ⟨tot, ip, t, u, c, loop, stop, updated, ended⟩

/-- `writei` on a range that starts inside the file or at its end. -/
theorem writei_ends (wf : v.WellFormed sb) (idle : Idle sb v.state) (live : v.Live sb i)
    (userSrc : Bool) (mem : Memory) (src : Nat) {off n : UInt32}
    (off_le : off.toNat ≤ (v.inodes i).size.toNat) (off_n : off.toNat + n.toNat < 2 ^ 32) :
    ∃ tot ip t c, writei sb v.state (v.inodes i) userSrc mem src off n = .ok (asInt tot, ip, t) ∧
      Ended sb v ⟨t, Function.update v.inodes i ip⟩ i userSrc mem src off.toNat n.toNat tot.toNat
        c := by
  obtain ⟨tot, ip, t, u, c, loop, -, updated, ended⟩ :=
    loop_ends wf idle live userSrc mem src off_le off_n
  exact ⟨tot, grown ip (off + tot), u, c, writei_of_loop off_le off_n loop updated, ended⟩

/-! ## Reports -/

/-- A file in which the bytes from a position on have been replaced, on the card as well as in every
buffer. -/
structure Reported (sb : Superblock) (v w : Volume) (i : UInt32) (off : Nat)
    (source : List UInt8) : Prop where
  /-- The size grows to the end of the bytes. -/
  size : (w.inodes i).size.toNat = max (v.inodes i).size.toNat (off + source.length)
  /-- The card has the bytes. -/
  card : w.content sb i = overwrite (v.content sb i) off source
  /-- Buffers have the bytes of the card. -/
  cached : ∀ o < (w.inodes i).size.toNat, ∀ b, (w.state.bufs b).dev = rootDev →
    (w.state.bufs b).valid = true →
    (w.state.bufs b).blockno = sb.sector (w.block sb i (fileSlot (o / bsize))) →
    (w.state.bufs b).data (o % bsize) = w.byte sb i o

/-- The file is as before. -/
def Unchanged (sb : Superblock) (v w : Volume) (i : UInt32) : Prop := Reported sb v w i 0 []

/-- The bytes of the file after a write. -/
theorem Overwritten.byte_eq {mem : Memory} {src off tot : Nat}
    (card : Overwritten sb v w i off (mem.range src tot))
    (off_le : off ≤ (v.inodes i).size.toNat) {o : Nat} (below : o < (w.inodes i).size.toNat) :
    w.byte sb i o =
      if off ≤ o ∧ o < off + tot then mem.bytes (src + (o - off)) else v.byte sb i o := by
  have size := card.size
  have content := card.content_self
  rw [Memory.range, List.length_map, List.length_range] at size
  rw [Volume.content, Volume.content, Memory.range, size] at content
  rw [size] at below
  exact of_map_range_eq_overwrite off_le content below

/-- A write is reported when the buffers have no bytes that the card does not have. -/
theorem Ended.reported {userSrc : Bool} {mem : Memory} {src off n tot c : Nat}
    (live : v.Live sb i) (off_le : off ≤ (v.inodes i).size.toNat)
    (ended : Ended sb v z i userSrc mem src off n tot c)
    (same : ∀ o, off + tot ≤ o → o < off + c → o < (v.inodes i).size.toNat →
      mem.bytes (src + (o - off)) = v.byte sb i o) :
    Reported sb v z i off (mem.range src tot) := by
  refine ⟨ended.card.size, ended.card.content_self, ?_⟩
  intro o below b root valid key
  have live_z := (ended.card.live i).mpr live
  have present : z.block sb i (fileSlot (o / bsize)) ≠ 0 :=
    ended.card.wellFormed.noHole i live_z _
      (by have := Nat.div_mul_le_self o bsize; exact lt_of_le_of_lt this below)
  have o_lt : o < 2 ^ 32 := below.trans (z.inodes i).size.toNat_lt
  rw [ended.cached o o_lt present b root valid key]
  split
  · next copied =>
      have size := ended.card.size
      rw [Memory.range, List.length_map, List.length_range] at size
      have inside : o < (v.inodes i).size.toNat := by
        have : o < (z.cold.inodes i).size.toNat := below
        omega
      have byte : z.byte sb i o = _ := ended.card.byte_eq off_le below
      rw [byte, if_neg (by omega)]
      exact same o copied.1 copied.2 inside
  · rfl

/-- Buffers of an idle cache have the bytes of the files. -/
theorem unchanged_of_idle (wf : v.WellFormed sb) (idle : Idle sb v.state) (live : v.Live sb i) :
    Unchanged sb v v i := by
  refine ⟨by simp, (by simp [overwrite]), ?_⟩
  intro o below b root valid key
  have present :=
    wf.noHole i live _ (by have := Nat.div_mul_le_self o bsize; exact lt_of_le_of_lt this below)
  have good : Good sb v.state ∅ (allocated sb v.state) := idle
  rw [data_of_good wf live good holdsParents_empty present (mem_allocated wf live present) root
    valid key]
  rfl

/-- The source faults behind bytes that differ from those of the file, in the same block. The bytes
up to that block are counted by an `int`. -/
def Torn (sb : Superblock) (v : Volume) (i : UInt32) (mem : Memory) (src off n : Nat) : Prop :=
  ∃ c < n, Faults mem src c ∧ (off + c) / bsize * bsize < off + 2 ^ 31 ∧
    ∃ o, off ≤ o ∧ o < off + c ∧ o / bsize = (off + c) / bsize ∧
      o < (v.inodes i).size.toNat ∧ mem.bytes (src + (o - off)) ≠ v.byte sb i o

/-- The round that faults starts with its block, or with the request. -/
theorem start_of_aligned {off tot c : Nat} (aligned : tot = 0 ∨ (off + tot) % bsize = 0)
    (same : (off + c) / bsize = (off + tot) / bsize) :
    (off + c) / bsize * bsize ≤ off + tot ∧
      ∀ o, off ≤ o → o / bsize = (off + c) / bsize → off + tot ≤ o := by
  have start := Nat.div_add_mod (off + tot) bsize
  rw [Nat.mul_comm] at start
  rw [same]
  refine ⟨by omega, fun o above block => ?_⟩
  have o_split := Nat.div_add_mod o bsize
  rw [Nat.mul_comm, block] at o_split
  omega

/-- The bytes behind the last round are those of the file. -/
theorem Ended.intact {userSrc : Bool} {mem : Memory} {src off n tot c : Nat}
    (ended : Ended sb v z i userSrc mem src off n tot c)
    (whole : userSrc = true → ¬Torn sb v i mem src off n) (counted : tot < n → tot < 2 ^ 31)
    {o : Nat} (lower : off + tot ≤ o)
    (upper : o < off + c) (inside : o < (v.inodes i).size.toNat) :
    mem.bytes (src + (o - off)) = v.byte sb i o := by
  cases ended.ending with
  | done all exact_c _ => omega
  | short _ same _ _ => omega
  | fault user lower_c upper_c faults aligned same _ =>
      by_contra differ
      have block : o / bsize = (off + c) / bsize :=
        le_antisymm (Nat.div_le_div_right upper.le) (same ▸ Nat.div_le_div_right lower)
      have start := (start_of_aligned aligned same).1
      have small := counted (by omega)
      exact whole user ⟨c, upper_c, faults, by omega, o, by omega, upper, block, inside, differ⟩

/-! ## What `writei` returns -/

theorem asInt_nonneg {tot : UInt32} (nonneg : 0 ≤ asInt tot) : (asInt tot).toNat = tot.toNat := by
  have := tot.toNat_lt
  rw [asInt] at *
  split at nonneg
  · next small => rw [if_pos small, Int.toNat_natCast]
  · omega

theorem asInt_small {tot : UInt32} (nonneg : 0 ≤ asInt tot) : tot.toNat < 2 ^ 31 := by
  have := tot.toNat_lt
  rw [asInt] at nonneg
  split at nonneg <;> omega

theorem asInt_eq_neg_one {tot : UInt32} : asInt tot = -1 ↔ tot.toNat = 2 ^ 32 - 1 := by
  have := tot.toNat_lt
  rw [asInt]
  split <;> omega

/-- `writei` returns the number of bytes that it has replaced, or `-1` when it has replaced none. -/
def Truthful (sb : Superblock) (v : Volume) (i : UInt32) (userSrc : Bool) (mem : Memory)
    (src : Nat) (off n : UInt32) : Prop :=
  ∃ r ip t, writei sb v.state (v.inodes i) userSrc mem src off n = .ok (r, ip, t) ∧
    (0 ≤ r → Reported sb v ⟨t, Function.update v.inodes i ip⟩ i off.toNat
      (mem.range src r.toNat)) ∧
    (r = -1 → Unchanged sb v ⟨t, Function.update v.inodes i ip⟩ i)

/-- The whole request is written, whose length is `-1` as an `int`, and the file changes. -/
structure Miscounted (sb : Superblock) (v : Volume) (i : UInt32) (userSrc : Bool) (mem : Memory)
    (src off n : Nat) : Prop where
  /-- The length. -/
  length : n = 2 ^ 32 - 1
  /-- The source can be read. -/
  readable : userSrc = true → PagesIn mem.readable src n
  /-- There are blocks for the bytes. -/
  room : v.Room sb i (neededSlots off n)
  /-- The bytes are not those of the file. -/
  differ : v.content sb i ≠ mem.range src n

theorem truthful_of_refused (wf : v.WellFormed sb) (idle : Idle sb v.state) (live : v.Live sb i)
    {userSrc : Bool} {mem : Memory} {src : Nat} {off n : UInt32}
    (refused : (v.inodes i).size.toNat < off.toNat ∨ 2 ^ 32 ≤ off.toNat + n.toNat) :
    Truthful sb v i userSrc mem src off n := by
  have early : off > (v.inodes i).size ∨ off + n < off := by
    have := off.toNat_lt
    have := n.toNat_lt
    rw [gt_iff_lt, UInt32.lt_iff_toNat_lt, UInt32.lt_iff_toNat_lt, UInt32.toNat_add]
    omega
  refine ⟨-1, v.inodes i, v.state, by rw [writei, if_pos early], fun nonneg => ?_, fun _ => ?_⟩
  · exact absurd nonneg (by decide)
  · rw [Function.update_eq_self]
    exact unchanged_of_idle wf idle live

/-- A request of `2 ^ 32 - 1` bytes starts at the first byte. -/
theorem Overwritten.content_whole {mem : Memory} {src : Nat} (card :
    Overwritten sb v w i 0 (mem.range src (2 ^ 32 - 1))) :
    w.content sb i = mem.range src (2 ^ 32 - 1) := by
  have short := (v.inodes i).size.toNat_lt
  rw [card.content_self, overwrite, List.take_zero, List.nil_append, List.drop_of_length_le]
  · rw [List.append_nil]
  · rw [Volume.content, List.length_map, List.length_range, Memory.range, List.length_map,
      List.length_range]
    omega

/-- `writei` is truthful unless the source faults in the middle of a block that the file has. -/
theorem truthful_of_whole (wf : v.WellFormed sb) (idle : Idle sb v.state) (live : v.Live sb i)
    {userSrc : Bool} {mem : Memory} {src : Nat} {off n : UInt32}
    (whole : off.toNat + n.toNat < 2 ^ 32 →
      (userSrc = true → ¬Torn sb v i mem src off.toNat n.toNat) ∧
        ¬Miscounted sb v i userSrc mem src off.toNat n.toNat) :
    Truthful sb v i userSrc mem src off n := by
  by_cases accepted : off.toNat ≤ (v.inodes i).size.toNat ∧ off.toNat + n.toNat < 2 ^ 32
  · obtain ⟨off_le, off_n⟩ := accepted
    obtain ⟨not_torn, counted⟩ := whole off_n
    obtain ⟨tot, ip, t, c, run, ended⟩ := writei_ends wf idle live userSrc mem src off_le off_n
    have reported (counted : tot.toNat < n.toNat → tot.toNat < 2 ^ 31) :=
      ended.reported live off_le fun o lower upper inside =>
        ended.intact not_torn counted lower upper inside
    refine ⟨asInt tot, ip, t, run, fun nonneg => ?_, fun failed => ?_⟩
    · rw [asInt_nonneg nonneg]
      exact reported fun _ => asInt_small nonneg
    · rw [asInt_eq_neg_one] at failed
      have all : n.toNat = 2 ^ 32 - 1 := by
        have := ended.ending.le
        have := n.toNat_lt
        omega
      have start : off.toNat = 0 := by omega
      have same : v.content sb i = mem.range src n.toNat := by
        by_contra differ
        have tot_eq : tot.toNat = n.toNat := failed.trans all.symm
        exact counted ⟨all, tot_eq ▸ ended.readable, tot_eq ▸ ended.room, differ⟩
      have card := ended.card
      rw [start, failed] at card
      have size : (v.inodes i).size.toNat = 2 ^ 32 - 1 := by
        have length := congrArg List.length same
        rw [Volume.content, Memory.range, List.length_map, List.length_map, List.length_range,
          List.length_range, all] at length
        exact length
      refine ⟨?_, ?_, (reported fun left => by omega).cached⟩
      · have grown := card.size
        rw [Memory.range, List.length_map, List.length_range] at grown
        rw [List.length_nil, size]
        exact grown.trans (by rw [size]; rfl)
      · rw [show overwrite (v.content sb i) 0 [] = v.content sb i by simp [overwrite], same, all]
        exact card.content_whole
  · apply truthful_of_refused wf idle live
    omega

end Volume

end Fs
end Xv6Duo
