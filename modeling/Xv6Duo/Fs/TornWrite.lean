import Xv6Duo.Fs.Report

/-!
# Bytes in a buffer alone

A buffer that a faulting round has changed stays in the cache as long as the block of the inode is
cached, for `iupdate` would recycle it first: `bget` takes the buffer that was released last.
-/

namespace Xv6Duo
namespace Fs

open ByteBlock Except

variable {sb : Superblock} {s t u : State} {trusted : Set UInt32}

/-! ## The order of the buffers -/

/-- A buffer that is not the next one to be recycled caches the block. -/
def Pinned (sb : Superblock) (s : State) (bno : UInt32) : Prop :=
  ∃ b, (s.bufs b).dev = rootDev ∧ (s.bufs b).blockno = sb.sector bno ∧ s.clink.getLast? ≠ some b

/-- `bread` takes the buffer of the block, or else the last buffer. -/
theorem bread_picks (good : Good sb s ∅ trusted) {bno : UInt32} {b : Fin nbuf}
    (run : bread sb s bno = .ok (b, t)) :
    (s.bufs b).blockno = sb.sector bno ∨ s.clink.getLast? = some b := by
  have free : ∀ a, (s.bufs a).busy = false := by
    intro a
    simpa using (good.busy_iff a).not.mpr (Finset.notMem_empty a)
  have picked : ∀ {a t'}, bget sb s bno = .ok (a, t') →
      (s.bufs a).blockno = sb.sector bno ∨ s.clink.getLast? = some a := by
    intro a t' got
    rw [bget] at got
    split at got
    · next found =>
        rw [if_neg (by simp [free])] at got
        have chosen := List.find?_some found
        simp only [Bool.and_eq_true, beq_iff_eq] at chosen
        cases got
        exact Or.inl chosen.2
    · split at got
      · next last =>
          cases got
          right
          rw [List.getLast?_eq_head?_reverse]
          cases order : s.clink.reverse with
          | nil =>
              rw [order] at last
              cases last
          | cons first rest =>
              rw [order, List.find?_cons_of_pos (by simp [free, good.clean])] at last
              rw [List.head?_cons]
              exact last
      · cases got
  rw [bread, bind_eq_ok] at run
  obtain ⟨⟨a, t'⟩, got, rest⟩ := run
  have same : a = b := by
    dsimp only at rest
    split at rest <;> cases rest <;> rfl
  subst same
  exact picked got

/-- A buffer has been read, perhaps changed, and released. -/
structure Turn (sb : Superblock) (s u : State) (bno : UInt32) (b : Fin nbuf) : Prop where
  /-- It is the next one to be recycled. -/
  last : u.clink.getLast? = some b
  /-- The other buffers are as before. -/
  others : ∀ a, a ≠ b → u.bufs a = s.bufs a
  /-- It was the buffer of the block or the last one. -/
  picked : (s.bufs b).blockno = sb.sector bno ∨ s.clink.getLast? = some b

theorem Turn.pinned {bno other : UInt32} {b : Fin nbuf} (turn : Turn sb s u bno b)
    (pinned : Pinned sb s other) (differ : sb.sector bno ≠ sb.sector other) :
    Pinned sb u other := by
  obtain ⟨a, root, key, not_last⟩ := pinned
  have apart : a ≠ b := by
    rintro rfl
    rcases turn.picked with same | last
    · exact differ (same.symm.trans key)
    · exact not_last last
  refine ⟨a, ?_, ?_, ?_⟩
  · rw [turn.others a apart]
    exact root
  · rw [turn.others a apart]
    exact key
  · rw [turn.last]
    exact fun same => apart (Option.some.inj same).symm

theorem turn_of_release {x : State} {bno : UInt32} {b : Fin nbuf} (good : Good sb s ∅ trusted)
    (read : bread sb s bno = .ok (b, t)) (fetched : Fetched sb s t ∅ trusted bno b)
    (others : ∀ a, a ≠ b → x.bufs a = t.bufs a) (released : brelse x b = .ok u) :
    Turn sb s u bno b := by
  rw [brelse] at released
  split at released
  · cases released
    refine ⟨List.getLast?_append.trans rfl, fun a apart => ?_, bread_picks good read⟩
    rw [State.setBuf_bufs, Function.update_of_ne apart, others a apart, fetched.others a apart]
  · cases released

namespace Volume

variable {v w : Volume} {i : UInt32}

theorem bmapEntry_pinned (wf : v.WellFormed sb) (idle : Idle sb v.state) (live : v.Live sb i)
    {slot p : Slot} (parent_eq : slot.parent = some p) (present : v.block sb i slot ≠ 0)
    {bno : UInt32} (pinned : Pinned sb v.state bno)
    (differ : sb.sector (v.block sb i p) ≠ sb.sector bno) :
    (bmapEntry sb v.state (v.block sb i p) slot.index).Ensures fun r => Pinned sb r.2 bno := by
  have holder := present_of_parent parent_eq present
  have trusted := mem_allocated wf live holder
  obtain ⟨bp, t, read, fetched⟩ := bread_spec idle unheld_empty (by decide)
  have word_eq : getWord (t.bufs bp).data slot.index = v.block sb i slot := by
    rw [fetched.data _ trusted rfl, block_of_parent parent_eq, entryOf_of_ne holder]
    rfl
  simp only [bmapEntry, read, ok_bind, word_eq, present, if_false]
  constructor
  intro r run
  obtain ⟨u, released, done⟩ := bind_eq_ok.mp run
  cases done
  exact (turn_of_release idle read fetched (fun _ _ => rfl) released).pinned pinned differ

/-- A block of a file is not the block of its inode. -/
theorem sector_ne_inode (wf : v.WellFormed sb) (live : v.Live sb i) {slot : Slot}
    (present : v.block sb i slot ≠ 0) :
    sb.sector (v.block sb i slot) ≠ sb.sector (iblock sb i) := by
  have data := wf.data i live slot present
  intro same
  exact data.ne_iblock live.1
    (Superblock.sector_inj data.inRange.lt (iblock_inRange live.1).lt same)

theorem bmap_pinned (wf : v.WellFormed sb) (idle : Idle sb v.state) (live : v.Live sb i) {bn : Nat}
    (bn_lt : bn < maxFile) (present : v.block sb i (fileSlot bn) ≠ 0)
    (pinned : Pinned sb v.state (iblock sb i)) :
    (bmap sb v.state (v.inodes i) bn).Ensures fun r => Pinned sb r.2.2 (iblock sb i) := by
  by_cases direct : bn < ndirect
  · rw [fileSlot_direct direct] at present
    rw [bmap, dif_pos direct, bmapAddr_present present]
    exact ensures_ok pinned
  by_cases single : bn - ndirect < nindirect
  · rw [fileSlot_single direct single] at present
    have root : (v.inodes i).addrs indirectSlot ≠ 0 :=
      present_of_parent (p := .addr indirectSlot) rfl present
    have entry : (bmapEntry sb v.state ((v.inodes i).addrs indirectSlot) (bn - ndirect)).Ensures
        fun r => Pinned sb r.2 (iblock sb i) :=
      bmapEntry_pinned wf idle live (p := .addr indirectSlot) rfl present pinned
        (sector_ne_inode wf live (show v.block sb i (.addr indirectSlot) ≠ 0 from root))
    simp only [bmap, direct, dite_false, single, if_true, bmapAddr_present root, ok_bind, root,
      if_false]
    exact entry.bind fun r done => ensures_ok done
  · have double := double_lt bn_lt
    rw [fileSlot_double bn_lt direct single] at present
    have table_present := present_of_parent rfl present
    have root : (v.inodes i).addrs indirect2Slot ≠ 0 :=
      present_of_parent (p := .addr indirect2Slot) rfl table_present
    obtain ⟨t, table, disk_t, idle_t⟩ := bmapEntry_present wf idle live rfl table_present
    have pinned_t : Pinned sb t (iblock sb i) :=
      (bmapEntry_pinned wf idle live rfl table_present pinned
        (sector_ne_inode wf live (show v.block sb i (.addr indirect2Slot) ≠ 0 from root))).of_ok
        table
    have same : Volume.block sb ⟨t, v.inodes⟩ i = v.block sb i := by
      funext slot
      simp only [Volume.block, view_congr disk_t]
    have leaf := bmapEntry_pinned (v := ⟨t, v.inodes⟩) (wf.of_disk disk_t) idle_t live
      (show Slot.parent (.leaf ⟨(bn - ndirect - nindirect) / nindirect, high_lt bn_lt⟩
        ⟨(bn - ndirect - nindirect) % nindirect, low_lt bn⟩) = _ from rfl) (by rwa [same]) pinned_t
      (by rw [same]; exact sector_ne_inode wf live table_present)
    rw [same] at leaf
    have table' : bmapEntry sb v.state ((v.inodes i).addrs indirect2Slot)
        ((bn - ndirect - nindirect) / nindirect) = .ok (v.block sb i
          (.table ⟨(bn - ndirect - nindirect) / nindirect, high_lt bn_lt⟩), t) := table
    simp only [bmap, direct, dite_false, single, if_false, double, if_true, bmapAddr_present root,
      ok_bind, root, table', table_present]
    exact leaf.bind fun r done => ensures_ok done

/-- Writing and releasing a buffer changes no other buffer. -/
theorem bwrite_others {b : Fin nbuf} {data : Bytes} (run : bwrite (s.setData b data) b = .ok t)
    {a : Fin nbuf} (apart : a ≠ b) : t.bufs a = s.bufs a := by
  rw [bwrite] at run
  split at run
  · cases run
    rw [sdRw]
    dsimp only
    split <;> simp [apart]
  · cases run

/-- A file block of a range that ends at a fault. -/
theorem writeLoop_pinned (fuel : Nat) {mem : Memory} {src c : Nat} {off n tot : UInt32}
    (wf : w.WellFormed sb) (idle : Idle sb w.state) (live : w.Live sb i)
    (off_n : off.toNat + n.toNat < 2 ^ 32) (faults : Faults mem src c) (c_lt : c < n.toNat)
    (present : ∀ o, off.toNat ≤ o → o ≤ off.toNat + c →
      w.block sb i (fileSlot (o / bsize)) ≠ 0)
    (tot_le : tot.toNat ≤ c) (enough : n.toNat - tot.toNat < fuel)
    (pinned : Pinned sb w.state (iblock sb i)) :
    (writeLoop sb true mem n fuel w.state (w.inodes i) (src + tot.toNat) (off + tot) tot).Ensures
      fun r => Pinned sb r.2.2.2 (iblock sb i) ∧ ∃ b, (r.2.2.2.bufs b).dev = rootDev ∧
        (r.2.2.2.bufs b).valid = true ∧ (r.2.2.2.bufs b).blockno =
          sb.sector (w.block sb i (fileSlot ((off.toNat + c) / bsize))) := by
  induction fuel generalizing w tot with
  | zero => exact ensures_error
  | succ fuel ih =>
      have position : (off + tot).toNat = off.toNat + tot.toNat := by
        rw [UInt32.toNat_add, Nat.mod_eq_of_lt (by omega)]
      set start := off.toNat + tot.toNat with start_eq
      have chunk_eq := chunk_toNat (off + tot) (show tot.toNat ≤ n.toNat by omega)
      rw [position] at chunk_eq
      set m := chunk n tot (off + tot) with m_eq
      have m_pos : 0 < m.toNat := by omega
      have fits : start % bsize + m.toNat ≤ bsize := by
        simp only [bsize]
        omega
      have bn_lt : start / bsize < maxFile := div_lt_maxFile (by omega)
      have here := present start (by omega) (by omega)
      obtain ⟨t, map_eq, disk_t, idle_t⟩ := bmap_present wf idle live bn_lt here
      have pinned_t : Pinned sb t (iblock sb i) :=
        (bmap_pinned wf idle live bn_lt here pinned).of_ok map_eq
      set addr := w.block sb i (fileSlot (start / bsize)) with addr_eq
      have trusted : addr ∈ allocated sb t := by
        rw [allocated_congr disk_t]
        exact mem_allocated wf live here
      obtain ⟨bp, u, read, fetched⟩ := bread_spec idle_t unheld_empty (by decide)
      have data := fetched.data addr trusted rfl
      rw [disk_t] at data
      have held := Finset.mem_insert_self bp (∅ : Finset (Fin nbuf))
      have more : tot.toNat < n.toNat := by omega
      have apart := sector_ne_inode wf live here
      rw [writeLoop]
      simp only [UInt32.lt_iff_toNat_lt, more, if_true, position, map_eq, ok_bind, here, if_false,
        read, ← m_eq]
      by_cases stops : c < tot.toNat + m.toNat
      · cases copy : eitherCopyin (u.bufs bp).data (start % bsize) true mem (src + tot.toNat)
            m.toNat with
        | mk copied bytes =>
            cases copied with
            | true =>
                simp only [eitherCopyin, if_true] at copy
                have page := copyinLoop_succeeds m.toNat le_rfl copy (src + c) (by omega) (by omega)
                exact absurd (page.symm.trans faults.2) (by simp)
            | false =>
                obtain ⟨y, released, -, -, -, valid, root, key, -, -⟩ :=
                  fault_spec trusted fetched bytes
                have others : ∀ a, a ≠ bp → (u.setData bp bytes).bufs a = u.bufs a := by
                  intro a differ
                  simp [differ]
                simp only [released, ok_bind, Bool.false_eq_true, if_false, pure_eq_ok]
                refine ensures_ok ⟨(turn_of_release idle_t read fetched others released).pinned
                  pinned_t apart, bp, root, valid, ?_⟩
                rw [key, div_eq_of_within fits (by omega) (by omega)]
      · have copied : eitherCopyin (u.bufs bp).data (start % bsize) true mem (src + tot.toNat)
            m.toNat = _ :=
          eitherCopyin_spec fun _ a lower upper => faults.1 a (by omega) (by omega)
        obtain ⟨x, y, wrote, released, good_y, disk_y, -⟩ := store_spec fetched.fresh fetched.good
          fetched.blockno (copyRange (u.bufs bp).data (start % bsize) mem.bytes (src + tot.toNat)
            m.toNat)
        rw [fetched.disk, disk_t] at disk_y
        have pinned_y := (turn_of_release idle_t read fetched
          (fun a differ => bwrite_others wrote differ) released).pinned pinned_t apart
        have stays : Stays sb w ⟨y, w.inodes⟩ i ∅ := Stays.overwrite wf live here disk_y
        have blocks := fun slot => blocks_of_overwrite wf live here disk_y live slot
        rw [allocated_congr disk_t] at good_y
        have idle_y := idle_of_overwrite (v := w) (wf.data i live _ here) good_y disk_y
        have next_tot : (tot + m).toNat = tot.toNat + m.toNat := by
          rw [UInt32.toNat_add, Nat.mod_eq_of_lt (by omega)]
        have next_off : off + tot + m = off + (tot + m) := by rw [UInt32.add_assoc]
        have rest := ih (w := ⟨y, w.inodes⟩) stays.wellFormed idle_y ((stays.live i).mpr live)
          (fun o lower upper => by rw [blocks]; exact present o lower upper)
          (show (tot + m).toNat ≤ c by omega) (by omega) pinned_y
        simp only [blocks, next_tot, ← Nat.add_assoc, ← next_off] at rest
        simp only [copied, wrote, released, ok_bind, if_true]
        exact rest

/-! ## When `writei` is truthful -/

/-- The first buffer. -/
def firstBuf : Fin nbuf := ⟨0, nbuf_pos⟩

/-- A cache that has one block. -/
def warm (sb : Superblock) (disk : UInt32 → Bytes) (bno : UInt32) : State :=
  (binit disk).setBuf firstBuf
    ⟨false, true, false, rootDev, sb.sector bno, disk (sb.sector bno)⟩

theorem warm_dev {disk : UInt32 → Bytes} {bno : UInt32} {b : Fin nbuf}
    (root : ((warm sb disk bno).bufs b).dev = rootDev) : b = firstBuf := by
  by_contra differ
  rw [warm, State.setBuf_bufs, Function.update_of_ne differ] at root
  exact absurd root (show (0 : UInt32) ≠ 1 by decide)

theorem idle_warm (disk : UInt32 → Bytes) (bno : UInt32) : Idle sb (warm sb disk bno) where
  nodup := List.nodup_finRange _
  complete b := List.mem_finRange b
  clean b := by
    by_cases same : b = firstBuf <;> simp [warm, same, binit]
  busy_iff b := by
    by_cases same : b = firstBuf <;> simp [warm, same, binit]
  held_dev b mem := by simp at mem
  held_valid b mem := by simp at mem
  unique a b root_a root_b _ := (warm_dev root_a).trans (warm_dev root_b).symm
  coherent b _ root _ other _ key := by
    obtain rfl := warm_dev root
    simp only [warm, State.setBuf_bufs, Function.update_self, State.setBuf_disk] at key ⊢
    rw [key]
    rfl

theorem warm_pinned (disk : UInt32 → Bytes) (bno : UInt32) :
    Pinned sb (warm sb disk bno) bno := by
  refine ⟨firstBuf, by simp [warm], by simp [warm], ?_⟩
  have last : (List.finRange nbuf).getLast? = some ⟨125, by decide⟩ := by decide +kernel
  rw [warm, State.setBuf_clink]
  exact fun same => absurd (last.symm.trans same) (by decide)

/-- A torn write leaves bytes in a buffer that the return value does not count. -/
theorem torn_untruthful (wf : v.WellFormed sb) (live : v.Live sb i) {mem : Memory} {src : Nat}
    {off n : UInt32} (off_n : off.toNat + n.toNat < 2 ^ 32)
    (torn : Torn sb v i mem src off.toNat n.toNat) :
    ¬Truthful sb ⟨warm sb v.state.disk (iblock sb i), v.inodes⟩ i true mem src off n := by
  set x : Volume := ⟨warm sb v.state.disk (iblock sb i), v.inodes⟩ with x_eq
  obtain ⟨c, c_lt, faults, counted, o, lower, upper, block, inside, differ⟩ := torn
  have wf_x : x.WellFormed sb := wf.of_disk rfl
  have idle_x : Idle sb x.state := idle_warm v.state.disk (iblock sb i)
  have off_le : off.toNat ≤ (x.inodes i).size.toNat := lower.trans inside.le
  have present : ∀ q, off.toNat ≤ q → q ≤ off.toNat + c →
      x.block sb i (fileSlot (q / bsize)) ≠ 0 := by
    intro q _ q_le
    have le : q / bsize ≤ o / bsize := block ▸ Nat.div_le_div_right q_le
    have below := Nat.div_mul_le_self o bsize
    exact wf_x.noHole i live _
      (lt_of_le_of_lt ((Nat.mul_le_mul_right bsize le).trans below) inside)
  obtain ⟨tot, ip, t, u, k, loop, stop, updated, ended⟩ :=
    loop_ends wf_x idle_x live true mem src off_le off_n
  have run := writei_of_loop off_le off_n loop updated
  set z : Volume := ⟨u, Function.update x.inodes i (grown ip (off + tot))⟩ with z_eq
  rintro ⟨r, jp, s, run', reports, -⟩
  cases run.symm.trans run'
  have tot_le : tot.toNat ≤ c := faults.le (ended.readable rfl)
  obtain ⟨rfl, start⟩ : k = c ∧ (off.toNat + c) / bsize * bsize ≤ off.toNat + tot.toNat ∧
      off.toNat + tot.toNat ≤ o ∧ tot.toNat < 2 ^ 31 := by
    cases ended.ending with
    | done all _ _ => omega
    | short _ _ _ full =>
        exact absurd (room_of_range fun q above below => present q above (by omega)) full
    | fault _ _ _ faults' aligned same _ =>
        have eq := faults'.unique faults
        subst eq
        obtain ⟨first, above⟩ := start_of_aligned aligned same
        have := above o lower block
        refine ⟨rfl, first, this, ?_⟩
        rcases aligned with zero | boundary
        · omega
        · have split := Nat.div_add_mod (off.toNat + tot.toNat) bsize
          rw [Nat.mul_comm, ← same] at split
          omega
  obtain ⟨counted_o, lower_o, small⟩ := start
  -- the buffer of the torn block survives, for the block of the inode is cached
  have pins := writeLoop_pinned (n.toNat + 1) wf_x idle_x live off_n faults c_lt present
    (show (0 : UInt32).toNat ≤ k from Nat.zero_le _) (by simp)
    (warm_pinned v.state.disk (iblock sb i))
  rw [UInt32.toNat_zero, Nat.add_zero, UInt32.add_zero] at pins
  obtain ⟨⟨a, root_a, key_a, -⟩, b, root, valid, key⟩ := pins.of_ok loop
  rw [← block] at key
  have here : x.block sb i (fileSlot (o / bsize)) ≠ 0 := present o lower upper.le
  have apart := sector_ne_inode wf_x live here
  have stays := stop.written.stays.grown wf_x (off + tot)
  simp only [cold, Function.update_self] at stays
  have live_x : x.Live sb i := live
  obtain ⟨held, few, good, free⟩ := stop.unheld live_x
  rw [← stays.1] at free
  obtain ⟨u', updated', good_u, -⟩ := iupdate_spec good free (by rw [stays.1]; rfl) few
  cases updated.symm.trans updated'
  have survives : u.bufs b = t.bufs b := by
    rcases iupdate_others good free few updated b with same | ⟨root_b, key_b⟩
    · exact same
    · rw [stays.1] at key_b
      have inode : (u.bufs a).dev = rootDev ∧ (u.bufs a).blockno = sb.sector (iblock sb i) := by
        rcases iupdate_others good free few updated a with same | moved
        · rw [same]
          exact ⟨root_a, key_a⟩
        · rwa [stays.1] at moved
      have eq := good_u.unique a b inode.1 root_b (inode.2.trans key_b.symm)
      subst eq
      exact absurd (key.symm.trans key_a) apart
  have block_z : z.block sb i (fileSlot (o / bsize)) = x.block sb i (fileSlot (o / bsize)) :=
    ended.card.stable i _ live here
  have grows : o < (z.inodes i).size.toNat := by
    have size : (z.inodes i).size.toNat = _ := ended.card.size
    exact lt_of_lt_of_le inside (size ▸ le_max_left _ _)
  have nonneg : 0 ≤ asInt tot := by
    rw [asInt, if_pos small]
    exact Int.natCast_nonneg _
  have reported := (reports nonneg).cached o grows b (survives ▸ root) (survives ▸ valid)
    (by rw [block_z]; exact survives ▸ key)
  have torn := ended.cached o (grows.trans (z.inodes i).size.toNat_lt) (by rwa [block_z]) b
    (survives ▸ root) (survives ▸ valid) (by rw [block_z]; exact survives ▸ key)
  have old : z.byte sb i o = _ := ended.card.byte_eq off_le grows
  rw [if_pos ⟨lower_o, upper⟩] at torn
  rw [if_neg (by omega)] at old
  exact differ (torn.symm.trans (reported.trans old))

theorem miscounted_untruthful (wf : v.WellFormed sb) (idle : Idle sb v.state) (live : v.Live sb i)
    {userSrc : Bool} {mem : Memory} {src : Nat} {off n : UInt32}
    (off_n : off.toNat + n.toNat < 2 ^ 32)
    (miscounted : Miscounted sb v i userSrc mem src off.toNat n.toNat) :
    ¬Truthful sb v i userSrc mem src off n := by
  have all := miscounted.length
  have start : off.toNat = 0 := by omega
  obtain ⟨tot, ip, t, c, run, ended⟩ :=
    writei_ends wf idle live userSrc mem src (by omega) off_n
  have tot_eq := (ended.ending.whole miscounted.readable miscounted.room).1
  rintro ⟨r, jp, s, run', -, fails⟩
  cases run.symm.trans run'
  have same := (fails (asInt_eq_neg_one.mpr (tot_eq.trans all))).card
  have card := ended.card
  rw [start, tot_eq, all] at card
  have written : Volume.content sb ⟨t, Function.update v.inodes i ip⟩ i = _ := card.content_whole
  have differ := miscounted.differ
  rw [all] at differ
  apply differ
  rw [← written, same, overwrite, List.take_zero, List.nil_append, List.length_nil, Nat.add_zero,
    List.nil_append, List.drop_zero]

theorem byte_congr {s : State} (disk : s.disk = v.state.disk) (o : Nat) :
    Volume.byte sb ⟨s, v.inodes⟩ i o = v.byte sb i o := by
  simp only [byte, block, view_congr disk]

theorem Torn.congr {s : State} (disk : s.disk = v.state.disk) {mem : Memory} {src off n : Nat} :
    Torn sb ⟨s, v.inodes⟩ i mem src off n ↔ Torn sb v i mem src off n := by
  simp only [Torn, byte_congr disk]

theorem Miscounted.congr {s : State} (disk : s.disk = v.state.disk) {userSrc : Bool} {mem : Memory}
    {src off n : Nat} (miscounted : Miscounted sb ⟨s, v.inodes⟩ i userSrc mem src off n) :
    Miscounted sb v i userSrc mem src off n where
  length := miscounted.length
  readable := miscounted.readable
  room := (balanced_congr disk).room_iff.mp miscounted.room
  differ := by
    have same : Volume.content sb ⟨s, v.inodes⟩ i = v.content sb i :=
      List.map_congr_left fun o _ => byte_congr disk o
    exact same ▸ miscounted.differ

/-- Over every cache `writei` is truthful if and only if the source does not fault behind bytes of a
block that the file has and that they would change, and the length is not `-1`. -/
theorem truthful_iff (wf : v.WellFormed sb) (live : v.Live sb i) (userSrc : Bool) (mem : Memory)
    (src : Nat) (off n : UInt32) :
    (∀ s : State, Idle sb s → s.disk = v.state.disk →
      Truthful sb ⟨s, v.inodes⟩ i userSrc mem src off n) ↔
    (off.toNat + n.toNat < 2 ^ 32 → (userSrc = true → ¬Torn sb v i mem src off.toNat n.toNat) ∧
      ¬Miscounted sb v i userSrc mem src off.toNat n.toNat) := by
  constructor
  · intro truthful off_n
    constructor
    · rintro rfl torn
      exact torn_untruthful wf live off_n torn (truthful _ (idle_warm _ _) rfl)
    · intro miscounted
      exact miscounted_untruthful (v := cold v) (wf.of_disk rfl) (idle_binit _) live off_n
        ⟨miscounted.length, miscounted.readable, miscounted.room, miscounted.differ⟩
        (truthful _ (idle_binit _) rfl)
  · intro whole s idle disk
    refine truthful_of_whole (wf.of_disk disk) idle live fun off_n => ?_
    obtain ⟨not_torn, counted⟩ := whole off_n
    exact ⟨fun user torn => not_torn user ((Torn.congr disk).mp torn),
      fun miscounted => counted (miscounted.congr disk)⟩

end Volume

end Fs
end Xv6Duo
