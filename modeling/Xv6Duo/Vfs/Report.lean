import Xv6Duo.Fs.CacheRuns
import Xv6Duo.Fs.TornWrite
import Xv6Duo.Vfs.Append

/-!
# What `filewrite` reports

`filewrite` splits a request into rounds of `writei`. When one of them stops early it returns `-1`,
also when bytes have been written before and the position has moved.
-/

namespace Xv6Duo
namespace Vfs
namespace Append

open Fs Fs.Volume ByteBlock

variable {sb : Superblock} {inum : UInt32} {v w x : Volume}

/-! ## Setting the times -/

/-- The volume after the times of an inode have been set. -/
def timed (v : Volume) (inum : UInt32) (ts : Timespec) : Volume :=
  ⟨v.state, Function.update v.inodes inum { v.inodes inum with mtime := ts, atime := ts }⟩

theorem timed_block (ts : Timespec) (slot : Slot) :
    (timed v inum ts).block sb inum slot = v.block sb inum slot :=
  block_congr (v := v) (w := timed v inum ts)
    (by simp [timed]) (fun _ _ _ _ => rfl) slot

theorem timed_size (ts : Timespec) :
    ((timed v inum ts).inodes inum).size = (v.inodes inum).size := by
  simp [timed]

theorem timed_byte (ts : Timespec) (o : Nat) :
    (timed v inum ts).byte sb inum o = v.byte sb inum o := by
  rw [byte, byte, timed_block]
  rfl

/-- Times are not among the bytes of a file. -/
theorem reported_timed (ts : Timespec) {off : Nat} {source : List UInt8} :
    Reported sb v (timed w inum ts) inum off source ↔ Reported sb v w inum off source := by
  have content : (timed w inum ts).content sb inum = w.content sb inum := by
    rw [Volume.content, Volume.content, timed_size]
    exact List.map_congr_left fun o _ => timed_byte ts o
  constructor
  · rintro ⟨size, card, cached⟩
    simp only [timed_size, timed_block, timed_byte, content] at size card cached
    exact ⟨size, card, cached⟩
  · rintro ⟨size, card, cached⟩
    refine ⟨by rwa [timed_size], by rwa [content], ?_⟩
    simp only [timed_size, timed_block, timed_byte]
    exact cached

/-! ## Rounds -/

/-- What a round has done when it has written the first `tot` bytes of its request. -/
structure Round (sb : Superblock) (inum : UInt32) (v x : Volume) (user : Bool) (mem : Memory)
    (addr off n tot c : Nat) : Prop where
  /-- The volume is well formed. -/
  wellFormed : x.WellFormed sb
  /-- The inode is allocated. -/
  live : x.Live sb inum
  /-- The size grows to the end of the bytes. -/
  size : (x.inodes inum).size.toNat = max (v.inodes inum).size.toNat (off + tot)
  /-- Blocks have been used for slots of the range. -/
  ledger : Ledger sb v x inum (neededSlots off n)
  /-- The source of the bytes can be read. -/
  readable : user = true → PagesIn mem.readable addr tot
  /-- There was room for the blocks of the bytes. -/
  room : v.Room sb inum (neededSlots off tot)
  /-- Why it has stopped. -/
  ending : Ending sb v x inum user mem addr off n tot c
  /-- The bytes are in the file. -/
  reported : (user = true → ¬Torn sb v inum mem addr off n) →
    Reported sb v x inum off (mem.range addr tot)

/-- A round of `filewrite` at a position in the file or at its end. -/
theorem writeRound_ends {off : UInt32} (user : Bool) (mem : Memory) (addr : Nat) {n1 : Nat}
    (ts : Timespec) (wf : v.WellFormed sb) (idle : Idle sb v.state) (live : v.Live sb inum)
    (inside : off.toNat ≤ (v.inodes inum).size.toNat) (small : n1 ≤ writeMax)
    (fits : off.toNat + n1 < 2 ^ 32) :
    ∃ (tot c : Nat) (y : Volume) (s : State) (ip : Inode),
      Fs.writei sb v.state (v.inodes inum) user mem addr off (UInt32.ofNat n1) =
        .ok ((tot : Int), ip, s) ∧ y = timed ⟨s, Function.update v.inodes inum ip⟩ inum ts ∧
      writeRound sb inum v off mem addr n1 user ts =
        .ok ((tot : Int), off + UInt32.ofNat tot, y) ∧
      Round sb inum v y user mem addr off.toNat n1 tot c := by
  have few : n1 < 2 ^ 31 := small.trans_lt (by decide)
  have count : (UInt32.ofNat n1).toNat = n1 := by
    rw [UInt32.toNat_ofNat', Nat.mod_eq_of_lt (by omega)]
  rw [← count] at fits
  obtain ⟨tot, ip, s, c, run, ended⟩ := writei_ends wf idle live user mem addr inside fits
  rw [count] at ended
  have tot_le := ended.ending.le
  have returned : asInt tot = tot.toNat := by rw [asInt, if_pos (by omega)]
  rw [returned] at run
  have moved : UInt32.ofInt (tot.toNat : Int) = UInt32.ofNat tot.toNat := by
    have value : ((tot.toNat : Int) % 2 ^ 32).toNat = tot.toNat := by omega
    rw [UInt32.ofInt, value]
  set z : Volume := ⟨s, Function.update v.inodes inum ip⟩ with z_eq
  have ip_eq : z.inodes inum = ip := Function.update_self ..
  have y_eq : timed z inum ts =
      ⟨s, Function.update v.inodes inum { ip with mtime := ts, atime := ts }⟩ := by
    rw [timed, ip_eq, z_eq, Function.update_idem]
  have set_times : Retimed sb z (timed z inum ts) := retimed rfl
  have wf_z : z.WellFormed sb := ended.card.wellFormed.of_disk (s := s) rfl
  refine ⟨tot.toNat, c, timed z inum ts, s, ip, run, rfl, ?_, ?_⟩
  · simp only [writeRound, run, Except.ok_bind, Except.pure_eq_ok, moved, y_eq]
    by_cases none : tot.toNat = 0
    · rw [none, if_neg (by simp)]
      exact congrArg _ (congrArg (Prod.mk _) (congrArg (·, _) (UInt32.add_zero off).symm))
    · rw [if_pos (by omega)]
  · have size : (z.inodes inum).size.toNat = _ := ended.card.size
    rw [range_length] at size
    refine ⟨set_times.wellFormed wf_z, (set_times.live inum).mpr ((ended.card.live inum).mpr live),
      by rw [set_times.size, size], ?_, ended.readable, ended.room,
      ended.ending.replace id, fun whole => ?_⟩
    · intro more subset
      exact (ended.ledger more subset).trans (Balanced.of_blocks (timed_block ts) fun _ _ => rfl)
    · rw [reported_timed]
      exact ended.reported live inside fun o lower upper below =>
        ended.intact whole (fun _ => by omega) lower upper below

/-- A round that `writei` refuses. -/
theorem writeRound_refused {off : UInt32} {mem : Memory} {addr n1 : Nat} {user : Bool}
    (ts : Timespec) (small : n1 ≤ writeMax)
    (refused : (v.inodes inum).size.toNat < off.toNat ∨ 2 ^ 32 ≤ off.toNat + n1) :
    writeRound sb inum v off mem addr n1 user ts = .ok (-1, off, timed v inum ts) := by
  have few : n1 < 2 ^ 31 := small.trans_lt (by decide)
  have count : (UInt32.ofNat n1).toNat = n1 := by
    rw [UInt32.toNat_ofNat', Nat.mod_eq_of_lt (by omega)]
  have early : off > (v.inodes inum).size ∨ off + UInt32.ofNat n1 < off := by
    have := off.toNat_lt
    rw [gt_iff_lt, UInt32.lt_iff_toNat_lt, UInt32.lt_iff_toNat_lt, UInt32.toNat_add, count]
    omega
  have run : Fs.writei sb v.state (v.inodes inum) user mem addr off (UInt32.ofNat n1) =
      .ok (-1, v.inodes inum, v.state) := by rw [Fs.writei, if_pos early]
  simp only [writeRound, run, Except.ok_bind, Except.pure_eq_ok]
  rfl

/-- The whole request can be written. -/
structure Whole (sb : Superblock) (inum : UInt32) (v : Volume) (user : Bool) (mem : Memory)
    (addr off n : Nat) : Prop where
  /-- It starts in the file or at its end. -/
  inside : off ≤ (v.inodes inum).size.toNat
  /-- It ends at a position. -/
  fits : off + n < 2 ^ 32
  /-- The source can be read. -/
  readable : user = true → PagesIn mem.readable addr n
  /-- There are blocks for the bytes. -/
  room : v.Room sb inum (neededSlots off n)

theorem neededSlots_within {off i m n : Nat} (inside : i + m ≤ n) :
    neededSlots (off + i) m ⊆ neededSlots off n := by
  apply Finset.biUnion_subset_biUnion_of_subset_left
  apply Finset.image_subset_image
  exact Finset.Ico_subset_Ico (by omega) (by omega)

/-- The blocks of a range inside a file are there. -/
theorem room_within (wf : v.WellFormed sb) (live : v.Live sb inum) {off n : Nat}
    (inside : off + n ≤ (v.inodes inum).size.toNat) : v.Room sb inum (neededSlots off n) := by
  apply room_of_range
  intro o _ upper
  have below := Nat.div_mul_le_self o bsize
  exact wf.noHole inum live _ (by omega)

/-- The loop of `filewrite`, which moves the position by as many bytes as are written. -/
theorem writeRounds_ends {off : UInt32} {mem : Memory} {addr n : Nat} {user : Bool}
    (clock : Nat → Timespec) (start : off.toNat ≤ (v.inodes inum).size.toNat) (fuel : Nat) {i : Nat}
    (wf : w.WellFormed sb) (idle : Idle sb w.state) (live : w.Live sb inum)
    (inside : off.toNat + i ≤ (w.inodes inum).size.toNat) (done_le : i ≤ n)
    (enough : n - i + writeMax ≤ fuel * writeMax)
    (ledger : Ledger sb v w inum (neededSlots off.toNat i))
    (readable : user = true → PagesIn mem.readable addr i) :
    ∃ i' k x, writeRounds sb inum mem addr n user clock fuel w (off + UInt32.ofNat i) i =
        .ok (i', off + UInt32.ofNat k, x) ∧ i ≤ k ∧ off.toNat + k < 2 ^ 32 ∧
      (i' = n ↔ Whole sb inum v user mem addr off.toNat n) ∧ (i' = n → k = n) ∧
      (i < n → ∃ r off' y, writeRound sb inum w (off + UInt32.ofNat i) mem (addr + i)
        (min writeMax (n - i)) user (clock (i / writeMax)) = .ok (r, off', y) ∧ i + r ≤ k) := by
  have round : writeMax = 73728 := rfl
  have size_lt := (w.inodes inum).size.toNat_lt
  induction fuel generalizing w i with
  | zero => omega
  | succ fuel ih =>
      rw [writeRounds]
      by_cases more : i < n
      · rw [if_pos more]
        have position : (off + UInt32.ofNat i).toNat = off.toNat + i := by
          rw [UInt32.toNat_add, UInt32.toNat_ofNat']
          omega
        set n1 := min writeMax (n - i) with n1_eq
        have bounds : 0 < n1 ∧ i + n1 ≤ n ∧ n - (i + n1) + writeMax ≤ fuel * writeMax := by
          rw [round] at enough n1_eq ⊢
          omega
        have small : n1 ≤ writeMax := min_le_left _ _
        by_cases refused : 2 ^ 32 ≤ off.toNat + i + n1
        · have run : writeRound sb inum w (off + UInt32.ofNat i) mem (addr + i) n1 user
              (clock (i / writeMax)) = _ :=
            writeRound_refused _ small (Or.inr (by rwa [position]))
          refine ⟨i, i, timed w inum (clock (i / writeMax)), ?_, le_rfl, by omega, ?_, by omega,
            fun _ => ⟨-1, _, _, run, by omega⟩⟩
          · simp only [run, Except.ok_bind]
            rw [if_pos (by omega), Except.pure_eq_ok]
          · constructor
            · intro all
              omega
            · intro whole
              have := whole.fits
              omega
        · obtain ⟨tot, c, y, s, ip, -, -, run, ended⟩ := writeRound_ends user mem (addr + i)
            (clock (i / writeMax)) wf idle live (by rwa [position]) small
            (show (off + UInt32.ofNat i).toNat + n1 < 2 ^ 32 by rw [position]; omega)
          rw [position] at ended
          have next : off + UInt32.ofNat i + UInt32.ofNat tot = off + UInt32.ofNat (i + tot) := by
            rw [UInt32.add_assoc, UInt32.ofNat_add]
          rw [next] at run
          have tot_le := ended.ending.le
          by_cases full : tot = n1
          · subst full
            have idle_y : Idle sb y.state := by
              cases ended.ending with
              | done _ _ idle_y => exact idle_y
              | short left _ _ _ => omega
              | fault _ lower upper _ _ _ _ => omega
            have size := ended.size
            have both : Ledger sb v y inum (neededSlots off.toNat (i + n1)) :=
              ledger.trans ended.ledger (neededSlots_mono (by omega)) (neededSlots_within le_rfl)
            have pages : user = true → PagesIn mem.readable addr (i + n1) := by
              intro from_user a low high
              by_cases old : a < addr + i
              · exact readable from_user a low old
              · exact ended.readable from_user a (by omega) (by omega)
            obtain ⟨i', k, z, rest, k_le, k_lt, all, exact_k, -⟩ :=
              ih ended.wellFormed idle_y ended.live
              (by omega) bounds.2.1 bounds.2.2 both pages (y.inodes inum).size.toNat_lt
            refine ⟨i', k, z, ?_, by omega, k_lt, all, exact_k,
              fun _ => ⟨n1, _, _, run, by omega⟩⟩
            simp only [run, Except.ok_bind, ne_eq, not_true_eq_false, if_false]
            exact rest
          · refine ⟨i, i + tot, y, ?_, by omega, by omega, ?_, by omega,
              fun _ => ⟨tot, _, _, run, by omega⟩⟩
            · simp only [run, Except.ok_bind]
              rw [if_pos (by omega), Except.pure_eq_ok]
            · constructor
              · intro all
                omega
              · intro whole
                have room := (ledger _ (neededSlots_mono done_le)).room_iff.mpr whole.room
                have done := ended.ending.whole
                  (fun from_user a low high => whole.readable from_user a (by omega) (by omega))
                  (room.mono (neededSlots_within bounds.2.1))
                exact absurd done.1 full
      · obtain rfl : i = n := by omega
        rw [if_neg more]
        refine ⟨i, i, w, rfl, le_rfl, by omega, ⟨fun _ => ?_, fun _ => rfl⟩, fun _ => rfl,
          fun less => absurd less more⟩
        exact ⟨start, by omega, readable,
          (ledger _ (Finset.Subset.refl _)).room_iff.mp (room_within wf live inside)⟩

/-! ## When `filewrite` is honest -/

/-- `filewrite` returns the number of bytes by which the position moves, or it fails and leaves the
position and the file. -/
def Honest (sb : Superblock) (inum : UInt32) (v : Volume) (file : OpenFile) (mem : Memory)
    (addr : Nat) (n : Int) (user : Bool) (clock : Nat → Timespec) : Prop :=
  ∃ r file' w, filewrite sb inum v file mem addr n user clock = .ok (r, file', w) ∧
    (0 ≤ r → (file'.off.toNat : Int) = file.off.toNat + r) ∧
    (r < 0 → file'.off = file.off ∧ Unchanged sb v w inum)

/-- A round of `n1` bytes stops before its first byte. -/
def Stops (sb : Superblock) (inum : UInt32) (v : Volume) (user : Bool) (mem : Memory)
    (addr off n1 : Nat) : Prop :=
  ¬v.Room sb inum (neededSlots off 1) ∨
    user = true ∧ ∃ c < min n1 (bsize - off % bsize), Faults mem addr c

/-- A round of `n1` bytes writes nothing. -/
def Nothing (sb : Superblock) (inum : UInt32) (v : Volume) (user : Bool) (mem : Memory)
    (addr off n1 : Nat) : Prop :=
  (v.inodes inum).size.toNat < off ∨ 2 ^ 32 ≤ off + n1 ∨
    Stops sb inum v user mem addr off n1 ∧ (user = true → ¬Torn sb v inum mem addr off n1)

theorem Round.stops_iff {user : Bool} {mem : Memory} {addr off n1 tot c : Nat}
    (round : Round sb inum v x user mem addr off n1 tot c) (positive : 0 < n1) :
    tot = 0 ↔ Stops sb inum v user mem addr off n1 := by
  constructor
  · rintro rfl
    cases round.ending with
    | done all _ _ => omega
    | short _ _ _ full => exact Or.inl full
    | fault user _ upper faults _ same _ =>
        refine Or.inr ⟨user, c, lt_min upper ?_, faults⟩
        simp only [bsize, Nat.add_zero] at same ⊢
        omega
  · rintro (full | ⟨from_user, k, k_lt, faults⟩)
    · by_contra some_bytes
      exact full (round.room.mono (neededSlots_mono (Nat.pos_of_ne_zero some_bytes)))
    · have tot_le := faults.le (round.readable from_user)
      rw [lt_min_iff] at k_lt
      simp only [bsize] at k_lt
      cases round.ending with
      | done all _ _ => omega
      | short _ _ aligned _ =>
          simp only [bsize] at aligned
          omega
      | fault _ _ _ _ aligned _ _ =>
          simp only [bsize] at aligned
          omega

theorem stops_congr {s : State} (disk : s.disk = v.state.disk) {user : Bool} {mem : Memory}
    {addr off n1 : Nat} : Stops sb inum ⟨s, v.inodes⟩ user mem addr off n1 ↔
      Stops sb inum v user mem addr off n1 := by
  rw [Stops, Stops, (balanced_congr disk).room_iff]

/-- No bytes at a position in the file. -/
theorem unchanged_of_reported {off : Nat} (inside : off ≤ (v.inodes inum).size.toNat) :
    Reported sb v w inum off [] ↔ Unchanged sb v w inum := by
  have same : ∀ k, overwrite (v.content sb inum) k [] = v.content sb inum :=
    fun _ => overwrite_nil
  have largest : max (v.inodes inum).size.toNat off = max (v.inodes inum).size.toNat 0 := by
    rw [max_eq_left inside, max_eq_left (Nat.zero_le _)]
  constructor
  · rintro ⟨size, card, cached⟩
    exact ⟨size.trans largest, card.trans ((same _).trans (same _).symm), cached⟩
  · rintro ⟨size, card, cached⟩
    exact ⟨size.trans largest.symm, card.trans ((same _).trans (same _).symm), cached⟩

theorem filewrite_of_rounds {file : OpenFile} {mem : Memory} {addr : Nat} {n : Int} {user : Bool}
    {clock : Nat → Timespec} {i : Nat} {off : UInt32} (writable : file.writable = true)
    (positive : 0 < n) (run : writeRounds sb inum mem addr n.toNat user clock (writeFuel n.toNat) v
      file.off 0 = .ok (i, off, w)) :
    filewrite sb inum v file mem addr n user clock =
      .ok (if i = n.toNat then n else -1, { file with off := off }, w) := by
  have can_write : ¬file.writable = false := by simp [writable]
  have all : (i : Int) = n ↔ i = n.toNat := by omega
  rw [filewrite, if_neg can_write, if_pos positive]
  simp only [run, Except.ok_bind, all, Except.pure_eq_ok]

/-- A round that stops early is the last one. -/
theorem writeRounds_stop {mem : Memory} {addr n : Nat} {user : Bool} {clock : Nat → Timespec}
    {fuel : Nat} {off off' : UInt32} {r : Int} (positive : 0 < n)
    (run : writeRound sb inum v off mem addr (min writeMax n) user (clock 0) = .ok (r, off', w))
    (early : r ≠ (min writeMax n : Nat)) :
    writeRounds sb inum mem addr n user clock (fuel + 1) v off 0 = .ok (0, off', w) := by
  simp only [writeRounds, positive, if_true, Nat.sub_zero, Nat.add_zero, Nat.zero_div, run,
    Except.ok_bind, ne_eq, early, not_false_eq_true, Except.pure_eq_ok]

/-- All rounds of a request that can be written. -/
theorem honest_of_whole {file : OpenFile} {mem : Memory} {addr : Nat} {n : Int} {user : Bool}
    (clock : Nat → Timespec) (wf : v.WellFormed sb) (idle : Idle sb v.state) (live : v.Live sb inum)
    (writable : file.writable = true) (positive : 0 < n)
    (whole : Whole sb inum v user mem addr file.off.toNat n.toNat) :
    Honest sb inum v file mem addr n user clock := by
  have enough : n.toNat - 0 + writeMax ≤ writeFuel n.toNat * writeMax := by
    rw [writeFuel, writeMax]
    omega
  obtain ⟨i, k, w, run, -, -, all, exact_k, -⟩ := writeRounds_ends clock whole.inside
    (writeFuel n.toNat) wf idle live whole.inside (Nat.zero_le _) enough Ledger.refl
    (fun _ a low high => by omega)
  have done := all.mpr whole
  rw [exact_k done] at run
  have origin : file.off + UInt32.ofNat 0 = file.off := UInt32.add_zero _
  rw [origin] at run
  refine ⟨_, _, _, filewrite_of_rounds writable positive run, ?_, ?_⟩
  · intro _
    have fits := whole.fits
    rw [if_pos done, UInt32.toNat_add, UInt32.toNat_ofNat']
    omega
  · intro negative
    rw [if_pos done] at negative
    omega

/-- A request of which nothing is written. -/
theorem honest_of_nothing {file : OpenFile} {mem : Memory} {addr : Nat} {n : Int} {user : Bool}
    (clock : Nat → Timespec) (wf : v.WellFormed sb) (idle : Idle sb v.state) (live : v.Live sb inum)
    (writable : file.writable = true) (positive : 0 < n)
    (nothing : Nothing sb inum v user mem addr file.off.toNat (min writeMax n.toNat)) :
    Honest sb inum v file mem addr n user clock := by
  have small : min writeMax n.toNat ≤ writeMax := min_le_left _ _
  have some_bytes : 0 < min writeMax n.toNat := lt_min (by decide) (by omega)
  have fails : ∀ {r w}, writeRound sb inum v file.off mem addr (min writeMax n.toNat) user
      (clock 0) = .ok (r, file.off, w) → r ≠ (min writeMax n.toNat : Nat) →
      Unchanged sb v w inum → Honest sb inum v file mem addr n user clock := by
    intro r w run early unchanged
    have rounds : writeRounds sb inum mem addr n.toNat user clock (writeFuel n.toNat) v file.off 0 =
        .ok (0, file.off, w) := writeRounds_stop (by omega) run early
    have run := filewrite_of_rounds writable positive rounds
    rw [if_neg (by omega)] at run
    exact ⟨-1, _, _, run, fun nonneg => absurd nonneg (by decide), fun _ => ⟨rfl, unchanged⟩⟩
  by_cases refused : (v.inodes inum).size.toNat < file.off.toNat ∨
      2 ^ 32 ≤ file.off.toNat + min writeMax n.toNat
  · refine fails (writeRound_refused (clock 0) small refused) (by omega) ?_
    exact (reported_timed _).mpr (unchanged_of_idle wf idle live)
  · obtain ⟨inside, fits⟩ := not_or.mp refused
    obtain ⟨stops, whole⟩ : Stops sb inum v user mem addr file.off.toNat (min writeMax n.toNat) ∧
        (user = true → ¬Torn sb v inum mem addr file.off.toNat (min writeMax n.toNat)) := by
      rcases nothing with far | wraps | rest
      · exact absurd far inside
      · exact absurd wraps fits
      · exact rest
    obtain ⟨tot, c, y, s, ip, -, -, run, ended⟩ := writeRound_ends user mem addr (clock 0) wf idle
      live (not_lt.mp inside) small (not_le.mp fits)
    have none := (ended.stops_iff some_bytes).mpr stops
    subst none
    have reported := ended.reported whole
    have origin : file.off + UInt32.ofNat 0 = file.off := UInt32.add_zero _
    rw [origin] at run
    exact fails run (by omega) ((unchanged_of_reported (not_lt.mp inside)).mp reported)

/-- A request that is written in part, or whose first round is torn. -/
theorem dishonest {file : OpenFile} {mem : Memory} {addr : Nat} {n : Int} {user : Bool}
    (clock : Nat → Timespec) (wf : v.WellFormed sb) (live : v.Live sb inum)
    (writable : file.writable = true) (positive : 0 < n)
    (not_whole : ¬Whole sb inum v user mem addr file.off.toNat n.toNat)
    (not_nothing : ¬Nothing sb inum v user mem addr file.off.toNat (min writeMax n.toNat)) :
    ¬Honest sb inum ⟨warm sb v.state.disk (iblock sb inum), v.inodes⟩ file mem addr n user
      clock := by
  set x : Volume := ⟨warm sb v.state.disk (iblock sb inum), v.inodes⟩ with x_eq
  set n1 := min writeMax n.toNat with n1_eq
  have small : n1 ≤ writeMax := min_le_left _ _
  have some_bytes : 0 < n1 := lt_min (by decide) (by omega)
  have n1_le : n1 ≤ n.toNat := min_le_right _ _
  have wf_x : x.WellFormed sb := wf.of_disk rfl
  have idle_x : Idle sb x.state := idle_warm v.state.disk (iblock sb inum)
  have live_x : x.Live sb inum := live
  obtain ⟨inside, fits, torn⟩ : file.off.toNat ≤ (v.inodes inum).size.toNat ∧
      file.off.toNat + n1 < 2 ^ 32 ∧ (Stops sb inum v user mem addr file.off.toNat n1 →
        user = true ∧ Torn sb v inum mem addr file.off.toNat n1) := by
    simp only [Nothing, not_or, not_lt, not_le, not_and] at not_nothing
    refine ⟨not_nothing.1, not_nothing.2.1, fun stops => ?_⟩
    have := not_nothing.2.2 stops
    push Not at this
    exact this
  obtain ⟨tot, c, y, s, ip, written, y_eq, run, ended⟩ := writeRound_ends user mem addr (clock 0)
    wf_x idle_x live_x inside small fits
  have tot_le := ended.ending.le
  have enough : n.toNat - 0 + writeMax ≤ writeFuel n.toNat * writeMax := by
    rw [writeFuel, writeMax]
    omega
  rintro ⟨r, file', w, run', -, fails⟩
  by_cases none : tot = 0
  · subst none
    obtain ⟨rfl, torn⟩ := torn ((ended.stops_iff some_bytes).mp rfl)
    have origin : file.off + UInt32.ofNat 0 = file.off := UInt32.add_zero _
    rw [origin] at run
    have rounds : writeRounds sb inum mem addr n.toNat true clock (writeFuel n.toNat) x file.off 0 =
        .ok (0, file.off, y) := writeRounds_stop (by omega) run (by omega)
    have all := filewrite_of_rounds writable positive rounds
    rw [if_neg (by omega)] at all
    cases all.symm.trans run'
    have count : (UInt32.ofNat n1).toNat = n1 := by
      have few : n1 < 2 ^ 31 := small.trans_lt (by decide)
      rw [UInt32.toNat_ofNat', Nat.mod_eq_of_lt (by omega)]
    refine torn_untruthful wf live (by rwa [count]) (by rwa [count]) ⟨_, _, _, written, ?_, ?_⟩
    · intro _
      have unchanged := (fails (by decide)).2
      rw [y_eq] at unchanged
      exact (unchanged_of_reported (v := x) inside).mpr ((reported_timed _).mp unchanged)
    · intro failed
      exact absurd failed (by decide)
  · obtain ⟨i, k, z, rounds, -, k_lt, all, -, first⟩ := writeRounds_ends (v := x) clock inside
      (writeFuel n.toNat) wf_x idle_x live_x inside (Nat.zero_le _) enough Ledger.refl
      (fun _ a low high => by omega)
    have origin : file.off + UInt32.ofNat 0 = file.off := UInt32.add_zero _
    rw [origin] at rounds first
    obtain ⟨r', off', y', run'', moved⟩ := first (by omega)
    clear first
    cases run''.symm.trans run
    have part : ¬i = n.toNat := by
      intro whole
      obtain ⟨inside_x, fits_x, readable, room⟩ := all.mp whole
      exact not_whole ⟨inside_x, fits_x, readable, room⟩
    have result := filewrite_of_rounds writable positive rounds
    rw [if_neg part] at result
    cases result.symm.trans run'
    have stays := congrArg UInt32.toNat (fails (by decide)).1
    have later : (file.off + UInt32.ofNat k).toNat = file.off.toNat + k := by
      rw [UInt32.toNat_add, UInt32.toNat_ofNat']
      omega
    have k_pos : 0 < k := by omega
    rw [later] at stays
    omega

/-- Over every cache `filewrite` is honest if and only if the whole request can be written, or
nothing of it is. -/
theorem honest_iff (wf : v.WellFormed sb) (live : v.Live sb inum) (file : OpenFile) (mem : Memory)
    (addr : Nat) (n : Int) (user : Bool) (clock : Nat → Timespec) :
    (∀ s : State, Idle sb s → s.disk = v.state.disk →
      Honest sb inum ⟨s, v.inodes⟩ file mem addr n user clock) ↔
    (file.writable = false ∨ n ≤ 0 ∨ Whole sb inum v user mem addr file.off.toNat n.toNat ∨
      Nothing sb inum v user mem addr file.off.toNat (min writeMax n.toNat)) := by
  constructor
  · intro honest
    by_contra none
    simp only [not_or, not_le, Bool.not_eq_false] at none
    exact dishonest clock wf live none.1 none.2.1 none.2.2.1 none.2.2.2
      (honest _ (idle_warm _ _) rfl)
  · intro condition s idle disk
    have wf_s := wf.of_disk disk
    have refused : (file.writable = false ∨ n ≤ 0) →
        Honest sb inum ⟨s, v.inodes⟩ file mem addr n user clock := by
      intro early
      have unchanged := unchanged_of_idle wf_s idle live
      by_cases writable : file.writable = false
      · exact ⟨-1, file, _, by rw [filewrite, if_pos writable]; rfl, fun nonneg =>
          absurd nonneg (by decide), fun _ => ⟨rfl, unchanged⟩⟩
      · have none := early.resolve_left writable
        refine ⟨if n = 0 then n else -1, file, _, by
          rw [filewrite, if_neg writable, if_neg (not_lt.mpr none)]; rfl, fun nonneg => ?_,
          fun _ => ⟨rfl, unchanged⟩⟩
        split at nonneg <;> omega
    by_cases early : file.writable = false ∨ n ≤ 0
    · exact refused early
    · simp only [not_or, not_le, Bool.not_eq_false] at early
      obtain ⟨writable, positive⟩ := early
      rcases condition with no | none | whole | nothing
      · simp [no] at writable
      · omega
      · exact honest_of_whole clock wf_s idle live writable positive
          ⟨whole.inside, whole.fits, whole.readable, (balanced_congr disk).room_iff.mpr whole.room⟩
      · refine honest_of_nothing clock wf_s idle live writable positive ?_
        rw [Nothing, stops_congr disk, Torn.congr disk]
        exact nothing

/-- For every allocated inode of a well-formed volume and every cache over it. `writei` replaces the
bytes that it counts and no others, and leaves the file when it returns `-1`, if and only if the
source does not fault in the middle of a block of the file, behind bytes that differ from its own,
and the length is not `-1` as an `int`. `filewrite` counts the bytes by which the position moves,
and leaves position and file when it fails, if and only if the whole request can be written or
nothing of it. -/
theorem writes_report_iff (wf : v.WellFormed sb) (live : v.Live sb inum) :
    (∀ (userSrc : Bool) (mem : Memory) (src : Nat) (off n : UInt32),
      (∀ s : State, Idle sb s → s.disk = v.state.disk →
        Truthful sb ⟨s, v.inodes⟩ inum userSrc mem src off n) ↔
      (off.toNat + n.toNat < 2 ^ 32 →
        (userSrc = true → ¬Torn sb v inum mem src off.toNat n.toNat) ∧
          ¬Miscounted sb v inum userSrc mem src off.toNat n.toNat)) ∧
    ∀ (file : OpenFile) (mem : Memory) (addr : Nat) (n : Int) (user : Bool)
      (clock : Nat → Timespec),
      (∀ s : State, Idle sb s → s.disk = v.state.disk →
        Honest sb inum ⟨s, v.inodes⟩ file mem addr n user clock) ↔
      (file.writable = false ∨ n ≤ 0 ∨ Whole sb inum v user mem addr file.off.toNat n.toNat ∨
        Nothing sb inum v user mem addr file.off.toNat (min writeMax n.toNat)) :=
  ⟨truthful_iff wf live, honest_iff wf live⟩

/-- 50000 letters are written to the empty file, with `writei` and with `filewrite`. -/
theorem letters_reported : Truthful mkfsSuper fresh 2 false letters 0 0 50000 ∧
    Honest mkfsSuper 2 fresh ⟨0, true⟩ letters 0 50000 false fun _ => ⟨0, 0⟩ := by
  have reports := writes_report_iff fresh_wellFormed ((fresh_live_iff 2).mpr rfl)
  constructor
  · refine (reports.1 false letters 0 0 50000).mpr ?_ fresh.state (idle_binit _) rfl
    intro _
    constructor
    · intro user
      cases user
    · intro miscounted
      exact absurd miscounted.length (by decide)
  · refine (reports.2 ⟨0, true⟩ letters 0 50000 false _).mpr ?_ fresh.state (idle_binit _) rfl
    exact Or.inr (Or.inr (Or.inl ⟨Nat.zero_le _, by decide, nofun, ofFile_room (by decide)⟩))

/-- The first page is the source, the next one cannot be read. -/
theorem onePage_faults {src c : Nat} (end_page : src + c = 4096) : Faults onePage src c := by
  constructor
  · intro a _ upper
    have first : a / pgSize = 0 := Nat.div_eq_of_lt (by rw [pgSize]; omega)
    rw [first]
    rfl
  · rw [end_page]
    rfl

/-- A file of five letters, of which three bytes are to be replaced by two that can be read and one
that cannot: `writei` returns `0`, and the buffer has the two. A page and a byte that cannot be read
are to be written to the empty file: `filewrite` returns `-1` behind the page. -/
theorem writes_misreport :
    (∃ v, v.WellFormed mkfsSuper ∧ v.Live mkfsSuper 2 ∧ Idle mkfsSuper v.state ∧
      ¬Truthful mkfsSuper v 2 true onePage 4094 0 3) ∧
    ∃ v, v.WellFormed mkfsSuper ∧ v.Live mkfsSuper 2 ∧ Idle mkfsSuper v.state ∧
      ¬Honest mkfsSuper 2 v ⟨0, true⟩ onePage 0 4097 true fun _ => ⟨0, 0⟩ := by
  have live : fresh.Live mkfsSuper 2 := (fresh_live_iff 2).mpr rfl
  constructor
  · obtain ⟨ip, t, -, card⟩ := writei_spec fresh_wellFormed (idle_binit _) live
      (show (0 : UInt32).toNat ≤ (fresh.inodes 2).size.toNat from Nat.zero_le _)
      (show (0 : UInt32).toNat + (5 : UInt32).toNat < 2 ^ 32 by decide)
      (show false = true → PagesIn letters.readable 0 (5 : UInt32).toNat from nofun) fresh_room
    set v : Volume := ⟨t, Function.update fresh.inodes 2 ip⟩
    have live_v : v.Live mkfsSuper 2 := (card.live 2).mpr live
    have size : (v.inodes 2).size.toNat = 5 := by
      rw [card.size, fresh_size, range_length]
      rfl
    have first : v.byte mkfsSuper 2 0 = 97 := by
      rw [card.byte_eq (Nat.zero_le _) (by omega), if_pos (by decide)]
      rfl
    refine ⟨⟨warm mkfsSuper t.disk (iblock mkfsSuper 2), v.inodes⟩, card.wellFormed.of_disk rfl,
      live_v, idle_warm _ _, torn_untruthful card.wellFormed live_v (by decide) ?_⟩
    refine ⟨2, by decide, onePage_faults rfl, by decide, 0, le_rfl, by decide, by decide, by omega,
      ?_⟩
    rw [first]
    decide
  · refine ⟨⟨warm mkfsSuper fresh.state.disk (iblock mkfsSuper 2), fresh.inodes⟩,
      fresh_wellFormed.of_disk rfl, live, idle_warm _ _, dishonest _ fresh_wellFormed live rfl
      (by decide) ?_ ?_⟩
    · intro whole
      have page := whole.readable rfl 4096 (by decide) (by decide)
      exact absurd page (by decide)
    · rintro (far | wraps | ⟨full | ⟨-, c, c_lt, faults⟩, -⟩)
      · exact absurd far (by simp)
      · exact absurd wraps (by decide)
      · exact full (fresh_room.mono (neededSlots_mono (by decide)))
      · have page : Faults onePage 0 4096 := onePage_faults rfl
        have eq := faults.unique page
        subst eq
        exact absurd c_lt (by decide)

end Append
end Vfs
end Xv6Duo
