import Xv6Duo.Fs.FileArray
import Xv6Duo.Vfs.Files

/-!
# Writers that append

`filewrite` on the open files of one inode, whose calls come in any order from any process. Each
open file has a position of its own, which `fileopen` sets to the size of the file when it is opened
with `O_APPEND`; descriptors that `dup` and `fork` make share it. Here the inode blocks are on the
card, as `writei` finds them.
-/

namespace Xv6Duo
namespace Vfs
namespace Append

open Fs Fs.Volume GuardedRun

/-! ## The calls -/

/-- A `struct file` of the inode. -/
structure OpenFile where
  /-- Position. -/
  off : UInt32
  /-- Open for writing. -/
  writable : Bool
  deriving DecidableEq

variable (sb : Superblock) (inum : UInt32)

/-- A round of `filewrite`; the return value of `writei` and the new position. -/
def writeRound (v : Volume) (off : UInt32) (mem : Memory) (addr n1 : Nat) (user : Bool)
    (ts : Timespec) : Except Fault (Int × UInt32 × Volume) := do
  let (r, ip, s) ← Fs.writei sb v.state (v.inodes inum) user mem addr off (UInt32.ofNat n1)
  let off := if r > 0 then off + UInt32.ofInt r else off
  return (r, off, ⟨s, Function.update v.inodes inum { ip with mtime := ts, atime := ts }⟩)

/-- The loop of `filewrite`, which gives the number of bytes written in full rounds. -/
def writeRounds (mem : Memory) (addr n : Nat) (user : Bool) (clock : Nat → Timespec) :
    Nat → Volume → UInt32 → Nat → Except Fault (Nat × UInt32 × Volume)
  | 0, _, _, _ => .error .loops
  | fuel + 1, v, off, i =>
      if i < n then do
        let n1 := min writeMax (n - i)
        let (r, off, v) ← writeRound sb inum v off mem (addr + i) n1 user (clock (i / writeMax))
        if r ≠ n1 then return (i, off, v)
        else writeRounds mem addr n user clock fuel v off (i + n1)
      else return (i, off, v)

/-- `filewrite` of `n` bytes to a file of the inode. -/
def filewrite (v : Volume) (file : OpenFile) (mem : Memory) (addr : Nat) (n : Int) (user : Bool)
    (clock : Nat → Timespec) : Except Fault (Int × OpenFile × Volume) :=
  if file.writable = false then return (-1, file, v)
  else if 0 < n then do
    let (i, off, v) ← writeRounds sb inum mem addr n.toNat user clock (writeFuel n.toNat) v
      file.off 0
    return (if (i : Int) = n then n else -1, { file with off := off }, v)
  else return (if n = 0 then n else -1, file, v)

/-- The file that `fileopen` makes of the inode. -/
def fileopen (v : Volume) (flags : UInt32) : OpenFile where
  off := if flags &&& oAppend ≠ 0 then (v.inodes inum).size else 0
  writable := fileWritable flags

/-- The volume, the open files of the inode, and the descriptors of all processes. -/
structure World where
  /-- Volume. -/
  volume : Volume
  /-- `ftable`. -/
  files : Nat → Option OpenFile
  /-- The file of a descriptor. -/
  fds : Nat → Option Nat

/-- A call. -/
inductive Call
  /-- `openat`, with the descriptor and the file that are free. -/
  | openat (fd f : Nat) (flags : UInt32)
  /-- `dup` or `fork`, with the descriptor that is free. -/
  | dup (fd copy : Nat)
  /-- `write` of `n` bytes. -/
  | write (fd : Nat) (user : Bool) (mem : Memory) (addr : Nat) (n : Int) (clock : Nat → Timespec)

/-- One call. -/
def step (w : World) : Call → Except Fault World
  | .openat fd f flags =>
      .ok { w with
        files := Function.update w.files f (some (fileopen inum w.volume flags))
        fds := Function.update w.fds fd (some f) }
  | .dup fd copy => .ok { w with fds := Function.update w.fds copy (w.fds fd) }
  | .write fd user mem addr n clock =>
      match w.fds fd with
      | none => .error .badPointer
      | some f =>
          match w.files f with
          | none => .error .badPointer
          | some file => do
              let (_, file, volume) ← filewrite sb inum w.volume file mem addr n user clock
              return { w with volume, files := Function.update w.files f (some file) }

/-- The file behind a descriptor. -/
def World.file (w : World) (fd : Nat) : Option OpenFile := (w.fds fd).bind w.files

/-- Files are opened with `O_APPEND`; the memory of a write can be read, there are blocks for it,
and the position stays a number that the code can count. -/
def Admits (w : World) : Call → Prop
  | .openat fd f flags => w.fds fd = none ∧ w.files f = none ∧ flags &&& oAppend ≠ 0
  | .dup _ copy => w.fds copy = none
  | .write fd user mem addr n _ =>
      ∃ file, w.file fd = some file ∧ file.writable = true ∧ n < 2 ^ 31 ∧
        file.off.toNat + n.toNat < 2 ^ 32 ∧ (user = true → PagesIn mem.readable addr n.toNat) ∧
        w.volume.Room sb inum (neededSlots file.off.toNat n.toNat)

/-- The bytes that a call writes. -/
def Call.bytes : Call → List UInt8
  | .openat _ _ _ => []
  | .dup _ _ => []
  | .write _ _ mem addr n _ => mem.range addr n.toNat

/-- The position of a file that is written is the size of the file. -/
def AtEnd (w : World) : Call → Prop
  | .openat _ _ _ => True
  | .dup _ _ => True
  | .write fd _ _ _ n _ => 0 < n → ∀ file, w.file fd = some file →
      file.off = (w.volume.inodes inum).size

/-! ## One call -/

variable {sb inum} {v w : Volume} {slots : Finset Slot}

/-- A volume after the times of an inode have been set. -/
structure Retimed (sb : Superblock) (v w : Volume) : Prop where
  /-- The card and the cache are as before. -/
  state : w.state = v.state
  /-- The volume stays well formed. -/
  wellFormed : v.WellFormed sb → w.WellFormed sb
  /-- The same inodes are allocated. -/
  live : ∀ j, w.Live sb j ↔ v.Live sb j
  /-- Sizes are as before. -/
  size : ∀ j, (w.inodes j).size = (v.inodes j).size
  /-- The files have their bytes. -/
  content : ∀ j, w.content sb j = v.content sb j
  /-- There is the same room. -/
  room : ∀ j slots, v.Room sb j slots → w.Room sb j slots

theorem retimed {ip : Inode}
    (fields : ip = { v.inodes inum with atime := ip.atime, mtime := ip.mtime }) :
    Retimed sb v ⟨v.state, Function.update v.inodes inum ip⟩ := by
  have blocks (j : UInt32) (slot : Slot) :
      Volume.block sb ⟨v.state, Function.update v.inodes inum ip⟩ j slot = v.block sb j slot := by
    have addrs : (Function.update v.inodes inum ip j).addrs = (v.inodes j).addrs :=
      field_update Inode.addrs (by rw [fields]) j
    exact block_congr (v := v) (w := ⟨v.state, Function.update v.inodes inum ip⟩) addrs
      (fun _ _ _ _ => rfl) slot
  have live (j : UInt32) :
      Volume.Live sb ⟨v.state, Function.update v.inodes inum ip⟩ j ↔ v.Live sb j := by
    rw [Live, Live, field_update Inode.type (by rw [fields]) j]
  have size (j : UInt32) : (Function.update v.inodes inum ip j).size = (v.inodes j).size :=
    field_update Inode.size (by rw [fields]) j
  refine ⟨rfl, ?_, live, size, ?_, ?_⟩
  · intro wf
    refine wf.of_blocks (field_update Inode.inum (by rw [fields])) live (fun j _ => blocks j)
      (fun _ _ => rfl) ?_
    intro j live_j bn below
    rw [size j] at below
    exact wf.noHole j live_j bn below
  · intro j
    rw [Volume.content, Volume.content, size j]
    apply List.map_congr_left
    intro o _
    rw [byte, byte, blocks]
  · intro j slots room
    have slots_eq : emptySlots sb ⟨v.state, Function.update v.inodes inum ip⟩ j slots =
        v.emptySlots sb j slots := Finset.filter_congr fun slot _ => by rw [blocks]
    rw [Room, slots_eq]
    exact room

/-- The file after some bytes have been written from a position on. -/
structure Wrote (sb : Superblock) (inum : UInt32) (v w : Volume) (slots : Finset Slot) (off : Nat)
    (source : List UInt8) : Prop where
  /-- The volume is well formed. -/
  wellFormed : w.WellFormed sb
  /-- No buffer is busy. -/
  idle : Idle sb w.state
  /-- The inode is allocated. -/
  live : w.Live sb inum
  /-- The size grows to the end of the bytes. -/
  size : (w.inodes inum).size.toNat = max (v.inodes inum).size.toNat (off + source.length)
  /-- The bytes are in the file. -/
  content : w.content sb inum = overwrite (v.content sb inum) off source
  /-- The room for the call remains. -/
  room : w.Room sb inum slots

theorem content_length : (v.content sb inum).length = (v.inodes inum).size.toNat := by
  rw [Volume.content, List.length_map, List.length_range]

theorem overwrite_nil {α : Type*} {bytes : List α} {off : Nat} :
    overwrite bytes off [] = bytes := by
  rw [overwrite, List.append_nil, List.length_nil, Nat.add_zero, List.take_append_drop]

/-- Bytes behind others. -/
theorem overwrite_overwrite {α : Type*} {bytes first second : List α} {off : Nat}
    (inside : off ≤ bytes.length) :
    overwrite (overwrite bytes off first) (off + first.length) second =
      overwrite bytes off (first ++ second) := by
  have head : (bytes.take off ++ first).length = off + first.length := by
    rw [List.length_append, List.length_take_of_le inside]
  rw [overwrite, overwrite, overwrite, ← head, List.take_left, List.drop_append, List.drop_drop,
    List.drop_of_length_le (Nat.le_add_right _ _), List.nil_append, head, List.length_append,
    List.append_assoc (bytes.take off)]
  congr 2
  omega

/-- Bytes at the end. -/
theorem overwrite_end {α : Type*} {bytes source : List α} :
    overwrite bytes bytes.length source = bytes ++ source := by
  rw [overwrite, List.take_length, List.drop_of_length_le (Nat.le_add_right _ _), List.append_nil]

theorem range_add (mem : Memory) (addr k m : Nat) :
    mem.range addr (k + m) = mem.range addr k ++ mem.range (addr + k) m := by
  rw [Memory.range, List.range_add, List.map_append, List.map_map]
  congr 1
  apply List.map_congr_left
  intro j _
  rw [Function.comp_apply, Nat.add_assoc]

theorem range_length (mem : Memory) (addr n : Nat) : (mem.range addr n).length = n := by
  rw [Memory.range, List.length_map, List.length_range]

/-- One round writes its bytes, moves the position behind them, and leaves the other files. -/
theorem writeRound_kept {off : UInt32} {mem : Memory} {addr n1 : Nat} {user : Bool} (ts : Timespec)
    (wf : v.WellFormed sb) (idle : Idle sb v.state) (live : v.Live sb inum)
    (inside : off.toNat ≤ (v.inodes inum).size.toNat) (positive : 0 < n1) (small : n1 < 2 ^ 31)
    (fits : off.toNat + n1 < 2 ^ 32) (readable : user = true → PagesIn mem.readable addr n1)
    (needed : neededSlots off.toNat n1 ⊆ slots) (room : v.Room sb inum slots) :
    ∃ w, writeRound sb inum v off mem addr n1 user ts = .ok (n1, off + UInt32.ofNat n1, w) ∧
      Wrote sb inum v w slots off.toNat (mem.range addr n1) ∧
      (∀ j, j ≠ inum → v.Live sb j → w.content sb j = v.content sb j) ∧
      ∀ j, w.Live sb j ↔ v.Live sb j := by
  have count : (UInt32.ofNat n1).toNat = n1 := by
    rw [UInt32.toNat_ofNat', Nat.mod_eq_of_lt (by omega)]
  rw [← count] at fits readable needed
  obtain ⟨ip, s, run, done, roomy, -⟩ := writei_within wf idle live inside fits readable needed room
  have returned : asInt (UInt32.ofNat n1) = n1 := by rw [asInt, count, if_pos small]
  have moved : UInt32.ofInt (n1 : Int) = UInt32.ofNat n1 := by
    have value : ((n1 : Int) % 2 ^ 32).toNat = n1 := by omega
    rw [UInt32.ofInt, value]
  have set_times : Retimed sb ⟨s, Function.update v.inodes inum ip⟩
      ⟨s, Function.update (Function.update v.inodes inum ip) inum
        { ip with mtime := ts, atime := ts }⟩ :=
    retimed (by simp only [Function.update_self])
  rw [Function.update_idem] at set_times
  refine ⟨⟨s, Function.update v.inodes inum { ip with mtime := ts, atime := ts }⟩, ?_, ?_, ?_, ?_⟩
  · simp only [writeRound, run, returned, Except.ok_bind, Except.pure_eq_ok, moved]
    rw [if_pos (by omega)]
  · rw [count] at done
    constructor
    · exact set_times.wellFormed done.wellFormed
    · exact done.idle
    · rw [set_times.live, done.live]
      exact live
    · rw [set_times.size]
      exact done.size
    · rw [set_times.content]
      exact done.content_self
    · exact set_times.room inum slots roomy
  · intro j other live_j
    rw [set_times.content]
    exact done.content_other j other live_j
  · intro j
    rw [set_times.live, done.live]

/-- One round writes its bytes, and moves the position behind them. -/
theorem writeRound_spec {off : UInt32} {mem : Memory} {addr n1 : Nat} {user : Bool} (ts : Timespec)
    (wf : v.WellFormed sb) (idle : Idle sb v.state) (live : v.Live sb inum)
    (inside : off.toNat ≤ (v.inodes inum).size.toNat) (positive : 0 < n1) (small : n1 < 2 ^ 31)
    (fits : off.toNat + n1 < 2 ^ 32) (readable : user = true → PagesIn mem.readable addr n1)
    (needed : neededSlots off.toNat n1 ⊆ slots) (room : v.Room sb inum slots) :
    ∃ w, writeRound sb inum v off mem addr n1 user ts = .ok (n1, off + UInt32.ofNat n1, w) ∧
      Wrote sb inum v w slots off.toNat (mem.range addr n1) := by
  obtain ⟨w, run, wrote, -⟩ :=
    writeRound_kept ts wf idle live inside positive small fits readable needed room
  exact ⟨w, run, wrote⟩

/-- The rounds write the bytes that are left. -/
theorem writeRounds_spec {off : UInt32} {mem : Memory} {addr n : Nat} {user : Bool}
    (clock : Nat → Timespec) (inside : off.toNat ≤ (v.inodes inum).size.toNat) (small : n < 2 ^ 31)
    (fits : off.toNat + n < 2 ^ 32) (readable : user = true → PagesIn mem.readable addr n)
    (fuel : Nat) {i : Nat} (done_le : i ≤ n) (enough : n - i + writeMax ≤ fuel * writeMax)
    (wrote : Wrote sb inum v w (neededSlots off.toNat n) off.toNat (mem.range addr i)) :
    ∃ x, writeRounds sb inum mem addr n user clock fuel w (off + UInt32.ofNat i) i =
        .ok (n, off + UInt32.ofNat n, x) ∧
      Wrote sb inum v x (neededSlots off.toNat n) off.toNat (mem.range addr n) := by
  have round : writeMax = 73728 := rfl
  induction fuel generalizing w i with
  | zero => omega
  | succ fuel ih =>
      rw [writeRounds]
      cases Nat.lt_or_eq_of_le done_le with
      | inr full =>
          subst full
          rw [if_neg (Nat.lt_irrefl i)]
          exact ⟨w, rfl, wrote⟩
      | inl more =>
          rw [if_pos more]
          have size := wrote.size
          rw [range_length] at size
          have position : (off + UInt32.ofNat i).toNat = off.toNat + i := by
            rw [UInt32.toNat_add, UInt32.toNat_ofNat']
            omega
          set n1 := min writeMax (n - i) with n1_eq
          have bounds : 0 < n1 ∧ i + n1 ≤ n ∧ n - (i + n1) + writeMax ≤ fuel * writeMax := by
            rw [round] at enough n1_eq ⊢
            omega
          have needed : neededSlots (off + UInt32.ofNat i).toNat n1 ⊆ neededSlots off.toNat n := by
            rw [position, neededSlots, neededSlots]
            apply Finset.biUnion_subset_biUnion_of_subset_left
            apply Finset.image_subset_image
            exact Finset.Ico_subset_Ico (by omega) (by omega)
          have pages : user = true → PagesIn mem.readable (addr + i) n1 := by
            intro from_user a low high
            exact readable from_user a (by omega) (by omega)
          obtain ⟨x, run, one⟩ := writeRound_spec (clock (i / writeMax)) wrote.wellFormed wrote.idle
            wrote.live (by omega) bounds.1 (by omega) (by omega) pages needed wrote.room
          have long : off.toNat ≤ (v.content sb inum).length := by
            rw [content_length]
            exact inside
          have both : Wrote sb inum v x (neededSlots off.toNat n) off.toNat
              (mem.range addr (i + n1)) := by
            refine ⟨one.wellFormed, one.idle, one.live, ?_, ?_, one.room⟩
            · rw [one.size, size, range_length, range_length, position]
              omega
            · have behind : (off + UInt32.ofNat i).toNat =
                  off.toNat + (mem.range addr i).length := by rw [position, range_length]
              rw [one.content, wrote.content, behind, overwrite_overwrite long, ← range_add]
          obtain ⟨y, rest, wrote_all⟩ := ih bounds.2.1 bounds.2.2 both
          refine ⟨y, ?_, wrote_all⟩
          have next : off + UInt32.ofNat i + UInt32.ofNat n1 = off + UInt32.ofNat (i + n1) := by
            rw [UInt32.add_assoc, UInt32.ofNat_add]
          simp only [run, Except.ok_bind, ne_eq, not_true_eq_false, if_false, next]
          exact rest

/-- `filewrite` returns the number of its bytes, and the file has them from the position on. -/
theorem filewrite_spec {file : OpenFile} {mem : Memory} {addr : Nat} {n : Int} {user : Bool}
    (clock : Nat → Timespec) (wf : v.WellFormed sb) (idle : Idle sb v.state) (live : v.Live sb inum)
    (inside : file.off.toNat ≤ (v.inodes inum).size.toNat) (writable : file.writable = true)
    (small : n < 2 ^ 31) (fits : file.off.toNat + n.toNat < 2 ^ 32)
    (readable : user = true → PagesIn mem.readable addr n.toNat)
    (room : v.Room sb inum (neededSlots file.off.toNat n.toNat)) :
    ∃ r w, filewrite sb inum v file mem addr n user clock =
        .ok (r, { file with off := file.off + UInt32.ofNat n.toNat }, w) ∧ (0 ≤ n → r = n) ∧
      Wrote sb inum v w (neededSlots file.off.toNat n.toNat) file.off.toNat
        (mem.range addr n.toNat) := by
  have start : Wrote sb inum v v (neededSlots file.off.toNat n.toNat) file.off.toNat
      (mem.range addr 0) := by
    refine ⟨wf, idle, live, ?_, overwrite_nil.symm, room⟩
    rw [range_length, Nat.add_zero, max_eq_left inside]
  have can_write : ¬file.writable = false := by simp [writable]
  rw [filewrite, if_neg can_write]
  cases Int.lt_or_le 0 n with
  | inl positive =>
      have enough : n.toNat - 0 + writeMax ≤ writeFuel n.toNat * writeMax := by
        rw [writeFuel, writeMax]
        omega
      obtain ⟨w, run, wrote⟩ := writeRounds_spec clock inside (by omega) fits readable
        (writeFuel n.toNat) (Nat.zero_le _) enough start
      have origin : file.off + UInt32.ofNat 0 = file.off := UInt32.add_zero _
      rw [origin] at run
      have all : (n.toNat : Int) = n := Int.toNat_of_nonneg positive.le
      refine ⟨n, w, ?_, fun _ => rfl, wrote⟩
      simp only [if_pos positive, run, Except.ok_bind, all, if_true, Except.pure_eq_ok]
  | inr nothing =>
      have none : n.toNat = 0 := Int.toNat_of_nonpos nothing
      rw [none] at start ⊢
      refine ⟨if n = 0 then n else -1, v, ?_, fun from_zero => if_pos (by omega), start⟩
      have same : file.off + UInt32.ofNat 0 = file.off := UInt32.add_zero _
      rw [if_neg (by omega), same]
      rfl

/-! ## Runs -/

/-- A world in which the calls do what they should, one by one. -/
structure World.Ready (sb : Superblock) (inum : UInt32) (w : World) : Prop where
  /-- The volume is well formed. -/
  wellFormed : w.volume.WellFormed sb
  /-- No buffer is busy. -/
  idle : Idle sb w.volume.state
  /-- The inode is allocated. -/
  live : w.volume.Live sb inum
  /-- Positions are inside the file or at its end. -/
  inside : ∀ f file, w.files f = some file →
    file.off.toNat ≤ (w.volume.inodes inum).size.toNat

/-- A write stores its bytes at the position of its file. -/
theorem write_spec {w : World} {fd f : Nat} {file : OpenFile} {user : Bool} {mem : Memory}
    {addr : Nat} {n : Int} (clock : Nat → Timespec) (ready : w.Ready sb inum)
    (at_fd : w.fds fd = some f) (at_f : w.files f = some file) (writable : file.writable = true)
    (small : n < 2 ^ 31) (fits : file.off.toNat + n.toNat < 2 ^ 32)
    (readable : user = true → PagesIn mem.readable addr n.toNat)
    (room : w.volume.Room sb inum (neededSlots file.off.toNat n.toNat)) :
    ∃ v, step sb inum w (.write fd user mem addr n clock) =
        .ok ⟨v, Function.update w.files f
          (some { file with off := file.off + UInt32.ofNat n.toNat }), w.fds⟩ ∧
      Wrote sb inum w.volume v (neededSlots file.off.toNat n.toNat) file.off.toNat
        (mem.range addr n.toNat) := by
  obtain ⟨r, v, run, -, wrote⟩ := filewrite_spec clock ready.wellFormed ready.idle ready.live
    (ready.inside f file at_f) writable small fits readable room
  refine ⟨v, ?_, wrote⟩
  simp only [step, at_fd, at_f, run, Except.ok_bind, Except.pure_eq_ok]

/-- A write keeps the world ready. -/
theorem ready_of_wrote {w : World} {v : Volume} {f n : Nat} {file : OpenFile}
    {source : List UInt8} (ready : w.Ready sb inum) (at_f : w.files f = some file)
    (long : source.length = n) (fits : file.off.toNat + n < 2 ^ 32)
    (wrote : Wrote sb inum w.volume v slots file.off.toNat source) :
    World.Ready sb inum ⟨v, Function.update w.files f
      (some { file with off := file.off + UInt32.ofNat n }), w.fds⟩ := by
  have size := wrote.size
  refine ⟨wrote.wellFormed, wrote.idle, wrote.live, ?_⟩
  intro g other found
  simp only at found ⊢
  cases Decidable.em (g = f) with
  | inl same =>
      subst same
      rw [Function.update_self] at found
      cases found
      rw [size, UInt32.toNat_add, UInt32.toNat_ofNat']
      omega
  | inr different =>
      rw [Function.update_of_ne different] at found
      have before := ready.inside g other found
      omega

/-- What a call does to the file, from which position on. -/
theorem step_spec {w : World} {call : Call} (ready : w.Ready sb inum)
    (admitted : Admits sb inum w call) :
    ∃ w', step sb inum w call = .ok w' ∧ w'.Ready sb inum ∧
      ∃ off ≤ (w.volume.content sb inum).length,
        w'.volume.content sb inum = overwrite (w.volume.content sb inum) off call.bytes ∧
        (AtEnd inum w call ↔ call.bytes = [] ∨ off = (w.volume.content sb inum).length) := by
  cases call with
  | openat fd f flags =>
      refine ⟨_, rfl, ⟨ready.wellFormed, ready.idle, ready.live, ?_⟩, 0, Nat.zero_le _,
        overwrite_nil.symm, ⟨fun _ => Or.inl rfl, fun _ => trivial⟩⟩
      intro g file found
      simp only at found ⊢
      cases Decidable.em (g = f) with
      | inl same =>
          subst same
          rw [Function.update_self] at found
          cases found
          simp only [fileopen]
          split_ifs
          · exact le_rfl
          · exact Nat.zero_le _
      | inr other =>
          rw [Function.update_of_ne other] at found
          exact ready.inside g file found
  | dup fd copy =>
      exact ⟨_, rfl, ⟨ready.wellFormed, ready.idle, ready.live, ready.inside⟩, 0, Nat.zero_le _,
        overwrite_nil.symm, ⟨fun _ => Or.inl rfl, fun _ => trivial⟩⟩
  | write fd user mem addr n clock =>
      obtain ⟨file, opened, writable, small, fits, readable, room⟩ := admitted
      obtain ⟨f, at_fd, at_f⟩ := Option.bind_eq_some_iff.mp opened
      have inside := ready.inside f file at_f
      obtain ⟨v, run, wrote⟩ :=
        write_spec clock ready at_fd at_f writable small fits readable room
      have long := range_length mem addr n.toNat
      refine ⟨_, run, ready_of_wrote ready at_f long fits wrote, file.off.toNat, ?_,
        wrote.content, ?_⟩
      · rw [content_length]
        exact inside
      · have empty : (mem.range addr n.toNat = []) ↔ ¬0 < n := by
          rw [← List.length_eq_zero_iff, range_length]
          omega
        rw [Call.bytes, empty, content_length, UInt32.toNat_inj, AtEnd, opened]
        constructor
        · intro at_end
          cases Int.lt_or_le 0 n with
          | inl positive => exact Or.inr (at_end positive file rfl)
          | inr nothing => exact Or.inl (Int.not_lt.mpr nothing)
        · rintro (nothing | last) positive other same
          · exact absurd positive nothing
          · cases same
            exact last

theorem length_overwrite {α : Type*} {bytes source : List α} {off : Nat}
    (inside : off ≤ bytes.length) :
    (overwrite bytes off source).length = max bytes.length (off + source.length) := by
  rw [overwrite, List.length_append, List.length_append, List.length_take_of_le inside,
    List.length_drop]
  omega

/-- The bytes of calls, in order. -/
def written (calls : List Call) : List UInt8 := (calls.map Call.bytes).flatten

/-- The calls do not make the file longer than with their bytes at its end. -/
theorem length_le {w w' : World} {calls : List Call} (ready : w.Ready sb inum)
    (trace : Trace (Admits sb inum) (step sb inum) w calls w') :
    (w'.volume.content sb inum).length ≤
      (w.volume.content sb inum).length + (written calls).length := by
  induction trace with
  | nil => exact Nat.le_add_right _ _
  | @cons w next last call calls admitted steps rest ih =>
      obtain ⟨w', run, ready', off, inside, stored, -⟩ := step_spec ready admitted
      rw [run] at steps
      cases steps
      have longer := congrArg List.length stored
      rw [length_overwrite inside] at longer
      have total : (written (call :: calls)).length =
          call.bytes.length + (written calls).length := by
        rw [written, List.map_cons, List.flatten_cons, List.length_append, written]
      have later := ih ready'
      omega

/-- For all runs of calls on files that are open with `O_APPEND`: the file is the initial file with
the bytes of the calls behind it in the order of the calls, if and only if every write finds its
position at the end of the file. -/
theorem append_iff {w w' : World} {calls : List Call} (ready : w.Ready sb inum)
    (trace : Trace (Admits sb inum) (step sb inum) w calls w') :
    w'.volume.content sb inum = w.volume.content sb inum ++ written calls ↔
      Trace (fun w call => Admits sb inum w call ∧ AtEnd inum w call)
        (step sb inum) w calls w' := by
  induction trace with
  | nil w =>
      constructor
      · intro _
        exact .nil w
      · intro _
        exact (List.append_nil _).symm
  | @cons w next last call calls admitted steps rest ih =>
      obtain ⟨w', run, ready', off, inside, stored, at_end⟩ := step_spec ready admitted
      rw [run] at steps
      cases steps
      have all : written (call :: calls) = call.bytes ++ written calls := rfl
      have appended (last : call.bytes = [] ∨ off = (w.volume.content sb inum).length) :
          next.volume.content sb inum = w.volume.content sb inum ++ call.bytes := by
        rcases last with nothing | last
        · rw [stored, nothing, overwrite_nil, List.append_nil]
        · rw [stored, last, overwrite_end]
      constructor
      · intro whole
        -- the file could not become long enough from a position before the end
        have bound := length_le ready' rest
        have lengths := congrArg List.length whole
        have longer := congrArg List.length stored
        rw [length_overwrite inside] at longer
        rw [all, List.length_append, List.length_append] at lengths
        have here : call.bytes = [] ∨ off = (w.volume.content sb inum).length := by
          rw [← List.length_eq_zero_iff]
          omega
        have later := (ih ready').mp (by rw [whole, all, appended here, List.append_assoc])
        exact .cons ⟨admitted, at_end.mpr here⟩ run later
      · intro guarded
        cases guarded with
        | cons both steps later =>
            rw [run] at steps
            cases steps
            rw [(ih ready').mpr later, appended (at_end.mp both.2), all, List.append_assoc]

/-! ## Two writers -/

/-- The parts of the first block that a file has already are written without another block. -/
theorem room_firstBlock {off n : Nat} (wf : v.WellFormed sb) (live : v.Live sb inum)
    (some_bytes : 0 < (v.inodes inum).size.toNat) (below : off + n ≤ bsize) :
    v.Room sb inum (neededSlots off n) := by
  have present := wf.noHole inum live 0 (by rwa [Nat.zero_mul])
  have none : v.emptySlots sb inum (neededSlots off n) = ∅ := by
    apply Finset.filter_eq_empty_iff.mpr
    intro slot mem
    simp only [neededSlots, Finset.mem_biUnion, Finset.mem_image, Finset.mem_Ico] at mem
    obtain ⟨bn, ⟨o, ⟨-, upper⟩, rfl⟩, on_path⟩ := mem
    rw [Nat.div_eq_of_lt (upper.trans_le below), fileSlot_direct (by decide)] at on_path
    rw [Finset.mem_singleton.mp on_path]
    exact present
  rw [Room, none, Finset.card_empty]
  exact Nat.zero_le _

/-- `O_WRONLY | O_APPEND`. -/
def appending : UInt32 := 1 ||| oAppend

/-- The empty file of a fresh card, which nobody has open. -/
def unopened : World := ⟨fresh, fun _ => none, fun _ => none⟩

/-- Kernel memory with the letters from `a` on. -/
def letters : Memory := ⟨fun k => UInt8.ofNat (k + 97), fun _ => false, fun _ => false⟩

theorem unopened_ready : unopened.Ready mkfsSuper 2 where
  wellFormed := fresh_wellFormed
  idle := idle_binit _
  live := (fresh_live_iff 2).mpr rfl
  inside _ _ found := by cases found

theorem fresh_size : (fresh.inodes 2).size = 0 := by
  have inode : fresh.inodes 2 = emptyFile := ofFile_inode rfl
  rw [inode]
  rfl

theorem unopened_content : unopened.volume.content mkfsSuper 2 = [] := by
  apply List.length_eq_zero_iff.mp
  rw [content_length, unopened, fresh_size]
  rfl

theorem fresh_room_two : fresh.Room mkfsSuper 2 (neededSlots 0 2) := by
  have fewer : neededSlots 0 2 ⊆ neededSlots 0 5 := by
    apply Finset.biUnion_subset_biUnion_of_subset_left
    apply Finset.image_subset_image
    exact Finset.Ico_subset_Ico (le_refl 0) (by decide)
  exact (Finset.card_le_card (Finset.filter_subset_filter _ fewer)).trans fresh_room

theorem fileopen_fresh : fileopen 2 fresh appending = ⟨0, true⟩ := by
  have mode : fileWritable appending = true := by decide
  rw [fileopen, fresh_size, mode, ite_self]

/-- The first two letters are written to the empty file. -/
theorem write_two {w : World} {fd f : Nat} (ready : w.Ready mkfsSuper 2) (volume : w.volume = fresh)
    (at_fd : w.fds fd = some f) (at_f : w.files f = some ⟨0, true⟩) :
    ∃ v, Admits mkfsSuper 2 w (.write fd false letters 0 2 fun _ => ⟨0, 0⟩) ∧
      step mkfsSuper 2 w (.write fd false letters 0 2 fun _ => ⟨0, 0⟩) =
        .ok ⟨v, Function.update w.files f (some ⟨2, true⟩), w.fds⟩ ∧
      World.Ready mkfsSuper 2 ⟨v, Function.update w.files f (some ⟨2, true⟩), w.fds⟩ ∧
      (v.inodes 2).size.toNat = 2 ∧ v.content mkfsSuper 2 = [97, 98] := by
  have readable : false = true → PagesIn letters.readable 0 2 := fun never => nomatch never
  have room : w.volume.Room mkfsSuper 2 (neededSlots 0 2) := volume ▸ fresh_room_two
  have fits : (0 : UInt32).toNat + (2 : Int).toNat < 2 ^ 32 := by decide
  obtain ⟨v, run, wrote⟩ := write_spec (fun _ => ⟨0, 0⟩) ready at_fd at_f rfl
    (by decide) fits readable room
  have size := wrote.size
  have content := wrote.content
  rw [volume, fresh_size] at size
  rw [volume, show fresh = unopened.volume from rfl, unopened_content] at content
  have next := ready_of_wrote ready at_f (range_length letters 0 2) fits wrote
  refine ⟨v, ⟨⟨0, true⟩, ?_, rfl, by decide, fits, readable, room⟩, run, next, size, content⟩
  rw [World.file, at_fd, Option.bind_some, at_f]

/-- Two descriptors with one position: both writes are appended. -/
theorem append_shared : ∃ w' calls,
    calls = [.openat 3 0 appending, .dup 3 4, .write 3 false letters 0 2 fun _ => ⟨0, 0⟩,
      .write 4 false letters 2 2 fun _ => ⟨0, 0⟩] ∧
    Trace (Admits mkfsSuper 2) (step mkfsSuper 2) unopened calls w' ∧
    w'.volume.content mkfsSuper 2 =
      unopened.volume.content mkfsSuper 2 ++ written calls := by
  have file_eq : some (fileopen 2 fresh appending) = some ⟨0, true⟩ := by rw [fileopen_fresh]
  have at_open : Admits mkfsSuper 2 unopened (.openat 3 0 appending) :=
    ⟨rfl, rfl, by decide⟩
  obtain ⟨w₁, opens, ready₁, -⟩ := step_spec unopened_ready at_open
  have at_dup : Admits mkfsSuper 2 w₁ (.dup 3 4) := by
    cases opens
    rfl
  obtain ⟨w₂, dups, ready₂, -⟩ := step_spec ready₁ at_dup
  obtain ⟨volume, at_three, at_four, at_zero⟩ : w₂.volume = fresh ∧ w₂.fds 3 = some 0 ∧
      w₂.fds 4 = some 0 ∧ w₂.files 0 = some ⟨0, true⟩ := by
    cases opens
    cases dups
    exact ⟨rfl, rfl, rfl, file_eq⟩
  obtain ⟨v, may_write, writes, ready₃, size, -⟩ := write_two ready₂ volume at_three at_zero
  have fits : (2 : UInt32).toNat + (2 : Int).toNat < 2 ^ 32 := by decide
  have readable : false = true → PagesIn letters.readable 2 2 := fun never => nomatch never
  have room : v.Room mkfsSuper 2 (neededSlots (2 : UInt32).toNat (2 : Int).toNat) :=
    room_firstBlock ready₃.wellFormed ready₃.live (by omega) (by decide)
  have shared : World.file ⟨v, Function.update w₂.files 0 (some ⟨2, true⟩), w₂.fds⟩ 4 =
      some ⟨2, true⟩ := by
    rw [World.file, at_four]
    rfl
  have may_append : Admits mkfsSuper 2 _ (.write 4 false letters 2 2 fun _ => ⟨0, 0⟩) :=
    ⟨⟨2, true⟩, shared, rfl, by decide, fits, readable, room⟩
  obtain ⟨w₄, appends, -⟩ := step_spec ready₃ may_append
  have trace := Trace.cons at_open opens <| .cons at_dup dups <| .cons may_write writes <|
    .cons may_append appends <| .nil w₄
  refine ⟨w₄, _, rfl, trace, ?_⟩
  refine (append_iff unopened_ready trace).mpr ?_
  refine .cons ⟨at_open, trivial⟩ opens <| .cons ⟨at_dup, trivial⟩ dups <|
    .cons ⟨may_write, ?_⟩ writes <| .cons ⟨may_append, ?_⟩ appends <| .nil w₄
  · intro _ file found
    rw [World.file, at_three, Option.bind_some, at_zero] at found
    cases found
    rw [volume, fresh_size]
  · intro _ file found
    cases shared.symm.trans found
    apply UInt32.toNat_inj.mp
    exact size.symm

/-- Two positions, both set when the file was empty: the second write stores its bytes over those of
the first. -/
theorem append_overwrites : ∃ w' calls,
    calls = [.openat 3 0 appending, .openat 4 1 appending,
      .write 3 false letters 0 2 fun _ => ⟨0, 0⟩, .write 4 false letters 2 2 fun _ => ⟨0, 0⟩] ∧
    Trace (Admits mkfsSuper 2) (step mkfsSuper 2) unopened calls w' ∧
    w'.volume.content mkfsSuper 2 = [99, 100] ∧
    w'.volume.content mkfsSuper 2 ≠
      unopened.volume.content mkfsSuper 2 ++ written calls := by
  have file_eq : some (fileopen 2 fresh appending) = some ⟨0, true⟩ := by rw [fileopen_fresh]
  have at_open : Admits mkfsSuper 2 unopened (.openat 3 0 appending) :=
    ⟨rfl, rfl, by decide⟩
  obtain ⟨w₁, opens, ready₁, -⟩ := step_spec unopened_ready at_open
  have again : Admits mkfsSuper 2 w₁ (.openat 4 1 appending) := by
    cases opens
    exact ⟨rfl, rfl, at_open.2.2⟩
  obtain ⟨w₂, reopens, ready₂, -⟩ := step_spec ready₁ again
  obtain ⟨volume, at_three, at_four, at_zero, at_one⟩ : w₂.volume = fresh ∧ w₂.fds 3 = some 0 ∧
      w₂.fds 4 = some 1 ∧ w₂.files 0 = some ⟨0, true⟩ ∧ w₂.files 1 = some ⟨0, true⟩ := by
    cases opens
    cases reopens
    exact ⟨rfl, rfl, rfl, file_eq, file_eq⟩
  obtain ⟨v, may_write, writes, ready₃, size, content⟩ := write_two ready₂ volume at_three at_zero
  have fits : (0 : UInt32).toNat + (2 : Int).toNat < 2 ^ 32 := by decide
  have readable : false = true → PagesIn letters.readable 2 2 := fun never => nomatch never
  have room : v.Room mkfsSuper 2 (neededSlots (0 : UInt32).toNat (2 : Int).toNat) :=
    room_firstBlock ready₃.wellFormed ready₃.live (by omega) (by decide)
  obtain ⟨x, overwrites, wrote⟩ := write_spec (fun _ => ⟨0, 0⟩) ready₃ at_four at_one rfl
    (by decide) fits readable room
  have own : World.file ⟨v, Function.update w₂.files 0 (some ⟨2, true⟩), w₂.fds⟩ 4 =
      some ⟨0, true⟩ := by
    rw [World.file, at_four]
    exact at_one
  have may_overwrite : Admits mkfsSuper 2 _ (.write 4 false letters 2 2 fun _ => ⟨0, 0⟩) :=
    ⟨⟨0, true⟩, own, rfl, by decide, fits, readable, room⟩
  have trace := Trace.cons at_open opens <| .cons again reopens <| .cons may_write writes <|
    .cons may_overwrite overwrites <| .nil _
  have last := wrote.content
  rw [content] at last
  refine ⟨_, _, rfl, trace, last, ?_⟩
  rw [unopened_content]
  intro appended
  have lengths := congrArg List.length (last.symm.trans appended)
  exact absurd lengths (by decide)

end Append
end Vfs
end Xv6Duo
