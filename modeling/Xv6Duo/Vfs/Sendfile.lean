import Xv6Duo.Library.Longs
import Xv6Duo.Vfs.Report

/-!
# Sending a file to another one

`sendfile` of `kernel/file.c` on regular files. The bytes go through one page of the kernel, and the
position that the caller passes is copied over the fields `off` and `flags` of the input file, of
which only `off` gets its old value back, and only when all rounds succeed. Whether the caller's
memory can be read and written is never looked at.
-/

namespace Xv6Duo
namespace Vfs
namespace Send

open Fs Fs.Volume Vfs.Append ByteBlock

/-! ## The call -/

/-- A `struct file` that is open for an inode. -/
structure File where
  /-- Inode. -/
  ip : UInt32
  /-- Position. -/
  off : UInt32
  /-- Status flags. -/
  flags : UInt32
  /-- Open for reading. -/
  readable : Bool
  /-- Open for writing. -/
  writable : Bool

/-- The volume and the open files. -/
structure World where
  /-- Volume. -/
  volume : Volume
  /-- `ftable`. -/
  ftable : Nat → File

/-- The world with another value of an open file. -/
def World.setFile (s : World) (f : Nat) (file : File) : World :=
  { s with ftable := Function.update s.ftable f file }

variable (sb : Superblock)

/-- `fileread` to memory of the kernel. -/
def fileread (s : World) (f : Nat) (mem : Memory) (addr : Nat) (n : UInt32) (tp : Timespec) :
    Except Fault (Int × Memory × World) :=
  let file := s.ftable f
  if file.readable = false then return (-1, mem, s)
  else do
    let (r, mem, ip, t) ← Fs.readi sb s.volume.state (s.volume.inodes file.ip) false mem addr
      file.off n
    let off := if r > 0 then file.off + UInt32.ofInt r else file.off
    let volume : Volume :=
      ⟨t, Function.update s.volume.inodes file.ip { ip with atime := tp }⟩
    return (r, mem, ⟨volume, Function.update s.ftable f { file with off := off }⟩)

/-- `filewrite` from memory of the kernel. -/
def filewrite (s : World) (f : Nat) (mem : Memory) (addr n : Nat) (ts : Timespec) :
    Except Fault (Int × World) := do
  let file := s.ftable f
  let (r, output, volume) ← Append.filewrite sb file.ip s.volume ⟨file.off, file.writable⟩ mem addr
    n false fun _ => ts
  return (r, ⟨volume, Function.update s.ftable f { file with off := output.off }⟩)

/-- The loop of `sendfile` behind some rounds: the number of bytes, or the error. -/
def sendLoop (out_f in_f : Nat) (buf : Nat) (clock : Nat → Timespec) :
    Nat → World → Memory → Nat → Nat → Nat → Except Fault (Int × World)
  | 0, _, _, _, _, _ => .error .loops
  | fuel + 1, s, mem, count, bytes, rounds => do
      let n := min count pgSize
      let (r, mem, s) ← fileread sb s in_f mem buf (UInt32.ofNat n) (clock (2 * rounds))
      if r ≠ n then return (-eio, s)
      else
        let (r, s) ← filewrite sb s out_f mem buf n (clock (2 * rounds + 1))
        if r ≠ n then return (-eio, s)
        else if count - n = 0 then return ((bytes + n : Nat), s)
        else sendLoop out_f in_f buf clock fuel s mem (count - n) (bytes + n) (rounds + 1)

/-- The low half of an offset, which lies at the address of `off`. -/
def low (offset : UInt64) : UInt32 := offset.toUInt32

/-- The high half of an offset, which lies at the address of `flags`. -/
def high (offset : UInt64) : UInt32 := (offset >>> 32).toUInt32

/-- The offset that the fields `off` and `flags` hold. -/
def joined (file : File) : UInt64 := file.flags.toUInt64 <<< 32 ||| file.off.toUInt64

/-- The rounds after which the loop has ended. -/
def sendFuel (count : Nat) : Nat := count / pgSize + 1

/-- The offset of the caller, as far as it can be read, is copied over the fields of the input
file. -/
def borrow (s : World) (in_f : Nat) (user : Memory) (offsetp : Nat) : World :=
  if offsetp = 0 then s
  else
    let file := s.ftable in_f
    let offset := getLong (eitherCopyin (longByte (joined file)) 0 true user offsetp 8).2 0
    s.setFile in_f { file with off := low offset, flags := high offset }

/-- The caller gets the position, as far as its memory can be written, and the input file its old
one. -/
def giveBack (s : World) (in_f : Nat) (offset : UInt32) (user : Memory) (offsetp : Nat) :
    Memory × World :=
  if offsetp = 0 then (user, s)
  else
    let file := s.ftable in_f
    ((eitherCopyout true user offsetp (longByte (joined file)) 0 8).2,
      s.setFile in_f { file with off := offset })

/-- `sendfile` with the page `buf` that `kalloc` gives, and the memory of the caller with the offset
at `offsetp`, if that is not null; the answer, the memory of the caller, and the world. -/
def sendfile (s : World) (out_f in_f : Nat) (user : Memory) (offsetp : Nat) (count : UInt64)
    (buf : Nat) (mem : Memory) (clock : Nat → Timespec) : Except Fault (Int × Memory × World) := do
  let offset := (s.ftable in_f).off
  let (ret, s) ← sendLoop sb out_f in_f buf clock (sendFuel count.toNat)
    (borrow s in_f user offsetp) mem count.toNat 0 0
  if ret < 0 then return (ret, user, s)
  else return (ret, giveBack s in_f offset user offsetp)

/-! ## What the caller asks for -/

/-- The position at which the input starts. -/
def start (s : World) (in_f : Nat) (user : Memory) (offsetp : Nat) : Nat :=
  if offsetp = 0 then (s.ftable in_f).off.toNat else (getLong user.bytes offsetp).toNat

/-- If an offset is passed, it lies in memory that can be read and written. -/
def Accessible (user : Memory) (offsetp : Nat) : Prop :=
  offsetp ≠ 0 → PagesIn user.readable offsetp 8 ∧ PagesIn user.writable offsetp 8

/-- The bytes that are left in the input. -/
def rest (s : World) (in_f : Nat) (user : Memory) (offsetp : Nat) : List UInt8 :=
  (s.volume.content sb (s.ftable in_f).ip).drop (start s in_f user offsetp)

/-- What `sendfile` should have done: as many bytes as asked for, and there, are copied. -/
structure Sent (s : World) (out_f in_f : Nat) (user : Memory) (offsetp : Nat) (count : UInt64)
    (ret : Int) (user' : Memory) (t : World) : Prop where
  /-- The answer is the number of bytes. -/
  answer : ret = min count.toNat (rest sb s in_f user offsetp).length
  /-- The output has the bytes. -/
  output : t.volume.content sb (s.ftable out_f).ip =
    overwrite (s.volume.content sb (s.ftable out_f).ip) (s.ftable out_f).off.toNat
      ((rest sb s in_f user offsetp).take count.toNat)
  /-- The position of the output moves behind the bytes. -/
  outputOff : ((t.ftable out_f).off.toNat : Int) = (s.ftable out_f).off.toNat + ret
  /-- The flags of the input stay. -/
  flags : (t.ftable in_f).flags = (s.ftable in_f).flags
  /-- The position of the input moves if no offset is passed, and stays otherwise. -/
  inputOff : ((t.ftable in_f).off.toNat : Int) =
    (s.ftable in_f).off.toNat + if offsetp = 0 then ret else 0
  /-- An offset that is passed is there. -/
  accessible : Accessible user offsetp
  /-- The offset of the caller moves. -/
  offset : offsetp ≠ 0 →
    ((getLong user'.bytes offsetp).toNat : Int) = (getLong user.bytes offsetp).toNat + ret

/-- `sendfile` returns and has sent the bytes. -/
def Sends (s : World) (out_f in_f : Nat) (user : Memory) (offsetp : Nat) (count : UInt64)
    (run : Except Fault (Int × Memory × World)) : Prop :=
  ∃ ret user' t, run = .ok (ret, user', t) ∧ Sent sb s out_f in_f user offsetp count ret user' t

/-- No byte of the input is overwritten with another value before it is read: a byte that lies
behind the start of the output, but not behind what the earlier pages have stored there. -/
def Undisturbed (s : World) (out_f in_f : Nat) (user : Memory) (offsetp : Nat)
    (count : Nat) : Prop :=
  (s.ftable out_f).ip = (s.ftable in_f).ip →
    ∀ j < count, (s.ftable out_f).off.toNat ≤ start s in_f user offsetp + j →
      start s in_f user offsetp + j < (s.ftable out_f).off.toNat + j / pgSize * pgSize →
      (rest sb s in_f user offsetp)[j]? =
        (rest sb s in_f user offsetp)[start s in_f user offsetp + j - (s.ftable out_f).off.toNat]?

/-! ## Rounds on lists -/

/-- What rounds gather behind the bytes so far: each reads at the next position of the input, which,
if it is the `same` file, has the bytes so far at the position `target`. -/
def gathered (same : Bool) (input : List UInt8) (start target : Nat) :
    Nat → Nat → List UInt8 → List UInt8
  | 0, _, sofar => sofar
  | fuel + 1, count, sofar =>
      let n := min count pgSize
      let current := if same then overwrite input target sofar else input
      let sofar := sofar ++ (current.drop (start + sofar.length)).take n
      if count - n = 0 then sofar else gathered same input start target fuel (count - n) sofar

variable {same : Bool} {input : List UInt8} {begin target : Nat}

theorem prefix_gathered (fuel count : Nat) (sofar : List UInt8) :
    sofar <+: gathered same input begin target fuel count sofar := by
  induction fuel generalizing count sofar with
  | zero => exact List.prefix_rfl
  | succ fuel ih =>
      rw [gathered]
      split
      · exact List.prefix_append _ _
      · exact (List.prefix_append _ _).trans (ih _ _)

/-- A byte of a list in which a range has been replaced. -/
theorem getElem?_overwrite {bytes source : List UInt8} {off : Nat} (inside : off ≤ bytes.length)
    (k : Nat) : (overwrite bytes off source)[k]? =
      if off ≤ k ∧ k < off + source.length then source[k - off]? else bytes[k]? := by
  have front : (bytes.take off).length = off := List.length_take_of_le inside
  rw [overwrite, List.append_assoc, List.getElem?_append, front]
  split
  · next before =>
      rw [if_neg (by omega), List.getElem?_take_of_lt before]
  · next behind =>
      rw [List.getElem?_append]
      split
      · next within => rw [if_pos (by omega)]
      · next past =>
          rw [if_neg (by omega), List.getElem?_drop]
          congr 1
          omega

/-- One round reads the bytes of the original input exactly if none of them is disturbed. -/
theorem round_iff {i n : Nat} (inside : begin + i + n ≤ input.length)
    (target_le : same = true → target ≤ input.length) :
    ((if same then overwrite input target ((input.drop begin).take i) else input).drop
        (begin + i)).take n = ((input.drop begin).drop i).take n ↔
      (same = true → ∀ j, i ≤ j → j < i + n → target ≤ begin + j → begin + j < target + i →
        (input.drop begin)[j]? = (input.drop begin)[begin + j - target]?) := by
  have done : ((input.drop begin).take i).length = i := by
    rw [List.length_take, List.length_drop]
    omega
  cases same with
  | false =>
      rw [List.drop_drop]
      exact iff_of_true rfl nofun
  | true =>
      simp only [if_true, true_implies]
      have bytes (k : Nat) : (overwrite input target ((input.drop begin).take i))[k]? =
          if target ≤ k ∧ k < target + i then ((input.drop begin).take i)[k - target]?
          else input[k]? := by
        rw [getElem?_overwrite (target_le rfl), done]
      constructor
      · intro same j lower upper behind before
        have at_j := congrArg (·[j - i]?) same
        rw [List.getElem?_take_of_lt (by omega), List.getElem?_take_of_lt (by omega),
          List.getElem?_drop, List.getElem?_drop, bytes, if_pos (by omega)] at at_j
        have index : begin + i + (j - i) - target = begin + j - target := by omega
        have index' : i + (j - i) = j := by omega
        rw [index, index', List.getElem?_take_of_lt (by omega)] at at_j
        exact at_j.symm
      · intro undisturbed
        apply List.ext_getElem?
        intro k
        by_cases inner : k < n
        · rw [List.getElem?_take_of_lt inner, List.getElem?_take_of_lt inner, List.getElem?_drop,
            List.getElem?_drop, bytes]
          split
          · next overlaps =>
              have index : begin + i + k - target = begin + (i + k) - target := by omega
              rw [List.getElem?_take_of_lt (by omega), index]
              exact (undisturbed (i + k) (by omega) (by omega) (by omega) (by omega)).symm
          · rw [List.getElem?_drop, Nat.add_assoc]
        · rw [List.getElem?_eq_none, List.getElem?_eq_none]
          · rw [List.length_take]
            omega
          · rw [List.length_take]
            omega

/-- The rounds gather the input exactly if no byte of it is disturbed. -/
theorem gathered_iff (fuel : Nat) {i count : Nat} (aligned : pgSize ∣ i)
    (inside : begin + i + count ≤ input.length) (target_le : same = true → target ≤ input.length)
    (enough : count < fuel * pgSize) :
    gathered same input begin target fuel count ((input.drop begin).take i) =
        (input.drop begin).take (i + count) ↔
      (same = true → ∀ j, i ≤ j → j < i + count → target ≤ begin + j →
        begin + j < target + j / pgSize * pgSize →
        (input.drop begin)[j]? = (input.drop begin)[begin + j - target]?) := by
  have page : pgSize = 4096 := rfl
  induction fuel generalizing i count with
  | zero => omega
  | succ fuel ih =>
      have done : ((input.drop begin).take i).length = i := by
        rw [List.length_take, List.length_drop]
        omega
      obtain ⟨q, rfl⟩ := aligned
      rw [gathered, done]
      set n := min count pgSize with n_eq
      set current := if same then overwrite input target ((input.drop begin).take (pgSize * q))
        else input with current_eq
      have room : begin + pgSize * q + n ≤ input.length := by omega
      have first := round_iff room target_le
      rw [← current_eq] at first
      have joined : (input.drop begin).take (pgSize * q) ++
          ((input.drop begin).drop (pgSize * q)).take n =
            (input.drop begin).take (pgSize * q + n) := List.take_add.symm
      have long : input.length ≤ current.length := by
        rw [current_eq]
        split
        · next is_same =>
            rw [length_overwrite (target_le is_same)]
            exact le_max_left _ _
        · exact le_rfl
      -- in the pages of this round the earlier pages end where the round starts
      have here : (same = true → ∀ j, pgSize * q ≤ j → j < pgSize * q + n → target ≤ begin + j →
          begin + j < target + pgSize * q →
          (input.drop begin)[j]? = (input.drop begin)[begin + j - target]?) ↔
          (same = true → ∀ j, pgSize * q ≤ j → j < pgSize * q + n → target ≤ begin + j →
            begin + j < target + j / pgSize * pgSize →
            (input.drop begin)[j]? = (input.drop begin)[begin + j - target]?) := by
        refine imp_congr_right fun _ => forall_congr' fun j => imp_congr_right fun lower =>
          imp_congr_right fun upper => ?_
        have start_eq : j / pgSize * pgSize = pgSize * q := by
          rw [page] at *
          omega
        rw [start_eq]
      rw [here] at first
      by_cases matching : (current.drop (begin + pgSize * q)).take n =
          ((input.drop begin).drop (pgSize * q)).take n
      · rw [matching, joined]
        have round := first.mp matching
        by_cases last : count - n = 0
        · have all : n = count := by omega
          rw [if_pos last, all]
          rw [all] at round
          exact iff_of_true rfl round
        · have full : n = pgSize := by omega
          have fewer : count - n < fuel * pgSize := by
            rw [Nat.succ_mul] at enough
            omega
          have aligned : pgSize ∣ pgSize * q + n := ⟨q + 1, by rw [full]; ring⟩
          have inner : begin + (pgSize * q + n) + (count - n) ≤ input.length := by omega
          have total : pgSize * q + n + (count - n) = pgSize * q + count := by omega
          have remaining := ih aligned inner fewer
          rw [total] at remaining
          rw [if_neg last]
          refine remaining.trans ?_
          constructor
          · intro later is_same j lower upper
            by_cases inner : j < pgSize * q + n
            · exact round is_same j lower inner
            · exact later is_same j (by omega) upper
          · exact fun all is_same j lower upper => all is_same j (by omega) upper
      · refine iff_of_false (fun same_bytes => matching ?_) fun all => matching (first.mpr
          fun is_same j lower upper => all is_same j lower (by omega))
        have before : (input.drop begin).take (pgSize * q) ++
            (current.drop (begin + pgSize * q)).take n <+:
              (input.drop begin).take (pgSize * q + count) := by
          rw [← same_bytes]
          split
          · exact List.prefix_rfl
          · exact prefix_gathered _ _ _
        have size : ((current.drop (begin + pgSize * q)).take n).length = n := by
          rw [List.length_take, List.length_drop]
          omega
        have equal := List.prefix_iff_eq_take.mp before
        rw [List.length_append, done, size, List.take_take, Nat.min_eq_left (by omega), ← joined]
          at equal
        exact List.append_cancel_left equal

/-! ## One round -/

variable {sb}

/-- A volume after a read: only buffers and times have changed. -/
structure Untouched (sb : Superblock) (v w : Volume) : Prop where
  /-- The volume is well formed. -/
  wellFormed : w.WellFormed sb
  /-- No buffer is busy. -/
  idle : Idle sb w.state
  /-- The same inodes are allocated. -/
  live : ∀ j, w.Live sb j ↔ v.Live sb j
  /-- The files have their bytes. -/
  content : ∀ j, w.content sb j = v.content sb j
  /-- There is the same room. -/
  room : ∀ j slots, v.Room sb j slots → w.Room sb j slots

/-- `fileread` at a position in a file. -/
theorem fileread_runs {s : World} {f : Nat} (readable : (s.ftable f).readable = true)
    (wf : s.volume.WellFormed sb) (idle : Idle sb s.volume.state)
    (live : s.volume.Live sb (s.ftable f).ip) (mem : Memory) (addr : Nat) {n : Nat}
    (small : n ≤ pgSize) (fits : (s.ftable f).off.toNat + n < 2 ^ 32) (tp : Timespec) :
    ∃ r mem' v, fileread sb s f mem addr (UInt32.ofNat n) tp = .ok ((r : Nat), mem',
        ⟨v, Function.update s.ftable f
          { s.ftable f with off := (s.ftable f).off + UInt32.ofNat r }⟩) ∧
      mem'.range addr r =
        ((s.volume.content sb (s.ftable f).ip).drop (s.ftable f).off.toNat).take n ∧
      Untouched sb s.volume v := by
  have page : pgSize = 4096 := rfl
  have count : (UInt32.ofNat n).toNat = n := by
    rw [UInt32.toNat_ofNat', Nat.mod_eq_of_lt (by omega)]
  set file := s.ftable f with file_eq
  have ends : file.off.toNat + (UInt32.ofNat n).toNat < 2 ^ 32 := by rwa [count]
  have kernel : false = true → PagesIn mem.writable addr
      (s.volume.readable file.ip file.off (UInt32.ofNat n)) := nofun
  obtain ⟨t, run, idle_t, disk⟩ := readi_spec wf idle live ends kernel
  set r := s.volume.readable file.ip file.off (UInt32.ofNat n) with r_eq
  have bound : r ≤ n := by
    rw [r_eq, Volume.readable, count]
    exact Nat.min_le_left _ _
  have returned : asInt (UInt32.ofNat r) = r := by
    rw [asInt, UInt32.toNat_ofNat', Nat.mod_eq_of_lt (by omega), if_pos (by omega)]
  have moved : UInt32.ofInt (r : Int) = UInt32.ofNat r := by
    have value : ((r : Int) % 2 ^ 32).toNat = r := by omega
    rw [UInt32.ofInt, value]
  have off_eq : (if (r : Int) > 0 then file.off + UInt32.ofInt r else file.off) =
      file.off + UInt32.ofNat r := by
    by_cases none : r = 0
    · rw [none, if_neg (by simp)]
      exact (UInt32.add_zero _).symm
    · rw [if_pos (by omega), moved]
  have set_time : Retimed sb ⟨t, s.volume.inodes⟩ ⟨t, Function.update s.volume.inodes file.ip
      { s.volume.inodes file.ip with atime := tp }⟩ := retimed rfl
  have same : ∀ j, Volume.content sb ⟨t, s.volume.inodes⟩ j = s.volume.content sb j := fun j =>
    List.map_congr_left fun o _ => byte_congr disk o
  have untouched : Untouched sb s.volume ⟨t, Function.update s.volume.inodes file.ip
      { s.volume.inodes file.ip with atime := tp }⟩ :=
    ⟨set_time.wellFormed (wf.of_disk disk), idle_t, set_time.live,
      fun j => (set_time.content j).trans (same j), fun j slots room =>
        set_time.room j slots ((balanced_congr disk).room_iff.mpr room)⟩
  refine ⟨r, mem.deliver addr (fun k => s.volume.byte sb file.ip (file.off.toNat + k)) r, _, ?_, ?_,
    untouched⟩
  · have can_read : ¬file.readable = false := by simp [readable]
    rw [fileread, ← file_eq]
    simp only [can_read, run, returned, Except.ok_bind, Except.pure_eq_ok, off_eq]
    rfl
  · rw [range_deliver, map_byte_eq_take_drop, count]

/-- `filewrite` of at most a page. -/
theorem filewrite_runs {s : World} {f : Nat} (writable : (s.ftable f).writable = true)
    (wf : s.volume.WellFormed sb) (idle : Idle sb s.volume.state)
    (live : s.volume.Live sb (s.ftable f).ip) (mem : Memory) (addr : Nat) {n : Nat}
    (positive : 0 < n) (small : n ≤ pgSize)
    (inside : (s.ftable f).off.toNat ≤ (s.volume.content sb (s.ftable f).ip).length)
    (fits : (s.ftable f).off.toNat + n < 2 ^ 32) {slots : Finset Slot}
    (needed : neededSlots (s.ftable f).off.toNat n ⊆ slots)
    (room : s.volume.Room sb (s.ftable f).ip slots) (ts : Timespec) :
    ∃ v, filewrite sb s f mem addr n ts = .ok ((n : Int),
        ⟨v, Function.update s.ftable f
          { s.ftable f with off := (s.ftable f).off + UInt32.ofNat n }⟩) ∧
      Wrote sb (s.ftable f).ip s.volume v slots (s.ftable f).off.toNat (mem.range addr n) ∧
      (∀ j, j ≠ (s.ftable f).ip → s.volume.Live sb j → v.content sb j = s.volume.content sb j) ∧
      ∀ j, v.Live sb j ↔ s.volume.Live sb j := by
  have page : pgSize = 4096 := rfl
  have round : writeMax = 73728 := rfl
  rw [content_length] at inside
  have kernel : false = true → PagesIn mem.readable addr n := nofun
  obtain ⟨v, run, wrote, others, lives⟩ :=
    writeRound_kept ts wf idle live inside positive (by omega) fits kernel needed room
  have one : min writeMax (n - 0) = n := by omega
  have rounds : Append.writeRounds sb (s.ftable f).ip mem addr n false (fun _ => ts) (writeFuel n)
      s.volume (s.ftable f).off 0 = .ok (n, (s.ftable f).off + UInt32.ofNat n, v) := by
    have fuel : writeFuel n = 1 + 1 := by
      rw [writeFuel, Nat.div_eq_of_lt (by omega)]
    rw [fuel, Append.writeRounds, if_pos positive, one, Nat.add_zero]
    simp only [run, Except.ok_bind, ne_eq, not_true_eq_false, if_false, Nat.zero_add]
    rw [Append.writeRounds, if_neg (Nat.lt_irrefl n)]
    rfl
  have whole : Append.filewrite sb (s.ftable f).ip s.volume
      ⟨(s.ftable f).off, (s.ftable f).writable⟩ mem addr n false (fun _ => ts) = _ :=
    filewrite_of_rounds writable (by omega) rounds
  refine ⟨v, ?_, wrote, others, lives⟩
  rw [filewrite, whole]
  simp only [Int.toNat_natCast, if_true, Except.ok_bind, Except.pure_eq_ok]

/-! ## All rounds -/

/-- The world behind some rounds. -/
structure Sending (sb : Superblock) (s t : World) (out_f in_f k : Nat) (sofar : List UInt8) :
    Prop where
  /-- The volume is well formed. -/
  wellFormed : t.volume.WellFormed sb
  /-- No buffer is busy. -/
  idle : Idle sb t.volume.state
  /-- The same inodes are allocated. -/
  live : ∀ j, t.volume.Live sb j ↔ s.volume.Live sb j
  /-- The room for all bytes remains. -/
  room : t.volume.Room sb (s.ftable out_f).ip (neededSlots (s.ftable out_f).off.toNat k)
  /-- The output has the bytes. -/
  output : t.volume.content sb (s.ftable out_f).ip =
    overwrite (s.volume.content sb (s.ftable out_f).ip) (s.ftable out_f).off.toNat sofar
  /-- Other files are as before. -/
  others : ∀ j, j ≠ (s.ftable out_f).ip → s.volume.Live sb j →
    t.volume.content sb j = s.volume.content sb j
  /-- The position of the output moves. -/
  outFile : t.ftable out_f =
    { s.ftable out_f with off := (s.ftable out_f).off + UInt32.ofNat sofar.length }
  /-- The position of the input moves. -/
  inFile : t.ftable in_f =
    { s.ftable in_f with off := (s.ftable in_f).off + UInt32.ofNat sofar.length }

theorem toNat_moved {off : UInt32} {n : Nat} (fits : off.toNat + n < 2 ^ 32) :
    (off + UInt32.ofNat n).toNat = off.toNat + n := by
  rw [UInt32.toNat_add, UInt32.toNat_ofNat']
  omega

theorem Sending.refl {s : World} {out_f in_f k : Nat} (wf : s.volume.WellFormed sb)
    (idle : Idle sb s.volume.state)
    (room : s.volume.Room sb (s.ftable out_f).ip (neededSlots (s.ftable out_f).off.toNat k)) :
    Sending sb s s out_f in_f k [] where
  wellFormed := wf
  idle := idle
  live _ := Iff.rfl
  room := room
  output := overwrite_nil.symm
  others _ _ _ := rfl
  outFile := by
    rw [List.length_nil, show UInt32.ofNat 0 = 0 from rfl, UInt32.add_zero]
  inFile := by
    rw [List.length_nil, show UInt32.ofNat 0 = 0 from rfl, UInt32.add_zero]

/-- One round sends the bytes at its position. -/
theorem round_sends {s t : World} {out_f in_f k : Nat} {sofar : List UInt8} (differ : in_f ≠ out_f)
    (readable : (s.ftable in_f).readable = true) (writable : (s.ftable out_f).writable = true)
    (live_in : s.volume.Live sb (s.ftable in_f).ip)
    (live_out : s.volume.Live sb (s.ftable out_f).ip)
    (inside : (s.ftable in_f).off.toNat + k ≤ (s.volume.content sb (s.ftable in_f).ip).length)
    (target_le : (s.ftable out_f).off.toNat ≤ (s.volume.content sb (s.ftable out_f).ip).length)
    (fits : (s.ftable out_f).off.toNat + k < 2 ^ 32) (sending : Sending sb s t out_f in_f k sofar)
    (mem : Memory) (buf : Nat) {n : Nat} (positive : 0 < n) (small : n ≤ pgSize)
    (more : sofar.length + n ≤ k) (tp ts : Timespec) :
    ∃ mem' t₁ t₂ bytes, fileread sb t in_f mem buf (UInt32.ofNat n) tp = .ok ((n : Int), mem', t₁) ∧
      filewrite sb t₁ out_f mem' buf n ts = .ok ((n : Int), t₂) ∧
      bytes = ((if (s.ftable out_f).ip = (s.ftable in_f).ip then
        overwrite (s.volume.content sb (s.ftable in_f).ip) (s.ftable out_f).off.toNat sofar
        else s.volume.content sb (s.ftable in_f).ip).drop
          ((s.ftable in_f).off.toNat + sofar.length)).take n ∧ bytes.length = n ∧
      Sending sb s t₂ out_f in_f k (sofar ++ bytes) := by
  have in_ip : (t.ftable in_f).ip = (s.ftable in_f).ip := by rw [sending.inFile]
  have out_ip : (t.ftable out_f).ip = (s.ftable out_f).ip := by rw [sending.outFile]
  have size_lt : (s.volume.content sb (s.ftable in_f).ip).length < 2 ^ 32 := by
    rw [content_length]
    exact UInt32.toNat_lt _
  have in_off : (t.ftable in_f).off.toNat = (s.ftable in_f).off.toNat + sofar.length := by
    rw [sending.inFile]
    exact toNat_moved (by omega)
  have out_off : (t.ftable out_f).off.toNat = (s.ftable out_f).off.toNat + sofar.length := by
    rw [sending.outFile]
    exact toNat_moved (by omega)
  set current := if (s.ftable out_f).ip = (s.ftable in_f).ip then
    overwrite (s.volume.content sb (s.ftable in_f).ip) (s.ftable out_f).off.toNat sofar
    else s.volume.content sb (s.ftable in_f).ip with current_eq
  have content_in : t.volume.content sb (s.ftable in_f).ip = current := by
    rw [current_eq]
    split
    · next same => rw [← same, sending.output]
    · next other => exact sending.others _ (Ne.symm other) live_in
  have long : (s.volume.content sb (s.ftable in_f).ip).length ≤ current.length := by
    rw [current_eq]
    split
    · next same =>
        rw [length_overwrite (same ▸ target_le)]
        exact le_max_left _ _
    · exact le_rfl
  obtain ⟨r, mem', v, reads, range, untouched⟩ := fileread_runs (s := t) (f := in_f) (n := n)
    (by rw [sending.inFile]; exact readable) sending.wellFormed sending.idle
    (by rw [in_ip]; exact (sending.live _).mpr live_in) mem buf small (by omega) tp
  rw [in_ip, content_in, in_off] at range
  set bytes := (current.drop ((s.ftable in_f).off.toNat + sofar.length)).take n with bytes_eq
  have size : bytes.length = n := by
    rw [bytes_eq, List.length_take, List.length_drop]
    omega
  obtain rfl : r = n := by rw [← range_length mem' buf r, range, size]
  set t₁ : World := ⟨v, Function.update t.ftable in_f
    { t.ftable in_f with off := (t.ftable in_f).off + UInt32.ofNat r }⟩ with t₁_eq
  have out_same : t₁.ftable out_f = t.ftable out_f := Function.update_of_ne (Ne.symm differ) _ _
  have out_ip₁ : (t₁.ftable out_f).ip = (s.ftable out_f).ip := by rw [out_same, out_ip]
  have out_off₁ : (t₁.ftable out_f).off.toNat = (s.ftable out_f).off.toNat + sofar.length := by
    rw [out_same, out_off]
  have content_out : t₁.volume.content sb (s.ftable out_f).ip =
      overwrite (s.volume.content sb (s.ftable out_f).ip) (s.ftable out_f).off.toNat sofar :=
    (untouched.content _).trans sending.output
  have needed : neededSlots (t₁.ftable out_f).off.toNat r ⊆
      neededSlots (s.ftable out_f).off.toNat k := by
    rw [out_off₁]
    exact neededSlots_within more
  obtain ⟨w, writes, wrote, kept, lives⟩ := filewrite_runs (s := t₁) (f := out_f) (n := r)
    (by rw [out_same, sending.outFile]; exact writable) untouched.wellFormed untouched.idle
    (by rw [out_ip₁]; exact (untouched.live _).mpr ((sending.live _).mpr live_out)) mem' buf
    positive small
    (by rw [out_ip₁, out_off₁, content_out, length_overwrite target_le]; exact le_max_right _ _)
    (by rw [out_off₁]; omega) needed
    (by rw [out_ip₁]; exact untouched.room _ _ sending.room) ts
  rw [range] at wrote
  refine ⟨mem', t₁, _, bytes, reads, writes, rfl, size, ?_⟩
  have joined (off : UInt32) : off + UInt32.ofNat sofar.length + UInt32.ofNat r =
      off + UInt32.ofNat (sofar ++ bytes).length := by
    rw [List.length_append, size, UInt32.add_assoc, UInt32.ofNat_add]
  constructor
  · exact wrote.wellFormed
  · exact wrote.idle
  · intro j
    rw [lives, untouched.live, sending.live]
  · have room := wrote.room
    rwa [out_ip₁] at room
  · have content := wrote.content
    rw [out_ip₁, out_off₁, content_out, overwrite_overwrite target_le] at content
    exact content
  · intro j other live
    rw [kept j (by rwa [out_ip₁]) ((untouched.live j).mpr ((sending.live j).mpr live)),
      untouched.content, sending.others j other live]
  · change Function.update t₁.ftable out_f _ out_f = _
    rw [Function.update_self, out_same, sending.outFile]
    simp only [joined]
  · change Function.update t₁.ftable out_f _ in_f = _
    rw [Function.update_of_ne differ]
    change Function.update t.ftable in_f _ in_f = _
    rw [Function.update_self, sending.inFile]
    simp only [joined]

/-- All rounds send what they gather. -/
theorem sendLoop_sends {s : World} {out_f in_f k : Nat} (differ : in_f ≠ out_f)
    (readable : (s.ftable in_f).readable = true) (writable : (s.ftable out_f).writable = true)
    (live_in : s.volume.Live sb (s.ftable in_f).ip)
    (live_out : s.volume.Live sb (s.ftable out_f).ip)
    (inside : (s.ftable in_f).off.toNat + k ≤ (s.volume.content sb (s.ftable in_f).ip).length)
    (target_le : (s.ftable out_f).off.toNat ≤ (s.volume.content sb (s.ftable out_f).ip).length)
    (fits : (s.ftable out_f).off.toNat + k < 2 ^ 32) (buf : Nat) (clock : Nat → Timespec)
    (fuel : Nat) {t : World} {sofar : List UInt8} (sending : Sending sb s t out_f in_f k sofar)
    (mem : Memory) {count : Nat} (rounds : Nat) (positive : 0 < count)
    (total : sofar.length + count = k) (enough : count < fuel * pgSize) :
    ∃ t' bytes, bytes = gathered (decide ((s.ftable out_f).ip = (s.ftable in_f).ip))
        (s.volume.content sb (s.ftable in_f).ip) (s.ftable in_f).off.toNat
        (s.ftable out_f).off.toNat fuel count sofar ∧
      sendLoop sb out_f in_f buf clock fuel t mem count sofar.length rounds = .ok ((k : Nat), t') ∧
      Sending sb s t' out_f in_f k bytes ∧ bytes.length = k := by
  have page : pgSize = 4096 := rfl
  induction fuel generalizing t sofar mem count rounds with
  | zero => omega
  | succ fuel ih =>
      set n := min count pgSize with n_eq
      have bounds : 0 < n ∧ n ≤ pgSize ∧ sofar.length + n ≤ k := by omega
      obtain ⟨mem', t₁, t₂, bytes, reads, writes, bytes_eq, size, sent⟩ :=
        round_sends differ readable writable live_in live_out inside target_le fits sending mem buf
          bounds.1 bounds.2.1 bounds.2.2 (clock (2 * rounds)) (clock (2 * rounds + 1))
      have length : (sofar ++ bytes).length = sofar.length + n := by
        rw [List.length_append, size]
      have steps : gathered (decide ((s.ftable out_f).ip = (s.ftable in_f).ip))
          (s.volume.content sb (s.ftable in_f).ip) (s.ftable in_f).off.toNat
          (s.ftable out_f).off.toNat (fuel + 1) count sofar =
          if count - n = 0 then sofar ++ bytes
          else gathered (decide ((s.ftable out_f).ip = (s.ftable in_f).ip))
            (s.volume.content sb (s.ftable in_f).ip) (s.ftable in_f).off.toNat
            (s.ftable out_f).off.toNat fuel (count - n) (sofar ++ bytes) := by
        rw [gathered]
        simp only [decide_eq_true_eq, ← bytes_eq, ← n_eq]
      rw [steps]
      simp only [sendLoop, ← n_eq, reads, writes, Except.ok_bind, ne_eq, not_true_eq_false,
        if_false]
      by_cases last : count - n = 0
      · have all : sofar.length + n = k := by omega
        rw [if_pos last, if_pos last, all]
        exact ⟨t₂, _, rfl, rfl, sent, by rw [length, all]⟩
      · have fewer : count - n < fuel * pgSize := by
          rw [Nat.succ_mul] at enough
          omega
        obtain ⟨t', bytes', gathers, runs, done, long⟩ :=
          ih sent mem' (rounds + 1) (by omega) (by rw [length]; omega) fewer
        rw [if_neg last, if_neg last, ← length]
        exact ⟨t', bytes', gathers, runs, done, long⟩

/-! ## Any run -/

/-- No round changes the flags of a file. -/
theorem fileread_flags {s s' : World} {f addr : Nat} {mem mem' : Memory} {n : UInt32}
    {tp : Timespec} {r : Int} (run : fileread sb s f mem addr n tp = .ok (r, mem', s')) (g : Nat) :
    (s'.ftable g).flags = (s.ftable g).flags := by
  rw [fileread] at run
  split at run
  · cases run
    rfl
  · obtain ⟨⟨r', mem'', ip, t⟩, -, run⟩ := Except.bind_eq_ok.mp run
    cases run
    change (Function.update s.ftable f _ g).flags = _
    by_cases same : g = f
    · subst same
      rw [Function.update_self]
    · rw [Function.update_of_ne same]

theorem filewrite_flags {s s' : World} {f addr n : Nat} {mem : Memory} {ts : Timespec} {r : Int}
    (run : filewrite sb s f mem addr n ts = .ok (r, s')) (g : Nat) :
    (s'.ftable g).flags = (s.ftable g).flags := by
  obtain ⟨⟨r', output, v⟩, -, run⟩ := Except.bind_eq_ok.mp run
  cases run
  change (Function.update s.ftable f _ g).flags = _
  by_cases same : g = f
  · subst same
    rw [Function.update_self]
  · rw [Function.update_of_ne same]

/-- The rounds send all bytes that are asked for, or fail, and keep the flags. -/
theorem sendLoop_result {out_f in_f buf : Nat} {clock : Nat → Timespec} (fuel : Nat)
    {s s' : World} {mem : Memory} {count bytes rounds : Nat} {r : Int}
    (run : sendLoop sb out_f in_f buf clock fuel s mem count bytes rounds = .ok (r, s')) :
    (r = -eio ∨ r = (bytes + count : Nat)) ∧ ∀ g, (s'.ftable g).flags = (s.ftable g).flags := by
  induction fuel generalizing s mem count bytes rounds with
  | zero => cases run
  | succ fuel ih =>
      rw [sendLoop] at run
      obtain ⟨⟨r₁, mem₁, s₁⟩, reads, run⟩ := Except.bind_eq_ok.mp run
      have first := fileread_flags reads
      simp only at run
      split at run
      · cases run
        exact ⟨.inl rfl, first⟩
      · obtain ⟨⟨r₂, s₂⟩, writes, run⟩ := Except.bind_eq_ok.mp run
        have second (g : Nat) := (filewrite_flags writes g).trans (first g)
        simp only at run
        split at run
        · cases run
          exact ⟨.inl rfl, second⟩
        · split at run
          · next last =>
              cases run
              refine ⟨.inr ?_, second⟩
              congr 2
              omega
          · next more =>
              obtain ⟨result, flags⟩ := ih run
              refine ⟨result.imp_right fun all => ?_, fun g => (flags g).trans (second g)⟩
              rw [all]
              congr 1
              omega

/-- A request for no byte. -/
theorem sendLoop_zero {s : World} {out_f in_f : Nat} (readable : (s.ftable in_f).readable = true)
    (wf : s.volume.WellFormed sb) (idle : Idle sb s.volume.state)
    (live : s.volume.Live sb (s.ftable in_f).ip) (writable : (s.ftable out_f).writable = true)
    (buf : Nat) (clock : Nat → Timespec) (fuel : Nat) (mem : Memory) :
    ∃ v, sendLoop sb out_f in_f buf clock (fuel + 1) s mem 0 0 0 = .ok (0, ⟨v, s.ftable⟩) ∧
      ∀ j, v.content sb j = s.volume.content sb j := by
  obtain ⟨r, mem', v, reads, range, untouched⟩ := fileread_runs readable wf idle live mem buf
    (Nat.zero_le _) (UInt32.toNat_lt _) (clock 0)
  have none : r = 0 := by
    rw [← range_length mem' buf r, range, List.take_zero, List.length_nil]
  rw [none, show UInt32.ofNat 0 = 0 from rfl, UInt32.add_zero, Function.update_eq_self] at reads
  have can_write : ¬(s.ftable out_f).writable = false := by simp [writable]
  have writes : filewrite sb ⟨v, s.ftable⟩ out_f mem' buf 0 (clock 1) = .ok (0, ⟨v, s.ftable⟩) := by
    have nothing : Append.filewrite sb (s.ftable out_f).ip v
        ⟨(s.ftable out_f).off, (s.ftable out_f).writable⟩ mem' buf (0 : Nat) false
        (fun _ => clock 1) = .ok (0, ⟨(s.ftable out_f).off, (s.ftable out_f).writable⟩, v) := by
      rw [Append.filewrite, if_neg can_write]
      rfl
    rw [filewrite, nothing]
    simp only [Except.ok_bind, Except.pure_eq_ok, Function.update_eq_self]
  refine ⟨v, ?_, untouched.content⟩
  simp only [sendLoop, Nat.zero_min, show UInt32.ofNat 0 = 0 from rfl, Nat.mul_zero, reads, writes,
    Except.ok_bind, Nat.zero_add, Int.natCast_zero, ne_eq, not_true_eq_false, if_false, if_true]
  rfl

/-- The output is shorter than its position. -/
theorem sendLoop_refused {s : World} {out_f in_f : Nat} (readable : (s.ftable in_f).readable = true)
    (wf : s.volume.WellFormed sb) (idle : Idle sb s.volume.state)
    (live : s.volume.Live sb (s.ftable in_f).ip) (writable : (s.ftable out_f).writable = true)
    (differ : in_f ≠ out_f) {count : Nat} (positive : 0 < count)
    (inside : (s.ftable in_f).off.toNat + count ≤ (s.volume.content sb (s.ftable in_f).ip).length)
    (far : (s.volume.content sb (s.ftable out_f).ip).length < (s.ftable out_f).off.toNat)
    (buf : Nat) (clock : Nat → Timespec) (fuel : Nat) (mem : Memory) :
    ∃ t, sendLoop sb out_f in_f buf clock (fuel + 1) s mem count 0 0 = .ok (-eio, t) := by
  have page : pgSize = 4096 := rfl
  have round : writeMax = 73728 := rfl
  have size_lt : (s.volume.content sb (s.ftable in_f).ip).length < 2 ^ 32 := by
    rw [content_length]
    exact UInt32.toNat_lt _
  set n := min count pgSize with n_eq
  have bounds : 0 < n ∧ n ≤ pgSize ∧ n ≤ count := by omega
  obtain ⟨r, mem', v, reads, range, untouched⟩ := fileread_runs readable wf idle live mem buf
    bounds.2.1 (by omega) (clock 0)
  have all : r = n := by
    rw [← range_length mem' buf r, range, List.length_take, List.length_drop]
    omega
  rw [all] at reads
  set t : World := ⟨v, Function.update s.ftable in_f
    { s.ftable in_f with off := (s.ftable in_f).off + UInt32.ofNat n }⟩ with t_eq
  have out_same : t.ftable out_f = s.ftable out_f := Function.update_of_ne (Ne.symm differ) _ _
  have short : (v.inodes (s.ftable out_f).ip).size.toNat < (s.ftable out_f).off.toNat := by
    have length : (v.content sb (s.ftable out_f).ip).length =
        (v.inodes (s.ftable out_f).ip).size.toNat := content_length
    rw [← length, untouched.content]
    exact far
  have one : min writeMax n = n := by omega
  have small : n ≤ writeMax := by omega
  have stops : Append.writeRounds sb (s.ftable out_f).ip mem' buf n false (fun _ => clock 1)
      (writeFuel n) v (s.ftable out_f).off 0 =
        .ok (0, (s.ftable out_f).off, timed v (s.ftable out_f).ip (clock 1)) := by
    refine writeRounds_stop bounds.1 (r := -1) ?_ (by omega)
    rw [one]
    exact writeRound_refused (clock 1) small (.inl short)
  have fails : Append.filewrite sb (s.ftable out_f).ip v
      ⟨(s.ftable out_f).off, (s.ftable out_f).writable⟩ mem' buf n false (fun _ => clock 1) = _ :=
    filewrite_of_rounds writable (by omega) stops
  have nothing : ¬0 = n := by omega
  have writes : ∃ u, filewrite sb t out_f mem' buf n (clock 1) = .ok (-1, u) := by
    rw [filewrite, out_same]
    change ∃ u, (Append.filewrite sb (s.ftable out_f).ip v _ mem' buf n false
      fun _ => clock 1) >>= _ = .ok (-1, u)
    rw [fails]
    simp only [Int.toNat_natCast, nothing, if_false, Except.ok_bind, Except.pure_eq_ok]
    exact ⟨_, rfl⟩
  obtain ⟨u, writes⟩ := writes
  have negative : ¬(-1 : Int) = n := by omega
  simp only [sendLoop, ← n_eq, Nat.mul_zero, reads, Except.ok_bind, ne_eq, not_true_eq_false,
    if_false, Nat.zero_add, writes, negative, not_false_eq_true, if_true, Except.pure_eq_ok]
  exact ⟨u, rfl⟩

/-! ## The offset of the caller -/

theorem joined_toNat (file : File) :
    (joined file).toNat = file.flags.toNat * 2 ^ 32 + file.off.toNat := by
  have off_lt := file.off.toNat_lt
  have flags_lt := file.flags.toNat_lt
  rw [joined, UInt64.toNat_or, UInt64.toNat_shiftLeft, UInt32.toNat_toUInt64, UInt32.toNat_toUInt64]
  change file.flags.toNat <<< 32 % 2 ^ 64 ||| _ = _
  rw [Nat.mod_eq_of_lt (by rw [Nat.shiftLeft_eq]; omega), ← Nat.shiftLeft_add_eq_or_of_lt off_lt,
    Nat.shiftLeft_eq]

theorem halves_toNat (value : UInt64) :
    value.toNat = (high value).toNat * 2 ^ 32 + (low value).toNat := by
  have value_lt := value.toNat_lt
  rw [high, low, UInt64.toNat_toUInt32, UInt64.toNat_toUInt32, UInt64.toNat_shiftRight]
  change _ = value.toNat >>> 32 % 2 ^ 32 * 2 ^ 32 + _
  rw [Nat.shiftRight_eq_div_pow]
  omega

/-! ## When the bytes are sent -/

theorem overwrite_inj {bytes first second : List UInt8} {off : Nat}
    (length : first.length = second.length)
    (same : overwrite bytes off first = overwrite bytes off second) : first = second := by
  rw [overwrite, overwrite, length, List.append_assoc, List.append_assoc] at same
  exact (List.append_inj_left (List.append_cancel_left same) length)

variable {s : World} {out_f in_f : Nat} {user : Memory} {offsetp : Nat} {count : UInt64}

/-- Only the fields `off` and `flags` of the input file are copied over. -/
theorem borrow_eq : ∃ off flags, borrow s in_f user offsetp =
    s.setFile in_f { s.ftable in_f with off := off, flags := flags } := by
  rw [borrow]
  split
  · exact ⟨_, _, congrArg (World.mk s.volume) (Function.update_eq_self _ _).symm⟩
  · exact ⟨_, _, rfl⟩

theorem borrow_volume : (borrow s in_f user offsetp).volume = s.volume := by
  obtain ⟨off, flags, borrowed⟩ := @borrow_eq s in_f user offsetp
  rw [borrowed]
  rfl

theorem borrow_out (differ : in_f ≠ out_f) :
    (borrow s in_f user offsetp).ftable out_f = s.ftable out_f := by
  obtain ⟨off, flags, borrowed⟩ := @borrow_eq s in_f user offsetp
  rw [borrowed]
  exact Function.update_of_ne (Ne.symm differ) _ _

theorem borrow_ip : ((borrow s in_f user offsetp).ftable in_f).ip = (s.ftable in_f).ip := by
  obtain ⟨off, flags, borrowed⟩ := @borrow_eq s in_f user offsetp
  rw [borrowed]
  change (Function.update s.ftable in_f _ in_f).ip = _
  rw [Function.update_self]

theorem borrow_readable :
    ((borrow s in_f user offsetp).ftable in_f).readable = (s.ftable in_f).readable := by
  obtain ⟨off, flags, borrowed⟩ := @borrow_eq s in_f user offsetp
  rw [borrowed]
  change (Function.update s.ftable in_f _ in_f).readable = _
  rw [Function.update_self]

/-- Without an offset the input file stays, and an offset that can be read is in its fields. -/
theorem borrow_in (accessible : Accessible user offsetp) :
    (borrow s in_f user offsetp).ftable in_f =
      if offsetp = 0 then s.ftable in_f
      else { s.ftable in_f with
        off := low (getLong user.bytes offsetp), flags := high (getLong user.bytes offsetp) } := by
  rw [borrow]
  by_cases null : offsetp = 0
  · rw [if_pos null, if_pos null]
  · rw [if_neg null, if_neg null]
    simp only [eitherCopyin, if_true, copyinLoop_spec 8 (accessible null).1 le_rfl,
      getLong_copyRange]
    exact Function.update_self _ _ _

/-- A start that is a position is where the input is read. -/
theorem borrow_off (accessible : Accessible user offsetp)
    (small : start s in_f user offsetp < 2 ^ 32) :
    ((borrow s in_f user offsetp).ftable in_f).off.toNat = start s in_f user offsetp := by
  rw [borrow_in accessible]
  rw [start] at small ⊢
  split
  · rfl
  · next passed =>
      have halves := halves_toNat (getLong user.bytes offsetp)
      rw [if_neg passed] at small
      change (low (getLong user.bytes offsetp)).toNat = _
      omega

/-- The rounds of a request for bytes that are there. -/
theorem sendLoop_whole (differ : in_f ≠ out_f) (readable : (s.ftable in_f).readable = true)
    (writable : (s.ftable out_f).writable = true) (wf : s.volume.WellFormed sb)
    (idle : Idle sb s.volume.state) (live_in : s.volume.Live sb (s.ftable in_f).ip)
    (live_out : s.volume.Live sb (s.ftable out_f).ip) (accessible : Accessible user offsetp)
    (positive : 0 < count.toNat)
    (there : count.toNat ≤ (rest sb s in_f user offsetp).length)
    (room : s.volume.Room sb (s.ftable out_f).ip
      (neededSlots (s.ftable out_f).off.toNat count.toNat))
    (target_le : (s.ftable out_f).off.toNat ≤ (s.volume.content sb (s.ftable out_f).ip).length)
    (fits : (s.ftable out_f).off.toNat + count.toNat < 2 ^ 32) (buf : Nat) (mem : Memory)
    (clock : Nat → Timespec) :
    ∃ t bytes, sendLoop sb out_f in_f buf clock (sendFuel count.toNat)
      (borrow s in_f user offsetp) mem count.toNat 0 0 = .ok ((count.toNat : Nat), t) ∧
      Sending sb (borrow s in_f user offsetp) t out_f in_f count.toNat bytes ∧
      bytes.length = count.toNat ∧
      (bytes = (rest sb s in_f user offsetp).take count.toNat ↔
        Undisturbed sb s out_f in_f user offsetp count.toNat) := by
  rw [rest, List.length_drop] at there
  have size_lt : (s.volume.content sb (s.ftable in_f).ip).length < 2 ^ 32 := by
    rw [content_length]
    exact UInt32.toNat_lt _
  have at_start : ((borrow s in_f user offsetp).ftable in_f).off.toNat = start s in_f user
    offsetp :=
    borrow_off accessible (by omega)
  have enough : count.toNat < sendFuel count.toNat * pgSize := by
    have page : pgSize = 4096 := rfl
    rw [sendFuel, page]
    omega
  have begins : Sending sb (borrow s in_f user offsetp) (borrow s in_f user offsetp) out_f in_f
      count.toNat [] := by
    refine Sending.refl ?_ ?_ ?_
    · rwa [borrow_volume]
    · rwa [borrow_volume]
    · rwa [borrow_volume, borrow_out differ]
  obtain ⟨t, bytes, gathers, runs, sent, length⟩ := sendLoop_sends (s := borrow s in_f user offsetp)
    differ (borrow_readable.trans readable) (by rwa [borrow_out differ])
    (by rwa [borrow_volume, borrow_ip]) (by rwa [borrow_volume, borrow_out differ])
    (by rw [at_start, borrow_volume, borrow_ip]; omega)
    (by rwa [borrow_volume, borrow_out differ]) (by rwa [borrow_out differ]) buf clock
    (sendFuel count.toNat) begins mem 0 positive (Nat.zero_add _) enough
  refine ⟨t, bytes, runs, sent, length, ?_⟩
  rw [at_start, borrow_volume, borrow_ip, borrow_out differ] at gathers
  have exact_iff := gathered_iff (sendFuel count.toNat) (i := 0) (dvd_zero pgSize)
    (show start s in_f user offsetp + 0 + count.toNat ≤
      (s.volume.content sb (s.ftable in_f).ip).length by omega)
    (show decide ((s.ftable out_f).ip = (s.ftable in_f).ip) = true →
        (s.ftable out_f).off.toNat ≤ (s.volume.content sb (s.ftable in_f).ip).length by
      intro same
      rwa [← of_decide_eq_true same]) enough
  rw [List.take_zero, Nat.zero_add, ← gathers] at exact_iff
  refine exact_iff.trans ?_
  simp only [decide_eq_true_eq, Nat.zero_le, true_implies, Undisturbed, rest]

/-- What is left at the end of a call that succeeds. -/
theorem sendfile_success {t : World} {buf : Nat} {mem : Memory} {clock : Nat → Timespec}
    (loop : sendLoop sb out_f in_f buf clock (sendFuel count.toNat) (borrow s in_f user offsetp) mem
      count.toNat 0 0 = .ok ((count.toNat : Nat), t)) :
    sendfile sb s out_f in_f user offsetp count buf mem clock =
      .ok ((count.toNat : Nat), giveBack t in_f (s.ftable in_f).off user offsetp) := by
  rw [sendfile]
  simp only [loop, Except.ok_bind]
  rw [if_neg (by omega)]
  rfl

/-- The loop of a call that did what it should. -/
theorem Sent.loop {ret : Int} {user' : Memory} {t : World} {buf : Nat} {mem : Memory}
    {clock : Nat → Timespec} (sent : Sent sb s out_f in_f user offsetp count ret user' t)
    (run : sendfile sb s out_f in_f user offsetp count buf mem clock = .ok (ret, user', t)) :
    count.toNat ≤ (rest sb s in_f user offsetp).length ∧
      ∃ t₀, sendLoop sb out_f in_f buf clock (sendFuel count.toNat) (borrow s in_f user offsetp) mem
          count.toNat 0 0 = .ok ((count.toNat : Nat), t₀) ∧
        giveBack t₀ in_f (s.ftable in_f).off user offsetp = (user', t) ∧
        (t₀.ftable in_f).flags = ((borrow s in_f user offsetp).ftable in_f).flags := by
  have answer := sent.answer
  have error : eio = 5 := rfl
  rw [sendfile] at run
  obtain ⟨⟨r, t₀⟩, loop, run⟩ := Except.bind_eq_ok.mp run
  obtain ⟨result, flags⟩ := sendLoop_result _ loop
  simp only at run
  rcases result with failed | all
  · rw [failed, if_pos (by omega)] at run
    obtain ⟨same, -⟩ := Prod.mk.inj (Except.ok.inj run)
    omega
  · rw [all, if_neg (by omega)] at run
    obtain ⟨same, left⟩ := Prod.mk.inj (Except.ok.inj run)
    rw [all, Nat.zero_add] at loop
    exact ⟨by omega, t₀, loop, left, flags in_f⟩

theorem giveBack_spec {t t' : World} {offset : UInt32} {user' : Memory}
    (given : giveBack t in_f offset user offsetp = (user', t')) :
    t'.volume = t.volume ∧ (∀ g, g ≠ in_f → t'.ftable g = t.ftable g) ∧
      (t'.ftable in_f).flags = (t.ftable in_f).flags ∧
      (t'.ftable in_f).off = (if offsetp = 0 then (t.ftable in_f).off else offset) ∧
      (offsetp ≠ 0 → PagesIn user.writable offsetp 8 →
        getLong user'.bytes offsetp = joined (t.ftable in_f)) := by
  rw [giveBack] at given
  by_cases null : offsetp = 0
  · rw [if_pos null] at given ⊢
    cases given
    exact ⟨rfl, fun _ _ => rfl, rfl, rfl, fun passed => absurd null passed⟩
  · rw [if_neg null] at given ⊢
    cases given
    refine ⟨rfl, fun g other => Function.update_of_ne other _ _, ?_, ?_, fun _ writable => ?_⟩
    · change (Function.update t.ftable in_f _ in_f).flags = _
      rw [Function.update_self]
    · change (Function.update t.ftable in_f _ in_f).off = _
      rw [Function.update_self]
    · rw [eitherCopyout, if_pos rfl, copyoutLoop_spec 8 writable le_rfl]
      refine getLong_eq fun j j_lt => ?_
      change copyRange user.bytes offsetp _ 0 8 (offsetp + j) = _
      rw [copyRange, if_pos (by omega), Nat.add_sub_cancel_left, Nat.zero_add]

/-- A position moves by the bytes that are there. -/
theorem moved_within (accessible : Accessible user offsetp)
    (there : count.toNat ≤ (rest sb s in_f user offsetp).length) :
    (((borrow s in_f user offsetp).ftable in_f).off + UInt32.ofNat count.toNat).toNat =
      ((borrow s in_f user offsetp).ftable in_f).off.toNat + count.toNat := by
  have size_lt : (s.volume.content sb (s.ftable in_f).ip).length < 2 ^ 32 := by
    rw [content_length]
    exact UInt32.toNat_lt _
  have below := ((borrow s in_f user offsetp).ftable in_f).off.toNat_lt
  rw [rest, List.length_drop] at there
  apply toNat_moved
  by_cases none : count.toNat = 0
  · omega
  · rw [borrow_off accessible (by omega)]
    omega

/-- A loop that sends the bytes makes a call that does what it should. -/
theorem sends_of_loop {t : World} {buf : Nat} {mem : Memory} {clock : Nat → Timespec}
    (differ : in_f ≠ out_f) (accessible : Accessible user offsetp)
    (there : count.toNat ≤ (rest sb s in_f user offsetp).length)
    (kept : offsetp ≠ 0 → high (getLong user.bytes offsetp) = (s.ftable in_f).flags)
    (loop : sendLoop sb out_f in_f buf clock (sendFuel count.toNat) (borrow s in_f user offsetp) mem
      count.toNat 0 0 = .ok ((count.toNat : Nat), t))
    (output : t.volume.content sb (s.ftable out_f).ip =
      overwrite (s.volume.content sb (s.ftable out_f).ip) (s.ftable out_f).off.toNat
        ((rest sb s in_f user offsetp).take count.toNat))
    (outOff : (t.ftable out_f).off.toNat = (s.ftable out_f).off.toNat + count.toNat)
    (inFile : t.ftable in_f = { (borrow s in_f user offsetp).ftable in_f with
      off := ((borrow s in_f user offsetp).ftable in_f).off + UInt32.ofNat count.toNat }) :
    Sends sb s out_f in_f user offsetp count
      (sendfile sb s out_f in_f user offsetp count buf mem clock) := by
  have moved := moved_within accessible there
  obtain ⟨user', t', given⟩ : ∃ user' t', giveBack t in_f (s.ftable in_f).off user offsetp =
      (user', t') := ⟨_, _, rfl⟩
  obtain ⟨volume, files, flags, inOff, offset⟩ := giveBack_spec given
  have run := sendfile_success loop
  rw [given] at run
  rw [borrow_in accessible] at moved inFile
  refine ⟨_, user', t', run, ?_⟩
  constructor
  · rw [Nat.min_eq_left there]
  · rw [volume, output]
  · rw [files out_f (Ne.symm differ), outOff]
    push_cast
    rfl
  · rw [flags, inFile]
    by_cases null : offsetp = 0
    · rw [if_pos null]
    · rw [if_neg null]
      exact kept null
  · rw [inOff, inFile]
    by_cases null : offsetp = 0
    · rw [if_pos null] at moved
      simp only [if_pos null]
      rw [moved]
      push_cast
      rfl
    · simp only [if_neg null, Int.add_zero]
  · exact accessible
  · intro passed
    rw [if_neg passed] at moved inFile
    have halves := halves_toNat (getLong user.bytes offsetp)
    rw [offset passed (accessible passed).2, joined_toNat, inFile]
    change (((high (getLong user.bytes offsetp)).toNat * 2 ^ 32 +
      (low (getLong user.bytes offsetp) + UInt32.ofNat count.toNat).toNat : Nat) : Int) = _
    change (low (getLong user.bytes offsetp) + UInt32.ofNat count.toNat).toNat =
      (low (getLong user.bytes offsetp)).toNat + count.toNat at moved
    omega

/-- For two open files of a volume with room, `sendfile` sends what is asked for and there exactly
if an offset that is passed can be read and written, all that is asked for is there, the flags of
the input are what the offset of the caller has in its high half, the output can be written at its
position, and it does not disturb the input. -/
theorem sendfile_exact_iff (differ : in_f ≠ out_f) (readable : (s.ftable in_f).readable = true)
    (writable : (s.ftable out_f).writable = true) (wf : s.volume.WellFormed sb)
    (idle : Idle sb s.volume.state) (live_in : s.volume.Live sb (s.ftable in_f).ip)
    (live_out : s.volume.Live sb (s.ftable out_f).ip)
    (room : s.volume.Room sb (s.ftable out_f).ip (neededSlots (s.ftable out_f).off.toNat
      (min count.toNat (rest sb s in_f user offsetp).length))) (buf : Nat) (mem : Memory)
    (clock : Nat → Timespec) :
    Sends sb s out_f in_f user offsetp count
        (sendfile sb s out_f in_f user offsetp count buf mem clock) ↔
      Accessible user offsetp ∧ count.toNat ≤ (rest sb s in_f user offsetp).length ∧
        (offsetp ≠ 0 → high (getLong user.bytes offsetp) = (s.ftable in_f).flags) ∧
        (count.toNat = 0 ∨
          (s.ftable out_f).off.toNat ≤ (s.volume.content sb (s.ftable out_f).ip).length ∧
          (s.ftable out_f).off.toNat + count.toNat < 2 ^ 32) ∧
        Undisturbed sb s out_f in_f user offsetp count.toNat := by
  have size_lt : (s.volume.content sb (s.ftable in_f).ip).length < 2 ^ 32 := by
    rw [content_length]
    exact UInt32.toNat_lt _
  constructor
  · rintro ⟨ret, user', t, run, sent⟩
    obtain ⟨there, t₀, loop, given, flags₀⟩ := sent.loop run
    obtain ⟨volume, files, flags, -, -⟩ := giveBack_spec given
    have accessible := sent.accessible
    have answer := sent.answer
    rw [Nat.min_eq_left there] at answer room
    have kept : offsetp ≠ 0 → high (getLong user.bytes offsetp) = (s.ftable in_f).flags := by
      intro passed
      rw [← sent.flags, flags, flags₀, borrow_in accessible, if_neg passed]
    by_cases none : count.toNat = 0
    · refine ⟨accessible, there, kept, .inl none, fun _ j below => ?_⟩
      omega
    · have positive : 0 < count.toNat := Nat.pos_of_ne_zero none
      have inside : start s in_f user offsetp + count.toNat ≤
          (s.volume.content sb (s.ftable in_f).ip).length := by
        rw [rest, List.length_drop] at there
        omega
      have at_start : ((borrow s in_f user offsetp).ftable in_f).off.toNat =
          start s in_f user offsetp := borrow_off accessible (by omega)
      have target_le : (s.ftable out_f).off.toNat ≤
          (s.volume.content sb (s.ftable out_f).ip).length := by
        by_contra far
        obtain ⟨u, fails⟩ : ∃ u, sendLoop sb out_f in_f buf clock (sendFuel count.toNat)
            (borrow s in_f user offsetp) mem count.toNat 0 0 = .ok (-eio, u) := sendLoop_refused
          (borrow_readable.trans readable) (by rwa [borrow_volume]) (by rwa [borrow_volume])
          (by rwa [borrow_volume, borrow_ip]) (by rwa [borrow_out differ]) differ positive
          (by rwa [at_start, borrow_volume, borrow_ip])
          (by rw [borrow_volume, borrow_out differ]; omega) buf clock (count.toNat / pgSize) mem
        have error : eio = 5 := rfl
        have same := Prod.mk.inj (Except.ok.inj (fails.symm.trans loop))
        omega
      have fits : (s.ftable out_f).off.toNat + count.toNat < 2 ^ 32 := by
        have moved := sent.outputOff
        have below := (t.ftable out_f).off.toNat_lt
        omega
      obtain ⟨t₁, bytes, loop₁, sending, length, exact_iff⟩ := sendLoop_whole differ readable
        writable wf idle live_in live_out accessible positive there room target_le fits buf
          mem clock
      cases loop₁.symm.trans loop
      refine ⟨accessible, there, kept, .inr ⟨target_le, fits⟩, exact_iff.mp ?_⟩
      have output := sending.output
      rw [borrow_volume, borrow_out differ, ← volume, sent.output] at output
      refine (overwrite_inj ?_ output).symm
      rw [List.length_take, length, Nat.min_eq_left there]
  · rintro ⟨accessible, there, kept, at_output, undisturbed⟩
    rw [Nat.min_eq_left there] at room
    rcases Nat.eq_zero_or_pos count.toNat with none | positive
    · have wf_b : (borrow s in_f user offsetp).volume.WellFormed sb := by rwa [borrow_volume]
      obtain ⟨v, loop, content⟩ := sendLoop_zero (borrow_readable.trans readable) wf_b
        (by rwa [borrow_volume]) (by rwa [borrow_volume, borrow_ip])
        (by rwa [borrow_out differ]) buf clock 0 mem
      have fuel : sendFuel count.toNat = 0 + 1 := by rw [none, sendFuel, Nat.zero_div]
      have zero : UInt32.ofNat 0 = 0 := rfl
      refine sends_of_loop (t := ⟨v, (borrow s in_f user offsetp).ftable⟩) differ accessible there
        kept ?_ ?_ ?_ ?_
      · rw [fuel, none]
        exact loop
      · rw [none, List.take_zero, overwrite_nil]
        exact (content _).trans (by rw [borrow_volume])
      · rw [none, Nat.add_zero]
        exact congrArg (·.off.toNat) (borrow_out differ)
      · rw [none, zero, UInt32.add_zero]
    · obtain ⟨target_le, fits⟩ := at_output.resolve_left (by omega)
      obtain ⟨t, bytes, loop, sending, length, exact_iff⟩ := sendLoop_whole differ readable
        writable wf idle live_in live_out accessible positive there room target_le fits buf
          mem clock
      have output := sending.output
      rw [borrow_volume, borrow_out differ, exact_iff.mpr undisturbed] at output
      refine sends_of_loop differ accessible there kept loop output ?_ ?_
      · rw [sending.outFile, borrow_out differ, length]
        exact toNat_moved fits
      · rw [sending.inFile, length]

/-! ## Two requests -/

/-- A volume whose file is open twice: at the start for reading and at a position for writing. -/
def openTwice (v : Volume) (off : UInt32) : World :=
  ⟨v, fun f => if f = 0 then ⟨2, 0, 0, true, false⟩ else ⟨2, off, 1, false, true⟩⟩

/-- Five bytes of an empty file are asked for: the answer is an error. -/
theorem sendfile_empty : ¬Sends mkfsSuper (openTwice fresh 0) 1 0 letters 0 5
    (sendfile mkfsSuper (openTwice fresh 0) 1 0 letters 0 5 0 letters fun _ => ⟨0, 0⟩) := by
  rintro ⟨ret, user', t, run, sent⟩
  have there := (sent.loop run).1
  have nothing : rest mkfsSuper (openTwice fresh 0) 0 letters 0 = [] := by
    have content : fresh.content mkfsSuper 2 = [] := unopened_content
    change (fresh.content mkfsSuper 2).drop _ = []
    rw [content, List.drop_nil]
  rw [nothing] at there
  exact absurd there (by decide)

/-- A file of five letters. -/
theorem exists_letters : ∃ v : Volume, v.WellFormed mkfsSuper ∧ v.Live mkfsSuper 2 ∧
    Idle mkfsSuper v.state ∧ (v.content mkfsSuper 2).length = 5 := by
  have live : fresh.Live mkfsSuper 2 := (fresh_live_iff 2).mpr rfl
  have kernel : false = true → PagesIn letters.readable 0 (5 : UInt32).toNat := nofun
  obtain ⟨ip, t, -, card⟩ := writei_spec fresh_wellFormed (idle_binit _) live
    (show (0 : UInt32).toNat ≤ (fresh.inodes 2).size.toNat from Nat.zero_le _)
    (show (0 : UInt32).toNat + (5 : UInt32).toNat < 2 ^ 32 by decide) kernel fresh_room
  refine ⟨⟨t, Function.update fresh.inodes 2 ip⟩, card.wellFormed, (card.live 2).mpr live,
    card.idle, ?_⟩
  rw [content_length, card.size, fresh_size, range_length]
  rfl

/-- A caller whose memory is zero. -/
def caller : Memory := ⟨zeros, fun _ => true, fun _ => true⟩

/-- The letters are sent to the end of their own file, from an offset that crosses a page. -/
theorem sendfile_letters : ∃ v : Volume, (v.content mkfsSuper 2).length = 5 ∧
    Sends mkfsSuper (openTwice v 5) 1 0 caller 4094 5
      (sendfile mkfsSuper (openTwice v 5) 1 0 caller 4094 5 0 letters fun _ => ⟨0, 0⟩) := by
  obtain ⟨v, wf, live, idle, five⟩ := exists_letters
  have zero : getLong caller.bytes 4094 = 0 := rfl
  have begins : start (openTwice v 5) 0 caller 4094 = 0 := rfl
  have there : (rest mkfsSuper (openTwice v 5) 0 caller 4094).length = 5 := by
    rw [rest, begins, List.length_drop]
    exact five
  have room : v.Room mkfsSuper 2 (neededSlots (5 : UInt32).toNat
      (min (5 : UInt64).toNat (rest mkfsSuper (openTwice v 5) 0 caller 4094).length)) := by
    rw [there]
    have length : (v.content mkfsSuper 2).length = (v.inodes 2).size.toNat := content_length
    refine room_firstBlock wf live ?_ (by decide)
    rw [← length, five]
    decide
  have exact_iff := @sendfile_exact_iff mkfsSuper (openTwice v 5) 1 0 caller 4094 5 (by decide) rfl
    rfl wf idle live live room 0 letters fun _ => ⟨0, 0⟩
  refine ⟨v, five, exact_iff.mpr ⟨fun _ => ⟨fun _ _ _ => rfl, fun _ _ _ => rfl⟩, ?_, fun _ => ?_,
    .inr ⟨?_, ?_⟩, ?_⟩⟩
  · rw [there]
    decide
  · rw [zero]
    rfl
  · change (5 : UInt32).toNat ≤ (v.content mkfsSuper 2).length
    rw [five]
    decide
  · change (5 : UInt32).toNat + (5 : UInt64).toNat < 2 ^ 32
    decide
  · intro _ j below behind
    rw [begins] at behind
    change (5 : UInt32).toNat ≤ 0 + j at behind
    change j < 5 at below
    change 5 ≤ 0 + j at behind
    omega

end Send
end Vfs
end Xv6Duo
