import Xv6Duo.Errno
import Xv6Duo.Fs.NameMap
import Xv6Duo.Library.Longs
import Xv6Duo.Library.Packing

/-!
# Listing a directory

`getdents64` of `kernel/fs.c` on a directory that does not change. Entries are read one after the
other through an open file, and a record for each is built in a variable on the stack and copied
out. The variable keeps what it held before wherever no field is stored.
-/

namespace Xv6Duo
namespace Fs
namespace Getdents

open ByteBlock

/-! ## Records -/

/-- `T_DEVICE`. -/
def tDevice : UInt16 := 3
/-- `T_MOUNT`. -/
def tMount : UInt16 := 4
/-- `T_SYMLINK`. -/
def tSymlink : UInt16 := 5

/-- `IFTODT` of the format of a mode. -/
def ifToDt (format : UInt32) : UInt8 := (format >>> 12 &&& 0o17).toUInt8

/-- The field `d_type` for an inode of that type; `major` is that of the open file. -/
def dType (major : Int) (type : UInt16) : UInt8 :=
  if type = tDevice then
    if major = 0 then ifToDt 0o060000
    else ifToDt 0o020000
  else if type = tDir then ifToDt 0o040000
  else if type = tSymlink then ifToDt 0o120000
  else if type = tMount then ifToDt 0o040000
  else ifToDt 0o100000

/-- A byte of the variable `de64`. -/
structure Cell where
  /-- Its value. -/
  byte : UInt8
  /-- It belongs to a field that has been stored for the record in the variable. -/
  field : Bool

/-- The offset of `d_name` in a `struct dirent64`. -/
def dName : Nat := 19

/-- `namelen`: `strlen` of a name that fills its entry is at least `DIRSIZ`. -/
def namelen (de : Bytes) : Nat := (nameOf (direntName de)).length + 1

/-- `reclen`. -/
def reclen (de : Bytes) : Nat := (dName + namelen de + 7) / 8 * 8

/-- The bytes from `de.name` on; behind `de` is a byte of the stack. -/
def nameBytes (de : Bytes) (behind : UInt8) : Bytes :=
  fun k => if k < dirSiz then direntName de k else behind

/-- The fields of a record are stored in `de64`. -/
def fill (de64 : Nat → Cell) (de : Bytes) (behind : UInt8) (off : UInt32) (type : UInt8) :
    Nat → Cell :=
  fun k =>
    if k < 8 then ⟨longByte (direntInum de).toUInt64 k, true⟩
    else if k < 16 then ⟨longByte (UInt64.ofInt (asInt off)) (k - 8), true⟩
    else if k < 18 then ⟨longByte (UInt64.ofNat (reclen de)) (k - 16), true⟩
    else if k = 18 then ⟨type, true⟩
    else if k < dName + namelen de then ⟨strncpy (nameBytes de behind) (k - dName), true⟩
    else ⟨(de64 k).byte, false⟩

/-! ## The call -/

/-- The fields of a `struct file` for a directory. -/
structure File where
  /-- It has been opened for reading. -/
  readable : Bool
  /-- Number of the inode. -/
  ip : UInt32
  /-- Offset. -/
  off : UInt32
  /-- Major number, which is set for a device alone. -/
  major : Int

/-- A call of `getdents64`: the arguments, the memory of the process, and what the stack holds. -/
structure Call where
  /-- Address of the buffer. -/
  data : Nat
  /-- Size of the buffer. -/
  size : Nat
  /-- Memory of the process. -/
  mem : Memory
  /-- The variable `de64`. -/
  de64 : Bytes
  /-- The byte behind the variable `de`. -/
  behind : UInt8

/-- What `getdents64` works on. -/
structure Locals where
  /-- The card and its buffers. -/
  state : State
  /-- The open file. -/
  f : File
  /-- The inode of the directory. -/
  ip : Inode
  /-- The variable `de64`. -/
  de64 : Nat → Cell
  /-- Length of the records so far. -/
  tlen : Nat
  /-- The offset behind the last record. -/
  off : UInt32
  /-- Memory of the process. -/
  mem : Memory
  /-- The records that have been copied out. -/
  copied : List (List Cell)

variable (sb : Superblock)

/-- `fileread` of an entry into a kernel variable. -/
def fileread (s : State) (f : File) (ip : Inode) :
    Except Fault (Int × Bytes × File × Inode × State) :=
  if f.readable = false then .ok (-1, zeros, f, ip, s)
  else do
    let (r, de, ip, s) ← readDirent sb s ip f.off
    return (r, de, if r > 0 then { f with off := f.off + UInt32.ofNat r.toNat } else f, ip, s)

/-- The loop of `getdents64`. The types of the inodes are those that `ilock` finds. -/
def getdentsLoop (inodes : UInt32 → Inode) (data size : Nat) (behind : UInt8) :
    Nat → Locals → Except Fault (Int × Locals)
  | 0, _ => .error .loops
  | fuel + 1, l => do
      let (n, de, f, ip, s) ← fileread sb l.state l.f l.ip
      let l := { l with state := s, f := f, ip := ip }
      if n = 0 then return (l.tlen, l)
      else if n ≠ 64 then return (if l.tlen = 0 then -1 else l.tlen, l)
      else if direntInum de = 0 then getdentsLoop inodes data size behind fuel l
      -- The entry has been read, so that a call that ends here has passed it.
      else if l.tlen + reclen de > size then return (l.tlen, l)
      else if (inodes (direntInum de)).type = 0 then .error .ilockNoType
      else
        let de64 := fill l.de64 de behind l.off (dType l.f.major (inodes (direntInum de)).type)
        match copyoutLoop (fun k => (de64 k).byte) (reclen de) l.mem (data + l.tlen) 0
            (reclen de) with
        | (false, mem) => return (-efault, { l with de64 := de64, mem := mem })
        | (true, mem) =>
            getdentsLoop inodes data size behind fuel
              { l with
                de64 := de64, mem := mem, tlen := l.tlen + reclen de, off := l.f.off,
                copied := l.copied ++ [(List.range (reclen de)).map de64] }

/-- What a call returns and leaves behind. -/
structure Outcome where
  /-- The returned value. -/
  returned : Int
  /-- Memory of the process. -/
  mem : Memory
  /-- The records that have been copied out. -/
  copied : List (List Cell)

/-- `getdents64`. -/
def getdents64 (v : Volume) (s : State) (f : File) (call : Call) :
    Except Fault (Outcome × File × State) := do
  let (r, l) ← getdentsLoop sb v.inodes call.data call.size call.behind
    (direntFuel (v.inodes f.ip))
    ⟨s, f, v.inodes f.ip, fun k => ⟨call.de64 k, false⟩, 0, 0, call.mem, []⟩
  return (⟨r, l.mem, l.copied⟩, l.f, l.state)

/-- Calls on one open file, one after the other. -/
def getdentsCalls (v : Volume) : State → File → List Call →
    Except Fault (List Outcome × File × State)
  | s, f, [] => .ok ([], f, s)
  | s, f, call :: calls => do
      let (out, f, s) ← getdents64 sb v s f call
      let (outs, f, s) ← getdentsCalls v s f calls
      return (out :: outs, f, s)

variable {sb : Superblock} {v : Volume} {i : UInt32} {s : State}

/-! ## What a record holds -/

theorem stringFrom_nonzero (bytes : Bytes) (n k : Nat) : 0 ∉ stringFrom bytes n k := by
  induction n generalizing k with
  | zero => exact List.not_mem_nil
  | succ n ih =>
      rw [stringFrom]
      split
      · exact List.not_mem_nil
      · next more =>
          rw [List.mem_cons, not_or]
          exact ⟨fun zero => more zero.symm, ih (k + 1)⟩

theorem length_stringFrom_le (bytes : Bytes) (n k : Nat) : (stringFrom bytes n k).length ≤ n := by
  induction n generalizing k with
  | zero => exact Nat.le_refl 0
  | succ n ih =>
      rw [stringFrom]
      split
      · exact Nat.zero_le _
      · exact Nat.succ_le_succ (ih (k + 1))

theorem getElem_stringFrom {bytes : Bytes} {n k j : Nat}
    (below : j < (stringFrom bytes n k).length) : (stringFrom bytes n k)[j] = bytes (k + j) := by
  induction n generalizing k j with
  | zero => exact absurd below (Nat.not_lt_zero j)
  | succ n ih =>
      cases Decidable.em (bytes k = 0) with
      | inl zero =>
          rw [stringFrom, if_pos zero] at below
          exact absurd below (Nat.not_lt_zero j)
      | inr more =>
          simp only [stringFrom, if_neg more] at below ⊢
          cases j with
          | zero => rfl
          | succ j =>
              rw [List.getElem_cons_succ, ih, Nat.add_assoc, Nat.add_comm 1 j]

/-- A string that is shorter than its limit is terminated. -/
theorem stringFrom_stops {bytes : Bytes} {n k : Nat} (short : (stringFrom bytes n k).length < n) :
    bytes (k + (stringFrom bytes n k).length) = 0 := by
  induction n generalizing k with
  | zero => exact absurd short (Nat.not_lt_zero _)
  | succ n ih =>
      cases Decidable.em (bytes k = 0) with
      | inl zero =>
          rw [stringFrom, if_pos zero]
          exact zero
      | inr more =>
          simp only [stringFrom, if_neg more, List.length_cons] at short ⊢
          rw [Nat.add_comm _ 1, ← Nat.add_assoc]
          exact ih (Nat.lt_of_succ_lt_succ short)

/-- Characters with a terminator behind them are read back. -/
theorem stringFrom_eq {bytes : Bytes} {chars : List UInt8} {n k : Nat} (nonzero : 0 ∉ chars)
    (stored : ∀ j (below : j < chars.length), bytes (k + j) = chars[j])
    (stop : bytes (k + chars.length) = 0) (room : chars.length < n) :
    stringFrom bytes n k = chars := by
  induction chars generalizing k n with
  | nil =>
      cases n with
      | zero => rfl
      | succ n =>
          have zero : bytes k = 0 := stop
          rw [stringFrom, if_pos zero]
  | cons char chars ih =>
      rw [List.length_cons] at room stop
      rw [List.mem_cons, not_or] at nonzero
      have first : bytes k = char := stored 0 (Nat.succ_pos _)
      cases n with
      | zero => exact absurd room (Nat.not_lt_zero _)
      | succ n =>
          rw [stringFrom, first, if_neg fun zero => nonzero.1 zero.symm, List.cons.injEq,
            and_iff_right rfl]
          refine ih nonzero.2 (fun j below => ?_) ?_ (Nat.lt_of_succ_lt_succ room)
          · rw [Nat.add_assoc, Nat.add_comm 1 j]
            exact stored (j + 1) (Nat.succ_lt_succ below)
          · rw [Nat.add_assoc, Nat.add_comm 1]
            exact stop

/-- The bytes of a record. -/
def bytesOf (record : List Cell) : Bytes := fun k => ((record[k]?).map Cell.byte).getD 0

/-- A record lists an entry. -/
structure Lists (entry : List UInt8 × UInt32) (record : List Cell) : Prop where
  /-- `d_ino` is the number in the entry. -/
  ino : getLong (bytesOf record) 0 = entry.2.toUInt64
  /-- `d_reclen` is the length of the record. -/
  length : littleEndian (bytesOf record) 16 2 = record.length
  /-- It is a multiple of 8. -/
  aligned : record.length % 8 = 0
  /-- The record covers the name and its terminator. -/
  covers : dName + entry.1.length < record.length
  /-- `d_name` is the name in the entry. -/
  name : stringFrom (bytesOf record) (record.length - dName) dName = entry.1

/-- The length of the record of an entry. -/
def recordLength (entry : List UInt8 × UInt32) : Nat := (dName + (entry.1.length + 1) + 7) / 8 * 8

/-- A record that `getdents64` has built for an entry. -/
def Recorded (entry : List UInt8 × UInt32) (record : List Cell) : Prop :=
  ∃ (de64 : Nat → Cell) (de : Bytes) (behind : UInt8) (off : UInt32) (type : UInt8),
    record = (List.range (reclen de)).map (fill de64 de behind off type) ∧ decode de = some entry

theorem decode_eq_some {de : Bytes} {entry : List UInt8 × UInt32} (some : decode de = some entry) :
    direntInum de ≠ 0 ∧ entry = (nameOf (direntName de), direntInum de) := by
  rw [decode] at some
  split at some
  · cases some
  · next used =>
      cases some
      exact ⟨used, rfl⟩

theorem reclen_eq {de : Bytes} {entry : List UInt8 × UInt32} (some : decode de = some entry) :
    reclen de = recordLength entry := by
  rw [(decode_eq_some some).2]
  rfl

theorem Recorded.length_eq {entry : List UInt8 × UInt32} {record : List Cell}
    (recorded : Recorded entry record) : record.length = recordLength entry := by
  obtain ⟨de64, de, behind, off, type, rfl, some⟩ := recorded
  rw [List.length_map, List.length_range, reclen_eq some]

theorem bytesOf_map {cells : Nat → Cell} {n k : Nat} (below : k < n) :
    bytesOf ((List.range n).map cells) k = (cells k).byte := by
  rw [bytesOf, List.getElem?_map, List.getElem?_range below]
  rfl

/-- The characters of a name are copied. -/
theorem strncpy_nameBytes {de : Bytes} (behind : UInt8) {j : Nat}
    (below : j < (nameOf (direntName de)).length) :
    strncpy (nameBytes de behind) j = (nameOf (direntName de))[j] := by
  have inside : (nameOf (direntName de)).length ≤ dirSiz := length_stringFrom_le _ _ _
  have source {m : Nat} (upper : m < (nameOf (direntName de)).length) :
      nameBytes de behind m = (nameOf (direntName de))[m] := by
    rw [nameBytes, if_pos (Nat.lt_of_lt_of_le upper inside)]
    simp only [nameOf]
    rw [getElem_stringFrom, Nat.zero_add]
  rw [strncpy, if_neg, source below]
  rw [List.any_eq_true]
  rintro ⟨m, mem, zero⟩
  rw [List.mem_range] at mem
  rw [beq_iff_eq, source (Nat.lt_trans mem below)] at zero
  exact stringFrom_nonzero (direntName de) dirSiz 0 (zero ▸ List.getElem_mem _)

/-- A name that does not fill its entry is terminated. -/
theorem strncpy_nameBytes_end {de : Bytes} (behind : UInt8)
    (short : (nameOf (direntName de)).length < dirSiz) :
    strncpy (nameBytes de behind) (nameOf (direntName de)).length = 0 := by
  have stop : direntName de (0 + (nameOf (direntName de)).length) = 0 := stringFrom_stops short
  rw [Nat.zero_add] at stop
  rw [strncpy, nameBytes, if_pos short, stop, ite_self]

/-- A record whose name is terminated lists its entry. -/
theorem Recorded.lists {entry : List UInt8 × UInt32} {record : List Cell}
    (recorded : Recorded entry record) (short : entry.1.length < dirSiz) : Lists entry record := by
  have length := recorded.length_eq
  obtain ⟨de64, de, behind, off, type, rfl, some⟩ := recorded
  have same := reclen_eq some
  obtain ⟨-, rfl⟩ := decode_eq_some some
  have fits : dName + namelen de ≤ reclen de := by
    rw [reclen]
    omega
  have large : 20 ≤ reclen de := by
    rw [namelen, dName] at fits
    omega
  have small : reclen de < 2 ^ 16 := by
    rw [reclen, namelen, dName]
    simp only [dirSiz] at short
    omega
  constructor
  · refine getLong_eq fun j j_lt => ?_
    rw [Nat.zero_add, bytesOf_map (by omega), fill, if_pos j_lt]
  · rw [length, ← same]
    refine (@littleEndian_eq _ _ _ (reclen de) fun j j_lt => ?_).trans (Nat.mod_eq_of_lt small)
    rw [bytesOf_map (by omega), fill, if_neg (by omega), if_neg (by omega), if_pos (by omega),
      Nat.add_sub_cancel_left, longByte, UInt64.toNat_ofNat_of_lt' (show _ < 2 ^ 64 by omega)]
  · rw [length, recordLength]
    exact Nat.mul_mod_left _ 8
  · rw [length, recordLength]
    omega
  · refine stringFrom_eq (stringFrom_nonzero _ _ _) (fun j below => ?_) ?_ ?_
    · have upper : j < namelen de := Nat.lt_succ_of_lt below
      rw [bytesOf_map (by omega), fill, if_neg (by rw [dName]; omega),
        if_neg (by rw [dName]; omega),
        if_neg (by rw [dName]; omega), if_neg (by rw [dName]; omega), if_pos (by omega),
        Nat.add_sub_cancel_left]
      exact strncpy_nameBytes behind below
    · have upper : (nameOf (direntName de)).length < namelen de := Nat.lt_succ_self _
      rw [bytesOf_map (by simp only; omega), fill, if_neg (by rw [dName]; omega),
        if_neg (by rw [dName]; omega), if_neg (by rw [dName]; omega), if_neg (by rw [dName]; omega),
        if_pos (by simp only; omega), Nat.add_sub_cancel_left]
      exact strncpy_nameBytes_end behind short
    · rw [length, recordLength]
      simp only
      omega

/-- A record consists of its fields if its name ends at a multiple of 8. -/
theorem Recorded.fields_iff {entry : List UInt8 × UInt32} {record : List Cell}
    (recorded : Recorded entry record) :
    (∀ cell ∈ record, cell.field = true) ↔ entry.1.length % 8 = 4 := by
  obtain ⟨de64, de, behind, off, type, rfl, some⟩ := recorded
  obtain ⟨-, rfl⟩ := decode_eq_some some
  have field (k : Nat) : (fill de64 de behind off type k).field = true ↔
    k < dName + namelen de := by
    rw [fill, dName]
    split
    · exact iff_of_true rfl (by omega)
    · split
      · exact iff_of_true rfl (by omega)
      · split
        · exact iff_of_true rfl (by omega)
        · split
          · exact iff_of_true rfl (by omega)
          · split
            · next inside => exact iff_of_true rfl inside
            · next outside => exact iff_of_false Bool.false_ne_true outside
  have all : (∀ cell ∈ (List.range (reclen de)).map (fill de64 de behind off type),
      cell.field = true) ↔ ∀ k < reclen de, k < dName + namelen de := by
    simp only [List.forall_mem_map, List.mem_range, field]
  rw [all, reclen, namelen, dName]
  constructor
  · intro covered
    have last := covered ((19 + ((nameOf (direntName de)).length + 1) + 7) / 8 * 8 - 1) (by omega)
    simp only
    omega
  · simp only
    intro multiple k below
    omega

/-! ## The loop -/

open Volume

/-- A directory whose entries belong to allocated inodes. -/
structure Listing (sb : Superblock) (v : Volume) (i : UInt32) : Prop where
  /-- The volume. -/
  wellFormed : v.WellFormed sb
  /-- No buffer is busy. -/
  idle : Idle sb v.state
  /-- The inode is allocated. -/
  live : v.Live sb i
  /-- It is a directory. -/
  type : (v.inodes i).type = tDir
  /-- It consists of entries. -/
  aligned : (v.inodes i).size.toNat % 64 = 0
  /-- The inodes of the entries are allocated. -/
  linked : ∀ entry ∈ (v.slots sb i).reduceOption, v.Live sb entry.2

/-- An open file stands at slot `k` of a directory. -/
structure Opened (sb : Superblock) (v : Volume) (i : UInt32) (k : Nat) (s : State) (f : File) :
    Prop where
  /-- The buffers and the card. -/
  scanned : Scanned sb v s
  /-- The file can be read. -/
  readable : f.readable = true
  /-- It is open on the directory. -/
  ip : f.ip = i
  /-- Its offset is that of the slot. -/
  off : f.off.toNat = 64 * k
  /-- The slot is in the directory or behind its last one. -/
  inside : k ≤ (v.slots sb i).length

/-- A call has read the entries before slot `k`. -/
structure At (sb : Superblock) (v : Volume) (i : UInt32) (call : Call) (k : Nat) (l : Locals) :
    Prop where
  /-- The file stands at the slot. -/
  opened : Opened sb v i k l.state l.f
  /-- The inode is unchanged. -/
  ip : l.ip = v.inodes i
  /-- The process has the same pages. -/
  pages : l.mem.writable = call.mem.writable
  /-- The buffer holds the records. -/
  stored : l.mem.range call.data l.tlen = l.copied.flatten.map Cell.byte
  /-- Their lengths have been added. -/
  length : (l.copied.map List.length).sum = l.tlen
  /-- They fit in the buffer. -/
  fits : l.tlen ≤ call.size

theorem Listing.size (dir : Listing sb v i) :
    (v.inodes i).size.toNat = 64 * (v.slots sb i).length := by
  have aligned := dir.aligned
  rw [length_slots]
  omega

/-- An entry is read through the open file. -/
theorem fileread_spec (dir : Listing sb v i) {f : File} {k : Nat} (opened : Opened sb v i k s f)
    (k_lt : k < (v.slots sb i).length) :
    ∃ de f' t, fileread sb s f (v.inodes i) = .ok (64, de, f', v.inodes i, t) ∧
      decode de = decode (v.entry sb i k) ∧ Opened sb v i (k + 1) t f' := by
  have size := dir.size
  have below := (v.inodes i).size.toNat_lt
  obtain ⟨de, t, read, same, scanned⟩ := readEntry_spec dir.wellFormed dir.live opened.scanned
    opened.off (by omega)
  refine ⟨de, { f with off := f.off + direntSize }, t, ?_, same, scanned, opened.readable,
    opened.ip, ?_, k_lt⟩
  · rw [fileread, if_neg (by rw [opened.readable]; exact Bool.noConfusion), read]
    rfl
  · rw [UInt32.toNat_add, opened.off, show direntSize.toNat = 64 from rfl]
    omega

/-- Nothing is read at the end of the directory. -/
theorem fileread_end (dir : Listing sb v i) {f : File} {k : Nat} (opened : Opened sb v i k s f)
    (k_eq : k = (v.slots sb i).length) :
    ∃ de t, fileread sb s f (v.inodes i) = .ok (0, de, f, v.inodes i, t) ∧
      Opened sb v i k t f := by
  have off := opened.off
  rw [k_eq, ← dir.size] at off
  obtain ⟨de, t, read, scanned⟩ := readEntry_end dir.wellFormed dir.live opened.scanned off
  refine ⟨de, t, ?_, scanned, opened.readable, opened.ip, opened.off, opened.inside⟩
  rw [fileread, if_neg (by rw [opened.readable]; exact Bool.noConfusion), read]
  rfl

/-- Bytes that are stored behind a range extend it. -/
theorem range_deliver_append (mem : Memory) (start n length : Nat) (source : Nat → UInt8) :
    (mem.deliver (start + n) source length).range start (n + length) =
      mem.range start n ++ (List.range length).map source := by
  rw [Memory.range, Memory.range, List.range_add, List.map_append, List.map_map]
  congr 1
  · refine List.map_congr_left fun k mem_k => ?_
    rw [List.mem_range] at mem_k
    exact deliver_outside mem source (by omega)
  · refine List.map_congr_left fun k mem_k => ?_
    rw [List.mem_range] at mem_k
    simp only [Function.comp_apply, Memory.deliver, copyRange]
    rw [if_pos (by omega)]
    congr 1
    omega

/-- A record is copied out behind the others. -/
theorem At.record {call : Call} {k : Nat} {l : Locals} (here : At sb v i call k l)
    (writable : PagesIn call.mem.writable call.data call.size) {n : Nat}
    (fits : l.tlen + n ≤ call.size) (de64 : Nat → Cell) :
    ∃ mem, copyoutLoop (fun k => (de64 k).byte) n l.mem (call.data + l.tlen) 0 n = (true, mem) ∧
      At sb v i call k { l with
        de64 := de64, mem := mem, tlen := l.tlen + n, off := l.f.off,
        copied := l.copied ++ [(List.range n).map de64] } := by
  have pages : PagesIn l.mem.writable (call.data + l.tlen) n := by
    rw [here.pages]
    exact fun a lower upper => writable a (by omega) (by omega)
  refine ⟨l.mem.deliver (call.data + l.tlen) (fun k => (de64 k).byte) n,
    copyoutLoop_spec n pages (Nat.le_refl n), here.opened, here.ip, here.pages, ?_, ?_, fits⟩
  · simp only [range_deliver_append, here.stored, List.flatten_append, List.flatten_singleton,
      List.map_append, List.map_map]
    rfl
  · simp only [List.map_append, List.sum_append, here.length, List.map_cons, List.map_nil,
      List.length_map, List.length_range, List.sum_cons, List.sum_nil, Nat.add_zero]

/-- The loop packs the entries that it reads. -/
theorem getdentsLoop_spec (dir : Listing sb v i) {call : Call}
    (writable : PagesIn call.mem.writable call.data call.size) (fuel : Nat) {l : Locals} {k : Nat}
    (here : At sb v i call k l) (enough : (v.slots sb i).length - k < fuel) :
    ∃ l' k' records,
      getdentsLoop sb v.inodes call.data call.size call.behind fuel l = .ok (l'.tlen, l') ∧
      At sb v i call k' l' ∧
      (v.slots sb i).drop k' =
        (Packing.pack recordLength ((v.slots sb i).drop k) (call.size - l.tlen)).2 ∧
      l'.copied = l.copied ++ records ∧
      List.Forall₂ Recorded
        (Packing.pack recordLength ((v.slots sb i).drop k) (call.size - l.tlen)).1 records := by
  induction fuel generalizing l k with
  | zero => exact absurd enough (Nat.not_lt_zero _)
  | succ fuel ih =>
      rw [getdentsLoop, here.ip]
      cases Nat.lt_or_ge k (v.slots sb i).length with
      | inr beyond =>
          obtain ⟨de, t, read, opened⟩ := fileread_end dir here.opened
            (Nat.le_antisymm here.opened.inside beyond)
          rw [read, Except.ok_bind, List.drop_eq_nil_of_le beyond, Packing.pack]
          refine ⟨{ l with state := t, ip := v.inodes i }, k, [], rfl,
            ⟨opened, rfl, here.pages, here.stored, here.length, here.fits⟩,
            List.drop_eq_nil_of_le beyond, (List.append_nil _).symm, .nil⟩
      | inl inside =>
          obtain ⟨de, f, t, read, same, opened⟩ := fileread_spec dir here.opened inside
          have next : At sb v i call (k + 1) { l with state := t, f := f, ip := v.inodes i } :=
            ⟨opened, rfl, here.pages, here.stored, here.length, here.fits⟩
          rw [read, Except.ok_bind, drop_slots inside, ← same]
          simp only [show ¬((64 : Int) = 0) by decide, ne_eq, not_true_eq_false, if_false]
          cases entry_eq : decode de with
          | none =>
              have free : direntInum de = 0 := by
                rw [decode] at entry_eq
                split at entry_eq
                · assumption
                · cases entry_eq
              rw [if_pos free, Packing.pack]
              exact ih next (by omega)
          | some entry =>
              have length := reclen_eq entry_eq
              have found : entry ∈ (v.slots sb i).reduceOption := by
                rw [List.reduceOption_mem_iff]
                have at_k := getElem?_slots inside
                rw [← same, entry_eq] at at_k
                exact List.mem_of_getElem? at_k
              have live : (v.inodes (direntInum de)).type ≠ 0 := by
                have linked := dir.linked entry found
                rw [(decode_eq_some entry_eq).2] at linked
                exact linked.2
              rw [if_neg (decode_eq_some entry_eq).1, Packing.pack]
              cases Nat.lt_or_ge call.size (l.tlen + reclen de) with
              | inl full =>
                  rw [if_pos full, if_neg (by have := here.fits; omega)]
                  exact ⟨_, k + 1, [], rfl, next, rfl, (List.append_nil _).symm, .nil⟩
              | inr fits =>
                  set de64 := fill l.de64 de call.behind l.off
                    (dType f.major (v.inodes (direntInum de)).type) with de64_eq
                  obtain ⟨mem, copied, recorded⟩ := next.record writable fits de64
                  obtain ⟨l', k', records, run, here', left, all, listed⟩ := ih recorded (by omega)
                  rw [if_neg (Nat.not_lt.mpr fits), if_neg live, if_pos (by omega)]
                  simp only [copied]
                  simp only [length, Nat.sub_add_eq] at left listed
                  refine ⟨l', k', (List.range (reclen de)).map de64 :: records, run, here',
                    left, ?_, .cons ⟨l.de64, de, call.behind, l.off, _, rfl, entry_eq⟩ listed⟩
                  rw [all, List.append_assoc, List.singleton_append]

/-! ## Calls one after the other -/

/-- The entries of a directory that are used, in the order of their slots. -/
def entries (sb : Superblock) (v : Volume) (i : UInt32) : List (List UInt8 × UInt32) :=
  (v.slots sb i).reduceOption

/-- A call has put its records into the buffer and returned their length. -/
structure Delivered (call : Call) (out : Outcome) : Prop where
  /-- The returned value is the sum of the lengths. -/
  returned : out.returned = ((out.copied.map List.length).sum : Nat)
  /-- The records stand in the buffer one after the other. -/
  stored : out.mem.range call.data out.returned.toNat = out.copied.flatten.map Cell.byte

/-- A call packs the entries from its slot on. -/
theorem getdents64_spec (dir : Listing sb v i) {f : File} {k : Nat}
    (opened : Opened sb v i k s f) {call : Call}
    (writable : PagesIn call.mem.writable call.data call.size) :
    ∃ out f' t k', getdents64 sb v s f call = .ok (out, f', t) ∧ Opened sb v i k' t f' ∧
      (v.slots sb i).drop k' =
        (Packing.pack recordLength ((v.slots sb i).drop k) call.size).2 ∧
      List.Forall₂ Recorded (Packing.pack recordLength ((v.slots sb i).drop k) call.size).1
        out.copied ∧
      Delivered call out := by
  have begins : At sb v i call k
      ⟨s, f, v.inodes i, fun k => ⟨call.de64 k, false⟩, 0, 0, call.mem, []⟩ :=
    ⟨opened, rfl, rfl, rfl, rfl, Nat.zero_le _⟩
  have enough : (v.slots sb i).length - k < direntFuel (v.inodes i) := by
    rw [length_slots, direntFuel]
    omega
  obtain ⟨l, k', records, run, here, left, all, listed⟩ :=
    getdentsLoop_spec dir writable _ begins enough
  rw [List.nil_append] at all
  refine ⟨⟨l.tlen, l.mem, l.copied⟩, l.f, l.state, k', ?_, here.opened, left, all ▸ listed, ?_, ?_⟩
  · rw [getdents64, opened.ip, run]
    rfl
  · simp only [here.length]
  · simpa using here.stored

/-- Calls pack the entries in rounds. -/
theorem getdentsCalls_spec (dir : Listing sb v i) {f : File} {k : Nat} {calls : List Call}
    (opened : Opened sb v i k s f)
    (writable : ∀ call ∈ calls, PagesIn call.mem.writable call.data call.size) :
    ∃ outs f' t, getdentsCalls sb v s f calls = .ok (outs, f', t) ∧
      List.Forall₂ Delivered calls outs ∧
      List.Forall₂ Recorded
        (Packing.rounds recordLength ((v.slots sb i).drop k) (calls.map Call.size)).flatten
        (outs.flatMap Outcome.copied) := by
  induction calls generalizing s f k with
  | nil => exact ⟨[], f, s, rfl, .nil, .nil⟩
  | cons call calls ih =>
      obtain ⟨out, f', t, k', run, opened', left, listed, delivered⟩ :=
        getdents64_spec dir opened (writable call List.mem_cons_self)
      obtain ⟨outs, f'', u, runs, all, rest⟩ :=
        ih opened' fun call mem => writable call (List.mem_cons_of_mem _ mem)
      refine ⟨out :: outs, f'', u, ?_, .cons delivered all, ?_⟩
      · rw [getdentsCalls, run, Except.ok_bind]
        simp only [runs, Except.ok_bind]
        rfl
      · rw [List.map_cons, Packing.rounds, List.flatten_cons, List.flatMap_cons, ← left]
        exact List.rel_append listed rest

/-- Calls enumerate a directory once. -/
structure Enumerates (calls : List Call) (outs : List Outcome)
    (entries : List (List UInt8 × UInt32)) : Prop where
  /-- The records list the entries in their order. -/
  listed : List.Forall₂ Lists entries (outs.flatMap Outcome.copied)
  /-- Each call delivers its records. -/
  delivered : List.Forall₂ Delivered calls outs
  /-- Nothing but fields of records is copied out. -/
  fields : ∀ out ∈ outs, ∀ record ∈ out.copied, ∀ cell ∈ record, cell.field = true

/-- The calls enumerate a directory exactly if the first buffer holds all the records and no record
is longer than its fields. -/
theorem getdents64_enumerates_iff (dir : Listing sb v i) {f : File}
    (opened : Opened sb v i 0 s f) (call : Call) (calls : List Call)
    (writable : ∀ c ∈ call :: calls, PagesIn c.mem.writable c.data c.size) :
    ∃ outs f' t, getdentsCalls sb v s f (call :: calls) = .ok (outs, f', t) ∧
      (Enumerates (call :: calls) outs (entries sb v i) ↔
        (∀ entry ∈ entries sb v i, entry.1.length % 8 = 4) ∧
          ((entries sb v i).map recordLength).sum ≤ call.size) := by
  obtain ⟨outs, f', t, run, delivered, recorded⟩ := getdentsCalls_spec dir opened writable
  refine ⟨outs, f', t, run, ?_⟩
  rw [List.drop_zero, List.map_cons] at recorded
  constructor
  · intro enumerates
    have enough : ((entries sb v i).map recordLength).sum ≤ call.size := by
      refine Nat.le_of_not_lt fun short => ?_
      have lost := Packing.length_rounds_lt (calls.map Call.size) short
      rw [recorded.length_eq, ← enumerates.listed.length_eq] at lost
      exact lt_irrefl _ lost
    rw [Packing.rounds_all _ enough] at recorded
    refine ⟨?_, enough⟩
    have each : List.Forall₂ (fun record entry => entry.1.length % 8 = 4)
        (outs.flatMap Outcome.copied) (entries sb v i) := by
      have fields : ∀ record ∈ outs.flatMap Outcome.copied, ∀ cell ∈ record, cell.field = true := by
        intro record mem
        obtain ⟨out, out_mem, record_mem⟩ := List.mem_flatMap.mp mem
        exact enumerates.fields out out_mem record record_mem
      have both := (List.forall₂_and_left _ _).mpr ⟨fields, recorded.flip⟩
      exact both.imp fun record entry pair => (Recorded.fields_iff pair.2).mp pair.1
    have flipped : List.Forall₂ (fun (entry : List UInt8 × UInt32) (_ : List Cell) =>
        entry.1.length % 8 = 4 ∧ True) (entries sb v i) (outs.flatMap Outcome.copied) :=
      each.flip.imp fun entry _ ends => ⟨ends, trivial⟩
    exact ((List.forall₂_and_left _ _).mp flipped).1
  · rintro ⟨ends, enough⟩
    rw [Packing.rounds_all _ enough] at recorded
    have both := (List.forall₂_and_left _ _).mpr ⟨ends, recorded⟩
    refine ⟨both.imp fun entry record pair => ?_, delivered, ?_⟩
    · obtain ⟨multiple, recorded⟩ := pair
      refine recorded.lists ?_
      obtain ⟨de64, de, behind, off, type, -, some⟩ := recorded
      have limit : (nameOf (direntName de)).length ≤ dirSiz := length_stringFrom_le _ _ _
      rw [(decode_eq_some some).2] at multiple ⊢
      simp only [dirSiz] at limit multiple ⊢
      omega
    · intro out out_mem record record_mem
      have flipped : List.Forall₂ (fun (record : List Cell) (_ : List UInt8 × UInt32) =>
          (∀ cell ∈ record, cell.field = true) ∧ True) (outs.flatMap Outcome.copied)
          (entries sb v i) := by
        refine List.Forall₂.flip (both.imp fun entry record pair => ?_)
        exact ⟨(Recorded.fields_iff pair.2).mpr pair.1, trivial⟩
      exact ((List.forall₂_and_left _ _).mp flipped).1 record
        (List.mem_flatMap.mpr ⟨out, out_mem, record_mem⟩)

/-! ## A directory that links itself -/

/-- A name of one character. -/
def letter (c : UInt8) : Bytes := fun k => if k = 0 then c else 0

/-- A name of four characters. -/
def fourLetters : Bytes := fun k => if k < 4 then 97 else 0

/-- A directory between two operations whose entries are known to be linked. -/
theorem listing_of_directory (dir : v.Directory sb i)
    (linked : ∀ entry ∈ (v.slots sb i).reduceOption, v.Live sb entry.2) : Listing sb v i where
  wellFormed := dir.wellFormed
  idle := dir.idle
  live := dir.live
  type := dir.type
  aligned := dir.aligned
  linked := linked

/-- Names stay distinct when a new one is entered. -/
theorem entered_distinct {w : Volume} {name : List UInt8} {inum : UInt32} (dir : v.Directory sb i)
    (absent : SlotTable.find (v.slots sb i) name = none)
    (entered : Entered sb v w i (SlotTable.freeFrom 0 (v.slots sb i)) (some (name, inum))) :
    SlotTable.Distinct (w.slots sb i) := by
  have bounds : 0 ≤ SlotTable.freeFrom 0 (v.slots sb i) ∧
      SlotTable.freeFrom 0 (v.slots sb i) ≤ 0 + (v.slots sb i).length := SlotTable.freeFrom_le
  rw [entered.slots]
  exact dir.distinct.enter (find_eq_none_iff.mp absent) (by omega) inum

/-- A directory with one entry. -/
theorem exists_single (name : Bytes) : ∃ v : Volume, v.Directory mkfsSuper 2 ∧
    v.slots mkfsSuper 2 = [some (nameOf name, 2)] := by
  have roomy : (ofFile emptyDir 42).Roomy mkfsSuper 2 := by
    have size : ((ofFile emptyDir 42).inodes 2).size = 0 := by
      rw [ofFile_inode blank_emptyDir.inum]
      rfl
    constructor
    · rw [size]
      exact ofFile_room (by decide)
    · rw [size]
      decide
  have absent : SlotTable.find ((ofFile emptyDir 42).slots mkfsSuper 2) (nameOf name) = none := by
    rw [slots_emptyDir]
    rfl
  obtain ⟨ip, t, -, entered⟩ := dirlink_absent directory_emptyDir absent
    (show (2 : UInt32) ≠ 0 by decide) 1 fun _ => roomy
  have distinct := entered_distinct directory_emptyDir absent entered
  have slots := entered.slots
  rw [slots_emptyDir] at slots
  exact ⟨_, directory_emptyDir.entered entered distinct, slots⟩

/-- A directory with two entries. -/
theorem exists_pair {first second : Bytes} (differ : nameOf first ≠ nameOf second) :
    ∃ v : Volume, v.Directory mkfsSuper 2 ∧
      v.slots mkfsSuper 2 = [some (nameOf first, 2), some (nameOf second, 2)] := by
  obtain ⟨v, dir, single⟩ := exists_single first
  have size := dir.size
  rw [single, List.length_singleton] at size
  have roomy : v.Roomy mkfsSuper 2 := by
    constructor
    · rw [size]
      refine room_of_range fun o _ upper => dir.wellFormed.noHole 2 dir.live (o / bsize) ?_
      rw [size, Nat.div_eq_of_lt (show o < bsize by rw [bsize]; omega)]
      decide
    · rw [size]
      decide
  have absent : SlotTable.find (v.slots mkfsSuper 2) (nameOf second) = none := by
    rw [single, SlotTable.find, SlotTable.findFrom, if_neg (Ne.symm differ)]
    rfl
  obtain ⟨ip, t, -, entered⟩ := dirlink_absent dir absent (show (2 : UInt32) ≠ 0 by decide) 1
    fun _ => roomy
  have distinct := entered_distinct dir absent entered
  have slots := entered.slots
  rw [single] at slots
  exact ⟨_, dir.entered entered distinct, slots⟩

/-- A memory that can be written. -/
def openMemory : Memory := ⟨zeros, fun _ => true, fun _ => true⟩

/-- A call with a buffer of the given size. -/
def callOf (size : Nat) : Call := ⟨0, size, openMemory, zeros, 0⟩

theorem writable_callOf (size : Nat) :
    PagesIn (callOf size).mem.writable (callOf size).data (callOf size).size := fun _ _ _ => rfl

/-- A directory that has just been opened. -/
def atStart : File := ⟨true, 2, 0, 0⟩

theorem opened_atStart (dir : Listing sb v 2) : Opened sb v 2 0 v.state atStart :=
  ⟨⟨dir.idle, rfl⟩, rfl, rfl, rfl, Nat.zero_le _⟩

/-- A name of four characters is listed by records that consist of fields. -/
theorem getdents64_enumerates_single : ∃ v : Volume,
    entries mkfsSuper v 2 = [([97, 97, 97, 97], 2)] ∧
      ∃ outs f t, getdentsCalls mkfsSuper v v.state atStart [callOf 24, callOf 24] =
          .ok (outs, f, t) ∧
        Enumerates [callOf 24, callOf 24] outs (entries mkfsSuper v 2) := by
  obtain ⟨v, dir, slots⟩ := exists_single fourLetters
  have found : entries mkfsSuper v 2 = [([97, 97, 97, 97], 2)] := by
    rw [entries, slots]
    decide
  have listing : Listing mkfsSuper v 2 := by
    refine listing_of_directory dir fun entry mem => ?_
    rw [show (v.slots mkfsSuper 2).reduceOption = [([97, 97, 97, 97], 2)] from found,
      List.mem_singleton] at mem
    rw [mem]
    exact dir.live
  obtain ⟨outs, f, t, run, enumerates⟩ := getdents64_enumerates_iff listing
    (opened_atStart listing) (callOf 24) [callOf 24] fun _ mem => by
      simp only [List.mem_cons, List.not_mem_nil, or_false, or_self] at mem
      rw [mem]
      exact writable_callOf 24
  refine ⟨v, found, outs, f, t, run, enumerates.mpr ?_⟩
  rw [found]
  decide

/-- A buffer that holds each record, though not both, makes the calls pass the second entry. -/
theorem getdents64_passes_entry : ∃ v : Volume, Listing mkfsSuper v 2 ∧
    entries mkfsSuper v 2 = [([97], 2), ([98], 2)] ∧
      (∀ entry ∈ entries mkfsSuper v 2, recordLength entry ≤ 24) ∧
      ∃ first second f t, getdentsCalls mkfsSuper v v.state atStart [callOf 24, callOf 24] =
          .ok ([first, second], f, t) ∧ first.returned = 24 ∧ second.returned = 0 ∧
        ¬Enumerates [callOf 24, callOf 24] [first, second] (entries mkfsSuper v 2) := by
  obtain ⟨v, dir, slots⟩ := @exists_pair (letter 97) (letter 98) (by decide)
  have found : entries mkfsSuper v 2 = [([97], 2), ([98], 2)] := by
    rw [entries, slots]
    decide
  have listing : Listing mkfsSuper v 2 := by
    refine listing_of_directory dir fun entry mem => ?_
    rw [show (v.slots mkfsSuper 2).reduceOption = [([97], 2), ([98], 2)] from found] at mem
    simp only [List.mem_cons, List.not_mem_nil, or_false] at mem
    cases mem with
    | inl first => exact first ▸ dir.live
    | inr second => exact second ▸ dir.live
  have packed : Packing.pack recordLength ((v.slots mkfsSuper 2).drop 0) (callOf 24).size =
      ([([97], 2)], []) := by
    rw [slots]
    decide
  obtain ⟨first, f, s, k, run, opened, left, listed, delivered⟩ :=
    getdents64_spec listing (opened_atStart listing) (writable_callOf 24)
  rw [packed] at left listed
  obtain ⟨second, f', t, k', run', -, -, listed', delivered'⟩ :=
    getdents64_spec listing opened (writable_callOf 24)
  rw [left, Packing.pack] at listed'
  have none : second.copied = [] := List.forall₂_nil_left_iff.mp listed'
  obtain ⟨record, rest, recorded, rest_nil, one⟩ := List.forall₂_cons_left_iff.mp listed
  rw [List.forall₂_nil_left_iff.mp rest_nil] at one
  refine ⟨v, listing, found, ?_, first, second, f', t, ?_, ?_, ?_, ?_⟩
  · rw [found]
    decide
  · rw [getdentsCalls, run, Except.ok_bind]
    simp only [getdentsCalls, run', Except.ok_bind]
    rfl
  · rw [delivered.returned, one, List.map_singleton, recorded.length_eq]
    decide
  · rw [delivered'.returned, none]
    rfl
  · intro enumerates
    have length := enumerates.listed.length_eq
    rw [found, List.flatMap_cons, List.flatMap_cons, one, none] at length
    cases length

end Getdents

end Fs
end Xv6Duo
