import Xv6Duo.Fs.Dirent
import Xv6Duo.Fs.TornWrite
import Xv6Duo.Library.SlotTable

/-!
# Directories as finite maps

The entries of a directory are a table of slots under names of at most `DIRSIZ` characters.
`dirlookup`, `dirlink` and `unlink` scan and write this table, so a directory with distinct names is
a finite map from names to inode numbers.
-/

namespace Xv6Duo
namespace Fs

open ByteBlock

/-! ## Names -/

/-- The characters of a string from position `k` on, at most `n` of them. -/
def stringFrom (bytes : Bytes) : Nat → Nat → List UInt8
  | 0, _ => []
  | n + 1, k => if bytes k = 0 then [] else bytes k :: stringFrom bytes n (k + 1)

/-- The name in a buffer. -/
def nameOf (bytes : Bytes) : List UInt8 := stringFrom bytes dirSiz 0

theorem stringFrom_congr {left right : Bytes} {n k : Nat}
    (agree : ∀ j, k ≤ j → j < k + n → left j = right j) :
    stringFrom left n k = stringFrom right n k := by
  induction n generalizing k with
  | zero => rfl
  | succ n ih =>
      rw [stringFrom, stringFrom, agree k (Nat.le_refl k) (by omega),
        ih fun j lower upper => agree j (by omega) (by omega)]

theorem strncmpEq_iff (left right : Bytes) (n k : Nat) :
    strncmpEq left right n k = true ↔ stringFrom left n k = stringFrom right n k := by
  induction n generalizing k with
  | zero => exact iff_of_true rfl rfl
  | succ n ih =>
      rw [strncmpEq, stringFrom, stringFrom]
      cases Decidable.em (left k = right k) with
      | inl same =>
          cases Decidable.em (left k = 0) with
          | inl zero => simp [zero, ← same]
          | inr more =>
              rw [if_pos ⟨more, same⟩, ih, if_neg more, if_neg (same ▸ more), same, List.cons.injEq,
                and_iff_right rfl]
      | inr differ =>
          rw [if_neg fun both => differ both.2]
          simp only [beq_iff_eq, differ, false_iff]
          split <;> split <;> simp_all

/-- `namecmp` compares names. -/
theorem namecmpEq_iff (left right : Bytes) : namecmpEq left right = true ↔
    nameOf left = nameOf right :=
  strncmpEq_iff left right dirSiz 0

theorem stringFrom_strncpy {source : Bytes} (n : Nat) {k : Nat} (started : ∀ j < k, source j ≠ 0) :
    stringFrom (strncpy source) n k = stringFrom source n k := by
  induction n generalizing k with
  | zero => rfl
  | succ n ih =>
      have copied : strncpy source k = source k := by
        rw [strncpy, if_neg]
        simpa using started
      rw [stringFrom, stringFrom, copied]
      split
      · rfl
      · next more =>
          rw [ih fun j below => ?_]
          cases Nat.lt_succ_iff_lt_or_eq.mp below with
          | inl before => exact started j before
          | inr last => exact last ▸ more

/-! ## Entries -/

/-- What the bytes of an entry hold. -/
def decode (entry : Bytes) : Option (List UInt8 × UInt32) :=
  if direntInum entry = 0 then none else some (nameOf (direntName entry), direntInum entry)

theorem decode_congr {left right : Bytes} (agree : ∀ k < 64, left k = right k) :
    decode left = decode right := by
  have inum : direntInum left = direntInum right :=
    getWord_congr fun k index => agree k (by omega)
  have name : nameOf (direntName left) = nameOf (direntName right) :=
    stringFrom_congr fun j _ upper => agree (6 + j) (by simp only [dirSiz] at upper; omega)
  rw [decode, decode, inum, name]

theorem decode_zeros : decode zeros = none := rfl

theorem direntInum_dirent (inum : UInt32) (type : UInt16) (name : Bytes) :
    direntInum (dirent inum type name) = inum := by
  have stored : getWord (dirent inum type name) 0 = getWord (setWord zeros 0 inum) 0 := by
    refine getWord_congr fun k index => ?_
    rw [dirent, if_pos (by omega), setWord, if_pos index, Nat.mod_eq_of_lt (by omega)]
  rw [direntInum, stored, getWord_setWord_self]

/-- The entry that `dirlink` writes. -/
theorem decode_dirent {inum : UInt32} (used : inum ≠ 0) (type : UInt16) (name : Bytes) :
    decode (dirent inum type (strncpy name)) = some (nameOf name, inum) := by
  have stored : nameOf (direntName (dirent inum type (strncpy name))) = nameOf name := by
    refine Eq.trans (stringFrom_congr fun j _ upper => ?_)
      (stringFrom_strncpy dirSiz fun j below => absurd below (Nat.not_lt_zero j))
    simp only [dirSiz] at upper
    change dirent inum type (strncpy name) (6 + j) = strncpy name j
    rw [dirent, if_neg (by omega), if_neg (by omega), if_pos (by omega),
      Nat.add_sub_cancel_left]
  rw [decode, direntInum_dirent, if_neg used, stored]

namespace Volume

variable {sb : Superblock} {v w : Volume} {i : UInt32} {s : State}

/-! ## Scans -/

/-- Entry number `k` of a directory. -/
def entry (sb : Superblock) (v : Volume) (i : UInt32) (k : Nat) : Bytes :=
  fun j => v.byte sb i (64 * k + j)

/-- The entries of a directory. -/
def slots (sb : Superblock) (v : Volume) (i : UInt32) : List (Option (List UInt8 × UInt32)) :=
  (List.range ((v.inodes i).size.toNat / 64)).map fun k => decode (v.entry sb i k)

/-- A directory with distinct names, between two operations. -/
structure Directory (sb : Superblock) (v : Volume) (i : UInt32) : Prop where
  /-- The volume. -/
  wellFormed : v.WellFormed sb
  /-- No buffer is busy. -/
  idle : Idle sb v.state
  /-- The inode is allocated. -/
  live : v.Live sb i
  /-- It is a directory. -/
  type : (v.inodes i).type = tDir
  /-- It consists of entries. -/
  aligned : (v.inodes i).size.toNat % 64 = 0
  /-- No two entries have one name. -/
  distinct : SlotTable.Distinct (v.slots sb i)

theorem length_slots (v : Volume) (i : UInt32) :
    (v.slots sb i).length = (v.inodes i).size.toNat / 64 := by
  rw [slots, List.length_map, List.length_range]

theorem Directory.size (dir : v.Directory sb i) :
    (v.inodes i).size.toNat = 64 * (v.slots sb i).length := by
  have aligned := dir.aligned
  rw [length_slots]
  omega

theorem getElem?_slots {k : Nat} (k_lt : k < (v.slots sb i).length) :
    (v.slots sb i)[k]? = some (decode (v.entry sb i k)) := by
  rw [length_slots] at k_lt
  rw [slots, List.getElem?_map, List.getElem?_range k_lt]
  rfl

/-- The buffers of a scan: none is busy, and the card is as it was. -/
structure Scanned (sb : Superblock) (v : Volume) (s : State) : Prop where
  /-- No buffer is busy. -/
  idle : Idle sb s
  /-- The card. -/
  disk : s.disk = v.state.disk

/-- An entry of a file is read. -/
theorem readEntry_spec (wf : v.WellFormed sb) (live : v.Live sb i) (scanned : Scanned sb v s)
    {off : UInt32} {k : Nat} (at_k : off.toNat = 64 * k)
    (inside : 64 * k + 64 ≤ (v.inodes i).size.toNat) :
    ∃ entry t, readDirent sb s (v.inodes i) off = .ok (64, entry, v.inodes i, t) ∧
      decode entry = decode (v.entry sb i k) ∧ Scanned sb v t := by
  have below := (v.inodes i).size.toNat_lt
  have readable : readable ⟨s, v.inodes⟩ i off direntSize = 64 := by
    unfold readable
    rw [show direntSize.toNat = 64 from rfl]
    simp only
    omega
  have no_wrap : off.toNat + direntSize.toNat < 2 ^ 32 := by
    rw [show direntSize.toNat = 64 from rfl]
    omega
  have writable : false = true → PagesIn (kernelMemory zeros).writable 0
      (Volume.readable ⟨s, v.inodes⟩ i off direntSize) := fun no => by cases no
  obtain ⟨t, run, idle, disk⟩ := readi_spec (wf.of_disk scanned.disk) scanned.idle live no_wrap
    writable
  rw [readable] at run
  refine ⟨((kernelMemory zeros).deliver 0 (fun j => Volume.byte sb ⟨s, v.inodes⟩ i (off.toNat + j))
    64).bytes, t, ?_, ?_, idle, disk.trans scanned.disk⟩
  · rw [readDirent]
    exact Except.bind_eq_ok.mpr ⟨_, run, rfl⟩
  · refine decode_congr fun j j_lt => ?_
    simp only [Memory.deliver, copyRange, kernelMemory]
    rw [if_pos ⟨Nat.zero_le j, by omega⟩, byte_congr scanned.disk, at_k, Nat.zero_add, Nat.sub_zero]
    rfl

/-- Nothing is read at the end of a file. -/
theorem readEntry_end (wf : v.WellFormed sb) (live : v.Live sb i) (scanned : Scanned sb v s)
    {off : UInt32} (at_end : off.toNat = (v.inodes i).size.toNat) :
    ∃ entry t, readDirent sb s (v.inodes i) off = .ok (0, entry, v.inodes i, t) ∧
      Scanned sb v t := by
  cases Nat.lt_or_ge (off.toNat + direntSize.toNat) (2 ^ 32) with
  | inl no_wrap =>
      have none : readable ⟨s, v.inodes⟩ i off direntSize = 0 := by
        unfold readable
        simp only
        omega
      have writable : false = true → PagesIn (kernelMemory zeros).writable 0
          (Volume.readable ⟨s, v.inodes⟩ i off direntSize) := fun no => by cases no
      obtain ⟨t, run, idle, disk⟩ := readi_spec (wf.of_disk scanned.disk) scanned.idle live no_wrap
        writable
      rw [none] at run
      refine ⟨((kernelMemory zeros).deliver 0
        (fun j => Volume.byte sb ⟨s, v.inodes⟩ i (off.toNat + j)) 0).bytes, t, ?_, idle,
        disk.trans scanned.disk⟩
      rw [readDirent]
      exact Except.bind_eq_ok.mpr ⟨_, run, rfl⟩
  | inr wraps =>
      have before : off + direntSize < off := by
        have below := off.toNat_lt
        rw [UInt32.lt_iff_toNat_lt, UInt32.toNat_add]
        rw [show direntSize.toNat = 64 from rfl] at wraps ⊢
        omega
      refine ⟨zeros, s, ?_, scanned⟩
      rw [readDirent, readi, if_pos (Or.inr before)]
      rfl

/-- An entry is read. -/
theorem readDirent_spec (dir : v.Directory sb i) (scanned : Scanned sb v s) {off : UInt32} {k : Nat}
    (at_k : off.toNat = 64 * k) (k_lt : k < (v.slots sb i).length) :
    ∃ entry t, readDirent sb s (v.inodes i) off = .ok (64, entry, v.inodes i, t) ∧
      decode entry = decode (v.entry sb i k) ∧ Scanned sb v t := by
  have size := dir.size
  exact readEntry_spec dir.wellFormed dir.live scanned at_k (by omega)

/-- The slot at an offset. -/
theorem Directory.below (dir : v.Directory sb i) {off : UInt32} {k : Nat}
    (at_k : off.toNat = 64 * k) :
    off < (v.inodes i).size ↔ k < (v.slots sb i).length := by
  rw [UInt32.lt_iff_toNat_lt, at_k, dir.size]
  omega

theorem Directory.next (dir : v.Directory sb i) {off : UInt32} {k : Nat} (at_k : off.toNat = 64 * k)
    (k_lt : k < (v.slots sb i).length) : (off + direntSize).toNat = 64 * (k + 1) := by
  have size := dir.size
  have below := (v.inodes i).size.toNat_lt
  rw [UInt32.toNat_add, show direntSize.toNat = 64 from rfl, at_k]
  omega

theorem offset_eq {off : UInt32} {k : Nat} (at_k : off.toNat = 64 * k) :
    UInt32.ofNat (64 * k) = off := by
  rw [← at_k, UInt32.ofNat_toNat]

theorem drop_slots {k : Nat} (k_lt : k < (v.slots sb i).length) :
    (v.slots sb i).drop k = decode (v.entry sb i k) :: (v.slots sb i).drop (k + 1) := by
  rw [List.drop_eq_getElem_cons k_lt, List.cons.injEq]
  exact ⟨Option.some.inj ((List.getElem?_eq_getElem k_lt).symm.trans (getElem?_slots k_lt)), rfl⟩

/-- What `dirlookup` returns for the slot of a name. -/
def located (slot : Nat × UInt32) : UInt32 × UInt32 := (slot.2, UInt32.ofNat (64 * slot.1))

/-- `dirlookup` scans for the name. -/
theorem dirlookupLoop_spec (dir : v.Directory sb i) (name : Bytes) (fuel : Nat) {off : UInt32}
    {k : Nat} (scanned : Scanned sb v s) (at_k : off.toNat = 64 * k)
    (enough : (v.slots sb i).length - k < fuel) :
    ∃ t, dirlookupLoop sb name fuel s (v.inodes i) off =
        .ok ((SlotTable.findFrom (nameOf name) k ((v.slots sb i).drop k)).map located,
          v.inodes i, t) ∧
      Scanned sb v t := by
  induction fuel generalizing s off k with
  | zero => exact absurd enough (Nat.not_lt_zero _)
  | succ fuel ih =>
      rw [dirlookupLoop]
      cases Nat.lt_or_ge k (v.slots sb i).length with
      | inr beyond =>
          rw [if_neg fun inside => absurd ((dir.below at_k).mp inside) (Nat.not_lt.mpr beyond),
            List.drop_eq_nil_of_le beyond]
          exact ⟨s, rfl, scanned⟩
      | inl inside =>
          obtain ⟨entry, t, read, same, scanned_t⟩ := readDirent_spec dir scanned at_k inside
          obtain ⟨u, rest, scanned_u⟩ := ih scanned_t (dir.next at_k inside) (by omega)
          rw [if_pos ((dir.below at_k).mpr inside), read, Except.ok_bind, drop_slots inside, ← same]
          simp only [ne_eq, not_true_eq_false, if_false]
          unfold decode
          split
          · exact ⟨u, rest, scanned_u⟩
          · rw [SlotTable.findFrom]
            simp only [namecmpEq_iff]
            split
            · rw [Option.map_some, located, offset_eq at_k]
              exact ⟨t, rfl, scanned_t⟩
            · exact ⟨u, rest, scanned_u⟩

/-- `dirlink` scans for a free entry. -/
theorem emptyDirentLoop_spec (dir : v.Directory sb i) (fuel : Nat) {off : UInt32} {k : Nat}
    (scanned : Scanned sb v s) (at_k : off.toNat = 64 * k) (le : k ≤ (v.slots sb i).length)
    (enough : (v.slots sb i).length - k < fuel) :
    ∃ off' t, emptyDirentLoop sb fuel s (v.inodes i) off = .ok (off', v.inodes i, t) ∧
      off'.toNat = 64 * SlotTable.freeFrom k ((v.slots sb i).drop k) ∧ Scanned sb v t := by
  induction fuel generalizing s off k with
  | zero => exact absurd enough (Nat.not_lt_zero _)
  | succ fuel ih =>
      rw [emptyDirentLoop]
      cases Nat.lt_or_ge k (v.slots sb i).length with
      | inr beyond =>
          rw [if_neg fun inside => absurd ((dir.below at_k).mp inside) (Nat.not_lt.mpr beyond),
            List.drop_eq_nil_of_le beyond]
          exact ⟨off, s, rfl, at_k, scanned⟩
      | inl inside =>
          obtain ⟨entry, t, read, same, scanned_t⟩ := readDirent_spec dir scanned at_k inside
          obtain ⟨off', u, rest, at_free, scanned_u⟩ :=
            ih scanned_t (dir.next at_k inside) (by omega) (by omega)
          rw [if_pos ((dir.below at_k).mpr inside), read, Except.ok_bind, drop_slots inside, ← same]
          simp only [ne_eq, not_true_eq_false, if_false]
          unfold decode
          split
          · exact ⟨off, t, rfl, at_k, scanned_t⟩
          · exact ⟨off', u, rest, at_free, scanned_u⟩

/-- `dirlookup` finds the slot of a name. -/
theorem dirlookup_spec (dir : v.Directory sb i) (name : Bytes) :
    ∃ t, dirlookup sb v.state (v.inodes i) name =
        .ok ((SlotTable.find (v.slots sb i) (nameOf name)).map located, v.inodes i, t) ∧
      Scanned sb v t := by
  have enough : (v.slots sb i).length - 0 < direntFuel (v.inodes i) := by
    rw [length_slots, direntFuel]
    omega
  obtain ⟨t, run, scanned⟩ := dirlookupLoop_spec dir name _ ⟨dir.idle, rfl⟩
    (show (0 : UInt32).toNat = 64 * 0 from rfl) enough
  refine ⟨t, ?_, scanned⟩
  rw [dirlookup, if_neg (not_not.mpr dir.type), run]
  rfl

/-! ## Writing an entry -/

/-- What writing entry number `k` does. -/
structure Entered (sb : Superblock) (v w : Volume) (i : UInt32) (k : Nat)
    (slot : Option (List UInt8 × UInt32)) : Prop where
  /-- The volume stays well formed. -/
  wellFormed : w.WellFormed sb
  /-- No buffer stays busy. -/
  idle : Idle sb w.state
  /-- Allocated inodes stay allocated. -/
  live : ∀ j, w.Live sb j ↔ v.Live sb j
  /-- The directory changes in its blocks and its size. -/
  fields : w.inodes i = { v.inodes i with
    addrs := (w.inodes i).addrs, size := (w.inodes i).size }
  /-- The size grows to the end of the entry. -/
  size : (w.inodes i).size.toNat = max (v.inodes i).size.toNat (64 * k + 64)
  /-- The slot is written. -/
  slots : w.slots sb i = SlotTable.put (v.slots sb i) k slot
  /-- Other files keep their bytes. -/
  content_other : ∀ j, j ≠ i → v.Live sb j → w.content sb j = v.content sb j
  /-- Other inodes do not change. -/
  others : ∀ j, j ≠ i → w.inodes j = v.inodes j

/-- The slots after the bytes of an entry have been overwritten. -/
theorem slots_of_overwrite {bytes : Bytes} {k : Nat}
    (aligned : (v.inodes i).size.toNat = 64 * (v.slots sb i).length)
    (k_le : k ≤ (v.slots sb i).length)
    (done : Overwritten sb v w i (64 * k) ((List.range 64).map bytes)) :
    w.slots sb i = SlotTable.put (v.slots sb i) k (decode bytes) := by
  have size := done.size
  rw [List.length_map, List.length_range] at size
  have replaced := done.content_self
  rw [content, content, size] at replaced
  have byte {o : Nat} (below : o < max (v.inodes i).size.toNat (64 * k + 64)) :
      w.byte sb i o = if 64 * k ≤ o ∧ o < 64 * k + 64 then bytes (o - 64 * k) else v.byte sb i o :=
    of_map_range_eq_overwrite (by omega) replaced below
  have length : (w.slots sb i).length = (SlotTable.put (v.slots sb i) k (decode bytes)).length := by
    rw [SlotTable.length_put k_le, length_slots, size, aligned]
    omega
  refine List.ext_getElem? fun j => ?_
  cases Nat.lt_or_ge j (w.slots sb i).length with
  | inr beyond =>
      rw [List.getElem?_eq_none beyond, List.getElem?_eq_none (by omega)]
  | inl inside =>
      have j_lt := inside
      rw [length_slots, size] at j_lt
      rw [getElem?_slots inside, SlotTable.getElem?_put k_le]
      split
      · next same =>
          subst same
          refine congrArg some (decode_congr fun m m_lt => ?_)
          rw [entry, byte (by omega), if_pos (by omega), Nat.add_sub_cancel_left]
      · next differ =>
          rw [SlotTable.length_put k_le] at length
          rw [getElem?_slots (by omega)]
          refine congrArg some (decode_congr fun m m_lt => ?_)
          rw [entry, entry, byte (by omega), if_neg (by omega)]

/-- There is room whatever is in the buffers. -/
theorem room_of_disk {slots : Finset Slot} (room : v.Room sb i slots)
    (disk : s.disk = v.state.disk) : Room sb ⟨s, v.inodes⟩ i slots := by
  exact (balanced_congr disk).room_iff.mpr room

theorem slots_of_disk (i : UInt32) (disk : s.disk = v.state.disk) :
    Volume.slots sb ⟨s, v.inodes⟩ i = v.slots sb i :=
  List.map_congr_left fun k _ => decode_congr fun j _ => byte_congr disk (64 * k + j)

/-- An entry is written. -/
theorem writeDirent_spec (dir : v.Directory sb i) (scanned : Scanned sb v s) {off : UInt32}
    {k : Nat}
    (at_k : off.toNat = 64 * k) (k_le : k ≤ (v.slots sb i).length) (fits : 64 * k + 64 < 2 ^ 32)
    (room : v.Room sb i (neededSlots (64 * k) 64)) (bytes : Bytes) :
    ∃ ip t, writeDirent sb s (v.inodes i) bytes off = .ok (64, ip, t) ∧
      Entered sb v ⟨t, Function.update v.inodes i ip⟩ i k (decode bytes) := by
  have disk := scanned.disk
  have n_eq : direntSize.toNat = 64 := rfl
  have size := dir.size
  have readable : false = true → PagesIn (kernelMemory bytes).readable 0 direntSize.toNat :=
    fun no => by cases no
  have roomy : Room sb ⟨s, v.inodes⟩ i (neededSlots off.toNat direntSize.toNat) := by
    rw [at_k, n_eq]
    exact room_of_disk room disk
  have off_le : off.toNat ≤ (v.inodes i).size.toNat := by omega
  have off_n : off.toNat + direntSize.toNat < 2 ^ 32 := by omega
  obtain ⟨ip, t, run, done, -, fields⟩ := writei_within (dir.wellFormed.of_disk disk) scanned.idle
    dir.live off_le off_n readable (Finset.Subset.refl _) roomy
  have source : (kernelMemory bytes).range 0 direntSize.toNat = (List.range 64).map bytes := by
    rw [Memory.range, n_eq]
    simp only [kernelMemory, Nat.zero_add]
  rw [at_k, source] at done
  have same_slots : Volume.slots sb ⟨s, v.inodes⟩ i = v.slots sb i := slots_of_disk i disk
  have slots := slots_of_overwrite (by rw [same_slots]; exact size) (by rwa [same_slots]) done
  rw [same_slots] at slots
  refine ⟨ip, t, run, done.wellFormed, done.idle, done.live, ?_, ?_, slots, ?_, done.others⟩
  · simpa using fields
  · simpa using done.size
  · intro j differ live
    rw [done.content_other j differ live]
    exact List.map_congr_left fun o _ => byte_congr disk o

/-- There is room behind the last entry of a directory. -/
structure Roomy (sb : Superblock) (v : Volume) (i : UInt32) : Prop where
  /-- There are free blocks for another entry. -/
  room : v.Room sb i (neededSlots (v.inodes i).size.toNat 64)
  /-- The size of the directory can grow. -/
  fits : (v.inodes i).size.toNat + 64 < 2 ^ 32

/-- There is room for what is in a slot of the directory. -/
theorem Directory.room (dir : v.Directory sb i) {k : Nat} (k_lt : k < (v.slots sb i).length) :
    v.Room sb i (neededSlots (64 * k) 64) := by
  have size := dir.size
  refine room_of_range fun o _ upper => dir.wellFormed.noHole i dir.live (o / bsize) ?_
  have := Nat.div_mul_le_self o bsize
  omega

/-- The slot that `dirlink` writes has its room. -/
theorem Directory.room_free (dir : v.Directory sb i)
    (roomy : none ∉ v.slots sb i → v.Roomy sb i) :
    v.Room sb i (neededSlots (64 * SlotTable.freeFrom 0 (v.slots sb i)) 64) ∧
      64 * SlotTable.freeFrom 0 (v.slots sb i) + 64 < 2 ^ 32 := by
  have size := dir.size
  have below := (v.inodes i).size.toNat_lt
  have bounds : 0 ≤ SlotTable.freeFrom 0 (v.slots sb i) ∧
      SlotTable.freeFrom 0 (v.slots sb i) ≤ 0 + (v.slots sb i).length := SlotTable.freeFrom_le
  cases Nat.lt_or_ge (SlotTable.freeFrom 0 (v.slots sb i)) (v.slots sb i).length with
  | inl inside =>
      constructor
      · exact dir.room inside
      · omega
  | inr beyond =>
      have at_end : SlotTable.freeFrom 0 (v.slots sb i) = (v.slots sb i).length := by omega
      obtain ⟨room, fits⟩ := roomy (SlotTable.freeFrom_end (k := 0) (by omega))
      rw [at_end, ← size]
      exact ⟨room, fits⟩

/-- `dirlink` of a name that is there. -/
theorem dirlink_present (dir : v.Directory sb i) {name : Bytes} {slot : Nat × UInt32}
    (present : SlotTable.find (v.slots sb i) (nameOf name) = some slot) (inum : UInt32)
    (type : UInt16) :
    ∃ t, dirlink sb v.state (v.inodes i) name inum type = .ok (-1, v.inodes i, t) ∧
      Scanned sb v t := by
  obtain ⟨t, run, scanned⟩ := dirlookup_spec dir name
  refine ⟨t, ?_, scanned⟩
  rw [dirlink, run, present]
  rfl

/-- `dirlink` of a new name. -/
theorem dirlink_absent (dir : v.Directory sb i) {name : Bytes}
    (absent : SlotTable.find (v.slots sb i) (nameOf name) = none) {inum : UInt32} (used : inum ≠ 0)
    (type : UInt16) (roomy : none ∉ v.slots sb i → v.Roomy sb i) :
    ∃ ip t, dirlink sb v.state (v.inodes i) name inum type = .ok (0, ip, t) ∧
      Entered sb v ⟨t, Function.update v.inodes i ip⟩ i (SlotTable.freeFrom 0 (v.slots sb i))
        (some (nameOf name, inum)) := by
  obtain ⟨s, lookup, scanned_s⟩ := dirlookup_spec dir name
  have enough : (v.slots sb i).length - 0 < direntFuel (v.inodes i) := by
    rw [length_slots, direntFuel]
    omega
  obtain ⟨off, t, scan, at_free, scanned_t⟩ := emptyDirentLoop_spec dir _ scanned_s
    (show (0 : UInt32).toNat = 64 * 0 from rfl) (Nat.zero_le _) enough
  rw [List.drop_zero] at at_free
  obtain ⟨room, fits⟩ := dir.room_free roomy
  have k_le : SlotTable.freeFrom 0 (v.slots sb i) ≤ 0 + (v.slots sb i).length :=
    SlotTable.freeFrom_le.2
  obtain ⟨ip, u, write, entered⟩ := writeDirent_spec dir scanned_t at_free (by omega) fits room
    (dirent inum type (strncpy name))
  rw [decode_dirent used] at entered
  refine ⟨ip, u, ?_, entered⟩
  rw [dirlink, lookup, absent]
  simp only [Except.ok_bind, Option.map_none, Option.isSome_none, Bool.false_eq_true,
    if_false, scan, write]
  rfl

/-- `unlink` at the offset of a slot. -/
theorem unlink_spec (dir : v.Directory sb i) (scanned : Scanned sb v s) {k : Nat}
    (k_lt : k < (v.slots sb i).length) :
    ∃ ip t, unlink sb s (v.inodes i) (UInt32.ofNat (64 * k)) = .ok (0, ip, t) ∧
      Entered sb v ⟨t, Function.update v.inodes i ip⟩ i k none := by
  have size := dir.size
  have below := (v.inodes i).size.toNat_lt
  have at_k : (UInt32.ofNat (64 * k)).toNat = 64 * k := by
    rw [UInt32.toNat_ofNat', Nat.mod_eq_of_lt (by omega)]
  obtain ⟨ip, t, write, entered⟩ := writeDirent_spec dir scanned at_k (Nat.le_of_lt k_lt) (by omega)
    (dir.room k_lt) zeros
  rw [decode_zeros] at entered
  refine ⟨ip, t, ?_, entered⟩
  rw [unlink, write]
  rfl

/-- The directory after a slot has been written. -/
theorem Directory.entered (dir : v.Directory sb i) {k : Nat} {slot : Option (List UInt8 × UInt32)}
    (entered : Entered sb v w i k slot) (distinct : SlotTable.Distinct (w.slots sb i)) :
    w.Directory sb i where
  wellFormed := entered.wellFormed
  idle := entered.idle
  live := (entered.live i).mpr dir.live
  type := by rw [entered.fields]; exact dir.type
  aligned := by
    have aligned := dir.aligned
    rw [entered.size]
    omega
  distinct := distinct

/-- The directory after a scan. -/
theorem Directory.scanned (dir : v.Directory sb i) (scanned : Scanned sb v s) :
    Directory sb ⟨s, v.inodes⟩ i where
  wellFormed := dir.wellFormed.of_disk scanned.disk
  idle := scanned.idle
  live := dir.live
  type := dir.type
  aligned := dir.aligned
  distinct := (slots_of_disk i scanned.disk).symm ▸ dir.distinct

end Volume

end Fs
end Xv6Duo
