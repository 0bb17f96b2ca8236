import Xv6Duo.Fs.ReadWrite

/-!
# Directory entries and free inodes

`ialloc` and the directory functions of `kernel/fs.c`, one definition for each function, with the
string functions that they use. A directory is a file of `struct dirent`, and the variable `de` of
the source is a kernel memory whose bytes start at `0`. The inode that `dirlookup` and `ialloc`
return is its number: `iget` neither reads nor writes the card.
-/

namespace Xv6Duo
namespace Fs

open ByteBlock

/-! ## Strings -/

/-- `DIRSIZ`. -/
def dirSiz : Nat := 58

/-- `strncmp` of at most `n` characters from position `k` on finds no difference. -/
def strncmpEq (left right : Bytes) : Nat → Nat → Bool
  | 0, _ => true
  | n + 1, k =>
      if left k ≠ 0 ∧ left k = right k then strncmpEq left right n (k + 1)
      else left k == right k

/-- `namecmp` finds no difference. -/
def namecmpEq (left right : Bytes) : Bool := strncmpEq left right dirSiz 0

/-- The bytes that `strncpy` stores: the string, then zeros. -/
def strncpy (source : Bytes) : Bytes :=
  fun k => if (List.range k).any fun j => source j == 0 then 0 else source k

/-! ## Directory entries -/

/-- `T_DIR`. -/
def tDir : UInt16 := 1

/-- `sizeof(struct dirent)`. -/
def direntSize : UInt32 := 64

/-- `struct dirent` with the given fields. -/
def dirent (inum : UInt32) (type : UInt16) (name : Bytes) : Bytes :=
  fun k =>
    if k < 4 then wordByte inum k
    else if k < 6 then wordByte (pair type 0) (k - 4)
    else if k < 64 then name (k - 6) else 0

/-- The field `inum` of a `struct dirent`. -/
def direntInum (entry : Bytes) : UInt32 := getWord entry 0

/-- The field `name` of a `struct dirent`. -/
def direntName (entry : Bytes) : Bytes := fun k => entry (6 + k)

/-- A kernel variable that holds the given bytes. -/
def kernelMemory (bytes : Bytes) : Memory := ⟨bytes, fun _ => false, fun _ => false⟩

variable (sb : Superblock)

/-- `readi` of the entry at `off` into a kernel variable: the number of bytes, the variable, the
inode and the state. -/
def readDirent (s : State) (dp : Inode) (off : UInt32) :
    Except Fault (Int × Bytes × Inode × State) := do
  let (r, mem, dp, s) ← readi sb s dp false (kernelMemory zeros) 0 off direntSize
  return (r, mem.bytes, dp, s)

/-- `writei` of a kernel variable to the entry at `off`. -/
def writeDirent (s : State) (dp : Inode) (entry : Bytes) (off : UInt32) :
    Except Fault (Int × Inode × State) :=
  writei sb s dp false (kernelMemory entry) 0 off direntSize

/-- The loop of `dirlookup`, which gives the number in the entry of that name and its offset. -/
def dirlookupLoop (name : Bytes) :
    Nat → State → Inode → UInt32 → Except Fault (Option (UInt32 × UInt32) × Inode × State)
  | 0, _, _, _ => .error .loops
  | fuel + 1, s, dp, off =>
      if off < dp.size then do
        let (r, entry, dp, s) ← readDirent sb s dp off
        if r ≠ 64 then .error .dirlookupRead
        else if direntInum entry = 0 then dirlookupLoop name fuel s dp (off + direntSize)
        else if namecmpEq name (direntName entry) then
          return (some (direntInum entry, off), dp, s)
        else dirlookupLoop name fuel s dp (off + direntSize)
      else
        return (none, dp, s)

/-- The passes after which the loops over a directory have ended, if they end. -/
def direntFuel (dp : Inode) : Nat := dp.size.toNat / 64 + 2

/-- `dirlookup`. -/
def dirlookup (s : State) (dp : Inode) (name : Bytes) :
    Except Fault (Option (UInt32 × UInt32) × Inode × State) :=
  if dp.type ≠ tDir then .error .dirlookupNotDir
  else dirlookupLoop sb name (direntFuel dp) s dp 0

/-- The loop of `dirlink`, which gives the offset of an empty entry or the end of the directory. -/
def emptyDirentLoop : Nat → State → Inode → UInt32 → Except Fault (UInt32 × Inode × State)
  | 0, _, _, _ => .error .loops
  | fuel + 1, s, dp, off =>
      if off < dp.size then do
        let (r, entry, dp, s) ← readDirent sb s dp off
        if r ≠ 64 then .error .dirlinkRead
        else if direntInum entry = 0 then return (off, dp, s)
        else emptyDirentLoop fuel s dp (off + direntSize)
      else
        return (off, dp, s)

/-- `dirlink`. -/
def dirlink (s : State) (dp : Inode) (name : Bytes) (inum : UInt32) (type : UInt16) :
    Except Fault (Int × Inode × State) := do
  let (found, dp, s) ← dirlookup sb s dp name
  if found.isSome then return (-1, dp, s)
  let (off, dp, s) ← emptyDirentLoop sb (direntFuel dp) s dp 0
  let (r, dp, s) ← writeDirent sb s dp (dirent inum type (strncpy name)) off
  return (if r = 64 then 0 else -1, dp, s)

/-- `unlink`. -/
def unlink (s : State) (dp : Inode) (off : UInt32) : Except Fault (Int × Inode × State) := do
  let (r, dp, s) ← writeDirent sb s dp zeros off
  return (if r = 64 then 0 else -1, dp, s)

/-- The loop of `direntlookup`, which gives the entry of that inode and its offset. -/
def direntlookupLoop (inum : UInt32) :
    Nat → State → Inode → UInt32 → Except Fault (Option (Bytes × UInt32) × Inode × State)
  | 0, _, _, _ => .error .loops
  | fuel + 1, s, dp, off =>
      if off < dp.size then do
        let (r, entry, dp, s) ← readDirent sb s dp off
        if r ≠ 64 then .error .direntlookupRead
        else if direntInum entry = inum then return (some (entry, off), dp, s)
        else direntlookupLoop inum fuel s dp (off + direntSize)
      else
        return (none, dp, s)

/-- `direntlookup`. -/
def direntlookup (s : State) (dp : Inode) (inum : UInt32) :
    Except Fault (Option (Bytes × UInt32) × Inode × State) :=
  if dp.type ≠ tDir then .error .direntlookupNotDir
  else direntlookupLoop sb inum (direntFuel dp) s dp 0

/-- The loop of `isdirempty`. -/
def isdiremptyLoop : Nat → State → Inode → UInt32 → Except Fault (Bool × Inode × State)
  | 0, _, _, _ => .error .loops
  | fuel + 1, s, dp, off =>
      if off < dp.size then do
        let (r, entry, dp, s) ← readDirent sb s dp off
        if r ≠ 64 then .error .isdiremptyRead
        else if direntInum entry ≠ 0 then return (false, dp, s)
        else isdiremptyLoop fuel s dp (off + direntSize)
      else
        return (true, dp, s)

/-- `isdirempty`. -/
def isdirempty (s : State) (dp : Inode) : Except Fault (Bool × Inode × State) :=
  isdiremptyLoop sb (direntFuel dp) s dp (2 * direntSize)

/-! ## Free inodes -/

/-- The `struct dinode` of an inode that `ialloc` has just marked: zeros and the type. -/
def blankDinode (block : Bytes) (inum : UInt32) (type : UInt16) : Bytes :=
  (List.range 32).foldl
    (fun block k =>
      setWord block (32 * dinodeIndex inum + k) (if k = 0 then pair type 0 else 0)) block

/-- The loop of `ialloc`. -/
def iallocLoop (type : UInt16) : Nat → Nat → State → Except Fault (Option UInt32 × State)
  | 0, _, _ => .error .loops
  | fuel + 1, i, s =>
      if i < sb.ninodes.toNat then do
        let inum := UInt32.ofNat i
        let (bp, s) ← bread sb s (iblock sb inum)
        if (loadDinode (s.bufs bp).data inum).type = 0 then
          let s ← bwrite (s.setData bp (blankDinode (s.bufs bp).data inum type)) bp
          let s ← brelse s bp
          return (some inum, s)
        else
          let s ← brelse s bp
          iallocLoop type fuel (i + 1) s
      else
        return (none, s)

/-- `ialloc`. -/
def ialloc (s : State) (type : UInt16) : Except Fault (Option UInt32 × State) :=
  iallocLoop sb type (sb.ninodes.toNat + 1) 1 s

/-- The copy of an inode that `ilock` reads from the card. -/
def readInode (s : State) (inum : UInt32) : Except Fault (Inode × State) := do
  let (bp, s) ← bread sb s (iblock sb inum)
  let ip := loadDinode (s.bufs bp).data inum
  let s ← brelse s bp
  if ip.type = 0 then .error .ilockNoType
  else return (ip, s)

end Fs
end Xv6Duo
