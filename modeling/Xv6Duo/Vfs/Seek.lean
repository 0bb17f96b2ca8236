import Xv6Duo.Vfs.Syscalls

/-!
# Positions of open files

`filelseek` and `sys_lseek`. The type `off_t` is unsigned and the position has 32 bits, so the tests
for a negative position never succeed and a position past `2 ^ 32` is cut off.
-/

namespace Xv6Duo
namespace Vfs

open Fs

/-- `SEEK_SET`. -/
def seekSet : UInt32 := 0

/-- `SEEK_CUR`. -/
def seekCur : UInt32 := 1

/-- `SEEK_END`. -/
def seekEnd : UInt32 := 2

/-- The new position of a file, if `filelseek` accepts the offset. -/
def sought (file : File) (size : UInt32) (offset : UInt64) (whence : UInt32) : Option UInt32 :=
  if whence = seekSet then if offset < 0 then none else some offset.toUInt32
  else if whence = seekCur then
    if file.off.toUInt64 + offset < 0 then none else some (file.off.toUInt64 + offset).toUInt32
  else if whence = seekEnd then
    if size.toUInt64 + offset < 0 then none else some (size.toUInt64 + offset).toUInt32
  else none

/-- `filelseek`. -/
def filelseek (f : Fin nfile) (offset : UInt64) (whence : UInt32) : Kernel Int := do
  let file := (← get).ftable f
  let size ←
    if whence = seekEnd then do
      let ip ← deref file.ip
      let fields ← inode ip
      pure fields.size
    else pure 0
  match sought file size offset whence with
  | none => return -einval
  | some off =>
      modify fun s => s.setFile f { file with off := off }
      return off.toNat

/-- `sys_lseek`. -/
def sysLseek (me : Fin nproc) (fd : Int) (offset : UInt64) (whence : UInt32) : Kernel Int := do
  match ← argfd me fd with
  | none => return -einval
  | some (_, f) =>
      if whence &&& ~~~(seekSet ||| seekCur ||| seekEnd) ≠ 0 then return -einval
      else if ((← get).ftable f).type = .pipe then return 0
      else filelseek f offset whence

variable {s : System} {me : Fin nproc} {fd : Fin nofile} {f : Fin nfile} {a : Fin ninode}

/-- The descriptor is open for an inode. -/
structure Opened (s : System) (me : Fin nproc) (fd : Fin nofile) (f : Fin nfile) (a : Fin ninode) :
    Prop where
  /-- The file of the descriptor. -/
  file : (s.procs me).ofile fd = some f
  /-- The file has an inode. -/
  type : (s.ftable f).type = .inode
  /-- The inode. -/
  ip : (s.ftable f).ip = some a

/-- The position that an offset is relative to. -/
def base (s : System) (f : Fin nfile) (a : Fin ninode) (whence : UInt32) : Option Nat :=
  if whence = seekSet then some 0
  else if whence = seekCur then some (s.ftable f).off.toNat
  else if whence = seekEnd then some (s.itable a).ip.size.toNat
  else none

/-- The answer to a call with a signed offset, and the system afterwards: a position inside the
range of positions is taken, everything else is an error that changes nothing. -/
def seekAnswer (s : System) (f : Fin nfile) (a : Fin ninode) (offset : UInt64) (whence : UInt32) :
    Int × System :=
  match base s f a whence with
  | none => (-einval, s)
  | some start =>
      let target : Int := start + offset.toInt64.toInt
      if 0 ≤ target ∧ target < 2 ^ 32 then
        (target, s.setFile f { s.ftable f with off := UInt32.ofInt target })
      else (-einval, s)

/-! ## What the code does -/

theorem argfd_run (opened : Opened s me fd f a) :
    (argfd me fd.val).run s = .ok (some (fd, f), s) := by
  have inside : 0 ≤ (fd.val : Int) ∧ (fd.val : Int).toNat < nofile :=
    ⟨Int.natCast_nonneg _, by rw [Int.toNat_natCast]; exact fd.isLt⟩
  have file : (s.procs me).ofile ⟨(fd.val : Int).toNat, inside.2⟩ = some f := opened.file
  simp only [argfd, StateT.run_bind, StateT.run_get, Except.ok_bind, Except.pure_eq_ok,
    dif_pos inside, file, Option.map_some]
  rfl

/-- A signed offset. -/
theorem toInt64_toInt (offset : UInt64) : offset.toInt64.toInt =
    if offset.toNat < 2 ^ 63 then (offset.toNat : Int) else offset.toNat - 2 ^ 64 := by
  change offset.toBitVec.toInt = _
  rw [BitVec.toInt_eq_toNat_cond]
  simp only [UInt64.toNat_toBitVec]
  split <;> split <;> omega

/-- The sum in 64 bits is the integer sum modulo `2 ^ 32`. -/
theorem toUInt32_add (start : UInt32) (offset : UInt64) :
    (start.toUInt64 + offset).toUInt32 =
      UInt32.ofInt (start.toNat + offset.toInt64.toInt) := by
  have below := offset.toNat_lt
  apply UInt32.toNat_inj.mp
  rw [toInt64_toInt, UInt32.ofInt, UInt32.toNat_ofNat', UInt64.toNat_toUInt32, UInt64.toNat_add,
    UInt32.toNat_toUInt64]
  split <;> omega

theorem sought_eq (offset : UInt64) (whence : UInt32) :
    sought (s.ftable f) (s.itable a).ip.size offset whence =
      (base s f a whence).map fun start => UInt32.ofInt (start + offset.toInt64.toInt) := by
  simp only [sought, base, UInt64.not_lt_zero, if_false]
  split
  · have zero : offset.toUInt32 = UInt32.ofInt ((0 : UInt32).toNat + offset.toInt64.toInt) := by
      rw [← toUInt32_add]
      exact congrArg _ (UInt64.zero_add offset).symm
    rw [zero]
    rfl
  · split
    · rw [toUInt32_add]
      rfl
    · split
      · rw [toUInt32_add]
        rfl
      · rfl

/-- Only `SEEK_END` needs the size. -/
theorem sought_size {file : File} {offset : UInt64} {whence : UInt32} (not_end : whence ≠ seekEnd)
    (size other : UInt32) : sought file size offset whence = sought file other offset whence := by
  rw [sought, sought, if_neg not_end, if_neg not_end]

theorem filelseek_run (opened : Opened s me fd f a) (offset : UInt64) (whence : UInt32) :
    (filelseek f offset whence).run s = .ok (match base s f a whence with
      | none => (-einval, s)
      | some start =>
          let off := UInt32.ofInt (start + offset.toInt64.toInt)
          (off.toNat, s.setFile f { s.ftable f with off := off })) := by
  have position := sought_eq (s := s) (f := f) (a := a) offset whence
  cases Decidable.em (whence = seekEnd) with
  | inl at_end =>
      simp only [filelseek, StateT.run_bind, StateT.run_get, Except.pure_eq_ok, Except.ok_bind,
        at_end, if_true, opened.ip, deref, inode, StateT.run_pure]
      rw [← at_end, position]
      cases base s f a whence <;> rfl
  | inr not_end =>
      simp only [filelseek, StateT.run_bind, StateT.run_get, Except.pure_eq_ok, Except.ok_bind,
        not_end, if_false, StateT.run_pure]
      rw [sought_size not_end 0 (s.itable a).ip.size, position]
      cases base s f a whence <;> rfl

/-- What `sys_lseek` does for a descriptor that is open for an inode. -/
theorem sysLseek_run (opened : Opened s me fd f a) (offset : UInt64) (whence : UInt32) :
    (sysLseek me fd.val offset whence).run s = .ok (match base s f a whence with
      | none => (-einval, s)
      | some start =>
          let off := UInt32.ofInt (start + offset.toInt64.toInt)
          (off.toNat, s.setFile f { s.ftable f with off := off })) := by
  have not_pipe : (s.ftable f).type ≠ .pipe := by
    rw [opened.type]
    exact fun no => by cases no
  simp only [sysLseek, StateT.run_bind, argfd_run opened, Except.ok_bind]
  split
  · next outside =>
      have unknown : base s f a whence = none := by
        rw [base, if_neg, if_neg, if_neg]
        all_goals
          rintro rfl
          exact outside (by decide)
      rw [unknown]
      rfl
  · simp only [StateT.run_bind, StateT.run_get, Except.pure_eq_ok, Except.ok_bind]
    rw [if_neg not_pipe]
    exact filelseek_run opened offset whence

/-- `lseek` answers as it should exactly for the offsets that lead into the range of positions. -/
theorem lseek_answers_iff (opened : Opened s me fd f a) (offset : UInt64) (whence : UInt32) :
    (sysLseek me fd.val offset whence).run s = .ok (seekAnswer s f a offset whence) ↔
      ∀ start, base s f a whence = some start → 0 ≤ start + offset.toInt64.toInt ∧
        start + offset.toInt64.toInt < 2 ^ 32 := by
  rw [sysLseek_run opened, seekAnswer]
  cases base s f a whence with
  | none => simp
  | some start =>
      simp only [Option.some.injEq, forall_eq']
      have reduced : (UInt32.ofInt (start + offset.toInt64.toInt)).toNat =
          ((start + offset.toInt64.toInt) % 2 ^ 32).toNat := by
        rw [UInt32.ofInt, UInt32.toNat_ofNat']
        omega
      constructor
      · intro same
        by_contra outside
        rw [if_neg outside] at same
        have negative := (Prod.mk.inj (Except.ok.inj same)).1
        rw [einval] at negative
        omega
      · intro inside
        rw [if_pos inside, reduced]
        congr 2
        omega

/-! ## A negative position -/

/-- A system in which every descriptor is open for one empty file. -/
def openEverywhere : System where
  blocks := binit fun _ => ByteBlock.zeros
  dinodes inum := blank inum tFile
  itable _ := ⟨1, none, true, blank 2 tFile⟩
  ftable _ := ⟨.inode, 1, some ⟨0, ninode_pos⟩, 0, 0, 0, true, true⟩
  procs _ := ⟨some ⟨0, ninode_pos⟩, fun _ => some ⟨0, nfile_pos⟩, 0, 0, 0, 0, 0, 0, 0, true, true⟩
  clock _ := ⟨0, 0⟩
  released := []

theorem openEverywhere_opened :
    Opened openEverywhere ⟨0, by decide⟩ ⟨0, by decide⟩ ⟨0, by decide⟩ ⟨0, by decide⟩ :=
      ⟨rfl, rfl, rfl⟩

/-- `lseek` to the position `-1` answers `2 ^ 32 - 1`. -/
theorem lseek_minus_one : (sysLseek ⟨0, by decide⟩ 0 (-1) seekSet).run openEverywhere ≠
    .ok (seekAnswer openEverywhere ⟨0, by decide⟩ ⟨0, by decide⟩ (-1) seekSet) := by
  intro same
  have run := sysLseek_run openEverywhere_opened (-1) seekSet
  rw [show ((⟨0, by decide⟩ : Fin nofile).val : Int) = 0 from rfl, same] at run
  have answers := congrArg Prod.fst (Except.ok.inj run)
  exact absurd answers (by decide)

/-- `lseek` to the position `5` answers as it should. -/
theorem lseek_five :
    (sysLseek ⟨0, by decide⟩ ((⟨0, by decide⟩ : Fin nofile).val : Nat) 5 seekSet).run
      openEverywhere =
    .ok (seekAnswer openEverywhere ⟨0, by decide⟩ ⟨0, by decide⟩ 5 seekSet) := by
  refine (lseek_answers_iff openEverywhere_opened 5 seekSet).mpr fun start at_start => ?_
  obtain rfl := Option.some.inj (at_start.symm.trans (show _ = some 0 from rfl))
  decide

end Vfs
end Xv6Duo
