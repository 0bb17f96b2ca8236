import Xv6Duo.Vfs.Seek

/-!
# Paths relative to a descriptor

The calls that look at their descriptor with `check_fdcwd` and resolve the path with `namex`. The
check compares the type of the open file with `T_DIR`, which is the number of `FD_PIPE`, and takes
any number for an index of `ofile`.
-/

namespace Xv6Duo
namespace Vfs

open Fs

/-! ## The calls -/

/-- A call that is given a path and a descriptor. -/
inductive AtCall
  /-- `fstatat`. -/
  | fstatat (fuel : Nat) (dirfd : Int) (path : Path) (flags : UInt32) (copied : Bool)
  /-- `linkat`. -/
  | linkat (olddirfd : Int) (oldpath : Path) (newdirfd : Int) (newpath : Path) (flags : UInt32)
  /-- `unlinkat`. -/
  | unlinkat (dirfd : Int) (path : Path) (flags : UInt32)
  /-- `symlinkat`. -/
  | symlinkat (target : Path) (dirfd : Int) (linkpath : Path)
  /-- `mkdirat`. -/
  | mkdirat (dirfd : Int) (path : Path) (mode : UInt32)
  /-- `mknodat`. -/
  | mknodat (dirfd : Int) (path : Path) (mode : UInt32) (dev : UInt64)
  /-- `fchmodat`. -/
  | fchmodat (dirfd : Int) (path : Path) (mode : UInt32)
  /-- `fchownat`. -/
  | fchownat (fuel : Nat) (dirfd : Int) (path : Path) (owner group flags : UInt32)
  /-- `faccessat2`. -/
  | faccessat2 (fuel : Nat) (dirfd : Int) (path : Path) (mode flags : UInt32)
  /-- `utimensat`. -/
  | utimensat (dirfd : Int) (path : Path) (atime mtime : Timespec) (flags : UInt32)
  /-- `renameat2`. -/
  | renameat2 (olddirfd : Int) (oldpath : Path) (newdirfd : Int) (newpath : Path) (flags : UInt32)

variable (sb : Superblock) (me : Fin nproc)

/-- Run a call. -/
def AtCall.run : AtCall → Kernel Int
  | .fstatat fuel dirfd path flags copied => sysFstatat sb me fuel dirfd path flags copied
  | .linkat olddirfd oldpath newdirfd newpath flags =>
      sysLinkat sb me olddirfd oldpath newdirfd newpath flags
  | .unlinkat dirfd path flags => sysUnlinkat sb me dirfd path flags
  | .symlinkat target dirfd linkpath => sysSymlinkat sb me target dirfd linkpath
  | .mkdirat dirfd path mode => sysMkdirat sb me dirfd path mode
  | .mknodat dirfd path mode dev => sysMknodat sb me dirfd path mode dev
  | .fchmodat dirfd path mode => sysFchmodat sb me dirfd path mode
  | .fchownat fuel dirfd path owner group flags =>
      sysFchownat sb me fuel dirfd path owner group flags
  | .faccessat2 fuel dirfd path mode flags => sysFaccessat2 sb me fuel dirfd path mode flags
  | .utimensat dirfd path atime mtime flags => sysUtimensat sb me dirfd path atime mtime flags
  | .renameat2 olddirfd oldpath newdirfd newpath flags =>
      sysRenameat2 sb me olddirfd oldpath newdirfd newpath flags

/-- The paths of a call with their descriptors. -/
def AtCall.paths : AtCall → List (Path × Int)
  | .fstatat _ dirfd path _ _ => [(path, dirfd)]
  | .linkat olddirfd oldpath newdirfd newpath _ => [(oldpath, olddirfd), (newpath, newdirfd)]
  | .unlinkat dirfd path _ => [(path, dirfd)]
  | .symlinkat _ dirfd linkpath => [(linkpath, dirfd)]
  | .mkdirat dirfd path _ => [(path, dirfd)]
  | .mknodat dirfd path _ _ => [(path, dirfd)]
  | .fchmodat dirfd path _ => [(path, dirfd)]
  | .fchownat _ dirfd path _ _ _ => [(path, dirfd)]
  | .faccessat2 _ dirfd path _ _ => [(path, dirfd)]
  | .utimensat dirfd path _ _ _ => [(path, dirfd)]
  | .renameat2 olddirfd oldpath newdirfd newpath _ => [(oldpath, olddirfd), (newpath, newdirfd)]

/-- The other arguments of a call are accepted before it looks at the descriptor. -/
def AtCall.Accepted : AtCall → Prop
  | .fstatat _ _ _ flags _ => flags &&& ~~~atSymlinkNofollow = 0
  | .symlinkat target _ linkpath => target ≠ [] ∧ linkpath ≠ []
  | .utimensat _ path _ _ flags => flags &&& ~~~0x1100 = 0 ∧ path ≠ []
  | _ => True

/-! ## What the descriptor is for -/

/-- A descriptor is open for a directory. -/
def OpenDirectory (s : System) (dirfd : Int) (a : Fin ninode) : Prop :=
  ∃ fd f, (fd.val : Int) = dirfd ∧ Opened s me fd f a ∧ (s.itable a).ip.type = tDir

/-- A descriptor is open. -/
def OpenFile (s : System) (dirfd : Int) : Prop :=
  ∃ fd : Fin nofile, (fd.val : Int) = dirfd ∧ (s.procs me).ofile fd ≠ none

/-- The descriptor of a path matters. -/
def Used (path : Path) (dirfd : Int) : Prop := path.head? ≠ some slash ∧ dirfd ≠ atFdcwd

instance (path : Path) (dirfd : Int) : Decidable (Used path dirfd) :=
  inferInstanceAs (Decidable (_ ∧ _))

/-- What a call decides before it resolves its paths: it goes on, which is the answer `0`, when
every descriptor that matters is open for a directory, and otherwise answers with the error for the
first one that is not. -/
inductive Relative (s : System) : List (Path × Int) → Except Fault (Int × System) → Prop
  /-- Every descriptor is open for a directory. -/
  | goesOn : Relative s [] (.ok (0, s))
  /-- The descriptor does not matter. -/
  | unused (path : Path) (dirfd : Int) (unused : ¬Used path dirfd) (paths : List (Path × Int))
      (result : Except Fault (Int × System)) (later : Relative s paths result) :
      Relative s ((path, dirfd) :: paths) result
  /-- The path starts in the directory. -/
  | inside (path : Path) (dirfd : Int) (used : Used path dirfd) (a : Fin ninode)
      (directory : OpenDirectory me s dirfd a) (paths : List (Path × Int))
      (result : Except Fault (Int × System)) (later : Relative s paths result) :
      Relative s ((path, dirfd) :: paths) result
  /-- The descriptor is open for something else. -/
  | notDirectory (path : Path) (dirfd : Int) (used : Used path dirfd)
      (is_open : OpenFile me s dirfd) (other : ¬∃ a, OpenDirectory me s dirfd a)
      (paths : List (Path × Int)) : Relative s ((path, dirfd) :: paths) (.ok (-enotdir, s))
  /-- The descriptor is not open. -/
  | closed (path : Path) (dirfd : Int) (used : Used path dirfd) (closed : ¬OpenFile me s dirfd)
      (paths : List (Path × Int)) : Relative s ((path, dirfd) :: paths) (.ok (-ebadf, s))

/-! ## What the code decides -/

/-- The checks of `check_fdcwd` in order. -/
def checks : List (Path × Int) → Kernel Int
  | [] => return 0
  | (path, dirfd) :: paths => do
      let ret ← checkFdcwd me path dirfd
      if ret < 0 then return ret
      else checks paths

/-- The checks of `check_fdcwd` in order, and what follows them. -/
def checked : List (Path × Int) → Kernel Int → Kernel Int
  | [], rest => rest
  | (path, dirfd) :: paths, rest => do
      let ret ← checkFdcwd me path dirfd
      if ret < 0 then return ret
      else checked paths rest

/-- Every call checks the descriptors of its paths. -/
theorem AtCall.run_eq (call : AtCall) (accepted : call.Accepted) :
    ∃ rest, call.run sb me = checked me call.paths rest := by
  cases call with
  | fstatat fuel dirfd path flags copied =>
      have good : flags &&& ~~~atSymlinkNofollow = 0 := accepted
      rw [AtCall.run, sysFstatat, if_neg (not_not.mpr good)]
      exact ⟨_, rfl⟩
  | linkat olddirfd oldpath newdirfd newpath flags => exact ⟨_, rfl⟩
  | unlinkat dirfd path flags => exact ⟨_, rfl⟩
  | symlinkat target dirfd linkpath =>
      have named : target ≠ [] ∧ linkpath ≠ [] := accepted
      rw [AtCall.run, sysSymlinkat, if_neg (not_or.mpr named)]
      exact ⟨_, rfl⟩
  | mkdirat dirfd path mode => exact ⟨_, rfl⟩
  | mknodat dirfd path mode dev => exact ⟨_, rfl⟩
  | fchmodat dirfd path mode => exact ⟨_, rfl⟩
  | fchownat fuel dirfd path owner group flags => exact ⟨_, rfl⟩
  | faccessat2 fuel dirfd path mode flags => exact ⟨_, rfl⟩
  | utimensat dirfd path atime mtime flags =>
      obtain ⟨good, named⟩ : flags &&& ~~~0x1100 = 0 ∧ path ≠ [] := accepted
      rw [AtCall.run, sysUtimensat, if_neg (not_not.mpr good), if_neg named]
      exact ⟨_, rfl⟩
  | renameat2 olddirfd oldpath newdirfd newpath flags => exact ⟨_, rfl⟩

/-- The checks come first. -/
theorem checked_eq (paths : List (Path × Int)) (rest : Kernel Int) :
    checked me paths rest = (do
      let ret ← checks me paths
      if ret < 0 then return ret
      else rest) := by
  induction paths with
  | nil =>
      rw [checked, checks, pure_bind]
      exact (if_neg (by decide)).symm
  | cons entry paths later =>
      obtain ⟨path, dirfd⟩ := entry
      rw [checked, checks, bind_assoc, later]
      congr 1
      funext ret
      by_cases negative : ret < 0
      · rw [if_pos negative, if_pos negative, pure_bind, if_pos negative]
      · rw [if_neg negative, if_neg negative]

/-- A descriptor is open for a pipe. -/
def OpenPipe (s : System) (dirfd : Int) : Prop :=
  ∃ fd f, (fd.val : Int) = dirfd ∧ (s.procs me).ofile fd = some f ∧ (s.ftable f).type = .pipe

section Check

variable {me} {s : System} {path : Path} {dirfd : Int}

theorem check_unused (unused : ¬Used path dirfd) :
    (checkFdcwd me path dirfd).run s = .ok (0, s) := by
  have skips : ¬(path.head? ≠ some slash ∧ dirfd ≠ atFdcwd) := unused
  rw [checkFdcwd, if_neg skips]
  rfl

/-- The source reads past the table. -/
theorem check_outside (used : Used path dirfd) (outside : ¬(0 ≤ dirfd ∧ dirfd.toNat < nofile)) :
    (checkFdcwd me path dirfd).run s = .error .badPointer := by
  have looks : path.head? ≠ some slash ∧ dirfd ≠ atFdcwd := used
  rw [checkFdcwd, if_pos looks]
  simp only [ofile, StateT.run_bind, StateT.run_get, Except.pure_eq_ok, Except.ok_bind,
    dif_neg outside]
  rfl

/-- What the table says. -/
theorem check_table (used : Used path dirfd) (fd : Fin nofile) (at_fd : (fd.val : Int) = dirfd) :
    (checkFdcwd me path dirfd).run s = .ok (match (s.procs me).ofile fd with
      | none => -ebadf
      | some f => if (s.ftable f).type.code ≠ tDir then -enotdir else 0, s) := by
  subst at_fd
  have looks : path.head? ≠ some slash ∧ (fd.val : Int) ≠ atFdcwd := used
  have inside : 0 ≤ (fd.val : Int) ∧ (fd.val : Int).toNat < nofile :=
    ⟨Int.natCast_nonneg _, by rw [Int.toNat_natCast]; exact fd.isLt⟩
  have index : (⟨(fd.val : Int).toNat, inside.2⟩ : Fin nofile) = fd := Fin.ext (Int.toNat_natCast _)
  rw [checkFdcwd, if_pos looks]
  simp only [ofile, StateT.run_bind, StateT.run_get, Except.pure_eq_ok, Except.ok_bind,
    dif_pos inside, index, StateT.run_pure]
  cases (s.procs me).ofile fd <;> rfl

theorem check_closed (used : Used path dirfd) (inside : 0 ≤ dirfd ∧ dirfd.toNat < nofile)
    (closed : ¬OpenFile me s dirfd) : (checkFdcwd me path dirfd).run s = .ok (-ebadf, s) := by
  have at_fd : ((⟨dirfd.toNat, inside.2⟩ : Fin nofile).val : Int) = dirfd :=
    Int.toNat_of_nonneg inside.1
  have none_there : (s.procs me).ofile ⟨dirfd.toNat, inside.2⟩ = none := by
    by_contra some_there
    exact closed ⟨_, at_fd, some_there⟩
  rw [check_table used _ at_fd, none_there]

/-- The number of a pipe is the number of a directory. -/
theorem check_pipe (used : Used path dirfd) (pipe : OpenPipe me s dirfd) :
    (checkFdcwd me path dirfd).run s = .ok (0, s) := by
  obtain ⟨fd, f, at_fd, file, type⟩ := pipe
  rw [check_table used fd at_fd, file]
  simp only [type]
  rfl

theorem check_other (used : Used path dirfd) (is_open : OpenFile me s dirfd)
    (other : ¬OpenPipe me s dirfd) : (checkFdcwd me path dirfd).run s = .ok (-enotdir, s) := by
  obtain ⟨fd, at_fd, there⟩ := is_open
  obtain ⟨f, file⟩ := Option.ne_none_iff_exists'.mp there
  have differs : (s.ftable f).type.code ≠ tDir := by
    have not_pipe : (s.ftable f).type ≠ .pipe := fun pipe => other ⟨fd, f, at_fd, file, pipe⟩
    revert not_pipe
    cases (s.ftable f).type <;> decide
  rw [check_table used fd at_fd, file]
  simp only [if_pos differs]

/-- A path with its descriptor is given to `namex` behind the checks. -/
theorem namex_inside (sb : Superblock) (used : Used path dirfd) {a : Fin ninode}
    (directory : OpenDirectory me s dirfd a) (parent : Bool) :
    (namex sb me parent path dirfd).run s = (do
      let ip ← idup a
      namexLoop sb me parent (path.length + 1) ip [] path : Kernel _).run s := by
  obtain ⟨fd, f, rfl, opened, -⟩ := directory
  have inside : 0 ≤ (fd.val : Int) ∧ (fd.val : Int).toNat < nofile :=
    ⟨Int.natCast_nonneg _, by rw [Int.toNat_natCast]; exact fd.isLt⟩
  have index : (⟨(fd.val : Int).toNat, inside.2⟩ : Fin nofile) = fd := Fin.ext (Int.toNat_natCast _)
  rw [namex, if_neg used.1, if_neg used.2]
  simp only [ofile, StateT.run_bind, StateT.run_get, Except.pure_eq_ok, Except.ok_bind,
    dif_pos inside, index, StateT.run_pure, opened.file, deref, opened.ip]

end Check

/-! ## When the checks are right -/

/-- The first descriptor that is not open for a directory is open. -/
def StopsAtFile (s : System) : List (Path × Int) → Prop
  | [] => False
  | (path, dirfd) :: paths =>
      if Used path dirfd then
        ((∃ a, OpenDirectory me s dirfd a) ∧ StopsAtFile s paths) ∨
          (OpenFile me s dirfd ∧ ¬∃ a, OpenDirectory me s dirfd a)
      else StopsAtFile s paths

/-- The first descriptor that is not open for a pipe is open. -/
def StopsBehindPipes (s : System) : List (Path × Int) → Prop
  | [] => False
  | (path, dirfd) :: paths =>
      if Used path dirfd then
        (OpenPipe me s dirfd ∧ StopsBehindPipes s paths) ∨
          (OpenFile me s dirfd ∧ ¬OpenPipe me s dirfd)
      else StopsBehindPipes s paths

/-- The first descriptor that matters is in the table, and open neither for a directory nor for a
pipe, unless the answer is the error for a descriptor behind it. -/
def Fortunate (s : System) : List (Path × Int) → Prop
  | [] => True
  | (path, dirfd) :: paths =>
      if Used path dirfd then
        (0 ≤ dirfd ∧ dirfd.toNat < nofile) ∧
          ((∃ a, OpenDirectory me s dirfd a) → StopsAtFile me s paths) ∧
          (OpenPipe me s dirfd → StopsBehindPipes me s paths)
      else Fortunate s paths

variable {me} {s : System}

/-- A descriptor that is open for a directory is not open for a pipe. -/
theorem OpenDirectory.not_pipe {dirfd : Int} {a : Fin ninode}
    (directory : OpenDirectory me s dirfd a) : ¬OpenPipe me s dirfd := by
  obtain ⟨fd, f, rfl, opened, -⟩ := directory
  rintro ⟨other, g, same, file, type⟩
  obtain rfl : other = fd := Fin.ext (Int.ofNat_inj.mp same)
  obtain rfl : g = f := Option.some.inj (file.symm.trans opened.file)
  have both : FdType.inode = .pipe := opened.type.symm.trans type
  cases both

/-- A descriptor that is open for a directory is open. -/
theorem OpenDirectory.openFile {dirfd : Int} {a : Fin ninode}
    (directory : OpenDirectory me s dirfd a) : OpenFile me s dirfd := by
  obtain ⟨fd, f, at_fd, opened, -⟩ := directory
  refine ⟨fd, at_fd, ?_⟩
  rw [opened.file]
  exact Option.some_ne_none f

/-- A descriptor that is open for a pipe is open. -/
theorem OpenPipe.openFile {dirfd : Int} (pipe : OpenPipe me s dirfd) : OpenFile me s dirfd := by
  obtain ⟨fd, f, at_fd, file, -⟩ := pipe
  refine ⟨fd, at_fd, ?_⟩
  rw [file]
  exact Option.some_ne_none f

/-- What should be decided for a path whose descriptor is not open for a directory. -/
theorem relative_used {path : Path} {dirfd : Int} (used : Used path dirfd)
    {paths : List (Path × Int)} {result : Except Fault (Int × System)}
    (other : ¬∃ a, OpenDirectory me s dirfd a) :
    Relative me s ((path, dirfd) :: paths) result ↔
      (OpenFile me s dirfd ∧ result = .ok (-enotdir, s)) ∨
        (¬OpenFile me s dirfd ∧ result = .ok (-ebadf, s)) := by
  constructor
  · intro relative
    cases relative with
    | unused _ _ unused _ _ _ => exact absurd used unused
    | inside _ _ _ a directory _ _ _ => exact absurd ⟨a, directory⟩ other
    | notDirectory _ _ _ is_open _ _ => exact .inl ⟨is_open, rfl⟩
    | closed _ _ _ closed _ => exact .inr ⟨closed, rfl⟩
  · rintro (⟨is_open, rfl⟩ | ⟨closed, rfl⟩)
    · exact .notDirectory path dirfd used is_open other paths
    · exact .closed path dirfd used closed paths

/-- What should be decided for a path whose descriptor is open for a directory. -/
theorem relative_inside {path : Path} {dirfd : Int} (used : Used path dirfd)
    {paths : List (Path × Int)} {result : Except Fault (Int × System)}
    (directory : ∃ a, OpenDirectory me s dirfd a) :
    Relative me s ((path, dirfd) :: paths) result ↔ Relative me s paths result := by
  constructor
  · intro relative
    cases relative with
    | unused _ _ unused _ _ _ => exact absurd used unused
    | inside _ _ _ _ _ _ _ later => exact later
    | notDirectory _ _ _ _ other _ => exact absurd directory other
    | closed _ _ _ closed _ => exact absurd directory.choose_spec.openFile closed
  · intro later
    obtain ⟨a, directory⟩ := directory
    exact .inside path dirfd used a directory paths result later

theorem relative_unused {path : Path} {dirfd : Int} (unused : ¬Used path dirfd)
    {paths : List (Path × Int)} {result : Except Fault (Int × System)} :
    Relative me s ((path, dirfd) :: paths) result ↔ Relative me s paths result := by
  constructor
  · intro relative
    cases relative with
    | unused _ _ _ _ _ later => exact later
    | inside _ _ used _ _ _ _ _ => exact absurd used unused
    | notDirectory _ _ used _ _ _ => exact absurd used unused
    | closed _ _ used _ _ => exact absurd used unused
  · exact fun later => .unused path dirfd unused paths result later

/-- The call should answer with `ENOTDIR`. -/
theorem relative_notDirectory (paths : List (Path × Int)) :
    Relative me s paths (.ok (-enotdir, s)) ↔ StopsAtFile me s paths := by
  induction paths with
  | nil =>
      rw [StopsAtFile, iff_false]
      intro relative
      generalize same : (Except.ok (-enotdir, s) : Except Fault (Int × System)) = result at relative
      cases relative with
      | goesOn =>
          have equal : -enotdir = 0 := congrArg Prod.fst (Except.ok.inj same)
          exact absurd equal (by decide)
  | cons entry paths later =>
      obtain ⟨path, dirfd⟩ := entry
      rw [StopsAtFile]
      by_cases used : Used path dirfd
      · rw [if_pos used]
        by_cases directory : ∃ a, OpenDirectory me s dirfd a
        · rw [relative_inside used directory, later]
          simp only [directory, true_and, not_true, and_false, or_false]
        · have differ : (-enotdir, s) ≠ (-ebadf, s) := by
            intro same
            have equal : -enotdir = -ebadf := congrArg Prod.fst same
            exact absurd equal (by decide)
          rw [relative_used used directory]
          simp only [directory, false_and, false_or, not_false_eq_true, and_true, Except.ok.injEq,
            differ, and_false, or_false]
      · rw [if_neg used, relative_unused used, later]

/-- The code answers with `ENOTDIR`. -/
theorem checks_notDirectory (paths : List (Path × Int)) :
    (checks me paths).run s = .ok (-enotdir, s) ↔ StopsBehindPipes me s paths := by
  induction paths with
  | nil =>
      rw [StopsBehindPipes, iff_false]
      intro same
      have equal : 0 = -enotdir := congrArg Prod.fst (Except.ok.inj same)
      exact absurd equal (by decide)
  | cons entry paths later =>
      obtain ⟨path, dirfd⟩ := entry
      rw [StopsBehindPipes, checks, StateT.run_bind]
      by_cases used : Used path dirfd
      · rw [if_pos used]
        by_cases pipe : OpenPipe me s dirfd
        · rw [check_pipe used pipe]
          simp only [Except.ok_bind, Int.lt_irrefl, if_false, pipe, true_and, not_true, and_false,
            or_false, later]
        · simp only [pipe, false_and, false_or, not_false_eq_true, and_true]
          by_cases inside : 0 ≤ dirfd ∧ dirfd.toNat < nofile
          · by_cases is_open : OpenFile me s dirfd
            · rw [check_other used is_open pipe]
              exact iff_of_true rfl is_open
            · rw [check_closed used inside is_open]
              refine iff_of_false (fun same => ?_) is_open
              have equal : -ebadf = -enotdir := congrArg Prod.fst (Except.ok.inj same)
              exact absurd equal (by decide)
          · rw [check_outside used inside]
            refine iff_of_false (fun same => by cases same) ?_
            rintro ⟨fd, rfl, -⟩
            exact inside ⟨Int.natCast_nonneg _, by rw [Int.toNat_natCast]; exact fd.isLt⟩
      · rw [if_neg used, check_unused used]
        simp only [Except.ok_bind, Int.lt_irrefl, if_false, later]

/-- The decision is never a read past the table. -/
theorem relative_answers {paths : List (Path × Int)} {result : Except Fault (Int × System)}
    (relative : Relative me s paths result) : ∃ ret, result = .ok (ret, s) := by
  induction relative with
  | goesOn => exact ⟨_, rfl⟩
  | unused _ _ _ _ _ _ later => exact later
  | inside _ _ _ _ _ _ _ _ later => exact later
  | notDirectory _ _ _ _ _ _ => exact ⟨_, rfl⟩
  | closed _ _ _ _ _ => exact ⟨_, rfl⟩

/-- The checks decide as they should exactly for the fortunate descriptors. -/
theorem checks_relative_iff (paths : List (Path × Int)) :
    Relative me s paths ((checks me paths).run s) ↔ Fortunate me s paths := by
  induction paths with
  | nil => exact iff_of_true .goesOn trivial
  | cons entry paths later =>
      obtain ⟨path, dirfd⟩ := entry
      rw [Fortunate]
      by_cases used : Used path dirfd
      · rw [if_pos used]
        by_cases inside : 0 ≤ dirfd ∧ dirfd.toNat < nofile
        · by_cases directory : ∃ a, OpenDirectory me s dirfd a
          · have not_pipe := directory.choose_spec.not_pipe
            have is_open := directory.choose_spec.openFile
            rw [relative_inside used directory, checks, StateT.run_bind,
              check_other used is_open not_pipe]
            simp only [inside, true_and, directory, true_implies, not_pipe, false_implies, and_true]
            exact relative_notDirectory paths
          · rw [relative_used used directory]
            simp only [inside, true_and, directory, false_implies]
            by_cases pipe : OpenPipe me s dirfd
            · rw [checks, StateT.run_bind, check_pipe used pipe]
              simp only [pipe.openFile, true_and, not_true, false_and, or_false, pipe, true_implies]
              exact checks_notDirectory paths
            · rw [checks, StateT.run_bind]
              refine iff_of_true ?_ fun yes => absurd yes pipe
              by_cases is_open : OpenFile me s dirfd
              · rw [check_other used is_open pipe]
                exact .inl ⟨is_open, rfl⟩
              · rw [check_closed used inside is_open]
                exact .inr ⟨is_open, rfl⟩
        · refine iff_of_false (fun relative => ?_) fun fortunate => inside fortunate.1
          obtain ⟨ret, answers⟩ := relative_answers relative
          rw [checks, StateT.run_bind, check_outside used inside] at answers
          cases answers
      · rw [if_neg used, relative_unused used, checks, StateT.run_bind, check_unused used]
        simp only [Except.ok_bind, Int.lt_irrefl, if_false]
        exact later

/-- Every call decides with the checks whether it goes on, and these are right exactly for the
fortunate descriptors; a path is resolved from the directory that its descriptor is open for. -/
theorem relative_exact_iff (sb : Superblock) (me : Fin nproc) (call : AtCall)
    (accepted : call.Accepted) :
    (∃ rest, call.run sb me = (do
        let ret ← checks me call.paths
        if ret < 0 then return ret
        else rest)) ∧
      ∀ s, (Relative me s call.paths ((checks me call.paths).run s) ↔ Fortunate me s call.paths) ∧
        ∀ path dirfd a, Used path dirfd → OpenDirectory me s dirfd a → ∀ parent,
          (namex sb me parent path dirfd).run s = (do
            let ip ← idup a
            namexLoop sb me parent (path.length + 1) ip [] path : Kernel _).run s := by
  constructor
  · obtain ⟨rest, runs⟩ := call.run_eq sb me accepted
    exact ⟨rest, runs.trans (checked_eq me call.paths rest)⟩
  · intro s
    constructor
    · exact checks_relative_iff call.paths
    · exact fun path dirfd a used directory parent => namex_inside sb used directory parent

/-- A system in which every descriptor is open for one directory. -/
def directoryEverywhere : System :=
  { openEverywhere with itable _ := ⟨1, none, true, blank 2 tDir⟩ }

theorem directoryEverywhere_opened :
    OpenDirectory ⟨0, by decide⟩ directoryEverywhere 0 ⟨0, by decide⟩ :=
  ⟨⟨0, by decide⟩, ⟨0, by decide⟩, rfl, ⟨rfl, rfl, rfl⟩, rfl⟩

/-- `unlinkat` of a name in an open directory answers that it is not a directory. -/
theorem unlinkat_directory : ∃ a, OpenDirectory ⟨0, by decide⟩ directoryEverywhere 0 a ∧
    ¬Relative ⟨0, by decide⟩ directoryEverywhere [([120], 0)]
      ((checks ⟨0, by decide⟩ [([120], 0)]).run directoryEverywhere) ∧
    ∀ sb, ((AtCall.unlinkat 0 [120] 0).run sb ⟨0, by decide⟩).run directoryEverywhere =
      .ok (-enotdir, directoryEverywhere) := by
  refine ⟨_, directoryEverywhere_opened, fun relative => ?_, fun sb => rfl⟩
  have fortunate := (checks_relative_iff _).mp relative
  rw [Fortunate, if_pos (by decide)] at fortunate
  exact fortunate.2.1 ⟨_, directoryEverywhere_opened⟩

/-- A volume without inodes and data blocks. -/
def emptyVolume : Superblock where
  lba := 0
  size := 3
  nblocks := 0
  ninodes := 0
  inodestart := 2
  bmapstart := 2
  size_le := by decide
  nblocks_le := by decide
  boot_fits := by decide
  inodes_fit := by decide
  bitmap_fits := by decide

/-- `unlinkat` of a name in an open file answers as it should. -/
theorem unlinkat_file : Relative ⟨0, by decide⟩ openEverywhere [([120], 0)]
    ((checks ⟨0, by decide⟩ [([120], 0)]).run openEverywhere) := by
  have decides := ((relative_exact_iff emptyVolume ⟨0, by decide⟩ (.unlinkat 0 [120] 0)
    trivial).2 openEverywhere).1
  refine decides.mpr ?_
  change Fortunate _ _ [([120], 0)]
  rw [Fortunate, if_pos (by decide)]
  refine ⟨by decide, ?_, ?_⟩
  · rintro ⟨a, fd, f, -, -, type⟩
    have differ : tFile = tDir := type
    exact absurd differ (by decide)
  · rintro ⟨fd, f, -, -, type⟩
    have differ : FdType.inode = .pipe := type
    cases differ

end Vfs
end Xv6Duo
