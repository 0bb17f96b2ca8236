import Xv6Duo.Dir.Terminate
import Mathlib.Data.Nat.Bitwise

/-!
# What `faccess` and `permission` grant

`permission` chooses the owner, the group or the others by identity and wants every requested bit in
that class. `faccess` refuses a request only when the process is the owner and in the group of the
file and a requested bit is missing in the classes that it looks at, which for `X_OK` are the owner
and the others.
-/

namespace Xv6Duo
namespace Dir

open Follow

variable {p : Proc} {c : Creds} {ip : Node} {mode mask : UInt32}

/-- The mode shifted to the class of the process. -/
def classMode (p : Proc) (ip : Node) : UInt32 :=
  if p.fsuid = ip.uid then ip.mode >>> 6 else if p.fsgid = ip.gid then ip.mode >>> 3 else ip.mode

/-- Every requested bit is set in the class of the process. -/
def Granted (p : Proc) (ip : Node) (mask : UInt32) : Prop := classMode p ip &&& mask = mask

/-- A requested bit is missing in all the classes that `faccess` looks at. -/
def Withheld (ip : Node) (mask : UInt32) : Prop :=
  (mask &&& 4 ≠ 0 ∧ ip.mode &&& 0o444 = 0) ∨ (mask &&& 2 ≠ 0 ∧ ip.mode &&& 0o222 = 0) ∨
    (mask &&& 1 ≠ 0 ∧ ip.mode &&& 0o101 = 0)

/-- A process that is not root and has one user and one group. -/
structure Plain (p : Proc) (c : Creds) : Prop where
  /-- The effective user. -/
  euid : c.euid = p.uid
  /-- The effective group. -/
  egid : c.egid = p.gid
  /-- The user for file access. -/
  fsuid : p.fsuid = p.uid
  /-- The group for file access. -/
  fsgid : p.fsgid = p.gid
  /-- Not root. -/
  user : p.uid ≠ 0
  /-- No `CAP_DAC_OVERRIDE`. -/
  bound : p.dacOverride = false

/-! ## Bits -/

/-- A bit of a value. -/
theorem and_ne_zero_iff {value bit : UInt32} {i : Nat} (one : bit.toNat = 2 ^ i) :
    value &&& bit ≠ 0 ↔ value.toNat.testBit i = true := by
  rw [Ne, ← UInt32.toNat_inj, UInt32.toNat_and, one, UInt32.toNat_zero, Nat.and_two_pow]
  cases value.toNat.testBit i <;> simp

/-- A bit that is set in a shifted mode. -/
theorem mode_and_ne_zero {mode bits shift bit : UInt32} {i : Nat} (one : bit.toNat = 2 ^ i)
    (inside : bits.toNat.testBit (shift.toNat % 32 + i) = true)
    (set : (mode >>> shift) &&& bit ≠ 0) : mode &&& bits ≠ 0 := by
  rw [and_ne_zero_iff one, UInt32.toNat_shiftRight, Nat.testBit_shiftRight] at set
  intro zero
  have none := congrArg (fun value : UInt32 => value.toNat.testBit (shift.toNat % 32 + i)) zero
  simp only [UInt32.toNat_and, Nat.testBit_and, set, inside, UInt32.toNat_zero,
    Nat.zero_testBit] at none
  cases none

theorem and_or_values (value left right : UInt32) :
    value &&& (left ||| right) = (value &&& left) ||| (value &&& right) := by
  apply UInt32.toBitVec_inj.mp
  exact BitVec.and_or_distrib_left

theorem and_or_eq_zero {value left right : UInt32} :
    value &&& (left ||| right) = 0 ↔ value &&& left = 0 ∧ value &&& right = 0 := by
  rw [and_or_values, UInt32.or_eq_zero_iff]

/-- A requested bit is among the bits of a class. -/
theorem and_of_granted {value bit : UInt32} (granted : value &&& mask = mask)
    (requested : mask &&& bit ≠ 0) : value &&& bit ≠ 0 := by
  intro zero
  apply requested
  rw [← granted, UInt32.and_assoc, UInt32.and_comm mask, ← UInt32.and_assoc, zero, UInt32.zero_and]

/-! ## The two rules -/

theorem permission_iff (plain : Plain p c) (inside : mask &&& ~~~7 = 0) :
    permission p ip mask = true ↔ Granted p ip mask := by
  have user : p.fsuid ≠ 0 := by
    rw [plain.fsuid]
    exact plain.user
  have low : mask &&& 7 = mask := by
    have split : mask &&& 7 ||| mask &&& ~~~7 = mask := by
      rw [← and_or_values, UInt32.or_not_self]
      exact UInt32.and_neg_one
    rw [inside, UInt32.or_zero] at split
    exact split
  unfold permission Granted classMode
  simp only [user, false_or, plain.bound, Bool.false_eq_true, and_false, or_false,
    decide_eq_true_eq, UInt32.and_assoc, low]

/-- `faccess` refuses what is withheld from an owner in the group of the file. -/
theorem accessError_iff (plain : Plain p c) (flags : UInt32) :
    accessError p c ip mask flags = 0 ↔ ¬(ip.uid = p.uid ∧ ip.gid = p.gid ∧ Withheld ip mask) := by
  have read : ip.mode &&& 0o444 = 0 ↔
      ip.mode &&& 0o400 = 0 ∧ ip.mode &&& 0o40 = 0 ∧ ip.mode &&& 0o4 = 0 := by
    rw [← and_or_eq_zero, ← and_or_eq_zero,
      show (0o400 ||| (0o40 ||| 0o4) : UInt32) = 0o444 by decide]
  have write : ip.mode &&& 0o222 = 0 ↔
      ip.mode &&& 0o200 = 0 ∧ ip.mode &&& 0o20 = 0 ∧ ip.mode &&& 0o2 = 0 := by
    rw [← and_or_eq_zero, ← and_or_eq_zero,
      show (0o200 ||| (0o20 ||| 0o2) : UInt32) = 0o222 by decide]
  have execute : ip.mode &&& 0o101 = 0 ↔ ip.mode &&& 0o100 = 0 ∧ ip.mode &&& 0o1 = 0 := by
    rw [← and_or_eq_zero, show (0o100 ||| 0o1 : UInt32) = 0o101 by decide]
  have three {a b d : Prop} [Decidable a] [Decidable b] [Decidable d] :
      (if a then -eacces else if b then -eacces else if d then -eacces else 0) = 0 ↔
        ¬(a ∨ b ∨ d) := by
    have refused : -eacces ≠ 0 := by decide
    split_ifs <;> simp_all
  have regroup {owner group requested a b d : Prop} :
      requested ∧ (owner ∧ a) ∧ (group ∧ b) ∧ d ↔ owner ∧ group ∧ requested ∧ a ∧ b ∧ d := by
    tauto
  unfold accessError Withheld
  dsimp only
  rw [read, write, execute, plain.euid, plain.egid, ite_self, ite_self, if_neg plain.user, three,
    regroup, regroup, regroup, and_self, ← and_or_left, ← and_or_left, ← and_or_left, ← and_or_left]

/-- Nothing is withheld from the owner that the owner's class grants. -/
theorem not_withheld (plain : Plain p c) (owner : ip.uid = p.uid) (granted : Granted p ip mask) :
    ¬Withheld ip mask := by
  have class_eq : classMode p ip = ip.mode >>> 6 := if_pos (by rw [plain.fsuid, owner])
  unfold Granted at granted
  rw [class_eq] at granted
  rintro (⟨requested, none⟩ | ⟨requested, none⟩ | ⟨requested, none⟩)
  · have set : ip.mode >>> 6 &&& 4 ≠ 0 := and_of_granted granted requested
    have inside : (0o444 : UInt32).toNat.testBit ((6 : UInt32).toNat % 32 + 2) = true := by decide
    exact mode_and_ne_zero (show (4 : UInt32).toNat = 2 ^ 2 by decide) inside set none
  · have set : ip.mode >>> 6 &&& 2 ≠ 0 := and_of_granted granted requested
    have inside : (0o222 : UInt32).toNat.testBit ((6 : UInt32).toNat % 32 + 1) = true := by decide
    exact mode_and_ne_zero (show (2 : UInt32).toNat = 2 ^ 1 by decide) inside set none
  · have set : ip.mode >>> 6 &&& 1 ≠ 0 := and_of_granted granted requested
    have inside : (0o101 : UInt32).toNat.testBit ((6 : UInt32).toNat % 32 + 0) = true := by decide
    exact mode_and_ne_zero (show (1 : UInt32).toNat = 2 ^ 0 by decide) inside set none

/-- For a process that is not root and has one user and one group, `faccess` of an inode and
`permission` agree if and only if every requested bit is set in the class of the process, or the
process is the owner and in the group of the file and a requested bit is missing in all the classes
that `faccess` looks at. -/
theorem access_agrees_iff {fuel : Nat} {w w' : World} {locked locked' : Follow.Locks}
    {pid : Fin nproc} {path : Path} {dirfd : Int} {flags : UInt32} {t : Table} {i : Nat}
    {code : Int} (plain : Plain (w.procs pid) c) (some_bit : mask ≠ 0) (inside : mask &&& ~~~7 = 0)
    (found : flagSearch flags (w.procs pid) dirfd fuel ⟨w.nodes, locked⟩ path = .ok (.ok i, t))
    (run : faccess fuel w locked pid c path dirfd mask flags = .ok (code, w', locked')) :
    (code = 0 ↔ permission (w.procs pid) (t.nodes i) mask = true) ↔
      Granted (w.procs pid) (t.nodes i) mask ∨
        ((t.nodes i).uid = (w.procs pid).uid ∧ (t.nodes i).gid = (w.procs pid).gid ∧
          Withheld (t.nodes i) mask) := by
  have answer : code = accessError (w.procs pid) c (t.nodes i) mask flags := by
    unfold faccess at run
    rw [if_neg (not_not.mpr inside)] at run
    dsimp only at run
    rw [found, Except.ok_bind] at run
    obtain ⟨u, -, returns⟩ := Except.bind_eq_ok.mp run
    rw [if_neg some_bit] at returns
    cases returns
    rfl
  rw [answer, accessError_iff plain, permission_iff plain inside]
  have apart := @not_withheld _ _ (t.nodes i) mask plain
  by_cases granted : Granted (w.procs pid) (t.nodes i) mask
  · simp only [granted, iff_true, true_or]
    rintro ⟨owner, -, withheld⟩
    exact apart owner granted withheld
  · simp only [granted, iff_false, not_not, false_or]

/-- A user that owns nothing. -/
def guest : Proc := ⟨some rootIno, fun _ => none, 1000, 1000, 1000, 1000, 0o22, false⟩

/-- The empty file system seen by the user. -/
def guestWorld : World := emptyBoot.setProc init guest

theorem guest_plain : Plain guest ⟨false, 1000, 1000⟩ :=
  ⟨rfl, rfl, rfl, rfl, by decide, rfl⟩

/-- `access("/", W_OK)` tells a user that the root directory of somebody else can be written. -/
theorem access_grants_others :
    ∃ t code w' locked',
      flagSearch 0 (guestWorld.procs init) atFdcwd 2 ⟨guestWorld.nodes, unlocked⟩ [slash] =
        .ok (.ok rootIno, t) ∧
      faccess 2 guestWorld unlocked init ⟨false, 1000, 1000⟩ [slash] atFdcwd 2 0 =
        .ok (code, w', locked') ∧
      ¬(code = 0 ↔ permission (guestWorld.procs init) (t.nodes rootIno) 2 = true) := by
  have search : (flagSearch 0 (guestWorld.procs init) atFdcwd 2 ⟨guestWorld.nodes, unlocked⟩
      [slash]).toOption.any (fun r => r.1.toOption = some rootIno ∧
        permission (guestWorld.procs init) (r.2.nodes rootIno) 2 = false) = true := by
    decide +kernel
  have returns : (faccess 2 guestWorld unlocked init ⟨false, 1000, 1000⟩ [slash] atFdcwd 2
      0).toOption.any (fun r => r.1 = 0) = true := by
    decide +kernel
  obtain ⟨⟨found, t⟩, searched, test⟩ := Except.exists_of_any search
  obtain ⟨is_root, refused⟩ := of_decide_eq_true test
  obtain ⟨⟨code, w', locked'⟩, run, zero⟩ := Except.exists_of_any returns
  cases found with
  | error e => cases is_root
  | ok i =>
      cases Option.some.inj is_root
      refine ⟨t, code, w', locked', searched, run, ?_⟩
      have granted : code = 0 := of_decide_eq_true zero
      have denied : permission (guestWorld.procs init) (t.nodes rootIno) 2 = false := refused
      rw [granted, denied]
      decide

/-- `access("/d", R_OK)` for a file of somebody else that all may read is granted by both. -/
theorem access_agrees_file :
    ∃ v, sysMknodat emptyBoot (fun _ => false) init slashD atFdcwd 0o100644 0 = .ok (0, v) ∧
      ∃ t code w' locked',
        flagSearch 0 guest atFdcwd 2 ⟨v.nodes, unlocked⟩ slashD = .ok (.ok 2, t) ∧
        (t.nodes 2).type = .file ∧
        faccess 2 (v.setProc init guest) unlocked init ⟨false, 1000, 1000⟩ slashD atFdcwd 4 0 =
          .ok (code, w', locked') ∧
        (code = 0 ↔ permission guest (t.nodes 2) 4 = true) := by
  have made : (sysMknodat emptyBoot (fun _ => false) init slashD atFdcwd 0o100644 0).toOption.any
      (fun r => r.1 = 0 ∧
        (flagSearch 0 guest atFdcwd 2 ⟨r.2.nodes, unlocked⟩ slashD).toOption.any (fun q =>
          q.1.toOption = some 2 ∧ (q.2.nodes 2).type = .file ∧
            classMode guest (q.2.nodes 2) &&& 4 = 4) ∧
        (faccess 2 (r.2.setProc init guest) unlocked init ⟨false, 1000, 1000⟩ slashD atFdcwd 4
          0).toOption.any (fun _ => true)) = true := by
    decide +kernel
  obtain ⟨⟨zero, v⟩, makes, test⟩ := Except.exists_of_any made
  obtain ⟨rfl, search, returns⟩ := of_decide_eq_true test
  obtain ⟨⟨found, t⟩, searched, test⟩ := Except.exists_of_any search
  obtain ⟨is_file, type, granted⟩ := of_decide_eq_true test
  obtain ⟨⟨code, w', locked'⟩, run, -⟩ := Except.exists_of_any returns
  cases found with
  | error e => cases is_file
  | ok i =>
      cases Option.some.inj is_file
      have at_init : (v.setProc init guest).procs init = guest := by
        simp only [World.setProc, Function.update_self]
      have plain : Plain ((v.setProc init guest).procs init) ⟨false, 1000, 1000⟩ :=
        at_init ▸ guest_plain
      have searched' : flagSearch 0 ((v.setProc init guest).procs init) atFdcwd 2
          ⟨(v.setProc init guest).nodes, unlocked⟩ slashD = .ok (.ok 2, t) := by
        rw [at_init]
        exact searched
      have agrees := (access_agrees_iff plain (by decide) (by decide) searched' run).mpr
        (Or.inl (by rw [at_init]; exact granted))
      rw [at_init] at agrees
      exact ⟨v, makes, t, code, w', locked', searched, type, run, agrees⟩

end Dir
end Xv6Duo
