import Xv6Duo.Process.Wait

/-!
# Moving a process to a group

`setpgid` of `kernel/proc.c`. It looks the process up, tests whether the caller may move it, and
looks for the group; the last two of its four phases use the caller where they mean the process and
the session where they mean the group.
-/

namespace Xv6Duo
namespace Process

/-- The process that `setpgid` finds for a process id. -/
def lookupPid (t : Table) (cp : Fin nproc) (pid : Int32) : Option (Fin nproc) :=
  if pid ≠ (t cp).pid then (List.finRange nproc).find? fun pp => (t pp).pid = pid else some cp

/-- `setpgid`. -/
def setpgid (t : Table) (cp : Fin nproc) (pid pgid : Int32) : Int × Table :=
  let pid := if pid = 0 then (t cp).pid else pid
  let pgid := if pgid = 0 then pid else pgid
  if pgid < 0 then (-einval, t)
  else
    match lookupPid t cp pid with
    | none => (-esrch, t)
    | some p =>
        if (t p).parent = some cp ∧ (t p).sid ≠ (t cp).sid then (-eperm, t)
        else if (t p).parent ≠ some cp ∧ p ≠ cp then (-esrch, t)
        -- A process of the session is looked for, not one of the group.
        else if pgid ≠ pid ∧ ¬∃ pp, (t pp).sid = (t cp).sid then
          (if (t p).parent = some cp then -eperm else -esrch, t)
        -- The caller is moved, not the process.
        else (0, Function.update t cp { t cp with pgid := pgid })

/-! ## What is promised -/

variable {t : Table} {cp : Fin nproc} {pid pgid : Int32}

/-- The process id that a call names. -/
def named (t : Table) (cp : Fin nproc) (pid : Int32) : Int32 := if pid = 0 then (t cp).pid else pid

/-- The group that a call asks for. -/
def asked (t : Table) (cp : Fin nproc) (pid pgid : Int32) : Int32 :=
  if pgid = 0 then named t cp pid else pgid

/-- Process ids name processes: they belong to one process each, and free slots have none. -/
structure Named (t : Table) (cp : Fin nproc) : Prop where
  /-- The caller is a process. -/
  caller : (t cp).pid ≠ 0
  /-- An id belongs to one process. -/
  unique : ∀ p q, (t p).pid = (t q).pid → (t p).pid ≠ 0 → p = q
  /-- Free slots have no id. -/
  unused : ∀ p, (t p).state = .unused → (t p).pid = 0

/-- The caller may move the process: it is the caller itself or a child in its session. -/
def Movable (t : Table) (cp p : Fin nproc) : Prop :=
  p = cp ∨ (t p).parent = some cp ∧ (t p).sid = (t cp).sid

/-- A process of the session of the caller belongs to the group. -/
def GroupExists (t : Table) (cp : Fin nproc) (group : Int32) : Prop :=
  ∃ q, (t q).state ≠ .unused ∧ (t q).sid = (t cp).sid ∧ (t q).pgid = group

/-- A call moves the process that it names to the group, or fails and moves none. -/
structure Moves (t : Table) (cp : Fin nproc) (pid group : Int32) (result : Int × Table) : Prop where
  /-- Success. -/
  done : result.1 = 0 → ∃ p, (t p).pid = pid ∧ Movable t cp p ∧ (result.2 p).pgid = group ∧
    (group ≠ pid → GroupExists t cp group) ∧ ∀ q, q ≠ p → (result.2 q).pgid = (t q).pgid
  /-- Failure. -/
  failed : result.1 ≠ 0 → ∀ q, (result.2 q).pgid = (t q).pgid

/-! ## What happens -/

theorem Named.named_ne (table : Named t cp) : named t cp pid ≠ 0 := by
  unfold named
  split
  · exact table.caller
  · next given => exact given

/-- The lookup finds the process with the id. -/
theorem Named.lookup (table : Named t cp) (id_ne : pid ≠ 0) (p : Fin nproc) :
    lookupPid t cp pid = some p ↔ (t p).pid = pid := by
  unfold lookupPid
  split
  · constructor
    · intro hit
      simpa using List.find?_some hit
    · intro same
      cases search : (List.finRange nproc).find? fun pp => (t pp).pid = pid with
      | none =>
          have absent := List.find?_eq_none.mp search p (List.mem_finRange p)
          simp [same] at absent
      | some q =>
          have hit : (t q).pid = pid := by simpa using List.find?_some search
          rw [table.unique q p (hit.trans same.symm) (by rwa [hit])]
  · next caller =>
      rw [not_not] at caller
      constructor
      · intro hit
        rw [← Option.some.inj hit, caller]
      · intro same
        rw [table.unique cp p (caller.symm.trans same.symm) table.caller]

theorem setpgid_eq (t : Table) (cp : Fin nproc) (pid pgid : Int32) :
    setpgid t cp pid pgid =
      if asked t cp pid pgid < 0 then (-einval, t)
      else match lookupPid t cp (named t cp pid) with
        | none => (-esrch, t)
        | some p =>
            if (t p).parent = some cp ∧ (t p).sid ≠ (t cp).sid then (-eperm, t)
            else if (t p).parent ≠ some cp ∧ p ≠ cp then (-esrch, t)
            else if asked t cp pid pgid ≠ named t cp pid ∧ ¬∃ pp, (t pp).sid = (t cp).sid then
              (if (t p).parent = some cp then -eperm else -esrch, t)
            else (0, Function.update t cp { t cp with pgid := asked t cp pid pgid }) :=
  rfl

/-- `setpgid` moves the caller when the named process may be moved. -/
theorem setpgid_movable (table : Named t cp) (positive : ¬asked t cp pid pgid < 0) {p : Fin nproc}
    (is_named : (t p).pid = named t cp pid) (movable : Movable t cp p) :
    setpgid t cp pid pgid =
      (0, Function.update t cp { t cp with pgid := asked t cp pid pgid }) := by
  have found := (table.lookup table.named_ne p).mpr is_named
  rw [setpgid_eq, if_neg positive, found]
  dsimp only
  rw [if_neg, if_neg, if_neg]
  · exact fun both => both.2 ⟨cp, rfl⟩
  · rintro ⟨other, differ⟩
    exact movable.elim differ fun child => other child.1
  · rintro ⟨child, session⟩
    rcases movable with rfl | both
    · exact session rfl
    · exact session both.2

/-- Otherwise it fails. -/
theorem setpgid_refused (table : Named t cp)
    (refused : asked t cp pid pgid < 0 ∨ ∀ p, (t p).pid = named t cp pid → ¬Movable t cp p) :
    (setpgid t cp pid pgid).1 ≠ 0 ∧ (setpgid t cp pid pgid).2 = t := by
  have einval_ne : -einval ≠ 0 := by decide
  have esrch_ne : -esrch ≠ 0 := by decide
  have eperm_ne : -eperm ≠ 0 := by decide
  rw [setpgid_eq]
  split
  · exact ⟨einval_ne, rfl⟩
  · next positive =>
      have none_movable := refused.resolve_left positive
      cases found : lookupPid t cp (named t cp pid) with
      | none => exact ⟨esrch_ne, rfl⟩
      | some p =>
          have not_movable := none_movable p ((table.lookup table.named_ne p).mp found)
          dsimp only
          split
          · exact ⟨eperm_ne, rfl⟩
          · next session =>
              rw [if_pos]
              · exact ⟨esrch_ne, rfl⟩
              · constructor
                · intro child
                  refine not_movable (Or.inr ⟨child, ?_⟩)
                  by_contra differ
                  exact session ⟨child, differ⟩
                · exact fun same => not_movable (Or.inl same)

/-! ## When the promise is kept -/

/-- What must hold of a process that may be moved: if it is the caller, the group exists or is new;
else it and the caller are in the group already. -/
def Suits (t : Table) (cp p : Fin nproc) (pid group : Int32) : Prop :=
  if p = cp then group ≠ pid → GroupExists t cp group
  else (t p).pgid = group ∧ (t cp).pgid = group

theorem moves_of_refused {group : Int32} {result : Int × Table} (code : result.1 ≠ 0)
    (same : result.2 = t) : Moves t cp pid group result where
  done zero := absurd zero code
  failed _ q := by rw [same]

theorem pgid_update (t : Table) (cp : Fin nproc) (group : Int32) (q : Fin nproc) :
    (Function.update t cp { t cp with pgid := group } q).pgid =
      if q = cp then group else (t q).pgid := by
  split
  · next same => rw [same, Function.update_self]
  · next differ => rw [Function.update_of_ne differ]

/-- The caller has been moved in place of the process. -/
theorem moves_iff (table : Named t cp) {group : Int32} (id_ne : pid ≠ 0) {p : Fin nproc}
    (is_named : (t p).pid = pid) (movable : Movable t cp p) :
    Moves t cp pid group (0, Function.update t cp { t cp with pgid := group }) ↔
      Suits t cp p pid group := by
  have used : (t cp).state ≠ .unused := fun unused => table.caller (table.unused cp unused)
  rw [Suits]
  constructor
  · rintro ⟨done, -⟩
    obtain ⟨q, is_q, -, moved, exists_group, others⟩ := done rfl
    obtain rfl : q = p := table.unique q p (is_q.trans is_named.symm) (by rwa [is_q])
    simp only [pgid_update] at moved others
    split
    · exact exists_group
    · next differ =>
        have caller := others cp (Ne.symm differ)
        rw [if_neg differ] at moved
        rw [if_pos rfl] at caller
        exact ⟨moved, caller.symm⟩
  · intro suits
    refine ⟨fun _ => ⟨p, is_named, movable, ?_⟩, fun no => absurd rfl no⟩
    simp only [pgid_update]
    split at suits
    · next same =>
        subst same
        exact ⟨if_pos rfl, suits, fun q differ => if_neg differ⟩
    · next differ =>
        rw [if_neg differ]
        refine ⟨suits.1, fun _ => ⟨cp, used, rfl, suits.2⟩, fun q _ => ?_⟩
        split
        · next same => rw [same, suits.2]
        · rfl

/-- `setpgid` moves the process that it names and no other if and only if every process that it may
move suits the group, or the group is negative. -/
theorem setpgid_exact_iff (table : Named t cp) (pid pgid : Int32) :
    Moves t cp (named t cp pid) (asked t cp pid pgid) (setpgid t cp pid pgid) ↔
      (0 ≤ asked t cp pid pgid → ∀ p, (t p).pid = named t cp pid → Movable t cp p →
        Suits t cp p (named t cp pid) (asked t cp pid pgid)) := by
  rcases Classical.em (asked t cp pid pgid < 0 ∨
    ∀ p, (t p).pid = named t cp pid → ¬Movable t cp p) with refused | allowed
  · obtain ⟨code, same⟩ := setpgid_refused table refused
    refine iff_of_true (moves_of_refused code same) fun positive p is_named movable => ?_
    rcases refused with negative | none_movable
    · exact absurd negative (Int32.not_lt.mpr positive)
    · exact absurd movable (none_movable p is_named)
  · obtain ⟨positive, some_movable⟩ := not_or.mp allowed
    push Not at some_movable
    obtain ⟨p, is_named, movable⟩ := some_movable
    rw [setpgid_movable table positive is_named movable,
      moves_iff table table.named_ne is_named movable]
    constructor
    · intro suits _ q is_q _
      obtain rfl : q = p := table.unique q p (is_q.trans is_named.symm)
        (by rw [is_q]; exact table.named_ne)
      exact suits
    · exact fun all => all (Int32.not_lt.mp positive) p is_named movable

/-- A shell with a child in its own session and group. -/
def jobTable : Table := fun pp =>
  if pp.val = 0 then { idleProc with state := .running, pid := 1, pgid := 1, sid := 1 }
  else if pp.val = 1 then
    { idleProc with
      state := .runnable, pid := 2, pgid := 1, sid := 1, parent := some ⟨0, nproc_pos⟩ }
  else idleProc

/-- The shell. -/
def jobShell : Fin nproc := ⟨0, nproc_pos⟩

theorem jobTable_named : Named jobTable jobShell where
  caller := by decide
  unique := by decide +kernel
  unused := by decide +kernel

/-- `setpgid(0, 0)` puts the shell into a group of its own. -/
theorem jobShell_moves :
    Moves jobTable jobShell (named jobTable jobShell 0) (asked jobTable jobShell 0 0)
      (setpgid jobTable jobShell 0 0) := by
  refine (setpgid_exact_iff jobTable_named 0 0).mpr fun _ p is_named movable => ?_
  rcases movable with rfl | child
  · exact fun differ => absurd rfl differ
  · have is_shell : p = jobShell :=
      jobTable_named.unique p jobShell is_named (by rw [is_named]; decide)
    subst is_shell
    exact absurd child.1 (by decide)

/-- `setpgid(2, 0)` moves the shell to the group of its child and leaves the child where it is. -/
theorem jobShell_moves_itself :
    (setpgid jobTable jobShell 2 0).1 = 0 ∧
      ((setpgid jobTable jobShell 2 0).2 jobShell).pgid = 2 ∧
      ((setpgid jobTable jobShell 2 0).2 ⟨1, by decide⟩).pgid = 1 ∧
      ¬Moves jobTable jobShell (named jobTable jobShell 2) (asked jobTable jobShell 2 0)
        (setpgid jobTable jobShell 2 0) := by
  have run : setpgid jobTable jobShell 2 0 =
      (0, Function.update jobTable jobShell { jobTable jobShell with pgid := 2 }) :=
    @setpgid_movable jobTable jobShell 2 0 jobTable_named (by decide) ⟨1, by decide⟩ rfl
      (Or.inr ⟨rfl, rfl⟩)
  rw [run]
  refine ⟨rfl, rfl, rfl, fun moves => ?_⟩
  have suits := (@moves_iff jobTable jobShell 2 jobTable_named 2 (by decide) ⟨1, by decide⟩ rfl
    (Or.inr ⟨rfl, rfl⟩)).mp moves
  rw [Suits, if_neg (by decide)] at suits
  exact absurd suits.1 (by decide)

end Process
end Xv6Duo
