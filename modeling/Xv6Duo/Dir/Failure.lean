import Xv6Duo.Dir.Unlink

/-!
# Failures of `create`

Why `create` fails, how it tells so, and what `fileopen`, `sys_mkdirat` and `sys_mknodat` make of
it.
-/

namespace Xv6Duo
namespace Dir

open Follow

variable {t u : Nodes} {base : Nat → Nat} {held : Multiset Nat}

/-- Why `create` fails. -/
inductive Cause
  /-- There is no directory for the last name. -/
  | noParent
  /-- The directory may not be searched. -/
  | noSearch
  /-- The name is that of another inode. -/
  | present
  /-- No inode is free. -/
  | noInode
  /-- An entry cannot be written. -/
  | noRoom
  deriving DecidableEq

/-- `create` finds no room for an entry that it makes. -/
def NoRoom (t : Nodes) (env : Env) (dp ip : Nat) (type : FileType) : Prop :=
  (type = .dir ∧ env ip = true) ∨ Full (env dp) (t dp)

instance (t : Nodes) (env : Env) (dp ip : Nat) (type : FileType) :
    Decidable (NoRoom t env dp ip type) :=
  inferInstanceAs (Decidable ((type = .dir ∧ env ip = true) ∨
    (env dp ∧ (t dp).entries.all (·.inum ≠ 0))))

/-- Why `create` fails, if it does. -/
def cause (t : Nodes) (env : Env) (p : Proc) (path : Path) (dirfd : Int)
    (type : FileType) : Option Cause :=
  match parentOf t p path dirfd with
  | none => some .noParent
  | some (dp, name) =>
      if permission p (t dp) mayExec = false then some .noSearch
      else match findEntry (t dp).entries name with
        | some k =>
            let ip := inumAt (t dp).entries k
            if type = .file ∧ ((t ip).type = .file ∨ (t ip).type = .device) then none
            else some .present
        | none => match freeInode t with
          | none => some .noInode
          | some ip => if NoRoom t env dp ip type then some .noRoom else none

/-- How `create` tells that it has failed. -/
inductive Tells : Option Cause → Created → Prop
  /-- It has not failed. -/
  | inode (ip : Nat) : Tells none (.inode ip)
  /-- An entry cannot be written. -/
  | null : Tells (some .noRoom) .null
  /-- There is another reason. -/
  | errno {why : Cause} {code : Int} (other : why ≠ .noRoom) (negative : code < 0) :
      Tells (some why) (.errno code)

/-- A name that is not there is entered unless the directory is full. -/
theorem dirlink_done {full done : Bool} {dp inum : Nat} {name : Path} {type : FileType}
    (dir : (t dp).type = .dir) (absent : findEntry (t dp).entries name = none)
    (run : dirlink t full dp name inum type = .ok (done, u)) : done = false ↔ Full full (t dp) := by
  cases Classical.em (Full full (t dp)) with
  | inl is_full =>
      rw [dirlink_full dir absent is_full] at run
      obtain ⟨rfl, -⟩ := Prod.mk.inj (Except.ok.inj run)
      exact iff_of_true rfl is_full
  | inr room =>
      rw [dirlink_room dir absent room] at run
      obtain ⟨rfl, -⟩ := Prod.mk.inj (Except.ok.inj run)
      exact iff_of_false (by decide) room

/-- The entries of a new inode are made unless there is no room. -/
theorem linkNew_done {env : Env} {dp ip : Nat} {name : Path} {type : FileType} {done : Bool}
    (apart : ip ≠ dp) (dir : (t dp).type = .dir)
    (absent : findEntry (t dp).entries name = none) (new : (t ip).entries = [])
    (typed : (t ip).type = type) (run : linkNew t env dp name ip type = .ok (done, u)) :
    done = false ↔ NoRoom t env dp ip type := by
  rw [linkNew] at run
  cases Decidable.em (type = .dir) with
  | inl is_dir =>
      subst is_dir
      have no_dot : findEntry (t ip).entries dot = none := by
        rw [new]
        rfl
      rw [if_pos rfl] at run
      cases room_ip : env ip with
      | true =>
          have full : Full (env ip) (t ip) := ⟨room_ip, by rw [new]; rfl⟩
          rw [dirlink_full typed no_dot full] at run
          obtain ⟨rfl, -⟩ := Prod.mk.inj (Except.ok.inj run)
          exact iff_of_true rfl (Or.inl ⟨rfl, room_ip⟩)
      | false =>
          have room (n : Node) : ¬Full false n := fun full => Bool.false_ne_true full.1
          have no_ip : NoRoom t env dp ip .dir ↔ Full (env dp) (t dp) := by
            refine or_iff_right fun no_room => ?_
            rw [room_ip] at no_room
            cases no_room.2
          rw [no_ip]
          rw [room_ip, dirlink_room typed no_dot (room _), new] at run
          simp only [Except.ok_bind, not_true_eq_false, if_false] at run
          generalize one_eq : Function.update t ip
            { t ip with entries := placeEntry [] ⟨ip, .dir, dot.take dirSiz⟩ } = one at run
          have one_ip : one ip = { t ip with entries := [⟨ip, .dir, dot⟩] } := by
            rw [← one_eq, Function.update_self]
            rfl
          have one_dp : one dp = t dp := by rw [← one_eq, Function.update_of_ne apart.symm]
          have no_dotdot : findEntry (one ip).entries dotdot = none := by
            rw [one_ip]
            simp [findEntry, dot, dotdot]
          rw [dirlink_room (by rw [one_ip]; exact typed) no_dotdot (room _)] at run
          simp only [Except.ok_bind, not_true_eq_false, if_false] at run
          generalize two_eq : Function.update one ip _ = two at run
          have two_dp : two dp = t dp := by
            rw [← two_eq, Function.update_of_ne apart.symm, one_dp]
          rw [← two_dp] at dir absent ⊢
          exact dirlink_done dir absent run
  | inr not_dir =>
      rw [if_neg not_dir] at run
      have no_dir : NoRoom t env dp ip type ↔ Full (env dp) (t dp) :=
        or_iff_right fun room => not_dir room.1
      rw [no_dir]
      exact dirlink_done dir absent run

theorem iget_other (t : Nodes) {i j : Nat} (differ : j ≠ i) : iget t i j = t j := by
  rw [iget]
  split <;> rw [Function.update_of_ne differ]

/-- The part of `create` behind the allocation fails if there is no room. -/
theorem createNew_tells {env : Env} {p : Proc} {dp ip : Nat} {name : Path} {type : FileType}
    {major minor : UInt16} {mode : UInt32} {made : Created} (apart : ip ≠ dp)
    (dir : (t dp).type = .dir) (absent : findEntry (t dp).entries name = none)
    (new : (t ip).entries = [])
    (run : createNew t env p dp name ip type major minor mode = .ok (made, u)) :
    Tells (if NoRoom t env dp ip type then some .noRoom else none) made := by
  unfold createNew at run
  obtain ⟨x, lock, run⟩ := Except.bind_eq_ok.mp run
  have same := (ilock_spec lock).1
  generalize at_ip : ({ x ip with
    major := major, minor := minor, nlink := 1, mode := mode &&& ~~~p.umask, type := type,
    uid := p.uid, gid := p.gid } : Node) = n at run
  obtain ⟨⟨done, y⟩, links, run⟩ := Except.bind_eq_ok.mp run
  have at_dp : Function.update x ip n dp = x dp := Function.update_of_ne apart.symm _ _
  have entries : (Function.update x ip n dp).entries = (t dp).entries := by
    rw [at_dp, (same dp).entries]
  have room : NoRoom (Function.update x ip n) env dp ip type ↔ NoRoom t env dp ip type := by
    unfold NoRoom Full
    rw [entries]
  have fails := linkNew_done apart (by rw [at_dp, (same dp).type, dir])
    (by rw [entries, absent]) (by rw [Function.update_self, ← at_ip, (same ip).entries, new])
    (by rw [Function.update_self, ← at_ip]) links
  rw [room] at fails
  cases done with
  | true =>
      rw [if_neg (fun no_room => Bool.noConfusion (fails.mpr no_room))]
      obtain ⟨rfl, -⟩ := Prod.mk.inj (Except.ok.inj run)
      exact Tells.inode ip
  | false =>
      rw [if_pos (fails.mp rfl)]
      obtain ⟨rfl, -⟩ := Prod.mk.inj (Except.ok.inj run)
      exact Tells.null

/-- `create` fails for a cause in the state before it. -/
theorem create_tells {env : Env} {p : Proc} {path : Path} {dirfd : Int}
    {type : FileType} {major minor : UInt16} {mode : UInt32} {made : Created}
    (steady : Steady t base 0) (refers : ∀ i, p.refers i → 0 < base i)
    (run : create t env p path dirfd type major minor mode = .ok (made, u)) :
    Tells (cause t env p path dirfd type) made := by
  unfold create at run
  obtain ⟨⟨answer, s⟩, walk, run⟩ := Except.bind_eq_ok.mp run
  obtain ⟨rfl, agrees_s, steady_s, -⟩ := nameiparent_answers steady refers walk
  unfold cause
  cases parent : parentOf t p path dirfd with
  | none =>
      rw [parent] at run
      obtain ⟨rfl, -⟩ := Prod.mk.inj (Except.ok.inj run)
      exact Tells.errno (by decide) (by decide)
  | some found =>
      obtain ⟨dp, name⟩ := found
      rw [parent] at run steady_s
      obtain ⟨x, lock, run⟩ := Except.bind_eq_ok.mp run
      obtain ⟨agrees_x, steady_x, -⟩ := steady_s.locks (Multiset.mem_cons_self dp 0) lock
      change Steady x base (dp ::ₘ 0) at steady_x
      have agrees := agrees_s.trans agrees_x
      have permitted : permission p (x dp) mayExec = permission p (t dp) mayExec := by
        rw [agrees dp]
        rfl
      simp only [permitted] at run ⊢
      split at run
      · next refused =>
          rw [if_pos refused]
          obtain ⟨rfl, -⟩ := Prod.mk.inj (Except.ok.inj run)
          exact Tells.errno (by decide) (by decide)
      · next granted =>
          rw [if_neg granted]
          simp only [Except.bind_eq_ok] at run
          obtain ⟨⟨hit, y⟩, look, run⟩ := run
          obtain ⟨-, ⟨rfl, rfl, absent⟩ | ⟨k, rfl, rfl, present⟩⟩ := dirlookup_spec look
          · rw [← agrees.entries, absent]
            have same_free : freeInode y = freeInode t := by
              unfold freeInode
              simp only [agrees.type]
            dsimp only at run ⊢
            unfold ialloc at run
            rw [same_free] at run
            cases pick : freeInode t with
            | none =>
                rw [pick] at run
                obtain ⟨rfl, -⟩ := Prod.mk.inj (Except.ok.inj run)
                exact Tells.errno (by decide) (by decide)
            | some ip =>
                rw [pick] at run
                have apart : ip ≠ dp := by
                  intro same
                  have dir := parentOf_dir parent
                  rw [← same, (freeInode_some pick).1] at dir
                  cases dir
                dsimp only at run
                generalize made_eq : iget (Function.update y ip _) ip = z at run
                have at_dp : z dp = y dp := by
                  rw [← made_eq, iget_other _ apart.symm, Function.update_of_ne apart.symm]
                have told := createNew_tells apart (by rw [at_dp, agrees.type, parentOf_dir parent])
                  (by rw [at_dp, absent])
                  (by rw [← made_eq, (iget_same _ ip ip).entries, Function.update_self]) run
                have room : NoRoom z env dp ip type ↔ NoRoom t env dp ip type := by
                  unfold NoRoom Full
                  rw [at_dp, agrees.entries]
                rwa [if_congr room rfl rfl] at told
          · rw [agrees.entries] at present
            rw [agrees.entries] at run
            rw [present]
            simp only [Except.bind_eq_ok] at run
            obtain ⟨y, lock_ip, run⟩ := run
            obtain ⟨agrees_y, steady_y⟩ := steady_x.iget (inumAt (t dp).entries k)
            rw [Multiset.cons_swap] at steady_y
            obtain ⟨agrees_z, steady_z⟩ := steady_y.iput
            obtain ⟨agrees_w, -⟩ := steady_z.locks (Multiset.mem_cons_self _ _) lock_ip
            have same_type := (agrees.trans (agrees_y.trans (agrees_z.trans agrees_w))).type
              (inumAt (t dp).entries k)
            rw [same_type] at run
            dsimp only
            split at run
            · next file =>
                rw [if_pos file]
                obtain ⟨rfl, -⟩ := Prod.mk.inj (Except.ok.inj run)
                exact Tells.inode _
            · next other =>
                rw [if_neg other]
                obtain ⟨rfl, -⟩ := Prod.mk.inj (Except.ok.inj run)
                exact Tells.errno (by decide) (by decide)

/-! ## The callers -/

/-- `create` returns no inode. -/
def Created.Failed (made : Created) : Prop := ∀ ip, made ≠ .inode ip

/-- A call returns a negative number, and there is no new descriptor. -/
def Reported (w : World) (outcome : Except Fault (Int × World)) : Prop :=
  ∃ code w', outcome = .ok (code, w') ∧ code < 0 ∧ w'.procs = w.procs ∧ w'.files = w.files

theorem reported_ok {w : World} {code : Int} {nodes : Nodes} :
    Reported w (.ok (code, { w with nodes := nodes })) ↔ code < 0 := by
  constructor
  · rintro ⟨code', w', run, negative, -⟩
    rwa [← (Prod.mk.inj (Except.ok.inj run)).1] at negative
  · exact fun negative => ⟨code, _, rfl, negative, rfl, rfl⟩

theorem not_reported_error {w : World} (fault : Fault) : ¬Reported w (.error fault) := by
  rintro ⟨code, w', run, -⟩
  cases run

theorem Agrees.cause (agrees : Agrees t u) (env : Env) (p : Proc) (path : Path)
    (dirfd : Int) (type : FileType) :
    cause u env p path dirfd type = cause t env p path dirfd type := by
  have parent : parentOf u p path dirfd = parentOf t p path dirfd := by
    unfold parentOf
    exact congrArg _ (funext fun start => agrees.found true start [] (components path))
  have permitted (dp : Nat) : permission p (u dp) mayExec = permission p (t dp) mayExec := by
    rw [agrees dp]
    rfl
  have same_free : freeInode u = freeInode t := by
    unfold freeInode
    simp only [agrees.type]
  have room (dp ip : Nat) : NoRoom u env dp ip type ↔ NoRoom t env dp ip type := by
    unfold NoRoom Full
    rw [agrees.entries]
  unfold Dir.cause
  simp only [parent, permitted, same_free, agrees.entries, agrees.type, room]

/-- A search that finds nothing leaves the inodes as they are. -/
theorem namei_none {p : Proc} {path : Path} {dirfd : Int}
    (steady : Steady t base held) (refers : ∀ i, p.refers i → 0 < base i)
    (run : namei t p path dirfd = .ok (none, u)) : Agrees t u ∧ Steady u base held := by
  have leads := namei_walk dirfd path steady refers
  rw [run] at leads
  cases walk : resolve t p dirfd path with
  | panics =>
      rw [walk] at leads
      obtain ⟨fault, failed⟩ := leads
      cases failed
  | missing =>
      rw [walk] at leads
      obtain ⟨x, same, agrees, steady_x⟩ := leads
      obtain ⟨-, rfl⟩ := Prod.mk.inj (Except.ok.inj same)
      exact ⟨agrees, steady_x⟩
  | found ip =>
      rw [walk] at leads
      obtain ⟨x, same, -⟩ := leads
      cases (Prod.mk.inj (Except.ok.inj same)).1

/-- When `create` fails, `sys_mkdirat` never reports it, `sys_mknodat` reports it unless an entry
could not be written, and `fileopen` only if an entry could not be written. -/
theorem create_failure_reported {w : World} {env : Env} {pid : Fin nproc} {path : Path}
    {dirfd : Int} (steady : Steady w.nodes base 0)
    (refers : ∀ i, (w.procs pid).refers i → 0 < base i) :
    (∀ mode made u, checkFdcwd (w.procs pid) path dirfd = .ok 0 →
      create w.nodes env (w.procs pid) path dirfd .dir 0 0 (mode ||| 0o40000) = .ok (made, u) →
      made.Failed → ¬Reported w (sysMkdirat w env pid path dirfd mode)) ∧
    (∀ (mode : UInt32) (dev : UInt64) type made u, checkFdcwd (w.procs pid) path dirfd = .ok 0 →
      typeOfMode mode = some type →
      create w.nodes env (w.procs pid) path dirfd type
        (if type = .device then ((dev >>> 8) &&& 0xFF).toUInt16 else 0)
        (if type = .device then (dev &&& 0xFF).toUInt16 else 0) mode = .ok (made, u) →
      made.Failed → (Reported w (sysMknodat w env pid path dirfd mode dev) ↔
        cause w.nodes env (w.procs pid) path dirfd type ≠ some .noRoom)) ∧
    (∀ fuel flags mode s made u, flags &&& oCreat ≠ 0 →
      namei w.nodes (w.procs pid) path dirfd = .ok (none, s) →
      create s env (w.procs pid) path dirfd .file 0 0 (mode ||| 0o100000) = .ok (made, u) →
      made.Failed → (Reported w (fileopen fuel w env pid path dirfd flags mode) ↔
        cause w.nodes env (w.procs pid) path dirfd .file = some .noRoom)) := by
  refine ⟨?_, ?_, ?_⟩
  · intro mode made u accepted run failed
    unfold sysMkdirat
    dsimp only
    rw [accepted, Except.ok_bind, if_neg (Int.lt_irrefl 0), run, Except.ok_bind]
    cases made with
    | inode ip => exact absurd rfl (failed ip)
    | null => exact fun reported => absurd (reported_ok.mp reported) (by decide)
    | errno code => exact not_reported_error _
  · intro mode dev type made u accepted typed run failed
    have told := create_tells steady refers run
    unfold sysMknodat
    dsimp only
    rw [accepted, Except.ok_bind, if_neg (Int.lt_irrefl 0), typed]
    dsimp only
    rw [run, Except.ok_bind]
    generalize cause w.nodes env (w.procs pid) path dirfd type = why at told
    cases told with
    | inode ip => exact absurd rfl (failed ip)
    | null => exact iff_of_false (not_reported_error _) fun other => other rfl
    | errno other negative =>
        exact iff_of_true (reported_ok.mpr negative) fun same => other (Option.some.inj same)
  · intro fuel flags mode s made u creates search run failed
    obtain ⟨agrees, steady_s⟩ := namei_none steady refers search
    have told := create_tells steady_s refers run
    rw [agrees.cause] at told
    unfold fileopen openInode
    dsimp only
    rw [if_pos creates, search, Except.ok_bind]
    dsimp only
    rw [run, Except.ok_bind]
    generalize cause w.nodes env (w.procs pid) path dirfd .file = why at told
    cases told with
    | inode ip => exact absurd rfl (failed ip)
    | null => exact iff_of_true (reported_ok.mpr (by decide)) rfl
    | errno other negative =>
        exact iff_of_false (not_reported_error _) fun same => other (Option.some.inj same)

/-- The path of a name below a directory that does not exist. -/
def slashDSlashD : Path := Mkfs.ascii ['/', 'd', '/', 'd']

/-- `mknod("/d/d")` without a directory `/d` is refused. -/
theorem mknod_failure_reported :
    ∃ made u, create emptyBoot.nodes (fun _ => false) (emptyBoot.procs init) slashDSlashD
      atFdcwd .file 0 0 0o100644 = .ok (made, u) ∧ made.Failed ∧
      Reported emptyBoot
        (sysMknodat emptyBoot (fun _ => false) init slashDSlashD atFdcwd 0o100644 0) := by
  obtain ⟨leak, rest⟩ := emptyBoot_rest
  obtain ⟨steady, refers⟩ := Steady.of_rest rest init
  have fails : (create emptyBoot.nodes (fun _ => false) (emptyBoot.procs init) slashDSlashD atFdcwd
      .file 0 0 0o100644).toOption.any (fun r => match r.1 with
        | .inode _ => false
        | _ => true) = true := by
    decide +kernel
  obtain ⟨⟨made, u⟩, run, test⟩ := Except.exists_of_any fails
  have failed : made.Failed := by
    rintro ip rfl
    exact Bool.false_ne_true test
  have missing : cause emptyBoot.nodes (fun _ => false) (emptyBoot.procs init) slashDSlashD atFdcwd
      .file = some .noParent := by
    decide +kernel
  refine ⟨made, u, run, failed, ((create_failure_reported steady refers).2.1 0o100644 0 .file made u
    (by decide) (by decide) run failed).mpr ?_⟩
  rw [missing]
  decide

/-- `mkdir("/d")` on a full card makes nothing and returns `0`. -/
theorem mkdir_failure_success :
    ∃ made u, create emptyBoot.nodes (fun _ => true) (emptyBoot.procs init) slashD atFdcwd .dir
        0 0 (0 ||| 0o40000) = .ok (made, u) ∧ made.Failed ∧
      ¬Reported emptyBoot (sysMkdirat emptyBoot (fun _ => true) init slashD atFdcwd 0) := by
  have fails : (create emptyBoot.nodes (fun _ => true) (emptyBoot.procs init) slashD atFdcwd
      .dir 0 0 (0 ||| 0o40000)).toOption.any (fun r => match r.1 with
        | .inode _ => false
        | _ => true) = true := by
    decide +kernel
  have returns : (sysMkdirat emptyBoot (fun _ => true) init slashD atFdcwd 0).toOption.any
      (fun r => r.1 = 0) = true := by
    decide +kernel
  obtain ⟨⟨made, u⟩, run, test⟩ := Except.exists_of_any fails
  obtain ⟨⟨code, w⟩, ends, zero⟩ := Except.exists_of_any returns
  have success : code = 0 := of_decide_eq_true zero
  refine ⟨made, u, run, ?_, ?_⟩
  · rintro ip rfl
    exact Bool.false_ne_true test
  · rintro ⟨code', w', same, negative, -⟩
    rw [ends] at same
    obtain ⟨rfl, -⟩ := Prod.mk.inj (Except.ok.inj same)
    rw [success] at negative
    exact absurd negative (by decide)

end Dir
end Xv6Duo
