import Xv6Duo.Dir.Pass
import Xv6Duo.Dir.Runs

/-!
# Calls that follow links without end

A call that follows links returns if and only if it does not search at all or its search comes to an
end; it holds no lock then. A user makes a link that leads to itself with one call.
-/

namespace Xv6Duo
namespace Dir
namespace Follow

/-! ## The search of a call -/

/-- How a call follows links. -/
def Call.way (p : Proc) : Call → Way
  | .fileopen _ dirfd _ => ⟨511, true, p, dirfd⟩
  | .fileget _ => ⟨511, true, p, atFdcwd⟩
  | .filechown _ _ dirfd _ _ flags => ⟨3, flags &&& atSymlinkNofollow = 0, p, dirfd⟩
  | .faccess _ _ dirfd _ flags => ⟨3, flags &&& atSymlinkNofollow = 0, p, dirfd⟩
  | .fstatat dirfd _ flags _ => ⟨3, flags &&& atSymlinkNofollow = 0, p, dirfd⟩

/-- The types that a call refuses. -/
def Call.refuses : Call → FileType → Bool
  | .fileopen _ _ flags, type => type = .dir ∧ flags &&& oAccmode ≠ 0
  | _, _ => false

/-- The path of a call. -/
def Call.path : Call → Path
  | .fileopen path _ _ => path
  | .fileget path => path
  | .filechown _ path _ _ _ _ => path
  | .faccess _ path _ _ _ => path
  | .fstatat _ path _ _ => path

/-- The call answers before its loop. -/
def Call.Early (p : Proc) : Call → Prop
  | .faccess _ _ _ mode _ => mode &&& ~~~7 ≠ 0
  | .fstatat dirfd path flags _ =>
      (flags ≠ 0 ∧ flags &&& ~~~atSymlinkNofollow ≠ 0) ∨
        ∃ ret, checkFdcwd p path dirfd = .ok ret ∧ ret < 0
  | _ => False

theorem Call.way_p (call : Call) (p : Proc) : (call.way p).p = p := by
  cases call with
  | fileopen => rfl
  | fileget => rfl
  | filechown => rfl
  | faccess => rfl
  | fstatat => rfl

theorem Call.refuses_symlink (call : Call) : call.refuses .symlink = false := by
  cases call with
  | fileopen => rfl
  | fileget => rfl
  | filechown => rfl
  | faccess => rfl
  | fstatat => rfl

/-- A call that returns has answered at once, or has come to the end of its search. -/
theorem search_of_perform {fuel : Nat} {w : World} {pid : Fin nproc} {call : Call}
    {result : Int × World × Locks} (run : perform fuel w pid call = .ok result) :
    call.Early (w.procs pid) ∨ ∃ answer x,
      (call.way (w.procs pid)).search w.nodes call.refuses fuel call.path = .ok (answer, x) := by
  cases call with
  | fileopen path dirfd flags =>
      obtain ⟨⟨answer, x⟩, searched, -⟩ := Except.bind_eq_ok.mp run
      exact Or.inr ⟨answer, x, searched⟩
  | fileget path =>
      obtain ⟨⟨answer, x⟩, searched, -⟩ := Except.bind_eq_ok.mp run
      exact Or.inr ⟨answer, x, searched⟩
  | filechown c path dirfd owner group flags =>
      obtain ⟨⟨answer, x⟩, searched, -⟩ := Except.bind_eq_ok.mp run
      exact Or.inr ⟨answer, x, searched⟩
  | faccess c path dirfd mode flags =>
      rw [perform, faccess] at run
      split at run
      · next bad => exact Or.inl bad
      · obtain ⟨⟨answer, x⟩, searched, -⟩ := Except.bind_eq_ok.mp run
        exact Or.inr ⟨answer, x, searched⟩
  | fstatat dirfd path flags copied =>
      simp only [perform, sysFstatat] at run
      split at run
      · next bad => exact Or.inl (Or.inl bad)
      · obtain ⟨ret, checked, run⟩ := Except.bind_eq_ok.mp run
        split at run
        · next refused => exact Or.inl (Or.inr ⟨ret, checked, refused⟩)
        · obtain ⟨⟨answer, x⟩, searched, -⟩ := Except.bind_eq_ok.mp run
          exact Or.inr ⟨answer, x, searched⟩

variable {s : Way} {t : Nodes} {base : Nat → Nat} {refuses : FileType → Bool} {path : Path}
  {x : Table}

/-- A search that fails leaves no lock. -/
theorem Way.Answer.unlocked {code : Int}
    (given : Way.Answer s t base refuses path (.error code) x) : x.locked = unlocked := by
  cases given with
  | missing => rfl
  | refused => rfl
  | empty => rfl

/-- A search that finds an inode leaves it locked and in use. -/
theorem Way.Answer.locking {i : Nat} (given : Way.Answer s t base refuses path (.ok i) x) :
    ∃ u, x = ⟨u, locking i⟩ ∧ (u i).type ≠ .free ∧ 0 < (u i).ref := by
  cases given with
  | @found u _ leads allocated accepted last agrees steady =>
      refine ⟨u, rfl, ?_, steady.ref_pos (Multiset.mem_cons_self i 0)⟩
      rw [agrees.type]
      exact allocated

/-- A call that ends its search without an inode returns. -/
theorem finish_error {w : World} {code : Int}
    (given : Way.Answer s t base refuses path (.error code) x) :
    ∃ code' w', finish w x code = .ok (code', w', unlocked) :=
  ⟨code, { w with nodes := x.nodes }, by rw [finish, given.unlocked]⟩

/-- `check_fdcwd` reads an open file if `namex` does. -/
theorem checkFdcwd_ok {p : Proc} {path : Path} {dirfd : Int} {start : Nat}
    (starts : startOf p path dirfd = some start) : ∃ ret, checkFdcwd p path dirfd = .ok ret := by
  unfold checkFdcwd
  split
  · next relative =>
      rw [startOf, if_neg relative.1, Proc.dirAt, if_neg relative.2] at starts
      cases file : p.fileAt dirfd with
      | error fault =>
          rw [file] at starts
          cases starts
      | ok f =>
          cases f with
          | none => exact ⟨_, rfl⟩
          | some f => exact ⟨_, rfl⟩
  · exact ⟨0, rfl⟩

/-- A search that returns has started somewhere. -/
theorem Way.exists_start {fuel : Nat} {t : Nodes} {path : Path} {answer : Except Int Nat}
    (searched : s.search t refuses fuel path = .ok (answer, x)) :
    ∃ start, startOf s.p path s.dirfd = some start := by
  cases fuel with
  | zero => cases searched
  | succ fuel =>
      obtain ⟨found, walked, -⟩ := Except.bind_eq_ok.mp searched
      rw [Table.namei_unlocked] at walked
      obtain ⟨found, walked, -⟩ := Except.bind_eq_ok.mp walked
      obtain ⟨found, walked, -⟩ := Except.bind_eq_ok.mp walked
      exact Dir.exists_start walked

theorem chown_ref (c : Creds) (ip : Node) (owner group : UInt32) :
    (chown c ip owner group).2.ref = ip.ref := by
  simp only [chown]
  split_ifs
  all_goals rfl

/-- A call returns without a lock when its search comes to an end. -/
theorem perform_of_search {fuel : Nat} {w : World} {pid : Fin nproc} {call : Call}
    {answer : Except Int Nat}
    (searched : (call.way (w.procs pid)).search w.nodes call.refuses fuel call.path =
      .ok (answer, x))
    (given : Way.Answer (call.way (w.procs pid)) w.nodes base call.refuses path answer x) :
    ∃ code w', perform fuel w pid call = .ok (code, w', unlocked) := by
  cases call with
  | fileopen name dirfd flags =>
      have opened : openSearch flags (w.procs pid) dirfd fuel ⟨w.nodes, unlocked⟩ name =
          .ok (answer, x) := searched
      simp only [perform, fileopen, opened, Except.ok_bind]
      cases answer with
      | error code => exact finish_error given
      | ok i =>
          obtain ⟨u, rfl, -, used⟩ := given.locking
          simp only [Table.iunlockput_locking used, Table.iunlock_locking used, Except.ok_bind]
          split
          · exact ⟨_, _, rfl⟩
          · split
            · exact ⟨_, _, rfl⟩
            · exact ⟨_, _, rfl⟩
  | fileget name =>
      have opened : getSearch (w.procs pid) fuel ⟨w.nodes, unlocked⟩ name = .ok (answer, x) :=
        searched
      simp only [perform, fileget, opened, Except.ok_bind]
      cases answer with
      | error code => exact finish_error given
      | ok i =>
          obtain ⟨u, rfl, -, used⟩ := given.locking
          simp only [Table.iunlockput_locking used, Table.iunlock_locking used, Except.ok_bind]
          split
          · exact ⟨_, _, rfl⟩
          · split
            · exact ⟨_, _, rfl⟩
            · split
              · exact ⟨_, _, rfl⟩
              · exact ⟨_, _, rfl⟩
  | filechown c name dirfd owner group flags =>
      have opened : flagSearch flags (w.procs pid) dirfd fuel ⟨w.nodes, unlocked⟩ name =
          .ok (answer, x) := searched
      simp only [perform, filechown, opened, Except.ok_bind]
      cases answer with
      | error code => exact finish_error given
      | ok i =>
          obtain ⟨u, rfl, -, used⟩ := given.locking
          have used_chown : 0 < (Function.update u i (chown c (u i) owner group).2 i).ref := by
            rw [Function.update_self, chown_ref]
            exact used
          simp only [Table.iunlockput_locking used_chown, Except.ok_bind]
          exact ⟨_, _, rfl⟩
  | faccess c name dirfd mode flags =>
      have opened : flagSearch flags (w.procs pid) dirfd fuel ⟨w.nodes, unlocked⟩ name =
          .ok (answer, x) := searched
      simp only [perform, faccess, opened, Except.ok_bind]
      split
      · exact ⟨_, _, rfl⟩
      · cases answer with
        | error code => exact finish_error given
        | ok i =>
            obtain ⟨u, rfl, -, used⟩ := given.locking
            simp only [Table.iunlockput_locking used, Except.ok_bind]
            exact ⟨_, _, rfl⟩
  | fstatat dirfd name flags copied =>
      have opened : flagSearch flags (w.procs pid) dirfd fuel ⟨w.nodes, unlocked⟩ name =
          .ok (answer, x) := searched
      obtain ⟨start, starts⟩ := Way.exists_start searched
      obtain ⟨ret, checked⟩ := checkFdcwd_ok starts
      have checked : checkFdcwd (w.procs pid) name dirfd = .ok ret := checked
      simp only [perform, sysFstatat, checked, opened, Except.ok_bind]
      split
      · exact ⟨_, _, rfl⟩
      · split
        · exact ⟨_, _, rfl⟩
        · cases answer with
          | error code => exact finish_error given
          | ok i =>
              obtain ⟨u, rfl, allocated, used⟩ := given.locking
              simp only [if_neg allocated, Table.iunlockput_locking used, Except.ok_bind]
              exact ⟨_, _, rfl⟩

/-- A call that answers before its loop returns. -/
theorem perform_of_early {fuel : Nat} {w : World} {pid : Fin nproc} {call : Call}
    (early : call.Early (w.procs pid)) :
    ∃ code w', perform fuel w pid call = .ok (code, w', unlocked) := by
  cases call with
  | fileopen => cases early
  | fileget => cases early
  | filechown => cases early
  | faccess c name dirfd mode flags =>
      have bad : mode &&& ~~~7 ≠ 0 := early
      rw [perform, faccess, if_pos bad]
      exact ⟨_, _, rfl⟩
  | fstatat dirfd name flags copied =>
      simp only [perform, sysFstatat]
      cases early with
      | inl bad =>
          rw [if_pos bad]
          exact ⟨_, _, rfl⟩
      | inr refused =>
          obtain ⟨ret, checked, refused⟩ := refused
          rw [checked, Except.ok_bind, if_pos refused]
          split
          · exact ⟨_, _, rfl⟩
          · exact ⟨_, _, rfl⟩

/-- A call returns only after its search has come to an end. -/
theorem ends_of_perform {fuel : Nat} {w : World} {pid : Fin nproc} {call : Call}
    {result : Int × World × Locks} (steady : Steady w.nodes base 0)
    (refers : ∀ i, (w.procs pid).refers i → 0 < base i)
    (run : perform fuel w pid call = .ok result) :
    call.Early (w.procs pid) ∨ (call.way (w.procs pid)).Ends w.nodes call.path := by
  rw [← call.way_p (w.procs pid)] at refers
  cases search_of_perform run with
  | inl early => exact Or.inl early
  | inr searched =>
      exact Or.inr ((Way.search_iff steady refers call.refuses_symlink).mp ⟨fuel, searched⟩)

/-- A call that follows links returns, and holds no lock, if and only if it answers before its loop,
or its search meets no link twice and no free inode. -/
theorem returns_iff {w : World} {pid : Fin nproc} (call : Call) (steady : Steady w.nodes base 0)
    (refers : ∀ i, (w.procs pid).refers i → 0 < base i) :
    (∃ fuel code w', perform fuel w pid call = .ok (code, w', unlocked)) ↔
      call.Early (w.procs pid) ∨ (call.way (w.procs pid)).Ends w.nodes call.path := by
  constructor
  · rintro ⟨fuel, code, w', run⟩
    exact ends_of_perform steady refers run
  · rw [← call.way_p (w.procs pid)] at refers
    rintro (early | search_ends)
    · exact ⟨0, perform_of_early early⟩
    · obtain ⟨fuel, answer, x, searched⟩ :=
        (Way.search_iff steady refers call.refuses_symlink).mpr search_ends
      obtain ⟨-, -, -, path, -, -, given⟩ :=
        Way.search_run fuel steady refers call.refuses_symlink searched
      exact ⟨fuel, perform_of_search searched given⟩

/-- Between two calls of a run the inode table counts what is in use. -/
theorem Steady.of_rest {strict : Prop} {w : World} {leak : Nat → Nat} (rest : Rest strict w leak)
    (pid : Fin nproc) :
    Steady w.nodes (fun i => w.uses i + leak i) 0 ∧
      ∀ i, (w.procs pid).refers i → 0 < w.uses i + leak i :=
  ⟨Steady.of_holds rest.holds, fun _ => Rest.refers pid⟩

/-- `init`. -/
def init : Fin nproc := ⟨0, nproc_pos⟩

theorem emptyBoot_rest : ∃ leak, Rest False emptyBoot leak := by
  obtain ⟨leak, ⟨extra, deficit, sound, -⟩, -⟩ := exact_iff.mp emptyBoot_exact
  exact ⟨leak, ⟨extra, deficit, sound, False.elim⟩, False.elim⟩

/-- `symlink("/", "/d")`: the link is followed to the root directory, which is refused. -/
theorem returns_link :
    ∃ w, sysSymlinkat emptyBoot (fun _ => false) init [slash] slashD atFdcwd = .ok (0, w) ∧
      ∃ fuel code w', perform fuel w init (.fileget slashD) = .ok (code, w', unlocked) := by
  have made : (sysSymlinkat emptyBoot (fun _ => false) init [slash] slashD atFdcwd).toOption.any
      (fun r => r.1 = 0 ∧
        Way.leads ⟨511, true, r.2.procs init, atFdcwd⟩ r.2.nodes slashD = .found 2 ∧
        Way.linkAt ⟨511, true, r.2.procs init, atFdcwd⟩ r.2.nodes slashD = some 2 ∧
        Way.target ⟨511, true, r.2.procs init, atFdcwd⟩ r.2.nodes 2 = [slash] ∧
        Way.leads ⟨511, true, r.2.procs init, atFdcwd⟩ r.2.nodes [slash] = .found rootIno ∧
        Way.linkAt ⟨511, true, r.2.procs init, atFdcwd⟩ r.2.nodes [slash] = none ∧
        (r.2.nodes 2).type = .symlink ∧ (r.2.nodes rootIno).type = .dir) = true := by
    decide +kernel
  obtain ⟨⟨code, w⟩, run, test⟩ := Except.exists_of_any made
  obtain ⟨rfl, leads, link, target, root, last, is_link, is_dir⟩ := of_decide_eq_true test
  obtain ⟨leak, rest⟩ := emptyBoot_rest
  obtain ⟨steady, refers⟩ := Steady.of_rest (rest.symlinkat False.elim False.elim run) init
  let s : Way := ⟨511, true, w.procs init, atFdcwd⟩
  have ends : s.Ends w.nodes slashD := by
    have ended : Trail.trail (s.hop w.nodes) (s.linkAt w.nodes slashD) 1 = none := by
      rw [link]
      change s.linkAt w.nodes (s.target w.nodes 2) = none
      rw [target]
      exact last
    refine ⟨Trail.straight_of_ended ended, fun n q at_n => ?_⟩
    cases n with
    | zero =>
        cases at_n
        rw [Way.safe_found leads, is_link]
        decide
    | succ n =>
        rw [Way.pathNo_succ link, target] at at_n
        cases n with
        | zero =>
            cases at_n
            rw [Way.safe_found root, is_dir]
            decide
        | succ n =>
            rw [Way.pathNo_none last] at at_n
            cases at_n
  exact ⟨w, run, (returns_iff (.fileget slashD) steady refers).mpr (.inr ends)⟩

/-- A search does not end at a link that leads to itself. -/
theorem Way.not_ends {i : Nat} (link : s.linkAt t path = some i) (again : s.hop t i = some i) :
    ¬s.Ends t path := by
  rintro ⟨straight, -⟩
  have second : Trail.trail (s.hop t) (s.linkAt t path) 1 = some i := by
    rw [link]
    exact again
  exact absurd (straight 0 1 i link second) (by decide)

/-- `symlink("/d", "/d")` makes a link that leads to itself; no call returns from it. -/
theorem link_to_itself :
    ∃ w, sysSymlinkat emptyBoot (fun _ => false) init slashD slashD atFdcwd = .ok (0, w) ∧
      ∀ call ∈ [Call.fileopen slashD atFdcwd 0, .fileget slashD,
          .filechown ⟨true, 0, 0⟩ slashD atFdcwd 0 0 0, .faccess ⟨true, 0, 0⟩ slashD atFdcwd 0 0,
          .fstatat atFdcwd slashD 0 true],
        ∀ fuel code w', perform fuel w init call ≠ .ok (code, w', unlocked) := by
  have made :
    (sysSymlinkat emptyBoot (fun _ => false) init slashD slashD atFdcwd).toOption.any (fun r =>
      r.1 = 0 ∧ ∀ bytes ∈ [511, 3],
        Way.linkAt ⟨bytes, true, r.2.procs init, atFdcwd⟩ r.2.nodes slashD = some 2 ∧
        Way.hop ⟨bytes, true, r.2.procs init, atFdcwd⟩ r.2.nodes 2 = some 2) = true := by
    decide +kernel
  obtain ⟨⟨code, w⟩, run, test⟩ := Except.exists_of_any made
  obtain ⟨rfl, circles⟩ := of_decide_eq_true test
  obtain ⟨leak, rest⟩ := emptyBoot_rest
  obtain ⟨steady, refers⟩ := Steady.of_rest (rest.symlinkat False.elim False.elim run) init
  have never : ∀ call : Call, ¬call.Early (w.procs init) → call.path = slashD →
      (∃ bytes ∈ [511, 3], call.way (w.procs init) = ⟨bytes, true, w.procs init, atFdcwd⟩) →
      ∀ fuel code w', perform fuel w init call ≠ .ok (code, w', unlocked) := by
    rintro call late path ⟨bytes, mem, way⟩ fuel code w' returned
    obtain ⟨link, again⟩ := circles bytes mem
    cases ends_of_perform steady refers returned with
    | inl early => exact late early
    | inr ends =>
        rw [way, path] at ends
        exact Way.not_ends link again ends
  refine ⟨w, run, fun call mem => ?_⟩
  simp only [List.mem_cons, List.not_mem_nil, or_false] at mem
  rcases mem with rfl | rfl | rfl | rfl | rfl
  · exact never _ (fun early => early) rfl ⟨511, by decide, rfl⟩
  · exact never _ (fun early => early) rfl ⟨511, by decide, rfl⟩
  · exact never _ (fun early => early) rfl ⟨3, by decide, rfl⟩
  · exact never _ (fun early => early (by decide)) rfl ⟨3, by decide, rfl⟩
  · refine never _ ?_ rfl ⟨3, by decide, rfl⟩
    rintro (⟨flags, -⟩ | refused)
    · exact flags rfl
    · obtain ⟨ret, checked, negative⟩ := refused
      cases checked
      exact absurd negative (Int.lt_irrefl 0)

end Follow
end Dir
end Xv6Duo
