import Xv6Duo.Dir.Open

/-!
# Processes

The references that processes hold are counted over descriptors and current directories. `Rest` is
the invariant between two calls; every system call keeps it.
-/

namespace Xv6Duo
namespace Dir

open scoped BigOperators

/-! ## References of processes -/

/-- References of a descriptor. -/
def fileUses (i : Nat) (f : Option File) : Nat := if f.bind File.ip = some i then 1 else 0

/-- References of a process. -/
def Proc.uses (p : Proc) (i : Nat) : Nat :=
  (if p.cwd = some i then 1 else 0) + ∑ fd, fileUses i (p.ofile fd)

/-- References of all processes. -/
def World.uses (w : World) (i : Nat) : Nat := ∑ pid, (w.procs pid).uses i

/-- Replacing one summand. -/
theorem sum_update {ι α : Type} [Fintype ι] [DecidableEq ι] (g : α → Nat) (f : ι → α) (a : ι)
    (b : α) : ∑ x, g (Function.update f a b x) + g (f a) = ∑ x, g (f x) + g b := by
  rw [← Finset.add_sum_erase _ _ (Finset.mem_univ a),
    ← Finset.add_sum_erase _ (fun x => g (f x)) (Finset.mem_univ a), Function.update_self]
  have others : ∑ x ∈ Finset.univ.erase a, g (Function.update f a b x) =
      ∑ x ∈ Finset.univ.erase a, g (f x) := by
    refine Finset.sum_congr rfl fun x mem => ?_
    rw [Function.update_of_ne (Finset.ne_of_mem_erase mem)]
  rw [others]
  omega

theorem Proc.uses_setFile (p : Proc) (fd : Fin nofile) (f : Option File) (i : Nat) :
    (p.setFile fd f).uses i + fileUses i (p.ofile fd) = p.uses i + fileUses i f := by
  have files : ∑ x, fileUses i ((p.setFile fd f).ofile x) + fileUses i (p.ofile fd) =
      ∑ x, fileUses i (p.ofile x) + fileUses i f := sum_update (fileUses i) p.ofile fd f
  have cwd : (if (p.setFile fd f).cwd = some i then 1 else 0) = if p.cwd = some i then 1 else 0 :=
    rfl
  rw [Proc.uses, Proc.uses, cwd]
  omega

theorem World.uses_setProc (w : World) (pid : Fin nproc) (p : Proc) (i : Nat) :
    (w.setProc pid p).uses i + (w.procs pid).uses i = w.uses i + p.uses i :=
  sum_update (fun q => Proc.uses q i) w.procs pid p

theorem World.uses_congr {v w : World} (same : v.procs = w.procs) (i : Nat) :
    v.uses i = w.uses i := by
  rw [World.uses, World.uses, same]

theorem Proc.refers_uses {p : Proc} {i : Nat} (refers : p.refers i) : 0 < p.uses i := by
  obtain cwd | ⟨fd, f, file, at_f⟩ := refers
  · rw [Proc.uses, if_pos cwd]
    omega
  · have one : fileUses i (p.ofile fd) = 1 := by simp [fileUses, file, at_f]
    have le := Finset.single_le_sum (f := fun fd => fileUses i (p.ofile fd))
      (fun _ _ => Nat.zero_le _) (Finset.mem_univ fd)
    simp only [Proc.uses]
    omega

theorem World.proc_uses_le (w : World) (pid : Fin nproc) (i : Nat) :
    (w.procs pid).uses i ≤ w.uses i :=
  Finset.single_le_sum (f := fun pid => (w.procs pid).uses i) (fun _ _ => Nat.zero_le _)
    (Finset.mem_univ pid)

/-! ## Between calls -/

/-- The invariant between calls. References that nothing will drop are leaks, of which a strict run
has none. -/
structure Rest (strict : Prop) (w : World) (leak : Nat → Nat) : Prop where
  /-- The inodes are counted. -/
  holds : Holds strict w.nodes (fun i => w.uses i + leak i) 0
  /-- No leak in a strict run. -/
  noLeak : strict → ∀ i, leak i = 0

variable {strict : Prop} {w : World} {leak : Nat → Nat} {u : Nodes}

theorem Rest.refers (pid : Fin nproc) {i : Nat} (refers : (w.procs pid).refers i) :
    0 < w.uses i + leak i := by
  have := Proc.refers_uses refers
  have := w.proc_uses_le pid i
  omega

/-- A call that changes only inodes. -/
theorem Rest.setNodes (rest : Rest strict w leak)
    (holds : Holds strict u (fun i => w.uses i + leak i) 0) :
    Rest strict { w with nodes := u } leak :=
  ⟨holds, rest.noLeak⟩

/-- No allocated inode has the largest link count. -/
def Bounded (t : Nodes) : Prop := ∀ i, (t i).type ≠ .free → (t i).nlink < 32767

/-- In a strict run every directory with a subdirectory has two links. -/
theorem Holds.keepsLink {t : Nodes} {base : Nat → Nat} (holds : Holds strict t base 0)
    (is_strict : strict) {p : Proc} (refers : ∀ i, p.refers i → 0 < base i) (path : Path)
    (dirfd : Int) : KeepsLink t p path dirfd := by
  intro dp name s k walk not_dot not_dotdot present is_dir _ linked
  have finds := holds.namex refers walk
  have dir := finds.dir dp name rfl rfl
  obtain ⟨extra, deficit, sound, tidy⟩ := finds.holds
  obtain ⟨e, e_inum, used, cleared⟩ := sound.toCounted.cleared dir not_dot not_dotdot present
    (m := { s dp with entries := (s dp).entries.set k Dirent.none }) rfl
  obtain ⟨-, type_eq, -, -⟩ := sound.named dp e cleared.old used
  rw [e_inum, is_dir] at type_eq
  have subdirs := cleared.subdirs
  rw [if_pos type_eq.symm] at subdirs
  have links := (sound.linkedLinks dp dir linked).1
  rw [(tidy is_strict).2.2 dp] at links
  omega

/-! ## System calls -/

theorem Rest.symlinkat {env : Env} {pid : Fin nproc} {target linkpath : Path}
    {dirfd : Int} {code : Int} {w' : World} (rest : Rest strict w leak)
    (linked : strict → StartsLinked w.nodes (w.procs pid) linkpath dirfd)
    (fits : strict → SymlinkFits w.nodes env (w.procs pid) linkpath dirfd)
    (run : sysSymlinkat w env pid target linkpath dirfd = .ok (code, w')) :
    Rest strict w' leak := by
  simp only [sysSymlinkat] at run
  split at run
  · simp only [Except.pure_eq_ok, Except.ok.injEq, Prod.mk.injEq] at run
    exact run.2 ▸ rest
  · obtain ⟨ret, -, run⟩ := Except.bind_eq_ok.mp run
    split at run
    · simp only [Except.pure_eq_ok, Except.ok.injEq, Prod.mk.injEq] at run
      exact run.2 ▸ rest
    · simp only [Except.bind_eq_ok, Except.pure_eq_ok, Except.ok.injEq, Prod.mk.injEq] at run
      obtain ⟨⟨result, x⟩, call, -, rfl⟩ := run
      exact rest.setNodes (filesymlink_spec rest.holds (fun _ => Rest.refers pid) linked fits call)

theorem Rest.unlinkat {pid : Fin nproc} {path : Path} {dirfd : Int}
    {flags : UInt32} {code : Int} {w' : World} (rest : Rest strict w leak)
    (bounded : Bounded w.nodes)
    (keeps_link : flags &&& 0x200 ≠ 0 → KeepsLink w.nodes (w.procs pid) path dirfd)
    (run : sysUnlinkat w pid path dirfd flags = .ok (code, w')) : Rest strict w' leak := by
  simp only [sysUnlinkat] at run
  obtain ⟨ret, -, run⟩ := Except.bind_eq_ok.mp run
  split at run
  · simp only [Except.pure_eq_ok, Except.ok.injEq, Prod.mk.injEq] at run
    exact run.2 ▸ rest
  · split at run
    · simp only [Except.pure_eq_ok, Except.ok.injEq, Prod.mk.injEq] at run
      exact run.2 ▸ rest
    · simp only [Except.bind_eq_ok, Except.pure_eq_ok, Except.ok.injEq, Prod.mk.injEq] at run
      obtain ⟨⟨result, x⟩, call, -, rfl⟩ := run
      exact rest.setNodes (fileunlink_spec rest.holds (fun _ => Rest.refers pid) bounded
        (fun removes => keeps_link (of_decide_eq_true removes)) call)

theorem Rest.mkdirat {env : Env} {pid : Fin nproc} {path : Path} {dirfd : Int}
    {mode : UInt32} {code : Int} {w' : World} (rest : Rest strict w leak)
    (bounded : Bounded w.nodes) (linked : strict → StartsLinked w.nodes (w.procs pid) path dirfd)
    (run : sysMkdirat w env pid path dirfd mode = .ok (code, w')) : Rest strict w' leak := by
  simp only [sysMkdirat] at run
  obtain ⟨ret, -, run⟩ := Except.bind_eq_ok.mp run
  split at run
  · simp only [Except.pure_eq_ok, Except.ok.injEq, Prod.mk.injEq] at run
    exact run.2 ▸ rest
  · simp only [Except.bind_eq_ok] at run
    obtain ⟨⟨made, x⟩, call, run⟩ := run
    have holds := (create_spec rest.holds (fun _ => Rest.refers pid) bounded (by decide) linked
      call).1
    cases made with
    | inode ip =>
        simp only [Except.pure_eq_ok, Except.ok.injEq, Prod.mk.injEq] at run
        obtain ⟨-, rfl⟩ := run
        exact rest.setNodes (Holds.iput holds)
    | null =>
        simp only [Except.pure_eq_ok, Except.ok.injEq, Prod.mk.injEq] at run
        obtain ⟨-, rfl⟩ := run
        exact rest.setNodes holds
    | errno number => simp at run

theorem typeOfMode_ne_free {mode : UInt32} {type : FileType} (known : typeOfMode mode = some type) :
    type ≠ .free := by
  rintro rfl
  simp only [typeOfMode] at known
  split_ifs at known <;> simp at known

theorem Rest.mknodat {env : Env} {pid : Fin nproc} {path : Path} {dirfd : Int}
    {mode : UInt32} {dev : UInt64} {code : Int} {w' : World} (rest : Rest strict w leak)
    (bounded : Bounded w.nodes) (linked : strict → StartsLinked w.nodes (w.procs pid) path dirfd)
    (run : sysMknodat w env pid path dirfd mode dev = .ok (code, w')) : Rest strict w' leak := by
  simp only [sysMknodat] at run
  obtain ⟨ret, -, run⟩ := Except.bind_eq_ok.mp run
  split at run
  · simp only [Except.pure_eq_ok, Except.ok.injEq, Prod.mk.injEq] at run
    exact run.2 ▸ rest
  · cases known : typeOfMode mode with
    | none =>
        simp only [known, Except.pure_eq_ok, Except.ok.injEq, Prod.mk.injEq] at run
        exact run.2 ▸ rest
    | some type =>
        simp only [known, Except.bind_eq_ok] at run
        obtain ⟨⟨made, x⟩, call, run⟩ := run
        have holds := (create_spec rest.holds (fun _ => Rest.refers pid) bounded
          (typeOfMode_ne_free known) linked call).1
        cases made with
        | inode ip =>
            simp only [Except.pure_eq_ok, Except.ok.injEq, Prod.mk.injEq] at run
            obtain ⟨-, rfl⟩ := run
            exact rest.setNodes (Holds.iput holds)
        | null => simp at run
        | errno number =>
            simp only [Except.pure_eq_ok, Except.ok.injEq, Prod.mk.injEq] at run
            obtain ⟨-, rfl⟩ := run
            exact rest.setNodes holds

theorem Rest.linkat {env : Env} {pid : Fin nproc} {oldpath newpath : Path}
    {olddirfd newdirfd : Int} {flags : UInt32} {code : Int} {w' : World}
    (rest : Rest strict w leak) (bounded : Bounded w.nodes)
    (linked : strict → StartsLinked w.nodes (w.procs pid) newpath newdirfd)
    (run : sysLinkat w env pid oldpath olddirfd newpath newdirfd flags = .ok (code, w')) :
    Rest strict w' leak := by
  have refers : ∀ i, (w.procs pid).refers i → 0 < w.uses i + leak i := fun _ => Rest.refers pid
  simp only [sysLinkat] at run
  obtain ⟨old, -, run⟩ := Except.bind_eq_ok.mp run
  split at run
  · simp only [Except.pure_eq_ok, Except.ok.injEq, Prod.mk.injEq] at run
    exact run.2 ▸ rest
  · obtain ⟨new, -, run⟩ := Except.bind_eq_ok.mp run
    split at run
    · simp only [Except.pure_eq_ok, Except.ok.injEq, Prod.mk.injEq] at run
      exact run.2 ▸ rest
    · split at run
      · simp only [Except.bind_eq_ok] at run
        obtain ⟨⟨found, s⟩, walk, run⟩ := run
        obtain ⟨holds_s, stays, same_names⟩ := rest.holds.namei refers walk
        cases found with
        | none =>
            simp only [Except.pure_eq_ok, Except.ok.injEq, Prod.mk.injEq] at run
            obtain ⟨-, rfl⟩ := run
            exact rest.setNodes (by simpa using holds_s)
        | some ip =>
            replace holds_s : Holds strict s (fun i => w.uses i + leak i) {ip} := by
              simpa using holds_s
            simp only [Except.bind_eq_ok] at run
            obtain ⟨x, lock, run⟩ := run
            have holds_x := holds_s.ilock lock
            have same := (ilock_spec lock).1
            obtain ⟨stays_put, names_put⟩ := Holds.iput_stays holds_x
            have link : ∀ {path},
                (filelink (iput x ip) env (w.procs pid) path olddirfd newpath newdirfd >>=
                  fun linked =>
                  pure (linked.1, ({ w with nodes := linked.2 } : World))) = .ok (code, w') →
                Rest strict w' leak := by
              intro path run
              simp only [Except.bind_eq_ok, Except.pure_eq_ok, Except.ok.injEq,
                Prod.mk.injEq] at run
              obtain ⟨⟨result, y⟩, call, -, rfl⟩ := run
              refine rest.setNodes (filelink_spec (Holds.iput holds_x) refers ?_ ?_ call)
              · intro i allocated
                have kept := (stays_put i allocated)
                have data := ((stays i ((same i).type ▸ kept.type ▸ allocated)).trans
                  (same i)).trans kept
                rw [data.nlink (data.type ▸ allocated)]
                exact bounded i (data.type ▸ allocated)
              · intro is_strict
                refine (linked is_strict).congr fun i => ?_
                rw [names_put is_strict, names_of_same same, same_names is_strict]
            split at run
            · split at run
              · simp only [Except.pure_eq_ok, Except.ok.injEq, Prod.mk.injEq] at run
                obtain ⟨-, rfl⟩ := run
                exact rest.setNodes (Holds.iput holds_x)
              · exact link run
            · exact link run
      · split at run
        · simp only [Except.pure_eq_ok, Except.ok.injEq, Prod.mk.injEq] at run
          exact run.2 ▸ rest
        · simp only [Except.bind_eq_ok, Except.pure_eq_ok, Except.ok.injEq, Prod.mk.injEq] at run
          obtain ⟨⟨result, x⟩, call, -, rfl⟩ := run
          exact rest.setNodes (filelink_spec rest.holds refers bounded linked call)

theorem fileUses_some {f : File} {ip : Nat} (at_f : f.ip = some ip) (i : Nat) :
    fileUses i (some f) = ({ip} : Multiset Nat).count i := by
  rw [fileUses, Multiset.count_singleton, Option.bind_some, at_f]
  simp only [Option.some.injEq, eq_comm]

/-- A free inode is neither open nor a current directory. -/
theorem Rest.idle (rest : Rest strict w leak) {i : Nat} (free : (w.nodes i).type = .free) :
    w.uses i = 0 ∧ leak i = 0 := by
  obtain ⟨extra, deficit, sound, -⟩ := rest.holds
  have := sound.idle i free
  omega

/-- The references of the call have moved to other processes or to leaks. -/
theorem Holds.settled {leak' : Nat → Nat} {held : Multiset Nat} {v x : World}
    (holds : Holds strict u (fun i => w.uses i + leak i) held) (nodes : v.nodes = u)
    (procs : v.procs = x.procs)
    (count : ∀ i, x.uses i + leak' i = w.uses i + leak i + held.count i)
    (allocated : ∀ i ∈ held, (u i).type ≠ .free) :
    Holds strict v.nodes (fun i => v.uses i + leak' i) 0 := by
  rw [nodes]
  refine holds.transfer (fun i => ?_) (fun i free => ?_)
  · rw [World.uses_congr procs, count i, Multiset.count_zero, Nat.add_zero]
  · obtain ⟨extra, deficit, sound, -⟩ := holds
    have idle := sound.idle i free
    have unheld : held.count i = 0 :=
      Multiset.count_eq_zero.mpr fun mem => allocated i mem free
    have := count i
    have := World.uses_congr procs i
    omega

/-- A descriptor takes over the reference of a call. -/
theorem Rest.keep (rest : Rest strict w leak) {pid : Fin nproc} {fd : Fin nofile} {f : File}
    {ip : Nat} (holds : Holds strict u (fun i => w.uses i + leak i) {ip})
    (allocated : (u ip).type ≠ .free) (unused : (w.procs pid).ofile fd = none)
    (at_f : f.ip = some ip) (n : Nat) :
    Rest strict { w.setProc pid ((w.procs pid).setFile fd (some f)) with
      nodes := u, files := n } leak := by
  refine ⟨holds.settled (x := w.setProc pid ((w.procs pid).setFile fd (some f))) rfl rfl
    (fun i => ?_) (by simpa using allocated), rest.noLeak⟩
  have file := (w.procs pid).uses_setFile fd (some f) i
  have proc := w.uses_setProc pid ((w.procs pid).setFile fd (some f)) i
  rw [unused, fileUses_some at_f] at file
  have none : fileUses i none = 0 := rfl
  omega

/-- A reference of a call stays behind without an owner. -/
theorem Rest.leaks (rest : Rest strict w leak) {ip : Nat}
    (holds : Holds strict u (fun i => w.uses i + leak i) {ip}) (allocated : (u ip).type ≠ .free)
    (slack : ¬strict) : ∃ leak', Rest strict { w with nodes := u } leak' := by
  refine ⟨fun i => leak i + ({ip} : Multiset Nat).count i,
    holds.settled (x := w) rfl rfl (fun i => ?_) (by simpa using allocated),
    fun is_strict => absurd is_strict slack⟩
  omega

theorem Rest.openat {fuel : Nat} {env : Env} {pid : Fin nproc} {path : Path}
    {dirfd : Int} {flags mode : UInt32} {code : Int} {w' : World}
    (rest : Rest strict w leak) (bounded : Bounded w.nodes)
    (linked : strict → flags &&& oCreat ≠ 0 → StartsLinked w.nodes (w.procs pid) path dirfd)
    (room : strict → w.files < nfile ∧ fdalloc (w.procs pid) ≠ none)
    (run : sysOpenat fuel w env pid path dirfd flags mode = .ok (code, w')) :
    ∃ leak', Rest strict w' leak' := by
  rw [sysOpenat] at run
  split at run
  · simp only [Except.ok.injEq, Prod.mk.injEq] at run
    exact ⟨leak, run.2 ▸ rest⟩
  · simp only [fileopen, Except.bind_eq_ok] at run
    obtain ⟨⟨opened, x⟩, call, run⟩ := run
    have hands := openInode_spec rest.holds (fun _ => Rest.refers pid) bounded linked call
    cases opened with
    | error number =>
        simp only [Except.pure_eq_ok, Except.ok.injEq, Prod.mk.injEq] at run
        exact ⟨leak, run.2 ▸ rest.setNodes hands⟩
    | ok ip =>
        obtain ⟨holds, allocated⟩ := hands
        simp only at run
        split at run
        · simp only [Except.pure_eq_ok, Except.ok.injEq, Prod.mk.injEq] at run
          exact ⟨leak, run.2 ▸ rest.setNodes (Holds.iput holds)⟩
        · split at run
          · simp only [Except.pure_eq_ok, Except.ok.injEq, Prod.mk.injEq] at run
            exact ⟨leak, run.2 ▸ rest.setNodes (Holds.iput holds)⟩
          · by_cases free_file : w.files < nfile
            · rw [if_pos free_file] at run
              cases descriptor : fdalloc (w.procs pid) with
              | none =>
                  simp only [descriptor, Except.pure_eq_ok, Except.ok.injEq, Prod.mk.injEq] at run
                  exact run.2 ▸ rest.leaks holds allocated fun is_strict =>
                    (room is_strict).2 descriptor
              | some fd =>
                  simp only [descriptor, Except.pure_eq_ok, Except.ok.injEq, Prod.mk.injEq] at run
                  have unused := List.find?_some descriptor
                  refine ⟨leak, run.2 ▸ rest.keep holds allocated (of_decide_eq_true unused) ?_ _⟩
                  split <;> rfl
            · rw [if_neg free_file] at run
              simp only [Except.pure_eq_ok, Except.ok.injEq, Prod.mk.injEq] at run
              exact run.2 ▸ rest.leaks holds allocated fun is_strict =>
                free_file (room is_strict).1

/-- A process drops a reference. -/
theorem Rest.drop (rest : Rest strict w leak) {ip : Nat} {v x : World}
    (nodes : v.nodes = iput w.nodes ip) (procs : v.procs = x.procs)
    (count : ∀ i, x.uses i + ({ip} : Multiset Nat).count i = w.uses i) : Rest strict v leak := by
  have holds : Holds strict w.nodes (fun i => v.uses i + leak i) {ip} := by
    refine rest.holds.transfer (fun i => ?_) (fun i free => ?_)
    · have := count i
      have := World.uses_congr procs i
      simp only [Multiset.count_zero]
      omega
    · have := count i
      have := World.uses_congr procs i
      have := rest.idle free
      omega
  exact ⟨nodes ▸ Holds.iput holds, rest.noLeak⟩

/-- A descriptor is closed. -/
theorem Rest.closes (rest : Rest strict w leak) {pid : Fin nproc} {fd : Fin nofile} {f : File}
    (is_open : (w.procs pid).ofile fd = some f) {v : World}
    (nodes : v.nodes = (fileclose w f).nodes)
    (procs : v.procs = (w.setProc pid ((w.procs pid).setFile fd none)).procs) :
    Rest strict v leak := by
  have proc := w.uses_setProc pid ((w.procs pid).setFile fd none)
  have file := (w.procs pid).uses_setFile fd none
  rw [is_open] at file
  have none (i : Nat) : fileUses i none = 0 := rfl
  have drops {ip : Nat} (at_f : f.ip = some ip) (closed : v.nodes = iput w.nodes ip) :
      Rest strict v leak := by
    refine rest.drop closed procs fun i => ?_
    rw [← fileUses_some at_f]
    have := proc i
    have := file i
    have := none i
    omega
  cases f with
  | pipe =>
      refine ⟨?_, rest.noLeak⟩
      have same (i : Nat) : v.uses i = w.uses i := by
        have := World.uses_congr procs i
        have := proc i
        have := file i
        have := none i
        have : fileUses i (some File.pipe) = 0 := rfl
        omega
      rw [show v.nodes = w.nodes from nodes]
      simpa only [same] using rest.holds
  | inode ip => exact drops rfl nodes
  | device ip => exact drops rfl nodes

theorem Rest.close {pid : Fin nproc} {fd : Nat} {code : Int} {w' : World}
    (rest : Rest strict w leak) (run : sysClose w pid fd = .ok (code, w')) :
    Rest strict w' leak := by
  simp only [sysClose] at run
  split at run
  · next inside =>
      cases file : (w.procs pid).ofile ⟨fd, inside⟩ with
      | none =>
          simp only [file, Except.ok.injEq, Prod.mk.injEq] at run
          exact run.2 ▸ rest
      | some f =>
          simp only [file, Except.ok.injEq, Prod.mk.injEq] at run
          obtain ⟨-, rfl⟩ := run
          exact rest.closes file rfl rfl
  · simp only [Except.ok.injEq, Prod.mk.injEq] at run
    exact run.2 ▸ rest

theorem Rest.closeFd (rest : Rest strict w leak) (pid : Fin nproc) (fd : Fin nofile) :
    Rest strict (closeFd pid w fd) leak := by
  rw [Dir.closeFd]
  cases file : (w.procs pid).ofile fd with
  | none => exact rest
  | some f => exact rest.closes file rfl rfl

theorem Rest.closeAll (pid : Fin nproc) (fds : List (Fin nofile)) (rest : Rest strict w leak) :
    Rest strict (fds.foldl (Dir.closeFd pid) w) leak := by
  induction fds generalizing w with
  | nil => exact rest
  | cons fd fds ih => exact ih (rest.closeFd pid fd)

/-- References after a process has changed its current directory. -/
theorem World.uses_cwd (w : World) (pid : Fin nproc) {p : Proc}
    (same_files : p.ofile = (w.procs pid).ofile) (i : Nat) :
    (w.setProc pid p).uses i + (if (w.procs pid).cwd = some i then 1 else 0) =
      w.uses i + if p.cwd = some i then 1 else 0 := by
  have proc := w.uses_setProc pid p i
  rw [Proc.uses, Proc.uses, same_files] at proc
  omega

theorem Rest.exit {pid : Fin nproc} {w' : World} (rest : Rest strict w leak)
    (run : exit w pid = .ok w') : Rest strict w' leak := by
  simp only [Dir.exit] at run
  split at run
  · simp at run
  · have closed := rest.closeAll pid (List.finRange nofile)
    generalize (List.finRange nofile).foldl (Dir.closeFd pid) w = v at run closed
    cases cwd_eq : (v.procs pid).cwd with
    | none => simp [cwd_eq] at run
    | some cwd =>
        simp only [cwd_eq, Except.ok.injEq] at run
        subst run
        refine closed.drop (x := v.setProc pid { v.procs pid with cwd := none }) rfl rfl
          fun i => ?_
        have count := v.uses_cwd pid (p := { v.procs pid with cwd := none }) rfl i
        simp only [cwd_eq, Option.some.injEq, eq_comm (b := i), reduceCtorEq, if_false,
          Nat.add_zero] at count
        rw [Multiset.count_singleton, ← count]

theorem Rest.chdir {pid : Fin nproc} {path : Path} {code : Int} {w' : World}
    (rest : Rest strict w leak) (run : sysChdir w pid path = .ok (code, w')) :
    Rest strict w' leak := by
  simp only [sysChdir, Except.bind_eq_ok] at run
  obtain ⟨⟨found, s⟩, walk, run⟩ := run
  have holds_s := (rest.holds.namei (fun _ => Rest.refers pid) walk).1
  cases found with
  | none =>
      simp only [Except.pure_eq_ok, Except.ok.injEq, Prod.mk.injEq] at run
      exact run.2 ▸ rest.setNodes (by simpa using holds_s)
  | some ip =>
      replace holds_s : Holds strict s (fun i => w.uses i + leak i) {ip} := by
        simpa using holds_s
      simp only [Except.bind_eq_ok] at run
      obtain ⟨x, lock, run⟩ := run
      have holds_x := holds_s.ilock lock
      have allocated := holds_s.allocated lock
      split at run
      · simp only [Except.pure_eq_ok, Except.ok.injEq, Prod.mk.injEq] at run
        exact run.2 ▸ rest.setNodes (Holds.iput holds_x)
      · cases cwd_eq : (w.procs pid).cwd with
        | none => simp [cwd_eq] at run
        | some cwd =>
            simp only [cwd_eq, Except.pure_eq_ok, Except.ok.injEq, Prod.mk.injEq] at run
            obtain ⟨-, rfl⟩ := run
            set q : Proc := { w.procs pid with cwd := some ip }
            have count : ∀ i, (w.setProc pid q).uses i + (if i = cwd then 1 else 0) =
                w.uses i + if i = ip then 1 else 0 := by
              intro i
              have moved := w.uses_cwd pid (p := q) rfl i
              have q_cwd : q.cwd = some ip := rfl
              rw [cwd_eq, q_cwd] at moved
              simpa only [Option.some.injEq, eq_comm (b := i)] using moved
            have moved : Holds strict x (fun i => (w.setProc pid q).uses i + leak i) {cwd} := by
              refine holds_x.transfer (fun i => ?_) (fun i free => ?_)
              · have := count i
                rw [Multiset.count_singleton, Multiset.count_singleton]
                omega
              · have := count i
                have differ : i ≠ ip := by
                  rintro rfl
                  exact allocated free
                obtain ⟨extra, deficit, sound, -⟩ := holds_x
                have idle := sound.idle i free
                rw [if_neg differ] at this
                omega
            exact ⟨Holds.iput moved, rest.noLeak⟩

end Dir
end Xv6Duo
