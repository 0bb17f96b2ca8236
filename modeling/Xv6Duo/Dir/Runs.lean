import Xv6Duo.Dir.Mkfs

/-!
# Runs of calls on names

Processes make calls one after another. Whatever their order, a directory that the root leads to
names no free inode, as long as no call takes the last link of a directory that has a name. When the
tree starts with exact link counts they stay exact.
-/

namespace Xv6Duo
namespace Dir

/-- A system call. -/
inductive Call
  /-- `openat`. -/
  | openat (path : Path) (dirfd : Int) (flags mode : UInt32)
  /-- `mknodat`. -/
  | mknodat (path : Path) (dirfd : Int) (mode : UInt32) (dev : UInt64)
  /-- `mkdirat`. -/
  | mkdirat (path : Path) (dirfd : Int) (mode : UInt32)
  /-- `linkat`. -/
  | linkat (oldpath : Path) (olddirfd : Int) (newpath : Path)
      (newdirfd : Int) (flags : UInt32)
  /-- `symlinkat`. -/
  | symlinkat (target linkpath : Path) (dirfd : Int)
  /-- `unlinkat`. -/
  | unlinkat (path : Path) (dirfd : Int) (flags : UInt32)
  /-- `chdir`. -/
  | chdir (path : Path)
  /-- `close`. -/
  | close (fd : Nat)
  /-- `exit`. -/
  | exit

/-- A call of a process. The environment says which inodes can get no block, and how many symbolic
links are followed. -/
structure Request where
  /-- Process. -/
  pid : Fin nproc
  /-- Room on the card. -/
  env : Env
  /-- Symbolic links that are followed. -/
  fuel : Nat
  /-- Call. -/
  call : Call

/-- The state behind a call. -/
def perform (w : World) (r : Request) : Except Fault World :=
  match r.call with
  | .openat path dirfd flags mode => do
      return (← sysOpenat r.fuel w r.env r.pid path dirfd flags mode).2
  | .mknodat path dirfd mode dev => do return (← sysMknodat w r.env r.pid path dirfd mode dev).2
  | .mkdirat path dirfd mode => do return (← sysMkdirat w r.env r.pid path dirfd mode).2
  | .linkat oldpath olddirfd newpath newdirfd flags => do
      return (← sysLinkat w r.env r.pid oldpath olddirfd newpath newdirfd flags).2
  | .symlinkat target linkpath dirfd => do
      return (← sysSymlinkat w r.env r.pid target linkpath dirfd).2
  | .unlinkat path dirfd flags => do return (← sysUnlinkat w r.pid path dirfd flags).2
  | .chdir path => do return (← sysChdir w r.pid path).2
  | .close fd => do return (← sysClose w r.pid fd).2
  | .exit => exit w r.pid

/-- A process removes an empty directory only where another link of the directory above is left. -/
def RemovesSafely (w : World) (r : Request) : Prop :=
  match r.call with
  | .unlinkat path dirfd flags => flags &&& 0x200 ≠ 0 → KeepsLink w.nodes (w.procs r.pid) path dirfd
  | _ => True

/-- A call that makes a name starts from a directory that has one, a symbolic link finds its name
free and room for it, and a file is opened only where a descriptor is free. -/
def MakesCleanly (w : World) (r : Request) : Prop :=
  match r.call with
  | .openat path dirfd flags _ =>
      (flags &&& oCreat ≠ 0 → StartsLinked w.nodes (w.procs r.pid) path dirfd) ∧
        w.files < nfile ∧ fdalloc (w.procs r.pid) ≠ none
  | .mknodat path dirfd _ _ => StartsLinked w.nodes (w.procs r.pid) path dirfd
  | .mkdirat path dirfd _ => StartsLinked w.nodes (w.procs r.pid) path dirfd
  | .linkat _ _ newpath newdirfd _ => StartsLinked w.nodes (w.procs r.pid) newpath newdirfd
  | .symlinkat _ linkpath dirfd =>
      StartsLinked w.nodes (w.procs r.pid) linkpath dirfd ∧
        SymlinkFits w.nodes r.env (w.procs r.pid) linkpath dirfd
  | _ => True

/-- One call keeps the invariant. -/
theorem perform_rest {strict : Prop} {w w' : World} {r : Request} {leak : Nat → Nat}
    (rest : Rest strict w leak) (bounded : Bounded w.nodes) (safe : strict ∨ RemovesSafely w r)
    (clean : strict → MakesCleanly w r) (run : perform w r = .ok w') :
    ∃ leak', Rest strict w' leak' := by
  obtain ⟨pid, env, fuel, call⟩ := r
  cases call with
  | openat path dirfd flags mode =>
      simp only [perform, Except.bind_eq_ok, Except.pure_eq_ok, Except.ok.injEq] at run
      obtain ⟨⟨code, x⟩, call, rfl⟩ := run
      exact rest.openat bounded (fun is_strict => (clean is_strict).1)
        (fun is_strict => (clean is_strict).2) call
  | mknodat path dirfd mode dev =>
      simp only [perform, Except.bind_eq_ok, Except.pure_eq_ok, Except.ok.injEq] at run
      obtain ⟨⟨code, x⟩, call, rfl⟩ := run
      exact ⟨leak, rest.mknodat bounded clean call⟩
  | mkdirat path dirfd mode =>
      simp only [perform, Except.bind_eq_ok, Except.pure_eq_ok, Except.ok.injEq] at run
      obtain ⟨⟨code, x⟩, call, rfl⟩ := run
      exact ⟨leak, rest.mkdirat bounded clean call⟩
  | linkat oldpath olddirfd newpath newdirfd flags =>
      simp only [perform, Except.bind_eq_ok, Except.pure_eq_ok, Except.ok.injEq] at run
      obtain ⟨⟨code, x⟩, call, rfl⟩ := run
      exact ⟨leak, rest.linkat bounded clean call⟩
  | symlinkat target linkpath dirfd =>
      simp only [perform, Except.bind_eq_ok, Except.pure_eq_ok, Except.ok.injEq] at run
      obtain ⟨⟨code, x⟩, call, rfl⟩ := run
      exact ⟨leak, rest.symlinkat (fun is_strict => (clean is_strict).1)
        (fun is_strict => (clean is_strict).2) call⟩
  | unlinkat path dirfd flags =>
      simp only [perform, Except.bind_eq_ok, Except.pure_eq_ok, Except.ok.injEq] at run
      obtain ⟨⟨code, x⟩, call, rfl⟩ := run
      refine ⟨leak, rest.unlinkat bounded (fun removes => ?_) call⟩
      obtain is_strict | keeps := safe
      · exact rest.holds.keepsLink is_strict (fun _ => Rest.refers pid) path dirfd
      · exact keeps removes
  | chdir path =>
      simp only [perform, Except.bind_eq_ok, Except.pure_eq_ok, Except.ok.injEq] at run
      obtain ⟨⟨code, x⟩, call, rfl⟩ := run
      exact ⟨leak, rest.chdir call⟩
  | close fd =>
      simp only [perform, Except.bind_eq_ok, Except.pure_eq_ok, Except.ok.injEq] at run
      obtain ⟨⟨code, x⟩, call, rfl⟩ := run
      exact ⟨leak, rest.close call⟩
  | exit => exact ⟨leak, rest.exit run⟩

/-! ## Reachable directories -/

/-- Inodes to which entries lead from the root. -/
inductive Reachable (t : Nodes) : Nat → Prop
  /-- The root. -/
  | root : Reachable t rootIno
  /-- An entry of a directory. -/
  | entry {d : Nat} {e : Dirent} (above : Reachable t d) (mem : e ∈ (t d).entries)
      (used : e.inum ≠ 0) : Reachable t e.inum

/-- Inodes to which proper entries lead from the root. -/
inductive Below (t : Nodes) : Nat → Prop
  /-- The root. -/
  | root : Below t rootIno
  /-- A proper entry of a directory. -/
  | entry {d : Nat} {e : Dirent} (above : Below t d) (mem : e ∈ (t d).proper)
      (used : e.inum ≠ 0) : Below t e.inum

section Reachability

variable {t : Nodes} {extra deficit : Nat → Nat}

theorem Counted.dir_of_mem (counted : Counted t extra deficit) {d : Nat} {e : Dirent}
    (mem : e ∈ (t d).entries) : (t d).type = .dir := by
  by_contra plain
  rw [counted.plain d plain] at mem
  simp at mem

/-- `..` leads from a directory below the root to another one. -/
theorem Counted.below_up (counted : Counted t extra deficit) {d : Nat} (dir : (t d).type = .dir)
    (below : Below t d) : Below t (t d).up ∧ (t (t d).up).type = .dir := by
  cases below with
  | root =>
      rw [counted.root.2]
      exact ⟨Below.root, counted.root.1⟩
  | @entry d' e above mem used =>
      obtain ⟨-, type_eq, -, parent⟩ := counted.named d' e mem used
      rw [parent (type_eq.symm.trans dir)]
      exact ⟨above, counted.dir_of_mem (List.mem_of_mem_drop mem)⟩

/-- What the entries of a directory below the root name. -/
theorem Counted.below_entry (counted : Counted t extra deficit) {d : Nat} {e : Dirent}
    (below : Below t d) (mem : e ∈ (t d).entries) (used : e.inum ≠ 0) :
    Below t e.inum ∧ (t e.inum).type ≠ .free := by
  have dir := counted.dir_of_mem mem
  obtain ⟨up, rest, -, entries⟩ := counted.dots d dir
  have up_eq : (t d).up = up := by
    rw [Node.up, entries]
    rfl
  have proper : (t d).proper = rest := by
    rw [Node.proper, entries]
    rfl
  rw [entries] at mem
  obtain rfl | mem := List.mem_cons.mp mem
  · exact ⟨below, by rw [dir]; decide⟩
  · obtain rfl | mem := List.mem_cons.mp mem
    · obtain ⟨below_up, up_dir⟩ := counted.below_up dir below
      rw [up_eq] at below_up up_dir
      exact ⟨below_up, by rw [up_dir]; decide⟩
    · rw [← proper] at mem
      obtain ⟨-, type_eq, allocated, -⟩ := counted.named d e mem used
      exact ⟨below.entry mem used, type_eq ▸ allocated⟩

theorem Counted.below_of_reachable (counted : Counted t extra deficit) {i : Nat}
    (reach : Reachable t i) : Below t i := by
  induction reach with
  | root => exact Below.root
  | entry above mem used ih => exact (counted.below_entry ih mem used).1

end Reachability

/-! ## No dangling entry -/

/-- The calls of a run that keep a link of every directory with a name. -/
def Admits (w : World) (r : Request) : Prop := Bounded w.nodes ∧ RemovesSafely w r

/-- From every image that `mkfs` builds, whatever calls processes make, no entry of a reachable
directory names a free inode. -/
theorem entries_allocated {inputs : Mkfs.Inputs} (fits : 22 + inputs.count ≤ ninodes)
    {procs : Fin nproc → Proc} (at_root : AtRoot procs) {w : World}
    (reached : GuardedRun.Reaches Admits perform (boot (Mkfs.main inputs).nodes procs) w) {d : Nat}
    (reach : Reachable w.nodes d) {e : Dirent} (mem : e ∈ (w.nodes d).entries)
    (used : e.inum ≠ 0) : (w.nodes e.inum).type ≠ .free := by
  obtain ⟨⟨deficit, counted⟩, links⟩ := Mkfs.main_counted inputs fits
  have rest : ∃ leak, Rest False w leak := by
    refine reached.invariant (fun w => ∃ leak, Rest False w leak)
      ⟨_, boot_rest counted links at_root⟩ ?_
    rintro state next label ⟨leak, rest⟩ ⟨bounded, safe⟩ run
    exact perform_rest rest bounded (Or.inr safe) False.elim run
  obtain ⟨leak, ⟨extra, deficit', sound, -⟩, -⟩ := rest
  exact (sound.below_entry (sound.below_of_reachable reach) mem used).2

/-- No files besides the directories and devices. -/
def noInputs : Mkfs.Inputs := ⟨[], [], [], [], [], [], [], [], []⟩

/-- One process, of the superuser. -/
def initOnly (pid : Fin nproc) : Proc where
  cwd := if pid.val = 0 then some rootIno else none
  ofile _ := none
  uid := 0
  gid := 0
  fsuid := 0
  fsgid := 0
  umask := 0
  dacOverride := true

/-- The start with an image without files. -/
def freshBoot : World := boot (Mkfs.main noInputs).nodes initOnly

/-- A call of the first process on a card with room. -/
def byInit (call : Call) : Request := ⟨⟨0, nproc_pos⟩, fun _ => false, 0, call⟩

/-- `rmdir("/usr/local/lib")`. -/
def removeLib : Request :=
  byInit
    (.unlinkat (Mkfs.ascii ['/', 'u', 's', 'r', '/', 'l', 'o', 'c', 'a', 'l', '/', 'l', 'i', 'b'])
    atFdcwd 0x200)

/-- `mkdir("/tmp")`. -/
def makeTmp : Request := byInit (.mkdirat (Mkfs.ascii ['/', 't', 'm', 'p']) atFdcwd 0o755)

theorem initOnly_atRoot : AtRoot initOnly := by
  intro pid
  refine ⟨fun _ => rfl, ?_⟩
  rw [initOnly]
  split
  · exact Or.inr rfl
  · exact Or.inl rfl

theorem freshBoot_bounded : Bounded freshBoot.nodes := by
  intro i allocated
  have links := (Mkfs.main_counted noInputs (by decide)).2 i
  simp only [freshBoot, boot] at allocated ⊢
  rw [links allocated]
  decide

/-- `mkdir("/tmp")` on a fresh image leaves no dangling entry. -/
theorem makeTmp_entries_allocated :
    (perform freshBoot makeTmp).toOption.any (fun w => (w.nodes 22).type = .dir) = true ∧
      ∀ w, perform freshBoot makeTmp = .ok w → ∀ d, Reachable w.nodes d →
        ∀ e ∈ (w.nodes d).entries, e.inum ≠ 0 → (w.nodes e.inum).type ≠ .free := by
  refine ⟨by decide +kernel, fun w run d reach e mem used => ?_⟩
  have safe : RemovesSafely freshBoot makeTmp := trivial
  have fits : 22 + noInputs.count ≤ ninodes := by decide
  exact entries_allocated fits initOnly_atRoot
    (.tail .refl ⟨freshBoot_bounded, safe⟩ run) reach mem used

/-- `rmdir("/usr/local/lib")` on a fresh image takes the only link of `/usr/local` and frees it,
though `/usr` still names it. -/
theorem removeLib_dangles :
    ∃ w, GuardedRun.Reaches (fun _ _ => True) perform (boot (Mkfs.main noInputs).nodes initOnly) w ∧
      ∃ d e, Reachable w.nodes d ∧ e ∈ (w.nodes d).entries ∧ e.inum ≠ 0 ∧
        (w.nodes e.inum).type = .free := by
  have evaluated : (perform freshBoot removeLib).toOption.any (fun w =>
      ⟨14, .dir, Mkfs.ascii ['u', 's', 'r']⟩ ∈ (w.nodes rootIno).entries ∧
      ⟨16, .dir, Mkfs.ascii ['l', 'o', 'c', 'a', 'l']⟩ ∈ (w.nodes 14).entries ∧
      (w.nodes 16).type = .free) = true := by decide +kernel
  obtain ⟨w, run, result⟩ := Except.exists_of_any evaluated
  obtain ⟨usr, locals, free⟩ := of_decide_eq_true result
  refine ⟨w, .tail .refl trivial run, 14, _, ?_, locals, by decide, free⟩
  exact Reachable.entry Reachable.root usr (by decide)

/-! ## Exact link counts -/

/-- Link counts are exact. -/
structure Exact (w : World) : Prop where
  /-- Every link has a name, and no directory misses a link. -/
  counted : Counted w.nodes (fun _ => 0) fun _ => 0
  /-- Removed directories are empty. -/
  tidy : Tidy w.nodes
  /-- The inode table counts open files and current directories. -/
  referenced : Referenced w.nodes w.uses 0

theorem exact_iff {w : World} : Exact w ↔ ∃ leak, Rest True w leak := by
  constructor
  · intro exact_w
    have referenced : Referenced w.nodes (fun i => w.uses i + 0) 0 := by
      simpa only [Nat.add_zero] using exact_w.referenced
    exact ⟨fun _ => 0, ⟨_, _, ⟨exact_w.counted, referenced⟩,
      fun _ => ⟨exact_w.tidy, fun _ => rfl, fun _ => rfl⟩⟩, fun _ _ => rfl⟩
  · rintro ⟨leak, ⟨extra, deficit, sound, tidy⟩, no_leak⟩
    obtain ⟨tidy_w, no_extra, no_deficit⟩ := tidy trivial
    obtain rfl : leak = fun _ => 0 := funext (no_leak trivial)
    obtain rfl : extra = fun _ => 0 := funext no_extra
    obtain rfl : deficit = fun _ => 0 := funext no_deficit
    refine ⟨sound.toCounted, tidy_w, ?_⟩
    simpa only [Nat.add_zero] using sound.toReferenced

/-- The calls of a run that neither make a name in a removed directory nor lose a new inode. -/
def Cleanly (w : World) (r : Request) : Prop := Bounded w.nodes ∧ MakesCleanly w r

theorem Exact.run {w v : World} (start : Exact w)
    (reached : GuardedRun.Reaches Cleanly perform w v) : Exact v := by
  refine reached.invariant Exact start ?_
  intro state next label holds admitted run
  obtain ⟨leak, rest⟩ := exact_iff.mp holds
  exact exact_iff.mpr
    (perform_rest rest admitted.1 (Or.inl trivial) (fun _ => admitted.2) run)

/-- Whatever calls processes make, the links of an inode that is not a directory are its names, a
directory with a name has one link and one for each subdirectory, a removed directory has none, and
an inode without a name is open or a current directory. -/
theorem links_exact {w v : World} (start : Exact w)
    (reached : GuardedRun.Reaches Cleanly perform w v) :
    (∀ i, (v.nodes i).type ≠ .free → (v.nodes i).type ≠ .dir →
        (v.nodes i).nlink = names v.nodes i) ∧
      (∀ d, (v.nodes d).type = .dir → Linked v.nodes d →
        (v.nodes d).nlink = 1 + (v.nodes d).subdirs) ∧
      (∀ d, (v.nodes d).type = .dir → ¬Linked v.nodes d → (v.nodes d).nlink = 0) ∧
      ∀ i, (v.nodes i).type ≠ .free → v.uses i = 0 → Linked v.nodes i := by
  have exact_v := start.run reached
  have counted := exact_v.counted
  have removed : ∀ d, (v.nodes d).type = .dir → ¬Linked v.nodes d → (v.nodes d).nlink = 0 := by
    intro d dir unnamed
    have childless : (v.nodes d).subdirs = 0 := by
      rw [Node.subdirs, List.countP_eq_zero]
      intro e mem
      simp [exact_v.tidy d dir unnamed e mem]
    rw [counted.removedLinks d dir unnamed, childless]
    rfl
  refine ⟨fun i allocated plain => ?_, fun d dir linked => ?_, removed,
    fun i allocated unused => ?_⟩
  · have links := counted.plainLinks i allocated plain
    omega
  · have links := (counted.linkedLinks d dir linked).1
    omega
  · by_contra unnamed
    have zero : (v.nodes i).nlink = 0 := by
      by_cases dir : (v.nodes i).type = .dir
      · exact removed i dir unnamed
      · have links := counted.plainLinks i allocated dir
        rw [Linked, not_or] at unnamed
        omega
    have alive := (exact_v.referenced.alive i allocated zero).1
    rw [exact_v.referenced.ref, unused, Multiset.count_zero] at alive
    omega

/-- A card with an empty root directory. -/
def emptyRoot : Nodes :=
  (Mkfs.makeDirent (Mkfs.makeDirent (Mkfs.ialloc Mkfs.zeroes .dir 0 0 0o40775) 1 .dir 1 dot) 1 .dir
    1 dotdot).nodes

/-- The start with an empty root directory. -/
def emptyBoot : World := boot emptyRoot initOnly

theorem emptyBoot_linked (d : Nat) (dir : (emptyBoot.nodes d).type = .dir) :
    Linked emptyBoot.nodes d := by
  have same := boot_sameData emptyRoot initOnly
  change ((boot emptyRoot initOnly).nodes d).type = .dir at dir
  rw [(same d).type] at dir
  exact (Linked.congr (names_congr fun d => (same d).entries)).mpr
    ((Mkfs.Built.root 0 0 0o40775).linked d dir)

theorem emptyBoot_exact : Exact emptyBoot := by
  have built := Mkfs.Built.root 0 0 0o40775
  have no_subdirs : ∀ d, (emptyRoot d).subdirs = 0 := by
    intro d
    by_cases is_root : d = 1
    · rw [is_root]
      rfl
    · simp [emptyRoot, Mkfs.makeDirent, Mkfs.ialloc, Mkfs.zeroes, is_root, Node.subdirs,
        Node.proper, Mkfs.blank]
  have counted : Counted emptyRoot (fun _ => 0) fun _ => 0 := by
    have deficit : (fun d => (emptyRoot d).subdirs) = fun _ => 0 := funext no_subdirs
    exact deficit ▸ built.counted
  refine ⟨counted.congr (boot_sameData emptyRoot initOnly), fun d dir removed => ?_, ?_⟩
  · exact absurd (emptyBoot_linked d dir) removed
  · exact boot_referenced counted.root.1
      (fun i allocated => by rw [emptyRoot, built.links i allocated]; decide) initOnly_atRoot

/-- Where link counts are exact, only the inodes of the table need a look. -/
theorem Exact.bounded {w : World} (exact_w : Exact w)
    (small : ((List.range ninodes).all fun i => (w.nodes i).nlink < 32767) = true) :
    Bounded w.nodes := by
  intro i allocated
  have i_lt := (exact_w.counted.bounded i allocated).2
  have holds := List.all_eq_true.mp small i (List.mem_range.mpr i_lt)
  exact of_decide_eq_true holds

/-- The path `/d`. -/
def slashD : Path := Mkfs.ascii ['/', 'd']

/-- `mkdir("/d")`. -/
def makeD : Request := byInit (.mkdirat slashD atFdcwd 0o755)

/-- `chdir("/d")`. -/
def enterD : Request := byInit (.chdir slashD)

/-- `rmdir("/d")`. -/
def removeD : Request := byInit (.unlinkat slashD atFdcwd 0x200)

theorem emptyBoot_bounded : Bounded emptyBoot.nodes :=
  emptyBoot_exact.bounded (by decide +kernel)

theorem makeD_cleanly : MakesCleanly emptyBoot makeD := Or.inl rfl

/-- `mkdir("/d")` gives the root a second link. -/
theorem makeD_links_exact :
    (perform emptyBoot makeD).toOption.any (fun w =>
        (w.nodes rootIno).subdirs = 1 ∧ (w.nodes 2).type = .dir) = true ∧
      ∀ w, perform emptyBoot makeD = .ok w →
        (w.nodes rootIno).nlink = 1 + (w.nodes rootIno).subdirs := by
  refine ⟨by decide +kernel, fun w run => ?_⟩
  have reached : GuardedRun.Reaches Cleanly perform emptyBoot w :=
    .tail .refl ⟨emptyBoot_bounded, makeD_cleanly⟩ run
  have root := (emptyBoot_exact.run reached).counted.root.1
  exact (links_exact emptyBoot_exact reached).2.1 rootIno root (Or.inl rfl)

/-- A directory that is removed while it is a current directory stays allocated without a link. -/
theorem removeD_unequal :
    (∀ i, (emptyBoot.nodes i).type ≠ .free → (emptyBoot.nodes i).type ≠ .dir →
        (emptyBoot.nodes i).nlink = names emptyBoot.nodes i) ∧
      (∀ d, (emptyBoot.nodes d).type = .dir →
        (emptyBoot.nodes d).nlink = 1 + (emptyBoot.nodes d).subdirs) ∧
      ∃ v, GuardedRun.Reaches (fun w _ => Bounded w.nodes) perform emptyBoot v ∧
        ∃ d, (v.nodes d).type = .dir ∧ (v.nodes d).nlink ≠ 1 + (v.nodes d).subdirs := by
  have counted := emptyBoot_exact.counted
  refine ⟨fun i allocated plain => ?_, fun d dir => ?_, ?_⟩
  · have links := counted.plainLinks i allocated plain
    omega
  · have links := (counted.linkedLinks d dir (emptyBoot_linked d dir)).1
    omega
  have made : (perform emptyBoot makeD).toOption.any (fun w =>
      (List.range ninodes).all fun i => (w.nodes i).nlink < 32767) = true := by decide +kernel
  obtain ⟨w₁, run₁, small₁⟩ := Except.exists_of_any made
  have exact₁ : Exact w₁ :=
    emptyBoot_exact.run (.tail .refl ⟨emptyBoot_bounded, makeD_cleanly⟩ run₁)
  have entered : (perform emptyBoot makeD >>= fun w => perform w enterD).toOption.any (fun w =>
      (List.range ninodes).all fun i => (w.nodes i).nlink < 32767) = true := by decide +kernel
  rw [run₁, Except.ok_bind] at entered
  obtain ⟨w₂, run₂, small₂⟩ := Except.exists_of_any entered
  have enters : MakesCleanly w₁ enterD := trivial
  have exact₂ : Exact w₂ :=
    exact₁.run (.tail .refl ⟨exact₁.bounded small₁, enters⟩ run₂)
  have removed : (perform emptyBoot makeD >>= fun w => perform w enterD >>= fun w =>
      perform w removeD).toOption.any (fun w =>
        (w.nodes 2).type = .dir ∧ (w.nodes 2).nlink = 0) = true := by decide +kernel
  rw [run₁, Except.ok_bind, run₂, Except.ok_bind] at removed
  obtain ⟨v, run₃, result⟩ := Except.exists_of_any removed
  obtain ⟨dir, zero⟩ := of_decide_eq_true result
  refine ⟨v, .tail (.tail (.tail .refl emptyBoot_bounded run₁) (exact₁.bounded small₁) run₂)
    (exact₂.bounded small₂) run₃, 2, dir, ?_⟩
  rw [zero]
  omega

end Dir
end Xv6Duo
