import Xv6Duo.Sync.Sleeping

/-!
# Mutual exclusion of sleep locks

In every run of the kernel at most one process holds a sleep lock, and no process sleeps on a sleep
lock that is free.
-/

namespace Xv6Duo
namespace Sync

open Process (ProcState nproc)

variable {ι : Type} [DecidableEq ι] {m m' : Kernel ι} {held : Fin nproc → List ι}

/-! ## The scheduler -/

/-- Only the scheduler moves. -/
theorem Excludes.frame (ex : Excludes m held) (here : m.running = none)
    (running : m'.running = m.running) (proc : m'.proc = m.proc) (idle : m'.idle = m.idle)
    (lock : m'.data.lock = m.data.lock) : Excludes m' held := by
  have left := Machine.ops_congr running proc idle
  refine ex.move ⟨running, lock, fun _ => idle, fun j _ => by rw [proc], fun j _ sleeps => ?_⟩ ?_ ?_
    ?_ ?_
  · rw [proc] at sleeps ⊢
    exact ⟨sleeps, rfl⟩
  · rw [left]
    exact fun h balanced => balanced
  · rw [left, Machine.ops_of_none here]
    exact ex.handlers
  · intro i there
    rw [here] at there
    cases there
  · rw [left]
    exact fun j l _ _ _ wake => wake

/-- The scheduler switches to a process. -/
theorem Excludes.dispatch (ex : Excludes m held) (here : m.running = none) (no_idle : m.idle = [])
    (i : Fin nproc) :
    Excludes { m.setProc i { m.proc i with state := .running } with
      running := some i, pass := .away i } held := by
  have awake : ((m.setProc i { m.proc i with state := .running }).proc i).state ≠ .sleeping := by
    rw [setProc_self]
    rintro ⟨⟩
  have unrun (j : Fin nproc) : m.running ≠ some j := by
    rw [here]
    rintro ⟨⟩
  have ops (j : Fin nproc) :
      ((m.setProc i { m.proc i with state := .running }).proc j).ops = (m.proc j).ops := by
    by_cases same : j = i
    · subst same
      rw [setProc_self]
    · rw [setProc_of_ne m same]
  constructor
  case balanced =>
    intro j
    change locks _ ((m.setProc i _).proc j).ops = _
    rw [ops j]
    exact ex.balanced j
  case idle => exact ex.idle
  case nodup => exact ex.nodup
  case owner => exact ex.owner
  case owned => exact ex.owned
  case parked =>
    intro j _
    change ∀ op ∈ ((m.setProc i _).proc j).ops, settled op
    rw [ops j]
    exact ex.parked j (unrun j)
  case handlers =>
    rintro ⟨⟩
  case place =>
    intro j there
    cases there
    refine .clear awake ?_
    change ∀ op ∈ ((m.setProc i _).proc i).ops, settled op
    rw [ops i]
    exact ex.parked i (unrun i)
  case asleep =>
    intro j l sleeps chan
    change ((m.setProc i _).proc j).state = .sleeping at sleeps
    change ((m.setProc i _).proc j).chan = some (.sleep l) at chan
    by_cases same : j = i
    · subst same
      exact absurd sleeps awake
    · rw [setProc_of_ne m same] at sleeps chan
      left
      rcases ex.asleep j l sleeps chan with locked | wake
      · exact locked
      · rw [Machine.ops_of_none here, no_idle] at wake
        cases wake

theorem Excludes.scheduler (ex : Excludes m held) (here : m.running = none) (no_idle : m.idle = [])
    (run : m.scheduler = .ok m') : Excludes m' held := by
  rw [Machine.scheduler] at run
  cases place : m.pass with
  | next i =>
      rw [place] at run
      dsimp only at run
      split at run
      · cases run
        exact ex.frame here rfl rfl rfl rfl
      · cases run
        exact ex.frame here rfl rfl rfl rfl
  | taking i old =>
      rw [place] at run
      cases take_eq run
      exact ex.frame here rfl rfl rfl rfl
  | testing i =>
      rw [place] at run
      dsimp only at run
      split at run
      · cases run
        exact ex.dispatch here no_idle i
      · cases run
        exact ex.frame here rfl rfl rfl rfl
  | away i =>
      rw [place] at run
      cases run
  | back i =>
      rw [place] at run
      cases release_eq run
      exact ex.frame here rfl rfl rfl rfl

/-! ## Interrupts and traps -/

/-- Interrupts come outside of `sleep` and `wakeup`. -/
theorem Excludes.enabled (good : Good (kernelDiscipline ι) m) (ex : Excludes m held)
    (enabled : m.sie = true) : Clear m := by
  have none_locked {lk : Lock (Spin ι)} (locked : m.locked lk = true) : False := by
    have off := good.disabled locked
    rw [enabled] at off
    cases off
  cases here : m.running with
  | none =>
      refine ⟨fun i there => ?_, ?_⟩
      · rw [here] at there
        cases there
      · rw [Machine.ops_of_none here]
        exact ex.handlers here
  | some i =>
      cases ex.place i here with
      | clear awake clear =>
          refine ⟨fun j there => ?_, clear⟩
          cases here.symm.trans there
          exact awake
      | waking awake l first last ops all clear locked => exact (none_locked locked).elim
      | dozing l last busy clear place =>
          obtain ⟨lk, locked⟩ := place.locked
          exact (none_locked locked).elim

/-- An interrupt handler is called. -/
theorem Excludes.interrupt (good : Good (kernelDiscipline ι) m) (ex : Excludes m held)
    (enabled : m.sie = true) (handler : List (KernelOp ι))
    (same : ∀ op ∈ handler, ∀ h, opLocks h op = some h) (calm : ∀ op ∈ handler, settled op) :
    Excludes { m.setOps (handler ++ m.ops) with sie := false } held := by
  have clear := Excludes.enabled good ex enabled
  refine ex.clear_setOps clear (handler ++ m.ops) ?_ ?_ rfl rfl rfl
    (congrArg Shared.lock (setOps_data m _))
  · intro h balanced
    rw [locks_append_of_same fun op among => same op among h]
    exact balanced
  · intro op among
    rcases List.mem_append.mp among with new | old
    · exact calm op new
    · exact clear.settled op old

/-- Actions of a system call that unlocks what it locks. -/
def balanced (actions : List (Action ι)) : Bool :=
  actions.foldlM Action.locks [] == some []

/-- What user mode may trap for. -/
def Label.allowed : Label (Call ι) → Bool
  | .trap (.usertrap actions) => balanced actions
  | .trap .usertimer => true
  | .trap _ => false
  | _ => true

/-- Labels that may come. -/
def Permits (m : Kernel ι) (label : Label (Call ι)) : Prop :=
  guard m label ∧ label.allowed = true

theorem Permits.admits {label : Label (Call ι)} (permitted : Permits m label) :
    Admits (kernelDiscipline ι) m label := by
  refine ⟨permitted.1, fun c same i => ?_⟩
  subst same
  cases c with
  | usertrap actions => rfl
  | usertimer => rfl
  | _ => cases permitted.2

/-- A trap from user mode. -/
theorem Excludes.trap (ex : Excludes m held) {c : Call ι} (in_user : m.running.isSome ∧ m.ops = [])
    (allowed : Label.allowed (.trap c) = true) : Excludes (m.setOps [.call c]) held := by
  obtain ⟨some_runs, no_ops⟩ := in_user
  obtain ⟨i, here⟩ := Option.isSome_iff_exists.mp some_runs
  have clear : Clear m := by
    refine ⟨fun j there => ?_, ?_⟩
    · cases ex.place j there with
      | clear awake _ => exact awake
      | waking awake _ _ _ _ _ _ _ => exact awake
      | dozing l last busy clear place =>
          rw [no_ops] at place
          cases place
    · rw [no_ops]
      rintro op ⟨⟩
  refine ex.clear_setOps clear [.call c] ?_ ?_ rfl rfl rfl (congrArg Shared.lock (setOps_data m _))
  · intro h none_held
    rw [no_ops] at none_held
    cases none_held
    cases c with
    | usertrap actions =>
        change (actions.foldlM Action.locks []).bind _ = _
        rw [eq_of_beq (show (actions.foldlM Action.locks [] == some []) = true from allowed)]
        rfl
    | usertimer => rfl
    | _ => cases allowed
  · intro op among
    cases List.mem_singleton.mp among
    trivial

/-! ## Runs -/

/-- Every step. -/
theorem Excludes.step (good : Good (kernelDiscipline ι) m) (ex : Excludes m held)
    {label : Label (Call ι)} (permitted : Permits m label)
    (run : step (kernel ι) m label = .ok m') : ∃ held', Excludes m' held' := by
  cases label with
  | run =>
      rw [Sync.step] at run
      cases next : m.ops with
      | cons op rest =>
          rw [next] at run
          exact ex.exec good next run
      | nil =>
          rw [next] at run
          have here : m.running = none := by
            by_contra some_runs
            exact permitted.1 ⟨Option.ne_none_iff_isSome.mp some_runs, next⟩
          have no_idle : m.idle = [] := (Machine.ops_of_none here).symm.trans next
          exact ⟨held, ex.scheduler here no_idle run⟩
  | timer =>
      cases run
      refine ⟨held, Excludes.interrupt good ex permitted.1.1
        [.call .clockintr, .preempt, .sret] ?_ ?_⟩
      · simp [opLocks, Call.locks]
      · simp [settled]
  | device =>
      cases run
      refine ⟨held, Excludes.interrupt good ex permitted.1.1 [.call .devintr, .sret] ?_ ?_⟩
      · simp [opLocks, Call.locks]
      · simp [settled]
  | trap c =>
      cases run
      exact ⟨held, ex.trap permitted.1 permitted.2⟩

theorem boot_excludes (ready : Fin nproc → Bool) : Excludes (boot ι ready) fun _ => [] := by
  constructor
  case balanced =>
    intro i
    cases fresh : ready i <;> simp [boot, fresh, locks_cons, opLocks, Call.locks]
  case idle => rfl
  case nodup => exact fun _ => List.nodup_nil
  case owner =>
    rintro i l ⟨⟩
  case owned =>
    rintro l ⟨⟩
  case parked =>
    intro i _
    cases fresh : ready i <;> simp [boot, fresh, settled]
  case handlers =>
    rintro _ op ⟨⟩
  case place =>
    rintro i ⟨⟩
  case asleep =>
    intro i l sleeps
    cases fresh : ready i <;> simp [boot, fresh] at sleeps

/-- What holds of sleep locks between two operations. -/
structure Exclusive (m : Kernel ι) : Prop where
  /-- At most one process holds a lock. -/
  exclusive : ∀ l i j, inside l (m.proc i).ops = true → inside l (m.proc j).ops = true → i = j
  /-- The lock says which. -/
  owner : ∀ l i, inside l (m.proc i).ops = true ↔
    m.data.lock l = { locked := true, pid := some i }
  /-- A lock that is locked is held. -/
  held : ∀ l, (m.data.lock l).locked = true → ∃ i, inside l (m.proc i).ops = true
  /-- `iunlock` does not panic for want of the lock. -/
  calm : ∀ i, .call .panic ∉ (m.proc i).ops
  /-- Nobody sleeps on a lock that is free, unless its spin lock is held. -/
  asleep : ∀ i l, (m.proc i).state = .sleeping → (m.proc i).chan = some (.sleep l) →
    m.locked (spin l) = false → (m.data.lock l).locked = true

theorem locks_panic {h : List ι} {ops : List (KernelOp ι)} (balanced : locks h ops = some []) :
    .call .panic ∉ ops := by
  induction ops generalizing h with
  | nil => exact List.not_mem_nil
  | cons op ops ih =>
      rw [locks_cons] at balanced
      obtain ⟨later, one, others⟩ := Option.bind_eq_some_iff.mp balanced
      rintro among
      cases among with
      | head => cases one
      | tail _ among => exact ih others among

theorem Excludes.exclusive (ex : Excludes m held) : Exclusive m := by
  have inside_iff (l : ι) (i : Fin nproc) : inside l (m.proc i).ops = true ↔ l ∈ held i :=
    (mem_iff_inside (ex.balanced i)).symm
  have owner (l : ι) (i : Fin nproc) :
      l ∈ held i ↔ m.data.lock l = { locked := true, pid := some i } := by
    refine ⟨ex.owner i l, fun named => ?_⟩
    obtain ⟨j, among⟩ := ex.owned l (by rw [named])
    cases named.symm.trans (ex.owner j l among)
    exact among
  constructor
  case exclusive =>
    intro l i j mine yours
    rw [inside_iff, owner] at mine yours
    cases mine.symm.trans yours
    rfl
  case owner =>
    intro l i
    rw [inside_iff, owner]
  case held =>
    intro l locked
    obtain ⟨i, among⟩ := ex.owned l locked
    exact ⟨i, (inside_iff l i).mpr among⟩
  case calm => exact fun i => locks_panic (ex.balanced i)
  case asleep =>
    intro i l sleeps chan free
    rcases ex.asleep i l sleeps chan with locked | wake
    · exact locked
    · cases here : m.running with
      | none =>
          rw [Machine.ops_of_none here] at wake
          exact (ex.handlers here _ wake).elim
      | some j =>
          cases ex.place j here with
          | clear _ clear => exact (clear _ wake).elim
          | waking _ k first last ops all clear locked =>
              rw [ops] at wake
              rcases List.mem_append.mp wake with among | among
              · cases (show Event.sleep l = .sleep k from all _ among)
                rw [free] at locked
                cases locked
              · cases among with
                | tail _ among => exact (clear _ among).elim
          | dozing k last _ clear place => exact (place.no_wake clear wake).elim

/-- In every run of the kernel a sleep lock is held by one process at most, the one that it names,
and nobody sleeps on a lock that is free, whatever interrupts and signals come. -/
theorem sleeplock_excludes {ready : Fin nproc → Bool}
    (reached : GuardedRun.Reaches Permits (step (kernel ι)) (boot ι ready) m) : Exclusive m := by
  have invariant : Good (kernelDiscipline ι) m ∧ ∃ held, Excludes m held := by
    apply reached.invariant (fun m => Good (kernelDiscipline ι) m ∧ ∃ held, Excludes m held)
    · exact ⟨(boot_boots ι ready).good, _, boot_excludes ready⟩
    · rintro state next label ⟨good, held, ex⟩ permitted succeeds
      obtain ⟨result, run, kept⟩ := step_keeps good permitted.admits
      cases run.symm.trans succeeds
      exact ⟨kept, ex.step good permitted succeeds⟩
  obtain ⟨-, held, ex⟩ := invariant
  exact ex.exclusive

instance (m : Kernel ι) (label : Label (Call ι)) : Decidable (Permits m label) :=
  inferInstanceAs (Decidable (guard m label ∧ label.allowed = true))

/-- The first process. -/
def firstProc : Fin nproc := ⟨0, Process.nproc_pos⟩

/-- A process locks an inode. -/
def lockRun : List (Label (Call Bool)) :=
  List.replicate 7 .run ++ .trap (.usertrap [.ilock true, .iunlock true]) :: List.replicate 8 .run

theorem sleeplock_excludes_locked : ∃ m : Kernel Bool,
    GuardedRun.Reaches Permits (step (kernel Bool)) (boot Bool fun _ => true) m ∧
    inside true (m.proc firstProc).ops = true ∧ Exclusive m := by
  obtain ⟨m, reached, holds⟩ := GuardedRun.exists_reaches_of_replay Permits (step (kernel Bool))
    (boot Bool fun _ => true) lockRun (fun m => inside true (m.proc firstProc).ops)
    (by decide +kernel)
  exact ⟨m, reached, holds, sleeplock_excludes reached⟩

end Sync
end Xv6Duo
