import Xv6Duo.Sync.Safety
import Xv6Duo.Sync.Sleeplock

/-!
# Runs of the kernel

The scheduler, interrupts and traps keep the invariant too. So in a run of disciplined kernel code
from its boot no step panics, and interrupts are disabled as long as a lock is held.
-/

namespace Xv6Duo
namespace Sync

open Process (ProcState nproc)

variable {κ χ ν σ : Type} [DecidableEq κ] {code : Code κ χ ν σ} {disc : Discipline code}
  {m m' : Machine κ χ ν σ} {mode : Mode κ}

/-! ## The scheduler -/

/-- Only the scheduler moves. -/
theorem Good.of_scheduling (good : Good disc m) (here : m.running = none) (no_idle : m.idle = [])
    (proc : m'.proc = m.proc) (running : m'.running = m.running) (idle : m'.idle = m.idle)
    (scheduling : Scheduling m') : Good disc m' where
  parked i other := by
    rw [proc]
    rw [running] at other
    exact good.parked i other
  idle _ := running.trans here
  context := Or.inr ⟨running.trans here, idle.trans no_idle, scheduling⟩

/-- The scheduler switches to a process. -/
theorem dispatch_keeps {i : Fin nproc} (good : Good disc m) (here : m.running = none)
    (no_idle : m.idle = []) (counted : Counted m [.proc i])
    (ready : (m.proc i).state = .runnable) :
    Good disc { m.setProc i { m.proc i with state := .running } with
      running := some i, pass := .away i } where
  parked j other := by
    have apart : j ≠ i := by
      rintro rfl
      exact other rfl
    change Parked disc j ((m.setProc i _).proc j)
    rw [setProc_of_ne m apart]
    apply good.parked j
    rw [here]
    exact (Option.some_ne_none j).symm
  idle busy := absurd no_idle busy
  context := by
    have unrun : m.running ≠ some i := by
      rw [here]
      exact (Option.some_ne_none i).symm
    have parked := good.parked i unrun
    refine Or.inl ⟨{ held := [.proc i], going := true, ie := m.intena }, ?fits, ?allowed, ?going,
      ?own, fun none_runs => absurd none_runs (Option.some_ne_none i)⟩
    case fits =>
      exact ⟨counted.congr rfl rfl rfl, fun none_held => absurd none_held (List.cons_ne_nil _ _),
        fun _ => rfl⟩
    case allowed =>
      change check disc.sig (some i) _ ((m.setProc i _).proc i).ops = some quiet
      rw [setProc_self]
      exact parked.allowed (Or.inl ready) m.intena
    case going =>
      intro j runs
      cases runs
      change _ ↔ ((m.setProc i _).proc i).state = _
      rw [setProc_self]
      simp
    case own =>
      intro j runs _
      cases runs
      exact List.mem_cons_self

theorem scheduler_keeps (good : Good disc m) (here : m.running = none) (no_idle : m.idle = [])
    (scheduling : Scheduling m) : Keeps disc m.scheduler := by
  cases scheduling with
  | free place counted =>
      rw [Machine.scheduler]
      cases at_pass : m.pass with
      | next i =>
          dsimp only
          split
          · exact ⟨_, rfl, good.of_scheduling here no_idle rfl rfl rfl
              (.free trivial (counted.congr rfl rfl rfl))⟩
          · refine ⟨_, rfl, good.of_scheduling here no_idle rfl rfl rfl (.free trivial ?_)⟩
            exact ⟨counted.nodup, counted.locked, counted.noff,
              fun some_held => absurd rfl some_held⟩
      | taking i old =>
          have start : Counted { m with pass := .testing i } [] := counted.congr rfl rfl rfl
          obtain ⟨run, taken⟩ := take_counted start List.not_mem_nil old
          exact ⟨_, run, good.of_scheduling here no_idle rfl rfl rfl (.testing i rfl taken)⟩
      | testing i =>
          rw [at_pass] at place
          exact place.elim
      | away i =>
          rw [at_pass] at place
          exact place.elim
      | back i =>
          rw [at_pass] at place
          exact place.elim
  | testing i place counted =>
      rw [Machine.scheduler, place]
      dsimp only
      split
      · next ready => exact ⟨_, rfl, dispatch_keeps good here no_idle counted ready⟩
      · exact ⟨_, rfl, good.of_scheduling here no_idle rfl rfl rfl
          (.back i rfl (counted.congr rfl rfl rfl))⟩
  | back i place counted =>
      rw [Machine.scheduler, place]
      have start : Counted { m with pass := .next (i.val + 1) } [.proc i] :=
        counted.congr rfl rfl rfl
      obtain ⟨next, run, released, rfl⟩ := release_counted start List.mem_cons_self
      rw [List.erase_cons_head] at released
      exact ⟨_, run, good.of_scheduling here no_idle rfl rfl rfl (.free trivial released)⟩

/-! ## Interrupts -/

/-- Where interrupts are enabled. -/
theorem Runs.enabled (runs : Runs disc m mode) (enabled : m.sie = true) : mode = interruptible := by
  have none_held : mode.held = [] := by
    by_contra some_held
    have off := runs.fits.counted.sie some_held
    rw [enabled] at off
    cases off
  have ie : mode.ie = true := by
    rw [← runs.fits.free none_held, enabled]
  have going : mode.going = true := by
    by_contra stopped
    rw [Bool.not_eq_true] at stopped
    cases here : m.running with
    | none =>
        rw [(runs.idle here).1] at stopped
        cases stopped
    | some i =>
        have own := runs.own i here stopped
        rw [none_held] at own
        exact List.not_mem_nil own
  obtain ⟨held, still, ie'⟩ := mode
  cases none_held
  cases ie
  cases going
  rfl

/-- An interrupt whose handler leaves everything as it was. -/
theorem interrupt_keeps {handler : List (Op κ χ ν)} (good : Good disc m) (enabled : m.sie = true)
    (handled : check disc.sig m.running quiet handler = some interruptible) :
    Good disc { m.setOps (handler ++ m.ops) with sie := false } := by
  have near := local_setOps m (handler ++ m.ops)
  -- With interrupts enabled no lock is held, and the scheduler is where it may be interrupted.
  have start : ∃ runs : Counted m [], (∀ i, m.running = some i → (m.proc i).state = .running) ∧
      (m.running = none → m.pass.Free) ∧
      check disc.sig m.running interruptible m.ops = some (last m.running) := by
    rcases good.context with ⟨mode, runs⟩ | ⟨here, no_idle, scheduling⟩
    · have same := runs.enabled enabled
      subst same
      exact ⟨runs.fits.counted, fun i here => (runs.going i here).mp rfl,
        fun here => (runs.idle here).2, runs.allowed⟩
    · have locked {i : Fin nproc} (counted : Counted m [.proc i]) : False := by
        have off := counted.sie (List.cons_ne_nil _ _)
        rw [enabled] at off
        cases off
      cases scheduling with
      | free place counted =>
          refine ⟨counted, fun i runs => ?_, fun _ => place, ?_⟩
          · rw [here] at runs
            cases runs
          · rw [Machine.ops_of_none here, no_idle, here]
            rfl
      | testing i place counted => exact (locked counted).elim
      | back i place counted => exact (locked counted).elim
  obtain ⟨counted, going, place, allowed⟩ := start
  refine good.of_local ⟨near.running, near.pass, near.others, near.idle⟩
    ⟨quiet, ?fits, ?allowed, ?going, ?own, ?idle⟩
  case fits =>
    have noff : (m.setOps (handler ++ m.ops)).noff = 0 := by
      rw [setOps_noff]
      exact counted.noff
    refine ⟨⟨List.nodup_nil, fun lk => ?_, noff, fun some_held => absurd rfl some_held⟩,
      fun _ => rfl, fun some_held => absurd rfl some_held⟩
    change (m.setOps (handler ++ m.ops)).locked lk = true ↔ _
    rw [setOps_locked]
    exact counted.locked lk
  case allowed =>
    change check disc.sig (m.setOps _).running quiet (m.setOps _).ops =
      some (last (m.setOps _).running)
    rw [ops_setOps, setOps_running, check_append, handled]
    exact allowed
  case going =>
    intro i here
    rw [near.running] at here
    change _ ↔ ((m.setOps _).proc i).state = _
    rw [state_setOps, going i here]
    simp [quiet]
  case own =>
    intro _ _ off
    cases off
  case idle =>
    intro here
    rw [near.running] at here
    refine ⟨rfl, ?_⟩
    change (m.setOps _).pass.Free
    rw [setOps_pass]
    exact place here

/-! ## Boot -/

/-- The kernel when it starts its scheduler. -/
structure Boot (code : Code κ χ ν σ) (m : Machine κ χ ν σ) : Prop where
  /-- No lock is held. -/
  locked : ∀ lk, m.locked lk = false
  /-- `noff`. -/
  noff : m.noff = 0
  /-- The scheduler runs. -/
  running : m.running = none
  /-- It is before its first pass. -/
  pass : m.pass = .next nproc
  /-- No interrupt handler runs. -/
  idle : m.idle = []
  /-- Processes are free, or new. -/
  proc : ∀ i, (m.proc i).state = .unused ∨
    (m.proc i).state = .runnable ∧ (m.proc i).ops = [.release (.proc i), .call code.forkret]

theorem Boot.good (boot : Boot code m) : Good disc m where
  parked i _ := by
    rcases boot.proc i with free | ⟨ready, ops⟩
    · refine ⟨by simp [free], fun waits => ?_⟩
      simp [free] at waits
    · refine ⟨by simp [ready], fun _ ie => ?_⟩
      rw [ops]
      exact disc.check_forkret i ie
  idle _ := boot.running
  context := by
    refine Or.inr ⟨boot.running, boot.idle, .free ?_ ⟨List.nodup_nil, fun lk => ?_, boot.noff,
      fun some_held => absurd rfl some_held⟩⟩
    · rw [boot.pass]
      trivial
    · simp [boot.locked lk]

/-! ## What the invariant says -/

/-- What holds between two operations. -/
structure Orderly (m : Machine κ χ ν σ) : Prop where
  /-- Interrupts are disabled while a lock is held. -/
  disabled : ∀ lk, m.locked lk = true → m.sie = false
  /-- `noff` is the number of locks that are held. -/
  counted : ∃ held : List (Lock κ), held.Nodup ∧ (∀ lk, m.locked lk = true ↔ lk ∈ held) ∧
    m.noff = held.length
  /-- No process but the one on the processor is `RUNNING`. -/
  running : ∀ i, (m.proc i).state = .running → m.running = some i
  /-- In user mode no lock is held. -/
  user : ∀ i, m.running = some i → (m.proc i).ops = [] → ∀ lk, m.locked lk = false

/-- The locks that are held. -/
theorem Good.counted (good : Good disc m) : ∃ held, Counted m held := by
  rcases good.context with ⟨mode, runs⟩ | ⟨-, -, scheduling⟩
  · exact ⟨_, runs.fits.counted⟩
  · cases scheduling with
    | free place counted => exact ⟨_, counted⟩
    | testing i place counted => exact ⟨_, counted⟩
    | back i place counted => exact ⟨_, counted⟩

theorem Good.disabled (good : Good disc m) {lk : Lock κ} (locked : m.locked lk = true) :
    m.sie = false := by
  obtain ⟨held, counted⟩ := good.counted
  exact counted.sie (List.ne_nil_of_mem ((counted.locked lk).mp locked))

theorem Good.orderly (good : Good disc m) : Orderly m where
  disabled _ := good.disabled
  counted := by
    obtain ⟨held, counted⟩ := good.counted
    exact ⟨held, counted.nodup, counted.locked, counted.noff⟩
  running i runs := by
    by_contra other
    exact (good.parked i other).state runs
  user i here no_ops lk := by
    rcases good.context with ⟨mode, runs⟩ | ⟨there, -, -⟩
    · have allowed := runs.allowed
      rw [Machine.ops, here] at allowed
      change check _ _ _ (m.proc i).ops = _ at allowed
      rw [no_ops] at allowed
      cases Option.some.inj allowed
      rw [← Bool.not_eq_true, runs.fits.counted.locked]
      exact List.not_mem_nil
    · rw [there] at here
      cases here

/-! ## Steps -/

/-- Labels that may come. -/
def Admits (disc : Discipline code) (m : Machine κ χ ν σ) (label : Label ν) : Prop :=
  guard m label ∧ ∀ c, label = .trap c → ∀ i, disc.sig c (some i) quiet = some quiet

section

variable [DecidableEq χ]

/-- Every step keeps the invariant, and none panics. -/
theorem step_keeps {label : Label ν} (good : Good disc m) (admitted : Admits disc m label) :
    Keeps disc (step code m label) := by
  cases label with
  | run =>
      rw [step]
      cases next : m.ops with
      | cons op rest =>
          rcases good.context with ⟨mode, runs⟩ | ⟨here, no_idle, scheduling⟩
          · exact exec_keeps good runs next
          · rw [Machine.ops_of_none here, no_idle] at next
            cases next
      | nil =>
          have here : m.running = none := by
            by_contra some_runs
            exact admitted.1 ⟨Option.ne_none_iff_isSome.mp some_runs, next⟩
          have no_idle : m.idle = [] := (Machine.ops_of_none here).symm.trans next
          apply scheduler_keeps good here no_idle
          rcases good.context with ⟨mode, runs⟩ | ⟨-, -, scheduling⟩
          · have allowed := runs.allowed
            rw [next, here] at allowed
            cases Option.some.inj allowed
            exact .free (runs.idle here).2 runs.fits.counted
          · exact scheduling
  | timer =>
      refine ⟨_, rfl, interrupt_keeps good admitted.1.1 (?_ : check disc.sig m.running quiet
        [.call code.timer, .preempt, .sret] = _)⟩
      rw [check_cons, Op.after, disc.timer]
      rfl
  | device =>
      refine ⟨_, rfl, interrupt_keeps good admitted.1.1 (?_ : check disc.sig m.running quiet
        [.call code.device, .sret] = _)⟩
      rw [check_cons, Op.after, disc.device]
      rfl
  | trap c =>
      obtain ⟨⟨some_runs, no_ops⟩, sig⟩ := admitted
      obtain ⟨i, here⟩ := Option.isSome_iff_exists.mp some_runs
      rcases good.context with ⟨mode, runs⟩ | ⟨there, -, -⟩
      · have allowed := runs.allowed
        rw [no_ops, here] at allowed
        cases Option.some.inj allowed
        refine ⟨_, rfl, good.of_local (local_setOps m _) ⟨quiet, ?_⟩⟩
        apply runs.advance (setOps_running m _) (setOps_pass m _) (fun i _ => state_setOps m _ i)
          (runs.fits.setOps _) _ rfl runs.own
        have trapped : (disc.sig c (some i) (last (some i))) = some quiet := sig c rfl i
        rw [ops_setOps, here, check_cons, Op.after, trapped]
        rfl
      · rw [there] at here
        cases here

/-! ## Runs -/

/-- In a run of disciplined kernel code, with interrupts and traps wherever they may come, no step
panics; interrupts are disabled while a lock is held, and in user mode none is. -/
theorem runs_orderly (disc : Discipline code) {start : Machine κ χ ν σ} (boots : Boot code start)
    (reached : GuardedRun.Reaches (Admits disc) (step code) start m) :
    Orderly m ∧ ∀ label, Admits disc m label → ∃ next, step code m label = .ok next := by
  have good : Good disc m := by
    apply reached.invariant (Good disc) boots.good
    intro state next label good admitted succeeds
    obtain ⟨result, run, kept⟩ := step_keeps good admitted
    cases run.symm.trans succeeds
    exact kept
  refine ⟨good.orderly, fun label admitted => ?_⟩
  obtain ⟨next, run, -⟩ := step_keeps good admitted
  exact ⟨next, run⟩

end

/-! ## The kernel -/

theorem boot_boots (ι : Type) [DecidableEq ι] (ready : Fin nproc → Bool) :
    Boot (kernel ι) (boot ι ready) where
  locked _ := rfl
  noff := rfl
  running := rfl
  pass := rfl
  idle := rfl
  proc i := by
    cases fresh : ready i with
    | false =>
        left
        simp [boot, fresh]
    | true =>
        right
        simp [boot, kernel, fresh]

instance (m : Machine κ χ ν σ) (label : Label ν) : Decidable (guard m label) :=
  match label with
  | .run => inferInstanceAs (Decidable (¬ (m.running.isSome ∧ m.ops = [])))
  | .timer => inferInstanceAs (Decidable (m.sie = true ∧ ¬ (m.running.isSome ∧ m.ops = [])))
  | .device => inferInstanceAs (Decidable (m.sie = true ∧ ¬ (m.running.isSome ∧ m.ops = [])))
  | .trap _ => inferInstanceAs (Decidable (m.running.isSome ∧ m.ops = []))

/-- Whether what the environment does is no trap. -/
def Label.isInterrupt : Label ν → Bool
  | .trap _ => false
  | _ => true

theorem admits_interrupt {label : Label ν} (fits : guard m label ∧ label.isInterrupt = true) :
    Admits disc m label := by
  refine ⟨fits.1, ?_⟩
  rintro c rfl
  cases fits.2

/-- A timer interrupt before the first pass of the scheduler takes `clocklock`, and no interrupt may
come. -/
theorem runs_orderly_interrupted : ∃ m : Machine (Spin Bool) (Event Bool) (Call Bool) (Shared Bool),
    GuardedRun.Reaches (Admits (kernelDiscipline Bool)) (step (kernel Bool))
      (boot Bool fun _ => true) m ∧
    m.locked (.other .clock) = true ∧ m.sie = false ∧ Orderly m := by
  obtain ⟨m, reached, holds⟩ := GuardedRun.exists_reaches_of_replay
    (fun m label => guard m label ∧ label.isInterrupt = true) (step (kernel Bool))
    (boot Bool fun _ => true) [.run, .timer, .run, .run, .run]
    (fun m => m.locked (.other .clock) = true) (by decide +kernel)
  have admitted := reached.invariant (GuardedRun.Reaches (Admits (kernelDiscipline Bool))
    (step (kernel Bool)) (boot Bool fun _ => true)) .refl fun before fits succeeds =>
      before.tail (admits_interrupt fits) succeeds
  have orderly := (runs_orderly _ (boot_boots Bool _) admitted).1
  have locked : m.locked (.other .clock) = true := of_decide_eq_true holds
  exact ⟨m, admitted, locked, orderly.disabled _ locked, orderly⟩

end Sync
end Xv6Duo
