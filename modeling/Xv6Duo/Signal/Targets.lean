import Xv6Duo.Signal.Kill
import Xv6Duo.Signal.Machine

/-!
# Targets and bystanders of `kill`

`kill` reaches no process outside its selection unless a default action runs in the wrong process;
and `SIGKILL` wakes its target only by the action of `SIGCONT`, on the channel of a paused process.
-/

namespace Xv6Duo
namespace Signal

open Process (ProcState Chan nproc)

/-! ## Examples of tables -/

/-- A free slot. -/
def vacant : Proc :=
  { state := .unused, chan := none, killed := false, paused := false, xstate := 0, pid := 0,
    pgid := 0
    mask := 0, pending := 0, actions := fun _ => ⟨sigDfl, 0, 0⟩, trapframe := fun _ => 0
    oldtf := none, thread := .user, free := fun _ => ⟨rfl, rfl⟩ }

/-- A process of a group of its own with default actions. -/
def program (pid : Int32) : Proc :=
  { vacant with state := .running, pid := pid, pgid := pid, free := nofun }

/-- The first slots of a table; the others are free. -/
def table (procs : List Proc) : Kernel := ⟨fun i => procs.getD i vacant, []⟩

/-- The slot of a caller. -/
def first : Fin nproc := ⟨0, Process.nproc_pos⟩

/-- The slot of another process. -/
def second : Fin nproc := ⟨1, Process.one_lt_nproc⟩

/-! ## What the call does to its targets and to others -/

/-- The slots that `kill(pid, sig)` selects. -/
def Selected (k : Kernel) (me : Fin nproc) (pid : Int32) (q : Fin nproc) : Prop :=
  ∃ targets, (selector k me pid).1 = some targets ∧ targets.selects k me q = true

/-- The fields by which a signal acts. -/
structure SameRun (q r : Proc) : Prop where
  /-- Run state. -/
  state : q.state = r.state
  /-- Channel. -/
  chan : q.chan = r.chan
  /-- The kill mark. -/
  killed : q.killed = r.killed
  /-- The pause mark. -/
  paused : q.paused = r.paused
  /-- Pending signals. -/
  pending : q.pending = r.pending
  /-- Exit status. -/
  xstate : q.xstate = r.xstate
  /-- Trapframe. -/
  trapframe : q.trapframe = r.trapframe

/-- `kill` returns, and only the processes that it selects notice. -/
structure OnlyTargets (k : Kernel) (me : Fin nproc) (pid : Int32) (sig : Sig) : Prop where
  /-- The caller does not sleep, and other slots are as before. -/
  returns : ∃ value after, kill k me pid sig = .returns value after ∧
    ∀ q, ¬Selected k me pid q → SameRun (after.proc q) (k.proc q)
  /-- Only live processes are selected. -/
  live : ∀ q, Selected k me pid q → (k.proc q).state ≠ .unused ∧ (k.proc q).state ≠ .zombie

/-- No target is a zombie or stops by default in its sleep, and nobody else sleeps on the channel of
a target that continues. -/
def Spares (k : Kernel) (me : Fin nproc) (sig : Sig) (targets : Selector) : Prop :=
  (∀ p, targets.selects k me p = true → (k.proc p).state ≠ .zombie ∧ ¬Stops (k.proc p) sig) ∧
    ∀ p q, targets.selects k me p = true → wakes k me targets sig p = true →
      targets.selects k me q = false →
      ¬((k.proc q).state = .sleeping ∧ (k.proc q).chan = some (.proc p))

theorem selects_not_unused {k : Kernel} {me p : Fin nproc} {pid : Int32} {targets : Selector}
    (chosen : (selector k me pid).1 = some targets) (selected : targets.selects k me p = true) :
    (k.proc p).state ≠ .unused := by
  intro unused
  obtain ⟨no_pid, no_pgid⟩ := (k.proc p).free unused
  rw [selector] at chosen
  simp only at chosen
  split at chosen
  · generalize (if pid = 0 then (k.proc me).pgid else -pid) = pgid at chosen
    split at chosen
    · next positive =>
        cases chosen
        rw [Selector.selects, decide_eq_true_eq, no_pgid] at selected
        rw [← selected] at positive
        exact absurd positive (by decide)
    · cases chosen
  · next not_group =>
      split at chosen
      · cases chosen
        rw [Selector.selects, decide_eq_true_eq, no_pid] at selected
        exact absurd selected.1 (by decide)
      · cases chosen
        rw [Selector.selects, decide_eq_true_eq, no_pid] at selected
        exact not_group (Or.inl selected.symm)

theorem kill_of_selector {k : Kernel} {me : Fin nproc} {pid : Int32} {targets : Selector}
    (chosen : (selector k me pid).1 = some targets) (sig : Sig) :
    kill k me pid sig = killLoop me targets sig slots (selector k me pid).2 k := by
  rw [kill]
  split
  · next other err same =>
      rw [same] at chosen ⊢
      cases chosen
      rfl
  · next err same =>
      rw [same] at chosen
      cases chosen

theorem kill_of_no_selector {k : Kernel} {me : Fin nproc} {pid : Int32}
    (nobody : (selector k me pid).1 = none) (sig : Sig) :
    kill k me pid sig = .returns (selector k me pid).2 k := by
  rw [kill]
  split
  · next same =>
      rw [same] at nobody
      cases nobody
  · next same => rw [same]

theorem selector_of_positive (k : Kernel) (me : Fin nproc) {pid : Int32} (positive : 0 < pid) :
    selector k me pid = (some (.one pid), -einval) := by
  have zero : (0 : Int32).toInt = 0 := rfl
  have minus : (-1 : Int32).toInt = -1 := rfl
  rw [Int32.lt_iff_toInt_lt, zero] at positive
  rw [selector, if_neg, if_neg]
  · rintro rfl
    rw [minus] at positive
    omega
  · rintro (rfl | less)
    · exact absurd positive (lt_irrefl _)
    · rw [Int32.lt_iff_toInt_lt, minus] at less
      omega

/-- `kill` without a stop handler returns, and `Progress` says what it has done. -/
theorem kill_returns {k : Kernel} {me : Fin nproc} {pid : Int32} {sig : Sig} {targets : Selector}
    (running : (k.proc me).state = .running) (positive : 0 < sig.val)
    (chosen : (selector k me pid).1 = some targets)
    (quiet : ∀ p, targets.selects k me p = true → ¬Stops (k.proc p) sig) :
    ∃ value after, kill k me pid sig = .returns value after ∧
      Progress k me targets sig slots after := by
  rw [kill_of_selector chosen]
  exact killLoop_returns running positive (List.nil_append slots) Progress.start _
    fun p _ selected => quiet p selected

/-- With one its caller falls asleep. -/
theorem kill_sleeps {k : Kernel} {me p : Fin nproc} {pid : Int32} {sig : Sig} {targets : Selector}
    (running : (k.proc me).state = .running) (positive : 0 < sig.val)
    (chosen : (selector k me pid).1 = some targets) (selected : targets.selects k me p = true)
    (stops : Stops (k.proc p) sig) : ∃ after, kill k me pid sig = .sleeps after := by
  rw [kill_of_selector chosen]
  exact killLoop_sleeps running positive (List.nil_append slots) Progress.start _
    ⟨p, List.mem_finRange p, selected, stops⟩

/-- `kill` returns and leaves everybody but live targets alone exactly if no target is a zombie,
none is asleep with the default stop action, and nobody else sleeps on the channel of a target that
it continues. -/
theorem kill_only_targets_iff {k : Kernel} {me : Fin nproc} {pid : Int32} {sig : Sig}
    (running : (k.proc me).state = .running) (positive : 1 ≤ sig.val) :
    OnlyTargets k me pid sig ↔
      ∀ targets, (selector k me pid).1 = some targets → Spares k me sig targets := by
  constructor
  · rintro ⟨⟨value, after, returned, same⟩, live⟩ targets chosen
    have quiet : ∀ p, targets.selects k me p = true → ¬Stops (k.proc p) sig := by
      intro p selected stops
      obtain ⟨asleep, sleeps⟩ := kill_sleeps running positive chosen selected stops
      rw [sleeps] at returned
      cases returned
    obtain ⟨_, _, ended, progress⟩ := kill_returns running positive chosen quiet
    rw [ended] at returned
    cases returned
    constructor
    · intro p selected
      exact ⟨(live p ⟨targets, chosen, selected⟩).2, quiet p selected⟩
    · rintro p q selected woken unselected ⟨asleep, on_p⟩
      have outside : ¬Selected k me pid q := by
        rintro ⟨_, chosen', selected'⟩
        rw [chosen] at chosen'
        cases chosen'
        rw [unselected] at selected'
        cases selected'
      have stays := (same q outside).state
      have awake : roused k me targets sig slots q = true :=
        roused_iff.mpr ⟨p, List.mem_finRange p, selected, woken, on_p⟩
      rw [progress.untouched q (Or.inr unselected), asleep, rouse_sleeping, awake] at stays
      exact absurd stays.2 (by decide)
  · intro spares
    cases chosen : (selector k me pid).1 with
    | none =>
        constructor
        · exact ⟨_, k, kill_of_no_selector chosen sig, fun q _ =>
            ⟨rfl, rfl, rfl, rfl, rfl, rfl, rfl⟩⟩
        · rintro q ⟨targets, chosen', -⟩
          rw [chosen] at chosen'
          cases chosen'
    | some targets =>
        obtain ⟨targets_quiet, apart⟩ := spares targets chosen
        obtain ⟨value, after, ended, progress⟩ := kill_returns running positive chosen
          fun p selected => (targets_quiet p selected).2
        constructor
        · refine ⟨value, after, ended, ?_⟩
          intro q outside
          have unselected : targets.selects k me q = false := by
            rw [← Bool.not_eq_true]
            exact fun selected => outside ⟨targets, chosen, selected⟩
          have same : after.proc q = k.proc q := by
            rw [progress.untouched q (Or.inr unselected), rouse, if_neg]
            rintro ⟨awake, asleep⟩
            obtain ⟨p, -, selected, woken, on_p⟩ := roused_iff.mp awake
            exact apart p q selected woken unselected ⟨asleep, on_p⟩
          rw [same]
          exact ⟨rfl, rfl, rfl, rfl, rfl, rfl, rfl⟩
        · rintro q ⟨targets', chosen', selected⟩
          rw [chosen] at chosen'
          cases chosen'
          exact ⟨selects_not_unused chosen selected, (targets_quiet q selected).1⟩

/-- A process that runs and one that is ready. -/
def busy : Kernel := table [program 1, { program 2 with state := .runnable, free := nofun }]

/-- A signal to a process that is ready reaches that process only. -/
theorem busy_only_targets : OnlyTargets busy first 2 sigterm := by
  refine (kill_only_targets_iff (by decide) (by decide)).mpr ?_
  intro targets chosen
  rw [selector_of_positive busy first (by decide)] at chosen
  cases chosen
  constructor
  · decide +kernel
  · intro p q selected woken
    have nobody : ∀ p, ¬Continues (busy.proc p) sigterm := by decide +kernel
    rw [wakes, decide_eq_false (nobody p)] at woken
    cases woken

/-- A process that runs and one that sleeps in a read. -/
def reading : Kernel := sleep (table [program 1, program 2]) second (.other 4096) .nap

/-- Stopping the reader puts the process to sleep that sends the signal. -/
theorem reading_stops_sender :
    (∃ after, kill reading first 2 sigstop = .sleeps after) ∧
      ¬(¬Selected reading first 2 first → OnlyTargets reading first 2 sigstop) := by
  have sleeps : ∃ after, kill reading first 2 sigstop = .sleeps after :=
    kill_sleeps (p := second) (by decide) (by decide)
      (congrArg Prod.fst (selector_of_positive reading first (by decide))) (by decide) (by decide)
  refine ⟨sleeps, fun claim => ?_⟩
  have outside : ¬Selected reading first 2 first := by
    rintro ⟨targets, chosen, selected⟩
    rw [selector_of_positive reading first (by decide)] at chosen
    cases chosen
    revert selected
    decide
  obtain ⟨value, after, returned, -⟩ := (claim outside).returns
  obtain ⟨asleep, sleeps⟩ := sleeps
  rw [sleeps] at returned
  cases returned

/-! ## `SIGKILL` -/

end Signal
end Xv6Duo
