import Xv6Duo.Sync.Balance
import Xv6Duo.Sync.Runs

/-!
# Who holds a sleep lock

The invariant of sleep locks, and the operations that keep it outside of `sleep` and of the `wakeup`
of a sleep lock.
-/

namespace Xv6Duo
namespace Sync

open Process (ProcState nproc)

variable {ι : Type}

/-- The machine that runs the kernel. -/
abbrev Kernel (ι : Type) : Type := Machine (Spin ι) (Event ι) (Call ι) (Shared ι)

/-! ## The invariant -/

/-- Operations outside of `sleep` and of the `wakeup` of a sleep lock. -/
def settled : KernelOp ι → Prop
  | .setState .sleeping => False
  | .wake _ (.sleep _) => False
  | _ => True

/-- Operations of the `wakeup` of a sleep lock. -/
def rouses (l : ι) : KernelOp ι → Prop
  | .acquire (.proc _) => True
  | .acquired (.proc _) _ => True
  | .release (.proc _) => True
  | .wake _ chan => chan = .sleep l
  | _ => False

/-- The operations of a `wakeup`. -/
theorem mem_wakeup {i j : Fin nproc} (other : j ≠ i) (chan : Event ι) :
    (.wake j chan : KernelOp ι) ∈ wakeup (some i) chan := by
  rw [wakeup, List.mem_flatMap]
  refine ⟨j, List.mem_filter.mpr ⟨List.mem_finRange j, ?_⟩, ?_⟩
  · simpa using other
  · exact List.mem_cons_of_mem _ List.mem_cons_self

theorem rouses_wakeup {me : Option (Fin nproc)} {l : ι} {op : KernelOp ι}
    (among : op ∈ wakeup me (.sleep l)) : rouses l op := by
  rw [wakeup, List.mem_flatMap] at among
  obtain ⟨i, -, among⟩ := among
  rcases List.mem_cons.mp among with rfl | among
  · trivial
  rcases List.mem_cons.mp among with rfl | among
  · exact rfl
  cases List.mem_singleton.mp among
  trivial

theorem settled_wakeup_jiffies {me : Option (Fin nproc)} {op : KernelOp ι}
    (among : op ∈ wakeup me .jiffies) : settled op := by
  rw [wakeup, List.mem_flatMap] at among
  obtain ⟨i, -, among⟩ := among
  rcases List.mem_cons.mp among with rfl | among
  · trivial
  rcases List.mem_cons.mp among with rfl | among
  · trivial
  cases List.mem_singleton.mp among
  trivial

theorem settled_yield {me : Fin nproc} {op : KernelOp ι} (among : op ∈ yield me) : settled op := by
  rcases List.mem_cons.mp among with rfl | among
  · trivial
  rcases List.mem_cons.mp among with rfl | among
  · trivial
  rcases List.mem_cons.mp among with rfl | among
  · trivial
  cases List.mem_singleton.mp among
  trivial

theorem Action.settled {action : Action ι} {op : KernelOp ι} (among : op ∈ action.ops) :
    Sync.settled op := by
  cases action with
  | ilock l =>
      cases List.mem_singleton.mp among
      trivial
  | iunlock l =>
      cases List.mem_singleton.mp among
      trivial
  | kill i =>
      rcases List.mem_cons.mp among with rfl | among
      · trivial
      rcases List.mem_cons.mp among with rfl | among
      · trivial
      cases List.mem_singleton.mp among
      trivial

/-- A place in `sleep` before `sched`, with what follows the call of `sched`. -/
inductive Dozing (m : Kernel ι) (i : Fin nproc) (l : ι) (rest : List (KernelOp ι)) :
    List (KernelOp ι) → Prop where
  /-- Before it takes the lock of the process. -/
  | acquire (awake : (m.proc i).state ≠ .sleeping) (locked : m.locked (spin l) = true) :
      Dozing m i l rest (.acquire (.proc i) :: .release (spin l) :: .setChan (some (.sleep l)) ::
        .setState .sleeping :: .sched :: rest)
  /-- While it takes it. -/
  | acquired (old : Bool) (awake : (m.proc i).state ≠ .sleeping)
      (locked : m.locked (spin l) = true) :
      Dozing m i l rest (.acquired (.proc i) old :: .release (spin l) ::
        .setChan (some (.sleep l)) :: .setState .sleeping :: .sched :: rest)
  /-- With it. -/
  | release (awake : (m.proc i).state ≠ .sleeping) (locked : m.locked (.proc i) = true) :
      Dozing m i l rest (.release (spin l) :: .setChan (some (.sleep l)) :: .setState .sleeping ::
        .sched :: rest)
  /-- Without the lock of the sleep lock. -/
  | setChan (awake : (m.proc i).state ≠ .sleeping) (locked : m.locked (.proc i) = true) :
      Dozing m i l rest (.setChan (some (.sleep l)) :: .setState .sleeping :: .sched :: rest)
  /-- With its channel. -/
  | setState (awake : (m.proc i).state ≠ .sleeping) (locked : m.locked (.proc i) = true)
      (chan : (m.proc i).chan = some (.sleep l)) :
      Dozing m i l rest (.setState .sleeping :: .sched :: rest)
  /-- With its state. -/
  | sched (locked : m.locked (.proc i) = true) (chan : (m.proc i).chan = some (.sleep l)) :
      Dozing m i l rest (.sched :: rest)

/-- Where the process on the processor is. -/
inductive Place (m : Kernel ι) (i : Fin nproc) : Prop where
  /-- Neither in `sleep` nor in `wakeup`. -/
  | clear (awake : (m.proc i).state ≠ .sleeping) (clear : ∀ op ∈ m.ops, settled op)
  /-- In `wakeup`, as `releasesleep` calls it. -/
  | waking (awake : (m.proc i).state ≠ .sleeping) (l : ι) (first rest : List (KernelOp ι))
      (ops : m.ops = first ++ .release (spin l) :: rest) (rouses : ∀ op ∈ first, rouses l op)
      (clear : ∀ op ∈ rest, settled op) (locked : m.locked (spin l) = true)
  /-- In `sleep`, as `acquiresleep` calls it. -/
  | dozing (l : ι) (rest : List (KernelOp ι)) (locked : (m.data.lock l).locked = true)
      (clear : ∀ op ∈ rest, settled op) (place : Dozing m i l rest m.ops)

/-- The invariant, with the sleep locks that each process holds. -/
structure Excludes [DecidableEq ι] (m : Kernel ι) (held : Fin nproc → List ι) : Prop where
  /-- Each process unlocks what it holds. -/
  balanced : ∀ i, locks (held i) (m.proc i).ops = some []
  /-- Interrupt handlers use no sleep lock. -/
  idle : locks [] m.idle = some []
  /-- No lock is held twice by one process. -/
  nodup : ∀ i, (held i).Nodup
  /-- A lock that is held names its process. -/
  owner : ∀ i l, l ∈ held i → m.data.lock l = { locked := true, pid := some i }
  /-- A lock that is locked is held. -/
  owned : ∀ l, (m.data.lock l).locked = true → ∃ i, l ∈ held i
  /-- Processes that do not run are behind `sched`, or new. -/
  parked : ∀ i, m.running ≠ some i → ∀ op ∈ (m.proc i).ops, settled op
  /-- Interrupt handlers wake up nobody who waits for a sleep lock. -/
  handlers : m.running = none → ∀ op ∈ m.idle, settled op
  /-- Where the process on the processor is. -/
  place : ∀ i, m.running = some i → Place m i
  /-- A process that sleeps on a lock that is free is about to be woken up. -/
  asleep : ∀ i l, (m.proc i).state = .sleeping → (m.proc i).chan = some (.sleep l) →
    (m.data.lock l).locked = true ∨ .wake i (.sleep l) ∈ m.ops

/-- In `sleep` nobody is woken up. -/
theorem Dozing.no_wake {m : Kernel ι} {i j : Fin nproc} {l k : ι} {rest ops : List (KernelOp ι)}
    (place : Dozing m i l rest ops) (clear : ∀ op ∈ rest, settled op)
    (wake : .wake j (.sleep k) ∈ ops) : False := by
  have last : (.wake j (.sleep k) : KernelOp ι) ∈ rest := by
    cases place <;> simpa using wake
  exact clear _ last

/-- In `sleep` a lock is held. -/
theorem Dozing.locked {m : Kernel ι} {i : Fin nproc} {l : ι} {rest ops : List (KernelOp ι)}
    (place : Dozing m i l rest ops) : ∃ lk, m.locked lk = true := by
  cases place with
  | acquire _ locked => exact ⟨_, locked⟩
  | acquired _ _ locked => exact ⟨_, locked⟩
  | release _ locked => exact ⟨_, locked⟩
  | setChan _ locked => exact ⟨_, locked⟩
  | setState _ locked _ => exact ⟨_, locked⟩
  | sched locked _ => exact ⟨_, locked⟩

/-! ## Outcomes of operations -/

section

variable {κ χ ν σ : Type} {m next : Machine κ χ ν σ}

theorem sched_eq {i : Fin nproc} {rest : List (Op κ χ ν)} (run : m.sched i rest = .ok next) :
    next = { m.setProc i { m.proc i with ops := .switched m.intena :: rest } with
      running := none, pass := .back i } := by
  rw [Machine.sched] at run
  split at run
  · cases run
  · split at run
    · cases run
    · split at run
      · cases run
      · split at run
        · cases run
        · cases run
          rfl

variable [DecidableEq κ]

theorem take_eq {lk : Lock κ} {old : Bool} (run : m.take lk old = .ok next) :
    next = { m.pushOff old with locked := Function.update m.locked lk true } := by
  rw [Machine.take] at run
  split at run
  · cases run
  · cases run
    rfl

theorem release_eq {lk : Lock κ} (run : m.release lk = .ok next) :
    next = { m with
      locked := Function.update m.locked lk false
      noff := m.noff - 1
      sie := m.noff - 1 = 0 && m.intena } := by
  rw [Machine.release] at run
  split at run
  · rw [Machine.popOff] at run
    split at run
    · cases run
    · split at run
      · cases run
      · cases run
        rfl
  · cases run

end

/-! ## Moves of one stack -/

variable {m m' : Kernel ι}

/-- A step that moves the stack that is used, and wakes other processes at most. -/
structure Near (m m' : Kernel ι) : Prop where
  /-- The same process runs. -/
  running : m'.running = m.running
  /-- Sleep locks are as they were. -/
  lock : m'.data.lock = m.data.lock
  /-- Nothing happens to the stack of the scheduler. -/
  idle : m.running ≠ none → m'.idle = m.idle
  /-- Nothing happens to the stacks of other processes. -/
  ops : ∀ j, m.running ≠ some j → (m'.proc j).ops = (m.proc j).ops
  /-- None of them falls asleep. -/
  asleep : ∀ j, m.running ≠ some j → (m'.proc j).state = .sleeping →
    (m.proc j).state = .sleeping ∧ (m'.proc j).chan = (m.proc j).chan

theorem Local.near (alone : Local m m') (lock : m'.data.lock = m.data.lock) : Near m m' where
  running := alone.running
  lock := lock
  idle := alone.idle
  ops j other := by rw [alone.others j other]
  asleep j other sleeps := by
    rw [alone.others j other] at sleeps ⊢
    exact ⟨sleeps, rfl⟩

@[simp]
theorem setOps_data (m : Kernel ι) (ops : List (KernelOp ι)) : (m.setOps ops).data = m.data := by
  rw [Machine.setOps]
  split <;> rfl

@[simp]
theorem chan_setOps (m : Kernel ι) (ops : List (KernelOp ι)) (j : Fin nproc) :
    ((m.setOps ops).proc j).chan = (m.proc j).chan := by
  by_cases here : m.running = some j
  · rw [setOps_some m ops here, setProc_self]
  · rw [proc_setOps m ops here]

theorem Machine.ops_congr (running : m'.running = m.running) (proc : m'.proc = m.proc)
    (idle : m'.idle = m.idle) : m'.ops = m.ops := by
  rw [Machine.ops, Machine.ops, running, proc, idle]

/-- A step after which something else is left to do. -/
theorem near_setOps {ops : List (KernelOp ι)} (running : m'.running = (m.setOps ops).running)
    (proc : m'.proc = (m.setOps ops).proc) (idle : m'.idle = (m.setOps ops).idle)
    (lock : m'.data.lock = m.data.lock) : Near m m' where
  running := running.trans (setOps_running m ops)
  lock := lock
  idle some_runs := idle.trans ((local_setOps m ops).idle some_runs)
  ops j other := by rw [proc, proc_setOps m ops other]
  asleep j other sleeps := by
    rw [proc, proc_setOps m ops other] at sleeps ⊢
    exact ⟨sleeps, rfl⟩

/-- Another process may become runnable. -/
theorem near_runnable {rest : List (KernelOp ι)} {j : Fin nproc}
    (other : m.running ≠ some j) :
    Near m ((m.setOps rest).setProc j { (m.setOps rest).proc j with state := .runnable }) where
  running := setOps_running m rest
  lock := congrArg Shared.lock (setOps_data m rest)
  idle some_runs := (local_setOps m rest).idle some_runs
  ops k there := by
    by_cases same : k = j
    · subst same
      rw [setProc_self, proc_setOps m rest there]
    · rw [setProc_of_ne _ same, proc_setOps m rest there]
  asleep k there sleeps := by
    by_cases same : k = j
    · subst same
      rw [setProc_self] at sleeps
      cases sleeps
    · rw [setProc_of_ne _ same, proc_setOps m rest there] at sleeps ⊢
      exact ⟨sleeps, rfl⟩

/-- A process that sleeps while it is on the processor waits for a lock that is locked. -/
theorem Place.asleep {i : Fin nproc} (place : Place m i) {l : ι}
    (sleeps : (m.proc i).state = .sleeping) (chan : (m.proc i).chan = some (.sleep l)) :
    (m.data.lock l).locked = true := by
  cases place with
  | clear awake _ => exact absurd sleeps awake
  | waking awake _ _ _ _ _ _ _ => exact absurd sleeps awake
  | dozing k rest locked _ place =>
      generalize m.ops = ops at place
      cases place with
      | acquire awake _ => exact absurd sleeps awake
      | acquired _ awake _ => exact absurd sleeps awake
      | release awake _ => exact absurd sleeps awake
      | setChan awake _ => exact absurd sleeps awake
      | setState awake _ _ => exact absurd sleeps awake
      | sched _ named =>
          cases named.symm.trans chan
          exact locked

/-- Neither `sleep` nor the `wakeup` of a sleep lock is going on. -/
structure Clear (m : Kernel ι) : Prop where
  /-- The process on the processor is awake. -/
  awake : ∀ i, m.running = some i → (m.proc i).state ≠ .sleeping
  /-- Nothing of them is left to do. -/
  settled : ∀ op ∈ m.ops, settled op

theorem Clear.behind {rest : List (KernelOp ι)} {op : KernelOp ι} (clear : Clear m)
    (next : m.ops = op :: rest) : ∀ op ∈ rest, Sync.settled op := by
  intro other among
  apply clear.settled
  rw [next]
  exact List.mem_cons_of_mem op among

variable [DecidableEq ι] {held : Fin nproc → List ι} {rest : List (KernelOp ι)}

/-- The invariant after such a step. -/
theorem Excludes.move (ex : Excludes m held) (near : Near m m')
    (balanced : ∀ h, locks h m.ops = some [] → locks h m'.ops = some [])
    (clear : m.running = none → ∀ op ∈ m'.ops, settled op)
    (place : ∀ i, m.running = some i → Place m' i)
    (wakes : ∀ j l, m.running ≠ some j → (m'.proc j).state = .sleeping →
      (m.proc j).chan = some (.sleep l) → .wake j (.sleep l) ∈ m.ops →
      .wake j (.sleep l) ∈ m'.ops) : Excludes m' held where
  balanced i := by
    by_cases here : m.running = some i
    · rw [← Machine.ops_of_some (near.running.trans here)]
      apply balanced
      rw [Machine.ops_of_some here]
      exact ex.balanced i
    · rw [near.ops i here]
      exact ex.balanced i
  idle := by
    by_cases here : m.running = none
    · rw [← Machine.ops_of_none (near.running.trans here)]
      apply balanced
      rw [Machine.ops_of_none here]
      exact ex.idle
    · rw [near.idle here]
      exact ex.idle
  nodup := ex.nodup
  owner i l among := by
    rw [near.lock]
    exact ex.owner i l among
  owned l locked := by
    rw [near.lock] at locked
    exact ex.owned l locked
  parked i other := by
    rw [near.running] at other
    rw [near.ops i other]
    exact ex.parked i other
  handlers there := by
    rw [← Machine.ops_of_none there]
    rw [near.running] at there
    exact clear there
  place i here := by
    rw [near.running] at here
    exact place i here
  asleep i l sleeps chan := by
    by_cases here : m.running = some i
    · exact Or.inl ((place i here).asleep sleeps chan)
    · obtain ⟨slept, same⟩ := near.asleep i here sleeps
      rw [same] at chan
      rw [near.lock]
      rcases ex.asleep i l slept chan with locked | wake
      · exact Or.inl locked
      · exact Or.inr (wakes i l here sleeps chan wake)

/-- Steps outside of `sleep` and of the `wakeup` of a sleep lock. -/
theorem Excludes.step_clear (ex : Excludes m held) (near : Near m m')
    (balanced : ∀ h, locks h m.ops = some [] → locks h m'.ops = some [])
    (awake : ∀ i, m.running = some i → (m'.proc i).state ≠ .sleeping)
    (before : ∀ op ∈ m.ops, settled op) (after : ∀ op ∈ m'.ops, settled op) :
    Excludes m' held :=
  ex.move near balanced (fun _ => after) (fun i here => .clear (awake i here) after)
    fun _ _ _ _ _ wake => (before _ wake).elim

/-- What is left after an operation that does not concern sleep locks. -/
theorem locks_rest {op : KernelOp ι} (next : m.ops = op :: rest)
    (same : ∀ h, opLocks h op = some h) (h : List ι) (balanced : locks h m.ops = some []) :
    locks h rest = some [] := by
  rw [next, locks_cons, same h] at balanced
  exact balanced

/-! ## Steps outside of `sleep` and `wakeup` -/

/-- Something else is left to do. -/
theorem Excludes.clear_setOps (ex : Excludes m held) (clear : Clear m) (ops : List (KernelOp ι))
    (balanced : ∀ h, locks h m.ops = some [] → locks h ops = some [])
    (after : ∀ op ∈ ops, settled op) (running : m'.running = (m.setOps ops).running)
    (proc : m'.proc = (m.setOps ops).proc) (idle : m'.idle = (m.setOps ops).idle)
    (lock : m'.data.lock = m.data.lock) : Excludes m' held := by
  have left : m'.ops = ops := (Machine.ops_congr running proc idle).trans (ops_setOps m ops)
  refine ex.step_clear (near_setOps running proc idle lock) ?_ ?_ clear.settled ?_
  · rw [left]
    exact balanced
  · intro i here
    rw [proc, state_setOps]
    exact clear.awake i here
  · rw [left]
    exact after

/-- A process that sleeps is woken up. -/
theorem Excludes.clear_wake (ex : Excludes m held) (clear : Clear m) {op : KernelOp ι}
    (next : m.ops = op :: rest) (same : ∀ h, opLocks h op = some h) {j : Fin nproc}
    (sleeps : ((m.setOps rest).proc j).state = .sleeping) :
    Excludes ((m.setOps rest).setProc j { (m.setOps rest).proc j with state := .runnable })
      held := by
  rw [state_setOps] at sleeps
  have other : m.running ≠ some j := fun here => clear.awake j here sleeps
  have left : ((m.setOps rest).setProc j
      { (m.setOps rest).proc j with state := .runnable }).ops = rest := by
    rw [ops_setProc_of_ne (by rw [setOps_running]; exact other), ops_setOps]
  refine ex.step_clear (near_runnable other) ?_ ?_ clear.settled ?_
  · rw [left]
    exact locks_rest next same
  · intro i here
    have apart : i ≠ j := by
      rintro rfl
      exact other here
    rw [setProc_of_ne _ apart, state_setOps]
    exact clear.awake i here
  · rw [left]
    exact clear.behind next

/-- A call that leaves the sleep locks as they are. -/
theorem Excludes.clear_call (ex : Excludes m held) (clear : Clear m) {c : Call ι}
    (next : m.ops = .call c :: rest)
    (lock : (body c m.running m.data).1.lock = m.data.lock)
    (after : ∀ op ∈ (body c m.running m.data).2, settled op)
    (balanced : ∀ h later, c.locks h = some later →
      locks h (body c m.running m.data).2 = some later) :
    Excludes { m.setOps ((body c m.running m.data).2 ++ rest) with
      data := (body c m.running m.data).1 } held := by
  refine ex.clear_setOps clear ((body c m.running m.data).2 ++ rest) ?_ ?_ rfl rfl rfl lock
  · intro h all
    rw [next, locks_cons] at all
    obtain ⟨later, one, others⟩ := Option.bind_eq_some_iff.mp all
    rw [locks_append, balanced h later one]
    exact others
  · intro op among
    rcases List.mem_append.mp among with new | old
    · exact after op new
    · exact clear.behind next op old

/-- Where a call stands. -/
theorem Good.at_call (good : Good (kernelDiscipline ι) m) {c : Call ι}
    (next : m.ops = .call c :: rest) :
    ∃ mode later, Counted m mode.held ∧ kernelSig c m.running mode = some later := by
  rcases good.context with ⟨mode, runs⟩ | ⟨here, no_idle, -⟩
  · obtain ⟨later, after, -⟩ := runs.next next
    exact ⟨mode, later, runs.fits.counted, after⟩
  · rw [Machine.ops_of_none here, no_idle] at next
    cases next

/-- The process on the processor changes the sleep locks, and what it holds. -/
theorem Excludes.change (ex : Excludes m held) {i : Fin nproc} (here : m.running = some i)
    (ops : List (KernelOp ι)) (data : Shared ι) (mine : List ι)
    (balanced : locks mine ops = some []) (nodup : mine.Nodup)
    (owner : ∀ l ∈ mine, data.lock l = { locked := true, pid := some i })
    (others : ∀ j, j ≠ i → ∀ l ∈ held j, data.lock l = { locked := true, pid := some j })
    (owned : ∀ l, (data.lock l).locked = true → l ∈ mine ∨ ∃ j, j ≠ i ∧ l ∈ held j)
    (place : Place { m.setOps ops with data := data } i)
    (asleep : ∀ j l, j ≠ i → (m.proc j).state = .sleeping → (m.proc j).chan = some (.sleep l) →
      (data.lock l).locked = true ∨ .wake j (.sleep l) ∈ ops) :
    Excludes { m.setOps ops with data := data } (Function.update held i mine) := by
  have apart {j : Fin nproc} (other : j ≠ i) : m.running ≠ some j := by
    rw [here]
    rintro same
    cases same
    exact other rfl
  constructor
  case balanced =>
    intro j
    change locks _ ((m.setOps ops).proc j).ops = _
    by_cases same : j = i
    · subst same
      rw [Function.update_self, setOps_some m ops here, setProc_self]
      exact balanced
    · rw [proc_setOps m ops (apart same), Function.update_of_ne same]
      exact ex.balanced j
  case idle =>
    change locks [] (m.setOps ops).idle = _
    rw [idle_setOps m ops here]
    exact ex.idle
  case nodup =>
    intro j
    by_cases same : j = i
    · subst same
      rw [Function.update_self]
      exact nodup
    · rw [Function.update_of_ne same]
      exact ex.nodup j
  case owner =>
    intro j l among
    by_cases same : j = i
    · subst same
      rw [Function.update_self] at among
      exact owner l among
    · rw [Function.update_of_ne same] at among
      exact others j same l among
  case owned =>
    intro l locked
    rcases owned l locked with among | ⟨j, other, among⟩
    · refine ⟨i, ?_⟩
      rw [Function.update_self]
      exact among
    · refine ⟨j, ?_⟩
      rw [Function.update_of_ne other]
      exact among
  case parked =>
    intro j other
    change (m.setOps ops).running ≠ some j at other
    rw [setOps_running] at other
    change ∀ op ∈ ((m.setOps ops).proc j).ops, settled op
    rw [proc_setOps m ops other]
    exact ex.parked j other
  case handlers =>
    intro there
    change (m.setOps ops).running = none at there
    rw [setOps_running, here] at there
    cases there
  case place =>
    intro j there
    change (m.setOps ops).running = some j at there
    rw [setOps_running, here] at there
    cases there
    exact place
  case asleep =>
    intro j l sleeps chan
    change (data.lock l).locked = true ∨ .wake j (.sleep l) ∈ (m.setOps ops).ops
    rw [ops_setOps]
    by_cases same : j = i
    · subst same
      exact Or.inl (place.asleep sleeps chan)
    · change ((m.setOps ops).proc j).state = .sleeping at sleeps
      change ((m.setOps ops).proc j).chan = some (.sleep l) at chan
      rw [state_setOps] at sleeps
      rw [chan_setOps] at chan
      exact asleep j l same sleeps chan

/-- What the process on the processor still has to do. -/
theorem Excludes.balanced_call (ex : Excludes m held) {i : Fin nproc} (here : m.running = some i)
    {c : Call ι} (next : m.ops = .call c :: rest) :
    ∃ later, c.locks (held i) = some later ∧ locks later rest = some [] := by
  have balanced := ex.balanced i
  rw [← Machine.ops_of_some here, next, locks_cons] at balanced
  exact Option.bind_eq_some_iff.mp balanced

/-- `acquiresleep` finds a lock free. -/
theorem Excludes.lock_free (ex : Excludes m held) (clear : Clear m) {i : Fin nproc} {l : ι}
    (here : m.running = some i) (next : m.ops = .call (.test l) :: rest)
    (free : (m.data.lock l).locked = false) :
    Excludes { m.setOps (.release (spin l) :: rest) with
      data := { m.data with
        lock := Function.update m.data.lock l { locked := true, pid := some i } } }
      (Function.update held i (l :: held i)) := by
  obtain ⟨later, one, others⟩ := ex.balanced_call here next
  obtain ⟨fresh, rfl⟩ := grab_eq one
  -- Nobody holds a lock that is free.
  have unheld (j : Fin nproc) {k : ι} (among : k ∈ held j) : k ≠ l := by
    rintro rfl
    rw [ex.owner j k among] at free
    cases free
  apply ex.change here
  case balanced => exact others
  case nodup => exact List.nodup_cons.mpr ⟨fresh, ex.nodup i⟩
  case owner =>
    intro k among
    rcases List.mem_cons.mp among with rfl | old
    · exact Function.update_self ..
    · exact (Function.update_of_ne (unheld i old) _ _).trans (ex.owner i k old)
  case others =>
    intro j _ k among
    exact (Function.update_of_ne (unheld j among) _ _).trans (ex.owner j k among)
  case owned =>
    intro k locked
    by_cases same : k = l
    · subst same
      exact Or.inl List.mem_cons_self
    · change (Function.update m.data.lock l _ k).locked = true at locked
      rw [Function.update_of_ne same] at locked
      obtain ⟨j, among⟩ := ex.owned k locked
      by_cases me : j = i
      · subst me
        exact Or.inl (List.mem_cons_of_mem l among)
      · exact Or.inr ⟨j, me, among⟩
  case place =>
    refine .clear ?_ ?_
    · change ((m.setOps _).proc i).state ≠ .sleeping
      rw [state_setOps]
      exact clear.awake i here
    · change ∀ op ∈ (m.setOps _).ops, settled op
      rw [ops_setOps]
      exact List.forall_mem_cons.mpr ⟨trivial, clear.behind next⟩
  case asleep =>
    intro j k _ sleeps chan
    left
    change (Function.update m.data.lock l _ k).locked = true
    by_cases same : k = l
    · subst same
      rw [Function.update_self]
    · rw [Function.update_of_ne same]
      rcases ex.asleep j k sleeps chan with locked | wake
      · exact locked
      · exact (clear.settled _ wake).elim

/-- `releasesleep` unlocks a lock. -/
theorem Excludes.unlock (ex : Excludes m held) (clear : Clear m) {i : Fin nproc} {l : ι}
    (here : m.running = some i) (next : m.ops = .call (.unlock l) :: rest)
    (locked : m.locked (spin l) = true) :
    Excludes { m.setOps ((wakeup (some i) (.sleep l) ++ [.release (spin l)]) ++ rest) with
      data := { m.data with
        lock := Function.update m.data.lock l { locked := false, pid := none } } }
      (Function.update held i ((held i).erase l)) := by
  obtain ⟨later, one, others⟩ := ex.balanced_call here next
  obtain ⟨mine, rfl⟩ := drop_eq one
  rw [List.append_assoc, List.singleton_append]
  apply ex.change here
  case balanced =>
    rw [locks_wakeup]
    exact others
  case nodup => exact (ex.nodup i).erase l
  case owner =>
    intro k among
    rw [(ex.nodup i).mem_erase_iff] at among
    exact (Function.update_of_ne among.1 _ _).trans (ex.owner i k among.2)
  case others =>
    intro j other k among
    have apart : k ≠ l := by
      rintro rfl
      have both := (ex.owner i k mine).symm.trans (ex.owner j k among)
      cases both
      exact other rfl
    exact (Function.update_of_ne apart _ _).trans (ex.owner j k among)
  case owned =>
    intro k still
    change (Function.update m.data.lock l _ k).locked = true at still
    by_cases same : k = l
    · subst same
      rw [Function.update_self] at still
      cases still
    · rw [Function.update_of_ne same] at still
      obtain ⟨j, among⟩ := ex.owned k still
      by_cases me : j = i
      · subst me
        exact Or.inl ((ex.nodup j).mem_erase_iff.mpr ⟨same, among⟩)
      · exact Or.inr ⟨j, me, among⟩
  case place =>
    refine .waking ?_ l (wakeup (some i) (.sleep l)) rest ?_ (fun _ => rouses_wakeup)
      (clear.behind next) ?_
    · change ((m.setOps _).proc i).state ≠ .sleeping
      rw [state_setOps]
      exact clear.awake i here
    · exact ops_setOps m _
    · change (m.setOps _).locked (spin l) = true
      rw [setOps_locked]
      exact locked
  case asleep =>
    intro j k other sleeps chan
    by_cases same : k = l
    · subst same
      exact Or.inr (List.mem_append_left _ (mem_wakeup other _))
    · left
      change (Function.update m.data.lock l _ k).locked = true
      rw [Function.update_of_ne same]
      rcases ex.asleep j k sleeps chan with still | wake
      · exact still
      · exact (clear.settled _ wake).elim

/-- `acquiresleep` finds a lock locked, and goes to sleep. -/
theorem Excludes.lock_busy (ex : Excludes m held) (clear : Clear m) {i : Fin nproc} {l : ι}
    (here : m.running = some i) (next : m.ops = .call (.test l) :: rest)
    (busy : (m.data.lock l).locked = true) (locked : m.locked (spin l) = true) :
    Excludes { m.setOps ((sleep i (.sleep l) (spin l) ++ [.call (.test l)]) ++ rest) with
      data := m.data } held := by
  rw [List.append_assoc, List.singleton_append]
  have left : Machine.ops { m.setOps (sleep i (.sleep l) (spin l) ++ .call (.test l) :: rest) with
      data := m.data } = sleep i (.sleep l) (spin l) ++ .call (.test l) :: rest :=
    ops_setOps m _
  refine ex.move (near_setOps rfl rfl rfl rfl) ?balanced ?clear ?place ?wakes
  case balanced =>
    intro h all
    rw [left]
    rw [next] at all
    exact all
  case clear =>
    intro there
    rw [here] at there
    cases there
  case place =>
    intro j there
    rw [here] at there
    cases there
    refine .dozing l (.setChan none :: .release (.proc i) :: .acquire (spin l) ::
      .call (.test l) :: rest) busy ?_ ?_
    · intro op among
      rcases List.mem_cons.mp among with rfl | among
      · trivial
      rcases List.mem_cons.mp among with rfl | among
      · trivial
      rcases List.mem_cons.mp among with rfl | among
      · trivial
      rcases List.mem_cons.mp among with rfl | among
      · trivial
      exact clear.behind next op among
    · rw [left]
      refine .acquire ?_ ?_
      · change ((m.setOps _).proc i).state ≠ .sleeping
        rw [state_setOps]
        exact clear.awake i here
      · change (m.setOps _).locked (spin l) = true
        rw [setOps_locked]
        exact locked
  case wakes =>
    intro j k _ _ _ wake
    exact (clear.settled _ wake).elim

/-- A call of a process is made by a process. -/
theorem running_of_sig {c : Call ι} {mode later : Mode (Spin ι)}
    (process : kernelSig c none mode = none) (after : kernelSig c m.running mode = some later) :
    ∃ i, m.running = some i := by
  cases here : m.running with
  | none =>
      rw [here, process] at after
      cases after
  | some i => exact ⟨i, rfl⟩

theorem Action.locks_ops {action : Action ι} {h later : List ι}
    (after : action.locks h = some later) : Sync.locks h action.ops = some later := by
  cases action with
  | ilock l =>
      rw [Action.ops, locks_cons]
      change (grab l h).bind _ = _
      rw [show grab l h = some later from after]
      rfl
  | iunlock l =>
      rw [Action.ops, locks_cons]
      change (drop l h).bind _ = _
      rw [show drop l h = some later from after]
      rfl
  | kill i => exact after

/-- The lock of the spin lock that a function of sleep locks holds. -/
theorem Counted.spin {l : ι} {mode : Mode (Spin ι)} {result later : Mode (Spin ι)}
    (counted : Counted m mode.held)
    (after : (if mode.held = [spin l] ∧ mode.going = true then some result else none) =
      some later) : m.locked (Sync.spin l) = true := by
  obtain ⟨locks, -, -⟩ := of_some after
  rw [counted.locked, locks]
  exact List.mem_cons_self

/-- A call outside of `sleep` and `wakeup`. -/
theorem Excludes.exec_call (good : Good (kernelDiscipline ι) m) (ex : Excludes m held)
    (clear : Clear m) {c : Call ι} (next : m.ops = .call c :: rest)
    (run : m.exec (kernel ι) rest (.call c) = .ok m') : ∃ held', Excludes m' held' := by
  cases run
  change ∃ held', Excludes { m.setOps ((body c m.running m.data).2 ++ rest) with
    data := (body c m.running m.data).1 } held'
  obtain ⟨mode, later, counted, after⟩ := good.at_call next
  have single (one : KernelOp ι) (is_settled : settled one) : ∀ op ∈ [one], settled op := by
    intro op among
    cases List.mem_singleton.mp among
    exact is_settled
  cases c with
  | clockintr =>
      refine ⟨held, ex.clear_call clear next rfl ?_ fun h later same => same⟩
      exact List.forall_mem_cons.mpr ⟨trivial, single _ trivial⟩
  | tick =>
      refine ⟨held, ex.clear_call clear next rfl ?_ fun h later same => ?_⟩
      · intro op among
        rcases List.mem_append.mp among with wake | release
        · exact settled_wakeup_jiffies wake
        · exact single (.release clocklock) trivial op release
      · change locks h (wakeup m.running Event.jiffies ++ [.release clocklock]) = _
        rw [locks_wakeup]
        exact same
  | devintr =>
      refine ⟨held, ex.clear_call clear next rfl ?_ fun h later same => same⟩
      intro op among
      cases among
  | forkret =>
      exact ⟨held, ex.clear_call clear next rfl (single _ trivial) fun h later same => same⟩
  | panic =>
      refine ⟨held, ex.clear_call clear next rfl (single _ trivial) fun h later same => ?_⟩
      cases same
  | acquiresleep l =>
      obtain ⟨i, here⟩ := running_of_sig rfl after
      refine ⟨held, ex.clear_call clear next ?_ ?_ fun h later same => ?_⟩
      all_goals rw [here]
      · rfl
      · exact List.forall_mem_cons.mpr ⟨trivial, single _ trivial⟩
      · change (grab l h).bind _ = _
        rw [show grab l h = some later from same]
        rfl
  | test l =>
      obtain ⟨i, here⟩ := running_of_sig rfl after
      rw [here] at after ⊢
      rw [body]
      split
      · next busy =>
          exact ⟨held, ex.lock_busy clear here next busy (counted.spin after)⟩
      · next free =>
          rw [Bool.not_eq_true] at free
          exact ⟨_, ex.lock_free clear here next free⟩
  | releasesleep l =>
      obtain ⟨i, here⟩ := running_of_sig rfl after
      refine ⟨held, ex.clear_call clear next ?_ ?_ fun h later same => ?_⟩
      all_goals rw [here]
      · rfl
      · exact List.forall_mem_cons.mpr ⟨trivial, single _ trivial⟩
      · change (drop l h).bind _ = _
        rw [show drop l h = some later from same]
        rfl
  | unlock l =>
      obtain ⟨i, here⟩ := running_of_sig rfl after
      rw [here] at after ⊢
      exact ⟨_, ex.unlock clear here next (counted.spin after)⟩
  | iunlock l =>
      obtain ⟨i, here⟩ := running_of_sig rfl after
      refine ⟨held, ex.clear_call clear next ?_ ?_ fun h later same => ?_⟩
      all_goals rw [here]
      · rfl
      · exact List.forall_mem_cons.mpr ⟨trivial, single _ trivial⟩
      · change (drop l h).bind _ = _
        rw [show drop l h = some later from same]
        rfl
  | holding l =>
      obtain ⟨i, here⟩ := running_of_sig rfl after
      obtain ⟨left, dropped, -⟩ := ex.balanced_call here next
      have owner := ex.owner i l (drop_eq dropped).1
      have held_by_me : (m.data.lock l).locked = true ∧ (m.data.lock l).pid = some i := by
        rw [owner]
        exact ⟨rfl, rfl⟩
      have ops : (body (.holding l) m.running m.data).2 =
          [.release (spin l), .call (.releasesleep l)] := by
        rw [here, body, if_pos held_by_me]
      refine ⟨held, ex.clear_call clear next ?_ ?_ fun h later same => ?_⟩
      · rw [here]
        rfl
      · rw [ops]
        exact List.forall_mem_cons.mpr ⟨trivial, single _ trivial⟩
      · rw [ops]
        change (drop l h).bind _ = _
        rw [show drop l h = some later from same]
        rfl
  | syscall actions =>
      obtain ⟨i, here⟩ := running_of_sig rfl after
      cases actions with
      | nil =>
          refine ⟨held, ex.clear_call clear next ?_ ?_ fun h later same => ?_⟩
          all_goals rw [here]
          · rfl
          · intro op among
            cases among
          · exact same
      | cons action actions =>
          refine ⟨held, ex.clear_call clear next ?_ ?_ fun h later same => ?_⟩
          all_goals rw [here]
          · rfl
          · intro op among
            rcases List.mem_append.mp among with first | last
            · exact Action.settled first
            · exact single (.call (.syscall actions)) trivial op last
          · obtain ⟨middle, one, others⟩ := Option.bind_eq_some_iff.mp same
            rw [body, locks_append, Action.locks_ops one]
            change (actions.foldlM Action.locks middle).bind _ = _
            rw [show actions.foldlM Action.locks middle = some later from others]
            rfl
  | usertrap actions =>
      obtain ⟨i, here⟩ := running_of_sig rfl after
      refine ⟨held, ex.clear_call clear next ?_ ?_ fun h later same => ?_⟩
      all_goals rw [here]
      · rfl
      · exact List.forall_mem_cons.mpr
          ⟨trivial, List.forall_mem_cons.mpr ⟨trivial, single _ trivial⟩⟩
      · change (actions.foldlM Action.locks h).bind _ = _
        rw [show actions.foldlM Action.locks h = some later from same]
        rfl
  | usertimer =>
      obtain ⟨i, here⟩ := running_of_sig rfl after
      refine ⟨held, ex.clear_call clear next ?_ ?_ fun h later same => ?_⟩
      all_goals rw [here]
      · rfl
      · intro op among
        rcases List.mem_cons.mp among with rfl | among
        · trivial
        exact settled_yield among
      · exact same

/-- What the check of sleep locks says of the stack that is used. -/
theorem Excludes.balanced_ops (ex : Excludes m held) : ∃ h, locks h m.ops = some [] := by
  cases here : m.running with
  | none =>
      rw [Machine.ops_of_none here]
      exact ⟨[], ex.idle⟩
  | some i =>
      rw [Machine.ops_of_some here]
      exact ⟨held i, ex.balanced i⟩

/-- No process is made. -/
theorem Excludes.no_processes (ex : Excludes m held) {op : KernelOp ι} (next : m.ops = op :: rest)
    (none_left : ∀ h, opLocks h op = none) : False := by
  obtain ⟨h, balanced⟩ := ex.balanced_ops
  rw [next, locks_cons, none_left h] at balanced
  cases balanced

/-- A process is switched away. -/
theorem Excludes.switch (good : Good (kernelDiscipline ι) m) (ex : Excludes m held)
    {i : Fin nproc} (here : m.running = some i) (next : m.ops = .sched :: rest)
    (wakes : ∀ {j l}, .wake j (.sleep l) ∈ m.ops → (m.data.lock l).locked = true)
    (behind : ∀ op ∈ rest, settled op) :
    Excludes { m.setProc i { m.proc i with ops := .switched m.intena :: rest } with
      running := none, pass := .back i } held where
  balanced j := by
    change locks (held j) ((m.setProc i _).proc j).ops = _
    by_cases same : j = i
    · subst same
      rw [setProc_self]
      have balanced := ex.balanced j
      rw [← Machine.ops_of_some here] at balanced
      have left := locks_rest next (fun _ => rfl) _ balanced
      exact left
    · rw [setProc_of_ne m same]
      exact ex.balanced j
  idle := ex.idle
  nodup := ex.nodup
  owner := ex.owner
  owned := ex.owned
  parked j _ := by
    change ∀ op ∈ ((m.setProc i _).proc j).ops, settled op
    by_cases same : j = i
    · subst same
      rw [setProc_self]
      exact List.forall_mem_cons.mpr ⟨trivial, behind⟩
    · rw [setProc_of_ne m same]
      apply ex.parked
      rw [here]
      rintro there
      cases there
      exact same rfl
  handlers _ := by
    have no_idle : m.idle = [] := by
      by_contra busy
      exact absurd (here.symm.trans (good.idle busy)) (Option.some_ne_none i)
    intro op among
    change op ∈ m.idle at among
    rw [no_idle] at among
    cases among
  place j there := by
    cases there
  asleep j l sleeps chan := by
    change ((m.setProc i _).proc j).state = .sleeping at sleeps
    change ((m.setProc i _).proc j).chan = some (.sleep l) at chan
    have before : (m.proc j).state = .sleeping ∧ (m.proc j).chan = some (.sleep l) := by
      by_cases same : j = i
      · subst same
        rw [setProc_self] at sleeps chan
        exact ⟨sleeps, chan⟩
      · rw [setProc_of_ne m same] at sleeps chan
        exact ⟨sleeps, chan⟩
    left
    rcases ex.asleep j l before.1 before.2 with locked | wake
    · exact locked
    · exact wakes wake

/-- Every operation outside of `sleep` and `wakeup`. -/
theorem Excludes.exec_clear (good : Good (kernelDiscipline ι) m) (ex : Excludes m held)
    (clear : Clear m) {op : KernelOp ι} (next : m.ops = op :: rest)
    (run : m.exec (kernel ι) rest op = .ok m') : ∃ held', Excludes m' held' := by
  have behind := clear.behind next
  have lock (ops : List (KernelOp ι)) : (m.setOps ops).data.lock = m.data.lock :=
    congrArg Shared.lock (setOps_data m ops)
  cases op with
  | acquire lk =>
      cases run
      refine ⟨held, ex.clear_setOps clear (.acquired lk m.sie :: rest) (fun h balanced => ?_)
        (List.forall_mem_cons.mpr ⟨trivial, behind⟩) rfl rfl rfl (lock _)⟩
      have left := locks_rest next (fun _ => rfl) h balanced
      exact left
  | acquired lk old =>
      cases take_eq run
      exact ⟨held, ex.clear_setOps clear rest (locks_rest next fun _ => rfl) behind
        rfl rfl rfl (lock _)⟩
  | release lk =>
      cases release_eq run
      exact ⟨held, ex.clear_setOps clear rest (locks_rest next fun _ => rfl) behind
        rfl rfl rfl (lock _)⟩
  | setState state =>
      rw [Machine.exec] at run
      cases here : m.running with
      | none =>
          rw [here] at run
          cases run
      | some i =>
          rw [here] at run
          cases run
          have awake : state ≠ .sleeping := by
            rintro rfl
            have head := clear.settled (.setState .sleeping)
            rw [next] at head
            exact head List.mem_cons_self
          refine ⟨held, ex.step_clear ((local_setProc here _).near rfl) ?_ ?_ clear.settled ?_⟩
          · rw [ops_setProc here]
            exact locks_rest next fun _ => rfl
          · intro j there
            cases here.symm.trans there
            rw [setProc_self]
            exact awake
          · rw [ops_setProc here]
            exact behind
  | setChan chan =>
      rw [Machine.exec] at run
      cases here : m.running with
      | none =>
          rw [here] at run
          cases run
      | some i =>
          rw [here] at run
          cases run
          refine ⟨held, ex.step_clear ((local_setProc here _).near rfl) ?_ ?_ clear.settled ?_⟩
          · rw [ops_setProc here]
            exact locks_rest next fun _ => rfl
          · intro j there
            cases here.symm.trans there
            rw [setProc_self]
            exact clear.awake i here
          · rw [ops_setProc here]
            exact behind
  | sched =>
      rw [Machine.exec] at run
      cases here : m.running with
      | none =>
          rw [here] at run
          cases run
      | some i =>
          rw [here] at run
          cases sched_eq run
          exact ⟨held, Excludes.switch good ex here next (fun wake => (clear.settled _ wake).elim)
            behind⟩
  | switched intena =>
      cases run
      exact ⟨held, ex.clear_setOps clear rest (locks_rest next fun _ => rfl) behind
        rfl rfl rfl (lock _)⟩
  | wake j chan =>
      rw [Machine.exec] at run
      dsimp only at run
      split at run
      · next asleep =>
          cases run
          exact ⟨held, ex.clear_wake clear next (fun _ => rfl) asleep.1⟩
      · cases run
        exact ⟨held, ex.clear_setOps clear rest (locks_rest next fun _ => rfl) behind
          rfl rfl rfl (lock _)⟩
  | rouse j =>
      rw [Machine.exec] at run
      dsimp only at run
      split at run
      · next asleep =>
          cases run
          exact ⟨held, ex.clear_wake clear next (fun _ => rfl) asleep⟩
      · cases run
        exact ⟨held, ex.clear_setOps clear rest (locks_rest next fun _ => rfl) behind
          rfl rfl rfl (lock _)⟩
  | mark j state => exact (ex.no_processes next (fun _ => rfl)).elim
  | start j => exact (ex.no_processes next (fun _ => rfl)).elim
  | preempt =>
      rw [Machine.exec] at run
      cases here : m.running with
      | none =>
          rw [here] at run
          cases run
          exact ⟨held, ex.clear_setOps clear rest (locks_rest next fun _ => rfl) behind
            rfl rfl rfl (lock _)⟩
      | some i =>
          rw [here] at run
          dsimp only at run
          split at run
          · cases run
            refine ⟨held, ex.clear_setOps clear (yield i ++ rest) ?_ ?_ rfl rfl rfl (lock _)⟩
            · intro h balanced
              have left := locks_rest next (fun _ => rfl) h balanced
              exact left
            intro op among
            rcases List.mem_append.mp among with first | last
            · exact settled_yield first
            · exact behind op last
          · cases run
            exact ⟨held, ex.clear_setOps clear rest (locks_rest next fun _ => rfl) behind
              rfl rfl rfl (lock _)⟩
  | intrOn =>
      cases run
      exact ⟨held, ex.clear_setOps clear rest (locks_rest next fun _ => rfl) behind
        rfl rfl rfl (lock _)⟩
  | intrOff =>
      cases run
      exact ⟨held, ex.clear_setOps clear rest (locks_rest next fun _ => rfl) behind
        rfl rfl rfl (lock _)⟩
  | sret =>
      cases run
      exact ⟨held, ex.clear_setOps clear rest (locks_rest next fun _ => rfl) behind
        rfl rfl rfl (lock _)⟩
  | call c => exact ex.exec_call good clear next run

end Sync
end Xv6Duo
