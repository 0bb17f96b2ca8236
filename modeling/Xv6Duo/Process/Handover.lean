import Xv6Duo.Process.Family

/-!
# Children are handed over once

The invariant of the step relation of `Family`: who may hold `wait_lock`, which slots a thread has
passed in its loop, and that a process asleep in `wait4` has no zombie to collect, except while an
exiting process that has just handed it to `initproc` still holds `wait_lock`.
-/

namespace Xv6Duo
namespace Process

/-- The thread holds `wait_lock`. -/
def Pc.holdsWait : Pc → Bool
  | .exitReparent _ | .exitWakeInit .. | .exitWakeParent .. | .exitZombie => true
  | .waitScan .. | .waitSleep .. => true
  | _ => false

/-- The thread holds the lock of its process across steps. -/
def Pc.locked : Pc → Bool
  | .exitSched | .waitFall .. => true
  | _ => false

/-- The process exits and holds `wait_lock`. -/
def Pc.exiting : Pc → Bool
  | .exitReparent _ | .exitWakeInit .. | .exitWakeParent .. | .exitZombie => true
  | _ => false

/-- The process exits, has exited or was not started. -/
def Pc.ended : Pc → Bool
  | .exitReparent _ | .exitWakeInit .. | .exitWakeParent .. | .exitZombie => true
  | .exitSched | .exited | .idle => true
  | _ => false

/-- The slots below which the process has no children any more. -/
def Pc.cleared : Pc → Nat
  | .exitReparent k => k
  | .exitWakeInit k _ => k + 1
  | .exitWakeParent .. | .exitZombie | .exitSched | .exited | .idle => nproc
  | _ => 0

theorem Pc.cleared_eq_zero {pc : Pc} (lives : pc.ended = false) : pc.cleared = 0 := by
  cases pc <;> simp_all [Pc.ended, Pc.cleared]

/-- The argument of `wait4` and the slots that its loop has passed. -/
def Pc.scanned : Pc → Option (Int32 × Nat)
  | .waitScan pid _ k => some (pid, k)
  | .waitSleep pid _ => some (pid, nproc)
  | _ => none

/-- The argument of the `wait4` in which the process sleeps, or is about to with its own lock. -/
def Cell.zone (c : Cell) : Option Int32 :=
  match c.pc with
  | .waitFall pid _ => some pid
  | .waitAsleep pid _ => if c.proc.state = .sleeping then some pid else none
  | _ => none

/-- State and channel at a program counter. -/
def Pc.admits (i : Fin nproc) : Pc → Proc → Prop
  | .idle, p => p.state = .unused ∨ p.state = .used
  | .user, p | .forkLink _, p | .forkStart _, p | .waitRetry .., p =>
      p.state = .runnable ∨ p.state = .running
  | .nap, p => p.state = .sleeping ∧ (∃ a, p.chan = some (.other a)) ∨ p.state = .runnable
  | .waitAsleep .., p => p.state = .sleeping ∧ p.chan = some (.proc i) ∨ p.state = .runnable
  | .exitSched, p | .exited, p => p.state = .zombie
  | .exitReparent _, p | .exitWakeInit .., p | .exitWakeParent .., p | .exitZombie, p
  | .waitScan .., p | .waitSleep .., p | .waitFall .., p => p.state = .running

/-- The invariant of the slots. -/
structure Orderly (s : Family) : Prop where
  /-- `wait_lock`. -/
  lock : ∀ i, s.waitLock = some i ↔ (s.cell i).pc.holdsWait = true
  /-- Locks of processes. -/
  held : ∀ i, (s.cell i).held = (s.cell i).pc.locked
  /-- States. -/
  states : ∀ i, (s.cell i).pc.admits i (s.cell i).proc
  /-- A free slot has no parent. -/
  orphan : ∀ i, (s.cell i).proc.state = .unused → (s.cell i).proc.parent = none
  /-- The child that `fork` has not linked yet. -/
  linking : ∀ i np, (s.cell i).pc = .forkLink np → (s.cell np).proc.state = .used ∧
    (s.cell np).proc.parent = none ∧ (s.cell np).origin = (s.cell i).life
  /-- The child that `fork` has not started yet. -/
  starting : ∀ i np, (s.cell i).pc = .forkStart np → (s.cell np).proc.state = .used ∧
    (s.cell np).proc.parent = some i
  /-- Processes have numbers of their own. -/
  numbered : ∀ i j, (s.cell i).proc.state ≠ .unused → (s.cell j).proc.state ≠ .unused →
    (s.cell i).life = (s.cell j).life → i = j
  /-- Numbers were given out. -/
  bounded : ∀ i, (s.cell i).proc.state ≠ .unused → (s.cell i).life < s.lives
  /-- `initproc` does not exit. -/
  initLives : (s.cell initproc).pc.ended = false
  /-- Exiting processes have given away their children. -/
  cleared : ∀ p c : Fin nproc, c.val < (s.cell p).pc.cleared → (s.cell c).proc.parent ≠ some p

section Frame

variable (s : Family) (i j : Fin nproc) (c : Cell) (pc : Pc)

@[simp, grind =]
theorem set_cell : (s.set i c).cell j = if j = i then c else s.cell j :=
  Function.update_apply ..

@[simp, grind =]
theorem goto_cell : (s.goto i pc).cell j = if j = i then { s.cell i with pc := pc } else s.cell j :=
  Function.update_apply ..

@[simp, grind =]
theorem set_waitLock : (s.set i c).waitLock = s.waitLock := rfl

@[simp, grind =]
theorem goto_waitLock : (s.goto i pc).waitLock = s.waitLock := rfl

@[simp, grind =]
theorem set_lives : (s.set i c).lives = s.lives := rfl

@[simp, grind =]
theorem goto_lives : (s.goto i pc).lives = s.lives := rfl

@[simp, grind =]
theorem set_log : (s.set i c).log = s.log := rfl

@[simp, grind =]
theorem goto_log : (s.goto i pc).log = s.log := rfl

end Frame

section Admits

variable {i : Fin nproc} {pc : Pc} {p q : Proc}

theorem Pc.admits_unused (admits : pc.admits i p)
    (state : p.state = .unused ∨ p.state = .used) : pc = .idle := by
  cases pc <;> grind [Pc.admits]

theorem Pc.admits_zombie (admits : pc.admits i p) (state : p.state = .zombie) :
    pc = .exitSched ∨ pc = .exited := by
  cases pc <;> grind [Pc.admits]

theorem Pc.admits_congr (admits : pc.admits i p) (state : q.state = p.state)
    (chan : q.chan = p.chan) : pc.admits i q := by
  cases pc <;> grind [Pc.admits]

theorem Pc.admits_wake (admits : pc.admits i p) (chan : Option Chan) :
    pc.admits i (wake p chan) := by
  cases pc <;> grind [Pc.admits, wake]

theorem Pc.admits_schedule (admits : pc.admits i p) (runnable : p.state = .runnable)
    (no_nap : pc ≠ .nap) (awake : ∀ pid kids, pc ≠ .waitAsleep pid kids)
    (state : q.state = .running) : pc.admits i q := by
  cases pc <;> grind [Pc.admits]

theorem Pc.admits_yield (admits : pc.admits i p) (running : p.state = .running)
    (no_wait : pc.holdsWait = false) (unlocked : pc.locked = false) (state : q.state = .runnable) :
    pc.admits i q := by
  cases pc <;> grind [Pc.admits, Pc.holdsWait, Pc.locked]

end Admits

variable {s s' : Family}

theorem Orderly.idle (orderly : Orderly s) (i : Fin nproc)
    (state : (s.cell i).proc.state = .unused ∨ (s.cell i).proc.state = .used) :
    (s.cell i).pc = .idle :=
  Pc.admits_unused (orderly.states i) state

theorem Orderly.in_use (orderly : Orderly s) (i : Fin nproc) (started : (s.cell i).pc ≠ .idle) :
    (s.cell i).proc.state ≠ .unused :=
  fun unused => started (orderly.idle i (Or.inl unused))

theorem Orderly.step_lock (orderly : Orderly s) (step : Step s s') (i : Fin nproc) :
    s'.waitLock = some i ↔ (s'.cell i).pc.holdsWait = true := by
  have lock := orderly.lock
  have idle := orderly.idle
  cases step with
  | forkStart j np at_pc running free =>
      have starting := orderly.starting j np at_pc
      grind [Pc.holdsWait]
  | scanReap j k pid kids at_pc selected free zombie =>
      have ended := Pc.admits_zombie (orderly.states k) zombie
      grind [Pc.holdsWait]
  | _ => grind [Pc.holdsWait]

theorem Orderly.step_held (orderly : Orderly s) (step : Step s s') (i : Fin nproc) :
    (s'.cell i).held = (s'.cell i).pc.locked := by
  have held := orderly.held
  cases step with
  | _ => grind [Pc.locked]

theorem Orderly.step_states (orderly : Orderly s) (step : Step s s') (i : Fin nproc) :
    (s'.cell i).pc.admits i (s'.cell i).proc := by
  have states := orderly.states
  have idle := orderly.idle
  cases step with
  | forkLink j np at_pc running free =>
      have at_np :=
        Pc.admits_congr (states np) (q := { (s.cell np).proc with parent := some j }) rfl rfl
      grind [Pc.admits]
  | reparent j k at_pc child =>
      have at_k := Pc.admits_congr (states k)
        (q := { (s.cell k).proc with parent := some initproc }) rfl rfl
      grind [Pc.admits]
  | wakeInit j k l at_pc differ free =>
      have at_k := Pc.admits_wake (states k) (some (.proc initproc))
      grind [Pc.admits]
  | wakeParent j k target at_pc differ free =>
      have at_k := Pc.admits_wake (states k) (target.map .proc)
      grind [Pc.admits]
  | wakeOther j address free =>
      have at_j := Pc.admits_wake (states j) (some (.other address))
      grind [Pc.admits]
  | schedule j runnable free no_nap awake =>
      have at_j := Pc.admits_schedule (states j) runnable no_nap awake
        (q := { (s.cell j).proc with state := .running }) rfl
      grind [Pc.admits]
  | yield j running free unlocked =>
      have no_wait := orderly.lock j
      have at_j := Pc.admits_yield (states j) running (by grind) (orderly.held j ▸ free)
        (q := { (s.cell j).proc with state := .runnable }) rfl
      grind [Pc.admits]
  | _ => grind [Pc.admits, forkChild, freeproc, closeAll]

theorem Orderly.step_orphan (orderly : Orderly s) (step : Step s s') (i : Fin nproc)
    (unused : (s'.cell i).proc.state = .unused) : (s'.cell i).proc.parent = none := by
  have orphan := orderly.orphan
  have states := orderly.states
  have linking := orderly.linking
  cases step with
  | _ => grind [forkChild, freeproc, closeAll, wake]

/-- A slot in use keeps the number of its process. -/
theorem Orderly.step_life (orderly : Orderly s) (step : Step s s') (i : Fin nproc)
    (used : (s'.cell i).proc.state ≠ .unused) :
    (s.cell i).proc.state ≠ .unused ∧ (s'.cell i).life = (s.cell i).life ∧
        (s'.cell i).origin = (s.cell i).origin ∧ s.lives ≤ s'.lives ∨
      (s.cell i).proc.state = .unused ∧ (s'.cell i).life = s.lives ∧ s'.lives = s.lives + 1 := by
  have in_use := orderly.in_use
  have linking := orderly.linking
  have starting := orderly.starting
  cases step with
  | _ => grind [forkChild, freeproc, closeAll, wake]

theorem step_fresh (step : Step s s') {i j : Fin nproc}
    (fresh_i : (s.cell i).proc.state = .unused) (used_i : (s'.cell i).proc.state ≠ .unused)
    (fresh_j : (s.cell j).proc.state = .unused) (used_j : (s'.cell j).proc.state ≠ .unused) :
    i = j := by
  cases step with
  | _ => grind [forkChild, freeproc, closeAll, wake]

theorem Orderly.step_numbered (orderly : Orderly s) (step : Step s s') (i j : Fin nproc)
    (used_i : (s'.cell i).proc.state ≠ .unused) (used_j : (s'.cell j).proc.state ≠ .unused)
    (same : (s'.cell i).life = (s'.cell j).life) : i = j := by
  have numbered := orderly.numbered i j
  have bounded := orderly.bounded
  rcases orderly.step_life step i used_i with ⟨old_i, life_i, -⟩ | ⟨new_i, life_i, -⟩
  · rcases orderly.step_life step j used_j with ⟨old_j, life_j, -⟩ | ⟨new_j, life_j, -⟩
    · exact numbered old_i old_j (by rw [← life_i, ← life_j, same])
    · have below := bounded i old_i
      omega
  · rcases orderly.step_life step j used_j with ⟨old_j, life_j, -⟩ | ⟨new_j, life_j, -⟩
    · have below := bounded j old_j
      omega
    · exact step_fresh step new_i used_i new_j used_j

theorem Orderly.step_bounded (orderly : Orderly s) (step : Step s s') (i : Fin nproc)
    (used : (s'.cell i).proc.state ≠ .unused) : (s'.cell i).life < s'.lives := by
  rcases orderly.step_life step i used with ⟨old, life, -, grows⟩ | ⟨new, life, grows⟩
  · have below := orderly.bounded i old
    omega
  · omega

theorem Orderly.step_linking (orderly : Orderly s) (step : Step s s') (i np : Fin nproc)
    (at_pc : (s'.cell i).pc = .forkLink np) : (s'.cell np).proc.state = .used ∧
      (s'.cell np).proc.parent = none ∧ (s'.cell np).origin = (s'.cell i).life := by
  have linking := orderly.linking
  have starting := orderly.starting
  have in_use := orderly.in_use
  have idle := orderly.idle
  have orphan := orderly.orphan
  have numbered := orderly.numbered
  cases step with
  | _ => grind [forkChild, freeproc, closeAll, wake]

theorem Orderly.step_starting (orderly : Orderly s) (step : Step s s') (i np : Fin nproc)
    (at_pc : (s'.cell i).pc = .forkStart np) : (s'.cell np).proc.state = .used ∧
      (s'.cell np).proc.parent = some i := by
  have linking := orderly.linking
  have starting := orderly.starting
  have in_use := orderly.in_use
  have idle := orderly.idle
  have orphan := orderly.orphan
  cases step with
  | _ => grind [forkChild, freeproc, closeAll, wake]

theorem Orderly.step_initLives (orderly : Orderly s) (step : Step s s') :
    (s'.cell initproc).pc.ended = false := by
  have initLives := orderly.initLives
  have idle := orderly.idle
  have states := orderly.states
  cases step with
  | scanReap j k pid kids at_pc selected free zombie =>
      have ended := Pc.admits_zombie (orderly.states k) zombie
      grind [Pc.ended]
  | _ => grind [Pc.ended]

theorem Orderly.step_cleared (orderly : Orderly s) (step : Step s s') (p c : Fin nproc)
    (below : c.val < (s'.cell p).pc.cleared) : (s'.cell c).proc.parent ≠ some p := by
  have cleared := orderly.cleared
  have initCleared := Pc.cleared_eq_zero orderly.initLives
  have idle := orderly.idle
  have starting := orderly.starting
  have linking := orderly.linking
  cases step with
  | scanReap j k pid kids at_pc selected free zombie =>
      have ended := Pc.admits_zombie (orderly.states k) zombie
      grind [Pc.cleared, freeproc]
  | reparent j k at_pc child =>
      set s' := (s.set k
        { s.cell k with proc := { (s.cell k).proc with parent := some initproc } }).goto j
          (.exitWakeInit k 0) with s'_eq
      have pc_eq : (s'.cell p).pc = if p = j then .exitWakeInit k 0 else (s.cell p).pc := by grind
      have parent_eq : (s'.cell c).proc.parent =
          if c = k then some initproc else (s.cell c).proc.parent := by grind
      rw [pc_eq] at below
      rw [parent_eq]
      have initOther : initproc ≠ j := by
        rintro rfl
        have lives := orderly.initLives
        simp [at_pc, Pc.ended] at lives
      by_cases is_j : p = j
      · subst is_j
        rw [if_pos rfl, Pc.cleared] at below
        by_cases is_k : c = k
        · grind
        · have smaller : c.val < k.val := by
            have differ := Fin.val_ne_of_ne is_k
            omega
          rw [if_neg is_k]
          exact cleared p c (by rw [at_pc]; exact smaller)
      · rw [if_neg is_j] at below
        have kept := cleared p c below
        by_cases is_init : p = initproc
        · rw [is_init, initCleared] at below
          omega
        · grind
  | _ => grind [Pc.cleared, forkChild, freeproc, closeAll, wake]

theorem Orderly.step (orderly : Orderly s) (step : Step s s') : Orderly s' where
  lock := orderly.step_lock step
  held := orderly.step_held step
  states := orderly.step_states step
  orphan := orderly.step_orphan step
  linking := orderly.step_linking step
  starting := orderly.step_starting step
  numbered := orderly.step_numbered step
  bounded := orderly.step_bounded step
  initLives := orderly.step_initLives step
  cleared := orderly.step_cleared step

/-! ## No lost wakeup -/

/-- The invariant of `wait4`. -/
structure Watchful (s : Family) : Prop where
  /-- The loop has passed no zombie. -/
  scanned : ∀ i pid k, (s.cell i).pc.scanned = some (pid, k) → ∀ c : Fin nproc, c.val < k →
    selects s.table i pid c = true → (s.cell c).proc.state ≠ .zombie
  /-- Whoever sleeps has no zombie, unless a process that exits has not yet come to wake it. -/
  asleep : ∀ i pid, (s.cell i).zone = some pid → ∀ c, selects s.table i pid c = true →
    (s.cell c).proc.state = .zombie →
      i = initproc ∧ ∃ q k j, (s.cell q).pc = .exitWakeInit k j ∧ j ≤ initproc.val
  /-- `wakeup(p->parent)` has woken the parent if it has come past it. -/
  target : ∀ i target j, (s.cell i).pc = .exitWakeParent target j →
    target = (s.cell i).proc.parent ∧
      ∀ p, (s.cell i).proc.parent = some p → p.val < j → (s.cell p).zone = none
  /-- The parent is awake when a process becomes a zombie. -/
  woken : ∀ i, (s.cell i).pc = .exitZombie →
    ∀ p, (s.cell i).proc.parent = some p → (s.cell p).zone = none

theorem selects_congr {t t' : Table} {i c : Fin nproc} {pid : Int32}
    (parent : (t' c).parent = (t c).parent) (pid_eq : (t' c).pid = (t c).pid)
    (pgid : (t' c).pgid = (t c).pgid) (own : (t' i).pgid = (t i).pgid) :
    selects t' i pid c = selects t i pid c := by
  rw [selects, selects, parent, pid_eq, pgid, own]

theorem parent_of_selects {t : Table} {i c : Fin nproc} {pid : Int32}
    (selected : selects t i pid c = true) : (t c).parent = some i := by
  simp only [selects, decide_eq_true_eq] at selected
  exact selected.1

/-- What a step does to the relations of a process. -/
theorem Orderly.step_kin (orderly : Orderly s) (step : Step s s') (c : Fin nproc) :
    ((s'.cell c).proc.parent = (s.cell c).proc.parent ∧
        (s'.cell c).proc.pid = (s.cell c).proc.pid ∧
        (s'.cell c).proc.pgid = (s.cell c).proc.pgid) ∨
      (s'.cell c).proc.state = .used ∨ (s'.cell c).proc.state = .unused ∨
      (s'.cell c).proc.parent = some initproc ∧
        ∃ q k, (s.cell q).pc = .exitReparent k ∧ (s'.cell q).pc = .exitWakeInit k 0 := by
  have linking := orderly.linking
  have idle := orderly.idle
  cases step with
  | _ => grind [forkChild, freeproc, closeAll, wake]

theorem step_pgid (step : Step s s') (i : Fin nproc) :
    (s'.cell i).proc.pgid = (s.cell i).proc.pgid ∨ (s.cell i).proc.state = .unused ∨
      (s.cell i).proc.state = .zombie := by
  cases step with
  | _ => grind [forkChild, freeproc, closeAll, wake]

/-- A process becomes a zombie at the end of `exit`. -/
theorem step_zombie (step : Step s s') (c : Fin nproc) (zombie : (s'.cell c).proc.state = .zombie) :
    (s.cell c).proc.state = .zombie ∨ (s.cell c).pc = .exitZombie ∧ s'.waitLock = none := by
  cases step with
  | _ => grind [forkChild, freeproc, closeAll, wake]

/-- A parent is a process that has not ended. -/
theorem Orderly.parent_started (orderly : Orderly s) {c p : Fin nproc}
    (child : (s.cell c).proc.parent = some p) :
    (s.cell p).proc.state ≠ .unused ∧ (s.cell p).proc.state ≠ .zombie := by
  have cleared := orderly.cleared p c
  constructor
  · intro unused
    rw [orderly.idle p (Or.inl unused)] at cleared
    exact cleared c.isLt child
  · intro zombie
    rcases Pc.admits_zombie (orderly.states p) zombie with sched | exited
    · rw [sched] at cleared
      exact cleared c.isLt child
    · rw [exited] at cleared
      exact cleared c.isLt child

/-- Whose zombie a process is, compared with the step before. -/
theorem Orderly.step_selects (orderly : Orderly s) (step : Step s s') {i c : Fin nproc}
    {pid : Int32} (selected : selects s'.table i pid c = true)
    (zombie : (s'.cell c).proc.state = .zombie) :
    selects s.table i pid c = true ∨
      i = initproc ∧ ∃ q k, (s.cell q).pc = .exitReparent k ∧
        (s'.cell q).pc = .exitWakeInit k 0 := by
  have child := parent_of_selects selected
  rcases orderly.step_kin step c with ⟨parent, pid_eq, pgid⟩ | used | unused | ⟨parent, handed⟩
  · left
    have started := orderly.parent_started (parent.symm.trans child)
    have own : (s'.cell i).proc.pgid = (s.cell i).proc.pgid := by
      rcases step_pgid step i with same | ended | ended
      · exact same
      · exact absurd ended started.1
      · exact absurd ended started.2
    have same : selects s'.table i pid c = selects s.table i pid c :=
      selects_congr parent pid_eq pgid own
    exact same.symm.trans selected
  · simp [used] at zombie
  · simp [unused] at zombie
  · right
    exact ⟨Option.some.inj (child.symm.trans parent), handed⟩

/-! ### Steps of `wait4` and `exit` -/

/-- The loop of `wait4` passes a slot without a zombie that it looks for. -/
theorem step_scan (step : Step s s') {i : Fin nproc} {pid : Int32} {k : Nat}
    (scanned : (s'.cell i).pc.scanned = some (pid, k)) :
    k = 0 ∨ (s.cell i).pc.scanned = some (pid, k) ∨
      ∃ l : Fin nproc, k = l.val + 1 ∧ (s.cell i).pc.scanned = some (pid, l.val) ∧
        (selects s.table i pid l = true → (s.cell l).proc.state ≠ .zombie) := by
  cases step with
  | _ => grind [Pc.scanned, forkChild, freeproc, closeAll, wake]

/-- A process goes to sleep in `wait4` after it has passed the whole table. -/
theorem step_zone (step : Step s s') {i : Fin nproc} {pid : Int32}
    (asleep : (s'.cell i).zone = some pid) :
    (s.cell i).zone = some pid ∨ (s.cell i).pc.scanned = some (pid, nproc) := by
  cases step with
  | _ => grind [Cell.zone, Pc.scanned, forkChild, freeproc, closeAll, wake]

/-- `wakeup` at a slot whose lock is free leaves nobody there asleep on the channel of `wait4`. -/
theorem Orderly.wake_zone (orderly : Orderly s) {j : Fin nproc} (free : (s.cell j).held = false) :
    ({ s.cell j with proc := wake (s.cell j).proc (some (.proc j)) } : Cell).zone = none := by
  have states := orderly.states j
  have held := orderly.held j
  cases at_j : (s.cell j).pc with
  | waitFall pid kids =>
      rw [at_j, free] at held
      simp [Pc.locked] at held
  | waitAsleep pid kids =>
      rw [at_j] at states
      rcases states with ⟨sleeping, chan⟩ | runnable
      · simp [Cell.zone, at_j, wake, sleeping, chan]
      · simp [Cell.zone, at_j, wake, runnable]
  | _ => simp [Cell.zone, at_j]

/-- `wakeup(initproc)` goes on, or has woken `initproc`. -/
theorem Orderly.step_wakeInit (orderly : Orderly s) (step : Step s s') {q : Fin nproc} {k j : Nat}
    (at_q : (s.cell q).pc = .exitWakeInit k j) (ahead : j ≤ initproc.val) :
    (∃ k j, (s'.cell q).pc = .exitWakeInit k j ∧ j ≤ initproc.val) ∨
      (s'.cell initproc).zone = none := by
  have idle := orderly.idle
  have starting := orderly.starting
  have ended := fun k => Pc.admits_zombie (orderly.states k)
  have initLives := orderly.initLives
  cases step with
  | wakeInit i l m at_pc differ free =>
      by_cases is_q : q = i
      · subst is_q
        by_cases is_init : l = initproc
        · subst is_init
          right
          have awake := orderly.wake_zone free
          grind [Cell.zone]
        · left
          have same : l.val = j := by grind
          have differ_val := Fin.val_ne_of_ne is_init
          exact ⟨k, l.val + 1, by grind, by omega⟩
      · grind
  | wakeInitSelf i m at_pc =>
      by_cases is_q : q = i
      · subst is_q
        left
        have other : q ≠ initproc := by
          rintro rfl
          simp [at_q, Pc.ended] at initLives
        have same : q.val = j := by grind
        have differ_val := Fin.val_ne_of_ne other
        exact ⟨k, q.val + 1, by grind, by omega⟩
      · grind
  | wakeInitDone i m at_pc =>
      have inside := initproc.isLt
      grind
  | _ => grind

/-- `wakeup(p->parent)` starts with the parent and wakes the slots that it passes. -/
theorem step_wakeParent (step : Step s s') {i : Fin nproc} {target : Option (Fin nproc)} {j : Nat}
    (at_i : (s'.cell i).pc = .exitWakeParent target j) :
    (s.cell i).pc = .exitReparent nproc ∧ j = 0 ∧ target = (s.cell i).proc.parent ∨
      (s.cell i).pc = .exitWakeParent target j ∨
      ∃ l : Fin nproc, j = l.val + 1 ∧ (s.cell i).pc = .exitWakeParent target l.val ∧
        (l = i ∨ (s.cell l).held = false ∧
          s'.cell l = { s.cell l with proc := wake (s.cell l).proc (target.map .proc) }) := by
  cases step with
  | _ => grind

theorem step_exitZombie (step : Step s s') {i : Fin nproc}
    (at_i : (s'.cell i).pc = .exitZombie) :
    (s.cell i).pc = .exitZombie ∨ ∃ target, (s.cell i).pc = .exitWakeParent target nproc := by
  cases step with
  | _ => grind

theorem Orderly.holder_unique (orderly : Orderly s) {i j : Fin nproc}
    (at_i : (s.cell i).pc.holdsWait = true) (at_j : (s.cell j).pc.holdsWait = true) : i = j := by
  have holder_i := (orderly.lock i).mpr at_i
  have holder_j := (orderly.lock j).mpr at_j
  exact Option.some.inj (holder_i.symm.trans holder_j)

/-- Nobody changes the parent of a process that exits. -/
theorem Orderly.step_parent (orderly : Orderly s) (step : Step s s') {i : Fin nproc}
    (exiting : (s'.cell i).pc = .exitZombie ∨
      ∃ target j, (s'.cell i).pc = .exitWakeParent target j) :
    (s'.cell i).proc.parent = (s.cell i).proc.parent := by
  have after := orderly.step step
  have running : (s'.cell i).proc.state = .running := by
    have states := after.states i
    rcases exiting with at_i | ⟨target, j, at_i⟩
    · rw [at_i] at states
      exact states
    · rw [at_i] at states
      exact states
  rcases orderly.step_kin step i with ⟨parent, -⟩ | used | unused | ⟨-, q, k, -, at_q⟩
  · exact parent
  · simp [running] at used
  · simp [running] at unused
  · have holds_q : (s'.cell q).pc.holdsWait = true := by rw [at_q]; rfl
    have holds_i : (s'.cell i).pc.holdsWait = true := by
      rcases exiting with at_i | ⟨target, j, at_i⟩
      · rw [at_i]; rfl
      · rw [at_i]; rfl
    obtain rfl := after.holder_unique holds_i holds_q
    simp [at_q] at exiting

/-- While a process holds `wait_lock`, no other one falls asleep in `wait4`. -/
theorem Orderly.step_zone_none (orderly : Orderly s) (step : Step s s') {i p : Fin nproc}
    (holds : (s.cell i).pc.holdsWait = true) (exits : (s.cell i).pc.scanned = none)
    (awake : (s.cell p).zone = none) : (s'.cell p).zone = none := by
  cases zone : (s'.cell p).zone with
  | none => rfl
  | some pid =>
      rcases step_zone step zone with before | scanned
      · simp [awake] at before
      · have holds_p : (s.cell p).pc.holdsWait = true := by
          cases at_p : (s.cell p).pc <;> simp_all [Pc.scanned, Pc.holdsWait]
        obtain rfl := orderly.holder_unique holds holds_p
        simp [exits] at scanned

theorem Watchful.step_scanned (watchful : Watchful s) (orderly : Orderly s) (step : Step s s')
    (i : Fin nproc) (pid : Int32) (k : Nat) (scanned : (s'.cell i).pc.scanned = some (pid, k))
    (c : Fin nproc) (below : c.val < k) (selected : selects s'.table i pid c = true) :
    (s'.cell c).proc.state ≠ .zombie := by
  intro zombie
  have after := orderly.step step
  have holds : (s'.cell i).pc.holdsWait = true := by
    cases at_i : (s'.cell i).pc <;> simp_all [Pc.scanned, Pc.holdsWait]
  rcases orderly.step_selects step selected zombie with before | ⟨-, q, l, -, at_q⟩
  · rcases step_zombie step c zombie with old | ⟨-, unlocked⟩
    · rcases step_scan step scanned with rfl | same | ⟨l, rfl, passed, not_zombie⟩
      · omega
      · exact watchful.scanned i pid k same c below before old
      · by_cases is_l : c = l
        · rw [is_l] at before old
          exact not_zombie before old
        · have differ := Fin.val_ne_of_ne is_l
          exact watchful.scanned i pid l passed c (by omega) before old
    · have locked := (after.lock i).mpr holds
      simp [unlocked] at locked
  · have holds_q : (s'.cell q).pc.holdsWait = true := by rw [at_q]; rfl
    obtain rfl := after.holder_unique holds holds_q
    simp [at_q, Pc.scanned] at scanned

theorem Watchful.step_asleep (watchful : Watchful s) (orderly : Orderly s) (step : Step s s')
    (i : Fin nproc) (pid : Int32) (asleep : (s'.cell i).zone = some pid) (c : Fin nproc)
    (selected : selects s'.table i pid c = true) (zombie : (s'.cell c).proc.state = .zombie) :
    i = initproc ∧ ∃ q k j, (s'.cell q).pc = .exitWakeInit k j ∧ j ≤ initproc.val := by
  rcases orderly.step_selects step selected zombie with before | ⟨is_init, q, l, -, at_q⟩
  · rcases step_zombie step c zombie with old | ⟨at_c, -⟩
    · rcases step_zone step asleep with slept | scanned
      · obtain ⟨is_init, q, k, j, at_q, ahead⟩ := watchful.asleep i pid slept c before old
        refine ⟨is_init, q, ?_⟩
        rcases orderly.step_wakeInit step at_q ahead with goes_on | awake
        · exact goes_on
        · rw [is_init, awake] at asleep
          simp at asleep
      · exact absurd old (watchful.scanned i pid nproc scanned c c.isLt before)
    · have awake := watchful.woken c at_c i (parent_of_selects before)
      have still :=
        orderly.step_zone_none step (i := c) (by rw [at_c]; rfl) (by rw [at_c]; rfl) awake
      simp [still] at asleep
  · exact ⟨is_init, q, l, 0, at_q, Nat.zero_le _⟩

theorem Watchful.step_target (watchful : Watchful s) (orderly : Orderly s) (step : Step s s')
    (i : Fin nproc) (target : Option (Fin nproc)) (j : Nat)
    (at_i : (s'.cell i).pc = .exitWakeParent target j) :
    target = (s'.cell i).proc.parent ∧
      ∀ p, (s'.cell i).proc.parent = some p → p.val < j → (s'.cell p).zone = none := by
  rw [orderly.step_parent step (Or.inr ⟨target, j, at_i⟩)]
  rcases step_wakeParent step at_i with ⟨-, rfl, rfl⟩ | same | ⟨l, rfl, before, passed⟩
  · exact ⟨rfl, fun p _ below => absurd below (Nat.not_lt_zero _)⟩
  · obtain ⟨is_parent, woken⟩ := watchful.target i target j same
    refine ⟨is_parent, fun p parent below => ?_⟩
    exact orderly.step_zone_none step (i := i) (by rw [same]; rfl) (by rw [same]; rfl)
      (woken p parent below)
  · obtain ⟨is_parent, woken⟩ := watchful.target i target l before
    refine ⟨is_parent, fun p parent below => ?_⟩
    by_cases is_l : p = l
    · subst is_l
      rcases passed with rfl | ⟨free, woken_here⟩
      · simp [Cell.zone, at_i]
      · rw [woken_here, is_parent, parent]
        exact orderly.wake_zone free
    · have differ := Fin.val_ne_of_ne is_l
      exact orderly.step_zone_none step (i := i) (by rw [before]; rfl) (by rw [before]; rfl)
        (woken p parent (by omega))

theorem Watchful.step_woken (watchful : Watchful s) (orderly : Orderly s) (step : Step s s')
    (i : Fin nproc) (at_i : (s'.cell i).pc = .exitZombie) (p : Fin nproc)
    (parent : (s'.cell i).proc.parent = some p) : (s'.cell p).zone = none := by
  rw [orderly.step_parent step (Or.inl at_i)] at parent
  rcases step_exitZombie step at_i with same | ⟨target, before⟩
  · exact orderly.step_zone_none step (i := i) (by rw [same]; rfl) (by rw [same]; rfl)
      (watchful.woken i same p parent)
  · exact orderly.step_zone_none step (i := i) (by rw [before]; rfl) (by rw [before]; rfl)
      ((watchful.target i target nproc before).2 p parent p.isLt)

theorem Watchful.step (watchful : Watchful s) (orderly : Orderly s) (step : Step s s') :
    Watchful s' where
  scanned := watchful.step_scanned orderly step
  asleep := watchful.step_asleep orderly step
  target := watchful.step_target orderly step
  woken := watchful.step_woken orderly step

end Process
end Xv6Duo
