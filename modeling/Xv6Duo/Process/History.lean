import Xv6Duo.Process.Handover

/-!
# The history of a family

What the log of forks, exits and returns of `wait4` looks like in every reached state.
-/

namespace Xv6Duo
namespace Process

/-- The number of `initproc`. -/
def initLife : Nat := 0

/-- Every event agrees with the earlier ones. A slot is forked into again after `wait4` has returned
the processes that were in it; a process exits once; `wait4` returns a process once, after its exit,
with its own id, to the process that forked it or, when that one has exited, to `initproc`. -/
def Handed : List Event → Prop
  | [] => True
  | .forked _ _ slot _ :: earlier => Handed earlier ∧
      ∀ a b pid, .forked a b slot pid ∈ earlier → ∃ p pid', .returned p b pid' ∈ earlier
  | .exited b :: earlier => Handed earlier ∧ .exited b ∉ earlier
  | .returned p b pid :: earlier => Handed earlier ∧ (∀ p' pid', .returned p' b pid' ∉ earlier) ∧
      .exited b ∈ earlier ∧ ∃ a slot, .forked a b slot pid ∈ earlier ∧
        (p = a ∨ p = initLife ∧ .exited a ∈ earlier)

/-- The log and the slots agree. -/
structure Recorded (s : Family) : Prop where
  /-- `initproc` stays. -/
  initLife : (s.cell initproc).life = initLife
  /-- Processes were forked. -/
  forked : ∀ i, i ≠ initproc → (s.cell i).proc.state ≠ .unused →
    .forked (s.cell i).origin (s.cell i).life i (s.cell i).proc.pid ∈ s.log
  /-- Zombies have exited. -/
  zombies : ∀ i, (s.cell i).proc.state ≠ .unused →
    (.exited (s.cell i).life ∈ s.log ↔ (s.cell i).proc.state = .zombie)
  /-- Processes were not returned. -/
  unreturned : ∀ i p pid, (s.cell i).proc.state ≠ .unused →
    .returned p (s.cell i).life pid ∉ s.log
  /-- A forked process is in its slot or was returned. -/
  past : ∀ a b slot pid, .forked a b slot pid ∈ s.log →
    (s.cell slot).proc.state ≠ .unused ∧ (s.cell slot).life = b ∨
      ∃ p pid', .returned p b pid' ∈ s.log
  /-- The log is about numbers that were given out. -/
  exitedBounded : ∀ b, .exited b ∈ s.log → b < s.lives
  /-- The log is about numbers that were given out. -/
  returnedBounded : ∀ p b pid, .returned p b pid ∈ s.log → b < s.lives
  /-- A parent has forked the child, or is `initproc` and the one who did has exited. -/
  parents : ∀ c p, (s.cell c).proc.parent = some p → (s.cell p).life = (s.cell c).origin ∨
    p = initproc ∧ (.exited (s.cell c).origin ∈ s.log ∨
      ∃ q, (s.cell q).life = (s.cell c).origin ∧ (s.cell q).pc.exiting = true)
  /-- The log is in order. -/
  handed : Handed s.log

variable {s s' : Family}

theorem step_log_mono (step : Step s s') {e : Event} (mem : e ∈ s.log) : e ∈ s'.log := by
  cases step with
  | _ => grind

theorem Orderly.step_exiting (orderly : Orderly s) (step : Step s s') {q : Fin nproc}
    (exiting : (s.cell q).pc.exiting = true) :
    (s'.cell q).pc.exiting = true ∧ (s'.cell q).life = (s.cell q).life ∨
      .exited (s.cell q).life ∈ s'.log := by
  have idle := orderly.idle
  have starting := orderly.starting
  have ended := fun k => Pc.admits_zombie (orderly.states k)
  cases step with
  | _ => grind [Pc.exiting]

/-- How a process comes to have a parent. -/
theorem Orderly.step_parents (orderly : Orderly s) (step : Step s s') {c p : Fin nproc}
    (parent : (s'.cell c).proc.parent = some p) :
    (s.cell c).proc.parent = some p ∧ (s'.cell c).origin = (s.cell c).origin ∧
        (s'.cell p).life = (s.cell p).life ∨
      (s'.cell p).life = (s'.cell c).origin ∨
      p = initproc ∧ ∃ q, (s.cell c).proc.parent = some q ∧ (s.cell q).pc.exiting = true ∧
        (s'.cell c).origin = (s.cell c).origin ∧ (s'.cell q).pc.exiting = true ∧
        (s'.cell q).life = (s.cell q).life := by
  have idle := orderly.idle
  have linking := orderly.linking
  have orphan := orderly.orphan
  have started := fun c p => orderly.parent_started (c := c) (p := p)
  have ended := fun k => Pc.admits_zombie (orderly.states k)
  cases step with
  | _ => grind [Pc.exiting, forkChild, freeproc, closeAll, wake]

theorem Recorded.step_initLife (recorded : Recorded s) (orderly : Orderly s) (step : Step s s') :
    (s'.cell initproc).life = Process.initLife := by
  have initLife := recorded.initLife
  have lives := orderly.initLives
  have idle := orderly.idle
  cases step with
  | _ => grind [Pc.ended]

/-- A slot holds the same process, exited or not, as before. -/
structure SameLife (c c' : Cell) : Prop where
  /-- It is in use as before. -/
  used : c'.proc.state ≠ .unused ↔ c.proc.state ≠ .unused
  /-- It has exited as before. -/
  zombie : c'.proc.state = .zombie ↔ c.proc.state = .zombie
  /-- It keeps its numbers. -/
  same : c.proc.state ≠ .unused →
    c'.life = c.life ∧ c'.origin = c.origin ∧ c'.proc.pid = c.proc.pid

/-- What a step writes to the log. -/
inductive Logs (s s' : Family) : Prop
  /-- Nothing. -/
  | none (log : s'.log = s.log) (lives : s'.lives = s.lives)
      (others : ∀ j, SameLife (s.cell j) (s'.cell j))
  /-- A fork. -/
  | fork (i np : Fin nproc) (log : s'.log = .forked (s.cell i).life s.lives np s.nextpid :: s.log)
      (lives : s'.lives = s.lives + 1)
      (free : (s.cell np).proc.state = .unused) (used : (s'.cell np).proc.state = .used)
      (life : (s'.cell np).life = s.lives) (origin : (s'.cell np).origin = (s.cell i).life)
      (pid : (s'.cell np).proc.pid = s.nextpid)
      (others : ∀ j, j ≠ np → SameLife (s.cell j) (s'.cell j))
  /-- An exit. -/
  | exit (i : Fin nproc) (log : s'.log = .exited (s.cell i).life :: s.log)
      (lives : s'.lives = s.lives) (at_i : (s.cell i).pc = .exitZombie)
      (zombie : (s'.cell i).proc.state = .zombie) (life : (s'.cell i).life = (s.cell i).life)
      (origin : (s'.cell i).origin = (s.cell i).origin)
      (pid : (s'.cell i).proc.pid = (s.cell i).proc.pid)
      (others : ∀ j, j ≠ i → SameLife (s.cell j) (s'.cell j))
  /-- A return of `wait4`. -/
  | reap (i k : Fin nproc) (pid : Int32)
      (log : s'.log = .returned (s.cell i).life (s.cell k).life (s.cell k).proc.pid :: s.log)
      (lives : s'.lives = s.lives) (holds : (s.cell i).pc.holdsWait = true)
      (waits : (s.cell i).pc.exiting = false) (selected : selects s.table i pid k = true)
      (zombie : (s.cell k).proc.state = .zombie) (freed : (s'.cell k).proc.state = .unused)
      (others : ∀ j, j ≠ k → SameLife (s.cell j) (s'.cell j))

theorem Orderly.step_logs (orderly : Orderly s) (step : Step s s') : Logs s s' := by
  have in_use := orderly.in_use
  have ended := fun k => Pc.admits_zombie (orderly.states k)
  have linking := orderly.linking
  have starting := orderly.starting
  cases step with
  | fork i np pages regions at_pc running free unheld =>
      have differ : i ≠ np := by grind
      refine .fork i np rfl rfl free ?_ ?_ ?_ ?_ fun j other => ?_
      · grind [forkChild]
      · grind
      · grind
      · grind [forkChild]
      · constructor <;> grind
  | zombie i status at_pc unheld =>
      refine .exit i rfl rfl at_pc ?_ ?_ ?_ ?_ fun j other => ?_
      · grind
      · grind
      · grind
      · grind
      · constructor <;> grind
  | scanReap i k pid kids at_pc selected unheld zombie =>
      have differ : i ≠ k := by grind
      refine .reap i k pid rfl rfl (by rw [at_pc]; rfl) (by rw [at_pc]; rfl) selected zombie ?_
        fun j other => ?_
      · grind [freeproc]
      · constructor <;> grind
  | _ =>
      refine .none rfl rfl fun j => ?_
      constructor <;> grind [freeproc, closeAll, wake]

theorem Recorded.step_forked (recorded : Recorded s) (orderly : Orderly s) (step : Step s s')
    (i : Fin nproc) (other : i ≠ initproc) (used : (s'.cell i).proc.state ≠ .unused) :
    .forked (s'.cell i).origin (s'.cell i).life i (s'.cell i).proc.pid ∈ s'.log := by
  have old := fun (same : SameLife (s.cell i) (s'.cell i)) => by
    have before := same.used.mp used
    obtain ⟨life, origin, pid⟩ := same.same before
    have mem := recorded.forked i other before
    rw [← life, ← origin, ← pid] at mem
    exact step_log_mono step mem
  cases orderly.step_logs step with
  | none log lives others => exact old (others i)
  | fork j np log lives free used_np life origin pid others =>
      by_cases is_np : i = np
      · rw [is_np, life, origin, pid, log]
        exact List.mem_cons_self
      · exact old (others i is_np)
  | exit j log lives at_j zombie life origin pid others =>
      by_cases is_j : i = j
      · subst is_j
        have before := orderly.in_use i (by rw [at_j]; simp)
        rw [life, origin, pid]
        exact step_log_mono step (recorded.forked i other before)
      · exact old (others i is_j)
  | reap j k pid log lives holds waits selected zombie freed others =>
      by_cases is_k : i = k
      · rw [is_k] at used
        exact absurd freed used
      · exact old (others i is_k)

theorem Recorded.step_zombies (recorded : Recorded s) (orderly : Orderly s) (step : Step s s')
    (i : Fin nproc) (used : (s'.cell i).proc.state ≠ .unused) :
    .exited (s'.cell i).life ∈ s'.log ↔ (s'.cell i).proc.state = .zombie := by
  have zombies := recorded.zombies
  cases orderly.step_logs step with
  | none log lives others =>
      have same := others i
      rw [same.zombie, (same.same (same.used.mp used)).1, log]
      exact zombies i (same.used.mp used)
  | fork j np log lives free used_np life origin pid others =>
      have bounded := recorded.exitedBounded s.lives
      by_cases is_np : i = np
      · subst is_np
        simp only [log, life, used_np, List.mem_cons, reduceCtorEq, false_or, iff_false]
        exact fun mem => absurd (bounded mem) (Nat.lt_irrefl _)
      · have same := others i is_np
        rw [same.zombie, (same.same (same.used.mp used)).1, log]
        simpa using zombies i (same.used.mp used)
  | exit j log lives at_j zombie life origin pid others =>
      by_cases is_j : i = j
      · subst is_j
        simp [log, life, zombie]
      · have same := others i is_j
        have used_i := same.used.mp used
        have used_j := orderly.in_use j (by rw [at_j]; simp)
        have differ : (s.cell i).life ≠ (s.cell j).life :=
          fun lives => is_j (orderly.numbered i j used_i used_j lives)
        rw [same.zombie, (same.same used_i).1, log]
        simpa [differ] using zombies i used_i
  | reap j k pid log lives holds waits selected zombie freed others =>
      by_cases is_k : i = k
      · rw [is_k] at used
        exact absurd freed used
      · have same := others i is_k
        rw [same.zombie, (same.same (same.used.mp used)).1, log]
        simpa using zombies i (same.used.mp used)

theorem Recorded.step_unreturned (recorded : Recorded s) (orderly : Orderly s) (step : Step s s')
    (i : Fin nproc) (p : Nat) (pid : Int32) (used : (s'.cell i).proc.state ≠ .unused) :
    .returned p (s'.cell i).life pid ∉ s'.log := by
  have unreturned := recorded.unreturned
  cases orderly.step_logs step with
  | none log lives others =>
      have same := others i
      rw [(same.same (same.used.mp used)).1, log]
      exact unreturned i p pid (same.used.mp used)
  | fork j np log lives free used_np life origin pid_np others =>
      by_cases is_np : i = np
      · subst is_np
        simp only [log, life, List.mem_cons, reduceCtorEq, false_or]
        exact fun mem => absurd (recorded.returnedBounded p s.lives pid mem) (Nat.lt_irrefl _)
      · have same := others i is_np
        rw [(same.same (same.used.mp used)).1, log]
        simpa using unreturned i p pid (same.used.mp used)
  | exit j log lives at_j zombie life origin pid_j others =>
      by_cases is_j : i = j
      · subst is_j
        have before := orderly.in_use i (by rw [at_j]; simp)
        simpa [log, life] using unreturned i p pid before
      · have same := others i is_j
        rw [(same.same (same.used.mp used)).1, log]
        simpa using unreturned i p pid (same.used.mp used)
  | reap j k pid_k log lives holds waits selected zombie freed others =>
      by_cases is_k : i = k
      · rw [is_k] at used
        exact absurd freed used
      · have same := others i is_k
        have used_i := same.used.mp used
        have differ : (s.cell i).life ≠ (s.cell k).life :=
          fun lives => is_k (orderly.numbered i k used_i (by rw [zombie]; simp) lives)
        rw [(same.same used_i).1, log]
        simpa [differ] using unreturned i p pid used_i

theorem Recorded.step_past (recorded : Recorded s) (orderly : Orderly s) (step : Step s s')
    (a b : Nat) (slot : Fin nproc) (pid : Int32) (mem : .forked a b slot pid ∈ s'.log) :
    (s'.cell slot).proc.state ≠ .unused ∧ (s'.cell slot).life = b ∨
      ∃ p pid', .returned p b pid' ∈ s'.log := by
  have old : .forked a b slot pid ∈ s.log →
      ((s.cell slot).proc.state ≠ .unused → SameLife (s.cell slot) (s'.cell slot)) →
      ((s'.cell slot).proc.state ≠ .unused ∧ (s'.cell slot).life = b ∨
        ∃ p pid', .returned p b pid' ∈ s'.log) := by
    intro before same
    rcases recorded.past a b slot pid before with ⟨used, life⟩ | ⟨p, pid', returned⟩
    · have kept := same used
      exact Or.inl ⟨kept.used.mpr used, (kept.same used).1.trans life⟩
    · exact Or.inr ⟨p, pid', step_log_mono step returned⟩
  cases orderly.step_logs step with
  | none log lives others => exact old (log ▸ mem) fun _ => others slot
  | fork j np log lives free used_np life origin pid_np others =>
      rw [log, List.mem_cons] at mem
      rcases mem with new | before
      · obtain ⟨-, rfl, rfl, -⟩ := Event.forked.inj new
        exact Or.inl ⟨by rw [used_np]; simp, life⟩
      · refine old before fun used => others slot ?_
        rintro rfl
        exact used free
  | exit j log lives at_j zombie life origin pid_j others =>
      rw [log, List.mem_cons] at mem
      rcases mem with new | before
      · simp at new
      · rcases recorded.past a b slot pid before with ⟨used, life_slot⟩ | ⟨p, pid', returned⟩
        · by_cases is_j : slot = j
          · subst is_j
            exact Or.inl ⟨by rw [zombie]; simp, life.trans life_slot⟩
          · exact old before fun _ => others slot is_j
        · exact Or.inr ⟨p, pid', step_log_mono step returned⟩
  | reap j k pid_k log lives holds waits selected zombie freed others =>
      rw [log, List.mem_cons] at mem
      rcases mem with new | before
      · simp at new
      · rcases recorded.past a b slot pid before with ⟨used, life_slot⟩ | ⟨p, pid', returned⟩
        · by_cases is_k : slot = k
          · subst is_k
            exact Or.inr ⟨_, _, by rw [log, life_slot]; exact List.mem_cons_self⟩
          · exact old before fun _ => others slot is_k
        · exact Or.inr ⟨p, pid', step_log_mono step returned⟩

theorem Recorded.step_bounded (recorded : Recorded s) (orderly : Orderly s) (step : Step s s') :
    (∀ b, .exited b ∈ s'.log → b < s'.lives) ∧
      ∀ p b pid, .returned p b pid ∈ s'.log → b < s'.lives := by
  have exitedBounded := recorded.exitedBounded
  have returnedBounded := recorded.returnedBounded
  have bounded := orderly.bounded
  cases orderly.step_logs step with
  | none log lives others =>
      rw [log, lives]
      exact ⟨exitedBounded, returnedBounded⟩
  | fork j np log lives free used_np life origin pid_np others => grind
  | exit j log lives at_j zombie life origin pid_j others =>
      have used := orderly.in_use j (by rw [at_j]; simp)
      grind
  | reap j k pid_k log lives holds waits selected zombie freed others => grind

theorem Recorded.step_parents (recorded : Recorded s) (orderly : Orderly s) (step : Step s s')
    (c p : Fin nproc) (parent : (s'.cell c).proc.parent = some p) :
    (s'.cell p).life = (s'.cell c).origin ∨
      p = initproc ∧ (.exited (s'.cell c).origin ∈ s'.log ∨
        ∃ q, (s'.cell q).life = (s'.cell c).origin ∧ (s'.cell q).pc.exiting = true) := by
  rcases orderly.step_parents step parent with
    ⟨before, origin, life⟩ | forked | ⟨is_init, q, before, exiting, origin, still, life⟩
  · rw [origin, life]
    rcases recorded.parents c p before with own | ⟨is_init, exited | ⟨q, life_q, exiting⟩⟩
    · exact Or.inl own
    · exact Or.inr ⟨is_init, Or.inl (step_log_mono step exited)⟩
    · rcases orderly.step_exiting step exiting with ⟨still, life_eq⟩ | exited
      · exact Or.inr ⟨is_init, Or.inr ⟨q, life_eq.trans life_q, still⟩⟩
      · exact Or.inr ⟨is_init, Or.inl (life_q ▸ exited)⟩
  · exact Or.inl forked
  · rw [origin]
    rcases recorded.parents c q before with own | ⟨q_init, -⟩
    · exact Or.inr ⟨is_init, Or.inr ⟨q, life.trans own, still⟩⟩
    · have lives := orderly.initLives
      rw [q_init] at exiting
      cases at_q : (s.cell initproc).pc <;> simp_all [Pc.exiting, Pc.ended]

theorem Recorded.step_handed (recorded : Recorded s) (orderly : Orderly s) (step : Step s s') :
    Handed s'.log := by
  have handed := recorded.handed
  cases orderly.step_logs step with
  | none log lives others =>
      rw [log]
      exact handed
  | fork i np log lives free used life origin pid others =>
      rw [log]
      refine ⟨handed, fun a b pid' mem => ?_⟩
      rcases recorded.past a b np pid' mem with ⟨used_np, -⟩ | returned
      · exact absurd free used_np
      · exact returned
  | exit i log lives at_i zombie life origin pid others =>
      have used := orderly.in_use i (by rw [at_i]; simp)
      have states := orderly.states i
      rw [at_i] at states
      have running : (s.cell i).proc.state = .running := states
      rw [log]
      refine ⟨handed, fun mem => ?_⟩
      have zombie := (recorded.zombies i used).mp mem
      simp [running] at zombie
  | reap i k pid log lives holds waits selected zombie freed others =>
      have used : (s.cell k).proc.state ≠ .unused := by rw [zombie]; simp
      have parent : (s.cell k).proc.parent = some i := parent_of_selects selected
      have other : k ≠ initproc := by
        rintro rfl
        have lives := orderly.initLives
        rcases Pc.admits_zombie (orderly.states _) zombie with at_k | at_k
        · simp [at_k, Pc.ended] at lives
        · simp [at_k, Pc.ended] at lives
      rw [log]
      refine ⟨handed, fun p' pid' => recorded.unreturned k p' pid' used,
        (recorded.zombies k used).mpr zombie, _, k, recorded.forked k other used, ?_⟩
      rcases recorded.parents k i parent with own | ⟨is_init, exited | ⟨q, -, exiting⟩⟩
      · exact Or.inl own
      · exact Or.inr ⟨is_init ▸ recorded.initLife, exited⟩
      · have holds_q : (s.cell q).pc.holdsWait = true := by
          cases at_q : (s.cell q).pc <;> simp_all [Pc.exiting, Pc.holdsWait]
        obtain rfl := orderly.holder_unique holds holds_q
        simp [waits] at exiting

theorem Recorded.step (recorded : Recorded s) (orderly : Orderly s) (step : Step s s') :
    Recorded s' where
  initLife := recorded.step_initLife orderly step
  forked := recorded.step_forked orderly step
  zombies := recorded.step_zombies orderly step
  unreturned := recorded.step_unreturned orderly step
  past := recorded.step_past orderly step
  exitedBounded := (recorded.step_bounded orderly step).1
  returnedBounded := (recorded.step_bounded orderly step).2
  parents := recorded.step_parents orderly step
  handed := recorded.step_handed orderly step

/-! ## Runs -/

/-- A slot that was never used. -/
def idleCell : Cell where
  proc :=
    { state := .unused, chan := none, killed := false, xstate := 0, pid := 0, pgid := 0, sid := 0
      parent := none, cred := ⟨0, 0, 0, 0, 0, 0⟩, capInheritable := 0, gids := fun _ => 0, sz := 0
      pagetable := none, trapframe := none, umask := 0, fdflag := 0, ofile := fun _ => none
      cwd := none, name := [], regions := [], signal := [] }
  pc := .idle
  held := false
  life := 0
  origin := 0

/-- `CAP_INIT_EFF_SET`. -/
def capInitEffSet : UInt32 := ~~~capToMask 8

/-- The first process, as `userinit` leaves it, with a trapframe, a page table and the inode of the
root. -/
def initCell (pages : Nat × Nat) (root : Nat) : Cell where
  proc :=
    { idleCell.proc with
      state := .runnable, pid := 1, pgid := 1, sid := 1, umask := 2
      trapframe := some pages.1, pagetable := some pages.2, sz := 4096
      name := [105, 110, 105, 116, 99, 111, 100, 101], cwd := some root
      cred := ⟨0, 0, 0, 0, capInitEffSet, capInitEffSet⟩, capInheritable := capInitEffSet }
  pc := .user
  held := false
  life := initLife
  origin := initLife

/-- The state behind `userinit`. -/
def booted (pages : Nat × Nat) (root : Nat) : Family where
  cell := Function.update (fun _ => idleCell) initproc (initCell pages root)
  waitLock := none
  nextpid := 2
  lives := 1
  log := []

theorem booted_cell (pages : Nat × Nat) (root : Nat) (i : Fin nproc) :
    (booted pages root).cell i = if i = initproc then initCell pages root else idleCell := by
  simp only [booted, Function.update_apply]

theorem booted_orderly (pages : Nat × Nat) (root : Nat) : Orderly (booted pages root) := by
  have cell := booted_cell pages root
  have no_lock : (booted pages root).waitLock = none := rfl
  have lives : (booted pages root).lives = 1 := rfl
  constructor <;>
    grind [initCell, idleCell, Pc.holdsWait, Pc.locked, Pc.admits, Pc.ended, Pc.cleared, initLife]

theorem booted_watchful (pages : Nat × Nat) (root : Nat) : Watchful (booted pages root) := by
  have cell := booted_cell pages root
  constructor <;> grind [initCell, idleCell, Pc.scanned, Cell.zone]

theorem booted_recorded (pages : Nat × Nat) (root : Nat) : Recorded (booted pages root) := by
  have cell := booted_cell pages root
  have no_log : (booted pages root).log = [] := rfl
  constructor <;> grind [initCell, idleCell, Handed]

theorem reaches_inv {pages : Nat × Nat} {root : Nat} (reached : Reaches (booted pages root) s) :
    Orderly s ∧ Watchful s ∧ Recorded s := by
  induction reached with
  | refl =>
      exact ⟨booted_orderly pages root, booted_watchful pages root, booted_recorded pages root⟩
  | tail _ step ih =>
      obtain ⟨orderly, watchful, recorded⟩ := ih
      exact ⟨orderly.step step, watchful.step orderly step, recorded.step orderly step⟩

/-- In every run the log of forks, exits and returns is in order, and nobody sleeps in `wait4` over
a zombie that it looks for while `wait_lock` is free. -/
theorem children_handed_over {pages : Nat × Nat} {root : Nat}
    (reached : Reaches (booted pages root) s) :
    Handed s.log ∧
      ∀ i pid kids, (s.cell i).pc = .waitAsleep pid kids → (s.cell i).proc.state = .sleeping →
        (s.cell i).proc.chan = some (.proc i) → ∀ c, selects s.table i pid c = true →
          (s.cell c).proc.state = .zombie → s.waitLock ≠ none := by
  obtain ⟨orderly, watchful, recorded⟩ := reaches_inv reached
  refine ⟨recorded.handed, fun i pid kids at_i sleeping _ c selected zombie => ?_⟩
  have asleep : (s.cell i).zone = some pid := by simp [Cell.zone, at_i, sleeping]
  obtain ⟨-, q, k, j, at_q, -⟩ := watchful.asleep i pid asleep c selected zombie
  have holder := (orderly.lock q).mpr (by rw [at_q]; rfl)
  simp [holder]

/-! ## A whole hand-over -/

theorem goto_self {i : Fin nproc} {pc : Pc} (at_i : (s.cell i).pc = pc) : s.goto i pc = s := by
  subst at_i
  simp [Family.goto, Family.set]

theorem set_self (s : Family) (i : Fin nproc) : s.set i (s.cell i) = s := by
  simp [Family.set]

theorem goto_goto (i : Fin nproc) (pc pc' : Pc) : (s.goto i pc).goto i pc' = s.goto i pc' := by
  simp [Family.goto, Family.set]

/-- `reparent` of a process without children. -/
theorem reaches_reparented {i : Fin nproc} (at_i : (s.cell i).pc = .exitReparent 0)
    (childless : ∀ k, (s.cell k).proc.parent ≠ some i) :
    Reaches s (s.goto i (.exitReparent nproc)) := by
  have passes : ∀ k ≤ nproc, Reaches s (s.goto i (.exitReparent k)) := by
    intro k k_le
    induction k with
    | zero =>
        rw [goto_self at_i]
        exact .refl
    | succ k ih =>
        have step := Step.reparentSkip (s := s.goto i (.exitReparent k)) i ⟨k, k_le⟩
          (by rw [goto_cell, if_pos rfl]) (by
            rw [goto_cell]
            split
            · exact childless i
            · exact childless ⟨k, k_le⟩)
        rw [goto_goto] at step
        exact (ih (Nat.le_of_succ_le k_le)).tail step
  exact passes nproc le_rfl

/-- `wakeup` of the parent while nobody sleeps. -/
theorem reaches_woken {i : Fin nproc} {target : Option (Fin nproc)}
    (at_i : (s.cell i).pc = .exitWakeParent target 0) (free : ∀ j, (s.cell j).held = false)
    (awake : ∀ j, (s.cell j).proc.state ≠ .sleeping) :
    Reaches s (s.goto i (.exitWakeParent target nproc)) := by
  have passes : ∀ j ≤ nproc, Reaches s (s.goto i (.exitWakeParent target j)) := by
    intro j j_le
    induction j with
    | zero =>
        rw [goto_self at_i]
        exact .refl
    | succ j ih =>
        refine (ih (Nat.le_of_succ_le j_le)).tail ?_
        by_cases self : (⟨j, j_le⟩ : Fin nproc) = i
        · have step := Step.wakeParentSelf (s := s.goto i (.exitWakeParent target j)) i target
            (by rw [goto_cell, if_pos rfl, ← self])
          rw [goto_goto, ← self] at step
          rw [← self]
          exact step
        · have step := Step.wakeParent (s := s.goto i (.exitWakeParent target j)) i ⟨j, j_le⟩ target
            (by rw [goto_cell, if_pos rfl]) self (by rw [goto_cell, if_neg self]; exact free _)
          have same : wake (s.cell ⟨j, j_le⟩).proc (target.map .proc) = (s.cell ⟨j, j_le⟩).proc :=
            if_neg fun asleep => awake _ asleep.1
          rw [goto_cell, if_neg self, same] at step
          have kept : (s.goto i (.exitWakeParent target j)).set ⟨j, j_le⟩ (s.cell ⟨j, j_le⟩) =
              s.goto i (.exitWakeParent target j) := by
            have here : (s.goto i (.exitWakeParent target j)).cell ⟨j, j_le⟩ = s.cell
              ⟨j, j_le⟩ := by
              rw [goto_cell, if_neg self]
            rw [← here]
            exact set_self _ _
          rw [kept, goto_goto] at step
          exact step
  exact passes nproc le_rfl

/-- The slot of the first child. -/
def firstChild : Fin nproc := ⟨1, one_lt_nproc⟩

/-- The first process forks, its child exits, and `wait4` of the first process returns the child. -/
theorem firstChild_handed_over :
    ∃ s, Reaches (booted (1, 2) 1) s ∧
      s.log = [.returned 0 1 2, .exited 1, .forked 0 1 firstChild 2] ∧ Handed s.log := by
  have scheduled := Relation.ReflTransGen.single
    (Step.schedule (s := booted (1, 2) 1) initproc rfl rfl (by decide) (by
      intro pid kids same
      cases same))
  have forked := scheduled.tail (Step.fork initproc firstChild (3, 4) [] rfl rfl rfl rfl)
  have linked := forked.tail (Step.forkLink initproc firstChild rfl rfl rfl)
  have started := linked.tail (Step.forkStart initproc firstChild rfl rfl rfl)
  have running := started.tail (Step.schedule firstChild rfl rfl (by decide) (by
    intro pid kids same
    cases same))
  have exiting := running.tail (Step.exit firstChild rfl rfl (by decide) rfl)
  have reparented := exiting.trans (reaches_reparented (i := firstChild) rfl (by decide +kernel))
  have left := reparented.tail (Step.reparentDone firstChild rfl)
  have woken :=
    left.trans (reaches_woken (i := firstChild) rfl (by decide +kernel) (by decide +kernel))
  have alone := woken.tail (Step.wakeParentDone firstChild _ rfl)
  have exited := alone.tail (Step.zombie firstChild 0 rfl rfl)
  have off := exited.tail (Step.zombieSched firstChild rfl)
  have waits := off.tail (Step.wait initproc (-1) rfl rfl rfl)
  have passed := waits.tail (Step.scanSkip initproc initproc (-1) false rfl rfl)
  have reaped := passed.tail (Step.scanReap initproc firstChild (-1) false rfl rfl rfl rfl)
  exact ⟨_, reaped, rfl, (children_handed_over reaped).1⟩

end Process
end Xv6Duo
