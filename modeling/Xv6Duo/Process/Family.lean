import Xv6Duo.Process.Table
import Mathlib.Logic.Relation

/-!
# Parents and children

`fork`, `exit` and `wait4` of `kernel/proc.c` as a step relation. A step is one section that a lock
delimits: `wait_lock` is a variable of the state, and a section under the lock of a process is one
step unless it releases another lock inside. A program counter says where the kernel thread of a
process stands. `wait4` has the options `0` and asks for no status, and there are no signals.

Each process gets a number of its own when it is forked; the log records forks, exits and returns of
`wait4` by these numbers, the newest first.
-/

namespace Xv6Duo
namespace Process

/-- Where the kernel thread of a process stands. -/
inductive Pc
  /-- No thread: the slot is unused, or the process was not started yet. -/
  | idle
  /-- Outside the calls below. -/
  | user
  /-- In `sleep`, called from elsewhere. -/
  | nap
  /-- In `fork`, before the parent of the child is set. -/
  | forkLink (np : Fin nproc)
  /-- In `fork`, before the child is made runnable. -/
  | forkStart (np : Fin nproc)
  /-- In `reparent`, at a slot. -/
  | exitReparent (k : Nat)
  /-- In `wakeup(initproc)`, at a slot, called from `reparent`. -/
  | exitWakeInit (k j : Nat)
  /-- In `wakeup(p->parent)`, at a slot. -/
  | exitWakeParent (target : Option (Fin nproc)) (j : Nat)
  /-- In `exit`, before the process takes its own lock. -/
  | exitZombie
  /-- In `exit`, a zombie that still holds its own lock. -/
  | exitSched
  /-- Exited. -/
  | exited
  /-- In the loop of `wait4`, at a slot. -/
  | waitScan (pid : Int32) (kids : Bool) (k : Nat)
  /-- In `sleep`, called from `wait4`, before the process takes its own lock. -/
  | waitSleep (pid : Int32) (kids : Bool)
  /-- In `sleep`, with its own lock and without `wait_lock`. -/
  | waitFall (pid : Int32) (kids : Bool)
  /-- In `sleep`, after it has given up the processor. -/
  | waitAsleep (pid : Int32) (kids : Bool)
  /-- At the end of `sleep`, before `wait_lock` is taken again. -/
  | waitRetry (pid : Int32) (kids : Bool)
  deriving DecidableEq, Repr

/-- What the log records. -/
inductive Event
  /-- A process was forked into a slot. -/
  | forked (parent child : Nat) (slot : Fin nproc) (pid : Int32)
  /-- A process exited. -/
  | exited (child : Nat)
  /-- `wait4` of a process returned the id of a child. -/
  | returned (parent child : Nat) (pid : Int32)
  deriving DecidableEq

/-- A slot with its thread, its lock, the number of its process and that of the process that forked
it. -/
structure Cell where
  /-- Entry of the process table. -/
  proc : Proc
  /-- Program counter. -/
  pc : Pc
  /-- The lock of the process is held across steps. -/
  held : Bool
  /-- Number of the process. -/
  life : Nat
  /-- Number of the process that forked it. -/
  origin : Nat

/-- The state. -/
structure Family where
  /-- Slots. -/
  cell : Fin nproc → Cell
  /-- Holder of `wait_lock`. -/
  waitLock : Option (Fin nproc)
  /-- `nextpid`. -/
  nextpid : Int32
  /-- Number of the next process. -/
  lives : Nat
  /-- Log. -/
  log : List Event

/-- The process table. -/
def Family.table (s : Family) : Table := fun i => (s.cell i).proc

/-- Replace a slot. -/
def Family.set (s : Family) (i : Fin nproc) (c : Cell) : Family :=
  { s with cell := Function.update s.cell i c }

/-- Move the thread of a process. -/
def Family.goto (s : Family) (i : Fin nproc) (pc : Pc) : Family :=
  s.set i { s.cell i with pc := pc }

/-- `initproc`. -/
def initproc : Fin nproc := ⟨0, nproc_pos⟩

/-- The child that `fork` sets up: `allocproc` with new pages, then the copies from the parent. -/
def forkChild (parent slot : Proc) (pid : Int32) (pages : Nat × Nat) (regions : List Nat) : Proc :=
  { parent with
    state := .used, pid := pid, trapframe := some pages.1, pagetable := some pages.2
    regions := regions, umask := 2, parent := slot.parent, chan := slot.chan, killed := slot.killed
    xstate := slot.xstate }

/-- The part of `wakeup` at one slot. -/
def wake (p : Proc) (chan : Option Chan) : Proc :=
  if p.state = .sleeping ∧ p.chan = chan then { p with state := .runnable } else p

/-- What the system calls of `exit` before `wait_lock` leave. -/
def closeAll (p : Proc) : Proc :=
  { p with regions := [], ofile := fun _ => none, fdflag := 0, cwd := none }

/-- One section of a process `i`. -/
inductive Step (s : Family) : Family → Prop
  /-- `fork`, up to the release of the lock of the child. -/
  | fork (i np : Fin nproc) (pages : Nat × Nat) (regions : List Nat) :
      (s.cell i).pc = .user → (s.cell i).proc.state = .running →
      (s.cell np).proc.state = .unused → (s.cell np).held = false →
      Step s { ((s.set np
            ⟨forkChild (s.cell i).proc (s.cell np).proc s.nextpid pages regions, .idle,
              false, s.lives, (s.cell i).life⟩).goto i (.forkLink np)) with
        nextpid := s.nextpid + 1
        lives := s.lives + 1
        log := .forked (s.cell i).life s.lives np s.nextpid :: s.log }
  /-- `fork` that fails for want of memory. -/
  | forkFails (i np : Fin nproc) :
      (s.cell i).pc = .user → (s.cell i).proc.state = .running →
      (s.cell np).proc.state = .unused → (s.cell np).held = false →
      Step s { (s.set np { s.cell np with proc := freeproc (s.cell np).proc }) with
        nextpid := s.nextpid + 1 }
  /-- `np->parent = p` under `wait_lock`. -/
  | forkLink (i np : Fin nproc) :
      (s.cell i).pc = .forkLink np → (s.cell i).proc.state = .running → s.waitLock = none →
      Step s ((s.set np
        { s.cell np with proc := { (s.cell np).proc with parent := some i } }).goto i
          (.forkStart np))
  /-- `np->state = RUNNABLE`; the child starts outside the kernel. -/
  | forkStart (i np : Fin nproc) :
      (s.cell i).pc = .forkStart np → (s.cell i).proc.state = .running →
      (s.cell np).held = false →
      Step s ((s.set np
        { s.cell np with proc := { (s.cell np).proc with state := .runnable }, pc := .user }).goto i
          .user)
  /-- `exit`, up to `acquire(&wait_lock)`. -/
  | exit (i : Fin nproc) :
      (s.cell i).pc = .user → (s.cell i).proc.state = .running → i ≠ initproc →
      s.waitLock = none →
      Step s { (s.set i
          { s.cell i with proc := closeAll (s.cell i).proc, pc := .exitReparent 0 }) with
        waitLock := some i }
  /-- `reparent` at a slot with another parent. -/
  | reparentSkip (i k : Fin nproc) :
      (s.cell i).pc = .exitReparent k → (s.cell k).proc.parent ≠ some i →
      Step s (s.goto i (.exitReparent (k + 1)))
  /-- `reparent` at a child. -/
  | reparent (i k : Fin nproc) :
      (s.cell i).pc = .exitReparent k → (s.cell k).proc.parent = some i →
      Step s ((s.set k
        { s.cell k with proc := { (s.cell k).proc with parent := some initproc } }).goto i
          (.exitWakeInit k 0))
  /-- `wakeup(initproc)` at the slot of the exiting process. -/
  | wakeInitSelf (i : Fin nproc) (k : Nat) :
      (s.cell i).pc = .exitWakeInit k i → Step s (s.goto i (.exitWakeInit k (i + 1)))
  /-- `wakeup(initproc)` at another slot. -/
  | wakeInit (i j : Fin nproc) (k : Nat) :
      (s.cell i).pc = .exitWakeInit k j → j ≠ i → (s.cell j).held = false →
      Step s ((s.set j
        { s.cell j with proc := wake (s.cell j).proc (some (.proc initproc)) }).goto i
          (.exitWakeInit k (j + 1)))
  /-- Return from `wakeup(initproc)`. -/
  | wakeInitDone (i : Fin nproc) (k : Nat) :
      (s.cell i).pc = .exitWakeInit k nproc → Step s (s.goto i (.exitReparent (k + 1)))
  /-- Return from `reparent`. -/
  | reparentDone (i : Fin nproc) :
      (s.cell i).pc = .exitReparent nproc →
      Step s (s.goto i (.exitWakeParent (s.cell i).proc.parent 0))
  /-- `wakeup(p->parent)` at the slot of the exiting process. -/
  | wakeParentSelf (i : Fin nproc) (target : Option (Fin nproc)) :
      (s.cell i).pc = .exitWakeParent target i → Step s (s.goto i (.exitWakeParent target (i + 1)))
  /-- `wakeup(p->parent)` at another slot. -/
  | wakeParent (i j : Fin nproc) (target : Option (Fin nproc)) :
      (s.cell i).pc = .exitWakeParent target j → j ≠ i → (s.cell j).held = false →
      Step s ((s.set j
        { s.cell j with proc := wake (s.cell j).proc (target.map .proc) }).goto i
          (.exitWakeParent target (j + 1)))
  /-- Return from `wakeup(p->parent)`. -/
  | wakeParentDone (i : Fin nproc) (target : Option (Fin nproc)) :
      (s.cell i).pc = .exitWakeParent target nproc → Step s (s.goto i .exitZombie)
  /-- `acquire(&p->lock)`, the change to `ZOMBIE` and `release(&wait_lock)`. -/
  | zombie (i : Fin nproc) (status : Int32) :
      (s.cell i).pc = .exitZombie → (s.cell i).held = false →
      Step s { (s.set i
          { s.cell i with
            proc := { (s.cell i).proc with xstate := status, state := .zombie }
            pc := .exitSched, held := true }) with
        waitLock := none
        log := .exited (s.cell i).life :: s.log }
  /-- `sched` of the zombie; the scheduler releases its lock. -/
  | zombieSched (i : Fin nproc) :
      (s.cell i).pc = .exitSched →
      Step s (s.set i { s.cell i with pc := .exited, held := false })
  /-- `wait4`, up to `acquire(&wait_lock)`. -/
  | wait (i : Fin nproc) (pid : Int32) :
      (s.cell i).pc = .user → (s.cell i).proc.state = .running → s.waitLock = none →
      Step s { (s.goto i (.waitScan pid false 0)) with waitLock := some i }
  /-- The loop of `wait4` at a process that it does not look for. -/
  | scanSkip (i k : Fin nproc) (pid : Int32) (kids : Bool) :
      (s.cell i).pc = .waitScan pid kids k → selects s.table i pid k = false →
      Step s (s.goto i (.waitScan pid kids (k + 1)))
  /-- The loop of `wait4` at a child that has not exited. -/
  | scanLive (i k : Fin nproc) (pid : Int32) (kids : Bool) :
      (s.cell i).pc = .waitScan pid kids k → selects s.table i pid k = true →
      (s.cell k).held = false → (s.cell k).proc.state ≠ .zombie →
      Step s (s.goto i (.waitScan pid true (k + 1)))
  /-- The loop of `wait4` at a zombie: free it and return its id. -/
  | scanReap (i k : Fin nproc) (pid : Int32) (kids : Bool) :
      (s.cell i).pc = .waitScan pid kids k → selects s.table i pid k = true →
      (s.cell k).held = false → (s.cell k).proc.state = .zombie →
      Step s { ((s.set k { s.cell k with proc := freeproc (s.cell k).proc, pc := .idle }).goto i
          .user) with
        waitLock := none
        log := .returned (s.cell i).life (s.cell k).life (s.cell k).proc.pid :: s.log }
  /-- `wait4` returns `-ECHILD`. -/
  | scanNone (i : Fin nproc) (pid : Int32) (kids : Bool) :
      (s.cell i).pc = .waitScan pid kids nproc → (kids = false ∨ (s.cell i).proc.killed = true) →
      Step s { (s.goto i .user) with waitLock := none }
  /-- `wait4` calls `sleep`. -/
  | scanSleep (i : Fin nproc) (pid : Int32) (kids : Bool) :
      (s.cell i).pc = .waitScan pid kids nproc → kids = true → (s.cell i).proc.killed = false →
      Step s (s.goto i (.waitSleep pid kids))
  /-- `acquire(&p->lock)` and `release(lk)` of `sleep`. -/
  | fall (i : Fin nproc) (pid : Int32) (kids : Bool) :
      (s.cell i).pc = .waitSleep pid kids → (s.cell i).held = false →
      Step s { (s.set i { s.cell i with pc := .waitFall pid kids, held := true }) with
        waitLock := none }
  /-- `sleep` sets channel and state; the scheduler releases the lock of the process. -/
  | asleep (i : Fin nproc) (pid : Int32) (kids : Bool) :
      (s.cell i).pc = .waitFall pid kids →
      Step s (s.set i
        { s.cell i with
          proc := { (s.cell i).proc with state := .sleeping, chan := some (.proc i) }
          pc := .waitAsleep pid kids, held := false })
  /-- The scheduler runs a process that slept in `wait4`. -/
  | resume (i : Fin nproc) (pid : Int32) (kids : Bool) :
      (s.cell i).pc = .waitAsleep pid kids → (s.cell i).proc.state = .runnable →
      (s.cell i).held = false →
      Step s (s.set i
        { s.cell i with
          proc := { (s.cell i).proc with state := .running, chan := none }
          pc := .waitRetry pid kids })
  /-- `acquire(lk)` at the end of `sleep`; the next pass of `wait4` begins. -/
  | retry (i : Fin nproc) (pid : Int32) (kids : Bool) :
      (s.cell i).pc = .waitRetry pid kids → (s.cell i).proc.state = .running → s.waitLock = none →
      Step s { (s.goto i (.waitScan pid kids 0)) with waitLock := some i }
  /-- `sleep` on a channel that is no process. -/
  | nap (i : Fin nproc) (address : UInt64) :
      (s.cell i).pc = .user → (s.cell i).proc.state = .running → (s.cell i).held = false →
      Step s (s.set i
        { s.cell i with
          proc := { (s.cell i).proc with state := .sleeping, chan := some (.other address) }
          pc := .nap })
  /-- `wakeup` of a channel that is no process, at one slot. -/
  | wakeOther (j : Fin nproc) (address : UInt64) :
      (s.cell j).held = false →
      Step s (s.set j { s.cell j with proc := wake (s.cell j).proc (some (.other address)) })
  /-- The scheduler runs a process that slept elsewhere. -/
  | napDone (i : Fin nproc) :
      (s.cell i).pc = .nap → (s.cell i).proc.state = .runnable → (s.cell i).held = false →
      Step s (s.set i
        { s.cell i with
          proc := { (s.cell i).proc with state := .running, chan := none }, pc := .user })
  /-- The scheduler runs a process that gave up the processor. -/
  | schedule (i : Fin nproc) :
      (s.cell i).proc.state = .runnable → (s.cell i).held = false →
      (s.cell i).pc ≠ .nap → (∀ pid kids, (s.cell i).pc ≠ .waitAsleep pid kids) →
      Step s (s.set i { s.cell i with proc := { (s.cell i).proc with state := .running } })
  /-- `yield` of a process that holds no lock. -/
  | yield (i : Fin nproc) :
      (s.cell i).proc.state = .running → (s.cell i).held = false → s.waitLock ≠ some i →
      Step s (s.set i { s.cell i with proc := { (s.cell i).proc with state := .runnable } })

/-- States that steps reach. -/
def Reaches : Family → Family → Prop := Relation.ReflTransGen Step

end Process
end Xv6Duo
