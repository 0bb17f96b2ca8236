import Mathlib.Logic.Function.Basic
import Xv6Duo.Library.GuardedRun
import Xv6Duo.Process.Table

/-!
# Spin locks and switching on one processor

`kernel/spinlock.c`, and `sched`, `yield`, `sleep`, `wakeup`, `scheduler`, `forkret` of
`kernel/proc.c` with `kerneltrap` of `kernel/trap.c`. The kernel stack of a process is the list of
the operations that it still has to execute; everything else that kernel code does is a call that
reads and changes data and says which operations come next. Between two operations an interrupt may
come while interrupts are enabled. There is one processor, so a lock that is held is held by it.
-/

namespace Xv6Duo
namespace Sync

open Process (ProcState nproc)

/-- A lock: that of a process, or another one. -/
inductive Lock (κ : Type) where
  /-- `p->lock`. -/
  | proc (i : Fin nproc)
  /-- Another lock. -/
  | other (lk : κ)
  deriving DecidableEq

/-- What kernel code does. -/
inductive Op (κ χ ν : Type) where
  /-- `acquire`, up to the test in `push_off` whether interrupts are enabled. -/
  | acquire (lk : Lock κ)
  /-- The rest of `acquire`. -/
  | acquired (lk : Lock κ) (old : Bool)
  /-- `release`. -/
  | release (lk : Lock κ)
  /-- Store the state of the process itself. -/
  | setState (state : ProcState)
  /-- Store its channel. -/
  | setChan (chan : Option χ)
  /-- `sched`, up to `swtch`. -/
  | sched
  /-- `sched`, behind `swtch`, with its local `intena`. -/
  | switched (intena : Bool)
  /-- The test of `wakeup` for one process. -/
  | wake (i : Fin nproc) (chan : χ)
  /-- The test of `term_handler`. -/
  | rouse (i : Fin nproc)
  /-- Store the state of another process: `allocproc`, `freeproc`. -/
  | mark (i : Fin nproc) (state : ProcState)
  /-- The end of `fork`: the child is made runnable. -/
  | start (i : Fin nproc)
  /-- The test of `kerneltrap` after a timer interrupt. -/
  | preempt
  /-- `intr_on`. -/
  | intrOn
  /-- `intr_off`. -/
  | intrOff
  /-- The return from `kerneltrap`. -/
  | sret
  /-- Other code. -/
  | call (c : ν)

/-- A process. -/
structure Thread (κ χ ν : Type) where
  /-- `p->state`. -/
  state : ProcState
  /-- `p->chan`. -/
  chan : Option χ
  /-- What is left to do in the kernel; nothing in user mode. -/
  ops : List (Op κ χ ν)

/-- Where the scheduler stands. -/
inductive Pass where
  /-- Before it takes the lock of a process, or at the end of a pass. -/
  | next (i : Nat)
  /-- In `push_off`, behind the test whether interrupts are enabled. -/
  | taking (i : Fin nproc) (old : Bool)
  /-- With the lock of a process. -/
  | testing (i : Fin nproc)
  /-- In `swtch` to a process. -/
  | away (i : Fin nproc)
  /-- Behind `swtch`. -/
  | back (i : Fin nproc)
  deriving DecidableEq

/-- The processor, the locks, the processes and the scheduler. -/
structure Machine (κ χ ν σ : Type) where
  /-- Interrupts are enabled. -/
  sie : Bool
  /-- `noff`. -/
  noff : Nat
  /-- `intena`. -/
  intena : Bool
  /-- `lk->locked`. -/
  locked : Lock κ → Bool
  /-- Processes. -/
  proc : Fin nproc → Thread κ χ ν
  /-- The process on the processor; none when the scheduler is. -/
  running : Option (Fin nproc)
  /-- Where the scheduler stands. -/
  pass : Pass
  /-- What interrupt handlers on the stack of the scheduler still have to do. -/
  idle : List (Op κ χ ν)
  /-- Everything else. -/
  data : σ

/-- What stops the kernel. -/
inductive Panic where
  /-- `acquire`. -/
  | acquire
  /-- `release`. -/
  | release
  /-- `pop_off - interruptible`. -/
  | popOffInterruptible
  /-- `pop_off`. -/
  | popOff
  /-- `sched p->lock`. -/
  | schedLock
  /-- `sched locks`. -/
  | schedLocks
  /-- `sched running`. -/
  | schedRunning
  /-- `sched interruptible`. -/
  | schedInterruptible
  /-- A null pointer: `myproc()` while the scheduler runs. -/
  | noProcess
  deriving DecidableEq

/-- The code that is not modelled as operations. -/
structure Code (κ χ ν σ : Type) where
  /-- What a call does to the data and which operations it leads to, for the process that makes
  it. -/
  body : ν → Option (Fin nproc) → σ → σ × List (Op κ χ ν)
  /-- The handler of the timer interrupt. -/
  timer : ν
  /-- The handler of device interrupts. -/
  device : ν
  /-- `forkret` behind its `release`. -/
  forkret : ν

variable {κ χ ν σ : Type}

/-! ## Composite operations -/

/-- `sleep`. -/
def sleep (me : Fin nproc) (chan : χ) (lk : Lock κ) : List (Op κ χ ν) :=
  [.acquire (.proc me), .release lk, .setChan (some chan), .setState .sleeping, .sched,
    .setChan none, .release (.proc me), .acquire lk]

/-- `yield`. -/
def yield (me : Fin nproc) : List (Op κ χ ν) :=
  [.acquire (.proc me), .setState .runnable, .sched, .release (.proc me)]

/-- `wakeup`. -/
def wakeup (me : Option (Fin nproc)) (chan : χ) : List (Op κ χ ν) :=
  ((List.finRange nproc).filter (some · ≠ me)).flatMap fun i =>
    [.acquire (.proc i), .wake i chan, .release (.proc i)]

namespace Machine

/-! ## Stacks -/

/-- What is left to do on the stack that is used. -/
def ops (m : Machine κ χ ν σ) : List (Op κ χ ν) :=
  match m.running with
  | some i => (m.proc i).ops
  | none => m.idle

/-- Store a process. -/
def setProc (m : Machine κ χ ν σ) (i : Fin nproc) (p : Thread κ χ ν) : Machine κ χ ν σ :=
  { m with proc := Function.update m.proc i p }

/-- Store what is left to do. -/
def setOps (m : Machine κ χ ν σ) (ops : List (Op κ χ ν)) : Machine κ χ ν σ :=
  match m.running with
  | some i => m.setProc i { m.proc i with ops := ops }
  | none => { m with idle := ops }

/-- The checks of `sched`, and `swtch` to the scheduler. -/
def sched (m : Machine κ χ ν σ) (i : Fin nproc) (rest : List (Op κ χ ν)) :
    Except Panic (Machine κ χ ν σ) :=
  if !m.locked (.proc i) then .error .schedLock
  else if m.noff ≠ 1 then .error .schedLocks
  else if (m.proc i).state = .running then .error .schedRunning
  else if m.sie then .error .schedInterruptible
  else
    .ok { m.setProc i { m.proc i with ops := .switched m.intena :: rest } with
      running := none, pass := .back i }

/-! ## Locks -/

/-- `push_off`, behind the test whether interrupts are enabled. -/
def pushOff (m : Machine κ χ ν σ) (old : Bool) : Machine κ χ ν σ :=
  { m with sie := false, intena := if m.noff = 0 then old else m.intena, noff := m.noff + 1 }

/-- `pop_off`. -/
def popOff (m : Machine κ χ ν σ) : Except Panic (Machine κ χ ν σ) :=
  if m.sie then .error .popOffInterruptible
  else if m.noff < 1 then .error .popOff
  else .ok { m with noff := m.noff - 1, sie := m.noff - 1 = 0 && m.intena }

section

variable [DecidableEq κ]

/-- The rest of `acquire`. -/
def take (m : Machine κ χ ν σ) (lk : Lock κ) (old : Bool) : Except Panic (Machine κ χ ν σ) :=
  let m := m.pushOff old
  if m.locked lk then .error .acquire
  else .ok { m with locked := Function.update m.locked lk true }

/-- `release`. -/
def release (m : Machine κ χ ν σ) (lk : Lock κ) : Except Panic (Machine κ χ ν σ) :=
  if m.locked lk then popOff { m with locked := Function.update m.locked lk false }
  else .error .release

/-! ## Operations -/

/-- One operation of `scheduler`. -/
def scheduler (m : Machine κ χ ν σ) : Except Panic (Machine κ χ ν σ) :=
  match m.pass with
  | .next i =>
      if inside : i < nproc then .ok { m with pass := .taking ⟨i, inside⟩ m.sie }
      else .ok { m with sie := true, pass := .next 0 }
  | .taking i old => { m with pass := .testing i }.take (.proc i) old
  | .testing i =>
      if (m.proc i).state = .runnable then
        .ok { m.setProc i { m.proc i with state := .running } with
          running := some i, pass := .away i }
      else .ok { m with pass := .back i }
  | .away _ => .error .noProcess
  | .back i => { m with pass := .next (i.val + 1) }.release (.proc i)

/-- One operation, with what is left to do behind it. -/
def exec [DecidableEq χ] (code : Code κ χ ν σ) (m : Machine κ χ ν σ) (rest : List (Op κ χ ν)) :
    Op κ χ ν → Except Panic (Machine κ χ ν σ)
  | .acquire lk => .ok (m.setOps (.acquired lk m.sie :: rest))
  | .acquired lk old => (m.setOps rest).take lk old
  | .release lk => (m.setOps rest).release lk
  | .setState state =>
      match m.running with
      | none => .error .noProcess
      | some i => .ok (m.setProc i { m.proc i with state := state, ops := rest })
  | .setChan chan =>
      match m.running with
      | none => .error .noProcess
      | some i => .ok (m.setProc i { m.proc i with chan := chan, ops := rest })
  | .sched =>
      match m.running with
      | none => .error .noProcess
      | some i => m.sched i rest
  | .switched intena => .ok { m.setOps rest with intena := intena }
  | .wake i chan =>
      let m := m.setOps rest
      if (m.proc i).state = .sleeping ∧ (m.proc i).chan = some chan then
        .ok (m.setProc i { m.proc i with state := .runnable })
      else .ok m
  | .rouse i =>
      let m := m.setOps rest
      if (m.proc i).state = .sleeping then
        .ok (m.setProc i { m.proc i with state := .runnable })
      else .ok m
  | .mark i state =>
      let m := m.setOps rest
      .ok (m.setProc i { m.proc i with state := state })
  | .start i =>
      .ok ((m.setOps rest).setProc i
        { state := .runnable, chan := none, ops := [.release (.proc i), .call code.forkret] })
  | .preempt =>
      match m.running with
      | some i =>
          if (m.proc i).state = .running then .ok (m.setOps (yield i ++ rest))
          else .ok (m.setOps rest)
      | none => .ok (m.setOps rest)
  | .intrOn => .ok { m.setOps rest with sie := true }
  | .intrOff => .ok { m.setOps rest with sie := false }
  | .sret => .ok { m.setOps rest with sie := true }
  | .call c =>
      let called := code.body c m.running m.data
      .ok { m.setOps (called.2 ++ rest) with data := called.1 }

end

end Machine

/-! ## Steps -/

/-- What happens next. -/
inductive Label (ν : Type) where
  /-- The next operation. -/
  | run
  /-- A timer interrupt in the kernel. -/
  | timer
  /-- Another interrupt in the kernel. -/
  | device
  /-- A trap from user mode. -/
  | trap (c : ν)

/-- When it may happen. -/
def guard (m : Machine κ χ ν σ) : Label ν → Prop
  | .run => ¬ (m.running.isSome ∧ m.ops = [])
  | .timer => m.sie = true ∧ ¬ (m.running.isSome ∧ m.ops = [])
  | .device => m.sie = true ∧ ¬ (m.running.isSome ∧ m.ops = [])
  | .trap _ => m.running.isSome ∧ m.ops = []

/-- One step. -/
def step [DecidableEq κ] [DecidableEq χ] (code : Code κ χ ν σ) (m : Machine κ χ ν σ) :
    Label ν → Except Panic (Machine κ χ ν σ)
  | .run =>
      match m.ops with
      | [] => m.scheduler
      | op :: rest => m.exec code rest op
  | .timer => .ok { m.setOps (.call code.timer :: .preempt :: .sret :: m.ops) with sie := false }
  | .device => .ok { m.setOps (.call code.device :: .sret :: m.ops) with sie := false }
  | .trap c => .ok (m.setOps [.call c])

end Sync
end Xv6Duo
