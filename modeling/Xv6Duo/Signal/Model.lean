import Xv6Duo.Errno
import Xv6Duo.Fault
import Xv6Duo.Process.Table
import Xv6Duo.Signal.Sets

/-!
# Signals

`handle_signal`, `send_signal` and `kill` of `kernel/proc.c`. A default action runs in the process
that sends the signal: its stop handler puts the caller to sleep on the channel of the target. Such
a caller stands inside `handle_signal`, and the thread of its slot says what it goes on with.

The log records signals that become pending and calls of `handle_signal`, the newest first.
-/

namespace Xv6Duo
namespace Signal

open Process (ProcState Chan nproc)

/-- `SIG_DFL`. -/
def sigDfl : UInt64 := 0

/-- `SIG_IGN`. -/
def sigIgn : UInt64 := 1

/-- `struct sigaction`. -/
structure SigAction where
  /-- Handler. -/
  saHandler : UInt64
  /-- Signals of the mask. -/
  saMask : SigSet
  /-- Flags. -/
  saFlags : UInt32

/-- `struct trapframe`, by words. -/
abbrev Trapframe := Fin 36 → UInt64

/-- A trapframe has words. -/
instance words_ne_zero : NeZero 36 := ⟨by decide⟩

/-- The user program counter. -/
def epc : Fin 36 := 3

/-- The register of the return value. -/
def a0 : Fin 36 := 14

/-- Whom `kill` sends to. -/
inductive Selector
  /-- A process group. -/
  | group (pgid : Int32)
  /-- Every other process except the first. -/
  | all
  /-- A process. -/
  | one (pid : Int32)
  deriving DecidableEq, Repr

/-- Where `handle_signal` returns to. -/
inductive Caller
  /-- `check_pending_signal`, then user mode. -/
  | usertrap
  /-- `send_signal` in the loop of `kill`, with the slots that remain. -/
  | kill (targets : Selector) (sig : Sig) (rest : List (Fin nproc))
  deriving DecidableEq, Repr

/-- What a process goes on with. -/
inductive Thread
  /-- Outside the calls below. -/
  | user
  /-- In `sleep`, called from elsewhere. -/
  | nap
  /-- In `sigsuspend`, with the mask to go back to. -/
  | suspended (oldmask : SigSet)
  /-- In `ppoll`, with the mask to go back to. -/
  | polling (origmask : SigSet)
  /-- In the loop of `kill`, with the slots that remain. -/
  | killing (targets : Selector) (sig : Sig) (rest : List (Fin nproc))
  /-- In the stop handler, called from `handle_signal(p, sig)`. -/
  | stopped (p : Fin nproc) (sig : Sig) (caller : Caller)
  deriving DecidableEq, Repr

/-- `struct proc`. -/
structure Proc where
  /-- State. -/
  state : ProcState
  /-- Channel, while the process sleeps. -/
  chan : Option Chan
  /-- The process was killed. -/
  killed : Bool
  /-- The process waits for a signal. -/
  paused : Bool
  /-- Exit status. -/
  xstate : Int32
  /-- Process id. -/
  pid : Int32
  /-- Process group. -/
  pgid : Int32
  /-- Signal mask. -/
  mask : SigSet
  /-- Pending signals. -/
  pending : SigSet
  /-- Actions. -/
  actions : Sig → SigAction
  /-- Trapframe. -/
  trapframe : Trapframe
  /-- Saved trapframe. -/
  oldtf : Option Trapframe
  /-- Thread. -/
  thread : Thread
  /-- `freeproc` leaves no ids in a free slot. -/
  free : state = .unused → pid = 0 ∧ pgid = 0

theorem sleeping_used (q : Proc) : ProcState.sleeping = .unused → q.pid = 0 ∧ q.pgid = 0 := nofun

theorem runnable_used (q : Proc) : ProcState.runnable = .unused → q.pid = 0 ∧ q.pgid = 0 := nofun

/-- What the log records. -/
inductive Event
  /-- A signal became pending. -/
  | sent (p : Fin nproc) (sig : Sig)
  /-- A signal was acted on. -/
  | handled (p : Fin nproc) (sig : Sig)
  deriving DecidableEq, Repr

/-- The state. -/
structure Kernel where
  /-- The process table. -/
  proc : Fin nproc → Proc
  /-- Log. -/
  log : List Event

/-- Change a slot. -/
def Kernel.modify (k : Kernel) (p : Fin nproc) (change : Proc → Proc) : Kernel :=
  { k with proc := Function.update k.proc p (change (k.proc p)) }

/-- Add to the log. -/
def Kernel.record (k : Kernel) (event : Event) : Kernel := { k with log := event :: k.log }

/-- How a call of a process ends. -/
inductive Flow (α : Type)
  /-- It returns. -/
  | returns (value : α) (k : Kernel)
  /-- It sleeps in the stop handler. -/
  | sleeps (k : Kernel)

/-- The state in which the call ends. -/
def Flow.kernel {α : Type} : Flow α → Kernel
  | .returns _ k => k
  | .sleeps k => k

/-- The part of `wakeup` at one slot. -/
def wake (q : Proc) (chan : Chan) : Proc :=
  if q.state = .sleeping ∧ q.chan = some chan
    then { q with state := .runnable, free := runnable_used q }
  else q

/-- `wakeup`, called by `me`. -/
def wakeup (k : Kernel) (me : Option (Fin nproc)) (chan : Chan) : Kernel :=
  { k with proc := fun q => if some q = me then k.proc q else wake (k.proc q) chan }

/-- `sleep` up to the switch to another process. -/
def sleep (k : Kernel) (me : Fin nproc) (chan : Chan) (thread : Thread) : Kernel :=
  k.modify me fun q =>
    { q with chan := some chan, state := .sleeping, thread := thread, free := sleeping_used q }

/-! ## Acting on a signal -/

/-- What `handle_signal` does. -/
inductive Action
  /-- Nothing. -/
  | ignore
  /-- `stop_handler`. -/
  | stop
  /-- `cont_handler`. -/
  | cont
  /-- `term_handler`. -/
  | term
  /-- `user_handler`. -/
  | user
  deriving DecidableEq, Repr

/-- The switch of `handle_signal` for a default action. -/
def defaultAction (sig : Sig) : Action :=
  match sig.val with
  | 19 | 20 | 21 | 22 => .stop
  | 18 => .cont
  | 6 | 7 | 8 | 4 | 3 | 11 | 31 | 5 | 24 | 25 => .term
  | 14 | 1 | 2 | 29 | 9 | 13 | 27 | 30 | 15 | 16 | 10 | 12 | 26 => .term
  | _ => .ignore

/-- The branch of `handle_signal`. -/
def disposition (q : Proc) (sig : Sig) : Action :=
  if (q.actions sig).saHandler = sigIgn then .ignore
  else if (q.actions sig).saHandler = sigDfl then defaultAction sig
  else .user

/-- `term_handler`, with the exit status. -/
def termHandler (k : Kernel) (p : Fin nproc) (sig : Sig) : Kernel :=
  k.modify p fun q =>
    if q.state = .sleeping then
      { q with xstate := Int32.ofNat (sig.val &&& 0x7f), killed := true, state := .runnable
               free := nofun }
    else { q with xstate := Int32.ofNat (sig.val &&& 0x7f), killed := true }

/-- `cont_handler`. -/
def contHandler (k : Kernel) (me p : Fin nproc) : Kernel := wakeup k (some me) (.proc p)

/-- `stop_handler`: it is the caller that sleeps. -/
def stopHandler (k : Kernel) (me p : Fin nproc) (sig : Sig) (caller : Caller) : Kernel :=
  sleep k me (.proc p) (.stopped p sig caller)

/-- `user_handler`. -/
def userHandler (k : Kernel) (p : Fin nproc) (sig : Sig) : Kernel :=
  k.modify p fun q =>
    { q with trapframe := Function.update q.trapframe epc (q.actions sig).saHandler }

/-- The end of `handle_signal`. -/
def clear (k : Kernel) (p : Fin nproc) (sig : Sig) : Kernel :=
  k.modify p fun q => { q with pending := sigdelset q.pending sig }

/-- `handle_signal`, run by `me`. -/
def handleSignal (k : Kernel) (me p : Fin nproc) (sig : Sig) (caller : Caller) : Flow Unit :=
  if sig.val = 0 then .returns () k
  else
    let k := k.record (.handled p sig)
    match disposition (k.proc p) sig with
    | .ignore => .returns () (clear k p sig)
    | .stop => .sleeps (stopHandler k me p sig caller)
    | .cont => .returns () (clear (contHandler k me p) p sig)
    | .term => .returns () (clear (termHandler k p sig) p sig)
    | .user => .returns () (clear (userHandler k p sig) p sig)

/-! ## Sending a signal -/

/-- The first part of `send_signal`. -/
def post (k : Kernel) (p : Fin nproc) (sig : Sig) : Kernel :=
  if sig = sigkill then k.modify p fun q => { q with killed := true }
  else if sigismember (k.proc p).pending sig = 0 then
    (k.modify p fun q => { q with pending := sigaddset q.pending sig }).record (.sent p sig)
  else k

/-- `send_signal`, run by `me`. -/
def sendSignal (k : Kernel) (me p : Fin nproc) (sig : Sig) (caller : Caller) : Flow Unit :=
  let k := post k p sig
  if (k.proc p).state = .sleeping then
    if (k.proc p).paused ∧ (sig = sigterm ∨ sig = sigint ∨ sig = sigkill) then
      handleSignal (k.modify p fun q => { q with paused := false }) me p sigcont caller
    else if ¬(k.proc p).paused ∧ ¬(k.proc p).killed then handleSignal k me p sig caller
    else .returns () k
  else .returns () k

/-- The test of the loops of `kill`. -/
def Selector.selects (targets : Selector) (k : Kernel) (me p : Fin nproc) : Bool :=
  match targets with
  | .group pgid => (k.proc p).pgid = pgid
  | .all => 1 < (k.proc p).pid ∧ p ≠ me
  | .one pid => (k.proc p).pid = pid

/-- The loops of `kill` over the slots that remain. -/
def killLoop (me : Fin nproc) (targets : Selector) (sig : Sig) :
    List (Fin nproc) → Int → Kernel → Flow Int
  | [], err, k => .returns err k
  | p :: rest, err, k =>
      if targets.selects k me p then
        match sendSignal k me p sig (.kill targets sig rest) with
        | .returns _ k => killLoop me targets sig rest 0 k
        | .sleeps k => .sleeps k
      else killLoop me targets sig rest err k

/-- The process table in order. -/
def slots : List (Fin nproc) := List.finRange nproc

/-- The selection of `kill`, and its error when nobody is selected. -/
def selector (k : Kernel) (me : Fin nproc) (pid : Int32) : Option Selector × Int :=
  if pid = 0 ∨ pid < -1 then
    let pgid := if pid = 0 then (k.proc me).pgid else -pid
    if 0 < pgid then (some (.group pgid), -esrch) else (none, -einval)
  else if pid = -1 then (some .all, -einval)
  else (some (.one pid), -einval)

/-- `kill`, called by `me`. -/
def kill (k : Kernel) (me : Fin nproc) (pid : Int32) (sig : Sig) : Flow Int :=
  match selector k me pid with
  | (some targets, err) => killLoop me targets sig slots err k
  | (none, err) => .returns err k

end Signal
end Xv6Duo
