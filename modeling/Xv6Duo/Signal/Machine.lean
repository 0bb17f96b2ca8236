import Xv6Duo.Signal.Model

/-!
# The signal calls of a process

The system calls that change or wait for signals, the end of `usertrap` in `kernel/trap.c` and the
scheduler, as steps of a machine. A call runs up to its end or to its sleep; `kill` sends to one
slot in each step, since nothing keeps other processes out of its loop.
-/

namespace Xv6Duo
namespace Signal

open Process (ProcState Chan nproc)

/-- `SA_SIGINFO`. -/
def saSiginfo : UInt32 := 4

/-- `sys_rt_sigaction`. The mask of the action becomes the mask of the process. -/
def sigaction (q : Proc) (sig : Sig) (act : SigAction) : Int × Proc :=
  if sig.val < 1 ∨ sig = sigstop ∨ sig = sigkill then (-einval, q)
  else if act.saFlags &&& saSiginfo ≠ 0 then (-einval, q)
  else
    (0, { q with
      actions := Function.update q.actions sig act
      mask := sigdelset (sigdelset act.saMask sigkill) sigstop })

/-- `sigprocmask`. -/
def sigprocmask (q : Proc) (how : Int32) (set : SigSet) : Int × Proc :=
  if how = 0 then (0, { q with mask := q.mask ||| set })
  else if how = 1 then (0, { q with mask := q.mask &&& ~~~set })
  else if how = 2 then (0, { q with mask := set })
  else (-einval, q)

/-- `sigsuspend` up to its sleep. -/
def sigsuspend (k : Kernel) (me : Fin nproc) (mask : SigSet) : Kernel :=
  let oldmask := (k.proc me).mask
  let k := k.modify me fun q =>
    { q with paused := true, mask := sigdelset (sigdelset mask sigkill) sigstop }
  sleep k me (.proc me) (.suspended oldmask)

/-- `ppoll` without descriptors, up to its sleep. -/
def ppoll (k : Kernel) (me : Fin nproc) : Kernel :=
  let origmask := (k.proc me).mask
  sleep (k.modify me fun q => { q with paused := true }) me (.proc me) (.polling origmask)

/-- `sigreturn`. Without a saved trapframe it reads from address `0`, which the kernel does not map;
a call that returns leaves its result in the trapframe. -/
def sigreturn (k : Kernel) (me : Fin nproc) : Except Fault Kernel :=
  match (k.proc me).oldtf with
  | none => .error .badPointer
  | some oldtf => .ok (k.modify me fun q => { q with trapframe := Function.update oldtf a0 0 })

/-- `check_pending_signal`: the lowest pending signal. -/
def lowest (q : Proc) : Option Sig :=
  (List.finRange nsig).find? fun sig => sigismember q.pending sig = 1

/-- `check_pending_signal`. -/
def checkPendingSignal (k : Kernel) (me : Fin nproc) : Flow Unit :=
  match lowest (k.proc me) with
  | some sig => handleSignal k me me sig .usertrap
  | none => .returns () k

/-- What `exit` leaves of the process. -/
def exit (q : Proc) (status : Int32) : Proc :=
  { q with xstate := status, state := .zombie, free := nofun }

/-- The end of `usertrap`. -/
def usertrap (k : Kernel) (me : Fin nproc) : Kernel :=
  if (k.proc me).killed then
    k.modify me fun q => exit q (if q.xstate ≠ 0 then q.xstate else -1)
  else (checkPendingSignal k me).kernel

/-- The end of `sleep`. -/
def awake (q : Proc) (mask : SigSet) : Proc :=
  { q with state := .running, chan := none, thread := .user, mask := mask, free := nofun }

/-- A process goes on where it slept or lost the processor. -/
def resume (k : Kernel) (me : Fin nproc) : Kernel :=
  let q := k.proc me
  match q.thread with
  | .user | .killing _ _ _ => k.modify me fun q => { q with state := .running, free := nofun }
  | .nap => k.modify me fun q => awake q q.mask
  | .suspended oldmask => k.modify me fun q => awake q oldmask
  | .polling origmask => k.modify me fun q => awake q origmask
  | .stopped p sig .usertrap => clear (k.modify me fun q => awake q q.mask) p sig
  | .stopped p sig (.kill targets other rest) =>
      clear (k.modify me fun q => { awake q q.mask with thread := .killing targets other rest }) p
        sig

/-- `kill` up to its loop. -/
def startKill (k : Kernel) (me : Fin nproc) (pid : Int32) (sig : Sig) : Kernel :=
  match (selector k me pid).1 with
  | some targets => k.modify me fun q => { q with thread := .killing targets sig slots }
  | none => k

/-- One pass of the loop of `kill`. -/
def killNext (k : Kernel) (me : Fin nproc) : Kernel :=
  match (k.proc me).thread with
  | .killing targets sig (p :: rest) =>
      let k := k.modify me fun q => { q with thread := .killing targets sig rest }
      if targets.selects k me p then (sendSignal k me p sig (.kill targets sig rest)).kernel else k
  | _ => k.modify me fun q => { q with thread := .user }

/-- What the processes, the devices and the scheduler do. -/
inductive Call
  /-- `rt_sigaction`. -/
  | sigaction (me : Fin nproc) (sig : Sig) (act : SigAction)
  /-- `rt_sigprocmask`. -/
  | sigprocmask (me : Fin nproc) (how : Int32) (set : SigSet)
  /-- `rt_sigsuspend`. -/
  | sigsuspend (me : Fin nproc) (mask : SigSet)
  /-- `ppoll`. -/
  | ppoll (me : Fin nproc)
  /-- Any other call that sleeps. -/
  | nap (me : Fin nproc) (chan : Chan)
  /-- `wakeup` from elsewhere. -/
  | wakeup (chan : Chan)
  /-- `kill`. -/
  | kill (me : Fin nproc) (pid : Int32) (sig : Sig)
  /-- The next slot in the loop of `kill`. -/
  | killNext (me : Fin nproc)
  /-- `rt_sigreturn`. -/
  | sigreturn (me : Fin nproc)
  /-- The return to user mode. -/
  | usertrap (me : Fin nproc)
  /-- A timer interrupt takes the processor away. -/
  | yield (me : Fin nproc)
  /-- The scheduler picks a process. -/
  | run (me : Fin nproc)

/-- The process executes outside the calls above. -/
def Kernel.Active (k : Kernel) (me : Fin nproc) : Prop :=
  (k.proc me).state = .running ∧ (k.proc me).thread = .user

instance (k : Kernel) (me : Fin nproc) : Decidable (k.Active me) :=
  inferInstanceAs (Decidable (_ ∧ _))

/-- The thread is in the loop of `kill`. -/
def Thread.inKill : Thread → Bool
  | .killing _ _ _ => true
  | _ => false

/-- The slot that the loop of `kill` comes to next. -/
def Thread.next : Thread → Option (Selector × Sig × Fin nproc)
  | .killing targets sig (p :: _) => some (targets, sig, p)
  | _ => none

/-- The process executes the loop of `kill`. -/
def Kernel.Killing (k : Kernel) (me : Fin nproc) : Prop :=
  (k.proc me).state = .running ∧ (k.proc me).thread.inKill = true

instance (k : Kernel) (me : Fin nproc) : Decidable (k.Killing me) :=
  inferInstanceAs (Decidable (_ ∧ _))

/-- The call can be made. -/
def Enabled (k : Kernel) : Call → Prop
  | .sigaction me _ _ | .sigprocmask me _ _ | .sigsuspend me _ | .ppoll me | .nap me _ =>
      k.Active me
  | .sigreturn me | .usertrap me => k.Active me
  | .wakeup _ => True
  | .kill me _ sig => k.Active me ∧ 1 ≤ sig.val
  | .killNext me => k.Killing me
  | .yield me => (k.proc me).state = .running
  | .run me => (k.proc me).state = .runnable

instance (k : Kernel) : (call : Call) → Decidable (Enabled k call)
  | .sigaction me _ _ | .sigprocmask me _ _ | .sigsuspend me _ | .ppoll me | .nap me _ =>
      inferInstanceAs (Decidable (k.Active me))
  | .sigreturn me | .usertrap me => inferInstanceAs (Decidable (k.Active me))
  | .killNext me => inferInstanceAs (Decidable (k.Killing me))
  | .yield me => inferInstanceAs (Decidable ((k.proc me).state = .running))
  | .wakeup _ => inferInstanceAs (Decidable True)
  | .kill me _ sig => inferInstanceAs (Decidable (k.Active me ∧ 1 ≤ sig.val))
  | .run me => inferInstanceAs (Decidable ((k.proc me).state = .runnable))

/-- One call. -/
def step (k : Kernel) : Call → Except Fault Kernel
  | .sigaction me sig act => .ok (k.modify me fun q => (sigaction q sig act).2)
  | .sigprocmask me how set => .ok (k.modify me fun q => (sigprocmask q how set).2)
  | .sigsuspend me mask => .ok (sigsuspend k me mask)
  | .ppoll me => .ok (ppoll k me)
  | .nap me chan => .ok (sleep k me chan .nap)
  | .wakeup chan => .ok (wakeup k none chan)
  | .kill me pid sig => .ok (startKill k me pid sig)
  | .killNext me => .ok (killNext k me)
  | .sigreturn me => sigreturn k me
  | .usertrap me => .ok (usertrap k me)
  | .yield me => .ok (k.modify me fun q => { q with state := .runnable, free := runnable_used q })
  | .run me => .ok (resume k me)

end Signal
end Xv6Duo
