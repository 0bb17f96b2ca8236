import Xv6Duo.Sync.Discipline

/-!
# Sleep locks

`kernel/sleeplock.c`, with `iunlock` of `kernel/fs.c` and `clockintr` of `kernel/clock.c`. System
calls lock and unlock inodes and wake processes up as `term_handler` does; they keep to the
discipline of spin locks. The inodes that they unlock have references: of the tests of `iunlock` the
one of the lock is followed. The handlers of devices do nothing.
-/

namespace Xv6Duo
namespace Sync

open Process (ProcState nproc)

/-- A spin lock that is not that of a process. -/
inductive Spin (ι : Type) where
  /-- `lk->lk` of a sleep lock. -/
  | sleep (l : ι)
  /-- `clocklock`. -/
  | clock
  deriving DecidableEq

/-- What processes sleep on. -/
inductive Event (ι : Type) where
  /-- A sleep lock. -/
  | sleep (l : ι)
  /-- `&jiffies`. -/
  | jiffies
  deriving DecidableEq

/-- What a system call does. -/
inductive Action (ι : Type) where
  /-- `acquiresleep`, as in `ilock`. -/
  | ilock (l : ι)
  /-- `iunlock`. -/
  | iunlock (l : ι)
  /-- `term_handler`. -/
  | kill (i : Fin nproc)

/-- Kernel code. -/
inductive Call (ι : Type) where
  /-- `clockintr`. -/
  | clockintr
  /-- `clockintr`, with its lock. -/
  | tick
  /-- `devintr`, without the handlers of the drivers. -/
  | devintr
  /-- `forkret`, and the return to user mode. -/
  | forkret
  /-- `acquiresleep`. -/
  | acquiresleep (l : ι)
  /-- The loop of `acquiresleep`, and what follows it. -/
  | test (l : ι)
  /-- `releasesleep`. -/
  | releasesleep (l : ι)
  /-- `releasesleep`, with its lock. -/
  | unlock (l : ι)
  /-- `iunlock` of an inode that has references, up to its call of `holdingsleep`. -/
  | iunlock (l : ι)
  /-- `holdingsleep`, with its lock, and the rest of `iunlock`. -/
  | holding (l : ι)
  /-- The panic of `iunlock` for want of the lock; it never ends. -/
  | panic
  /-- What is left of a system call. -/
  | syscall (actions : List (Action ι))
  /-- `usertrap` for a system call. -/
  | usertrap (actions : List (Action ι))
  /-- `usertrap` for a timer interrupt. -/
  | usertimer

/-- `struct sleeplock`. -/
structure SleepLock where
  /-- `locked`. -/
  locked : Bool
  /-- The process that `pid` names. -/
  pid : Option (Fin nproc)

/-- What the code reads and changes. -/
structure Shared (ι : Type) where
  /-- Sleep locks. -/
  lock : ι → SleepLock
  /-- `jiffies`. -/
  jiffies : UInt64

variable {ι : Type}

/-- The spin lock of a sleep lock. -/
abbrev spin (l : ι) : Lock (Spin ι) := .other (.sleep l)

/-- `clocklock`. -/
abbrev clocklock : Lock (Spin ι) := .other .clock

/-- The operations of the kernel. -/
abbrev KernelOp (ι : Type) : Type := Op (Spin ι) (Event ι) (Call ι)

/-- What an action of a system call leads to. -/
def Action.ops : Action ι → List (KernelOp ι)
  | .ilock l => [.call (.acquiresleep l)]
  | .iunlock l => [.call (.iunlock l)]
  | .kill i => [.acquire (.proc i), .rouse i, .release (.proc i)]

variable [DecidableEq ι]

/-- What a call does. -/
def body (c : Call ι) (me : Option (Fin nproc)) (data : Shared ι) :
    Shared ι × List (KernelOp ι) :=
  match c, me with
  | .clockintr, _ => (data, [.acquire clocklock, .call .tick])
  | .tick, me =>
      ({ data with jiffies := data.jiffies + 1 }, wakeup me .jiffies ++ [.release clocklock])
  | .devintr, _ => (data, [])
  | .forkret, _ => (data, [.intrOff])
  | .panic, _ => (data, [.call .panic])
  | .acquiresleep l, some _ => (data, [.acquire (spin l), .call (.test l)])
  | .test l, some i =>
      if (data.lock l).locked then (data, sleep i (.sleep l) (spin l) ++ [.call (.test l)])
      else
        ({ data with lock := Function.update data.lock l { locked := true, pid := some i } },
          [.release (spin l)])
  | .releasesleep l, some _ => (data, [.acquire (spin l), .call (.unlock l)])
  | .unlock l, some i =>
      ({ data with lock := Function.update data.lock l { locked := false, pid := none } },
        wakeup (some i) (.sleep l) ++ [.release (spin l)])
  | .iunlock l, some _ => (data, [.acquire (spin l), .call (.holding l)])
  | .holding l, some i =>
      (data, [.release (spin l),
        .call (if (data.lock l).locked ∧ (data.lock l).pid = some i then .releasesleep l
          else .panic)])
  | .syscall [], some _ => (data, [])
  | .syscall (action :: actions), some _ => (data, action.ops ++ [.call (.syscall actions)])
  | .usertrap actions, some _ => (data, [.intrOn, .call (.syscall actions), .intrOff])
  | .usertimer, some i => (data, .call .clockintr :: yield i)
  | _, none => (data, [])

/-- The code. -/
def kernel (ι : Type) [DecidableEq ι] : Code (Spin ι) (Event ι) (Call ι) (Shared ι) where
  body := body
  timer := .clockintr
  device := .devintr
  forkret := .forkret

/-! ## Its discipline -/

/-- The modes before and after calls. -/
def kernelSig : Sig (Spin ι) (Call ι)
  | .clockintr, _, mode => if mode = quiet then some quiet else none
  | .tick, _, mode =>
      if mode = { held := [clocklock], going := true, ie := false } then some quiet else none
  | .devintr, _, mode => some mode
  | .panic, _, mode => some mode
  | .forkret, _, mode => if mode.held = [] ∧ mode.going = true then some quiet else none
  | .acquiresleep _, some _, mode =>
      if mode.held = [] ∧ mode.going = true then some mode else none
  | .test l, some _, mode =>
      if mode.held = [spin l] ∧ mode.going = true then some { mode with held := [] } else none
  | .releasesleep _, some _, mode =>
      if mode.held = [] ∧ mode.going = true then some mode else none
  | .unlock l, some _, mode =>
      if mode.held = [spin l] ∧ mode.going = true then some { mode with held := [] } else none
  | .iunlock _, some _, mode => if mode.held = [] ∧ mode.going = true then some mode else none
  | .holding l, some _, mode =>
      if mode.held = [spin l] ∧ mode.going = true then some { mode with held := [] } else none
  | .syscall _, some _, mode => if mode.held = [] ∧ mode.going = true then some mode else none
  | .usertrap _, some _, mode => if mode = quiet then some quiet else none
  | .usertimer, some _, mode => if mode = quiet then some quiet else none
  | _, none, _ => none

variable {me : Option (Fin nproc)} {mode : Mode (Spin ι)}

/-- `wakeup` takes and releases the locks of the other processes one by one. -/
theorem check_wakeup {sig : Sig (Spin ι) (Call ι)} (chan : Event ι) (going : mode.going = true)
    (others : ∀ i : Fin nproc, .proc i ∉ mode.held) :
    check sig me mode (wakeup me chan : List (KernelOp ι)) = some mode := by
  rw [wakeup]
  induction List.finRange nproc with
  | nil => rfl
  | cons i rest ih =>
      by_cases mine : me = some i
      · rw [List.filter_cons_of_neg (by simp [mine])]
        exact ih
      · rw [List.filter_cons_of_pos (by simp [Ne.symm mine]), List.flatMap_cons, check_append]
        have one : check sig me mode
            ([.acquire (.proc i), .wake i chan, .release (.proc i)] : List (KernelOp ι)) =
            some mode := by
          obtain ⟨held, still, ie⟩ := mode
          cases going
          simp [Op.after, others i, mine]
        rw [one]
        exact ih

theorem check_kill {sig : Sig (Spin ι) (Call ι)} (i : Fin nproc) (none_held : mode.held = [])
    (going : mode.going = true) :
    check sig me mode ((Action.kill i : Action ι).ops) = some mode := by
  obtain ⟨held, still, ie⟩ := mode
  cases none_held
  cases going
  simp [Action.ops, Op.after]

/-- One turn of the loop of `acquiresleep`. -/
theorem check_sleep {i : Fin nproc} {l : ι} (held : mode.held = [spin l])
    (going : mode.going = true) :
    check kernelSig (some i) mode
      (sleep i (.sleep l) (spin l) ++ [.call (.test l)] : List (KernelOp ι)) =
      some { mode with held := [] } := by
  obtain ⟨locks, still, ie⟩ := mode
  cases held
  cases going
  simp [sleep, Op.after, kernelSig]

/-- Functions of sleep locks take their spin lock first. -/
theorem check_enter {c : Call ι} {i : Fin nproc} {l : ι} (none_held : mode.held = [])
    (going : mode.going = true)
    (rest : kernelSig c (some i) { held := [spin l], going := true, ie := mode.ie } =
      some { held := [], going := true, ie := mode.ie }) :
    check kernelSig (some i) mode ([.acquire (spin l), .call c] : List (KernelOp ι)) =
      some mode := by
  obtain ⟨locks, still, ie⟩ := mode
  cases none_held
  cases going
  simp [Op.after, rest]

theorem check_action (action : Action ι) {i : Fin nproc} (none_held : mode.held = [])
    (going : mode.going = true) :
    check kernelSig (some i) mode action.ops = some mode := by
  cases action with
  | ilock l => simp [Action.ops, Op.after, kernelSig, none_held, going]
  | iunlock l => simp [Action.ops, Op.after, kernelSig, none_held, going]
  | kill j => exact check_kill j none_held going

/-- Where most calls of a process may stand. -/
theorem of_some {held : List (Lock (Spin ι))} {result later : Mode (Spin ι)}
    (after : (if mode.held = held ∧ mode.going = true then some result else none) = some later) :
    mode.held = held ∧ mode.going = true ∧ result = later := by
  split at after
  · next place => exact ⟨place.1, place.2, Option.some.inj after⟩
  · cases after

/-- Where the handlers of traps may stand. -/
theorem of_quiet {place later : Mode (Spin ι)}
    (after : (if mode = place then some quiet else none) = some later) :
    mode = place ∧ quiet = later := by
  split at after
  · next same => exact ⟨same, Option.some.inj after⟩
  · cases after

/-- The code does what is said of it. -/
theorem body_sound (c : Call ι) (me : Option (Fin nproc)) (mode later : Mode (Spin ι))
    (data : Shared ι) (after : kernelSig c me mode = some later) :
    check kernelSig me mode (body c me data).2 = some later := by
  cases c with
  | clockintr =>
      obtain ⟨rfl, rfl⟩ := of_quiet after
      rfl
  | tick =>
      obtain ⟨rfl, rfl⟩ := of_quiet after
      change check kernelSig me _ (wakeup me (Event.jiffies : Event ι) ++ [.release clocklock]) = _
      rw [check_append, check_wakeup _ rfl (by simp)]
      simp [Op.after, quiet]
  | devintr => exact after
  | panic =>
      change check kernelSig me mode [.call .panic] = _
      simp [Op.after, after]
  | forkret =>
      obtain ⟨none_held, going, rfl⟩ := of_some after
      change check kernelSig me mode [.intrOff] = _
      simp [Op.after, quiet, none_held, going]
  | acquiresleep l =>
      cases me with
      | none => cases after
      | some i =>
          obtain ⟨none_held, going, rfl⟩ := of_some after
          exact check_enter none_held going (if_pos ⟨rfl, rfl⟩)
  | test l =>
      cases me with
      | none => cases after
      | some i =>
          obtain ⟨locks, going, rfl⟩ := of_some after
          rw [body]
          split
          · exact check_sleep locks going
          · simp [Op.after, locks, going]
  | releasesleep l =>
      cases me with
      | none => cases after
      | some i =>
          obtain ⟨none_held, going, rfl⟩ := of_some after
          exact check_enter none_held going (if_pos ⟨rfl, rfl⟩)
  | unlock l =>
      cases me with
      | none => cases after
      | some i =>
          obtain ⟨locks, going, rfl⟩ := of_some after
          rw [body, check_append, check_wakeup _ going (by simp [locks])]
          simp [Op.after, locks, going]
  | iunlock l =>
      cases me with
      | none => cases after
      | some i =>
          obtain ⟨none_held, going, rfl⟩ := of_some after
          exact check_enter none_held going (if_pos ⟨rfl, rfl⟩)
  | holding l =>
      cases me with
      | none => cases after
      | some i =>
          obtain ⟨locks, going, rfl⟩ := of_some after
          rw [body]
          split <;> simp [Op.after, kernelSig, locks, going]
  | syscall actions =>
      cases me with
      | none => cases after
      | some i =>
          obtain ⟨none_held, going, rfl⟩ := of_some after
          cases actions with
          | nil => rfl
          | cons action actions =>
              rw [body, check_append, check_action action none_held going]
              simp [Op.after, kernelSig, none_held, going]
  | usertrap actions =>
      cases me with
      | none => cases after
      | some i =>
          obtain ⟨rfl, rfl⟩ := of_quiet after
          simp [body, Op.after, kernelSig, quiet]
  | usertimer =>
      cases me with
      | none => cases after
      | some i =>
          obtain ⟨rfl, rfl⟩ := of_quiet after
          simp [body, yield, Op.after, kernelSig, quiet]

/-- The discipline of the code. -/
def kernelDiscipline (ι : Type) [DecidableEq ι] : Discipline (kernel ι) where
  sig := kernelSig
  sound := body_sound
  timer _ := rfl
  device _ := rfl
  forkret _ _ := rfl

/-- The kernel when it starts its scheduler, with some new processes. -/
def boot (ι : Type) (ready : Fin nproc → Bool) :
    Machine (Spin ι) (Event ι) (Call ι) (Shared ι) where
  sie := false
  noff := 0
  intena := false
  locked _ := false
  proc i :=
    if ready i then
      { state := .runnable, chan := none, ops := [.release (.proc i), .call .forkret] }
    else { state := .unused, chan := none, ops := [] }
  running := none
  pass := .next nproc
  idle := []
  data := { lock := fun _ => { locked := false, pid := none }, jiffies := 0 }

end Sync
end Xv6Duo
