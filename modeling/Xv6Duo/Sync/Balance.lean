import Xv6Duo.Sync.Sleeplock

/-!
# The sleep locks that a process holds

What a process still has to do says which sleep locks it holds: those that it unlocks before it
locks them.
-/

namespace Xv6Duo
namespace Sync

open Process (ProcState nproc)

variable {ι : Type} [DecidableEq ι]

/-! ## Locks after some operations -/

/-- The locks that are held after one more is taken. -/
def grab (l : ι) (held : List ι) : Option (List ι) :=
  if l ∈ held then none else some (l :: held)

/-- The locks that are held after one is released. -/
def drop (l : ι) (held : List ι) : Option (List ι) :=
  if l ∈ held then some (held.erase l) else none

/-- The locks that are held after an action. -/
def Action.locks (held : List ι) : Action ι → Option (List ι)
  | .ilock l => grab l held
  | .iunlock l => drop l held
  | .kill _ => some held

/-- The locks that are held after a call; no process comes to the panic of `iunlock` for want of the
lock. -/
def Call.locks (held : List ι) : Call ι → Option (List ι)
  | .acquiresleep l => grab l held
  | .test l => grab l held
  | .releasesleep l => drop l held
  | .unlock l => drop l held
  | .iunlock l => drop l held
  | .holding l => drop l held
  | .syscall actions => actions.foldlM Action.locks held
  | .usertrap actions => actions.foldlM Action.locks held
  | .panic => none
  | _ => some held

/-- The locks that are held after an operation; the kernel makes no new processes. -/
def opLocks (held : List ι) : KernelOp ι → Option (List ι)
  | .call c => c.locks held
  | .mark _ _ => none
  | .start _ => none
  | _ => some held

/-- The locks that are held after some operations. -/
def locks (held : List ι) (ops : List (KernelOp ι)) : Option (List ι) :=
  ops.foldlM opLocks held

section

variable {held later : List ι} {l : ι}

@[simp]
theorem locks_nil : locks held ([] : List (KernelOp ι)) = some held :=
  rfl

theorem locks_cons (op : KernelOp ι) (ops : List (KernelOp ι)) :
    locks held (op :: ops) = (opLocks held op).bind fun h => locks h ops :=
  rfl

theorem locks_append (first ops : List (KernelOp ι)) :
    locks held (first ++ ops) = (locks held first).bind fun h => locks h ops := by
  rw [locks, List.foldlM_append]
  rfl

/-- Operations that do not concern sleep locks. -/
theorem locks_append_of_same {first ops : List (KernelOp ι)}
    (same : ∀ op ∈ first, opLocks held op = some held) :
    locks held (first ++ ops) = locks held ops := by
  induction first with
  | nil => rfl
  | cons op first ih =>
      rw [List.cons_append, locks_cons, same op List.mem_cons_self]
      exact ih fun other among => same other (List.mem_cons_of_mem op among)

theorem locks_wakeup {me : Option (Fin nproc)} {chan : Event ι} {ops : List (KernelOp ι)} :
    locks held (wakeup me chan ++ ops) = locks held ops := by
  apply locks_append_of_same
  intro op among
  rw [wakeup, List.mem_flatMap] at among
  obtain ⟨i, -, among⟩ := among
  rcases List.mem_cons.mp among with rfl | among
  · rfl
  rcases List.mem_cons.mp among with rfl | among
  · rfl
  cases List.mem_singleton.mp among
  rfl

theorem grab_eq (grabbed : grab l held = some later) : l ∉ held ∧ later = l :: held := by
  rw [grab] at grabbed
  split at grabbed
  · cases grabbed
  · next fresh => exact ⟨fresh, (Option.some.inj grabbed).symm⟩

theorem drop_eq (dropped : drop l held = some later) : l ∈ held ∧ later = held.erase l := by
  rw [drop] at dropped
  split at dropped
  · next among => exact ⟨among, (Option.some.inj dropped).symm⟩
  · cases dropped

end

/-! ## Locks before them -/

/-- Whether the first of some actions that concerns a lock unlocks it. -/
def Action.inside (l : ι) : Action ι → Option Bool
  | .ilock k => if k = l then some false else none
  | .iunlock k => if k = l then some true else none
  | .kill _ => none

/-- Whether what a call first does with a lock is to unlock it. -/
def Call.inside (l : ι) : Call ι → Option Bool
  | .acquiresleep k => if k = l then some false else none
  | .test k => if k = l then some false else none
  | .releasesleep k => if k = l then some true else none
  | .unlock k => if k = l then some true else none
  | .iunlock k => if k = l then some true else none
  | .holding k => if k = l then some true else none
  | .syscall actions => actions.findSome? (Action.inside l)
  | .usertrap actions => actions.findSome? (Action.inside l)
  | _ => none

/-- A process holds a lock: what it still has to do unlocks it before it locks it. -/
def inside (l : ι) : List (KernelOp ι) → Bool
  | [] => false
  | .call c :: ops => (c.inside l).getD (inside l ops)
  | _ :: ops => inside l ops

section

variable {held later : List ι} {l : ι}

/-- What is said of a lock before a step, given what is said of it after. -/
def Tells (l : ι) (held later : List ι) (told : Option Bool) : Prop :=
  match told with
  | some b => l ∈ held ↔ b = true
  | none => l ∈ held ↔ l ∈ later

theorem tells_grab {k : ι} (grabbed : grab k held = some later) :
    Tells l held later (if k = l then some false else none) := by
  obtain ⟨fresh, rfl⟩ := grab_eq grabbed
  by_cases same : k = l
  · subst same
    simpa [Tells] using fresh
  · simp [Tells, same, Ne.symm same]

theorem tells_drop {k : ι} (dropped : drop k held = some later) :
    Tells l held later (if k = l then some true else none) := by
  obtain ⟨among, rfl⟩ := drop_eq dropped
  by_cases same : k = l
  · subst same
    simpa [Tells] using among
  · simp [Tells, same, List.mem_erase_of_ne (Ne.symm same)]

theorem Action.tells {action : Action ι} (after : action.locks held = some later) :
    Tells l held later (action.inside l) := by
  cases action with
  | ilock k => exact tells_grab after
  | iunlock k => exact tells_drop after
  | kill i =>
      cases after
      exact Iff.rfl

theorem tells_actions {actions : List (Action ι)}
    (after : actions.foldlM Action.locks held = some later) :
    Tells l held later (actions.findSome? (Action.inside l)) := by
  induction actions generalizing held with
  | nil =>
      cases after
      exact Iff.rfl
  | cons action actions ih =>
      rw [List.foldlM_cons] at after
      obtain ⟨middle, one, rest⟩ := Option.bind_eq_some_iff.mp after
      have first := Action.tells (l := l) one
      rw [List.findSome?_cons]
      cases told : action.inside l with
      | some b =>
          rw [told] at first
          exact first
      | none =>
          rw [told] at first
          have second := ih rest
          dsimp only
          cases more : actions.findSome? (Action.inside l) with
          | some b =>
              rw [more] at second
              exact first.trans second
          | none =>
              rw [more] at second
              exact first.trans second

theorem Call.tells {c : Call ι} (after : c.locks held = some later) :
    Tells l held later (c.inside l) := by
  cases c with
  | acquiresleep k => exact tells_grab after
  | test k => exact tells_grab after
  | releasesleep k => exact tells_drop after
  | unlock k => exact tells_drop after
  | iunlock k => exact tells_drop after
  | holding k => exact tells_drop after
  | syscall actions => exact tells_actions after
  | usertrap actions => exact tells_actions after
  | panic => cases after
  | clockintr =>
      cases after
      exact Iff.rfl
  | tick =>
      cases after
      exact Iff.rfl
  | devintr =>
      cases after
      exact Iff.rfl
  | forkret =>
      cases after
      exact Iff.rfl
  | usertimer =>
      cases after
      exact Iff.rfl

/-- What is left to do says which locks are held. -/
theorem mem_iff_inside {ops : List (KernelOp ι)} (balanced : locks held ops = some []) :
    l ∈ held ↔ inside l ops = true := by
  induction ops generalizing held with
  | nil =>
      cases balanced
      simp [inside]
  | cons op ops ih =>
      rw [locks_cons] at balanced
      obtain ⟨middle, one, rest⟩ := Option.bind_eq_some_iff.mp balanced
      have second := ih rest
      cases op with
      | call c =>
          have first := Call.tells (l := l) (c := c) one
          change l ∈ held ↔ (c.inside l).getD (inside l ops) = true
          cases told : c.inside l with
          | some b =>
              rw [told] at first
              exact first
          | none =>
              rw [told] at first
              exact first.trans second
      | mark i state => cases one
      | start i => cases one
      | _ =>
          cases one
          exact second

end

end Sync
end Xv6Duo
