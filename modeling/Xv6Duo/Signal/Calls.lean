import Xv6Duo.Signal.Machine

/-!
# The calls on masks and actions

`sys_rt_sigaction` and `sys_rt_sigprocmask` with their copies from and to user memory, and `siglock`
around them. What a copy stores, or that it fails, is an argument of the call, and so is the content
of the kernel variable that an argument `NULL` leaves as it is.
-/

namespace Xv6Duo
namespace Signal

/-- `struct k_sigaction`. -/
structure KSigaction where
  /-- Handler. -/
  handler : UInt64
  /-- Flags. -/
  flags : UInt64
  /-- Mask, both words of it. -/
  mask : SigSet

/-- The signals of a process, and whether its thread holds `siglock`. -/
structure SignalState where
  /-- Signal mask. -/
  mask : SigSet
  /-- Pending signals. -/
  pending : SigSet
  /-- Actions. -/
  actions : Sig → SigAction
  /-- `siglock` is held. -/
  locked : Bool

/-- The action that `sigaction` stores. -/
def KSigaction.action (act : KSigaction) : SigAction := ⟨act.handler, act.mask, act.flags.toUInt32⟩

/-- The set without the signals that cannot be blocked. -/
def blockable (set : SigSet) : SigSet := sigdelset (sigdelset set sigkill) sigstop

/-- `sigaction` of a kernel variable, if `stored` says that the old action can be stored. -/
def sigactionCall (s : SignalState) (sig : Sig) (act : KSigaction) (oldact : UInt64)
    (stored : Bool) :
    Int × SignalState :=
  let s := { s with locked := true }
  if oldact ≠ 0 ∧ stored = false then (-efault, s)
  else
    (0, { s with
      actions := Function.update s.actions sig act.action
      mask := blockable act.mask
      locked := false })

/-- `sys_rt_sigaction`. The variable `act` holds `junk` until the copy from user memory, which
stores `copied` or fails. -/
def sysRtSigaction (s : SignalState) (sig : Int32) (actp oldact : UInt64)
    (copied : Option KSigaction) (junk : KSigaction) (stored : Bool) : Int × SignalState :=
  match if actp ≠ 0 then copied else some junk with
  | none => (-efault, s)
  | some act =>
      if inside : 1 ≤ sig.toInt ∧ sig.toInt.toNat < nsig then
        let sig : Sig := ⟨sig.toInt.toNat, inside.2⟩
        if sig = sigstop ∨ sig = sigkill then (-einval, s)
        else if act.flags &&& saSiginfo.toUInt64 ≠ 0 then (-einval, s)
        else sigactionCall s sig act oldact stored
      else (-einval, s)

/-- `sigprocmask` of a kernel variable. -/
def sigprocmaskCall (s : SignalState) (how : Int32) (set : SigSet) (oldset : UInt64)
    (stored : Bool) :
    Int × SignalState :=
  let s := { s with locked := true }
  if oldset ≠ 0 ∧ stored = false then (-efault, s)
  else if how = 0 then (0, { s with mask := s.mask ||| set, locked := false })
  else if how = 1 then (0, { s with mask := s.mask &&& ~~~set, locked := false })
  else if how = 2 then (0, { s with mask := set, locked := false })
  else (-einval, { s with locked := false })

/-- `sys_rt_sigprocmask`. The variable `set` holds `junk`, unless `argptr` stores `copied` there. -/
def sysRtSigprocmask (s : SignalState) (how : Int32) (setp oldset size : UInt64)
    (copied : Option SigSet) (junk : SigSet) (stored : Bool) : Int × SignalState :=
  match if setp = 0 then some junk else copied with
  | none => (-efault, s)
  | some set =>
      if size ≠ 0 ∧ size ≠ 8 then (-einval, s) else sigprocmaskCall s how set oldset stored

/-! ## What the calls are asked to do -/

/-- The action that a user asks for, if any. -/
def asked (actp : UInt64) (copied : Option KSigaction) : Option KSigaction :=
  if actp = 0 then none else copied

/-- What `rt_sigaction` is asked to do: the action of the signal alone is changed, and only if there
is a new one; an error changes nothing; the lock is free afterwards. -/
structure Acted (s : SignalState) (sig : Int32) (act : Option KSigaction)
    (result : Int × SignalState) : Prop where
  /-- The lock is free. -/
  unlocked : result.2.locked = false
  /-- An error is negative and changes nothing. -/
  failed : result.1 ≠ 0 → result.1 < 0 ∧ result.2 = s
  /-- The mask and the pending signals stay. -/
  sets : result.1 = 0 → result.2.mask = s.mask ∧ result.2.pending = s.pending
  /-- The actions of other signals stay. -/
  others : result.1 = 0 → ∀ r : Sig, (r.val : Int) ≠ sig.toInt → result.2.actions r = s.actions r
  /-- The action of the signal is the new one, or stays. -/
  action : result.1 = 0 → ∀ r : Sig, (r.val : Int) = sig.toInt →
    result.2.actions r = (act.map KSigaction.action).getD (s.actions r)

/-- The mask that `rt_sigprocmask` is asked for. -/
def maskAsked (mask : SigSet) (how : Int32) : Option SigSet → SigSet
  | none => mask
  | some set =>
      if how = 0 then blockable (mask ||| set)
      else if how = 1 then blockable (mask &&& ~~~set)
      else blockable set

/-- What `rt_sigprocmask` is asked to do: the mask alone is changed; an error changes nothing; the
lock is free afterwards. -/
structure Masked (s : SignalState) (how : Int32) (set : Option SigSet)
    (result : Int × SignalState) :
    Prop where
  /-- The lock is free. -/
  unlocked : result.2.locked = false
  /-- An error is negative and changes nothing. -/
  failed : result.1 ≠ 0 → result.1 < 0 ∧ result.2 = s
  /-- The mask is the new one. -/
  mask : result.1 = 0 → result.2.mask = maskAsked s.mask how set
  /-- Nothing else changes. -/
  others : result.1 = 0 → result.2.pending = s.pending ∧ result.2.actions = s.actions

/-! ## When they do it -/

/-- `sys_rt_sigaction` turns the arguments away before it takes the lock. -/
def Refused (sig : Int32) (act : KSigaction) : Prop :=
  sig.toInt < 1 ∨ 32 ≤ sig.toInt ∨ sig.toInt = 19 ∨ sig.toInt = 9 ∨ act.flags &&& 4 ≠ 0

/-- The content of the variable `act`, unless the copy from user memory fails. -/
def variableAct (actp : UInt64) (copied : Option KSigaction) (junk : KSigaction) :
    Option KSigaction := if actp ≠ 0 then copied else some junk

/-- The content of the variable `set`, unless the copy from user memory fails. -/
def variableSet (setp : UInt64) (copied : Option SigSet) (junk : SigSet) : Option SigSet :=
  if setp = 0 then some junk else copied

variable {s : SignalState} {stored : Bool}

theorem acted_of_error (free : s.locked = false) {sig : Int32} {act : Option KSigaction}
    {code : Int} (negative : code < 0) : Acted s sig act (code, s) where
  unlocked := free
  failed _ := ⟨negative, rfl⟩
  sets zero := absurd zero (Int.ne_of_lt negative)
  others zero := absurd zero (Int.ne_of_lt negative)
  action zero := absurd zero (Int.ne_of_lt negative)

theorem masked_of_error (free : s.locked = false) {how : Int32} {set : Option SigSet} {code : Int}
    (negative : code < 0) : Masked s how set (code, s) where
  unlocked := free
  failed _ := ⟨negative, rfl⟩
  mask zero := absurd zero (Int.ne_of_lt negative)
  others zero := absurd zero (Int.ne_of_lt negative)

/-- `sigaction` does what it is asked to do when the old action can be stored, the mask of the
action is the mask of the process, and without an action the kernel variable happens to hold the old
one. -/
theorem sigactionCall_iff {sig : Int32} {r : Sig} (number : (r.val : Int) = sig.toInt)
    {act : KSigaction} {new : Option KSigaction} (given : new = none ∨ new = some act)
    (oldact : UInt64) :
    Acted s sig new (sigactionCall s r act oldact stored) ↔
      (oldact ≠ 0 → stored = true) ∧ blockable act.mask = s.mask ∧
        (new = none → act.action = s.actions r) := by
  rw [sigactionCall]
  split
  · next fails =>
      constructor
      · intro acted
        cases acted.unlocked
      · rintro ⟨copies, -⟩
        exact absurd (copies fails.1) (by simp [fails.2])
  · next succeeds =>
      have copies : oldact ≠ 0 → stored = true := fun some_old => by
        simpa using fun no => succeeds ⟨some_old, no⟩
      constructor
      · intro acted
        refine ⟨copies, (acted.sets rfl).1, fun none_new => ?_⟩
        have action := acted.action rfl r number
        simpa [none_new] using action
      · rintro ⟨-, mask, same⟩
        constructor
        · rfl
        · exact fun no => absurd rfl no
        · exact fun _ => ⟨mask, rfl⟩
        · intro _ other differ
          have other_ne : other ≠ r := by
            rintro rfl
            exact differ number
          exact Function.update_of_ne other_ne _ _
        · intro _ other eq
          obtain rfl : other = r := Fin.ext (by omega)
          simp only [Function.update_self]
          cases given with
          | inl none_new => rw [none_new, same none_new]; rfl
          | inr some_new => rw [some_new]; rfl

theorem given_of_variable {actp : UInt64} {copied : Option KSigaction} {junk act : KSigaction}
    (variable_eq : variableAct actp copied junk = some act) :
    asked actp copied = none ∨ asked actp copied = some act := by
  rw [variableAct] at variable_eq
  rw [asked]
  split at variable_eq
  · next some_act => exact Or.inr (by rw [if_neg some_act, variable_eq])
  · next no_act => exact Or.inl (if_pos (not_not.mp no_act))

theorem asked_eq_none_iff {actp : UInt64} {copied : Option KSigaction} {junk act : KSigaction}
    (variable_eq : variableAct actp copied junk = some act) :
    asked actp copied = none ↔ actp = 0 := by
  rw [variableAct] at variable_eq
  rw [asked]
  split at variable_eq
  · next some_act => simp [some_act, variable_eq]
  · next no_act => simp [not_not.mp no_act]

/-- When `rt_sigaction` does what it is asked to do. -/
theorem sysRtSigaction_iff (free : s.locked = false) (sig : Int32) (actp oldact : UInt64)
    (copied : Option KSigaction) (junk : KSigaction) :
    Acted s sig (asked actp copied) (sysRtSigaction s sig actp oldact copied junk stored) ↔
      ∀ act, variableAct actp copied junk = some act → ¬Refused sig act →
        (oldact ≠ 0 → stored = true) ∧ blockable act.mask = s.mask ∧
          (actp = 0 → ∀ r : Sig, (r.val : Int) = sig.toInt → act.action = s.actions r) := by
  rw [sysRtSigaction, ← variableAct]
  cases variable_eq : variableAct actp copied junk with
  | none => simpa using acted_of_error free (by decide)
  | some act =>
      simp only [Option.some.injEq, forall_eq']
      have refused_iff (refused : Refused sig act) :
          Acted s sig (asked actp copied) (-einval, s) ↔ (¬Refused sig act →
            (oldact ≠ 0 → stored = true) ∧ blockable act.mask = s.mask ∧
              (actp = 0 → ∀ r : Sig, (r.val : Int) = sig.toInt → act.action = s.actions r)) :=
        iff_of_true (acted_of_error free (by decide)) fun not_refused => absurd refused not_refused
      split
      · next inside =>
          have positive := inside.1
          have number : (((⟨sig.toInt.toNat, inside.2⟩ : Sig).val : Nat) : Int) = sig.toInt := by
            simp only
            omega
          split
          · next special =>
              apply refused_iff
              cases special with
              | inl stop =>
                  have at_stop : sig.toInt.toNat = 19 := congrArg Fin.val stop
                  exact Or.inr (Or.inr (Or.inl (by omega)))
              | inr kill =>
                  have at_kill : sig.toInt.toNat = 9 := congrArg Fin.val kill
                  exact Or.inr (Or.inr (Or.inr (Or.inl (by omega))))
          · next ordinary =>
              split
              · next siginfo => exact refused_iff (Or.inr (Or.inr (Or.inr (Or.inr siginfo))))
              · next accepted =>
                  have not_refused : ¬Refused sig act := by
                    have below : sig.toInt.toNat < 32 := inside.2
                    rintro (no | no | no | no | no)
                    · omega
                    · omega
                    · exact ordinary (Or.inl (Fin.ext (by rw [sigstop]; simp only; omega)))
                    · exact ordinary (Or.inr (Fin.ext (by rw [sigkill]; simp only; omega)))
                    · exact accepted no
                  rw [sigactionCall_iff number (given_of_variable variable_eq),
                    iff_true_intro not_refused, true_imp_iff, asked_eq_none_iff variable_eq]
                  refine and_congr_right fun _ => and_congr_right fun _ =>
                    imp_congr_right fun _ => ?_
                  constructor
                  · intro same r at_r
                    obtain rfl : r = ⟨sig.toInt.toNat, inside.2⟩ := Fin.ext (by simp only; omega)
                    exact same
                  · exact fun same => same _ number
      · next outside =>
          apply refused_iff
          rw [not_and_or] at outside
          cases outside with
          | inl low => exact Or.inl (by omega)
          | inr high => exact Or.inr (Or.inl (by simp only [nsig] at high; omega))

/-! ## `rt_sigprocmask` -/

/-- The mask that `sigprocmask` stores. -/
def newMask (mask : SigSet) (how : Int32) (set : SigSet) : SigSet :=
  if how = 0 then mask ||| set else if how = 1 then mask &&& ~~~set else set

/-- The set that a user asks for, if any. -/
def askedSet (setp : UInt64) (copied : Option SigSet) : Option SigSet :=
  if setp = 0 then none else copied

/-- Without a set, what the kernel variable holds leaves the mask as it is; a set leaves `SIGKILL`
and `SIGSTOP` out of the mask. -/
def Harmless (mask : SigSet) (how : Int32) (setp : UInt64) (set : SigSet) : Prop :=
  if setp = 0 then newMask mask how set = mask
  else ¬Has (newMask mask how set) sigkill ∧ ¬Has (newMask mask how set) sigstop

theorem sigdelset_of_not_has {set : SigSet} {r : Sig} (absent : ¬Has set r) :
    sigdelset set r = set := by
  rw [sigdelset]
  split
  · rfl
  · next some =>
      have zero : set &&& sigbit r = 0 := by
        by_contra present
        exact absent (has_iff.mpr ⟨by omega, present⟩)
      apply UInt64.toBitVec_inj.mp
      have bits := congrArg UInt64.toBitVec zero
      ext i inside
      have bit := congrArg (fun word : BitVec 64 => word[i]) bits
      simp only [UInt64.toBitVec_and, UInt64.toBitVec_not, BitVec.getElem_and, BitVec.getElem_not]
        at bit ⊢
      cases set_bit : set.toBitVec[i] with
      | false => rfl
      | true =>
          rw [set_bit, Bool.true_and] at bit
          rw [bit]
          simp

/-- Nothing is taken out of a set that can be blocked as a whole. -/
theorem blockable_eq_iff {set : SigSet} :
    blockable set = set ↔ ¬Has set sigkill ∧ ¬Has set sigstop := by
  constructor
  · intro same
    rw [← same, blockable]
    simp [sigkill, sigstop]
  · rintro ⟨no_kill, no_stop⟩
    rw [blockable, sigdelset_of_not_has no_kill, sigdelset_of_not_has no_stop]

theorem maskAsked_some (mask : SigSet) (how : Int32) (set : SigSet) :
    maskAsked mask how (some set) = blockable (newMask mask how set) := by
  rw [maskAsked, newMask]
  split
  · rfl
  · split <;> rfl

/-- `sigprocmask` of a set. -/
theorem sigprocmaskCall_eq (s : SignalState) {how : Int32} (set : SigSet) {oldset : UInt64}
    (copies : oldset ≠ 0 → stored = true) :
    sigprocmaskCall s how set oldset stored =
      if how = 0 ∨ how = 1 ∨ how = 2 then
        (0, { s with mask := newMask s.mask how set, locked := false })
      else (-einval, { s with locked := false }) := by
  have succeeds : ¬(oldset ≠ 0 ∧ stored = false) := by
    rintro ⟨some_old, fails⟩
    rw [copies some_old] at fails
    cases fails
  rw [sigprocmaskCall]
  simp only [succeeds, if_false, newMask]
  split
  · next block => rw [if_pos (Or.inl block)]
  · next not_block =>
      split
      · next unblock => rw [if_pos (Or.inr (Or.inl unblock))]
      · next not_unblock =>
          split
          · next setmask => rw [if_pos (Or.inr (Or.inr setmask))]
          · next unknown => rw [if_neg (by simp [not_block, not_unblock, unknown])]

/-- When `sigprocmask` does what it is asked to do. -/
theorem sigprocmaskCall_iff (free : s.locked = false) {how : Int32} {setp oldset : UInt64}
    {copied : Option SigSet} {junk set : SigSet}
    (variable_eq : variableSet setp copied junk = some set) :
    Masked s how (askedSet setp copied) (sigprocmaskCall s how set oldset stored) ↔
      (oldset ≠ 0 → stored = true) ∧
        (how = 0 ∨ how = 1 ∨ how = 2 → Harmless s.mask how setp set) := by
  have unlocked_same : { s with locked := false } = s := by rw [← free]
  cases Decidable.em (oldset ≠ 0 → stored = true) with
  | inr fails =>
      refine iff_of_false (fun masked => ?_) fun both => fails both.1
      have failing : oldset ≠ 0 ∧ stored = false := by simpa using fails
      have unlocked := masked.unlocked
      rw [sigprocmaskCall] at unlocked
      simp only at unlocked
      rw [if_pos failing] at unlocked
      cases unlocked
  | inl copies =>
      rw [sigprocmaskCall_eq s set copies, and_iff_right copies]
      split
      · next known =>
          have mask_iff : newMask s.mask how set = maskAsked s.mask how (askedSet setp copied) ↔
              Harmless s.mask how setp set := by
            rw [variableSet] at variable_eq
            rw [askedSet, Harmless]
            split at variable_eq
            · next no_set => rw [if_pos no_set, if_pos no_set]; rfl
            · next some_set =>
                rw [if_neg some_set, if_neg some_set, variable_eq, maskAsked_some,
                  eq_comm, blockable_eq_iff]
          rw [← mask_iff, forall_prop_of_true known]
          constructor
          · exact fun masked => masked.mask rfl
          · exact fun same => ⟨rfl, fun no => absurd rfl no, fun _ => same, fun _ => ⟨rfl, rfl⟩⟩
      · next unknown =>
          rw [unlocked_same]
          exact iff_of_true (masked_of_error free (by decide)) fun known => absurd known unknown

/-- When `rt_sigprocmask` does what it is asked to do. -/
theorem sysRtSigprocmask_iff (free : s.locked = false) (how : Int32) (setp oldset size : UInt64)
    (copied : Option SigSet) (junk : SigSet) :
    Masked s how (askedSet setp copied)
        (sysRtSigprocmask s how setp oldset size copied junk stored) ↔
      ∀ set, variableSet setp copied junk = some set → size = 0 ∨ size = 8 →
        (oldset ≠ 0 → stored = true) ∧
          (how = 0 ∨ how = 1 ∨ how = 2 → Harmless s.mask how setp set) := by
  rw [sysRtSigprocmask, ← variableSet]
  cases variable_eq : variableSet setp copied junk with
  | none => simpa using masked_of_error free (by decide)
  | some set =>
      simp only [Option.some.injEq, forall_eq']
      split
      · next other =>
          refine iff_of_true (masked_of_error free (by decide)) fun known => ?_
          cases known with
          | inl none_size => exact absurd none_size other.1
          | inr eight => exact absurd eight other.2
      · next known =>
          have sized : size = 0 ∨ size = 8 := by
            by_contra neither
            exact known (not_or.mp neither)
          rw [sigprocmaskCall_iff free variable_eq, forall_prop_of_true sized]

/-- The calls change only what they are asked to change, and free the lock, exactly if the old value
can be stored, an action has the mask of the process, a set leaves `SIGKILL` and `SIGSTOP` out, and
the kernel variables that stand for `NULL` happen to hold what changes nothing. -/
theorem signal_calls_exact_iff (free : s.locked = false) :
    (∀ (sig : Int32) (actp oldact : UInt64) (copied : Option KSigaction) (junk : KSigaction) stored,
      Acted s sig (asked actp copied) (sysRtSigaction s sig actp oldact copied junk stored) ↔
        ∀ act, variableAct actp copied junk = some act → ¬Refused sig act →
          (oldact ≠ 0 → stored = true) ∧ blockable act.mask = s.mask ∧
            (actp = 0 → ∀ r : Sig, (r.val : Int) = sig.toInt → act.action = s.actions r)) ∧
    (∀ (how : Int32) (setp oldset size : UInt64) (copied : Option SigSet) (junk : SigSet) stored,
      Masked s how (askedSet setp copied)
          (sysRtSigprocmask s how setp oldset size copied junk stored) ↔
        ∀ set, variableSet setp copied junk = some set → size = 0 ∨ size = 8 →
          (oldset ≠ 0 → stored = true) ∧
            (how = 0 ∨ how = 1 ∨ how = 2 → Harmless s.mask how setp set)) :=
  ⟨fun sig actp oldact copied junk _ => sysRtSigaction_iff free sig actp oldact copied junk,
    fun how setp oldset size copied junk _ =>
      sysRtSigprocmask_iff free how setp oldset size copied junk⟩

/-- A process that blocks `SIGTERM`. -/
def blockingTerm : SignalState := ⟨sigbit sigterm, 0, fun _ => ⟨0, 0, 0⟩, false⟩

/-- A new action unblocks `SIGTERM`, a query with `NULL` blocks what the stack holds, and a failing
copy leaves the lock held. -/
theorem blockingTerm_calls :
    ¬Acted blockingTerm 2 (asked 4096 (some ⟨8192, 0, 0⟩))
      (sysRtSigaction blockingTerm 2 4096 0 (some ⟨8192, 0, 0⟩) ⟨0, 0, 0⟩ true) ∧
    ¬Masked blockingTerm 0 (askedSet 0 none)
      (sysRtSigprocmask blockingTerm 0 0 4096 8 none (sigbit sigint) true) ∧
    ¬Masked blockingTerm 0 (askedSet 0 none)
      (sysRtSigprocmask blockingTerm 0 0 4096 8 none 0 false) := by
  refine ⟨fun acted => ?_, fun masked => ?_, fun masked => ?_⟩
  · exact absurd (acted.sets rfl).1 (by decide)
  · exact absurd (masked.mask rfl) (by decide)
  · exact absurd masked.unlocked (by decide)

/-- Blocking `SIGINT` blocks `SIGINT`. -/
theorem blockingTerm_blocks : Masked blockingTerm 0 (askedSet 4096 (some (sigbit sigint)))
    (sysRtSigprocmask blockingTerm 0 4096 0 8 (some (sigbit sigint)) 0 true) := by
  refine ((signal_calls_exact_iff (s := blockingTerm) rfl).2 0 4096 0 8 _ 0 true).mpr ?_
  intro set variable_eq _
  obtain rfl := Option.some.inj variable_eq
  refine ⟨fun _ => rfl, fun _ => ?_⟩
  rw [Harmless, if_neg (by decide)]
  decide

end Signal
end Xv6Duo
