import Xv6Duo.Signal.Blocking

/-!
# Return from a signal handler

`user_handler` replaces the program counter in the trapframe without saving the old one: nothing in
the source assigns the pointer `oldtf` that `sigreturn` copies the trapframe from. So `sigreturn`
never gets to its end.
-/

namespace Xv6Duo
namespace Signal

open Process (ProcState Chan nproc)
open GuardedRun

/-- No slot has a saved trapframe, as in the table of zeros at boot. -/
def Unsaved (k : Kernel) : Prop := ∀ q, (k.proc q).oldtf = none

/-- `sigreturn` in the state `later` brings back the trapframe of the state `before`. -/
def Restores (before later : Kernel) (p : Fin nproc) : Prop :=
  ∃ final, sigreturn later p = .ok final ∧ (final.proc p).trapframe = (before.proc p).trapframe

section Frames

variable {k after : Kernel}

theorem Unsaved.modify (unsaved : Unsaved k) {p : Fin nproc} {change : Proc → Proc}
    (same : (change (k.proc p)).oldtf = (k.proc p).oldtf) : Unsaved (k.modify p change) := by
  intro q
  by_cases here : q = p
  · rw [here, modify_self, same]
    exact unsaved p
  · rw [modify_of_ne k change here]
    exact unsaved q

theorem Unsaved.wakeup (unsaved : Unsaved k) (me : Option (Fin nproc)) (chan : Chan) :
    Unsaved (wakeup k me chan) := by
  intro q
  rw [wakeup_proc]
  split
  · exact unsaved q
  · exact (wake_fields (k.proc q) chan).2.2.2.2.2.2.2.2.2.trans (unsaved q)

theorem Unsaved.clear (unsaved : Unsaved k) (p : Fin nproc) (sig : Sig) :
    Unsaved (clear k p sig) := unsaved.modify rfl

theorem Unsaved.sleep (unsaved : Unsaved k) (me : Fin nproc) (chan : Chan) (thread : Thread) :
    Unsaved (sleep k me chan thread) := unsaved.modify rfl

theorem Unsaved.handleSignal (unsaved : Unsaved k) (me p : Fin nproc) (sig : Sig)
    (caller : Caller) : Unsaved (handleSignal k me p sig caller).kernel := by
  have recorded : Unsaved (k.record (.handled p sig)) := unsaved
  rw [Signal.handleSignal]
  split
  · exact unsaved
  · simp only
    split
    · exact recorded.clear p sig
    · exact recorded.sleep me (.proc p) (.stopped p sig caller)
    · exact (recorded.wakeup (some me) (.proc p)).clear p sig
    · apply Unsaved.clear
      apply recorded.modify
      split <;> rfl
    · apply Unsaved.clear
      rw [userHandler]
      exact recorded.modify rfl

theorem Unsaved.post (unsaved : Unsaved k) (p : Fin nproc) (sig : Sig) :
    Unsaved (post k p sig) := by
  rw [Signal.post]
  split_ifs
  · exact unsaved.modify rfl
  · have added : Unsaved (k.modify p fun q => { q with pending := sigaddset q.pending sig }) :=
      unsaved.modify rfl
    exact added
  · exact unsaved

theorem Unsaved.sendSignal (unsaved : Unsaved k) (me p : Fin nproc) (sig : Sig)
    (caller : Caller) : Unsaved (sendSignal k me p sig caller).kernel := by
  have posted := unsaved.post p sig
  rw [Signal.sendSignal]
  split
  · split
    · exact Unsaved.handleSignal (posted.modify rfl) me p sigcont caller
    · split
      · exact posted.handleSignal me p sig caller
      · exact posted
  · exact posted

/-- No call saves a trapframe. -/
theorem Unsaved.step (unsaved : Unsaved k) {call : Call} (runs : step k call = .ok after) :
    Unsaved after := by
  cases call with
  | sigaction me sig act =>
      cases runs
      apply unsaved.modify
      rw [sigaction]
      split_ifs <;> rfl
  | sigprocmask me how set =>
      cases runs
      apply unsaved.modify
      rw [sigprocmask]
      split_ifs <;> rfl
  | sigsuspend me mask =>
      cases runs
      apply Unsaved.sleep
      exact unsaved.modify rfl
  | ppoll me =>
      cases runs
      apply Unsaved.sleep
      exact unsaved.modify rfl
  | nap me chan =>
      cases runs
      exact unsaved.sleep me chan .nap
  | wakeup chan =>
      cases runs
      exact unsaved.wakeup none chan
  | kill me pid sig =>
      cases runs
      rw [startKill]
      split
      · exact unsaved.modify rfl
      · exact unsaved
  | killNext me =>
      cases runs
      rw [killNext]
      split
      · next targets sig p rest thread =>
          have moved :
            Unsaved (k.modify me fun q => { q with thread := .killing targets sig rest }) :=
            unsaved.modify rfl
          simp only
          split
          · exact moved.sendSignal me p sig (.kill targets sig rest)
          · exact moved
      · exact unsaved.modify rfl
  | sigreturn me =>
      rw [Signal.step, sigreturn, unsaved me] at runs
      cases runs
  | usertrap me =>
      cases runs
      rw [usertrap]
      split
      · exact unsaved.modify rfl
      · rw [checkPendingSignal]
        split
        · exact unsaved.handleSignal me me _ .usertrap
        · exact unsaved
  | yield me =>
      cases runs
      exact unsaved.modify rfl
  | run me =>
      cases runs
      rw [resume]
      split
      · exact unsaved.modify rfl
      · exact unsaved.modify rfl
      · exact unsaved.modify rfl
      · exact unsaved.modify rfl
      · exact unsaved.modify rfl
      · apply Unsaved.clear
        exact unsaved.modify rfl
      · apply Unsaved.clear
        exact unsaved.modify rfl

theorem Unsaved.reaches (unsaved : Unsaved k) (run : Reaches Enabled Signal.step k after) :
    Unsaved after :=
  run.invariant Unsaved unsaved fun unsaved _ runs => unsaved.step runs

/-- Without a saved trapframe `sigreturn` faults. -/
theorem Unsaved.not_restores (unsaved : Unsaved k) (before : Kernel) (p : Fin nproc) :
    ¬Restores before k p := by
  rintro ⟨final, returned, -⟩
  rw [sigreturn, unsaved p] at returned
  cases returned

end Frames

/-- A user handler is entered. -/
theorem handleSignal_enters {k entered : Kernel} {me p : Fin nproc} {sig : Sig} {caller : Caller}
    (positive : 0 < sig.val) (user : disposition (k.proc p) sig = .user)
    (enters : handleSignal k me p sig caller = .returns () entered) :
    (entered.proc p).trapframe epc = ((k.proc p).actions sig).saHandler := by
  rw [handleSignal, if_neg (Nat.ne_of_gt positive)] at enters
  simp only [record_proc, user] at enters
  cases enters
  rw [clear, modify_self, userHandler, modify_self]
  exact Function.update_self epc ((k.proc p).actions sig).saHandler (k.proc p).trapframe

/-- Whenever a signal with a user handler is acted on, the handler is entered, and whatever signals
follow, no `sigreturn` brings back the registers that it interrupted. -/
theorem handler_never_restored {start k entered later : Kernel} {me p : Fin nproc} {sig : Sig}
    {caller : Caller} (unsaved : Unsaved start) (reaches : Reaches Enabled step start k)
    (positive : 0 < sig.val) (user : disposition (k.proc p) sig = .user)
    (enters : handleSignal k me p sig caller = .returns () entered)
    (further : Reaches Enabled step entered later) :
    (entered.proc p).trapframe epc = ((k.proc p).actions sig).saHandler ∧ ¬Restores k later p := by
  have unsaved_entered : Unsaved entered := by
    have kept := (unsaved.reaches reaches).handleSignal me p sig caller
    rwa [enters] at kept
  exact ⟨handleSignal_enters positive user enters,
    (unsaved_entered.reaches further).not_restores k p⟩

/-- A process that catches `SIGINT`. -/
def catching : Kernel :=
  pair.modify first fun q => (sigaction q sigint ⟨4096, 0, 0⟩).2

/-- Its handler is entered at its address and does not come back. -/
theorem catching_never_restored :
    (((handleSignal catching first first sigint .usertrap).kernel.proc first).trapframe
      epc = 4096) ∧
      ¬Restores catching (handleSignal catching first first sigint .usertrap).kernel first := by
  have unsaved : Unsaved catching := by
    have nobody : Unsaved pair := by
      rw [Unsaved]
      intro q
      rw [pair, table]
      match q with
      | ⟨0, _⟩ => rfl
      | ⟨1, _⟩ => rfl
      | ⟨_ + 2, _⟩ => rfl
    have runs : step pair (.sigaction first sigint ⟨4096, 0, 0⟩) = .ok catching := rfl
    exact nobody.step runs
  have returned : handleSignal catching first first sigint .usertrap =
      .returns () (handleSignal catching first first sigint .usertrap).kernel := rfl
  have never := handler_never_restored unsaved .refl (by decide) (by decide) returned .refl
  exact ⟨never.1.trans rfl, never.2⟩

/-- A process catches `SIGINT`, which another one sends. -/
def caught : List Call :=
  [.sigaction first sigint ⟨4096, 0, 0⟩, .kill second 1 sigint, .killNext second, .usertrap first]

/-- The handler is entered, and its `sigreturn` reads through the null pointer. -/
theorem caught_not_restored : ∃ k, Reaches Enabled step pair k ∧
    (k.proc first).trapframe epc = 4096 ∧ Enabled k (.sigreturn first) ∧
    step k (.sigreturn first) = .error .badPointer ∧ ∀ before, ¬Restores before k first := by
  obtain ⟨k, reaches, test⟩ := exists_reaches_of_replay Enabled step pair caught
    (fun k => decide ((k.proc first).trapframe epc = 4096) &&
      decide (Enabled k (.sigreturn first)) && (k.proc first).oldtf.isNone) (by decide +kernel)
  simp only [Bool.and_eq_true, decide_eq_true_eq, Option.isNone_iff_eq_none] at test
  obtain ⟨⟨entered, enabled⟩, unsaved⟩ := test
  have faults : step k (.sigreturn first) = .error .badPointer := by
    rw [step, sigreturn, unsaved]
  refine ⟨k, reaches, entered, enabled, faults, ?_⟩
  rintro before ⟨final, returned, -⟩
  rw [step, returned] at faults
  cases faults

end Signal
end Xv6Duo
