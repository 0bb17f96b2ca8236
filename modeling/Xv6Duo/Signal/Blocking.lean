import Xv6Duo.Library.GuardedRun
import Xv6Duo.Signal.Machine
import Xv6Duo.Signal.Targets

/-!
# Blocked signals

Neither `send_signal` nor `check_pending_signal` looks at the mask. A signal waits while it is
blocked, and is acted on once afterwards, only as long as nobody sends it to a sleeping process that
blocks it and each return to user mode finds it as the lowest pending signal exactly when it is not
blocked. The log accounts for what became pending and what was acted on.
-/

namespace Xv6Duo
namespace Signal

open Process (ProcState Chan nproc)
open GuardedRun

section Signal

variable (p : Fin nproc) (s : Sig)

/-- The process blocks the signal. -/
def Blocked (k : Kernel) : Prop := Has (k.proc p).mask s

/-- The signal is pending. -/
def Pending (k : Kernel) : Prop := Has (k.proc p).pending s

/-- The process has stopped on the signal, which `handle_signal` has still to clear. -/
def Stopping (k : Kernel) : Prop := (k.proc p).thread = .stopped p s .usertrap

instance (k : Kernel) : Decidable (Blocked p s k) := inferInstanceAs (Decidable (Has _ _))

instance (k : Kernel) : Decidable (Pending p s k) := inferInstanceAs (Decidable (Has _ _))

instance (k : Kernel) : Decidable (Stopping p s k) := inferInstanceAs (Decidable (_ = _))

/-- How often the signal was acted on. -/
def acted (k : Kernel) : Nat := k.log.count (.handled p s)

/-- How often the signal became pending. -/
def arrived (k : Kernel) : Nat := k.log.count (.sent p s)

/-- One occurrence waits. -/
def waiting (k : Kernel) : Nat := if Pending p s k ∧ ¬Stopping p s k then 1 else 0

/-- What sending `sig` must avoid. -/
def CarefulSend (q : Proc) (sig : Sig) : Prop :=
  (q.state = .sleeping ∧ q.paused = false ∧ q.killed = false ∧ sig = s →
      ¬Has q.mask s ∧ disposition q s ≠ .stop) ∧
    (q.state = .sleeping ∧ q.paused = true ∧ (sig = sigterm ∨ sig = sigint ∨ sig = sigkill) →
      s ≠ sigcont ∧ (sig = s → ¬Has q.mask s))

instance (q : Proc) (sig : Sig) : Decidable (CarefulSend s q sig) :=
  inferInstanceAs (Decidable (_ ∧ _))

/-- What a step must avoid. -/
def Careful (k : Kernel) : Call → Prop
  | .usertrap me => me = p → (k.proc p).killed = false →
      ∀ m ∈ lowest (k.proc p), (m = s ↔ Pending p s k ∧ ¬Blocked p s k)
  | .killNext me => ∀ next ∈ (k.proc me).thread.next, next.2.2 = p →
      next.1.selects k me p = true → CarefulSend s (k.proc p) next.2.1
  | _ => True

instance (k : Kernel) : (call : Call) → Decidable (Careful p s k call)
  | .usertrap _ => inferInstanceAs (Decidable (_ → _ → _))
  | .killNext _ => inferInstanceAs (Decidable (∀ next ∈ _, _ → _ → _))
  | .sigaction _ _ _ | .sigprocmask _ _ _ | .sigsuspend _ _ | .ppoll _ | .nap _ _ =>
      inferInstanceAs (Decidable True)
  | .wakeup _ | .kill _ _ _ | .sigreturn _ | .yield _ | .run _ => inferInstanceAs (Decidable True)

/-- The step sends the signal to the process, or is the return to user mode that has to act on
it. -/
def Concerns (k : Kernel) : Call → Prop
  | .usertrap me => me = p ∧ (k.proc p).killed = false ∧ Pending p s k ∧ ¬Blocked p s k
  | .killNext me => ∃ targets, (k.proc me).thread.next = some (targets, s, p)
  | _ => False

/-- The signal waits while it is blocked and is acted on at the next return to user mode. -/
structure Respected (k : Kernel) (call : Call) (after : Kernel) : Prop where
  /-- A blocked signal stays pending. -/
  held : Blocked p s k → Pending p s k → Pending p s after
  /-- It is not acted on. -/
  spared : Blocked p s k → acted p s after = acted p s k
  /-- Sending it while it is blocked neither runs a handler nor kills, stops or continues the
  process: only the pending signals change. -/
  unmoved : ∀ me targets, call = .killNext me → (k.proc me).thread.next = some (targets, s, p) →
    Blocked p s k → SameRun { after.proc p with pending := (k.proc p).pending } (k.proc p)
  /-- Once it is not blocked the next return to user mode acts on it once. -/
  taken : call = .usertrap p → (k.proc p).killed = false → Pending p s k → ¬Blocked p s k →
    acted p s after = acted p s k + 1

/-- Every occurrence waits or was acted on exactly once. -/
def Accounted (start k : Kernel) : Prop :=
  acted p s k + waiting p s k + arrived p s start =
    acted p s start + waiting p s start + arrived p s k

/-! ## Steps that do not concern the signal -/

/-- Nothing happens to the signal. -/
structure Quiet (k after : Kernel) : Prop where
  /-- It is pending or not as before. -/
  pending : Pending p s after ↔ Pending p s k
  /-- It was not acted on. -/
  acted : acted p s after = acted p s k
  /-- It did not arrive. -/
  arrived : arrived p s after = arrived p s k
  /-- Nobody comes to stop on it. -/
  others : ∀ q caller, (after.proc q).thread = .stopped p s caller →
    (k.proc q).thread = .stopped p s caller
  /-- A process that has stopped on it stays so. -/
  self : Stopping p s k → Stopping p s after ∧ (after.proc p).mask = (k.proc p).mask ∧
    (after.proc p).actions = (k.proc p).actions

variable {p s} {k after last : Kernel}

theorem Quiet.refl : Quiet p s k k where
  pending := Iff.rfl
  acted := rfl
  arrived := rfl
  others _ _ stopped := stopped
  self stopping := ⟨stopping, rfl, rfl⟩

theorem Quiet.trans (first : Quiet p s k after) (second : Quiet p s after last) :
    Quiet p s k last where
  pending := second.pending.trans first.pending
  acted := second.acted.trans first.acted
  arrived := second.arrived.trans first.arrived
  others q caller stopped := first.others q caller (second.others q caller stopped)
  self stopping := by
    obtain ⟨stays, mask, actions⟩ := first.self stopping
    obtain ⟨stays', mask', actions'⟩ := second.self stays
    exact ⟨stays', mask'.trans mask, actions'.trans actions⟩

theorem Quiet.stopping_iff (quiet : Quiet p s k after) : Stopping p s after ↔ Stopping p s k :=
  ⟨quiet.others p .usertrap, fun stopping => (quiet.self stopping).1⟩

theorem Quiet.waiting (quiet : Quiet p s k after) : waiting p s after = waiting p s k := by
  simp only [Signal.waiting, quiet.pending, quiet.stopping_iff]

/-- A change of one slot. -/
theorem Quiet.modify {q : Fin nproc} {change : Proc → Proc}
    (pending : q = p → (Has (change (k.proc q)).pending s ↔ Has (k.proc q).pending s))
    (thread : ∀ caller, (change (k.proc q)).thread = .stopped p s caller →
      (k.proc q).thread = .stopped p s caller)
    (self : q = p → Stopping p s k → (change (k.proc q)).thread = (k.proc q).thread ∧
      (change (k.proc q)).mask = (k.proc q).mask ∧
        (change (k.proc q)).actions = (k.proc q).actions) :
    Quiet p s k (k.modify q change) := by
  constructor
  · rw [Pending, Pending]
    by_cases here : q = p
    · rw [← here, modify_self]
      exact pending here
    · rw [modify_of_ne k change (Ne.symm here)]
  · rfl
  · rfl
  · intro r caller stopped
    by_cases here : r = q
    · rw [here, modify_self] at stopped
      rw [here]
      exact thread caller stopped
    · rwa [modify_of_ne k change here] at stopped
  · intro stopping
    rw [Stopping]
    by_cases here : q = p
    · obtain ⟨same_thread, mask, actions⟩ := self here stopping
      rw [← here, modify_self]
      rw [Stopping, ← here] at stopping
      exact ⟨here ▸ same_thread.trans stopping, mask, actions⟩
    · rw [modify_of_ne k change (Ne.symm here)]
      exact ⟨stopping, rfl, rfl⟩

/-- A change of a slot that leaves the signals and the thread alone. -/
theorem Quiet.modify_rest {q : Fin nproc} {change : Proc → Proc}
    (pending : (change (k.proc q)).pending = (k.proc q).pending)
    (thread : (change (k.proc q)).thread = (k.proc q).thread)
    (mask : (change (k.proc q)).mask = (k.proc q).mask)
    (actions : (change (k.proc q)).actions = (k.proc q).actions) :
    Quiet p s k (k.modify q change) :=
  Quiet.modify (fun _ => by rw [pending]) (fun caller stopped => thread ▸ stopped)
    fun _ _ => ⟨thread, mask, actions⟩

/-- A change of the slot of a process that has not stopped on the signal. -/
theorem Quiet.modify_thread {q : Fin nproc} {change : Proc → Proc}
    (before : (k.proc q).thread ≠ .stopped p s .usertrap)
    (pending : (change (k.proc q)).pending = (k.proc q).pending)
    (thread : ∀ caller, (change (k.proc q)).thread ≠ .stopped p s caller) :
    Quiet p s k (k.modify q change) :=
  Quiet.modify (fun _ => by rw [pending]) (fun caller stopped => absurd stopped (thread caller))
    fun here stopping => absurd (here ▸ stopping) before

theorem Quiet.sleep {q : Fin nproc} {chan : Chan} {thread : Thread}
    (before : (k.proc q).thread ≠ .stopped p s .usertrap)
    (going : ∀ caller, thread ≠ .stopped p s caller) :
    Quiet p s k (sleep k q chan thread) := Quiet.modify_thread before rfl going

theorem Quiet.record {event : Event} (not_acted : event ≠ .handled p s)
    (not_arrived : event ≠ .sent p s) : Quiet p s k (k.record event) where
  pending := Iff.rfl
  acted := List.count_cons_of_ne not_acted
  arrived := List.count_cons_of_ne not_arrived
  others _ _ stopped := stopped
  self stopping := ⟨stopping, rfl, rfl⟩

theorem Quiet.wakeup (me : Option (Fin nproc)) (chan : Chan) : Quiet p s k (wakeup k me chan) := by
  have same : ∀ q, ((Signal.wakeup k me chan).proc q).thread = (k.proc q).thread ∧
      ((Signal.wakeup k me chan).proc q).mask = (k.proc q).mask ∧
      ((Signal.wakeup k me chan).proc q).actions = (k.proc q).actions ∧
      ((Signal.wakeup k me chan).proc q).pending = (k.proc q).pending := by
    intro q
    obtain ⟨-, -, -, -, -, actions, mask, pending, thread, -⟩ := wake_fields (k.proc q) chan
    rw [wakeup_proc]
    split
    · exact ⟨rfl, rfl, rfl, rfl⟩
    · exact ⟨thread, mask, actions, pending⟩
  constructor
  · rw [Pending, Pending, (same p).2.2.2]
  · rfl
  · rfl
  · intro q caller stopped
    exact (same q).1 ▸ stopped
  · intro stopping
    exact ⟨(same p).1.trans stopping, (same p).2.1, (same p).2.2.1⟩

theorem Quiet.clear {q : Fin nproc} {m : Sig} (other : ¬(q = p ∧ m = s)) :
    Quiet p s k (clear k q m) := by
  apply Quiet.modify
  · intro here
    rw [has_sigdelset]
    exact ⟨fun both => both.1, fun has => ⟨has, fun same => other ⟨here, same⟩⟩⟩
  · exact fun _ stopped => stopped
  · exact fun _ _ => ⟨rfl, rfl, rfl⟩

/-- Acting on another signal, run by a process outside the stop handler. -/
theorem Quiet.handleSignal {me q : Fin nproc} {m : Sig} {caller : Caller}
    (before : ∀ r m caller, (k.proc me).thread ≠ .stopped r m caller) (other : ¬(q = p ∧ m = s)) :
    Quiet p s k (handleSignal k me q m caller).kernel := by
  have recorded : Quiet p s k (k.record (.handled q m)) := by
    apply Quiet.record
    · rintro ⟨⟩
      exact other ⟨rfl, rfl⟩
    · exact nofun
  rw [Signal.handleSignal]
  split
  · exact Quiet.refl
  · apply recorded.trans
    simp only [record_proc]
    split
    · exact Quiet.clear other
    · refine Quiet.sleep (before p s .usertrap) ?_
      rintro caller' ⟨⟩
      exact other ⟨rfl, rfl⟩
    · exact (Quiet.wakeup _ _).trans (Quiet.clear other)
    · refine Quiet.trans (Quiet.modify_rest ?_ ?_ ?_ ?_) (Quiet.clear other) <;> split <;> rfl
    · exact (Quiet.modify_rest rfl rfl rfl rfl).trans (Quiet.clear other)

theorem Quiet.post {q : Fin nproc} {m : Sig} (other : ¬(q = p ∧ m = s)) :
    Quiet p s k (post k q m) := by
  rw [Signal.post]
  split_ifs
  · exact Quiet.modify_rest rfl rfl rfl rfl
  · refine Quiet.trans (Quiet.modify ?_ (fun _ stopped => stopped) fun _ _ => ⟨rfl, rfl, rfl⟩)
      (Quiet.record (fun same => by cases same) ?_)
    · intro here
      rw [has_sigaddset]
      constructor
      · rintro (has | ⟨-, same⟩)
        · exact has
        · exact absurd ⟨here, same⟩ other
      · exact Or.inl
    · rintro ⟨⟩
      exact other ⟨rfl, rfl⟩
  · exact Quiet.refl

/-- Sending another signal, or to another process. -/
theorem Quiet.sendSignal {me q : Fin nproc} {m : Sig} {caller : Caller}
    (before : ∀ r m caller, (k.proc me).thread ≠ .stopped r m caller) (other : ¬(q = p ∧ m = s))
    (careful : q = p → CarefulSend s (k.proc p) m) :
    Quiet p s k (sendSignal k me q m caller).kernel := by
  obtain ⟨killed, pending, posted, -⟩ := post_self k q m
  have quiet_post : Quiet p s k (Signal.post k q m) := Quiet.post other
  have before_post : ∀ r m' caller, ((Signal.post k q m).proc me).thread ≠
    .stopped r m' caller := by
    intro r m' caller stopped
    by_cases here : me = q
    · rw [here, posted] at stopped
      exact before r m' caller (here ▸ stopped)
    · rw [post_of_ne k m here] at stopped
      exact before r m' caller stopped
  rw [Signal.sendSignal]
  split
  · next asleep =>
      split
      · next leaving =>
          have unpaused : Quiet p s (Signal.post k q m)
              ((Signal.post k q m).modify q fun r => { r with paused := false }) :=
            Quiet.modify_rest rfl rfl rfl rfl
          refine (quiet_post.trans unpaused).trans (Quiet.handleSignal ?_ ?_)
          · intro r m' caller stopped
            by_cases here : me = q
            · rw [here, modify_self] at stopped
              exact before_post r m' caller (here ▸ stopped)
            · rw [modify_of_ne _ _ here] at stopped
              exact before_post r m' caller stopped
          · rintro ⟨here, continued⟩
            rw [posted] at asleep leaving
            subst here
            exact ((careful rfl).2 ⟨asleep, leaving⟩).1 continued.symm
      · split
        · exact quiet_post.trans (Quiet.handleSignal before_post other)
        · exact quiet_post
  · exact quiet_post

/-! ## Acting on the signal -/

/-- What holds between the steps of a careful run. -/
structure Orderly (p : Fin nproc) (s : Sig) (start k : Kernel) : Prop where
  /-- The log is right. -/
  accounted : Accounted p s start k
  /-- Nobody but the process itself stops on the signal. -/
  alone : ∀ q caller, (k.proc q).thread = .stopped p s caller → q = p ∧ caller = .usertrap
  /-- A process that stops on the signal does so by default, and the signal is pending and not
  blocked meanwhile. -/
  stopped : Stopping p s k → disposition (k.proc p) s = .stop ∧ ¬Blocked p s k ∧ Pending p s k

theorem Orderly.quiet {start : Kernel} (orderly : Orderly p s start k)
    (quiet : Quiet p s k after) : Orderly p s start after where
  accounted := by
    have accounted := orderly.accounted
    rwa [Accounted, ← quiet.acted, ← quiet.waiting, ← quiet.arrived] at accounted
  alone q caller stopped := orderly.alone q caller (quiet.others q caller stopped)
  stopped stopping := by
    have before := quiet.stopping_iff.mp stopping
    obtain ⟨stop, unblocked, pending⟩ := orderly.stopped before
    obtain ⟨-, mask, actions⟩ := quiet.self before
    refine ⟨(disposition_congr actions s).trans stop, ?_, quiet.pending.mpr pending⟩
    rw [Blocked, mask]
    exact unblocked

/-- A step that does nothing to the signal respects it. -/
theorem Quiet.respected (quiet : Quiet p s k after) {call : Call} (idle : ¬Concerns p s k call) :
    Respected p s k call after where
  held _ pending := quiet.pending.mpr pending
  spared _ := quiet.acted
  unmoved me targets sends next _ := by
    cases sends
    exact absurd ⟨targets, next⟩ idle
  taken returns alive pending unblocked := by
    cases returns
    exact absurd ⟨rfl, alive, pending, unblocked⟩ idle

theorem waiting_of_not_pending (absent : ¬Pending p s k) : waiting p s k = 0 :=
  if_neg fun both => absent both.1

theorem waiting_of_pending (pending : Pending p s k) (going : ¬Stopping p s k) :
    waiting p s k = 1 := if_pos ⟨pending, going⟩

theorem waiting_of_stopping (stopping : Stopping p s k) : waiting p s k = 0 :=
  if_neg fun both => both.2 stopping

theorem handled_ne_sent : Event.handled p s ≠ .sent p s := nofun

theorem acted_record : acted p s (k.record (.handled p s)) = acted p s k + 1 :=
  List.count_cons_self

theorem arrived_record : arrived p s (k.record (.handled p s)) = arrived p s k :=
  List.count_cons_of_ne handled_ne_sent

/-- The signal itself, acted on by another than the stop handler. -/
theorem handleSignal_acts {me : Fin nproc} {caller : Caller} (positive : 0 < s.val)
    (not_stop : disposition (k.proc p) s ≠ .stop) :
    acted p s (handleSignal k me p s caller).kernel = acted p s k + 1 ∧
      arrived p s (handleSignal k me p s caller).kernel = arrived p s k ∧
      ¬Pending p s (handleSignal k me p s caller).kernel ∧
      ∀ q, ((handleSignal k me p s caller).kernel.proc q).thread = (k.proc q).thread := by
  have cleared : ∀ other : Kernel, ¬Pending p s (clear other p s) := by
    intro other pending
    rw [Pending, clear, modify_self, has_sigdelset] at pending
    exact pending.2 rfl
  have threads : ∀ (other : Kernel) (q : Fin nproc),
      ((clear other p s).proc q).thread = (other.proc q).thread := by
    intro other q
    by_cases here : q = p
    · rw [here, clear, modify_self]
    · rw [clear, modify_of_ne _ _ here]
  rw [handleSignal, if_neg (Nat.ne_of_gt positive)]
  simp only [record_proc]
  split
  · exact ⟨acted_record, arrived_record, cleared _, threads _⟩
  · next stop => exact absurd stop not_stop
  · refine ⟨acted_record, arrived_record, cleared _, fun q => ?_⟩
    rw [Flow.kernel, threads, contHandler, wakeup_proc]
    split
    · rfl
    · exact (wake_fields _ _).2.2.2.2.2.2.2.2.1
  · refine ⟨acted_record, arrived_record, cleared _, fun q => ?_⟩
    rw [Flow.kernel, threads, termHandler]
    by_cases here : q = p
    · rw [here, modify_self]
      split <;> rfl
    · rw [modify_of_ne _ _ here]
      rfl
  · refine ⟨acted_record, arrived_record, cleared _, fun q => ?_⟩
    rw [Flow.kernel, threads, userHandler]
    by_cases here : q = p
    · rw [here, modify_self]
      rfl
    · rw [modify_of_ne _ _ here]
      rfl

/-- An occurrence of the signal is acted on by another than the stop handler. -/
theorem Orderly.handle {start : Kernel} {me : Fin nproc} {caller : Caller}
    (orderly : Orderly p s start k) (positive : 0 < s.val) (pending : Pending p s k)
    (not_stop : disposition (k.proc p) s ≠ .stop) :
    Orderly p s start (handleSignal k me p s caller).kernel := by
  obtain ⟨acts, arrives, gone, threads⟩ := handleSignal_acts (k := k)
    positive not_stop
  have going : ¬Stopping p s k := fun stopping => not_stop (orderly.stopped stopping).1
  constructor
  · have accounted := orderly.accounted
    rw [Accounted, waiting_of_pending pending going] at accounted
    rw [Accounted, acts, arrives, waiting_of_not_pending gone]
    omega
  · exact fun q caller stopped => orderly.alone q caller (threads q ▸ stopped)
  · exact fun stopping => absurd ((threads p).symm.trans stopping) going

/-- The signal arrives, or is pending already. -/
theorem post_arrives (positive : 0 < s.val) (not_kill : s ≠ sigkill) :
    Pending p s (post k p s) ∧ acted p s (post k p s) = acted p s k ∧
      (arrived p s (post k p s) = if Pending p s k then arrived p s k else arrived p s k + 1) ∧
      ∀ q, ((post k p s).proc q).thread = (k.proc q).thread := by
  rw [post, if_neg not_kill]
  split
  · next absent =>
      have absent := (sigismember_eq_zero_iff.mp absent).2
      refine ⟨?_, List.count_cons_of_ne handled_ne_sent.symm, ?_, ?_⟩
      · rw [Pending, record_proc, modify_self, has_sigaddset]
        exact Or.inr ⟨positive, rfl⟩
      · exact List.count_cons_self.trans (if_neg absent).symm
      · intro q
        by_cases here : q = p
        · rw [here, record_proc, modify_self]
        · rw [record_proc, modify_of_ne _ _ here]
  · next present =>
      have pending : Pending p s k := by
        rw [sigismember_eq_zero_iff] at present
        by_contra absent
        exact present ⟨positive, absent⟩
      exact ⟨pending, rfl, (if_pos pending).symm, fun _ => rfl⟩

theorem Orderly.post {start : Kernel} (orderly : Orderly p s start k) (positive : 0 < s.val)
    (not_kill : s ≠ sigkill) : Orderly p s start (post k p s) := by
  obtain ⟨pending, acts, arrives, threads⟩ := post_arrives (p := p) (k := k) positive not_kill
  obtain ⟨killed, set, posted, -⟩ := post_self k p s
  have stopping_iff : Stopping p s (Signal.post k p s) ↔ Stopping p s k := by
    rw [Stopping, Stopping, threads]
  constructor
  · have accounted := orderly.accounted
    rw [Accounted] at accounted ⊢
    rw [acts, arrives, Signal.waiting]
    rw [Signal.waiting] at accounted
    simp only [pending, stopping_iff, true_and]
    have stopped := orderly.stopped
    grind
  · exact fun q caller stopped => orderly.alone q caller (threads q ▸ stopped)
  · intro stopping
    obtain ⟨stop, unblocked, -⟩ := orderly.stopped (stopping_iff.mp stopping)
    rw [Blocked, posted]
    exact ⟨stop, unblocked, pending⟩

/-- A signal that becomes pending changes nothing else in the process. -/
theorem post_same (not_kill : s ≠ sigkill) :
    SameRun { (post k p s).proc p with pending := (k.proc p).pending } (k.proc p) := by
  obtain ⟨killed, set, posted, killed_eq⟩ := post_self k p s
  rw [if_neg not_kill] at killed_eq
  rw [posted, killed_eq]
  exact ⟨rfl, rfl, rfl, rfl, rfl, rfl, rfl⟩

/-- A blocked signal that is sent with care only becomes pending. -/
theorem sendSignal_blocked {me : Fin nproc} {caller : Caller} (not_kill : s ≠ sigkill)
    (careful : CarefulSend s (k.proc p) s) (blocked : Blocked p s k) :
    sendSignal k me p s caller = .returns () (post k p s) := by
  obtain ⟨killed, set, posted, killed_eq⟩ := post_self k p s
  rw [if_neg not_kill] at killed_eq
  rw [sendSignal, posted, killed_eq]
  split
  · next asleep =>
      have awake : ¬((k.proc p).paused = true ∧ (s = sigterm ∨ s = sigint ∨ s = sigkill)) :=
        fun leaving => (careful.2 ⟨asleep, leaving⟩).2 rfl blocked
      have done : ¬(¬(k.proc p).paused = true ∧ ¬(k.proc p).killed = true) := fun acting =>
        (careful.1 ⟨asleep, by simpa using acting.1, by simpa using acting.2, rfl⟩).1 blocked
      rw [if_neg awake, if_neg done]
  · rfl

/-- The signal is sent. -/
theorem Orderly.sendSelf {start : Kernel} {me : Fin nproc} {caller : Caller}
    (orderly : Orderly p s start k)
    (before : ∀ r m caller, (k.proc me).thread ≠ .stopped r m caller)
    (careful : CarefulSend s (k.proc p) s) (positive : 0 < s.val) (not_kill : s ≠ sigkill) :
    Orderly p s start (sendSignal k me p s caller).kernel := by
  by_cases blocked : Blocked p s k
  · rw [sendSignal_blocked not_kill careful blocked]
    exact orderly.post positive not_kill
  obtain ⟨killed, set, posted, killed_eq⟩ := post_self k p s
  obtain ⟨pending, -, -, threads⟩ := post_arrives (p := p) (k := k) positive not_kill
  have orderly_post := orderly.post positive not_kill
  rw [if_neg not_kill] at killed_eq
  rw [sendSignal, posted]
  split
  · next asleep =>
      split
      · next leaving =>
          -- Leaving `pause` acts on `SIGCONT`, which is another signal.
          let unpaused := (Signal.post k p s).modify p fun q => { q with paused := false }
          have other : ¬(p = p ∧ sigcont = s) :=
            fun both => (careful.2 ⟨asleep, leaving⟩).1 both.2.symm
          have quiet : Quiet p s (Signal.post k p s) unpaused := Quiet.modify_rest rfl rfl rfl rfl
          have before_post : ∀ r m caller, (unpaused.proc me).thread ≠ .stopped r m caller := by
            intro r m caller stopped
            have same : (unpaused.proc me).thread = ((Signal.post k p s).proc me).thread := by
              by_cases here : me = p
              · rw [here, modify_self]
              · rw [modify_of_ne _ _ here]
            rw [same, threads] at stopped
            exact before r m caller stopped
          exact orderly_post.quiet (quiet.trans (Quiet.handleSignal before_post other))
      · split
        · next awake =>
            have acting : (k.proc p).state = .sleeping ∧ (k.proc p).paused = false ∧
                (k.proc p).killed = false ∧ s = s :=
              ⟨asleep, by simpa using awake.1, by simpa [killed_eq] using awake.2, rfl⟩
            have not_stop : disposition ((Signal.post k p s).proc p) s ≠ .stop := by
              rw [posted]
              exact (careful.1 acting).2
            exact orderly_post.handle positive pending not_stop
        · exact orderly_post
  · exact orderly_post

/-- The process returns to user mode, where the signal is the one to act on. -/
theorem Orderly.returnSelf {start : Kernel} (orderly : Orderly p s start k) (active : k.Active p)
    (pending : Pending p s k) (unblocked : ¬Blocked p s k) :
    Orderly p s start (handleSignal k p p s .usertrap).kernel ∧
      acted p s (handleSignal k p p s .usertrap).kernel = acted p s k + 1 := by
  have positive := Has.positive pending
  by_cases stop : disposition (k.proc p) s = .stop
  · have going : ¬Stopping p s k := by
      rw [Stopping, active.2]
      exact nofun
    have ended : (handleSignal k p p s .usertrap).kernel =
        stopHandler (k.record (.handled p s)) p p s .usertrap := by
      rw [handleSignal, if_neg (Nat.ne_of_gt positive)]
      simp only [record_proc, stop]
      rfl
    rw [ended]
    have stopping : Stopping p s (stopHandler (k.record (.handled p s)) p p s .usertrap) := by
      rw [Stopping, stopHandler, sleep, modify_self]
    have acts : acted p s (stopHandler (k.record (.handled p s)) p p s .usertrap) =
        acted p s k + 1 := acted_record
    have arrives : arrived p s (stopHandler (k.record (.handled p s)) p p s .usertrap) =
        arrived p s k := arrived_record
    refine ⟨⟨?_, ?_, ?_⟩, acts⟩
    · have accounted := orderly.accounted
      rw [Accounted, waiting_of_pending pending going] at accounted
      rw [Accounted, acts, arrives, waiting_of_stopping stopping]
      omega
    · intro q caller stopped
      by_cases here : q = p
      · rw [here, stopping] at stopped
        cases stopped
        exact ⟨here, rfl⟩
      · rw [stopHandler, sleep, modify_of_ne _ _ here] at stopped
        exact orderly.alone q caller stopped
    · intro _
      rw [Blocked, Pending, stopHandler, sleep, modify_self]
      exact ⟨stop, unblocked, pending⟩
  · exact ⟨orderly.handle positive pending stop, (handleSignal_acts positive stop).1⟩

/-- A process that has stopped on the signal goes on. -/
theorem Orderly.resumeSelf {start : Kernel} {awakened : Proc → Proc}
    (orderly : Orderly p s start k) (stopping : Stopping p s k)
    (thread : (awakened (k.proc p)).thread = .user) :
    Orderly p s start (clear (k.modify p awakened) p s) := by
  have gone : ¬Pending p s (clear (k.modify p awakened) p s) := by
    rw [Pending, clear, modify_self, has_sigdelset]
    exact fun both => both.2 rfl
  have going : ((clear (k.modify p awakened) p s).proc p).thread = .user := by
    rw [clear, modify_self, modify_self]
    exact thread
  constructor
  · have accounted := orderly.accounted
    rw [Accounted, waiting_of_stopping stopping] at accounted
    rw [Accounted, waiting_of_not_pending gone]
    exact accounted
  · intro q caller stopped
    by_cases here : q = p
    · rw [here, going] at stopped
      cases stopped
    · rw [clear, modify_of_ne _ _ here, modify_of_ne _ _ here] at stopped
      exact orderly.alone q caller stopped
  · intro still
    rw [Stopping, going] at still
    cases still

/-! ## Runs -/

theorem active_before {me : Fin nproc} (active : k.Active me) :
    ∀ r m caller, (k.proc me).thread ≠ .stopped r m caller := by
  intro r m caller stopped
  rw [active.2] at stopped
  cases stopped

/-- A quiet step respects the signal and keeps the order. -/
theorem Orderly.of_quiet {start : Kernel} {call : Call} (orderly : Orderly p s start k)
    (quiet : Quiet p s k after) (idle : ¬Concerns p s k call) :
    Orderly p s start after ∧ Respected p s k call after :=
  ⟨orderly.quiet quiet, quiet.respected idle⟩

/-- The return to user mode. -/
theorem Orderly.usertrap {start : Kernel} {me : Fin nproc} (orderly : Orderly p s start k)
    (active : k.Active me) (careful : Careful p s k (.usertrap me)) :
    Orderly p s start (usertrap k me) ∧ Respected p s k (.usertrap me) (usertrap k me) := by
  have before := active_before active
  rw [Signal.usertrap]
  split
  · next killed =>
      apply orderly.of_quiet
      · exact Quiet.modify_rest rfl rfl rfl rfl
      · rintro ⟨rfl, alive, -⟩
        rw [killed] at alive
        cases alive
  · next alive =>
      rw [Bool.not_eq_true] at alive
      rw [checkPendingSignal]
      split
      · next m low =>
          by_cases here : me = p ∧ m = s
          · obtain ⟨rfl, rfl⟩ := here
            obtain ⟨pending, unblocked⟩ := (careful rfl alive m low).mp rfl
            obtain ⟨orderly', acts⟩ := orderly.returnSelf active pending unblocked
            refine ⟨orderly', ?_, ?_, ?_, ?_⟩
            · exact fun blocked => absurd blocked unblocked
            · exact fun blocked => absurd blocked unblocked
            · exact fun _ _ same => by cases same
            · exact fun _ _ _ _ => acts
          · apply orderly.of_quiet
            · exact Quiet.handleSignal before here
            · rintro ⟨rfl, -, waits⟩
              exact here ⟨rfl, (careful rfl alive m low).mpr waits⟩
      · next nothing =>
          apply orderly.of_quiet Quiet.refl
          rintro ⟨rfl, -, pending, -⟩
          have absent := List.find?_eq_none.mp nothing s (List.mem_finRange s)
          exact absent (decide_eq_true pending)

/-- Two steps that leave a process alone but for its pending signals. -/
theorem SameRun.of_pending {q r u : Proc} {first second : SigSet}
    (later : SameRun { q with pending := first } r)
    (earlier : SameRun { r with pending := second } u) :
    SameRun { q with pending := second } u where
  state := later.state.trans earlier.state
  chan := later.chan.trans earlier.chan
  killed := later.killed.trans earlier.killed
  paused := later.paused.trans earlier.paused
  pending := earlier.pending
  xstate := later.xstate.trans earlier.xstate
  trapframe := later.trapframe.trans earlier.trapframe

theorem Thread.next_eq_some {thread : Thread} {targets : Selector} {m : Sig} {q : Fin nproc}
    (next : thread.next = some (targets, m, q)) :
    ∃ rest, thread = .killing targets m (q :: rest) := by
  unfold Thread.next at next
  split at next
  · next rest =>
      cases next
      exact ⟨rest, rfl⟩
  · cases next

/-- The loop of `kill`. -/
theorem Orderly.killNext {start : Kernel} {me : Fin nproc} (orderly : Orderly p s start k)
    (positive : 0 < s.val) (not_kill : s ≠ sigkill) (killing : k.Killing me)
    (careful : Careful p s k (.killNext me)) :
    Orderly p s start (killNext k me) ∧ Respected p s k (.killNext me) (killNext k me) := by
  have before : ∀ r m caller, (k.proc me).thread ≠ .stopped r m caller := by
    intro r m caller stopped
    have inside := killing.2
    rw [stopped] at inside
    cases inside
  rw [Signal.killNext]
  split
  · next targets m q rest thread =>
      let moved := k.modify me fun r => { r with thread := .killing targets m rest }
      have quiet : Quiet p s k moved := Quiet.modify_thread (before p s .usertrap) rfl
        (fun _ stopped => by cases stopped)
      have ids : ∀ r, (moved.proc r).pid = (k.proc r).pid ∧
          (moved.proc r).pgid = (k.proc r).pgid := by
        intro r
        by_cases here : r = me
        · rw [here, modify_self]
          exact ⟨rfl, rfl⟩
        · rw [modify_of_ne _ _ here]
          exact ⟨rfl, rfl⟩
      have before_moved : ∀ r m caller, (moved.proc me).thread ≠ .stopped r m caller := by
        intro r m caller
        rw [modify_self]
        intro stopped
        cases stopped
      have next : (k.proc me).thread.next = some (targets, m, q) := by rw [thread]; rfl
      have idle : ¬(q = p ∧ m = s) → ¬Concerns p s k (.killNext me) := by
        rintro other ⟨targets', sent⟩
        cases next.symm.trans sent
        exact other ⟨rfl, rfl⟩
      have same : SameRun { moved.proc p with pending := (k.proc p).pending } (k.proc p) := by
        by_cases own : p = me
        · rw [own, modify_self]
          exact ⟨rfl, rfl, rfl, rfl, rfl, rfl, rfl⟩
        · rw [modify_of_ne _ _ own]
          exact ⟨rfl, rfl, rfl, rfl, rfl, rfl, rfl⟩
      simp only
      split
      · next selected =>
          have careful_moved : q = p → CarefulSend s (moved.proc p) m := by
            rintro rfl
            have careful_here := careful (targets, m, q) next rfl
              ((selects_congr ids q).symm.trans selected)
            by_cases here : q = me
            · subst here
              rw [modify_self]
              exact careful_here
            · rw [modify_of_ne _ _ here]
              exact careful_here
          by_cases here : q = p ∧ m = s
          · obtain ⟨rfl, rfl⟩ := here
            have sent (blocked : Blocked q m k) :
                (sendSignal moved me q m (.kill targets m rest)).kernel = Signal.post moved
                  q m := by
              have blocked_moved : Blocked q m moved := by
                rw [Blocked]
                by_cases own : q = me
                · subst own
                  rw [modify_self]
                  exact blocked
                · rw [modify_of_ne _ _ own]
                  exact blocked
              rw [sendSignal_blocked not_kill (careful_moved rfl) blocked_moved, Flow.kernel]
            obtain ⟨arrived, acts, -, -⟩ := post_arrives (p := q) (k := moved) positive not_kill
            refine ⟨(orderly.quiet quiet).sendSelf before_moved (careful_moved rfl) positive
              not_kill, ?_, ?_, ?_, ?_⟩
            · intro blocked _
              rw [sent blocked]
              exact arrived
            · intro blocked
              rw [sent blocked]
              exact acts.trans quiet.acted
            · intro _ _ _ _ blocked
              rw [sent blocked]
              exact (post_same not_kill).of_pending same
            · exact fun returns => by cases returns
          · exact orderly.of_quiet (quiet.trans (Quiet.sendSignal before_moved here careful_moved))
              (idle here)
      · refine ⟨orderly.quiet quiet, fun _ pending => quiet.pending.mpr pending,
          fun _ => quiet.acted, fun _ _ _ _ _ => same, fun returns => by cases returns⟩
  · next other =>
      refine orderly.of_quiet (Quiet.modify_thread (before p s .usertrap) rfl
        (fun _ stopped => by cases stopped)) ?_
      rintro ⟨targets, sent⟩
      obtain ⟨rest, thread⟩ := Thread.next_eq_some sent
      exact other _ _ _ _ thread

/-- A process that was asleep or lost the processor goes on. -/
theorem Orderly.resume {start : Kernel} {me : Fin nproc} (orderly : Orderly p s start k) :
    Orderly p s start (resume k me) ∧ Respected p s k (.run me) (resume k me) := by
  have idle : ¬Concerns p s k (.run me) := id
  rw [Signal.resume]
  split
  · exact orderly.of_quiet (Quiet.modify_rest rfl rfl rfl rfl) idle
  · exact orderly.of_quiet (Quiet.modify_rest rfl rfl rfl rfl) idle
  · next thread =>
      have up : (k.proc me).thread ≠ .stopped p s .usertrap := by
        rw [thread]
        intro stopped
        cases stopped
      exact orderly.of_quiet (Quiet.modify_thread up rfl (fun _ stopped => by cases stopped)) idle
  · next thread =>
      have up : (k.proc me).thread ≠ .stopped p s .usertrap := by
        rw [thread]
        intro stopped
        cases stopped
      exact orderly.of_quiet (Quiet.modify_thread up rfl (fun _ stopped => by cases stopped)) idle
  · next thread =>
      have up : (k.proc me).thread ≠ .stopped p s .usertrap := by
        rw [thread]
        intro stopped
        cases stopped
      exact orderly.of_quiet (Quiet.modify_thread up rfl (fun _ stopped => by cases stopped)) idle
  · next q m thread =>
      by_cases here : q = p ∧ m = s
      · obtain ⟨rfl, rfl⟩ := here
        obtain ⟨rfl, -⟩ := orderly.alone me _ thread
        have unblocked := (orderly.stopped thread).2.1
        refine ⟨orderly.resumeSelf thread rfl, ?_, ?_, ?_, ?_⟩
        · exact fun blocked => absurd blocked unblocked
        · exact fun blocked => absurd blocked unblocked
        · exact fun _ _ same => by cases same
        · exact fun same => by cases same
      · refine orderly.of_quiet (Quiet.trans ?_ (Quiet.clear here)) idle
        refine Quiet.modify_thread ?_ rfl (fun _ stopped => by cases stopped)
        rw [thread]
        rintro ⟨⟩
        exact here ⟨rfl, rfl⟩
  · next q m targets other rest thread =>
      have here : ¬(q = p ∧ m = s) := by
        rintro ⟨rfl, rfl⟩
        cases (orderly.alone me _ thread).2
      refine orderly.of_quiet (Quiet.trans ?_ (Quiet.clear here)) idle
      have up : (k.proc me).thread ≠ .stopped p s .usertrap := by
        rw [thread]
        intro stopped
        cases stopped
      exact Quiet.modify_thread up rfl (fun _ stopped => by cases stopped)

/-- One careful step. -/
theorem Orderly.step {start : Kernel} {call : Call} (orderly : Orderly p s start k)
    (positive : 0 < s.val) (not_kill : s ≠ sigkill) (enabled : Enabled k call)
    (careful : Careful p s k call) (runs : step k call = .ok after) :
    Orderly p s start after ∧ Respected p s k call after := by
  cases call with
  | sigaction me m act =>
      cases runs
      refine orderly.of_quiet (Quiet.modify_thread (active_before enabled p s _) ?_ ?_)
        id
      · rw [sigaction]
        split_ifs <;> rfl
      · have same : (sigaction (k.proc me) m act).2.thread = (k.proc me).thread := by
          rw [sigaction]
          split_ifs <;> rfl
        rw [same]
        exact active_before enabled p s
  | sigprocmask me how set =>
      cases runs
      refine orderly.of_quiet (Quiet.modify_thread (active_before enabled p s _) ?_ ?_)
        id
      · rw [sigprocmask]
        split_ifs <;> rfl
      · have same : (sigprocmask (k.proc me) how set).2.thread = (k.proc me).thread := by
          rw [sigprocmask]
          split_ifs <;> rfl
        rw [same]
        exact active_before enabled p s
  | sigsuspend me mask =>
      cases runs
      have first : Quiet p s k (k.modify me fun q =>
          { q with paused := true, mask := sigdelset (sigdelset mask sigkill) sigstop }) :=
        Quiet.modify_thread (active_before enabled p s _) rfl (active_before enabled p s)
      refine orderly.of_quiet (first.trans (Quiet.sleep ?_ (fun _ stopped => by cases stopped)))
        id
      rw [modify_self]
      exact active_before enabled p s _
  | ppoll me =>
      cases runs
      have first : Quiet p s k (k.modify me fun q => { q with paused := true }) :=
        Quiet.modify_thread (active_before enabled p s _) rfl (active_before enabled p s)
      refine orderly.of_quiet (first.trans (Quiet.sleep ?_ (fun _ stopped => by cases stopped)))
        id
      rw [modify_self]
      exact active_before enabled p s _
  | nap me chan =>
      cases runs
      exact orderly.of_quiet (Quiet.sleep (active_before enabled p s _)
        (fun _ stopped => by cases stopped)) id
  | wakeup chan =>
      cases runs
      exact orderly.of_quiet (Quiet.wakeup none chan) id
  | kill me pid m =>
      cases runs
      rw [startKill]
      split
      · exact orderly.of_quiet (Quiet.modify_thread (active_before enabled.1 p s _) rfl
          (fun _ stopped => by cases stopped)) id
      · exact orderly.of_quiet Quiet.refl id
  | killNext me =>
      cases runs
      exact orderly.killNext positive not_kill enabled careful
  | sigreturn me =>
      rw [Signal.step, sigreturn] at runs
      split at runs
      · cases runs
      · cases runs
        exact orderly.of_quiet (Quiet.modify_rest rfl rfl rfl rfl) id
  | usertrap me =>
      cases runs
      exact orderly.usertrap enabled careful
  | yield me =>
      cases runs
      exact orderly.of_quiet (Quiet.modify_rest rfl rfl rfl rfl) id
  | run me =>
      cases runs
      exact orderly.resume

end Signal

/-- Two processes that run. -/
def pair : Kernel := table [program 1, program 2]

end Signal
end Xv6Duo
