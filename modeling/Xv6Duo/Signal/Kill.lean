import Xv6Duo.Signal.Model

/-!
# Whom `kill` reaches

`kill` visits the slots in order. A default action runs in the caller, so it can change other slots
than the one visited: the stop handler puts the caller to sleep, and the continue handler wakes
every process on the channel of the target. What happens to each slot is computed here from the
table before the call.
-/

namespace Xv6Duo
namespace Signal

open Process (ProcState Chan nproc)

/-! ## Slots -/

@[simp]
theorem modify_self (k : Kernel) (p : Fin nproc) (change : Proc → Proc) :
    (k.modify p change).proc p = change (k.proc p) :=
  Function.update_self ..

theorem modify_of_ne (k : Kernel) {p q : Fin nproc} (change : Proc → Proc) (differs : q ≠ p) :
    (k.modify p change).proc q = k.proc q :=
  Function.update_of_ne differs ..

@[simp]
theorem record_proc (k : Kernel) (event : Event) : (k.record event).proc = k.proc := rfl

theorem wakeup_proc (k : Kernel) (me : Option (Fin nproc)) (chan : Chan) (q : Fin nproc) :
    (wakeup k me chan).proc q = if some q = me then k.proc q else wake (k.proc q) chan := rfl

/-- Waking a process changes nothing but its state. -/
theorem wake_fields (q : Proc) (chan : Chan) :
    (wake q chan).chan = q.chan ∧ (wake q chan).killed = q.killed ∧
      (wake q chan).paused = q.paused ∧ (wake q chan).pid = q.pid ∧ (wake q chan).pgid = q.pgid ∧
      (wake q chan).actions = q.actions ∧ (wake q chan).mask = q.mask ∧
      (wake q chan).pending = q.pending ∧ (wake q chan).thread = q.thread ∧
      (wake q chan).oldtf = q.oldtf := by
  rw [wake]
  split <;> simp

/-! ## What one signal does -/

/-- The signal runs the stop handler when it is sent. -/
def Stops (q : Proc) (sig : Sig) : Prop :=
  q.state = .sleeping ∧ q.paused = false ∧ q.killed = false ∧ sig ≠ sigkill ∧
    disposition q sig = .stop

/-- The signal runs the continue handler when it is sent. -/
def Continues (q : Proc) (sig : Sig) : Prop :=
  q.state = .sleeping ∧
    (q.paused = true ∧ (sig = sigterm ∨ sig = sigint ∨ sig = sigkill) ∧
        disposition q sigcont = .cont ∨
      q.paused = false ∧ q.killed = false ∧ sig ≠ sigkill ∧ disposition q sig = .cont)

instance (q : Proc) (sig : Sig) : Decidable (Stops q sig) := inferInstanceAs (Decidable (_ ∧ _))

instance (q : Proc) (sig : Sig) : Decidable (Continues q sig) :=
  inferInstanceAs (Decidable (_ ∧ _))

theorem defaultAction_stop {sig : Sig} (stop : defaultAction sig = .stop) :
    sig ≠ sigterm ∧ sig ≠ sigint ∧ sig ≠ sigkill ∧ sig ≠ sigcont := by
  revert sig
  decide

theorem defaultAction_cont {sig : Sig} (cont : defaultAction sig = .cont) : sig = sigcont := by
  revert sig
  decide

theorem disposition_stop {q : Proc} {sig : Sig} (stop : disposition q sig = .stop) :
    sig ≠ sigterm ∧ sig ≠ sigint ∧ sig ≠ sigkill ∧ sig ≠ sigcont := by
  rw [disposition] at stop
  split_ifs at stop
  exact defaultAction_stop stop

theorem disposition_cont {q : Proc} {sig : Sig} (cont : disposition q sig = .cont) :
    sig = sigcont := by
  rw [disposition] at cont
  split_ifs at cont
  exact defaultAction_cont cont

/-- A signal that stops anybody continues nobody. -/
theorem Stops.not_continues {p q : Proc} {sig : Sig} (stops : Stops p sig) : ¬Continues q sig := by
  obtain ⟨not_term, not_int, not_kill, not_cont⟩ := disposition_stop stops.2.2.2.2
  rintro ⟨-, ⟨-, which, -⟩ | ⟨-, -, -, cont⟩⟩
  · rcases which with same | same | same
    · exact not_term same
    · exact not_int same
    · exact not_kill same
  · exact not_cont (disposition_cont cont)

/-- What sending a signal to `p` leaves when it returns. -/
structure Sent (k : Kernel) (me p : Fin nproc) (sig : Sig) (after : Kernel) : Prop where
  /-- Only the continue handler reaches other slots. -/
  other : ∀ q, q ≠ p → after.proc q =
    if Continues (k.proc p) sig ∧ q ≠ me then wake (k.proc q) (.proc p) else k.proc q
  /-- The ids of the target stay. -/
  ids : (after.proc p).pid = (k.proc p).pid ∧ (after.proc p).pgid = (k.proc p).pgid
  /-- `SIGKILL` marks the target, and wakes it only by the continue handler. -/
  kill : sig = sigkill → (after.proc p).killed = true ∧ (after.proc p).chan = (k.proc p).chan ∧
    (after.proc p).state =
      if Continues (k.proc p) sig ∧ p ≠ me then (wake (k.proc p) (.proc p)).state
      else (k.proc p).state

theorem post_of_ne (k : Kernel) {p q : Fin nproc} (sig : Sig) (differs : q ≠ p) :
    (post k p sig).proc q = k.proc q := by
  rw [post]
  split_ifs
  · exact modify_of_ne k _ differs
  · rw [record_proc, modify_of_ne k _ differs]
  · rfl

/-- The first part of `send_signal` changes the mark and the pending signals of the target. -/
theorem post_self (k : Kernel) (p : Fin nproc) (sig : Sig) :
    ∃ killed pending, (post k p sig).proc p =
      { k.proc p with killed := killed, pending := pending } ∧
      killed = if sig = sigkill then true else (k.proc p).killed := by
  rw [post]
  split_ifs with is_kill absent
  · exact ⟨true, (k.proc p).pending, modify_self k p _, rfl⟩
  · rw [record_proc, modify_self]
    exact ⟨(k.proc p).killed, sigaddset (k.proc p).pending sig, rfl, rfl⟩
  · exact ⟨(k.proc p).killed, (k.proc p).pending, rfl, rfl⟩

/-- `handle_signal` that returns: other slots. -/
theorem handleSignal_other {k after : Kernel} {me p q : Fin nproc} {sig : Sig} {caller : Caller}
    (positive : 0 < sig.val) (returned : handleSignal k me p sig caller = .returns () after)
    (differs : q ≠ p) : after.proc q =
      if disposition (k.proc p) sig = .cont ∧ q ≠ me then wake (k.proc q) (.proc p)
      else k.proc q := by
  rw [handleSignal, if_neg (Nat.ne_of_gt positive)] at returned
  simp only [record_proc] at returned
  split at returned
  · next ignored =>
      cases returned
      rw [clear, modify_of_ne _ _ differs, record_proc, ignored]
      rfl
  · cases returned
  · next cont =>
      cases returned
      rw [clear, modify_of_ne _ _ differs, contHandler, wakeup_proc, record_proc, cont]
      simp
  · next term =>
      cases returned
      rw [clear, modify_of_ne _ _ differs, termHandler, modify_of_ne _ _ differs, record_proc, term]
      rfl
  · next user =>
      cases returned
      rw [clear, modify_of_ne _ _ differs, userHandler, modify_of_ne _ _ differs, record_proc, user]
      rfl

/-- `handle_signal` that returns: the slot itself. -/
theorem handleSignal_self {k after : Kernel} {me p : Fin nproc} {sig : Sig} {caller : Caller}
    (positive : 0 < sig.val) (returned : handleSignal k me p sig caller = .returns () after) :
    (after.proc p).pid = (k.proc p).pid ∧ (after.proc p).pgid = (k.proc p).pgid ∧
      (disposition (k.proc p) sig ≠ .term →
        (after.proc p).killed = (k.proc p).killed ∧ (after.proc p).chan = (k.proc p).chan ∧
        (after.proc p).state =
          if disposition (k.proc p) sig = .cont ∧ p ≠ me then (wake (k.proc p) (.proc p)).state
          else (k.proc p).state) := by
  rw [handleSignal, if_neg (Nat.ne_of_gt positive)] at returned
  simp only [record_proc] at returned
  split at returned
  · next ignored =>
      cases returned
      simp [clear, ignored]
  · cases returned
  · next cont =>
      cases returned
      obtain ⟨chan, killed, -, pid, pgid, -⟩ := wake_fields (k.proc p) (.proc p)
      simp only [clear, contHandler, modify_self, wakeup_proc, record_proc, cont, Option.some.injEq]
      split_ifs <;> simp_all
  · next term =>
      cases returned
      simp only [clear, termHandler, modify_self, record_proc, term]
      split_ifs <;> simp_all
  · next user =>
      cases returned
      simp [clear, userHandler, user]

theorem handleSignal_sleeps_iff {k : Kernel} {me p : Fin nproc} {sig : Sig} {caller : Caller}
    (positive : 0 < sig.val) :
    (∃ after, handleSignal k me p sig caller = .sleeps after) ↔
      disposition (k.proc p) sig = .stop := by
  rw [handleSignal, if_neg (Nat.ne_of_gt positive)]
  simp only [record_proc]
  split <;> simp_all

theorem Flow.returns_or_sleeps {α : Type} (flow : Flow α) :
    (∃ value k, flow = .returns value k) ∨ ∃ k, flow = .sleeps k := by
  cases flow with
  | returns value k => exact Or.inl ⟨value, k, rfl⟩
  | sleeps k => exact Or.inr ⟨k, rfl⟩

/-- The continue signal never stops. -/
theorem disposition_sigcont (q : Proc) : disposition q sigcont ≠ .stop :=
  fun stop => (disposition_stop stop).2.2.2 rfl

theorem disposition_congr {q r : Proc} (same : q.actions = r.actions) (sig : Sig) :
    disposition q sig = disposition r sig := by
  rw [disposition, disposition, same]

/-- A sent signal that `handle_signal` acts on as `acted` leaves what `Sent` says. -/
theorem Sent.of_handled {k posted after : Kernel} {me p : Fin nproc} {sig acted : Sig}
    {caller : Caller} (positive : 0 < acted.val)
    (returned : handleSignal posted me p acted caller = .returns () after)
    (others : ∀ q, q ≠ p → posted.proc q = k.proc q)
    (self : (posted.proc p).pid = (k.proc p).pid ∧ (posted.proc p).pgid = (k.proc p).pgid ∧
      (posted.proc p).chan = (k.proc p).chan ∧ (posted.proc p).state = (k.proc p).state ∧
      (posted.proc p).actions = (k.proc p).actions)
    (continues : Continues (k.proc p) sig ↔ disposition (k.proc p) acted = .cont)
    (kill : sig = sigkill → (posted.proc p).killed = true ∧ disposition (k.proc p) acted ≠ .term) :
    Sent k me p sig after := by
  obtain ⟨pid, pgid, chan, state, actions⟩ := self
  have same := disposition_congr actions acted
  obtain ⟨after_pid, after_pgid, after_self⟩ := handleSignal_self positive returned
  constructor
  · intro q differs
    rw [handleSignal_other positive returned differs, same, others q differs]
    simp only [continues]
  · exact ⟨after_pid.trans pid, after_pgid.trans pgid⟩
  · intro is_kill
    obtain ⟨killed, not_term⟩ := kill is_kill
    rw [← same] at not_term
    obtain ⟨after_killed, after_chan, after_state⟩ := after_self not_term
    have woken : (wake (posted.proc p) (.proc p)).state = (wake (k.proc p) (.proc p)).state := by
      rw [wake, wake, state, chan]
      split_ifs
      · rfl
      · exact state
    rw [same, woken, state] at after_state
    refine ⟨after_killed.trans killed, after_chan.trans chan, after_state.trans ?_⟩
    simp only [continues]

/-- A signal that is not acted on when it is sent. -/
theorem Sent.of_posted {k : Kernel} {me p : Fin nproc} {sig : Sig}
    (quiet : ¬Continues (k.proc p) sig) : Sent k me p sig (post k p sig) := by
  obtain ⟨killed, pending, posted, killed_eq⟩ := post_self k p sig
  constructor
  · intro q differs
    rw [post_of_ne k sig differs, if_neg fun both => quiet both.1]
  · rw [posted]
    exact ⟨rfl, rfl⟩
  · intro is_kill
    rw [posted, if_neg fun both => quiet both.1]
    exact ⟨killed_eq.trans (if_pos is_kill), rfl, rfl⟩

/-- A sent signal either runs the stop handler or returns. -/
theorem sendSignal_cases (k : Kernel) (me p : Fin nproc) {sig : Sig} (caller : Caller)
    (positive : 0 < sig.val) :
    (Stops (k.proc p) sig ∧ ∃ after, sendSignal k me p sig caller = .sleeps after) ∨
      ¬Stops (k.proc p) sig ∧
        ∃ after, sendSignal k me p sig caller = .returns () after ∧ Sent k me p sig after := by
  obtain ⟨killed, pending, posted, killed_eq⟩ := post_self k p sig
  have others : ∀ q, q ≠ p → (post k p sig).proc q = k.proc q :=
    fun q differs => post_of_ne k sig differs
  simp only [sendSignal, posted]
  by_cases asleep : (k.proc p).state = .sleeping
  · rw [if_pos asleep]
    by_cases leaving : (k.proc p).paused = true ∧ (sig = sigterm ∨ sig = sigint ∨ sig = sigkill)
    · -- `pause` ends by the action of `SIGCONT`.
      rw [if_pos leaving]
      refine Or.inr ⟨fun stops => ?_, ?_⟩
      · have awake := leaving.1
        rw [stops.2.1] at awake
        cases awake
      · let unpaused := (post k p sig).modify p fun q => { q with paused := false }
        have unpaused_self : unpaused.proc p =
            { k.proc p with killed := killed, pending := pending, paused := false } := by
          rw [modify_self, posted]
        have same : disposition (unpaused.proc p) sigcont = disposition (k.proc p) sigcont :=
          disposition_congr (congrArg Proc.actions unpaused_self) sigcont
        rcases (handleSignal unpaused me p sigcont caller).returns_or_sleeps with
          ⟨_, after, returned⟩ | sleeps
        · refine ⟨after, returned, Sent.of_handled (by decide) returned ?_ ?_ ?_ ?_⟩
          · intro q differs
            rw [modify_of_ne _ _ differs, others q differs]
          · rw [unpaused_self]
            exact ⟨rfl, rfl, rfl, rfl, rfl⟩
          · rw [Continues]
            grind
          · intro is_kill
            rw [unpaused_self]
            refine ⟨killed_eq.trans (if_pos is_kill), ?_⟩
            rw [disposition]
            split_ifs <;> decide
        · exact absurd ((handleSignal_sleeps_iff (by decide)).mp sleeps)
            (disposition_sigcont _)
    · rw [if_neg leaving]
      by_cases acts : (k.proc p).paused ≠ true ∧ killed ≠ true
      · rw [if_pos acts]
        obtain ⟨not_paused, not_killed⟩ := acts
        have not_kill : sig ≠ sigkill :=
          fun is_kill => not_killed (killed_eq.trans (if_pos is_kill))
        rw [if_neg not_kill] at killed_eq
        rw [ne_eq, Bool.not_eq_true] at not_paused not_killed
        have same : disposition ((post k p sig).proc p) sig = disposition (k.proc p) sig :=
          disposition_congr (congrArg Proc.actions posted) sig
        rcases (handleSignal (post k p sig) me p sig caller).returns_or_sleeps with
          ⟨_, after, returned⟩ | ⟨after, sleeps⟩
        · refine Or.inr ⟨fun stops => ?_, after, returned,
            Sent.of_handled positive returned others ?_ ?_ fun is_kill => absurd is_kill not_kill⟩
          · have sleeps : ∃ after, handleSignal (post k p sig) me p sig caller = .sleeps after :=
              (handleSignal_sleeps_iff positive).mpr (same.trans stops.2.2.2.2)
            rw [returned] at sleeps
            simp at sleeps
          · rw [posted]
            exact ⟨rfl, rfl, rfl, rfl, rfl⟩
          · rw [Continues]
            grind
        · have stop := (handleSignal_sleeps_iff positive).mp ⟨after, sleeps⟩
          rw [same] at stop
          exact Or.inl ⟨⟨asleep, not_paused, by rw [← killed_eq, not_killed], not_kill, stop⟩,
            after, sleeps⟩
      · rw [if_neg acts]
        refine Or.inr ⟨?_, _, rfl, Sent.of_posted ?_⟩
        · rw [Stops]
          grind
        · rw [Continues]
          grind
  · rw [if_neg asleep]
    exact Or.inr ⟨fun stops => asleep stops.1, _, rfl,
      Sent.of_posted fun continues => asleep continues.1⟩

/-! ## The loop of `kill` -/

/-- A process on whose channel somebody was woken. -/
def rouse (q : Proc) (roused : Bool) : Proc :=
  if roused ∧ q.state = .sleeping then { q with state := .runnable, free := runnable_used q } else q

theorem wake_rouse (q : Proc) (roused : Bool) (chan : Chan) :
    wake (rouse q roused) chan = rouse q (roused || decide (q.chan = some chan)) := by
  simp only [wake, rouse]
  split_ifs <;> simp_all

theorem rouse_of_up {q : Proc} (up : q.state ≠ .sleeping) (roused : Bool) : rouse q roused = q :=
  if_neg fun both => up both.2

theorem rouse_sleeping {q : Proc} {roused : Bool} :
    (rouse q roused).state = .sleeping ↔ q.state = .sleeping ∧ roused = false := by
  rw [rouse]
  split_ifs with both
  · simp [both.1]
  · grind

theorem continues_rouse {q : Proc} {roused : Bool} {sig : Sig} :
    Continues (rouse q roused) sig ↔ Continues q sig ∧ roused = false := by
  rw [Continues, rouse_sleeping, Continues, rouse]
  cases roused with
  | false => simp
  | true => simp

theorem stops_rouse {q : Proc} {roused : Bool} {sig : Sig} :
    Stops (rouse q roused) sig ↔ Stops q sig ∧ roused = false := by
  rw [Stops, rouse_sleeping, Stops, rouse]
  cases roused with
  | false => simp
  | true => simp

section Loop

variable (k₀ : Kernel) (me : Fin nproc) (targets : Selector) (sig : Sig)

/-- When `kill` comes to `p`, its continue handler runs: `p` was not woken before. -/
def wakes (p : Fin nproc) : Bool :=
  decide (Continues (k₀.proc p) sig) &&
    match (k₀.proc p).chan with
    | some (.proc q) => if q < p then !(targets.selects k₀ me q && wakes q) else true
    | _ => true
termination_by p.val

/-- Somebody among `done` wakes the channel of `q`. -/
def roused (done : List (Fin nproc)) (q : Fin nproc) : Bool :=
  match (k₀.proc q).chan with
  | some (.proc p) => decide (p ∈ done) && targets.selects k₀ me p && wakes k₀ me targets sig p
  | _ => false

/-- The table when `kill` has visited the slots `done`. -/
structure Progress (done : List (Fin nproc)) (k : Kernel) : Prop where
  /-- Ids stay. -/
  ids : ∀ q, (k.proc q).pid = (k₀.proc q).pid ∧ (k.proc q).pgid = (k₀.proc q).pgid
  /-- A slot that is not a target, or not yet, was only woken. -/
  untouched : ∀ q, q ∉ done ∨ targets.selects k₀ me q = false →
    k.proc q = rouse (k₀.proc q) (roused k₀ me targets sig done q)
  /-- `SIGKILL` marks its targets and wakes no other way. -/
  kill : sig = sigkill → ∀ q, (k.proc q).chan = (k₀.proc q).chan ∧
    (k.proc q).state = (rouse (k₀.proc q) (roused k₀ me targets sig done q)).state ∧
    (q ∈ done → targets.selects k₀ me q = true → (k.proc q).killed = true)

variable {k₀ me targets sig} {done rest : List (Fin nproc)} {p : Fin nproc} {k : Kernel}

theorem roused_append (q : Fin nproc) : roused k₀ me targets sig (done ++ [p]) q =
    (roused k₀ me targets sig done q || (decide ((k₀.proc q).chan = some (.proc p)) &&
      (targets.selects k₀ me p && wakes k₀ me targets sig p))) := by
  rw [roused, roused]
  split
  · next r chan =>
      simp only [chan, Option.some.injEq, Chan.proc.injEq]
      by_cases same : r = p
      · subst same
        simp
        grind
      · simp [same]
  · next chan =>
      have elsewhere : (k₀.proc q).chan ≠ some (.proc p) := chan p
      simp [elsewhere]

theorem roused_iff {q : Fin nproc} : roused k₀ me targets sig done q = true ↔
    ∃ p ∈ done, targets.selects k₀ me p = true ∧ wakes k₀ me targets sig p = true ∧
      (k₀.proc q).chan = some (.proc p) := by
  rw [roused]
  split
  · next r chan =>
      rw [chan]
      simp only [Option.some.injEq, Chan.proc.injEq, Bool.and_eq_true, decide_eq_true_eq]
      grind
  · next chan =>
      simp only [Bool.false_eq_true, false_iff, not_exists, not_and]
      exact fun p _ _ _ => chan p

theorem wakes_iff_of_before (before : ∀ q, q ∈ done ↔ q < p) :
    wakes k₀ me targets sig p = true ↔
      Continues (k₀.proc p) sig ∧ roused k₀ me targets sig done p = false := by
  rw [wakes, roused, Bool.and_eq_true, decide_eq_true_eq]
  split
  · next q chan =>
      simp only [before]
      split
      · next earlier => cases targets.selects k₀ me q <;> simp [earlier]
      · next later => simp [later]
  · simp

theorem selects_congr (ids : ∀ q, (k.proc q).pid = (k₀.proc q).pid ∧
      (k.proc q).pgid = (k₀.proc q).pgid) (q : Fin nproc) :
    targets.selects k me q = targets.selects k₀ me q := by
  cases targets with
  | group pgid => rw [Selector.selects, Selector.selects, (ids q).2]
  | all => rw [Selector.selects, Selector.selects, (ids q).1]
  | one pid => rw [Selector.selects, Selector.selects, (ids q).1]

theorem Progress.start : Progress k₀ me targets sig [] k₀ := by
  have nobody : ∀ q, roused k₀ me targets sig [] q = false := by
    intro q
    rw [roused]
    split <;> simp
  constructor
  · exact fun q => ⟨rfl, rfl⟩
  · intro q _
    rw [nobody, rouse, if_neg (by simp)]
  · intro _ q
    rw [nobody, rouse, if_neg (by simp)]
    exact ⟨rfl, rfl, fun mem => absurd mem List.not_mem_nil⟩

/-- A slot that is not a target is passed over. -/
theorem Progress.skip (progress : Progress k₀ me targets sig done k)
    (unselected : targets.selects k₀ me p = false) :
    Progress k₀ me targets sig (done ++ [p]) k := by
  have same : ∀ q, roused k₀ me targets sig (done ++ [p]) q = roused k₀ me targets sig done q := by
    intro q
    rw [roused_append, unselected]
    simp
  constructor
  · exact progress.ids
  · intro q outside
    rw [same]
    apply progress.untouched
    rcases outside with absent | spared
    · exact Or.inl fun mem => absent (List.mem_append_left _ mem)
    · exact Or.inr spared
  · intro is_kill q
    rw [same]
    obtain ⟨chan, state, killed⟩ := progress.kill is_kill q
    refine ⟨chan, state, fun mem selected => killed ?_ selected⟩
    rcases List.mem_append.mp mem with earlier | here
    · exact earlier
    · rw [List.mem_singleton.mp here, unselected] at selected
      cases selected

theorem awake_me (running : (k₀.proc me).state = .running) (yes : Bool) :
    rouse (k₀.proc me) yes = k₀.proc me := by
  apply rouse_of_up
  rw [running]
  decide

/-- One more target wakes its channel. -/
theorem rouse_append (selected : targets.selects k₀ me p = true) {q : Fin nproc} (other : q ≠ me) :
    (if wakes k₀ me targets sig p = true ∧ q ≠ me
      then wake (rouse (k₀.proc q) (roused k₀ me targets sig done q)) (.proc p)
      else rouse (k₀.proc q) (roused k₀ me targets sig done q)) =
      rouse (k₀.proc q) (roused k₀ me targets sig (done ++ [p]) q) := by
  rw [roused_append, selected]
  split_ifs with woken
  · rw [wake_rouse, woken.1, Bool.and_true, Bool.and_true]
  · have asleep : wakes k₀ me targets sig p = false := by
      rw [← Bool.not_eq_true]
      exact fun wakes => woken ⟨wakes, other⟩
    rw [asleep, Bool.and_false, Bool.and_false, Bool.or_false]

theorem wake_state_congr {q r : Proc} (state : q.state = r.state) (chan : q.chan = r.chan)
    (on : Chan) : (wake q on).state = (wake r on).state := by
  rw [wake, wake, state, chan]
  split_ifs
  · rfl
  · exact state

theorem rouse_chan (q : Proc) (yes : Bool) : (rouse q yes).chan = q.chan := by
  rw [rouse]
  split <;> rfl

/-- The state and the channel of any slot after a sent `SIGKILL`. -/
theorem Sent.state {after : Kernel} (sent : Sent k me p sigkill after) (q : Fin nproc) :
    (after.proc q).chan = (k.proc q).chan ∧
      (after.proc q).state = if Continues (k.proc p) sigkill ∧ q ≠ me
        then (wake (k.proc q) (.proc p)).state else (k.proc q).state := by
  by_cases here : q = p
  · rw [here]
    exact (sent.kill rfl).2
  · rw [sent.other q here]
    split
    · exact ⟨(wake_fields _ _).1, rfl⟩
    · exact ⟨rfl, rfl⟩

/-- A target gets its signal. -/
theorem Progress.send (running : (k₀.proc me).state = .running)
    (progress : Progress k₀ me targets sig done k) (before : ∀ q, q ∈ done ↔ q < p)
    (selected : targets.selects k₀ me p = true) {after : Kernel} (sent : Sent k me p sig after) :
    Progress k₀ me targets sig (done ++ [p]) after := by
  have fresh : p ∉ done := fun mem => absurd ((before p).mp mem) (lt_irrefl p)
  have turn : k.proc p = rouse (k₀.proc p) (roused k₀ me targets sig done p) :=
    progress.untouched p (Or.inl fresh)
  have continues_iff : Continues (k.proc p) sig ↔ wakes k₀ me targets sig p = true := by
    rw [turn, continues_rouse, wakes_iff_of_before before]
  constructor
  · intro q
    by_cases here : q = p
    · rw [here]
      exact ⟨sent.ids.1.trans (progress.ids p).1, sent.ids.2.trans (progress.ids p).2⟩
    · rw [sent.other q here]
      obtain ⟨-, -, -, pid, pgid, -⟩ := wake_fields (k.proc q) (.proc p)
      split
      · exact ⟨pid.trans (progress.ids q).1, pgid.trans (progress.ids q).2⟩
      · exact progress.ids q
  · intro q outside
    have here : q ≠ p := by
      rintro rfl
      rcases outside with absent | spared
      · exact absent (by simp)
      · rw [selected] at spared
        cases spared
    have outside_before : q ∉ done ∨ targets.selects k₀ me q = false :=
      outside.imp (fun absent mem => absent (List.mem_append_left _ mem)) id
    rw [sent.other q here, progress.untouched q outside_before]
    simp only [continues_iff]
    by_cases own : q = me
    · rw [if_neg fun both => both.2 own, own, awake_me running, awake_me running]
    · exact rouse_append selected own
  · intro is_kill q
    subst is_kill
    obtain ⟨chan, state, killed⟩ := progress.kill rfl q
    obtain ⟨after_chan, after_state⟩ := sent.state q
    refine ⟨after_chan.trans chan, after_state.trans ?_, ?_⟩
    · simp only [continues_iff]
      rw [wake_state_congr state (chan.trans (rouse_chan _ _).symm), state]
      by_cases own : q = me
      · rw [if_neg fun both => both.2 own, own, awake_me running, awake_me running]
      · rw [← rouse_append selected own, apply_ite Proc.state]
    · intro mem target
      by_cases here : q = p
      · rw [here]
        exact (sent.kill rfl).1
      · have earlier : q ∈ done := by simpa [here] using mem
        rw [sent.other q here]
        split
        · exact (wake_fields _ _).2.1.trans (killed earlier target)
        · exact killed earlier target

/-! ## The whole loop -/

/-- The slots before one are those that `kill` has visited. -/
theorem mem_done_iff (order : done ++ p :: rest = slots) (q : Fin nproc) : q ∈ done ↔ q < p := by
  have sorted : (done ++ p :: rest).Pairwise (· < ·) := by
    rw [order]
    exact List.pairwise_lt_finRange nproc
  obtain ⟨-, after, across⟩ := List.pairwise_append.mp sorted
  constructor
  · exact fun mem => across q mem p List.mem_cons_self
  · intro less
    have mem : q ∈ done ++ p :: rest := by
      rw [order]
      exact List.mem_finRange q
    rcases List.mem_append.mp mem with earlier | later
    · exact earlier
    · rcases List.mem_cons.mp later with here | later
      · exact absurd less (here ▸ lt_irrefl q)
      · exact absurd less (lt_asymm ((List.pairwise_cons.mp after).1 q later))

/-- At the turn of a target its stop handler runs as the table before the call says. -/
theorem Progress.stops_iff (progress : Progress k₀ me targets sig done k) (fresh : p ∉ done) :
    Stops (k.proc p) sig ↔ Stops (k₀.proc p) sig := by
  rw [progress.untouched p (Or.inl fresh), stops_rouse]
  constructor
  · exact fun both => both.1
  · intro stops
    refine ⟨stops, ?_⟩
    rw [← Bool.not_eq_true]
    intro roused
    obtain ⟨q, -, -, woken, -⟩ := roused_iff.mp roused
    rw [wakes, Bool.and_eq_true, decide_eq_true_eq] at woken
    exact stops.not_continues woken.1

/-- Without a stop handler the loop comes to its end. -/
theorem killLoop_returns (running : (k₀.proc me).state = .running) (positive : 0 < sig.val)
    (order : done ++ rest = slots) (progress : Progress k₀ me targets sig done k) (err : Int)
    (quiet : ∀ p ∈ rest, targets.selects k₀ me p = true → ¬Stops (k₀.proc p) sig) :
    ∃ value after, killLoop me targets sig rest err k = .returns value after ∧
      Progress k₀ me targets sig slots after := by
  induction rest generalizing done k err with
  | nil =>
      rw [List.append_nil] at order
      subst order
      exact ⟨err, k, rfl, progress⟩
  | cons p rest ih =>
      have next_order : (done ++ [p]) ++ rest = slots := by
        rw [List.append_assoc]
        exact order
      have quiet_rest : ∀ q ∈ rest, targets.selects k₀ me q = true → ¬Stops (k₀.proc q) sig :=
        fun q mem => quiet q (List.mem_cons_of_mem p mem)
      have before := mem_done_iff order
      have fresh : p ∉ done := fun mem => absurd ((before p).mp mem) (lt_irrefl p)
      rw [killLoop, selects_congr progress.ids]
      split
      · next selected =>
          have unstopped := quiet p List.mem_cons_self selected
          rcases sendSignal_cases k me p (.kill targets sig rest) positive with
            ⟨stops, -⟩ | ⟨-, after, returned, sent⟩
          · exact absurd ((progress.stops_iff fresh).mp stops) unstopped
          · rw [returned]
            exact ih next_order (progress.send running before selected sent) 0 quiet_rest
      · next unselected =>
          rw [Bool.not_eq_true] at unselected
          exact ih next_order (progress.skip unselected) err quiet_rest

/-- With one the caller falls asleep. -/
theorem killLoop_sleeps (running : (k₀.proc me).state = .running) (positive : 0 < sig.val)
    (order : done ++ rest = slots) (progress : Progress k₀ me targets sig done k) (err : Int)
    (stopping : ∃ p ∈ rest, targets.selects k₀ me p = true ∧ Stops (k₀.proc p) sig) :
    ∃ after, killLoop me targets sig rest err k = .sleeps after := by
  induction rest generalizing done k err with
  | nil =>
      obtain ⟨p, mem, -⟩ := stopping
      exact absurd mem List.not_mem_nil
  | cons p rest ih =>
      have next_order : (done ++ [p]) ++ rest = slots := by
        rw [List.append_assoc]
        exact order
      have before := mem_done_iff order
      have fresh : p ∉ done := fun mem => absurd ((before p).mp mem) (lt_irrefl p)
      obtain ⟨r, mem, r_selected, r_stops⟩ := stopping
      rw [killLoop, selects_congr progress.ids]
      split
      · next selected =>
          rcases sendSignal_cases k me p (.kill targets sig rest) positive with
            ⟨-, after, sleeps⟩ | ⟨unstopped, after, returned, sent⟩
          · rw [sleeps]
            exact ⟨after, rfl⟩
          · rw [returned]
            refine ih next_order (progress.send running before selected sent) 0 ⟨r, ?_, r_selected,
              r_stops⟩
            rcases List.mem_cons.mp mem with here | later
            · exact absurd ((progress.stops_iff fresh).mpr (here ▸ r_stops)) unstopped
            · exact later
      · next unselected =>
          refine ih next_order (progress.skip (Bool.not_eq_true _ ▸ unselected)) err ⟨r, ?_,
            r_selected, r_stops⟩
          rcases List.mem_cons.mp mem with here | later
          · exact absurd (here ▸ r_selected) unselected
          · exact later

end Loop

end Signal
end Xv6Duo
