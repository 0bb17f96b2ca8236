import Xv6Duo.Sync.Discipline

/-!
# No panic

Every step of disciplined kernel code keeps the invariant, and none of them panics.
-/

namespace Xv6Duo
namespace Sync

open Process (ProcState nproc)

variable {κ χ ν σ : Type}

/-! ## Stacks -/

section

variable (m : Machine κ χ ν σ) (ops : List (Op κ χ ν))

@[simp]
theorem setProc_self (i : Fin nproc) (p : Thread κ χ ν) : (m.setProc i p).proc i = p := by
  rw [Machine.setProc]
  exact Function.update_self i p m.proc

theorem setProc_of_ne {i j : Fin nproc} (apart : j ≠ i) (p : Thread κ χ ν) :
    (m.setProc i p).proc j = m.proc j := by
  rw [Machine.setProc]
  exact Function.update_of_ne apart p m.proc

@[simp]
theorem setOps_sie : (m.setOps ops).sie = m.sie := by
  rw [Machine.setOps]
  split <;> rfl

@[simp]
theorem setOps_noff : (m.setOps ops).noff = m.noff := by
  rw [Machine.setOps]
  split <;> rfl

@[simp]
theorem setOps_intena : (m.setOps ops).intena = m.intena := by
  rw [Machine.setOps]
  split <;> rfl

@[simp]
theorem setOps_locked : (m.setOps ops).locked = m.locked := by
  rw [Machine.setOps]
  split <;> rfl

@[simp]
theorem setOps_running : (m.setOps ops).running = m.running := by
  rw [Machine.setOps]
  split <;> rfl

@[simp]
theorem setOps_pass : (m.setOps ops).pass = m.pass := by
  rw [Machine.setOps]
  split <;> rfl

theorem setOps_some {i : Fin nproc} (here : m.running = some i) :
    m.setOps ops = m.setProc i { m.proc i with ops := ops } := by
  rw [Machine.setOps, here]

theorem Machine.ops_of_none {m : Machine κ χ ν σ} (here : m.running = none) : m.ops = m.idle := by
  rw [Machine.ops, here]

theorem Machine.ops_of_some {m : Machine κ χ ν σ} {i : Fin nproc} (here : m.running = some i) :
    m.ops = (m.proc i).ops := by
  rw [Machine.ops, here]

theorem setOps_none (here : m.running = none) : m.setOps ops = { m with idle := ops } := by
  rw [Machine.setOps, here]

@[simp]
theorem ops_setOps : (m.setOps ops).ops = ops := by
  rw [Machine.ops, setOps_running]
  cases here : m.running with
  | none => rw [setOps_none m ops here]
  | some i =>
      rw [setOps_some m ops here]
      exact congrArg Thread.ops (setProc_self m i _)

theorem proc_setOps {j : Fin nproc} (other : m.running ≠ some j) :
    (m.setOps ops).proc j = m.proc j := by
  cases here : m.running with
  | none => rw [setOps_none m ops here]
  | some i =>
      have apart : j ≠ i := by
        rintro rfl
        exact other here
      rw [setOps_some m ops here, setProc_of_ne m apart]

@[simp]
theorem state_setOps (j : Fin nproc) : ((m.setOps ops).proc j).state = (m.proc j).state := by
  by_cases here : m.running = some j
  · rw [setOps_some m ops here, setProc_self]
  · rw [proc_setOps m ops here]

theorem idle_setOps {i : Fin nproc} (here : m.running = some i) : (m.setOps ops).idle = m.idle := by
  rw [setOps_some m ops here]
  rfl

end

/-! ## Steps of one stack -/

/-- A step that concerns the stack that is used, and no other process. -/
structure Local (m m' : Machine κ χ ν σ) : Prop where
  /-- The same process runs. -/
  running : m'.running = m.running
  /-- The scheduler does not move. -/
  pass : m'.pass = m.pass
  /-- Nothing happens to other processes. -/
  others : ∀ j, m.running ≠ some j → m'.proc j = m.proc j
  /-- Nothing happens to the stack of the scheduler. -/
  idle : m.running ≠ none → m'.idle = m.idle

theorem local_setOps (m : Machine κ χ ν σ) (ops : List (Op κ χ ν)) : Local m (m.setOps ops) where
  running := setOps_running m ops
  pass := setOps_pass m ops
  others _ other := proc_setOps m ops other
  idle here := by
    obtain ⟨i, here⟩ := Option.ne_none_iff_exists'.mp here
    exact idle_setOps m ops here

variable {m m' : Machine κ χ ν σ} {mode later : Mode κ} {rest : List (Op κ χ ν)}

theorem Counted.congr {held : List (Lock κ)} (counted : Counted m held)
    (locked : m'.locked = m.locked) (noff : m'.noff = m.noff) (sie : m'.sie = m.sie) :
    Counted m' held where
  nodup := counted.nodup
  locked lk := by
    rw [locked]
    exact counted.locked lk
  noff := noff.trans counted.noff
  sie some_held := sie.trans (counted.sie some_held)

theorem Fits.congr (fits : Fits m mode) (locked : m'.locked = m.locked) (noff : m'.noff = m.noff)
    (sie : m'.sie = m.sie) (intena : m'.intena = m.intena) : Fits m' mode where
  counted := fits.counted.congr locked noff sie
  free none_held := sie.trans (fits.free none_held)
  kept some_held := intena.trans (fits.kept some_held)

theorem Fits.setOps (fits : Fits m mode) (ops : List (Op κ χ ν)) : Fits (m.setOps ops) mode :=
  fits.congr (setOps_locked m ops) (setOps_noff m ops) (setOps_sie m ops) (setOps_intena m ops)

/-- A step of a process that changes its own entry. -/
theorem local_setProc {i : Fin nproc} (here : m.running = some i) (p : Thread κ χ ν) :
    Local m (m.setProc i p) where
  running := rfl
  pass := rfl
  others j other := by
    apply setProc_of_ne
    rintro rfl
    exact other here
  idle _ := rfl

theorem ops_setProc {i : Fin nproc} (here : m.running = some i) (p : Thread κ χ ν) :
    (m.setProc i p).ops = p.ops := by
  have same : (m.setProc i p).running = some i := here
  rw [Machine.ops, same]
  exact congrArg Thread.ops (setProc_self m i p)

theorem ops_setProc_of_ne {j : Fin nproc} (other : m.running ≠ some j) (p : Thread κ χ ν) :
    (m.setProc j p).ops = m.ops := by
  cases here : m.running with
  | none =>
      have still : (m.setProc j p).running = none := here
      rw [Machine.ops_of_none here, Machine.ops_of_none still]
      rfl
  | some i =>
      have still : (m.setProc j p).running = some i := here
      have apart : i ≠ j := by
        rintro rfl
        exact other here
      rw [Machine.ops_of_some here, Machine.ops_of_some still, setProc_of_ne m apart]

variable [DecidableEq κ] {code : Code κ χ ν σ} {disc : Discipline code}

/-- The invariant after such a step. -/
theorem Good.of_local (good : Good disc m) (near : Local m m')
    (runs : ∃ later, Runs disc m' later) : Good disc m' where
  parked j other := by
    rw [near.running] at other
    rw [near.others j other]
    exact good.parked j other
  idle busy := by
    rw [near.running]
    by_contra some_runs
    rw [near.idle some_runs] at busy
    exact some_runs (good.idle busy)
  context := Or.inl runs

/-- What is left is allowed as before. -/
theorem Runs.advance (runs : Runs disc m mode) (running : m'.running = m.running)
    (pass : m'.pass = m.pass)
    (state : ∀ i, m.running = some i → (m'.proc i).state = (m.proc i).state)
    (fits : Fits m' later)
    (allowed : check disc.sig m.running later m'.ops = some (last m.running))
    (going : later.going = mode.going)
    (own : ∀ i, m.running = some i → mode.going = false → .proc i ∈ later.held) :
    Runs disc m' later where
  fits := fits
  allowed := by
    rw [running]
    exact allowed
  going i here := by
    rw [running] at here
    rw [going, state i here]
    exact runs.going i here
  own i here off := by
    rw [running] at here
    rw [going] at off
    exact own i here off
  idle here := by
    rw [running] at here
    rw [going, pass]
    exact runs.idle here

/-- What the check says of the next operation. -/
theorem Runs.next {op : Op κ χ ν} (runs : Runs disc m mode) (next : m.ops = op :: rest) :
    ∃ later, op.after disc.sig m.running mode = some later ∧
      check disc.sig m.running later rest = some (last m.running) := by
  have allowed := runs.allowed
  rw [next, check_cons] at allowed
  exact Option.bind_eq_some_iff.mp allowed

/-! ## Taking and releasing locks -/

theorem take_counted {held : List (Lock κ)} {lk : Lock κ} (counted : Counted m held)
    (fresh : lk ∉ held) (old : Bool) :
    m.take lk old =
        .ok { m.pushOff old with locked := Function.update m.locked lk true } ∧
      Counted { m.pushOff old with locked := Function.update m.locked lk true } (lk :: held) := by
  have unlocked : m.locked lk = false := by
    rw [← Bool.not_eq_true, counted.locked]
    exact fresh
  constructor
  · rw [Machine.take]
    change (if m.locked lk then _ else _) = _
    rw [unlocked, if_neg Bool.false_ne_true]
    rfl
  · refine ⟨List.nodup_cons.mpr ⟨fresh, counted.nodup⟩, fun other => ?_, ?_, fun _ => rfl⟩
    · change Function.update m.locked lk true other = true ↔ _
      by_cases same : other = lk
      · subst same
        simp
      · rw [Function.update_of_ne same, counted.locked, List.mem_cons]
        simp [same]
    · rw [List.length_cons, ← counted.noff]
      rfl

theorem release_counted {held : List (Lock κ)} {lk : Lock κ} (counted : Counted m held)
    (among : lk ∈ held) :
    ∃ next, m.release lk = .ok next ∧ Counted next (held.erase lk) ∧
      next = { m with
        locked := Function.update m.locked lk false
        noff := m.noff - 1
        sie := m.noff - 1 = 0 && m.intena } := by
  have locked : m.locked lk = true := (counted.locked lk).mpr among
  have off : m.sie = false := counted.sie (List.ne_nil_of_mem among)
  have positive : ¬ m.noff < 1 := by
    rw [counted.noff, not_lt]
    exact List.length_pos_of_mem among
  have length := List.length_erase_of_mem among
  refine ⟨_, ?_, ⟨counted.nodup.erase lk, fun other => ?_, ?_, fun some_left => ?_⟩, rfl⟩
  · rw [Machine.release, if_pos locked, Machine.popOff]
    change (if m.sie then _ else if m.noff < 1 then _ else _) = _
    rw [off, if_neg Bool.false_ne_true, if_neg positive]
  · rw [counted.nodup.mem_erase_iff]
    change Function.update m.locked lk false other = true ↔ _
    by_cases same : other = lk
    · subst same
      simp
    · rw [Function.update_of_ne same, counted.locked]
      simp [same]
  · rw [length, ← counted.noff]
  · have more : m.noff - 1 ≠ 0 := by
      rw [counted.noff, ← length]
      exact (List.length_pos_iff.mpr some_left).ne'
    simp [more]

/-! ## One operation -/

/-- The operation succeeds and keeps the invariant. -/
def Keeps (disc : Discipline code) (x : Except Panic (Machine κ χ ν σ)) : Prop :=
  ∃ next, x = .ok next ∧ Good disc next

/-- Operations that leave the mode as it is. -/
theorem keeps_setOps {ops : List (Op κ χ ν)} (good : Good disc m) (runs : Runs disc m mode)
    (allowed : check disc.sig m.running mode ops = some (last m.running)) :
    Good disc (m.setOps ops) := by
  apply good.of_local (local_setOps m ops)
  refine ⟨mode, runs.advance (setOps_running m ops) (setOps_pass m ops)
    (fun i _ => state_setOps m ops i) (runs.fits.setOps ops) ?_ rfl runs.own⟩
  rw [ops_setOps]
  exact allowed

/-- The entry of another process changes. -/
theorem Good.setProc {i : Fin nproc} {p : Thread κ χ ν} (good : Good disc m)
    (other : m.running ≠ some i) (parked : Parked disc i p) : Good disc (m.setProc i p) where
  parked j there := by
    by_cases same : j = i
    · subst same
      rw [setProc_self]
      exact parked
    · rw [setProc_of_ne m same]
      exact good.parked j there
  idle := good.idle
  context := by
    rcases good.context with ⟨mode, runs⟩ | ⟨here, no_idle, scheduling⟩
    · have others : ∀ j, m.running = some j → (m.setProc i p).proc j = m.proc j := by
        intro j here
        apply setProc_of_ne
        rintro rfl
        exact other here
      refine Or.inl
        ⟨mode, runs.advance rfl rfl (fun j here => congrArg Thread.state (others j here))
        (runs.fits.congr rfl rfl rfl rfl) ?_ rfl runs.own⟩
      rw [ops_setProc_of_ne other]
      exact runs.allowed
    · refine Or.inr ⟨here, no_idle, ?_⟩
      cases scheduling with
      | free place counted => exact .free place (counted.congr rfl rfl rfl)
      | testing i place counted => exact .testing i place (counted.congr rfl rfl rfl)
      | back i place counted => exact .back i place (counted.congr rfl rfl rfl)

/-- `yield` leaves the mode as it is. -/
theorem check_yield {sig : Sig κ ν} {i : Fin nproc} (none_held : mode.held = [])
    (going : mode.going = true) :
    check sig (some i) mode (yield i : List (Op κ χ ν)) = some mode := by
  obtain ⟨held, still, ie⟩ := mode
  cases none_held
  cases going
  simp [yield, Op.after]

/-- Interrupts are enabled or disabled where no lock is held. -/
theorem keeps_sie {enabled : Bool} (good : Good disc m) (runs : Runs disc m mode)
    (none_held : mode.held = [])
    (allowed : check disc.sig m.running { mode with ie := enabled } rest = some (last m.running)) :
    Good disc { m.setOps rest with sie := enabled } := by
  have near := local_setOps m rest
  refine good.of_local ⟨near.running, near.pass, near.others, near.idle⟩
    ⟨{ mode with ie := enabled }, ?_⟩
  refine runs.advance near.running near.pass (fun i _ => state_setOps m rest i) ?_ ?_ rfl runs.own
  · have counted := (runs.fits.setOps rest).counted
    exact ⟨⟨counted.nodup, counted.locked, counted.noff, fun some_held =>
      absurd none_held some_held⟩, fun _ => rfl, fun some_held => absurd none_held some_held⟩
  · change check _ _ _ (m.setOps rest).ops = _
    rw [ops_setOps]
    exact allowed

theorem runnable_ne_running : ProcState.runnable ≠ .running := by
  decide

section

variable [DecidableEq χ]

theorem exec_acquire {lk : Lock κ} (good : Good disc m) (runs : Runs disc m mode)
    (next : m.ops = .acquire lk :: rest) : Keeps disc (m.exec code rest (.acquire lk)) := by
  obtain ⟨later, after, allowed⟩ := runs.next next
  rw [Op.after] at after
  split at after
  · cases after
  · next fresh =>
      cases after
      refine ⟨_, rfl, good.of_local (local_setOps m _) ⟨mode, ?_⟩⟩
      apply runs.advance (setOps_running m _) (setOps_pass m _) (fun i _ => state_setOps m _ i)
        (runs.fits.setOps _) _ rfl runs.own
      have known : ¬ (lk ∈ mode.held ∨ mode.held = [] ∧ m.sie ≠ mode.ie) := by
        rintro (among | ⟨none_held, other⟩)
        · exact fresh among
        · exact other (runs.fits.free none_held)
      rw [ops_setOps, check_cons, Op.after, if_neg known]
      exact allowed

theorem exec_acquired {lk : Lock κ} {old : Bool} (good : Good disc m) (runs : Runs disc m mode)
    (next : m.ops = .acquired lk old :: rest) :
    Keeps disc (m.exec code rest (.acquired lk old)) := by
  obtain ⟨later, after, allowed⟩ := runs.next next
  rw [Op.after] at after
  split at after
  · cases after
  · next fresh =>
      cases after
      rw [not_or, not_and, not_not] at fresh
      obtain ⟨run, counted⟩ := take_counted (runs.fits.setOps rest).counted fresh.1 old
      have near := local_setOps m rest
      refine ⟨_, run, good.of_local ⟨near.running, near.pass, near.others, near.idle⟩
        ⟨{ mode with held := lk :: mode.held }, ?_⟩⟩
      have kept : (if m.noff = 0 then old else m.intena) = mode.ie := by
        split
        · next zero =>
            rw [runs.fits.counted.noff, List.length_eq_zero_iff] at zero
            exact fresh.2 zero
        · next some_held =>
            apply runs.fits.kept
            rintro none_held
            rw [runs.fits.counted.noff, none_held] at some_held
            exact some_held rfl
      refine runs.advance near.running near.pass (fun i _ => state_setOps m rest i) ?_ ?_ rfl
        (fun i here off => List.mem_cons_of_mem lk (runs.own i here off))
      · refine ⟨counted, fun none_held => absurd none_held (List.cons_ne_nil _ _), fun _ => ?_⟩
        change (if (m.setOps rest).noff = 0 then old else (m.setOps rest).intena) = mode.ie
        rw [setOps_noff, setOps_intena]
        exact kept
      · change check _ _ _ (m.setOps rest).ops = _
        rw [ops_setOps]
        exact allowed

theorem exec_release {lk : Lock κ} (good : Good disc m) (runs : Runs disc m mode)
    (next : m.ops = .release lk :: rest) : Keeps disc (m.exec code rest (.release lk)) := by
  obtain ⟨later, after, allowed⟩ := runs.next next
  rw [Op.after] at after
  split at after
  · next held =>
      cases after
      obtain ⟨among, mine⟩ := held
      obtain ⟨n, run, counted, rfl⟩ := release_counted (runs.fits.setOps rest).counted among
      have near := local_setOps m rest
      refine ⟨_, run, good.of_local ⟨near.running, near.pass, near.others, near.idle⟩
        ⟨{ mode with held := mode.held.erase lk }, ?_⟩⟩
      have some_held : mode.held ≠ [] := List.ne_nil_of_mem among
      have kept : (m.setOps rest).intena = mode.ie := by
        rw [setOps_intena]
        exact runs.fits.kept some_held
      refine runs.advance near.running near.pass (fun i _ => state_setOps m rest i) ?_ ?_ rfl ?_
      rotate_right
      · intro i here off
        rcases mine with going | other
        · rw [going] at off
          cases off
        · rw [here] at other
          refine (runs.fits.counted.nodup.mem_erase_iff).mpr ⟨?_, runs.own i here off⟩
          rintro rfl
          exact other rfl
      · refine ⟨counted, fun none_left => ?_, fun _ => kept⟩
        change (decide ((m.setOps rest).noff - 1 = 0) && (m.setOps rest).intena) = mode.ie
        have one : (m.setOps rest).noff - 1 = 0 := by
          rw [setOps_noff, runs.fits.counted.noff, ← List.length_erase_of_mem among]
          exact List.length_eq_zero_iff.mpr none_left
        rw [one, kept]
        rfl
      · change check _ _ _ (m.setOps rest).ops = _
        rw [ops_setOps]
        exact allowed
  · cases after

theorem exec_setState {state : ProcState} (good : Good disc m) (runs : Runs disc m mode)
    (next : m.ops = .setState state :: rest) : Keeps disc (m.exec code rest (.setState state)) := by
  obtain ⟨later, after, allowed⟩ := runs.next next
  rw [Machine.exec]
  cases here : m.running with
  | none =>
      rw [here] at after
      cases after
  | some i =>
      rw [here, Op.after] at after
      split at after
      · next mine =>
          cases after
          refine ⟨_, rfl, good.of_local (local_setProc here _)
            ⟨{ mode with going := decide (state = .running) }, ?fits, ?allowed, ?going,
              ?own, ?idle⟩⟩
          case fits =>
            exact ⟨runs.fits.counted.congr rfl rfl rfl, runs.fits.free, runs.fits.kept⟩
          case allowed =>
            rw [ops_setProc here]
            exact allowed
          case going =>
            intro j there
            cases here.symm.trans there
            rw [setProc_self]
            simp
          case own =>
            intro j there _
            cases here.symm.trans there
            exact mine
          case idle =>
            intro there
            cases here.symm.trans there
      · cases after

theorem exec_setChan {chan : Option χ} (good : Good disc m) (runs : Runs disc m mode)
    (next : m.ops = .setChan chan :: rest) : Keeps disc (m.exec code rest (.setChan chan)) := by
  obtain ⟨later, after, allowed⟩ := runs.next next
  rw [Machine.exec]
  cases here : m.running with
  | none =>
      rw [here] at after
      cases after
  | some i =>
      rw [here] at after
      cases after
      refine ⟨_, rfl, good.of_local (local_setProc here _) ⟨mode, ?_⟩⟩
      refine runs.advance rfl rfl ?_ (runs.fits.congr rfl rfl rfl rfl) ?_ rfl runs.own
      · intro j there
        cases here.symm.trans there
        rw [setProc_self]
      · rw [ops_setProc here]
        exact allowed

theorem exec_sched (good : Good disc m) (runs : Runs disc m mode) (next : m.ops = .sched :: rest) :
    Keeps disc (m.exec code rest .sched) := by
  obtain ⟨later, after, allowed⟩ := runs.next next
  rw [Machine.exec]
  cases here : m.running with
  | none =>
      rw [here] at after
      cases after
  | some i =>
      rw [here, Op.after] at after
      split at after
      · next mine =>
          cases after
          obtain ⟨only, off⟩ := mine
          have some_held : mode.held ≠ [] := by
            rw [only]
            exact List.cons_ne_nil _ _
          have counted := runs.fits.counted
          rw [only] at counted
          have locked := (counted.locked (.proc i)).mpr List.mem_cons_self
          have one : m.noff = 1 := counted.noff
          have stopped : (m.proc i).state ≠ .running := by
            intro still
            rw [← runs.going i here, off] at still
            cases still
          have run : m.sched i rest =
              .ok { m.setProc i { m.proc i with ops := .switched m.intena :: rest } with
                running := none, pass := .back i } := by
            rw [Machine.sched, locked, Bool.not_true, if_neg Bool.false_ne_true,
              if_neg (not_not.mpr one), if_neg stopped,
              runs.fits.counted.sie some_held, if_neg Bool.false_ne_true]
          have no_idle : m.idle = [] := by
            by_contra busy
            exact absurd (here.symm.trans (good.idle busy)) (Option.some_ne_none i)
          refine ⟨_, run, ?parked, fun busy => absurd no_idle busy,
            Or.inr ⟨rfl, no_idle, .back i rfl (counted.congr rfl rfl rfl)⟩⟩
          case parked =>
            intro j _
            change Parked disc j ((m.setProc i _).proc j)
            by_cases same : j = i
            · subst same
              rw [setProc_self]
              refine ⟨stopped, fun _ ie => ?_⟩
              rw [here] at allowed
              rw [only] at allowed
              rw [check_cons, Op.after, if_pos (List.cons_ne_nil _ _), runs.fits.kept some_held]
              exact allowed
            · rw [setProc_of_ne m same]
              apply good.parked
              rintro there
              rw [here] at there
              cases there
              exact same rfl
      · cases after

theorem exec_switched {intena : Bool} (good : Good disc m) (runs : Runs disc m mode)
    (next : m.ops = .switched intena :: rest) :
    Keeps disc (m.exec code rest (.switched intena)) := by
  obtain ⟨later, after, allowed⟩ := runs.next next
  rw [Op.after] at after
  split at after
  · next some_held =>
      cases after
      have near := local_setOps m rest
      refine ⟨_, rfl, good.of_local ⟨near.running, near.pass, near.others, near.idle⟩
        ⟨{ mode with ie := intena }, ?_⟩⟩
      refine runs.advance near.running near.pass (fun i _ => state_setOps m rest i) ?_ ?_
        rfl runs.own
      · refine ⟨(runs.fits.setOps rest).counted.congr rfl rfl rfl,
          fun none_held => absurd none_held some_held, fun _ => rfl⟩
      · change check _ _ _ (m.setOps rest).ops = _
        rw [ops_setOps]
        exact allowed
  · cases after

theorem exec_wake {i : Fin nproc} {chan : χ} (good : Good disc m) (runs : Runs disc m mode)
    (next : m.ops = .wake i chan :: rest) : Keeps disc (m.exec code rest (.wake i chan)) := by
  obtain ⟨later, after, allowed⟩ := runs.next next
  rw [Op.after] at after
  split at after
  · next held =>
      cases after
      have kept := keeps_setOps good runs allowed
      rw [Machine.exec]
      dsimp only
      split
      · next asleep =>
          have other : (m.setOps rest).running ≠ some i := by
            rw [setOps_running]
            exact held.2
          have parked := kept.parked i other
          refine ⟨_, rfl, kept.setProc other ⟨runnable_ne_running, fun _ => ?_⟩⟩
          exact parked.allowed (Or.inr asleep.1)
      · exact ⟨_, rfl, kept⟩
  · cases after

theorem exec_rouse {i : Fin nproc} (good : Good disc m) (runs : Runs disc m mode)
    (next : m.ops = .rouse i :: rest) : Keeps disc (m.exec code rest (.rouse i)) := by
  obtain ⟨later, after, allowed⟩ := runs.next next
  rw [Op.after] at after
  split at after
  · next held =>
      cases after
      have kept := keeps_setOps good runs allowed
      rw [Machine.exec]
      dsimp only
      split
      · next asleep =>
          have other : (m.setOps rest).running ≠ some i := by
            rw [setOps_running]
            intro here
            have still := (runs.going i here).mp (held.2 here)
            rw [state_setOps, still] at asleep
            cases asleep
          have parked := kept.parked i other
          refine ⟨_, rfl, kept.setProc other ⟨runnable_ne_running, fun _ => ?_⟩⟩
          exact parked.allowed (Or.inr asleep)
      · exact ⟨_, rfl, kept⟩
  · cases after

theorem exec_mark {i : Fin nproc} {state : ProcState} (good : Good disc m)
    (runs : Runs disc m mode) (next : m.ops = .mark i state :: rest) :
    Keeps disc (m.exec code rest (.mark i state)) := by
  obtain ⟨later, after, allowed⟩ := runs.next next
  rw [Op.after] at after
  split at after
  · next held =>
      cases after
      have kept := keeps_setOps good runs allowed
      have other : (m.setOps rest).running ≠ some i := by
        rw [setOps_running]
        exact held.2.1
      refine ⟨_, rfl, kept.setProc other ⟨?_, fun ready => ?_⟩⟩
      · rcases held.2.2 with rfl | rfl <;> simp
      · rcases held.2.2 with rfl | rfl <;> simp at ready
  · cases after

theorem exec_start {i : Fin nproc} (good : Good disc m) (runs : Runs disc m mode)
    (next : m.ops = .start i :: rest) : Keeps disc (m.exec code rest (.start i)) := by
  obtain ⟨later, after, allowed⟩ := runs.next next
  rw [Op.after] at after
  split at after
  · next held =>
      cases after
      have kept := keeps_setOps good runs allowed
      have other : (m.setOps rest).running ≠ some i := by
        rw [setOps_running]
        exact held.2
      refine ⟨_, rfl, kept.setProc other ⟨runnable_ne_running, fun _ ie => ?_⟩⟩
      exact disc.check_forkret i ie
  · cases after

theorem exec_preempt (good : Good disc m) (runs : Runs disc m mode)
    (next : m.ops = .preempt :: rest) : Keeps disc (m.exec code rest .preempt) := by
  obtain ⟨later, after, allowed⟩ := runs.next next
  rw [Op.after] at after
  split at after
  · next none_held =>
      cases after
      rw [Machine.exec]
      cases here : m.running with
      | none => exact ⟨_, rfl, keeps_setOps good runs allowed⟩
      | some i =>
          dsimp only
          split
          · next still =>
              refine ⟨_, rfl, keeps_setOps good runs ?_⟩
              rw [here, check_append, check_yield none_held ((runs.going i here).mpr still)]
              rw [here] at allowed
              exact allowed
          · exact ⟨_, rfl, keeps_setOps good runs allowed⟩
  · cases after

theorem exec_call {c : ν} (good : Good disc m) (runs : Runs disc m mode)
    (next : m.ops = .call c :: rest) : Keeps disc (m.exec code rest (.call c)) := by
  obtain ⟨later, after, allowed⟩ := runs.next next
  have near := local_setOps m ((code.body c m.running m.data).2 ++ rest)
  refine ⟨_, rfl, good.of_local ⟨near.running, near.pass, near.others, near.idle⟩
    ⟨mode, ?_⟩⟩
  refine runs.advance near.running near.pass (fun i _ => state_setOps m _ i)
    ((runs.fits.setOps _).congr rfl rfl rfl rfl) ?_ rfl runs.own
  change check _ _ _ (m.setOps _).ops = _
  rw [ops_setOps, check_append, disc.sound c m.running mode later m.data after]
  exact allowed

/-- Every operation that the check allows. -/
theorem exec_keeps {op : Op κ χ ν} (good : Good disc m) (runs : Runs disc m mode)
    (next : m.ops = op :: rest) : Keeps disc (m.exec code rest op) := by
  cases op with
  | acquire lk => exact exec_acquire good runs next
  | acquired lk old => exact exec_acquired good runs next
  | release lk => exact exec_release good runs next
  | setState state => exact exec_setState good runs next
  | setChan chan => exact exec_setChan good runs next
  | sched => exact exec_sched good runs next
  | switched intena => exact exec_switched good runs next
  | wake i chan => exact exec_wake good runs next
  | rouse i => exact exec_rouse good runs next
  | mark i state => exact exec_mark good runs next
  | start i => exact exec_start good runs next
  | preempt => exact exec_preempt good runs next
  | call c => exact exec_call good runs next
  | intrOn =>
      obtain ⟨later, after, allowed⟩ := runs.next next
      rw [Op.after] at after
      split at after
      · next none_held =>
          cases after
          exact ⟨_, rfl, keeps_sie good runs none_held allowed⟩
      · cases after
  | intrOff =>
      obtain ⟨later, after, allowed⟩ := runs.next next
      rw [Op.after] at after
      split at after
      · next none_held =>
          cases after
          exact ⟨_, rfl, keeps_sie good runs none_held allowed⟩
      · cases after
  | sret =>
      obtain ⟨later, after, allowed⟩ := runs.next next
      rw [Op.after] at after
      split at after
      · next none_held =>
          cases after
          exact ⟨_, rfl, keeps_sie good runs none_held allowed⟩
      · cases after

end

end Sync
end Xv6Duo
