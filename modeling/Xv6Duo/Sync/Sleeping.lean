import Xv6Duo.Sync.Exclusion

/-!
# Falling asleep and waking up

While a process is in `sleep`, or wakes up those that wait for a sleep lock, interrupts are disabled
and nobody else runs.
-/

namespace Xv6Duo
namespace Sync

open Process (ProcState nproc)

variable {ι : Type} [DecidableEq ι] {m m' : Kernel ι} {held : Fin nproc → List ι}
  {rest : List (KernelOp ι)}

/-- A step of a process. -/
theorem Excludes.move_some (ex : Excludes m held) {i : Fin nproc} (here : m.running = some i)
    (near : Near m m') (balanced : ∀ h, locks h m.ops = some [] → locks h m'.ops = some [])
    (place : Place m' i)
    (wakes : ∀ j l, m.running ≠ some j → (m'.proc j).state = .sleeping →
      (m.proc j).chan = some (.sleep l) → .wake j (.sleep l) ∈ m.ops →
      .wake j (.sleep l) ∈ m'.ops) : Excludes m' held := by
  refine ex.move near balanced ?_ ?_ wakes
  · intro there
    rw [here] at there
    cases there
  · intro j there
    rw [here] at there
    cases there
    exact place

/-- A step of `wakeup` that changes no process. -/
theorem Excludes.waking_setOps (ex : Excludes m held) {i : Fin nproc} {l : ι}
    (here : m.running = some i) (awake : (m.proc i).state ≠ .sleeping)
    {ops first : List (KernelOp ι)} (left : ops = first ++ .release (spin l) :: rest)
    (all : ∀ op ∈ first, rouses l op) (clear : ∀ op ∈ rest, settled op)
    (balanced : ∀ h, locks h m.ops = some [] → locks h ops = some [])
    (wakes : ∀ j k, (m.proc j).state = .sleeping → (m.proc j).chan = some (.sleep k) →
      .wake j (.sleep k) ∈ m.ops → .wake j (.sleep k) ∈ ops)
    (running : m'.running = (m.setOps ops).running) (proc : m'.proc = (m.setOps ops).proc)
    (idle : m'.idle = (m.setOps ops).idle) (lock : m'.data.lock = m.data.lock)
    (locked : m'.locked (spin l) = true) : Excludes m' held := by
  have there : m'.ops = ops := (Machine.ops_congr running proc idle).trans (ops_setOps m ops)
  refine ex.move_some here (near_setOps running proc idle lock) ?_ ?_ ?_
  · rw [there]
    exact balanced
  · refine .waking ?_ l first rest (there.trans left) all clear locked
    rw [proc, state_setOps]
    exact awake
  · intro j k _ sleeps chan wake
    rw [proc, state_setOps] at sleeps
    rw [there]
    exact wakes j k sleeps chan wake

/-- Every operation of `wakeup`, as `releasesleep` calls it. -/
theorem Excludes.exec_waking (ex : Excludes m held) {i : Fin nproc} (here : m.running = some i)
    (awake : (m.proc i).state ≠ .sleeping) {l : ι} {first last : List (KernelOp ι)}
    (ops : m.ops = first ++ .release (spin l) :: last) (all : ∀ op ∈ first, rouses l op)
    (clear : ∀ op ∈ last, settled op) (locked : m.locked (spin l) = true) {op : KernelOp ι}
    (next : m.ops = op :: rest) (run : m.exec (kernel ι) rest op = .ok m') :
    Excludes m' held := by
  have lock (ops : List (KernelOp ι)) : (m.setOps ops).data.lock = m.data.lock :=
    congrArg Shared.lock (setOps_data m ops)
  have still : (m.setOps rest).locked (spin l) = true := by
    rw [setOps_locked]
    exact locked
  have beside (j : Fin nproc) (b : Bool) :
      Function.update (m.setOps rest).locked (.proc j) b (spin l) = true := by
    rw [Function.update_of_ne (by rintro ⟨⟩)]
    exact still
  cases first with
  | nil =>
      cases next.symm.trans ops
      cases release_eq run
      have left : Machine.ops { m.setOps rest with
          locked := Function.update (m.setOps rest).locked (spin l) false
          noff := (m.setOps rest).noff - 1
          sie := (m.setOps rest).noff - 1 = 0 && (m.setOps rest).intena } = rest :=
        ops_setOps m rest
      refine ex.move_some here (near_setOps rfl rfl rfl (lock rest)) ?_ (.clear ?_ ?_) ?_
      · rw [left]
        exact locks_rest next fun _ => rfl
      · change ((m.setOps rest).proc i).state ≠ .sleeping
        rw [state_setOps]
        exact awake
      · rw [left]
        exact clear
      · intro j k _ _ _ wake
        rw [next] at wake
        cases wake with
        | tail _ wake => exact (clear _ wake).elim
  | cons op' first =>
      rw [List.cons_append] at ops
      cases next.symm.trans ops
      have rouse := all op List.mem_cons_self
      have others : ∀ other ∈ first, rouses l other :=
        fun other among => all other (List.mem_cons_of_mem op among)
      cases op with
      | acquire lk =>
          cases lk with
          | other lk => exact rouse.elim
          | proc j =>
              cases run
              have left : (.acquired (.proc j) m.sie :: (first ++ .release (spin l) :: last) :
                  List (KernelOp ι)) =
                  (.acquired (.proc j) m.sie :: first) ++ .release (spin l) :: last := rfl
              refine ex.waking_setOps here awake left (List.forall_mem_cons.mpr ⟨trivial, others⟩)
                clear ?_ ?_ rfl rfl rfl (lock _) ?_
              · intro h balanced
                have left := locks_rest next (fun _ => rfl) h balanced
                exact left
              · intro k c _ _ wake
                rw [next] at wake
                cases wake with
                | tail _ wake => exact List.mem_cons_of_mem _ wake
              · rw [setOps_locked]
                exact locked
      | acquired lk old =>
          cases lk with
          | other lk => exact rouse.elim
          | proc j =>
              cases take_eq run
              refine ex.waking_setOps here awake rfl others clear (locks_rest next fun _ => rfl) ?_
                rfl rfl rfl (lock _) ?_
              · intro k c _ _ wake
                rw [next] at wake
                cases wake with
                | tail _ wake => exact wake
              · exact beside j true
      | release lk =>
          cases lk with
          | other lk => exact rouse.elim
          | proc j =>
              cases release_eq run
              refine ex.waking_setOps here awake rfl others clear (locks_rest next fun _ => rfl) ?_
                rfl rfl rfl (lock _) ?_
              · intro k c _ _ wake
                rw [next] at wake
                cases wake with
                | tail _ wake => exact wake
              · exact beside j false
      | wake j chan =>
          cases (show chan = .sleep l from rouse)
          rw [Machine.exec] at run
          dsimp only at run
          split at run
          · next asleep =>
              cases run
              rw [state_setOps] at asleep
              have other : m.running ≠ some j := by
                rw [here]
                rintro same
                cases same
                exact awake asleep.1
              have elsewhere : i ≠ j := by
                rintro rfl
                exact other here
              have left : ((m.setOps (first ++ .release (spin l) :: last)).setProc j
                  { (m.setOps (first ++ .release (spin l) :: last)).proc j with
                    state := .runnable }).ops = first ++ .release (spin l) :: last := by
                rw [ops_setProc_of_ne (by rw [setOps_running]; exact other), ops_setOps]
              refine ex.move_some here (near_runnable other) ?_ (.waking ?_ l first last ?_ others
                clear ?_) ?_
              · rw [left]
                exact locks_rest next fun _ => rfl
              · rw [setProc_of_ne _ elsewhere, state_setOps]
                exact awake
              · exact left
              · exact still
              · intro k c _ sleeps _ wake
                rw [left]
                rw [next] at wake
                cases wake with
                | head =>
                    rw [setProc_self] at sleeps
                    cases sleeps
                | tail _ wake => exact wake
          · next unasleep =>
              cases run
              refine ex.waking_setOps here awake rfl others clear (locks_rest next fun _ => rfl) ?_
                rfl rfl rfl (lock _) still
              intro k c sleeps chan wake
              rw [next] at wake
              cases wake with
              | head =>
                  rw [state_setOps, chan_setOps] at unasleep
                  exact absurd ⟨sleeps, chan⟩ unasleep
              | tail _ wake => exact wake
      | _ => exact rouse.elim

/-- A step of `sleep`. -/
theorem Excludes.dozing_move (ex : Excludes m held) {i : Fin nproc} {l : ι}
    (here : m.running = some i) {last : List (KernelOp ι)}
    (busy : (m.data.lock l).locked = true) (clear : ∀ op ∈ last, settled op)
    (place : Dozing m i l last m.ops) {op : KernelOp ι} (next : m.ops = op :: rest)
    (same : ∀ h, opLocks h op = some h) (near : Near m m') (after : Dozing m' i l last m'.ops)
    (left : ∀ h, locks h rest = some [] → locks h m'.ops = some []) : Excludes m' held := by
  refine ex.move_some here near (fun h balanced => left h (locks_rest next same h balanced))
    (.dozing l last ?_ clear after) ?_
  · rw [near.lock]
    exact busy
  · intro j k _ _ _ wake
    exact (place.no_wake clear wake).elim

/-- Every operation of `sleep`, as `acquiresleep` calls it. -/
theorem Excludes.exec_dozing (good : Good (kernelDiscipline ι) m) (ex : Excludes m held)
    {i : Fin nproc} (here : m.running = some i) {l : ι} {last : List (KernelOp ι)}
    (busy : (m.data.lock l).locked = true) (clear : ∀ op ∈ last, settled op)
    (place : Dozing m i l last m.ops) {op : KernelOp ι} (next : m.ops = op :: rest)
    (run : m.exec (kernel ι) rest op = .ok m') : Excludes m' held := by
  have lock (ops : List (KernelOp ι)) : (m.setOps ops).data.lock = m.data.lock :=
    congrArg Shared.lock (setOps_data m ops)
  have still (ops : List (KernelOp ι)) (awake : (m.proc i).state ≠ .sleeping) :
      ((m.setOps ops).proc i).state ≠ .sleeping := by
    rw [state_setOps]
    exact awake
  have from_here := place
  rw [next] at place
  cases place with
  | acquire awake locked =>
      cases run
      refine ex.dozing_move here busy clear from_here next (fun _ => rfl)
        (near_setOps rfl rfl rfl (lock _)) ?_ ?_
      · rw [ops_setOps]
        refine .acquired _ (still _ awake) ?_
        rw [setOps_locked]
        exact locked
      · rw [ops_setOps]
        exact fun h balanced => balanced
  | acquired old awake locked =>
      cases take_eq run
      have left := ops_setOps m (.release (spin l) :: .setChan (some (.sleep l)) ::
        .setState .sleeping :: .sched :: last)
      refine ex.dozing_move here busy clear from_here next (fun _ => rfl)
        (near_setOps rfl rfl rfl (lock _)) ?_ ?_
      · change Dozing _ i l last (m.setOps _).ops
        rw [left]
        exact .release (still _ awake) (Function.update_self ..)
      · change ∀ h, _ → locks h (m.setOps _).ops = some []
        rw [left]
        exact fun h balanced => balanced
  | release awake locked =>
      cases release_eq run
      have left :=
        ops_setOps m (.setChan (some (.sleep l)) :: .setState .sleeping :: .sched :: last)
      refine ex.dozing_move here busy clear from_here next (fun _ => rfl)
        (near_setOps rfl rfl rfl (lock _)) ?_ ?_
      · change Dozing _ i l last (m.setOps _).ops
        rw [left]
        refine .setChan (still _ awake) ?_
        change Function.update (m.setOps _).locked (spin l) false (.proc i) = true
        rw [Function.update_of_ne (by rintro ⟨⟩), setOps_locked]
        exact locked
      · change ∀ h, _ → locks h (m.setOps _).ops = some []
        rw [left]
        exact fun h balanced => balanced
  | setChan awake locked =>
      rw [Machine.exec, here] at run
      cases run
      refine ex.dozing_move here busy clear from_here next (fun _ => rfl)
        ((local_setProc here _).near rfl) ?_ ?_
      · rw [ops_setProc here]
        refine .setState ?_ locked ?_
        · rw [setProc_self]
          exact awake
        · rw [setProc_self]
      · rw [ops_setProc here]
        exact fun h balanced => balanced
  | setState awake locked chan =>
      rw [Machine.exec, here] at run
      cases run
      refine ex.dozing_move here busy clear from_here next (fun _ => rfl)
        ((local_setProc here _).near rfl) ?_ ?_
      · rw [ops_setProc here]
        refine .sched locked ?_
        rw [setProc_self]
        exact chan
      · rw [ops_setProc here]
        exact fun h balanced => balanced
  | sched locked chan =>
      rw [Machine.exec, here] at run
      cases sched_eq run
      exact Excludes.switch good ex here
        next (fun wake => (from_here.no_wake clear wake).elim) clear

/-- Every operation. -/
theorem Excludes.exec (good : Good (kernelDiscipline ι) m) (ex : Excludes m held)
    {op : KernelOp ι} (next : m.ops = op :: rest) (run : m.exec (kernel ι) rest op = .ok m') :
    ∃ held', Excludes m' held' := by
  cases here : m.running with
  | none =>
      have clear : Clear m := by
        refine ⟨fun i there => ?_, ?_⟩
        · rw [here] at there
          cases there
        · rw [Machine.ops_of_none here]
          exact ex.handlers here
      exact ex.exec_clear good clear next run
  | some i =>
      cases ex.place i here with
      | clear awake clear =>
          refine ex.exec_clear good ⟨fun j there => ?_, clear⟩ next run
          cases here.symm.trans there
          exact awake
      | waking awake l first last ops all clear locked =>
          exact ⟨held, ex.exec_waking here awake ops all clear locked next run⟩
      | dozing l last busy clear place =>
          exact ⟨held, Excludes.exec_dozing good ex here busy clear place next run⟩

end Sync
end Xv6Duo
