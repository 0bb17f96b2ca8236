import Xv6Duo.Process.Table

/-!
# Reaping children

`wait4` of `kernel/proc.c`. One pass over the process table frees the first selected child that it
takes for dead; a call makes a pass each time it has been woken, over the table as it is then. With
`WNOHANG` every selected child counts as dead, with `WUNTRACED` also a sleeping one.
-/

namespace Xv6Duo
namespace Process

/-- `WNOHANG`. -/
def wnohang : UInt32 := 1

/-- `WUNTRACED`. -/
def wuntraced : UInt32 := 2

/-- `sizeof(struct rusage)`. -/
def rusageSize : Nat := 272

/-- The arguments of `wait4`, its caller, and the addresses that the page table of the caller can
write: `copyout` succeeds there. -/
structure WaitCall where
  /-- Caller. -/
  caller : Fin nproc
  /-- Selected children. -/
  pid : Int32
  /-- Where the status goes. -/
  status : UInt64
  /-- Options. -/
  options : UInt32
  /-- Where the resource usage goes. -/
  ru : UInt64
  /-- `copyout` of so many bytes to an address of the caller succeeds. -/
  copyout : UInt64 → Nat → Bool

/-- The copies to the caller succeed. -/
def WaitCall.copies (c : WaitCall) : Bool :=
  (c.status = 0 ∨ c.copyout c.status 4) ∧ (c.ru = 0 ∨ c.copyout c.ru rusageSize)

/-- The test under which `wait4` frees a selected child. -/
def WaitCall.takes (c : WaitCall) (p : Proc) : Bool :=
  p.state = .zombie ∨ (c.options &&& wuntraced ≠ 0 ∧ p.state = .sleeping) ∨
    c.options &&& wnohang ≠ 0

/-- How a pass over the table ends. -/
inductive Scan
  /-- At a child that is freed. -/
  | reaped (pp : Fin nproc)
  /-- At a child whose status can not be copied out. -/
  | fault
  /-- At the end of the table, with the variable `kids`. -/
  | passed (kids : Bool)
  deriving DecidableEq

/-- The loop of `wait4` over the table. -/
def WaitCall.scan (c : WaitCall) (t : Table) : List (Fin nproc) → Bool → Scan
  | [], kids => .passed kids
  | pp :: rest, kids =>
      if selects t c.caller c.pid pp then
        if c.takes (t pp) then if c.copies then .reaped pp else .fault
        else c.scan t rest true
      else c.scan t rest kids

/-- What a pass does. -/
inductive Outcome
  /-- `wait4` returns a value, after `freeproc` of a child or of none. -/
  | returns (value : Int) (freed : Option (Fin nproc)) (t : Table)
  /-- The caller sleeps until it is woken, with the variable `kids`. -/
  | sleeps (kids : Bool)

/-- One pass of `wait4`. -/
def WaitCall.pass (c : WaitCall) (t : Table) (kids : Bool) : Outcome :=
  match c.scan t (List.finRange nproc) kids with
  | .reaped pp => .returns (t pp).pid.toInt (some pp) (Function.update t pp (freeproc (t pp)))
  | .fault => .returns (-efault) none t
  | .passed kids =>
      if ¬kids ∨ (t c.caller).killed then .returns (-echild) none t else .sleeps kids

/-- The passes of a call that finds the given tables, one each time it holds `wait_lock`. -/
def WaitCall.passes (c : WaitCall) : Bool → List Table → List (Table × Outcome)
  | _, [] => []
  | kids, t :: later =>
      (t, c.pass t kids) ::
        match c.pass t kids with
        | .returns .. => []
        | .sleeps kids => c.passes kids later

/-- `wait4`, from the first pass on. -/
def WaitCall.wait4 (c : WaitCall) (found : List Table) : List (Table × Outcome) :=
  c.passes false found

/-! ## What a pass does -/

/-- The selected child is dead. -/
def WaitCall.dead (c : WaitCall) (t : Table) (pp : Fin nproc) : Prop :=
  selects t c.caller c.pid pp = true ∧ (t pp).state = .zombie

/-- A pass frees only a dead selected child, every slot in use keeps its contents, and with
`WNOHANG` a pass without a dead child returns `0` and changes nothing. -/
structure ReapsDead (c : WaitCall) (t : Table) (o : Outcome) : Prop where
  /-- `freeproc` is called on a dead child. -/
  freed : ∀ value pp t', o = .returns value (some pp) t' → c.dead t pp
  /-- Live processes keep everything. -/
  kept : ∀ value freed t', o = .returns value freed t' →
    ∀ pp, (t pp).state ≠ .unused → (t pp).state ≠ .zombie → t' pp = t pp
  /-- `WNOHANG` does not wait and does not free a live child. -/
  nohang : c.options &&& wnohang ≠ 0 → (∀ pp, ¬c.dead t pp) → o = .returns 0 none t

/-- With `WNOHANG` there is a dead child, and every live child that a pass would take comes behind a
dead one, unless the copies to the caller fail. -/
def Spares (c : WaitCall) (t : Table) : Prop :=
  (c.options &&& wnohang ≠ 0 → ∃ pp, c.dead t pp) ∧
    (c.copies = true → ∀ pp, selects t c.caller c.pid pp = true → (t pp).state ≠ .zombie →
      (c.options &&& wnohang ≠ 0 ∨ c.options &&& wuntraced ≠ 0 ∧ (t pp).state = .sleeping) →
      ∃ qq < pp, c.dead t qq)

/-- A child at which the loop stops. -/
def WaitCall.stops (c : WaitCall) (t : Table) (pp : Fin nproc) : Bool :=
  selects t c.caller c.pid pp ∧ c.takes (t pp)

theorem scan_eq_find (c : WaitCall) (t : Table) (slots : List (Fin nproc)) (kids : Bool) :
    c.scan t slots kids =
      match slots.find? (c.stops t) with
      | some pp => if c.copies then .reaped pp else .fault
      | none => .passed (kids || slots.any fun pp => selects t c.caller c.pid pp) := by
  induction slots generalizing kids with
  | nil => simp [WaitCall.scan]
  | cons pp rest ih =>
      rw [WaitCall.scan]
      cases selected : selects t c.caller c.pid pp with
      | false => simp [ih, selected, WaitCall.stops]
      | true =>
          cases taken : c.takes (t pp) with
          | false => simp [ih, selected, taken, WaitCall.stops]
          | true => simp [selected, taken, WaitCall.stops]

/-- The first child of the table at which the loop stops. -/
theorem find_stops {c : WaitCall} {t : Table} {pp : Fin nproc}
    (found : (List.finRange nproc).find? (c.stops t) = some pp) :
    c.stops t pp = true ∧ ∀ qq < pp, c.stops t qq = false := by
  obtain ⟨stops, i, i_lt, rfl, before⟩ := List.find?_eq_some_iff_getElem.mp found
  refine ⟨stops, fun qq behind => ?_⟩
  rw [List.getElem_finRange] at behind
  have passed := before qq.val behind
  simpa [List.getElem_finRange] using passed

theorem dead_stops {c : WaitCall} {t : Table} {pp : Fin nproc} (dead : c.dead t pp) :
    c.stops t pp = true := by
  simp [WaitCall.stops, dead.1, WaitCall.takes, dead.2]

theorem stops_live {c : WaitCall} {t : Table} {pp : Fin nproc}
    (selected : selects t c.caller c.pid pp = true) (live : (t pp).state ≠ .zombie) :
    c.stops t pp = true ↔
      c.options &&& wnohang ≠ 0 ∨ c.options &&& wuntraced ≠ 0 ∧ (t pp).state = .sleeping := by
  simp [WaitCall.stops, selected, WaitCall.takes, live, or_comm]

/-- A pass that ends without a stop frees nothing. -/
theorem reapsDead_unchanged {c : WaitCall} {t : Table} {value : Int} (error : value ≠ 0) :
    ReapsDead c t (.returns value none t) ↔ (c.options &&& wnohang ≠ 0 → ∃ pp, c.dead t pp) := by
  constructor
  · intro safe nohang
    by_contra none_dead
    have zero := safe.nohang nohang (not_exists.mp none_dead)
    simp only [Outcome.returns.injEq] at zero
    exact error zero.1
  · intro dead
    refine ⟨fun _ _ _ same => by simp at same, ?_, ?_⟩
    · intro _ _ t' same pp _ _
      simp only [Outcome.returns.injEq] at same
      rw [same.2.2]
    · intro nohang none_dead
      obtain ⟨pp, is_dead⟩ := dead nohang
      exact absurd is_dead (none_dead pp)

theorem reapsDead_sleeps {c : WaitCall} {t : Table} {kids : Bool} :
    ReapsDead c t (.sleeps kids) ↔ (c.options &&& wnohang ≠ 0 → ∃ pp, c.dead t pp) := by
  constructor
  · intro safe nohang
    by_contra none_dead
    have zero := safe.nohang nohang (not_exists.mp none_dead)
    simp at zero
  · intro dead
    refine ⟨fun _ _ _ same => by simp at same, fun _ _ _ same => by simp at same, ?_⟩
    intro nohang none_dead
    obtain ⟨pp, is_dead⟩ := dead nohang
    exact absurd is_dead (none_dead pp)

theorem reapsDead_freed {c : WaitCall} {t : Table} {value : Int} {pp : Fin nproc} :
    ReapsDead c t (.returns value (some pp) (Function.update t pp (freeproc (t pp)))) ↔
      c.dead t pp := by
  constructor
  · intro safe
    exact safe.freed value pp _ rfl
  · intro dead
    refine ⟨?_, ?_, fun _ none_dead => absurd dead (none_dead pp)⟩
    · intro _ pp' _ same
      simp only [Outcome.returns.injEq, Option.some.injEq] at same
      exact same.2.1 ▸ dead
    · intro _ _ t' same qq _ live
      simp only [Outcome.returns.injEq] at same
      have differ : qq ≠ pp := by
        rintro rfl
        exact live dead.2
      rw [← same.2.2, Function.update_of_ne differ]

/-- One pass keeps to dead children exactly if the table spares the live ones. -/
theorem pass_reapsDead_iff (c : WaitCall) (t : Table) (kids : Bool) :
    ReapsDead c t (c.pass t kids) ↔ Spares c t := by
  rw [WaitCall.pass, scan_eq_find]
  cases found : (List.finRange nproc).find? (c.stops t) with
  | none =>
      have passed : ∀ pp, c.stops t pp = false := by
        simpa using List.find?_eq_none.mp found
      have spares : Spares c t ↔ (c.options &&& wnohang ≠ 0 → ∃ pp, c.dead t pp) := by
        refine ⟨And.left, fun dead => ⟨dead, fun _ pp selected live taken => ?_⟩⟩
        have stops := (stops_live selected live).mpr taken
        simp [passed pp] at stops
      rw [spares]
      dsimp only
      split
      · exact reapsDead_unchanged (by decide)
      · exact reapsDead_sleeps
  | some pp =>
      obtain ⟨stops, before⟩ := find_stops found
      have selected : selects t c.caller c.pid pp = true := by
        simp only [WaitCall.stops, Bool.decide_and, Bool.and_eq_true, decide_eq_true_eq] at stops
        exact stops.1
      cases copied : c.copies with
      | false =>
          have spares : Spares c t ↔ (c.options &&& wnohang ≠ 0 → ∃ pp, c.dead t pp) := by
            simp [Spares, copied]
          rw [spares]
          exact reapsDead_unchanged (by decide)
      | true =>
          refine reapsDead_freed.trans ⟨fun dead => ⟨fun _ => ⟨pp, dead⟩, ?_⟩, fun spares => ?_⟩
          · intro _ qq selected_qq live taken
            have stops_qq := (stops_live selected_qq live).mpr taken
            rcases lt_trichotomy pp qq with behind | rfl | ahead
            · exact ⟨pp, behind, dead⟩
            · exact absurd dead.2 live
            · simp [before qq ahead] at stops_qq
          · refine ⟨selected, ?_⟩
            by_contra live
            obtain ⟨qq, ahead, dead⟩ :=
              spares.2 copied pp selected live ((stops_live selected live).mp stops)
            have stops_qq := dead_stops dead
            simp [before qq ahead] at stops_qq

/-- A call of `wait4` keeps to dead children in all of its passes exactly if each table that it
finds spares the live ones. -/
theorem wait4_reapsDead_iff (c : WaitCall) (found : List Table) :
    (∀ made ∈ c.wait4 found, ReapsDead c made.1 made.2) ↔
      ∀ made ∈ c.wait4 found, Spares c made.1 := by
  have made_by_pass : ∀ kids, ∀ made ∈ c.passes kids found, ∃ kids,
    made.2 = c.pass made.1 kids := by
    induction found with
    | nil => simp [WaitCall.passes]
    | cons t later ih =>
        intro kids made mem
        rw [WaitCall.passes] at mem
        rcases List.mem_cons.mp mem with rfl | mem
        · exact ⟨kids, rfl⟩
        · cases outcome : c.pass t kids with
          | returns value freed t' => simp [outcome] at mem
          | sleeps kids' =>
              rw [outcome] at mem
              exact ih kids' made mem
  refine forall₂_congr fun made mem => ?_
  obtain ⟨kids, by_pass⟩ := made_by_pass false made mem
  rw [by_pass]
  exact pass_reapsDead_iff c made.1 kids

/-- A free slot. -/
def idleProc : Proc where
  state := .unused
  chan := none
  killed := false
  xstate := 0
  pid := 0
  pgid := 0
  sid := 0
  parent := none
  cred := ⟨noId, noId, noId, noId, 0, 0⟩
  capInheritable := 0
  gids _ := noId
  sz := 0
  pagetable := none
  trapframe := none
  umask := 0
  fdflag := 0
  ofile _ := none
  cwd := none
  name := []
  regions := []
  signal := []

/-- A shell in slot `0` with one child in slot `1`. -/
def shellTable : Table := fun pp =>
  if pp.val = 0 then { idleProc with state := .running, pid := 1, pgid := 1 }
  else if pp.val = 1 then
    { idleProc with
      state := .runnable, pid := 2, pgid := 1, parent := some ⟨0, nproc_pos⟩,
      pagetable := some 4096 }
  else idleProc

/-- `wait4(-1, NULL, WNOHANG, NULL)` of the shell. -/
def pollChildren : WaitCall := ⟨⟨0, nproc_pos⟩, -1, 0, wnohang, 0, fun _ _ => true⟩

/-- A poll for exited children frees the runnable child and returns its id. -/
theorem pollChildren_frees_live :
    ¬∀ made ∈ pollChildren.wait4 [shellTable], ReapsDead pollChildren made.1 made.2 := by
  intro safe
  have scanned : pollChildren.scan shellTable (List.finRange nproc) false =
      .reaped ⟨1, by decide⟩ := by decide +kernel
  have reaps := safe (shellTable, pollChildren.pass shellTable false)
    (by simp [WaitCall.wait4, WaitCall.passes])
  rw [WaitCall.pass, scanned] at reaps
  have dead := reaps.freed _ _ _ rfl
  exact absurd dead.2 (by decide)

end Process
end Xv6Duo
